import Mathlib.Algebra.BigOperators.Intervals
import VertexOS.Core.Commands
import VertexOS.Vfs.OpenFile

namespace VertexOS
open Library.BlockStore

/-- The sectors taken from the free end while a file grows from `held` sectors to
`need`, one at a time: each growth moves the whole file. -/
def growth (held need : Nat) : Nat := ∑ k ∈ Finset.Ioc held need, k

theorem growth_step (h : held < need) : growth held need = held + 1 + growth (held + 1) need := by
  unfold growth
  rw [← Finset.sum_Ioc_consecutive _ (Nat.le_succ held) h]
  simp

/-- The sectors a file can be written in without moving. -/
def Entry.held (e : Entry) : Nat := if e.startLba = 0 then 0 else e.capacitySectors.toNat

theorem Entry.held_of_start {e : Entry} (h : e.startLba ≠ 0) : e.held = e.capacitySectors.toNat :=
  if_neg h

theorem Allocation.size_le_held (hx : Allocation sb es) (hf : (es n).IsFile) :
    (es n).size.toNat ≤ 512 * (es n).held := by
  by_cases hs : (es n).startLba = 0
  · rw [hx.unallocated n hf hs]
    exact Nat.zero_le _
  · rw [Entry.held_of_start hs]
    exact hx.fits n hf

/-- A volume after `bytes` were appended to file `m`, with room to grow to `need`
sectors. -/
structure Appended (s : SimpleFs) (m : Fin 64) (bytes : List UInt8) (need : Nat)
    (s' : SimpleFs) : Prop where
  kept : Kept s s'
  reliable : s'.dev.Reliable
  allocation : Allocation s'.super s'.entries
  room : s'.super.nextFreeLba.toNat + growth (s'.entries m).held need ≤ 65536
  other : ∀ k, k ≠ m → s'.entries k = s.entries k
  written : content s'.entries s'.dev.sectors m = content s.entries s.dev.sectors m ++ bytes
  content : ∀ k, k ≠ m → (s.entries k).IsFile →
    content s'.entries s'.dev.sectors k = VertexOS.content s.entries s.dev.sectors k

theorem WriteRun.appended {ws1 ws2 : List (Write 512)}
    (h : WriteRun s m (s.entries m).size data len s1 ws1 ws2 s')
    (hrun : sfsWrite s (slotId m) (s.entries m).size data len = (s', some len))
    (hr : s.dev.Reliable) (hx : Allocation s.super s.entries) (hf : (s.entries m).IsFile)
    (hwrap : (s.entries m).size.toNat + len.toNat + 511 < 4294967296)
    (hroom : Reserved s1 m (needSectors (s.entries m).size len))
    (hrest : s'.super.nextFreeLba.toNat + growth (s'.entries m).held need ≤ 65536) :
    Appended s m (dataBytes data len) need s' := by
  have hkept := sfsWrite_kept s (slotId m) (s.entries m).size data len
  rw [hrun] at hkept
  refine ⟨hkept, h.allWrites.reliable hr, h.allocation hx hf hwrap hroom, hrest,
    fun k hk => h.other hk, ?_, fun k hk hfk => h.content_other hx hf hwrap hroom hk hfk⟩
  have hlen := content_length s.entries s.dev.sectors m
  rw [h.content_self hf (Nat.le_refl _) hwrap hroom, List.take_of_length_le hlen.le,
    List.drop_eq_nil_of_le (by omega), List.append_nil]

/-- An append of at most one sector's worth of bytes succeeds while there is room. -/
theorem sfsWrite_appends (hr : s.dev.Reliable) (hx : Allocation s.super s.entries)
    (hf : (s.entries m).IsFile) (hp : (s.entries m).perm &&& sfsPermWrite ≠ 0)
    (hlen : 0 < len.toNat ∧ len.toNat ≤ 512)
    (hneed : ((s.entries m).size.toNat + len.toNat + 511) / 512 ≤ need)
    (hsmall : need ≤ 65536)
    (hroom : s.super.nextFreeLba.toNat + growth (s.entries m).held need ≤ 65536)
    (data : Nat → UInt8) :
    ∃ s', sfsWrite s (slotId m) (s.entries m).size data len = (s', some len) ∧
      Appended s m (dataBytes data len) need s' := by
  have hwrap : (s.entries m).size.toNat + len.toNat + 511 < 4294967296 := by omega
  have hsectors := needSectors_toNat hwrap
  have hheld := hx.size_le_held hf
  by_cases hin : (needSectors (s.entries m).size len).toNat ≤ (s.entries m).held
  · have hstart : (s.entries m).startLba ≠ 0 := by
      intro h0
      rw [Entry.held, if_pos h0] at hin
      omega
    have hres : Reserved s m (needSectors (s.entries m).size len) :=
      ⟨hx, hstart, by rwa [← Entry.held_of_start hstart]⟩
    obtain ⟨ws2, s', hrun, h⟩ := sfsWrite_inside hr hf hp hwrap hres (by omega) data
    refine ⟨s', hrun, h.appended hrun hr hx hf hwrap hres ?_⟩
    have hsame : (s'.entries m).held = (s.entries m).held := by
      rw [h.self]
      rfl
    rw [h.super, hsame]
    exact hroom
  · have hone : (needSectors (s.entries m).size len).toNat = (s.entries m).held + 1 := by omega
    have hgrow := growth_step (show (s.entries m).held < need by omega)
    have hnext : s.super.nextFreeLba.toNat +
        ((s.entries m).size.toNat + len.toNat + 511) / 512 ≤ 65536 := by omega
    obtain ⟨s1, ws1, ws2, s', hrun, h, hres⟩ := sfsWrite_run hr hx hf hp hwrap hnext data
    refine ⟨s', hrun, h.appended hrun hr hx hf hwrap hres ?_⟩
    have hheld' : (s'.entries m).held = (s1.entries m).capacitySectors.toNat := by
      rw [h.self]
      exact Entry.held_of_start hres.start
    rw [h.super, hheld']
    cases h.placed with
    | kept hs hc =>
      rw [Entry.held_of_start hs] at hin
      exact absurd hc hin
    | grown hw ht hcopy hsize =>
      simp only [grow_super, grow_self, UInt32.toNat_add, hone]
      omega

theorem openFd_slot {v : Vfs} {i : Fin 16} (h : v.fds i = ⟨1, nodeId, offset, flags⟩)
    (hflag : flags &&& flag ≠ 0) : openFd v i.val flag = some i := by
  have hi := i.isLt
  have hslot : Fin.ofNat 16 (i.val : Int).toNat = i := Fin.ext (Nat.mod_eq_of_lt hi)
  unfold openFd
  rw [if_pos (by omega)]
  dsimp only
  rw [hslot, h]
  exact if_neg (by simp [hflag])

@[simp] theorem advance_fs (v : Vfs) (fs : SimpleFs) (i : Fin 16) (count : UInt32) :
    (v.advance fs i count).fs = fs := rfl

theorem advance_self {v : Vfs} (h : v.fds i = ⟨used, nodeId, offset, flags⟩) (fs : SimpleFs)
    (count : UInt32) :
    (v.advance fs i count).fds i = ⟨used, nodeId, offset + count, flags⟩ := by
  simp [Vfs.advance, h]

theorem advance_other (v : Vfs) (fs : SimpleFs) (count : UInt32) (hj : j ≠ i) :
    (v.advance fs i count).fds j = v.fds j := by
  simp [Vfs.advance, hj]

section Turn

variable {inFd outFd : Int} {v v' v'' : Vfs} {fuel : Nat}

theorem copyTurn_end (hread : vfsRead v inFd 128 = (v', [])) :
    copyTurn inFd outFd v = (v', some true) := by
  rw [copyTurn, hread]
  exact if_pos rfl

theorem copyTurn_next {buf : List UInt8} {n : UInt32}
    (hread : vfsRead v inFd 128 = (v', buf)) (hn : UInt32.ofNat buf.length = n) (h0 : n ≠ 0)
    (hwrite : vfsWrite v' outFd (fun k => buf.getD k 0) n = (v'', n)) :
    copyTurn inFd outFd v = (v'', none) := by
  rw [copyTurn, hread]
  dsimp only
  rw [hn, if_neg h0, hwrite]
  dsimp only
  rw [if_neg (not_not.mpr rfl)]

theorem copyFileLoop_end (h : copyTurn inFd outFd v = (v', some ok)) :
    copyFileLoop inFd outFd (fuel + 1) v = some (v', ok) := by
  rw [copyFileLoop, h]

theorem copyFileLoop_next (h : copyTurn inFd outFd v = (v', none)) :
    copyFileLoop inFd outFd (fuel + 1) v = copyFileLoop inFd outFd fuel v' := by
  rw [copyFileLoop, h]

/-- More fuel does not change where the loop ends. -/
theorem copyFileLoop_mono (h : copyFileLoop inFd outFd fuel v = some r) (hle : fuel ≤ fuel') :
    copyFileLoop inFd outFd fuel' v = some r := by
  induction fuel generalizing v fuel' with
  | zero => cases h
  | succ fuel ih =>
    obtain ⟨k, rfl⟩ : ∃ k, fuel' = k + 1 := ⟨fuel' - 1, by omega⟩
    rw [copyFileLoop] at h ⊢
    split at h
    · exact h
    · exact ih h (by omega)

end Turn

/-- Two descriptors in the middle of a copy: `done` bytes of `file` have been
copied from node `n` to node `m`. -/
structure Copying (file : List UInt8) (inFd outFd : Fin 16) (n m : Fin 64) (done : Nat)
    (v : Vfs) : Prop where
  fds : inFd ≠ outFd
  nodes : n ≠ m
  reading : v.fds inFd = ⟨1, slotId n, UInt32.ofNat done, vfsORead⟩
  writing : v.fds outFd = ⟨1, slotId m, UInt32.ofNat done, copyFlags⟩
  reliable : v.fs.dev.Reliable
  allocation : Allocation v.fs.super v.fs.entries
  source : (v.fs.entries n).IsFile
  readable : (v.fs.entries n).perm &&& sfsPermRead ≠ 0
  target : (v.fs.entries m).IsFile
  writable : (v.fs.entries m).perm &&& sfsPermWrite ≠ 0
  original : content v.fs.entries v.fs.dev.sectors n = file
  copy : content v.fs.entries v.fs.dev.sectors m = file.take done
  progress : done ≤ file.length
  short : file.length ≤ 512 * 65536
  room : v.fs.super.nextFreeLba.toNat +
    growth (v.fs.entries m).held ((file.length + 511) / 512) ≤ 65536

section Copying

variable {file : List UInt8} {inFd outFd : Fin 16} {n m : Fin 64} {done : Nat} {v : Vfs}

theorem Copying.size (h : Copying file inFd outFd n m done v) :
    (v.fs.entries m).size = UInt32.ofNat done := by
  have hlen := content_length v.fs.entries v.fs.dev.sectors m
  have hprogress := h.progress
  have hshort := h.short
  rw [h.copy, List.length_take] at hlen
  apply UInt32.toNat_inj.mp
  rw [UInt32.toNat_ofNat']
  omega

/-- The read of one turn delivers the next bytes of the file. -/
theorem Copying.read (h : Copying file inFd outFd n m done v) : ∃ fs,
    vfsRead v inFd.val 128 = (v.advance fs inFd
      (UInt32.ofNat ((file.drop done).take 128).length), (file.drop done).take 128) ∧
    fs.super = v.fs.super ∧ fs.entries = v.fs.entries ∧
      fs.dev.sectors = v.fs.dev.sectors ∧ fs.dev.Reliable := by
  have hprogress := h.progress
  have hshort := h.short
  have hopen : openFd v inFd.val vfsORead = some inFd := openFd_slot h.reading (by decide)
  have hdone : (UInt32.ofNat done).toNat = done := by
    rw [UInt32.toNat_ofNat']
    omega
  have hread := sfsRead_content h.reliable h.allocation h.source h.readable
    (le_trans (Nat.le_add_right _ _) h.room) (UInt32.ofNat done) 128
  rw [h.original, hdone] at hread
  obtain ⟨hsup, hent, hdev⟩ := sfsRead_confined ∅ v.fs (slotId n) (UInt32.ofNat done) 128
  cases hr : sfsRead v.fs (slotId n) (UInt32.ofNat done) 128 with
  | mk fs out =>
    rw [hr] at hread hsup hent hdev
    obtain rfl : out = some ((file.drop done).take 128) := hread
    refine ⟨fs, ?_, hsup, hent, funext fun b => hdev.sectors b (Set.notMem_empty b),
      hdev.reliable h.reliable⟩
    simp only [vfsRead, hopen, h.reading, hr]

/-- One turn that reads something: what was read is appended to the copy. -/
theorem Copying.write (h : Copying file inFd outFd n m done v)
    (hmore : done < file.length)
    (hfs : fs.super = v.fs.super ∧ fs.entries = v.fs.entries ∧
      fs.dev.sectors = v.fs.dev.sectors ∧ fs.dev.Reliable) (buf : List UInt8)
    (hbuf : buf = (file.drop done).take 128) : ∃ v',
    vfsWrite (v.advance fs inFd (UInt32.ofNat buf.length)) outFd.val (fun k => buf.getD k 0)
      (UInt32.ofNat buf.length) = (v', UInt32.ofNat buf.length) ∧
    Copying file inFd outFd n m (done + buf.length) v' ∧ Kept v.fs v'.fs ∧ v'.ctx = v.ctx := by
  obtain ⟨hsup, hent, hsec, hrel⟩ := hfs
  have hshort := h.short
  have hlen : buf.length = min 128 (file.length - done) := by
    rw [hbuf, List.length_take, List.length_drop]
  have hcount : (UInt32.ofNat buf.length).toNat = buf.length := by
    rw [UInt32.toNat_ofNat']
    omega
  have hsum : UInt32.ofNat done + UInt32.ofNat buf.length = UInt32.ofNat (done + buf.length) := by
    apply UInt32.toNat_inj.mp
    simp only [UInt32.toNat_add, UInt32.toNat_ofNat']
    omega
  have hsize := h.size
  have hdone : (v.fs.entries m).size.toNat = done := by
    rw [hsize, UInt32.toNat_ofNat']
    omega
  have hdata : dataBytes (fun k => buf.getD k 0) (UInt32.ofNat buf.length) = buf := by
    unfold dataBytes
    rw [hcount]
    apply List.ext_getElem
    · simp
    · intro k hk hk'
      simp [hk']
  have hneed : ((fs.entries m).size.toNat + (UInt32.ofNat buf.length).toNat + 511) / 512 ≤
      (file.length + 511) / 512 := by
    rw [hent, hdone, hcount]
    omega
  obtain ⟨fs', hrun, happ⟩ := sfsWrite_appends (s := fs) (m := m) hrel
    (by rw [hsup, hent]; exact h.allocation) (by rw [hent]; exact h.target)
    (by rw [hent]; exact h.writable) (by rw [hcount]; omega) hneed (by omega)
    (by rw [hsup, hent]; exact h.room) (fun k => buf.getD k 0)
  rw [hdata] at happ
  rw [hent, hsize] at hrun
  have hopen : openFd (v.advance fs inFd (UInt32.ofNat buf.length)) outFd.val vfsOWrite =
      some outFd :=
    openFd_slot ((advance_other v fs _ h.fds.symm).trans h.writing)
      (show copyFlags &&& vfsOWrite ≠ 0 by decide)
  have hkept := happ.kept
  have hshape := happ.kept.shape
  rw [hent] at hshape
  have hstay : content fs.entries fs.dev.sectors = content v.fs.entries v.fs.dev.sectors := by
    rw [hent, hsec]
  refine ⟨(v.advance fs inFd (UInt32.ofNat buf.length)).advance fs' outFd
    (UInt32.ofNat buf.length), ?_, ?_, ⟨hshape, by rw [← hsup]; exact hkept.root⟩, rfl⟩
  · have hout := advance_other v fs (UInt32.ofNat buf.length) h.fds.symm
    simp only [vfsWrite, hopen, hout, h.writing, advance_fs, hrun]
  · refine ⟨h.fds, h.nodes, ?_, ?_, happ.reliable, happ.allocation, (hshape.isFile n).mpr h.source,
      ?_, (hshape.isFile m).mpr h.target, ?_, ?_, ?_, ?_, h.short, happ.room⟩
    · rw [advance_other _ _ _ h.fds, advance_self h.reading, hsum]
    · rw [advance_self ((advance_other _ _ _ h.fds.symm).trans h.writing), hsum]
    · rw [advance_fs, hshape.perm]
      exact h.readable
    · rw [advance_fs, hshape.perm]
      exact h.writable
    · rw [advance_fs, happ.content n h.nodes (by rw [hent]; exact h.source), hstay]
      exact h.original
    · rw [advance_fs, happ.written, hstay, h.copy, hlen, List.take_add, hbuf]
      congr 1
      rw [← List.length_drop, ← List.take_eq_take_min]
    · omega

/-- At the end of the file the loop stops. -/
theorem Copying.finish (h : Copying file inFd outFd n m file.length v) (fuel : Nat) : ∃ v',
    copyFileLoop inFd.val outFd.val (fuel + 1) v = some (v', true) ∧ Kept v.fs v'.fs ∧
      v'.ctx = v.ctx ∧ content v'.fs.entries v'.fs.dev.sectors n = file ∧
      content v'.fs.entries v'.fs.dev.sectors m = file := by
  obtain ⟨fs, hread, hsup, hent, hsec, -⟩ := h.read
  have hnil : (file.drop file.length).take 128 = [] := by simp
  rw [hnil] at hread
  refine ⟨v.advance fs inFd (UInt32.ofNat 0), ?_, Kept.of_eq hent hsup, rfl, ?_, ?_⟩
  · exact copyFileLoop_end (copyTurn_end hread)
  · rw [advance_fs, hent, hsec]
    exact h.original
  · rw [advance_fs, hent, hsec, h.copy, List.take_length]

/-- The loop copies what is left of the file, within `fuel` turns. -/
theorem Copying.loop (fuel : Nat) (h : Copying file inFd outFd n m done v)
    (hfuel : file.length ≤ done + 128 * fuel) : ∃ v',
    copyFileLoop inFd.val outFd.val (fuel + 1) v = some (v', true) ∧ Kept v.fs v'.fs ∧
      v'.ctx = v.ctx ∧ content v'.fs.entries v'.fs.dev.sectors n = file ∧
      content v'.fs.entries v'.fs.dev.sectors m = file := by
  induction fuel generalizing done v with
  | zero =>
    obtain rfl : done = file.length := Nat.le_antisymm h.progress (by omega)
    exact h.finish 0
  | succ fuel ih =>
    by_cases hmore : done < file.length
    · obtain ⟨fs, hread, hfs⟩ := h.read
      generalize hbuf : (file.drop done).take 128 = buf at hread
      obtain ⟨v1, hwrite, h1, hkept, hctx⟩ := h.write hmore hfs buf hbuf.symm
      have hlen : buf.length = min 128 (file.length - done) := by
        rw [← hbuf, List.length_take, List.length_drop]
      have hcount : UInt32.ofNat buf.length ≠ 0 := by
        intro h0
        have := congrArg UInt32.toNat h0
        rw [UInt32.toNat_ofNat', UInt32.toNat_zero] at this
        omega
      obtain ⟨v', hloop, hkept', hctx', hn, hm⟩ := ih h1 (by omega)
      refine ⟨v', ?_, hkept.trans hkept', hctx'.trans hctx, hn, hm⟩
      rw [copyFileLoop_next (copyTurn_next hread rfl hcount hwrite), hloop]
    · obtain rfl : done = file.length := Nat.le_antisymm h.progress (by omega)
      exact h.finish (fuel + 1)

end Copying

/-- The path leads to a file with these bytes. -/
def FileAt (fs : SimpleFs) (path : List UInt8) (cwd : UInt32) (bytes : List UInt8) : Prop :=
  ∃ n, sfsResolve fs path cwd = .ok (some (slotId n)) ∧ (fs.entries n).IsFile ∧
    content fs.entries fs.dev.sectors n = bytes

/-- `dst` leads to a file with the bytes of the file `src` led to, and so does `src`. -/
def Copied (v v' : Vfs) (session : Int) (src dst : List UInt8) : Prop :=
  ∃ bytes, FileAt v.fs src (v.cwd session) bytes ∧ FileAt v'.fs dst (v'.cwd session) bytes ∧
    FileAt v'.fs src (v'.cwd session) bytes

/-- `src` names an empty file, or one that can be read and that `dst` does not name. -/
def CopySafe (v : Vfs) (session : Int) (src dst : List UInt8) : Prop :=
  ∃ n, sfsResolve v.fs src (v.cwd session) = .ok (some (slotId n)) ∧ (v.fs.entries n).IsFile ∧
    ((v.fs.entries n).size = 0 ∨ (v.fs.entries n).perm &&& sfsPermRead ≠ 0 ∧
      sfsResolve v.fs dst (v.cwd session) ≠ .ok (some (slotId n)))

/-- What the file at a path can hold without moving. -/
def heldAt (fs : SimpleFs) (path : List UInt8) (cwd : UInt32) : Nat :=
  match sfsResolve fs path cwd with
  | .ok (some nodeId) => (entryAt fs.entries nodeId).toOption.elim 0 Entry.held
  | _ => 0

/-- The free end leaves room for the copy. -/
def CopyRoom (v : Vfs) (session : Int) (src dst : List UInt8) : Prop :=
  ∀ n, sfsResolve v.fs src (v.cwd session) = .ok (some (slotId n)) →
    v.fs.super.nextFreeLba.toNat + growth (heldAt v.fs dst (v.cwd session))
      (((v.fs.entries n).size.toNat + 511) / 512) ≤ 65536

theorem resolve_slot_inj {r : Except Fault (Option UInt32)} (h : r = .ok (some (slotId n)))
    (h' : r = .ok (some (slotId m))) : n = m :=
  slotId_inj (Option.some.inj (Except.ok.inj (h.symm.trans h')))

theorem fileAt_iff (h : sfsResolve fs path cwd = .ok (some (slotId n))) :
    FileAt fs path cwd bytes ↔
      (fs.entries n).IsFile ∧ content fs.entries fs.dev.sectors n = bytes := by
  constructor
  · intro ⟨k, hk, hf, hb⟩
    obtain rfl := resolve_slot_inj hk h
    exact ⟨hf, hb⟩
  · intro ⟨hf, hb⟩
    exact ⟨n, h, hf, hb⟩

theorem content_eq_nil (es : Table) (f : Library.BlockStore.Store 512) (n : Fin 64) :
    content es f n = [] ↔ (es n).size = 0 := by
  rw [← List.length_eq_zero_iff, content_length]
  constructor
  · intro h
    exact UInt32.toNat_inj.mp h
  · intro h
    rw [h]
    rfl

theorem copySafe_iff (h : sfsResolve v.fs src (v.cwd session) = .ok (some (slotId n))) :
    CopySafe v session src dst ↔ (v.fs.entries n).IsFile ∧
      ((v.fs.entries n).size = 0 ∨ (v.fs.entries n).perm &&& sfsPermRead ≠ 0 ∧
        sfsResolve v.fs dst (v.cwd session) ≠ .ok (some (slotId n))) := by
  constructor
  · intro ⟨k, hk, hsafe⟩
    obtain rfl := resolve_slot_inj hk h
    exact hsafe
  · intro hsafe
    exact ⟨n, h, hsafe⟩

@[simp] theorem vfsClose_fs (v : Vfs) (fd : Int) : (vfsClose v fd).fs = v.fs := by
  unfold vfsClose
  split
  · rfl
  · rfl

@[simp] theorem vfsClose_ctx (v : Vfs) (fd : Int) : (vfsClose v fd).ctx = v.ctx := by
  unfold vfsClose
  split
  · rfl
  · rfl

/-- A copy with both files open: `src` is node `n`, and `dst` the emptied node `m`. -/
structure CopyOpened (v : Vfs) (session : Int) (src dst : List UInt8) (n m : Fin 64)
    (inFd outFd : Fin 16) (v' : Vfs) : Prop where
  source : sfsResolve v.fs src (v.cwd session) = .ok (some (slotId n))
  used : (v.fs.entries n).used ≠ 0
  emptied : Emptied v.fs dst (v.cwd session) m v'.fs
  fds : inFd ≠ outFd
  reading : v'.fds inFd = ⟨1, slotId n, 0, vfsORead⟩
  writing : v'.fds outFd = ⟨1, slotId m, 0, copyFlags⟩
  ctx : v'.ctx = v.ctx
  run : ∀ fuel, copyFile fuel v session src dst =
    .ok ((copyFileLoop inFd.val outFd.val fuel v').map fun r =>
      (vfsClose (vfsClose r.1 inFd.val) outFd.val, r.2))

/-- `copy_file` opens both files, or gives up: before or after it has read `src`'s node. -/
theorem copyFile_opens (ht : DirectoryTree v.fs.super v.fs.entries)
    (hc : DirId v.fs.entries (v.cwd session)) (hx : Allocation v.fs.super v.fs.entries)
    (src dst : List UInt8) :
    (∃ v', v'.fs = v.fs ∧ ∀ fuel, copyFile fuel v session src dst = .ok (some (v', false))) ∨
    (∃ fds v', vfsOpen { v with fds } session dst copyFlags = .ok (v', none) ∧
      ∃ v'', v''.fs = v'.fs ∧ v''.ctx = v'.ctx ∧
        ∀ fuel, copyFile fuel v session src dst = .ok (some (v'', false))) ∨
    ∃ n m inFd outFd v', CopyOpened v session src dst n m inFd outFd v' := by
  obtain ⟨⟨v1, r⟩, hin⟩ := vfsOpen_returns ht hc src vfsORead
  cases r with
  | none =>
    refine Or.inl ⟨v1, vfsOpen_none_reads hin, ?_⟩
    intro fuel
    simp only [copyFile, hin, bind, Except.bind]
  | some inFd =>
    obtain ⟨nodeId, hres, hfree, hv1⟩ := vfsOpen_reads hin
    obtain ⟨r', hr', hused⟩ := ht.resolve (ht.start hc src).used src
    obtain rfl : r' = some nodeId := Except.ok.inj (hr'.symm.trans hres)
    obtain ⟨n, rfl, hu⟩ := hused nodeId rfl
    have hcwd : v1.cwd session = v.cwd session := by rw [hv1]; rfl
    have hfs : v1.fs = v.fs := by rw [hv1]
    have ht1 : DirectoryTree v1.fs.super v1.fs.entries := by rwa [hfs]
    have hc1 : DirId v1.fs.entries (v1.cwd session) := by rwa [hfs, hcwd]
    have hx1 : Allocation v1.fs.super v1.fs.entries := by rwa [hfs]
    obtain ⟨⟨v2, r⟩, hout⟩ := vfsOpen_returns ht1 hc1 dst copyFlags
    cases r with
    | none =>
      refine Or.inr (Or.inl ⟨v1.fds, v2, ?_, vfsClose v2 inFd.val, vfsClose_fs _ _,
        vfsClose_ctx _ _, ?_⟩)
      · rw [hv1] at hout ⊢
        exact hout
      · intro fuel
        simp only [copyFile, hin, hout, bind, Except.bind]
    | some outFd =>
      obtain ⟨m, hempty, hfree', hv2⟩ := vfsOpen_emptied ht1 hc1 hx1 (by decide) hout
      rw [hfs, hcwd] at hempty
      have hread1 : v1.fds inFd = ⟨1, slotId n, 0, vfsORead⟩ := by
        rw [hv1]
        exact Function.update_self inFd _ _
      have hne : inFd ≠ outFd := by
        intro he
        have := freeFd_some hfree'
        rw [← he, hread1] at this
        simp at this
      refine Or.inr (Or.inr ⟨n, m, inFd, outFd, v2, hres, hu, hempty, hne, ?_, ?_, ?_, ?_⟩)
      · rw [hv2]
        exact (Function.update_of_ne hne _ _).trans hread1
      · rw [hv2]
        exact Function.update_self outFd _ _
      · rw [hv2, hv1]
      · intro fuel
        simp only [copyFile, hin, hout, bind, Except.bind]

section CopyOpened

variable {v v' : Vfs} {session : Int} {src dst : List UInt8} {n m : Fin 64}
  {inFd outFd : Fin 16} (h : CopyOpened v session src dst n m inFd outFd v')

include h

/-- A source that cannot be read, or is empty by now, ends the loop at once. -/
theorem CopyOpened.stops
    (hread : fileWith v'.fs.entries (slotId n) sfsPermRead = none ∨ (v'.fs.entries n).size = 0)
    (fuel : Nat) : ∃ v'', v''.fs = v'.fs ∧ v''.ctx = v'.ctx ∧
      copyFileLoop inFd.val outFd.val (fuel + 1) v' = some (v'', true) := by
  have hopen : openFd v' inFd.val vfsORead = some inFd := openFd_slot h.reading (by decide)
  cases hw : fileWith v'.fs.entries (slotId n) sfsPermRead with
  | none =>
    refine ⟨v', rfl, rfl, copyFileLoop_end (copyTurn_end ?_)⟩
    simp only [vfsRead, hopen, h.reading, sfsRead, hw]
  | some k =>
    obtain rfl : n = k := by
      apply Fin.ext
      rw [← (fileWith_some hw).2.2, slotId_toNat]
    have hsize : (v'.fs.entries n).size = 0 := by
      rcases hread with hnone | hsize
      · rw [hw] at hnone
        cases hnone
      · exact hsize
    refine ⟨v'.advance v'.fs inFd (UInt32.ofNat 0), rfl, rfl, copyFileLoop_end (copyTurn_end ?_)⟩
    simp only [vfsRead, hopen, h.reading, sfsRead, hw, hsize]
    rfl

/-- Otherwise the whole of the source is copied. -/
theorem CopyOpened.copies (hr : v.fs.dev.Reliable) (hx : Allocation v.fs.super v.fs.entries)
    (hf : (v.fs.entries n).IsFile) (hp : (v.fs.entries n).perm &&& sfsPermRead ≠ 0) (hne : n ≠ m)
    (hroom : CopyRoom v session src dst) :
    Copying (content v.fs.entries v.fs.dev.sectors n) inFd outFd n m 0 v' := by
  have hentry := h.emptied.entry n hne
  have hfront := hroom n h.source
  have hlen := content_length v.fs.entries v.fs.dev.sectors n
  have hheld : (v'.fs.entries m).held = heldAt v.fs dst (v.cwd session) := by
    unfold heldAt
    rcases h.emptied.before with ⟨hres, he⟩ | ⟨hres, -, hstart⟩
    · rw [hres, he]
      simp [Entry.held, Except.toOption]
    · rw [hres]
      exact if_pos hstart
  have hsize : (v.fs.entries n).size.toNat ≤ 512 * 65536 := by
    by_cases hz : (v.fs.entries n).size.toNat = 0
    · omega
    · have hs : (v.fs.entries n).startLba ≠ 0 := by
        intro h0
        rw [hx.unallocated n hf h0] at hz
        exact hz rfl
      have hb := hx.bounds (hx.mem_extent hf hs
        (show (v.fs.entries n).size.toNat - 1 < (v.fs.entries n).size.toNat by omega))
      omega
  refine ⟨h.fds, hne, h.reading, h.writing, ?_, h.emptied.allocation, ?_, ?_, h.emptied.file,
    h.emptied.writable, h.emptied.content n hne hf, ?_, Nat.zero_le _, by rw [hlen]; exact hsize, ?_⟩
  · intro k
    rw [h.emptied.faults]
    exact hr k
  · rw [hentry]
    exact hf
  · rw [hentry]
    exact hp
  · rw [List.take_zero, content_eq_nil]
    exact h.emptied.size
  · rw [h.emptied.super, hheld, hlen]
    exact hfront

omit h in
/-- If both paths lead to the same node, it was there before. -/
theorem CopyOpened.same_node (h : CopyOpened v session src dst n n inFd outFd v') :
    sfsResolve v.fs dst (v.cwd session) = .ok (some (slotId n)) ∧
      v'.fs.entries n = { v.fs.entries n with size := 0 } := by
  rcases h.emptied.before with hres | ⟨-, hu, -⟩
  · exact hres
  · exact absurd hu h.used

/-- What the copy comes to, read off the nodes the paths lead to. -/
theorem CopyOpened.copied_iff {v'' : Vfs}
    (hc : DirId v.fs.entries (v.cwd session)) (hkept : Kept v'.fs v''.fs)
    (hctx : v''.ctx = v.ctx) : Copied v v'' session src dst ↔ (v.fs.entries n).IsFile ∧
      content v''.fs.entries v''.fs.dev.sectors m = content v.fs.entries v.fs.dev.sectors n ∧
      content v''.fs.entries v''.fs.dev.sectors n = content v.fs.entries v.fs.dev.sectors n := by
  have hcwd : v''.cwd session = v.cwd session := by
    unfold Vfs.cwd
    rw [hctx]
  have hdst : sfsResolve v''.fs dst (v.cwd session) = .ok (some (slotId m)) := by
    rw [hkept.shape.resolve hkept.root]
    exact h.emptied.after
  have hsrc : sfsResolve v''.fs src (v.cwd session) = .ok (some (slotId n)) := by
    rw [hkept.shape.resolve hkept.root]
    exact h.emptied.others src (v.cwd session) _ hc.used h.source
  have hfile : (v''.fs.entries n).IsFile ↔ (v.fs.entries n).IsFile := by
    rw [hkept.shape.isFile]
    by_cases hnm : n = m
    · subst hnm
      rw [h.same_node.2]
      exact Iff.rfl
    · rw [h.emptied.entry n hnm]
  have hfm := (hkept.shape.isFile m).mpr h.emptied.file
  unfold Copied
  rw [hcwd]
  simp only [fileAt_iff h.source, fileAt_iff hdst, fileAt_iff hsrc, hfile]
  constructor
  · rintro ⟨bytes, ⟨hf, hb⟩, ⟨-, hm⟩, -, hn⟩
    exact ⟨hf, hm.trans hb.symm, hn.trans hb.symm⟩
  · intro ⟨hf, hm, hn⟩
    exact ⟨_, And.intro hf rfl, ⟨hfm, hm⟩, hf, hn⟩

/-- A copy that stops at once has emptied `dst` and done no more. -/
theorem CopyOpened.stopped_content (hf : (v.fs.entries n).IsFile)
    (hstop : fileWith v'.fs.entries (slotId n) sfsPermRead = none ∨
      (v'.fs.entries n).size = 0) :
    content v'.fs.entries v'.fs.dev.sectors m = content v.fs.entries v.fs.dev.sectors n ∧
        content v'.fs.entries v'.fs.dev.sectors n = content v.fs.entries v.fs.dev.sectors n ↔
      (v.fs.entries n).size = 0 ∨ (v.fs.entries n).perm &&& sfsPermRead ≠ 0 ∧
        sfsResolve v.fs dst (v.cwd session) ≠ .ok (some (slotId n)) := by
  have hm := (content_eq_nil v'.fs.entries v'.fs.dev.sectors m).mpr h.emptied.size
  have hnil : [] = content v.fs.entries v.fs.dev.sectors n ↔ (v.fs.entries n).size = 0 := by
    rw [eq_comm, content_eq_nil]
  by_cases hnm : n = m
  · subst hnm
    rw [hm, hnil, h.same_node.1]
    simp
  · rw [hm, hnil, h.emptied.content n hnm hf]
    rw [h.emptied.entry n hnm] at hstop
    rcases hstop with hw | hz
    · have hp : (v.fs.entries n).perm &&& sfsPermRead = 0 := by
        by_contra hp
        rw [fileWith_slot] at hw
        · cases hw
        · rw [h.emptied.entry n hnm]
          exact hf
        · rw [h.emptied.entry n hnm]
          exact hp
      simp [hp]
    · simp [hz]

/-- A copy with both files open returns 1, and is sound under the condition alone. -/
theorem CopyOpened.outcome (hc : DirId v.fs.entries (v.cwd session)) (hx : Allocation v.fs.super v.fs.entries)
    (hr : v.fs.dev.Reliable) (hroom : CopyRoom v session src dst) :
    ∃ v'', (∀ fuel, 262144 ≤ fuel → copyFile (fuel + 1) v session src dst = .ok (some (v'', true))) ∧
      (Copied v v'' session src dst ↔ CopySafe v session src dst) := by
  have hrun : ∀ w, copyFileLoop inFd.val outFd.val 262145 v' = some (w, true) →
      Kept v'.fs w.fs → w.ctx = v'.ctx →
      ((v.fs.entries n).IsFile → (content w.fs.entries w.fs.dev.sectors m =
          content v.fs.entries v.fs.dev.sectors n ∧
        content w.fs.entries w.fs.dev.sectors n = content v.fs.entries v.fs.dev.sectors n ↔
        (v.fs.entries n).size = 0 ∨ (v.fs.entries n).perm &&& sfsPermRead ≠ 0 ∧
          sfsResolve v.fs dst (v.cwd session) ≠ .ok (some (slotId n)))) →
      ∃ v'', (∀ fuel, 262144 ≤ fuel →
          copyFile (fuel + 1) v session src dst = .ok (some (v'', true))) ∧
        (Copied v v'' session src dst ↔ CopySafe v session src dst) := by
    intro w hloop hkept hctx hcontent
    refine ⟨vfsClose (vfsClose w inFd.val) outFd.val, ?_, ?_⟩
    · intro fuel hfuel
      rw [h.run, copyFileLoop_mono hloop (by omega)]
      rfl
    · have hkept' : Kept v'.fs (vfsClose (vfsClose w inFd.val) outFd.val).fs := by simpa using hkept
      have hctx' : (vfsClose (vfsClose w inFd.val) outFd.val).ctx = v.ctx := by
        simpa using hctx.trans h.ctx
      rw [h.copied_iff hc hkept' hctx', copySafe_iff h.source]
      simp only [vfsClose_fs]
      exact and_congr_right hcontent
  by_cases hstop : fileWith v'.fs.entries (slotId n) sfsPermRead = none ∨
      (v'.fs.entries n).size = 0
  · obtain ⟨w, hfs, hctx, hloop⟩ := h.stops hstop 262144
    apply hrun w hloop (Kept.of_eq (by rw [hfs]) (by rw [hfs])) hctx
    intro hf
    rw [hfs]
    exact h.stopped_content hf hstop
  · push Not at hstop
    obtain ⟨hw, hsize⟩ := hstop
    obtain ⟨k, hk⟩ := Option.ne_none_iff_exists'.mp hw
    obtain ⟨hf, hp, hid⟩ := fileWith_some hk
    obtain rfl : n = k := by
      apply Fin.ext
      rw [← hid, slotId_toNat]
    have hne : n ≠ m := by
      rintro rfl
      exact hsize h.emptied.size
    rw [h.emptied.entry n hne] at hf hp
    have hcopy := h.copies hr hx hf hp hne hroom
    obtain ⟨w, hloop, hkept, hctx, hn, hm⟩ := hcopy.loop 262144 (by have := hcopy.short; omega)
    apply hrun w hloop hkept hctx
    intro _
    have hother : sfsResolve v.fs dst (v.cwd session) ≠ .ok (some (slotId n)) := by
      intro hres
      rcases h.emptied.before with ⟨hres', -⟩ | ⟨hres', -, -⟩
      · exact hne (resolve_slot_inj hres hres')
      · rw [hres'] at hres
        cases hres
    exact ⟨fun _ => Or.inr ⟨hp, hother⟩, fun _ => ⟨hm, hn⟩⟩

end CopyOpened

/-- What `copy_file` says it copied it has copied, unless it emptied the source or
could not read it. -/
theorem copy_file_copies_iff (v : Vfs) (session : Int) (src dst : List UInt8)
    (ht : DirectoryTree v.fs.super v.fs.entries) (hc : DirId v.fs.entries (v.cwd session))
    (hx : Allocation v.fs.super v.fs.entries) (hr : v.fs.dev.Reliable)
    (hroom : CopyRoom v session src dst) :
    (∀ fuel, 262144 ≤ fuel → ∃ r, copyFile (fuel + 1) v session src dst = .ok (some r)) ∧
    ∀ fuel v', copyFile fuel v session src dst = .ok (some (v', true)) →
      (Copied v v' session src dst ↔ CopySafe v session src dst) := by
  rcases copyFile_opens ht hc hx src dst with
    ⟨w, -, hrun⟩ | ⟨-, -, -, w, -, -, hrun⟩ | ⟨n, m, inFd, outFd, w, h⟩
  · refine ⟨fun fuel _ => ⟨_, hrun _⟩, ?_⟩
    intro fuel v' hcopy
    rw [hrun] at hcopy
    cases hcopy
  · refine ⟨fun fuel _ => ⟨_, hrun _⟩, ?_⟩
    intro fuel v' hcopy
    rw [hrun] at hcopy
    cases hcopy
  · obtain ⟨w', hret, hiff⟩ := h.outcome hc hx hr hroom
    refine ⟨fun fuel hfuel => ⟨_, hret fuel hfuel⟩, ?_⟩
    intro fuel v' hcopy
    have hlong := hret (fuel + 262144) (Nat.le_add_left _ _)
    rw [h.run] at hcopy hlong
    obtain ⟨r, hloop, hr⟩ := Option.map_eq_some_iff.mp (Except.ok.inj hcopy)
    rw [copyFileLoop_mono hloop (by omega), Option.map_some, hr] at hlong
    obtain rfl : v' = w' := congrArg Prod.fst (Option.some.inj (Except.ok.inj hlong))
    exact hiff

/-- A fresh volume with an empty file `a`, before a disk with a byte in sector 137. -/
def emptyLetter : SimpleFs :=
  let s := formatted 0 { blankDrive with sectors := fun l _ => if l = 137 then 65 else 0 }
  { s with entries := Function.update s.entries 1 (fileAt 0 0 0 [97]) }

/-- The same with that byte as the file's content. -/
def letterVolume : SimpleFs :=
  let s := grow emptyLetter 1 1
  { s with entries := Function.update s.entries 1 { s.entries 1 with size := 1 } }

/-- The VFS over it, without open files. -/
def letterVfs : Vfs :=
  ⟨letterVolume, fun _ => ⟨0, 0, 0, 0⟩, fun _ => ⟨0, [], fun _ => 0, fun _ _ => 0, fun _ _ => 0⟩⟩

theorem letter_new (dev : Drive) :
    NewEntry (formatted 0 dev).entries 1 (fileAt 0 0 0 [97]) sfsTypeFile := by
  have ht := formatted_tree dev
  have hname : ValidName [97] := ⟨by simp, by simp [sfsNameMax], by simp [slash]⟩
  refine ⟨rfl, rfl, rfl, ⟨rfl, rfl, rfl⟩, 0, [97], rfl, ht.root_dir, hname,
    nameString_sCopy _ hname rfl, sCopy_terminated _ hname, ?_⟩
  intro i hi _
  rw [formatted_used hi, ht.rootName]
  simp [slash]

theorem letter_tree : DirectoryTree letterVolume.super letterVolume.entries := by
  have ht : DirectoryTree emptyLetter.super emptyLetter.entries :=
    (formatted_tree _).add (letter_new _)
  have ht' : DirectoryTree (grow emptyLetter 1 1).super (grow emptyLetter 1 1).entries :=
    ht.reshape (grow_shape emptyLetter 1 1) rfl
  exact ht'.reshape (SameShape.update _ 1 _ 1 _) rfl

theorem letter_allocation : Allocation letterVolume.super letterVolume.entries := by
  have hx : Allocation emptyLetter.super emptyLetter.entries :=
    (formatted_allocation _).add (letter_new _)
  have hsize : (emptyLetter.entries 1).size.toNat = 0 := rfl
  have hplaced : Placed emptyLetter 1 1 (grow emptyLetter 1 1) [] :=
    .grown (Wrote.refl _) trivial (fun k hk => absurd hk (by omega)) (by omega)
  have hgrown := (hplaced.allocation hx ⟨by decide, rfl⟩ (by decide)).1
  exact hgrown.shrink (n := 1) (e := { (grow emptyLetter 1 1).entries 1 with size := 1 })
    (fun a ha => ha) (fun _ => by decide) (fun _ h0 => absurd h0 (by decide))

theorem letter_dir : DirId letterVfs.fs.entries (letterVfs.cwd 0) := ⟨0, rfl, by decide, by decide⟩

theorem letter_resolves :
    sfsResolve letterVfs.fs [97] (letterVfs.cwd 0) = .ok (some (slotId 1)) := by
  decide +kernel

/-- A copy to a fresh name. -/
theorem copy_file_copies_iff_fresh : ∃ v',
    copyFile 2 letterVfs 0 [97] [98] = .ok (some (v', true)) ∧
      (Copied letterVfs v' 0 [97] [98] ↔ CopySafe letterVfs 0 [97] [98]) := by
  have hrun : (copyFile 2 letterVfs 0 [97] [98]).toOption.map (Option.map Prod.snd) =
      some (some true) := by
    decide +kernel
  have hroom : CopyRoom letterVfs 0 [97] [98] := by
    intro n hn
    obtain rfl : n = 1 := resolve_slot_inj hn letter_resolves
    decide +kernel
  cases hc : copyFile 2 letterVfs 0 [97] [98] with
  | error => simp [hc, Except.toOption] at hrun
  | ok r =>
    rw [hc] at hrun
    obtain ⟨⟨v', ok⟩, rfl, hok⟩ := Option.map_eq_some_iff.mp (Option.some.inj hrun)
    obtain rfl : ok = true := hok
    exact ⟨v', rfl, (copy_file_copies_iff letterVfs 0 [97] [98] letter_tree letter_dir
      letter_allocation (fun _ => rfl) hroom).2 2 v' hc⟩

/-- Copying `a` to `./a` empties it, and is reported as done. -/
theorem copy_file_empties_source : ∃ v',
    copyFile 2 letterVfs 0 [97] [46, 47, 97] = .ok (some (v', true)) ∧
    DirectoryTree letterVfs.fs.super letterVfs.fs.entries ∧
    DirId letterVfs.fs.entries (letterVfs.cwd 0) ∧
    Allocation letterVfs.fs.super letterVfs.fs.entries ∧ letterVfs.fs.dev.Reliable ∧
    CopyRoom letterVfs 0 [97] [46, 47, 97] ∧ ¬Copied letterVfs v' 0 [97] [46, 47, 97] := by
  have hrun : (copyFile 2 letterVfs 0 [97] [46, 47, 97]).toOption.map (Option.map fun r =>
      (r.2, (sfsResolve r.1.fs [97] (r.1.cwd 0)).toOption, (r.1.fs.entries 1).size)) =
        some (some (true, some (some (slotId 1)), 0)) := by
    decide +kernel
  have hroom : CopyRoom letterVfs 0 [97] [46, 47, 97] := by
    intro n hn
    obtain rfl : n = 1 := resolve_slot_inj hn letter_resolves
    decide +kernel
  cases hc : copyFile 2 letterVfs 0 [97] [46, 47, 97] with
  | error => simp [hc, Except.toOption] at hrun
  | ok r =>
    rw [hc] at hrun
    obtain ⟨⟨v', ok⟩, rfl, hout⟩ := Option.map_eq_some_iff.mp (Option.some.inj hrun)
    obtain ⟨hok, hres, hsize⟩ : ok = true ∧
        (sfsResolve v'.fs [97] (v'.cwd 0)).toOption = some (some (slotId 1)) ∧
        (v'.fs.entries 1).size = 0 := by
      simpa using hout
    subst hok
    refine ⟨v', rfl, letter_tree, letter_dir, letter_allocation, fun _ => rfl, hroom, ?_⟩
    rintro ⟨bytes, hbefore, -, k, hk, -, hafter⟩
    rw [hk] at hres
    obtain rfl : k = 1 := slotId_inj (Option.some.inj (Option.some.inj hres))
    rw [(content_eq_nil _ _ _).mpr hsize] at hafter
    rw [fileAt_iff letter_resolves, ← hafter, content_eq_nil] at hbefore
    exact absurd hbefore.2 (by decide +kernel)

end VertexOS
