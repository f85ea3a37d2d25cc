import VertexOS.Vfs.Descriptors
import VertexOS.Vfs.OpenFails

namespace VertexOS
open Library.BlockStore Library.Transitions

/-- `written id p` is the byte last written at place `p` of a file since the file was created or
truncated, and zero if there was none. -/
structure Logged where
  vfs : Vfs
  written : UInt32 → Nat → UInt8

/-- Files that are there count as written. -/
def Logged.start (v : Vfs) : Logged where
  vfs := v
  written := fun id p =>
    if h : id.toNat < 64 then (content v.fs.entries v.fs.dev.sectors ⟨id.toNat, h⟩).getD p 0 else 0

/-- The node that a call creates as a file or truncates. -/
def VfsCall.restarts (v : Vfs) : VfsCall → Option UInt32
  | .open session path flags =>
    match openNode v.fs path (v.cwd session) flags with
    | .ok (fs, some id) =>
      match sfsResolve v.fs path (v.cwd session) with
      | .ok none => some id
      | _ => if flags &&& vfsOTrunc ≠ 0 ∧ (sfsTruncate fs id).2 then some id else none
    | _ => none
  | _ => none

/-- What is written after the call. -/
def Logged.after (t : Logged) (c : VfsCall) : UInt32 → Nat → UInt8 :=
  match c with
  | .write fd data len =>
    match openFd t.vfs fd vfsOWrite with
    | none => t.written
    | some i =>
      let f := t.vfs.fds i
      let count := (vfsWrite t.vfs fd data len).2.toNat
      Function.update t.written f.nodeId fun p =>
        if f.offset.toNat ≤ p ∧ p < f.offset.toNat + count then data (p - f.offset.toNat)
        else t.written f.nodeId p
  | c =>
    match c.restarts t.vfs with
    | none => t.written
    | some id => Function.update t.written id fun _ => 0

def loggedStep (t : Logged) (c : VfsCall) (t' : Logged) : Prop :=
  ∃ r, vfsStep t.vfs c = .ok (t'.vfs, r) ∧ t'.written = t.after c

/-- A write that reaches its file has room for it. -/
def VfsCall.HasRoom (v : Vfs) : VfsCall → Prop
  | .write fd _ len => ∀ i n, openFd v fd vfsOWrite = some i →
      fileWith v.fs.entries (v.fds i).nodeId sfsPermWrite = some n →
      (v.fds i).offset.toNat + len.toNat + 511 < 4294967296 ∧
        (Moves (v.fs.entries n) (needSectors (v.fds i).offset len) →
          v.fs.super.nextFreeLba.toNat + (needSectors (v.fds i).offset len).toNat ≤ 65536)
  | _ => True

/-- Where a write starts behind the end of its file, the bytes in between are zero once the file
has its sectors. -/
def VfsCall.GapBlank (v : Vfs) : VfsCall → Prop
  | .write fd _ len => ∀ i n, openFd v fd vfsOWrite = some i →
      fileWith v.fs.entries (v.fds i).nodeId sfsPermWrite = some n →
      ∀ k, (v.fs.entries n).size.toNat ≤ k → k < (v.fds i).offset.toNat →
        placedByte v.fs n (needSectors (v.fds i).offset len) k = 0
  | _ => True

/-- A sound volume, every file of which holds what was written to it. -/
structure Agrees (s : SimpleFs) (written : UInt32 → Nat → UInt8) : Prop where
  reliable : s.dev.Reliable
  allocation : Allocation s.super s.entries
  free : s.super.nextFreeLba.toNat ≤ 65536
  bytes : ∀ n, (s.entries n).IsFile → ∀ k,
    written (slotId n) k = (content s.entries s.dev.sectors n).getD k 0

theorem content_getD (es : Table) (f : Store 512) (n : Fin 64) (k : Nat) :
    (content es f n).getD k 0 =
      if k < (es n).size.toNat then byte f (512 * (es n).startLba.toNat + k) else 0 := by
  by_cases hk : k < (es n).size.toNat
  · simp [content, hk]
  · rw [if_neg hk, List.getD_eq_default _ _ (by rw [content_length]; omega)]

section Agrees

variable {s s' : SimpleFs} {w w' : UInt32 → Nat → UInt8} {n : Fin 64} {e : Entry}

/-- What leaves superblock, table and sectors alone. -/
theorem Agrees.same (h : Agrees s w) (hsup : s'.super = s.super) (hent : s'.entries = s.entries)
    (hdev : Confined ∅ s.dev s'.dev) : Agrees s' w := by
  have hsec : s'.dev.sectors = s.dev.sectors := funext fun b => hdev.sectors b (Set.notMem_empty b)
  constructor
  · exact hdev.reliable h.reliable
  · rw [hsup, hent]
    exact h.allocation
  · rw [hsup]
    exact h.free
  · rw [hent, hsec]
    exact h.bytes

/-- A changed entry that holds no bytes. -/
theorem Agrees.updated (h : Agrees s w) (hu : Updated s n e s') (hext : e.extent ⊆ (s.entries n).extent)
    (hempty : e.IsFile → e.size = 0) (hw : ∀ m, m ≠ n → w' (slotId m) = w (slotId m))
    (hn : e.IsFile → ∀ k, w' (slotId n) k = 0) : Agrees s' w' := by
  have hx : Allocation s.super (Function.update s.entries n e) := by
    refine h.allocation.shrink hext (fun hf => ?_) fun hf _ => hempty hf
    rw [hempty hf]
    exact Nat.zero_le _
  constructor
  · exact hu.dev.reliable h.reliable
  · rw [hu.super, hu.entries]
    exact hx
  · rw [hu.super]
    exact h.free
  · intro m hf k
    by_cases hm : m = n
    · subst hm
      rw [hu.self] at hf
      rw [hn hf, content_getD, hu.self, hempty hf]
      exact (if_neg (Nat.not_lt_zero k)).symm
    · rw [hu.other hm] at hf
      rw [hw m hm, h.bytes m hf, hu.content h.allocation hm hf]

/-- A write with room whose gap is blank. -/
theorem Agrees.write (h : Agrees s w) {offset len : UInt32} (data : Nat → UInt8)
    (hfile : fileWith s.entries (slotId n) sfsPermWrite = some n)
    (hwrap : offset.toNat + len.toNat + 511 < 4294967296)
    (hroom : Moves (s.entries n) (needSectors offset len) →
      s.super.nextFreeLba.toNat + (needSectors offset len).toNat ≤ 65536)
    (hgap : ∀ k, (s.entries n).size.toNat ≤ k → k < offset.toNat →
      placedByte s n (needSectors offset len) k = 0) :
    ∃ s', sfsWrite s (slotId n) offset data len = (s', some len) ∧
      Agrees s' (Function.update w (slotId n) fun p =>
        if offset.toNat ≤ p ∧ p < offset.toNat + len.toNat then data (p - offset.toNat)
        else w (slotId n) p) := by
  obtain ⟨hf, hp, -⟩ := fileWith_some hfile
  have hneed := needSectors_toNat hwrap
  obtain ⟨s1, ws1, ws2, s', hrun, hw, hpl, hfree⟩ :=
    sfsWrite_spacious h.reliable h.allocation hf hp hwrap hroom h.free data
  have hx' := hw.allocation h.allocation hf hwrap hpl.reserved
  have hsize : (s'.entries n).size.toNat =
      max (s.entries n).size.toNat (offset.toNat + len.toNat) := by
    have hsum : (offset + len).toNat = offset.toNat + len.toNat := by
      rw [UInt32.toNat_add]
      omega
    rw [hw.self]
    simp only [newSize_toNat, hsum]
  refine ⟨s', hrun, hw.allWrites.reliable h.reliable, hx', by rw [hw.super]; exact hfree, ?_⟩
  intro m hfm k
  by_cases hm : m = n
  · subst hm
    rw [Function.update_self, content_getD, hsize]
    have hold := h.bytes m hf k
    rw [content_getD] at hold
    by_cases hin : offset.toNat ≤ k ∧ k < offset.toNat + len.toNat
    · rw [if_pos hin, if_pos (by omega), hw.byte_self hf hwrap hpl.reserved (.inr hin),
        if_pos hin]
    · rw [if_neg hin, hold]
      by_cases hk : k < (s.entries m).size.toNat
      · rw [if_pos hk, if_pos (by omega),
          hw.byte_self hf hwrap hpl.reserved (.inl hk), if_neg hin]
      · rw [if_neg hk]
        by_cases hbefore : k < offset.toNat
        · rw [if_pos (by omega)]
          rw [hw.byte_gap hf hwrap hpl hbefore, hgap k (by omega) hbefore]
        · rw [if_neg (by omega)]
  · have hentry := hw.other hm
    rw [hentry] at hfm
    have hid : slotId m ≠ slotId n := fun he => hm (slotId_inj he)
    rw [Function.update_of_ne hid, h.bytes m hfm,
      hw.content_other h.allocation hf hwrap hpl.reserved hm hfm]

/-- A truncation of `vfs_open`, where it takes place. -/
theorem Agrees.openTruncate (h : Agrees s w) (id flags : UInt32) :
    Agrees (openTruncate s id flags).1
      (if flags &&& vfsOTrunc ≠ 0 ∧ (sfsTruncate s id).2 then Function.update w id fun _ => 0
        else w) := by
  rw [VertexOS.openTruncate]
  by_cases hflag : flags &&& vfsOTrunc ≠ 0
  · rw [if_pos hflag]
    cases ht : sfsTruncate s id with
    | mk s' ok =>
      cases ok with
      | false =>
        rcases sfsTruncate_cases s id with ⟨-, hs⟩ | ⟨n, -, hs⟩
        · rw [ht] at hs
          cases hs
          rw [if_neg fun hc => Bool.false_ne_true hc.2]
          exact h
        · have hok := sfsFlush_ok { s with
            entries := Function.update s.entries n { s.entries n with size := 0 } } h.reliable
          rw [← hs, ht] at hok
          cases hok
      | true =>
        obtain ⟨n, rfl, -, -, hflush⟩ := sfsTruncate_done ht
        rw [if_pos ⟨hflag, rfl⟩]
        refine h.updated (sfsFlush_updated hflush) (fun a ha => ha) (fun _ => rfl) ?_ ?_
        · intro m hm
          exact Function.update_of_ne (fun he => hm (slotId_inj he)) _ _
        · intro _ k
          rw [Function.update_self]
  · rw [if_neg hflag, if_neg fun hc => hflag hc.1]
    exact h

/-- A create adds an entry without bytes. -/
theorem Agrees.create {id : UInt32} (h : Agrees s w) (hc : sfsCreate s path cwd type perm = .ok (s', some id)) :
    Agrees s' (Function.update w id fun _ => 0) := by
  rcases sfsCreate_cases hc with ⟨-, -, hnone⟩ | ⟨idx, e, hentry, hflush, hid⟩
  · cases hnone
  · obtain ⟨-, -, -, -, hstart, hsize⟩ := sfsCreateEntry_some hentry
    obtain rfl := hid id rfl
    refine h.updated (sfsFlush_updated hflush) ?_ (fun _ => hsize) ?_ ?_
    · rw [show e.extent = ∅ from if_neg fun hfile => hfile.2 hstart]
      exact Set.empty_subset _
    · intro m hm
      exact Function.update_of_ne (fun he => hm (slotId_inj he)) _ _
    · intro _ k
      rw [Function.update_self]

/-- A new directory holds no bytes either. -/
theorem Agrees.mkdir (h : Agrees s w)
    (hc : sfsCreate s path cwd sfsTypeDir perm = .ok (s', r)) : Agrees s' w := by
  rcases sfsCreate_cases hc with ⟨-, rfl, -⟩ | ⟨idx, e, hentry, hflush, -⟩
  · exact h
  · obtain ⟨-, -, htype, -, hstart, -⟩ := sfsCreateEntry_some hentry
    have hdir : ¬e.IsFile := by
      intro hf
      rw [Entry.IsFile, htype] at hf
      exact absurd hf.2 (by decide)
    refine h.updated (sfsFlush_updated hflush) ?_ (fun hf => absurd hf hdir) (fun _ _ => rfl)
      fun hf => absurd hf hdir
    rw [show e.extent = ∅ from if_neg fun hfile => hfile.2 hstart]
    exact Set.empty_subset _

theorem Agrees.remove (h : Agrees s w) (hc : sfsRemove s path cwd = .ok (s', ok)) :
    Agrees s' w := by
  rcases sfsRemove_cases hc with ⟨-, rfl, -⟩ | ⟨n, -, hflush⟩
  · exact h
  · refine h.updated (sfsFlush_updated hflush) ?_ (fun hf => absurd hf zero_not_file)
      (fun _ _ => rfl) fun hf => absurd hf zero_not_file
    rw [show Entry.zero.extent = ∅ from if_neg fun hfile => zero_not_file hfile.1]
    exact Set.empty_subset _

end Agrees

section Steps

variable {v v' : Vfs} {t t' : Logged} {c : VfsCall} {w : UInt32 → Nat → UInt8}

/-- What an open leaves of the volume. -/
theorem vfsOpen_fs (h : vfsOpen v session path flags = .ok (v', fd)) :
    (∃ fs, openNode v.fs path (v.cwd session) flags = .ok (fs, none) ∧ v'.fs = fs) ∨
    ∃ fs id, openNode v.fs path (v.cwd session) flags = .ok (fs, some id) ∧
      v'.fs = (openTruncate fs id flags).1 := by
  cases fd with
  | none =>
    rcases vfsOpen_none h with ⟨fs, hnode, rfl⟩ | ⟨fs, id, hnode, rfl, -⟩
    · exact .inl ⟨fs, hnode, rfl⟩
    · exact .inr ⟨fs, id, hnode, rfl⟩
  | some i =>
    obtain ⟨fs, id, hnode, htrunc, -, -⟩ := vfsOpen_some h
    exact .inr ⟨fs, id, hnode, by rw [htrunc]⟩

theorem Agrees.open (ht : Agrees t.vfs.fs t.written)
    (h : vfsOpen t.vfs session path flags = .ok (v', fd)) :
    Agrees v'.fs (t.after (.open session path flags)) := by
  simp only [Logged.after, VfsCall.restarts]
  rcases vfsOpen_fs h with ⟨fs, hnode, hfs⟩ | ⟨fs, id, hnode, hfs⟩
  · rw [hnode, hfs]
    rcases openNode_cases hnode with ⟨-, rfl⟩ | ⟨-, -, hcreate⟩
    · exact ht
    · rw [sfsCreate_none ht.reliable hcreate]
      exact ht
  · rw [hnode, hfs]
    rcases openNode_cases hnode with ⟨hres, rfl⟩ | ⟨hres, -, hcreate⟩
    · simp only [hres]
      have htrunc := ht.openTruncate id flags
      split
      · next hc =>
        rw [if_neg (fun hcond => by rw [if_pos hcond] at hc; cases hc)] at htrunc
        exact htrunc
      · next hc =>
        split at hc
        · next hcond =>
          cases hc
          rw [if_pos hcond] at htrunc
          exact htrunc
        · cases hc
    · simp only [hres]
      have htrunc := (ht.create hcreate).openTruncate id flags
      rw [Function.update_idem, ite_self] at htrunc
      exact htrunc

theorem Agrees.vfsWrite {fd : Int} {data : Nat → UInt8} {len : UInt32}
    (ht : Agrees t.vfs.fs t.written) (hroom : (VfsCall.write fd data len).HasRoom t.vfs)
    (hgap : (VfsCall.write fd data len).GapBlank t.vfs) :
    Agrees (vfsWrite t.vfs fd data len).1.fs (t.after (.write fd data len)) := by
  simp only [Logged.after]
  cases hopen : openFd t.vfs fd vfsOWrite with
  | none =>
    simp only [VertexOS.vfsWrite, hopen]
    exact ht
  | some i =>
    cases hfile : fileWith t.vfs.fs.entries (t.vfs.fds i).nodeId sfsPermWrite with
    | none =>
      simp only [VertexOS.vfsWrite, hopen, sfsWrite, hfile]
      have hnone : (fun p => if (t.vfs.fds i).offset.toNat ≤ p ∧
          p < (t.vfs.fds i).offset.toNat + (0 : UInt32).toNat then
            data (p - (t.vfs.fds i).offset.toNat)
          else t.written (t.vfs.fds i).nodeId p) = t.written (t.vfs.fds i).nodeId := by
        funext p
        rw [if_neg]
        rw [show (0 : UInt32).toNat = 0 from rfl]
        omega
      rw [hnone, Function.update_eq_self]
      exact ht
    | some n =>
      have hid : (t.vfs.fds i).nodeId = slotId n := by
        apply UInt32.toNat_inj.mp
        rw [(fileWith_some hfile).2.2, slotId_toNat]
      obtain ⟨hwrap, hspace⟩ := hroom i n hopen hfile
      have hblank := hgap i n hopen hfile
      rw [hid] at hfile
      obtain ⟨s', hrun, hafter⟩ := ht.write data hfile hwrap hspace hblank
      simp only [VertexOS.vfsWrite, hopen, hid, hrun]
      exact hafter

/-- A call keeps files and history together unless a write leaves a gap that is not blank. -/
theorem Agrees.step (ht : Agrees t.vfs.fs t.written) (hroom : c.HasRoom t.vfs)
    (hgap : c.GapBlank t.vfs) (h : loggedStep t c t') : Agrees t'.vfs.fs t'.written := by
  obtain ⟨v', w'⟩ := t'
  obtain ⟨r, hstep, rfl⟩ := h
  cases c with
  | «open» session path flags =>
    obtain ⟨⟨v, fd⟩, hopen, hv⟩ := bind_ok hstep
    cases hv
    exact ht.open hopen
  | read fd len =>
    cases hstep
    dsimp only
    split
    · exact ht
    · next i _ =>
      obtain ⟨hsup, hent, hdev⟩ :=
        sfsRead_confined ∅ t.vfs.fs (t.vfs.fds i).nodeId (t.vfs.fds i).offset len
      have hread := ht.same hsup hent hdev
      split
      · next hr =>
        rw [hr] at hread
        exact hread
      · next hr =>
        rw [hr] at hread
        exact hread
  | write fd data len =>
    cases hstep
    exact ht.vfsWrite hroom hgap
  | close fd =>
    have hclose : vfsClose t.vfs fd = v' := congrArg Prod.fst (Except.ok.inj hstep)
    have hfs : v'.fs = t.vfs.fs := by
      rw [← hclose]
      simp only [vfsClose]
      split <;> rfl
    dsimp only
    rw [hfs]
    exact ht
  | mkdir session path =>
    obtain ⟨⟨v, ok⟩, hmk, hv⟩ := bind_ok hstep
    cases hv
    obtain ⟨⟨fs, id⟩, hcreate, hv⟩ := bind_ok hmk
    cases hv
    exact ht.mkdir hcreate
  | remove session path =>
    obtain ⟨⟨v, ok⟩, hrm, hv⟩ := bind_ok hstep
    cases hv
    obtain ⟨⟨fs, ok⟩, hremove, hv⟩ := bind_ok hrm
    cases hv
    exact ht.remove hremove
  | chdir session path =>
    have heffect := vfsStep_effect hstep
    cases heffect with
    | moved call =>
      rcases call with ⟨_, _, he⟩ | ⟨_, _, _, he⟩ | ⟨_, he⟩
      · cases he
      · cases he
      · cases he
    | entered dir => exact ht
    | stayed => exact ht

/-- Every byte that a read delivers is the one written there. -/
def Logged.ReadsWritten (t : Logged) : Prop :=
  ∀ fd len i, openFd t.vfs fd vfsORead = some i → ∀ k b, (vfsRead t.vfs fd len).2[k]? = some b →
    b = t.written (t.vfs.fds i).nodeId ((t.vfs.fds i).offset.toNat + k)

theorem Agrees.reads (ht : Agrees t.vfs.fs t.written) : t.ReadsWritten := by
  intro fd len i hopen k b hb
  simp only [vfsRead, hopen] at hb
  cases hfile : fileWith t.vfs.fs.entries (t.vfs.fds i).nodeId sfsPermRead with
  | none => simp [sfsRead, hfile] at hb
  | some n =>
    obtain ⟨hf, hp, hnum⟩ := fileWith_some hfile
    have hid : (t.vfs.fds i).nodeId = slotId n := by
      apply UInt32.toNat_inj.mp
      rw [hnum, slotId_toNat]
    have hread := sfsRead_content ht.reliable ht.allocation hf hp ht.free (t.vfs.fds i).offset len
    rw [hid] at hb ⊢
    cases hr : sfsRead t.vfs.fs (slotId n) (t.vfs.fds i).offset len with
    | mk fs out =>
      rw [hr] at hb hread
      dsimp only at hread
      subst hread
      dsimp only at hb
      rw [List.getElem?_take] at hb
      split at hb
      · rw [List.getElem?_drop] at hb
        rw [ht.bytes n hf, List.getD_eq_getElem?_getD, hb, Option.getD_some]
      · cases hb

end Steps

/-- In a run on a reliable drive with room, whose writes leave no gap that is not blank, reads
return what was written since the last truncation. -/
theorem vfs_reads_written (v : Vfs) (cs : List VfsCall) (t : Logged) (hr : v.fs.dev.Reliable)
    (hx : Allocation v.fs.super v.fs.entries) (hfree : v.fs.super.nextFreeLba.toNat ≤ 65536)
    (h : Run (fun t c t' => loggedStep t c t' ∧ c.HasRoom t.vfs ∧ c.GapBlank t.vfs)
      (Logged.start v) cs t) : t.ReadsWritten := by
  have hstart : Agrees (Logged.start v).vfs.fs (Logged.start v).written := by
    refine ⟨hr, hx, hfree, fun n _ k => ?_⟩
    have hn := slotId_toNat n
    simp only [Logged.start, hn, n.isLt, dif_pos]
  have hend : Agrees t.vfs.fs t.written :=
    h.invariant (P := fun t => Agrees t.vfs.fs t.written)
      (fun s c s' hs hstep => hs.step hstep.2.1 hstep.2.2 hstep.1) hstart
  exact hend.reads

def logStep (t : Logged) (c : VfsCall) : Except Fault Logged := do
  let (v', _) ← vfsStep t.vfs c
  .ok ⟨v', t.after c⟩

theorem logStep_run (h : Run (fun t c t' => logStep t c = .ok t') t cs t') :
    Run loggedStep t cs t' := by
  refine h.mono (fun t c t' hstep => ?_)
  obtain ⟨⟨v', r⟩, hv, hstep⟩ := bind_ok hstep
  cases hstep
  exact ⟨r, hv, rfl⟩

/-- A descriptor for reading and writing on a file of three bytes. -/
def openedVfs : Vfs where
  fs := oneFile (fun _ _ => 65) 137 3 1 138
  fds := fun i => if i = 0 then ⟨1, 1, 0, 3⟩ else ⟨0, 0, 0, 0⟩
  ctx := fun _ => ⟨0, [], fun _ => 0, fun _ _ => 0, fun _ _ => 0⟩

/-- The first byte is written over, and the others are read. -/
theorem vfs_reads_written_next : ∃ t : Logged,
    Run loggedStep (Logged.start openedVfs) [.write 0 (fun _ => 66) 1] t ∧ t.ReadsWritten := by
  have hopen : openFd openedVfs 0 vfsOWrite = some 0 := by
    decide +kernel
  have hroom : (VfsCall.write 0 (fun _ => 66) 1).HasRoom openedVfs := by
    intro i n hi hn
    rw [hopen] at hi
    cases hi
    refine ⟨by decide +kernel, fun hm => ?_⟩
    have hid : n = 1 := by
      have hone : fileWith openedVfs.fs.entries 1 sfsPermWrite = some 1 := by
        decide +kernel
      exact Option.some.inj (hn.symm.trans hone)
    subst hid
    exact absurd hm (by decide +kernel)
  have hgap : (VfsCall.write 0 (fun _ => 66) 1).GapBlank openedVfs := by
    intro i n hi hn k hlow hhigh
    rw [hopen] at hi
    cases hi
    exact absurd hhigh (Nat.not_lt_zero k)
  have hstep : loggedStep (Logged.start openedVfs) (.write 0 (fun _ => 66) 1)
      ⟨(vfsWrite openedVfs 0 (fun _ => 66) 1).1,
        (Logged.start openedVfs).after (.write 0 (fun _ => 66) 1)⟩ := ⟨_, rfl, rfl⟩
  refine ⟨_, .cons hstep (.nil _), ?_⟩
  refine vfs_reads_written openedVfs [.write 0 (fun _ => 66) 1] _ (fun _ => rfl)
    (oneFile_allocation _ (by decide) (by decide) (by decide)) (by decide) ?_
  exact .cons ⟨hstep, hroom, hgap⟩ (.nil _)

/-- A file of three bytes is truncated through a second descriptor; a write through the first one
then brings them back. -/
theorem vfs_read_returns_truncated : ∃ t : Logged, Run loggedStep (Logged.start blankVfs)
      [.open 0 [97] 7, .write 0 (fun _ => 65) 3, .open 0 [97] 11, .write 0 (fun _ => 66) 1] t ∧
    t.vfs.fs.super.nextFreeLba = 138 ∧ openFd t.vfs 1 vfsORead = some 1 ∧
    (t.vfs.fds 1).offset = 0 ∧ (vfsRead t.vfs 1 4).2 = [65, 65, 65, 66] ∧
    t.written (t.vfs.fds 1).nodeId 0 = 0 := by
  have heval : (exec logStep (Logged.start blankVfs)
      [.open 0 [97] 7, .write 0 (fun _ => 65) 3, .open 0 [97] 11,
        .write 0 (fun _ => 66) 1]).toOption.map
      (fun t => (t.vfs.fs.super.nextFreeLba, openFd t.vfs 1 vfsORead, (t.vfs.fds 1).offset,
        (vfsRead t.vfs 1 4).2, t.written (t.vfs.fds 1).nodeId 0)) =
      some (138, some 1, 0, [65, 65, 65, 66], 0) := by decide +kernel
  obtain ⟨t, hrun, ht⟩ := exec_observed _ heval
  simp only [Prod.mk.injEq] at ht
  obtain ⟨hnext, hopen, hoffset, hread, hw⟩ := ht
  exact ⟨t, logStep_run hrun, hnext, hopen, hoffset, hread, hw⟩

end VertexOS
