import VertexOS.Fs.FileContents
import VertexOS.Vfs.Effects
import VertexOS.Mem.Coalescing
import VertexOS.Exec.Elf

namespace VertexOS
open Library.Memory Library.BlockStore Library.FreeList

/-- The buffer holds the bytes of the file. -/
structure Holds (m : Mem) (f : Buffer) (file : List UInt8) : Prop where
  length : file.length = f.size.toNat
  fits : f.base.toNat + f.size.toNat ≤ 4294967296
  bytes : ∀ k, k < file.length → m (f.base + UInt32.ofNat k) = file.getD k 0

/-- A write clear of the buffer leaves the file in it. -/
theorem Holds.frame (h : Holds m f file) (hs : SameOutside lo hi m m')
    (hout : f.base.toNat + f.size.toNat ≤ lo ∨ hi ≤ f.base.toNat) : Holds m' f file := by
  refine ⟨h.length, h.fits, ?_⟩
  intro k hk
  have hlen := h.length
  have hfits := h.fits
  have hadd : (f.base + UInt32.ofNat k).toNat = f.base.toNat + k := toNat_add_small f.base k (by omega)
  rw [hs _ (by omega)]
  exact h.bytes k hk

theorem sfsStat_file (h : sfsStat fs nodeId = some st) (ht : st.type = sfsTypeFile) :
    ∃ n, nodeId = slotId n ∧ (fs.entries n).IsFile ∧ st.size = (fs.entries n).size := by
  unfold sfsStat at h
  split at h
  · rename_i hlt
    dsimp only at h
    split at h
    · cases h
    · rename_i hu
      cases h
      refine ⟨⟨nodeId.toNat, hlt⟩, ?_, ⟨hu, ht⟩, rfl⟩
      apply UInt32.toNat_inj.mp
      rw [slotId_toNat]
  · cases h

/-- The loop of `sfs_read` delivers nothing from a file that begins past the
last sector. -/
theorem readLoop_start (h : readLoop start 0 len d 0 [] = (d', some out)) (hlen : len ≠ 0) :
    start.toNat < 65536 := by
  have hpos : (0 : UInt32) < len := by
    rw [UInt32.lt_iff_toNat_lt]
    exact Nat.pos_of_ne_zero (fun hz => hlen (UInt32.toNat_inj.mp hz))
  rw [readLoop, dif_pos hpos] at h
  dsimp only at h
  cases hread : blockdevRead d (start + (0 + 0) / 512) with
  | mk d1 r =>
    rw [hread] at h
    cases r with
    | none => cases h
    | some b =>
      have hz : start + (0 + 0) / 512 = start := UInt32.add_zero start
      rw [hz] at hread
      exact (blockdevRead_some hread).1

/-- A read of a whole file delivers its content or nothing. -/
theorem sfsRead_whole (s : SimpleFs) (n : Fin 64) (hs : (s.entries n).size ≠ 0) :
    (sfsRead s (slotId n) 0 (s.entries n).size).2 = none ∨
      (sfsRead s (slotId n) 0 (s.entries n).size).2 =
        some (content s.entries s.dev.sectors n) ∧ (s.entries n).size.toNat ≤ 33554432 := by
  unfold sfsRead
  cases hw : fileWith s.entries (slotId n) sfsPermRead with
  | none => exact Or.inl rfl
  | some n' =>
    obtain rfl : n = n' := by
      have := (fileWith_some hw).2.2
      rw [slotId_toNat] at this
      exact Fin.ext this
    have hge : ¬ (0 : UInt32) ≥ (s.entries n).size := by
      rw [ge_iff_le, UInt32.le_iff_toNat_le]
      intro hle
      exact hs (UInt32.toNat_inj.mp (Nat.le_zero.mp hle))
    dsimp only
    rw [if_neg hge, UInt32.sub_zero, if_neg (by simp)]
    cases hloop : readLoop (s.entries n).startLba 0 (s.entries n).size s.dev 0 [] with
    | mk d' r =>
      cases r with
      | none => exact Or.inl rfl
      | some out =>
        have hstart := readLoop_start hloop hs
        obtain ⟨hout, -, hlast⟩ := readLoop_some (Nat.zero_le _) hstart.le
          (by simpa using (s.entries n).size.toNat_lt) hloop
        have hpos : 0 < (s.entries n).size.toNat :=
          Nat.pos_of_ne_zero (fun hz => hs (UInt32.toNat_inj.mp hz))
        refine Or.inr ⟨?_, ?_⟩
        · rw [hout]
          simp [content]
        · have := hlast hpos
          omega

theorem sfsReadOut_some (h : sfsRead s nodeId offset len = (s', some out)) :
    sfsReadOut s nodeId offset len = out := by
  unfold sfsRead at h
  unfold sfsReadOut
  cases hw : fileWith s.entries nodeId sfsPermRead with
  | none =>
    rw [hw] at h
    cases h
  | some n =>
    rw [hw] at h
    dsimp only at h ⊢
    split at h
    · rename_i hge
      rw [if_pos hge]
      cases h
      rfl
    · rename_i hge
      rw [if_neg hge]
      generalize hloop : readLoop _ _ _ _ _ _ = r at h
      obtain ⟨d, r⟩ := r
      cases h
      exact ((readLoopOut_some hloop).trans (List.nil_append _)).symm

theorem vfsReadOut_length (v : Vfs) (fd : Int) (len : UInt32) :
    (vfsReadOut v fd len).length ≤ len.toNat := by
  unfold vfsReadOut sfsReadOut
  cases openFd v fd vfsORead with
  | none => exact Nat.zero_le _
  | some i =>
    dsimp only
    cases fileWith v.fs.entries (v.fds i).nodeId sfsPermRead with
    | none => exact Nat.zero_le _
    | some n =>
      have hlen : ∀ l, (readLoopOut (v.fs.entries n).startLba (v.fds i).offset l v.fs.dev
          0).length ≤ l.toNat := fun l => readLoopOut_length (Nat.zero_le _)
      dsimp only
      split
      · exact Nat.zero_le _
      · refine (hlen _).trans ?_
        split
        · rename_i hgt
          exact Nat.le_of_lt (UInt32.lt_iff_toNat_lt.mp hgt)
        · exact Nat.le_refl _

/-- The slots in use, and every slot but the first free one, are as they were; that one is still free. -/
def SlotsKept (fds fds' : Fin 16 → VfsFd) : Prop :=
  ∀ i, (fds' i).used = (fds i).used ∧ (fds' i = fds i ∨ freeFd fds = some i)

theorem SlotsKept.refl (fds : Fin 16 → VfsFd) : SlotsKept fds fds := fun _ => ⟨rfl, Or.inl rfl⟩

theorem freeFd_unused (h : freeFd fds = some i) : (fds i).used = 0 := by
  simpa using List.find?_some h

/-- A descriptor that was opened is closed again. -/
theorem vfsClose_kept (hfree : freeFd fds = some i) (hother : ∀ j, j ≠ i → v.fds j = fds j) :
    SlotsKept fds (vfsClose v (i.val : Int)).fds := by
  have hi := i.isLt
  have hslot : Fin.ofNat 16 (i.val : Int).toNat = i := Fin.ext (Nat.mod_eq_of_lt hi)
  unfold vfsClose
  rw [if_pos (by omega)]
  dsimp only
  rw [hslot]
  intro j
  by_cases hj : j = i
  · subst hj
    rw [Function.update_self]
    exact ⟨(freeFd_unused hfree).symm, Or.inr hfree⟩
  · rw [Function.update_of_ne hj]
    exact ⟨by rw [hother j hj], Or.inl (hother j hj)⟩

/-- What `vfs_open` for reading makes of a path that names a node. -/
theorem vfsOpen_read (hr : sfsResolve v.fs path (v.cwd session) = .ok (some nodeId)) :
    vfsOpen v session path vfsORead = .ok (v, none) ∨
      ∃ i, freeFd v.fds = some i ∧ vfsOpen v session path vfsORead =
        .ok ({ v with fds := Function.update v.fds i ⟨1, nodeId, 0, vfsORead⟩ }, some i) := by
  have hopen : openNode v.fs path (v.cwd session) vfsORead = .ok (v.fs, some nodeId) := by
    unfold openNode
    rw [hr]
    rfl
  have htrunc : openTruncate v.fs nodeId vfsORead = (v.fs, true) := if_neg (by decide)
  simp only [vfsOpen, hopen, htrunc, bind, Except.bind]
  cases hfree : freeFd v.fds with
  | none => exact Or.inl rfl
  | some i => exact Or.inr ⟨i, rfl, rfl⟩

/-- The first read of a fresh descriptor delivers the whole file or nothing, and
keeps the other descriptors. -/
theorem vfsRead_fresh (v : Vfs) (i : Fin 16) (n : Fin 64)
    (hfd : v.fds i = ⟨1, slotId n, 0, vfsORead⟩) (hs : (v.fs.entries n).size ≠ 0) :
    ∃ v' out, vfsRead v (i.val : Int) (v.fs.entries n).size = (v', out) ∧
      (∀ j, j ≠ i → v'.fds j = v.fds j) ∧
      (out = [] ∨ out = content v.fs.entries v.fs.dev.sectors n ∧
        vfsReadOut v (i.val : Int) (v.fs.entries n).size = out ∧
        (v.fs.entries n).size.toNat ≤ 33554432) := by
  have hopen : openFd v (i.val : Int) vfsORead = some i := by
    have hi := i.isLt
    have hslot : Fin.ofNat 16 (i.val : Int).toNat = i := Fin.ext (Nat.mod_eq_of_lt hi)
    unfold openFd
    rw [if_pos (by omega)]
    dsimp only
    rw [hslot, hfd]
    exact if_neg (by simp [vfsORead])
  have hwhole := sfsRead_whole v.fs n hs
  cases hread : sfsRead v.fs (slotId n) 0 (v.fs.entries n).size with
  | mk fs r =>
    rw [hread] at hwhole
    simp only [vfsRead, vfsReadOut, hopen, hfd, hread]
    rcases hwhole with rfl | ⟨rfl, hle⟩
    · exact ⟨_, _, rfl, fun _ _ => rfl, Or.inl rfl⟩
    · exact ⟨_, _, rfl, fun j hj => Function.update_of_ne hj _ _,
        Or.inr ⟨rfl, sfsReadOut_some hread, hle⟩⟩

theorem readFileLoop_done (h : ¬ total < size) :
    readFileLoop fd data size (fuel + 1) s total = some (s, total) := by
  rw [readFileLoop, if_neg h]

theorem readFileLoop_step (h : total < size)
    (hr : vfsRead s.vfs (fd.val : Int) (size - total) = (v', out)) :
    readFileLoop fd data size (fuel + 1) s total =
      let s' := ⟨v', { s.heap with
        mem := storeBytes s.heap.mem (data + total) (vfsReadOut s.vfs fd.val (size - total)) }⟩
      if UInt32.ofNat out.length = 0 then some (s', total)
      else readFileLoop fd data size fuel s' (total + UInt32.ofNat out.length) := by
  rw [readFileLoop, if_pos h, hr]

/-- The loop of `read_file_all` on a fresh descriptor stores the whole file, or
breaks after a read that fails. -/
theorem readFileLoop_fresh (v : Vfs) (hp : Heap) (data : UInt32) (i : Fin 16) (n : Fin 64)
    (hfd : v.fds i = ⟨1, slotId n, 0, vfsORead⟩) (fuel : Nat) :
    ∃ v' out total, readFileLoop i data (v.fs.entries n).size (fuel + 2) ⟨v, hp⟩ 0 =
        some (⟨v', { hp with mem := storeBytes hp.mem data out }⟩, total) ∧
      (∀ j, j ≠ i → v'.fds j = v.fds j) ∧
      (total ≠ (v.fs.entries n).size ∧ out.length ≤ (v.fs.entries n).size.toNat ∨
        total = (v.fs.entries n).size ∧ out = content v.fs.entries v.fs.dev.sectors n ∧
        (v.fs.entries n).size.toNat ≤ 33554432) := by
  have hlen := content_length v.fs.entries v.fs.dev.sectors n
  by_cases hs : (v.fs.entries n).size = 0
  · have hc : content v.fs.entries v.fs.dev.sectors n = [] := by
      rw [hs] at hlen
      exact List.eq_nil_of_length_eq_zero hlen
    rw [hc, hs]
    exact ⟨v, [], 0, readFileLoop_done (UInt32.lt_irrefl 0), fun _ _ => rfl,
      Or.inr ⟨rfl, rfl, Nat.zero_le _⟩⟩
  have hpos : (0 : UInt32) < (v.fs.entries n).size := by
    rw [UInt32.lt_iff_toNat_lt]
    exact Nat.pos_of_ne_zero (fun hz => hs (UInt32.toNat_inj.mp hz))
  obtain ⟨v', out, hread, hother, hout⟩ := vfsRead_fresh v i n hfd hs
  rw [← UInt32.sub_zero (a := (v.fs.entries n).size)] at hread
  rcases hout with rfl | ⟨rfl, hstored, hle⟩
  · have hz : UInt32.ofNat ([] : List UInt8).length = 0 := rfl
    refine ⟨v', vfsReadOut v i.val (v.fs.entries n).size, 0, ?_, hother,
      Or.inl ⟨Ne.symm hs, vfsReadOut_length v _ _⟩⟩
    rw [readFileLoop_step hpos hread]
    dsimp only
    rw [if_pos hz, UInt32.add_zero, UInt32.sub_zero]
  · have hchunk : UInt32.ofNat (content v.fs.entries v.fs.dev.sectors n).length =
        (v.fs.entries n).size := by
      rw [hlen]
      exact UInt32.ofNat_toNat
    refine ⟨v', _, (v.fs.entries n).size, ?_, hother, Or.inr ⟨rfl, rfl, hle⟩⟩
    rw [readFileLoop_step hpos hread]
    dsimp only
    rw [hchunk, if_neg hs, UInt32.zero_add, UInt32.add_zero, UInt32.sub_zero, hstored,
      readFileLoop_done (UInt32.lt_irrefl _)]

/-- The node that a path names for `read_file_all`, if it names a file. -/
theorem vfsStatPath_file (h : vfsStatPath v session path = .ok (some st))
    (ht : st.type = sfsTypeFile) : ∃ n, sfsResolve v.fs path (v.cwd session) =
      .ok (some (slotId n)) ∧ (v.fs.entries n).IsFile ∧ st.size = (v.fs.entries n).size := by
  unfold vfsStatPath at h
  obtain ⟨r, hr, h⟩ := bind_ok h
  cases r with
  | none => cases h
  | some id =>
    obtain ⟨n, rfl, hf, hsize⟩ := sfsStat_file (Except.ok.inj h) ht
    exact ⟨n, hr, hf, hsize⟩

/-- `kmalloc` can round up the size of the file that the path names. -/
def Roundable (s : Machine) (session : Int) (path : List UInt8) : Prop :=
  ∀ st, vfsStatPath s.vfs session path = .ok (some st) → st.size.toNat ≤ 0xFFFFFFF8

/-- A file read into the heap: whose content it is, and the heap with its buffer. -/
structure FileRead (start size : UInt32) (live : List (UInt32 × UInt32)) (rs : List Region)
    (s : Machine) (session : Int) (path : List UInt8) (s' : Machine) (f : Buffer)
    (file : List UInt8) : Prop where
  named : ∃ n, sfsResolve s.vfs.fs path (s.vfs.cwd session) = .ok (some (slotId n)) ∧
    (s.vfs.fs.entries n).IsFile ∧ file = content s.vfs.fs.entries s.vfs.fs.dev.sectors n
  holds : Holds s'.heap.mem f file
  rowed : ∃ rs' n, Allotted start rs rs' f.base ∧ Merged rs' ∧
    Rowed start size ⟨s'.heap, (f.base, n) :: live⟩ rs' ∧ f.size.toNat ≤ n.toNat
  short : f.size.toNat < size.toNat
  slots : SlotsKept s.vfs.fds s'.vfs.fds

variable {start size : UInt32} {live : List (UInt32 × UInt32)} {rs rs' : List Region} {fuel : Nat}

/-- A buffer taken and given back leaves the row as it was. -/
theorem Rowed.released (h : Rowed start size ⟨hp, (q, n) :: live⟩ rs') (hm : Merged rs)
    (ha : Allotted start rs rs' q) (hfuel : size.toNat < fuel) :
    ∃ hp', kfree fuel hp q = some hp' ∧ Rowed start size ⟨hp', live⟩ rs := by
  obtain ⟨o, r, hr, -, hq, -⟩ := h.seated _ List.mem_cons_self
  obtain ⟨m, hk, -⟩ := kfree_eq h hr hq (h.length_lt hfuel)
  exact ⟨_, hk, kfree_allotted ha hm h hk⟩

/-- Also when it was written to in between. -/
theorem Rowed.stored (h : Rowed start size ⟨hp, (q, n) :: live⟩ rs') (hout : out.length ≤ n.toNat) :
    Rowed start size ⟨{ hp with mem := storeBytes hp.mem q out }, (q, n) :: live⟩ rs' := by
  obtain ⟨o, r, hr, -, hq, hle⟩ := h.seated _ List.mem_cons_self
  have hbound := regionAt_bound hr
  have hrow := h.bound
  dsimp only at hq hle
  exact h.payload (l := (q, n)) List.mem_cons_self
    (storeBytes_outside hp.mem q out (by omega)) (Nat.le_refl _) (Nat.add_le_add_left hout _)

/-- `read_file_all` returns: with the named file in a buffer, or without one and
with nothing kept; unless a size that wraps around cost it the heap. -/
theorem readFileAll_cases (h : Rowed start size ⟨s.heap, live⟩ rs) (hm : Merged rs)
    (hlow : start.toNat + size.toNat < 4294967296) (hfuel : size.toNat + 2 ≤ fuel)
    (session : Int) (path : List UInt8) :
    (∃ e, readFileAll fuel s session path = .error (.fault e)) ∨
    (∃ s', readFileAll fuel s session path = .ok (s', none) ∧ SlotsKept s.vfs.fds s'.vfs.fds ∧
      (Roundable s session path → Rowed start size ⟨s'.heap, live⟩ rs)) ∨
    (¬Roundable s session path ∧ readFileAll fuel s session path = .error .spent) ∨
    ∃ s' f file, readFileAll fuel s session path = .ok (s', some f) ∧
      FileRead start size live rs s session path s' f file := by
  obtain ⟨fuel, rfl⟩ : ∃ k, fuel = k + 2 := ⟨fuel - 2, by omega⟩
  cases hstat : vfsStatPath s.vfs session path with
  | error e =>
    refine Or.inl ⟨e, ?_⟩
    simp only [readFileAll, hstat, orFault, Except.mapError, bind, Except.bind]
  | ok r =>
  cases r with
  | none =>
    refine Or.inr (Or.inl ⟨s, ?_, SlotsKept.refl _, fun _ => h⟩)
    simp only [readFileAll, hstat, orFault, Except.mapError, bind, Except.bind]
  | some st =>
  by_cases ht : st.type = sfsTypeFile
  swap
  · refine Or.inr (Or.inl ⟨s, ?_, SlotsKept.refl _, fun _ => h⟩)
    simp only [readFileAll, hstat, orFault, Except.mapError, bind, Except.bind, if_pos ht]
  obtain ⟨n, hres, hf, hsize⟩ := vfsStatPath_file hstat ht
  have hne : ¬ st.type ≠ sfsTypeFile := not_not.mpr ht
  rcases vfsOpen_read hres with hopen | ⟨i, hslot, hopen⟩
  · refine Or.inr (Or.inl ⟨s, ?_, SlotsKept.refl _, fun _ => h⟩)
    simp only [readFileAll, hstat, orFault, Except.mapError, bind, Except.bind, if_neg hne, hopen]
  have hopened : ∀ j, j ≠ i → Function.update s.vfs.fds i ⟨1, slotId n, 0, vfsORead⟩ j =
      s.vfs.fds j := fun j hj => Function.update_of_ne hj _ _
  have hlow' : (if st.size ≠ 0 then st.size else 1).toNat ≤ 0xFFFFFFF8 ∨
      start.toNat + size.toNat < 4294967296 := Or.inr hlow
  have hfull : st.size.toNat ≤ (if st.size ≠ 0 then st.size else 1).toNat := by
    split
    · exact Nat.le_refl _
    · rename_i hz
      rw [not_not.mp hz]
      exact Nat.zero_le _
  have hwant : st.size.toNat ≤ 0xFFFFFFF8 →
      (if st.size ≠ 0 then st.size else 1).toNat ≤ 0xFFFFFFF8 := by
    intro hle
    split
    · exact hle
    · decide
  generalize hnum : (if st.size ≠ 0 then st.size else 1) = want at hlow' hfull hwant
  obtain ⟨⟨hp, data⟩, hk⟩ := kmalloc_returns h hlow' (show size.toNat < fuel + 2 by omega)
  dsimp only at hk
  rcases kmalloc_cases h hlow' hk with
    ⟨rfl, rfl, -⟩ | ⟨rs', o, r, ⟨hfit, -⟩, h', hr, hrf, hq, hle, hnew, -⟩
  · refine Or.inr (Or.inl ⟨⟨vfsClose { s.vfs with
      fds := Function.update s.vfs.fds i ⟨1, slotId n, 0, vfsORead⟩ } i.val, s.heap⟩, ?_,
      vfsClose_kept hslot hopened, fun _ => h⟩)
    simp only [readFileAll, hstat, orFault, orSpent, Except.mapError, bind, Except.bind, if_neg hne,
      hopen, hnum, hk, if_true]
  have hd : data ≠ 0 := by
    rintro rfl
    simp at hq
  have ha : Allotted start rs rs' data := ⟨_, o, hfit, hq⟩
  have hspan := regionAt_bound hr
  rw [h'.whole] at hspan
  have hbuffer : want.toNat ≤ 0xFFFFFFF8 →
      Rowed start size ⟨hp, (data, want) :: live⟩ rs' := by
    intro hw
    rw [alignUp_heap _ hw] at hle
    exact h'.cons hr hrf hq (by omega) hnew
  obtain ⟨v', out, total, hloop, hother, hdone⟩ := readFileLoop_fresh
    { s.vfs with fds := Function.update s.vfs.fds i ⟨1, slotId n, 0, vfsORead⟩ } hp data i n
    (Function.update_self _ _ _) fuel
  have hclosed := vfsClose_kept hslot (fun j hj => (hother j hj).trans (hopened j hj))
  dsimp only at hloop
  rw [← hsize] at hloop
  rcases hdone with ⟨htot, hout⟩ | ⟨rfl, rfl, hshort⟩
  · -- the read failed: whatever was stored, the buffer goes back
    dsimp only at htot hout
    rw [← hsize] at htot hout
    have hrun : readFileAll (fuel + 2) s session path =
        (match kfree (fuel + 2) { hp with mem := storeBytes hp.mem data out } data with
          | none => .error .spent
          | some heap => .ok (⟨vfsClose v' i.val, heap⟩, none)) := by
      simp only [readFileAll, hstat, orFault, orSpent, Except.mapError, bind, Except.bind,
        if_neg hne, hopen, hnum, hk, if_neg hd, hloop, if_pos htot]
      cases kfree (fuel + 2) { hp with mem := storeBytes hp.mem data out } data with
      | none => rfl
      | some heap => rfl
    rw [hrun]
    by_cases hround : st.size.toNat ≤ 0xFFFFFFF8
    · obtain ⟨hp', hfree, hback⟩ := ((hbuffer (hwant hround)).stored (hout.trans hfull)).released
        hm ha (show size.toNat < fuel + 2 by omega)
      rw [hfree]
      exact Or.inr (Or.inl ⟨_, rfl, hclosed, fun _ => hback⟩)
    · have hnot : ¬Roundable s session path := fun hc => hround (hc st hstat)
      cases kfree (fuel + 2) { hp with mem := storeBytes hp.mem data out } data with
      | none => exact Or.inr (Or.inr (Or.inl ⟨hnot, rfl⟩))
      | some heap => exact Or.inr (Or.inl ⟨_, rfl, hclosed, fun hc => absurd hc hnot⟩)
  · dsimp only at hshort
    rw [← hsize] at hshort
    have hclen := content_length s.vfs.fs.entries s.vfs.fs.dev.sectors n
    rw [← hsize] at hclen
    have hw := hwant (by omega)
    rw [alignUp_heap _ hw] at hle
    have hfits : data.toNat + st.size.toNat ≤ 4294967296 := by omega
    refine Or.inr (Or.inr (Or.inr ⟨⟨vfsClose v' i.val, { hp with
      mem := storeBytes hp.mem data (content s.vfs.fs.entries s.vfs.fs.dev.sectors n) }⟩,
      ⟨data, st.size⟩, content s.vfs.fs.entries s.vfs.fs.dev.sectors n, ?_,
      ⟨⟨n, hres, hf, rfl⟩, ?_, ?_, ?_, hclosed⟩⟩))
    · simp only [readFileAll, hstat, orFault, orSpent, Except.mapError, bind, Except.bind,
        if_neg hne, hopen, hnum, hk, if_neg hd, hloop, ← hsize, if_neg (not_not.mpr rfl)]
    · refine ⟨hclen, hfits, ?_⟩
      intro k hk
      exact storeBytes_get hp.mem data _ (by rw [hclen]; exact hfits) hk
    · refine ⟨rs', want, ha, firstFit_merged hm hfit, (hbuffer hw).stored ?_, hfull⟩
      rw [hclen]
      exact hfull
    · dsimp only
      omega

end VertexOS
