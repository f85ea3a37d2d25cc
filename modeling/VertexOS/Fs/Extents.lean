import VertexOS.Library.Packing
import VertexOS.Fs.Turns

namespace VertexOS
open Library.BlockStore Library.Packing

def Entry.IsFile (e : Entry) : Prop := e.used ≠ 0 ∧ e.type = sfsTypeFile

instance (e : Entry) : Decidable e.IsFile := inferInstanceAs (Decidable (_ ∧ _))

/-- The sectors `[start_lba, start_lba + capacity_sectors)` of an allocated file. -/
def Entry.extent (e : Entry) : Set Nat :=
  if e.IsFile ∧ e.startLba ≠ 0 then
    Set.Ico e.startLba.toNat (e.startLba.toNat + e.capacitySectors.toNat)
  else ∅

/-- The extents of the used files are disjoint and lie between the first data
sector and the free end, and every file fits its capacity. -/
structure ExtentCondition (sb : Superblock) (es : Table) : Prop where
  packed : Packed (fun n => (es n).extent) sfsDataLba.toNat sb.nextFreeLba.toNat
  fits : ∀ n, (es n).IsFile → (es n).size.toNat ≤ 512 * (es n).capacitySectors.toNat

/-- What the code maintains besides: the free end never lies below the data
area, and a file without an extent is empty. -/
structure Allocation (sb : Superblock) (es : Table) : Prop extends ExtentCondition sb es where
  frontier : sfsDataLba.toNat ≤ sb.nextFreeLba.toNat
  unallocated : ∀ n, (es n).IsFile → (es n).startLba = 0 → (es n).size = 0

/-- The bytes a file consists of: `size` bytes stored from `start_lba` on. -/
def content (es : Table) (f : Store 512) (n : Fin 64) : List UInt8 :=
  (List.range (es n).size.toNat).map fun k => byte f (512 * (es n).startLba.toNat + k)

theorem extent_of_file {e : Entry} (hf : e.IsFile) (hs : e.startLba ≠ 0) : e.extent =
    Set.Ico e.startLba.toNat (e.startLba.toNat + e.capacitySectors.toNat) := if_pos ⟨hf, hs⟩

theorem extent_congr {e e' : Entry} (hf : e'.IsFile ↔ e.IsFile) (hs : e'.startLba = e.startLba)
    (hc : e'.capacitySectors = e.capacitySectors) : e'.extent = e.extent := by
  unfold Entry.extent
  rw [hs, hc]
  simp only [hf]

/-- The bytes of a nonempty file lie in sectors of its extent. -/
theorem ExtentCondition.mem_extent (h : ExtentCondition sb es) (hf : (es n).IsFile)
    (hs : (es n).startLba ≠ 0) (hk : k < (es n).size.toNat) :
    (512 * (es n).startLba.toNat + k) / 512 ∈ (es n).extent := by
  have := h.fits n hf
  rw [extent_of_file hf hs, Set.mem_Ico]
  omega

/-- Every sector of an extent lies in the data area and below the free end. -/
theorem ExtentCondition.bounds (h : ExtentCondition sb es) (ha : a ∈ (es n).extent) :
    137 ≤ a ∧ a < sb.nextFreeLba.toNat := h.packed.inside n ha

theorem fileWith_slot (es : Table) (n : Fin 64) (perm : UInt8) (hf : (es n).IsFile)
    (hp : (es n).perm &&& perm ≠ 0) : fileWith es (slotId n) perm = some n := by
  have hn : (slotId n).toNat = n.val := by
    simp only [slotId, UInt32.toNat_ofNat']; omega
  unfold fileWith
  rw [dif_pos (by omega)]
  simp only [hn]
  exact if_pos ⟨hf.1, hf.2, hp⟩

/-- What a successful check of the file operations says about the node. -/
theorem fileWith_some (h : fileWith es nodeId perm = some n) :
    (es n).IsFile ∧ (es n).perm &&& perm ≠ 0 ∧ nodeId.toNat = n.val := by
  unfold fileWith at h
  split at h
  · dsimp only at h
    split at h
    · rename_i hc
      cases h
      exact ⟨⟨hc.1, hc.2.1⟩, hc.2.2, rfl⟩
    · cases h
  · cases h

/-- A node without the permission is refused. -/
theorem fileWith_refused (hp : (es n).perm &&& perm = 0) : fileWith es (slotId n) perm = none := by
  cases hw : fileWith es (slotId n) perm with
  | none => rfl
  | some k =>
    obtain ⟨-, hk, hid⟩ := fileWith_some hw
    have hslot : (slotId n).toNat = n.val := by
      simp only [slotId, UInt32.toNat_ofNat']
      omega
    obtain rfl : n = k := Fin.ext (hslot.symm.trans hid)
    exact absurd hp hk

/-- `sfs_write` gives the file sectors at the free end. -/
def Moves (e : Entry) (need : UInt32) : Prop := e.startLba = 0 ∨ need > e.capacitySectors

/-- It copies the old sectors there first. -/
def Relocates (e : Entry) (need : UInt32) : Prop := e.startLba ≠ 0 ∧ need > e.capacitySectors

instance (e : Entry) (need : UInt32) : Decidable (Moves e need) :=
  inferInstanceAs (Decidable (_ ∨ _))

instance (e : Entry) (need : UInt32) : Decidable (Relocates e need) :=
  inferInstanceAs (Decidable (_ ∧ _))

/-- The three ways of the reservation. -/
theorem sfsReserve_cases (s : SimpleFs) (n : Fin 64) (need : UInt32) :
    (s.entries n).startLba = 0 ∧ sfsReserve s n need = (grow s n need, true) ∨
    (Relocates (s.entries n) need ∧ sfsReserve s n need =
      match relocateLoop (s.entries n).startLba s.super.nextFreeLba
          (s.entries n).capacitySectors.toNat s.dev 0 with
      | (dev, false) => ({ s with dev }, false)
      | (dev, true) => (grow { s with dev } n need, true)) ∨
    ¬Moves (s.entries n) need ∧ sfsReserve s n need = (s, true) := by
  unfold sfsReserve
  by_cases h0 : (s.entries n).startLba = 0
  · exact .inl ⟨h0, if_pos h0⟩
  · by_cases hc : need > (s.entries n).capacitySectors
    · refine .inr (.inl ⟨⟨h0, hc⟩, ?_⟩)
      exact (if_neg h0).trans (if_pos hc)
    · refine .inr (.inr ⟨not_or.mpr ⟨h0, hc⟩, ?_⟩)
      dsimp only
      rw [if_neg h0, if_neg hc]

/-- A reservation that succeeds takes sectors from the free end exactly when the file moves. -/
theorem sfsReserve_taken (h : sfsReserve s n need = (s', true)) :
    Moves (s.entries n) need ∧ s'.super.nextFreeLba = s.super.nextFreeLba + need ∨
      ¬Moves (s.entries n) need ∧ s' = s := by
  rcases sfsReserve_cases s n need with ⟨h0, he⟩ | ⟨hr, he⟩ | ⟨hm, he⟩
  · rw [he] at h
    cases h
    exact .inl ⟨.inl h0, rfl⟩
  · rw [he] at h
    cases hl : relocateLoop (s.entries n).startLba s.super.nextFreeLba
        (s.entries n).capacitySectors.toNat s.dev 0 with
    | mk dev ok =>
      rw [hl] at h
      cases ok with
      | false => cases h
      | true =>
        cases h
        exact .inl ⟨.inr hr.2, rfl⟩
  · rw [he] at h
    cases h
    exact .inr ⟨hm, rfl⟩

/-- Where `sfs_write` puts the file: it stays, or it moves to the free end with
its old bytes copied along. `ws` are the sector writes of the copy. -/
inductive Placed (s : SimpleFs) (n : Fin 64) (need : UInt32) : SimpleFs → List (Write 512) → Prop
  | kept (hs : (s.entries n).startLba ≠ 0)
      (hc : need.toNat ≤ (s.entries n).capacitySectors.toNat) : Placed s n need s []
  | grown {dev : Drive} {ws : List (Write 512)} (hw : Wrote s.dev ws dev)
      (ht : Touches (Set.Ico (512 * s.super.nextFreeLba.toNat)
        (512 * (s.super.nextFreeLba.toNat + need.toNat))) s.dev.sectors ws)
      (hcopy : ∀ k, k < (s.entries n).size.toNat →
        byte dev.sectors (512 * s.super.nextFreeLba.toNat + k) =
          byte s.dev.sectors (512 * (s.entries n).startLba.toNat + k))
      (hsize : (s.entries n).size.toNat ≤ 512 * need.toNat) :
      Placed s n need (grow { s with dev } n need) ws

/-- The extent of a file lies below the free end. -/
theorem ExtentCondition.below (h : ExtentCondition sb es) (hf : (es n).IsFile)
    (hs : (es n).startLba ≠ 0) : (es n).capacitySectors.toNat = 0 ∨
      (es n).startLba.toNat + (es n).capacitySectors.toNat ≤ sb.nextFreeLba.toNat := by
  by_cases h0 : (es n).capacitySectors.toNat = 0
  · exact .inl h0
  · have hm : (es n).startLba.toNat + (es n).capacitySectors.toNat - 1 ∈ (es n).extent := by
      rw [extent_of_file hf hs, Set.mem_Ico]
      omega
    have hlast := (h.bounds hm).2
    exact .inr (by omega)

@[simp] theorem grow_dev (s : SimpleFs) (n : Fin 64) (need : UInt32) :
    (grow s n need).dev = s.dev := rfl

@[simp] theorem grow_super (s : SimpleFs) (n : Fin 64) (need : UInt32) : (grow s n need).super =
    { s.super with nextFreeLba := s.super.nextFreeLba + need } := rfl

@[simp] theorem grow_self (s : SimpleFs) (n : Fin 64) (need : UInt32) :
    (grow s n need).entries n = { s.entries n with
      startLba := s.super.nextFreeLba, capacitySectors := need } := by
  simp [grow]

theorem grow_other (s : SimpleFs) (need : UInt32) (hm : m ≠ n) :
    (grow s n need).entries m = s.entries m := by
  simp [grow, hm]

section Placed

variable {s s' : SimpleFs} {n : Fin 64} {need : UInt32} {ws : List (Write 512)}

theorem Placed.wrote (h : Placed s n need s' ws) : Wrote s.dev ws s'.dev := by
  cases h with
  | kept hs hc => exact Wrote.refl _
  | grown hw ht hcopy hsize => exact hw

theorem Placed.other (h : Placed s n need s' ws) (hm : m ≠ n) :
    s'.entries m = s.entries m := by
  cases h with
  | kept hs hc => rfl
  | grown hw ht hcopy hsize => exact grow_other _ _ hm

/-- Placing a file changes nothing of its entry but the extent. -/
theorem Placed.self (h : Placed s n need s' ws) : s'.entries n = { s.entries n with
    startLba := (s'.entries n).startLba, capacitySectors := (s'.entries n).capacitySectors } := by
  cases h with
  | kept hs hc => rfl
  | grown hw ht hcopy hsize => simp

theorem Placed.isFile (h : Placed s n need s' ws) (m : Fin 64) :
    (s'.entries m).IsFile ↔ (s.entries m).IsFile := by
  by_cases hm : m = n
  · subst hm
    rw [h.self]
    exact Iff.rfl
  · rw [h.other hm]

theorem Placed.size (h : Placed s n need s' ws) : (s'.entries n).size = (s.entries n).size := by
  rw [h.self]

/-- Placing writes at the free end only. -/
theorem Placed.low (h : Placed s n need s' ws) (ha : a / 512 < s.super.nextFreeLba.toNat) :
    byte s'.dev.sectors a = byte s.dev.sectors a := by
  cases h with
  | kept hs hc => rfl
  | grown hw ht hcopy hsize =>
    rw [grow_dev, hw.sectors]
    exact ht.outside (by simp only [Set.mem_Ico]; omega)

/-- Placing takes the file's bytes along. -/
theorem Placed.copied (h : Placed s n need s' ws) (hk : k < (s.entries n).size.toNat) :
    byte s'.dev.sectors (512 * (s'.entries n).startLba.toNat + k) =
      byte s.dev.sectors (512 * (s.entries n).startLba.toNat + k) := by
  cases h with
  | kept hs hc => rfl
  | grown hw ht hcopy hsize =>
    rw [grow_self]
    exact hcopy k hk

/-- After placing, the file has an extent that holds `need` sectors. -/
theorem Placed.room (h : Placed s n need s' ws)
    (hroom : s.super.nextFreeLba.toNat + need.toNat ≤ 65536) :
    need.toNat ≤ (s'.entries n).capacitySectors.toNat ∧
      s'.super.nextFreeLba.toNat ≤ max s.super.nextFreeLba.toNat 65536 := by
  cases h with
  | kept hs hc => exact ⟨hc, le_max_left _ _⟩
  | grown hw ht hcopy hsize =>
    simp only [grow_self, grow_super, UInt32.toNat_add]
    omega

/-- Placing keeps the allocation invariant. -/
theorem Placed.allocation (h : Placed s n need s' ws) (hx : Allocation s.super s.entries)
    (hf : (s.entries n).IsFile) (hroom : s.super.nextFreeLba.toNat + need.toNat ≤ 65536) :
    Allocation s'.super s'.entries ∧ (s'.entries n).startLba ≠ 0 := by
  cases h with
  | kept hs hc => exact ⟨hx, hs⟩
  | @grown dev ws hw ht hcopy hsize =>
    have hfront := hx.frontier
    simp only [sfsDataLba_toNat] at hfront
    have hsum : (s.super.nextFreeLba + need).toNat = s.super.nextFreeLba.toNat + need.toNat := by
      rw [UInt32.toNat_add]; omega
    have hfree0 : s.super.nextFreeLba ≠ 0 := by
      intro h0
      rw [h0] at hfront
      exact absurd hfront (by decide)
    have hfile : ({ s.entries n with
        startLba := s.super.nextFreeLba, capacitySectors := need } : Entry).IsFile := hf
    have hext : (fun m => ((grow { s with dev } n need).entries m).extent) =
        Function.update (fun m => (s.entries m).extent) n
          (Set.Ico s.super.nextFreeLba.toNat (s.super.nextFreeLba.toNat + need.toNat)) := by
      funext m
      by_cases hm : m = n
      · subst hm
        rw [grow_self, Function.update_self, extent_of_file hfile hfree0]
      · rw [grow_other _ _ hm, Function.update_of_ne hm]
    refine ⟨⟨⟨?_, ?_⟩, ?_, ?_⟩, by simpa using hfree0⟩
    · rw [hext, grow_super]
      simp only [hsum]
      exact hx.packed.place hfront (by omega) n (le_refl _)
    · intro m hm
      by_cases hmn : m = n
      · subst hmn
        simpa using hsize
      · rw [grow_other _ _ hmn] at hm ⊢
        exact hx.fits m hm
    · simp only [grow_super, hsum, sfsDataLba_toNat]
      omega
    · intro m hm h0
      by_cases hmn : m = n
      · subst hmn
        rw [grow_self] at h0
        exact absurd h0 hfree0
      · rw [grow_other _ _ hmn] at hm h0 ⊢
        exact hx.unallocated m hm h0

/-- A file with a sound extent of at least `need` sectors. -/
structure Reserved (s : SimpleFs) (n : Fin 64) (need : UInt32) : Prop where
  allocation : Allocation s.super s.entries
  start : (s.entries n).startLba ≠ 0
  capacity : need.toNat ≤ (s.entries n).capacitySectors.toNat

theorem Placed.reserved (h : Placed s n need s' ws) (hx : Allocation s.super s.entries)
    (hf : (s.entries n).IsFile) (hroom : s.super.nextFreeLba.toNat + need.toNat ≤ 65536) :
    Reserved s' n need := by
  obtain ⟨hx', hstart⟩ := h.allocation hx hf hroom
  exact ⟨hx', hstart, (h.room hroom).1⟩

end Placed

section Reserve

variable {s s' : SimpleFs} {n : Fin 64} {need : UInt32}

/-- A relocation that succeeds has copied the whole old extent. -/
theorem relocateLoop_extent (hx : ExtentCondition s.super s.entries) (hf : (s.entries n).IsFile)
    (hs : (s.entries n).startLba ≠ 0)
    (hroom : s.super.nextFreeLba.toNat + (s.entries n).capacitySectors.toNat ≤ 65536)
    (h : relocateLoop (s.entries n).startLba s.super.nextFreeLba
      (s.entries n).capacitySectors.toNat s.dev 0 = (dev, true)) :
    ∃ ws, Wrote s.dev ws dev ∧
      Touches (Set.Ico (512 * s.super.nextFreeLba.toNat) (512 * (s.super.nextFreeLba.toNat +
        (s.entries n).capacitySectors.toNat))) s.dev.sectors ws ∧
      ∀ k, k < 512 * (s.entries n).capacitySectors.toNat →
        byte dev.sectors (512 * s.super.nextFreeLba.toNat + k) =
          byte s.dev.sectors (512 * (s.entries n).startLba.toNat + k) := by
  have hz : (0 : UInt32).toNat = 0 := rfl
  rcases hx.below hf hs with h0 | hend
  · rw [h0] at h
    cases h
    exact ⟨[], Wrote.refl s.dev, trivial, fun k hk => by omega⟩
  · obtain ⟨ws, hw, ht, hd⟩ := relocateLoop_done (s.entries n).startLba s.super.nextFreeLba h
      (by omega) (by omega)
    simp only [hz, Nat.zero_add, Nat.add_zero, Nat.mul_zero] at ht hd
    exact ⟨ws, hw, ht, fun k hk => hd k (Nat.zero_le _) hk⟩

/-- The byte that stands at place `k` of the file when its data loop starts. -/
def placedByte (s : SimpleFs) (n : Fin 64) (need : UInt32) (k : Nat) : UInt8 :=
  let e := s.entries n
  if Moves e need ∧ (e.startLba = 0 ∨ 512 * e.capacitySectors.toNat ≤ k) then
    byte s.dev.sectors (512 * s.super.nextFreeLba.toNat + k)
  else byte s.dev.sectors (512 * e.startLba.toNat + k)

/-- What a reservation that succeeds has done. -/
structure Placing (s : SimpleFs) (n : Fin 64) (need : UInt32) (s' : SimpleFs)
    (ws : List (Write 512)) : Prop where
  placed : Placed s n need s' ws
  reserved : Reserved s' n need
  bytes : ∀ k, byte s'.dev.sectors (512 * (s'.entries n).startLba.toNat + k) =
    placedByte s n need k

/-- A reservation that succeeds has placed the file. -/
theorem sfsReserve_done (hx : Allocation s.super s.entries) (hf : (s.entries n).IsFile)
    (hroom : Moves (s.entries n) need → s.super.nextFreeLba.toNat + need.toNat ≤ 65536)
    (h : sfsReserve s n need = (s', true)) : ∃ ws, Placing s n need s' ws := by
  rcases sfsReserve_cases s n need with ⟨h0, he⟩ | ⟨hr, he⟩ | ⟨hm, he⟩
  · have hempty : (s.entries n).size.toNat = 0 := by
      rw [hx.unallocated n hf h0]
      rfl
    rw [he] at h
    cases h
    have hpl : Placed s n need (grow s n need) [] :=
      .grown (Wrote.refl s.dev) trivial (by omega) (by omega)
    refine ⟨[], hpl, hpl.reserved hx hf (hroom (.inl h0)), fun k => ?_⟩
    have hfree : Moves (s.entries n) need ∧ ((s.entries n).startLba = 0 ∨
        512 * (s.entries n).capacitySectors.toNat ≤ k) := ⟨.inl h0, .inl h0⟩
    rw [placedByte, if_pos hfree, grow_self]
    rfl
  · have hcap := UInt32.lt_iff_toNat_lt.mp hr.2
    have hfree := hroom (.inr hr.2)
    have hfit := hx.fits n hf
    cases hl : relocateLoop (s.entries n).startLba s.super.nextFreeLba
        (s.entries n).capacitySectors.toNat s.dev 0 with
    | mk dev ok =>
      rw [he, hl] at h
      cases ok with
      | false => cases h
      | true =>
        cases h
        obtain ⟨ws, hw, ht, hd⟩ := relocateLoop_extent hx.toExtentCondition hf hr.1 (by omega) hl
        have hpl : Placed s n need (grow { s with dev } n need) ws := by
          refine .grown hw (ht.mono ?_) (fun k hk => hd k (by omega)) (by omega)
          exact Set.Ico_subset_Ico_right (by omega)
        refine ⟨ws, hpl, hpl.reserved hx hf hfree, fun k => ?_⟩
        rw [placedByte, grow_self, grow_dev]
        dsimp only
        by_cases hk : k < 512 * (s.entries n).capacitySectors.toNat
        · rw [if_neg (by rintro ⟨-, h0 | hle⟩; exacts [hr.1 h0, absurd hk (by omega)]), hd k hk]
        · rw [if_pos ⟨.inr hr.2, .inr (by omega)⟩, hw.sectors,
            ht.outside (by simp only [Set.mem_Ico]; omega)]
  · rw [he] at h
    cases h
    have hstay := not_or.mp hm
    have hcap := UInt32.le_iff_toNat_le.mp (UInt32.not_lt.mp hstay.2)
    refine ⟨[], .kept hstay.1 hcap, ⟨hx, hstay.1, hcap⟩, fun k => ?_⟩
    rw [placedByte, if_neg fun hin => hm hin.1]

/-- With room for a file that moves the reservation succeeds on a reliable drive. -/
theorem sfsReserve_placed (hx : Allocation s.super s.entries) (hr : s.dev.Reliable)
    (hf : (s.entries n).IsFile)
    (hroom : Moves (s.entries n) need → s.super.nextFreeLba.toNat + need.toNat ≤ 65536) :
    ∃ s' ws, sfsReserve s n need = (s', true) ∧ Placing s n need s' ws := by
  have hok : (sfsReserve s n need).2 = true := by
    rcases sfsReserve_cases s n need with ⟨-, he⟩ | ⟨hrel, he⟩ | ⟨-, he⟩
    · rw [he]
    · have hcap := UInt32.lt_iff_toNat_lt.mp hrel.2
      have hfree := hroom (.inr hrel.2)
      have hl : (relocateLoop (s.entries n).startLba s.super.nextFreeLba
          (s.entries n).capacitySectors.toNat s.dev 0).2 = true := by
        rcases hx.below hf hrel.1 with h0 | hend
        · rw [h0]
          rfl
        · have hz : (0 : UInt32).toNat = 0 := rfl
          exact relocateLoop_reliable _ _ hr _ 0 (by omega) (by omega)
      rw [he]
      cases hloop : relocateLoop (s.entries n).startLba s.super.nextFreeLba
          (s.entries n).capacitySectors.toNat s.dev 0 with
      | mk dev ok =>
        rw [hloop] at hl
        cases hl
        rfl
    · rw [he]
  have hres : sfsReserve s n need = ((sfsReserve s n need).1, true) := Prod.ext rfl hok
  obtain ⟨ws, hpl⟩ := sfsReserve_done hx hf hroom hres
  exact ⟨_, ws, hres, hpl⟩

end Reserve

end VertexOS
