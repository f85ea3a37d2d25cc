import VertexOS.Mem.UsableMemory

namespace VertexOS
open Library.Memory Library.Words

/-- The entry is one that `bootinfo_parse_multiboot` keeps. -/
def KeptEntry (e : E820Entry) : Prop :=
  e.type = e820TypeUsable ∧ e.length > 0 ∧ e.base < 0x100000000

instance (e : E820Entry) : Decidable (KeptEntry e) := inferInstanceAs (Decidable (_ ∧ _))

/-- The map at `a` consists of the records of the given entries, one behind the
other up to `stop`. -/
def MapAt (m : Mem) : Nat → List E820Entry → Nat → Prop
  | a, [], stop => a = stop
  | a, e :: es, stop =>
    mmapEntry m (UInt32.ofNat a) = e ∧ 20 ≤ (load32 m (UInt32.ofNat a)).toNat ∧
      MapAt m (a + ((load32 m (UInt32.ofNat a)).toNat + 4)) es stop

instance decidableMapAt (m : Mem) : ∀ a es stop, Decidable (MapAt m a es stop)
  | a, [], stop => inferInstanceAs (Decidable (a = stop))
  | a, e :: es, stop =>
    have := decidableMapAt m (a + ((load32 m (UInt32.ofNat a)).toNat + 4)) es stop
    inferInstanceAs (Decidable (mmapEntry m (UInt32.ofNat a) = e ∧ _ ∧ _))

section Step

variable {m : Mem} {stop : UInt32} {s s' : MapScan}

theorem mapStep_eq (h : s.cursor < stop) (hroom : s.map.length < e820MaxEntries) :
    mapStep m stop s = some
      ⟨s.cursor + (load32 m s.cursor + 4),
        s.map ++ [mmapEntry m s.cursor].filter (fun e => KeptEntry e)⟩ := by
  simp only [mapStep, h, hroom, and_self, if_true, storedEntry_eq, Option.some.injEq,
    MapScan.mk.injEq, true_and]
  change (if KeptEntry (mmapEntry m s.cursor) then _ else _) = _
  split
  · next hk => simp [hk]
  · next hk => simp [hk]

theorem mapStep_none (h : ¬(s.cursor < stop ∧ s.map.length < e820MaxEntries)) :
    mapStep m stop s = none := by
  simp only [mapStep, h, if_false]

theorem mapStep_guard (h : mapStep m stop s = some s') :
    s.cursor < stop ∧ s.map.length < e820MaxEntries := by
  by_contra hn
  rw [mapStep_none hn] at h
  cases h

end Step

section Agree

variable {m : Mem} {stop : UInt32} {es : List E820Entry} {a : Nat}

theorem MapAt.le (h : MapAt m a es b) : a ≤ b := by
  induction es generalizing a with
  | nil => exact Nat.le_of_eq h
  | cons e es ih =>
    obtain ⟨_, _, htail⟩ := h
    have := ih htail
    omega

/-- An entry that the scan leaves out gives no region either way. -/
theorem usableRegion_left_out {e : E820Entry} (h : ¬KeptEntry e) : usableRegion e = none := by
  apply usableRegion_none
  intro hr
  apply h
  refine ⟨hr.usable, ?_, ?_⟩
  · rw [gt_iff_lt, UInt64.lt_iff_toNat_lt]
    exact Nat.pos_of_ne_zero hr.nonempty
  · rw [UInt64.lt_iff_toNat_lt]
    exact hr.low

theorem usableRegions_stored (es : List E820Entry) :
    (es.filter (fun e => KeptEntry e)).filterMap usableRegion = es.filterMap usableRegion := by
  induction es with
  | nil => rfl
  | cons e es ih =>
    by_cases h : KeptEntry e
    · simp only [h, decide_true, List.filter_cons_of_pos, List.filterMap_cons, ih]
    · simp only [h, decide_false, Bool.false_eq_true, not_false_eq_true, List.filter_cons_of_neg,
        List.filterMap_cons, usableRegion_left_out h, ih]

/-- Over a well-formed map the scan ends at its end with the stored entries. -/
theorem mapLoop_map (h : MapAt m a es stop.toNat) (map : List E820Entry)
    (hroom : map.length + es.length ≤ e820MaxEntries) :
    mapLoop m stop (es.length + 1) ⟨UInt32.ofNat a, map⟩ =
      some ⟨stop, map ++ es.filter (fun e => KeptEntry e)⟩ := by
  have hlt := stop.toNat_lt
  induction es generalizing a map with
  | nil =>
    have he : a = stop.toNat := h
    have hc : UInt32.ofNat a = stop := by rw [he, UInt32.ofNat_toNat]
    have hend : ¬(stop < stop ∧ map.length < e820MaxEntries) := by
      intro hn
      exact UInt32.lt_irrefl stop hn.1
    have hnone := mapStep_none (m := m) (s := ⟨stop, map⟩) hend
    simp only [mapLoop, hc, hnone, List.filter_nil, List.append_nil]
  | cons e es ih =>
    obtain ⟨he, hsize, htail⟩ := h
    have hle := htail.le
    have hsmall : a < 4294967296 := by omega
    have hcur : (UInt32.ofNat a).toNat = a := UInt32.toNat_ofNat_of_lt' hsmall
    have hless : UInt32.ofNat a < stop := by
      rw [UInt32.lt_iff_toNat_lt, hcur]
      omega
    have hroom' : map.length < e820MaxEntries := by
      simp only [List.length_cons] at hroom
      omega
    have hstep : UInt32.ofNat a + (load32 m (UInt32.ofNat a) + 4) =
        UInt32.ofNat (a + ((load32 m (UInt32.ofNat a)).toNat + 4)) := by
      simp only [UInt32.ofNat_add, UInt32.ofNat_toNat]
      rfl
    have hkept : map ++ (e :: es).filter (fun e => KeptEntry e) =
        (map ++ [e].filter (fun e => KeptEntry e)) ++ es.filter (fun e => KeptEntry e) := by
      rw [List.append_assoc, ← List.filter_append, List.singleton_append]
    rw [List.length_cons, mapLoop, mapStep_eq hless hroom', he]
    simp only
    rw [hstep, ih htail, hkept]
    have hone : ([e].filter (fun e => KeptEntry e)).length ≤ 1 := List.length_filter_le _ [e]
    rw [List.length_cons] at hroom
    rw [List.length_append]
    omega

/-- The regions found through the loader's map are those of the same entries
read directly. -/
theorem multiboot_same_regions {mbInfoAddr : UInt32} (maxRegions : Nat) (haddr : mbInfoAddr ≠ 0)
    (hflag : load32 m mbInfoAddr &&& 64 ≠ 0) (hlen : es.length ≤ e820MaxEntries)
    (hmap : MapAt m (load32 m (mbInfoAddr + 48)).toNat es
      ((load32 m (mbInfoAddr + 48)).toNat + (load32 m (mbInfoAddr + 44)).toNat))
    (hend : (load32 m (mbInfoAddr + 48)).toNat + (load32 m (mbInfoAddr + 44)).toNat <
      4294967296) :
    ∃ fuel map, bootinfoParseMultiboot m fuel mbInfoAddr = some (some map) ∧
      bootinfoGetUsableRegions (some map) maxRegions =
        bootinfoGetUsableRegions (some es) maxRegions := by
  have hstop : (load32 m (mbInfoAddr + 48) + load32 m (mbInfoAddr + 44)).toNat =
      (load32 m (mbInfoAddr + 48)).toNat + (load32 m (mbInfoAddr + 44)).toNat := by
    rw [UInt32.toNat_add]
    exact Nat.mod_eq_of_lt hend
  rw [← hstop] at hmap
  have hloop := mapLoop_map hmap [] (by simpa using hlen)
  rw [UInt32.ofNat_toNat, List.nil_append] at hloop
  refine ⟨es.length + 1, es.filter (fun e => KeptEntry e), ?_, ?_⟩
  · simp only [bootinfoParseMultiboot, haddr, hflag, or_self, if_false, hloop, Option.map_some]
  · have hle := List.length_filter_le (fun e => decide (KeptEntry e)) es
    rw [usableRegions_eq, usableRegions_eq, List.take_of_length_le hlen,
      List.take_of_length_le (hle.trans hlen), usableRegions_stored]

/-- Memory with a loader's information block at `0x1000` and a map of one
usable entry, the second megabyte. -/
def oneEntryMap (mmapAddr : UInt32) : Mem :=
  [(0x1000, 64), (0x102C, 24), (0x1030, mmapAddr), (mmapAddr, 20), (mmapAddr + 4, 0x100000),
    (mmapAddr + 12, 0x100000), (mmapAddr + 20, 1)].foldl (fun m w => store32 m w.1 w.2) fun _ => 0

theorem multiboot_same_regions_one : ∃ fuel map,
    bootinfoParseMultiboot (oneEntryMap 0x2000) fuel 0x1000 = some (some map) ∧
      bootinfoGetUsableRegions (some map) 32 =
        bootinfoGetUsableRegions (some [⟨0x100000, 0, 0x100000, 0, 1⟩]) 32 := by
  exact multiboot_same_regions 32 (by decide) (by decide) (by decide) (by decide) (by decide)

/-- A map that ends at 4 GiB has a 32-bit end of zero: none of it is read. -/
theorem multiboot_top_map_ignored :
    MapAt (oneEntryMap 0xFFFFFFE8) 0xFFFFFFE8 [⟨0x100000, 0, 0x100000, 0, 1⟩]
      (0xFFFFFFE8 + 24) ∧
    load32 (oneEntryMap 0xFFFFFFE8) (0x1000 + 48) = 0xFFFFFFE8 ∧
    load32 (oneEntryMap 0xFFFFFFE8) (0x1000 + 44) = 24 ∧
    ¬∃ fuel map, bootinfoParseMultiboot (oneEntryMap 0xFFFFFFE8) fuel 0x1000 = some (some map) ∧
      bootinfoGetUsableRegions (some map) 32 =
        bootinfoGetUsableRegions (some [⟨0x100000, 0, 0x100000, 0, 1⟩]) 32 := by
  have hcur : load32 (oneEntryMap 0xFFFFFFE8) (0x1000 + 48) = 0xFFFFFFE8 := by decide
  have hlen : load32 (oneEntryMap 0xFFFFFFE8) (0x1000 + 44) = 24 := by decide
  have hstop : (0xFFFFFFE8 : UInt32) + 24 = 0 := by decide
  have hflag : ¬((0x1000 : UInt32) = 0 ∨ load32 (oneEntryMap 0xFFFFFFE8) 0x1000 &&& 64 = 0) := by
    decide
  have hnone : mapStep (oneEntryMap 0xFFFFFFE8) 0 ⟨0xFFFFFFE8, []⟩ = none := mapStep_none (by decide)
  refine ⟨by decide, hcur, hlen, ?_⟩
  intro ⟨fuel, map, hparse, hsame⟩
  simp only [bootinfoParseMultiboot, hflag, if_false, hcur, hlen, hstop] at hparse
  have hempty : map = [] := by
    cases fuel with
    | zero => cases hparse
    | succ fuel =>
      simp only [mapLoop, hnone, Option.map_some, Option.some.injEq] at hparse
      exact hparse.symm
  rw [hempty] at hsame
  revert hsame
  decide

end Agree

section Scan

variable {m : Mem} {stop addr : UInt32} {s : MapScan}

/-- What the cursor moves by from a record. -/
def recordStride (m : Mem) (a : Nat) : Nat := (load32 m (UInt32.ofNat a) + 4).toNat

/-- The place of the `k`-th record, in exact arithmetic. -/
def recordAt (m : Mem) (start : Nat) : Nat → Nat
  | 0 => start
  | k + 1 => recordAt m start k + recordStride m (recordAt m start k)

/-- The first `k` records. -/
def recordsBefore (m : Mem) (start k : Nat) : List E820Entry :=
  (List.range k).map fun i => mmapEntry m (UInt32.ofNat (recordAt m start i))

def storedBefore (m : Mem) (start k : Nat) : List E820Entry :=
  (recordsBefore m start k).filter fun e => KeptEntry e

/-- No record that starts inside the map, with less than a full table before
it, has a stride of zero or ends at 4 GiB or beyond. -/
def RecordsAdvance (m : Mem) (addr stop : UInt32) : Prop :=
  ∀ k, recordAt m addr.toNat k < stop.toNat →
    (storedBefore m addr.toNat k).length < e820MaxEntries →
    0 < recordStride m (recordAt m addr.toNat k) ∧
      recordAt m addr.toNat k + recordStride m (recordAt m addr.toNat k) < 4294967296

/-- The states the loop of `bootinfo_parse_multiboot` goes through. -/
def ScanReaches (m : Mem) (stop : UInt32) : MapScan → MapScan → Prop :=
  Relation.ReflTransGen fun s s' => mapStep m stop s = some s'

/-- The state after `k` iterations, as the data gives it. -/
def scanAt (m : Mem) (addr : UInt32) (k : Nat) : MapScan :=
  ⟨UInt32.ofNat (recordAt m addr.toNat k), storedBefore m addr.toNat k⟩

theorem storedBefore_succ (m : Mem) (start k : Nat) :
    storedBefore m start (k + 1) = storedBefore m start k ++
      [mmapEntry m (UInt32.ofNat (recordAt m start k))].filter (fun e => KeptEntry e) := by
  simp only [storedBefore, recordsBefore, List.range_succ, List.map_append, List.filter_append,
    List.map_cons, List.map_nil]

theorem scanAt_zero (m : Mem) (addr : UInt32) : scanAt m addr 0 = ⟨addr, []⟩ := by
  simp only [scanAt, recordAt, UInt32.ofNat_toNat]
  rfl

theorem scanAt_step {k : Nat} (h : (scanAt m addr k).cursor < stop)
    (hroom : (scanAt m addr k).map.length < e820MaxEntries) :
    mapStep m stop (scanAt m addr k) = some (scanAt m addr (k + 1)) := by
  rw [mapStep_eq h hroom]
  simp only [scanAt, storedBefore_succ, recordAt, recordStride, UInt32.ofNat_add,
    UInt32.ofNat_toNat]

theorem recordAt_mono (m : Mem) (start k : Nat) : recordAt m start k ≤ recordAt m start (k + 1) :=
  Nat.le_add_right _ _

theorem storedBefore_mono (m : Mem) (start k : Nat) :
    (storedBefore m start k).length ≤ (storedBefore m start (k + 1)).length := by
  rw [storedBefore_succ, List.length_append]
  exact Nat.le_add_right _ _

theorem scanAt_cursor {k : Nat} (h : recordAt m addr.toNat k < 4294967296) :
    (scanAt m addr k).cursor.toNat = recordAt m addr.toNat k := UInt32.toNat_ofNat_of_lt' h

/-- The loop gets to every record that starts inside the map while the table has room. -/
theorem scanReaches_record {k : Nat} (h : recordAt m addr.toNat k < stop.toNat)
    (hroom : (storedBefore m addr.toNat k).length < e820MaxEntries) :
    ScanReaches m stop ⟨addr, []⟩ (scanAt m addr k) := by
  induction k with
  | zero =>
    rw [scanAt_zero]
    exact .refl
  | succ k ih =>
    have hstop := stop.toNat_lt
    have hless : recordAt m addr.toNat k < stop.toNat :=
      Nat.lt_of_le_of_lt (recordAt_mono m addr.toNat k) h
    have hroom' : (storedBefore m addr.toNat k).length < e820MaxEntries :=
      Nat.lt_of_le_of_lt (storedBefore_mono m addr.toNat k) hroom
    apply (ih hless hroom').tail
    apply scanAt_step _ hroom'
    rw [UInt32.lt_iff_toNat_lt, scanAt_cursor (by omega)]
    exact hless

theorem recordStride_lt (m : Mem) (a : Nat) : recordStride m a < 4294967296 := UInt32.toNat_lt _

/-- One iteration moves forward exactly when the record advances. -/
theorem scanAt_forward {k : Nat} (h : recordAt m addr.toNat k < 4294967296) :
    (scanAt m addr k).cursor < (scanAt m addr (k + 1)).cursor ↔
      0 < recordStride m (recordAt m addr.toNat k) ∧
      recordAt m addr.toNat k + recordStride m (recordAt m addr.toNat k) < 4294967296 := by
  have hs := recordStride_lt m (recordAt m addr.toNat k)
  have hnext : (scanAt m addr (k + 1)).cursor.toNat =
      (recordAt m addr.toNat k + recordStride m (recordAt m addr.toNat k)) % 4294967296 := rfl
  rw [UInt32.lt_iff_toNat_lt, scanAt_cursor h, hnext]
  omega

/-- Where the records advance, the exact places fit 32 bits up to the state reached. -/
theorem scanReaches_fits (h : RecordsAdvance m addr stop)
    (hr : ScanReaches m stop ⟨addr, []⟩ s) :
    ∃ k, s = scanAt m addr k ∧ recordAt m addr.toNat k < 4294967296 := by
  induction hr with
  | refl => exact ⟨0, (scanAt_zero m addr).symm, addr.toNat_lt⟩
  | tail _ hstep ih =>
    obtain ⟨k, rfl, hfits⟩ := ih
    obtain ⟨hless, hroom⟩ := mapStep_guard hstep
    rw [scanAt_step hless hroom] at hstep
    rw [UInt32.lt_iff_toNat_lt, scanAt_cursor hfits] at hless
    exact ⟨k + 1, (Option.some.inj hstep).symm, (h k hless hroom).2⟩

/-- A loop whose cursor always moves forward ends. -/
theorem mapLoop_ends
    (h : ∀ s s', ScanReaches m stop s₀ s → mapStep m stop s = some s' → s.cursor < s'.cursor)
    (n : Nat) (hr : ScanReaches m stop s₀ s) (hn : 4294967296 ≤ s.cursor.toNat + n) :
    ∃ s', mapLoop m stop n s = some s' := by
  induction n generalizing s with
  | zero =>
    have := s.cursor.toNat_lt
    omega
  | succ n ih =>
    rw [mapLoop]
    cases hs : mapStep m stop s with
    | none => exact ⟨s, rfl⟩
    | some s' =>
      have hless := UInt32.lt_iff_toNat_lt.mp (h s s' hr hs)
      exact ih (hr.tail hs) (by omega)

/-- The scan ends, its cursor moving forward at each iteration, exactly when
the records advance. -/
theorem map_scan_forward_iff (m : Mem) (mmapAddr mmapLength : UInt32) :
    ((∀ s s', ScanReaches m (mmapAddr + mmapLength) ⟨mmapAddr, []⟩ s →
        mapStep m (mmapAddr + mmapLength) s = some s' → s.cursor < s'.cursor) ∧
      ∃ fuel s, mapLoop m (mmapAddr + mmapLength) fuel ⟨mmapAddr, []⟩ = some s) ↔
    RecordsAdvance m mmapAddr (mmapAddr + mmapLength) := by
  constructor
  · intro ⟨h, _⟩ k hless hroom
    have hstop := (mmapAddr + mmapLength).toNat_lt
    have hfits : recordAt m mmapAddr.toNat k < 4294967296 := by omega
    have hcur : (scanAt m mmapAddr k).cursor < mmapAddr + mmapLength := by
      rw [UInt32.lt_iff_toNat_lt, scanAt_cursor hfits]
      exact hless
    apply (scanAt_forward hfits).mp
    exact h _ _ (scanReaches_record hless hroom) (scanAt_step hcur hroom)
  · intro h
    have hforward : ∀ s s', ScanReaches m (mmapAddr + mmapLength) ⟨mmapAddr, []⟩ s →
        mapStep m (mmapAddr + mmapLength) s = some s' → s.cursor < s'.cursor := by
      intro s s' hr hs
      obtain ⟨k, rfl, hfits⟩ := scanReaches_fits h hr
      obtain ⟨hless, hroom⟩ := mapStep_guard hs
      rw [scanAt_step hless hroom] at hs
      rw [UInt32.lt_iff_toNat_lt, scanAt_cursor hfits] at hless
      rw [← Option.some.inj hs]
      exact (scanAt_forward hfits).mpr (h k hless hroom)
    refine ⟨hforward, 4294967296 - mmapAddr.toNat, mapLoop_ends hforward _ .refl ?_⟩
    simp only
    omega

/-- A size field of `0xFFFFFFFC` makes a stride of zero: the scan never ends. -/
theorem map_scan_stuck :
    let m := store32 (fun _ => 0) 0x2000 0xFFFFFFFC
    ¬∃ fuel s, mapLoop m (0x2000 + 24) fuel ⟨0x2000, []⟩ = some s := by
  intro m
  have hsize : load32 m 0x2000 = 0xFFFFFFFC := load32_store32 _ _ _
  have hkept : ¬KeptEntry (mmapEntry m 0x2000) := by decide
  have hstep : mapStep m (0x2000 + 24) ⟨0x2000, []⟩ = some ⟨0x2000, []⟩ := by
    rw [mapStep_eq (by decide) (by decide)]
    simp [hsize, hkept]
  have hloop : ∀ fuel, mapLoop m (0x2000 + 24) fuel ⟨0x2000, []⟩ = none := by
    intro fuel
    induction fuel with
    | zero => rfl
    | succ fuel ih => rw [mapLoop, hstep]; exact ih
  intro ⟨fuel, s, hs⟩
  rw [hloop fuel] at hs
  cases hs

end Scan

end VertexOS
