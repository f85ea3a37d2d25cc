import VertexOS.Mem.BootInfo
import VertexOS.Mem.Frames

namespace VertexOS

/-- The entry is usable memory below 4 GiB, and its end fits a doubleword. -/
structure Reported (e : E820Entry) : Prop where
  usable : e.type = e820TypeUsable
  nonempty : e.length.toNat ≠ 0
  fits : e.base.toNat + e.length.toNat < 18446744073709551616
  low : e.base.toNat < 4294967296

/-- The end of an entry, cut at 4 GiB. -/
def entryStop (e : E820Entry) : Nat := min (e.base.toNat + e.length.toNat) 4294967296

section Entries

variable {e : E820Entry} {r : MemoryRegion} {f : Nat}

theorem usableRegion_none (h : ¬Reported e) : usableRegion e = none := by
  simp only [usableRegion]
  split
  · rfl
  · next htype =>
    split
    · rfl
    · next hlen =>
      split
      · rfl
      · next hstop =>
        split
        · rfl
        · next hbase =>
          exfalso
          apply h
          have hb := e.base.toNat_lt
          have hl := e.length.toNat_lt
          rw [UInt64.le_iff_toNat_le, UInt64.toNat_add] at hstop
          rw [ge_iff_le, UInt64.le_iff_toNat_le] at hbase
          change ¬4294967296 ≤ e.base.toNat at hbase
          refine ⟨not_not.mp htype, ?_, by omega, by omega⟩
          intro h0
          exact hlen (UInt64.toNat_inj.mp h0)

theorem usableRegion_some (h : Reported e) : ∃ r, usableRegion e = some r ∧
    r.base.toNat = e.base.toNat ∧
    r.length.toNat = (entryStop e - e.base.toNat) % 4294967296 := by
  obtain ⟨htype, hlen, hfits, hlow⟩ := h
  have hsum : (e.base + e.length).toNat = e.base.toNat + e.length.toNat := by
    rw [UInt64.toNat_add]
    exact Nat.mod_eq_of_lt hfits
  have hne : e.length ≠ 0 := by
    intro h0
    rw [h0] at hlen
    exact hlen rfl
  have hstop : ¬e.base + e.length ≤ e.base := by
    rw [UInt64.le_iff_toNat_le, hsum]
    omega
  have hbase : ¬e.base ≥ 0x100000000 := by
    rw [ge_iff_le, UInt64.le_iff_toNat_le]
    change ¬4294967296 ≤ e.base.toNat
    omega
  simp only [usableRegion, htype, ne_eq, not_true, if_false, hne, hstop, hbase]
  refine ⟨_, rfl, ?_, ?_⟩
  · change e.base.toNat % 4294967296 = _
    exact Nat.mod_eq_of_lt hlow
  · have hcut : ((if e.base + e.length > 0x100000000 then 0x100000000 else e.base + e.length :
        UInt64)).toNat = entryStop e := by
      simp only [entryStop]
      split
      · next hc =>
        rw [gt_iff_lt, UInt64.lt_iff_toNat_lt, hsum] at hc
        change 4294967296 < _ at hc
        change 4294967296 = _
        omega
      · next hc =>
        rw [gt_iff_lt, UInt64.lt_iff_toNat_lt, hsum] at hc
        change ¬4294967296 < _ at hc
        omega
    have hle : e.base ≤ (if e.base + e.length > 0x100000000 then 0x100000000
        else e.base + e.length : UInt64) := by
      rw [UInt64.le_iff_toNat_le, hcut, entryStop]
      omega
    rw [UInt64.toNat_toUInt32, UInt64.toNat_sub_of_le _ _ hle, hcut]

/-- The map kept whole: no entry is turned away for want of room. -/
theorem usableLoop_eq {n : Nat} (es : List E820Entry) (out : List MemoryRegion)
    (h : out.length ≤ n) :
    usableLoop n es out = out ++ (es.filterMap usableRegion).take (n - out.length) := by
  induction es generalizing out with
  | nil => simp [usableLoop]
  | cons e es ih =>
    simp only [usableLoop, List.filterMap_cons]
    cases usableRegion e with
    | none => exact ih out h
    | some r =>
      by_cases hroom : out.length < n
      · obtain ⟨k, hk⟩ := Nat.exists_eq_add_of_lt hroom
        have hleft : n - (out ++ [r]).length = k := by
          simp only [List.length_append, List.length_cons, List.length_nil]
          omega
        have hleft' : n - out.length = k + 1 := by omega
        simp only [hroom, if_true]
        rw [ih _ (by simp only [List.length_append, List.length_cons, List.length_nil]; omega),
          hleft, hleft', List.take_succ_cons, List.append_assoc, List.singleton_append]
      · have hfull : n - out.length = 0 := by omega
        simp only [hroom, if_false]
        rw [ih out h, hfull, List.take_zero, List.take_zero]

theorem usableRegions_eq (es : List E820Entry) (n : Nat) :
    bootinfoGetUsableRegions (some es) n =
      ((es.take e820MaxEntries).filterMap usableRegion).take n := by
  simp only [bootinfoGetUsableRegions]
  split
  · next h => rw [h, List.take_zero]
  · exact usableLoop_eq _ [] (Nat.zero_le n)

theorem usableRegions_whole {es : List E820Entry} (h : es.length ≤ e820MaxEntries) :
    bootinfoGetUsableRegions (some es) e820MaxEntries = es.filterMap usableRegion := by
  have hle := List.length_filterMap_le usableRegion es
  rw [usableRegions_eq, List.take_of_length_le h, List.take_of_length_le (hle.trans h)]

end Entries

section Frames

variable {e : E820Entry} {es : List E820Entry} {ks ke : UInt32} {f : Nat}

/-- The frame lies entirely inside the entry. -/
structure Whole (e : E820Entry) (f : Nat) : Prop where
  usable : e.type = e820TypeUsable
  fits : e.base.toNat + e.length.toNat < 18446744073709551616
  first : e.base.toNat ≤ 4096 * f
  last : 4096 * f + 4096 ≤ e.base.toNat + e.length.toNat

/-- The frame lies below 256 MiB, above the first megabyte and outside the
page-rounded kernel range. -/
structure Spare (ks ke : UInt32) (f : Nat) : Prop where
  low : 256 ≤ f
  high : f < 65536
  kernel : ¬(ks.toNat / 4096 ≤ f ∧ f < (ke.toNat + 4095) / 4096)

/-- The entry ends below 4 GiB and `pmm_init` steps over the frame, counting
pages from the base of the entry. -/
structure Releases (e : E820Entry) (f : Nat) : Prop where
  usable : e.type = e820TypeUsable
  below : e.base.toNat + e.length.toNat < 4294967296
  first : e.base.toNat / 4096 ≤ f
  last : 4096 * f + 4096 + e.base.toNat % 4096 ≤ min (e.base.toNat + e.length.toNat) 268435456

/-- What keeps a frame of an entry from being released: the entry reaches
4 GiB, or it starts inside a page and the frame is its last whole one. -/
def LosesFrame (e : E820Entry) (f : Nat) : Prop :=
  4294967296 ≤ e.base.toNat + e.length.toNat ∨
    min (e.base.toNat + e.length.toNat) 268435456 < 4096 * f + 4096 + e.base.toNat % 4096

instance (e : E820Entry) (f : Nat) : Decidable (LosesFrame e f) :=
  inferInstanceAs (Decidable (_ ∨ _))

theorem Releases.reported (h : Releases e f) : Reported e := by
  obtain ⟨htype, hbelow, hfirst, hlast⟩ := h
  refine ⟨htype, ?_, by omega, by omega⟩
  omega

/-- A region that reaches 4 GiB has a 32-bit end of zero and is dropped. -/
theorem offers_iff (h : Reported e) {r : MemoryRegion} (hb : r.base.toNat = e.base.toNat)
    (hl : r.length.toNat = (entryStop e - e.base.toNat) % 4294967296) :
    Offers r f ↔ Releases e f := by
  obtain ⟨htype, hlen, hfits, hlow⟩ := h
  have hsum : (r.base + r.length).toNat = entryStop e % 4294967296 := by
    rw [UInt32.toNat_add, hb, hl, entryStop]
    omega
  have hbase : r.base < pmmMaxMemoryBytes ↔ e.base.toNat < 268435456 := by
    rw [UInt32.lt_iff_toNat_lt, hb]
    exact Iff.rfl
  have hend : r.base < r.base + r.length ↔ e.base.toNat < entryStop e % 4294967296 := by
    rw [UInt32.lt_iff_toNat_lt, hb, hsum]
  simp only [Offers, Accepted, regionStop, hend, hbase, hb, hsum, entryStop]
  constructor
  · intro hoff
    obtain ⟨⟨hacc, hmax⟩, hfirst, hlast⟩ := hoff
    refine ⟨htype, by omega, hfirst, by omega⟩
  · intro hrel
    obtain ⟨-, hbelow, hfirst, hlast⟩ := hrel
    refine ⟨⟨by omega, by omega⟩, hfirst, by omega⟩

theorem offered_iff (es : List E820Entry) (f : Nat) :
    (∃ r ∈ es.filterMap usableRegion, Offers r f) ↔ ∃ e ∈ es, Releases e f := by
  constructor
  · intro ⟨r, hr, ho⟩
    obtain ⟨e, he, her⟩ := List.mem_filterMap.mp hr
    have hrep : Reported e := by
      by_contra hn
      rw [usableRegion_none hn] at her
      cases her
    obtain ⟨r', hr', hb, hl⟩ := usableRegion_some hrep
    rw [hr'] at her
    cases her
    exact ⟨e, he, (offers_iff hrep hb hl).mp ho⟩
  · intro ⟨e, he, hrel⟩
    obtain ⟨r, hr, hb, hl⟩ := usableRegion_some hrel.reported
    refine ⟨r, List.mem_filterMap.mpr ⟨e, he, hr⟩, ?_⟩
    exact (offers_iff hrel.reported hb hl).mpr hrel

theorem Spare.not_reserved (h : Spare ks ke f) : ¬Reserves ks ke f := by
  intro ⟨hlo, hhi⟩
  apply h.kernel
  refine ⟨hlo, ?_⟩
  omega

/-- A spare frame is free after the two passes exactly when some entry releases it. -/
theorem spare_free_iff (hlen : es.length ≤ e820MaxEntries) (h : Spare ks ke f) :
    (∃ p, pmmInit (bootinfoGetUsableRegions (some es) e820MaxEntries) ks ke = some p ∧
      f ∈ clearFrames p) ↔ ∃ e ∈ es, Releases e f := by
  rw [usableRegions_whole hlen, ← offered_iff]
  constructor
  · intro ⟨p, hp, hf⟩
    exact (((pmmInit_spec hp).2 f).mp hf).1
  · intro ⟨r, hr, ho⟩
    obtain ⟨p, hp⟩ := pmmInit_some ks ke hr ho
    refine ⟨p, hp, ((pmmInit_spec hp).2 f).mpr ⟨⟨r, hr, ho⟩, h.low, h.not_reserved⟩⟩

/-- An entry releases the frames it does not lose. -/
theorem Whole.releases (h : Whole e f) (hk : ¬LosesFrame e f) : Releases e f := by
  obtain ⟨husable, hfits, hfirst, hlast⟩ := h
  simp only [LosesFrame, not_or, Nat.not_le, Nat.not_lt] at hk
  exact ⟨husable, hk.1, by omega, hk.2⟩

/-- Every usable frame of the map reaches the allocator exactly when each frame
that an entry loses is released by another one. -/
theorem usable_memory_kept_iff (hlen : es.length ≤ e820MaxEntries) :
    (∀ f, Spare ks ke f → (∃ e ∈ es, Whole e f) →
      ∃ p, pmmInit (bootinfoGetUsableRegions (some es) e820MaxEntries) ks ke = some p ∧
        f ∈ clearFrames p) ↔
    ∀ e ∈ es, ∀ f, Spare ks ke f → Whole e f → LosesFrame e f → ∃ e' ∈ es, Releases e' f := by
  constructor
  · intro h e he f hspare hwhole _
    exact (spare_free_iff hlen hspare).mp (h f hspare ⟨e, he, hwhole⟩)
  · intro h f hspare ⟨e, he, hwhole⟩
    apply (spare_free_iff hlen hspare).mpr
    by_cases hk : LosesFrame e f
    · exact h e he f hspare hwhole hk
    · exact ⟨e, he, hwhole.releases hk⟩

/-- An aligned entry that ends below 4 GiB loses nothing. -/
theorem usable_memory_kept_aligned :
    ∃ p, pmmInit (bootinfoGetUsableRegions (some [⟨0x100000, 0, 0x100000, 0, 1⟩]) e820MaxEntries)
      0x100000 0x180000 = some p ∧ 384 ∈ clearFrames p := by
  refine (usable_memory_kept_iff (by decide)).mpr ?_ 384 ⟨by decide, by decide, by decide⟩
    ⟨_, List.mem_singleton.mpr rfl, ⟨by decide, by decide, by decide, by decide⟩⟩
  intro e he f hspare hwhole hk
  rw [List.mem_singleton] at he
  subst he
  have hbase : (E820Entry.base ⟨0x100000, 0, 0x100000, 0, 1⟩).toNat = 1048576 := by decide
  have hlength : (E820Entry.length ⟨0x100000, 0, 0x100000, 0, 1⟩).toNat = 1048576 := by decide
  have hlast := hwhole.last
  simp only [LosesFrame, hbase, hlength] at hk hlast
  omega

/-- One entry from 1 MiB to 4 GiB: the allocator finds no usable memory. -/
theorem usable_memory_lost :
    Spare 0x100000 0x180000 384 ∧ Whole ⟨0x100000, 0, 0xFFF00000, 0, 1⟩ 384 ∧
    ¬∃ p, pmmInit (bootinfoGetUsableRegions (some [⟨0x100000, 0, 0xFFF00000, 0, 1⟩])
      e820MaxEntries) 0x100000 0x180000 = some p ∧ 384 ∈ clearFrames p := by
  have hspare : Spare 0x100000 0x180000 384 := ⟨by decide, by decide, by decide⟩
  refine ⟨hspare, ⟨by decide, by decide, by decide, by decide⟩, ?_⟩
  rw [spare_free_iff (by decide) hspare]
  intro ⟨e, he, hrel⟩
  rw [List.mem_singleton] at he
  subst he
  have := hrel.below
  revert this
  decide

end Frames

end VertexOS
