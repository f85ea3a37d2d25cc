import VertexOS.Mem.FrameRuns

namespace VertexOS
open Library.Transitions

/-- A byte of the union of the regions. -/
def InRegions (rs : List MemoryRegion) (x : Nat) : Prop :=
  ∃ r ∈ rs, r.base.toNat ≤ x ∧ x < r.base.toNat + r.length.toNat

/-- The frame is usable memory that neither the low megabyte nor the kernel
image needs. -/
structure RealRam (rs : List MemoryRegion) (ks ke : UInt32) (f : Nat) : Prop where
  usable : ∀ x, 4096 * f ≤ x → x < 4096 * f + 4096 → InRegions rs x
  low : 1048576 ≤ 4096 * f
  high : 4096 * f + 4096 ≤ 268435456
  kernel : ∀ x, 4096 * f ≤ x → x < 4096 * f + 4096 → ¬(ks.toNat ≤ x ∧ x < ke.toNat)

/-- Where a region starts inside a page and makes that page allocatable, the
page is reserved or other regions cover its bytes below the base. -/
def BasesCovered (rs : List MemoryRegion) (ks ke : UInt32) : Prop :=
  ∀ r ∈ rs, Accepted r → r.base.toNat + 4096 ≤ regionStop r → r.base.toNat % 4096 ≠ 0 →
    r.base.toNat / 4096 < 256 ∨ Reserves ks ke (r.base.toNat / 4096) ∨
    ∀ x, 4096 * (r.base.toNat / 4096) ≤ x → x < r.base.toNat → InRegions rs x

section RealRam

variable {rs : List MemoryRegion} {r : MemoryRegion} {ks ke : UInt32} {f : Nat} {p0 : Pmm}

theorem accepted_stop (h : Accepted r) :
    (r.base + r.length).toNat = r.base.toNat + r.length.toNat := by
  have hlt := UInt32.lt_iff_toNat_lt.mp h.1
  have hb := r.base.toNat_lt
  have hl := r.length.toNat_lt
  rw [UInt32.toNat_add] at hlt ⊢
  omega

theorem regionStop_le (h : Accepted r) : regionStop r ≤ r.base.toNat + r.length.toNat := by
  rw [← accepted_stop h]
  exact min_le_left _ _

theorem regionStop_max (r : MemoryRegion) : regionStop r ≤ 268435456 := min_le_right _ _

/-- Every byte of an offered frame lies below the end of the region, and only
the first frame can reach below its base. -/
theorem offers_bytes (h : Offers r f) (x : Nat) (hx : 4096 * f ≤ x) (hx' : x < 4096 * f + 4096) :
    x < r.base.toNat + r.length.toNat ∧
    (r.base.toNat ≤ x ∨ f = r.base.toNat / 4096 ∧ x < r.base.toNat) := by
  obtain ⟨ha, hlo, hhi⟩ := h
  have hle := regionStop_le ha
  refine ⟨by omega, by omega⟩

theorem offers_high (h : Offers r f) : 4096 * f + 4096 ≤ 268435456 := by
  obtain ⟨ha, hlo, hhi⟩ := h
  have := regionStop_max r
  omega

theorem offers_room (h : Offers r f) : r.base.toNat + 4096 ≤ regionStop r := by
  obtain ⟨ha, hlo, hhi⟩ := h
  omega

theorem offers_first (h : Accepted r) (hroom : r.base.toNat + 4096 ≤ regionStop r) :
    Offers r (r.base.toNat / 4096) := by
  refine ⟨h, Nat.le_refl _, ?_⟩
  omega

theorem not_reserves_kernel (hke : ke.toNat < 268435456) (h : ¬Reserves ks ke f) (x : Nat)
    (hx : 4096 * f ≤ x) (hx' : x < 4096 * f + 4096) : ¬(ks.toNat ≤ x ∧ x < ke.toNat) := by
  intro hin
  apply h
  simp only [Reserves]
  omega

theorem clear_realRam (hinit : pmmInit rs ks ke = some p0) (hke : ke.toNat < 268435456)
    (hc : BasesCovered rs ks ke) (hf : f ∈ clearFrames p0) : RealRam rs ks ke f := by
  obtain ⟨⟨r, hr, ho⟩, hlow, hres⟩ := ((pmmInit_spec hinit).2 f).mp hf
  refine ⟨?_, by omega, offers_high ho, not_reserves_kernel hke hres⟩
  intro x hx hx'
  obtain ⟨hend, hbase | ⟨he, hbelow⟩⟩ := offers_bytes ho x hx hx'
  · exact ⟨r, hr, hbase, hend⟩
  · subst he
    have hun : r.base.toNat % 4096 ≠ 0 := by omega
    rcases hc r hr ho.1 (offers_room ho) hun with h | h | h
    · omega
    · exact absurd h hres
    · exact h x hx hbelow

/-- Conversely, a page that a base leaves uncovered is handed out. -/
theorem basesCovered_of_clear
    (h : ∀ p0, pmmInit rs ks ke = some p0 → ∀ f ∈ clearFrames p0, RealRam rs ks ke f) :
    BasesCovered rs ks ke := by
  intro r hr ha hroom hun
  by_cases hlow : r.base.toNat / 4096 < 256
  · exact .inl hlow
  by_cases hres : Reserves ks ke (r.base.toNat / 4096)
  · exact .inr (.inl hres)
  refine .inr (.inr ?_)
  have ho := offers_first ha hroom
  obtain ⟨p0, hinit⟩ := pmmInit_some ks ke hr ho
  have hf := ((pmmInit_spec hinit).2 _).mpr ⟨⟨r, hr, ho⟩, by omega, hres⟩
  intro x hx hx'
  apply (h p0 hinit _ hf).usable x hx
  omega

/-- The allocator hands out real memory only, exactly when no page that starts
below an unaligned base is left uncovered. -/
theorem pmm_real_ram_iff (hke : ke.toNat < 268435456) :
    (∀ p0, pmmInit rs ks ke = some p0 →
      (∀ f ∈ clearFrames p0, RealRam rs ks ke f) ∧
      ∀ cs s p' a, Run pmmStep ⟨p0, []⟩ cs s → pmmAllocFrame s.pmm = some (p', a) →
        a.toNat = 4096 * (a.toNat / 4096) ∧ RealRam rs ks ke (a.toNat / 4096)) ↔
    BasesCovered rs ks ke := by
  constructor
  · intro h
    apply basesCovered_of_clear
    intro p0 hinit
    exact (h p0 hinit).1
  · intro hc p0 hinit
    have hclear : ∀ f ∈ clearFrames p0, RealRam rs ks ke f := by
      intro f hf
      exact clear_realRam hinit hke hc hf
    refine ⟨hclear, ?_⟩
    intro cs s p' a hrun ha
    have h := pmmAllocFrame_fresh (pmm_run_owned hinit hrun) ha
    exact ⟨h.1, hclear _ h.2.2.2.2⟩

/-- A page-aligned region is handed out as it is. -/
theorem pmm_real_ram_iff_aligned :
    ∃ p0, pmmInit [⟨0x100000, 0x2000⟩] 0x200000 0x300000 = some p0 ∧
      256 ∈ clearFrames p0 ∧ RealRam [⟨0x100000, 0x2000⟩] 0x200000 0x300000 256 := by
  have hoffer : Offers ⟨0x100000, 0x2000⟩ 256 := by decide
  obtain ⟨p0, hinit⟩ := pmmInit_some 0x200000 0x300000 (List.mem_singleton.mpr rfl) hoffer
  have hclear : 256 ∈ clearFrames p0 := by
    apply ((pmmInit_spec hinit).2 256).mpr
    exact ⟨⟨_, List.mem_singleton.mpr rfl, hoffer⟩, by decide⟩
  have hcov : BasesCovered [⟨0x100000, 0x2000⟩] 0x200000 0x300000 := by
    intro r hr ha hroom hun
    rw [List.mem_singleton] at hr
    subst hr
    exact absurd rfl hun
  exact ⟨p0, hinit, hclear,
    ((pmm_real_ram_iff (by decide)).mpr hcov p0 hinit).1 256 hclear⟩

/-- A region from `0x100800` on makes the frame at `0x100000` allocatable. -/
theorem pmm_hands_out_unusable : ∃ p0,
    pmmInit [⟨0x100800, 0x2000⟩] 0x200000 0x300000 = some p0 ∧ 256 ∈ clearFrames p0 ∧
    ¬InRegions [⟨0x100800, 0x2000⟩] 0x100000 ∧
    ¬RealRam [⟨0x100800, 0x2000⟩] 0x200000 0x300000 256 := by
  have hoffer : Offers ⟨0x100800, 0x2000⟩ 256 := by decide
  obtain ⟨p0, hinit⟩ := pmmInit_some 0x200000 0x300000 (List.mem_singleton.mpr rfl) hoffer
  have hclear : 256 ∈ clearFrames p0 := by
    apply ((pmmInit_spec hinit).2 256).mpr
    exact ⟨⟨_, List.mem_singleton.mpr rfl, hoffer⟩, by decide⟩
  have hout : ¬InRegions [⟨0x100800, 0x2000⟩] 0x100000 := by
    simp [InRegions]
  refine ⟨p0, hinit, hclear, hout, ?_⟩
  intro h
  exact hout (h.usable 0x100000 (by decide) (by decide))

end RealRam

end VertexOS
