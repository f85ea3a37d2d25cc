import Mathlib

namespace Library.Packing

variable {ι : Type*}

/-- Regions of a line that lie in `[lo, hi)` and do not overlap one another. -/
structure Packed (r : ι → Set Nat) (lo hi : Nat) : Prop where
  disjoint : ∀ i j, i ≠ j → Disjoint (r i) (r j)
  inside : ∀ i, r i ⊆ Set.Ico lo hi

theorem Packed.shrink {r r' : ι → Set Nat} (h : Packed r lo hi) (hs : ∀ i, r' i ⊆ r i) :
    Packed r' lo hi :=
  ⟨fun i j hij => (h.disjoint i j hij).mono (hs i) (hs j), fun i => (hs i).trans (h.inside i)⟩

/-- A region placed at the free end `hi` overlaps nothing that was packed before. -/
theorem Packed.place [DecidableEq ι] {r : ι → Set Nat} (h : Packed r lo hi) (hlo : lo ≤ hi)
    (hhi : hi ≤ hi') (i : ι) (hs : s ⊆ Set.Ico hi hi') :
    Packed (Function.update r i s) lo hi' := by
  have hfresh : ∀ j, Disjoint s (r j) := by
    intro j
    refine Set.disjoint_left.mpr (fun a ha hb => ?_)
    have h1 := (hs ha).1
    have h2 := (h.inside j hb).2
    omega
  refine ⟨?_, ?_⟩
  · intro j k hjk
    by_cases hj : j = i
    · subst hj
      rw [Function.update_self, Function.update_of_ne (Ne.symm hjk)]
      exact hfresh k
    · rw [Function.update_of_ne hj]
      by_cases hk : k = i
      · subst hk
        rw [Function.update_self]
        exact (hfresh j).symm
      · rw [Function.update_of_ne hk]
        exact h.disjoint j k hjk
  · intro j
    by_cases hj : j = i
    · subst hj
      rw [Function.update_self]
      exact hs.trans (Set.Ico_subset_Ico_left hlo)
    · rw [Function.update_of_ne hj]
      exact (h.inside j).trans (Set.Ico_subset_Ico_right hhi)

end Library.Packing
