import Mathlib

namespace Library.Forest

variable {ι : Type*} {used : ι → Prop} {parent : ι → ι} {root : ι}

/-- The used nodes form a tree under their parent pointers: the root is its own
parent, parents of used nodes are used, and some rank falls along every other
parent pointer, which rules out cycles. -/
structure IsTree (used : ι → Prop) (parent : ι → ι) (root : ι) : Prop where
  root_used : used root
  root_parent : parent root = root
  parent_used : ∀ i, used i → used (parent i)
  ranked : ∃ rank : ι → Nat, ∀ i, used i → i ≠ root → rank (parent i) < rank i

theorem IsTree.iterate_used (h : IsTree used parent root) (hi : used i) (k : Nat) :
    used (parent^[k] i) := by
  induction k with
  | zero => exact hi
  | succ k ih =>
    rw [Function.iterate_succ_apply']
    exact h.parent_used _ ih

theorem IsTree.reaches_root (h : IsTree used parent root) (hi : used i) :
    ∃ k, parent^[k] i = root := by
  obtain ⟨rank, hrank⟩ := h.ranked
  induction hm : rank i using Nat.strongRecOn generalizing i with
  | ind m ih =>
    by_cases hr : i = root
    · exact ⟨0, hr⟩
    · obtain ⟨k, hk⟩ := ih (rank (parent i)) (hm ▸ hrank i hi hr) (h.parent_used i hi) rfl
      exact ⟨k + 1, hk⟩

/-- Only the root lies on a cycle of parent pointers. -/
theorem IsTree.cycle_root (h : IsTree used parent root) (hi : used i) {k : Nat}
    (hcycle : parent^[k + 1] i = i) : i = root := by
  obtain ⟨j, hj⟩ := h.reaches_root hi
  -- going round often enough passes the root, which no parent pointer leaves
  have hround : parent^[(k + 1) * j] i = i := by
    rw [Function.iterate_mul]
    exact Function.iterate_fixed hcycle j
  have hsplit : (k + 1) * j = k * j + j := by
    rw [Nat.add_mul, Nat.one_mul]
  rw [hsplit, Function.iterate_add_apply, hj, Function.iterate_fixed h.root_parent] at hround
  exact hround.symm

/-- In a finite table the root is fewer steps away than there are nodes: up to
the first visit of the root the nodes passed have distinct ranks. -/
theorem IsTree.depth_lt [Fintype ι] (h : IsTree used parent root) (hi : used i) :
    ∃ k, k < Fintype.card ι ∧ parent^[k] i = root := by
  classical
  obtain ⟨rank, hrank⟩ := h.ranked
  have hex := h.reaches_root hi
  let d := Nat.find hex
  have hfirst : ∀ k, k < d → parent^[k] i ≠ root := fun k hk => Nat.find_min hex hk
  have hfall : ∀ k, k < d → rank (parent^[k + 1] i) < rank (parent^[k] i) := by
    intro k hk
    rw [Function.iterate_succ_apply']
    exact hrank _ (h.iterate_used hi k) (hfirst k hk)
  have hanti : ∀ a b, a < b → b ≤ d → rank (parent^[b] i) < rank (parent^[a] i) := by
    intro a b hab hb
    induction b with
    | zero => omega
    | succ b ih =>
      rcases Nat.lt_or_ge a b with hlt | hge
      · exact (hfall b (by omega)).trans (ih hlt (by omega))
      · have : a = b := by omega
        subst this
        exact hfall a (by omega)
  have hinj : Function.Injective (fun k : Fin (d + 1) => parent^[k.val] i) := by
    intro a b hab
    rcases Nat.lt_trichotomy a.val b.val with hlt | heq | hgt
    · have := hanti a b hlt (by omega)
      simp only at hab
      rw [hab] at this
      omega
    · exact Fin.ext heq
    · have := hanti b a hgt (by omega)
      simp only at hab
      rw [hab] at this
      omega
  have hcard := Fintype.card_le_of_injective _ hinj
  rw [Fintype.card_fin] at hcard
  exact ⟨d, by omega, Nat.find_spec hex⟩

/-- A fresh node hung below a used one extends the tree. -/
theorem IsTree.grow [DecidableEq ι] (h : IsTree used parent root) (hj : ¬ used j)
    (hc : used c) : IsTree (fun i => i = j ∨ used i) (Function.update parent j c) root := by
  obtain ⟨rank, hrank⟩ := h.ranked
  have hne : ∀ i, used i → i ≠ j := fun i hi he => hj (he ▸ hi)
  refine ⟨Or.inr h.root_used, ?_, ?_, ?_⟩
  · rw [Function.update_of_ne (hne root h.root_used)]
    exact h.root_parent
  · intro i hi
    rcases hi with rfl | hi
    · rw [Function.update_self]
      exact Or.inr hc
    · rw [Function.update_of_ne (hne i hi)]
      exact Or.inr (h.parent_used i hi)
  · refine ⟨Function.update rank j (rank c + 1), ?_⟩
    intro i hi hr
    rcases hi with rfl | hi
    · rw [Function.update_self, Function.update_self, Function.update_of_ne (hne c hc)]
      exact Nat.lt_succ_self _
    · rw [Function.update_of_ne (hne i hi), Function.update_of_ne (hne i hi),
        Function.update_of_ne (hne _ (h.parent_used i hi))]
      exact hrank i hi hr

/-- A node other than the root to which no used node points can be dropped. -/
theorem IsTree.prune (h : IsTree used parent root) (hj : j ≠ root)
    (hleaf : ∀ i, used i → i ≠ j → parent i ≠ j) :
    IsTree (fun i => used i ∧ i ≠ j) parent root := by
  obtain ⟨rank, hrank⟩ := h.ranked
  exact ⟨⟨h.root_used, hj.symm⟩, h.root_parent,
    fun i hi => ⟨h.parent_used i hi.1, hleaf i hi.1 hi.2⟩,
    rank, fun i hi hr => hrank i hi.1 hr⟩

/-- Only the used set and the parents of used nodes matter. -/
theorem IsTree.congr (h : IsTree used parent root) (hu : ∀ i, used' i ↔ used i)
    (hp : ∀ i, used i → parent' i = parent i) : IsTree used' parent' root := by
  obtain ⟨rank, hrank⟩ := h.ranked
  refine ⟨(hu root).mpr h.root_used, (hp root h.root_used).trans h.root_parent, ?_, rank, ?_⟩
  · intro i hi
    have hi := (hu i).mp hi
    rw [hp i hi]
    exact (hu _).mpr (h.parent_used i hi)
  · intro i hi hr
    have hi := (hu i).mp hi
    rw [hp i hi]
    exact hrank i hi hr

end Library.Forest
