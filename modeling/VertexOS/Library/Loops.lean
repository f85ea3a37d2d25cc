import Mathlib

namespace Library.Loops

variable {σ β : Type*}

/-- How a turn of a loop ends. -/
inductive Outcome (σ β : Type*) where
  | next (s : σ)
  | stop (b : β)

/-- `n` turns lead from one state of the loop to another. -/
inductive Turns (turn : σ → Outcome σ β) : σ → Nat → σ → Prop
  | none (s : σ) : Turns turn s 0 s
  | snoc {s s' s'' : σ} {n : Nat} (front : Turns turn s n s') (last : turn s' = .next s'') :
      Turns turn s (n + 1) s''

variable {turn : σ → Outcome σ β} {s s' : σ} {n : Nat}

/-- What every turn preserves holds whenever the loop comes around. -/
theorem Turns.invariant {I : σ → Prop} (hturn : ∀ s s', I s → turn s = .next s' → I s')
    (h : Turns turn s n s') (hs : I s) : I s' := by
  induction h with
  | none => exact hs
  | snoc front last ih => exact hturn _ _ ih last

/-- Every turn uses up some of the measure. -/
theorem Turns.add_measure_le {I : σ → Prop} {measure : σ → Nat}
    (hturn : ∀ s s', I s → turn s = .next s' → I s')
    (hless : ∀ s s', I s → turn s = .next s' → measure s' < measure s)
    (h : Turns turn s n s') (hs : I s) : n + measure s' ≤ measure s := by
  induction h with
  | none => simp
  | snoc front last ih =>
    have hlast := hless _ _ (front.invariant hturn hs) last
    omega

/-- A loop that uses up a measure stops. -/
theorem Turns.stops {I : σ → Prop} {measure : σ → Nat}
    (hturn : ∀ s s', I s → turn s = .next s' → I s')
    (hless : ∀ s s', I s → turn s = .next s' → measure s' < measure s) (hs : I s) :
    ∃ n s' b, Turns turn s n s' ∧ turn s' = .stop b := by
  -- The turns of the loop are counted by what is left of the measure.
  have hfrom : ∀ (k n : Nat) (t : σ), measure t < k → Turns turn s n t →
      ∃ n s' b, Turns turn s n s' ∧ turn s' = .stop b := by
    intro k
    induction k with
    | zero => exact fun n t hk => absurd hk (Nat.not_lt_zero _)
    | succ k ih =>
      intro n t hk ht
      cases hend : turn t with
      | stop b => exact ⟨n, t, b, ht, hend⟩
      | next t' =>
        have hlast := hless t t' (ht.invariant hturn hs) hend
        exact ih (n + 1) t' (by omega) (.snoc ht hend)
  exact hfrom _ 0 s (Nat.lt_succ_self _) (.none s)

section Search

variable {f : Nat → Option β} {b : β}

theorem findSome?_congr {α : Type*} {l : List α} {f g : α → Option β} (h : ∀ x ∈ l, f x = g x) :
    l.findSome? f = l.findSome? g := by
  rw [← List.head?_filterMap, ← List.head?_filterMap, List.filterMap_congr h]

/-- A counted search ends at the first hit. -/
theorem findSome?_range_some :
    (List.range n).findSome? f = some b ↔ ∃ i < n, f i = some b ∧ ∀ j < i, f j = none := by
  induction n with
  | zero => simp
  | succ n ih =>
    rw [List.range_succ, List.findSome?_append, Option.or_eq_some_iff, ih,
      List.findSome?_eq_none_iff]
    constructor
    · rintro (⟨i, hi, hit⟩ | ⟨hnone, hn⟩)
      · exact ⟨i, Nat.lt_succ_of_lt hi, hit⟩
      · refine ⟨n, Nat.lt_succ_self n, ?_, fun j hj => hnone j (List.mem_range.mpr hj)⟩
        simpa using hn
    · rintro ⟨i, hi, hit, hbefore⟩
      rcases Nat.lt_succ_iff_lt_or_eq.mp hi with hlt | rfl
      · exact Or.inl ⟨i, hlt, hit, hbefore⟩
      · exact Or.inr ⟨fun j hj => hbefore j (List.mem_range.mp hj), by simpa using hit⟩

theorem findSome?_range_none :
    (List.range n).findSome? f = none ↔ ∀ i < n, f i = none := by
  simp only [List.findSome?_eq_none_iff, List.mem_range]

/-- Two nested counted searches are one over both counters. -/
theorem findSome?_nested (m n : Nat) (f : Nat → Option β) :
    ((List.range m).findSome? fun i => (List.range n).findSome? fun j => f (i * n + j)) =
      (List.range (m * n)).findSome? f := by
  induction m with
  | zero => simp
  | succ m ih =>
    rw [List.range_succ, List.findSome?_append, ih, Nat.succ_mul, List.range_add,
      List.findSome?_append, List.findSome?_map]
    congr 1
    simp [Function.comp_def]

end Search

end Library.Loops
