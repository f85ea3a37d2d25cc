import Mathlib

namespace Library.Transitions

variable {σ α : Type*} {step : σ → α → σ → Prop}

/-- A run of a labelled transition system: the labels of its steps, in order. -/
inductive Run (step : σ → α → σ → Prop) : σ → List α → σ → Prop
  | nil (s : σ) : Run step s [] s
  | cons {s s' s'' : σ} {a : α} {as : List α} (head : step s a s') (tail : Run step s' as s'') :
      Run step s (a :: as) s''

/-- What every step preserves, every run preserves. -/
theorem Run.invariant {P : σ → Prop} (hstep : ∀ s a s', P s → step s a s' → P s')
    (h : Run step s as s') (hs : P s) : P s' := by
  induction h with
  | nil => exact hs
  | cons head tail ih => exact ih (hstep _ _ _ hs head)

theorem Run.mono {step' : σ → α → σ → Prop} (hm : ∀ s a s', step s a s' → step' s a s')
    (h : Run step s as s') : Run step' s as s' := by
  induction h with
  | nil s => exact .nil s
  | cons head tail ih => exact .cons (hm _ _ _ head) ih

theorem Run.append (h : Run step s as s') (h' : Run step s' bs s'') :
    Run step s (as ++ bs) s'' := by
  induction h with
  | nil => exact h'
  | cons head tail ih => exact .cons head (ih h')

/-- The last step of a run, and the run before it. -/
theorem Run.snoc_inv (h : Run step s (as ++ [a]) s'') :
    ∃ s', Run step s as s' ∧ step s' a s'' := by
  induction as generalizing s with
  | nil =>
    cases h with
    | cons head tail => cases tail; exact ⟨s, .nil s, head⟩
  | cons b as ih =>
    cases h with
    | cons head tail =>
      obtain ⟨t, ht, hlast⟩ := ih tail
      exact ⟨t, .cons head ht, hlast⟩

/-- Where a step keeps `P` exactly under the condition `C`, a run has `P` all along exactly where
it starts in `P` and every step meets the condition. -/
theorem Run.all_iff {I P : σ → Prop} {C : σ → α → Prop}
    (htotal : ∀ s a, I s → ∃ s', step s a s')
    (hinv : ∀ s a s', I s → step s a s' → I s')
    (hstep : ∀ s a s', I s → P s → step s a s' → (P s' ↔ C s a)) (hs : I s) (as : List α) :
    (∀ done s', done <+: as → Run step s done s' → P s') ↔
      P s ∧ ∀ done a s', done ++ [a] <+: as → Run step s done s' → C s' a := by
  constructor
  · intro h
    refine ⟨h [] s List.nil_prefix (.nil s), fun done a s' hpre hrun => ?_⟩
    obtain ⟨t, ht⟩ := htotal s' a (hrun.invariant hinv hs)
    have hdone := h done s' ((List.prefix_append done [a]).trans hpre) hrun
    exact (hstep s' a t (hrun.invariant hinv hs) hdone ht).mp
      (h _ t hpre (hrun.append (.cons ht (.nil t))))
  · rintro ⟨hP, h⟩ done
    -- The induction adds a step at the end, where the state is one that the run has reached.
    induction done using List.reverseRecOn with
    | nil =>
      intro s' _ hrun
      cases hrun
      exact hP
    | append_singleton done a ih =>
      intro s' hpre hrun
      obtain ⟨t, ht, hlast⟩ := hrun.snoc_inv
      have hdone := ih t ((List.prefix_append done [a]).trans hpre) ht
      exact (hstep t a s' (ht.invariant hinv hs) hdone hlast).mpr (h done a t hpre ht)

/-- A run of a step function, carried out. -/
def exec {ε : Type*} (f : σ → α → Except ε σ) : σ → List α → Except ε σ
  | s, [] => .ok s
  | s, a :: as =>
    match f s a with
    | .ok s' => exec f s' as
    | .error e => .error e

theorem exec_run {ε : Type*} {f : σ → α → Except ε σ} (h : exec f s as = .ok s') :
    Run (fun s a s' => f s a = .ok s') s as s' := by
  induction as generalizing s with
  | nil =>
    cases h
    exact .nil _
  | cons a as ih =>
    rw [exec] at h
    cases ha : f s a with
    | error e =>
      rw [ha] at h
      cases h
    | ok t =>
      rw [ha] at h
      exact .cons ha (ih h)

/-- An observation made at the end of a run that was carried out. -/
theorem exec_observed {ε β : Type*} {f : σ → α → Except ε σ} {b : β} (g : σ → β)
    (h : (exec f s as).toOption.map g = some b) :
    ∃ s', Run (fun s a s' => f s a = .ok s') s as s' ∧ g s' = b := by
  cases hs : exec f s as with
  | error e =>
    rw [hs] at h
    cases h
  | ok s' =>
    rw [hs] at h
    exact ⟨s', exec_run hs, Option.some.inj h⟩

end Library.Transitions
