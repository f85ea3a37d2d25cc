import VertexOS.Library.Programs

namespace Library.Programs

variable {σ ε α β : Type}

/-- The history of the run grows, and as long as it is good the invariant carries
over; `t0` is the part of the history that it counts from. -/
def Carries (hist : σ → List ε) (good : List ε → Prop) (inv : σ → List ε → Prop) (s s' : σ) :
    Prop :=
  ∃ t, hist s' = hist s ++ t ∧ ∀ t0, good (t0 ++ t) → inv s t0 → inv s' (t0 ++ t)

/-- What holds of a history holds of its prefixes. -/
def PrefixClosed (good : List ε → Prop) : Prop := ∀ t u, good (t ++ u) → good t

/-- What holds of a history goes on to hold. -/
def Lasting (past : List ε → Prop) : Prop := ∀ t u, past t → past (t ++ u)

section Carries

variable {hist : σ → List ε} {good : List ε → Prop} {inv : σ → List ε → Prop} {s s' : σ}

theorem Carries.chains (hgood : PrefixClosed good) : Chains (Carries hist good inv) := by
  constructor
  · intro s
    refine ⟨[], (List.append_nil _).symm, ?_⟩
    intro t0 _ h
    rwa [List.append_nil]
  · rintro s1 s2 s3 ⟨t, ht, h1⟩ ⟨u, hu, h2⟩
    refine ⟨t ++ u, by rw [hu, ht, List.append_assoc], ?_⟩
    intro t0 hg hi
    rw [← List.append_assoc] at hg ⊢
    exact h2 (t0 ++ t) hg (h1 t0 (hgood _ _ hg) hi)

/-- A step that logs nothing. -/
theorem Carries.silent (hh : hist s' = hist s) (hi : ∀ t0, good t0 → inv s t0 → inv s' t0) :
    Carries hist good inv s s' := by
  refine ⟨[], by rw [hh, List.append_nil], ?_⟩
  intro t0 hg h
  rw [List.append_nil] at hg ⊢
  exact hi t0 hg h

/-- A step that logs one event. -/
theorem Carries.event {e : ε} (hh : hist s' = hist s ++ [e])
    (hi : ∀ t0, good (t0 ++ [e]) → inv s t0 → inv s' (t0 ++ [e])) :
    Carries hist good inv s s' := ⟨[e], hh, hi⟩

/-- A fact about the past stays beside the invariant. -/
theorem Carries.given {past : List ε → Prop} (hpast : Lasting past)
    (h : Carries hist good inv s s') :
    Carries hist good (fun s t => past t ∧ inv s t) s s' := by
  obtain ⟨t, ht, hi⟩ := h
  refine ⟨t, ht, ?_⟩
  rintro t0 hg ⟨hp, h0⟩
  exact ⟨hpast t0 t hp, hi t0 hg h0⟩

end Carries

/-- An event of a longer history is its last one or was there before. -/
theorem split_snoc {t p r : List ε} {e x : ε} (h : t ++ [e] = p ++ x :: r) :
    (r = [] ∧ p = t ∧ x = e) ∨ ∃ r', r = r' ++ [e] ∧ t = p ++ x :: r' := by
  rcases List.eq_nil_or_concat r with rfl | ⟨r', y, rfl⟩
  · obtain ⟨ht, he⟩ := List.append_inj' h rfl
    cases he
    exact .inl ⟨rfl, ht.symm, rfl⟩
  · rw [List.concat_eq_append, ← List.cons_append, ← List.append_assoc] at h
    obtain ⟨ht, he⟩ := List.append_inj' h rfl
    cases he
    exact .inr ⟨r', List.concat_eq_append, ht⟩

/-- An event of two histories in a row is in one of them. -/
theorem split_append {t u a b : List ε} {e : ε} (h : t ++ u = a ++ e :: b) :
    (∃ b', t = a ++ e :: b' ∧ b = b' ++ u) ∨ ∃ a', a = t ++ a' ∧ u = a' ++ e :: b := by
  rcases List.append_eq_append_iff.mp h with ⟨a', ha, hu⟩ | ⟨c, ht, hb⟩
  · exact .inr ⟨a', ha, hu⟩
  · cases c with
    | nil =>
      rw [List.append_nil] at ht
      exact .inr ⟨[], by rw [ht, List.append_nil], hb.symm⟩
    | cons x c =>
      obtain ⟨rfl, hrest⟩ := List.cons.inj hb
      exact .inl ⟨c, ht, hrest⟩

end Library.Programs
