import Mathlib

namespace Library.Programs

variable {σ α β : Type}

/-- A program over a state; `none` when it does not return. -/
abbrev Prog (σ α : Type) := StateT σ Option α

theorem get_bind_run (f : σ → Prog σ β) (s : σ) : (get >>= f) s = f s s := rfl

theorem modify_bind_run (g : σ → σ) (f : Unit → Prog σ β) (s : σ) :
    (modify g >>= f) s = f () (g s) := rfl

theorem modify_run (g : σ → σ) (s : σ) : (modify g : Prog σ PUnit) s = some (⟨⟩, g s) := rfl

theorem set_bind_run (t : σ) (f : PUnit → Prog σ β) (s : σ) : (set t >>= f) s = f ⟨⟩ t := rfl

theorem bind_run {m : Prog σ α} {f : α → Prog σ β} {s t : σ} {a : α} (h : m s = some (a, t)) :
    (m >>= f) s = f a t := by
  change (m s).bind (fun r => f r.1 r.2) = f a t
  rw [h]
  rfl

theorem bind_none_run {m : Prog σ α} {s : σ} (h : m s = none) (f : α → Prog σ β) :
    (m >>= f) s = none := by
  change (m s).bind (fun r => f r.1 r.2) = none
  rw [h]
  rfl

/-- The result of a program that runs alike, mapped. -/
theorem bind_pure_run {m m' : Prog σ α} {s : σ} (h : m s = m' s) (g : α → β) :
    (m >>= fun a => pure (g a)) s = (g <$> m') s := by
  rw [map_eq_pure_bind]
  change (m s).bind _ = (m' s).bind _
  rw [h]

theorem bind_inv {m : Prog σ α} {f : α → Prog σ β} {s s' : σ} {b : β}
    (h : (m >>= f) s = some (b, s')) : ∃ a t, m s = some (a, t) ∧ f a t = some (b, s') := by
  change (m s).bind (fun r => f r.1 r.2) = some (b, s') at h
  cases hm : m s with
  | none =>
    rw [hm] at h
    cases h
  | some r =>
    rw [hm] at h
    exact ⟨r.1, r.2, rfl, h⟩

theorem pure_inv {a b : α} {s s' : σ} (h : (pure a : Prog σ α) s = some (b, s')) :
    b = a ∧ s' = s := by
  cases h
  exact ⟨rfl, rfl⟩

theorem modify_inv {f : σ → σ} {s s' : σ} {u : Unit}
    (h : (modify f : Prog σ Unit) s = some (u, s')) : s' = f s := by
  cases h
  rfl

theorem get_bind_inv {f : σ → Prog σ β} {s s' : σ} {b : β}
    (h : (get >>= f) s = some (b, s')) : f s s = some (b, s') := h

theorem modify_bind_inv {g : σ → σ} {f : Unit → Prog σ β} {s s' : σ} {b : β}
    (h : (modify g >>= f) s = some (b, s')) : f () (g s) = some (b, s') := h

section Loops

variable {γ : Type} {n : Nat} {s : σ}

/-- The results of a loop, one behind another. -/
def collect : List β → (β → Prog σ (List γ)) → Prog σ (List γ)
  | [], _ => pure []
  | x :: xs, f => do
    let r ← f x
    let rest ← collect xs f
    return r ++ rest

theorem collect_cons_run {x : β} {xs : List β} {f : β → Prog σ (List γ)} {r rest : List γ}
    {t u : σ} (h : f x s = some (r, t)) (hrest : collect xs f t = some (rest, u)) :
    collect (x :: xs) f s = some (r ++ rest, u) := by
  rw [collect, bind_run h, bind_run hrest]
  rfl

theorem collect_append_run {xs ys : List β} {f : β → Prog σ (List γ)} {r r' : List γ} {t u : σ}
    (h : collect xs f s = some (r, t)) (h' : collect ys f t = some (r', u)) :
    collect (xs ++ ys) f s = some (r ++ r', u) := by
  induction xs generalizing s r with
  | nil =>
    cases h
    exact h'
  | cons x xs ih =>
    obtain ⟨a, v, ha, hrest⟩ := bind_inv h
    obtain ⟨b, w, hb, hp⟩ := bind_inv hrest
    cases hp
    rw [List.append_assoc]
    exact collect_cons_run ha (ih hb)

/-- A counted loop that goes through the states `t 0`, `t 1`, … -/
theorem collect_range_run {f : Nat → Prog σ (List γ)} {g : Nat → List γ} (t : Nat → σ)
    (h : ∀ i < n, f i (t i) = some (g i, t (i + 1))) :
    collect (List.range n) f (t 0) = some ((List.range n).flatMap g, t n) := by
  induction n with
  | zero => rfl
  | succ n ih =>
    rw [List.range_succ, List.flatMap_append, List.flatMap_singleton]
    refine collect_append_run (ih fun i hi => h i (Nat.lt_succ_of_lt hi)) ?_
    have hlast : collect [n] f (t n) = some (g n ++ [], t (n + 1)) :=
      collect_cons_run (h n n.lt_succ_self) rfl
    rw [List.append_nil] at hlast
    exact hlast

/-- A loop whose turns are those of a fold over the results and the state. -/
theorem collect_fold_run {l : List β} {f : β → Prog σ (List γ)}
    {turn : List γ × σ → β → List γ × σ}
    (h : ∀ x ∈ l, ∀ s, ∃ r t, f x s = some (r, t) ∧ ∀ acc, turn (acc, s) x = (acc ++ r, t)) :
    collect l f s = some (l.foldl turn ([], s)) := by
  suffices ∀ acc, ∃ r t, collect l f s = some (r, t) ∧ l.foldl turn (acc, s) = (acc ++ r, t) by
    obtain ⟨r, t, hr, hfold⟩ := this []
    rw [hr, hfold, List.nil_append]
  induction l generalizing s with
  | nil => exact fun acc => ⟨[], s, rfl, by rw [List.foldl_nil, List.append_nil]⟩
  | cons x xs ih =>
    intro acc
    obtain ⟨r, t, hx, hturn⟩ := h x List.mem_cons_self s
    obtain ⟨rest, u, hxs, hfold⟩ := ih (fun y hy => h y (List.mem_cons_of_mem x hy)) (acc ++ r)
    refine ⟨r ++ rest, u, collect_cons_run hx hxs, ?_⟩
    rw [List.foldl_cons, hturn, hfold, List.append_assoc]

/-- The same of a loop without results. -/
theorem forM_range_run {f : Nat → Prog σ PUnit} (t : Nat → σ)
    (h : ∀ i < n, f i (t i) = some (⟨⟩, t (i + 1))) :
    forM (List.range n) f (t 0) = some (⟨⟩, t n) := by
  induction n with
  | zero => rfl
  | succ n ih =>
    rw [List.range_succ, List.forM_append, bind_run (ih fun i hi => h i (Nat.lt_succ_of_lt hi)),
      List.forM_cons, bind_run (h n n.lt_succ_self)]
    rfl

end Loops

/-- A relation that steps may be chained by. -/
structure Chains (R : σ → σ → Prop) : Prop where
  refl : ∀ s, R s s
  trans : ∀ s t u, R s t → R t u → R s u

/-- Wherever the program returns, its states are related. -/
def Keeps (R : σ → σ → Prop) (m : Prog σ α) : Prop := ∀ s a s', m s = some (a, s') → R s s'

section Keeps

variable {R : σ → σ → Prop} {m m' : Prog σ α} {f : α → Prog σ β}

theorem Keeps.pure (hR : Chains R) (a : α) : Keeps R (Pure.pure a : Prog σ α) := by
  intro s b s' h
  cases h
  exact hR.refl s

theorem Keeps.get (hR : Chains R) : Keeps R (MonadState.get : Prog σ σ) := by
  intro s b s' h
  cases h
  exact hR.refl s

theorem Keeps.modify {g : σ → σ} (h : ∀ s, R s (g s)) : Keeps R (modify g : Prog σ Unit) := by
  intro s b s' hm
  cases hm
  exact h s

theorem Keeps.bind (hR : Chains R) (hm : Keeps R m) (hf : ∀ a, Keeps R (f a)) :
    Keeps R (m >>= f) := by
  intro s b s' h
  obtain ⟨a, t, h1, h2⟩ := bind_inv h
  exact hR.trans s t s' (hm s a t h1) (hf a t b s' h2)

theorem Keeps.ite {c : Prop} [Decidable c] (h : Keeps R m) (h' : Keeps R m') :
    Keeps R (if c then m else m') := by
  split
  · exact h
  · exact h'

/-- A program that never returns. -/
theorem Keeps.none : Keeps R (fun _ => .none : Prog σ α) := by
  intro s a s' h
  cases h

theorem Keeps.mono {R' : σ → σ → Prop} (hmono : ∀ s s', R s s' → R' s s') (h : Keeps R m) :
    Keeps R' m := by
  intro s a s' hm
  exact hmono s s' (h s a s' hm)

end Keeps

/-- Two programs that run alike wherever `P` holds. -/
def AlikeOn (P : σ → Prop) (m m' : Prog σ α) : Prop := ∀ s, P s → m s = m' s

section AlikeOn

variable {P : σ → Prop} {m m' : Prog σ α} {f f' : α → Prog σ β}

theorem AlikeOn.refl (m : Prog σ α) : AlikeOn P m m := fun _ _ => rfl

theorem AlikeOn.bind (hm : AlikeOn P m m') (hkeep : Keeps (fun s t => P s → P t) m)
    (hf : ∀ a, AlikeOn P (f a) (f' a)) : AlikeOn P (m >>= f) (m' >>= f') := by
  intro s hs
  change (m s).bind (fun r => f r.1 r.2) = (m' s).bind fun r => f' r.1 r.2
  rw [← hm s hs]
  apply Option.bind_congr
  rintro ⟨a, t⟩ hrun
  exact hf a t (hkeep s a t hrun hs)

/-- What follows may read the state it starts from. -/
theorem AlikeOn.get_bind {f f' : σ → Prog σ β} (h : ∀ s, P s → AlikeOn P (f s) (f' s)) :
    AlikeOn P (MonadState.get >>= f) (MonadState.get >>= f') := by
  intro s hs
  exact h s hs s hs

theorem AlikeOn.ite {c : Prop} [Decidable c] {n n' : Prog σ α} (h : AlikeOn P m m')
    (h' : AlikeOn P n n') : AlikeOn P (if c then m else n) (if c then m' else n') := by
  split
  · exact h
  · exact h'

end AlikeOn

/-- Wherever the program returns from one state, its states are related. -/
def KeepsAt (R : σ → σ → Prop) (s : σ) (m : Prog σ α) : Prop := ∀ a s', m s = some (a, s') → R s s'

section KeepsAt

variable {R : σ → σ → Prop} {m m' : Prog σ α} {f : α → Prog σ β} {s : σ}

theorem Keeps.at (h : Keeps R m) (s : σ) : KeepsAt R s m := h s

theorem KeepsAt.all (h : ∀ s, KeepsAt R s m) : Keeps R m := h

theorem KeepsAt.get_bind {f : σ → Prog σ β} (h : KeepsAt R s (f s)) :
    KeepsAt R s (MonadState.get >>= f) := h

theorem KeepsAt.modify_bind {g : σ → σ} {f : Unit → Prog σ β} (hR : Chains R) (hg : R s (g s))
    (hf : KeepsAt R (g s) (f ())) : KeepsAt R s (modify g >>= f) := by
  intro b s' h
  exact hR.trans s (g s) s' hg (hf b s' h)

theorem KeepsAt.ite {c : Prop} [Decidable c] (h : c → KeepsAt R s m) (h' : ¬c → KeepsAt R s m') :
    KeepsAt R s (if c then m else m') := by
  split
  · next hc => exact h hc
  · next hc => exact h' hc

end KeepsAt

end Library.Programs
