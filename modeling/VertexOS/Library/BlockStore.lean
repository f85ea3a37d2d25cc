import Mathlib

namespace Library.BlockStore

/-- A block of `n` bytes. -/
abbrev Block (n : Nat) := Fin n → UInt8

/-- A store of blocks, addressed by block number. -/
abbrev Store (n : Nat) := Nat → Block n

structure Write (n : Nat) where
  block : Nat
  data : Block n

/-- One atomic block write. -/
def perform (f : Store n) (w : Write n) : Store n := Function.update f w.block w.data

/-- The store after a sequence of block writes, in order. -/
def replay (f : Store n) (ws : List (Write n)) : Store n := ws.foldl perform f

/-- The byte at a flat address: block `a / n`, offset `a % n`. -/
def byte [NeZero n] (f : Store n) (a : Nat) : UInt8 :=
  f (a / n) ⟨a % n, Nat.mod_lt _ (NeZero.pos n)⟩

@[simp] theorem replay_nil (f : Store n) : replay f [] = f := rfl

@[simp] theorem replay_cons (f : Store n) (w : Write n) (ws : List (Write n)) :
    replay f (w :: ws) = replay (perform f w) ws := rfl

theorem replay_append (f : Store n) (ws vs : List (Write n)) :
    replay f (ws ++ vs) = replay (replay f ws) vs := List.foldl_append

theorem perform_same (f : Store n) (w : Write n) : perform f w w.block = w.data := by
  simp [perform]

theorem perform_other (f : Store n) (w : Write n) (hb : b ≠ w.block) :
    perform f w b = f b := by
  simp [perform, hb]

/-- Blocks that no write of the sequence names keep their content. -/
theorem replay_other (f : Store n) (ws : List (Write n)) (hb : ∀ w ∈ ws, w.block ≠ b) :
    replay f ws b = f b := by
  induction ws generalizing f with
  | nil => rfl
  | cons w ws ih =>
    rw [replay_cons, ih _ (fun v hv => hb v (List.mem_cons_of_mem _ hv))]
    exact perform_other f w (hb w List.mem_cons_self).symm

/-- After a sequence of writes a block holds its old content or that of one of
the writes naming it. -/
theorem replay_cases (f : Store n) (ws : List (Write n)) (b : Nat) :
    replay f ws b = f b ∨ ∃ w ∈ ws, w.block = b ∧ replay f ws b = w.data := by
  induction ws generalizing f with
  | nil => exact Or.inl rfl
  | cons w ws ih =>
    rw [replay_cons]
    rcases ih (perform f w) with h | ⟨v, hv, hb, he⟩
    · rw [h]
      by_cases hw : w.block = b
      · subst hw
        exact Or.inr ⟨w, List.mem_cons_self, rfl, perform_same f w⟩
      · exact Or.inl (perform_other f w (Ne.symm hw))
    · exact Or.inr ⟨v, List.mem_cons_of_mem _ hv, hb, he⟩

/-- A block named by some write holds, at the end, what one of those writes put there. -/
theorem replay_named (f : Store n) (ws : List (Write n)) (hb : ∃ w ∈ ws, w.block = b) :
    ∃ w ∈ ws, w.block = b ∧ replay f ws b = w.data := by
  induction ws generalizing f with
  | nil => simp at hb
  | cons w ws ih =>
    by_cases ht : ∃ v ∈ ws, v.block = b
    · obtain ⟨v, hv, he⟩ := ih (perform f w) ht
      exact ⟨v, List.mem_cons_of_mem _ hv, he⟩
    · have hw : w.block = b := by
        obtain ⟨v, hv, he⟩ := hb
        rcases List.mem_cons.mp hv with rfl | hv
        · exact he
        · exact absurd ⟨v, hv, he⟩ ht
      refine ⟨w, List.mem_cons_self, hw, ?_⟩
      rw [replay_cons, replay_other _ _ (fun v hv he => ht ⟨v, hv, he⟩), ← hw, perform_same]

section Bytes

variable {n : Nat} [NeZero n]

theorem byte_block (f : Store n) (b : Nat) (i : Fin n) : byte f (n * b + i) = f b i := by
  have hd : (n * b + i.val) / n = b := by
    rw [Nat.mul_add_div (NeZero.pos n), Nat.div_eq_of_lt i.isLt, Nat.add_zero]
  have hm : (n * b + i.val) % n = i.val := by
    rw [Nat.mul_add_mod, Nat.mod_eq_of_lt i.isLt]
  unfold byte
  rw [hd]
  exact congrArg (f b) (Fin.ext hm)

/-- Two stores with the same bytes in a block hold the same block. -/
theorem block_ext {f g : Store n} {b : Nat}
    (h : ∀ i : Fin n, byte f (n * b + i) = byte g (n * b + i)) : f b = g b := by
  funext i
  rw [← byte_block f b i, ← byte_block g b i, h i]

theorem byte_perform_other (f : Store n) (w : Write n) (ha : a / n ≠ w.block) :
    byte (perform f w) a = byte f a := by
  unfold byte
  rw [perform_other f w ha]

theorem byte_perform_same (f : Store n) (w : Write n) (ha : a / n = w.block) :
    byte (perform f w) a = w.data ⟨a % n, Nat.mod_lt _ (NeZero.pos n)⟩ := by
  unfold byte
  rw [ha, perform_same]

/-- Replayed over `f`, no write of the sequence changes a byte outside `A`.
This is stronger than a statement about the final store: it holds at every cut. -/
def Touches (A : Set Nat) : Store n → List (Write n) → Prop
  | _, [] => True
  | f, w :: ws => (∀ a, a ∉ A → byte (perform f w) a = byte f a) ∧ Touches A (perform f w) ws

theorem Touches.mono {A B : Set Nat} {f : Store n} {ws : List (Write n)} (hs : A ⊆ B)
    (h : Touches A f ws) : Touches B f ws := by
  induction ws generalizing f with
  | nil => trivial
  | cons w ws ih => exact ⟨fun a ha => h.1 a (fun hm => ha (hs hm)), ih h.2⟩

theorem Touches.append {A : Set Nat} {f : Store n} {ws vs : List (Write n)}
    (h : Touches A f ws) (h' : Touches A (replay f ws) vs) : Touches A f (ws ++ vs) := by
  induction ws generalizing f with
  | nil => exact h'
  | cons w ws ih => exact ⟨h.1, ih h.2 h'⟩

theorem Touches.take {A : Set Nat} {f : Store n} {ws : List (Write n)}
    (h : Touches A f ws) (k : Nat) : Touches A f (ws.take k) := by
  induction ws generalizing f k with
  | nil => simp [Touches]
  | cons w ws ih =>
    cases k with
    | zero => trivial
    | succ k => exact ⟨h.1, ih h.2 k⟩

theorem Touches.outside {A : Set Nat} {f : Store n} {ws : List (Write n)}
    (h : Touches A f ws) (ha : a ∉ A) : byte (replay f ws) a = byte f a := by
  induction ws generalizing f with
  | nil => rfl
  | cons w ws ih => rw [replay_cons, ih h.2, h.1 a ha]

/-- A block all of whose bytes lie outside the touched set is left alone. -/
theorem Touches.block {A : Set Nat} {f : Store n} {ws : List (Write n)}
    (h : Touches A f ws) (hb : ∀ i : Fin n, n * b + i ∉ A) : replay f ws b = f b :=
  block_ext (fun i => h.outside (hb i))

end Bytes

end Library.BlockStore
