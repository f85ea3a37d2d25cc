import Mathlib

namespace Library.LineEditor

variable {α : Type} {capacity depth : Nat}

/-- A line of at most `capacity` characters with a cursor in it. -/
structure Line (α : Type) (capacity : Nat) where
  text : List α
  cursor : Nat
  fits : text.length ≤ capacity
  inside : cursor ≤ text.length

namespace Line

def empty : Line α capacity := ⟨[], 0, Nat.zero_le _, Nat.le_refl _⟩

/-- A text with the cursor behind it. -/
def ofText (t : List α) (h : t.length ≤ capacity) : Line α capacity := ⟨t, t.length, h, Nat.le_refl _⟩

def left (l : Line α capacity) : Line α capacity :=
  { l with cursor := l.cursor - 1, inside := Nat.le_trans (Nat.sub_le _ _) l.inside }

def right (l : Line α capacity) : Line α capacity :=
  { l with cursor := min (l.cursor + 1) l.text.length, inside := Nat.min_le_right _ _ }

theorem eraseIdx_room (l : Line α capacity) (i : Nat) : (l.text.eraseIdx i).length ≤ capacity :=
  Nat.le_trans (List.length_eraseIdx_le _ _) l.fits

/-- The character at the cursor is removed. -/
def delete (l : Line α capacity) : Line α capacity where
  text := l.text.eraseIdx l.cursor
  cursor := l.cursor
  fits := l.eraseIdx_room _
  inside := by
    have := l.inside
    rw [List.length_eraseIdx]
    split <;> omega

/-- The character before the cursor is removed. -/
def backspace (l : Line α capacity) : Line α capacity :=
  if h : 0 < l.cursor then
    { text := l.text.eraseIdx (l.cursor - 1)
      cursor := l.cursor - 1
      fits := l.eraseIdx_room _
      inside := by
        have := l.inside
        rw [List.length_eraseIdx]
        split <;> omega }
  else l

/-- A character is inserted at the cursor, if there is room. -/
def insert (l : Line α capacity) (a : α) : Line α capacity :=
  if h : l.text.length < capacity then
    { text := l.text.insertIdx l.cursor a
      cursor := l.cursor + 1
      fits := by
        rw [List.length_insertIdx_of_le_length l.inside]
        exact h
      inside := by
        rw [List.length_insertIdx_of_le_length l.inside]
        exact Nat.succ_le_succ l.inside }
  else l

end Line

section History

variable [DecidableEq α]

/-- The last `depth` texts, with immediate repeats collapsed. -/
def recent (depth : Nat) (entered : List (List α)) : List (List α) :=
  (entered.destutter (· ≠ ·)).rtake depth

theorem recent_length (entered : List (List α)) : (recent depth entered).length ≤ depth := by
  simp only [recent, List.rtake, List.length_drop]
  omega

theorem recent_subset {t : List α} {entered : List (List α)} (h : t ∈ recent depth entered) :
    t ∈ entered :=
  (List.destutter_sublist _ entered).subset (List.drop_subset _ _ h)

theorem destutter'_concat {β : Type} [DecidableEq β] (a b : β) (l : List β) :
    (l ++ [b]).destutter' (· ≠ ·) a =
      if (l.destutter' (· ≠ ·) a).getLast? = some b then l.destutter' (· ≠ ·) a
      else l.destutter' (· ≠ ·) a ++ [b] := by
  induction l generalizing a with
  | nil =>
    rw [List.nil_append, List.destutter'_singleton, List.destutter'_nil]
    by_cases h : a = b <;> simp [h]
  | cons c l ih =>
    rw [List.cons_append, List.destutter'_cons, List.destutter'_cons, ih, ih]
    by_cases hac : a = c
    · simp [hac]
    · have hne : l.destutter' (· ≠ ·) c ≠ [] := List.destutter'_ne_nil _ _
      rw [if_pos hac, if_pos hac, List.getLast?_cons_of_ne_nil hne]
      split <;> rfl

theorem destutter_concat {β : Type} [DecidableEq β] (b : β) (l : List β) :
    (l ++ [b]).destutter (· ≠ ·) =
      if (l.destutter (· ≠ ·)).getLast? = some b then l.destutter (· ≠ ·)
      else l.destutter (· ≠ ·) ++ [b] := by
  cases l with
  | nil => simp
  | cons a l => exact destutter'_concat a b l

/-- One text more in the history. -/
theorem recent_concat (hdepth : 0 < depth) (entered : List (List α)) (t : List α) :
    recent depth (entered ++ [t]) =
      if (recent depth entered).getLast? = some t then recent depth entered
      else (recent depth entered ++ [t]).rtake depth := by
  rw [recent, recent, destutter_concat]
  generalize entered.destutter (· ≠ ·) = d
  have hlast : (d.rtake depth).getLast? = d.getLast? := by
    cases d using List.reverseRecOn with
    | nil => simp
    | append_singleton d x =>
      obtain ⟨k, rfl⟩ := Nat.exists_eq_succ_of_ne_zero (Nat.pos_iff_ne_zero.mp hdepth)
      simp [List.rtake_concat_succ]
  rw [hlast]
  split
  · rfl
  · obtain ⟨k, rfl⟩ := Nat.exists_eq_succ_of_ne_zero (Nat.pos_iff_ne_zero.mp hdepth)
    rw [List.rtake_concat_succ, List.rtake_concat_succ]
    simp only [List.rtake, List.length_drop, List.drop_drop]
    congr 2
    omega

/-- A new text where there is room, and where the oldest one goes. -/
theorem rtake_concat {β : Type} {l : List β} (hl : l.length ≤ depth) (b : β) :
    (l ++ [b]).rtake depth = if l.length < depth then l ++ [b] else (l ++ [b]).tail := by
  rw [List.rtake, List.length_append, List.length_singleton]
  split
  · next hroom =>
    rw [Nat.sub_eq_zero_of_le hroom, List.drop_zero]
  · next hfull =>
    have hone : l.length + 1 - depth = 1 := by omega
    rw [hone, List.drop_one]

end History

/-- What is done to a line. -/
inductive Key (α : Type) where
  | char (a : α)
  | backspace | delete | left | right | up | down | enter
  deriving DecidableEq, Repr

/-- A line editor that keeps what was entered; `recalled` is the place in the history of the text
that was recalled last. -/
structure Editor (α : Type) [DecidableEq α] (capacity depth : Nat) where
  line : Line α capacity := .empty
  entered : List (List α) := []
  recalled : Option Nat := none
  enteredFit : ∀ t ∈ entered, t.length ≤ capacity
  recalledInside : ∀ i ∈ recalled, i < (recent depth entered).length

namespace Editor

variable [DecidableEq α]

def history (e : Editor α capacity depth) : List (List α) := recent depth e.entered

theorem history_fits (e : Editor α capacity depth) {t : List α} (h : t ∈ e.history) :
    t.length ≤ capacity := e.enteredFit t (recent_subset h)

/-- An edit of the line. -/
def edit (e : Editor α capacity depth) (f : Line α capacity → Line α capacity) :
    Editor α capacity depth := { e with line := f e.line }

/-- The line becomes an entry of the history. -/
def recallEntry (e : Editor α capacity depth) (i : Nat) (h : i < e.history.length) :
    Editor α capacity depth where
  line := .ofText e.history[i] (e.history_fits (List.getElem_mem h))
  entered := e.entered
  recalled := some i
  enteredFit := e.enteredFit
  recalledInside := by
    intro j hj
    cases hj
    exact h

def up (e : Editor α capacity depth) : Editor α capacity depth :=
  if h : e.recalled.getD e.history.length - 1 < e.history.length then e.recallEntry _ h else e

def clear (e : Editor α capacity depth) : Editor α capacity depth :=
  { e with line := .empty, recalled := none, recalledInside := by simp }

def down (e : Editor α capacity depth) : Editor α capacity depth :=
  match e.recalled with
  | none => e
  | some i => if h : i + 1 < e.history.length then e.recallEntry _ h else e.clear

def enter (e : Editor α capacity depth) : Editor α capacity depth where
  entered := if e.line.text = [] then e.entered else e.entered ++ [e.line.text]
  enteredFit := by
    intro t ht
    split at ht
    · exact e.enteredFit t ht
    · rcases List.mem_append.mp ht with ht | ht
      · exact e.enteredFit t ht
      · rw [List.mem_singleton.mp ht]
        exact e.line.fits
  recalledInside := by simp

theorem enter_history (e : Editor α capacity depth) : e.enter.history =
    recent depth (if e.line.text = [] then e.entered else e.entered ++ [e.line.text]) := rfl

def press (e : Editor α capacity depth) : Key α → Editor α capacity depth
  | .char a => e.edit fun l => l.insert a
  | .backspace => e.edit Line.backspace
  | .delete => e.edit Line.delete
  | .left => e.edit Line.left
  | .right => e.edit Line.right
  | .up => e.up
  | .down => e.down
  | .enter => e.enter

/-- The texts that the keys enter. -/
def executed (e : Editor α capacity depth) : List (Key α) → List (List α)
  | [] => []
  | k :: ks =>
    (if k = .enter ∧ e.line.text ≠ [] then [e.line.text] else []) ++ (e.press k).executed ks

end Editor

end Library.LineEditor
