import Mathlib

namespace Library.Queues

variable {α : Type} {n : Nat}

/-- A ring of `n` cells: it is empty where the ends meet, so one cell stays free. -/
structure Ring (α : Type) (n : Nat) where
  cells : Nat → α
  head : Nat
  tail : Nat
  head_lt : head < n
  tail_lt : tail < n

/-- An index that goes round at most once. -/
def wrap (n i : Nat) : Nat := if i < n then i else i - n

theorem mod_eq_wrap {i : Nat} (h : i < n) : (i + 1) % n = wrap n (i + 1) := by
  rw [wrap]
  split
  · rwa [Nat.mod_eq_of_lt]
  · rw [show i + 1 = n by omega, Nat.mod_self, Nat.sub_self]

namespace Ring

def isEmpty (r : Ring α n) : Bool := r.head = r.tail

def isFull (r : Ring α n) : Bool := (r.head + 1) % n = r.tail

/-- A full ring stays as it is. -/
def push (r : Ring α n) (a : α) : Ring α n :=
  if r.isFull then r
  else
    { r with
      cells := Function.update r.cells r.head a
      head := (r.head + 1) % n
      head_lt := Nat.mod_lt _ (Nat.zero_lt_of_lt r.head_lt) }

def front (r : Ring α n) : α := r.cells r.tail

def pop (r : Ring α n) : Ring α n :=
  { r with
    tail := (r.tail + 1) % n
    tail_lt := Nat.mod_lt _ (Nat.zero_lt_of_lt r.tail_lt) }

def count (r : Ring α n) : Nat := if r.tail ≤ r.head then r.head - r.tail else r.head + n - r.tail

/-- What waits in the ring, the oldest first. -/
def contents (r : Ring α n) : List α :=
  (List.range r.count).map fun i => r.cells (wrap n (r.tail + i))

@[simp] theorem length_contents (r : Ring α n) : r.contents.length = r.count := by simp [contents]

theorem isEmpty_iff (r : Ring α n) : r.isEmpty = true ↔ r.contents = [] := by
  have := r.head_lt
  have := r.tail_lt
  rw [← List.length_eq_zero_iff, length_contents, isEmpty, decide_eq_true_eq, count]
  split <;> omega

theorem isFull_iff (r : Ring α n) : r.isFull = true ↔ r.count = n - 1 := by
  have := r.tail_lt
  have := r.head_lt
  rw [isFull, decide_eq_true_eq, mod_eq_wrap r.head_lt, wrap, count]
  split <;> split <;> omega

theorem count_le (r : Ring α n) : r.count ≤ n - 1 := by
  have := r.head_lt
  have := r.tail_lt
  rw [count]
  split <;> omega

theorem push_contents (r : Ring α n) (a : α) :
    (r.push a).contents = if r.count < n - 1 then r.contents ++ [a] else r.contents := by
  have hle := r.count_le
  cases hfull : r.isFull with
  | true =>
    have hcount := r.isFull_iff.mp hfull
    rw [push, if_pos hfull, if_neg (by omega)]
  | false =>
    have hcount : r.count < n - 1 := by
      have := mt r.isFull_iff.mpr (by simp [hfull])
      omega
    rw [push, if_neg (by simp [hfull]), if_pos hcount]
    have hhead := r.head_lt
    have htail := r.tail_lt
    have hnew : (if r.tail ≤ wrap n (r.head + 1) then wrap n (r.head + 1) - r.tail else
        wrap n (r.head + 1) + n - r.tail) = r.count + 1 := by
      grind [count, wrap]
    have hlast : wrap n (r.tail + r.count) = r.head := by
      grind [count, wrap]
    -- The cells that wait are not the one behind the last.
    have hother : ∀ i < r.count, wrap n (r.tail + i) ≠ r.head := by
      intro i hi
      grind [count, wrap]
    simp only [contents]
    rw [count]
    simp only [mod_eq_wrap r.head_lt, hnew, List.range_succ, List.map_append, List.map_cons,
      List.map_nil, hlast, Function.update_self]
    congr 1
    refine List.map_congr_left ?_
    intro i hi
    rw [Function.update_of_ne (hother i (List.mem_range.mp hi))]

theorem pop_contents (r : Ring α n) (h : r.isEmpty = false) :
    r.contents = r.front :: r.pop.contents := by
  have hhead := r.head_lt
  have htail := r.tail_lt
  simp only [isEmpty, decide_eq_false_iff_not] at h
  have hcount : r.count = r.pop.count + 1 := by
    simp only [pop, count, mod_eq_wrap r.tail_lt]
    grind [wrap]
  have hstep : ∀ i < r.pop.count, wrap n (r.tail + (i + 1)) = wrap n (r.pop.tail + i) := by
    intro i hi
    have hle := r.count_le
    simp only [pop, mod_eq_wrap r.tail_lt]
    grind [wrap, count]
  have hfirst : wrap n (r.tail + 0) = r.tail := by simp [wrap, htail]
  simp only [contents]
  rw [hcount, List.range_succ_eq_map, List.map_cons, List.map_map, hfirst]
  congr 1
  refine List.map_congr_left ?_
  intro i hi
  rw [Function.comp_apply, Nat.succ_eq_add_one, hstep i (List.mem_range.mp hi), pop]

end Ring

/-- What is offered to a queue and what is taken from it. -/
inductive QueueOp (α : Type) where
  | put (a : α)
  | take (a : α)

/-- An operation of a queue with room for `cap` values: what it has let in, and what has been
taken from it. A value that finds `cap` others waiting is lost. -/
def queueStep (cap : Nat) (r : List α × List α) : QueueOp α → List α × List α
  | .put a => if r.1.length - r.2.length < cap then (r.1 ++ [a], r.2) else r
  | .take a => (r.1, r.2 ++ [a])

def queueHistory (cap : Nat) (ops : List (QueueOp α)) : List α × List α :=
  ops.foldl (queueStep cap) ([], [])

/-- What the queue has let in is what has been taken and, behind that, what waits. -/
def Waits (cap : Nat) (ops : List (QueueOp α)) (waiting : List α) : Prop :=
  (queueHistory cap ops).1 = (queueHistory cap ops).2 ++ waiting

section History

variable {cap : Nat} {ops : List (QueueOp α)} {r : Ring α n} {a : α}

@[simp] theorem queueHistory_snoc (op : QueueOp α) :
    queueHistory cap (ops ++ [op]) = queueStep cap (queueHistory cap ops) op := by
  simp [queueHistory]

theorem Waits.nil : Waits cap ([] : List (QueueOp α)) [] := rfl

theorem Waits.push (h : Waits (n - 1) ops r.contents) :
    Waits (n - 1) (ops ++ [.put a]) (r.push a).contents := by
  have hcount : (queueHistory (n - 1) ops).1.length - (queueHistory (n - 1) ops).2.length =
      r.count := by
    rw [h, List.length_append, Nat.add_sub_cancel_left, Ring.length_contents]
  rw [Waits] at h ⊢
  rw [queueHistory_snoc, queueStep, hcount, Ring.push_contents]
  split
  · rw [h, List.append_assoc]
  · exact h

theorem Waits.pop (h : Waits cap ops r.contents) (hne : r.isEmpty = false) :
    Waits cap (ops ++ [.take r.front]) r.pop.contents := by
  rw [Waits] at h ⊢
  rw [queueHistory_snoc, queueStep, h, r.pop_contents hne, List.append_assoc,
    List.singleton_append]

end History

end Library.Queues
