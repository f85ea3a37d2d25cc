import Mathlib

namespace Library.Positional

variable {α : Type}

/-- A positional number system: its base, which characters are digits, and their
values. -/
structure Numerals (α : Type) where
  base : Nat
  isDigit : α → Bool
  val : α → Nat

namespace Numerals

variable (N : Numerals α)

/-- The number that the digits extend `v` to, the most significant one first. -/
def valueFrom (v : Nat) (s : List α) : Nat := s.foldl (fun v c => v * N.base + N.val c) v

/-- A number is read as long as digits follow, and given up once it exceeds the
bound. -/
def scan (bound : Nat) : Nat → List α → Option (Nat × List α)
  | v, [] => some (v, [])
  | v, c :: cs =>
    if N.isDigit c then
      if v * N.base + N.val c > bound then none else scan bound (v * N.base + N.val c) cs
    else some (v, c :: cs)

/-- A number written with the characters of its digits. -/
def write (sym : Nat → α) (v : Nat) : List α :=
  if v = 0 then [sym 0] else (Nat.digits N.base v).reverse.map sym

variable {N} {bound v w : Nat} {s t rest : List α}

@[simp] theorem valueFrom_nil : N.valueFrom v [] = v := rfl

@[simp] theorem valueFrom_cons (c : α) :
    N.valueFrom v (c :: s) = N.valueFrom (v * N.base + N.val c) s := rfl

theorem valueFrom_append : N.valueFrom v (s ++ t) = N.valueFrom (N.valueFrom v s) t :=
  List.foldl_append

/-- More digits never make a number smaller. -/
theorem le_valueFrom (hbase : 0 < N.base) : v ≤ N.valueFrom v s := by
  induction s generalizing v with
  | nil => exact Nat.le_refl _
  | cons c s ih =>
    have hmul := Nat.le_mul_of_pos_right v hbase
    exact Nat.le_trans (Nat.le_trans hmul (Nat.le_add_right _ _)) ih

/-- What the digits before count for. -/
theorem valueFrom_eq (N : Numerals α) (v : Nat) (s : List α) :
    N.valueFrom v s = v * N.base ^ s.length + N.valueFrom 0 s := by
  induction s generalizing v with
  | nil => simp
  | cons c s ih =>
    rw [valueFrom_cons, valueFrom_cons, ih (v * N.base + N.val c), ih (0 * N.base + N.val c)]
    rw [List.length_cons, Nat.pow_succ']
    ring

theorem valueFrom_take_le (hbase : 0 < N.base) (k : Nat) (s : List α) :
    N.valueFrom 0 (s.take k) ≤ N.valueFrom 0 s := by
  calc N.valueFrom 0 (s.take k)
      ≤ N.valueFrom (N.valueFrom 0 (s.take k)) (s.drop k) := le_valueFrom hbase
    _ = N.valueFrom 0 s := by rw [← valueFrom_append, List.take_append_drop]

/-- A number that is cut off keeps its value only if it is zero. -/
theorem valueFrom_take_iff (hbase : 1 < N.base) (k : Nat) (s : List α) :
    N.valueFrom 0 (s.take k) = N.valueFrom 0 s ↔ s.length ≤ k ∨ N.valueFrom 0 s = 0 := by
  by_cases hlong : s.length ≤ k
  · simp [List.take_of_length_le hlong, hlong]
  have hsplit : N.valueFrom 0 s = N.valueFrom 0 (s.take k) * N.base ^ (s.length - k) +
      N.valueFrom 0 (s.drop k) := by
    rw [← List.length_drop, ← valueFrom_eq, ← valueFrom_append, List.take_append_drop]
  have hpow : 2 ≤ N.base ^ (s.length - k) :=
    Nat.le_trans hbase (Nat.le_self_pow (by omega) _)
  have hgrow := Nat.mul_le_mul_left (N.valueFrom 0 (s.take k)) hpow
  constructor
  · intro heq
    exact .inr (by omega)
  · intro h
    have hzero := h.resolve_left hlong
    omega

/-- The early end loses nothing: a number is read exactly when its value keeps to the
bound. -/
theorem scan_iff (hbase : 0 < N.base) (hv : v ≤ bound) :
    N.scan bound v s = some (w, rest) ↔
      ∃ ds, s = ds ++ rest ∧ (∀ c ∈ ds, N.isDigit c = true) ∧
        (∀ c ∈ rest.head?, N.isDigit c = false) ∧ w = N.valueFrom v ds ∧ w ≤ bound := by
  induction s generalizing v with
  | nil =>
    simp only [scan, Option.some.injEq, Prod.mk.injEq]
    constructor
    · intro h
      obtain ⟨rfl, rfl⟩ := h
      exact ⟨[], rfl, by simp, by simp, rfl, hv⟩
    · intro h
      obtain ⟨ds, hs, -, -, rfl, -⟩ := h
      obtain ⟨rfl, rfl⟩ := List.append_eq_nil_iff.mp hs.symm
      exact ⟨rfl, rfl⟩
  | cons c cs ih =>
    rw [scan]
    by_cases hc : N.isDigit c = true
    · rw [if_pos hc]
      by_cases hbig : v * N.base + N.val c > bound
      · rw [if_pos hbig]
        simp only [reduceCtorEq, false_iff]
        intro h
        obtain ⟨ds, hs, -, hstop, rfl, hw⟩ := h
        cases ds with
        | nil =>
          obtain rfl : c :: cs = rest := hs
          have hstop := hstop c rfl
          rw [hc] at hstop
          cases hstop
        | cons d ds =>
          obtain ⟨rfl, -⟩ := List.cons.inj hs
          rw [valueFrom_cons] at hw
          exact absurd (Nat.le_trans (le_valueFrom hbase) hw) (Nat.not_le.mpr hbig)
      · rw [if_neg hbig, ih (Nat.le_of_not_lt hbig)]
        constructor
        · intro h
          obtain ⟨ds, rfl, hds, hstop, rfl, hw⟩ := h
          refine ⟨c :: ds, rfl, ?_, hstop, rfl, hw⟩
          intro d hd
          rcases List.mem_cons.mp hd with rfl | hd
          · exact hc
          · exact hds d hd
        · intro h
          obtain ⟨ds, hs, hds, hstop, rfl, hw⟩ := h
          cases ds with
          | nil =>
            obtain rfl : c :: cs = rest := hs
            have hstop := hstop c rfl
            rw [hc] at hstop
            cases hstop
          | cons d ds =>
            obtain ⟨rfl, rfl⟩ := List.cons.inj hs
            exact ⟨ds, rfl, fun e he => hds e (List.mem_cons_of_mem _ he), hstop, rfl, hw⟩
    · rw [if_neg hc]
      simp only [Option.some.injEq, Prod.mk.injEq]
      constructor
      · intro h
        obtain ⟨rfl, rfl⟩ := h
        exact ⟨[], rfl, by simp, by simpa using hc, rfl, hv⟩
      · intro h
        obtain ⟨ds, hs, hds, -, rfl, -⟩ := h
        cases ds with
        | nil => exact ⟨rfl, hs⟩
        | cons d ds =>
          obtain ⟨rfl, -⟩ := List.cons.inj hs
          exact absurd (hds c List.mem_cons_self) hc

theorem valueFrom_map {sym : Nat → α} (hsym : ∀ d < N.base, N.val (sym d) = d) {ds : List Nat}
    (hds : ∀ d ∈ ds, d < N.base) :
    N.valueFrom 0 (ds.reverse.map sym) = Nat.ofDigits N.base ds := by
  induction ds with
  | nil => rfl
  | cons d ds ih =>
    rw [List.reverse_cons, List.map_append, valueFrom_append,
      ih fun e he => hds e (List.mem_cons_of_mem _ he), Nat.ofDigits_cons]
    simp [hsym d (hds d List.mem_cons_self), Nat.mul_comm, Nat.add_comm]

/-- What is written is read back. -/
theorem valueFrom_write {sym : Nat → α} (hbase : 1 < N.base)
    (hsym : ∀ d < N.base, N.val (sym d) = d) (v : Nat) : N.valueFrom 0 (N.write sym v) = v := by
  rw [write]
  split
  · next h => simp [h, hsym 0 (Nat.lt_of_succ_lt hbase)]
  · rw [valueFrom_map hsym fun d hd => Nat.digits_lt_base hbase hd, Nat.ofDigits_digits]

theorem write_ne_nil (sym : Nat → α) (v : Nat) : N.write sym v ≠ [] := by
  rw [write]
  split
  · exact List.cons_ne_nil _ _
  · next h => simpa [Nat.digits_ne_nil_iff_ne_zero] using h

theorem write_isDigit {sym : Nat → α} (hbase : 1 < N.base)
    (hsym : ∀ d < N.base, N.isDigit (sym d) = true) (v : Nat) :
    ∀ c ∈ N.write sym v, N.isDigit c = true := by
  intro c hc
  rw [write] at hc
  split at hc
  · rw [List.mem_singleton.mp hc]
    exact hsym 0 (Nat.lt_of_succ_lt hbase)
  · obtain ⟨d, hd, rfl⟩ := List.mem_map.mp hc
    exact hsym d (Nat.digits_lt_base hbase (List.mem_reverse.mp hd))

end Numerals

end Library.Positional
