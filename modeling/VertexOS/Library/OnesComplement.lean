import Mathlib

namespace Library.OnesComplement

/-- The words of a message, two digits each; the last digit of an odd one is followed by a zero. -/
def pairSum (base : Nat) : List Nat → Nat
  | [] => 0
  | [a] => a * base
  | a :: b :: l => a * base + b + pairSum base l

section Pairs

variable {base : Nat} {l k : List Nat} {c d : Nat}

theorem pairSum_append (h : l.length % 2 = 0) :
    pairSum base (l ++ k) = pairSum base l + pairSum base k := by
  induction l using pairSum.induct with
  | case1 => simp [pairSum]
  | case2 a => simp at h
  | case3 a b l ih =>
    have hl : l.length % 2 = 0 := by simpa [Nat.add_mod_right, Nat.add_assoc] using h
    simp [pairSum, ih hl, Nat.add_assoc]

/-- The sum of at most so many words. -/
theorem pairSum_le (h : ∀ a ∈ l, a < base) : pairSum base l ≤ (l.length + 1) / 2 * (base * base - 1) := by
  induction l using pairSum.induct with
  | case1 => simp [pairSum]
  | case2 a =>
    have ha : a + 1 ≤ base := h a (by simp)
    have hmul := Nat.mul_le_mul_right base ha
    have hbase : 0 < base := by omega
    simp [pairSum]
    rw [Nat.add_mul] at hmul
    omega
  | case3 a b l ih =>
    have ha : a + 1 ≤ base := h a (by simp)
    have hb : b < base := h b (by simp)
    have hmul := Nat.mul_le_mul_right base ha
    have htail := ih fun x hx => h x (by simp [hx])
    have hlen : ((a :: b :: l).length + 1) / 2 = (l.length + 1) / 2 + 1 := by
      simp only [List.length_cons]
      omega
    rw [hlen, Nat.add_mul, pairSum]
    rw [Nat.add_mul] at hmul
    omega

end Pairs

/-- A sum after its carries have been added back in, for words up to `m`: both zeros are
kept apart. -/
def endAround (m s : Nat) : Nat := if s = 0 then 0 else (s - 1) % m + 1

section Carries

variable {m s k : Nat}

/-- A word has no carry. -/
theorem endAround_word (h : s ≤ m) : endAround m s = s := by
  rw [endAround]
  split
  · next h0 => exact h0.symm
  · next h0 =>
    rw [Nat.mod_eq_of_lt (by omega)]
    omega

theorem endAround_add_mul (h : 0 < s) : endAround m (s + m * k) = endAround m s := by
  have hsub : s + m * k - 1 = s - 1 + m * k := by omega
  rw [endAround, endAround, if_neg (by omega), if_neg (by omega), hsub, Nat.add_mul_mod_self_left]

/-- A round of carries changes nothing. -/
theorem endAround_round : endAround m (s % (m + 1) + s / (m + 1)) = endAround m s := by
  have hs := Nat.mod_add_div s (m + 1)
  rcases Nat.eq_zero_or_pos (s % (m + 1) + s / (m + 1)) with h0 | hpos
  · obtain ⟨hmod, hdiv⟩ := Nat.add_eq_zero_iff.mp h0
    rw [hmod, hdiv] at hs
    rw [h0, ← hs]
    simp
  · have hsplit : s = s % (m + 1) + s / (m + 1) + m * (s / (m + 1)) := by
      rw [Nat.add_mul, Nat.one_mul] at hs
      omega
    conv_rhs => rw [hsplit]
    exact (endAround_add_mul hpos).symm

/-- A sum and its complement make the sum of all ones. -/
theorem endAround_complement (hm : 0 < m) : endAround m (s + (m - endAround m s)) = m := by
  rcases Nat.eq_zero_or_pos s with rfl | hpos
  · simp [endAround_word (Nat.le_refl m), endAround_word (Nat.zero_le m)]
  · have hdiv := Nat.mod_add_div (s - 1) m
    have hlt := Nat.mod_lt (s - 1) hm
    have hsum : s + (m - endAround m s) = m + m * ((s - 1) / m) := by
      rw [endAround, if_neg (by omega)]
      omega
    rw [hsum, endAround_add_mul hm, endAround_word (Nat.le_refl m)]

end Carries

end Library.OnesComplement
