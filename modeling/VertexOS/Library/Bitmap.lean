import Mathlib

namespace Library.Bitmap

/-- Flags packed eight to a byte. -/
abbrev Bits := Nat → UInt8

/-- The byte with only bit `k` set. -/
def maskOf (k : Nat) : UInt8 := 1 <<< UInt8.ofNat k

def setBit (m : Bits) (i : Nat) : Bits := Function.update m (i / 8) (m (i / 8) ||| maskOf (i % 8))

def clearBit (m : Bits) (i : Nat) : Bits :=
  Function.update m (i / 8) (m (i / 8) &&& ~~~maskOf (i % 8))

def testBit (m : Bits) (i : Nat) : Bool := (m (i / 8) >>> UInt8.ofNat (i % 8)) &&& 1 != 0

theorem shift_and_one (b k : UInt8) (hk : k.toNat < 8) :
    ((b >>> k) &&& 1 != 0) = b.toNat.testBit k.toNat := by
  have h : ((b >>> k) &&& 1).toNat = (b.toNat >>> k.toNat) % 2 := by
    rw [UInt8.toNat_and, UInt8.toNat_shiftRight, Nat.mod_eq_of_lt hk]
    exact Nat.and_one_is_mod _
  rw [Nat.testBit_eq_decide_div_mod_eq, Nat.shiftRight_eq_div_pow] at *
  rw [Bool.eq_iff_iff, bne_iff_ne, decide_eq_true_eq, ne_eq, ← UInt8.toNat_inj, h]
  simp only [UInt8.toNat_zero]
  omega

theorem testBit_eq (m : Bits) (i : Nat) : testBit m i = (m (i / 8)).toNat.testBit (i % 8) := by
  have hk : (UInt8.ofNat (i % 8)).toNat = i % 8 := by
    rw [UInt8.toNat_ofNat']
    omega
  rw [testBit, shift_and_one _ _ (by omega), hk]

theorem mask_testBit : ∀ k j : Fin 8, (maskOf k).toNat.testBit j = decide (j = k) := by
  decide

theorem compl_testBit : ∀ k j : Fin 8, (~~~maskOf k).toNat.testBit j = decide (j ≠ k) := by
  decide

theorem eq_of_split {i j : Nat} (hq : i / 8 = j / 8) : i % 8 = j % 8 ↔ i = j := by
  omega

theorem testBit_setBit (m : Bits) (i j : Nat) :
    testBit (setBit m i) j = (decide (j = i) || testBit m j) := by
  rw [testBit_eq, testBit_eq]
  by_cases hq : j / 8 = i / 8
  · have hb := mask_testBit ⟨i % 8, Nat.mod_lt _ (by decide)⟩ ⟨j % 8, Nat.mod_lt _ (by decide)⟩
    simp only [Fin.mk.injEq, eq_of_split hq] at hb
    simp only [setBit, hq, Function.update_self, UInt8.toNat_or, Nat.testBit_or, hb]
    exact Bool.or_comm _ _
  · have hne : j ≠ i := by
      intro h
      exact hq (by rw [h])
    simp [setBit, Function.update_of_ne hq, hne]

theorem testBit_clearBit (m : Bits) (i j : Nat) :
    testBit (clearBit m i) j = (decide (j ≠ i) && testBit m j) := by
  rw [testBit_eq, testBit_eq]
  by_cases hq : j / 8 = i / 8
  · have hb := compl_testBit ⟨i % 8, Nat.mod_lt _ (by decide)⟩ ⟨j % 8, Nat.mod_lt _ (by decide)⟩
    simp only [ne_eq, Fin.mk.injEq, eq_of_split hq] at hb
    simp only [clearBit, hq, Function.update_self, UInt8.toNat_and, Nat.testBit_and, hb, ne_eq]
    exact Bool.and_comm _ _
  · have hne : j ≠ i := by
      intro h
      exact hq (by rw [h])
    simp [clearBit, Function.update_of_ne hq, hne]

/-- The numbers below `n` whose bit is clear. -/
def clearBelow (n : Nat) (m : Bits) : Finset Nat :=
  (Finset.range n).filter fun i => testBit m i = false

@[simp] theorem mem_clearBelow {n : Nat} {m : Bits} {i : Nat} :
    i ∈ clearBelow n m ↔ i < n ∧ testBit m i = false := by
  simp [clearBelow]

theorem clearBelow_setBit (n : Nat) (m : Bits) (i : Nat) :
    clearBelow n (setBit m i) = (clearBelow n m).erase i := by
  ext j
  simp only [mem_clearBelow, testBit_setBit, Finset.mem_erase, Bool.or_eq_false_iff,
    decide_eq_false_iff_not, ne_eq]
  tauto

theorem clearBelow_clearBit {n i : Nat} (m : Bits) (hi : i < n) :
    clearBelow n (clearBit m i) = insert i (clearBelow n m) := by
  ext j
  by_cases h : j = i
  · subst h
    simp [testBit_clearBit, hi]
  · simp [testBit_clearBit, h]

theorem clearBelow_card_le (n : Nat) (m : Bits) : (clearBelow n m).card ≤ n := by
  have h := Finset.card_filter_le (Finset.range n) fun i => testBit m i = false
  rw [Finset.card_range] at h
  exact h

end Library.Bitmap
