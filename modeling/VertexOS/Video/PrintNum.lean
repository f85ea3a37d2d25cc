import VertexOS.Fs.Names
import VertexOS.Library.Positional
import VertexOS.Video.Events

namespace VertexOS
open Display Library.Positional

/-- The character that `display_print_num` writes for a digit. -/
def printedDigit (digit : UInt32) : UInt8 :=
  if digit < 10 then (48 + digit).toUInt8 else (97 + (digit - 10)).toUInt8

/-- The loop of `display_print_num` with `p` characters of the buffer in front of the digits; a
write in front of the buffer stops it for good. -/
def printDigits (base : UInt32) : Nat → UInt32 → Buf → Except Fault (Nat × Buf)
  | 0, num, buffer => if num > 0 then .error .outOfBounds else .ok (0, buffer)
  | p + 1, num, buffer =>
    if num > 0 then
      printDigits base p (num / base) (Function.update buffer p (printedDigit (num % base)))
    else .ok (p + 1, buffer)

/-- `buffer` is what the stack holds; the base is not 0. -/
def Display.displayPrintNum (d : Display) (buffer : Buf) (num base : UInt32) :
    Except Fault Display :=
  let buffer := Function.update buffer 31 0
  if num = 0 then .ok (d.displayPutChar 48)
  else do
    let (p, buffer) ← printDigits base 31 num buffer
    return d.displayPrint (bytesAt buffer p (32 - p))

/-- The ten digits and then the lowercase letters, for the bases up to 36. -/
def digitSymbols : List UInt8 := ascii "0123456789abcdefghijklmnopqrstuvwxyz"

def digitSymbol (digit : Nat) : UInt8 := digitSymbols.getD digit 0

/-- The numerals of a base. -/
def numeralsOf (base : Nat) : Numerals UInt8 where
  base
  isDigit c := c ∈ digitSymbols.take base
  val c := digitSymbols.idxOf c

/-- A number is written with its digits in the base, the most significant one first. -/
def numeral (base num : Nat) : List UInt8 := (numeralsOf base).write digitSymbol num

/-- The characters are put on the screen one after another. -/
def Display.printed (d : Display) (text : List UInt8) : Display :=
  (text.foldl displayPutCharInternal d).displayRequestRefresh

section Digits

variable {base num : UInt32} {p : Nat} {b : Buf} {text : List UInt8}

theorem printedDigit_symbol {digit : UInt32} (h : digit.toNat < 36) :
    printedDigit digit = digitSymbol digit.toNat := by
  have hall : ∀ k < 36, printedDigit (UInt32.ofNat k) = digitSymbol k := by decide +kernel
  simpa using hall digit.toNat h

theorem digitSymbol_ne_zero {k : Nat} (h : k < 36) : digitSymbol k ≠ 0 := by
  have hall : ∀ k < 36, digitSymbol k ≠ 0 := by decide +kernel
  exact hall k h

theorem digitSymbol_val {k : Nat} (h : k < 36) : digitSymbols.idxOf (digitSymbol k) = k := by
  have hall : ∀ k < 36, digitSymbols.idxOf (digitSymbol k) = k := by decide +kernel
  exact hall k h

/-- The text says the number. -/
theorem numeral_value (hlow : 1 < base.toNat) (hhigh : base.toNat ≤ 36) (v : Nat) :
    (numeralsOf base.toNat).valueFrom 0 (numeral base.toNat v) = v := by
  apply Numerals.valueFrom_write hlow
  intro d hd
  exact digitSymbol_val (Nat.lt_of_lt_of_le hd hhigh)

theorem digits_step (hlow : 1 < base.toNat) (hnum : num > 0) :
    Nat.digits base.toNat num.toNat =
      (num % base).toNat :: Nat.digits base.toNat (num / base).toNat := by
  rw [Nat.digits_def' hlow (UInt32.lt_iff_toNat_lt.mp hnum), UInt32.toNat_mod, UInt32.toNat_div]

/-- The loop ends in front of the digits, where they fit. -/
theorem printDigits_fits (hlow : 1 < base.toNat) (hhigh : base.toNat ≤ 36)
    (hfits : (Nat.digits base.toNat num.toNat).length ≤ p) :
    ∃ b', printDigits base p num b = .ok (p - (Nat.digits base.toNat num.toNat).length, b') ∧
      bytesAt b' (p - (Nat.digits base.toNat num.toNat).length)
        (Nat.digits base.toNat num.toNat).length =
        (Nat.digits base.toNat num.toNat).reverse.map digitSymbol ∧
      ∀ j, p ≤ j → b' j = b j := by
  induction p generalizing num b with
  | zero =>
    have hnil := List.length_eq_zero_iff.mp (Nat.le_zero.mp hfits)
    have hzero : ¬num > 0 := by
      intro hnum
      simp [digits_step hlow hnum] at hnil
    exact ⟨b, by simp [printDigits, hzero, hnil], by simp [hnil, bytesAt], fun _ _ => rfl⟩
  | succ p ih =>
    by_cases hnum : num > 0
    · have hdigits := digits_step hlow hnum
      have hlt : (num % base).toNat < base.toNat := by
        rw [UInt32.toNat_mod]
        exact Nat.mod_lt _ (Nat.lt_of_succ_lt hlow)
      simp only [hdigits, List.length_cons, Nat.add_le_add_iff_right] at hfits
      obtain ⟨b', hrun, hbytes, hrest⟩ :=
        @ih (num / base) (Function.update b p (printedDigit (num % base))) hfits
      have hlast : b' p = digitSymbol (num % base).toNat := by
        rw [hrest p (Nat.le_refl p), Function.update_self,
          printedDigit_symbol (Nat.lt_of_lt_of_le hlt hhigh)]
      refine ⟨b', ?_, ?_, ?_⟩
      · rw [printDigits, if_pos hnum, hrun, hdigits, List.length_cons, Nat.succ_sub_succ]
      · rw [hdigits, List.length_cons, Nat.succ_sub_succ, bytesAt_add, hbytes,
          Nat.sub_add_cancel hfits, List.reverse_cons, List.map_append, List.map_singleton,
          ← hlast]
        simp [bytesAt]
      · intro j hj
        rw [hrest j (Nat.le_of_succ_le hj), Function.update_of_ne (Nat.ne_of_gt hj)]
    · have hzero : num.toNat = 0 := Nat.le_zero.mp (Nat.not_lt.mp fun h => hnum h)
      exact ⟨b, by simp [printDigits, hnum, hzero], by simp [hzero, bytesAt], fun _ _ => rfl⟩

/-- Digits that do not fit are written in front of the buffer. -/
theorem printDigits_overflows (hlow : 1 < base.toNat)
    (hlong : p < (Nat.digits base.toNat num.toNat).length) :
    printDigits base p num b = .error .outOfBounds := by
  have hnum : num > 0 := by
    rw [gt_iff_lt, UInt32.lt_iff_toNat_lt]
    apply Nat.pos_of_ne_zero
    intro hzero
    simp [hzero] at hlong
  induction p generalizing num b with
  | zero => rw [printDigits, if_pos hnum]
  | succ p ih =>
    rw [digits_step hlow hnum, List.length_cons, Nat.succ_lt_succ_iff] at hlong
    have hnext : num / base > 0 := by
      rw [gt_iff_lt, UInt32.lt_iff_toNat_lt]
      apply Nat.pos_of_ne_zero
      intro hzero
      simp [hzero] at hlong
    rw [printDigits, if_pos hnum]
    exact ih hlong hnext

/-- Only in base 2 has a number of 32 bits more than 31 digits. -/
theorem digits_fit_iff (hlow : 1 < base.toNat) :
    (Nat.digits base.toNat num.toNat).length ≤ 31 ↔ ¬(base = 2 ∧ 2147483648 ≤ num) := by
  rw [Nat.digits_length_le_iff hlow]
  have hnum := num.toNat_lt
  by_cases htwo : base = 2
  · subst htwo
    simp [UInt32.le_iff_toNat_le]
  · have hbase : 3 ≤ base.toNat := by
      have hne : base.toNat ≠ 2 := fun h => htwo (UInt32.toNat_inj.mp h)
      omega
    have hpow : 3 ^ 31 ≤ base.toNat ^ 31 := Nat.pow_le_pow_left hbase 31
    simp only [htwo, false_and, not_false_eq_true, iff_true]
    omega

theorem print_printed (d : Display) (hne : text ≠ []) (hnul : 0 ∉ text) :
    d.displayPrint (text ++ [0]) = d.printed text := by
  have hcut : cString (text ++ [0]) = text := cString_eq _ _ (List.prefix_refl _) hnul
  rw [displayPrint, hcut]
  simp [printed, hne]

theorem numeral_clean (hlow : 1 < base.toNat) (hhigh : base.toNat ≤ 36) (v : Nat) :
    0 ∉ numeral base.toNat v := by
  intro hmem
  rw [numeral, Numerals.write] at hmem
  split at hmem
  · exact absurd (List.mem_singleton.mp hmem) (digitSymbol_ne_zero (by decide)).symm
  · obtain ⟨k, hk, hzero⟩ := List.mem_map.mp hmem
    have hlt : k < base.toNat := Nat.digits_lt_base hlow (List.mem_reverse.mp hk)
    exact digitSymbol_ne_zero (Nat.lt_of_lt_of_le hlt hhigh) hzero

end Digits

/-- In the bases from 2 to 36 the number's digits are printed inside the buffer, except for the
numbers that have 32 of them. -/
theorem print_num_exact_iff (num base : UInt32) (hlow : 2 ≤ base) (hhigh : base ≤ 36)
    (d : Display) (buffer : Buf) :
    d.displayPrintNum buffer num base = .ok (d.printed (numeral base.toNat num.toNat)) ↔
      ¬(base = 2 ∧ 2147483648 ≤ num) := by
  have hlow : 1 < base.toNat := UInt32.le_iff_toNat_le.mp hlow
  have hhigh : base.toNat ≤ 36 := UInt32.le_iff_toNat_le.mp hhigh
  rw [← digits_fit_iff hlow]
  by_cases hzero : num = 0
  · subst hzero
    simp [displayPrintNum, numeral, Numerals.write, printed, digitSymbol, digitSymbols]
    rfl
  have hnum : num.toNat ≠ 0 := fun h => hzero (UInt32.toNat_inj.mp h)
  by_cases hfits : (Nat.digits base.toNat num.toNat).length ≤ 31
  · obtain ⟨b, hrun, hbytes, hrest⟩ :=
      printDigits_fits (b := Function.update buffer 31 0) hlow hhigh hfits
    simp only [hfits, iff_true]
    have htext : numeral base.toNat num.toNat =
        (Nat.digits base.toNat num.toNat).reverse.map digitSymbol := by
      rw [numeral, Numerals.write, if_neg hnum]
      rfl
    have hsplit : 32 - (31 - (Nat.digits base.toNat num.toNat).length) =
        (Nat.digits base.toNat num.toNat).length + 1 := by omega
    have hend : 31 - (Nat.digits base.toNat num.toNat).length +
        (Nat.digits base.toNat num.toNat).length = 31 := Nat.sub_add_cancel hfits
    have hnul : bytesAt b 31 1 = [0] := by
      simp [bytesAt, hrest 31 (Nat.le_refl 31)]
    have hne : numeral base.toNat num.toNat ≠ [] := Numerals.write_ne_nil _ _
    rw [displayPrintNum, if_neg hzero, hrun]
    simp only [bind, Except.bind, pure, Except.pure]
    rw [hsplit, bytesAt_add, hbytes, hend, hnul, ← htext,
      print_printed d hne (numeral_clean hlow hhigh _)]
  · have hrun :=
      printDigits_overflows (b := Function.update buffer 31 0) hlow (Nat.not_le.mp hfits)
    simp only [hfits, iff_false]
    rw [displayPrintNum, if_neg hzero, hrun]
    intro h
    cases h

/-- The display in text mode, before anything is printed. -/
def textDisplay : Display :=
  bootDisplay ⟨fbDefaults .res320x200, fun _ => 0, some fun _ => 0, none⟩
    Scheduler.schedulerInit false

/-- A byte in base 16. -/
theorem print_num_exact_hex :
    textDisplay.displayPrintNum (fun _ => 0) 255 16 = .ok (textDisplay.printed [102, 102]) := by
  have hnumeral : numeral 16 255 = [102, 102] := by
    have hsymbol : digitSymbol 15 = 102 := by decide +kernel
    simp [numeral, Numerals.write, numeralsOf, hsymbol]
  have hexact := (print_num_exact_iff 255 16 (by decide) (by decide) textDisplay fun _ => 0).mpr
    (by decide)
  exact hexact.trans (congrArg (fun text => Except.ok (textDisplay.printed text)) hnumeral)

/-- The 32nd binary digit is written in front of the buffer. -/
theorem print_num_overflows :
    textDisplay.displayPrintNum (fun _ => 0) 2147483648 2 = .error .outOfBounds := by
  have hlong : 31 < (Nat.digits (2 : UInt32).toNat (2147483648 : UInt32).toNat).length :=
    (Nat.lt_digits_length_iff (by decide) _).mpr (by decide)
  rw [displayPrintNum, if_neg (by decide), printDigits_overflows (by decide) hlong]
  rfl

end VertexOS
