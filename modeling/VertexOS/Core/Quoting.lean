import VertexOS.Core.CliLines

namespace VertexOS

/-! `read_arg` and `read_text_arg` with the buffers they write. -/

/-- `out[i++] = *s`, if there is room. -/
def putArgInto (outSize : Nat) (r : Nat × Buf) (c : UInt8) : Nat × Buf :=
  if r.1 + 1 < outSize then appendChar c r else r

/-- The loop of `read_arg`: the index and the buffer, and what is left of the line. -/
def readArgIntoLoop (outSize : Nat) (quote : UInt8) :
    List UInt8 → Nat × Buf → (Nat × Buf) × List UInt8
  | [], r => (r, [])
  | c :: cs, r =>
    if quote ≠ 0 ∧ c = quote then (r, cs)
    else if quote = 0 ∧ c = 32 then (r, c :: cs)
    else
      match cs with
      | d :: ds =>
        if quote ≠ 0 ∧ c = 92 ∧ (d = quote ∨ d = 92) then
          readArgIntoLoop outSize quote ds (putArgInto outSize r d)
        else readArgIntoLoop outSize quote (d :: ds) (putArgInto outSize r c)
      | [] => (putArgInto outSize r c, [])

/-- What `read_arg` and `read_text_arg` leave: the result, the buffer and the cursor. -/
structure ArgRead where
  ok : Bool
  out : Buf
  rest : List UInt8

def readArgInto (args : List UInt8) (out : Buf) (outSize : Nat) : ArgRead :=
  if outSize = 0 then ⟨false, out, args⟩
  else
    match skipSpaces args with
    | [] => ⟨false, Function.update out 0 0, []⟩
    | c :: cs =>
      let r := if c = 34 ∨ c = 39 then readArgIntoLoop outSize c cs (0, out) else
        readArgIntoLoop outSize 0 (c :: cs) (0, out)
      ⟨true, Function.update r.1.2 r.1.1 0, r.2⟩

def readTextArgInto (args : List UInt8) (out : Buf) (outSize : Nat) : ArgRead :=
  if outSize = 0 then ⟨false, out, args⟩
  else
    match skipSpaces args with
    | [] => ⟨false, Function.update out 0 0, []⟩
    | c :: cs =>
      if c = 34 ∨ c = 39 then readArgInto args out outSize
      else
        let text := (c :: cs).take (outSize - 1)
        ⟨text.length > 0, putBytes out 0 (text ++ [0]), (c :: cs).drop text.length⟩

/-- The text with a backslash before each quote and each backslash. -/
def escaped (quote : UInt8) (s : List UInt8) : List UInt8 :=
  s.flatMap fun c => if c = quote ∨ c = 92 then [92, c] else [c]

/-- The buffer is left alone behind its end and holds a terminator, and the cursor is in the
string. -/
structure ReadsInside (args : List UInt8) (out : Buf) (outSize : Nat) (r : ArgRead) : Prop where
  outside : ∀ j, outSize ≤ j → r.out j = out j
  ended : ∃ j < outSize, r.out j = 0
  cursor : r.rest <:+ args

section Reads

variable {outSize : Nat} {quote c : UInt8} {args s text rest : List UInt8} {out : Buf}
  {r : Nat × Buf}

theorem putArgChar_room (h : text.length < outSize) : (putArgChar outSize text c).length < outSize := by
  rw [putArgChar]
  split
  · rwa [List.length_append]
  · exact h

theorem Written.putArg (h : Written out text r) :
    Written out (putArgChar outSize text c) (putArgInto outSize r c) := by
  rw [putArgChar, putArgInto, h.position]
  split
  · exact h.char
  · exact h

/-- The buffer holds what the loop has read. -/
theorem readArgIntoLoop_written (quote : UInt8) (s : List UInt8) (h : Written out text r) (hroom : text.length < outSize) :
    Written out (readArgLoop outSize quote s text).1 (readArgIntoLoop outSize quote s r).1 ∧
    (readArgLoop outSize quote s text).1.length < outSize ∧
    (readArgIntoLoop outSize quote s r).2 = (readArgLoop outSize quote s text).2 := by
  fun_induction readArgLoop outSize quote s text generalizing r with
  | case1 text => exact ⟨h, hroom, rfl⟩
  | case2 c cs text hend =>
    simp only [readArgIntoLoop.eq_def outSize quote (c :: _), if_pos hend]
    exact ⟨h, hroom, trivial⟩
  | case3 c cs text hend hspace =>
    simp only [readArgIntoLoop.eq_def outSize quote (c :: _), if_neg hend, if_pos hspace]
    exact ⟨h, hroom, trivial⟩
  | case4 c text hend hspace d ds hesc ih =>
    simp only [readArgIntoLoop.eq_def outSize quote (c :: _), if_neg hend, if_neg hspace,
      if_pos hesc]
    exact ih h.putArg (putArgChar_room hroom)
  | case5 c text hend hspace d ds hesc ih =>
    simp only [readArgIntoLoop.eq_def outSize quote (c :: _), if_neg hend, if_neg hspace,
      if_neg hesc]
    exact ih h.putArg (putArgChar_room hroom)
  | case6 c text hend hspace =>
    simp only [readArgIntoLoop.eq_def outSize quote (c :: _), if_neg hend, if_neg hspace]
    exact ⟨h.putArg, putArgChar_room hroom, trivial⟩

/-- The loop goes forward in the line. -/
theorem readArgLoop_suffix (outSize : Nat) (quote : UInt8) (s text : List UInt8) :
    (readArgLoop outSize quote s text).2 <:+ s := by
  fun_induction readArgLoop outSize quote s text with
  | case1 text => exact List.suffix_rfl
  | case2 c cs text hend => exact List.suffix_cons c cs
  | case3 c cs text hend hspace => exact List.suffix_rfl
  | case4 c text hend hspace d ds hesc ih =>
    exact (ih.trans (List.suffix_cons d ds)).trans (List.suffix_cons c (d :: ds))
  | case5 c text hend hspace d ds hesc ih => exact ih.trans (List.suffix_cons c (d :: ds))
  | case6 c text hend hspace => exact List.suffix_cons c []

theorem Written.ends (h : Written out text r) (hroom : text.length < outSize) :
    ReadsInside args out outSize ⟨true, Function.update r.2 r.1 0, rest⟩ ↔ rest <:+ args := by
  refine ⟨ReadsInside.cursor, fun hrest => ⟨?_, ⟨r.1, ?_, ?_⟩, hrest⟩⟩
  · intro j hj
    have hne : j ≠ r.1 := by
      rw [h.position]
      omega
    exact (Function.update_of_ne hne _ _).trans (h.rest j (by omega))
  · rwa [h.position]
  · exact Function.update_self _ _ _

theorem skipSpaces_suffix (args : List UInt8) : skipSpaces args <:+ args := List.dropWhile_suffix _

/-- An empty line: the buffer holds the empty string. -/
theorem emptyArg_inside (args : List UInt8) (out : Buf) (hsize : 0 < outSize) :
    ReadsInside args out outSize ⟨false, Function.update out 0 0, []⟩ := by
  refine ⟨?_, ⟨0, hsize, by simp⟩, List.nil_suffix⟩
  intro j hj
  change Function.update out 0 0 j = out j
  exact Function.update_of_ne (by omega) _ _

theorem readArgInto_inside (args : List UInt8) (out : Buf) (hsize : 0 < outSize) :
    ReadsInside args out outSize (readArgInto args out outSize) := by
  have hskip := skipSpaces_suffix args
  rw [readArgInto, if_neg (by omega)]
  split
  · exact emptyArg_inside args out hsize
  · next c cs hcons =>
    rw [hcons] at hskip
    have hstart := Written.start out
    split
    · obtain ⟨hwritten, hroom, hrest⟩ := readArgIntoLoop_written c cs hstart hsize
      refine (hwritten.ends hroom).mpr ?_
      rw [hrest]
      exact ((readArgLoop_suffix _ _ _ _).trans (List.suffix_cons c cs)).trans hskip
    · obtain ⟨hwritten, hroom, hrest⟩ := readArgIntoLoop_written 0 (c :: cs) hstart hsize
      refine (hwritten.ends hroom).mpr ?_
      rw [hrest]
      exact (readArgLoop_suffix _ _ _ _).trans hskip

theorem readTextArgInto_inside (args : List UInt8) (out : Buf) (hsize : 0 < outSize) :
    ReadsInside args out outSize (readTextArgInto args out outSize) := by
  have hskip := skipSpaces_suffix args
  rw [readTextArgInto, if_neg (by omega)]
  split
  · exact emptyArg_inside args out hsize
  · next c cs hcons =>
    rw [hcons] at hskip
    split
    · exact readArgInto_inside args out hsize
    · have hlen : ((c :: cs).take (outSize - 1)).length < outSize :=
        Nat.lt_of_le_of_lt (List.length_take_le _ _) (by omega)
      refine ⟨?_, ⟨_, hlen, ?_⟩, (List.drop_suffix _ _).trans hskip⟩
      · intro j hj
        simp only [putBytes, memCopyAt]
        rw [if_neg (by simp; omega)]
      · simp [putBytes, memCopyAt, bufOf]

theorem skipSpaces_replicate (n : Nat) (hc : c ≠ 32) :
    skipSpaces (List.replicate n 32 ++ c :: s) = c :: s := by
  induction n with
  | zero => simp [skipSpaces, hc]
  | succ n ih =>
    rw [List.replicate_succ, List.cons_append, skipSpaces, List.dropWhile_cons_of_pos (by simp)]
    exact ih

theorem putArgChar_fits (h : text.length + 1 < outSize) : putArgChar outSize text c = text ++ [c] :=
  if_pos h

/-- The escapes are undone, and the closing quote ends the argument. -/
theorem readArgLoop_escaped (hquote : quote ≠ 0) (hback : quote ≠ 92) (s rest text : List UInt8)
    (hroom : text.length + s.length < outSize) :
    readArgLoop outSize quote (escaped quote s ++ quote :: rest) text = (text ++ s, rest) := by
  induction s generalizing text with
  | nil =>
    rw [escaped, List.flatMap_nil, List.nil_append, readArgLoop.eq_def]
    simp [hquote]
  | cons c cs ih =>
    rw [List.length_cons] at hroom
    have hput : putArgChar outSize text c = text ++ [c] := putArgChar_fits (by omega)
    have hnext := ih (text ++ [c]) (by simp; omega)
    rw [List.append_assoc, List.singleton_append] at hnext
    rw [escaped, List.flatMap_cons, ← escaped, List.append_assoc]
    by_cases hesc : c = quote ∨ c = 92
    · rw [if_pos hesc, readArgLoop.eq_def]
      simp only [List.cons_append, List.nil_append, hquote, ne_eq, not_false_eq_true, true_and,
        false_and, Ne.symm hback, hesc, ↓reduceIte, hput]
      exact hnext
    · obtain ⟨hnq, hnb⟩ := not_or.mp hesc
      rw [if_neg hesc, List.singleton_append]
      cases htail : escaped quote cs ++ quote :: rest with
      | nil => simp at htail
      | cons d ds =>
        rw [htail] at hnext
        rw [readArgLoop.eq_def]
        simp only [hquote, ne_eq, not_false_eq_true, true_and, false_and, hnq, hnb, ↓reduceIte, hput]
        exact hnext

/-- A quoted and escaped string is read back, and the cursor is behind its closing quote. -/
theorem readArgInto_quoted (n : Nat) (rest : List UInt8) (out : Buf)
    (hq : quote = 34 ∨ quote = 39) (hs : 0 ∉ s) (hfits : s.length < outSize) :
    ∃ out', readArgInto (List.replicate n 32 ++ quote :: escaped quote s ++ quote :: rest) out
      outSize = ⟨true, out', rest⟩ ∧ IsText out' s := by
  obtain ⟨hspace, hzero, hback⟩ : quote ≠ 32 ∧ quote ≠ 0 ∧ quote ≠ 92 := by
    rcases hq with rfl | rfl <;> decide
  have hloop := readArgLoop_escaped hzero hback s rest [] (by simpa using hfits)
  obtain ⟨hwritten, -, hrest⟩ :=
    readArgIntoLoop_written quote (escaped quote s ++ quote :: rest) (Written.start out)
      (Nat.zero_lt_of_lt hfits)
  rw [hloop, List.nil_append] at hwritten
  rw [hloop] at hrest
  rw [readArgInto, if_neg (by omega), List.append_assoc, List.cons_append,
    skipSpaces_replicate n hspace]
  simp only [if_pos hq, hrest]
  refine ⟨_, rfl, ?_⟩
  rw [hwritten.position]
  exact isText_terminate hwritten.bytes hs

/-- `readArg` is what the buffer and the cursor of `read_arg` hold. -/
theorem readArgInto_readArg (args : List UInt8) (out : Buf) (hsize : 0 < outSize) :
    (readArgInto args out outSize).rest = (readArg args outSize).2 ∧
    (readArgInto args out outSize).ok = (readArg args outSize).1.isSome ∧
    ∀ t ∈ (readArg args outSize).1, 0 ∉ t → IsText (readArgInto args out outSize).out t := by
  have hstart := Written.start out
  rw [readArgInto, readArg, if_neg (by omega), if_neg (by omega)]
  cases skipSpaces args with
  | nil => simp
  | cons c cs =>
    by_cases hquote : c = 34 ∨ c = 39
    · obtain ⟨hwritten, -, hrest⟩ := readArgIntoLoop_written c cs hstart hsize
      simp only [if_pos hquote]
      refine ⟨hrest, rfl, ?_⟩
      intro t ht hplain
      cases ht
      rw [hwritten.position]
      exact isText_terminate hwritten.bytes hplain
    · obtain ⟨hwritten, -, hrest⟩ := readArgIntoLoop_written 0 (c :: cs) hstart hsize
      simp only [if_neg hquote]
      refine ⟨hrest, rfl, ?_⟩
      intro t ht hplain
      cases ht
      rw [hwritten.position]
      exact isText_terminate hwritten.bytes hplain

end Reads

/-- Quoting loses nothing, and the readers keep to their buffer and to the line. -/
theorem quoting_lossless :
    (∀ (quote : UInt8) (s rest : List UInt8) (n outSize : Nat) (out : Buf),
      quote = 34 ∨ quote = 39 → 0 ∉ s → s.length < outSize →
      ∃ out', readArgInto (List.replicate n 32 ++ quote :: escaped quote s ++ quote :: rest) out
        outSize = ⟨true, out', rest⟩ ∧ IsText out' s) ∧
    ∀ (args : List UInt8) (out : Buf) (outSize : Nat), 0 < outSize →
      ReadsInside args out outSize (readArgInto args out outSize) ∧
      ReadsInside args out outSize (readTextArgInto args out outSize) := by
  constructor
  · intro quote s rest n outSize out hq hs hfits
    exact readArgInto_quoted n rest out hq hs hfits
  · intro args out outSize hsize
    exact ⟨readArgInto_inside args out hsize, readTextArgInto_inside args out hsize⟩

end VertexOS
