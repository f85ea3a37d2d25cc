import VertexOS.Core.CliLines

namespace VertexOS

def editMaxBytes : Nat := 8192
def editPathMax : Nat := 64
def editStatusMax : Nat := 80
def editTabSpaces : Nat := 4

/-- `editor_state`; the path and the status are the strings in their arrays. -/
structure EditorState where
  path : List UInt8
  buf : Buf
  len : Nat
  cursor : Nat
  topLine : Nat
  preferredCol : Nat
  keepPreferredCol : Bool
  dirty : Bool
  status : List UInt8
  firstDraw : Bool
  prevCursorLine : Nat
  prevTopLine : Nat
  prevTotalLines : Nat

/-- `str_copy`: the string that is in `dst` afterwards. -/
def strCopy (src : List UInt8) (max : Nat) : List UInt8 := (src.takeWhile (· ≠ 0)).take (max - 1)

/-- The loop of `line_start_for_pos`. -/
def lineStart (b : Buf) : Nat → Nat
  | 0 => 0
  | pos + 1 => if b pos ≠ 10 then lineStart b pos else pos + 1

namespace EditorState

def statusSet (e : EditorState) (msg : String) : EditorState :=
  { e with status := strCopy (ascii msg) editStatusMax }

def lineStartForPos (e : EditorState) (pos : Nat) : Nat :=
  lineStart e.buf (if pos > e.len then e.len else pos)

def insertAtCursor (e : EditorState) (c : UInt8) : Bool × EditorState :=
  if e.len ≥ editMaxBytes then (false, e.statusSet "editor: file limit reached (8 KiB)")
  else
    let b := Function.update (openGap e.buf e.cursor (e.len - e.cursor)) e.cursor c
    (true, { e with
      buf := Function.update b (e.len + 1) 0
      cursor := e.cursor + 1
      len := e.len + 1
      dirty := true })

def insertSpaces (e : EditorState) : Nat → EditorState
  | 0 => e
  | n + 1 =>
    let r := e.insertAtCursor 32
    if r.1 then r.2.insertSpaces n else r.2

/-- The loop of `insert_newline_with_indent`; `none` is a loop that has not ended. -/
def indentLoop : Nat → EditorState → Nat → Option EditorState
  | 0, _, _ => none
  | fuel + 1, e, i =>
    if i < e.len ∧ e.buf i ≠ 10 then
      if e.buf i = 32 then
        let r := e.insertAtCursor 32
        if r.1 then indentLoop fuel r.2 (i + 1) else some r.2
      else if e.buf i = 9 then indentLoop fuel (e.insertSpaces editTabSpaces) (i + 1)
      else some e
    else some e

def insertNewlineWithIndent (fuel : Nat) (e : EditorState) : Option EditorState :=
  let r := e.insertAtCursor 10
  if r.1 then indentLoop fuel r.2 (r.2.lineStartForPos (r.2.cursor - 1)) else some r.2

end EditorState

/-- The buffer holds the text, with the cursor between the two parts. -/
structure EditorHolds (e : EditorState) (before after : List UInt8) : Prop where
  text : bytesAt e.buf 0 e.len = before ++ after
  cursor : e.cursor = before.length
  fits : e.len ≤ editMaxBytes
  ended : e.buf e.len = 0

/-- What is in the buffer of the line that the cursor is on. -/
def lastLine (before : List UInt8) : List UInt8 := before.rtakeWhile (· ≠ 10)

/-- The spaces that a character of the indentation is replaced by. -/
def expandTab (c : UInt8) : List UInt8 := if c = 9 then List.replicate editTabSpaces 32 else [c]

/-- The indentation at the start of a line, without tabs. -/
def indentOf (line : List UInt8) : List UInt8 :=
  (line.takeWhile fun c => c = 32 ∨ c = 9).flatMap expandTab

section Text

variable {e : EditorState} {before after head rest done : List UInt8} {c : UInt8}

theorem EditorHolds.len (h : EditorHolds e before after) :
    e.len = before.length + after.length := by
  rw [← List.length_append, ← h.text, bytesAt_length]

theorem EditorHolds.status (h : EditorHolds e before after) (msg : String) :
    EditorHolds (e.statusSet msg) before after := ⟨h.text, h.cursor, h.fits, h.ended⟩

theorem insertIdx_length (xs ys : List UInt8) (c : UInt8) :
    (xs ++ ys).insertIdx xs.length c = xs ++ c :: ys := by
  induction xs with
  | nil => rfl
  | cons x xs ih => simpa using ih

/-- A character of the text, read from the buffer. -/
theorem EditorHolds.getElem (h : EditorHolds e (head ++ c :: rest) after) :
    head.length < e.len ∧ e.buf head.length = c := by
  have hlen := h.len
  rw [List.length_append, List.length_cons] at hlen
  have hlt : head.length < e.len := by omega
  have hread := bytesAt_getElem e.buf e.len head.length (by rwa [bytesAt_length])
  simp only [h.text] at hread
  refine ⟨hlt, hread.symm.trans ?_⟩
  simp

theorem EditorHolds.front (h : EditorHolds e (head ++ rest) after) :
    bytesAt e.buf 0 head.length = head := by
  have htext := h.text
  have hlen := h.len
  rw [List.length_append, Nat.add_assoc] at hlen
  rw [hlen, bytesAt_add, List.append_assoc] at htext
  exact (List.append_inj htext (bytesAt_length _ _ _)).1

/-- `insert_at_cursor` puts the character in front of the cursor, or the buffer is full. -/
theorem EditorHolds.insert (h : EditorHolds e before after) (c : UInt8) :
    if e.len < editMaxBytes then
      (e.insertAtCursor c).1 = true ∧ (e.insertAtCursor c).2.len = e.len + 1 ∧
        EditorHolds (e.insertAtCursor c).2 (before ++ [c]) after
    else (e.insertAtCursor c).1 = false ∧ EditorHolds (e.insertAtCursor c).2 before after := by
  rw [EditorState.insertAtCursor]
  split
  case isTrue hroom =>
    rw [if_neg (Nat.not_le.mpr hroom)]
    refine ⟨rfl, rfl, ?_⟩
    have hlen := h.len
    have hcursor := h.cursor
    constructor
    case text =>
      refine (bytesAt_congr ?_).trans
        ((bytesAt_openGap e.buf c (i := e.cursor) (by omega)).trans ?_)
      · intro j hj
        change j < e.len + 1 at hj
        exact Function.update_of_ne (by omega) _ _
      · rw [h.text, hcursor, insertIdx_length, List.append_assoc, List.singleton_append]
    case cursor => simp [hcursor]
    case fits => exact hroom
    case ended => simp
  case isFalse hfull =>
    rw [if_pos (Nat.not_lt.mp hfull)]
    exact ⟨rfl, h.status _⟩

theorem EditorHolds.inserted (h : EditorHolds e before after) (c : UInt8)
    (hroom : e.len < editMaxBytes) :
    (e.insertAtCursor c).1 = true ∧ (e.insertAtCursor c).2.len = e.len + 1 ∧
      EditorHolds (e.insertAtCursor c).2 (before ++ [c]) after := by
  have hinsert := h.insert c
  rwa [if_pos hroom] at hinsert

theorem EditorHolds.refused (h : EditorHolds e before after) (c : UInt8)
    (hfull : ¬e.len < editMaxBytes) :
    (e.insertAtCursor c).1 = false ∧ EditorHolds (e.insertAtCursor c).2 before after := by
  have hinsert := h.insert c
  rwa [if_neg hfull] at hinsert

/-- As many spaces as there is room for. -/
theorem EditorHolds.spaces (h : EditorHolds e before after) (n : Nat) :
    (e.insertSpaces n).len = e.len + min n (editMaxBytes - e.len) ∧
      EditorHolds (e.insertSpaces n)
        (before ++ List.replicate (min n (editMaxBytes - e.len)) 32) after := by
  induction n generalizing e before with
  | zero => simpa [EditorState.insertSpaces] using h
  | succ n ih =>
    rw [EditorState.insertSpaces]
    by_cases hroom : e.len < editMaxBytes
    · obtain ⟨hok, hlen, hnext⟩ := h.inserted 32 hroom
      obtain ⟨hcount, hspaces⟩ := ih hnext
      have hmin : min (n + 1) (editMaxBytes - e.len) =
          min n (editMaxBytes - (e.insertAtCursor 32).2.len) + 1 := by omega
      rw [if_pos hok, hmin, List.replicate_succ]
      rw [List.append_assoc, List.singleton_append] at hspaces
      exact ⟨by omega, hspaces⟩
    · obtain ⟨hok, hsame⟩ := h.refused 32 hroom
      have hmin : min (n + 1) (editMaxBytes - e.len) = 0 := by omega
      have hlen : (e.insertAtCursor 32).2.len = e.len := by
        rw [hsame.len, h.len]
      rw [hok, hmin, if_neg Bool.false_ne_true]
      simpa [hlen] using hsame

theorem indentOf_cons (c : UInt8) (line : List UInt8) :
    indentOf (c :: line) = if c = 32 ∨ c = 9 then expandTab c ++ indentOf line else [] := by
  by_cases hc : c = 32 ∨ c = 9 <;> simp [indentOf, hc]

/-- The loop goes over what is left of the line in front of the line feed; `done` has been
written behind it. -/
theorem EditorHolds.indents (h : EditorHolds e (head ++ (rest ++ 10 :: done)) after)
    (hline : 10 ∉ rest) :
    ∃ e', (∀ fuel, rest.length < fuel → EditorState.indentLoop fuel e head.length = some e') ∧
      EditorHolds e' (head ++ (rest ++ 10 :: (done ++
        (indentOf rest).take (editMaxBytes - e.len)))) after := by
  induction rest generalizing e head done with
  | nil =>
    obtain ⟨hlt, hread⟩ := EditorHolds.getElem h
    refine ⟨e, ?_, by simpa [indentOf] using h⟩
    intro fuel hfuel
    cases fuel with
    | zero => exact absurd hfuel (Nat.not_lt_zero _)
    | succ fuel => simp [EditorState.indentLoop, hread]
  | cons c rest ih =>
    have hfirst : EditorHolds e (head ++ c :: (rest ++ 10 :: done)) after := h
    obtain ⟨hlt, hread⟩ := hfirst.getElem
    have hc : c ≠ 10 := Ne.symm (List.ne_of_not_mem_cons hline)
    have hrest := List.not_mem_of_not_mem_cons hline
    have hturn : ∀ fuel, EditorState.indentLoop (fuel + 1) e head.length =
        if c = 32 then
          if (e.insertAtCursor 32).1 then
            EditorState.indentLoop fuel (e.insertAtCursor 32).2 (head.length + 1)
          else some (e.insertAtCursor 32).2
        else if c = 9 then
          EditorState.indentLoop fuel (e.insertSpaces editTabSpaces) (head.length + 1)
        else some e := by
      intro fuel
      rw [EditorState.indentLoop, hread, if_pos ⟨hlt, hc⟩]
    have hstep : ∀ {e'' : EditorState} {spaces : List UInt8},
        EditorHolds e'' (head ++ (c :: rest ++ 10 :: done) ++ spaces) after →
        ∃ e', (∀ fuel, rest.length < fuel →
            EditorState.indentLoop fuel e'' (head.length + 1) = some e') ∧
          EditorHolds e' (head ++ (c :: rest ++ 10 :: (done ++ (spaces ++
            (indentOf rest).take (editMaxBytes - e''.len))))) after := by
      intro e'' spaces h''
      have hshift : EditorHolds e'' ((head ++ [c]) ++ (rest ++ 10 :: (done ++ spaces))) after := by
        simpa using h''
      obtain ⟨e', hrun, hholds⟩ := ih hshift hrest
      rw [List.length_append, List.length_singleton] at hrun
      exact ⟨e', hrun, by simpa using hholds⟩
    have hfuels : ∀ {e'' e' : EditorState},
        (∀ fuel, EditorState.indentLoop (fuel + 1) e head.length =
          EditorState.indentLoop fuel e'' (head.length + 1)) →
        (∀ fuel, rest.length < fuel →
          EditorState.indentLoop fuel e'' (head.length + 1) = some e') →
        ∀ fuel, (c :: rest).length < fuel →
          EditorState.indentLoop fuel e head.length = some e' := by
      intro e'' e' hnext hrun fuel hfuel
      cases fuel with
      | zero => exact absurd hfuel (Nat.not_lt_zero _)
      | succ fuel => rw [hnext, hrun fuel (Nat.lt_of_succ_lt_succ hfuel)]
    have hends : ∀ {e' : EditorState},
        (∀ fuel, EditorState.indentLoop (fuel + 1) e head.length = some e') →
        ∀ fuel, (c :: rest).length < fuel →
          EditorState.indentLoop fuel e head.length = some e' := by
      intro e' hend fuel hfuel
      cases fuel with
      | zero => exact absurd hfuel (Nat.not_lt_zero _)
      | succ fuel => exact hend fuel
    by_cases hspace : c = 32
    · subst hspace
      by_cases hroom : e.len < editMaxBytes
      · obtain ⟨hok, hlen, hnext⟩ := h.inserted 32 hroom
        obtain ⟨e', hrun, hholds⟩ := hstep hnext
        refine ⟨e', hfuels (fun fuel => by simp [hturn, hok]) hrun, ?_⟩
        have htake : (indentOf (32 :: rest)).take (editMaxBytes - e.len) =
            [32] ++ (indentOf rest).take (editMaxBytes - (e.insertAtCursor 32).2.len) := by
          rw [indentOf_cons, if_pos (.inl rfl), hlen,
            show editMaxBytes - e.len = editMaxBytes - (e.len + 1) + 1 by omega]
          rfl
        rwa [htake]
      · obtain ⟨hok, hsame⟩ := h.refused 32 hroom
        refine ⟨(e.insertAtCursor 32).2, hends (fun fuel => by simp [hturn, hok]), ?_⟩
        rw [Nat.sub_eq_zero_of_le (Nat.not_lt.mp hroom), List.take_zero, List.append_nil]
        exact hsame
    · by_cases htab : c = 9
      · subst htab
        obtain ⟨hlen, hspaces⟩ := h.spaces editTabSpaces
        obtain ⟨e', hrun, hholds⟩ := hstep hspaces
        refine ⟨e', hfuels (fun fuel => by simp [hturn]) hrun, ?_⟩
        have htake : (indentOf (9 :: rest)).take (editMaxBytes - e.len) =
            List.replicate (min editTabSpaces (editMaxBytes - e.len)) 32 ++
              (indentOf rest).take (editMaxBytes - (e.insertSpaces editTabSpaces).len) := by
          rw [indentOf_cons, if_pos (.inr rfl), expandTab, if_pos rfl, List.take_append,
            List.take_replicate, List.length_replicate, Nat.min_comm, hlen]
          congr 2
          omega
        rwa [htake]
      · refine ⟨e, hends (fun fuel => by simp [hturn, hspace, htab]), ?_⟩
        rw [indentOf_cons, if_neg (not_or.mpr ⟨hspace, htab⟩), List.take_nil, List.append_nil]
        exact h

/-- The line of a position starts behind the last line feed. -/
theorem lineStart_eq (b : Buf) (pos : Nat) :
    lineStart b pos = ((bytesAt b 0 pos).rdropWhile (· ≠ 10)).length := by
  induction pos with
  | zero => rfl
  | succ pos ih =>
    have hsucc : bytesAt b 0 (pos + 1) = bytesAt b 0 pos ++ [b pos] := by
      rw [bytesAt_add, Nat.zero_add]
      simp [bytesAt]
    rw [lineStart, hsucc, List.rdropWhile_concat]
    by_cases hb : b pos = 10
    · simp [hb, bytesAt_length]
    · simp [hb, ih]

theorem lastLine_plain (before : List UInt8) : 10 ∉ lastLine before := by
  intro hmem
  simpa using List.mem_rtakeWhile_imp hmem

end Text

/-- Enter breaks the line at the cursor and indents the new line like the line it is broken
from, as far as there is room; a full buffer keeps its text. -/
theorem newline_indents {e : EditorState} {before after : List UInt8}
    (h : EditorHolds e before after) :
    ∃ e', (∀ fuel, before.length < fuel → e.insertNewlineWithIndent fuel = some e') ∧
      if before.length + after.length < editMaxBytes then
        EditorHolds e' (before ++ 10 :: (indentOf (lastLine before)).take
          (editMaxBytes - (before.length + 1 + after.length))) after
      else EditorHolds e' before after := by
  rw [← h.len]
  by_cases hroom : e.len < editMaxBytes
  · obtain ⟨hok, hlen, hnext⟩ := h.inserted 10 hroom
    simp only [if_pos hroom]
    have hsplit : before.rdropWhile (· ≠ 10) ++ lastLine before = before :=
      List.rdropWhile_append_rtakeWhile
    have hpos : (e.insertAtCursor 10).2.lineStartForPos ((e.insertAtCursor 10).2.cursor - 1) =
        (before.rdropWhile (· ≠ 10)).length := by
      have hcursor := hnext.cursor
      have hlt := hnext.len
      have htext := hnext.front
      rw [List.length_append, List.length_singleton] at hcursor hlt
      rw [EditorState.lineStartForPos, hcursor, if_neg (by omega), Nat.add_sub_cancel, lineStart_eq,
        htext]
    have hstart : EditorHolds (e.insertAtCursor 10).2
        (before.rdropWhile (· ≠ 10) ++ (lastLine before ++ 10 :: [])) after := by
      rw [← List.append_assoc, hsplit]
      exact hnext
    obtain ⟨e', hrun, hholds⟩ := hstart.indents (lastLine_plain before)
    have hshort : (lastLine before).length ≤ before.length :=
      List.IsSuffix.length_le (List.rtakeWhile_suffix _ _)
    refine ⟨e', ?_, ?_⟩
    · intro fuel hfuel
      rw [EditorState.insertNewlineWithIndent, if_pos hok, hpos]
      exact hrun fuel (by omega)
    · rw [← List.append_assoc, hsplit, List.nil_append, hnext.len] at hholds
      simpa using hholds
  · obtain ⟨hok, hsame⟩ := h.refused 10 hroom
    simp only [if_neg hroom]
    refine ⟨(e.insertAtCursor 10).2, ?_, hsame⟩
    intro fuel _
    simp [EditorState.insertNewlineWithIndent, hok]

/-- An editor with the cursor behind the text. -/
def editorOn (text : List UInt8) : EditorState where
  path := []
  buf := bufOf text
  len := text.length
  cursor := text.length
  topLine := 0
  preferredCol := 0
  keepPreferredCol := false
  dirty := false
  status := []
  firstDraw := true
  prevCursorLine := 0
  prevTopLine := 0
  prevTotalLines := 0

/-- A tab and a letter, and Enter. -/
theorem newline_indents_tab :
    ∃ e', (∀ fuel, 2 < fuel → (editorOn [9, 120]).insertNewlineWithIndent fuel = some e') ∧
      EditorHolds e' [9, 120, 10, 32, 32, 32, 32] [] := by
  have h : EditorHolds (editorOn [9, 120]) [9, 120] [] := ⟨rfl, rfl, by decide, rfl⟩
  obtain ⟨e', hrun, hholds⟩ := newline_indents h
  exact ⟨e', hrun, hholds⟩

end VertexOS
