import VertexOS.Editor.Text

namespace VertexOS

section Lines

variable {b : Buf} {len line i j start : Nat}

theorem countLines_eq (b : Buf) (len : Nat) : countLines b len = (lineCol b len).1 + 1 := by
  induction len with
  | zero => rfl
  | succ len ih =>
    rw [countLines, lineCol]
    split
    · rw [ih]
    · exact ih

theorem lineCol_plain (h : b i ≠ 10) :
    lineCol b (i + 1) = ((lineCol b i).1, (lineCol b i).2 + 1) := if_neg h

/-- The lines are numbered upwards. -/
theorem lineCol_mono (h : i ≤ j) : (lineCol b i).1 ≤ (lineCol b j).1 := by
  induction j, h using Nat.le_induction with
  | base => exact Nat.le_refl _
  | succ j _ ih =>
    rw [lineCol]
    split
    · exact Nat.le_succ_of_le ih
    · exact ih

/-- All that comes before the start of a line is on earlier lines. -/
theorem before_start (h : lineCol b start = (line, 0)) (hi : i < start) :
    (lineCol b i).1 < line := by
  cases start with
  | zero => exact absurd hi (Nat.not_lt_zero _)
  | succ start =>
    rw [lineCol] at h
    split at h
    · have hline : (lineCol b start).1 + 1 = line := congrArg Prod.fst h
      have hmono : (lineCol b i).1 ≤ (lineCol b start).1 := lineCol_mono (Nat.le_of_lt_succ hi)
      omega
    · exact absurd (congrArg Prod.snd h) (Nat.succ_ne_zero _)

/-- The scan stops where the line starts. -/
theorem posFrom_start (h : lineCol b start = (line, 0)) {left : Nat} (hi : i ≤ start)
    (hleft : start ≤ i + left) : posFrom b line left i (lineCol b i).1 = start := by
  induction left generalizing i with
  | zero => exact Nat.le_antisymm hi hleft
  | succ left ih =>
    rw [posFrom]
    split
    · next hhere =>
      by_contra hne
      exact absurd hhere (Nat.ne_of_lt (before_start h (Nat.lt_of_le_of_ne hi hne)))
    · next hother =>
      have hne : i ≠ start := fun heq => hother (by rw [heq, h])
      have hnext : (if b i = 10 then (lineCol b i).1 + 1 else (lineCol b i).1) =
          (lineCol b (i + 1)).1 := by
        rw [lineCol]
        split <;> rfl
      rw [hnext]
      exact ih (Nat.lt_of_le_of_ne hi hne) (by omega)

/-- Every position is so many characters behind the start of its line. -/
theorem line_of_pos (b : Buf) (pos : Nat) :
    ∃ start, start + (lineCol b pos).2 = pos ∧ lineCol b start = ((lineCol b pos).1, 0) ∧
      ∀ j < (lineCol b pos).2, b (start + j) ≠ 10 := by
  induction pos with
  | zero => exact ⟨0, rfl, rfl, fun j hj => absurd hj (Nat.not_lt_zero j)⟩
  | succ pos ih =>
    by_cases hb : b pos = 10
    · have hnew : lineCol b (pos + 1) = ((lineCol b pos).1 + 1, 0) := if_pos hb
      rw [hnew]
      exact ⟨pos + 1, rfl, hnew, fun j hj => absurd hj (Nat.not_lt_zero j)⟩
    · obtain ⟨start, hpos, hstart, hplain⟩ := ih
      rw [lineCol_plain hb]
      refine ⟨start, congrArg Nat.succ hpos, hstart, ?_⟩
      intro j hj
      rcases Nat.lt_succ_iff_lt_or_eq.mp hj with hlt | rfl
      · exact hplain j hlt
      · rwa [hpos]

/-- Each of the lines that are counted has a start. -/
theorem start_of_line (h : line < countLines b len) :
    ∃ start ≤ len, lineCol b start = (line, 0) := by
  induction len with
  | zero =>
    obtain rfl : line = 0 := Nat.lt_one_iff.mp h
    exact ⟨0, Nat.le_refl _, rfl⟩
  | succ len ih =>
    have hearlier : line < countLines b len → ∃ start ≤ len + 1, lineCol b start = (line, 0) := by
      intro hlt
      obtain ⟨start, hle, hstart⟩ := ih hlt
      exact ⟨start, Nat.le_succ_of_le hle, hstart⟩
    rw [countLines] at h
    split at h
    · next hb =>
      rcases Nat.lt_succ_iff_lt_or_eq.mp h with hlt | rfl
      · exact hearlier hlt
      · refine ⟨len + 1, Nat.le_refl _, ?_⟩
        rw [countLines_eq]
        exact if_pos hb
    · exact hearlier h

/-- The steps along a line that is long enough. -/
theorem stepCols_reach {col : Nat} (hlen : i + col ≤ len) (hplain : ∀ j < col, b (i + j) ≠ 10) :
    stepCols b len col i = i + col := by
  induction col generalizing i with
  | zero => rfl
  | succ col ih =>
    have hfirst : b i ≠ 10 := hplain 0 (Nat.succ_pos _)
    rw [stepCols, if_pos ⟨by omega, hfirst⟩, ih (by omega) fun j hj => ?_]
    · omega
    · have hnext := hplain (j + 1) (Nat.succ_lt_succ hj)
      rwa [show i + (j + 1) = i + 1 + j by omega] at hnext

/-- No step leaves the line. -/
theorem stepCols_line (b : Buf) (len col i : Nat) :
    (lineCol b (stepCols b len col i)).1 = (lineCol b i).1 := by
  induction col generalizing i with
  | zero => rfl
  | succ col ih =>
    rw [stepCols]
    split
    · next hstep => rw [ih, lineCol_plain hstep.2]
    · rfl

end Lines

namespace EditorState

section Movement

variable {e e' : EditorState} {line col : Nat}

theorem lineColForPos_of_le {pos : Nat} (h : pos ≤ e.len) :
    e.lineColForPos pos = lineCol e.buf pos := by
  rw [lineColForPos, if_neg (Nat.not_lt.mpr h)]

theorem posForLine_start {start : Nat} (h : lineCol e.buf start = (line, 0)) (hs : start ≤ e.len) :
    e.posForLine line = start :=
  posFrom_start h (Nat.zero_le _) (by omega)

theorem posForLineCol_pos {pos : Nat} (h : pos ≤ e.len) :
    e.posForLineCol (e.lineColForPos pos).1 (e.lineColForPos pos).2 = pos := by
  rw [lineColForPos_of_le h]
  obtain ⟨start, hpos, hstart, hplain⟩ := line_of_pos e.buf pos
  rw [posForLineCol, posForLine_start hstart (by omega), stepCols_reach (by omega) hplain, hpos]

/-- Whatever the column, the position is on the line. -/
theorem line_posForLineCol (h : line < e.totalLines) (col : Nat) :
    (e.lineColForPos (e.posForLineCol line col)).1 = line := by
  obtain ⟨start, hle, hstart⟩ := start_of_line h
  rw [lineColForPos_of_le (posForLineCol_le _ _ _), posForLineCol, stepCols_line,
    posForLine_start hstart hle, hstart]

theorem line_lt_total {pos : Nat} (h : pos ≤ e.len) : (e.lineColForPos pos).1 < e.totalLines := by
  rw [lineColForPos_of_le h, totalLines, countLines_eq]
  exact Nat.lt_succ_of_le (lineCol_mono h)

/-- The cursor is where the preferred column puts it in its line, as long as it is kept. -/
def Aligned (e : EditorState) : Prop :=
  e.keepPreferredCol = true →
    e.posForLineCol (e.lineColForPos e.cursor).1 e.preferredCol = e.cursor

theorem Aligned.same (h : Aligned e) (hs : SameText e e') : Aligned e' := by
  intro hkeep
  rw [hs.keepPreferredCol] at hkeep
  have hplace := h hkeep
  simp only [posForLineCol, posForLine, lineColForPos] at hplace ⊢
  rw [hs.buf, hs.len, hs.cursor, hs.preferredCol]
  exact hplace

theorem aligned_of_dropped (h : e.keepPreferredCol = false) : Aligned e :=
  fun hkeep => absurd hkeep (by simp [h])

/-- The column that a movement keeps leads back to the cursor. -/
theorem Aligned.kept (h : Aligned e) (hc : e.cursor ≤ e.len) :
    e.keepColumn.keepPreferredCol = true ∧ e.keepColumn.buf = e.buf ∧
      e.keepColumn.len = e.len ∧ e.keepColumn.cursor = e.cursor ∧
      e.posForLineCol (e.lineColForPos e.cursor).1 e.keepColumn.preferredCol = e.cursor := by
  rw [keepColumn]
  split
  · next hkeep => exact ⟨hkeep, rfl, rfl, rfl, h hkeep⟩
  · exact ⟨rfl, rfl, rfl, rfl, posForLineCol_pos hc⟩

/-- The cursor goes to a line, and keeps its column if it can. -/
def toLine (e : EditorState) (line : Nat) : EditorState :=
  { e.keepColumn with
    cursor := e.keepColumn.posForLineCol line e.keepColumn.preferredCol }

theorem moveUp_line (h : 0 < (e.lineColForPos e.cursor).1) :
    e.moveUp = e.toLine ((e.lineColForPos e.cursor).1 - 1) := if_pos h

theorem keepColumn_totalLines (e : EditorState) : e.keepColumn.totalLines = e.totalLines := by
  rw [keepColumn]
  split <;> rfl

theorem moveDown_line (h : (e.lineColForPos e.cursor).1 + 1 < e.totalLines) :
    e.moveDown = e.toLine ((e.lineColForPos e.cursor).1 + 1) :=
  if_pos (keepColumn_totalLines e ▸ h)

theorem Aligned.toLine (h : Aligned e) (hc : e.cursor ≤ e.len) (hline : line < e.totalLines) :
    (e.toLine line).totalLines = e.totalLines ∧
      ((e.toLine line).lineColForPos (e.toLine line).cursor).1 = line ∧ Aligned (e.toLine line) ∧
      ((e.toLine line).toLine (e.lineColForPos e.cursor).1).cursor = e.cursor := by
  obtain ⟨hkeep, hbuf, hlen, -, hback⟩ := h.kept hc
  have htotal : (e.toLine line).totalLines = e.totalLines := keepColumn_totalLines e
  have hthere : ((e.toLine line).lineColForPos (e.toLine line).cursor).1 = line :=
    line_posForLineCol (htotal ▸ hline) _
  have hkept : (e.toLine line).keepColumn = e.toLine line := if_pos hkeep
  refine ⟨htotal, hthere, fun _ => ?_, ?_⟩
  · rw [hthere]
    rfl
  · refine Eq.trans ?_ hback
    rw [EditorState.toLine, hkept]
    simp only [posForLineCol, posForLine]
    rw [show (e.toLine line).buf = e.buf from hbuf, show (e.toLine line).len = e.len from hlen]
    rfl

theorem Aligned.edit (h : Aligned e) (hc : e.cursor ≤ e.len) {fuel : Nat} {key : Int}
    (hkey : e.editKey fuel key = some e') : Aligned e' := by
  have hstays : Aligned e.keepColumn := by
    obtain ⟨-, hbuf, hlen, hcursor, hback⟩ := h.kept hc
    intro _
    simp only [posForLineCol, posForLine, lineColForPos] at hback ⊢
    rwa [hbuf, hlen, hcursor]
  rw [editKey] at hkey
  split at hkey
  · cases hkey
    exact aligned_of_dropped rfl
  split at hkey
  · cases hkey
    exact aligned_of_dropped rfl
  split at hkey
  · cases hkey
    by_cases hline : 0 < (e.lineColForPos e.cursor).1
    · have hlast := line_lt_total hc
      rw [moveUp_line hline]
      exact (h.toLine hc (by omega)).2.2.1
    · rw [moveUp, if_neg hline]
      exact hstays
  split at hkey
  · cases hkey
    by_cases hline : (e.lineColForPos e.cursor).1 + 1 < e.totalLines
    · rw [moveDown_line hline]
      exact (h.toLine hc hline).2.2.1
    · rw [moveDown, if_neg (by rwa [keepColumn_totalLines])]
      exact hstays
  split at hkey
  · cases hkey
    exact aligned_of_dropped rfl
  split at hkey
  · cases hkey
    exact aligned_of_dropped rfl
  split at hkey
  · cases hkey
    exact aligned_of_dropped rfl
  split at hkey
  · obtain ⟨e₁, -, rfl⟩ := Option.map_eq_some_iff.mp hkey
    exact aligned_of_dropped rfl
  split at hkey
  · cases hkey
    exact aligned_of_dropped rfl
  · cases hkey
    exact h

end Movement

end EditorState

section Reversal
open EditorState

variable {e : EditorState} {x : EditorRun}

theorem EditorReached.aligned (h : EditorReached e) : Sound e ∧ Aligned e := by
  refine h.invariant (P := fun e => Sound e ∧ Aligned e)
    ⟨zero_sound, aligned_of_dropped rfl⟩ ?_ ?_ ?_
  · rintro e e' ⟨hsound, haligned⟩ hs
    exact ⟨hsound.same hs, haligned.same hs⟩
  · intro fuel v session e path v' e' hload
    obtain ⟨hsound, hdropped⟩ := loadFile_sound hload
    exact ⟨hsound, aligned_of_dropped hdropped⟩
  · rintro fuel e key e' ⟨hsound, haligned⟩ hkey
    exact ⟨hsound.edit hkey, haligned.edit hsound.cursor hkey⟩

theorem toLine_same {e' : EditorState} (h : SameText e e') (line : Nat) :
    (e'.toLine line).cursor = (e.toLine line).cursor := by
  obtain ⟨hbuf, hlen, hcursor, hcolumn, hkeep⟩ := h
  simp only [toLine, keepColumn, hkeep]
  split
  · simp only [posForLineCol, posForLine, hbuf, hlen, hcolumn]
  · simp only [posForLineCol, posForLine, lineColForPos, hbuf, hlen, hcursor]

/-- Two movements in a row, with the screen drawn in between. -/
theorem returns_to_line {line : Nat} (hs : Sound e) (h : Aligned e) (hline : line < e.totalLines)
    {e' : EditorState} (hdrawn : SameText (e.toLine line) e') :
    e'.totalLines = e.totalLines ∧ (e'.lineColForPos e'.cursor).1 = line ∧
      (e'.toLine (e.lineColForPos e.cursor).1).cursor = e.cursor := by
  obtain ⟨htotal, hthere, -, hback⟩ := h.toLine hs.cursor hline
  refine ⟨?_, ?_, (toLine_same hdrawn _).trans hback⟩
  · rw [← htotal, totalLines, totalLines, hdrawn.buf, hdrawn.len]
  · rw [← hthere, lineColForPos, lineColForPos, hdrawn.buf, hdrawn.len, hdrawn.cursor]

theorem key_up (hw : x.wait = .edit) (session : Int) (fuel : Nat) :
    x.key session fuel keyUp = .ok (some (x.draw x.editor.moveUp .edit)) := by
  rw [EditorRun.key, hw]
  rfl

theorem key_down (hw : x.wait = .edit) (session : Int) (fuel : Nat) :
    x.key session fuel keyDown = .ok (some (x.draw x.editor.moveDown .edit)) := by
  rw [EditorRun.key, hw]
  rfl

theorem EditorRun.keys_cons {session : Int} {fuel : Nat} {y : EditorRun} {key : Int}
    (h : x.key session fuel key = .ok (some y)) (rest : List Int) :
    x.keys session fuel (key :: rest) = y.keys session fuel rest := by
  rw [EditorRun.keys, h]
  rfl

theorem up_down (h : EditorReached x.editor) (hw : x.wait = .edit) (session : Int) (fuel : Nat)
    (hline : 0 < (x.editor.lineColForPos x.editor.cursor).1) :
    ∃ y, x.keys session fuel [keyUp, keyDown] = .ok (some y) ∧
      y.editor.cursor = x.editor.cursor := by
  obtain ⟨hs, ha⟩ := h.aligned
  have hlast := line_lt_total hs.cursor
  have hdrawn := draw_same x (x.editor.toLine ((x.editor.lineColForPos x.editor.cursor).1 - 1)) .edit
  obtain ⟨htotal, hthere, hback⟩ := returns_to_line hs ha (by omega) hdrawn
  rw [EditorRun.keys_cons (key_up hw session fuel), moveUp_line hline,
    EditorRun.keys_cons (key_down rfl session fuel)]
  refine ⟨_, rfl, ?_⟩
  rw [(draw_same _ _ _).cursor, moveDown_line (by omega), hthere, Nat.sub_add_cancel hline]
  exact hback

theorem down_up (h : EditorReached x.editor) (hw : x.wait = .edit) (session : Int) (fuel : Nat)
    (hline : (x.editor.lineColForPos x.editor.cursor).1 + 1 < x.editor.totalLines) :
    ∃ y, x.keys session fuel [keyDown, keyUp] = .ok (some y) ∧
      y.editor.cursor = x.editor.cursor := by
  obtain ⟨hs, ha⟩ := h.aligned
  have hdrawn := draw_same x (x.editor.toLine ((x.editor.lineColForPos x.editor.cursor).1 + 1)) .edit
  obtain ⟨-, hthere, hback⟩ := returns_to_line hs ha hline hdrawn
  rw [EditorRun.keys_cons (key_down hw session fuel), moveDown_line hline,
    EditorRun.keys_cons (key_up rfl session fuel)]
  refine ⟨_, rfl, ?_⟩
  rw [(draw_same _ _ _).cursor, moveUp_line (by omega), hthere, Nat.add_sub_cancel]
  exact hback

end Reversal

/-- A position is found again from its line and column, and Up and Down take each other back
except where there is no line to go to. -/
theorem vertical_movement_reverses :
    (∀ (e : EditorState) (pos : Nat), pos ≤ e.len →
      e.posForLineCol (e.lineColForPos pos).1 (e.lineColForPos pos).2 = pos) ∧
    ∀ (session : Int) (fuel : Nat) (x : EditorRun), EditorReached x.editor → x.wait = .edit →
      ((x.editor.lineColForPos x.editor.cursor).1 ≠ 0 →
        ∃ y, x.keys session fuel [keyUp, keyDown] = .ok (some y) ∧
          y.editor.cursor = x.editor.cursor) ∧
      ((x.editor.lineColForPos x.editor.cursor).1 + 1 ≠ x.editor.totalLines →
        ∃ y, x.keys session fuel [keyDown, keyUp] = .ok (some y) ∧
          y.editor.cursor = x.editor.cursor) := by
  refine ⟨fun e pos => EditorState.posForLineCol_pos, ?_⟩
  intro session fuel x hx hw
  refine ⟨fun hline => up_down hx hw session fuel (Nat.pos_of_ne_zero hline), fun hline => ?_⟩
  have hlast := EditorState.line_lt_total hx.sound.cursor
  exact down_up hx hw session fuel (by omega)

/-- The editor on a file that does not exist, and the same after Enter. -/
def newFile : EditorState := { EditorState.zero with path := [98] }.clear.statusSet "new file"
def newFileRun : EditorRun := EditorRun.draw ⟨letterVfs, newFile, .zero, .edit⟩ newFile .edit
def enteredRun : EditorRun :=
  newFileRun.draw (newFileRun.editor.insertAtCursor 10).2.dropColumn .edit

theorem newFile_opens : editorOpen 2 letterVfs 0 .zero .zero [98] = .ok (some newFileRun) := by
  have hpath : strCopy [98] editPathMax = [98] := by decide
  rw [editorOpen, hpath]
  dsimp only
  rw [other_loads]
  rfl

/-- Enter in a new file, and Up and Down. -/
theorem vertical_movement_reverses_entered : EditorReached enteredRun.editor ∧
    ∃ y, enteredRun.keys 0 2 [keyUp, keyDown] = .ok (some y) ∧
      y.editor.cursor = enteredRun.editor.cursor := by
  have hkey : newFileRun.key 0 2 10 = .ok (some enteredRun) := rfl
  have hreached : EditorReached enteredRun.editor :=
    .tail (.single (.opened newFile_opens)) (.key hkey)
  have hline : (enteredRun.editor.lineColForPos enteredRun.editor.cursor).1 ≠ 0 := by decide
  exact ⟨hreached, (vertical_movement_reverses.2 0 2 enteredRun hreached rfl).1 hline⟩

end VertexOS
