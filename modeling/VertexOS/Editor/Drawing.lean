import VertexOS.Editor.Screen

namespace VertexOS
open TerminalState EditorScreen

/-- A character that is shown and moves the cursor by one. -/
def PlainChar (c : UInt8) : Prop := 32 ≤ c ∧ c ≤ 126

instance : DecidablePred PlainChar := fun c => inferInstanceAs (Decidable (32 ≤ c ∧ c ≤ 126))

/-- What may be in the first column of a content row: a blank or a digit of a line number. -/
def GutterChar (c : UInt8) : Prop := c = 32 ∨ 48 ≤ c ∧ c ≤ 57

/-- The cell of the text screen. -/
def screenCell (ts : TerminalState) (row col : Nat) : UInt8 := ts.textCells (cellIndex row col)

section Rows

variable {ts : TerminalState} {row col k l : Nat} {c : UInt8} {s : List UInt8}

theorem GutterChar.plain (h : GutterChar c) : PlainChar c := by
  rcases h with rfl | ⟨hlow, hhigh⟩
  · exact ⟨by decide, by decide⟩
  · exact ⟨UInt8.le_trans (by decide) hlow, UInt8.le_trans hhigh (by decide)⟩

theorem PlainChar.not_control (h : PlainChar c) : c ≠ newlineChar ∧ c ≠ backspaceChar := by
  constructor
  · rintro rfl
    exact absurd h.1 (by decide)
  · rintro rfl
    exact absurd h.1 (by decide)

/-- A text in the source is plain where its characters are; they are read off the literal. -/
theorem ascii_plain {l : List Char}
    (h : l.all (fun c => Nat.ble 32 c.toNat && Nat.ble c.toNat 126) = true) :
    ∀ c ∈ ascii (String.ofList l), PlainChar c := by
  intro c hc
  rw [ascii, String.toList_ofList] at hc
  obtain ⟨d, hd, rfl⟩ := List.mem_map.mp hc
  have hd := List.all_eq_true.mp h d hd
  rw [Bool.and_eq_true, Nat.ble_eq, Nat.ble_eq] at hd
  have hnat : (UInt8.ofNat d.toNat).toNat = d.toNat := by
    rw [UInt8.toNat_ofNat', Nat.mod_eq_of_lt (by omega)]
  constructor
  · rw [UInt8.le_iff_toNat_le, hnat]
    exact hd.1
  · rw [UInt8.le_iff_toNat_le, hnat]
    exact hd.2

/-- The cursor is set, and no cell changes. -/
theorem setCursor_at (ts : TerminalState) (hr : row < vgaHeight) (hc : col < vgaWidth) :
    EditorScreen.setCursor ts row col = { ts with cursorRow := row, cursorCol := col } := by
  simp only [EditorScreen.setCursor, displayRequestRefresh, Bool.false_eq_true, if_false,
    clampCursor,
    displaySetCursor, if_neg (Nat.not_le.mpr hr), if_neg (Nat.not_le.mpr hc)]

/-- A plain character inside the row. -/
theorem putChar_inside (hr : ts.cursorRow < vgaHeight) (hc : ts.cursorCol + 1 < vgaWidth)
    (hp : PlainChar c) :
    (EditorScreen.putChar ts c).cursorRow = ts.cursorRow ∧
    (EditorScreen.putChar ts c).cursorCol = ts.cursorCol + 1 ∧
    (EditorScreen.putChar ts c).textCells =
      Function.update ts.textCells (cellIndex ts.cursorRow ts.cursorCol) c := by
  obtain ⟨hn, hb⟩ := hp.not_control
  simp only [EditorScreen.putChar, displayPutChar, displayPutCharInternal, if_neg hn, if_neg hb,
    displayRequestRefresh, Bool.false_eq_true, if_false, clampCursor, markDirtyCell_cells,
    setCell_cursorRow, setCell_cursorCol, if_neg (Nat.not_le.mpr hc), if_neg (Nat.not_le.mpr hr),
    setCell_textCells, and_self]

/-- In the last column the cursor goes to the next row. -/
theorem putChar_wraps (hr : ts.cursorRow + 1 < vgaHeight) (hc : ts.cursorCol + 1 = vgaWidth)
    (hp : PlainChar c) :
    (EditorScreen.putChar ts c).cursorRow = ts.cursorRow + 1 ∧
    (EditorScreen.putChar ts c).cursorCol = 0 ∧
    (EditorScreen.putChar ts c).textCells =
      Function.update ts.textCells (cellIndex ts.cursorRow ts.cursorCol) c := by
  obtain ⟨hn, hb⟩ := hp.not_control
  have h0 : ¬0 ≥ vgaWidth := by decide
  simp only [EditorScreen.putChar, displayPutChar, displayPutCharInternal, if_neg hn, if_neg hb,
    displayRequestRefresh, Bool.false_eq_true, if_false, clampCursor, markDirtyCell_cells,
    setCell_cursorRow, setCell_cursorCol, hc, ge_iff_le, le_refl, if_true, scrollIfNeeded,
    if_pos hr, if_neg (Nat.not_le.mpr hr), if_neg h0, setCell_textCells, and_self]

/-- In the last cell of the screen it scrolls. -/
theorem putChar_scrolls (hr : ts.cursorRow + 1 = vgaHeight) (hc : ts.cursorCol + 1 = vgaWidth)
    (hp : PlainChar c) (hk : k < vgaHeight) (hl : l < vgaWidth) :
    screenCell (EditorScreen.putChar ts c) k l =
      if k + 1 < vgaHeight then
        Function.update ts.textCells (cellIndex ts.cursorRow ts.cursorCol) c (cellIndex (k + 1) l)
      else blankChar := by
  obtain ⟨hn, hb⟩ := hp.not_control
  have hscroll := (scrollIfNeeded_scrolled
    { (ts.setCell (cellIndex ts.cursorRow ts.cursorCol) c).terminalMarkDirtyCell ts.cursorRow
        ts.cursorCol with cursorCol := 0, cursorRow := ts.cursorRow + 1 }
    (Nat.le_of_eq hr.symm) (by decide) (Nat.le_refl vgaWidth)).2.2 k l hk hl
  simp only [markDirtyCell_cells, setCell_textCells] at hscroll
  rw [← hscroll]
  simp only [screenCell, EditorScreen.putChar, displayPutChar, displayPutCharInternal, if_neg hn,
    if_neg hb, displayRequestRefresh, Bool.false_eq_true, if_false, clampCursor,
    markDirtyCell_cells, setCell_cursorRow, setCell_cursorCol, setCell_textCells, hc, ge_iff_le,
    le_refl, if_true]

theorem screenCell_update (ts : TerminalState) (hj : col < vgaWidth) (hl : l < vgaWidth) :
    Function.update ts.textCells (cellIndex row col) c (cellIndex k l) =
      if k = row ∧ l = col then c else screenCell ts k l := by
  by_cases he : k = row ∧ l = col
  · rw [he.1, he.2, Function.update_self, if_pos ⟨rfl, rfl⟩]
  · rw [if_neg he, Function.update_of_ne]
    · rfl
    · intro hidx
      exact he (cellIndex_inj hidx hl hj)

/-- Plain text that ends inside the row. -/
theorem putChars_inside (hr : ts.cursorRow < vgaHeight)
    (hfit : ts.cursorCol + s.length < vgaWidth) (hp : ∀ c ∈ s, PlainChar c) :
    (putChars ts s).cursorRow = ts.cursorRow ∧
    (putChars ts s).cursorCol = ts.cursorCol + s.length ∧
    ∀ k l, l < vgaWidth → screenCell (putChars ts s) k l =
      if k = ts.cursorRow ∧ ts.cursorCol ≤ l ∧ l < ts.cursorCol + s.length then
        s.getD (l - ts.cursorCol) 32
      else screenCell ts k l := by
  induction s generalizing ts with
  | nil =>
    refine ⟨rfl, rfl, fun k l _ => ?_⟩
    rw [if_neg (by simp)]
    rfl
  | cons c s ih =>
    rw [List.length_cons] at hfit
    obtain ⟨hrow, hcol, hcells⟩ := putChar_inside hr (by omega) (hp c List.mem_cons_self)
    obtain ⟨hrow', hcol', hcells'⟩ := @ih (EditorScreen.putChar ts c) (by rw [hrow]; exact hr)
      (by rw [hcol]; omega) (fun d hd => hp d (List.mem_cons_of_mem c hd))
    have hnext : putChars ts (c :: s) = putChars (EditorScreen.putChar ts c) s := rfl
    rw [hnext, hrow', hcol', hrow, hcol, List.length_cons]
    refine ⟨rfl, by omega, fun k l hl => ?_⟩
    rw [hcells' k l hl, hrow, hcol, screenCell, hcells, screenCell_update ts (by omega) hl]
    by_cases hk : k = ts.cursorRow
    · rcases Nat.lt_trichotomy l ts.cursorCol with hlt | heq | hgt
      · rw [if_neg (by omega), if_neg (by omega), if_neg (by omega)]
      · rw [if_neg (by omega), if_pos ⟨hk, heq⟩, if_pos (by omega), heq, Nat.sub_self,
          List.getD_cons_zero]
      · obtain ⟨m, rfl⟩ := Nat.exists_eq_add_of_lt hgt
        have hsub : ts.cursorCol + m + 1 - ts.cursorCol = m + 1 := by omega
        have hsub' : ts.cursorCol + m + 1 - (ts.cursorCol + 1) = m := by omega
        rw [hsub, hsub', List.getD_cons_succ]
        by_cases hin : m < s.length
        · rw [if_pos (by omega), if_pos (by omega)]
        · rw [if_neg (by omega), if_neg (by omega), if_neg (by omega)]
    · simp [hk]

theorem setCursor_cell (ts : TerminalState) (hr : row < vgaHeight) (hc : col < vgaWidth)
    (k l : Nat) : screenCell (EditorScreen.setCursor ts row col) k l = screenCell ts k l := by
  rw [setCursor_at ts hr hc]
  rfl

theorem putChars_append (ts : TerminalState) (s s' : List UInt8) :
    putChars ts (s ++ s') = putChars (putChars ts s) s' := List.foldl_append

/-- The first blanks of `row_clear`, and the one that ends the row. -/
theorem rowClear_split (ts : TerminalState) (row : Nat) : rowClear ts row =
    EditorScreen.putChar
      (putChars (EditorScreen.setCursor ts row 0) (List.replicate (vgaWidth - 1) 32)) 32 := by
  have hsplit : List.replicate vgaWidth (32 : UInt8) = List.replicate (vgaWidth - 1) 32 ++ [32] :=
    rfl
  rw [rowClear, hsplit, putChars_append]
  rfl

theorem blank_plain : PlainChar 32 := ⟨by decide, by decide⟩

/-- The row before its last blank. -/
theorem rowClear_inside (ts : TerminalState) (hr : row < vgaHeight) (ts' : TerminalState)
    (h : ts' = putChars (EditorScreen.setCursor ts row 0) (List.replicate (vgaWidth - 1) 32)) :
    ts'.cursorRow = row ∧ ts'.cursorCol + 1 = vgaWidth ∧ ∀ k l, l < vgaWidth →
      screenCell ts' k l = if k = row ∧ l + 1 < vgaWidth then 32 else screenCell ts k l := by
  have hzero : 0 < vgaWidth := by decide
  have hset := setCursor_at ts hr hzero
  obtain ⟨hrow, hcol, hcells⟩ := @putChars_inside (EditorScreen.setCursor ts row 0)
    (List.replicate (vgaWidth - 1) 32) (by rw [hset]; exact hr)
    (by rw [hset, List.length_replicate, Nat.zero_add]; decide)
    (fun c hc => (List.eq_of_mem_replicate hc) ▸ blank_plain)
  rw [h]
  rw [hset] at hrow hcol hcells ⊢
  refine ⟨hrow, by rw [hcol, List.length_replicate]; rfl, fun k l hl => ?_⟩
  rw [hcells k l hl, List.length_replicate]
  dsimp only
  by_cases hk : k = row ∧ l + 1 < vgaWidth
  · rw [if_pos hk, if_pos (by omega), List.getD_replicate]
    omega
  · rw [if_neg hk, if_neg (by omega)]
    rfl

/-- A row above the last one is blank, and no other row changes. -/
theorem rowClear_cell (ts : TerminalState) (hr : row + 1 < vgaHeight) (hl : l < vgaWidth) :
    screenCell (rowClear ts row) k l = if k = row then 32 else screenCell ts k l := by
  obtain ⟨hrow, hcol, hcells⟩ := rowClear_inside ts (Nat.lt_of_succ_lt hr) _ rfl
  rw [rowClear_split, screenCell, (putChar_wraps (by rw [hrow]; exact hr) hcol blank_plain).2.2,
    screenCell_update _ (by omega) hl, hrow, hcells k l hl]
  by_cases hk : k = row
  · simp only [hk, true_and, if_true]
    split
    · rfl
    · rw [if_pos (by omega)]
  · simp only [hk, false_and, if_false]

/-- The last row is blank as well, but the rows have moved up by one. -/
theorem rowClear_last (ts : TerminalState) (hk : k < vgaHeight) (hl : l < vgaWidth) :
    screenCell (rowClear ts (vgaHeight - 1)) k l =
      if k + 2 < vgaHeight then screenCell ts (k + 1) l else 32 := by
  obtain ⟨hrow, hcol, hcells⟩ := rowClear_inside ts (by decide : vgaHeight - 1 < vgaHeight) _ rfl
  rw [rowClear_split, putChar_scrolls (by rw [hrow]; rfl) hcol blank_plain hk hl,
    screenCell_update _ (by omega) hl, hrow, hcells (k + 1) l hl]
  have hheight : vgaHeight = 25 := rfl
  by_cases hlast : k + 2 < vgaHeight
  · rw [if_pos (by omega), if_neg (by omega), if_neg (by omega), if_pos hlast]
  · rw [if_neg hlast]
    split
    · split
      · rfl
      · rw [if_pos (by omega)]
    · rfl

/-- Text written from the column on, which ends inside the row. -/
theorem writeFrom_cell (ts : TerminalState) (hr : row < vgaHeight)
    (hfit : col + s.length < vgaWidth) (hp : ∀ c ∈ s, PlainChar c) (hl : l < vgaWidth) :
    screenCell (putChars (EditorScreen.setCursor ts row col) s) k l =
      if k = row ∧ col ≤ l ∧ l < col + s.length then s.getD (l - col) 32
      else screenCell ts k l := by
  have hset := setCursor_at ts hr (Nat.lt_of_le_of_lt (Nat.le_add_right col s.length) hfit)
  have hcells := (@putChars_inside (EditorScreen.setCursor ts row col) s
    (by rw [hset]; exact hr) (by rw [hset]; exact hfit) hp).2.2 k l hl
  rw [hset] at hcells ⊢
  exact hcells

theorem rowWriteText_cell (ts : TerminalState) (hr : row < vgaHeight) {maxChars : Nat}
    (hfit : col + s.length < vgaWidth) (hp : ∀ c ∈ s, PlainChar c) (hl : l < vgaWidth)
    (hout : ¬(k = row ∧ col ≤ l)) :
    screenCell (rowWriteText ts row col s maxChars) k l = screenCell ts k l := by
  rw [rowWriteText]
  split
  · rfl
  · have hsub : ∀ c ∈ (cString s).take (min maxChars (vgaWidth - col)), c ∈ s := fun c hc =>
      List.takeWhile_subset _ (List.mem_of_mem_take hc)
    have hshort : ((cString s).take (min maxChars (vgaWidth - col))).length ≤ s.length :=
      (List.length_take_le' _ _).trans (List.takeWhile_sublist _).length_le
    rw [writeFrom_cell ts hr (by omega) (fun c hc => hp c (hsub c hc)) hl, if_neg]
    intro hin
    exact hout ⟨hin.1, hin.2.1⟩

theorem digitsOf_gutter (left v : Nat) : ∀ c ∈ digitsOf left v, GutterChar c := by
  induction left generalizing v with
  | zero => simp [digitsOf]
  | succ left ih =>
    intro c hc
    rw [digitsOf] at hc
    split at hc
    · rcases List.mem_cons.mp hc with rfl | hmem
      · right
        have hmod := Nat.mod_lt v (by decide : 10 > 0)
        generalize v % 10 = m at hmod ⊢
        interval_cases m <;> exact ⟨by decide, by decide⟩
      · exact ih _ c hmem
    · cases hc

theorem digitsOf_length (left v : Nat) : (digitsOf left v).length ≤ left := by
  induction left generalizing v with
  | zero => exact Nat.le_refl 0
  | succ left ih =>
    rw [digitsOf]
    split
    · exact Nat.succ_le_succ (ih _)
    · exact Nat.zero_le _

/-- The number starts with a blank or with a digit. -/
theorem rowWriteNumber_cell (ts : TerminalState) (hr : row < vgaHeight) (v : Nat) :
    (∀ k, k ≠ row → screenCell (rowWriteU32Right ts row 0 4 v) k 0 = screenCell ts k 0) ∧
      GutterChar (screenCell (rowWriteU32Right ts row 0 4 v) row 0) := by
  have hwidth : 0 < vgaWidth := by decide
  rw [rowWriteU32Right, if_neg (by omega)]
  dsimp only
  generalize hd : (if v = 0 then [48] else digitsOf 10 v) = digits
  have hlength : digits.length ≤ 10 := by
    rw [← hd]
    split
    · decide
    · exact digitsOf_length 10 v
  have hgutter : ∀ c ∈ List.replicate (4 - digits.length) 32 ++ digits.reverse, GutterChar c := by
    intro c hc
    rcases List.mem_append.mp hc with hblank | hdigit
    · exact .inl (List.eq_of_mem_replicate hblank)
    · rw [List.mem_reverse, ← hd] at hdigit
      split at hdigit
      · rw [List.mem_singleton.mp hdigit]
        exact .inr ⟨by decide, by decide⟩
      · exact digitsOf_gutter 10 v c hdigit
  generalize ht : List.replicate (4 - digits.length) 32 ++ digits.reverse = text at hgutter
  have htext : text.length = max 4 digits.length := by
    rw [← ht, List.length_append, List.length_replicate, List.length_reverse]
    omega
  have hfit : 0 + text.length < vgaWidth := by
    have : vgaWidth = 80 := rfl
    omega
  have hplain : ∀ c ∈ text, PlainChar c := fun c hc => (hgutter c hc).plain
  constructor
  · intro k hk
    rw [writeFrom_cell ts hr hfit hplain hwidth, if_neg (by omega)]
  · rw [writeFrom_cell ts hr hfit hplain hwidth, if_pos (by omega),
      List.getD_eq_getElem _ _ (by omega)]
    exact hgutter _ (List.getElem_mem _)

theorem shownChar_plain (c : UInt8) : PlainChar (shownChar c) := by
  rw [shownChar]
  split
  · assumption
  · exact blank_plain

/-- A character of the content stays out of the gutter. -/
theorem putAt_cell (ts : TerminalState) (hr : row + 1 < vgaHeight) (hc : col < vgaWidth)
    (hg : 0 < col) (hp : PlainChar c) :
    screenCell (putAt row c (ts, col)).1 k 0 = screenCell ts k 0 := by
  have hset := setCursor_at ts (Nat.lt_of_succ_lt hr) hc
  have hcells : (EditorScreen.putChar (EditorScreen.setCursor ts row col) c).textCells =
      Function.update ts.textCells (cellIndex row col) c := by
    by_cases hlast : col + 1 = vgaWidth
    · rw [hset]
      exact (@putChar_wraps { ts with cursorRow := row, cursorCol := col } c hr hlast hp).2.2
    · rw [hset]
      exact (@putChar_inside { ts with cursorRow := row, cursorCol := col } c
        (Nat.lt_of_succ_lt hr) (by dsimp only; omega) hp).2.2
  rw [putAt, screenCell, hcells, screenCell_update ts hc (by decide), if_neg (by omega)]

theorem putTab_cell (hr : row + 1 < vgaHeight) (t : Nat) (r : TerminalState × Nat)
    (hg : 0 < r.2) :
    (∀ k, screenCell (putTab row t r).1 k 0 = screenCell r.1 k 0) ∧ 0 < (putTab row t r).2 := by
  induction t generalizing r with
  | zero => exact ⟨fun k => rfl, hg⟩
  | succ t ih =>
    rw [putTab]
    split
    · next hc =>
      obtain ⟨hcells, hpos⟩ := ih (putAt row 32 r) (Nat.succ_pos _)
      exact ⟨fun k => (hcells k).trans (putAt_cell r.1 hr hc hg blank_plain), hpos⟩
    · exact ⟨fun k => rfl, hg⟩

theorem lineCells_cell (hr : row + 1 < vgaHeight) (b : Buf) (left p : Nat)
    (r : TerminalState × Nat) (hg : 0 < r.2) (k : Nat) :
    screenCell (lineCells b row left p r).1 k 0 = screenCell r.1 k 0 := by
  induction left generalizing p r with
  | zero => rfl
  | succ left ih =>
    rw [lineCells]
    split
    · next hc =>
      split
      · obtain ⟨hcells, hpos⟩ := putTab_cell hr editTabSpaces r hg
        rw [ih _ _ hpos, hcells]
      · rw [ih (p + 1) (putAt row (shownChar (b p)) r) (Nat.succ_pos _)]
        exact putAt_cell r.1 hr hc hg (shownChar_plain _)
    · rfl

/-- A content row starts with a blank or a digit, and the first column of the others is kept. -/
theorem renderLine_cell (e : EditorState) (ts : TerminalState) (hr : row + 1 < vgaHeight)
    (absLine : Nat) :
    (∀ k, k ≠ row → screenCell (renderLine e ts row absLine) k 0 = screenCell ts k 0) ∧
      GutterChar (screenCell (renderLine e ts row absLine) row 0) := by
  have hrow := Nat.lt_of_succ_lt hr
  have hwidth : 0 < vgaWidth := by decide
  obtain ⟨hnumber, hgutter⟩ := rowWriteNumber_cell (rowClear ts row) hrow (absLine + 1)
  have hall : ∀ k, screenCell (renderLine e ts row absLine) k 0 =
      screenCell (rowWriteU32Right (rowClear ts row) row 0 4 (absLine + 1)) k 0 := by
    intro k
    rw [renderLine, lineCells_cell hr _ _ _ _ (by simp [editGutterCols])]
    exact rowWriteText_cell _ hrow (by decide) (ascii_plain rfl) hwidth (by omega)
  refine ⟨fun k hk => ?_, by rw [hall]; exact hgutter⟩
  rw [hall, hnumber k hk, rowClear_cell ts hr hwidth, if_neg hk]

end Rows

/-- Down to the row above the status the first column has blanks and digits. -/
def GutterClean (ts : TerminalState) : Prop :=
  ∀ row, row + 1 < vgaHeight → GutterChar (screenCell ts row 0)

/-- The same below the header. -/
def ContentClean (ts : TerminalState) : Prop :=
  ∀ row, 1 ≤ row → row + 1 < vgaHeight → GutterChar (screenCell ts row 0)

/-- A status that stays in its row. -/
def PlainText (s : List UInt8) : Prop := (∀ c ∈ s, PlainChar c) ∧ s.length < vgaWidth

section Draw

variable {e : EditorState} {ts : TerminalState} {s : List UInt8}

theorem GutterClean.content (h : GutterClean ts) : ContentClean ts := fun row _ hr => h row hr

theorem contentRows_clean (e : EditorState) (total : Nat) (ts : TerminalState) {n : Nat}
    (hn : n + 1 < vgaHeight) :
    ∀ row, 1 ≤ row → row ≤ n → GutterChar (screenCell (contentRows e total ts n) row 0) := by
  induction n with
  | zero => exact fun row h1 h0 => absurd (h1.trans h0) (by decide)
  | succ n ih =>
    intro row h1 hrow
    have hrows := ih (by omega) row h1
    have hwidth : 0 < vgaWidth := by decide
    rw [contentRows]
    split
    · rw [rowClear_cell _ hn hwidth]
      split
      · exact .inl rfl
      · exact hrows (by omega)
    · obtain ⟨hother, hgutter⟩ := renderLine_cell e (contentRows e total ts n) hn (e.topLine + n)
      by_cases hlast : row = n + 1
      · rw [hlast]
        exact hgutter
      · rw [hother row hlast]
        exact hrows (by omega)

theorem ContentClean.redrawLine (h : ContentClean ts) (e : EditorState) (line : Nat) :
    ContentClean (redrawLine e ts line) := by
  rw [EditorScreen.redrawLine]
  split
  · next hin =>
    have hr : 1 + (line - e.topLine) + 1 < vgaHeight := by
      simp only [editContentRows, vgaHeight] at hin ⊢
      omega
    obtain ⟨hother, hgutter⟩ := renderLine_cell e ts hr line
    intro row h1 hrow
    by_cases hsame : row = 1 + (line - e.topLine)
    · rw [hsame]
      exact hgutter
    · rw [hother row hsame]
      exact h row h1 hrow
  · exact h

/-- Every path of `draw_editor` leaves content rows that start with blanks and digits. -/
theorem redraw_content (h : e.firstDraw = true ∨ ContentClean ts) (line total : Nat) :
    ContentClean (redraw e ts line total) := by
  rw [redraw]
  split
  · intro row h1 hrow
    refine contentRows_clean e total _ (by decide) row h1 ?_
    simp only [editContentRows, vgaHeight] at hrow ⊢
    omega
  · next hpath =>
    have hclean := h.resolve_left fun hfirst => hpath (.inl hfirst)
    split
    · exact (hclean.redrawLine e _).redrawLine e line
    · exact hclean.redrawLine e line

/-- Clearing the last row moves the rows up by one: the first content row is now the top row. -/
theorem ContentClean.scrolled (h : ContentClean ts) :
    GutterClean (rowClear ts (vgaHeight - 1)) := by
  intro row hrow
  rw [rowClear_last ts (Nat.lt_of_succ_lt hrow) (by decide)]
  split
  · next hnext => exact h (row + 1) (Nat.succ_pos row) hnext
  · exact .inl rfl

/-- What is written in the last row does not matter. -/
theorem GutterClean.writeLast (h : GutterClean ts) {col maxChars : Nat}
    (hfit : col + s.length < vgaWidth) (hp : ∀ c ∈ s, PlainChar c) :
    GutterClean (rowWriteText ts (vgaHeight - 1) col s maxChars) := by
  intro row hrow
  rw [rowWriteText_cell ts (by decide) hfit hp (by decide) (by omega)]
  exact h row hrow

theorem GutterClean.setCursor (h : GutterClean ts) {row col : Nat} (hr : row < vgaHeight)
    (hc : col < vgaWidth) : GutterClean (EditorScreen.setCursor ts row col) := by
  intro k hk
  rw [setCursor_cell ts hr hc]
  exact h k hk

theorem ensureVisible_kept (e : EditorState) :
    e.ensureCursorVisible.firstDraw = e.firstDraw ∧ e.ensureCursorVisible.status = e.status := by
  simp only [EditorState.ensureCursorVisible]
  split
  · exact ⟨rfl, rfl⟩
  · split
    · exact ⟨rfl, rfl⟩
    · exact ⟨rfl, rfl⟩

theorem cursorRow_lt (top line : Nat) :
    1 + ((if (if line < top then top else line) ≥ top + editContentRows then
      top + editContentRows - 1 else if line < top then top else line) - top) < vgaHeight := by
  generalize (if line < top then top else line) = shown
  have hrows : editContentRows + 2 = vgaHeight := rfl
  split
  · omega
  · omega

theorem cursorCol_lt (col : Nat) :
    (if col ≥ vgaWidth then vgaWidth - 1 else col) < vgaWidth := by
  split
  · decide
  · omega

/-- After `draw_editor` the header is gone: the clearing of the status row has scrolled it away. -/
theorem drawEditor_clean (hs : PlainText e.status) (h : e.firstDraw = true ∨ GutterClean ts) :
    GutterClean (drawEditor e ts).2 := by
  obtain ⟨hfirst, hstatus⟩ := ensureVisible_kept e
  have hpath : e.ensureCursorVisible.firstDraw = true ∨ ContentClean ts := by
    rw [hfirst]
    exact h.imp_right GutterClean.content
  rw [← hstatus] at hs
  have hrows := redraw_content hpath
    (e.ensureCursorVisible.lineColForPos e.ensureCursorVisible.cursor).1
    e.ensureCursorVisible.totalLines
  have hclean := @GutterClean.writeLast _ e.ensureCursorVisible.status hrows.scrolled 0 vgaWidth
    (by rw [Nat.zero_add]; exact hs.2) hs.1
  exact hclean.setCursor (cursorRow_lt _ _) (cursorCol_lt _)

end Draw

end VertexOS
