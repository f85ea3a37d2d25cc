import VertexOS.Video.Terminal

namespace VertexOS
open TerminalState

/-- Text on a sheet without a bottom, and where the next character goes. -/
structure Sheet where
  row : Nat
  col : Nat
  cell : Nat → Nat → UInt8

namespace Sheet

def blank : Sheet := ⟨0, 0, fun _ _ => blankChar⟩

def write (s : Sheet) (row col : Nat) (c : UInt8) : Sheet :=
  { s with cell := fun i j => if i = row ∧ j = col then c else s.cell i j }

def nextLine (s : Sheet) : Sheet := { s with row := s.row + 1, col := 0 }

/-- One character written on a sheet of `cols` columns. -/
def put (cols : Nat) (s : Sheet) (c : UInt8) : Sheet :=
  if c = newlineChar then s.nextLine
  else if c = backspaceChar then
    if s.col = 0 then s
    else { s.write s.row (s.col - 1) blankChar with col := s.col - 1 }
  else if s.col + 1 < cols then { s.write s.row s.col c with col := s.col + 1 }
  else (s.write s.row s.col c).nextLine

@[simp] theorem nextLine_row (s : Sheet) : s.nextLine.row = s.row + 1 := rfl
@[simp] theorem nextLine_col (s : Sheet) : s.nextLine.col = 0 := rfl
@[simp] theorem nextLine_cell (s : Sheet) : s.nextLine.cell = s.cell := rfl
@[simp] theorem write_row (s : Sheet) (row col : Nat) (c : UInt8) :
    (s.write row col c).row = s.row := rfl

/-- The first row of a window of `rows` rows that ends at the cursor. -/
def top (s : Sheet) (rows : Nat) : Nat := s.row + 1 - rows

end Sheet

/-- The visible cells are the window of the sheet that ends at the cursor. -/
structure Shows (rows cols : Nat) (s : Sheet) (ts : TerminalState) : Prop where
  cursorRow : ts.cursorRow + s.top rows = s.row
  cursorCol : ts.cursorCol = s.col
  inside : s.col < cols
  cells : ∀ i j, i < rows → j < cols →
    ts.textCells (cellIndex i j) = s.cell (s.top rows + i) j
  below : ∀ i j, s.row < i → s.cell i j = blankChar

section Shows

variable {rows cols : Nat} {s : Sheet} {ts : TerminalState} (h : Shows rows cols s ts)

include h

theorem Shows.row_lt : ts.cursorRow < rows := by
  have := h.cursorRow
  unfold Sheet.top at this
  omega

/-- Marks do not show. -/
theorem Shows.congr (hr : ts'.cursorRow = ts.cursorRow) (hcol : ts'.cursorCol = ts.cursorCol)
    (hcells : ts'.textCells = ts.textCells) : Shows rows cols s ts' :=
  ⟨by rw [hr]; exact h.cursorRow, by rw [hcol]; exact h.cursorCol, h.inside,
    fun i j hi hj => by rw [hcells]; exact h.cells i j hi hj, h.below⟩

theorem Shows.moveCol (hn : n < cols) :
    Shows rows cols { s with col := n } { ts with cursorCol := n } :=
  ⟨h.cursorRow, rfl, hn, h.cells, h.below⟩

variable (hc : cols ≤ vgaWidth)

include hc

/-- A cell of the cursor's row is the same one on screen and on the sheet. -/
theorem Shows.write (col : Nat) (hj : col < cols) (c : UInt8) :
    Shows rows cols (s.write s.row col c) (ts.setCell (cellIndex ts.cursorRow col) c) := by
  have hrow := h.cursorRow
  constructor
  · exact hrow
  · exact h.cursorCol
  · exact h.inside
  · intro i j hi hjc
    by_cases he : ts.cursorRow = i ∧ col = j
    · obtain ⟨rfl, rfl⟩ := he
      rw [setCell_same]
      simp only [Sheet.write]
      rw [if_pos]
      simp only [Sheet.top, and_true] at hrow ⊢
      omega
    · rw [setCell_other ts c (by omega) (by omega) he, h.cells i j hi hjc]
      simp only [Sheet.write]
      rw [if_neg]
      · rfl
      · simp only [Sheet.top] at hrow ⊢
        omega
  · intro i j hi
    have hne : ¬(i = s.row ∧ j = col) := by
      have : s.row < i := hi
      omega
    simp only [Sheet.write, if_neg hne]
    exact h.below i j hi

/-- A new line either moves the cursor down or scrolls the window by one row. -/
theorem Shows.nextLine (h0 : 0 < rows) (h1 : 0 < cols) : Shows rows cols s.nextLine
    (scrollIfNeeded rows cols { ts with cursorCol := 0, cursorRow := ts.cursorRow + 1 }).1 := by
  have hrow := h.cursorRow
  have hlt := h.row_lt
  have htop : s.nextLine.top rows = s.row + 2 - rows := rfl
  by_cases hfit : ts.cursorRow + 1 < rows
  · have hsame : s.nextLine.top rows = s.top rows := by
      rw [htop]
      unfold Sheet.top at hrow ⊢
      omega
    unfold scrollIfNeeded
    rw [if_pos hfit]
    constructor
    · rw [hsame]
      simp only [Sheet.nextLine_row]
      omega
    · rfl
    · exact h1
    · intro i j hi hj
      rw [hsame]
      exact h.cells i j hi hj
    · intro i j hi
      exact h.below i j (Nat.lt_of_succ_lt hi)
  · have hnext : s.nextLine.top rows = s.top rows + 1 := by
      rw [htop]
      unfold Sheet.top at hrow ⊢
      omega
    obtain ⟨hr, hcol, hcells⟩ := scrollIfNeeded_scrolled
      { ts with cursorCol := 0, cursorRow := ts.cursorRow + 1 } (by simpa using hfit) h0 hc
    constructor
    · rw [hr, hnext, Sheet.nextLine_row]
      omega
    · exact hcol
    · exact h1
    · intro i j hi hj
      rw [hcells i j hi hj, hnext]
      by_cases hlast : i + 1 < rows
      · rw [if_pos hlast]
        have hcell := h.cells (i + 1) j hlast hj
        rw [hcell, Nat.add_comm i 1, ← Nat.add_assoc]
        rfl
      · rw [if_neg hlast]
        apply (h.below _ j _).symm
        omega
    · intro i j hi
      exact h.below i j (Nat.lt_of_succ_lt hi)

theorem Shows.put (h0 : 0 < rows) (h1 : 0 < cols) (c : UInt8) :
    Shows rows cols (s.put cols c) (displayPutCharInternal rows cols ts c).1 := by
  unfold Sheet.put displayPutCharInternal
  by_cases hn : c = newlineChar
  · rw [if_pos hn, if_pos hn]
    exact h.nextLine hc h0 h1
  · rw [if_neg hn, if_neg hn]
    have hcol := h.cursorCol
    have hin := h.inside
    by_cases hb : c = backspaceChar
    · rw [if_pos hb, if_pos hb]
      by_cases hz : s.col = 0
      · rw [if_pos hz, if_neg (by omega)]
        exact h
      · rw [if_neg hz, if_pos (by omega)]
        have hw := h.write hc (s.col - 1) (by omega) blankChar
        have hm := hw.moveCol (n := s.col - 1) (by omega)
        apply hm.congr
        · simp
        · simp [hcol]
        · simp [hcol]
    · rw [if_neg hb, if_neg hb]
      have hw := h.write hc s.col hin c
      by_cases hlast : s.col + 1 < cols
      · rw [if_pos hlast, if_neg (by simp [hcol]; omega)]
        have hm := hw.moveCol (n := s.col + 1) hlast
        apply hm.congr
        · simp
        · simp [hcol]
        · simp [hcol]
      · rw [if_neg hlast, if_pos (by simp [hcol]; omega)]
        have hm : Shows rows cols (s.write s.row s.col c)
            ((ts.setCell (cellIndex ts.cursorRow ts.cursorCol) c).terminalMarkDirtyCell
              ts.cursorRow ts.cursorCol) :=
          hw.congr (by simp) (by simp) (by simp [hcol])
        exact hm.nextLine hc h0 h1

end Shows

/-- Printing on a terminal; `deferred` tells whether a refresh is held back by
`display_begin_update`. -/
inductive TextCall where
  | putChar (c : UInt8) (deferred : Bool)
  | print (s : List UInt8) (deferred : Bool)

/-- The characters a call prints; `display_print` stops at the NUL. -/
def TextCall.chars : TextCall → List UInt8
  | .putChar c _ => [c]
  | .print s _ => cString s

/-- The call on a viewport of `rows` rows and `cols` columns. -/
def textCall (rows cols : Nat) (ts : TerminalState) : TextCall → TerminalState
  | .putChar c deferred => displayPutChar rows cols deferred ts c
  | .print s deferred => displayPrint rows cols deferred ts s

section Run

variable {rows cols : Nat} (h0 : 0 < rows) (h1 : 0 < cols) (hc : cols ≤ vgaWidth)

include h0 h1 hc

theorem Shows.putAll (h : Shows rows cols s ts) (chars : List UInt8) :
    Shows rows cols (chars.foldl (Sheet.put cols) s) (displayPutChars rows cols ts chars) := by
  induction chars generalizing s ts with
  | nil => exact h
  | cons c cs ih => exact ih (h.put hc h0 h1 c)

omit h0 h1 hc in
/-- A refresh finds the cursor inside the viewport. -/
theorem Shows.refresh (h : Shows rows cols s ts) (deferred : Bool) :
    Shows rows cols s (displayRequestRefresh rows cols deferred ts) := by
  have hr := h.row_lt
  have hcol := h.cursorCol
  have hin := h.inside
  unfold displayRequestRefresh
  cases deferred with
  | true => exact h
  | false =>
    apply h.congr
    · exact if_neg (Nat.not_le.mpr hr)
    · exact if_neg (by omega)
    · rfl

theorem Shows.call (h : Shows rows cols s ts) (call : TextCall) :
    Shows rows cols (call.chars.foldl (Sheet.put cols) s) (textCall rows cols ts call) := by
  cases call with
  | putChar c deferred => exact (h.put hc h0 h1 c).refresh deferred
  | print text deferred =>
    have hp := h.putAll h0 h1 hc (cString text)
    simp only [TextCall.chars, textCall, displayPrint]
    split
    · exact hp
    · exact hp.refresh deferred

theorem Shows.calls (h : Shows rows cols s ts) (calls : List TextCall) :
    Shows rows cols ((calls.flatMap TextCall.chars).foldl (Sheet.put cols) s)
      (calls.foldl (textCall rows cols) ts) := by
  induction calls generalizing s ts with
  | nil => exact h
  | cons call calls ih =>
    rw [List.flatMap_cons, List.foldl_append]
    exact ih (h.call h0 h1 hc call)

/-- A cleared terminal shows the top of a blank sheet. -/
theorem shows_clear (hr : rows ≤ gfxMaxRows) (ts : TerminalState) :
    Shows rows cols Sheet.blank (displayClear rows cols ts) := by
  have htop : Sheet.blank.top rows = 0 := Nat.sub_eq_zero_of_le h0
  unfold displayClear
  constructor
  · simp [htop]
    rfl
  · simp
    rfl
  · exact h1
  · intro i j hi hj
    simp only [markDirtyVisible_cells]
    apply if_pos
    unfold cellIndex gfxMaxCols gfxMaxRows vgaWidth at *
    omega
  · intro i j _
    rfl

end Run

/-- The text screen is a window on an unbounded sheet: after any characters
printed on a cleared terminal the visible cells are the rows of the sheet that
end at the cursor, and the cursor is where the sheet has it. -/
theorem text_screen_is_window (rows cols : Nat) (hr : 1 ≤ rows ∧ rows ≤ 75)
    (hc : 1 ≤ cols ∧ cols ≤ 80) (ts : TerminalState) (calls : List TextCall) :
    let sheet := (calls.flatMap TextCall.chars).foldl (Sheet.put cols) Sheet.blank
    let screen := calls.foldl (textCall rows cols)
      (clampCursor rows cols (displayClear rows cols ts))
    let top := sheet.row + 1 - rows
    (∀ i j, i < rows → j < cols →
      screen.textCells (cellIndex i j) = sheet.cell (top + i) j) ∧
    screen.cursorRow = sheet.row - top ∧ screen.cursorCol = sheet.col ∧
    screen.cursorRow < rows ∧ screen.cursorCol < cols := by
  intro sheet screen top
  have hstart := (shows_clear hr.1 hc.1 hc.2 hr.2 ts).refresh false
  have h : Shows rows cols sheet screen := hstart.calls hr.1 hc.1 hc.2 calls
  have hrow := h.cursorRow
  have hcol := h.cursorCol
  refine ⟨h.cells, ?_, hcol, h.row_lt, ?_⟩
  · exact Nat.eq_sub_of_add_eq hrow
  · rw [hcol]
    exact h.inside

/-- Two rows of two columns after `ab`, a wrap, a backspace that does nothing and
a newline: the first row has scrolled away. -/
theorem text_screen_is_window_scrolled :
    let sheet := [97, 98, backspaceChar, newlineChar, 99].foldl (Sheet.put 2) Sheet.blank
    let screen := [TextCall.print [97, 98, backspaceChar, newlineChar, 99, 0] false].foldl
      (textCall 2 2) (clampCursor 2 2 (displayClear 2 2 .zero))
    screen.textCells (cellIndex 1 0) = sheet.cell 2 0 ∧ screen.cursorRow = 1 ∧
      screen.cursorCol = 1 := by
  have h := text_screen_is_window 2 2 (by decide) (by decide) .zero
    [.print [97, 98, backspaceChar, newlineChar, 99, 0] false]
  exact ⟨h.1 1 0 (by decide) (by decide), h.2.1, h.2.2.1⟩

end VertexOS
