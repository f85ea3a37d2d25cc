import VertexOS.Fs.SimpleFs

namespace VertexOS

def vgaWidth : Nat := 80
def vgaHeight : Nat := 25
def gfxMaxCols : Nat := vgaWidth
def gfxMaxRows : Nat := 75

/-- `' '`, `'\n'` and `'\b'`. -/
def blankChar : UInt8 := 32
def newlineChar : UInt8 := 10
def backspaceChar : UInt8 := 8

/-- Rows, columns and cell indices stay below 6000, so `Nat` is the code's `u32`. -/
structure TerminalState where
  cursorRow : Nat
  cursorCol : Nat
  textCells : Nat → UInt8
  textCellsDirty : Nat → Bool
  dirtyAny : Bool
  dirtyMinRow : Nat
  dirtyMaxRow : Nat
  dirtyMinCol : Nat
  dirtyMaxCol : Nat

/-- A terminal before `display_init`. -/
def TerminalState.zero : TerminalState :=
  ⟨0, 0, fun _ => 0, fun _ => false, false, 0, 0, 0, 0⟩

/-- The place of a cell in `text_cells`. -/
def cellIndex (row col : Nat) : Nat := row * vgaWidth + col

namespace TerminalState

/-- `text_cells[idx] = c; text_cells_dirty[idx] = 1u`. -/
def setCell (ts : TerminalState) (idx : Nat) (c : UInt8) : TerminalState :=
  { ts with
    textCells := Function.update ts.textCells idx c
    textCellsDirty := Function.update ts.textCellsDirty idx true }

def terminalMarkDirtyCell (ts : TerminalState) (row col : Nat) : TerminalState :=
  if row ≥ gfxMaxRows ∨ col ≥ gfxMaxCols then ts
  else if ¬ts.dirtyAny then
    { ts with
      dirtyAny := true
      dirtyMinRow := row
      dirtyMaxRow := row
      dirtyMinCol := col
      dirtyMaxCol := col }
  else
    { ts with
      dirtyMinRow := min row ts.dirtyMinRow
      dirtyMaxRow := max row ts.dirtyMaxRow
      dirtyMinCol := min col ts.dirtyMinCol
      dirtyMaxCol := max col ts.dirtyMaxCol }

def terminalMarkDirtyVisible (ts : TerminalState) (rows cols : Nat) : TerminalState :=
  if rows = 0 ∨ cols = 0 then ts
  else
    { ts with
      dirtyAny := true
      dirtyMinRow := 0
      dirtyMinCol := 0
      dirtyMaxRow := rows - 1
      dirtyMaxCol := cols - 1 }

/-- The loop of `scroll_if_needed` over the columns of `row`. -/
def scrollRow (row : Nat) (ts : TerminalState) : Nat → TerminalState
  | 0 => ts
  | col + 1 =>
    let ts := scrollRow row ts col
    ts.setCell (cellIndex (row - 1) col) (ts.textCells (cellIndex row col))

/-- Its loop over the rows from 1 on. -/
def scrollRows (cols : Nat) (ts : TerminalState) : Nat → TerminalState
  | 0 => ts
  | row + 1 => scrollRow (row + 1) (scrollRows cols ts row) cols

/-- Its loop over the last row. -/
def blankRow (row : Nat) (ts : TerminalState) : Nat → TerminalState
  | 0 => ts
  | col + 1 => (blankRow row ts col).setCell (cellIndex row col) blankChar

/-- `scroll_if_needed`, and whether it scrolled. -/
def scrollIfNeeded (rows cols : Nat) (ts : TerminalState) : TerminalState × Bool :=
  if ts.cursorRow < rows then (ts, false)
  else
    let ts := scrollRows cols ts (rows - 1)
    let ts := blankRow (rows - 1) ts cols
    (terminalMarkDirtyVisible { ts with cursorRow := rows - 1 } rows cols, true)

/-- `display_put_char_internal` up to its refresh, and whether it sets
`terminal_force_full_redraw`. -/
def displayPutCharInternal (rows cols : Nat) (ts : TerminalState) (c : UInt8) :
    TerminalState × Bool :=
  if c = newlineChar then
    scrollIfNeeded rows cols { ts with cursorCol := 0, cursorRow := ts.cursorRow + 1 }
  else if c = backspaceChar then
    if ts.cursorCol > 0 then
      let ts := { ts with cursorCol := ts.cursorCol - 1 }
      let ts := ts.setCell (cellIndex ts.cursorRow ts.cursorCol) blankChar
      (ts.terminalMarkDirtyCell ts.cursorRow ts.cursorCol, false)
    else (ts, false)
  else
    let ts := ts.setCell (cellIndex ts.cursorRow ts.cursorCol) c
    let ts := ts.terminalMarkDirtyCell ts.cursorRow ts.cursorCol
    let ts := { ts with cursorCol := ts.cursorCol + 1 }
    if ts.cursorCol ≥ cols then
      scrollIfNeeded rows cols { ts with cursorCol := 0, cursorRow := ts.cursorRow + 1 }
    else (ts, false)

/-- The cursor check at the head of `display_refresh`. -/
def clampCursor (rows cols : Nat) (ts : TerminalState) : TerminalState :=
  { ts with
    cursorRow := if ts.cursorRow ≥ rows then rows - 1 else ts.cursorRow
    cursorCol := if ts.cursorCol ≥ cols then cols - 1 else ts.cursorCol }

/-- What `display_request_refresh` does to the cells and the cursor. -/
def displayRequestRefresh (rows cols : Nat) (deferred : Bool) (ts : TerminalState) :
    TerminalState :=
  if deferred then ts else clampCursor rows cols ts

def displayPutChar (rows cols : Nat) (deferred : Bool) (ts : TerminalState) (c : UInt8) :
    TerminalState :=
  displayRequestRefresh rows cols deferred (displayPutCharInternal rows cols ts c).1

/-- The loop of `display_print`. -/
def displayPutChars (rows cols : Nat) (ts : TerminalState) (s : List UInt8) : TerminalState :=
  s.foldl (fun ts c => (displayPutCharInternal rows cols ts c).1) ts

def displayPrint (rows cols : Nat) (deferred : Bool) (ts : TerminalState) (s : List UInt8) :
    TerminalState :=
  let ts := displayPutChars rows cols ts (cString s)
  if cString s = [] then ts else displayRequestRefresh rows cols deferred ts

/-- The cells and the cursor `display_clear` leaves. -/
def displayClear (rows cols : Nat) (ts : TerminalState) : TerminalState :=
  let size := gfxMaxCols * gfxMaxRows
  terminalMarkDirtyVisible
    { ts with
      textCells := fun i => if i < size then blankChar else ts.textCells i
      textCellsDirty := fun i => if i < size then true else ts.textCellsDirty i
      cursorRow := 0
      cursorCol := 0 } rows cols

/-- `display_set_cursor` up to its refresh. -/
def displaySetCursor (rows cols : Nat) (ts : TerminalState) (row col : Nat) : TerminalState :=
  { ts with
    cursorRow := if row ≥ rows then rows - 1 else row
    cursorCol := if col ≥ cols then cols - 1 else col }

@[simp] theorem setCell_cursorRow (ts : TerminalState) (idx : Nat) (c : UInt8) :
    (ts.setCell idx c).cursorRow = ts.cursorRow := rfl

@[simp] theorem setCell_cursorCol (ts : TerminalState) (idx : Nat) (c : UInt8) :
    (ts.setCell idx c).cursorCol = ts.cursorCol := rfl

@[simp] theorem setCell_textCells (ts : TerminalState) (idx : Nat) (c : UInt8) :
    (ts.setCell idx c).textCells = Function.update ts.textCells idx c := rfl

/-- Marking touches neither the cells nor the cursor. -/
@[simp] theorem markDirtyCell_cells (ts : TerminalState) (row col : Nat) :
    (ts.terminalMarkDirtyCell row col).textCells = ts.textCells ∧
    (ts.terminalMarkDirtyCell row col).cursorRow = ts.cursorRow ∧
    (ts.terminalMarkDirtyCell row col).cursorCol = ts.cursorCol := by
  unfold terminalMarkDirtyCell
  split
  · simp
  · split <;> simp

@[simp] theorem markDirtyVisible_cells (ts : TerminalState) (rows cols : Nat) :
    (ts.terminalMarkDirtyVisible rows cols).textCells = ts.textCells ∧
    (ts.terminalMarkDirtyVisible rows cols).cursorRow = ts.cursorRow ∧
    (ts.terminalMarkDirtyVisible rows cols).cursorCol = ts.cursorCol := by
  unfold terminalMarkDirtyVisible
  split <;> simp

theorem cellIndex_inj (h : cellIndex i j = cellIndex k l) (hj : j < vgaWidth)
    (hl : l < vgaWidth) : i = k ∧ j = l := by
  unfold cellIndex vgaWidth at *
  omega

theorem setCell_same (ts : TerminalState) (c : UInt8) :
    (ts.setCell (cellIndex i j) c).textCells (cellIndex i j) = c := by
  simp

theorem setCell_other (ts : TerminalState) (c : UInt8) (hj : j < vgaWidth) (hl : l < vgaWidth)
    (h : ¬(i = k ∧ j = l)) :
    (ts.setCell (cellIndex i j) c).textCells (cellIndex k l) = ts.textCells (cellIndex k l) := by
  rw [setCell_textCells, Function.update_of_ne]
  intro he
  exact h (cellIndex_inj he.symm hj hl)

/-- One row moved up: its columns below `n`, and no other cell. -/
theorem scrollRow_cells (ts : TerminalState) (row : Nat) (hn : n ≤ vgaWidth)
    (hl : l < vgaWidth) :
    (scrollRow (row + 1) ts n).textCells (cellIndex k l) =
      if k = row ∧ l < n then ts.textCells (cellIndex (row + 1) l)
      else ts.textCells (cellIndex k l) := by
  induction n generalizing k l with
  | zero => simp [scrollRow]
  | succ n ih =>
    simp only [scrollRow, Nat.add_sub_cancel]
    by_cases he : row = k ∧ n = l
    · obtain ⟨rfl, rfl⟩ := he
      rw [setCell_same, ih (by omega) hl, if_neg (by omega), if_pos (by omega)]
    · rw [setCell_other _ _ (by omega) hl he, ih (by omega) hl]
      apply if_congr _ rfl rfl
      omega

theorem scrollRows_cells (ts : TerminalState) (hc : cols ≤ vgaWidth) (hl : l < vgaWidth) :
    (scrollRows cols ts n).textCells (cellIndex k l) =
      if k < n ∧ l < cols then ts.textCells (cellIndex (k + 1) l)
      else ts.textCells (cellIndex k l) := by
  induction n generalizing k l with
  | zero => simp [scrollRows]
  | succ n ih =>
    rw [scrollRows, scrollRow_cells _ n hc hl, ih hl, ih hl]
    by_cases hk : k = n
    · subst hk
      have hlt : ¬k + 1 < k := by omega
      simp [hlt]
    · by_cases hkn : k < n
      · simp [hk, hkn, Nat.lt_succ_of_lt hkn]
      · have : ¬k < n + 1 := by omega
        simp [hk, hkn, this]

theorem blankRow_cells (ts : TerminalState) (row : Nat) (hn : n ≤ vgaWidth)
    (hl : l < vgaWidth) :
    (blankRow row ts n).textCells (cellIndex k l) =
      if k = row ∧ l < n then blankChar else ts.textCells (cellIndex k l) := by
  induction n generalizing k l with
  | zero => simp [blankRow]
  | succ n ih =>
    rw [blankRow]
    by_cases he : row = k ∧ n = l
    · obtain ⟨rfl, rfl⟩ := he
      rw [setCell_same, if_pos (by omega)]
    · rw [setCell_other _ _ (by omega) hl he, ih (by omega) hl]
      apply if_congr _ rfl rfl
      omega

@[simp] theorem scrollRow_cursor (ts : TerminalState) (row n : Nat) :
    (scrollRow row ts n).cursorRow = ts.cursorRow ∧
      (scrollRow row ts n).cursorCol = ts.cursorCol := by
  induction n with
  | zero => simp [scrollRow]
  | succ n ih => simp [scrollRow, ih]

@[simp] theorem scrollRows_cursor (ts : TerminalState) (cols n : Nat) :
    (scrollRows cols ts n).cursorRow = ts.cursorRow ∧
      (scrollRows cols ts n).cursorCol = ts.cursorCol := by
  induction n with
  | zero => simp [scrollRows]
  | succ n ih => simp [scrollRows, ih]

@[simp] theorem blankRow_cursor (ts : TerminalState) (row n : Nat) :
    (blankRow row ts n).cursorRow = ts.cursorRow ∧
      (blankRow row ts n).cursorCol = ts.cursorCol := by
  induction n with
  | zero => simp [blankRow]
  | succ n ih => simp [blankRow, ih]

/-- What a scroll that happens leaves. -/
theorem scrollIfNeeded_scrolled (ts : TerminalState) (hr : rows ≤ ts.cursorRow) (h0 : 0 < rows)
    (hc : cols ≤ vgaWidth) :
    (scrollIfNeeded rows cols ts).1.cursorRow = rows - 1 ∧
    (scrollIfNeeded rows cols ts).1.cursorCol = ts.cursorCol ∧
    ∀ k l, k < rows → l < cols →
      (scrollIfNeeded rows cols ts).1.textCells (cellIndex k l) =
        if k + 1 < rows then ts.textCells (cellIndex (k + 1) l) else blankChar := by
  unfold scrollIfNeeded
  rw [if_neg (Nat.not_lt.mpr hr)]
  simp only [markDirtyVisible_cells, blankRow_cursor, scrollRows_cursor, true_and]
  intro k l hk hl
  rw [blankRow_cells _ _ hc (by omega), scrollRows_cells _ hc (by omega)]
  by_cases hlast : k = rows - 1
  · rw [if_pos ⟨hlast, hl⟩, if_neg (by omega)]
  · rw [if_neg (by omega), if_pos (by omega), if_pos (by omega)]

end TerminalState

end VertexOS
