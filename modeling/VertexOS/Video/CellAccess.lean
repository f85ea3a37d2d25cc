import VertexOS.Library.Programs
import VertexOS.Video.Grid

namespace VertexOS.Checked
open Library.Programs TerminalState

/-- The number of cells that `text_cells` and `text_cells_dirty` hold. -/
def cellCount : Nat := gfxMaxCols * gfxMaxRows

/-- `text_cells[idx]` is read. Outside the array a program stops, here and below. -/
def readCell (idx : Nat) : Prog TerminalState UInt8 := fun ts =>
  if idx < cellCount then some (ts.textCells idx, ts) else none

def readDirty (idx : Nat) : Prog TerminalState Bool := fun ts =>
  if idx < cellCount then some (ts.textCellsDirty idx, ts) else none

/-- `text_cells[idx] = c; text_cells_dirty[idx] = 1u`. -/
def writeCell (idx : Nat) (c : UInt8) : Prog TerminalState PUnit := fun ts =>
  if idx < cellCount then some (⟨⟩, ts.setCell idx c) else none

/-- `text_cells_dirty[idx] = 0u`. -/
def cleanCell (idx : Nat) : Prog TerminalState PUnit := fun ts =>
  if idx < cellCount then
    some (⟨⟩, { ts with textCellsDirty := Function.update ts.textCellsDirty idx false })
  else none

def scrollIfNeeded (rows cols : Nat) : Prog TerminalState Bool := do
  let ts ← get
  if ts.cursorRow < rows then return false
  forM (List.range (rows - 1)) fun row => forM (List.range cols) fun col => do
    let c ← readCell (cellIndex (row + 1) col)
    writeCell (cellIndex row col) c
  forM (List.range cols) fun col => writeCell (cellIndex (rows - 1) col) blankChar
  modify fun ts => { ts with cursorRow := rows - 1 }.terminalMarkDirtyVisible rows cols
  return true

/-- The cursor goes to the start of the next row. -/
def nextLine (rows cols : Nat) : Prog TerminalState Bool := do
  modify fun ts => { ts with cursorCol := 0, cursorRow := ts.cursorRow + 1 }
  scrollIfNeeded rows cols

/-- The cursor goes on by a cell, and to the next row at the end of its own. -/
def advance (rows cols : Nat) : Prog TerminalState Bool := do
  modify fun ts => { ts with cursorCol := ts.cursorCol + 1 }
  let ts ← get
  if ts.cursorCol ≥ cols then nextLine rows cols else return false

/-- `display_put_char_internal` on the cells. -/
def putChar (rows cols : Nat) (c : UInt8) : Prog TerminalState Bool := do
  if c = newlineChar then nextLine rows cols
  else
    let ts ← get
    if c = backspaceChar then
      if ts.cursorCol > 0 then
        modify fun ts => { ts with cursorCol := ts.cursorCol - 1 }
        writeCell (cellIndex ts.cursorRow (ts.cursorCol - 1)) blankChar
        modify fun ts => ts.terminalMarkDirtyCell ts.cursorRow ts.cursorCol
      return false
    else
      writeCell (cellIndex ts.cursorRow ts.cursorCol) c
      modify fun ts => ts.terminalMarkDirtyCell ts.cursorRow ts.cursorCol
      advance rows cols

/-- Every cell is blank and dirty. -/
def blankCells : Prog TerminalState PUnit :=
  forM (List.range cellCount) fun i => writeCell i blankChar

/-- `display_clear` on the cells. -/
def clearTerminal (rows cols : Nat) : Prog TerminalState PUnit := do
  blankCells
  modify fun ts => { ts with cursorRow := 0, cursorCol := 0 }.terminalMarkDirtyVisible rows cols

section Terminal

variable {rows cols row col idx : Nat} {ts : TerminalState}

theorem cellIndex_lt (hr : row < gfxMaxRows) (hc : col < gfxMaxCols) :
    cellIndex row col < cellCount := by
  simp only [cellIndex, cellCount, gfxMaxCols, gfxMaxRows, vgaWidth] at *
  omega

theorem readCell_run (h : idx < cellCount) :
    readCell idx ts = some (ts.textCells idx, ts) := if_pos h

theorem readDirty_run (h : idx < cellCount) :
    readDirty idx ts = some (ts.textCellsDirty idx, ts) := if_pos h

theorem writeCell_run (h : idx < cellCount) (c : UInt8) :
    writeCell idx c ts = some (⟨⟩, ts.setCell idx c) := if_pos h

theorem cleanCell_run (h : idx < cellCount) : cleanCell idx ts =
    some (⟨⟩, { ts with textCellsDirty := Function.update ts.textCellsDirty idx false }) :=
  if_pos h

theorem scrollIfNeeded_run (hv : FitsGrid rows cols) (ts : TerminalState) :
    scrollIfNeeded rows cols ts = some ((TerminalState.scrollIfNeeded rows cols ts).2,
      (TerminalState.scrollIfNeeded rows cols ts).1) := by
  obtain ⟨⟨h0, h1⟩, -, h3⟩ := hv
  have hrow : ∀ row < rows - 1, ∀ ts, (forM (List.range cols) fun col => do
      let c ← readCell (cellIndex (row + 1) col)
      writeCell (cellIndex row col) c : Prog TerminalState PUnit) ts =
      some (⟨⟩, scrollRow (row + 1) ts cols) := by
    intro row hr ts
    refine forM_range_run (fun col => scrollRow (row + 1) ts col) ?_
    intro col hc
    rw [bind_run (readCell_run (cellIndex_lt (by omega) (by omega))),
      writeCell_run (cellIndex_lt (by omega) (by omega))]
    rfl
  have hrows : (forM (List.range (rows - 1)) fun row => forM (List.range cols) fun col => do
      let c ← readCell (cellIndex (row + 1) col)
      writeCell (cellIndex row col) c : Prog TerminalState PUnit) ts =
      some (⟨⟩, scrollRows cols ts (rows - 1)) :=
    forM_range_run (fun row => scrollRows cols ts row) fun row hr => hrow row hr _
  have hblank : ∀ ts, (forM (List.range cols) fun col =>
      writeCell (cellIndex (rows - 1) col) blankChar : Prog TerminalState PUnit) ts =
      some (⟨⟩, blankRow (rows - 1) ts cols) := by
    intro ts
    refine forM_range_run (fun col => blankRow (rows - 1) ts col) ?_
    intro col hc
    exact writeCell_run (cellIndex_lt (by omega) (by omega)) blankChar
  rw [scrollIfNeeded, get_bind_run, TerminalState.scrollIfNeeded]
  split
  · rfl
  · rw [bind_run hrows, bind_run (hblank _), modify_bind_run]
    rfl

theorem nextLine_run (hv : FitsGrid rows cols) (ts : TerminalState) : nextLine rows cols ts =
    some ((TerminalState.scrollIfNeeded rows cols
        { ts with cursorCol := 0, cursorRow := ts.cursorRow + 1 }).2,
      (TerminalState.scrollIfNeeded rows cols
        { ts with cursorCol := 0, cursorRow := ts.cursorRow + 1 }).1) := by
  rw [nextLine, modify_bind_run]
  exact scrollIfNeeded_run hv _

theorem advance_run (hv : FitsGrid rows cols) (ts : TerminalState) : advance rows cols ts =
    some ((if ts.cursorCol + 1 ≥ cols then TerminalState.scrollIfNeeded rows cols
          { ts with cursorCol := 0, cursorRow := ts.cursorRow + 1 }
        else ({ ts with cursorCol := ts.cursorCol + 1 }, false)).2,
      (if ts.cursorCol + 1 ≥ cols then TerminalState.scrollIfNeeded rows cols
          { ts with cursorCol := 0, cursorRow := ts.cursorRow + 1 }
        else ({ ts with cursorCol := ts.cursorCol + 1 }, false)).1) := by
  rw [advance, modify_bind_run, get_bind_run]
  split
  · exact nextLine_run hv _
  · rfl

/-- With the cursor on the grid no character is written outside. -/
theorem putChar_run (hv : FitsGrid rows cols) (h : InGrid ts) (c : UInt8) :
    putChar rows cols c ts =
      some ((TerminalState.displayPutCharInternal rows cols ts c).2,
        (TerminalState.displayPutCharInternal rows cols ts c).1) := by
  have hrow := h.row
  have hcol := h.col
  rw [putChar, TerminalState.displayPutCharInternal]
  split
  · exact nextLine_run hv ts
  · rw [get_bind_run]
    split
    · split
      · have hidx : cellIndex ts.cursorRow (ts.cursorCol - 1) < cellCount :=
          cellIndex_lt hrow (by omega)
        rw [modify_bind_run, bind_run (writeCell_run hidx blankChar), modify_bind_run]
        rfl
      · rfl
    · rw [bind_run (writeCell_run (cellIndex_lt hrow hcol) c), modify_bind_run]
      exact advance_run hv _

/-- One more place that has the value. -/
theorem update_below {α : Type} (f : Nat → α) (a : α) (n : Nat) :
    Function.update (fun i => if i < n then a else f i) n a =
      fun i => if i < n + 1 then a else f i := by
  funext i
  by_cases hi : i = n
  · rw [hi, Function.update_self, if_pos n.lt_succ_self]
  · have hiff : i < n + 1 ↔ i < n := by omega
    simp only [Function.update_of_ne hi, hiff]

theorem blankCells_run (ts : TerminalState) : blankCells ts = some (⟨⟩, { ts with
    textCells := fun i => if i < cellCount then blankChar else ts.textCells i
    textCellsDirty := fun i => if i < cellCount then true else ts.textCellsDirty i }) := by
  have hrun := forM_range_run (n := cellCount) (f := fun i => writeCell i blankChar)
    (fun n => { ts with
      textCells := fun i => if i < n then blankChar else ts.textCells i
      textCellsDirty := fun i => if i < n then true else ts.textCellsDirty i }) ?_
  · exact hrun
  · intro n hn
    rw [writeCell_run hn]
    refine congrArg (fun ts' => some (PUnit.unit, ts')) ?_
    simp only [setCell, TerminalState.mk.injEq, true_and, and_true]
    exact ⟨update_below _ blankChar n, update_below _ true n⟩

theorem clearTerminal_run (rows cols : Nat) (ts : TerminalState) :
    clearTerminal rows cols ts = some (⟨⟩, TerminalState.displayClear rows cols ts) := by
  rw [clearTerminal, bind_run (blankCells_run ts)]
  rfl

end Terminal

end VertexOS.Checked
