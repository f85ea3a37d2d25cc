import VertexOS.Video.CellAccess

namespace VertexOS.Checked
open Library.Programs

/-- A program over the terminal of session `s`. -/
def onTerminal {α : Type} (s : Nat) (m : Prog TerminalState α) : Prog Ui α := fun u =>
  (m (u.terminals s)).map fun r => (r.1, u.setTerminal s r.2)

def terminalStateForActiveUi : Prog Ui Nat := fun u =>
  some (u.terminalStateForActiveUi.2, u.terminalStateForActiveUi.1)

def gfxRenderTerminalContent (w : GuiWindow) : Prog Ui (List FbCall) := do
  let u ← get
  collect (List.range (visibleRowsForWindow u.font (some w))) fun row =>
    collect (List.range (visibleColsForWindow u.font (some w))) fun col => do
      let c ← onTerminal (Ui.windowSession w) (readCell (cellIndex row col))
      return u.cellCalls (u.cellX w col) (u.cellY w row) 0 c

/-- Only the content of a terminal is read from cells. -/
def gfxRenderWindow (i : Nat) : Prog Ui (List FbCall) := do
  let u ← get
  let w := u.windows i
  if w.visible = true ∧ w.role = .terminal ∧ u.rendersContent i = true then
    let content ← gfxRenderTerminalContent w
    return u.windowFrame w ++ content
  else
    set (u.gfxRenderWindow i).2
    return (u.gfxRenderWindow i).1

def gfxRenderWindows : Prog Ui (List FbCall) := collect (List.range winCount) gfxRenderWindow

def gfxRenderScene (g : Geometry) : Prog Ui (List FbCall) := do
  let windows ← gfxRenderWindows
  let u ← get
  set u.gfxRenderCursor.2
  return windows ++ u.gfxRenderTaskbar g ++ u.gfxRenderStartMenu g ++ u.gfxRenderCursor.1

def gfxRenderFull (g : Geometry) (tid : Option Nat) : Prog Ui (List FbCall) := do
  let s ← terminalStateForActiveUi
  let u ← get
  let cols := u.visibleCols g tid
  let ts := u.terminals s
  if ts.cursorCol ≥ cols then set (u.setTerminal s { ts with cursorCol := cols - 1 })
  let calls ← gfxRenderScene g
  return u.gfxRenderBackground g ++ calls

/-- A cell of the screen after a panic. -/
def panicCell (u : Ui) (s row col : Nat) : Prog Ui (List FbCall) := do
  let glyphPad : UInt32 := if gfxUiScale > 1 then 1 else 0
  let c ← onTerminal s (readCell (cellIndex row col))
  onTerminal s (cleanCell (cellIndex row col))
  return u.cellCalls (col.toUInt32 * u.font.gfxCellWidth) (row.toUInt32 * u.font.gfxCellHeight)
    glyphPad c

def gfxRenderPanicFull (g : Geometry) (tid : Option Nat) : Prog Ui (List FbCall) := do
  let s ← terminalStateForActiveUi
  let u ← get
  let cells ← collect (List.range (u.visibleRows g tid)) fun row =>
    collect (List.range (u.visibleCols g tid)) (panicCell u s row)
  return .clear u.gfxBg :: cells

def clearVisibleTextDirty (g : Geometry) (tid : Option Nat) : Prog Ui PUnit := do
  let s ← terminalStateForActiveUi
  let u ← get
  forM (List.range (u.visibleRows g tid)) fun row =>
    forM (List.range (u.visibleCols g tid)) fun col =>
      onTerminal s (cleanCell (cellIndex row col))
  modify fun u => u.setTerminal s (Ui.noDirty (u.terminals s))

def gfxRenderTerminalCell (w : GuiWindow) (row col : Nat) : Prog Ui (List FbCall) := do
  let u ← get
  if row ≥ visibleRowsForWindow u.font (some w) ∨ col ≥ visibleColsForWindow u.font (some w) then
    return []
  else
    let c ← onTerminal (Ui.windowSession w) (readCell (cellIndex row col))
    onTerminal (Ui.windowSession w) (cleanCell (cellIndex row col))
    return u.cellCalls (u.cellX w col) (u.cellY w row) 0 c

/-- A turn of the loop over the dirty rectangle. -/
def dirtyCell (w : GuiWindow) (s : Nat) (cell : Nat × Nat) : Prog Ui (List FbCall) := do
  let dirty ← onTerminal s (readDirty (cellIndex cell.1 cell.2))
  if dirty then gfxRenderTerminalCell w cell.1 cell.2 else return []

def previousCell (w : GuiWindow) (s : Nat) : Prog Ui (List FbCall) := do
  let u ← get
  match u.prevCursor with
  | some (row, col) =>
    if row ≠ (u.terminals s).cursorRow ∨ col ≠ (u.terminals s).cursorCol then
      gfxRenderTerminalCell w row col
    else return []
  | none => return []

def dirtyCells (w : GuiWindow) (s rows cols : Nat) : Prog Ui (List FbCall) := do
  let u ← get
  let ts := u.terminals s
  if ts.dirtyAny then
    let cells := Display.cellRange (Display.clipCell ts.dirtyMinRow rows)
      (Display.clipCell ts.dirtyMaxRow rows) (Display.clipCell ts.dirtyMinCol cols)
      (Display.clipCell ts.dirtyMaxCol cols)
    let calls ← collect cells (dirtyCell w s)
    modify fun u => u.setTerminal s (Ui.noDirty (u.terminals s))
    return calls
  else return []

def incrementalRender (g : Geometry) (tid : Option Nat) : Prog Ui (List FbCall) := do
  let start ← get
  let tw := start.windows start.terminalWindow
  let s ← terminalStateForActiveUi
  let u ← get
  let previous ← previousCell tw s
  let cells ← dirtyCells tw s (u.visibleRows g tid) (u.visibleCols g tid)
  let u ← get
  let u' := u.gfxRenderCursor.2
  set { u' with prevCursor := some ((u'.terminals s).cursorRow, (u'.terminals s).cursorCol) }
  return previous ++ cells ++ u.gfxRenderCursor.1

section Cells

variable {rows cols row col idx s : Nat} {u : Ui} {g : Geometry} {tid : Option Nat} {w : GuiWindow}

theorem cell_lt (hv : FitsGrid rows cols) (hr : row < rows) (hc : col < cols) :
    cellIndex row col < cellCount :=
  cellIndex_lt (Nat.lt_of_lt_of_le hr hv.1.2) (Nat.lt_of_lt_of_le hc hv.2.2)

theorem setTerminal_self (u : Ui) (s : Nat) : u.setTerminal s (u.terminals s) = u := by
  simp only [Ui.setTerminal, Function.update_eq_self]

theorem setTerminal_terminals (u : Ui) (s : Nat) (ts : TerminalState) :
    (u.setTerminal s ts).terminals s = ts := Function.update_self ..

theorem setTerminal_twice (u : Ui) (s : Nat) (ts ts' : TerminalState) :
    (u.setTerminal s ts).setTerminal s ts' = u.setTerminal s ts' := by
  simp only [Ui.setTerminal, Function.update_idem]

theorem onTerminal_run {α : Type} {m : Prog TerminalState α} {a : α} {ts : TerminalState}
    (h : m (u.terminals s) = some (a, ts)) :
    onTerminal s m u = some (a, u.setTerminal s ts) := by
  rw [onTerminal, h]
  rfl

theorem onTerminal_read_run (h : idx < cellCount) : onTerminal s (readCell idx) u =
    some ((u.terminals s).textCells idx, u) := by
  rw [onTerminal_run (readCell_run h), setTerminal_self]

theorem onTerminal_dirty_run (h : idx < cellCount) : onTerminal s (readDirty idx) u =
    some ((u.terminals s).textCellsDirty idx, u) := by
  rw [onTerminal_run (readDirty_run h), setTerminal_self]

theorem renderContent_run (w : GuiWindow) (u : Ui) :
    gfxRenderTerminalContent w u = some (u.gfxRenderTerminalContent w, u) := by
  have hv := windowViewport_fits u.font (some w)
  rw [gfxRenderTerminalContent, get_bind_run]
  refine collect_range_run (fun _ => u) fun row hr => ?_
  refine collect_range_run (fun _ => u) fun col hc => ?_
  rw [bind_run (onTerminal_read_run (cell_lt hv hr hc))]
  rfl

theorem renderWindow_run (i : Nat) (u : Ui) :
    gfxRenderWindow i u = some (u.gfxRenderWindow i) := by
  rw [gfxRenderWindow, get_bind_run]
  split
  · next h =>
    obtain ⟨hvis, hrole, hcontent⟩ := h
    rw [bind_run (renderContent_run (u.windows i) u), Ui.gfxRenderWindow]
    simp only [hvis, hrole, hcontent]
    rfl
  · rfl

theorem renderWindowsFrom_run (u : Ui) (i left : Nat) :
    collect (List.range' i left) gfxRenderWindow u = some (Ui.renderWindowsFrom u i left) := by
  induction left generalizing u i with
  | zero => rfl
  | succ left ih => exact collect_cons_run (renderWindow_run i u) (ih _ (i + 1))

theorem renderScene_run (g : Geometry) (u : Ui) :
    gfxRenderScene g u = some (u.gfxRenderScene g) := by
  have hwindows : gfxRenderWindows u = some u.gfxRenderWindows := by
    rw [gfxRenderWindows, List.range_eq_range']
    exact renderWindowsFrom_run u 0 winCount
  rw [gfxRenderScene, bind_run hwindows]
  rfl

theorem activeUi_run (u : Ui) : terminalStateForActiveUi u =
    some (u.terminalStateForActiveUi.2, u.terminalStateForActiveUi.1) := rfl

theorem renderFull_run (g : Geometry) (tid : Option Nat) (u : Ui) :
    gfxRenderFull g tid u = some (u.gfxRenderFull g tid) := by
  rw [gfxRenderFull, bind_run (activeUi_run u), get_bind_run, Ui.gfxRenderFull]
  dsimp only
  split
  · rw [set_bind_run, bind_run (renderScene_run g _)]
    rfl
  · rw [bind_run (renderScene_run g _)]
    rfl

theorem clearDirtyRow_cells (row : Nat) (ts : TerminalState) (n : Nat) :
    (Ui.clearDirtyRow row ts n).textCells = ts.textCells := by
  induction n with
  | zero => rfl
  | succ n ih => exact ih

theorem clearDirtyRows_cells (cols : Nat) (ts : TerminalState) (n : Nat) :
    (Ui.clearDirtyRows cols ts n).textCells = ts.textCells := by
  induction n with
  | zero => rfl
  | succ n ih => rw [Ui.clearDirtyRows, clearDirtyRow_cells, ih]

/-- A turn of a loop that marks the cells of a row as drawn. -/
theorem cleanCell_turn {n : Nat} (h : cellIndex row n < cellCount) (ts : TerminalState) :
    onTerminal s (cleanCell (cellIndex row n)) (u.setTerminal s (Ui.clearDirtyRow row ts n)) =
      some (⟨⟩, u.setTerminal s (Ui.clearDirtyRow row ts (n + 1))) := by
  rw [onTerminal_run (cleanCell_run h), setTerminal_terminals, setTerminal_twice]
  rfl

theorem renderPanic_run (g : Geometry) (tid : Option Nat) (u : Ui) :
    gfxRenderPanicFull g tid u = some (u.gfxRenderPanicFull g tid) := by
  rw [gfxRenderPanicFull, bind_run (activeUi_run u), get_bind_run, Ui.gfxRenderPanicFull]
  dsimp only
  generalize u.terminalStateForActiveUi.1 = v
  generalize u.terminalStateForActiveUi.2 = s
  have hv := uiViewport_fits v g tid
  generalize hrows : v.visibleRows g tid = rows at hv ⊢
  generalize hcols : v.visibleCols g tid = cols at hv ⊢
  have hcell : ∀ row < rows, ∀ col < cols, panicCell v s row col
      (v.setTerminal s (Ui.clearDirtyRow row (Ui.clearDirtyRows cols (v.terminals s) row) col)) =
      some (v.cellCalls (col.toUInt32 * v.font.gfxCellWidth) (row.toUInt32 * v.font.gfxCellHeight)
          (if gfxUiScale > 1 then 1 else 0) ((v.terminals s).textCells (cellIndex row col)),
        v.setTerminal s
          (Ui.clearDirtyRow row (Ui.clearDirtyRows cols (v.terminals s) row) (col + 1))) := by
    intro row hr col hc
    have hlt := cell_lt hv hr hc
    rw [panicCell, bind_run (onTerminal_read_run hlt), bind_run (cleanCell_turn hlt _),
      setTerminal_terminals, clearDirtyRow_cells, clearDirtyRows_cells]
    rfl
  have hall := collect_range_run
    (fun row => v.setTerminal s (Ui.clearDirtyRows cols (v.terminals s) row))
    (fun row hr => collect_range_run _ (hcell row hr))
  rw [Ui.clearDirtyRows, setTerminal_self] at hall
  rw [bind_run hall]
  rfl

theorem clearDirty_run (g : Geometry) (tid : Option Nat) (u : Ui) :
    clearVisibleTextDirty g tid u = some (⟨⟩, u.clearVisibleTextDirty g tid) := by
  rw [clearVisibleTextDirty, bind_run (activeUi_run u), get_bind_run, Ui.clearVisibleTextDirty]
  dsimp only
  generalize u.terminalStateForActiveUi.1 = v
  generalize u.terminalStateForActiveUi.2 = s
  have hv := uiViewport_fits v g tid
  generalize v.visibleRows g tid = rows at hv ⊢
  generalize v.visibleCols g tid = cols at hv ⊢
  have hall := forM_range_run
    (fun row => v.setTerminal s (Ui.clearDirtyRows cols (v.terminals s) row))
    (fun row hr => forM_range_run
      (fun col => v.setTerminal s
        (Ui.clearDirtyRow row (Ui.clearDirtyRows cols (v.terminals s) row) col))
      fun col hc => cleanCell_turn (cell_lt hv hr hc) _)
  rw [Ui.clearDirtyRows, setTerminal_self] at hall
  rw [bind_run hall, modify_run, setTerminal_terminals, setTerminal_twice]

theorem terminalCell_run (w : GuiWindow) (row col : Nat) (u : Ui) :
    gfxRenderTerminalCell w row col u = some (u.gfxRenderTerminalCell w row col) := by
  rw [gfxRenderTerminalCell, get_bind_run, Ui.gfxRenderTerminalCell]
  split
  · rfl
  · next h =>
    obtain ⟨hr, hc⟩ := not_or.mp h
    have hlt := cell_lt (windowViewport_fits u.font (some w)) (Nat.not_le.mp hr) (Nat.not_le.mp hc)
    rw [bind_run (onTerminal_read_run hlt), bind_run (onTerminal_run (cleanCell_run hlt))]
    rfl

theorem previousCell_run (w : GuiWindow) (s : Nat) (u : Ui) :
    previousCell w s u = some (Display.previousCell u w s) := by
  rw [previousCell, get_bind_run, Display.previousCell]
  cases u.prevCursor with
  | none => rfl
  | some cell =>
    dsimp only
    split
    · exact terminalCell_run w cell.1 cell.2 u
    · rfl

theorem clipCell_lt {v bound : Nat} (h : 1 ≤ bound) : Display.clipCell v bound < bound := by
  simp only [Display.clipCell]
  split
  · omega
  · omega

/-- The clipped rectangle is inside the viewport. -/
theorem mem_cellRange {startRow endRow startCol endCol : Nat} {cell : Nat × Nat}
    (h : cell ∈ Display.cellRange startRow endRow startCol endCol) :
    cell.1 ≤ endRow ∧ cell.2 ≤ endCol := by
  simp only [Display.cellRange, List.mem_flatMap, List.mem_map, List.mem_range'_1] at h
  obtain ⟨r, hr, c, hc, rfl⟩ := h
  dsimp only
  omega

theorem dirtyCell_run (hv : FitsGrid rows cols) {cell : Nat × Nat} (hr : cell.1 < rows)
    (hc : cell.2 < cols) (w : GuiWindow) (s : Nat) (u : Ui) :
    ∃ r v, dirtyCell w s cell u = some (r, v) ∧
      ∀ acc, Display.dirtyCellTurn w s (acc, u) cell = (acc ++ r, v) := by
  rw [dirtyCell, bind_run (onTerminal_dirty_run (cell_lt hv hr hc))]
  simp only [Display.dirtyCellTurn]
  split
  · exact ⟨_, _, terminalCell_run w _ _ u, fun acc => rfl⟩
  · exact ⟨[], u, rfl, fun acc => by rw [List.append_nil]⟩

theorem dirtyCells_run (hv : FitsGrid rows cols) (w : GuiWindow) (s : Nat) (u : Ui) :
    dirtyCells w s rows cols u = some (Display.dirtyCells u w s rows cols) := by
  rw [dirtyCells, get_bind_run, Display.dirtyCells]
  dsimp only
  split
  · rw [bind_run (collect_fold_run fun cell hcell v => ?_)]
    · rfl
    · obtain ⟨hr, hc⟩ := mem_cellRange hcell
      exact dirtyCell_run hv (Nat.lt_of_le_of_lt hr (clipCell_lt hv.1.1))
        (Nat.lt_of_le_of_lt hc (clipCell_lt hv.2.1)) w s v
  · rfl

theorem incrementalRender_run (g : Geometry) (tid : Option Nat) (u : Ui) :
    incrementalRender g tid u = some (Display.incrementalRender g u tid) := by
  rw [incrementalRender, get_bind_run, bind_run (activeUi_run u), get_bind_run,
    bind_run (previousCell_run _ _ _), bind_run (dirtyCells_run (uiViewport_fits _ g tid) _ _ _)]
  rfl

end Cells

end VertexOS.Checked
