import VertexOS.Video.CheckedDisplay

namespace VertexOS.Checked
open Library.Programs

def onUi {α : Type} (m : Prog Ui α) : Prog Display α := fun d =>
  (m d.ui).map fun r => (r.1, { d with ui := r.2 })

/-- The rendering is drawn. -/
def render (m : Prog Ui (List FbCall)) : Prog Display PUnit := fun d =>
  (m d.ui).map fun r => (⟨⟩, d.render r)

def displayCreateTerminalSession (makeVisible : Bool) : Prog Display (Option Nat) := do
  let d ← get
  match (List.range winTerminalSlots).find? fun s => d.ui.taskIds s = none with
  | none => return none
  | some session =>
    let r := d.spawnTerminalTaskForSession session
    set r.2
    match r.1 with
    | none => return none
    | some _ =>
      onUi (onTerminal session blankCells)
      modify fun d =>
        let u := d.ui.setTerminal session { d.ui.terminals session with
          cursorRow := 0
          cursorCol := 0
          dirtyAny := true
          dirtyMinRow := 0
          dirtyMaxRow := gfxMaxRows - 1
          dirtyMinCol := 0
          dirtyMaxCol := gfxMaxCols - 1 }
        { d with ui := { Display.showSessionWindow u session makeVisible with
          forceFullRedraw := true } }
      return some session

def spawnPending : Prog Display PUnit := do
  let d ← get
  if d.ui.pendingTerminalSpawn then
    set { d with ui := { d.ui with pendingTerminalSpawn := false } }
    let _ ← displayCreateTerminalSession true
    return ⟨⟩

/-- `text_render_full`; the memory of the text screen is left out. -/
def textRenderFull : Prog Display PUnit := do
  let d ← get
  let s := d.ui.terminalStateForTaskIo d.tid
  forM (List.range vgaHeight) fun row => forM (List.range vgaWidth) fun col => do
    let _ ← onUi (onTerminal s (readCell (cellIndex row col)))
    return ⟨⟩

def refreshPanic : Prog Display PUnit := do
  let d ← get
  render (gfxRenderPanicFull d.geo d.tid)
  modify Display.framebufferFlush
  let d ← get
  onUi (clearVisibleTextDirty d.geo d.tid)
  modify fun d => { d with ui := { d.ui with forceFullRedraw := false, prevCursor := none } }

def refreshFull (s : Nat) : Prog Display PUnit := do
  let d ← get
  render (gfxRenderFull d.geo d.tid)
  modify fun d => d.mouseRefreshCursor.framebufferFlush
  let d ← get
  onUi (clearVisibleTextDirty d.geo d.tid)
  modify fun d => { d with ui := { d.ui with
    forceFullRedraw := false
    prevCursor := some ((d.ui.terminals s).cursorRow, (d.ui.terminals s).cursorCol) } }

def gfxRefreshTerminalIncremental : Prog Display PUnit := do
  modify Display.mouseHideCursor
  let d ← get
  render (incrementalRender d.geo d.tid)
  modify fun d => d.mouseRefreshCursor.framebufferFlush

def displayRefresh : Prog Display PUnit := do
  let d ← get
  let s := d.ui.terminalStateForTaskIo d.tid
  spawnPending
  modify fun d => d.clampSession s
  let d ← get
  if d.graphics = false then textRenderFull
  else if d.ui.panicMode then refreshPanic
  else
    modify fun d => { d with ui := Display.sampleUsage d.ui }
    let d ← get
    if d.ui.forceFullRedraw then refreshFull s else gfxRefreshTerminalIncremental

def displayRequestRefresh : Prog Display PUnit := do
  let d ← get
  if d.ui.refreshDeferDepth > 0 then set { d with ui := { d.ui with refreshPending := true } }
  else displayRefresh

def displayClear : Prog Display PUnit := do
  let d ← get
  let s := d.ui.terminalStateForTaskIo d.tid
  onUi (onTerminal s (clearTerminal d.visibleRows d.visibleCols))
  modify fun d => { d with ui := { d.ui with forceFullRedraw := true } }
  displayRefresh

/-- Without its refresh. -/
def displayPutCharInternal (c : UInt8) : Prog Display PUnit := do
  let d ← get
  let s := d.ui.terminalStateForTaskIo d.tid
  let scrolled ← onUi (onTerminal s (putChar d.visibleRows d.visibleCols c))
  modify fun d => { d with ui := { d.ui with forceFullRedraw := d.ui.forceFullRedraw || scrolled } }

def displayPutChar (c : UInt8) : Prog Display PUnit := do
  displayPutCharInternal c
  displayRequestRefresh

def displayPrint (s : List UInt8) : Prog Display PUnit := do
  forM (cString s) displayPutCharInternal
  if cString s ≠ [] then displayRequestRefresh

def displaySetCursor (row col : Nat) : Prog Display PUnit := do
  modify fun d =>
    let s := d.ui.terminalStateForTaskIo d.tid
    let ts := TerminalState.displaySetCursor d.visibleRows d.visibleCols (d.ui.terminals s) row col
    { d with ui := d.ui.setTerminal s ts }
  displayRequestRefresh

section Run

variable {d : Display} {s : Nat}

theorem onUi_run {α : Type} {m : Prog Ui α} {a : α} {u : Ui} (h : m d.ui = some (a, u)) :
    onUi m d = some (a, { d with ui := u }) := by
  rw [onUi, h]
  rfl

theorem render_run {m : Prog Ui (List FbCall)} {r : List FbCall × Ui} (h : m d.ui = some r) :
    render m d = some (⟨⟩, d.render r) := by
  rw [render, h]
  rfl

theorem create_run (makeVisible : Bool) (d : Display) :
    displayCreateTerminalSession makeVisible d =
      some (d.displayCreateTerminalSession makeVisible) := by
  rw [displayCreateTerminalSession, get_bind_run, Display.displayCreateTerminalSession]
  cases (List.range winTerminalSlots).find? fun s => decide (d.ui.taskIds s = none) with
  | none => rfl
  | some session =>
    dsimp only
    rw [set_bind_run]
    cases (d.spawnTerminalTaskForSession session).1 with
    | none => rfl
    | some tid =>
      dsimp only
      rw [bind_run (onUi_run (onTerminal_run (blankCells_run _))), modify_bind_run]
      dsimp only
      rw [setTerminal_terminals, setTerminal_twice]
      rfl

theorem spawnPending_run (d : Display) : spawnPending d = some (⟨⟩, d.spawnPending) := by
  rw [spawnPending, get_bind_run, Display.spawnPending]
  split
  · rw [set_bind_run, bind_run (create_run true _)]
    rfl
  · rfl

/-- The text screen is part of the arrays. -/
theorem textRenderFull_run (d : Display) : textRenderFull d = some (⟨⟩, d) := by
  rw [textRenderFull, get_bind_run]
  refine forM_range_run (fun _ => d) fun row hr => ?_
  refine forM_range_run (fun _ => d) fun col hc => ?_
  have hidx : cellIndex row col < cellCount := by
    apply cellIndex_lt
    · exact Nat.lt_trans hr (by decide)
    · exact hc
  rw [bind_run (onUi_run (onTerminal_read_run hidx))]
  rfl

theorem refreshPanic_run (d : Display) : refreshPanic d = some (⟨⟩, d.refreshPanic) := by
  rw [refreshPanic, get_bind_run, bind_run (render_run (renderPanic_run d.geo d.tid d.ui)),
    modify_bind_run, get_bind_run, bind_run (onUi_run (clearDirty_run _ _ _))]
  rfl

theorem refreshFull_run (s : Nat) (d : Display) : refreshFull s d = some (⟨⟩, d.refreshFull s) := by
  rw [refreshFull, get_bind_run, bind_run (render_run (renderFull_run d.geo d.tid d.ui)),
    modify_bind_run, get_bind_run, bind_run (onUi_run (clearDirty_run _ _ _))]
  rfl

theorem refreshIncremental_run (d : Display) :
    gfxRefreshTerminalIncremental d = some (⟨⟩, d.gfxRefreshTerminalIncremental) := by
  rw [gfxRefreshTerminalIncremental, modify_bind_run, get_bind_run,
    bind_run (render_run (incrementalRender_run _ _ _))]
  rfl

/-- A refresh never leaves the arrays, whatever the viewport. -/
theorem refresh_run (d : Display) : displayRefresh d = some (⟨⟩, d.displayRefresh) := by
  rw [displayRefresh, get_bind_run, bind_run (spawnPending_run d), modify_bind_run, get_bind_run,
    Display.displayRefresh]
  split
  · exact textRenderFull_run _
  · split
    · exact refreshPanic_run _
    · rw [modify_bind_run, get_bind_run]
      dsimp only
      split
      · exact refreshFull_run _ _
      · exact refreshIncremental_run _

theorem requestRefresh_run (d : Display) :
    displayRequestRefresh d = some (⟨⟩, d.displayRequestRefresh) := by
  rw [displayRequestRefresh, get_bind_run, Display.displayRequestRefresh]
  split
  · rfl
  · exact refresh_run d

theorem clear_run (d : Display) : displayClear d = some (⟨⟩, d.displayClear) := by
  rw [displayClear, get_bind_run, bind_run (onUi_run (onTerminal_run (clearTerminal_run _ _ _))),
    modify_bind_run]
  exact refresh_run _

end Run

end VertexOS.Checked
