import VertexOS.Video.Pointer
import VertexOS.Video.Render

namespace VertexOS
open Ui

/-- The address of `cli_task_entry`, which is not null. -/
def cliTaskEntry : UInt32 := 1

/-- `prevButtons` is the static variable of `display_handle_mouse_event`. -/
structure Display where
  screen : Screen
  ui : Ui
  prevButtons : UInt8
  sched : Scheduler
  graphics : Bool

/-- All cells of a terminal are blank and dirty. -/
def blankTerminal (ts : TerminalState) : TerminalState :=
  let size := gfxMaxCols * gfxMaxRows
  { cursorRow := 0
    cursorCol := 0
    textCells := fun i => if i < size then blankChar else ts.textCells i
    textCellsDirty := fun i => if i < size then true else ts.textCellsDirty i
    dirtyAny := true
    dirtyMinRow := 0
    dirtyMaxRow := gfxMaxRows - 1
    dirtyMinCol := 0
    dirtyMaxCol := gfxMaxCols - 1 }

namespace Display

def geo (d : Display) : Geometry := d.screen.fb.geo

def tid (d : Display) : Option Nat := schedulerCurrentTid d.sched

def visibleRows (d : Display) : Nat :=
  if d.graphics then d.ui.visibleRows d.geo d.tid else vgaHeight

def visibleCols (d : Display) : Nat :=
  if d.graphics then d.ui.visibleCols d.geo d.tid else vgaWidth

/-- A rendering: its calls are made and its state is kept. -/
def render (d : Display) (r : List FbCall × Ui) : Display :=
  { d with screen := d.screen.drawCalls r.1, ui := r.2 }

def mouseHideCursor (d : Display) : Display := { d with screen := d.screen.mouseHideCursor }

def mouseRefreshCursor (d : Display) : Display := { d with screen := d.screen.mouseRefreshCursor }

def framebufferFlush (d : Display) : Display := { d with screen := d.screen.framebufferFlush }

def spawnTerminalTaskForSession (d : Display) (session : Nat) : Option Nat × Display :=
  if session ≥ winTerminalSlots then (none, d)
  else
    let r := d.sched.schedulerCreateTask cliTaskEntry session.toUInt32 .kernel
    match r.1 with
    | none => (none, { d with sched := r.2 })
    | some tid =>
      (some tid, { d with
        sched := r.2
        ui := { d.ui with taskIds := Function.update d.ui.taskIds session (some tid) } })

/-- The window whose index belongs to the session is shown, or hidden. -/
def showSessionWindow (u : Ui) (session : Nat) (makeVisible : Bool) : Ui :=
  let wi := winTerminalFirst + session
  if wi ≥ winTerminalFirst ∧ wi ≤ winTerminalLast then
    let u := u.setWindow wi { u.windows wi with visible := makeVisible }
    if makeVisible then { u.bringWindowToFront wi with focused := some session } else u
  else u

def displayCreateTerminalSession (d : Display) (makeVisible : Bool) : Option Nat × Display :=
  match (List.range winTerminalSlots).find? fun s => d.ui.taskIds s = none with
  | none => (none, d)
  | some session =>
    let r := d.spawnTerminalTaskForSession session
    match r.1 with
    | none => (none, r.2)
    | some _ =>
      let d := r.2
      let u := d.ui.setTerminal session (blankTerminal (d.ui.terminals session))
      let u := showSessionWindow u session makeVisible
      (some session, { d with ui := { u with forceFullRedraw := true } })

def displayGetFocusedTerminalSession (d : Display) : Option Nat × Display :=
  let u := d.ui.ensureValidTerminalFocus
  (u.focused, { d with ui := u })

/-- A turn of the loop over the cells: a dirty one is drawn again. -/
def dirtyCellTurn (w : GuiWindow) (s : Nat) (r : List FbCall × Ui) (cell : Nat × Nat) :
    List FbCall × Ui :=
  if (r.2.terminals s).textCellsDirty (cellIndex cell.1 cell.2) then
    let next := r.2.gfxRenderTerminalCell w cell.1 cell.2
    (r.1 ++ next.1, next.2)
  else r

/-- The cell that the cursor has left is drawn again. -/
def previousCell (u : Ui) (w : GuiWindow) (s : Nat) : List FbCall × Ui :=
  match u.prevCursor with
  | some (row, col) =>
    if row ≠ (u.terminals s).cursorRow ∨ col ≠ (u.terminals s).cursorCol then
      u.gfxRenderTerminalCell w row col
    else ([], u)
  | none => ([], u)

/-- The cells from the first to the last row and column. -/
def cellRange (startRow endRow startCol endCol : Nat) : List (Nat × Nat) :=
  (List.range' startRow (endRow + 1 - startRow)).flatMap fun row =>
    (List.range' startCol (endCol + 1 - startCol)).map fun col => (row, col)

/-- A row or a column of the dirty rectangle is kept below the bound. -/
def clipCell (v bound : Nat) : Nat := if v ≥ bound then bound - 1 else v

def dirtyCells (u : Ui) (w : GuiWindow) (s rows cols : Nat) : List FbCall × Ui :=
  let ts := u.terminals s
  if ts.dirtyAny then
    let cells := cellRange (clipCell ts.dirtyMinRow rows) (clipCell ts.dirtyMaxRow rows)
      (clipCell ts.dirtyMinCol cols) (clipCell ts.dirtyMaxCol cols)
    let (calls, u) := cells.foldl (dirtyCellTurn w s) ([], u)
    (calls, u.setTerminal s (noDirty (u.terminals s)))
  else ([], u)

/-- The drawing of `gfx_refresh_terminal_incremental`, between the pointer's. -/
def incrementalRender (g : Geometry) (u : Ui) (tid : Option Nat) : List FbCall × Ui :=
  let tw := u.windows u.terminalWindow
  let (u, s) := u.terminalStateForActiveUi
  let cols := u.visibleCols g tid
  let rows := u.visibleRows g tid
  let (previous, u) := previousCell u tw s
  let (cells, u) := dirtyCells u tw s rows cols
  let (cursor, u) := u.gfxRenderCursor
  (previous ++ cells ++ cursor,
    { u with prevCursor := some ((u.terminals s).cursorRow, (u.terminals s).cursorCol) })

def gfxRefreshTerminalIncremental (d : Display) : Display :=
  let d := d.mouseHideCursor
  let d := d.render (incrementalRender d.geo d.ui d.tid)
  d.mouseRefreshCursor.framebufferFlush

/-- `g_pending_terminal_spawn` is served. -/
def spawnPending (d : Display) : Display :=
  if d.ui.pendingTerminalSpawn then
    (displayCreateTerminalSession { d with ui := { d.ui with pendingTerminalSpawn := false } }
      true).2
  else d

/-- The check of the cursor of session `s`. -/
def clampSession (d : Display) (s : Nat) : Display :=
  let ts := TerminalState.clampCursor d.visibleRows d.visibleCols (d.ui.terminals s)
  { d with ui := d.ui.setTerminal s ts }

def refreshPanic (d : Display) : Display :=
  let d := (d.render (gfxRenderPanicFull d.geo d.ui d.tid)).framebufferFlush
  { d with ui := { clearVisibleTextDirty d.geo d.ui d.tid with
      forceFullRedraw := false
      prevCursor := none } }

/-- `s` is the session of the task. -/
def refreshFull (d : Display) (s : Nat) : Display :=
  let d := d.render (gfxRenderFull d.geo d.ui d.tid)
  let d := d.mouseRefreshCursor.framebufferFlush
  let u := clearVisibleTextDirty d.geo d.ui d.tid
  { d with ui := { u with
      forceFullRedraw := false
      prevCursor := some ((u.terminals s).cursorRow, (u.terminals s).cursorCol) } }

/-- The checks of a refresh in graphics mode, ahead of the rendering. -/
def sampleUsage (u : Ui) : Ui :=
  let u := if u.processManagerVisible then u.updateProcessUsageSample else u
  if u.visibleTerminalCount > 1 then { u with forceFullRedraw := true } else u

/-- `display_refresh`; the memory of the text screen is left out. -/
def displayRefresh (d : Display) : Display :=
  let s := d.ui.terminalStateForTaskIo d.tid
  let d := d.spawnPending.clampSession s
  if d.graphics = false then d
  else if d.ui.panicMode then d.refreshPanic
  else
    let d := { d with ui := sampleUsage d.ui }
    if d.ui.forceFullRedraw then d.refreshFull s else d.gfxRefreshTerminalIncremental

/-- The variables that `display_init` sets before the windows. -/
def initUi (u : Ui) (asset : List UInt8) (overlay : Bool) : Ui :=
  { u with
    font := fontLoadFromMemory asset
    testOverlay := u.testOverlay || overlay
    terminals := fun s =>
      if s < winTerminalSlots then blankTerminal (u.terminals s) else u.terminals s
    taskIds := fun s => if s < winTerminalSlots then none else u.taskIds s
    processCpuTicks := fun i => if i < winCount then 0 else u.processCpuTicks i
    pmSelectedIndex := none }

/-- `init_terminal_title`. -/
def terminalTitle (session : Nat) : List UInt8 :=
  if session = 0 then ascii "Terminal"
  else (ascii "Terminal " ++ u32ToDecString (session + 1).toUInt32 8).take 15

/-- The window of index `i` as `display_init` sets it, its place and size apart. -/
def initWindow (w : GuiWindow) (i : Nat) : GuiWindow :=
  if i = winDesktop then
    { w with
      titleBg := 1, bodyBg := 1, border := 0, title := ascii "Desktop", visible := true
      role := .desktop, slotId := 0 }
  else if i ≤ winTerminalLast then
    { w with
      titleBg := 2, bodyBg := 0, border := 15, title := terminalTitle (i - winTerminalFirst)
      visible := false, role := .terminal, slotId := i - winTerminalFirst }
  else if i = winSettings then
    { w with
      titleBg := 5, bodyBg := 7, border := 15, title := ascii "Settings", visible := false
      role := .settings, slotId := 0 }
  else
    { w with
      titleBg := 4, bodyBg := 7, border := 15, title := ascii "Process Manager", visible := false
      role := .processManager, slotId := 0 }

/-- The size of the window is clamped, and then its position. -/
def clampWindow (g : Geometry) (w : GuiWindow) : GuiWindow :=
  let size := guiClampWindowSize w (s32 w.w) (s32 w.h) (gfxWindowRoleMinWidth w.role)
    (gfxWindowRoleMinHeight w.role) g.width g.height gfxTaskbarHeight
  let w := { w with w := u32 size.1, h := u32 size.2 }
  let place := guiClampWindowPosition w w.x w.y g.width g.height gfxTaskbarHeight
  { w with x := place.1, y := place.2 }

/-- The window of index `i` in `gfx_layout_windows(1)`. -/
def layoutWindow (g : Geometry) (w : GuiWindow) (i : Nat) : GuiWindow :=
  let fbW := g.width
  let fbH := g.height
  let taskbarH := gfxTaskbarHeight
  if i = winDesktop then { w with x := 0, y := 0, w := fbW, h := fbH - taskbarH }
  else if i ≤ winTerminalLast then
    let n := i - winTerminalFirst
    let top := gfxScalePx 96 + taskbarH
    clampWindow g { w with
      x := s32 (gfxScalePx (56 + (n * 16).toUInt32))
      y := s32 (gfxScalePx (28 + (n * 12).toUInt32))
      w := if fbW > gfxScalePx 128 then fbW - gfxScalePx 128 else gfxScalePx 160
      h := if fbH > top then fbH - top else gfxScalePx 120 }
  else if i = winSettings then
    clampWindow g { w with
      x := s32 (gfxScalePx 18), y := s32 (gfxScalePx 26), w := gfxScalePx 118, h := gfxScalePx 88 }
  else
    clampWindow g { w with
      x := s32 (gfxScalePx 34), y := s32 (gfxScalePx 34), w := gfxScalePx 164, h := gfxScalePx 112 }

def gfxLayoutWindows (g : Geometry) (u : Ui) : Ui :=
  { u with
    windows := fun i => if i < winCount then layoutWindow g (u.windows i) i else u.windows i }

def initWindows (ws : WindowList) : WindowList := fun i =>
  if i < winCount then initWindow (ws i) i else ws i

/-- `display_init` up to its refresh. -/
def initDisplayUi (g : Geometry) (u : Ui) (asset : List UInt8) (overlay : Bool) : Ui :=
  let u := initUi u asset overlay
  let u := { u with windows := initWindows u.windows }
  let u := u.applyTheme 0
  { gfxLayoutWindows g u with
    startMenuOpen := false
    focused := some 0
    forceFullRedraw := true
    prevCursor := none }

/-- The frame buffer is the one that `framebuffer_init` leaves; `asset` is the font file and
`overlay` the preference stored in the boot sector. -/
def displayInit (d : Display) (asset : List UInt8) (overlay : Bool) : Display :=
  displayRefresh { d with ui := initDisplayUi d.geo d.ui asset (d.graphics && overlay) }

section Output

def displayBeginUpdate (d : Display) : Display :=
  { d with ui := { d.ui with refreshDeferDepth := d.ui.refreshDeferDepth + 1 } }

def displayEndUpdate (d : Display) : Display :=
  if d.ui.refreshDeferDepth = 0 then d
  else
    let d := { d with ui := { d.ui with refreshDeferDepth := d.ui.refreshDeferDepth - 1 } }
    if d.ui.refreshDeferDepth = 0 ∧ d.ui.refreshPending then
      { d with ui := { d.ui with refreshPending := false } }.displayRefresh
    else d

def displayRequestRefresh (d : Display) : Display :=
  if d.ui.refreshDeferDepth > 0 then { d with ui := { d.ui with refreshPending := true } }
  else d.displayRefresh

def displayClear (d : Display) : Display :=
  let s := d.ui.terminalStateForTaskIo d.tid
  let ts := TerminalState.displayClear d.visibleRows d.visibleCols (d.ui.terminals s)
  { d with ui := { d.ui.setTerminal s ts with forceFullRedraw := true } }.displayRefresh

/-- Without its refresh. -/
def displayPutCharInternal (d : Display) (c : UInt8) : Display :=
  let s := d.ui.terminalStateForTaskIo d.tid
  let r := TerminalState.displayPutCharInternal d.visibleRows d.visibleCols (d.ui.terminals s) c
  let force := d.ui.forceFullRedraw || r.2
  { d with ui := { d.ui.setTerminal s r.1 with forceFullRedraw := force } }

def displayPutChar (d : Display) (c : UInt8) : Display :=
  (d.displayPutCharInternal c).displayRequestRefresh

def displayPrint (d : Display) (s : List UInt8) : Display :=
  let d := (cString s).foldl displayPutCharInternal d
  if cString s = [] then d else d.displayRequestRefresh

def displaySetCursor (d : Display) (row col : Nat) : Display :=
  let s := d.ui.terminalStateForTaskIo d.tid
  let ts := TerminalState.displaySetCursor d.visibleRows d.visibleCols (d.ui.terminals s) row col
  { d with ui := d.ui.setTerminal s ts }.displayRequestRefresh

end Output

section Mouse

def leftDown (buttons : UInt8) : Bool := buttons &&& 1 ≠ 0

/-- The scene is drawn while the pointer is hidden. -/
def redrawHidden (d : Display) : Display :=
  let d := d.mouseHideCursor
  d.render (gfxRenderSceneNoCursor d.geo d.ui)

def redraw (d : Display) : Display := d.redrawHidden.mouseRefreshCursor

def startButtonHit (g : Geometry) (x y : Int) : Bool :=
  y ≥ s32 g.height - s32 gfxTaskbarHeight + s32 (gfxScalePx 3) ∧ y < s32 g.height - 2 ∧
    x ≥ s32 gfxStartButtonX ∧ x < s32 (gfxStartButtonX + gfxStartButtonWidth)

def startMenuHit (g : Geometry) (x y : Int) : Bool :=
  x ≥ s32 gfxStartButtonX ∧ x < s32 (gfxStartButtonX + gfxStartMenuWidth) ∧ y ≥ startMenuY g ∧
    y < startMenuY g + s32 (gfxStartMenuItemHeight * startMenuItems)

/-- A window is made visible and brought up. -/
def openWindow (u : Ui) (i : Nat) (focused : Ui → Option Nat) : Ui :=
  let u := (u.setWindow i { u.windows i with visible := true }).bringWindowToFront i
  { u with focused := focused u }

/-- A line of the start menu is chosen. -/
def chooseMenuItem (u : Ui) (item : Int) : Ui :=
  if item = 0 then
    match u.findHiddenTerminalSlot with
    | some ti => openWindow u ti fun u => terminalSessionFromWindow (u.windows (winCount - 1))
    | none => { u with pendingTerminalSpawn := true }
  else if item = 1 then
    match u.settingsWindow with
    | some si => openWindow u si fun _ => none
    | none => u
  else if item = 2 then
    match u.processManagerWindow with
    | some pi => openWindow u pi fun _ => none
    | none => u
  else u

def windowCloseButtonHit (w : GuiWindow) (x y : Int) : Bool :=
  let closeX := w.x + s32 w.w - s32 closeWidth - s32 (gfxScalePx 2)
  let closeY := w.y + s32 (gfxScalePx 2)
  w.role ≠ .desktop ∧ x ≥ closeX ∧ x < closeX + s32 closeWidth ∧ y ≥ closeY ∧
    y < closeY + s32 closeWidth

/-- The closed window is not dragged or resized any more. -/
def dropWindow (u : Ui) (i : Nat) : Ui :=
  { u with
    dragWindow := if u.dragWindow = some i then none else u.dragWindow
    resizeWindow := if u.resizeWindow = some i then none else u.resizeWindow }

/-- The focus is looked for again where the session had it. -/
def refocus (u : Ui) (session : Option Nat) : Ui :=
  if session ≠ none ∧ session = u.focused then u.ensureValidTerminalFocus else u

/-- The close button of the front window. -/
def closeFront (u : Ui) : Ui :=
  let front := winCount - 1
  let w := u.windows front
  let u := u.setWindow front { w with visible := false }
  let u := { u with
    pmSelectedIndex :=
      if w.role = .processManager ∨ u.pmSelectedIndex = some front then none
      else u.pmSelectedIndex }
  refocus (dropWindow u front) (terminalSessionFromWindow w)

/-- The theme whose field is at the place. -/
def swatchHit (u : Ui) (x y : Int) : Option Nat :=
  (List.range themeCount).find? fun i =>
    x ≥ u.settingsSwatchX i ∧ x < u.settingsSwatchX i + s32 gfxSettingsSwatchWidth ∧
      y ≥ u.settingsSwatchY ∧ y < u.settingsSwatchY + s32 gfxSettingsSwatchHeight

def processManagerKillButtonHit (f : PsfFont) (w : GuiWindow) (x y : Int) : Bool :=
  let btnW := gfxScalePx 46
  let btnH := f.gfxCellHeight
  let btnX := w.x + s32 (gfxScalePx 10)
  let btnY := w.y + s32 w.h - s32 btnH - s32 (gfxScalePx 8)
  w.role = .processManager ∧ x ≥ btnX ∧ x < btnX + s32 btnW ∧ y ≥ btnY ∧ y < btnY + s32 btnH

def processManagerKillSelected (u : Ui) : Ui :=
  match u.pmSelectedIndex with
  | none => u
  | some i =>
    if i < winTerminalFirst ∨ i ≥ winCount then u
    else
      let w := u.windows i
      let u := if w.visible then dropWindow (u.setWindow i { w with visible := false }) i else u
      { refocus u (terminalSessionFromWindow w) with pmSelectedIndex := none }

def processManagerListY (f : PsfFont) (w : GuiWindow) : Int :=
  w.y + s32 gfxWindowTitleHeight + s32 (gfxScalePx 2) + s32 (3 * f.gfxCellHeight)

/-- `none`: the click is not for the process manager. -/
def processManagerHandleClick (u : Ui) (w : GuiWindow) (x y : Int) : Option Ui :=
  if w.role ≠ .processManager then none
  else if processManagerKillButtonHit u.font w x y then some (processManagerKillSelected u)
  else
    let listX := w.x + s32 (gfxScalePx 8)
    let listY := processManagerListY u.font w
    let listW := s32 w.w - s32 (gfxScalePx 16)
    let rowH := s32 u.font.gfxCellHeight
    if x < listX ∨ x ≥ listX + listW ∨ y < listY then none
    else
      (u.buildRunningProcessList.zipIdx.find? fun r =>
          y ≥ listY + r.2 * rowH ∧ y < listY + r.2 * rowH + rowH).map
        fun r => { u with pmSelectedIndex := some r.1 }

/-- The front window gets the focus, and may be dragged or resized from now on. -/
def grabFront (u : Ui) (x y : Int) : Ui :=
  let front := winCount - 1
  let w := u.windows front
  let u := { u with
    dragWindow := none
    resizeWindow := none
    focused := terminalSessionFromWindow w }
  let u :=
    if x ≥ w.x + s32 w.w - s32 gfxResizeHandleSize ∧
        y ≥ w.y + s32 w.h - s32 gfxResizeHandleSize then
      { u with
        resizeWindow := some front
        resizeOffsetX := w.x + s32 w.w - x
        resizeOffsetY := w.y + s32 w.h - y }
    else if y < w.y + s32 gfxWindowTitleHeight then
      { u with
        dragWindow := some front
        dragOffsetX := x - w.x
        dragOffsetY := y - w.y }
    else u
  if u.dragWindow ≠ none ∨ u.resizeWindow ≠ none then { u with interactiveMoveActive := true } else u

/-- A click on the window of index `hit`, and whether the handler returns. -/
def clickWindow (d : Display) (hit : Nat) (x y : Int) : Display × Bool :=
  let front := winCount - 1
  let u := if hit ≠ front then d.ui.bringWindowToFront hit else d.ui
  let w := u.windows front
  let swatch := if w.role = .settings then swatchHit u x y else none
  if windowCloseButtonHit w x y then ({ d with ui := closeFront u }.redraw, true)
  else
    match swatch with
    | some i => ({ d with ui := u.applyTheme i }.redraw, true)
    | none =>
      match processManagerHandleClick u w x y with
      | some u => ({ d with ui := u }.redraw, true)
      | none => ({ d with ui := grabFront u x y }.redrawHidden, false)

/-- The windows are looked at from the front. -/
def clickWindows (d : Display) (x y : Int) : Display × Bool :=
  match guiFindTopmostVisibleAt d.ui.windows winCount winTerminalFirst x y false with
  | some hit => d.clickWindow hit x y
  | none => (d, false)

/-- The left button has gone down, and whether the handler returns. -/
def pressLeft (d : Display) (x y : Int) : Display × Bool :=
  let menu (u : Ui) (isOpen : Bool) : Ui := { u with startMenuOpen := isOpen }
  if startButtonHit d.geo x y then
    ({ d with ui := menu d.ui (!d.ui.startMenuOpen) }.redraw, true)
  else if d.ui.startMenuOpen then
    if startMenuHit d.geo x y then
      let item := (y - startMenuY d.geo).tdiv (s32 gfxStartMenuItemHeight)
      ({ d with ui := menu (chooseMenuItem d.ui item) false }.redraw, true)
    else { d with ui := menu d.ui false }.redraw.clickWindows x y
  else d.clickWindows x y

/-- The window is drawn again where it has changed. -/
def moveWindow (d : Display) (i : Nat) (w : GuiWindow) (changed : Bool) : Display :=
  if changed then { d with ui := d.ui.setWindow i w }.redraw else d

def dragMove (d : Display) (x y : Int) (buttons : UInt8) : Display :=
  match d.ui.dragWindow with
  | none => d
  | some i =>
    if leftDown buttons then
      let w := d.ui.windows i
      let place := guiClampWindowPosition w (x - d.ui.dragOffsetX) (y - d.ui.dragOffsetY)
        d.geo.width d.geo.height gfxTaskbarHeight
      d.moveWindow i { w with x := place.1, y := place.2 } (w.x ≠ place.1 ∨ w.y ≠ place.2)
    else d

def resizeMove (d : Display) (x y : Int) (buttons : UInt8) : Display :=
  match d.ui.resizeWindow with
  | none => d
  | some i =>
    if leftDown buttons then
      let w := d.ui.windows i
      let size := guiClampWindowSize w (x - w.x + d.ui.resizeOffsetX)
        (y - w.y + d.ui.resizeOffsetY) (gfxWindowRoleMinWidth w.role)
        (gfxWindowRoleMinHeight w.role) d.geo.width d.geo.height gfxTaskbarHeight
      d.moveWindow i { w with w := u32 size.1, h := u32 size.2 }
        (s32 w.w ≠ size.1 ∨ s32 w.h ≠ size.2)
    else d

/-- The left button has gone up. -/
def releaseLeft (d : Display) (buttons : UInt8) : Display :=
  if leftDown buttons = false ∧ leftDown d.prevButtons then
    let d :=
      if d.ui.dragWindow ≠ none ∨ d.ui.resizeWindow ≠ none ∨ d.ui.interactiveMoveActive then
        { d with ui := { d.ui with interactiveMoveActive := false } }.redrawHidden
      else d
    { d with ui := { d.ui with dragWindow := none, resizeWindow := none } }
  else d

def displayHandleMouseEvent (d : Display) (x y : Int) (buttons : UInt8) : Display :=
  let (d, returned) :=
    if leftDown buttons ∧ leftDown d.prevButtons = false then d.pressLeft x y else (d, false)
  let d :=
    if returned then d
    else ((d.dragMove x y buttons).resizeMove x y buttons).releaseLeft buttons
  { d with prevButtons := buttons }

/-- Outside graphics mode the screen is refreshed where the button has changed. -/
def displaySetButtonPressed (d : Display) (pressed : Bool) : Display :=
  if d.ui.buttonPressed ≠ pressed then
    let d := { d with ui := { d.ui with buttonPressed := pressed } }
    if d.graphics = false then d.displayRefresh else d
  else d

/-- The coordinate after a packet. -/
def clampPointer (v size : Int) : Int :=
  if v < 0 then 0 else if v ≥ size - mouseCursorSize then size - mouseCursorSize else v

/-- The pointer as the packet moves it. -/
def movePointer (g : Geometry) (p : Pointer) (status dx dy : UInt8) : Pointer :=
  { p with
    x := clampPointer (p.x + dx.toInt8.toInt * 4) (s32 g.width)
    y := clampPointer (p.y - dy.toInt8.toInt * 4) (s32 g.height)
    buttons := status &&& 7 }

def buttonHit (p : Pointer) : Bool :=
  leftDown p.buttons ∧ p.x ≥ 32 ∧ p.x < 112 ∧ p.y ≥ 48 ∧ p.y < 64

/-- The three bytes of the packet are given. -/
def mouseProcessPacket (d : Display) (status dx dy : UInt8) : Display :=
  if status &&& 0xC0 ≠ 0 then d
  else
    let p := movePointer d.geo d.screen.pointer status dx dy
    let d := { d with screen := { d.screen with pointer := p } }
    if d.graphics then
      let d := d.displaySetButtonPressed (buttonHit p)
      let d := d.displayHandleMouseEvent p.x p.y p.buttons
      { d with screen := d.screen.mouseDrawPointer.framebufferFlush }
    else d

end Mouse

end Display

/-- What the kernel does with the display. The scheduler may be in any state whenever
the display is used. -/
inductive DisplayEvent where
  | create (makeVisible : Bool)
  | getFocused
  | refresh
  | mouse (x y : Int) (buttons : UInt8)
  | packet (status dx dy : UInt8)
  | beginUpdate
  | endUpdate
  | clear
  | putChar (c : UInt8)
  | print (s : List UInt8)
  | setCursor (row col : Nat)
  | schedule (s : Scheduler)

def displayNext (d : Display) : DisplayEvent → Display
  | .create makeVisible => (d.displayCreateTerminalSession makeVisible).2
  | .getFocused => d.displayGetFocusedTerminalSession.2
  | .refresh => d.displayRefresh
  | .mouse x y buttons => d.displayHandleMouseEvent x y buttons
  | .packet status dx dy => d.mouseProcessPacket status dx dy
  | .beginUpdate => d.displayBeginUpdate
  | .endUpdate => d.displayEndUpdate
  | .clear => d.displayClear
  | .putChar c => d.displayPutChar c
  | .print s => d.displayPrint s
  | .setCursor row col => d.displaySetCursor row col
  | .schedule s => { d with sched := s }

/-- The display as the kernel starts it. -/
def bootDisplay (fb : Framebuffer) (sched : Scheduler) (graphics : Bool) : Display :=
  ⟨⟨fb, .zero, fb.target⟩, .zero, 0, sched, graphics⟩

end VertexOS
