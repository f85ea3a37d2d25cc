import VertexOS.Net.Url
import VertexOS.Task.Scheduler
import VertexOS.Video.Font
import VertexOS.Video.Gui
import VertexOS.Video.Terminal

namespace VertexOS
open PsfFont

def winDesktop : Nat := 0
def winTerminalFirst : Nat := 1
def winTerminalSlots : Nat := 16
def winTerminalLast : Nat := winTerminalFirst + winTerminalSlots - 1
def winSettings : Nat := winTerminalLast + 1
def winProcessManager : Nat := winTerminalLast + 2
def winCount : Nat := winProcessManager + 1

def startMenuItems : UInt32 := 4
def themeCount : Nat := 3

structure UiTheme where
  desktopBg : UInt8
  taskbarBg : UInt8
  termTitle : UInt8
  termBody : UInt8
  settingsTitle : UInt8
  settingsBody : UInt8
  textFg : UInt8
  textBg : UInt8

/-- `g_themes`. -/
def themes : Nat → UiTheme
  | 1 => ⟨3, 1, 4, 1, 6, 3, 15, 1⟩
  | 2 => ⟨0, 7, 9, 0, 2, 8, 14, 0⟩
  | _ => ⟨1, 8, 2, 0, 5, 7, 15, 0⟩

/-- The variables of `display.c`, apart from the pixels. A session or an index of -1 is `none`,
and so is the task number `0xFFFFFFFF`; `prevCursor` is the cell while
`g_prev_cursor_valid` is set. `drawnCursor` is no variable of the code: it keeps the cell
under which the cursor was drawn last. -/
structure Ui where
  font : PsfFont
  terminals : Nat → TerminalState
  taskIds : Nat → Option Nat
  focused : Option Nat
  forceFullRedraw : Bool
  testOverlay : Bool
  gfxFg : UInt8
  gfxBg : UInt8
  disableOverlay : Bool
  panicMode : Bool
  buttonPressed : Bool
  windows : WindowList
  prevCursor : Option (Nat × Nat)
  dragWindow : Option Nat
  dragOffsetX : Int
  dragOffsetY : Int
  resizeWindow : Option Nat
  resizeOffsetX : Int
  resizeOffsetY : Int
  startMenuOpen : Bool
  pendingTerminalSpawn : Bool
  activeTheme : Nat
  taskbarBg : UInt8
  taskbarText : UInt8
  processCpuTicks : Nat → UInt32
  pmSelectedIndex : Option Nat
  refreshDeferDepth : UInt32
  refreshPending : Bool
  interactiveMoveActive : Bool
  drawnCursor : Option (Nat × Nat)

/-- `g_gfx_fg` and `g_taskbar_bg` start with their own values, `g_terminal_task_ids` with
0 past its third entry. -/
def Ui.zero : Ui where
  font := .zero
  terminals := fun _ => .zero
  taskIds := fun i => if i < 3 then none else some 0
  focused := some 0
  forceFullRedraw := false
  testOverlay := false
  gfxFg := 15
  gfxBg := 0
  disableOverlay := false
  panicMode := false
  buttonPressed := false
  windows := fun _ => .zero
  prevCursor := none
  dragWindow := none
  dragOffsetX := 0
  dragOffsetY := 0
  resizeWindow := none
  resizeOffsetX := 0
  resizeOffsetY := 0
  startMenuOpen := false
  pendingTerminalSpawn := false
  activeTheme := 0
  taskbarBg := 8
  taskbarText := 0
  processCpuTicks := fun _ => 0
  pmSelectedIndex := none
  refreshDeferDepth := 0
  refreshPending := false
  interactiveMoveActive := false
  drawnCursor := none

def schedulerCurrentTid (s : Scheduler) : Option Nat :=
  if s.currentIndex < 0 then none else some (s.tasks s.currentIndex.toNat).id

def gfxTaskbarHeight : UInt32 := gfxScalePx 18
def gfxWindowTitleHeight : UInt32 := gfxScalePx 14
def gfxWindowBorderWidth : UInt32 := gfxScalePx 1
def gfxWindowMinWidth : UInt32 := gfxScalePx 72
def gfxWindowMinHeight : UInt32 := gfxScalePx 48
def gfxResizeHandleSize : UInt32 := gfxScalePx 8
def gfxStartButtonX : UInt32 := gfxScalePx 4
def gfxStartButtonWidth : UInt32 := gfxScalePx 48
def gfxStartMenuWidth : UInt32 := gfxScalePx 128
def gfxStartMenuItemHeight : UInt32 := gfxScalePx 14
def gfxSettingsSwatchWidth : UInt32 := gfxScalePx 18
def gfxSettingsSwatchHeight : UInt32 := gfxScalePx 12

def gfxWindowRoleMinWidth : WindowRole → UInt32
  | .settings => gfxScalePx 118
  | .processManager => gfxScalePx 164
  | .terminal => gfxScalePx 160
  | _ => gfxWindowMinWidth

def gfxWindowRoleMinHeight : WindowRole → UInt32
  | .settings => gfxScalePx 88
  | .processManager => gfxScalePx 112
  | .terminal => gfxScalePx 120
  | _ => gfxWindowMinHeight

def startMenuY (g : Geometry) : Int :=
  s32 g.height - s32 gfxTaskbarHeight - s32 (gfxStartMenuItemHeight * startMenuItems) -
    s32 (gfxScalePx 2)

def terminalSessionFromWindow (w : GuiWindow) : Option Nat :=
  if w.role ≠ .terminal ∨ w.slotId ≥ winTerminalSlots then none else some w.slotId

def visibleColsForWindow (f : PsfFont) (tw : Option GuiWindow) : Nat :=
  match tw with
  | none => vgaWidth
  | some w =>
    let innerW := if w.w > 2 * gfxWindowBorderWidth then w.w - 2 * gfxWindowBorderWidth else 0
    let cols := innerW / f.gfxCellWidth
    let cols := if cols = 0 then 1 else cols
    if cols.toNat > gfxMaxCols then gfxMaxCols else cols.toNat

def visibleRowsForWindow (f : PsfFont) (tw : Option GuiWindow) : Nat :=
  match tw with
  | none => vgaHeight
  | some w =>
    let top := gfxWindowTitleHeight + gfxWindowBorderWidth
    let innerH :=
      if w.h > top then w.h - gfxWindowTitleHeight - gfxWindowBorderWidth else 0
    let rows := innerH / f.gfxCellHeight
    let rows := if rows = 0 then 1 else rows
    if rows.toNat > gfxMaxRows then gfxMaxRows else rows.toNat

namespace Ui

/-- The loop of `terminal_window_for_session`. -/
def terminalWindowForSession (u : Ui) (session : Nat) : Option Nat :=
  if session ≥ winTerminalSlots then none
  else
    (List.range winCount).find? fun i =>
      (u.windows i).role = .terminal ∧ (u.windows i).slotId = session

def isVisibleTerminal (u : Ui) (i : Nat) : Bool :=
  (u.windows i).role = .terminal ∧ (u.windows i).visible

/-- The focused session's window, where it is visible. -/
def focusedWindow (u : Ui) : Option Nat :=
  match u.focused with
  | none => none
  | some s =>
    if s < winTerminalSlots then (u.terminalWindowForSession s).filter fun i => (u.windows i).visible
    else none

/-- The visible terminal that is nearest to the front. -/
def topTerminal (u : Ui) : Option Nat :=
  (indicesDown winCount winTerminalFirst).find? u.isVisibleTerminal

def ensureValidTerminalFocus (u : Ui) : Ui :=
  match u.focusedWindow with
  | some _ => u
  | none =>
    { u with
      focused := u.topTerminal.bind fun i => terminalSessionFromWindow (u.windows i) }

/-- There is always a window: the last resort is `WIN_TERMINAL_FIRST`. -/
def terminalWindow (u : Ui) : Nat :=
  match u.focusedWindow with
  | some i => i
  | none =>
    match u.topTerminal with
    | some i => i
    | none =>
      (guiFindWindowByRole u.windows winCount .terminal (some winTerminalFirst)).getD
        winTerminalFirst

def settingsWindow (u : Ui) : Option Nat := guiFindWindowByRole u.windows winCount .settings none

def processManagerWindow (u : Ui) : Option Nat :=
  guiFindWindowByRole u.windows winCount .processManager none

/-- The session whose state is read and written for the task. -/
def terminalStateForTaskIo (u : Ui) (tid : Option Nat) : Nat :=
  match (List.range winTerminalSlots).find? fun i => u.taskIds i = tid with
  | some i => i
  | none => (u.focused.filter (· < winTerminalSlots)).getD 0

/-- The session that is drawn, and the focus that is set on the way. -/
def terminalStateForActiveUi (u : Ui) : Ui × Nat :=
  let u := u.ensureValidTerminalFocus
  match u.focused.filter (· < winTerminalSlots) with
  | some s => (u, s)
  | none => (u, (terminalSessionFromWindow (u.windows u.terminalWindow)).getD 0)

/-- `terminal_state_for_session`. -/
def sessionState (session : Nat) : Nat := if session ≥ winTerminalSlots then 0 else session

def setTerminal (u : Ui) (s : Nat) (ts : TerminalState) : Ui :=
  { u with terminals := Function.update u.terminals s ts }

def setWindow (u : Ui) (i : Nat) (w : GuiWindow) : Ui :=
  { u with windows := Function.update u.windows i w }

def bringWindowToFront (u : Ui) (index : Nat) : Ui :=
  { u with windows := guiBringWindowToFront u.windows winCount winTerminalFirst index }

def panicCols (f : PsfFont) (g : Geometry) : Nat :=
  let cols := g.width / f.gfxCellWidth
  let cols := if cols = 0 then 1 else cols
  if cols.toNat > gfxMaxCols then gfxMaxCols else cols.toNat

def panicRows (f : PsfFont) (g : Geometry) : Nat :=
  let rows := g.height / f.gfxCellHeight
  let rows := if rows = 0 then 1 else rows
  if rows.toNat > gfxMaxRows then gfxMaxRows else rows.toNat

/-- The window whose size counts for the task. -/
def taskWindow (u : Ui) (tid : Option Nat) : Option GuiWindow :=
  match (List.range winTerminalSlots).find? fun i => u.taskIds i = tid with
  | some i => (u.terminalWindowForSession i).map u.windows
  | none => some (u.windows u.terminalWindow)

/-- In graphics mode. -/
def visibleCols (u : Ui) (g : Geometry) (tid : Option Nat) : Nat :=
  if u.panicMode then panicCols u.font g else visibleColsForWindow u.font (u.taskWindow tid)

def visibleRows (u : Ui) (g : Geometry) (tid : Option Nat) : Nat :=
  if u.panicMode then panicRows u.font g else visibleRowsForWindow u.font (u.taskWindow tid)

def settingsSwatchX (u : Ui) (i : Nat) : Int :=
  let step := i * (s32 gfxSettingsSwatchWidth + s32 (gfxScalePx 8))
  match u.settingsWindow with
  | some w => (u.windows w).x + s32 (gfxScalePx 10) + step
  | none => s32 (gfxScalePx 10) + step

def settingsSwatchY (u : Ui) : Int :=
  match u.settingsWindow with
  | some w => (u.windows w).y + s32 (gfxScalePx 30)
  | none => s32 (gfxScalePx 30)

/-- A window with the colors of the theme. -/
def themed (t : UiTheme) (body : UInt8) (w : GuiWindow) : GuiWindow :=
  { w with titleBg := t.termTitle, bodyBg := body }

/-- The loop of `apply_theme` over the terminals. -/
def themeTerminals (t : UiTheme) (ws : WindowList) : WindowList := fun i =>
  if i < winCount ∧ (ws i).role = .terminal then themed t t.termBody (ws i) else ws i

/-- The window found gets the colors. -/
def themeWindow (t : UiTheme) (u : Ui) : Option Nat → Ui
  | some i => u.setWindow i (themed t t.settingsBody (u.windows i))
  | none => u

def applyTheme (u : Ui) (themeId : Nat) : Ui :=
  let themeId := if themeId ≥ themeCount then 0 else themeId
  let t := themes themeId
  let u := { u with activeTheme := themeId }
  let u := u.setWindow winDesktop { u.windows winDesktop with bodyBg := t.desktopBg }
  let u := { u with windows := themeTerminals t u.windows }
  let u := themeWindow t u u.settingsWindow
  let u := themeWindow t u u.processManagerWindow
  { u with
    taskbarBg := t.taskbarBg
    taskbarText := t.desktopBg
    gfxFg := t.textFg
    gfxBg := t.textBg }

/-- The window belongs to a session with a task. -/
def hasTask (u : Ui) (w : GuiWindow) : Bool :=
  match terminalSessionFromWindow w with
  | some s => (u.taskIds s).isSome
  | none => false

def findHiddenTerminalSlot (u : Ui) : Option Nat :=
  (List.range' winTerminalFirst winTerminalSlots).find? fun i =>
    (u.windows i).role = .terminal ∧ ¬(u.windows i).visible ∧
      u.hasTask (u.windows i)

def visibleTerminalCount (u : Ui) : Nat :=
  (List.range' winTerminalFirst winTerminalSlots).countP u.isVisibleTerminal

def updateProcessUsageSample (u : Ui) : Ui :=
  match (indicesDown winCount winTerminalFirst).find? fun i =>
      (u.windows i).visible ∧ (u.windows i).role ≠ .processManager ∧
        (u.windows i).role ≠ .desktop with
  | some i =>
    { u with processCpuTicks := Function.update u.processCpuTicks i (u.processCpuTicks i + 1) }
  | none => u

def processManagerVisible (u : Ui) : Bool := (u.windows winProcessManager).visible

/-- The indices that `build_running_process_list` writes. -/
def buildRunningProcessList (u : Ui) : List Nat :=
  (List.range' winTerminalFirst (winCount - winTerminalFirst)).filter fun i =>
    (u.windows i).role = .terminal ∧ (u.windows i).visible ∧
      u.hasTask (u.windows i)

end Ui

end VertexOS
