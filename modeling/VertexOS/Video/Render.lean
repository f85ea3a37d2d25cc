import VertexOS.Video.Display

namespace VertexOS
open PsfFont

/-- `u32_to_dec_string`: the loop that takes the digits, at most `sizeof(tmp)` of them. -/
def decDigits : Nat → UInt32 → List UInt8 → List UInt8
  | 0, _, acc => acc
  | room + 1, value, acc =>
    if value > 0 then decDigits room (value / 10) ((48 + value % 10).toUInt8 :: acc) else acc

def u32ToDecString (value : UInt32) (outSize : Nat) : List UInt8 :=
  if value = 0 then (ascii "0").take (outSize - 1)
  else (decDigits 16 value []).take (outSize - 1)

/-- The four sides of a frame: two in the color of light, two in that of shade. -/
def frameRect (x y w h : UInt32) (light shade : UInt8) : List FbCall :=
  [.fillRect x y w 1 light, .fillRect x y 1 h light, .fillRect x (y + h - 1) w 1 shade,
    .fillRect (x + w - 1) y 1 h shade]

namespace Ui

variable (g : Geometry) (u : Ui)

def label (x y : UInt32) (text : List UInt8) (color bgColor : UInt8) : List FbCall :=
  u.font.gfxRenderLabel u.interactiveMoveActive x y text color bgColor

def gfxRenderTaskbar : List FbCall :=
  let fbW := g.width
  let fbH := g.height
  let taskbarH := gfxTaskbarHeight
  let startX := gfxStartButtonX
  let startW := gfxStartButtonWidth
  [.fillRect 0 (fbH - taskbarH) fbW taskbarH u.taskbarBg,
    .fillRect 0 (fbH - taskbarH) fbW 1 15,
    .fillRect 0 (fbH - 1) fbW 1 0,
    .fillRect startX (fbH - taskbarH + gfxScalePx 3) startW (taskbarH - gfxScalePx 6) 7,
    .fillRect startX (fbH - taskbarH + gfxScalePx 3) startW 1 15,
    .fillRect startX (fbH - taskbarH + gfxScalePx 3) 1 (taskbarH - gfxScalePx 6) 15,
    .fillRect startX (fbH - gfxScalePx 3) startW 1 8,
    .fillRect (startX + startW - 1) (fbH - taskbarH + gfxScalePx 3) 1
      (taskbarH - gfxScalePx 6) 8] ++
  u.label (gfxScalePx 12) (fbH - taskbarH + u.font.gfxTextVerticalPad taskbarH) (ascii "START")
    u.taskbarText u.taskbarBg ++
  u.label (fbW - gfxScalePx 40) (fbH - taskbarH + u.font.gfxTextVerticalPad taskbarH)
    (ascii "12:34") u.taskbarText u.taskbarBg

def startMenuLabels : List String := ["NEW TERM", "SETTINGS", "TASKMGR", "ABOUT"]

/-- The line of the menu that `gfx_render_start_menu` draws in its loop. -/
def startMenuLine (i : Nat) (text : String) : List FbCall :=
  let x := s32 gfxStartButtonX
  let itemH := gfxStartMenuItemHeight
  let iy := startMenuY g + i * s32 itemH
  (if i ≠ 0 then
    [.fillRect (u32 (x + s32 (gfxScalePx 2))) (u32 iy) (gfxStartMenuWidth - gfxScalePx 4) 1 8]
  else []) ++
  u.label (u32 (x + s32 (gfxScalePx 8))) (u32 (iy + s32 (u.font.gfxTextVerticalPad itemH)))
    (ascii text) 0 7

def gfxRenderStartMenu : List FbCall :=
  if u.startMenuOpen then
    let x := s32 gfxStartButtonX
    let y := startMenuY g
    let menuW := gfxStartMenuWidth
    let menuH := gfxStartMenuItemHeight * startMenuItems
    [.fillRect (u32 x) (u32 y) menuW menuH 7,
      .fillRect (u32 x) (u32 y) menuW 1 15,
      .fillRect (u32 x) (u32 y) 1 menuH 15,
      -- the lower side is placed by its height, but to the right
      .fillRect (u32 (x + s32 (menuH - 1))) (u32 y) menuW 1 8,
      .fillRect (u32 (x + s32 menuW - 1)) (u32 y) 1 menuH 8] ++
    startMenuLabels.zipIdx.flatMap fun l => startMenuLine g u l.2 l.1
  else []

/-- The cross of a close button, pixel by pixel along its diagonals. -/
def closeCross (closeX closeY closeW : UInt32) : List FbCall :=
  let inset := gfxUiScale
  let lineW := gfxUiScale
  if closeW > 2 * inset + 1 then
    (List.range closeW.toNat).flatMap fun i =>
      let i := i.toUInt32
      if i + 2 * inset < closeW then
        [.fillRect (closeX + inset + i) (closeY + inset + i) lineW lineW 0,
          .fillRect (closeX + closeW - inset - 1 - i) (closeY + inset + i) lineW lineW 0]
      else []
  else []

def closeWidth : UInt32 :=
  if gfxWindowTitleHeight > gfxScalePx 4 then gfxWindowTitleHeight - gfxScalePx 4
  else gfxWindowTitleHeight

/-- `gfx_render_window` up to the content, for a window that is not the desktop. -/
def windowFrame (w : GuiWindow) : List FbCall :=
  let border := gfxWindowBorderWidth
  let titleH := gfxWindowTitleHeight
  let resize := gfxResizeHandleSize
  let closeX := u32 (w.x + s32 w.w - s32 closeWidth - s32 (gfxScalePx 2))
  let closeY := u32 (w.y + s32 (gfxScalePx 2))
  let x := u32 w.x
  let y := u32 w.y
  [.fillRect x y w.w w.h w.bodyBg,
    .fillRect x y w.w titleH w.titleBg,
    .fillRect x y w.w border 15,
    .fillRect x y border w.h 15,
    .fillRect x (y + w.h - border) w.w border 8,
    .fillRect (x + w.w - border) y border w.h 8] ++
  (if w.w > resize + 2 ∧ w.h > resize + 2 then
    let rx := u32 (w.x + s32 w.w - s32 resize - 1)
    let ry := u32 (w.y + s32 w.h - s32 resize - 1)
    .fillRect rx ry resize resize 7 :: frameRect rx ry resize resize 15 8
  else []) ++
  u.label (x + gfxScalePx 4) (y + u.font.gfxTextVerticalPad titleH) w.title 0 w.titleBg ++
  .fillRect closeX closeY closeWidth closeWidth 12 ::
    frameRect closeX closeY closeWidth closeWidth 15 8 ++
  closeCross closeX closeY closeWidth

/-- The place and the size of the slider. -/
def settingsScaleSliderRect (w : GuiWindow) : Int × Int × UInt32 × UInt32 :=
  let titleH := gfxWindowTitleHeight
  let margin := gfxScalePx 10
  let minW := gfxScalePx 48
  let y := w.y + s32 titleH + s32 (gfxScalePx 52)
  let width := if w.w > 2 * margin then w.w - 2 * margin else minW
  let width := if width < minW then minW else width
  let height := gfxScalePx 6
  let height := if height = 0 then 1 else height
  let y :=
    if u32 (y - w.y) + height + gfxScalePx 22 > w.h then w.y + s32 titleH + s32 (gfxScalePx 40)
    else y
  (w.x + s32 margin, y, width, height)

/-- The color field of a theme. -/
def themeSwatch (i : Nat) : List FbCall :=
  let sx := u.settingsSwatchX i
  let sy := u.settingsSwatchY
  let swatchW := gfxSettingsSwatchWidth
  let swatchH := gfxSettingsSwatchHeight
  let light : UInt8 := if u.activeTheme = i then 15 else 8
  [.fillRect (u32 sx) (u32 sy) swatchW swatchH (themes i).desktopBg,
    .fillRect (u32 sx) (u32 sy) swatchW 1 light,
    .fillRect (u32 sx) (u32 sy) 1 swatchH light,
    .fillRect (u32 sx) (u32 (sy + s32 swatchH - 1)) swatchW 1 0,
    .fillRect (u32 (sx + s32 swatchW - 1)) (u32 sy) 1 swatchH 0]

def scaleText (scale : UInt32) : String :=
  if scale ≤ 2 then "SCALE: 1X" else if scale = 3 then "SCALE: 1.5X" else "SCALE: 2X"

def gfxRenderSettingsContent (w : GuiWindow) : List FbCall :=
  let titleH := gfxWindowTitleHeight
  let left := u32 (w.x + s32 (gfxScalePx 10))
  let (sliderX, sliderY, sliderW, sliderH) := settingsScaleSliderRect w
  -- the value is in the range of the slider
  let scaleValue := gfxUiScaleHalf
  let knobSize := sliderH + gfxScalePx 2
  let knobX := u32 sliderX + (scaleValue - 2) * (sliderW - knobSize) / 2
  let knobY := u32 sliderY - gfxUiScale
  let controlBottom :=
    if knobY + knobSize > u32 sliderY + sliderH then knobY + knobSize else u32 sliderY + sliderH
  u.label left (u32 (w.y + s32 titleH + s32 (gfxScalePx 4))) (ascii "THEME") 0 w.bodyBg ++
  (List.range themeCount).flatMap u.themeSwatch ++
  u.label left (u32 (w.y + s32 titleH + s32 (gfxScalePx 36))) (ascii "CLICK SWATCH") 0 w.bodyBg ++
  [.fillRect (u32 sliderX) (u32 sliderY) sliderW sliderH 8,
    .fillRect (u32 sliderX) (u32 sliderY) sliderW 1 15,
    .fillRect (u32 sliderX) (u32 sliderY) 1 sliderH 15,
    .fillRect (u32 sliderX) (u32 (sliderY + s32 sliderH - 1)) sliderW 1 0,
    .fillRect (u32 (sliderX + s32 sliderW - 1)) (u32 sliderY) 1 sliderH 0,
    .fillRect knobX knobY knobSize knobSize 7] ++
  frameRect knobX knobY knobSize knobSize 15 8 ++
  u.label left (controlBottom + gfxScalePx 6) (ascii (scaleText scaleValue)) 0 w.bodyBg

/-- `g_pm_selected_index` once its row has been looked for. -/
def pmSelectionChecked : Ui :=
  match u.pmSelectedIndex with
  | some i =>
    if i ≥ winTerminalFirst ∧ i ∉ u.buildRunningProcessList then { u with pmSelectedIndex := none }
    else u
  | none => u

/-- The text is padded with blanks up to `n` places. -/
def padTo (n : Nat) (s : List UInt8) : List UInt8 := s ++ List.replicate (n - s.length) blankChar

/-- The text of a row: name, task and share. -/
def processRowText (idx : Nat) (usage : UInt32) : List UInt8 :=
  let w := u.windows idx
  let tid := (terminalSessionFromWindow w).bind u.taskIds
  let line := padTo 8 (w.title.take 7)
  let line := line ++ match tid with
    | some t => u32ToDecString t.toUInt32 16
    | none => ascii "-"
  padTo 13 line ++ u32ToDecString usage 16 ++ ascii "%"

/-- The rows of `gfx_render_process_manager_content` from `y` on. -/
def processRows (w : GuiWindow) (totalTicks btnY : UInt32) : List Nat → UInt32 → List FbCall
  | [], _ => []
  | idx :: rest, y =>
    let lineH := u.font.gfxCellHeight
    let rowX := u32 (w.x + s32 (gfxScalePx 8))
    let rowW := if w.w > gfxScalePx 16 then w.w - gfxScalePx 16 else w.w
    let usage := if totalTicks > 0 then u.processCpuTicks idx * 100 / totalTicks else 0
    let selected := u.pmSelectedIndex = some idx
    (if selected then [.fillRect rowX (y - 1) rowW lineH 3] else []) ++
    u.label (u32 (w.x + s32 (gfxScalePx 10))) y (u.processRowText idx usage) 0
      (if selected then 3 else w.bodyBg) ++
    (if y + lineH + lineH ≥ btnY then [] else processRows w totalTicks btnY rest (y + lineH))

/-- After the selection has been checked. -/
def processManagerCalls (w : GuiWindow) : List FbCall :=
  let y := u32 (w.y + s32 gfxWindowTitleHeight + s32 (gfxScalePx 2))
  let btnW := gfxScalePx 46
  let btnH := u.font.gfxCellHeight
  let btnX := u32 (w.x + s32 (gfxScalePx 10))
  let btnY := u32 (w.y + s32 w.h - s32 btnH - s32 (gfxScalePx 8))
  let lineH := u.font.gfxCellHeight
  let indices := u.buildRunningProcessList
  let totalTicks := (indices.map u.processCpuTicks).sum
  let killBg : UInt8 := if u.pmSelectedIndex ≠ none then 12 else 8
  u.label btnX y (ascii "PROCESS MANAGER") 0 w.bodyBg ++
  u.label btnX (y + lineH) (ascii "RUNNING: " ++ u32ToDecString indices.length.toUInt32 16) 0
    w.bodyBg ++
  u.label btnX (y + lineH + lineH) (ascii "NAME   TID  CPU%") 0 w.bodyBg ++
  u.processRows w totalTicks btnY indices (y + lineH + lineH + lineH) ++
  [.fillRect btnX btnY btnW btnH killBg,
    .fillRect btnX btnY btnW 1 15,
    .fillRect btnX btnY 1 btnH 15,
    .fillRect btnX (btnY + btnH - 1) btnW 1 0,
    .fillRect (btnX + btnW - 1) btnY 1 btnH 0] ++
  u.label (btnX + gfxScalePx 4) (btnY + u.font.gfxTextVerticalPad btnH) (ascii "KILL") 0 killBg

/-- The background and the glyph of a cell whose corner is at `(px, py)`. -/
def cellCalls (px py : UInt32) (glyphPad : UInt32) (c : UInt8) : List FbCall :=
  .fillRect px py u.font.gfxCellWidth u.font.gfxCellHeight u.gfxBg ::
    u.font.gfxDrawScaledGlyph u.interactiveMoveActive (px + glyphPad) (py + glyphPad)
      (u.font.fontGlyphAt c.toUInt32) u.gfxFg u.gfxBg

/-- The corner of a cell of the window. -/
def cellX (w : GuiWindow) (col : Nat) : UInt32 :=
  u32 (w.x + s32 gfxWindowBorderWidth) + col.toUInt32 * u.font.gfxCellWidth

def cellY (w : GuiWindow) (row : Nat) : UInt32 :=
  u32 (w.y + s32 gfxWindowTitleHeight) + row.toUInt32 * u.font.gfxCellHeight

/-- The session whose cells the window shows. -/
def windowSession (w : GuiWindow) : Nat := sessionState ((terminalSessionFromWindow w).getD 0)

def windowCell (w : GuiWindow) (row col : Nat) : List FbCall :=
  u.cellCalls (u.cellX w col) (u.cellY w row) 0
    ((u.terminals (windowSession w)).textCells (cellIndex row col))

def gfxRenderTerminalContent (w : GuiWindow) : List FbCall :=
  (List.range (visibleRowsForWindow u.font (some w))).flatMap fun row =>
    (List.range (visibleColsForWindow u.font (some w))).flatMap fun col => u.windowCell w row col

/-- The content is left out while another window is moved. -/
def rendersContent (i : Nat) : Bool :=
  u.interactiveMoveActive = false ∨ u.dragWindow = some i ∨ u.resizeWindow = some i

/-- The calls of `gfx_render_window`, and the state it leaves. -/
def gfxRenderWindow (i : Nat) : List FbCall × Ui :=
  let w := u.windows i
  if w.visible = false then ([], u)
  else if w.role = .desktop then ([.fillRect (u32 w.x) (u32 w.y) w.w w.h w.bodyBg], u)
  else if u.rendersContent i = false then (u.windowFrame w, u)
  else
    match w.role with
    | .terminal => (u.windowFrame w ++ u.gfxRenderTerminalContent w, u)
    | .settings => (u.windowFrame w ++ u.gfxRenderSettingsContent w, u)
    | .processManager =>
      let u' := u.pmSelectionChecked
      (u.windowFrame w ++ u'.processManagerCalls w, u')
    | _ => (u.windowFrame w, u)

/-- The loop of `gfx_render_windows` over the windows from `i` on. -/
def renderWindowsFrom (u : Ui) (i : Nat) : Nat → List FbCall × Ui
  | 0 => ([], u)
  | left + 1 =>
    let (calls, u) := u.gfxRenderWindow i
    let (rest, u) := renderWindowsFrom u (i + 1) left
    (calls ++ rest, u)

def gfxRenderWindows : List FbCall × Ui := renderWindowsFrom u 0 winCount

def gfxRenderCursor : List FbCall × Ui :=
  let tw := u.windows u.terminalWindow
  let (u, s) := u.terminalStateForActiveUi
  let ts := u.terminals s
  let scale := gfxUiScale
  let cellW := u.font.gfxCellWidth
  let cellH := u.font.gfxCellHeight
  let px := u.cellX tw ts.cursorCol
  let py := u.cellY tw ts.cursorRow + (cellH - scale)
  let underlineW := if cellW > 2 * scale then cellW - 2 * scale else cellW
  ([.fillRect (px + scale) py underlineW scale 12],
    { u with drawnCursor := some (ts.cursorRow, ts.cursorCol) })

/-- `gfx_render_color_spectrum`: a column of twelve pixels for each color. -/
def gfxRenderColorSpectrum : List FbCall :=
  (List.range 256).flatMap fun x => (List.range 12).map fun y =>
    .putPixel (32 + x.toUInt32) (32 + y.toUInt32) x.toUInt8

def gfxRenderTestOverlay : List FbCall :=
  [.clear 15, .fillRect 0 (g.height - gfxScalePx 4) g.width (gfxScalePx 4) 0] ++
    gfxRenderColorSpectrum

/-- The first calls of a full rendering. -/
def gfxRenderBackground : List FbCall :=
  if u.testOverlay ∧ u.disableOverlay = false then gfxRenderTestOverlay g else [.clear u.gfxBg]

/-- What both full renderings draw after the background. -/
def gfxRenderScene : List FbCall × Ui :=
  let (windows, u) := u.gfxRenderWindows
  let (cursor, u') := u.gfxRenderCursor
  (windows ++ gfxRenderTaskbar g u ++ gfxRenderStartMenu g u ++ cursor, u')

def gfxRenderFull (tid : Option Nat) : List FbCall × Ui :=
  let (u, s) := u.terminalStateForActiveUi
  let background := gfxRenderBackground g u
  let cols := u.visibleCols g tid
  let ts := u.terminals s
  let u := if ts.cursorCol ≥ cols then u.setTerminal s { ts with cursorCol := cols - 1 } else u
  let (calls, u) := gfxRenderScene g u
  (background ++ calls, u)

def gfxRenderSceneNoCursor : List FbCall × Ui :=
  let background := gfxRenderBackground g u
  let (calls, u) := gfxRenderScene g u
  (background ++ calls, u)

/-- Clears the dirty flags of a row's first cells. -/
def clearDirtyRow (row : Nat) (ts : TerminalState) : Nat → TerminalState
  | 0 => ts
  | col + 1 =>
    let ts := clearDirtyRow row ts col
    { ts with textCellsDirty := Function.update ts.textCellsDirty (cellIndex row col) false }

def clearDirtyRows (cols : Nat) (ts : TerminalState) : Nat → TerminalState
  | 0 => ts
  | row + 1 => clearDirtyRow row (clearDirtyRows cols ts row) cols

/-- The whole screen is the terminal. -/
def gfxRenderPanicFull (tid : Option Nat) : List FbCall × Ui :=
  let (u, s) := u.terminalStateForActiveUi
  let ts := u.terminals s
  let cols := u.visibleCols g tid
  let rows := u.visibleRows g tid
  let glyphPad : UInt32 := if gfxUiScale > 1 then 1 else 0
  let cells := (List.range rows).flatMap fun row => (List.range cols).flatMap fun col =>
    u.cellCalls (col.toUInt32 * u.font.gfxCellWidth) (row.toUInt32 * u.font.gfxCellHeight) glyphPad
      (ts.textCells (cellIndex row col))
  (.clear u.gfxBg :: cells, u.setTerminal s (clearDirtyRows cols ts rows))

/-- The rectangle of dirty cells is empty. -/
def noDirty (ts : TerminalState) : TerminalState :=
  { ts with
    dirtyAny := false
    dirtyMinRow := 0
    dirtyMaxRow := 0
    dirtyMinCol := 0
    dirtyMaxCol := 0 }

def clearVisibleTextDirty (tid : Option Nat) : Ui :=
  let (u, s) := u.terminalStateForActiveUi
  let rows := u.visibleRows g tid
  let cols := u.visibleCols g tid
  u.setTerminal s (noDirty (clearDirtyRows cols (u.terminals s) rows))

/-- The calls of `gfx_render_terminal_cell`, and the state it leaves. -/
def gfxRenderTerminalCell (w : GuiWindow) (row col : Nat) : List FbCall × Ui :=
  if row ≥ visibleRowsForWindow u.font (some w) ∨ col ≥ visibleColsForWindow u.font (some w) then
    ([], u)
  else
    let s := windowSession w
    let ts := u.terminals s
    (u.windowCell w row col, u.setTerminal s
      { ts with textCellsDirty := Function.update ts.textCellsDirty (cellIndex row col) false })

end Ui

end VertexOS
