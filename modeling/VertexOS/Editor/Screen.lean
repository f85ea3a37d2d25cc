import VertexOS.Editor.Buffer
import VertexOS.Video.Sheet

namespace VertexOS

def editGutterCols : Nat := 7
def editContentRows : Nat := vgaHeight - 2

/-! The positions and lines of the buffer. -/

/-- The loop of `pos_for_line` over the `left` bytes from `i` on. -/
def posFrom (b : Buf) (targetLine : Nat) : Nat → Nat → Nat → Nat
  | 0, i, _ => i
  | left + 1, i, line =>
    if line = targetLine then i
    else posFrom b targetLine left (i + 1) (if b i = 10 then line + 1 else line)

/-- The loop of `total_lines`. -/
def countLines (b : Buf) : Nat → Nat
  | 0 => 1
  | i + 1 => if b i = 10 then countLines b i + 1 else countLines b i

/-- The loop of `line_col_for_pos`. -/
def lineCol (b : Buf) : Nat → Nat × Nat
  | 0 => (0, 0)
  | i + 1 => if b i = 10 then ((lineCol b i).1 + 1, 0) else ((lineCol b i).1, (lineCol b i).2 + 1)

/-- The loop of `line_end_for_pos` over the `left` bytes from `pos` on. -/
def lineEnd (b : Buf) : Nat → Nat → Nat
  | 0, pos => pos
  | left + 1, pos => if b pos ≠ 10 then lineEnd b left (pos + 1) else pos

/-- The loop of `pos_for_line_col`. -/
def stepCols (b : Buf) (len : Nat) : Nat → Nat → Nat
  | 0, pos => pos
  | col + 1, pos => if pos < len ∧ b pos ≠ 10 then stepCols b len col (pos + 1) else pos

/-- The loop of `visual_col_for_buffer_col`. -/
def visualCols (b : Buf) (len : Nat) : Nat → Nat → Nat
  | 0, _ => 0
  | bufCol + 1, pos =>
    if pos < len ∧ b pos ≠ 10 then
      (if b pos = 9 then editTabSpaces else 1) + visualCols b len bufCol (pos + 1)
    else 0

namespace EditorState

def posForLine (e : EditorState) (targetLine : Nat) : Nat := posFrom e.buf targetLine e.len 0 0

def totalLines (e : EditorState) : Nat := countLines e.buf e.len

def lineColForPos (e : EditorState) (pos : Nat) : Nat × Nat :=
  lineCol e.buf (if pos > e.len then e.len else pos)

def lineEndForPos (e : EditorState) (pos : Nat) : Nat :=
  let pos := if pos > e.len then e.len else pos
  lineEnd e.buf (e.len - pos) pos

def posForLineCol (e : EditorState) (line col : Nat) : Nat :=
  stepCols e.buf e.len col (e.posForLine line)

def visualColForBufferCol (e : EditorState) (line bufCol : Nat) : Nat :=
  visualCols e.buf e.len bufCol (e.posForLine line)

def ensureCursorVisible (e : EditorState) : EditorState :=
  let line := (e.lineColForPos e.cursor).1
  if line < e.topLine then { e with topLine := line }
  else if line ≥ e.topLine + editContentRows then
    { e with topLine := line - editContentRows + 1 }
  else e

end EditorState

/-! The text screen. No refresh is held back while a command runs. -/

namespace EditorScreen
open TerminalState

def setCursor (ts : TerminalState) (row col : Nat) : TerminalState :=
  displayRequestRefresh vgaHeight vgaWidth false (displaySetCursor vgaHeight vgaWidth ts row col)

def putChar (ts : TerminalState) (c : UInt8) : TerminalState :=
  displayPutChar vgaHeight vgaWidth false ts c

/-- The characters, one after another. -/
def putChars (ts : TerminalState) (s : List UInt8) : TerminalState := s.foldl putChar ts

def rowClear (ts : TerminalState) (row : Nat) : TerminalState :=
  putChars (setCursor ts row 0) (List.replicate vgaWidth 32)

def rowWriteText (ts : TerminalState) (row col : Nat) (s : List UInt8) (maxChars : Nat) :
    TerminalState :=
  if row ≥ vgaHeight ∨ col ≥ vgaWidth ∨ maxChars = 0 then ts
  else putChars (setCursor ts row col) ((cString s).take (min maxChars (vgaWidth - col)))

/-- The loop that takes the digits, at most `left` of them. -/
def digitsOf : Nat → Nat → List UInt8
  | 0, _ => []
  | left + 1, v => if v ≠ 0 then (48 + UInt8.ofNat (v % 10)) :: digitsOf left (v / 10) else []

def rowWriteU32Right (ts : TerminalState) (row col width v : Nat) : TerminalState :=
  if width = 0 ∨ row ≥ vgaHeight ∨ col ≥ vgaWidth then ts
  else
    let digits := if v = 0 then [48] else digitsOf 10 v
    putChars (setCursor ts row col)
      (List.replicate (width - digits.length) 32 ++ digits.reverse)

/-- What a byte of the buffer that is no tab is shown as. -/
def shownChar (c : UInt8) : UInt8 := if 32 ≤ c ∧ c ≤ 126 then c else 32

/-- A character at the column, and the next column. -/
def putAt (row : Nat) (c : UInt8) (r : TerminalState × Nat) : TerminalState × Nat :=
  (putChar (setCursor r.1 row r.2) c, r.2 + 1)

/-- The spaces of a tab, as far as the row goes. -/
def putTab (row : Nat) : Nat → TerminalState × Nat → TerminalState × Nat
  | 0, r => r
  | t + 1, r => if r.2 < vgaWidth then putTab row t (putAt row 32 r) else r

/-- The loop of `render_line` over the `left` bytes from `p` on. -/
def lineCells (b : Buf) (row : Nat) : Nat → Nat → TerminalState × Nat → TerminalState × Nat
  | 0, _, r => r
  | left + 1, p, r =>
    if r.2 < vgaWidth then
      lineCells b row left (p + 1)
        (if b p = 9 then putTab row editTabSpaces r else putAt row (shownChar (b p)) r)
    else r

def renderLine (e : EditorState) (ts : TerminalState) (screenRow absLine : Nat) : TerminalState :=
  let linePos := e.posForLine absLine
  let lineEnd := e.lineEndForPos linePos
  let ts := rowClear ts screenRow
  let ts := rowWriteU32Right ts screenRow 0 4 (absLine + 1)
  let ts := rowWriteText ts screenRow 4 (ascii " | ") 3
  (lineCells e.buf screenRow (lineEnd - linePos) linePos (ts, editGutterCols)).1

/-- The text that `draw_editor` makes in `header`. -/
def header (e : EditorState) : List UInt8 :=
  let text := ascii "edit " ++ strCopy e.path (editStatusMax - 5)
  if e.dirty ∧ text.length + 3 < editStatusMax then text ++ ascii " *" else text

/-- The content rows of a full redraw. -/
def contentRows (e : EditorState) (total : Nat) (ts : TerminalState) : Nat → TerminalState
  | 0 => ts
  | i + 1 =>
    let ts := contentRows e total ts i
    let absLine := e.topLine + i
    if absLine ≥ total then rowClear ts (i + 1) else renderLine e ts (i + 1) absLine

def fullRedraw (e : EditorState) (total : Nat) (ts : TerminalState) : TerminalState :=
  let ts := rowClear ts 0
  let ts := rowWriteText ts 0 0 (header e) vgaWidth
  let ts := rowWriteText ts 0 56 (ascii "F2 save  F10 quit  ESC menu") (vgaWidth - 56)
  contentRows e total ts editContentRows

/-- The line is drawn again where it is on the screen. -/
def redrawLine (e : EditorState) (ts : TerminalState) (line : Nat) : TerminalState :=
  if line ≥ e.topLine ∧ line < e.topLine + editContentRows then
    renderLine e ts (1 + (line - e.topLine)) line
  else ts

/-- The rows above the status, by the path that `draw_editor` chooses. -/
def redraw (e : EditorState) (ts : TerminalState) (line total : Nat) : TerminalState :=
  if e.firstDraw = true ∨ e.topLine ≠ e.prevTopLine ∨ total ≠ e.prevTotalLines then
    fullRedraw e total ts
  else if line ≠ e.prevCursorLine then redrawLine e (redrawLine e ts e.prevCursorLine) line
  else redrawLine e ts line

def drawEditor (e : EditorState) (ts : TerminalState) : EditorState × TerminalState :=
  let e := e.ensureCursorVisible
  let (line, col) := e.lineColForPos e.cursor
  let total := e.totalLines
  let ts := redraw e ts line total
  let ts := rowClear ts (vgaHeight - 1)
  let ts := rowWriteText ts (vgaHeight - 1) 0 e.status vgaWidth
  let line := if line < e.topLine then e.topLine else line
  let line := if line ≥ e.topLine + editContentRows then e.topLine + editContentRows - 1 else line
  let row := 1 + (line - e.topLine)
  let cursorCol := editGutterCols + e.visualColForBufferCol line col
  let cursorCol := if cursorCol ≥ vgaWidth then vgaWidth - 1 else cursorCol
  ({ e with
    firstDraw := false
    prevCursorLine := line
    prevTopLine := e.topLine
    prevTotalLines := total }, setCursor ts row cursorCol)

end EditorScreen

end VertexOS
