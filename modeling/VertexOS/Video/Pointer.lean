import VertexOS.Video.Framebuffer
import VertexOS.Video.Gui

namespace VertexOS

def mouseCursorSize : Nat := 5

/-- `prevBuffer` holds the pixels under the pointer while `prevValid` is set. -/
structure Pointer where
  x : Int
  y : Int
  buttons : UInt8
  prevX : Int
  prevY : Int
  prevBuffer : Nat → UInt8
  prevValid : Bool

/-- The pointer before `mouse_init`. -/
def Pointer.zero : Pointer := ⟨160, 100, 0, -1, -1, fun _ => 0, false⟩

/-- The frame buffer with the pointer in it. `rendered` is no variable of the code: it keeps the
pixels as the last rendering left them. -/
structure Screen where
  fb : Framebuffer
  pointer : Pointer
  rendered : Pixels

/-- The coordinates are those of a pixel. -/
def Geometry.inBounds (g : Geometry) (x y : Int) : Bool :=
  ¬(x < 0 ∨ x ≥ s32 g.width ∨ y < 0 ∨ y ≥ s32 g.height)

/-- The rows and columns of the pointer, in the order of the loops. -/
def pointerCells : List (Nat × Nat) :=
  (List.range mouseCursorSize).flatMap fun row =>
    (List.range mouseCursorSize).map fun col => (row, col)

/-- Draws the visible pixels of the pointer's square at `(x, y)`. -/
def drawSquare (fb : Framebuffer) (x y : Int) (color : Nat → Nat → UInt8) : Framebuffer :=
  pointerCells.foldl (fun fb cell =>
    let px := x + cell.2
    let py := y + cell.1
    if fb.geo.inBounds px py then
      fb.framebufferSetPixel (u32 px) (u32 py) (color cell.1 cell.2)
    else fb) fb

namespace Screen

def mouseRestorePointer (s : Screen) : Screen :=
  let p := s.pointer
  if p.prevValid then
    { s with
      fb := drawSquare s.fb p.prevX p.prevY fun row col => p.prevBuffer (row * mouseCursorSize + col)
      pointer := { p with prevValid := false } }
  else s

/-- `g_mouse_prev_buffer` after `mouse_save_region`: pixels off the screen are saved as 0. -/
def mouseSaveRegion (s : Screen) (xStart yStart : Int) : Nat → UInt8 := fun i =>
  if i < mouseCursorSize * mouseCursorSize then
    let x := xStart + (i % mouseCursorSize : Nat)
    let y := yStart + (i / mouseCursorSize : Nat)
    if s.fb.geo.inBounds x y then s.fb.framebufferGetPixel (u32 x) (u32 y) else 0
  else s.pointer.prevBuffer i

def mouseHideCursor (s : Screen) : Screen := s.mouseRestorePointer

def mouseDrawPointer (s : Screen) : Screen :=
  let s := s.mouseRestorePointer
  let p := s.pointer
  if s.fb.geo.inBounds p.x p.y = false then s
  else
    { s with
      fb := drawSquare s.fb p.x p.y fun _ _ => 0
      pointer :=
        { p with
          prevBuffer := s.mouseSaveRegion p.x p.y
          prevX := p.x
          prevY := p.y
          prevValid := true } }

def mouseRefreshCursor (s : Screen) : Screen :=
  (if s.pointer.prevValid then s.mouseRestorePointer else s).mouseDrawPointer

/-- `mouse_init`, the port accesses left out: a pointer that is drawn is forgotten. -/
def mouseInit (s : Screen) : Screen :=
  { s with
    pointer :=
      { s.pointer with
        x := s32 (s.fb.geo.width / 2)
        y := s32 (s.fb.geo.height / 2)
        buttons := 0
        prevValid := false } }

/-- The calls of a rendering. -/
def drawCalls (s : Screen) (calls : List FbCall) : Screen :=
  let fb := calls.foldl fbCall s.fb
  { s with fb := fb, rendered := fb.target }

def framebufferFlush (s : Screen) : Screen := { s with fb := s.fb.framebufferFlush }

end Screen

end VertexOS
