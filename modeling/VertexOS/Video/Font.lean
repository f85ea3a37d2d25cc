import VertexOS.Library.Words
import VertexOS.Video.Framebuffer

namespace VertexOS
open Library.Words

def gfxCellW : UInt32 := 8
def gfxCellH : UInt32 := 8

/-- `sizeof(psf1_header)` and `sizeof(psf2_header)`. -/
def psf1HeaderBytes : Nat := 4
def psf2HeaderBytes : Nat := 32

/-- `data` is the file, a glyph the place of its first byte. -/
structure PsfFont where
  data : List UInt8
  headerSize : UInt32
  glyphCount : UInt32
  glyphSize : UInt32
  glyphWidth : UInt32
  glyphHeight : UInt32
  bytesPerRow : UInt32
  valid : Bool

/-- `g_font` in zeroed memory. -/
def PsfFont.zero : PsfFont := ⟨[], 0, 0, 0, 0, 0, 0, false⟩

def fontByte (data : List UInt8) (i : Nat) : UInt8 := data.getD i 0

def fontWord (data : List UInt8) (i : Nat) : UInt32 :=
  wordOf (fontByte data i) (fontByte data (i + 1)) (fontByte data (i + 2)) (fontByte data (i + 3))

/-- The values that stay where no header fits. -/
def PsfFont.missing : PsfFont := ⟨[], 0, 256, 8, gfxCellW, gfxCellH, 1, false⟩

def psf2Load (data : List UInt8) : Option PsfFont :=
  let headerSize := fontWord data 8
  let glyphCount := fontWord data 16
  let bytesPerGlyph := fontWord data 20
  let height := fontWord data 24
  let width := fontWord data 28
  if data.length ≥ psf2HeaderBytes ∧ fontWord data 0 = 0x864ab572 ∧ fontWord data 4 = 0 ∧
      headerSize.toNat ≥ psf2HeaderBytes ∧ headerSize.toNat < data.length ∧ glyphCount > 0 ∧
      bytesPerGlyph > 0 ∧ height > 0 ∧ width > 0 ∧
      headerSize.toNat + glyphCount.toNat * bytesPerGlyph.toNat ≤ data.length then
    let bytesPerRow := (width + 7) / 8
    some ⟨data, headerSize, glyphCount, bytesPerGlyph, width, height,
      if bytesPerRow = 0 then 1 else bytesPerRow, true⟩
  else none

def psf1Load (data : List UInt8) : Option PsfFont :=
  let magic := halfOf (fontByte data 0) (fontByte data 1)
  let charsize := fontByte data 3
  let glyphCount : UInt32 := if fontByte data 2 &&& 1 ≠ 0 then 512 else 256
  if magic ≠ 0x0436 ∧ magic ≠ 0x0437 then none
  else if charsize = 0 ∨
      psf1HeaderBytes + glyphCount.toNat * charsize.toNat > data.length then none
  else
    some ⟨data, psf1HeaderBytes.toUInt32, glyphCount, charsize.toUInt32, 8, charsize.toUInt32, 1,
      true⟩

/-- A file has fewer than `2 ^ 32` bytes. -/
def fontLoadFromMemory (data : List UInt8) : PsfFont :=
  if data.length < psf1HeaderBytes then .missing
  else ((psf2Load data).or (psf1Load data)).getD .missing

/-- `'?'`. -/
def questionMark : UInt32 := 63

/-- `g_cga_palette`, as numbers. -/
def cgaPalette : List (Nat × Nat × Nat) :=
  [(0, 0, 0), (0, 0, 170), (0, 170, 0), (0, 170, 170), (170, 0, 0), (170, 0, 170), (170, 85, 0),
    (170, 170, 170), (85, 85, 85), (85, 85, 255), (85, 255, 85), (85, 255, 255), (255, 85, 85),
    (255, 85, 255), (255, 255, 85), (255, 255, 255)]

def paletteColor (i : Nat) : Nat × Nat × Nat := cgaPalette.getD i (0, 0, 0)

/-- `0xFFFFFFFF`, the distance that the search starts with. -/
def farthest : Nat := 4294967295

def squareDiff (a b : Nat) : Nat := (((a : Int) - b) * (a - b)).toNat

/-- The loop of `gfx_blend_palette_color` over the colors from `i` on. -/
def nearestColor (r g b : Nat) : List (Nat × Nat × Nat) → Nat → Nat → Nat → Nat
  | [], _, best, _ => best
  | (pr, pg, pb) :: rest, i, best, bestDist =>
    let dist := squareDiff pr r + squareDiff pg g + squareDiff pb b
    if dist < bestDist then nearestColor r g b rest (i + 1) i dist
    else nearestColor r g b rest (i + 1) best bestDist

/-- The channel of the blend, rounded. -/
def blendChannel (bg fg covered total : Nat) : Nat :=
  (bg * (total - covered) + fg * covered + total / 2) / total

def gfxBlendPaletteColor (bg fg : UInt8) (covered total : Nat) : UInt8 :=
  if covered = 0 ∨ bg = fg then bg
  else if covered ≥ total then fg
  else
    let (br, bgr, bb) := paletteColor (bg &&& 15).toNat
    let (fr, fgr, fb) := paletteColor (fg &&& 15).toNat
    UInt8.ofNat (nearestColor (blendChannel br fr covered total)
      (blendChannel bgr fgr covered total) (blendChannel bb fb covered total) cgaPalette 0 fg.toNat
      farthest)

/-- `g_ui_scale_level` keeps its first value, 3, which is in its range. -/
def gfxUiScaleHalf : UInt32 := 3

def gfxScalePx (base : UInt32) : UInt32 := base * gfxUiScaleHalf / 2

def gfxUiScale : UInt32 := gfxScalePx 1

namespace PsfFont

/-- The place of the glyph. -/
def fontGlyphAt (f : PsfFont) (codepoint : UInt32) : Option UInt32 :=
  if f.valid = false ∨ f.glyphSize = 0 then none
  else
    let codepoint :=
      if codepoint ≥ f.glyphCount then (if questionMark ≥ f.glyphCount then 0 else questionMark)
      else codepoint
    some (f.headerSize + codepoint * f.glyphSize)

/-- The sample's column or row in the glyph. -/
def samplePlace (num size den : UInt32) : UInt32 :=
  let s := num * size / den
  if s ≥ size then size - 1 else s

def glyphSampleCovered (f : PsfFont) (glyph sampleXNum sampleXDen sampleYNum sampleYDen : UInt32) :
    Bool :=
  if f.glyphWidth = 0 ∨ f.glyphHeight = 0 ∨ sampleXDen = 0 ∨ sampleYDen = 0 then false
  else
    let sx := samplePlace sampleXNum f.glyphWidth sampleXDen
    let sy := samplePlace sampleYNum f.glyphHeight sampleYDen
    let byteIndex := sy * f.bytesPerRow + (sx >>> 3)
    let mask : UInt8 := (0x80 >>> (sx &&& 7)).toUInt8
    fontByte f.data (glyph + byteIndex).toNat &&& mask ≠ 0

def gfxCellWidth (f : PsfFont) : UInt32 :=
  gfxScalePx (if f.valid ∧ f.glyphWidth ≠ 0 then f.glyphWidth else gfxCellW)

def gfxCellHeight (f : PsfFont) : UInt32 :=
  gfxScalePx (if f.valid ∧ f.glyphHeight ≠ 0 then f.glyphHeight else gfxCellH)

def gfxTextVerticalPad (f : PsfFont) (boxHeight : UInt32) : UInt32 :=
  if boxHeight > f.gfxCellHeight then (boxHeight - f.gfxCellHeight) / 2 else 0

/-- How many of the four samples of a pixel the glyph covers. -/
def coverage (f : PsfFont) (glyph scaledW scaledH dx dy : UInt32) : Nat :=
  let covered (i j : UInt32) : Nat :=
    (f.glyphSampleCovered glyph (dx * 4 + i) (scaledW * 4) (dy * 4 + j) (scaledH * 4)).toNat
  covered 1 1 + covered 3 1 + covered 1 3 + covered 3 3

/-- The color of a pixel of the glyph, where it is drawn; `fast` is
`g_interactive_move_active`. -/
def glyphPixel (f : PsfFont) (fast : Bool) (glyph scaledW scaledH dx dy : UInt32)
    (color bgColor : UInt8) : Option UInt8 :=
  if fast then
    if f.glyphSampleCovered glyph (dx * 2 + 1) (scaledW * 2) (dy * 2 + 1) (scaledH * 2) then
      some color
    else none
  else
    let out := gfxBlendPaletteColor bgColor color (f.coverage glyph scaledW scaledH dx dy) 4
    if out ≠ bgColor then some out else none

/-- The size of a glyph on the screen. -/
def scaledSize (size : UInt32) : UInt32 := if gfxScalePx size = 0 then 1 else gfxScalePx size

/-- The calls of `gfx_draw_scaled_glyph`, row by row. -/
def gfxDrawScaledGlyph (f : PsfFont) (fast : Bool) (xStart yStart : UInt32)
    (glyph : Option UInt32) (color bgColor : UInt8) : List FbCall :=
  match glyph with
  | none => []
  | some glyph =>
    if f.glyphWidth = 0 ∨ f.glyphHeight = 0 then []
    else
      let scaledW := scaledSize f.glyphWidth
      let scaledH := scaledSize f.glyphHeight
      (List.range scaledH.toNat).flatMap fun dy =>
        (List.range scaledW.toNat).filterMap fun dx =>
          (f.glyphPixel fast glyph scaledW scaledH dx.toUInt32 dy.toUInt32 color bgColor).map
            fun c => .putPixel (xStart + dx.toUInt32) (yStart + dy.toUInt32) c

/-- The calls of `gfx_render_label`. -/
def gfxRenderLabel (f : PsfFont) (fast : Bool) (xStart yStart : UInt32) :
    List UInt8 → UInt8 → UInt8 → List FbCall
  | [], _, _ => []
  | c :: text, color, bgColor =>
    (match f.fontGlyphAt c.toUInt32 with
      | some glyph => f.gfxDrawScaledGlyph fast xStart yStart (some glyph) color bgColor
      | none => []) ++
    f.gfxRenderLabel fast (xStart + f.gfxCellWidth) yStart text color bgColor

end PsfFont

end VertexOS
