import VertexOS.Library.Layers
import VertexOS.Video.DoubleBuffer
import VertexOS.Video.Pointer

namespace VertexOS
open Framebuffer Library.Layers

/-- A pixel of the screen by its column and its row. -/
abbrev Pixel := Nat × Nat

def Geometry.Shows (g : Geometry) (p : Pixel) : Prop := g.Visible p.1 p.2

/-- The pixels of the buffer that is drawn into. -/
def Framebuffer.pixel (fb : Framebuffer) (p : Pixel) : UInt8 := fb.target (fb.geo.index p.1 p.2)

/-- What a call draws. -/
def callLayer (g : Geometry) : FbCall → Layer Pixel UInt8
  | .clear color => fun _ => some color
  | .putPixel x y color | .setPixel x y color => fun p =>
    if p.1 = x.toNat ∧ p.2 = y.toNat then some color else none
  | .fillRect x y w h color => fun p =>
    if (x.toNat ≤ p.1 ∧ p.1 < (clipEnd x w g.width).toNat) ∧
        (y.toNat ≤ p.2 ∧ p.2 < (clipEnd y h g.height).toNat) then some color
    else none
  | _ => fun _ => none

def callLayers (g : Geometry) (calls : List FbCall) : List (Layer Pixel UInt8) :=
  calls.map (callLayer g)

section Calls

variable {fb : Framebuffer} {p : Pixel} {x y w h x1 y1 x2 y2 : UInt32} {color : UInt8}

theorem draw_target (fb : Framebuffer) (x1 y1 x2 y2 : UInt32) (color : UInt8) :
    (fb.draw x1 y1 x2 y2 color).target = copyRect fb.target (fun _ => color) fb.geo.pitch x1 y1
      (x2.toNat - x1.toNat) (y2.toNat - y1.toNat) := by
  cases hb : fb.back with
  | none => simp [draw, setTarget, target, hb]
  | some b => simp [draw, setTarget, target, hb]

theorem draw_geo (fb : Framebuffer) (x1 y1 x2 y2 : UInt32) (color : UInt8) :
    (fb.draw x1 y1 x2 y2 color).geo = fb.geo := by
  cases hb : fb.back with
  | none => simp [draw, setTarget, hb]
  | some b => simp [draw, setTarget, hb]

theorem draw_pixel (hp : fb.geo.Shows p) (hx : x2.toNat ≤ fb.geo.width.toNat)
    (hy : y2.toNat ≤ fb.geo.height.toNat) :
    (fb.draw x1 y1 x2 y2 color).pixel p =
      if (x1.toNat ≤ p.1 ∧ p.1 < x2.toNat) ∧ (y1.toNat ≤ p.2 ∧ p.2 < y2.toNat) then color
      else fb.pixel p := by
  rw [Framebuffer.pixel, draw_target, draw_geo]
  by_cases hsize : x1.toNat ≤ x2.toNat ∧ y1.toNat ≤ y2.toNat
  · have hiff := covered_iff (x := x1) (y := y1) (w := x2.toNat - x1.toNat)
      (h := y2.toNat - y1.toNat) hp (by omega) (by omega)
    rw [Nat.add_sub_cancel' hsize.1, Nat.add_sub_cancel' hsize.2] at hiff
    split
    · next hin => exact copyRect_written (hiff.mpr hin)
    · next hout => exact copyRect_other fun hc => hout (hiff.mp hc)
  · rw [if_neg (by omega)]
    exact copyRect_other (not_covered_of_empty (by omega))

theorem putPixel_pixel (hp : fb.geo.Shows p) (x y : UInt32) (color : UInt8) :
    (fb.framebufferPutPixel x y color).pixel p =
      if p.1 = x.toNat ∧ p.2 = y.toNat then color else fb.pixel p := by
  by_cases hin : x < fb.geo.width ∧ y < fb.geo.height
  · have hsucc : ∀ {v b : UInt32}, v < b → (v + 1).toNat = v.toNat + 1 := by
      intro v b hv
      have hlt := UInt32.lt_iff_toNat_lt.mp hv
      have hb := b.toNat_lt
      rw [UInt32.toNat_add]
      simp only [UInt32.toNat_one]
      omega
    rw [putPixel_eq_draw hin.1 hin.2, draw_pixel hp (succ_le_bound hin.1) (succ_le_bound hin.2),
      hsucc hin.1, hsucc hin.2]
    apply if_congr _ rfl rfl
    omega
  · rw [framebufferPutPixel, if_pos ((not_and_or.mp hin).imp UInt32.not_lt.mp UInt32.not_lt.mp),
      if_neg]
    rintro ⟨hpx, hpy⟩
    apply hin
    rw [UInt32.lt_iff_toNat_lt, UInt32.lt_iff_toNat_lt, ← hpx, ← hpy]
    exact hp

theorem fillRect_pixel (hp : fb.geo.Shows p) (x y w h : UInt32) (color : UInt8) :
    (fb.framebufferFillRect x y w h color).pixel p =
      (callLayer fb.geo (.fillRect x y w h color) p).getD (fb.pixel p) := by
  have hdraw : (fb.draw x y _ _ color).pixel p = _ :=
    draw_pixel hp (clipEnd_le x w fb.geo.width) (clipEnd_le y h fb.geo.height)
  simp only [callLayer]
  rw [framebufferFillRect]
  split
  · next hout =>
    rw [if_neg]
    · rfl
    rintro ⟨⟨hx1, hx2⟩, hy1, hy2⟩
    have hwidth := clipEnd_le x w fb.geo.width
    have hheight := clipEnd_le y h fb.geo.height
    rcases hout with hx | hy | rfl | rfl
    · have := UInt32.le_iff_toNat_le.mp hx
      omega
    · have := UInt32.le_iff_toNat_le.mp hy
      omega
    · rw [clipEnd, UInt32.add_zero] at hx2
      split at hx2
      · next hlt =>
        have := UInt32.lt_iff_toNat_lt.mp hlt
        omega
      · omega
    · rw [clipEnd, UInt32.add_zero] at hy2
      split at hy2
      · next hlt =>
        have := UInt32.lt_iff_toNat_lt.mp hlt
        omega
      · omega
  · rw [hdraw]
    split <;> rfl

theorem flush_pixel (fb : Framebuffer) : fb.framebufferFlush.pixel = fb.pixel := by
  funext p
  cases hb : fb.back with
  | none => simp [framebufferFlush, hb]
  | some b =>
    cases hd : fb.dirty with
    | none => simp [framebufferFlush, hb, hd]
    | some d => simp [framebufferFlush, hb, hd, Framebuffer.pixel, target]

theorem flush_geo (fb : Framebuffer) : fb.framebufferFlush.geo = fb.geo := by
  rw [framebufferFlush]
  split <;> rfl

theorem call_geo (fb : Framebuffer) (c : FbCall) : (fbCall fb c).geo = fb.geo := by
  have hput : ∀ x y color, (fb.framebufferPutPixel x y color).geo = fb.geo := by
    intro x y color
    rw [framebufferPutPixel]
    split
    · rfl
    · simp only [setTarget]
      split <;> rfl
  cases c with
  | clear color => exact draw_geo fb _ _ _ _ color
  | putPixel x y color => exact hput x y color
  | setPixel x y color => exact hput x y color
  | fillRect x y w h color =>
    simp only [fbCall, framebufferFillRect]
    split
    · rfl
    · exact draw_geo fb _ _ _ _ color
  | markDirtyRect x y w h =>
    simp only [fbCall, framebufferMarkDirtyRect]
    split <;> rfl
  | flush => exact flush_geo fb

theorem call_pixel (hp : fb.geo.Shows p) (c : FbCall) :
    (fbCall fb c).pixel p = (callLayer fb.geo c p).getD (fb.pixel p) := by
  cases c with
  | clear color =>
    simp only [fbCall, framebufferClear, callLayer, Option.getD_some]
    rw [draw_pixel hp (Nat.le_refl _) (Nat.le_refl _), if_pos]
    exact ⟨⟨Nat.zero_le _, hp.1⟩, Nat.zero_le _, hp.2⟩
  | putPixel x y color =>
    simp only [fbCall, callLayer]
    rw [putPixel_pixel hp]
    split <;> rfl
  | setPixel x y color =>
    simp only [fbCall, framebufferSetPixel, callLayer]
    rw [putPixel_pixel hp]
    split <;> rfl
  | fillRect x y w h color => exact fillRect_pixel hp x y w h color
  | markDirtyRect x y w h =>
    simp only [fbCall, framebufferMarkDirtyRect, callLayer, Option.getD_none]
    split <;> rfl
  | flush => simp only [fbCall, callLayer, Option.getD_none, flush_pixel]

theorem calls_geo (calls : List FbCall) (fb : Framebuffer) :
    (calls.foldl fbCall fb).geo = fb.geo := by
  induction calls generalizing fb with
  | nil => rfl
  | cons c calls ih => rw [List.foldl_cons, ih, call_geo]

/-- The calls lay their colors over the picture. -/
theorem calls_pixel (hp : fb.geo.Shows p) (calls : List FbCall) :
    (calls.foldl fbCall fb).pixel p = paint fb.pixel (callLayers fb.geo calls) p := by
  induction calls generalizing fb with
  | nil => rfl
  | cons c calls ih =>
    have hgeo := call_geo fb c
    rw [List.foldl_cons, ih (by rw [hgeo]; exact hp), hgeo]
    exact paint_next (call_pixel hp c) _

end Calls

section Square

variable {fb : Framebuffer} {p : Pixel} {x y : Int} {color : Nat → Nat → UInt8}

/-- The pixel at the coordinates, where there is one. -/
def Geometry.InSquare (g : Geometry) (x y : Int) (p : Pixel) : Prop :=
  g.inBounds p.1 p.2 = true ∧ (x ≤ p.1 ∧ p.1 < x + 5) ∧ (y ≤ p.2 ∧ p.2 < y + 5)

/-- A turn of the loops over the pointer's square. -/
def squareTurn (x y : Int) (color : Nat → Nat → UInt8) (fb : Framebuffer) (cell : Nat × Nat) :
    Framebuffer :=
  if fb.geo.inBounds (x + cell.2) (y + cell.1) then
    fb.framebufferSetPixel (u32 (x + cell.2)) (u32 (y + cell.1)) (color cell.1 cell.2)
  else fb

theorem drawSquare_eq (fb : Framebuffer) (x y : Int) (color : Nat → Nat → UInt8) :
    drawSquare fb x y color = pointerCells.foldl (squareTurn x y color) fb := rfl

/-- What a turn draws. -/
def cellLayer (g : Geometry) (x y : Int) (color : Nat → Nat → UInt8) (cell : Nat × Nat) :
    Layer Pixel UInt8 := fun p =>
  if g.inBounds p.1 p.2 = true ∧ (p.1 : Int) = x + cell.2 ∧ (p.2 : Int) = y + cell.1 then
    some (color cell.1 cell.2)
  else none

theorem squareTurn_geo (fb : Framebuffer) (cell : Nat × Nat) :
    (squareTurn x y color fb cell).geo = fb.geo := by
  rw [squareTurn]
  split
  · exact call_geo fb (.setPixel _ _ _)
  · rfl

theorem s32_le (u : UInt32) : s32 u ≤ u.toNat := by
  rw [s32]
  simp only [Int32.toInt, UInt32.toBitVec_toInt32, BitVec.toInt_eq_toNat_cond]
  split <;> simp

theorem u32_toNat {i : Int} (h0 : 0 ≤ i) (h : i < 4294967296) : ((u32 i).toNat : Int) = i := by
  rw [u32, UInt32.ofInt]
  simp only [UInt32.toNat_ofNat']
  omega

/-- Coordinates that are in bounds are those of one pixel. -/
theorem inBounds_pixel {g : Geometry} {i j : Int} (h : g.inBounds i j = true) :
    ((u32 i).toNat : Int) = i ∧ ((u32 j).toNat : Int) = j := by
  simp only [Geometry.inBounds, decide_eq_true_eq, not_or, not_lt, not_le] at h
  have hw := s32_le g.width
  have hh := s32_le g.height
  have hw32 := g.width.toNat_lt
  have hh32 := g.height.toNat_lt
  exact ⟨u32_toNat h.1 (by omega), u32_toNat h.2.2.1 (by omega)⟩

theorem squareTurn_pixel (hp : fb.geo.Shows p) (cell : Nat × Nat) :
    (squareTurn x y color fb cell).pixel p =
      (cellLayer fb.geo x y color cell p).getD (fb.pixel p) := by
  rw [squareTurn]
  split
  · next hin =>
    obtain ⟨hx, hy⟩ := inBounds_pixel hin
    rw [framebufferSetPixel, putPixel_pixel hp, cellLayer]
    by_cases he : (p.1 : Int) = x + cell.2 ∧ (p.2 : Int) = y + cell.1
    · rw [if_pos (by omega), if_pos (by rw [he.1, he.2]; exact ⟨hin, rfl, rfl⟩)]
      rfl
    · rw [if_neg (by omega), if_neg fun h => he h.2]
      rfl
  · next hout =>
    rw [cellLayer, if_neg]
    · rfl
    rintro ⟨hin, hx, hy⟩
    rw [hx, hy] at hin
    exact hout hin

theorem squareTurns_pixel (cells : List (Nat × Nat)) (hp : fb.geo.Shows p) :
    (cells.foldl (squareTurn x y color) fb).pixel p =
      paint fb.pixel (cells.map (cellLayer fb.geo x y color)) p ∧
    (cells.foldl (squareTurn x y color) fb).geo = fb.geo := by
  induction cells generalizing fb with
  | nil => exact ⟨rfl, rfl⟩
  | cons cell cells ih =>
    have hgeo : (squareTurn x y color fb cell).geo = fb.geo := squareTurn_geo fb cell
    have hshows : (squareTurn x y color fb cell).geo.Shows p := by
      rw [hgeo]
      exact hp
    obtain ⟨hpixel, hgeo'⟩ := ih hshows
    rw [List.foldl_cons, hpixel, hgeo', hgeo]
    exact ⟨paint_next (squareTurn_pixel hp cell) _, rfl⟩

theorem mem_pointerCells {cell : Nat × Nat} :
    cell ∈ pointerCells ↔ cell.1 < mouseCursorSize ∧ cell.2 < mouseCursorSize := by
  simp only [pointerCells, List.mem_flatMap, List.mem_range, List.mem_map]
  constructor
  · rintro ⟨row, hrow, col, hcol, rfl⟩
    exact ⟨hrow, hcol⟩
  · rintro ⟨hrow, hcol⟩
    exact ⟨cell.1, hrow, cell.2, hcol, rfl⟩

theorem drawSquare_geo (fb : Framebuffer) (x y : Int) (color : Nat → Nat → UInt8) :
    (drawSquare fb x y color).geo = fb.geo := by
  have hgeo : ∀ (cells : List (Nat × Nat)) (fb : Framebuffer),
      (cells.foldl (squareTurn x y color) fb).geo = fb.geo := by
    intro cells
    induction cells with
    | nil => exact fun fb => rfl
    | cons cell cells ih =>
      intro fb
      rw [List.foldl_cons, ih, squareTurn_geo]
  exact hgeo pointerCells fb

/-- The square and nothing else gets its colors. -/
theorem drawSquare_pixel (hp : fb.geo.Shows p) :
    (fb.geo.InSquare x y p → (drawSquare fb x y color).pixel p =
      color (p.2 - y).toNat (p.1 - x).toNat) ∧
    (¬fb.geo.InSquare x y p → (drawSquare fb x y color).pixel p = fb.pixel p) := by
  rw [drawSquare_eq, (squareTurns_pixel pointerCells hp).1]
  constructor
  · rintro ⟨hin, hx, hy⟩
    apply paint_agree
    · intro l hl
      obtain ⟨cell, -, rfl⟩ := List.mem_map.mp hl
      rw [cellLayer]
      split
      · next he =>
        right
        have hrow : (p.2 - y).toNat = cell.1 := by omega
        have hcol : (p.1 - x).toNat = cell.2 := by omega
        rw [hrow, hcol]
      · exact .inl rfl
    · refine ⟨_, List.mem_map.mpr ⟨((p.2 - y).toNat, (p.1 - x).toNat), ?_, rfl⟩, ?_⟩
      · rw [mem_pointerCells]
        simp only [mouseCursorSize]
        omega
      · rw [cellLayer, if_pos]
        refine ⟨hin, ?_, ?_⟩
        · dsimp only
          omega
        · dsimp only
          omega
  · intro hout
    apply paint_clear
    intro l hl
    obtain ⟨cell, hcell, rfl⟩ := List.mem_map.mp hl
    rw [mem_pointerCells] at hcell
    simp only [mouseCursorSize] at hcell
    rw [cellLayer, if_neg]
    rintro ⟨hin, hx, hy⟩
    exact hout ⟨hin, by omega, by omega⟩

end Square

end VertexOS
