import Mathlib

namespace VertexOS

/-- The size of the screen. The buffer of `height * pitch` bytes fits in the address
space. -/
structure Geometry where
  width : UInt32
  height : UInt32
  pitch : UInt32
  wide : width.toNat ≤ pitch.toNat
  fits : height.toNat * pitch.toNat < 2 ^ 32

inductive VideoResolution where
  | res320x200
  | res640x480
  | res800x600
  | res1024x768
  deriving DecidableEq, Repr

/-- The sizes that `set_fb_defaults` sets. -/
def fbDefaults : VideoResolution → Geometry
  | .res320x200 => ⟨320, 200, 320, by decide, by decide⟩
  | .res640x480 => ⟨640, 480, 640, by decide, by decide⟩
  | .res800x600 => ⟨800, 600, 800, by decide, by decide⟩
  | .res1024x768 => ⟨1024, 768, 1024, by decide, by decide⟩

/-- The bytes of a buffer by their index. -/
abbrev Pixels := UInt32 → UInt8

structure DirtyRect where
  minX : UInt32
  minY : UInt32
  maxX : UInt32
  maxY : UInt32
  deriving DecidableEq, Repr

/-- `back` is `g_back_buf`, `dirty` the rectangle while `g_dirty_valid` is set. -/
structure Framebuffer where
  geo : Geometry
  front : Pixels
  back : Option Pixels
  dirty : Option DirtyRect

/-- `dst[start + x] = src[start + x]` for each `x` below the count. -/
def copyRow (dst src : Pixels) (start : UInt32) : Nat → Pixels
  | 0 => dst
  | w + 1 =>
    let i := start + UInt32.ofNat w
    Function.update (copyRow dst src start w) i (src i)

/-- The rows of a rectangle from `(x, y)` on. -/
def copyRect (dst src : Pixels) (pitch x y : UInt32) (w : Nat) : Nat → Pixels
  | 0 => dst
  | h + 1 => copyRow (copyRect dst src pitch x y w h) src ((y + UInt32.ofNat h) * pitch + x) w

def framebufferExpandDirtyRect (d : Option DirtyRect) (x1 y1 x2 y2 : UInt32) : Option DirtyRect :=
  if x1 ≥ x2 ∨ y1 ≥ y2 then d
  else
    match d with
    | none => some ⟨x1, y1, x2, y2⟩
    | some r => some ⟨if x1 < r.minX then x1 else r.minX, if y1 < r.minY then y1 else r.minY,
        if x2 > r.maxX then x2 else r.maxX, if y2 > r.maxY then y2 else r.maxY⟩

namespace Framebuffer

/-- The buffer that is drawn into. -/
def target (fb : Framebuffer) : Pixels := fb.back.getD fb.front

def setTarget (fb : Framebuffer) (p : Pixels) : Framebuffer :=
  match fb.back with
  | some _ => { fb with back := some p }
  | none => { fb with front := p }

/-- A rectangle from `(x1, y1)` to `(x2, y2)` is drawn and recorded. -/
def draw (fb : Framebuffer) (x1 y1 x2 y2 : UInt32) (color : UInt8) : Framebuffer :=
  let p := copyRect fb.target (fun _ => color) fb.geo.pitch x1 y1 (x2.toNat - x1.toNat)
    (y2.toNat - y1.toNat)
  { fb.setTarget p with dirty := framebufferExpandDirtyRect fb.dirty x1 y1 x2 y2 }

def framebufferClear (fb : Framebuffer) (color : UInt8) : Framebuffer :=
  fb.draw 0 0 fb.geo.width fb.geo.height color

def framebufferPutPixel (fb : Framebuffer) (x y : UInt32) (color : UInt8) : Framebuffer :=
  if x ≥ fb.geo.width ∨ y ≥ fb.geo.height then fb
  else
    { fb.setTarget (Function.update fb.target (y * fb.geo.pitch + x) color) with
      dirty := framebufferExpandDirtyRect fb.dirty x y (x + 1) (y + 1) }

def framebufferSetPixel (fb : Framebuffer) (x y : UInt32) (color : UInt8) : Framebuffer :=
  fb.framebufferPutPixel x y color

/-- The right or lower end of a rectangle: the sum may wrap around. -/
def clipEnd (start size bound : UInt32) : UInt32 :=
  if start + size > bound then bound else start + size

def framebufferFillRect (fb : Framebuffer) (x y w h : UInt32) (color : UInt8) : Framebuffer :=
  if x ≥ fb.geo.width ∨ y ≥ fb.geo.height ∨ w = 0 ∨ h = 0 then fb
  else fb.draw x y (clipEnd x w fb.geo.width) (clipEnd y h fb.geo.height) color

def framebufferMarkDirtyRect (fb : Framebuffer) (x y w h : UInt32) : Framebuffer :=
  if x ≥ fb.geo.width ∨ y ≥ fb.geo.height ∨ w = 0 ∨ h = 0 then fb
  else
    let d := framebufferExpandDirtyRect fb.dirty x y (clipEnd x w fb.geo.width)
      (clipEnd y h fb.geo.height)
    { fb with dirty := d }

def framebufferGetPixel (fb : Framebuffer) (x y : UInt32) : UInt8 :=
  if x ≥ fb.geo.width ∨ y ≥ fb.geo.height then 0 else fb.target (y * fb.geo.pitch + x)

def framebufferFlush (fb : Framebuffer) : Framebuffer :=
  match fb.back, fb.dirty with
  | some b, some d =>
    { fb with
      front := copyRect fb.front b fb.geo.pitch d.minX d.minY (d.maxX - d.minX).toNat
        (d.maxY.toNat - d.minY.toNat)
      dirty := none }
  | _, _ => fb

end Framebuffer

inductive FbCall where
  | clear (color : UInt8)
  | putPixel (x y : UInt32) (color : UInt8)
  | setPixel (x y : UInt32) (color : UInt8)
  | fillRect (x y w h : UInt32) (color : UInt8)
  | markDirtyRect (x y w h : UInt32)
  | flush
  deriving DecidableEq

def fbCall (fb : Framebuffer) : FbCall → Framebuffer
  | .clear color => fb.framebufferClear color
  | .putPixel x y color => fb.framebufferPutPixel x y color
  | .setPixel x y color => fb.framebufferSetPixel x y color
  | .fillRect x y w h color => fb.framebufferFillRect x y w h color
  | .markDirtyRect x y w h => fb.framebufferMarkDirtyRect x y w h
  | .flush => fb.framebufferFlush

section Indices

/-- The pixel is on the screen. -/
def Geometry.Visible (g : Geometry) (x y : Nat) : Prop := x < g.width.toNat ∧ y < g.height.toNat

def Geometry.index (g : Geometry) (x y : Nat) : UInt32 := UInt32.ofNat (y * g.pitch.toNat + x)

variable {g : Geometry} {x y : Nat}

theorem Geometry.index_lt (h : g.Visible x y) : y * g.pitch.toNat + x < 2 ^ 32 := by
  have hx := h.1
  have hwide := g.wide
  have hfits := g.fits
  have hrow : (y + 1) * g.pitch.toNat ≤ g.height.toNat * g.pitch.toNat :=
    Nat.mul_le_mul_right _ h.2
  rw [Nat.succ_mul] at hrow
  omega

theorem Geometry.index_toNat (h : g.Visible x y) :
    (g.index x y).toNat = y * g.pitch.toNat + x :=
  UInt32.toNat_ofNat_of_lt' (Geometry.index_lt h)

/-- The pixels have different places. -/
theorem Geometry.index_inj {x' y' : Nat} (h : g.Visible x y) (h' : g.Visible x' y')
    (he : g.index x y = g.index x' y') : x = x' ∧ y = y' := by
  have hnat : y * g.pitch.toNat + x = y' * g.pitch.toNat + x' := by
    rw [← Geometry.index_toNat h, he, Geometry.index_toNat h']
  have hx := lt_of_lt_of_le h.1 g.wide
  have hx' := lt_of_lt_of_le h'.1 g.wide
  have hrow : ∀ {a b : Nat}, a < g.pitch.toNat → (b * g.pitch.toNat + a) / g.pitch.toNat = b := by
    intro a b ha
    rw [Nat.mul_comm, Nat.mul_add_div (by omega), Nat.div_eq_of_lt ha, Nat.add_zero]
  have hy : y = y' := by
    rw [← hrow (b := y) hx, hnat, hrow hx']
  subst hy
  exact ⟨by omega, rfl⟩

/-- The index that the code computes. -/
theorem Geometry.index_row (g : Geometry) (a b : UInt32) (i j : Nat) :
    (b + UInt32.ofNat j) * g.pitch + a + UInt32.ofNat i = g.index (a.toNat + i) (b.toNat + j) := by
  simp only [Geometry.index, UInt32.ofNat_add, UInt32.ofNat_mul, UInt32.ofNat_toNat]
  rw [UInt32.add_assoc]

theorem Geometry.index_eq (g : Geometry) (a b : UInt32) :
    b * g.pitch + a = g.index a.toNat b.toNat := by
  simp only [Geometry.index, UInt32.ofNat_add, UInt32.ofNat_mul, UInt32.ofNat_toNat]

end Indices

section Copies

variable {g : Geometry} {dst src : Pixels} {x y i : UInt32} {w h a b : Nat}

/-- The index belongs to a pixel of the rectangle. -/
def Covered (g : Geometry) (x y : UInt32) (w h : Nat) (i : UInt32) : Prop :=
  ∃ k < w, ∃ j < h, i = g.index (x.toNat + k) (y.toNat + j)

theorem copyRow_written {start : UInt32} (h : ∃ k < w, i = start + UInt32.ofNat k) :
    copyRow dst src start w i = src i := by
  induction w with
  | zero =>
    obtain ⟨k, hk, -⟩ := h
    exact absurd hk (Nat.not_lt_zero k)
  | succ w ih =>
    simp only [copyRow, Function.update_apply]
    split
    · next he => rw [he]
    · next hne =>
      obtain ⟨k, hk, he⟩ := h
      apply ih
      refine ⟨k, ?_, he⟩
      rcases Nat.lt_succ_iff_lt_or_eq.mp hk with hlt | rfl
      · exact hlt
      · exact absurd he hne

theorem copyRow_other {start : UInt32} (h : ∀ k < w, i ≠ start + UInt32.ofNat k) :
    copyRow dst src start w i = dst i := by
  induction w with
  | zero => rfl
  | succ w ih =>
    simp only [copyRow, Function.update_apply]
    rw [if_neg (h w (Nat.lt_succ_self w))]
    exact ih fun k hk => h k (Nat.lt_succ_of_lt hk)

theorem copyRect_written (hc : Covered g x y w h i) :
    copyRect dst src g.pitch x y w h i = src i := by
  obtain ⟨k, hk, j, hj, rfl⟩ := hc
  induction h with
  | zero => exact absurd hj (Nat.not_lt_zero j)
  | succ h ih =>
    by_cases hrow : ∃ k' < w,
        g.index (x.toNat + k) (y.toNat + j) =
          (y + UInt32.ofNat h) * g.pitch + x + UInt32.ofNat k'
    · exact copyRow_written hrow
    · have hne : j ≠ h := by
        rintro rfl
        exact hrow ⟨k, hk, (g.index_row x y k j).symm⟩
      rw [copyRect, copyRow_other fun k' hk' he => hrow ⟨k', hk', he⟩]
      exact ih (by omega)

theorem copyRect_other (hc : ¬Covered g x y w h i) :
    copyRect dst src g.pitch x y w h i = dst i := by
  induction h with
  | zero => rfl
  | succ h ih =>
    rw [copyRect, copyRow_other]
    · apply ih
      rintro ⟨k, hk, j, hj, he⟩
      exact hc ⟨k, hk, j, Nat.lt_succ_of_lt hj, he⟩
    · intro k hk he
      rw [g.index_row] at he
      exact hc ⟨k, hk, h, Nat.lt_succ_self h, he⟩

/-- In a rectangle on the screen no other pixel is covered. -/
theorem covered_iff (hv : g.Visible a b) (hw : x.toNat + w ≤ g.width.toNat)
    (hh : y.toNat + h ≤ g.height.toNat) : Covered g x y w h (g.index a b) ↔
      (x.toNat ≤ a ∧ a < x.toNat + w) ∧ (y.toNat ≤ b ∧ b < y.toNat + h) := by
  constructor
  · rintro ⟨k, hk, j, hj, he⟩
    obtain ⟨rfl, rfl⟩ := Geometry.index_inj hv ⟨by omega, by omega⟩ he
    exact ⟨⟨by omega, by omega⟩, by omega, by omega⟩
  · rintro ⟨⟨hx, hx'⟩, hy, hy'⟩
    refine ⟨a - x.toNat, by omega, b - y.toNat, by omega, ?_⟩
    congr 1
    · omega
    · omega

/-- All that is covered is on the screen. -/
theorem Covered.visible (hc : Covered g x y w h i) (hw : x.toNat + w ≤ g.width.toNat)
    (hh : y.toNat + h ≤ g.height.toNat) : ∃ a b, g.Visible a b ∧ i = g.index a b := by
  obtain ⟨k, hk, j, hj, rfl⟩ := hc
  exact ⟨_, _, ⟨by omega, by omega⟩, rfl⟩

end Copies

section Dirty

variable {g : Geometry} {d d' : DirtyRect} {x1 y1 x2 y2 : UInt32} {a b : Nat}

def DirtyRect.Contains (d : DirtyRect) (a b : Nat) : Prop :=
  (d.minX.toNat ≤ a ∧ a < d.maxX.toNat) ∧ (d.minY.toNat ≤ b ∧ b < d.maxY.toNat)

/-- The rectangle is on the screen, and not empty. -/
structure DirtyRect.Within (g : Geometry) (d : DirtyRect) : Prop where
  columns : d.minX.toNat < d.maxX.toNat
  rows : d.minY.toNat < d.maxY.toNat
  right : d.maxX.toNat ≤ g.width.toNat
  bottom : d.maxY.toNat ≤ g.height.toNat

theorem expand_within {o : Option DirtyRect} (ho : ∀ d, o = some d → d.Within g)
    (hx : x2.toNat ≤ g.width.toNat) (hy : y2.toNat ≤ g.height.toNat)
    (he : framebufferExpandDirtyRect o x1 y1 x2 y2 = some d') : d'.Within g := by
  simp only [framebufferExpandDirtyRect, ge_iff_le, UInt32.le_iff_toNat_le] at he
  split at he
  · exact ho d' he
  next hne =>
  cases o with
  | none =>
    cases he
    exact ⟨by simp; omega, by simp; omega, hx, hy⟩
  | some d =>
    obtain ⟨h1, h2, h3, h4⟩ := ho d rfl
    cases he
    constructor <;> simp only [UInt32.lt_iff_toNat_lt, gt_iff_lt] <;> split <;> try split
    all_goals omega

/-- What was recorded stays recorded. -/
theorem expand_old (x1 y1 x2 y2 : UInt32) (hc : d.Contains a b) :
    ∃ d', framebufferExpandDirtyRect (some d) x1 y1 x2 y2 = some d' ∧ d'.Contains a b := by
  simp only [framebufferExpandDirtyRect]
  split
  · exact ⟨d, rfl, hc⟩
  · refine ⟨_, rfl, ?_⟩
    simp only [DirtyRect.Contains, UInt32.lt_iff_toNat_lt, gt_iff_lt] at hc ⊢
    refine ⟨⟨?_, ?_⟩, ?_, ?_⟩ <;> split <;> omega

/-- What is drawn is recorded. -/
theorem expand_new (o : Option DirtyRect) (hx : x1.toNat ≤ a ∧ a < x2.toNat)
    (hy : y1.toNat ≤ b ∧ b < y2.toNat) :
    ∃ d', framebufferExpandDirtyRect o x1 y1 x2 y2 = some d' ∧ d'.Contains a b := by
  simp only [framebufferExpandDirtyRect, ge_iff_le, UInt32.le_iff_toNat_le]
  rw [if_neg (by omega)]
  cases o with
  | none => exact ⟨_, rfl, hx, hy⟩
  | some d =>
    refine ⟨_, rfl, ?_⟩
    simp only [DirtyRect.Contains, UInt32.lt_iff_toNat_lt, gt_iff_lt]
    refine ⟨⟨?_, ?_⟩, ?_, ?_⟩ <;> split <;> omega

end Dirty

end VertexOS
