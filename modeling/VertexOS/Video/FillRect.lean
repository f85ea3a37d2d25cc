import VertexOS.Video.Pixels

namespace VertexOS
open Framebuffer

/-- A pixel of the rectangle, its ends taken in whole numbers. -/
def InRect (x y w h : UInt32) (p : Pixel) : Prop :=
  (x.toNat ≤ p.1 ∧ p.1 < x.toNat + w.toNat) ∧ (y.toNat ≤ p.2 ∧ p.2 < y.toNat + h.toNat)

instance (x y w h : UInt32) : DecidablePred (InRect x y w h) := fun _ =>
  inferInstanceAs (Decidable (_ ∧ _))

/-- The rectangle is filled, clipped to the screen, and recorded. -/
structure FillsExactly (fb : Framebuffer) (x y w h : UInt32) (color : UInt8) : Prop where
  pixel : ∀ p, fb.geo.Shows p → (fb.framebufferFillRect x y w h color).pixel p =
    if InRect x y w h p then color else fb.pixel p
  recorded : ∀ p, fb.geo.Shows p → InRect x y w h p →
    ∃ d, (fb.framebufferFillRect x y w h color).dirty = some d ∧ d.Contains p.1 p.2

/-- Nothing of the rectangle is on the screen, or none of its ends overflows. -/
def Clippable (g : Geometry) (x y w h : UInt32) : Prop :=
  x ≥ g.width ∨ y ≥ g.height ∨ w = 0 ∨ h = 0 ∨
    (x.toNat + w.toNat < 2 ^ 32 ∧ y.toNat + h.toNat < 2 ^ 32)

section Fill

variable {fb : Framebuffer} {g : Geometry} {p : Pixel} {x y w h start size : UInt32}
  {color : UInt8}

theorem clipEnd_exact (bound : UInt32) (hfits : start.toNat + size.toNat < 2 ^ 32) :
    (clipEnd start size bound).toNat = min (start.toNat + size.toNat) bound.toNat := by
  have hsum : (start + size).toNat = start.toNat + size.toNat := by
    rw [UInt32.toNat_add]
    exact Nat.mod_eq_of_lt hfits
  rw [clipEnd]
  split
  · next hlt =>
    have := UInt32.lt_iff_toNat_lt.mp hlt
    omega
  · next hle =>
    have := UInt32.le_iff_toNat_le.mp (UInt32.not_lt.mp hle)
    omega

/-- An end that overflows lies before the start. -/
theorem clipEnd_wraps (bound : UInt32) (hwraps : 2 ^ 32 ≤ start.toNat + size.toNat) :
    (clipEnd start size bound).toNat < start.toNat := by
  have hstart := start.toNat_lt
  have hsize := size.toNat_lt
  have hsum : (start + size).toNat = start.toNat + size.toNat - 2 ^ 32 := by
    rw [UInt32.toNat_add]
    omega
  rw [clipEnd]
  split
  · next hlt =>
    have := UInt32.lt_iff_toNat_lt.mp hlt
    omega
  · omega

/-- Off the screen, or empty. -/
theorem not_inRect (hp : g.Shows p) (hout : x ≥ g.width ∨ y ≥ g.height ∨ w = 0 ∨ h = 0) :
    ¬InRect x y w h p := by
  intro hin
  obtain ⟨⟨hx, hx'⟩, hy, hy'⟩ := hin
  obtain ⟨hwide, hhigh⟩ := hp
  rcases hout with hright | hbelow | rfl | rfl
  · have := UInt32.le_iff_toNat_le.mp hright
    omega
  · have := UInt32.le_iff_toNat_le.mp hbelow
    omega
  · simp at hx'
    omega
  · simp at hy'
    omega

theorem fillRect_dirty (hout : ¬(x ≥ fb.geo.width ∨ y ≥ fb.geo.height ∨ w = 0 ∨ h = 0)) :
    (fb.framebufferFillRect x y w h color).dirty = framebufferExpandDirtyRect fb.dirty x y
      (clipEnd x w fb.geo.width) (clipEnd y h fb.geo.height) := by
  rw [framebufferFillRect, if_neg hout]
  rfl

theorem fills_of_clippable (fb : Framebuffer) (color : UInt8) (hclip : Clippable fb.geo x y w h) :
    FillsExactly fb x y w h color := by
  by_cases hout : x ≥ fb.geo.width ∨ y ≥ fb.geo.height ∨ w = 0 ∨ h = 0
  · constructor
    · intro p hp
      rw [framebufferFillRect, if_pos hout, if_neg (not_inRect hp hout)]
    · intro p hp hin
      exact absurd hin (not_inRect hp hout)
  obtain ⟨hx, hy⟩ : x.toNat + w.toNat < 2 ^ 32 ∧ y.toNat + h.toNat < 2 ^ 32 := by
    rcases hclip with h1 | h1 | h1 | h1 | hfits
    · exact absurd (.inl h1) hout
    · exact absurd (.inr (.inl h1)) hout
    · exact absurd (.inr (.inr (.inl h1))) hout
    · exact absurd (.inr (.inr (.inr h1))) hout
    · exact hfits
  have hright := clipEnd_exact fb.geo.width hx
  have hbottom := clipEnd_exact fb.geo.height hy
  have hiff : ∀ p, fb.geo.Shows p → (InRect x y w h p ↔
      (x.toNat ≤ p.1 ∧ p.1 < (clipEnd x w fb.geo.width).toNat) ∧
        (y.toNat ≤ p.2 ∧ p.2 < (clipEnd y h fb.geo.height).toNat)) := by
    intro p hp
    obtain ⟨hwide, hhigh⟩ := hp
    rw [InRect, hright, hbottom]
    omega
  constructor
  · intro p hp
    rw [fillRect_pixel hp]
    simp only [callLayer]
    by_cases hin : InRect x y w h p
    · rw [if_pos hin, if_pos ((hiff p hp).mp hin), Option.getD_some]
    · rw [if_neg hin, if_neg (mt (hiff p hp).mpr hin), Option.getD_none]
  · intro p hp hin
    obtain ⟨hcols, hrows⟩ := (hiff p hp).mp hin
    rw [fillRect_dirty hout]
    exact expand_new fb.dirty hcols hrows

/-- A screen in one colour, with nothing to show. -/
def plainScreen (g : Geometry) (color : UInt8) : Framebuffer := ⟨g, fun _ => color, none, none⟩

theorem clippable_of_fills
    (hfills : FillsExactly (plainScreen g color) x y w h color) : Clippable g x y w h := by
  by_contra hclip
  obtain ⟨hright, hbelow, hw, hh, hwraps⟩ : ¬x ≥ g.width ∧ ¬y ≥ g.height ∧ ¬w = 0 ∧ ¬h = 0 ∧
      ¬(x.toNat + w.toNat < 2 ^ 32 ∧ y.toNat + h.toNat < 2 ^ 32) := by
    simpa only [Clippable, not_or] using hclip
  have hout : ¬(x ≥ g.width ∨ y ≥ g.height ∨ w = 0 ∨ h = 0) := by
    simp only [not_or]
    exact ⟨hright, hbelow, hw, hh⟩
  have hx := UInt32.lt_iff_toNat_lt.mp (UInt32.not_le.mp hright)
  have hy := UInt32.lt_iff_toNat_lt.mp (UInt32.not_le.mp hbelow)
  have hwpos : w.toNat ≠ 0 := fun h0 => hw (UInt32.toNat_inj.mp h0)
  have hhpos : h.toNat ≠ 0 := fun h0 => hh (UInt32.toNat_inj.mp h0)
  -- the corner is to be drawn, but nothing is recorded
  obtain ⟨d, hd, -⟩ := hfills.recorded (x.toNat, y.toNat) ⟨hx, hy⟩ ⟨by omega, by omega⟩
  have hempty : x ≥ clipEnd x w g.width ∨ y ≥ clipEnd y h g.height := by
    rcases not_and_or.mp hwraps with hwrap | hwrap
    · have := clipEnd_wraps g.width (Nat.le_of_not_lt hwrap)
      exact .inl (UInt32.le_iff_toNat_le.mpr (Nat.le_of_lt this))
    · have := clipEnd_wraps g.height (Nat.le_of_not_lt hwrap)
      exact .inr (UInt32.le_iff_toNat_le.mpr (Nat.le_of_lt this))
  replace hd := (fillRect_dirty hout).symm.trans hd
  have hnone : framebufferExpandDirtyRect none x y (clipEnd x w g.width) (clipEnd y h g.height) =
      none := if_pos hempty
  cases hnone.symm.trans hd

end Fill

/-- A rectangle is filled exactly on every screen of the size if, and only if, nothing of it is
on the screen or its ends do not overflow. -/
theorem fill_rect_exact_iff (g : Geometry) (x y w h : UInt32) (color : UInt8) :
    (∀ fb, fb.geo = g → FillsExactly fb x y w h color) ↔ Clippable g x y w h := by
  constructor
  · intro hfills
    exact clippable_of_fills (hfills (plainScreen g color) rfl)
  · intro hclip fb hgeo
    exact fills_of_clippable fb color (hgeo ▸ hclip)

/-- From column 1 on, a width of 2^32 - 1 fills nothing. -/
theorem fill_rect_wraps :
    ¬FillsExactly (plainScreen (fbDefaults .res320x200) 0) 1 0 0xFFFFFFFF 1 7 := by
  intro hfills
  obtain ⟨d, hd, -⟩ := hfills.recorded (1, 0) ⟨by decide, by decide⟩ (by decide)
  cases hd

end VertexOS
