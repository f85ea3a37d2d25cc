import VertexOS.Video.Framebuffer

namespace VertexOS
open Framebuffer

section Exact

variable {fb fb' fb0 : Framebuffer} {x1 y1 x2 y2 : UInt32} {color : UInt8}

/-- The front buffer shows the pixel as it was drawn. -/
def Framebuffer.Shown (fb : Framebuffer) (a b : Nat) : Prop :=
  fb.front (fb.geo.index a b) = fb.target (fb.geo.index a b)

/-- What is not shown yet is recorded. -/
structure Exact (fb : Framebuffer) : Prop where
  double : fb.back ≠ none
  within : ∀ d, fb.dirty = some d → d.Within fb.geo
  recorded : ∀ a b, fb.geo.Visible a b → ¬fb.Shown a b →
    ∃ d, fb.dirty = some d ∧ d.Contains a b

/-- Neither buffer has changed but at visible pixels. -/
structure OnScreen (fb fb' : Framebuffer) : Prop where
  geo : fb'.geo = fb.geo
  front : ∀ i, (∀ a b, fb.geo.Visible a b → i ≠ fb.geo.index a b) → fb'.front i = fb.front i
  target : ∀ i, (∀ a b, fb.geo.Visible a b → i ≠ fb.geo.index a b) → fb'.target i = fb.target i

theorem OnScreen.refl (fb : Framebuffer) : OnScreen fb fb := ⟨rfl, fun _ _ => rfl, fun _ _ => rfl⟩

theorem OnScreen.trans {fb1 fb2 fb3 : Framebuffer} (h : OnScreen fb1 fb2) (h' : OnScreen fb2 fb3) :
    OnScreen fb1 fb3 := by
  constructor
  · rw [h'.geo, h.geo]
  · intro i hi
    rw [h'.front i (by rwa [h.geo]), h.front i hi]
  · intro i hi
    rw [h'.target i (by rwa [h.geo]), h.target i hi]

/-- Drawing goes to the back buffer. -/
theorem draw_fields (hd : fb.back ≠ none) (x1 y1 x2 y2 : UInt32) (color : UInt8) :
    (fb.draw x1 y1 x2 y2 color).geo = fb.geo ∧
    (fb.draw x1 y1 x2 y2 color).back ≠ none ∧ (fb.draw x1 y1 x2 y2 color).front = fb.front ∧
    (fb.draw x1 y1 x2 y2 color).target = copyRect fb.target (fun _ => color) fb.geo.pitch x1 y1
      (x2.toNat - x1.toNat) (y2.toNat - y1.toNat) := by
  obtain ⟨p, hp⟩ := Option.ne_none_iff_exists'.mp hd
  simp [draw, setTarget, target, hp]

/-- A rectangle that wraps around has no rows or columns. -/
theorem not_covered_of_empty {g : Geometry} {i : UInt32}
    (h : x2.toNat ≤ x1.toNat ∨ y2.toNat ≤ y1.toNat) :
    ¬Covered g x1 y1 (x2.toNat - x1.toNat) (y2.toNat - y1.toNat) i := by
  rintro ⟨k, hk, j, hj, -⟩
  omega

theorem Exact.draw (he : Exact fb) (hx : x2.toNat ≤ fb.geo.width.toNat)
    (hy : y2.toNat ≤ fb.geo.height.toNat) : Exact (fb.draw x1 y1 x2 y2 color) := by
  obtain ⟨hgeo, hback, hfront, htarget⟩ := draw_fields he.double x1 y1 x2 y2 color
  constructor
  · exact hback
  · intro d hd
    rw [hgeo]
    exact expand_within he.within hx hy hd
  · intro a b hv hs
    rw [hgeo] at hv
    simp only [Framebuffer.Shown, hgeo, hfront, htarget] at hs
    by_cases hc : Covered fb.geo x1 y1 (x2.toNat - x1.toNat) (y2.toNat - y1.toNat)
        (fb.geo.index a b)
    · have hsize : x1.toNat < x2.toNat ∧ y1.toNat < y2.toNat := by
        by_contra hcon
        exact not_covered_of_empty (by omega) hc
      obtain ⟨hxs, hys⟩ := (covered_iff hv (by omega) (by omega)).mp hc
      exact expand_new fb.dirty ⟨hxs.1, by omega⟩ ⟨hys.1, by omega⟩
    · rw [copyRect_other hc] at hs
      obtain ⟨d, hd, hin⟩ := he.recorded a b hv hs
      obtain ⟨d', hd', hin'⟩ := expand_old x1 y1 x2 y2 hin
      refine ⟨d', ?_, hin'⟩
      rw [← hd', ← hd]
      rfl

theorem OnScreen.draw (hd : fb.back ≠ none) (hx : x2.toNat ≤ fb.geo.width.toNat)
    (hy : y2.toNat ≤ fb.geo.height.toNat) : OnScreen fb (fb.draw x1 y1 x2 y2 color) := by
  obtain ⟨hgeo, -, hfront, htarget⟩ := draw_fields hd x1 y1 x2 y2 color
  constructor
  · exact hgeo
  · intro i _
    rw [hfront]
  · intro i hi
    rw [htarget]
    apply copyRect_other
    intro hc
    have hsize : x1.toNat < x2.toNat ∧ y1.toNat < y2.toNat := by
      by_contra hcon
      exact not_covered_of_empty (by omega) hc
    obtain ⟨a, b, hv, rfl⟩ := hc.visible (by omega) (by omega)
    exact hi a b hv rfl

end Exact

section Calls

variable {fb : Framebuffer} {x y w h : UInt32} {color : UInt8}

/-- A pixel is a rectangle. -/
theorem putPixel_eq_draw (hx : x < fb.geo.width) (hy : y < fb.geo.height) :
    fb.framebufferPutPixel x y color = fb.draw x y (x + 1) (y + 1) color := by
  have hsucc : ∀ {v b : UInt32}, v < b → (v + 1).toNat - v.toNat = 1 := by
    intro v b hv
    have hlt := UInt32.lt_iff_toNat_lt.mp hv
    have hb := b.toNat_lt
    rw [UInt32.toNat_add]
    simp only [UInt32.toNat_one]
    omega
  rw [framebufferPutPixel, if_neg (by simp [hx, hy])]
  simp only [Framebuffer.draw, hsucc hx, hsucc hy]
  simp [copyRect, copyRow]

theorem succ_le_bound {v b : UInt32} (h : v < b) : (v + 1).toNat ≤ b.toNat := by
  have hlt := UInt32.lt_iff_toNat_lt.mp h
  have hb := b.toNat_lt
  rw [UInt32.toNat_add]
  simp only [UInt32.toNat_one]
  omega

theorem clipEnd_le (start size bound : UInt32) : (clipEnd start size bound).toNat ≤ bound.toNat := by
  rw [clipEnd]
  split
  · exact le_refl _
  · next hle => exact UInt32.le_iff_toNat_le.mp (UInt32.not_lt.mp hle)

/-- Without a dirty rectangle everything is shown. -/
theorem Exact.shown {a b : Nat} (he : Exact fb) (hd : fb.dirty = none) (hv : fb.geo.Visible a b) :
    fb.Shown a b := by
  by_contra hs
  obtain ⟨d, hd', -⟩ := he.recorded a b hv hs
  rw [hd] at hd'
  cases hd'

/-- The rectangle is copied, and it is all that was not shown. -/
theorem Exact.flush (he : Exact fb) : Exact fb.framebufferFlush ∧ OnScreen fb fb.framebufferFlush ∧
    fb.framebufferFlush.dirty = none := by
  obtain ⟨p, hp⟩ := Option.ne_none_iff_exists'.mp he.double
  cases hd : fb.dirty with
  | none =>
    have hsame : fb.framebufferFlush = fb := by simp [framebufferFlush, hp, hd]
    rw [hsame]
    exact ⟨he, OnScreen.refl fb, hd⟩
  | some d =>
    have hin := he.within d hd
    have hw : (d.maxX - d.minX).toNat = d.maxX.toNat - d.minX.toNat := by
      apply UInt32.toNat_sub_of_le
      exact UInt32.le_iff_toNat_le.mpr (Nat.le_of_lt hin.columns)
    have hright := hin.right
    have hbottom := hin.bottom
    have hcols := hin.columns
    have hrows := hin.rows
    simp only [framebufferFlush, hp, hd, hw]
    refine ⟨⟨?_, ?_, ?_⟩, ⟨rfl, ?_, ?_⟩, trivial⟩
    · simp
    · intro d' hd'
      cases hd'
    · intro a b hv hs
      change fb.geo.Visible a b at hv
      refine absurd ?_ hs
      simp only [Framebuffer.Shown, target, Option.getD_some]
      by_cases hc : Covered fb.geo d.minX d.minY (d.maxX.toNat - d.minX.toNat)
          (d.maxY.toNat - d.minY.toNat) (fb.geo.index a b)
      · exact copyRect_written hc
      · rw [copyRect_other hc]
        by_contra hne
        obtain ⟨d', hd', hcon⟩ := he.recorded a b hv (by simpa [Framebuffer.Shown, target, hp] using hne)
        obtain rfl := Option.some.inj (hd.symm.trans hd')
        apply hc
        apply (covered_iff hv (by omega) (by omega)).mpr
        obtain ⟨⟨h1, h2⟩, h3, h4⟩ := hcon
        exact ⟨⟨h1, by omega⟩, h3, by omega⟩
    · intro i hi
      apply copyRect_other
      intro hc
      obtain ⟨a, b, hv, rfl⟩ := hc.visible (by omega) (by omega)
      exact hi a b hv rfl
    · intro i _
      simp [target, hp]

theorem Exact.call (he : Exact fb) (c : FbCall) : Exact (fbCall fb c) ∧ OnScreen fb (fbCall fb c) := by
  have hput : ∀ (x y : UInt32) (color : UInt8), Exact (fb.framebufferPutPixel x y color) ∧
      OnScreen fb (fb.framebufferPutPixel x y color) := by
    intro x y color
    by_cases hin : x < fb.geo.width ∧ y < fb.geo.height
    · rw [putPixel_eq_draw hin.1 hin.2]
      exact ⟨he.draw (succ_le_bound hin.1) (succ_le_bound hin.2),
        .draw he.double (succ_le_bound hin.1) (succ_le_bound hin.2)⟩
    · rw [framebufferPutPixel, if_pos ((not_and_or.mp hin).imp UInt32.not_lt.mp UInt32.not_lt.mp)]
      exact ⟨he, .refl fb⟩
  cases c with
  | clear color =>
    exact ⟨he.draw (le_refl _) (le_refl _), .draw he.double (le_refl _) (le_refl _)⟩
  | putPixel x y color => exact hput x y color
  | setPixel x y color => exact hput x y color
  | fillRect x y w h color =>
    simp only [fbCall, framebufferFillRect]
    split
    · exact ⟨he, .refl fb⟩
    · exact ⟨he.draw (clipEnd_le _ _ _) (clipEnd_le _ _ _),
        .draw he.double (clipEnd_le _ _ _) (clipEnd_le _ _ _)⟩
  | markDirtyRect x y w h =>
    simp only [fbCall, framebufferMarkDirtyRect]
    split
    · exact ⟨he, .refl fb⟩
    · refine ⟨⟨he.double, ?_, ?_⟩, rfl, fun _ _ => rfl, fun _ _ => rfl⟩
      · intro d hd
        exact expand_within he.within (clipEnd_le _ _ _) (clipEnd_le _ _ _) hd
      · intro a b hv hs
        obtain ⟨d, hd, hin⟩ := he.recorded a b hv hs
        obtain ⟨d', hd', hin'⟩ := expand_old x y (clipEnd x w fb.geo.width)
          (clipEnd y h fb.geo.height) hin
        exact ⟨d', by rw [← hd', ← hd], hin'⟩
  | flush => exact ⟨he.flush.1, he.flush.2.1⟩

theorem Exact.calls (he : Exact fb) (cs : List FbCall) :
    Exact (cs.foldl fbCall fb) ∧ OnScreen fb (cs.foldl fbCall fb) := by
  induction cs generalizing fb with
  | nil => exact ⟨he, .refl fb⟩
  | cons c cs ih =>
    obtain ⟨h1, h2⟩ := he.call c
    obtain ⟨h3, h4⟩ := ih h1
    exact ⟨h3, h2.trans h4⟩

/-- From equal buffers on, after any calls: what is not shown is in the dirty rectangle,
which is on the screen; nothing but visible pixels was written; a flush shows all. -/
theorem double_buffering_exact (fb : Framebuffer) (cs : List FbCall) (hback : fb.back ≠ none)
    (hequal : ∀ a b, fb.geo.Visible a b → fb.Shown a b)
    (hdirty : ∀ d, fb.dirty = some d → d.Within fb.geo) :
    (∀ a b, fb.geo.Visible a b → ¬(cs.foldl fbCall fb).Shown a b →
      ∃ d, (cs.foldl fbCall fb).dirty = some d ∧ d.Contains a b) ∧
    (∀ d, (cs.foldl fbCall fb).dirty = some d → d.Within fb.geo) ∧
    OnScreen fb (cs.foldl fbCall fb) ∧
    (∀ a b, fb.geo.Visible a b → ((cs ++ [FbCall.flush]).foldl fbCall fb).Shown a b) := by
  have hstart : Exact fb := ⟨hback, hdirty, fun a b hv hs => absurd (hequal a b hv) hs⟩
  obtain ⟨he, hon⟩ := hstart.calls cs
  obtain ⟨hflush, hon', hnone⟩ := he.flush
  refine ⟨?_, ?_, hon, ?_⟩
  · intro a b hv hs
    exact he.recorded a b (by rwa [hon.geo]) hs
  · intro d hd
    rw [← hon.geo]
    exact he.within d hd
  · intro a b hv
    rw [List.foldl_append]
    apply hflush.shown hnone
    rwa [hon'.geo, hon.geo]

/-- Both buffers are black. -/
def blackFramebuffer (r : VideoResolution) : Framebuffer :=
  { geo := fbDefaults r, front := fun _ => 0, back := some fun _ => 0, dirty := none }

theorem double_buffering_exact_corner :
    ((([.fillRect 300 190 50 50 4] : List FbCall) ++ [FbCall.flush]).foldl fbCall
      (blackFramebuffer .res320x200)).Shown 319 199 := by
  obtain ⟨-, -, -, hshown⟩ := double_buffering_exact (blackFramebuffer .res320x200)
    [.fillRect 300 190 50 50 4] (by simp [blackFramebuffer]) (fun _ _ _ => rfl)
    (by simp [blackFramebuffer])
  exact hshown 319 199 ⟨by decide, by decide⟩

end Calls

end VertexOS
