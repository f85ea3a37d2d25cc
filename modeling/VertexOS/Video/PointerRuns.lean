import VertexOS.Video.NewTerminal

namespace VertexOS
open Ui Display Library.Layers Library.Transitions

section Lifting

variable {s s' s'' : Screen} {p : Pixel}

/-- The picture once the pointer is hidden. -/
def Screen.lifted (s : Screen) : Pixel → UInt8 := s.mouseHideCursor.fb.pixel

/-- Hiding the pointer brings back the scene rendered last. -/
def Screen.Clean (s : Screen) : Prop :=
  ∀ p, s.fb.geo.Shows p → s.lifted p = s.rendered (s.fb.geo.index p.1 p.2)

/-- The pixels saved under the pointer are those that the calls draw there. -/
def Screen.SavedAs (s : Screen) (calls : List FbCall) : Prop :=
  ∀ p, s.fb.geo.Shows p → s.fb.geo.InSquare s.pointer.prevX s.pointer.prevY p →
    s.pointer.prevBuffer
      ((p.2 - s.pointer.prevY).toNat * mouseCursorSize + (p.1 - s.pointer.prevX).toNat) =
    paint s.fb.pixel (callLayers s.fb.geo calls) p

/-- The screens differ in the pointer at most. -/
structure SameScene (s s' : Screen) : Prop where
  geo : s'.fb.geo = s.fb.geo
  lifted : ∀ p, s.fb.geo.Shows p → s'.lifted p = s.lifted p
  rendered : s'.rendered = s.rendered

theorem SameScene.refl (s : Screen) : SameScene s s := ⟨rfl, fun _ _ => rfl, rfl⟩

theorem SameScene.trans (h : SameScene s s') (h' : SameScene s' s'') : SameScene s s'' := by
  refine ⟨h'.geo.trans h.geo, fun p hp => ?_, h'.rendered.trans h.rendered⟩
  rw [h'.lifted p (by rw [h.geo]; exact hp), h.lifted p hp]

theorem SameScene.clean_iff (h : SameScene s s') : s'.Clean ↔ s.Clean := by
  simp only [Screen.Clean, h.geo, h.rendered]
  apply forall_congr'
  intro p
  apply forall_congr'
  intro hp
  rw [h.lifted p hp]

theorem lifted_of_hidden (h : s.pointer.prevValid = false) : s.lifted = s.fb.pixel := by
  simp [Screen.lifted, Screen.mouseHideCursor, Screen.mouseRestorePointer, h]

theorem hide_hidden (s : Screen) : s.mouseHideCursor.pointer.prevValid = false := by
  simp only [Screen.mouseHideCursor, Screen.mouseRestorePointer]
  cases hv : s.pointer.prevValid with
  | false => simp [hv]
  | true => simp

theorem hide_same (s : Screen) : SameScene s s.mouseHideCursor := by
  refine ⟨restorePointer_geo s, fun p _ => ?_, ?_⟩
  · rw [lifted_of_hidden (hide_hidden s)]
    rfl
  · simp only [Screen.mouseHideCursor, Screen.mouseRestorePointer]
    split <;> rfl

/-- Where the pointer is drawn the saved pixels come back, and the others are as they are. -/
theorem lifted_eq (hp : s.fb.geo.Shows p) (hv : s.pointer.prevValid = true) :
    (s.fb.geo.InSquare s.pointer.prevX s.pointer.prevY p → s.lifted p = s.pointer.prevBuffer
      ((p.2 - s.pointer.prevY).toNat * mouseCursorSize + (p.1 - s.pointer.prevX).toNat)) ∧
    (¬s.fb.geo.InSquare s.pointer.prevX s.pointer.prevY p → s.lifted p = s.fb.pixel p) := by
  simp only [Screen.lifted, Screen.mouseHideCursor, Screen.mouseRestorePointer, hv, if_true]
  exact drawSquare_pixel hp

/-- What is saved is the picture under the pointer. -/
theorem mouseSaveRegion_eq {x y : Int} (hp : s.fb.geo.Shows p) (hin : s.fb.geo.InSquare x y p) :
    s.mouseSaveRegion x y ((p.2 - y).toNat * mouseCursorSize + (p.1 - x).toNat) =
      s.fb.pixel p := by
  obtain ⟨hbounds, hx, hy⟩ := hin
  set i : Nat := (p.2 - y).toNat * mouseCursorSize + (p.1 - x).toNat with hi
  have hsize : mouseCursorSize = 5 := rfl
  rw [hsize] at hi
  have hcol : x + (i % mouseCursorSize : Nat) = p.1 := by
    rw [hsize]
    omega
  have hrow : y + (i / mouseCursorSize : Nat) = p.2 := by
    rw [hsize]
    omega
  have hlt : i < mouseCursorSize * mouseCursorSize := by
    rw [hsize]
    omega
  obtain ⟨hux, huy⟩ := inBounds_pixel hbounds
  rw [Screen.mouseSaveRegion, if_pos hlt]
  dsimp only
  rw [hcol, hrow, if_pos hbounds, Framebuffer.framebufferGetPixel, if_neg]
  · rw [Geometry.index_eq, Int.ofNat_inj.mp hux, Int.ofNat_inj.mp huy, Framebuffer.pixel]
  · rw [ge_iff_le, ge_iff_le, UInt32.le_iff_toNat_le, UInt32.le_iff_toNat_le]
    have hpw := hp.1
    have hph := hp.2
    omega

/-- Drawing a square over pixels that are saved. -/
theorem saved_same (x y : Int) (color : Nat → Nat → UInt8)
    (hhidden : s.pointer.prevValid = false) (hfb : s'.fb = drawSquare s.fb x y color)
    (hv : s'.pointer.prevValid = true) (hx : s'.pointer.prevX = x) (hy : s'.pointer.prevY = y)
    (hb : s'.pointer.prevBuffer = s.mouseSaveRegion x y) (hr : s'.rendered = s.rendered) :
    SameScene s s' := by
  have hgeo : s'.fb.geo = s.fb.geo := by
    rw [hfb]
    exact drawSquare_geo s.fb x y color
  refine ⟨hgeo, fun p hp => ?_, hr⟩
  have hl := lifted_eq (s := s') (p := p) (by rw [hgeo]; exact hp) hv
  rw [hgeo, hx, hy, hb] at hl
  rw [lifted_of_hidden hhidden]
  by_cases hin : s.fb.geo.InSquare x y p
  · rw [hl.1 hin]
    exact mouseSaveRegion_eq hp hin
  · rw [hl.2 hin, hfb]
    exact (drawSquare_pixel hp).2 hin

/-- Drawing the pointer hides no more than it saves. -/
theorem drawPointer_same (s : Screen) : SameScene s s.mouseDrawPointer := by
  have hhidden : s.mouseRestorePointer.pointer.prevValid = false := hide_hidden s
  apply (hide_same s).trans
  rw [Screen.mouseHideCursor]
  simp only [Screen.mouseDrawPointer]
  generalize s.mouseRestorePointer = r at hhidden ⊢
  split
  · exact SameScene.refl r
  · exact saved_same r.pointer.x r.pointer.y (fun _ _ => 0) hhidden rfl rfl rfl rfl rfl rfl

theorem refreshCursor_same (s : Screen) : SameScene s s.mouseRefreshCursor := by
  rw [Screen.mouseRefreshCursor]
  split
  · exact (hide_same s).trans (drawPointer_same _)
  · exact drawPointer_same s

/-- `mouse_init` forgets a pointer that is drawn: what it covers has to be the scene already. -/
theorem mouseInit_clean_iff (s : Screen) : s.mouseInit.Clean ↔
    ∀ p, s.fb.geo.Shows p → s.fb.pixel p = s.rendered (s.fb.geo.index p.1 p.2) := by
  have hv : s.mouseInit.pointer.prevValid = false := rfl
  rw [Screen.Clean, lifted_of_hidden hv]
  rfl

/-- The pointer may move, and a flush may come. -/
theorem SameScene.of_eq (hpixel : s'.fb.pixel = s.fb.pixel) (hgeo : s'.fb.geo = s.fb.geo)
    (hr : s'.rendered = s.rendered) (hv : s'.pointer.prevValid = s.pointer.prevValid)
    (hx : s'.pointer.prevX = s.pointer.prevX) (hy : s'.pointer.prevY = s.pointer.prevY)
    (hb : s'.pointer.prevBuffer = s.pointer.prevBuffer) : SameScene s s' := by
  refine ⟨hgeo, fun p hp => ?_, hr⟩
  cases hvalid : s.pointer.prevValid with
  | false => rw [lifted_of_hidden hvalid, lifted_of_hidden (hv.trans hvalid), hpixel]
  | true =>
    have h := lifted_eq hp hvalid
    have h' := lifted_eq (s := s') (p := p) (by rw [hgeo]; exact hp) (hv.trans hvalid)
    rw [hgeo, hx, hy, hb, hpixel] at h'
    by_cases hin : s.fb.geo.InSquare s.pointer.prevX s.pointer.prevY p
    · rw [h.1 hin, h'.1 hin]
    · rw [h.2 hin, h'.2 hin]

theorem flush_same (s : Screen) : SameScene s s.framebufferFlush :=
  .of_eq (flush_pixel s.fb) (flush_geo s.fb) rfl rfl rfl rfl rfl

/-- A rendering over a hidden pointer is clean. -/
theorem drawCalls_clean (s : Screen) (calls : List FbCall)
    (h : s.pointer.prevValid = false) : (s.drawCalls calls).Clean := by
  intro p _
  have hv : (s.drawCalls calls).pointer.prevValid = false := h
  rw [lifted_of_hidden hv]
  rfl

/-- A rendering over a pointer that is drawn is clean where it draws the pixels saved. -/
theorem drawCalls_clean_iff (s : Screen) (calls : List FbCall) :
    (s.drawCalls calls).Clean ↔ (s.pointer.prevValid = true → s.SavedAs calls) := by
  cases hv : s.pointer.prevValid with
  | false => simpa using drawCalls_clean s calls hv
  | true =>
    have hgeo : (s.drawCalls calls).fb.geo = s.fb.geo := calls_geo calls s.fb
    have hlifted : ∀ p, s.fb.geo.Shows p →
        (s.fb.geo.InSquare s.pointer.prevX s.pointer.prevY p →
          (s.drawCalls calls).lifted p = s.pointer.prevBuffer
            ((p.2 - s.pointer.prevY).toNat * mouseCursorSize + (p.1 - s.pointer.prevX).toNat)) ∧
        (¬s.fb.geo.InSquare s.pointer.prevX s.pointer.prevY p →
          (s.drawCalls calls).lifted p = (calls.foldl fbCall s.fb).pixel p) := by
      intro p hp
      have hl := lifted_eq (s := s.drawCalls calls) (p := p) (by rw [hgeo]; exact hp) hv
      rw [hgeo] at hl
      exact hl
    constructor
    · intro hc _ p hp hin
      rw [← (hlifted p hp).1 hin, hc p (by rw [hgeo]; exact hp), ← calls_pixel hp]
      rfl
    · intro hsaved p hp
      rw [hgeo] at hp
      by_cases hin : s.fb.geo.InSquare s.pointer.prevX s.pointer.prevY p
      · rw [(hlifted p hp).1 hin, hsaved rfl p hp hin, ← calls_pixel hp]
        rfl
      · rw [(hlifted p hp).2 hin]
        rfl

/-- A full rendering, once more: the pixels that are saved are those that it draws. -/
theorem savedAs_again {fb : Framebuffer} {color : UInt8} {calls : List FbCall}
    (hclean : s.Clean) (hv : s.pointer.prevValid = true) (hgeo : s.fb.geo = fb.geo)
    (hdrawn : s.rendered = ((.clear color :: calls).foldl fbCall fb).target) :
    s.SavedAs (.clear color :: calls) := by
  intro p hp hin
  have hpixel : s.rendered (s.fb.geo.index p.1 p.2) =
      ((.clear color :: calls).foldl fbCall fb).pixel p := by
    rw [hdrawn, Framebuffer.pixel, calls_geo, hgeo]
  rw [← (lifted_eq hp hv).1 hin, hclean p hp, hpixel, calls_pixel (hgeo ▸ hp), hgeo]
  rfl

end Lifting

namespace Display

/-- The calls of a refresh that draws the whole screen: the pointer is not hidden before. -/
def overdrawn (d : Display) : Option (List FbCall) :=
  let d := d.spawnPending.clampSession (d.ui.terminalStateForTaskIo d.tid)
  if d.ui.panicMode then some (gfxRenderPanicFull d.geo d.ui d.tid).1
  else
    let u := sampleUsage d.ui
    if u.forceFullRedraw then some (gfxRenderFull d.geo u d.tid).1 else none

/-- The request is served at once. -/
def requested (d : Display) : Option Display :=
  if d.ui.refreshDeferDepth > 0 then none else some d

/-- The display that the event refreshes, if it does. -/
def refreshedBy (d : Display) : DisplayEvent → Option Display
  | .refresh => some d
  | .endUpdate =>
    if d.ui.refreshDeferDepth = 1 ∧ d.ui.refreshPending then
      some { d with ui := { d.ui with refreshDeferDepth := 0, refreshPending := false } }
    else none
  | .clear =>
    let s := d.ui.terminalStateForTaskIo d.tid
    let ts := TerminalState.displayClear d.visibleRows d.visibleCols (d.ui.terminals s)
    some { d with ui := { d.ui.setTerminal s ts with forceFullRedraw := true } }
  | .putChar c => (d.displayPutCharInternal c).requested
  | .print s =>
    if cString s = [] then none else ((cString s).foldl displayPutCharInternal d).requested
  | .setCursor row col =>
    let s := d.ui.terminalStateForTaskIo d.tid
    let ts := TerminalState.displaySetCursor d.visibleRows d.visibleCols (d.ui.terminals s) row col
    requested { d with ui := d.ui.setTerminal s ts }
  | _ => none

/-- Where the event draws the whole screen with the pointer in it, the pixels under the pointer
stay as they are. -/
def PointerSafe (d : Display) (e : DisplayEvent) : Prop :=
  ∀ r ∈ d.refreshedBy e, ∀ calls ∈ r.overdrawn,
    r.screen.pointer.prevValid = true → r.screen.SavedAs calls

end Display

section Refresh

variable {d d' r : Display} {u : Ui}

theorem spawnTask_screen (d : Display) (session : Nat) :
    (d.spawnTerminalTaskForSession session).2.screen = d.screen := by
  simp only [spawnTerminalTaskForSession]
  split
  · rfl
  · split <;> rfl

theorem create_screen (d : Display) (makeVisible : Bool) :
    (d.displayCreateTerminalSession makeVisible).2.screen = d.screen := by
  simp only [displayCreateTerminalSession]
  split
  · rfl
  · split
    · exact spawnTask_screen d _
    · exact spawnTask_screen d _

theorem spawnPending_screen (d : Display) : d.spawnPending.screen = d.screen := by
  rw [spawnPending]
  split
  · rw [create_screen]
  · rfl

/-- A refresh leaves a clean screen where it draws the pixels that are saved. -/
theorem refresh_clean_iff (hg : d.graphics = true) : d.displayRefresh.screen.Clean ↔
    ∀ calls ∈ d.overdrawn, d.screen.pointer.prevValid = true → d.screen.SavedAs calls := by
  have hhead := (spawnPending_shuffled d).trans
    (clampSession_shuffled _ (d.ui.terminalStateForTaskIo d.tid))
  have hscreen : (d.spawnPending.clampSession (d.ui.terminalStateForTaskIo d.tid)).screen =
      d.screen := spawnPending_screen d
  simp only [displayRefresh, overdrawn]
  generalize d.spawnPending.clampSession (d.ui.terminalStateForTaskIo d.tid) = r at hhead hscreen ⊢
  rw [hhead.graphics, if_neg (by rw [hg]; exact Bool.noConfusion)]
  split
  · simp only [Option.mem_def, Option.some.injEq, forall_eq']
    rw [← hscreen, ← drawCalls_clean_iff]
    exact (flush_same _).clean_iff
  · split
    · simp only [Option.mem_def, Option.some.injEq, forall_eq']
      rw [← hscreen, ← drawCalls_clean_iff]
      exact ((refreshCursor_same _).trans (flush_same _)).clean_iff
    · simp only [Option.mem_def, reduceCtorEq, false_implies, implies_true, iff_true]
      refine ((refreshCursor_same _).trans (flush_same _)).clean_iff.mpr ?_
      exact drawCalls_clean _ _ (hide_hidden r.screen)

/-- The scene that a full refresh leaves. -/
theorem refresh_rendered {calls : List FbCall} (hg : d.graphics = true)
    (h : d.overdrawn = some calls) :
    d.displayRefresh.screen.rendered = (calls.foldl fbCall d.screen.fb).target := by
  have hhead := (spawnPending_shuffled d).trans
    (clampSession_shuffled _ (d.ui.terminalStateForTaskIo d.tid))
  have hscreen : (d.spawnPending.clampSession (d.ui.terminalStateForTaskIo d.tid)).screen =
      d.screen := spawnPending_screen d
  simp only [displayRefresh, overdrawn] at h ⊢
  generalize d.spawnPending.clampSession (d.ui.terminalStateForTaskIo d.tid) = r at h hhead hscreen ⊢
  rw [hhead.graphics, if_neg (by rw [hg]; exact Bool.noConfusion)]
  split at h
  · next hpanic =>
    cases h
    rw [if_pos hpanic, ← hscreen]
    rfl
  · next hpanic =>
    rw [if_neg hpanic]
    split at h
    · next hfull =>
      cases h
      rw [if_pos hfull, ← hscreen]
      exact ((refreshCursor_same _).trans (flush_same _)).rendered
    · cases h

end Refresh

section Mouse

variable {d : Display}

/-- Any picture is clean once the scene is drawn over the hidden pointer. -/
theorem redrawHidden_clean (d : Display) : d.redrawHidden.screen.Clean :=
  drawCalls_clean _ _ (hide_hidden d.screen)

theorem redraw_clean (d : Display) : d.redraw.screen.Clean :=
  (refreshCursor_same _).clean_iff.mpr (redrawHidden_clean d)

theorem clickWindow_clean (d : Display) (hit : Nat) (x y : Int) :
    (d.clickWindow hit x y).1.screen.Clean := by
  simp only [clickWindow]
  generalize (if hit ≠ winCount - 1 then d.ui.bringWindowToFront hit else d.ui) = u
  split
  · exact redraw_clean _
  · split
    · exact redraw_clean _
    · split
      · exact redraw_clean _
      · exact redrawHidden_clean _

theorem clickWindows_clean (h : d.screen.Clean) (x y : Int) :
    (d.clickWindows x y).1.screen.Clean := by
  rw [clickWindows]
  split
  · exact clickWindow_clean d _ x y
  · exact h

theorem pressLeft_clean (h : d.screen.Clean) (x y : Int) : (d.pressLeft x y).1.screen.Clean := by
  simp only [pressLeft]
  split
  · exact redraw_clean _
  · split
    · split
      · exact redraw_clean _
      · exact clickWindows_clean (redraw_clean _) x y
    · exact clickWindows_clean h x y

theorem moveWindow_clean (h : d.screen.Clean) (i : Nat) (w : GuiWindow) (changed : Bool) :
    (d.moveWindow i w changed).screen.Clean := by
  rw [moveWindow]
  split
  · exact redraw_clean _
  · exact h

theorem dragMove_clean (h : d.screen.Clean) (x y : Int) (buttons : UInt8) :
    (d.dragMove x y buttons).screen.Clean := by
  rw [dragMove]
  split
  · exact h
  · split
    · exact moveWindow_clean h _ _ _
    · exact h

theorem resizeMove_clean (h : d.screen.Clean) (x y : Int) (buttons : UInt8) :
    (d.resizeMove x y buttons).screen.Clean := by
  rw [resizeMove]
  split
  · exact h
  · split
    · exact moveWindow_clean h _ _ _
    · exact h

theorem releaseLeft_clean (h : d.screen.Clean) (buttons : UInt8) :
    (d.releaseLeft buttons).screen.Clean := by
  simp only [releaseLeft]
  split
  · split
    · exact redrawHidden_clean _
    · exact h
  · exact h

theorem mouseEvent_clean (h : d.screen.Clean) (x y : Int) (buttons : UInt8) :
    (d.displayHandleMouseEvent x y buttons).screen.Clean := by
  have hpress : (if leftDown buttons ∧ leftDown d.prevButtons = false then
      d.pressLeft x y else (d, false)).1.screen.Clean := by
    split
    · exact pressLeft_clean h x y
    · exact h
  rw [displayHandleMouseEvent]
  generalize (if leftDown buttons ∧ leftDown d.prevButtons = false then
      d.pressLeft x y else (d, false)) = r at hpress ⊢
  dsimp only
  split
  · exact hpress
  · exact releaseLeft_clean (resizeMove_clean (dragMove_clean hpress x y buttons) x y buttons)
      buttons

theorem setButton_screen (hg : d.graphics = true) (pressed : Bool) :
    (d.displaySetButtonPressed pressed).screen = d.screen := by
  rw [displaySetButtonPressed]
  split
  · simp [hg]
  · rfl

theorem setButton_buttons (hg : d.graphics = true) (pressed : Bool) :
    (d.displaySetButtonPressed pressed).prevButtons = d.prevButtons := by
  rw [displaySetButtonPressed]
  split
  · simp [hg]
  · rfl

theorem packet_clean (hg : d.graphics = true) (h : d.screen.Clean) (status dx dy : UInt8) :
    (d.mouseProcessPacket status dx dy).screen.Clean := by
  have hmoved : ∀ p : Pointer, p.prevValid = d.screen.pointer.prevValid →
      p.prevX = d.screen.pointer.prevX → p.prevY = d.screen.pointer.prevY →
      p.prevBuffer = d.screen.pointer.prevBuffer →
      Screen.Clean { d.screen with pointer := p } := by
    intro p hv hx hy hb
    have hsame : SameScene d.screen { d.screen with pointer := p } :=
      .of_eq rfl rfl rfl hv hx hy hb
    exact hsame.clean_iff.mpr h
  simp only [mouseProcessPacket]
  split
  · exact h
  · refine ((drawPointer_same _).trans (flush_same _)).clean_iff.mpr ?_
    apply mouseEvent_clean
    rw [setButton_screen (by exact hg)]
    exact hmoved _ rfl rfl rfl rfl

/-- Without the left button nothing is drawn. -/
theorem mouseEvent_idle {buttons : UInt8} (hb : leftDown buttons = false)
    (hprev : leftDown d.prevButtons = false) (x y : Int) :
    d.displayHandleMouseEvent x y buttons = { d with prevButtons := buttons } := by
  have hdrag : d.dragMove x y buttons = d := by
    rw [dragMove]
    split
    · rfl
    · rw [hb, if_neg Bool.false_ne_true]
  have hresize : d.resizeMove x y buttons = d := by
    rw [resizeMove]
    split
    · rfl
    · rw [hb, if_neg Bool.false_ne_true]
  have hrelease : d.releaseLeft buttons = d := by
    rw [releaseLeft, hprev, if_neg (by simp)]
  rw [displayHandleMouseEvent, if_neg (by simp [hb])]
  simp only [hdrag, hresize, hrelease, if_neg Bool.false_ne_true]

/-- Without the left button the pointer moves over the same scene. -/
theorem packet_idle {status : UInt8} (hg : d.graphics = true) (hb : leftDown (status &&& 7) = false)
    (hprev : leftDown d.prevButtons = false) (dx dy : UInt8) :
    SameScene d.screen (d.mouseProcessPacket status dx dy).screen := by
  have hmoved : SameScene d.screen
      { d.screen with pointer := movePointer d.geo d.screen.pointer status dx dy } :=
    .of_eq rfl rfl rfl rfl rfl rfl rfl
  have hleft : leftDown (movePointer d.geo d.screen.pointer status dx dy).buttons = false := hb
  rw [mouseProcessPacket]
  generalize movePointer d.geo d.screen.pointer status dx dy = p at hmoved hleft ⊢
  split
  · exact SameScene.refl _
  · dsimp only
    have hscreen := setButton_screen (d := { d with screen := { d.screen with pointer := p } }) hg
      (buttonHit p)
    have hbuttons := setButton_buttons (d := { d with screen := { d.screen with pointer := p } }) hg
      (buttonHit p)
    rw [if_pos hg, mouseEvent_idle hleft (by rw [hbuttons]; exact hprev)]
    refine .trans ?_ ((drawPointer_same _).trans (flush_same _))
    rw [hscreen]
    exact hmoved

end Mouse

section Runs

variable {d r : Display} {e : DisplayEvent}

theorem requested_eq (hr : d.requested = some r) : d.displayRequestRefresh = r.displayRefresh := by
  rw [requested] at hr
  rw [displayRequestRefresh]
  split at hr
  · cases hr
  · next hd =>
    cases hr
    rw [if_neg hd]

theorem requested_screen (hr : d.requested = none) :
    d.displayRequestRefresh.screen = d.screen := by
  rw [requested] at hr
  rw [displayRequestRefresh]
  split at hr
  · next hd => rw [if_pos hd]
  · cases hr

theorem putChars_screen (s : List UInt8) (d : Display) :
    (s.foldl displayPutCharInternal d).screen = d.screen := by
  induction s generalizing d with
  | nil => rfl
  | cons c s ih =>
    rw [List.foldl_cons, ih]
    rfl

/-- An event that refreshes does nothing else to the screen. -/
theorem displayNext_refreshed (h : d.refreshedBy e = some r) :
    displayNext d e = r.displayRefresh := by
  cases e with
  | refresh =>
    cases h
    rfl
  | endUpdate =>
    simp only [refreshedBy] at h
    split at h
    · next hd =>
      cases h
      simp [displayNext, displayEndUpdate, hd.1, hd.2]
    · cases h
  | clear =>
    cases h
    rfl
  | putChar c => exact requested_eq h
  | print s =>
    simp only [refreshedBy] at h
    split at h
    · cases h
    · next hs =>
      simp only [displayNext, displayPrint, if_neg hs]
      exact requested_eq h
  | setCursor row col => exact requested_eq h
  | _ => cases h

theorem requested_some (hr : d.requested = some r) : r = d := by
  rw [requested] at hr
  split at hr
  · cases hr
  · exact (Option.some.inj hr).symm

theorem refreshedBy_screen (h : d.refreshedBy e = some r) :
    r.screen = d.screen ∧ r.graphics = d.graphics := by
  cases e with
  | refresh =>
    cases h
    exact ⟨rfl, rfl⟩
  | endUpdate =>
    simp only [refreshedBy] at h
    split at h
    · cases h
      exact ⟨rfl, rfl⟩
    · cases h
  | clear =>
    cases h
    exact ⟨rfl, rfl⟩
  | putChar c =>
    rw [requested_some h]
    exact ⟨rfl, rfl⟩
  | print s =>
    simp only [refreshedBy] at h
    split at h
    · cases h
    · rw [requested_some h]
      exact ⟨putChars_screen _ d, (putChars_shuffled _ d).graphics⟩
  | setCursor row col =>
    rw [requested_some h]
    exact ⟨rfl, rfl⟩
  | _ => cases h

/-- Without a refresh a clean screen stays clean. -/
theorem displayNext_clean (hg : d.graphics = true) (hd : d.screen.Clean)
    (h : d.refreshedBy e = none) : (displayNext d e).screen.Clean := by
  cases e with
  | create makeVisible =>
    simp only [displayNext, create_screen]
    exact hd
  | getFocused => exact hd
  | refresh => cases h
  | mouse x y buttons => exact mouseEvent_clean hd x y buttons
  | packet status dx dy => exact packet_clean hg hd status dx dy
  | beginUpdate => exact hd
  | endUpdate =>
    simp only [refreshedBy] at h
    simp only [displayNext, displayEndUpdate]
    split
    · exact hd
    · next hdepth =>
      split
      · next hrefresh =>
        have hlast : d.ui.refreshDeferDepth - 1 = 0 := hrefresh.1
        have hone : d.ui.refreshDeferDepth = 1 := sub_eq_zero.mp hlast
        rw [if_pos ⟨hone, hrefresh.2⟩] at h
        cases h
      · exact hd
  | clear => cases h
  | putChar c =>
    simp only [displayNext, displayPutChar]
    rw [requested_screen h]
    exact hd
  | print s =>
    simp only [refreshedBy] at h
    simp only [displayNext, displayPrint]
    split
    · rw [putChars_screen]
      exact hd
    · next hs =>
      rw [if_neg hs] at h
      rw [requested_screen h, putChars_screen]
      exact hd
  | setCursor row col =>
    simp only [displayNext, displaySetCursor]
    rw [requested_screen h]
    exact hd
  | schedule s => exact hd

/-- A step from a clean screen ends with one exactly where it is safe. -/
theorem displayNext_clean_iff (hg : d.graphics = true) (hd : d.screen.Clean) :
    (displayNext d e).screen.Clean ↔ d.PointerSafe e := by
  rw [PointerSafe]
  cases hr : d.refreshedBy e with
  | none => simpa using displayNext_clean hg hd hr
  | some r =>
    simp only [Option.mem_some_iff, forall_eq']
    rw [displayNext_refreshed hr, refresh_clean_iff ((refreshedBy_screen hr).2.trans hg)]

theorem displayRun_eq {events : List DisplayEvent} (h : DisplayRun d events r) :
    r = events.foldl displayNext d := by
  induction h with
  | nil => rfl
  | cons head _ ih => rw [ih, List.foldl_cons, head]

/-- The pointer leaves the screen as it was rendered exactly where no refresh draws the whole
screen over pixels that are saved for an older picture. -/
theorem pointer_clean_iff (d : Display) (events : List DisplayEvent) (hg : d.graphics = true) :
    (∀ done d', done <+: events → DisplayRun d done d' → d'.screen.Clean) ↔
      d.screen.Clean ∧
        ∀ done e d', done ++ [e] <+: events → DisplayRun d done d' → d'.PointerSafe e := by
  apply Run.all_iff (I := fun d => d.graphics = true)
  · exact fun d e _ => ⟨displayNext d e, rfl⟩
  · intro d e d' hd he
    rw [← he, (displayNext_shuffled d e).graphics, hd]
  · intro d e d' hd hclean he
    rw [← he]
    exact displayNext_clean_iff hd hclean
  · exact hg

/-- The display at boot, in the smallest graphics mode. -/
def bootedDisplay : Display :=
  bootDisplay ⟨fbDefaults .res320x200, fun _ => 0, some fun _ => 0, none⟩
    Scheduler.schedulerInit true

/-- The display once `display_init` has run without a font file. -/
def plainDisplay : Display := displayInit bootedDisplay [] false

theorem plainDisplay_clean : plainDisplay.screen.Clean := by
  rw [plainDisplay, displayInit, refresh_clean_iff rfl]
  exact fun calls _ hv => absurd hv Bool.false_ne_true

/-- What `display_init` draws: the desktop, the taskbar with its button, and the cursor. -/
def plainCalls : List FbCall :=
  [.clear 0, .fillRect 0 0 320 173 1, .fillRect 0 173 320 27 8, .fillRect 0 173 320 1 15,
    .fillRect 0 199 320 1 0, .fillRect 6 177 72 18 7, .fillRect 6 177 72 1 15,
    .fillRect 6 177 1 18 15, .fillRect 6 196 72 1 8, .fillRect 77 177 1 18 8,
    .fillRect 86 74 10 1 12]

theorem plainDisplay_rendered : plainDisplay.screen.rendered =
    (plainCalls.foldl fbCall bootedDisplay.screen.fb).target := by
  have hdrawn : Display.overdrawn { bootedDisplay with
      ui := initDisplayUi bootedDisplay.geo bootedDisplay.ui [] false } = some plainCalls := by
    decide +kernel
  rw [plainDisplay, displayInit]
  exact refresh_rendered rfl hdrawn

/-- The display once the pointer has come to the cursor. -/
def movedDisplay : Display := [.packet 0 238 7, .mouse 20 20 0].foldl displayNext plainDisplay

theorem movedDisplay_same : SameScene plainDisplay.screen movedDisplay.screen := by
  have hpacket : SameScene plainDisplay.screen
      (displayNext plainDisplay (.packet 0 238 7)).screen :=
    packet_idle (by decide +kernel) (by decide) (by decide +kernel) 238 7
  have hmouse := mouseEvent_idle (d := displayNext plainDisplay (.packet 0 238 7))
    (by decide : leftDown 0 = false) (by decide +kernel) 20 20
  rw [movedDisplay, List.foldl_cons, List.foldl_cons, List.foldl_nil, displayNext, hmouse]
  exact hpacket

theorem moved_clear_safe : movedDisplay.PointerSafe .clear := by
  have hcalls : (movedDisplay.refreshedBy .clear).bind overdrawn = some plainCalls := by
    decide +kernel
  intro r hr calls hdrawn hv
  rw [hr, Option.bind_some, hdrawn] at hcalls
  cases hcalls
  have hscreen : r.screen = movedDisplay.screen := (refreshedBy_screen hr).1
  have hsame := movedDisplay_same
  rw [← hscreen] at hsame
  refine savedAs_again (hsame.clean_iff.mpr plainDisplay_clean) hv ?_
    (hsame.rendered.trans plainDisplay_rendered)
  rw [hsame.geo, plainDisplay, displayInit]
  exact (refresh_shuffled _).geo

/-- Nothing is damaged where the pointer moves, and where the whole screen is drawn again with the
pointer in it while the picture stays what it was. -/
theorem pointer_clean_moved : ∃ d,
    DisplayRun plainDisplay [.packet 0 238 7, .mouse 20 20 0, .clear] d ∧ d.screen.Clean := by
  have hrun : DisplayRun plainDisplay [.packet 0 238 7, .mouse 20 20 0, .clear] _ :=
    .cons rfl (.cons rfl (.cons rfl (.nil _)))
  refine ⟨_, hrun, (pointer_clean_iff plainDisplay _ (by decide +kernel)).mpr
    ⟨plainDisplay_clean, ?_⟩ _ _ (List.prefix_refl _) hrun⟩
  rintro done e d ⟨rest, hsplit⟩ hdone
  rcases done with _ | ⟨e1, _ | ⟨e2, _ | ⟨e3, done⟩⟩⟩
  · cases hsplit
    exact fun r hr => by cases hr
  · cases hsplit
    exact fun r hr => by cases hr
  · cases hsplit
    rw [displayRun_eq hdone]
    exact moved_clear_safe
  · simp at hsplit

/-- The text cursor is moved away, the pointer comes to where it was, and the screen is cleared:
the full rendering draws the cursor under the pointer, and hiding the pointer wipes it out. -/
theorem pointer_wipes_cursor : plainDisplay.screen.Clean ∧ ∃ d,
    DisplayRun plainDisplay [.setCursor 2 5, .packet 0 238 7, .clear] d ∧ ¬d.screen.Clean := by
  refine ⟨plainDisplay_clean, _, .cons rfl (.cons rfl (.cons rfl (.nil _))), fun hclean => ?_⟩
  have hpixel := hclean (88, 74) ⟨by decide +kernel, by decide +kernel⟩
  revert hpixel
  decide +kernel

end Runs

end VertexOS
