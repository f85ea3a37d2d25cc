import VertexOS.Library.Transitions
import VertexOS.Video.Events
import VertexOS.Video.Pixels

namespace VertexOS
open Ui Display Library.Transitions

section Drawing

variable {g : Geometry} {u u' u'' : Ui} {tid : Option Nat} {w : GuiWindow}

/-- All that a rendering may change; a row's selection it can only drop. -/
def Drawn (u u' : Ui) : Prop :=
  ∃ focused selected terminals cursor drawn,
    (selected = u.pmSelectedIndex ∨ selected = none) ∧ u' = { u with
    focused := focused
    pmSelectedIndex := selected
    terminals := terminals
    prevCursor := cursor
    drawnCursor := drawn }

/-- A rendering that selects what was selected. -/
theorem Drawn.kept {focused : Option Nat} {terminals : Nat → TerminalState}
    {cursor drawn : Option (Nat × Nat)} : Drawn u { u with
      focused := focused
      terminals := terminals
      prevCursor := cursor
      drawnCursor := drawn } := ⟨_, _, _, _, _, .inl rfl, rfl⟩

theorem Drawn.refl (u : Ui) : Drawn u u := .kept

theorem Drawn.trans (h : Drawn u u') (h' : Drawn u' u'') : Drawn u u'' := by
  obtain ⟨_, _, _, _, _, hselected, rfl⟩ := h
  obtain ⟨_, _, _, _, _, hselected', rfl⟩ := h'
  refine ⟨_, _, _, _, _, ?_, rfl⟩
  rcases hselected' with rfl | rfl
  · exact hselected
  · exact .inr rfl

theorem Drawn.windows (h : Drawn u u') : u'.windows = u.windows := by
  obtain ⟨_, _, _, _, _, -, rfl⟩ := h
  rfl

theorem Drawn.font (h : Drawn u u') : u'.font = u.font := by
  obtain ⟨_, _, _, _, _, -, rfl⟩ := h
  rfl

theorem Drawn.panicMode (h : Drawn u u') : u'.panicMode = u.panicMode := by
  obtain ⟨_, _, _, _, _, -, rfl⟩ := h
  rfl

theorem Drawn.selected (h : Drawn u u') :
    u'.pmSelectedIndex = u.pmSelectedIndex ∨ u'.pmSelectedIndex = none := by
  obtain ⟨_, _, _, _, _, hselected, rfl⟩ := h
  exact hselected

theorem Drawn.taskIds (h : Drawn u u') : u'.taskIds = u.taskIds := by
  obtain ⟨_, _, _, _, _, -, rfl⟩ := h
  rfl

theorem ensureFocus_drawn (u : Ui) : Drawn u u.ensureValidTerminalFocus := by
  rw [ensureValidTerminalFocus]
  split
  · exact .refl u
  · exact .kept

theorem setTerminal_drawn (u : Ui) (s : Nat) (ts : TerminalState) : Drawn u (u.setTerminal s ts) :=
  .kept

theorem activeUi_drawn (u : Ui) : Drawn u u.terminalStateForActiveUi.1 := by
  simp only [terminalStateForActiveUi]
  split
  · exact ensureFocus_drawn u
  · exact ensureFocus_drawn u

theorem selectionChecked_drawn (u : Ui) : Drawn u u.pmSelectionChecked := by
  rw [pmSelectionChecked]
  split
  · split
    · exact ⟨_, _, _, _, _, .inr rfl, rfl⟩
    · exact .refl u
  · exact .refl u

theorem renderWindow_drawn (u : Ui) (i : Nat) : Drawn u (u.gfxRenderWindow i).2 := by
  simp only [gfxRenderWindow]
  split
  · exact .refl u
  · split
    · exact .refl u
    · split
      · exact .refl u
      · split
        · exact .refl u
        · exact .refl u
        · exact selectionChecked_drawn u
        · exact .refl u

theorem windowsFrom_drawn (u : Ui) (i left : Nat) : Drawn u (renderWindowsFrom u i left).2 := by
  induction left generalizing u i with
  | zero => exact .refl u
  | succ left ih => exact (renderWindow_drawn u i).trans (ih _ _)

theorem renderCursor_drawn (u : Ui) : Drawn u u.gfxRenderCursor.2 :=
  (activeUi_drawn u).trans .kept

theorem renderScene_drawn (g : Geometry) (u : Ui) : Drawn u (gfxRenderScene g u).2 :=
  (windowsFrom_drawn u 0 winCount).trans (renderCursor_drawn _)

theorem renderFull_drawn (g : Geometry) (u : Ui) (tid : Option Nat) :
    Drawn u (gfxRenderFull g u tid).2 := by
  simp only [gfxRenderFull]
  split
  · exact ((activeUi_drawn u).trans (setTerminal_drawn _ _ _)).trans (renderScene_drawn g _)
  · exact (activeUi_drawn u).trans (renderScene_drawn g _)

theorem renderPanic_drawn (g : Geometry) (u : Ui) (tid : Option Nat) :
    Drawn u (gfxRenderPanicFull g u tid).2 :=
  (activeUi_drawn u).trans (setTerminal_drawn _ _ _)

theorem clearDirty_drawn (g : Geometry) (u : Ui) (tid : Option Nat) :
    Drawn u (clearVisibleTextDirty g u tid) :=
  (activeUi_drawn u).trans (setTerminal_drawn _ _ _)

theorem terminalCell_drawn (u : Ui) (w : GuiWindow) (row col : Nat) :
    Drawn u (u.gfxRenderTerminalCell w row col).2 := by
  rw [gfxRenderTerminalCell]
  split
  · exact .refl u
  · exact setTerminal_drawn u _ _

theorem dirtyCellTurn_drawn (w : GuiWindow) (s : Nat) (r : List FbCall × Ui) (cell : Nat × Nat) :
    Drawn r.2 (dirtyCellTurn w s r cell).2 := by
  rw [dirtyCellTurn]
  split
  · exact terminalCell_drawn r.2 w cell.1 cell.2
  · exact .refl r.2

theorem dirtyCellTurns_drawn (w : GuiWindow) (s : Nat) (cells : List (Nat × Nat))
    (r : List FbCall × Ui) : Drawn r.2 (cells.foldl (dirtyCellTurn w s) r).2 := by
  induction cells generalizing r with
  | nil => exact .refl r.2
  | cons cell cells ih => exact (dirtyCellTurn_drawn w s r cell).trans (ih _)

theorem dirtyCells_drawn (u : Ui) (w : GuiWindow) (s rows cols : Nat) :
    Drawn u (dirtyCells u w s rows cols).2 := by
  simp only [dirtyCells]
  split
  · exact (dirtyCellTurns_drawn w s _ ([], u)).trans (setTerminal_drawn _ _ _)
  · exact .refl u

theorem previousCell_drawn (u : Ui) (w : GuiWindow) (s : Nat) :
    Drawn u (previousCell u w s).2 := by
  rw [previousCell]
  split
  · split
    · exact terminalCell_drawn u w _ _
    · exact .refl u
  · exact .refl u

theorem incrementalRender_drawn (g : Geometry) (u : Ui) (tid : Option Nat) :
    Drawn u (incrementalRender g u tid).2 := by
  have hcursor : ∀ (v : Ui) (c : Option (Nat × Nat)), Drawn v { v with prevCursor := c } :=
    fun v c => .kept
  have hprev := previousCell_drawn u.terminalStateForActiveUi.1 (u.windows u.terminalWindow)
    u.terminalStateForActiveUi.2
  exact ((activeUi_drawn u).trans hprev).trans
    ((dirtyCells_drawn _ _ _ _ _).trans ((renderCursor_drawn _).trans (hcursor _ _)))

end Drawing

section Order

variable {R : GuiWindow → GuiWindow → Prop} {ws ws' ws'' : WindowList} {i index : Nat}
  {w w' w'' : GuiWindow}

/-- The windows are in another order, the desktop at the back as before, and `R` relates each
one to what it was. -/
def Reordered (R : GuiWindow → GuiWindow → Prop) (ws ws' : WindowList) : Prop :=
  ∃ f : Nat → Nat, f 0 = 0 ∧ (∀ i < winCount, f i < winCount) ∧
    (∀ i < winCount, ∀ j < winCount, f i = f j → i = j) ∧ ∀ i < winCount, R (ws (f i)) (ws' i)

theorem Reordered.of_each (h : ∀ i < winCount, R (ws i) (ws' i)) : Reordered R ws ws' :=
  ⟨id, rfl, fun _ hi => hi, fun _ _ _ _ he => he, h⟩

theorem Reordered.mono {R' : GuiWindow → GuiWindow → Prop} (hR : ∀ w w', R w w' → R' w w')
    (h : Reordered R ws ws') : Reordered R' ws ws' := by
  obtain ⟨f, hf0, hf, hinj, hR'⟩ := h
  exact ⟨f, hf0, hf, hinj, fun i hi => hR _ _ (hR' i hi)⟩

theorem Reordered.trans (hR : ∀ w w' w'', R w w' → R w' w'' → R w w'')
    (h : Reordered R ws ws') (h' : Reordered R ws' ws'') : Reordered R ws ws'' := by
  obtain ⟨f, hf0, hf, hinj, hw⟩ := h
  obtain ⟨f', hf0', hf', hinj', hw'⟩ := h'
  refine ⟨f ∘ f', by simp [hf0', hf0], fun i hi => hf _ (hf' i hi), ?_, ?_⟩
  · intro i hi j hj he
    exact hinj' i hi j hj (hinj _ (hf' i hi) _ (hf' j hj) he)
  · intro i hi
    exact hR _ _ _ (hw _ (hf' i hi)) (hw' i hi)

theorem Reordered.update (hR : ∀ w, R w w) (h : R (ws i) w) :
    Reordered R ws (Function.update ws i w) := by
  apply Reordered.of_each
  intro j _
  by_cases hj : j = i
  · rw [hj, Function.update_self]
    exact h
  · rw [Function.update_of_ne hj]
    exact hR (ws j)

theorem Reordered.raise (hR : ∀ w, R w w) (ws : WindowList) (hi : index < winCount) :
    Reordered R ws (guiBringWindowToFront ws winCount winTerminalFirst index) := by
  by_cases h : winTerminalFirst ≤ index
  · refine ⟨fun j => if j < index ∨ winCount ≤ j then j else if j = winCount - 1 then index
      else j + 1, ?_, ?_, ?_, ?_⟩
    · have h0 : 0 < index := h
      simp [h0]
    · intro j hj
      dsimp only
      split
      · exact hj
      · split <;> omega
    · intro j hj k hk
      dsimp only
      grind
    · intro j hj
      rw [bringToFront_apply h hi]
      dsimp only
      split
      · exact hR _
      · split
        · exact hR _
        · exact hR _
  · rw [guiBringWindowToFront, if_neg h]
    exact .of_each fun i _ => hR (ws i)

/-- The window is at no place that makes its coordinates wrap around. The bounds leave room
for the windows that are laid out beyond a small screen. -/
structure WellPlaced (g : Geometry) (w : GuiWindow) : Prop where
  left : 0 ≤ w.x
  top : 0 ≤ w.y
  right : w.x ≤ s32 g.width + 1000
  bottom : w.y ≤ s32 g.height - s32 gfxTaskbarHeight + 1000
  width : -1000 ≤ s32 w.w ∧ s32 w.w ≤ s32 g.width
  height : -1000 ≤ s32 w.h ∧ s32 w.h ≤ s32 g.height - s32 gfxTaskbarHeight

/-- What an event may do to a window, which stays the same one: other colors or another
visibility, a drag, a resize, and one after another. -/
inductive WindowStep (g : Geometry) : GuiWindow → GuiWindow → Prop
  | same_place {w w' : GuiWindow} (hkey : w'.key = w.key) (hx : w'.x = w.x) (hy : w'.y = w.y)
      (hw : w'.w = w.w) (hh : w'.h = w.h) : WindowStep g w w'
  | dragged (w : GuiWindow) (x y : Int) : WindowStep g w { w with
      x := (guiClampWindowPosition w x y g.width g.height gfxTaskbarHeight).1
      y := (guiClampWindowPosition w x y g.width g.height gfxTaskbarHeight).2 }
  | resized (w : GuiWindow) (x y : Int) : WindowStep g w { w with
      w := u32 (guiClampWindowSize w x y (gfxWindowRoleMinWidth w.role)
        (gfxWindowRoleMinHeight w.role) g.width g.height gfxTaskbarHeight).1
      h := u32 (guiClampWindowSize w x y (gfxWindowRoleMinWidth w.role)
        (gfxWindowRoleMinHeight w.role) g.width g.height gfxTaskbarHeight).2 }
  | trans {w w' w'' : GuiWindow} (h : WindowStep g w w') (h' : WindowStep g w' w'') :
      WindowStep g w w''

variable {g : Geometry}

theorem WindowStep.refl (g : Geometry) (w : GuiWindow) : WindowStep g w w :=
  .same_place rfl rfl rfl rfl rfl

theorem WindowStep.visible (g : Geometry) (w : GuiWindow) (visible : Bool) :
    WindowStep g w { w with visible := visible } := .same_place rfl rfl rfl rfl rfl

theorem WindowStep.key (h : WindowStep g w w') : w'.key = w.key := by
  induction h with
  | same_place hkey => exact hkey
  | dragged => rfl
  | resized => rfl
  | trans _ _ ih ih' => exact ih'.trans ih

theorem s32_u32 {i : Int} (h : -2147483648 ≤ i) (h' : i < 2147483648) : s32 (u32 i) = i := by
  have hnat : (UInt32.ofInt i).toBitVec.toNat = (i % 4294967296).toNat := by
    simp only [UInt32.ofInt, UInt32.toNat_toBitVec, UInt32.toNat_ofNat']
    omega
  simp only [s32, u32, Int32.toInt, UInt32.toBitVec_toInt32, BitVec.toInt_eq_toNat_cond, hnat]
  split <;> omega

theorem s32_bounds (u : UInt32) : -2147483648 ≤ s32 u ∧ s32 u < 2147483648 :=
  ⟨Int32.le_toInt _, Int32.toInt_lt _⟩

theorem taskbar_s32 : s32 gfxTaskbarHeight = 27 := by
  decide

theorem WellPlaced.dragged (h : WellPlaced g w) (x y : Int) :
    WellPlaced g { w with
      x := (guiClampWindowPosition w x y g.width g.height gfxTaskbarHeight).1
      y := (guiClampWindowPosition w x y g.width g.height gfxTaskbarHeight).2 } := by
  obtain ⟨h1, h2, h3, h4, h5, h6⟩ := h
  simp only [guiClampWindowPosition, clampPosition]
  refine ⟨?_, ?_, ?_, ?_, h5, h6⟩ <;> dsimp only <;> split <;> (try split) <;> omega

theorem roleMin_bounds (role : WindowRole) :
    0 ≤ s32 (gfxWindowRoleMinWidth role) ∧ 0 ≤ s32 (gfxWindowRoleMinHeight role) := by
  cases role <;> decide

theorem WellPlaced.resized (h : WellPlaced g w) (x y : Int) :
    WellPlaced g { w with
      w := u32 (guiClampWindowSize w x y (gfxWindowRoleMinWidth w.role)
        (gfxWindowRoleMinHeight w.role) g.width g.height gfxTaskbarHeight).1
      h := u32 (guiClampWindowSize w x y (gfxWindowRoleMinWidth w.role)
        (gfxWindowRoleMinHeight w.role) g.width g.height gfxTaskbarHeight).2 } := by
  obtain ⟨h1, h2, h3, h4, h5, h6⟩ := h
  generalize hsize : guiClampWindowSize w x y (gfxWindowRoleMinWidth w.role)
    (gfxWindowRoleMinHeight w.role) g.width g.height gfxTaskbarHeight = size
  obtain ⟨hminw, hminh⟩ := roleMin_bounds w.role
  have htaskbar := taskbar_s32
  have hboundw := s32_bounds g.width
  have hboundh := s32_bounds g.height
  have hsize1 : -1000 ≤ size.1 ∧ size.1 ≤ s32 g.width := by
    subst hsize
    simp only [guiClampWindowSize, clampSize]
    split <;> (try split) <;> omega
  have hsize2 : -1000 ≤ size.2 ∧ size.2 ≤ s32 g.height - s32 gfxTaskbarHeight := by
    subst hsize
    simp only [guiClampWindowSize, clampSize]
    split <;> (try split) <;> omega
  refine ⟨h1, h2, h3, h4, ?_, ?_⟩
  · dsimp only
    rw [s32_u32 (by omega) (by omega)]
    exact hsize1
  · dsimp only
    rw [s32_u32 (by omega) (by omega)]
    exact hsize2

theorem WindowStep.placed (h : WindowStep g w w') (hp : WellPlaced g w) : WellPlaced g w' := by
  induction h with
  | same_place _ hx hy hw hh =>
    obtain ⟨h1, h2, h3, h4, h5, h6⟩ := hp
    constructor <;> simp only [hx, hy, hw, hh] <;> assumption
  | dragged w x y => exact hp.dragged x y
  | resized w x y => exact hp.resized x y
  | trans _ _ ih ih' => exact ih' (ih hp)

theorem findWindowByRole_lt {role : WindowRole}
    (h : guiFindWindowByRole ws winCount role none = some i) : i < winCount := by
  simp only [guiFindWindowByRole] at h
  split at h
  · next he =>
    cases h
    exact List.mem_range.mp (List.mem_of_find?_eq_some he)
  · cases h

end Order

section Rearranging

variable {g : Geometry} {u u' u'' : Ui} {i : Nat} {w : GuiWindow}

/-- What an event may do to the windows and to what all drawing rests on. -/
structure Rearranged (g : Geometry) (u u' : Ui) : Prop where
  windows : Reordered (WindowStep g) u.windows u'.windows
  font : u'.font = u.font
  panicMode : u'.panicMode = u.panicMode

theorem Rearranged.trans (h : Rearranged g u u') (h' : Rearranged g u' u'') : Rearranged g u u'' :=
  ⟨h.windows.trans (fun _ _ _ => .trans) h'.windows, h'.font.trans h.font,
    h'.panicMode.trans h.panicMode⟩

theorem Rearranged.of_eq (hw : u'.windows = u.windows) (hf : u'.font = u.font)
    (hp : u'.panicMode = u.panicMode) : Rearranged g u u' := by
  refine ⟨?_, hf, hp⟩
  rw [hw]
  exact .of_each fun i _ => .refl g _

theorem Rearranged.refl (g : Geometry) (u : Ui) : Rearranged g u u := .of_eq rfl rfl rfl

theorem Drawn.rearranged (h : Drawn u u') : Rearranged g u u' :=
  .of_eq h.windows h.font h.panicMode

theorem Rearranged.setWindow (h : WindowStep g (u.windows i) w) : Rearranged g u (u.setWindow i w) :=
  ⟨.update (.refl g) h, rfl, rfl⟩

theorem Rearranged.raise (u : Ui) (hi : i < winCount) : Rearranged g u (u.bringWindowToFront i) :=
  ⟨.raise (.refl g) u.windows hi, rfl, rfl⟩

theorem refocus_drawn (u : Ui) (session : Option Nat) : Drawn u (refocus u session) := by
  rw [refocus]
  split
  · exact ensureFocus_drawn u
  · exact .refl u

theorem applyTheme_rearranged (g : Geometry) (u : Ui) (themeId : Nat) :
    Rearranged g u (u.applyTheme themeId) := by
  have hthemed : ∀ (t : UiTheme) (body : UInt8) (w : GuiWindow), WindowStep g w (themed t body w) :=
    fun t body w => .same_place rfl rfl rfl rfl rfl
  have hterm : ∀ (t : UiTheme) (v : Ui),
      Rearranged g v { v with windows := themeTerminals t v.windows } := by
    intro t v
    refine ⟨.of_each fun i _ => ?_, rfl, rfl⟩
    simp only [themeTerminals]
    split
    · exact hthemed t _ _
    · exact .refl g _
  have hfound : ∀ (t : UiTheme) (v : Ui) (found : Option Nat),
      Rearranged g v (themeWindow t v found) := by
    intro t v found
    cases found with
    | none => exact .refl g v
    | some i => exact .setWindow (hthemed t _ _)
  have hdesk : ∀ (v : Ui) (body : UInt8), Rearranged g v
      (v.setWindow winDesktop { v.windows winDesktop with bodyBg := body }) :=
    fun v body => .setWindow (.same_place rfl rfl rfl rfl rfl)
  have hcolors : ∀ (v : Ui) (a b c d : UInt8), Rearranged g v
      { v with taskbarBg := a, taskbarText := b, gfxFg := c, gfxBg := d } :=
    fun v a b c d => .of_eq rfl rfl rfl
  have htheme : Rearranged g u { u with activeTheme := if themeId ≥ themeCount then 0 else themeId } :=
    .of_eq rfl rfl rfl
  exact htheme.trans ((hdesk _ _).trans ((hterm _ _).trans
    ((hfound _ _ _).trans ((hfound _ _ _).trans (hcolors _ _ _ _ _)))))

theorem openWindow_rearranged (u : Ui) (focus : Ui → Option Nat) (hi : i < winCount) :
    Rearranged g u (openWindow u i focus) := by
  have hshow : Rearranged g u (u.setWindow i { u.windows i with visible := true }) :=
    .setWindow (.visible g _ true)
  have hraise := hshow.trans (Rearranged.raise _ hi)
  exact ⟨hraise.windows, hraise.font, hraise.panicMode⟩

theorem chooseMenuItem_rearranged (u : Ui) (item : Int) :
    Rearranged g u (chooseMenuItem u item) := by
  rw [chooseMenuItem]
  split
  · split
    · next ti he =>
      have hmem := List.mem_of_find?_eq_some he
      rw [List.mem_range'_1] at hmem
      exact openWindow_rearranged u _ (Nat.lt_of_lt_of_le hmem.2 (by decide))
    · exact .of_eq rfl rfl rfl
  · split
    · split
      · next si he => exact openWindow_rearranged u _ (findWindowByRole_lt he)
      · exact .refl g u
    · split
      · split
        · next pi he => exact openWindow_rearranged u _ (findWindowByRole_lt he)
        · exact .refl g u
      · exact .refl g u

/-- A window is hidden, and is no more in use anywhere. -/
theorem hide_rearranged (u : Ui) (i : Nat) (selected : Option Nat) (session : Option Nat) :
    Rearranged g u (refocus (dropWindow { u.setWindow i { u.windows i with visible := false } with
      pmSelectedIndex := selected } i) session) := by
  have hhide : Rearranged g u (u.setWindow i { u.windows i with visible := false }) :=
    .setWindow (.visible g _ false)
  have hdrop : Rearranged g u (dropWindow { u.setWindow i { u.windows i with visible := false } with
      pmSelectedIndex := selected } i) := ⟨hhide.windows, rfl, rfl⟩
  exact hdrop.trans (refocus_drawn _ session).rearranged

theorem closeFront_rearranged (u : Ui) : Rearranged g u (closeFront u) := hide_rearranged u _ _ _

theorem killSelected_rearranged (u : Ui) : Rearranged g u (processManagerKillSelected u) := by
  rw [processManagerKillSelected]
  split
  · exact .refl g u
  · next i _ =>
    split
    · exact .refl g u
    · have hkill : ∀ v : Ui, Rearranged g u v → Rearranged g u
          { refocus v (terminalSessionFromWindow (u.windows i)) with pmSelectedIndex := none } := by
        intro v hv
        have hfocus := hv.trans
          (refocus_drawn v (terminalSessionFromWindow (u.windows i))).rearranged
        exact ⟨hfocus.windows, hfocus.font, hfocus.panicMode⟩
      apply hkill
      split
      · have hhide : Rearranged g u (u.setWindow i { u.windows i with visible := false }) :=
          .setWindow (.visible g _ false)
        exact ⟨hhide.windows, rfl, rfl⟩
      · exact .refl g u

theorem handleClick_rearranged {x y : Int} (h : processManagerHandleClick u w x y = some u') :
    Rearranged g u u' := by
  simp only [processManagerHandleClick] at h
  split at h
  · cases h
  · split at h
    · cases h
      exact killSelected_rearranged u
    · split at h
      · cases h
      · obtain ⟨r, -, rfl⟩ := Option.map_eq_some_iff.mp h
        exact .of_eq rfl rfl rfl

theorem grabFront_rearranged (u : Ui) (x y : Int) : Rearranged g u (grabFront u x y) := by
  simp only [grabFront]
  split <;> split <;> try split
  all_goals exact .of_eq rfl rfl rfl

theorem showSession_rearranged (u : Ui) (session : Nat) (makeVisible : Bool) :
    Rearranged g u (showSessionWindow u session makeVisible) := by
  simp only [showSessionWindow]
  split
  · next hwi =>
    have hlt : winTerminalFirst + session < winCount := Nat.lt_of_le_of_lt hwi.2 (by decide)
    have hshow : Rearranged g u (u.setWindow (winTerminalFirst + session)
        { u.windows (winTerminalFirst + session) with visible := makeVisible }) :=
      .setWindow (.visible g _ makeVisible)
    split
    · have hraise := hshow.trans (Rearranged.raise _ hlt)
      exact ⟨hraise.windows, hraise.font, hraise.panicMode⟩
    · exact hshow
  · exact .refl g u

theorem sampleUsage_rearranged (u : Ui) : Rearranged g u (sampleUsage u) := by
  have hsample : Rearranged g u u.updateProcessUsageSample := by
    rw [updateProcessUsageSample]
    split
    · exact .of_eq rfl rfl rfl
    · exact .refl g u
  simp only [sampleUsage]
  split
  · split
    · exact ⟨hsample.windows, hsample.font, hsample.panicMode⟩
    · exact hsample
  · split
    · exact .of_eq rfl rfl rfl
    · exact .refl g u

end Rearranging

section Events

variable {d d' d'' : Display} {x y : Int} {buttons : UInt8} {r : List FbCall × Ui}

/-- What an event leaves of the display. -/
structure Shuffled (d d' : Display) : Prop where
  ui : Rearranged d.geo d.ui d'.ui
  graphics : d'.graphics = d.graphics
  geo : d'.geo = d.geo

theorem Shuffled.trans (h : Shuffled d d') (h' : Shuffled d' d'') : Shuffled d d'' := by
  obtain ⟨hui, hgraphics, hgeo⟩ := h'
  rw [h.geo] at hui
  exact ⟨h.ui.trans hui, hgraphics.trans h.graphics, hgeo.trans h.geo⟩

/-- Another state of the variables. -/
theorem Shuffled.of_ui {u : Ui} (h : Rearranged d.geo d.ui u) : Shuffled d { d with ui := u } :=
  ⟨h, rfl, rfl⟩

theorem Shuffled.refl (d : Display) : Shuffled d d := .of_ui (.refl d.geo d.ui)

theorem restorePointer_geo (s : Screen) : s.mouseRestorePointer.fb.geo = s.fb.geo := by
  rw [Screen.mouseRestorePointer]
  split
  · simp only [drawSquare_geo]
  · rfl

theorem drawPointer_geo (s : Screen) : s.mouseDrawPointer.fb.geo = s.fb.geo := by
  rw [Screen.mouseDrawPointer]
  split
  · exact restorePointer_geo s
  · simp only [drawSquare_geo, restorePointer_geo]

theorem refreshCursor_geo (s : Screen) : s.mouseRefreshCursor.fb.geo = s.fb.geo := by
  rw [Screen.mouseRefreshCursor, drawPointer_geo]
  split
  · exact restorePointer_geo s
  · rfl

theorem hideCursor_shuffled (d : Display) : Shuffled d d.mouseHideCursor :=
  ⟨.refl d.geo d.ui, rfl, restorePointer_geo d.screen⟩

theorem refreshCursor_shuffled (d : Display) : Shuffled d d.mouseRefreshCursor :=
  ⟨.refl d.geo d.ui, rfl, refreshCursor_geo d.screen⟩

theorem flush_shuffled (d : Display) : Shuffled d d.framebufferFlush :=
  ⟨.refl d.geo d.ui, rfl, flush_geo d.screen.fb⟩

theorem render_shuffled (d : Display) (h : Drawn d.ui r.2) : Shuffled d (d.render r) :=
  ⟨h.rearranged, rfl, calls_geo r.1 d.screen.fb⟩

theorem redrawHidden_shuffled (d : Display) : Shuffled d d.redrawHidden :=
  (hideCursor_shuffled d).trans
    (render_shuffled d.mouseHideCursor (renderScene_drawn d.mouseHideCursor.geo d.ui))

theorem redraw_shuffled (d : Display) : Shuffled d d.redraw :=
  (redrawHidden_shuffled d).trans (refreshCursor_shuffled _)

theorem spawnTask_shuffled (d : Display) (session : Nat) :
    Shuffled d (d.spawnTerminalTaskForSession session).2 := by
  simp only [spawnTerminalTaskForSession]
  split
  · exact .refl d
  · split
    · exact ⟨.refl d.geo d.ui, rfl, rfl⟩
    · exact ⟨.of_eq rfl rfl rfl, rfl, rfl⟩

theorem create_shuffled (d : Display) (makeVisible : Bool) :
    Shuffled d (d.displayCreateTerminalSession makeVisible).2 := by
  simp only [displayCreateTerminalSession]
  split
  · exact .refl d
  · next session _ =>
    have hspawn := spawnTask_shuffled d session
    split
    · exact hspawn
    · have hset : ∀ (u : Ui) (ts : TerminalState), Rearranged d.geo u
          (showSessionWindow (u.setTerminal session ts) session makeVisible) := by
        intro u ts
        exact (setTerminal_drawn u session ts).rearranged.trans (showSession_rearranged _ _ _)
      have hui := hspawn.ui.trans (hset (d.spawnTerminalTaskForSession session).2.ui
        (blankTerminal ((d.spawnTerminalTaskForSession session).2.ui.terminals session)))
      exact ⟨⟨hui.windows, hui.font, hui.panicMode⟩, hspawn.graphics, hspawn.geo⟩

theorem spawnPending_shuffled (d : Display) : Shuffled d d.spawnPending := by
  rw [spawnPending]
  split
  · have hclear : Shuffled d { d with ui := { d.ui with pendingTerminalSpawn := false } } :=
      .of_ui (.of_eq rfl rfl rfl)
    exact hclear.trans (create_shuffled _ true)
  · exact .refl d

theorem refreshPanic_shuffled (d : Display) : Shuffled d d.refreshPanic := by
  have hrender := (render_shuffled d (renderPanic_drawn d.geo d.ui d.tid)).trans (flush_shuffled _)
  have hclear := hrender.ui.trans
    (clearDirty_drawn (d.render (gfxRenderPanicFull d.geo d.ui d.tid)).framebufferFlush.geo _
      d.tid).rearranged
  exact ⟨⟨hclear.windows, hclear.font, hclear.panicMode⟩, hrender.graphics, hrender.geo⟩

theorem refreshFull_shuffled (d : Display) (s : Nat) : Shuffled d (d.refreshFull s) := by
  have hrender := (render_shuffled d (renderFull_drawn d.geo d.ui d.tid)).trans
    ((refreshCursor_shuffled _).trans (flush_shuffled _))
  have hclear := hrender.ui.trans (clearDirty_drawn
    (d.render (gfxRenderFull d.geo d.ui d.tid)).mouseRefreshCursor.framebufferFlush.geo _
      d.tid).rearranged
  exact ⟨⟨hclear.windows, hclear.font, hclear.panicMode⟩, hrender.graphics, hrender.geo⟩

theorem refreshIncremental_shuffled (d : Display) : Shuffled d d.gfxRefreshTerminalIncremental := by
  have hrender := render_shuffled d.mouseHideCursor
    (incrementalRender_drawn d.mouseHideCursor.geo d.ui d.tid)
  exact ((hideCursor_shuffled d).trans hrender).trans
    ((refreshCursor_shuffled _).trans (flush_shuffled _))

theorem clampSession_shuffled (d : Display) (s : Nat) : Shuffled d (d.clampSession s) :=
  .of_ui (setTerminal_drawn _ _ _).rearranged

theorem refresh_shuffled (d : Display) : Shuffled d d.displayRefresh := by
  have hhead := (spawnPending_shuffled d).trans
    (clampSession_shuffled _ (d.ui.terminalStateForTaskIo d.tid))
  simp only [displayRefresh]
  split
  · exact hhead
  · split
    · exact hhead.trans (refreshPanic_shuffled _)
    · have hsample := hhead.trans (.of_ui (sampleUsage_rearranged _))
      split
      · exact hsample.trans (refreshFull_shuffled _ _)
      · exact hsample.trans (refreshIncremental_shuffled _)

theorem requestRefresh_shuffled (d : Display) : Shuffled d d.displayRequestRefresh := by
  rw [displayRequestRefresh]
  split
  · exact .of_ui (.of_eq rfl rfl rfl)
  · exact refresh_shuffled d

theorem putChar_shuffled (d : Display) (c : UInt8) : Shuffled d (d.displayPutCharInternal c) :=
  .of_ui (.of_eq rfl rfl rfl)

theorem putChars_shuffled (s : List UInt8) (d : Display) :
    Shuffled d (s.foldl displayPutCharInternal d) := by
  induction s generalizing d with
  | nil => exact .refl d
  | cons c s ih => exact (putChar_shuffled d c).trans (ih _)

theorem print_shuffled (d : Display) (s : List UInt8) : Shuffled d (d.displayPrint s) := by
  have hput := putChars_shuffled (cString s) d
  simp only [displayPrint]
  split
  · exact hput
  · exact hput.trans (requestRefresh_shuffled _)

theorem endUpdate_shuffled (d : Display) : Shuffled d d.displayEndUpdate := by
  simp only [displayEndUpdate]
  split
  · exact .refl d
  · split
    · refine Shuffled.trans (.of_ui ?_) (refresh_shuffled _)
      exact .of_eq rfl rfl rfl
    · exact .of_ui (.of_eq rfl rfl rfl)

theorem clear_shuffled (d : Display) : Shuffled d d.displayClear := by
  have hblank : ∀ (s : Nat) (ts : TerminalState), Shuffled d { d with ui :=
      { d.ui.setTerminal s ts with forceFullRedraw := true } } :=
    fun s ts => .of_ui (.of_eq rfl rfl rfl)
  exact (hblank _ _).trans (refresh_shuffled _)

theorem setCursor_shuffled (d : Display) (row col : Nat) :
    Shuffled d (d.displaySetCursor row col) := by
  have hset : ∀ (s : Nat) (ts : TerminalState), Shuffled d { d with ui := d.ui.setTerminal s ts } :=
    fun s ts => .of_ui (.of_eq rfl rfl rfl)
  exact (hset _ _).trans (requestRefresh_shuffled _)

/-- The scene is drawn after the event. -/
theorem Shuffled.redrawn {u : Ui} (h : Rearranged d.geo d.ui u) :
    Shuffled d { d with ui := u }.redraw := (Shuffled.of_ui h).trans (redraw_shuffled _)

theorem clickWindow_shuffled (d : Display) {hit : Nat} (h : hit < winCount) (x y : Int) :
    Shuffled d (d.clickWindow hit x y).1 := by
  have hraise : Rearranged d.geo d.ui
      (if hit ≠ winCount - 1 then d.ui.bringWindowToFront hit else d.ui) := by
    split
    · exact .raise d.ui h
    · exact .refl d.geo d.ui
  simp only [clickWindow]
  generalize (if hit ≠ winCount - 1 then d.ui.bringWindowToFront hit else d.ui) = u at hraise ⊢
  split
  · exact .redrawn (hraise.trans (closeFront_rearranged u))
  · split
    · exact .redrawn (hraise.trans (applyTheme_rearranged _ u _))
    · split
      · next u' he => exact .redrawn (hraise.trans (handleClick_rearranged he))
      · exact (Shuffled.of_ui (hraise.trans (grabFront_rearranged u x y))).trans
          (redrawHidden_shuffled _)

theorem clickWindows_shuffled (d : Display) (x y : Int) : Shuffled d (d.clickWindows x y).1 := by
  rw [clickWindows]
  split
  · next hit he =>
    have hmem := List.mem_of_find?_eq_some he
    rw [indicesDown, List.mem_reverse, List.mem_range'_1] at hmem
    exact clickWindow_shuffled d (Nat.lt_of_lt_of_le hmem.2 (by decide)) x y
  · exact .refl d

theorem pressLeft_shuffled (d : Display) (x y : Int) : Shuffled d (d.pressLeft x y).1 := by
  have hmenu : ∀ (u : Ui) (isOpen : Bool), Rearranged d.geo u { u with startMenuOpen := isOpen } :=
    fun u isOpen => .of_eq rfl rfl rfl
  simp only [pressLeft]
  split
  · exact .redrawn (hmenu _ _)
  · split
    · split
      · exact .redrawn ((chooseMenuItem_rearranged d.ui _).trans (hmenu _ _))
      · exact (Shuffled.redrawn (hmenu d.ui false)).trans (clickWindows_shuffled _ x y)
    · exact clickWindows_shuffled d x y

theorem moveWindow_shuffled (d : Display) {i : Nat} {w : GuiWindow}
    (h : WindowStep d.geo (d.ui.windows i) w) (changed : Bool) :
    Shuffled d (d.moveWindow i w changed) := by
  rw [moveWindow]
  split
  · exact .redrawn (.setWindow h)
  · exact .refl d

theorem dragMove_shuffled (d : Display) (x y : Int) (buttons : UInt8) :
    Shuffled d (d.dragMove x y buttons) := by
  rw [dragMove]
  split
  · exact .refl d
  · split
    · exact moveWindow_shuffled d (.dragged _ _ _) _
    · exact .refl d

theorem resizeMove_shuffled (d : Display) (x y : Int) (buttons : UInt8) :
    Shuffled d (d.resizeMove x y buttons) := by
  rw [resizeMove]
  split
  · exact .refl d
  · split
    · exact moveWindow_shuffled d (.resized _ _ _) _
    · exact .refl d

theorem releaseLeft_shuffled (d : Display) (buttons : UInt8) :
    Shuffled d (d.releaseLeft buttons) := by
  have hdrop : ∀ d : Display, Shuffled d { d with ui :=
      { d.ui with dragWindow := none, resizeWindow := none } } :=
    fun d => .of_ui (.of_eq rfl rfl rfl)
  have hstop : ∀ d : Display, Shuffled d { d with ui :=
      { d.ui with interactiveMoveActive := false } } := fun d => .of_ui (.of_eq rfl rfl rfl)
  simp only [releaseLeft]
  split
  · split
    · exact ((hstop d).trans (redrawHidden_shuffled _)).trans (hdrop _)
    · exact hdrop d
  · exact .refl d

theorem mouseEvent_shuffled (d : Display) (x y : Int) (buttons : UInt8) :
    Shuffled d (d.displayHandleMouseEvent x y buttons) := by
  have hpress : Shuffled d (if leftDown buttons ∧ leftDown d.prevButtons = false then
      d.pressLeft x y else (d, false)).1 := by
    split
    · exact pressLeft_shuffled d x y
    · exact .refl d
  have hbuttons : ∀ d : Display, Shuffled d { d with prevButtons := buttons } :=
    fun d => ⟨.refl d.geo d.ui, rfl, rfl⟩
  rw [displayHandleMouseEvent]
  generalize (if leftDown buttons ∧ leftDown d.prevButtons = false then
      d.pressLeft x y else (d, false)) = r at hpress ⊢
  refine Shuffled.trans ?_ (hbuttons _)
  split
  · exact hpress
  · exact ((hpress.trans (dragMove_shuffled r.1 x y buttons)).trans
      (resizeMove_shuffled _ x y buttons)).trans (releaseLeft_shuffled _ buttons)

theorem setButton_shuffled (d : Display) (pressed : Bool) :
    Shuffled d (d.displaySetButtonPressed pressed) := by
  have hset : Shuffled d { d with ui := { d.ui with buttonPressed := pressed } } :=
    .of_ui (.of_eq rfl rfl rfl)
  simp only [displaySetButtonPressed]
  split
  · split
    · exact hset.trans (refresh_shuffled _)
    · exact hset
  · exact .refl d

theorem packet_shuffled (d : Display) (status dx dy : UInt8) :
    Shuffled d (d.mouseProcessPacket status dx dy) := by
  have hpointer : ∀ (d : Display) (p : Pointer), Shuffled d
      { d with screen := { d.screen with pointer := p } } := fun d p => ⟨.refl d.geo d.ui, rfl, rfl⟩
  have hdraw : ∀ d : Display, Shuffled d { d with screen :=
      d.screen.mouseDrawPointer.framebufferFlush } := by
    intro d
    exact ⟨.refl d.geo d.ui, rfl, (flush_geo _).trans (drawPointer_geo d.screen)⟩
  simp only [mouseProcessPacket]
  split
  · exact .refl d
  · generalize movePointer d.geo d.screen.pointer status dx dy = p
    split
    · exact ((hpointer d p).trans (setButton_shuffled _ (buttonHit p))).trans
        ((mouseEvent_shuffled _ p.x p.y p.buttons).trans (hdraw _))
    · exact hpointer d p

/-- No event makes a window another one, or leaves graphics mode. -/
theorem displayNext_shuffled (d : Display) (e : DisplayEvent) : Shuffled d (displayNext d e) := by
  cases e with
  | create makeVisible => exact create_shuffled d makeVisible
  | getFocused => exact .of_ui (ensureFocus_drawn d.ui).rearranged
  | refresh => exact refresh_shuffled d
  | mouse x y buttons => exact mouseEvent_shuffled d x y buttons
  | packet status dx dy => exact packet_shuffled d status dx dy
  | beginUpdate => exact .of_ui (.of_eq rfl rfl rfl)
  | endUpdate => exact endUpdate_shuffled d
  | clear => exact clear_shuffled d
  | putChar c => exact (putChar_shuffled d c).trans (requestRefresh_shuffled _)
  | print s => exact print_shuffled d s
  | setCursor row col => exact setCursor_shuffled d row col
  | schedule s => exact ⟨.refl d.geo d.ui, rfl, rfl⟩

end Events

end VertexOS
