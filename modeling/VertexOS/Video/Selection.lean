import VertexOS.Video.NewTerminal
import VertexOS.Video.PointerRuns

namespace VertexOS
open Ui Display Library.Transitions

/-- The window whose row in the process manager `w` is at the place. -/
def Ui.rowAt (u : Ui) (w : GuiWindow) (x y : Int) : Option Nat :=
  let listX := w.x + s32 (gfxScalePx 8)
  let listY := processManagerListY u.font w
  let listW := s32 w.w - s32 (gfxScalePx 16)
  let rowH := s32 u.font.gfxCellHeight
  if x < listX ∨ x ≥ listX + listW ∨ y < listY then none
  else
    (u.buildRunningProcessList.zipIdx.find? fun r =>
      y ≥ listY + r.2 * rowH ∧ y < listY + r.2 * rowH + rowH).map fun r => r.1

/-- What the left button goes down on. -/
inductive Pressed where
  | nothing
  | startButton
  | menuItem (item : Int)
  | window (hit : Nat)
  deriving DecidableEq

namespace Display

/-- The start menu is shut ahead of a click beside it. -/
def menuShut (d : Display) : Display :=
  if d.ui.startMenuOpen then { d with ui := { d.ui with startMenuOpen := false } }.redraw else d

/-- What the left button would go down on at the place. -/
def pressTarget (d : Display) (x y : Int) : Pressed :=
  if startButtonHit d.geo x y then .startButton
  else if d.ui.startMenuOpen ∧ startMenuHit d.geo x y then
    .menuItem ((y - startMenuY d.geo).tdiv (s32 gfxStartMenuItemHeight))
  else
    match guiFindTopmostVisibleAt d.ui.windows winCount winTerminalFirst x y false with
    | some hit => .window hit
    | none => .nothing

def pressed (d : Display) (x y : Int) (buttons : UInt8) : Pressed :=
  if leftDown buttons ∧ leftDown d.prevButtons = false then d.pressTarget x y else .nothing

/-- What a click on the window does, once it is in front in `u`. -/
def frontClicked (d : Display) (u : Ui) (w : GuiWindow) (x y : Int) : Display × Bool :=
  if windowCloseButtonHit w x y then ({ d with ui := closeFront u }.redraw, true)
  else
    match if w.role = .settings then swatchHit u x y else none with
    | some i => ({ d with ui := u.applyTheme i }.redraw, true)
    | none =>
      match processManagerHandleClick u w x y with
      | some u => ({ d with ui := u }.redraw, true)
      | none => ({ d with ui := grabFront u x y }.redrawHidden, false)

/-- What the handler does first, and whether it returns. -/
def press (d : Display) (x y : Int) (buttons : UInt8) : Display × Bool :=
  if leftDown buttons ∧ leftDown d.prevButtons = false then d.pressLeft x y else (d, false)

/-- The process manager, if the button goes down on it. -/
def managerPressed (d : Display) (x y : Int) (buttons : UInt8) : Option Nat :=
  match d.pressed x y buttons with
  | .window hit => if (d.ui.windows hit).role = .processManager then some hit else none
  | _ => none

/-- The process manager, if the button goes down on it and not on its close button. -/
def managerClicked (d : Display) (x y : Int) (buttons : UInt8) : Option Nat :=
  (d.managerPressed x y buttons).filter fun hit => !windowCloseButtonHit (d.ui.windows hit) x y

/-- The session whose row the button goes down on. -/
def rowPressed (d : Display) (x y : Int) (buttons : UInt8) : Option Nat :=
  (d.managerClicked x y buttons).bind fun hit =>
    let u := d.ui.bringWindowToFront hit
    if processManagerKillButtonHit u.font (d.ui.windows hit) x y then none
    else (u.rowAt (d.ui.windows hit) x y).bind fun i => terminalSessionFromWindow (u.windows i)

/-- The arguments with which the event calls `display_handle_mouse_event`. -/
def mouseCall (d : Display) : DisplayEvent → Option (Int × Int × UInt8)
  | .mouse x y buttons => some (x, y, buttons)
  | .packet status dx dy =>
    if status &&& 0xC0 ≠ 0 ∨ d.graphics = false then none
    else
      let p := movePointer d.geo d.screen.pointer status dx dy
      some (p.x, p.y, p.buttons)
  | _ => none

/-- The display while the mouse event of a packet is handled. -/
def pointed (d : Display) (p : Pointer) (pressed : Bool) : Display :=
  { d with
    screen := { d.screen with pointer := p }
    ui := { d.ui with buttonPressed := pressed } }

/-- The event clicks the KILL button. -/
def KillClicked (d : Display) (e : DisplayEvent) : Prop :=
  ∃ x y buttons hit, d.mouseCall e = some (x, y, buttons) ∧
    d.managerClicked x y buttons = some hit ∧
    processManagerKillButtonHit d.ui.font (d.ui.windows hit) x y = true

/-- The event closes the process manager. -/
def managerClosed (d : Display) (e : DisplayEvent) : Bool :=
  (d.mouseCall e).any fun (x, y, buttons) =>
    (d.managerPressed x y buttons).any fun hit => windowCloseButtonHit (d.ui.windows hit) x y

/-- The session whose row the event clicks. -/
def rowClicked (d : Display) (e : DisplayEvent) : Option Nat :=
  (d.mouseCall e).bind fun (x, y, buttons) => d.rowPressed x y buttons

/-- The window that a new terminal brings up, if there is a session and a task for it. -/
def createRaises (d : Display) : Option Nat :=
  match (List.range winTerminalSlots).find? fun s => d.ui.taskIds s = none with
  | none => none
  | some session =>
    if (d.spawnTerminalTaskForSession session).1 = none then none
    else some (winTerminalFirst + session)

/-- The window that a refresh brings up. -/
def refreshRaises (d : Display) : Option Nat :=
  if d.ui.pendingTerminalSpawn then d.createRaises else none

/-- The window that a line of the start menu brings up. -/
def menuRaises (u : Ui) (item : Int) : Option Nat :=
  if item = 0 then u.findHiddenTerminalSlot
  else if item = 1 then u.settingsWindow
  else if item = 2 then u.processManagerWindow
  else none

def pressRaises (d : Display) (x y : Int) (buttons : UInt8) : Option Nat :=
  match d.pressed x y buttons with
  | .menuItem item => menuRaises d.ui item
  | .window hit => some hit
  | _ => none

/-- The window that the event brings to the front. -/
def raisedBy (d : Display) (e : DisplayEvent) : Option Nat :=
  match d.mouseCall e with
  | some (x, y, buttons) => d.pressRaises x y buttons
  | none =>
    match e with
    | .create true => d.createRaises
    | _ => (d.refreshedBy e).bind refreshRaises

/-- The event moves no window to another index that is selected and stays selected: where it brings
up one at or below the selected one, the click is on a row or closes the process manager. -/
def Steady (d : Display) (e : DisplayEvent) : Prop :=
  ∀ selected ∈ d.ui.pmSelectedIndex, ∀ raised ∈ d.raisedBy e,
    selected < raised ∨ raised = winCount - 1 ∨ d.rowClicked e ≠ none ∨ d.managerClosed e = true

end Display

/-- What a step of the display leaves of a selection where it brings up no window at or below the
selected one. -/
structure Carried (raised : Option Nat) (u u' : Ui) : Prop where
  windows : ∀ i < winCount, (∀ r ∈ raised, i < r ∨ r = winCount - 1) →
    (u'.windows i).key = (u.windows i).key
  selected : u'.pmSelectedIndex = u.pmSelectedIndex ∨ u'.pmSelectedIndex = none
  tasks : ∀ s, (u.taskIds s).isSome = true → (u'.taskIds s).isSome = true

section Carried

variable {u u' u'' : Ui} {raised : Option Nat} {i : Nat}

theorem Carried.trans (h : Carried raised u u') (h' : Carried raised u' u'') :
    Carried raised u u'' := by
  refine ⟨fun i hi hr => (h'.windows i hi hr).trans (h.windows i hi hr), ?_,
    fun s hs => h'.tasks s (h.tasks s hs)⟩
  rcases h'.selected with hs | hs
  · rw [hs]
    exact h.selected
  · exact .inr hs

theorem Carried.of_keys (hw : ∀ i, (u'.windows i).key = (u.windows i).key)
    (hs : u'.pmSelectedIndex = u.pmSelectedIndex ∨ u'.pmSelectedIndex = none)
    (ht : u'.taskIds = u.taskIds) : Carried raised u u' :=
  ⟨fun i _ _ => hw i, hs, fun _ h => ht ▸ h⟩

theorem Carried.of_eq (hw : u'.windows = u.windows) (hs : u'.pmSelectedIndex = u.pmSelectedIndex)
    (ht : u'.taskIds = u.taskIds) : Carried raised u u' :=
  .of_keys (fun i => by rw [hw]) (.inl hs) ht

theorem Carried.refl (raised : Option Nat) (u : Ui) : Carried raised u u := .of_eq rfl rfl rfl

theorem Drawn.carried (h : Drawn u u') : Carried raised u u' :=
  .of_keys (fun i => by rw [h.windows]) h.selected h.taskIds

theorem setWindow_keys {w : GuiWindow} (h : w.key = (u.windows i).key) (j : Nat) :
    ((u.setWindow i w).windows j).key = (u.windows j).key := by
  rw [setWindow]
  by_cases hj : j = i
  · simp [hj, h]
  · simp [hj]

theorem Carried.setWindow {w : GuiWindow} (h : w.key = (u.windows i).key) :
    Carried raised u (u.setWindow i w) :=
  .of_keys (setWindow_keys h) (.inl rfl) rfl

/-- A window that is below the raised one, or the front, stays where it is. -/
theorem raise_below (ws : WindowList) {r : Nat} (hi : i < winCount) (hr : r < winCount)
    (h : i < r ∨ r = winCount - 1) : guiBringWindowToFront ws winCount winTerminalFirst r i = ws i := by
  by_cases hfirst : winTerminalFirst ≤ r
  · rw [bringToFront_apply hfirst hr]
    rcases h with hlt | rfl
    · rw [if_pos (.inl hlt)]
    · split
      · rfl
      · next hnot =>
        have hlast : i = winCount - 1 := by omega
        rw [if_pos hlast, hlast]
  · rw [guiBringWindowToFront, if_neg hfirst]

theorem Carried.raise (u : Ui) {r : Nat} (hr : r < winCount) :
    Carried (some r) u (u.bringWindowToFront r) := by
  refine ⟨fun i hi h => ?_, .inl rfl, fun _ hs => hs⟩
  exact congrArg GuiWindow.key (raise_below u.windows hi hr (h r rfl))

theorem applyTheme_carried (u : Ui) (themeId : Nat) : Carried raised u (u.applyTheme themeId) := by
  have hterm : ∀ (t : UiTheme) (v : Ui),
      Carried raised v { v with windows := themeTerminals t v.windows } := by
    intro t v
    refine .of_keys (fun i => ?_) (.inl rfl) rfl
    simp only [themeTerminals]
    split <;> rfl
  have hfound : ∀ (t : UiTheme) (v : Ui) (found : Option Nat),
      Carried raised v (themeWindow t v found) := by
    intro t v found
    cases found with
    | none => exact .refl _ v
    | some i => exact .setWindow rfl
  have hdesk : ∀ (v : Ui) (body : UInt8), Carried raised v
      (v.setWindow winDesktop { v.windows winDesktop with bodyBg := body }) :=
    fun v body => .setWindow rfl
  have hcolors : ∀ (v : Ui) (a b c d : UInt8), Carried raised v
      { v with taskbarBg := a, taskbarText := b, gfxFg := c, gfxBg := d } :=
    fun v a b c d => .of_eq rfl rfl rfl
  have htheme : Carried raised u
      { u with activeTheme := if themeId ≥ themeCount then 0 else themeId } := .of_eq rfl rfl rfl
  exact htheme.trans ((hdesk _ _).trans ((hterm _ _).trans
    ((hfound _ _ _).trans ((hfound _ _ _).trans (hcolors _ _ _ _ _)))))

theorem openWindow_carried (u : Ui) (focus : Ui → Option Nat) (hi : i < winCount) :
    Carried (some i) u (openWindow u i focus) := by
  have hshow : Carried (some i) u (u.setWindow i { u.windows i with visible := true }) :=
    .setWindow rfl
  exact (hshow.trans (.raise _ hi)).trans (.of_eq rfl rfl rfl)

theorem chooseMenuItem_carried (u : Ui) (item : Int) :
    Carried (menuRaises u item) u (chooseMenuItem u item) := by
  rw [chooseMenuItem, menuRaises]
  split
  · split
    · next ti he =>
      have hmem := List.mem_of_find?_eq_some he
      rw [List.mem_range'_1] at hmem
      rw [he]
      exact openWindow_carried u _ (Nat.lt_of_lt_of_le hmem.2 (by decide))
    · exact .of_eq rfl rfl rfl
  · split
    · split
      · next si he =>
        rw [he]
        exact openWindow_carried u _ (findWindowByRole_lt he)
      · exact .refl _ u
    · split
      · split
        · next pi he =>
          rw [he]
          exact openWindow_carried u _ (findWindowByRole_lt he)
        · exact .refl _ u
      · exact .refl _ u

theorem refocus_carried (u : Ui) (session : Option Nat) : Carried raised u (refocus u session) :=
  (refocus_drawn u session).carried

theorem closeFront_carried (u : Ui) : Carried raised u (closeFront u) := by
  refine Carried.trans ?_ (refocus_carried _ _)
  refine .of_keys (setWindow_keys rfl) ?_ rfl
  dsimp only [dropWindow]
  split
  · exact .inr rfl
  · exact .inl rfl

theorem killSelected_carried (u : Ui) : Carried raised u (processManagerKillSelected u) := by
  rw [processManagerKillSelected]
  split
  · exact .refl _ u
  · next i _ =>
    split
    · exact .refl _ u
    · have hkill : ∀ v : Ui, Carried raised u v → Carried raised u
          { refocus v (terminalSessionFromWindow (u.windows i)) with pmSelectedIndex := none } :=
        fun v hv => (hv.trans (refocus_carried v _)).trans (.of_keys (fun _ => rfl) (.inr rfl) rfl)
      apply hkill
      split
      · exact .of_keys (setWindow_keys rfl) (.inl rfl) rfl
      · exact .refl _ u

theorem grabFront_carried (u : Ui) (x y : Int) : Carried raised u (grabFront u x y) := by
  simp only [grabFront]
  split <;> split <;> try split
  all_goals exact .of_eq rfl rfl rfl

theorem sampleUsage_carried (u : Ui) : Carried raised u (sampleUsage u) := by
  have hsample : Carried raised u u.updateProcessUsageSample := by
    rw [updateProcessUsageSample]
    split
    · exact .of_eq rfl rfl rfl
    · exact .refl _ u
  simp only [sampleUsage]
  split <;> split
  · exact hsample.trans (.of_eq rfl rfl rfl)
  · exact hsample
  · exact .of_eq rfl rfl rfl
  · exact .refl _ u

theorem showSession_carried (u : Ui) (session : Nat) {makeVisible : Bool}
    (h : makeVisible = true → raised = some (winTerminalFirst + session)) :
    Carried raised u (showSessionWindow u session makeVisible) := by
  simp only [showSessionWindow]
  split
  · next hwi =>
    have hlt : winTerminalFirst + session < winCount := Nat.lt_of_le_of_lt hwi.2 (by decide)
    have hshow : Carried raised u (u.setWindow (winTerminalFirst + session)
        { u.windows (winTerminalFirst + session) with visible := makeVisible }) := .setWindow rfl
    split
    · next hvisible =>
      rw [h hvisible] at hshow ⊢
      exact (hshow.trans (.raise _ hlt)).trans (.of_eq rfl rfl rfl)
    · exact hshow
  · exact .refl _ u

end Carried

section Refreshing

variable {d : Display} {raised : Option Nat}

theorem redrawHidden_carried (d : Display) : Carried raised d.ui d.redrawHidden.ui :=
  (renderScene_drawn d.mouseHideCursor.geo d.ui).carried

theorem Carried.hidden {u : Ui} (h : Carried raised d.ui u) :
    Carried raised d.ui { d with ui := u }.redrawHidden.ui :=
  h.trans (redrawHidden_carried { d with ui := u })

theorem redraw_carried (d : Display) (u : Ui) : Carried raised u { d with ui := u }.redraw.ui :=
  redrawHidden_carried { d with ui := u }

/-- The scene is drawn after the event. -/
theorem Carried.redrawn {u : Ui} (h : Carried raised d.ui u) :
    Carried raised d.ui { d with ui := u }.redraw.ui := h.hidden

theorem spawnTask_fst (d : Display) (session : Nat) :
    (d.spawnTerminalTaskForSession session).1 =
      if session ≥ winTerminalSlots then none
      else (d.sched.schedulerCreateTask cliTaskEntry session.toUInt32 .kernel).1 := by
  simp only [spawnTerminalTaskForSession]
  split
  · rfl
  · split
    · next he => rw [he]
    · next he => rw [he]

theorem spawnTask_carried (d : Display) (session : Nat) :
    Carried raised d.ui (d.spawnTerminalTaskForSession session).2.ui := by
  simp only [spawnTerminalTaskForSession]
  split
  · exact .refl _ d.ui
  · split
    · exact .refl _ d.ui
    · refine ⟨fun _ _ _ => rfl, .inl rfl, fun s hs => ?_⟩
      by_cases hsession : s = session
      · simp [hsession]
      · simpa [hsession] using hs

theorem create_carried (d : Display) {makeVisible : Bool}
    (h : makeVisible = true → raised = d.createRaises) :
    Carried raised d.ui (d.displayCreateTerminalSession makeVisible).2.ui := by
  simp only [displayCreateTerminalSession]
  split
  · exact .refl _ d.ui
  · next session hs =>
    have hspawn : Carried raised d.ui (d.spawnTerminalTaskForSession session).2.ui :=
      spawnTask_carried d session
    split
    · exact hspawn
    · next hsome =>
      have hraised : makeVisible = true → raised = some (winTerminalFirst + session) := by
        intro hvisible
        rw [h hvisible]
        simp [createRaises, hs, hsome]
      have hset : ∀ (u : Ui) (ts : TerminalState), Carried raised u
          { showSessionWindow (u.setTerminal session ts) session makeVisible with
            forceFullRedraw := true } := by
        intro u ts
        exact ((setTerminal_drawn u session ts).carried.trans
          (showSession_carried _ session hraised)).trans (.of_eq rfl rfl rfl)
      exact hspawn.trans (hset _ _)

theorem spawnPending_carried (d : Display) : Carried d.refreshRaises d.ui d.spawnPending.ui := by
  rw [spawnPending, refreshRaises]
  split
  · have hclear : Carried d.createRaises d.ui { d.ui with pendingTerminalSpawn := false } :=
      .of_eq rfl rfl rfl
    have hsame : createRaises { d with ui := { d.ui with pendingTerminalSpawn := false } } =
        d.createRaises := by
      simp only [createRaises, spawnTask_fst]
    exact hclear.trans (create_carried _ fun _ => hsame.symm)
  · exact .refl _ d.ui

theorem refreshPanic_carried (d : Display) : Carried raised d.ui d.refreshPanic.ui := by
  have hrender : Carried raised d.ui (gfxRenderPanicFull d.geo d.ui d.tid).2 :=
    (renderPanic_drawn d.geo d.ui d.tid).carried
  have hclear : ∀ (g : Geometry) (u : Ui) (tid : Option Nat), Carried raised u
      { clearVisibleTextDirty g u tid with forceFullRedraw := false, prevCursor := none } :=
    fun g u tid => (clearDirty_drawn g u tid).carried.trans (.of_eq rfl rfl rfl)
  exact hrender.trans (hclear _ _ _)

theorem refreshFull_carried (d : Display) (s : Nat) : Carried raised d.ui (d.refreshFull s).ui := by
  have hrender : Carried raised d.ui (gfxRenderFull d.geo d.ui d.tid).2 :=
    (renderFull_drawn d.geo d.ui d.tid).carried
  have hclear : ∀ (g : Geometry) (u : Ui) (tid : Option Nat) (cursor : Option (Nat × Nat)),
      Carried raised u
        { clearVisibleTextDirty g u tid with forceFullRedraw := false, prevCursor := cursor } :=
    fun g u tid cursor => (clearDirty_drawn g u tid).carried.trans (.of_eq rfl rfl rfl)
  exact hrender.trans (hclear _ _ _ _)

theorem refreshIncremental_carried (d : Display) :
    Carried raised d.ui d.gfxRefreshTerminalIncremental.ui :=
  (incrementalRender_drawn d.mouseHideCursor.geo d.ui d.tid).carried

theorem refresh_carried (d : Display) : Carried d.refreshRaises d.ui d.displayRefresh.ui := by
  have hclamp : ∀ (raised : Option Nat) (d : Display) (s : Nat),
      Carried raised d.ui (d.clampSession s).ui :=
    fun raised d s => (setTerminal_drawn _ _ _).carried
  have hhead := (spawnPending_carried d).trans
    (hclamp _ d.spawnPending (d.ui.terminalStateForTaskIo d.tid))
  simp only [displayRefresh]
  generalize d.spawnPending.clampSession (d.ui.terminalStateForTaskIo d.tid) = c at hhead ⊢
  split
  · exact hhead
  · split
    · exact hhead.trans (refreshPanic_carried c)
    · have hsample := hhead.trans (sampleUsage_carried c.ui)
      split
      · exact hsample.trans (refreshFull_carried { c with ui := sampleUsage c.ui } _)
      · exact hsample.trans (refreshIncremental_carried { c with ui := sampleUsage c.ui })

end Refreshing

section Clicks

variable {d d' : Display} {u : Ui} {w : GuiWindow} {raised : Option Nat} {x y : Int}
  {buttons : UInt8} {hit i s : Nat}

theorem moveWindow_carried (d : Display) {w : GuiWindow} (h : w.key = (d.ui.windows i).key)
    (changed : Bool) : Carried raised d.ui (d.moveWindow i w changed).ui := by
  rw [moveWindow]
  split
  · exact (Carried.setWindow h).redrawn
  · exact .refl _ d.ui

theorem dragMove_carried (d : Display) (x y : Int) (buttons : UInt8) :
    Carried raised d.ui (d.dragMove x y buttons).ui := by
  rw [dragMove]
  split
  · exact .refl _ d.ui
  · split
    · apply moveWindow_carried
      rfl
    · exact .refl _ d.ui

theorem resizeMove_carried (d : Display) (x y : Int) (buttons : UInt8) :
    Carried raised d.ui (d.resizeMove x y buttons).ui := by
  rw [resizeMove]
  split
  · exact .refl _ d.ui
  · split
    · apply moveWindow_carried
      rfl
    · exact .refl _ d.ui

theorem releaseLeft_carried (d : Display) (buttons : UInt8) :
    Carried raised d.ui (d.releaseLeft buttons).ui := by
  have hdrop : ∀ u : Ui, Carried raised u { u with dragWindow := none, resizeWindow := none } :=
    fun u => .of_eq rfl rfl rfl
  have hstop : ∀ d : Display, Carried raised d.ui
      { d with ui := { d.ui with interactiveMoveActive := false } }.redrawHidden.ui := by
    intro d
    exact Carried.hidden (.of_eq rfl rfl rfl)
  simp only [releaseLeft]
  split
  · split
    · exact (hstop d).trans (hdrop _)
    · exact hdrop d.ui
  · exact .refl _ d.ui

theorem handleClick_eq (u : Ui) (w : GuiWindow) (x y : Int) :
    processManagerHandleClick u w x y =
      if w.role ≠ .processManager then none
      else if processManagerKillButtonHit u.font w x y then some (processManagerKillSelected u)
      else (u.rowAt w x y).map fun i => { u with pmSelectedIndex := some i } := by
  simp only [processManagerHandleClick, rowAt]
  split
  · rfl
  · split
    · rfl
    · split
      · rfl
      · rw [Option.map_map]
        rfl

theorem handleClick_row (hrole : w.role = .processManager)
    (hkill : processManagerKillButtonHit u.font w x y = false) (hat : u.rowAt w x y = some i) :
    processManagerHandleClick u w x y = some { u with pmSelectedIndex := some i } := by
  rw [handleClick_eq, if_neg (not_not.mpr hrole), hkill, if_neg Bool.false_ne_true, hat]
  rfl

theorem handleClick_kill (hrole : w.role = .processManager)
    (hkill : processManagerKillButtonHit u.font w x y = true) :
    processManagerHandleClick u w x y = some (processManagerKillSelected u) := by
  rw [handleClick_eq, if_neg (not_not.mpr hrole), if_pos hkill]

/-- The window of a row is that of a session with a task. -/
theorem rowAt_running (h : u.rowAt w x y = some i) :
    winTerminalFirst ≤ i ∧ i < winCount ∧ ∃ s, terminalSessionFromWindow (u.windows i) = some s ∧
      (u.windows i).key = (.terminal, s) ∧ (u.taskIds s).isSome = true := by
  simp only [rowAt] at h
  split at h
  · cases h
  · obtain ⟨r, hfound, rfl⟩ := Option.map_eq_some_iff.mp h
    have hrow := (List.mem_zipIdx' (List.mem_of_find?_eq_some hfound)).2
    have hmem : r.1 ∈ u.buildRunningProcessList := hrow ▸ List.getElem_mem _
    rw [buildRunningProcessList, List.mem_filter, List.mem_range'_1] at hmem
    obtain ⟨⟨hlow, hhigh⟩, hrunning⟩ := hmem
    simp only [decide_eq_true_eq] at hrunning
    obtain ⟨-, -, htask⟩ := hrunning
    refine ⟨hlow, hhigh, ?_⟩
    rw [hasTask] at htask
    split at htask
    · next s hs => exact ⟨s, hs, terminalSession_key hs, htask⟩
    · cases htask

theorem bring_eq (u : Ui) (hit : Nat) :
    (if hit ≠ winCount - 1 then u.bringWindowToFront hit else u) = u.bringWindowToFront hit := by
  by_cases h : hit = winCount - 1
  · subst h
    rfl
  · rw [if_pos h]

theorem bring_front (u : Ui) (hfirst : winTerminalFirst ≤ hit) (hlt : hit < winCount) :
    (u.bringWindowToFront hit).windows (winCount - 1) = u.windows hit :=
  bringToFront_front hfirst hlt

theorem clickWindow_eq (d : Display) (hfirst : winTerminalFirst ≤ hit) (hlt : hit < winCount) :
    d.clickWindow hit x y =
      d.frontClicked (d.ui.bringWindowToFront hit) (d.ui.windows hit) x y := by
  simp only [clickWindow, bring_eq, bring_front d.ui hfirst hlt]
  rfl

theorem clickWindow_manager (d : Display) (hfirst : winTerminalFirst ≤ hit) (hlt : hit < winCount)
    (hrole : (d.ui.windows hit).role = .processManager)
    (hclose : windowCloseButtonHit (d.ui.windows hit) x y = false) {u : Ui}
    (hclick : processManagerHandleClick (d.ui.bringWindowToFront hit) (d.ui.windows hit) x y =
      some u) : d.clickWindow hit x y = ({ d with ui := u }.redraw, true) := by
  have hsettings : ¬(d.ui.windows hit).role = .settings := by
    rw [hrole]
    decide
  rw [clickWindow_eq d hfirst hlt]
  simp only [frontClicked, hclose, hclick, if_neg hsettings, Bool.false_eq_true, if_false]

/-- Apart from a click on a row. -/
theorem clickWindow_carried (d : Display) (hfirst : winTerminalFirst ≤ hit) (hlt : hit < winCount)
    (hrow : (d.ui.windows hit).role = .processManager →
      windowCloseButtonHit (d.ui.windows hit) x y = false →
      processManagerKillButtonHit d.ui.font (d.ui.windows hit) x y = false →
      (d.ui.bringWindowToFront hit).rowAt (d.ui.windows hit) x y = none) :
    Carried (some hit) d.ui (d.clickWindow hit x y).1.ui := by
  have hraise : Carried (some hit) d.ui (d.ui.bringWindowToFront hit) := .raise d.ui hlt
  rw [clickWindow_eq d hfirst hlt, frontClicked]
  split
  · exact (hraise.trans (closeFront_carried _)).redrawn
  · next hclose =>
    split
    · exact (hraise.trans (applyTheme_carried _ _)).redrawn
    · rw [handleClick_eq]
      by_cases hrole : (d.ui.windows hit).role = .processManager
      · rw [if_neg (not_not.mpr hrole)]
        cases hkill : processManagerKillButtonHit d.ui.font (d.ui.windows hit) x y with
        | true =>
          rw [show (d.ui.bringWindowToFront hit).font = d.ui.font from rfl, if_pos hkill]
          exact (hraise.trans (killSelected_carried _)).redrawn
        | false =>
          rw [show (d.ui.bringWindowToFront hit).font = d.ui.font from rfl,
            if_neg (by simp [hkill]), hrow hrole (by simpa using hclose) hkill]
          exact (hraise.trans (grabFront_carried _ x y)).hidden
      · rw [if_pos hrole]
        exact (hraise.trans (grabFront_carried _ x y)).hidden

theorem menuShut_drawn (d : Display) :
    ∃ isOpen, Drawn { d.ui with startMenuOpen := isOpen } d.menuShut.ui := by
  rw [menuShut]
  split
  · exact ⟨false, renderScene_drawn d.mouseHideCursor.geo { d.ui with startMenuOpen := false }⟩
  · exact ⟨d.ui.startMenuOpen, .refl d.ui⟩

theorem menuShut_carried (d : Display) : Carried raised d.ui d.menuShut.ui := by
  obtain ⟨isOpen, hdrawn⟩ := menuShut_drawn d
  have hmenu : Carried raised d.ui { d.ui with startMenuOpen := isOpen } := .of_eq rfl rfl rfl
  exact hmenu.trans hdrawn.carried

theorem menuShut_windows (d : Display) : d.menuShut.ui.windows = d.ui.windows := by
  obtain ⟨isOpen, hdrawn⟩ := menuShut_drawn d
  exact hdrawn.windows

theorem pressLeft_eq (d : Display) (x y : Int) : d.pressLeft x y =
    match d.pressTarget x y with
    | .startButton =>
      ({ d with ui := { d.ui with startMenuOpen := !d.ui.startMenuOpen } }.redraw, true)
    | .menuItem item =>
      ({ d with ui := { chooseMenuItem d.ui item with startMenuOpen := false } }.redraw, true)
    | .window hit => d.menuShut.clickWindow hit x y
    | .nothing => (d.menuShut, false) := by
  rw [pressLeft, pressTarget]
  by_cases hstart : startButtonHit d.geo x y = true
  · simp only [if_pos hstart]
  · simp only [if_neg hstart]
    by_cases hopen : d.ui.startMenuOpen = true
    · simp only [if_pos hopen]
      by_cases hmenu : startMenuHit d.geo x y = true
      · simp only [if_pos hmenu, if_pos (And.intro hopen hmenu)]
      · have hnot : ¬(d.ui.startMenuOpen = true ∧ startMenuHit d.geo x y = true) :=
          fun h => hmenu h.2
        have hshut : { d with ui := { d.ui with startMenuOpen := false } }.redraw = d.menuShut :=
          (if_pos hopen).symm
        simp only [if_neg hmenu, if_neg hnot]
        rw [hshut, clickWindows, menuShut_windows]
        cases guiFindTopmostVisibleAt d.ui.windows winCount winTerminalFirst x y false <;> rfl
    · have hnot : ¬(d.ui.startMenuOpen = true ∧ startMenuHit d.geo x y = true) :=
        fun h => hopen h.1
      have hshut : d.clickWindows x y = d.menuShut.clickWindows x y := by
        rw [menuShut, if_neg hopen]
      simp only [if_neg hopen, if_neg hnot]
      rw [hshut, clickWindows, menuShut_windows]
      cases guiFindTopmostVisibleAt d.ui.windows winCount winTerminalFirst x y false <;> rfl

/-- Only a window over the desktop is pressed. -/
theorem pressTarget_window (h : d.pressTarget x y = .window hit) :
    winTerminalFirst ≤ hit ∧ hit < winCount := by
  rw [pressTarget] at h
  split at h
  · cases h
  · split at h
    · cases h
    · split at h
      · next he =>
        cases h
        have hmem := List.mem_of_find?_eq_some he
        rw [indicesDown, List.mem_reverse, List.mem_range'_1] at hmem
        exact ⟨hmem.1, Nat.lt_of_lt_of_le hmem.2 (by decide)⟩
      · cases h

theorem rowPressed_none (hpressed : d.pressed x y buttons = .window hit)
    (hrow : d.rowPressed x y buttons = none)
    (hrole : (d.ui.windows hit).role = .processManager)
    (hclose : windowCloseButtonHit (d.ui.windows hit) x y = false)
    (hkill : processManagerKillButtonHit d.ui.font (d.ui.windows hit) x y = false) :
    (d.ui.bringWindowToFront hit).rowAt (d.ui.windows hit) x y = none := by
  have hfont : (d.ui.bringWindowToFront hit).font = d.ui.font := rfl
  simp only [rowPressed, managerClicked, managerPressed, hpressed, if_pos hrole, Option.filter,
    hclose, Bool.not_false, if_true, Option.bind_some, hfont, hkill, Bool.false_eq_true,
    if_false] at hrow
  cases hat : (d.ui.bringWindowToFront hit).rowAt (d.ui.windows hit) x y with
  | none => rfl
  | some i =>
    obtain ⟨-, -, s, hs, -⟩ := rowAt_running hat
    simp [hat, hs] at hrow

/-- Shutting the menu leaves the rows where they are. -/
theorem menuShut_rowAt (d : Display) (hit : Nat) (w : GuiWindow) (x y : Int) :
    (d.menuShut.ui.bringWindowToFront hit).rowAt w x y =
      (d.ui.bringWindowToFront hit).rowAt w x y := by
  obtain ⟨isOpen, hdrawn⟩ := menuShut_drawn d
  obtain ⟨_, _, _, _, _, -, he⟩ := hdrawn
  rw [he]
  rfl

theorem menuShut_font (d : Display) : d.menuShut.ui.font = d.ui.font := by
  obtain ⟨isOpen, hdrawn⟩ := menuShut_drawn d
  exact hdrawn.font

theorem menu_carried (u : Ui) (isOpen : Bool) : Carried raised u { u with startMenuOpen := isOpen } :=
  .of_eq rfl rfl rfl

theorem press_carried (h : d.rowPressed x y buttons = none) :
    Carried (d.pressRaises x y buttons) d.ui (d.press x y buttons).1.ui := by
  rw [press, pressRaises]
  by_cases hdown : leftDown buttons = true ∧ leftDown d.prevButtons = false
  · have hpressed : d.pressed x y buttons = d.pressTarget x y := if_pos hdown
    rw [if_pos hdown, hpressed, pressLeft_eq]
    cases htarget : d.pressTarget x y with
    | nothing => exact menuShut_carried d
    | startButton => exact (menu_carried d.ui _).redrawn
    | menuItem item => exact ((chooseMenuItem_carried d.ui item).trans (menu_carried _ _)).redrawn
    | window hit =>
      obtain ⟨hfirst, hlt⟩ := pressTarget_window htarget
      refine (menuShut_carried d).trans (clickWindow_carried d.menuShut hfirst hlt ?_)
      rw [menuShut_windows, menuShut_font, menuShut_rowAt]
      exact rowPressed_none (hpressed.trans htarget) h
  · have hpressed : d.pressed x y buttons = .nothing := if_neg hdown
    rw [if_neg hdown, hpressed]
    exact .refl _ d.ui

/-- What follows on the press moves no window to another index. -/
theorem mouseEvent_press (d : Display) (x y : Int) (buttons : UInt8) :
    Carried raised (d.press x y buttons).1.ui (d.displayHandleMouseEvent x y buttons).ui := by
  rw [displayHandleMouseEvent, ← press]
  generalize d.press x y buttons = r
  have hbuttons : ∀ d : Display, Carried raised d.ui { d with prevButtons := buttons }.ui :=
    fun d => .refl raised d.ui
  refine Carried.trans ?_ (hbuttons _)
  split
  · exact .refl _ r.1.ui
  · exact ((dragMove_carried r.1 x y buttons).trans (resizeMove_carried _ x y buttons)).trans
      (releaseLeft_carried _ buttons)

theorem mouseEvent_carried (h : d.rowPressed x y buttons = none) :
    Carried (d.pressRaises x y buttons) d.ui (d.displayHandleMouseEvent x y buttons).ui :=
  (press_carried h).trans (mouseEvent_press d x y buttons)

end Clicks

section Events

variable {d : Display} {e : DisplayEvent} {raised : Option Nat}

theorem setButton_pointed (d : Display) (p : Pointer) (pressed : Bool) (hg : d.graphics = true) :
    { d with screen := { d.screen with pointer := p } }.displaySetButtonPressed pressed =
      d.pointed p pressed := by
  rw [displaySetButtonPressed]
  split
  · rw [if_neg (by simp [hg])]
    rfl
  · next hsame =>
    rw [not_not] at hsame
    rw [← hsame]
    rfl

/-- A packet does with the windows what its mouse event does. -/
theorem mouseCall_handled {x y : Int} {buttons : UInt8}
    (h : d.mouseCall e = some (x, y, buttons)) : ∃ p pressed, (displayNext d e).ui =
      ((d.pointed p pressed).displayHandleMouseEvent x y buttons).ui := by
  cases e with
  | mouse x' y' buttons' =>
    cases h
    exact ⟨d.screen.pointer, d.ui.buttonPressed, rfl⟩
  | packet status dx dy =>
    simp only [mouseCall] at h
    split at h
    · cases h
    · next hcall =>
      obtain ⟨hstatus, hg⟩ := not_or.mp hcall
      rw [Bool.not_eq_false] at hg
      cases h
      refine ⟨movePointer d.geo d.screen.pointer status dx dy,
        buttonHit (movePointer d.geo d.screen.pointer status dx dy), ?_⟩
      simp only [displayNext, mouseProcessPacket, if_neg hstatus, if_pos hg,
        setButton_pointed d _ _ hg]
  | _ => cases h

theorem requestRefresh_carried (d : Display) :
    Carried (d.requested.bind refreshRaises) d.ui d.displayRequestRefresh.ui := by
  rw [displayRequestRefresh, requested]
  split
  · exact .of_eq rfl rfl rfl
  · exact refresh_carried d

theorem putChar_carried (d : Display) (c : UInt8) :
    Carried raised d.ui (d.displayPutCharInternal c).ui := .of_eq rfl rfl rfl

theorem putChars_carried (s : List UInt8) (d : Display) :
    Carried raised d.ui (s.foldl displayPutCharInternal d).ui := by
  induction s generalizing d with
  | nil => exact .refl _ d.ui
  | cons c s ih => exact (putChar_carried d c).trans (ih _)

theorem print_carried (d : Display) (s : List UInt8) :
    Carried ((d.refreshedBy (.print s)).bind refreshRaises) d.ui (d.displayPrint s).ui := by
  simp only [displayPrint, refreshedBy]
  split
  · exact putChars_carried _ d
  · exact (putChars_carried _ d).trans (requestRefresh_carried _)

theorem endUpdate_carried (d : Display) :
    Carried ((d.refreshedBy .endUpdate).bind refreshRaises) d.ui d.displayEndUpdate.ui := by
  have hdefer : ∀ (depth : UInt32) (pending : Bool) (raised : Option Nat), Carried raised d.ui
      { d.ui with refreshDeferDepth := depth, refreshPending := pending } :=
    fun depth pending raised => .of_eq rfl rfl rfl
  simp only [displayEndUpdate]
  split
  · exact .refl _ d.ui
  · split
    · next hrefresh =>
      have hlast : d.ui.refreshDeferDepth - 1 = 0 := hrefresh.1
      have hone : d.ui.refreshDeferDepth = 1 := sub_eq_zero.mp hlast
      have hcond : d.ui.refreshDeferDepth = 1 ∧ d.ui.refreshPending = true := ⟨hone, hrefresh.2⟩
      rw [refreshedBy, if_pos hcond, hlast]
      exact (hdefer 0 false _).trans (refresh_carried _)
    · exact hdefer (d.ui.refreshDeferDepth - 1) d.ui.refreshPending _

theorem clear_carried (d : Display) :
    Carried ((d.refreshedBy .clear).bind refreshRaises) d.ui d.displayClear.ui := by
  have hblank : ∀ (s : Nat) (ts : TerminalState) (raised : Option Nat),
      Carried raised d.ui { d.ui.setTerminal s ts with forceFullRedraw := true } :=
    fun s ts raised => .of_eq rfl rfl rfl
  exact (hblank _ _ _).trans (refresh_carried _)

theorem setCursor_carried (d : Display) (row col : Nat) :
    Carried ((d.refreshedBy (.setCursor row col)).bind refreshRaises) d.ui
      (d.displaySetCursor row col).ui := by
  have hset : ∀ (s : Nat) (ts : TerminalState) (raised : Option Nat),
      Carried raised d.ui (d.ui.setTerminal s ts) := fun s ts raised => .of_eq rfl rfl rfl
  exact (hset _ _ _).trans (requestRefresh_carried _)

/-- Apart from a click on a row. -/
theorem next_carried (h : d.rowClicked e = none) :
    Carried (d.raisedBy e) d.ui (displayNext d e).ui := by
  unfold raisedBy
  cases hcall : d.mouseCall e with
  | some call =>
    obtain ⟨x, y, buttons⟩ := call
    obtain ⟨p, pressed, he⟩ := mouseCall_handled hcall
    have hrow : (d.pointed p pressed).rowPressed x y buttons = none := by
      rw [rowClicked, hcall] at h
      exact h
    have hpointed : Carried (d.pressRaises x y buttons) d.ui (d.pointed p pressed).ui :=
      .of_eq rfl rfl rfl
    rw [he]
    exact hpointed.trans (mouseEvent_carried hrow)
  | none =>
    cases e with
    | create makeVisible =>
      cases makeVisible with
      | true => exact create_carried d fun _ => rfl
      | false => exact create_carried d nofun
    | getFocused => exact (ensureFocus_drawn d.ui).carried
    | refresh => exact refresh_carried d
    | mouse x y buttons => cases hcall
    | packet status dx dy =>
      simp only [mouseCall] at hcall
      split at hcall
      · next hcond =>
        simp only [displayNext, mouseProcessPacket]
        split
        · exact .refl _ d.ui
        · next hstatus =>
          have hg : d.graphics = false := hcond.resolve_left hstatus
          rw [if_neg (by simp [hg])]
          exact .refl _ d.ui
      · cases hcall
    | beginUpdate => exact .of_eq rfl rfl rfl
    | endUpdate => exact endUpdate_carried d
    | clear => exact clear_carried d
    | putChar c => exact (putChar_carried d c).trans (requestRefresh_carried _)
    | print s => exact print_carried d s
    | setCursor row col => exact setCursor_carried d row col
    | schedule s => exact .refl _ d.ui

end Events

end VertexOS
