import VertexOS.Video.Selection
import VertexOS.Video.Usable

namespace VertexOS
open Ui Display Library.Transitions

/-- The selected index is that of the window whose row was clicked last. -/
def Remembers (u : Ui) (clicked : Option Nat) : Prop :=
  ∀ i ∈ u.pmSelectedIndex, winTerminalFirst ≤ i ∧ i < winCount ∧
    ∃ s ∈ clicked, terminalSessionFromWindow (u.windows i) = some s ∧
      (u.taskIds s).isSome = true

/-- A step of the display, beside the session whose row was clicked last. -/
def ClickStep (p : Display × Option Nat) (e : DisplayEvent) (p' : Display × Option Nat) : Prop :=
  p' = (displayNext p.1 e, (p.1.rowClicked e).or p.2)

/-- A step that leaves the selected window at its index. -/
def SteadyStep (p : Display × Option Nat) (e : DisplayEvent) (p' : Display × Option Nat) : Prop :=
  p.1.Steady e ∧ ClickStep p e p'

/-- The window is as it was, or it is that of the session and hidden. -/
def SameOrHidden (clicked : Option Nat) (w w' : GuiWindow) : Prop :=
  w' = w ∨ ∃ s ∈ clicked, w.key = (.terminal, s) ∧ w' = { w with visible := false }

/-- KILL hides the window of the session whose row was clicked last, and nothing else. -/
structure KillsSelected (u u' : Ui) (clicked : Option Nat) : Prop where
  windows : Reordered (SameOrHidden clicked) u.windows u'.windows
  hidden : u.pmSelectedIndex ≠ none → ∀ s ∈ clicked, ∀ i < winCount,
    (u'.windows i).key = (.terminal, s) → (u'.windows i).visible = false
  nothing : (∀ s ∈ clicked, ∀ i < winCount, (u.windows i).key = (.terminal, s) →
    (u.windows i).visible = false) → Reordered (fun w w' => w' = w) u.windows u'.windows

section Selection

variable {u u' : Ui} {d : Display} {raised clicked : Option Nat} {e : DisplayEvent} {x y : Int}
  {buttons : UInt8} {hit s i : Nat}

theorem terminalSession_congr {w w' : GuiWindow} (h : w'.key = w.key) :
    terminalSessionFromWindow w' = terminalSessionFromWindow w := by
  obtain ⟨hrole, hslot⟩ := Prod.ext_iff.mp h
  simp only [GuiWindow.key] at hrole hslot
  rw [terminalSessionFromWindow, terminalSessionFromWindow, hrole, hslot]

theorem Remembers.carried (h : Remembers u clicked) (hc : Carried raised u u')
    (hraised : ∀ i ∈ u.pmSelectedIndex, ∀ r ∈ raised, i < r ∨ r = winCount - 1) :
    Remembers u' clicked := by
  intro i hi
  rcases hc.selected with hsame | hnone
  · rw [hsame] at hi
    obtain ⟨hfirst, hlt, s, hs, hsession, htask⟩ := h i hi
    refine ⟨hfirst, hlt, s, hs, ?_, hc.tasks s htask⟩
    rw [terminalSession_congr (hc.windows i hlt (hraised i hi)), hsession]
  · rw [hnone] at hi
    cases hi

/-- What raises no window keeps the selection. -/
theorem Remembers.kept (h : Remembers u clicked) (hc : Carried none u u') : Remembers u' clicked :=
  h.carried hc nofun

theorem managerPressed_some (h : d.managerPressed x y buttons = some hit) :
    d.pressed x y buttons = .window hit ∧ (d.ui.windows hit).role = .processManager := by
  rw [managerPressed] at h
  split at h
  · next he =>
    split at h
    · next hrole =>
      cases h
      exact ⟨he, hrole⟩
    · cases h
  · cases h

theorem managerClicked_some (h : d.managerClicked x y buttons = some hit) :
    d.pressed x y buttons = .window hit ∧ (d.ui.windows hit).role = .processManager ∧
      windowCloseButtonHit (d.ui.windows hit) x y = false := by
  obtain ⟨hpressed, hclose⟩ := Option.filter_eq_some_iff.mp h
  obtain ⟨he, hrole⟩ := managerPressed_some hpressed
  exact ⟨he, hrole, by simpa using hclose⟩

theorem pressed_window (h : d.pressed x y buttons = .window hit) :
    (leftDown buttons = true ∧ leftDown d.prevButtons = false) ∧
      d.pressTarget x y = .window hit := by
  rw [pressed] at h
  split at h
  · next hdown => exact ⟨hdown, h⟩
  · cases h

theorem press_window (h : d.pressed x y buttons = .window hit) :
    d.press x y buttons = d.menuShut.clickWindow hit x y := by
  obtain ⟨hdown, htarget⟩ := pressed_window h
  rw [press, if_pos hdown, pressLeft_eq, htarget]

/-- A click that the process manager handles. -/
theorem press_manager (h : d.managerClicked x y buttons = some hit)
    (hclick : processManagerHandleClick (d.menuShut.ui.bringWindowToFront hit) (d.ui.windows hit)
      x y = some u) : d.press x y buttons = ({ d.menuShut with ui := u }.redraw, true) := by
  obtain ⟨hpressed, hrole, hclose⟩ := managerClicked_some h
  obtain ⟨hfirst, hlt⟩ := pressTarget_window (pressed_window hpressed).2
  rw [press_window hpressed]
  rw [← menuShut_windows d] at hrole hclose hclick
  exact clickWindow_manager d.menuShut hfirst hlt hrole hclose hclick

theorem rowPressed_some (h : d.rowPressed x y buttons = some s) :
    ∃ hit i, d.managerClicked x y buttons = some hit ∧
      processManagerKillButtonHit d.ui.font (d.ui.windows hit) x y = false ∧
      (d.ui.bringWindowToFront hit).rowAt (d.ui.windows hit) x y = some i ∧
      terminalSessionFromWindow ((d.ui.bringWindowToFront hit).windows i) = some s := by
  obtain ⟨hit, hclicked, hrow⟩ := Option.bind_eq_some_iff.mp h
  dsimp only at hrow
  split at hrow
  · cases hrow
  · next hkill =>
    obtain ⟨i, hat, hs⟩ := Option.bind_eq_some_iff.mp hrow
    exact ⟨hit, i, hclicked, Bool.eq_false_of_not_eq_true hkill, hat, hs⟩

/-- A click on a row selects the window of the row. -/
theorem rowPressed_remembers (h : d.rowPressed x y buttons = some s) :
    Remembers (d.displayHandleMouseEvent x y buttons).ui (some s) := by
  obtain ⟨hit, i, hclicked, hkill, hat, hs⟩ := rowPressed_some h
  obtain ⟨-, hrole, -⟩ := managerClicked_some hclicked
  rw [← menuShut_rowAt] at hat
  rw [← menuShut_font] at hkill
  have hhandled := handleClick_row (u := d.menuShut.ui.bringWindowToFront hit) hrole hkill hat
  have hselected : Remembers
      { d.menuShut.ui.bringWindowToFront hit with pmSelectedIndex := some i } (some s) := by
    rintro j hj
    cases hj
    obtain ⟨hfirst, hlt, s', hs', -, htask⟩ := rowAt_running hat
    have hwindows : (d.menuShut.ui.bringWindowToFront hit).windows i =
        (d.ui.bringWindowToFront hit).windows i := by
      rw [bringWindowToFront, bringWindowToFront, menuShut_windows]
    have hsession := hwindows ▸ hs'
    rw [hs] at hsession
    cases hsession
    exact ⟨hfirst, hlt, s, rfl, hs', htask⟩
  have hpress := press_manager hclicked hhandled
  apply Remembers.kept _ (mouseEvent_press d x y buttons)
  rw [hpress]
  exact hselected.kept (redraw_carried d.menuShut _)

theorem Carried.unselected (h : Carried none u u') (hu : u.pmSelectedIndex = none) :
    u'.pmSelectedIndex = none := by
  rcases h.selected with hsame | hnone
  · rw [hsame, hu]
  · exact hnone

/-- Closing the process manager drops the selection. -/
theorem closed_unselected (hpressed : d.managerPressed x y buttons = some hit)
    (hclose : windowCloseButtonHit (d.ui.windows hit) x y = true) :
    (d.displayHandleMouseEvent x y buttons).ui.pmSelectedIndex = none := by
  obtain ⟨hwindow, hrole⟩ := managerPressed_some hpressed
  obtain ⟨hfirst, hlt⟩ := pressTarget_window (pressed_window hwindow).2
  rw [← menuShut_windows d] at hclose hrole
  have hdropped : (closeFront (d.menuShut.ui.bringWindowToFront hit)).pmSelectedIndex = none := by
    apply (refocus_carried _ _).unselected
    simp only [dropWindow, bring_front d.menuShut.ui hfirst hlt, hrole, true_or, if_true]
  apply (mouseEvent_press d x y buttons).unselected
  rw [press_window hwindow, clickWindow_eq d.menuShut hfirst hlt, frontClicked, if_pos hclose]
  exact (redraw_carried d.menuShut _).unselected hdropped

/-- A step that meets the condition keeps the selection on the window of the row. -/
theorem Remembers.next (h : Remembers d.ui clicked) (hsteady : d.Steady e) :
    Remembers (displayNext d e).ui ((d.rowClicked e).or clicked) := by
  cases hrow : d.rowClicked e with
  | some s =>
    obtain ⟨⟨x, y, buttons⟩, hcall, hpressed⟩ := Option.bind_eq_some_iff.mp hrow
    obtain ⟨p, pressed, he⟩ := mouseCall_handled hcall
    have hpointed : (d.pointed p pressed).rowPressed x y buttons = some s := hpressed
    rw [he]
    exact rowPressed_remembers hpointed
  | none =>
    cases hclosed : d.managerClosed e with
    | true =>
      obtain ⟨⟨x, y, buttons⟩, hcall, hmanager⟩ := (Option.any_eq_true _ _).mp hclosed
      obtain ⟨hit, hpressed, hclose⟩ := (Option.any_eq_true _ _).mp hmanager
      obtain ⟨p, pressed, he⟩ := mouseCall_handled hcall
      have hnone := closed_unselected (d := d.pointed p pressed) hpressed hclose
      intro i hi
      rw [he, hnone] at hi
      cases hi
    | false =>
      apply h.carried (next_carried hrow)
      intro i hi r hr
      rcases hsteady i hi r hr with hbelow | hfront | hclicked | hclose
      · exact .inl hbelow
      · exact .inr hfront
      · exact absurd hrow hclicked
      · rw [hclosed] at hclose
        cases hclose

end Selection

section Kill

variable {u u' : Ui} {d d' : Display} {clicked : Option Nat} {e : DisplayEvent} {x y : Int}
  {buttons : UInt8} {hit s i : Nat}

/-- A row is selected only while its terminal is running. -/
def SelectedRuns (u : Ui) : Prop := ∀ i ∈ u.pmSelectedIndex, i ∈ u.buildRunningProcessList

theorem Drawn.selectedRuns (h : Drawn u u') (hu : SelectedRuns u) : SelectedRuns u' := by
  obtain ⟨focused, selected, terminals, cursor, drawn, hselected, rfl⟩ := h
  rcases hselected with rfl | rfl
  · exact hu
  · exact nofun

theorem selectionChecked_runs (h : SelectedRuns u) : u.pmSelectionChecked = u := by
  rw [pmSelectionChecked]
  split
  · next i he =>
    have hruns : i ∈ u.buildRunningProcessList := h i he
    rw [if_neg fun hnot => hnot.2 hruns]
  · rfl

theorem renderWindow_selected (h : SelectedRuns u) (i : Nat) :
    (u.gfxRenderWindow i).2.pmSelectedIndex = u.pmSelectedIndex := by
  simp only [gfxRenderWindow]
  split
  · rfl
  · split
    · rfl
    · split
      · rfl
      · split
        · rfl
        · rfl
        · rw [selectionChecked_runs h]
        · rfl

theorem windowsFrom_selected (h : SelectedRuns u) (i left : Nat) :
    (renderWindowsFrom u i left).2.pmSelectedIndex = u.pmSelectedIndex := by
  induction left generalizing u i with
  | zero => rfl
  | succ left ih =>
    rw [← renderWindow_selected h i]
    exact ih ((renderWindow_drawn u i).selectedRuns h) (i + 1)

theorem activeUi_selected (u : Ui) :
    u.terminalStateForActiveUi.1.pmSelectedIndex = u.pmSelectedIndex := by
  have hfocus : u.ensureValidTerminalFocus.pmSelectedIndex = u.pmSelectedIndex := by
    rw [ensureValidTerminalFocus]
    split <;> rfl
  simp only [terminalStateForActiveUi]
  split <;> exact hfocus

/-- Drawing the scene drops no selection of a terminal that is running. -/
theorem redraw_selected (d : Display) (h : SelectedRuns u) :
    { d with ui := u }.redraw.ui.pmSelectedIndex = u.pmSelectedIndex :=
  (activeUi_selected _).trans (windowsFrom_selected h 0 winCount)

theorem menuShut_selected (h : SelectedRuns d.ui) :
    d.menuShut.ui.pmSelectedIndex = d.ui.pmSelectedIndex := by
  have hshut : SelectedRuns { d.ui with startMenuOpen := false } := h
  rw [menuShut]
  split
  · rw [redraw_selected d hshut]
  · rfl

/-- The window of the selected terminal runs while it is seen. -/
theorem Remembers.runs (h : Remembers u clicked)
    (hvisible : ∀ i ∈ u.pmSelectedIndex, (u.windows i).visible = true) : SelectedRuns u := by
  intro i hi
  obtain ⟨hfirst, hlt, s, -, hsession, htask⟩ := h i hi
  have hrole : (u.windows i).role = .terminal :=
    congrArg Prod.fst (terminalSession_key hsession)
  have hrunning : u.hasTask (u.windows i) = true := by
    rw [hasTask, hsession]
    exact htask
  rw [buildRunningProcessList, List.mem_filter, List.mem_range'_1]
  exact ⟨⟨hfirst, hlt⟩, decide_eq_true ⟨hrole, hvisible i hi, hrunning⟩⟩

theorem SameOrHidden.refl (clicked : Option Nat) (w : GuiWindow) : SameOrHidden clicked w w :=
  .inl rfl

theorem SameOrHidden.trans {w w' w'' : GuiWindow} (h : SameOrHidden clicked w w')
    (h' : SameOrHidden clicked w' w'') : SameOrHidden clicked w w'' := by
  rcases h with rfl | ⟨s, hs, hkey, rfl⟩
  · exact h'
  · rcases h' with rfl | ⟨-, -, -, rfl⟩
    · exact .inr ⟨s, hs, hkey, rfl⟩
    · exact .inr ⟨s, hs, hkey, rfl⟩

theorem SameOrHidden.key {w w' : GuiWindow} (h : SameOrHidden clicked w w') : w'.key = w.key := by
  rcases h with rfl | ⟨-, -, -, rfl⟩
  · rfl
  · rfl

theorem killSelected_none (h : u.pmSelectedIndex = none) : processManagerKillSelected u = u := by
  rw [processManagerKillSelected, h]

/-- KILL hides the window at the selected index. -/
theorem killSelected_some (h : u.pmSelectedIndex = some i) (hfirst : winTerminalFirst ≤ i)
    (hlt : i < winCount) : (processManagerKillSelected u).windows =
      Function.update u.windows i { u.windows i with visible := false } := by
  have hrange : ¬(i < winTerminalFirst ∨ i ≥ winCount) := by omega
  rw [processManagerKillSelected, h]
  simp only [if_neg hrange]
  rw [(refocus_drawn _ _).windows]
  split
  · rfl
  · next hhidden =>
    have hsame : { u.windows i with visible := false } = u.windows i := by
      rw [← Bool.eq_false_of_not_eq_true hhidden]
    rw [hsame, Function.update_eq_self]

/-- KILL hides the window that is remembered. -/
theorem killSelected_windows (h : Remembers u clicked) :
    Reordered (SameOrHidden clicked) u.windows (processManagerKillSelected u).windows := by
  cases hi : u.pmSelectedIndex with
  | none =>
    rw [killSelected_none hi]
    exact .of_each fun i _ => .refl clicked _
  | some i =>
    obtain ⟨hfirst, hlt, s, hs, hsession, -⟩ := h i hi
    rw [killSelected_some hi hfirst hlt]
    exact .update (.refl clicked) (.inr ⟨s, hs, terminalSession_key hsession, rfl⟩)

theorem mouseEvent_returned (h : d.press x y buttons = (d', true)) :
    (d.displayHandleMouseEvent x y buttons).ui = d'.ui := by
  rw [displayHandleMouseEvent, ← press, h]
  rfl

theorem kill_windows (hclicked : d.managerClicked x y buttons = some hit)
    (hkill : processManagerKillButtonHit d.ui.font (d.ui.windows hit) x y = true) :
    (d.displayHandleMouseEvent x y buttons).ui.windows =
      (processManagerKillSelected (d.menuShut.ui.bringWindowToFront hit)).windows := by
  obtain ⟨-, hrole, -⟩ := managerClicked_some hclicked
  rw [← menuShut_font] at hkill
  have hhandled := handleClick_kill (u := d.menuShut.ui.bringWindowToFront hit) hrole hkill
  rw [mouseEvent_returned (press_manager hclicked hhandled)]
  exact (renderScene_drawn d.menuShut.mouseHideCursor.geo _).windows

theorem hidden_eq {w : GuiWindow} (h : w.visible = false) : { w with visible := false } = w := by
  rw [← h]

theorem SameOrHidden.hidden {w w' : GuiWindow} (h : SameOrHidden clicked w w')
    (hw : w.visible = false) : w'.visible = false := by
  rcases h with rfl | ⟨-, -, -, rfl⟩
  · exact hw
  · rfl

/-- The window of a session that is hidden stays so. -/
theorem Reordered.hidden_stays {ws ws' : WindowList}
    (h : Reordered (SameOrHidden clicked) ws ws') {key : WindowRole × Nat}
    (hws : ∀ i < winCount, (ws i).key = key → (ws i).visible = false) :
    ∀ i < winCount, (ws' i).key = key → (ws' i).visible = false := by
  obtain ⟨f, -, hf, -, hsame⟩ := h
  intro i hi hkey
  refine (hsame i hi).hidden (hws _ (hf i hi) ?_)
  rw [← (hsame i hi).key, hkey]

/-- With the windows of the session hidden ahead, there is nothing to hide. -/
theorem Reordered.nothing_hidden {ws ws' : WindowList}
    (h : Reordered (SameOrHidden clicked) ws ws') (hws : ∀ s ∈ clicked, ∀ i < winCount,
      (ws i).key = (.terminal, s) → (ws i).visible = false) :
    Reordered (fun w w' => w' = w) ws ws' := by
  obtain ⟨f, hf0, hf, hinj, hsame⟩ := h
  refine ⟨f, hf0, hf, hinj, fun i hi => ?_⟩
  rcases hsame i hi with he | ⟨s, hs, hkey, he⟩
  · exact he
  · rw [he, hidden_eq (hws s hs _ (hf i hi) hkey)]

/-- The click on KILL leaves the selected window at its index. -/
theorem kill_steady (hcall : d.mouseCall e = some (x, y, buttons))
    (hclicked : d.managerClicked x y buttons = some hit)
    (hkill : processManagerKillButtonHit d.ui.font (d.ui.windows hit) x y = true)
    (hsteady : d.Steady e) : ∀ i ∈ d.ui.pmSelectedIndex, ∀ r ∈ some hit,
      i < r ∨ r = winCount - 1 := by
  obtain ⟨hpressed, hrole, hclose⟩ := managerClicked_some hclicked
  have hraised : d.raisedBy e = some hit := by
    unfold raisedBy
    rw [hcall]
    simp only [pressRaises, hpressed]
  have hrow : d.rowClicked e = none := by
    have hfont : (d.ui.bringWindowToFront hit).font = d.ui.font := rfl
    simp only [rowClicked, hcall, Option.bind_some, rowPressed, hclicked, hfont, if_pos hkill]
  have hopen : d.managerClosed e = false := by
    simp only [managerClosed, hcall, Option.any_some, managerPressed, hpressed, if_pos hrole,
      hclose]
  intro i hi r hr
  rcases hsteady i hi r (hraised ▸ hr) with hbelow | hfront | hrow' | hclosed
  · exact .inl hbelow
  · exact .inr hfront
  · exact absurd hrow hrow'
  · rw [hopen] at hclosed
    cases hclosed

theorem menuShut_raised (d : Display) (hit : Nat) :
    (d.menuShut.ui.bringWindowToFront hit).windows = (d.ui.bringWindowToFront hit).windows := by
  rw [bringWindowToFront, bringWindowToFront, menuShut_windows]

/-- While its window is seen, the terminal is selected until KILL is handled. -/
theorem kill_selected (h : Remembers d.ui clicked) (hi : d.ui.pmSelectedIndex = some i)
    (hvisible : (d.ui.windows i).visible = true) :
    (d.menuShut.ui.bringWindowToFront hit).pmSelectedIndex = some i := by
  have hruns : SelectedRuns d.ui := by
    apply h.runs
    intro j hj
    rw [hi] at hj
    cases hj
    exact hvisible
  exact (menuShut_selected hruns).trans hi

/-- A click on KILL, with the menu open or shut. -/
theorem mouseEvent_kills (h : Remembers d.ui clicked) (hd : Arranged d.ui)
    (hclicked : d.managerClicked x y buttons = some hit)
    (hkill : processManagerKillButtonHit d.ui.font (d.ui.windows hit) x y = true)
    (hbelow : ∀ i ∈ d.ui.pmSelectedIndex, ∀ r ∈ some hit, i < r ∨ r = winCount - 1) :
    KillsSelected d.ui (d.displayHandleMouseEvent x y buttons).ui clicked := by
  have hhit := (pressTarget_window (pressed_window (managerClicked_some hclicked).1).2).2
  have hv : Remembers (d.menuShut.ui.bringWindowToFront hit) clicked :=
    h.carried ((menuShut_carried d).trans (.raise _ hhit)) hbelow
  have hwindows : Reordered (SameOrHidden clicked) d.ui.windows
      (d.displayHandleMouseEvent x y buttons).ui.windows := by
    have hraise : Reordered (SameOrHidden clicked) d.ui.windows
        (d.menuShut.ui.bringWindowToFront hit).windows := by
      rw [menuShut_raised]
      exact .raise (.refl clicked) d.ui.windows hhit
    rw [kill_windows hclicked hkill]
    exact hraise.trans (fun _ _ _ h h' => h.trans h') (killSelected_windows hv)
  refine ⟨hwindows, ?_, hwindows.nothing_hidden⟩
  intro hselected s hs
  obtain ⟨i, hi⟩ := Option.ne_none_iff_exists'.mp hselected
  obtain ⟨hfirst, hlt, s', hs', hsession, -⟩ := h i hi
  obtain rfl : s' = s := Option.mem_unique hs' hs
  have hkey := terminalSession_key hsession
  cases hvisible : (d.ui.windows i).visible with
  | false =>
    apply hwindows.hidden_stays
    intro j hj hjkey
    rw [hd.key_inj hj hlt (hjkey.trans hkey.symm), hvisible]
  | true =>
    -- The window at the selected index is the session's own, and no other has its key.
    have hvi : (d.menuShut.ui.bringWindowToFront hit).pmSelectedIndex = some i :=
      kill_selected h hi hvisible
    obtain ⟨-, -, t, ht, htsession, -⟩ := hv i hvi
    obtain rfl : t = s' := Option.mem_unique ht hs
    have hdv : Arranged (d.menuShut.ui.bringWindowToFront hit) := by
      rw [Arranged, menuShut_raised]
      exact hd.step (g := d.geo) (.raise d.ui hhit)
    intro j hj hjkey
    rw [kill_windows hclicked hkill, killSelected_some hvi hfirst hlt] at hjkey ⊢
    by_cases hji : j = i
    · rw [hji, Function.update_self]
    · rw [Function.update_of_ne hji] at hjkey
      exact absurd (hdv.key_inj hj hlt (hjkey.trans (terminalSession_key htsession).symm)) hji

theorem kill_hides (h : Remembers d.ui clicked) (hd : Arranged d.ui) (hsteady : d.Steady e)
    (hkill : d.KillClicked e) : KillsSelected d.ui (displayNext d e).ui clicked := by
  obtain ⟨x, y, buttons, hit, hcall, hclicked, hbutton⟩ := hkill
  have hbelow := kill_steady hcall hclicked hbutton hsteady
  obtain ⟨p, pressed, he⟩ := mouseCall_handled hcall
  have hpointed : Remembers (d.pointed p pressed).ui clicked := h
  have hkills := mouseEvent_kills (d := d.pointed p pressed) hpointed hd hclicked hbutton hbelow
  rw [he]
  exact ⟨hkills.windows, hkills.hidden, hkills.nothing⟩

end Kill

section Runs

variable {d d' : Display} {clicked : Option Nat} {x y : Int} {hit : Nat}

theorem initDisplayUi_unselected (g : Geometry) (u : Ui) (asset : List UInt8) (overlay : Bool) :
    (initDisplayUi g u asset overlay).pmSelectedIndex = none := by
  have htheme : Carried none _ _ :=
    applyTheme_carried { initUi u asset overlay with windows := initWindows u.windows } 0
  simp only [initDisplayUi, gfxLayoutWindows]
  exact htheme.unselected rfl

theorem displayInit_unselected (d : Display) (asset : List UInt8) (overlay : Bool) :
    (displayInit d asset overlay).ui.pmSelectedIndex = none := by
  have hrefreshed :=
    refresh_carried { d with ui := initDisplayUi d.geo d.ui asset (d.graphics && overlay) }
  rw [displayInit]
  rcases hrefreshed.selected with hsame | hnone
  · rw [hsame, initDisplayUi_unselected]
  · exact hnone

/-- What steady steps keep. -/
structure Tracked (p : Display × Option Nat) : Prop where
  remembers : Remembers p.1.ui p.2
  arranged : Arranged p.1.ui

theorem SteadyStep.tracked {p p' : Display × Option Nat} {e : DisplayEvent}
    (h : SteadyStep p e p') (hp : Tracked p) : Tracked p' := by
  obtain ⟨hsteady, rfl⟩ := h
  exact ⟨hp.remembers.next hsteady, hp.arranged.step (displayNext_shuffled p.1 e).ui⟩

theorem displayInit_tracked (d : Display) (asset : List UInt8) (overlay : Bool) :
    Tracked (displayInit d asset overlay, none) := by
  refine ⟨?_, displayInit_arranged d asset overlay⟩
  intro i hi
  rw [displayInit_unselected] at hi
  cases hi

/-- In every run from `display_init` with any events of the display: where no step brings a window
up at or below the one whose row is selected, a click on KILL hides the terminal whose row was
clicked last, if it is still selected, and nothing but that terminal. -/
theorem kill_hides_selected {fb : Framebuffer} {sched : Scheduler} {graphics : Bool}
    {asset : List UInt8} {overlay : Bool} {events : List DisplayEvent} {d : Display}
    {clicked : Option Nat} {e : DisplayEvent}
    (h : Run SteadyStep (displayInit (bootDisplay fb sched graphics) asset overlay, none) events
      (d, clicked)) (hsteady : d.Steady e) (hkill : d.KillClicked e) :
    KillsSelected d.ui (displayNext d e).ui clicked := by
  have hrun : Tracked (d, clicked) :=
    h.invariant (fun _ _ _ hp hstep => hstep.tracked hp) (displayInit_tracked _ asset overlay)
  exact kill_hides hrun.remembers hrun.arranged hsteady hkill

theorem unselected_steady (h : d.ui.pmSelectedIndex = none) (e : DisplayEvent) : d.Steady e := by
  intro i hi
  rw [h] at hi
  cases hi

/-- The button has gone up, with nothing to drag. -/
def Display.released (d : Display) : Display :=
  { d with ui := { d.ui with dragWindow := none, resizeWindow := none }, prevButtons := 0 }

/-- No window is dragged or resized. -/
def Still (u : Ui) : Prop :=
  u.dragWindow = none ∧ u.resizeWindow = none ∧ u.interactiveMoveActive = false

instance decidableStill (u : Ui) : Decidable (Still u) :=
  inferInstanceAs (Decidable (_ ∧ _ ∧ _))

theorem redraw_still (h : Still d.ui) : Still d.redraw.ui := by
  have hdrawn : Drawn d.ui d.redraw.ui := renderScene_drawn d.mouseHideCursor.geo d.ui
  obtain ⟨_, _, _, _, _, -, he⟩ := hdrawn
  rw [he]
  exact h

theorem up_pressed (d : Display) (x y : Int) : d.pressed x y 0 = .nothing :=
  if_neg fun hdown => Bool.false_ne_true hdown.1

theorem release_row (d : Display) (x y : Int) : d.rowClicked (.mouse x y 0) = none := by
  have hrow : d.rowPressed x y 0 = none := by
    rw [rowPressed, managerClicked, managerPressed, up_pressed]
    rfl
  exact hrow

theorem release_steady (d : Display) (x y : Int) : d.Steady (.mouse x y 0) := by
  intro i _ r hr
  have hnone : d.raisedBy (.mouse x y 0) = none := by
    simp only [raisedBy, mouseCall, pressRaises, up_pressed]
  rw [hnone] at hr
  cases hr

theorem release_eq (h : Still d.ui) (x y : Int) :
    displayNext { d with prevButtons := 1 } (.mouse x y 0) = d.released := by
  obtain ⟨hdrag, hresize, hmove⟩ := h
  have hup : leftDown 0 = false := rfl
  have hdown : leftDown 1 = true := rfl
  simp only [displayNext, displayHandleMouseEvent, hup, Bool.false_eq_true, false_and, if_false,
    dragMove, hdrag, resizeMove, hresize, releaseLeft, hdown, and_self, if_true, hmove, ne_eq,
    not_true_eq_false, or_self, released]

/-- The button goes down and up again at one place. -/
theorem click_run (hsteady : d.Steady (.mouse x y 1)) (hpress : d.press x y 1 = (d', true))
    (hstill : Still d'.ui) : Run SteadyStep (d, clicked) [.mouse x y 1, .mouse x y 0]
      (d'.released, (d.rowPressed x y 1).or clicked) := by
  have hdown : displayNext d (.mouse x y 1) = { d' with prevButtons := 1 } := by
    simp only [displayNext, displayHandleMouseEvent]
    rw [← press, hpress]
    rfl
  have hup : displayNext (displayNext d (.mouse x y 1)) (.mouse x y 0) = d'.released := by
    rw [hdown, release_eq hstill]
  refine .cons ⟨hsteady, rfl⟩ (.cons ⟨release_steady _ x y, ?_⟩ (.nil _))
  rw [ClickStep, hup, release_row, Option.none_or]
  rfl

/-- The display in a mode where the windows have room. -/
def wideDisplay : Display :=
  displayInit (bootDisplay ⟨fbDefaults .res800x600, fun _ => 0, some fun _ => 0, none⟩
    Scheduler.schedulerInit true) blankFont false

/-- A terminal is made, and the start menu opens. -/
def menuOpened : Display :=
  let d := displayNext wideDisplay (.create true)
  { d with ui := { d.ui with startMenuOpen := !d.ui.startMenuOpen } }.redraw.released

/-- The process manager is chosen in the menu. -/
def managerOpened : Display :=
  { menuOpened with
    ui := { chooseMenuItem menuOpened.ui 2 with startMenuOpen := false } }.redraw.released

/-- The row of the terminal is clicked. -/
def rowSelected : Display :=
  { managerOpened with
    ui := { managerOpened.ui.bringWindowToFront 18 with pmSelectedIndex := some 17 } }
    |>.redraw.released

theorem next_geo (d : Display) (e : DisplayEvent) : (displayNext d e).geo = d.geo :=
  (displayNext_shuffled d e).geo

theorem redrawn_geo (d : Display) (u : Ui) : { d with ui := u }.redraw.released.geo = d.geo :=
  (redraw_shuffled { d with ui := u }).geo

theorem wide_geo : wideDisplay.geo = fbDefaults .res800x600 := displayInit_geo _ _ _ _ _

theorem menuOpened_geo : menuOpened.geo = fbDefaults .res800x600 := by
  rw [menuOpened, redrawn_geo, next_geo, wide_geo]

theorem managerOpened_geo : managerOpened.geo = fbDefaults .res800x600 := by
  rw [managerOpened, redrawn_geo, menuOpened_geo]

theorem rowSelected_geo : rowSelected.geo = fbDefaults .res800x600 := by
  rw [rowSelected, redrawn_geo, managerOpened_geo]

/-- A click where the button has been up. -/
theorem press_up (hup : d.prevButtons = 0) (x y : Int) : d.press x y 1 = d.pressLeft x y := by
  rw [press, hup]
  rfl

theorem pressed_up (hup : d.prevButtons = 0) (x y : Int) : d.pressed x y 1 = d.pressTarget x y := by
  rw [pressed, hup]
  rfl

/-- A click beside the windows. -/
theorem beside_run (hup : d.prevButtons = 0) (hselected : d.ui.pmSelectedIndex = none)
    (hbeside : ∀ hit, d.pressTarget x y ≠ .window hit) (hpress : d.pressLeft x y = (d', true))
    (hstill : Still d'.ui) : Run SteadyStep (d, clicked) [.mouse x y 1, .mouse x y 0]
      (d'.released, clicked) := by
  have hrow : d.rowPressed x y 1 = none := by
    cases hr : d.rowPressed x y 1 with
    | none => rfl
    | some s =>
      obtain ⟨hit, -, hclicked, -⟩ := rowPressed_some hr
      have hpressed := (managerClicked_some hclicked).1
      rw [pressed_up hup] at hpressed
      exact absurd hpressed (hbeside hit)
  have hrun : Run SteadyStep (d, clicked) _ _ :=
    click_run (unselected_steady hselected _) ((press_up hup x y).trans hpress) hstill
  rwa [hrow, Option.none_or] at hrun

theorem menu_run : Run SteadyStep (displayNext wideDisplay (.create true), none)
    [.mouse 10 580 1, .mouse 10 580 0] (menuOpened, none) := by
  have htarget : (displayNext wideDisplay (.create true)).pressTarget 10 580 = .startButton := by
    rw [pressTarget, next_geo, wide_geo]
    decide +kernel
  apply beside_run
  · decide +kernel
  · decide +kernel
  · intro hit hwindow
    rw [htarget] at hwindow
    cases hwindow
  · rw [pressLeft_eq, htarget]
  · apply redraw_still
    decide +kernel

theorem manager_run : Run SteadyStep (menuOpened, none) [.mouse 10 530 1, .mouse 10 530 0]
    (managerOpened, none) := by
  have htarget : menuOpened.pressTarget 10 530 = .menuItem 2 := by
    rw [pressTarget, menuOpened_geo]
    decide +kernel
  apply beside_run
  · decide +kernel
  · decide +kernel
  · intro hit hwindow
    rw [htarget] at hwindow
    cases hwindow
  · rw [pressLeft_eq, htarget]
  · apply redraw_still
    decide +kernel

theorem managerClicked_up (hup : d.prevButtons = 0) (htarget : d.pressTarget x y = .window hit)
    (hrole : (d.ui.windows hit).role = .processManager)
    (hclose : windowCloseButtonHit (d.ui.windows hit) x y = false) :
    d.managerClicked x y 1 = some hit := by
  simp only [managerClicked, managerPressed, pressed_up hup, htarget, if_pos hrole, Option.filter,
    hclose, Bool.not_false, if_true]

/-- A click on the front window moves none. -/
theorem front_steady (hup : d.prevButtons = 0) (htarget : d.pressTarget x y = .window (winCount - 1)) :
    d.Steady (.mouse x y 1) := by
  have hraised : d.raisedBy (.mouse x y 1) = some (winCount - 1) := by
    simp only [raisedBy, mouseCall, pressRaises, pressed_up hup, htarget]
  intro i _ r hr
  rw [hraised] at hr
  cases hr
  exact .inr (.inl rfl)

/-- The session's window is still seen after the click on KILL. -/
theorem kill_misses (hclicked : d.managerClicked x y 1 = some hit)
    (hkill : processManagerKillButtonHit d.ui.font (d.ui.windows hit) x y = true)
    (hselected : d.ui.pmSelectedIndex ≠ none) {s i : Nat} (hs : s ∈ clicked) (hi : i < winCount)
    (hkey : ((processManagerKillSelected (d.menuShut.ui.bringWindowToFront hit)).windows i).key =
      (.terminal, s))
    (hvisible : ((processManagerKillSelected
      (d.menuShut.ui.bringWindowToFront hit)).windows i).visible = true) :
    ¬KillsSelected d.ui (displayNext d (.mouse x y 1)).ui clicked := by
  intro h
  have hhidden := h.hidden hselected s hs i hi
  rw [displayNext, kill_windows hclicked hkill, hvisible] at hhidden
  cases hhidden hkey

theorem row_run : Run SteadyStep (managerOpened, none) [.mouse 70 140 1, .mouse 70 140 0]
    (rowSelected, some 0) := by
  have htarget : managerOpened.pressTarget 70 140 = .window 18 := by
    rw [pressTarget, managerOpened_geo]
    decide +kernel
  have hclicked : managerOpened.managerClicked 70 140 1 = some 18 :=
    managerClicked_up rfl htarget (by decide +kernel) (by decide +kernel)
  have hshut : managerOpened.menuShut = managerOpened := if_neg (by decide +kernel)
  have hrow : managerOpened.rowPressed 70 140 1 = some 0 := by
    rw [rowPressed, hclicked, Option.bind_some]
    decide +kernel
  have hhandled : processManagerHandleClick (managerOpened.menuShut.ui.bringWindowToFront 18)
      (managerOpened.ui.windows 18) 70 140 =
        some { managerOpened.ui.bringWindowToFront 18 with pmSelectedIndex := some 17 } := by
    rw [hshut]
    exact handleClick_row (by decide +kernel) (by decide +kernel) (by decide +kernel)
  have hpress := press_manager hclicked hhandled
  rw [hshut] at hpress
  have hrun : Run SteadyStep (managerOpened, none) _ _ :=
    click_run (unselected_steady (by decide +kernel) _) hpress
      (redraw_still (by decide +kernel))
  rw [hrow] at hrun
  exact hrun

/-- The row of the first terminal is clicked. -/
theorem selected_run : Run SteadyStep (wideDisplay, none) [.create true, .mouse 10 580 1,
    .mouse 10 580 0, .mouse 10 530 1, .mouse 10 530 0, .mouse 70 140 1, .mouse 70 140 0]
    (rowSelected, some 0) := by
  have hstart : wideDisplay.ui.pmSelectedIndex = none := by
    rw [wideDisplay, displayInit_unselected]
  have hcreate : SteadyStep (wideDisplay, none) (.create true)
      (displayNext wideDisplay (.create true), none) := ⟨unselected_steady hstart _, rfl⟩
  have hclicks := menu_run.append (manager_run.append row_run)
  exact .cons hcreate hclicks

/-- KILL hides it. -/
theorem kill_hides_selected_first : rowSelected.ui.pmSelectedIndex = some 17 ∧
    KillsSelected rowSelected.ui (displayNext rowSelected (.mouse 70 190 1)).ui (some 0) := by
  have htarget : rowSelected.pressTarget 70 190 = .window 18 := by
    rw [pressTarget, rowSelected_geo]
    decide +kernel
  have hkill : rowSelected.KillClicked (.mouse 70 190 1) := ⟨70, 190, 1, 18, rfl,
    managerClicked_up rfl htarget (by decide +kernel) (by decide +kernel), by decide +kernel⟩
  have hsteady : rowSelected.Steady (.mouse 70 190 1) := front_steady rfl htarget
  exact ⟨by decide +kernel, kill_hides_selected selected_run hsteady hkill⟩

/-- After another terminal has been made, KILL leaves the first one on the screen. -/
theorem kill_misses_selected : ∃ d, Run ClickStep (wideDisplay, none) [.create true,
      .mouse 10 580 1, .mouse 10 580 0, .mouse 10 530 1, .mouse 10 530 0, .mouse 70 140 1,
      .mouse 70 140 0, .create true] (d, some 0) ∧
    d.KillClicked (.mouse 70 190 1) ∧
    ¬KillsSelected d.ui (displayNext d (.mouse 70 190 1)).ui (some 0) := by
  have hrun := (selected_run.mono fun _ _ _ h => h.2).append
    (.cons (rfl : ClickStep (rowSelected, some 0) (.create true) _) (.nil _))
  have htarget : (displayNext rowSelected (.create true)).pressTarget 70 190 = .window 17 := by
    rw [pressTarget, next_geo, rowSelected_geo]
    decide +kernel
  have hclicked : (displayNext rowSelected (.create true)).managerClicked 70 190 1 = some 17 :=
    managerClicked_up (by decide +kernel) htarget (by decide +kernel) (by decide +kernel)
  have hkill : processManagerKillButtonHit (displayNext rowSelected (.create true)).ui.font
      ((displayNext rowSelected (.create true)).ui.windows 17) 70 190 = true := by decide +kernel
  -- The first terminal has gone to index 16, and index 17 is that of the third slot.
  have hmisses := kill_misses hclicked hkill (by decide +kernel) (Option.mem_some_self 0)
    (i := 16) (by decide) (by decide +kernel) (by decide +kernel)
  exact ⟨displayNext rowSelected (.create true), hrun, ⟨70, 190, 1, 17, rfl, hclicked, hkill⟩,
    hmisses⟩

end Runs

end VertexOS
