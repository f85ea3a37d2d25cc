import VertexOS.Video.Windows

namespace VertexOS
open Ui Display Library.Transitions

/-- A run of the display: every event may come at any time. -/
def DisplayRun (d : Display) (events : List DisplayEvent) (d' : Display) : Prop :=
  Run (fun d e d' => displayNext d e = d') d events d'

/-- The windows as `display_init` numbers them. -/
def startWindows : WindowList := initWindow .zero

/-- The session whose queue `keyboard_route_key` pushes a key to; `none` is the queue that
belongs to no session. -/
def keyboardRoute (d : Display) : Option Nat :=
  d.displayGetFocusedTerminalSession.1.filter (· < winTerminalSlots)

/-- The display while `g_pending_terminal_spawn` has the value; a refresh clears it before it
makes a terminal. -/
def Display.withPending (d : Display) (pending : Bool) : Display :=
  { d with ui := { d.ui with pendingTerminalSpawn := pending } }

/-- The terminal made last is the one that is seen and typed into. -/
structure NewTerminalShown (d d' : Display) (session : Nat) : Prop where
  front : (d'.ui.windows (winCount - 1)).key = (.terminal, session)
  visible : (d'.ui.windows (winCount - 1)).visible = true
  focused : d'.displayGetFocusedTerminalSession.1 = some session
  others : ∀ i < winCount, ∀ j < winCount, (d.ui.windows i).key = (d'.ui.windows j).key →
    (d.ui.windows i).key ≠ (.terminal, session) →
    (d'.ui.windows j).visible = (d.ui.windows i).visible
  task : ∃ tid, d'.ui.taskIds session = some tid ∧ tid = d.sched.taskCount ∧
    (d'.sched.tasks tid).entry = cliTaskEntry ∧ (d'.sched.tasks tid).arg = session.toUInt32
  keys : keyboardRoute d' = some session

section Windows

variable {u u' : Ui} {i j session : Nat}

theorem startWindows_key_inj : ∀ i < winCount, ∀ j < winCount,
    (startWindows i).key = (startWindows j).key → i = j := by
  decide

theorem terminalSession_key {w : GuiWindow} (h : terminalSessionFromWindow w = some session) :
    w.key = (.terminal, session) := by
  rw [terminalSessionFromWindow] at h
  split at h
  · cases h
  · rename_i hw
    rw [not_or, ne_eq, not_not] at hw
    simp_all [GuiWindow.key]

/-- The windows are those of `display_init`, in any order. -/
def Arranged (u : Ui) : Prop := Reordered (fun w w' => w'.key = w.key) startWindows u.windows

/-- The windows keep apart. -/
theorem Arranged.key_inj (h : Arranged u) (hi : i < winCount) (hj : j < winCount)
    (he : (u.windows i).key = (u.windows j).key) : i = j := by
  obtain ⟨f, -, hf, hinj, hkey⟩ := h
  rw [hkey i hi, hkey j hj] at he
  exact hinj i hi j hj (startWindows_key_inj _ (hf i hi) _ (hf j hj) he)

theorem Arranged.front (h : Arranged u) (hkey : (u.windows i).key = (.terminal, session))
    (hi : i < winCount) (hs : session < winTerminalSlots) :
    u.terminalWindowForSession session = some i := by
  have hiff : ∀ j, (u.windows j).key = (.terminal, session) ↔
      (u.windows j).role = .terminal ∧ (u.windows j).slotId = session := fun j => Prod.ext_iff
  rw [terminalWindowForSession, if_neg (Nat.not_le.mpr hs)]
  cases hf : (List.range winCount).find? fun j =>
      (u.windows j).role = .terminal ∧ (u.windows j).slotId = session with
  | none =>
    have hno := List.find?_eq_none.mp hf i (List.mem_range.mpr hi)
    exact absurd ((hiff i).mp hkey) (by simpa using hno)
  | some j =>
    have hj := List.find?_some hf
    have hmem := List.mem_range.mp (List.mem_of_find?_eq_some hf)
    rw [h.key_inj hmem hi (((hiff j).mpr (by simpa using hj)).trans hkey.symm)]

theorem Arranged.step {g : Geometry} (h : Arranged u) (hstep : Rearranged g u u') : Arranged u' := by
  apply Reordered.trans (fun _ _ _ he he' => he'.trans he) h
  exact hstep.windows.mono fun w w' hw => hw.key

theorem initWindows_arranged (u : Ui) : Arranged { u with windows := initWindows u.windows } := by
  apply Reordered.of_each
  intro i hi
  simp only [initWindows, if_pos hi, startWindows, initWindow]
  split
  · rfl
  · split
    · rfl
    · split <;> rfl

theorem layoutWindow_key (g : Geometry) (w : GuiWindow) (i : Nat) :
    (layoutWindow g w i).key = w.key := by
  simp only [layoutWindow]
  split
  · rfl
  · split
    · rfl
    · split <;> rfl

theorem initDisplayUi_arranged (g : Geometry) (u : Ui) (asset : List UInt8) (overlay : Bool) :
    Arranged (initDisplayUi g u asset overlay) := by
  have htheme := (initWindows_arranged (initUi u asset overlay)).step
    (applyTheme_rearranged g { initUi u asset overlay with windows := initWindows u.windows } 0)
  apply Reordered.trans (fun _ _ _ he he' => he'.trans he) htheme
  apply Reordered.of_each
  intro i hi
  simp only [initDisplayUi, gfxLayoutWindows, if_pos hi]
  exact layoutWindow_key g _ i

theorem displayInit_arranged (d : Display) (asset : List UInt8) (overlay : Bool) :
    Arranged (displayInit d asset overlay).ui := by
  have hui := initDisplayUi_arranged d.geo d.ui asset (d.graphics && overlay)
  exact hui.step (refresh_shuffled
    { d with ui := initDisplayUi d.geo d.ui asset (d.graphics && overlay) }).ui

theorem DisplayRun.arranged {d d' : Display} {events : List DisplayEvent}
    (h : DisplayRun d events d') (hd : Arranged d.ui) : Arranged d'.ui := by
  refine Run.invariant (P := fun d => Arranged d.ui) ?_ h hd
  intro d e d' hd he
  rw [← he]
  exact hd.step (displayNext_shuffled d e).ui

end Windows

section Create

variable {d d' : Display} {session : Nat}

/-- What making a visible terminal does, where there is room for its task. -/
structure Created (d d' : Display) (session : Nat) : Prop where
  small : session < winTerminalSlots
  sched : d'.sched = (d.sched.schedulerCreateTask cliTaskEntry session.toUInt32 .kernel).2
  task : (d.sched.schedulerCreateTask cliTaskEntry session.toUInt32 .kernel).1 ≠ none
  taskIds : d'.ui.taskIds session =
    (d.sched.schedulerCreateTask cliTaskEntry session.toUInt32 .kernel).1
  focused : d'.ui.focused = some session
  windows : d'.ui.windows = guiBringWindowToFront
    (Function.update d.ui.windows (winTerminalFirst + session)
      { d.ui.windows (winTerminalFirst + session) with visible := true })
    winCount winTerminalFirst (winTerminalFirst + session)

theorem create_created (h : d.displayCreateTerminalSession true = (some session, d')) :
    Created d d' session := by
  simp only [displayCreateTerminalSession] at h
  split at h
  · cases h
  · next s hs =>
    have hlt := List.mem_range.mp (List.mem_of_find?_eq_some hs)
    simp only [spawnTerminalTaskForSession, if_neg (Nat.not_le.mpr hlt)] at h
    have hlast : winTerminalFirst + s ≤ winTerminalLast := by
      simp only [winTerminalSlots] at hlt
      simp only [winTerminalLast, winTerminalFirst, winTerminalSlots]
      omega
    cases ht : (d.sched.schedulerCreateTask cliTaskEntry s.toUInt32 .kernel).1 with
    | none =>
      rw [ht] at h
      cases h
    | some tid =>
      rw [ht] at h
      simp only [showSessionWindow, Prod.mk.injEq, Option.some.injEq,
        if_pos (And.intro (Nat.le_add_right winTerminalFirst s) hlast)] at h
      obtain ⟨rfl, rfl⟩ := h
      refine ⟨hlt, rfl, by simp [ht], ?_, rfl, rfl⟩
      rw [ht]
      exact Function.update_self _ _ _

theorem Created.index_lt (h : Created d d' session) : winTerminalFirst + session < winCount := by
  have hs := h.small
  simp only [winTerminalSlots] at hs
  simp only [winCount, winProcessManager, winTerminalLast, winTerminalFirst, winTerminalSlots]
  omega

/-- The window whose index belongs to the session is in front. -/
theorem Created.front (h : Created d d' session) :
    d'.ui.windows (winCount - 1) =
      { d.ui.windows (winTerminalFirst + session) with visible := true } := by
  rw [h.windows, bringToFront_front (Nat.le_add_right _ _) h.index_lt, Function.update_self]

/-- Every other window was at another place. -/
theorem Created.other (h : Created d d' session) {j : Nat} (hj : j < winCount - 1) :
    ∃ k < winCount, k ≠ winTerminalFirst + session ∧ d'.ui.windows j = d.ui.windows k := by
  rw [h.windows, bringToFront_apply (Nat.le_add_right _ _) h.index_lt]
  split
  · next hlow =>
    have hne : j ≠ winTerminalFirst + session := by omega
    exact ⟨j, by omega, hne, Function.update_of_ne hne _ _⟩
  · rw [if_neg (by omega)]
    have hne : j + 1 ≠ winTerminalFirst + session := by omega
    exact ⟨j + 1, by omega, hne, Function.update_of_ne hne _ _⟩

theorem Created.shown (h : Created d d' session) (hd : Arranged d.ui) (hd' : Arranged d'.ui)
    (hkey : (d.ui.windows (winTerminalFirst + session)).key = (.terminal, session)) :
    NewTerminalShown d d' session := by
  have hfront : (d'.ui.windows (winCount - 1)).key = (.terminal, session) := by
    rw [h.front]
    exact hkey
  have hvisible : (d'.ui.windows (winCount - 1)).visible = true := by
    rw [h.front]
  have hfocus : d'.displayGetFocusedTerminalSession.1 = some session := by
    have hwindow : d'.ui.focusedWindow = some (winCount - 1) := by
      simp only [focusedWindow, h.focused, if_pos h.small,
        hd'.front hfront (Nat.sub_lt (by decide) Nat.one_pos) h.small]
      simp [hvisible]
    simp only [displayGetFocusedTerminalSession, ensureValidTerminalFocus, hwindow]
    exact h.focused
  refine ⟨hfront, hvisible, hfocus, ?_, ?_, ?_⟩
  · intro i hi j hj he hne
    by_cases hlast : j = winCount - 1
    · rw [hlast, hfront] at he
      exact absurd he hne
    · obtain ⟨k, hk, -, hw⟩ := h.other (by omega : j < winCount - 1)
      rw [hw] at he ⊢
      rw [hd.key_inj hi hk he]
  · have htask := h.task
    rw [h.taskIds, h.sched]
    simp only [Scheduler.schedulerCreateTask] at htask ⊢
    split at htask
    · exact absurd rfl htask
    · next hroom =>
      rw [if_neg hroom]
      exact ⟨_, rfl, rfl, by simp, by simp⟩
  · rw [keyboardRoute, hfocus]
    simp [h.small]

end Create

/-- In every run from `display_init`, also with clicks, a new terminal is the one shown and
focused if and only if the window at the session's own index is still that of its slot. -/
theorem new_terminal_shown_iff {fb : Framebuffer} {sched : Scheduler} {graphics : Bool}
    {asset : List UInt8} {overlay : Bool} {events : List DisplayEvent} {d d' : Display}
    {pending : Bool} {session : Nat}
    (h : DisplayRun (displayInit (bootDisplay fb sched graphics) asset overlay) events d)
    (hc : (d.withPending pending).displayCreateTerminalSession true = (some session, d')) :
    NewTerminalShown d d' session ↔
      (d.ui.windows (winTerminalFirst + session)).key = (.terminal, session) := by
  have hd := h.arranged (displayInit_arranged _ asset overlay)
  have hcreated := create_created hc
  have hfront := hcreated.front
  constructor
  · intro hs
    rw [← hs.front, hfront]
    rfl
  · intro hkey
    have hshuffled := create_shuffled (d.withPending pending) true
    rw [hc] at hshuffled
    have hpending : Arranged (d.withPending pending).ui := hd
    have hshown := hcreated.shown hpending (hpending.step hshuffled.ui) hkey
    exact ⟨hshown.front, hshown.visible, hshown.focused, hshown.others, hshown.task, hshown.keys⟩

section Runs

variable {d : Display} {session : Nat}

/-- A font of the header that the kernel's font has, with empty glyphs. -/
def blankFont : List UInt8 := [0x36, 0x04, 0x03, 14] ++ List.replicate (512 * 14) 0

/-- The display in the smallest graphics mode, once `display_init` has run. -/
def freshDisplay : Display :=
  displayInit (bootDisplay ⟨fbDefaults .res320x200, fun _ => 0, some fun _ => 0, none⟩
    Scheduler.schedulerInit true) blankFont false

theorem GuiWindow.key_show (w : GuiWindow) (visible : Bool) :
    w.key = { w with visible := visible }.key := rfl

theorem create_eq (h : (d.displayCreateTerminalSession true).1 = some session) :
    d.displayCreateTerminalSession true =
      (some session, (d.displayCreateTerminalSession true).2) := by
  rw [← h]

/-- The first terminal is shown. -/
theorem new_terminal_shown_iff_first : NewTerminalShown freshDisplay
    ((freshDisplay.withPending false).displayCreateTerminalSession true).2 0 := by
  have hc : ((freshDisplay.withPending false).displayCreateTerminalSession true).1 = some 0 := by
    decide +kernel
  have hkey : (freshDisplay.ui.windows (winTerminalFirst + 0)).key = (.terminal, 0) := by
    decide +kernel
  have hrun : DisplayRun freshDisplay [] freshDisplay := .nil freshDisplay
  exact (new_terminal_shown_iff hrun (create_eq hc)).mpr hkey

/-- The second one is not: its index is that of the window of slot 2. -/
theorem new_terminal_not_shown :
    ∃ d d', DisplayRun freshDisplay [.create true] d ∧
      d.displayCreateTerminalSession true = (some 1, d') ∧ ¬NewTerminalShown d d' 1 := by
  have hc : ((displayNext freshDisplay (.create true)).displayCreateTerminalSession true).1 =
      some 1 := by decide +kernel
  have hkey : ((displayNext freshDisplay (.create true)).ui.windows (winTerminalFirst + 1)).key =
      (.terminal, 2) := by decide +kernel
  have hrun : DisplayRun freshDisplay [.create true] (displayNext freshDisplay (.create true)) :=
    .cons rfl (.nil _)
  refine ⟨_, _, hrun, create_eq hc, ?_⟩
  intro hs
  have he := hs.front
  rw [(create_created (create_eq hc)).front, ← GuiWindow.key_show, hkey] at he
  cases he

end Runs

end VertexOS
