import VertexOS.Video.CheckedCalls

namespace VertexOS
open Ui Display Library.Programs

/-- The terminals of all sessions are in their grids. -/
def OnGrid (u : Ui) : Prop := ∀ s < winTerminalSlots, InGrid (u.terminals s)

section Rendering

variable {u : Ui} {s : Nat} {ts : TerminalState}

theorem OnGrid.congr {v : Ui} (h : OnGrid u) (ht : v.terminals = u.terminals) : OnGrid v := by
  intro s hs
  rw [ht]
  exact h s hs

theorem OnGrid.setTerminal (h : OnGrid u) (hts : InGrid ts) : OnGrid (u.setTerminal s ts) := by
  intro t ht
  simp only [Ui.setTerminal]
  by_cases he : t = s
  · rw [he, Function.update_self]
    exact hts
  · rw [Function.update_of_ne he]
    exact h t ht

theorem sessionState_lt (session : Nat) : sessionState session < winTerminalSlots := by
  simp only [sessionState]
  split
  · decide
  · omega

theorem terminalSession_lt {w : GuiWindow} (h : terminalSessionFromWindow w = some s) :
    s < winTerminalSlots := by
  simp only [terminalSessionFromWindow] at h
  split at h
  · cases h
  · next hno =>
    cases h
    exact Nat.not_le.mp (not_or.mp hno).2

theorem taskIo_lt (u : Ui) (tid : Option Nat) :
    u.terminalStateForTaskIo tid < winTerminalSlots := by
  simp only [terminalStateForTaskIo]
  split
  · next i hi => exact List.mem_range.mp (List.mem_of_find?_eq_some hi)
  · cases hf : u.focused.filter (· < winTerminalSlots) with
    | none => decide
    | some s => simpa using (Option.filter_eq_some_iff.mp hf).2

theorem ensureFocus_terminals (u : Ui) : u.ensureValidTerminalFocus.terminals = u.terminals := by
  simp only [ensureValidTerminalFocus]
  split
  · rfl
  · rfl

theorem activeUi_terminals (u : Ui) : u.terminalStateForActiveUi.1.terminals = u.terminals := by
  simp only [terminalStateForActiveUi]
  split
  · exact ensureFocus_terminals u
  · exact ensureFocus_terminals u

theorem activeUi_lt (u : Ui) : u.terminalStateForActiveUi.2 < winTerminalSlots := by
  simp only [terminalStateForActiveUi]
  split
  · next s hs => simpa using (Option.filter_eq_some_iff.mp hs).2
  · cases hw : terminalSessionFromWindow (u.ensureValidTerminalFocus.windows
      u.ensureValidTerminalFocus.terminalWindow) with
    | none => exact (by decide : (0 : Nat) < winTerminalSlots)
    | some s => exact terminalSession_lt hw

theorem OnGrid.active (h : OnGrid u) : OnGrid u.terminalStateForActiveUi.1 :=
  h.congr (activeUi_terminals u)

theorem renderWindow_terminals (u : Ui) (i : Nat) :
    (u.gfxRenderWindow i).2.terminals = u.terminals := by
  simp only [gfxRenderWindow]
  split
  · rfl
  · split
    · rfl
    · split
      · rfl
      · split
        · rfl
        · rfl
        · simp only [pmSelectionChecked]
          split
          · split
            · rfl
            · rfl
          · rfl
        · rfl

theorem renderWindowsFrom_terminals (u : Ui) (i left : Nat) :
    (renderWindowsFrom u i left).2.terminals = u.terminals := by
  induction left generalizing u i with
  | zero => rfl
  | succ left ih => exact (ih _ _).trans (renderWindow_terminals u i)

theorem renderCursor_terminals (u : Ui) : u.gfxRenderCursor.2.terminals = u.terminals :=
  activeUi_terminals u

theorem renderScene_terminals (g : Geometry) (u : Ui) :
    (u.gfxRenderScene g).2.terminals = u.terminals :=
  (renderCursor_terminals _).trans (renderWindowsFrom_terminals u 0 winCount)

theorem OnGrid.full (h : OnGrid u) (g : Geometry) (tid : Option Nat) :
    OnGrid (u.gfxRenderFull g tid).2 := by
  have hv := uiViewport_fits u.terminalStateForActiveUi.1 g tid
  have hin := h.active _ (activeUi_lt u)
  simp only [gfxRenderFull]
  refine OnGrid.congr ?_ (renderScene_terminals g _)
  split
  · exact h.active.setTerminal ⟨hin.row, Nat.lt_of_lt_of_le (Nat.sub_lt hv.2.1 Nat.one_pos) hv.2.2,
      hin.dirty⟩
  · exact h.active

theorem clearDirtyRow_inGrid (h : InGrid ts) (row n : Nat) : InGrid (clearDirtyRow row ts n) := by
  induction n with
  | zero => exact h
  | succ n ih => exact ih.cleaned _

theorem clearDirtyRows_inGrid (h : InGrid ts) (cols n : Nat) :
    InGrid (clearDirtyRows cols ts n) := by
  induction n with
  | zero => exact h
  | succ n ih => exact clearDirtyRow_inGrid ih n cols

theorem OnGrid.panic (h : OnGrid u) (g : Geometry) (tid : Option Nat) :
    OnGrid (u.gfxRenderPanicFull g tid).2 :=
  h.active.setTerminal (clearDirtyRows_inGrid (h.active _ (activeUi_lt u)) _ _)

theorem OnGrid.clearDirty (h : OnGrid u) (g : Geometry) (tid : Option Nat) :
    OnGrid (u.clearVisibleTextDirty g tid) :=
  h.active.setTerminal (noDirty_inGrid (clearDirtyRows_inGrid (h.active _ (activeUi_lt u)) _ _))

theorem OnGrid.terminalCell (h : OnGrid u) (w : GuiWindow) (row col : Nat) :
    OnGrid (u.gfxRenderTerminalCell w row col).2 := by
  simp only [gfxRenderTerminalCell]
  split
  · exact h
  · exact h.setTerminal ((h _ (sessionState_lt _)).cleaned _)

theorem OnGrid.previousCell (h : OnGrid u) (w : GuiWindow) (s : Nat) :
    OnGrid (Display.previousCell u w s).2 := by
  simp only [Display.previousCell]
  split
  · split
    · exact h.terminalCell w _ _
    · exact h
  · exact h

theorem OnGrid.dirtyTurns {r : List FbCall × Ui} (h : OnGrid r.2) (w : GuiWindow) (s : Nat)
    (cells : List (Nat × Nat)) : OnGrid (cells.foldl (dirtyCellTurn w s) r).2 := by
  induction cells generalizing r with
  | nil => exact h
  | cons cell cells ih =>
    apply ih
    simp only [dirtyCellTurn]
    split
    · exact h.terminalCell w cell.1 cell.2
    · exact h

theorem OnGrid.dirtyCells (h : OnGrid u) (hs : s < winTerminalSlots) (w : GuiWindow)
    (rows cols : Nat) : OnGrid (Display.dirtyCells u w s rows cols).2 := by
  simp only [Display.dirtyCells]
  split
  · have hturns := OnGrid.dirtyTurns (r := ([], u)) h w s (cellRange
      (clipCell (u.terminals s).dirtyMinRow rows) (clipCell (u.terminals s).dirtyMaxRow rows)
      (clipCell (u.terminals s).dirtyMinCol cols) (clipCell (u.terminals s).dirtyMaxCol cols))
    exact hturns.setTerminal (noDirty_inGrid (hturns s hs))
  · exact h

theorem OnGrid.incremental (h : OnGrid u) (g : Geometry) (tid : Option Nat) :
    OnGrid (Display.incrementalRender g u tid).2 := by
  have hprev := h.active.previousCell (u.windows u.terminalWindow) u.terminalStateForActiveUi.2
  have hcells := hprev.dirtyCells (activeUi_lt u) (u.windows u.terminalWindow)
    (u.terminalStateForActiveUi.1.visibleRows g tid)
    (u.terminalStateForActiveUi.1.visibleCols g tid)
  exact hcells.congr (renderCursor_terminals _)

end Rendering

section Calls

variable {d : Display}

theorem OnGrid.create (h : OnGrid d.ui) (makeVisible : Bool) :
    OnGrid (d.displayCreateTerminalSession makeVisible).2.ui := by
  have hspawn : ∀ session, OnGrid (d.spawnTerminalTaskForSession session).2.ui := by
    intro session
    simp only [spawnTerminalTaskForSession]
    split
    · exact h
    · split
      · exact h
      · exact h.congr rfl
  have hshow : ∀ (u : Ui) session, (showSessionWindow u session makeVisible).terminals =
      u.terminals := by
    intro u session
    simp only [showSessionWindow]
    split
    · split
      · rfl
      · rfl
    · rfl
  simp only [displayCreateTerminalSession]
  split
  · exact h
  · next session _ =>
    split
    · exact hspawn session
    · exact ((hspawn session).setTerminal (blankTerminal_inGrid _)).congr (hshow _ session)

theorem OnGrid.spawnPending (h : OnGrid d.ui) : OnGrid d.spawnPending.ui := by
  simp only [Display.spawnPending]
  split
  · refine OnGrid.create ?_ true
    exact h.congr rfl
  · exact h

theorem OnGrid.clampSession (h : OnGrid d.ui) {s : Nat} (hs : s < winTerminalSlots) :
    OnGrid (d.clampSession s).ui :=
  h.setTerminal ((h s hs).clamp (viewport_fits d))

theorem OnGrid.refreshPanic (h : OnGrid d.ui) : OnGrid d.refreshPanic.ui := by
  have hdrawn : OnGrid (d.render (gfxRenderPanicFull d.geo d.ui d.tid)).framebufferFlush.ui :=
    h.panic d.geo d.tid
  exact (hdrawn.clearDirty _ _).congr rfl

theorem OnGrid.refreshFull (h : OnGrid d.ui) (s : Nat) : OnGrid (d.refreshFull s).ui := by
  have hdrawn : OnGrid
      (d.render (gfxRenderFull d.geo d.ui d.tid)).mouseRefreshCursor.framebufferFlush.ui :=
    h.full d.geo d.tid
  exact (hdrawn.clearDirty _ _).congr rfl

theorem OnGrid.refreshIncremental (h : OnGrid d.ui) :
    OnGrid d.gfxRefreshTerminalIncremental.ui :=
  h.incremental d.mouseHideCursor.geo d.tid

theorem sampleUsage_terminals (u : Ui) : (sampleUsage u).terminals = u.terminals := by
  have husage : (updateProcessUsageSample u).terminals = u.terminals := by
    simp only [updateProcessUsageSample]
    split
    · rfl
    · rfl
  simp only [sampleUsage]
  split
  · split
    · exact husage
    · exact husage
  · split
    · rfl
    · rfl

theorem OnGrid.refresh (h : OnGrid d.ui) : OnGrid d.displayRefresh.ui := by
  have hhead := h.spawnPending.clampSession (taskIo_lt d.ui d.tid)
  simp only [displayRefresh]
  split
  · exact hhead
  · split
    · exact hhead.refreshPanic
    · split
      · refine OnGrid.refreshFull ?_ _
        exact hhead.congr (sampleUsage_terminals _)
      · refine OnGrid.refreshIncremental ?_
        exact hhead.congr (sampleUsage_terminals _)

theorem OnGrid.requestRefresh (h : OnGrid d.ui) : OnGrid d.displayRequestRefresh.ui := by
  simp only [displayRequestRefresh]
  split
  · exact h.congr rfl
  · exact h.refresh

theorem OnGrid.putChar (h : OnGrid d.ui) (c : UInt8) : OnGrid (d.displayPutCharInternal c).ui :=
  (h.setTerminal ((h _ (taskIo_lt d.ui d.tid)).putChar (viewport_fits d) c)).congr rfl

theorem OnGrid.putChars (h : OnGrid d.ui) (s : List UInt8) :
    OnGrid (s.foldl displayPutCharInternal d).ui := by
  induction s generalizing d with
  | nil => exact h
  | cons c s ih => exact ih (h.putChar c)

theorem OnGrid.print (h : OnGrid d.ui) (s : List UInt8) : OnGrid (d.displayPrint s).ui := by
  simp only [displayPrint]
  split
  · exact h.putChars _
  · exact (h.putChars _).requestRefresh

theorem OnGrid.clear (h : OnGrid d.ui) : OnGrid d.displayClear.ui :=
  OnGrid.refresh ((h.setTerminal (clear_inGrid _ (viewport_fits d))).congr rfl)

theorem OnGrid.setCursor (h : OnGrid d.ui) (row col : Nat) :
    OnGrid (d.displaySetCursor row col).ui :=
  OnGrid.requestRefresh
    (h.setTerminal ((h _ (taskIo_lt d.ui d.tid)).setCursor (viewport_fits d) row col))

theorem themeWindow_terminals (t : UiTheme) (u : Ui) (found : Option Nat) :
    (themeWindow t u found).terminals = u.terminals := by
  cases found with
  | none => rfl
  | some i => rfl

theorem applyTheme_terminals (u : Ui) (themeId : Nat) :
    (u.applyTheme themeId).terminals = u.terminals :=
  (themeWindow_terminals _ _ _).trans (themeWindow_terminals _ _ _)

theorem initDisplay_onGrid (g : Geometry) (u : Ui) (asset : List UInt8) (overlay : Bool) :
    OnGrid (initDisplayUi g u asset overlay) := by
  intro s hs
  simp only [initDisplayUi, gfxLayoutWindows, applyTheme_terminals, initUi, if_pos hs]
  exact blankTerminal_inGrid _

end Calls

/-- What a run is made of: a call of the display by the running task, or anything that leaves the
terminals alone, after which the rest of the display is that of `d`. -/
inductive TextEvent where
  | putChar (c : UInt8)
  | print (s : List UInt8)
  | setCursor (row col : Nat)
  | clear
  | refresh
  | change (d : Display)

/-- The display of `d'` with the terminals of `d`. -/
def Display.changed (d d' : Display) : Display :=
  { d' with ui := { d'.ui with terminals := d.ui.terminals } }

def textNext (d : Display) : TextEvent → Display
  | .putChar c => d.displayPutChar c
  | .print s => d.displayPrint s
  | .setCursor row col => d.displaySetCursor row col
  | .clear => d.displayClear
  | .refresh => d.displayRefresh
  | .change d' => d.changed d'

/-- The same with every index into the cells checked. -/
def Checked.textNext : TextEvent → Prog Display PUnit
  | .putChar c => Checked.displayPutChar c
  | .print s => Checked.displayPrint s
  | .setCursor row col => Checked.displaySetCursor row col
  | .clear => Checked.displayClear
  | .refresh => Checked.displayRefresh
  | .change d' => modify fun d => d.changed d'

section Runs

variable {d : Display}

theorem putChar_checked (h : OnGrid d.ui) (c : UInt8) :
    Checked.displayPutCharInternal c d = some (⟨⟩, d.displayPutCharInternal c) := by
  have hrun := Checked.putChar_run (viewport_fits d) (h _ (taskIo_lt d.ui d.tid)) c
  rw [Checked.displayPutCharInternal, get_bind_run,
    bind_run (Checked.onUi_run (Checked.onTerminal_run hrun))]
  rfl

theorem putChars_checked (h : OnGrid d.ui) (s : List UInt8) :
    forM s Checked.displayPutCharInternal d = some (⟨⟩, s.foldl displayPutCharInternal d) := by
  induction s generalizing d with
  | nil => rfl
  | cons c s ih =>
    rw [List.forM_cons, bind_run (putChar_checked h c)]
    exact ih (h.putChar c)

/-- A call from a display on the grid stays on it. -/
theorem textNext_checked (h : OnGrid d.ui) (e : TextEvent) :
    Checked.textNext e d = some (⟨⟩, textNext d e) ∧ OnGrid (textNext d e).ui := by
  cases e with
  | putChar c =>
    refine ⟨?_, (h.putChar c).requestRefresh⟩
    rw [Checked.textNext, Checked.displayPutChar, bind_run (putChar_checked h c)]
    exact Checked.requestRefresh_run _
  | print s =>
    refine ⟨?_, h.print s⟩
    rw [Checked.textNext, Checked.displayPrint, bind_run (putChars_checked h _), textNext,
      displayPrint]
    by_cases hs : cString s = []
    · rw [if_neg (not_not.mpr hs), if_pos hs]
      rfl
    · rw [if_pos hs, if_neg hs]
      exact Checked.requestRefresh_run _
  | setCursor row col =>
    refine ⟨?_, h.setCursor row col⟩
    rw [Checked.textNext, Checked.displaySetCursor, modify_bind_run]
    exact Checked.requestRefresh_run _
  | clear => exact ⟨Checked.clear_run d, h.clear⟩
  | refresh => exact ⟨Checked.refresh_run d, h.refresh⟩
  | change d' => exact ⟨rfl, h.congr rfl⟩

theorem textRun_checked (h : OnGrid d.ui) (events : List TextEvent) :
    forM events Checked.textNext d = some (⟨⟩, events.foldl textNext d) ∧
      OnGrid (events.foldl textNext d).ui := by
  induction events generalizing d with
  | nil => exact ⟨rfl, h⟩
  | cons e events ih =>
    obtain ⟨hrun, hgrid⟩ := textNext_checked h e
    rw [List.forM_cons, bind_run hrun]
    exact ih hgrid

end Runs

/-- In every run from `display_init` on, whatever becomes of the viewport between the calls, no
index into the cells is outside the arrays, and every cursor and dirty rectangle is on the grid. -/
theorem cells_in_grid (d : Display) (asset : List UInt8) (overlay : Bool)
    (events : List TextEvent) :
    let start := { d with ui := initDisplayUi d.geo d.ui asset (d.graphics && overlay) }
    forM (.refresh :: events) Checked.textNext start =
        some (⟨⟩, events.foldl textNext (displayInit d asset overlay)) ∧
      ∀ s < winTerminalSlots,
        InGrid ((events.foldl textNext (displayInit d asset overlay)).ui.terminals s) := by
  intro start
  have hstart : OnGrid start.ui := initDisplay_onGrid d.geo d.ui asset (d.graphics && overlay)
  have hinit : textNext start .refresh = displayInit d asset overlay := rfl
  have hrun := textRun_checked hstart (.refresh :: events)
  rw [List.foldl_cons, hinit] at hrun
  exact hrun

end VertexOS
