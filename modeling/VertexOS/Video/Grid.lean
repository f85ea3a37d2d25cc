import VertexOS.Video.Events

namespace VertexOS
open Ui

/-- The cursor of a terminal is on a cell of its arrays, and so is its dirty rectangle. -/
structure InGrid (ts : TerminalState) : Prop where
  row : ts.cursorRow < gfxMaxRows
  col : ts.cursorCol < gfxMaxCols
  dirty : ts.dirtyAny = true → ts.dirtyMinRow ≤ ts.dirtyMaxRow ∧ ts.dirtyMaxRow < gfxMaxRows ∧
    ts.dirtyMinCol ≤ ts.dirtyMaxCol ∧ ts.dirtyMaxCol < gfxMaxCols

/-- A viewport that the arrays can show. -/
def FitsGrid (rows cols : Nat) : Prop :=
  (1 ≤ rows ∧ rows ≤ gfxMaxRows) ∧ 1 ≤ cols ∧ cols ≤ gfxMaxCols

section Viewport

/-- How every count of rows or columns ends: it is at least 1 and at most what the arrays hold. -/
theorem count_fits (n : UInt32) {bound : Nat} (hb : 1 ≤ bound) :
    1 ≤ (if (if n = 0 then 1 else n).toNat > bound then bound else (if n = 0 then 1 else n).toNat) ∧
    (if (if n = 0 then 1 else n).toNat > bound then bound else (if n = 0 then 1 else n).toNat) ≤
      bound := by
  have hone : 1 ≤ (if n = 0 then 1 else n).toNat := by
    split
    · simp
    · next h => exact Nat.pos_of_ne_zero fun h0 => h (UInt32.toNat_inj.mp h0)
  generalize (if n = 0 then 1 else n).toNat = k at hone
  split
  · exact ⟨hb, Nat.le_refl _⟩
  · next h => exact ⟨hone, Nat.not_lt.mp h⟩

theorem rowsForWindow_fits (f : PsfFont) (tw : Option GuiWindow) :
    1 ≤ visibleRowsForWindow f tw ∧ visibleRowsForWindow f tw ≤ gfxMaxRows := by
  cases tw with
  | none => exact ⟨by simp [visibleRowsForWindow, vgaHeight], by
      simp [visibleRowsForWindow, vgaHeight, gfxMaxRows]⟩
  | some w => exact count_fits _ (by decide)

theorem colsForWindow_fits (f : PsfFont) (tw : Option GuiWindow) :
    1 ≤ visibleColsForWindow f tw ∧ visibleColsForWindow f tw ≤ gfxMaxCols := by
  cases tw with
  | none => exact ⟨by simp [visibleColsForWindow, vgaWidth], by
      simp [visibleColsForWindow, gfxMaxCols]⟩
  | some w => exact count_fits _ (by decide)

theorem windowViewport_fits (f : PsfFont) (tw : Option GuiWindow) :
    FitsGrid (visibleRowsForWindow f tw) (visibleColsForWindow f tw) :=
  ⟨rowsForWindow_fits f tw, colsForWindow_fits f tw⟩

theorem uiViewport_fits (u : Ui) (g : Geometry) (tid : Option Nat) :
    FitsGrid (u.visibleRows g tid) (u.visibleCols g tid) := by
  simp only [Ui.visibleRows, Ui.visibleCols]
  split
  · exact ⟨count_fits _ (by decide), count_fits _ (by decide)⟩
  · exact windowViewport_fits _ _

/-- Every viewport of the display fits, in text mode, in graphics mode and after a panic. -/
theorem viewport_fits (d : Display) : FitsGrid d.visibleRows d.visibleCols := by
  simp only [Display.visibleRows, Display.visibleCols]
  split
  · exact uiViewport_fits _ _ _
  · exact ⟨by decide, by decide⟩

end Viewport

section Terminal

theorem gridRows_pos : 0 < gfxMaxRows := by decide

theorem gridCols_pos : 0 < gfxMaxCols := by decide

variable {rows cols : Nat} {ts ts' : TerminalState}

open TerminalState

/-- Only the cursor and the rectangle count. -/
theorem InGrid.congr (h : InGrid ts) (hr : ts'.cursorRow = ts.cursorRow)
    (hc : ts'.cursorCol = ts.cursorCol) (ha : ts'.dirtyAny = ts.dirtyAny)
    (hrows : ts'.dirtyMinRow = ts.dirtyMinRow ∧ ts'.dirtyMaxRow = ts.dirtyMaxRow)
    (hcols : ts'.dirtyMinCol = ts.dirtyMinCol ∧ ts'.dirtyMaxCol = ts.dirtyMaxCol) :
    InGrid ts' := by
  constructor
  · rw [hr]
    exact h.row
  · rw [hc]
    exact h.col
  · rw [ha, hrows.1, hrows.2, hcols.1, hcols.2]
    exact h.dirty

theorem InGrid.setCell (h : InGrid ts) (idx : Nat) (c : UInt8) : InGrid (ts.setCell idx c) :=
  ⟨h.row, h.col, h.dirty⟩

theorem InGrid.moveTo (h : InGrid ts) {row col : Nat} (hr : row < gfxMaxRows)
    (hc : col < gfxMaxCols) : InGrid { ts with cursorRow := row, cursorCol := col } :=
  ⟨hr, hc, h.dirty⟩

theorem InGrid.markCell (h : InGrid ts) (row col : Nat) :
    InGrid (ts.terminalMarkDirtyCell row col) := by
  simp only [terminalMarkDirtyCell]
  split
  · exact h
  · next hin =>
    have hrow := Nat.not_le.mp (not_or.mp hin).1
    have hcol := Nat.not_le.mp (not_or.mp hin).2
    split
    · exact ⟨h.row, h.col, fun _ => ⟨Nat.le_refl _, hrow, Nat.le_refl _, hcol⟩⟩
    · next ha =>
      obtain ⟨hr, hrmax, hc, hcmax⟩ := h.dirty (by simpa using ha)
      refine ⟨h.row, h.col, fun _ => ⟨?_, Nat.max_lt.mpr ⟨hrow, hrmax⟩, ?_,
        Nat.max_lt.mpr ⟨hcol, hcmax⟩⟩⟩
      · exact (Nat.min_le_left _ _).trans (Nat.le_max_left _ _)
      · exact (Nat.min_le_left _ _).trans (Nat.le_max_left _ _)

/-- A scrolled or cleared terminal is dirty in the whole viewport. -/
theorem markVisible_inGrid (hv : FitsGrid rows cols) (hr : ts.cursorRow < gfxMaxRows)
    (hc : ts.cursorCol < gfxMaxCols) : InGrid (ts.terminalMarkDirtyVisible rows cols) := by
  obtain ⟨⟨h0, h1⟩, h2, h3⟩ := hv
  have hzero : ¬(rows = 0 ∨ cols = 0) := by omega
  simp only [terminalMarkDirtyVisible, if_neg hzero]
  exact ⟨hr, hc,
    fun _ => ⟨Nat.zero_le _, by dsimp only; omega, Nat.zero_le _, by dsimp only; omega⟩⟩

theorem InGrid.nextLine (h : InGrid ts) (hv : FitsGrid rows cols) : InGrid
    (scrollIfNeeded rows cols { ts with cursorCol := 0, cursorRow := ts.cursorRow + 1 }).1 := by
  have hrows := hv.1
  simp only [scrollIfNeeded]
  split
  · next hlt => exact ⟨Nat.lt_of_lt_of_le hlt hrows.2, gridCols_pos, h.dirty⟩
  · apply markVisible_inGrid hv
    · dsimp only
      omega
    · simpa using gridCols_pos

theorem InGrid.putChar (h : InGrid ts) (hv : FitsGrid rows cols) (c : UInt8) :
    InGrid (displayPutCharInternal rows cols ts c).1 := by
  simp only [displayPutCharInternal]
  split
  · exact h.nextLine hv
  · split
    · split
      · have hcol := Nat.lt_of_le_of_lt (Nat.sub_le ts.cursorCol 1) h.col
        exact ((h.moveTo h.row hcol).setCell _ _).markCell _ _
      · exact h
    · have hm := (h.setCell (cellIndex ts.cursorRow ts.cursorCol) c).markCell ts.cursorRow
        ts.cursorCol
      split
      · exact hm.nextLine hv
      · next hlt => exact hm.moveTo hm.row (Nat.lt_of_lt_of_le (Nat.not_le.mp hlt) hv.2.2)

theorem InGrid.clamp (h : InGrid ts) (hv : FitsGrid rows cols) :
    InGrid (clampCursor rows cols ts) := by
  obtain ⟨⟨h0, h1⟩, h2, h3⟩ := hv
  refine ⟨?_, ?_, h.dirty⟩
  · simp only [clampCursor]
    split
    · omega
    · exact h.row
  · simp only [clampCursor]
    split
    · omega
    · exact h.col

theorem InGrid.setCursor (h : InGrid ts) (hv : FitsGrid rows cols) (row col : Nat) :
    InGrid (displaySetCursor rows cols ts row col) := by
  obtain ⟨⟨h0, h1⟩, h2, h3⟩ := hv
  apply h.moveTo
  · split <;> omega
  · split <;> omega

theorem clear_inGrid (ts : TerminalState) (hv : FitsGrid rows cols) :
    InGrid (displayClear rows cols ts) :=
  markVisible_inGrid hv gridRows_pos gridCols_pos

theorem blankTerminal_inGrid (ts : TerminalState) : InGrid (blankTerminal ts) := by
  refine ⟨gridRows_pos, gridCols_pos, fun _ => ?_⟩
  simp only [blankTerminal]
  decide

theorem noDirty_inGrid (h : InGrid ts) : InGrid (noDirty ts) :=
  ⟨h.row, h.col, fun ha => by cases ha⟩

theorem InGrid.cleaned (h : InGrid ts) (cells : Nat → Bool) :
    InGrid { ts with textCellsDirty := cells } := ⟨h.row, h.col, h.dirty⟩

end Terminal

end VertexOS
