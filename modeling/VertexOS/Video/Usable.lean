import VertexOS.Video.NewTerminal

namespace VertexOS
open Ui Display Library.Transitions

/-- The window is on the desktop, above the taskbar, and as large as its role asks for. -/
structure Usable (g : Geometry) (w : GuiWindow) : Prop where
  left : 0 ≤ w.x
  top : 0 ≤ w.y
  right : w.x + w.w.toNat ≤ g.width.toNat
  bottom : w.y + w.h.toNat ≤ g.height.toNat - gfxTaskbarHeight.toNat
  width : gfxWindowRoleMinWidth w.role ≤ w.w
  height : gfxWindowRoleMinHeight w.role ≤ w.h

instance (g : Geometry) (w : GuiWindow) : Decidable (Usable g w) :=
  decidable_of_iff (0 ≤ w.x ∧ 0 ≤ w.y ∧ w.x + w.w.toNat ≤ g.width.toNat ∧
      w.y + w.h.toNat ≤ g.height.toNat - gfxTaskbarHeight.toNat ∧
      gfxWindowRoleMinWidth w.role ≤ w.w ∧ gfxWindowRoleMinHeight w.role ≤ w.h)
    ⟨fun ⟨h1, h2, h3, h4, h5, h6⟩ => ⟨h1, h2, h3, h4, h5, h6⟩,
      fun ⟨h1, h2, h3, h4, h5, h6⟩ => ⟨h1, h2, h3, h4, h5, h6⟩⟩

section Steps

variable {g : Geometry} {w w' : GuiWindow} {u u' : Ui}

theorem s32_small {u : UInt32} (h : u.toNat < 2 ^ 31) : s32 u = u.toNat := by
  have hnat : u.toBitVec.toNat = u.toNat := rfl
  simp only [s32, Int32.toInt, UInt32.toBitVec_toInt32, BitVec.toInt_eq_toNat_cond, hnat]
  split <;> omega

theorem u32_toNat_of_nonneg {i : Int} (h : 0 ≤ i) (h' : i < 2 ^ 31) : ((u32 i).toNat : Int) = i := by
  simp only [u32, UInt32.ofInt, UInt32.toNat_ofNat']
  omega

/-- The sizes of the screen are positive as signed numbers. -/
structure SignedSizes (g : Geometry) : Prop where
  width : g.width.toNat < 2 ^ 31
  height : g.height.toNat < 2 ^ 31

theorem Usable.sizes (h : Usable g w) (hg : SignedSizes g) :
    s32 w.w = w.w.toNat ∧ s32 w.h = w.h.toNat ∧ s32 g.width = g.width.toNat ∧
      s32 g.height = g.height.toNat := by
  obtain ⟨hx, hy, hright, hbottom, -, -⟩ := h
  have hwide := hg.width
  have htall := hg.height
  exact ⟨s32_small (by omega), s32_small (by omega), s32_small hwide, s32_small htall⟩

theorem Usable.dragged (h : Usable g w) (hg : SignedSizes g) (x y : Int) :
    Usable g { w with
      x := (guiClampWindowPosition w x y g.width g.height gfxTaskbarHeight).1
      y := (guiClampWindowPosition w x y g.width g.height gfxTaskbarHeight).2 } := by
  obtain ⟨hw, hh, hwide, htall⟩ := h.sizes hg
  have htaskbar := taskbar_s32
  have htaskbarNat : gfxTaskbarHeight.toNat = 27 := by decide
  obtain ⟨hx, hy, hright, hbottom, hminw, hminh⟩ := h
  simp only [guiClampWindowPosition, clampPosition, hw, hh, hwide, htall]
  refine ⟨?_, ?_, ?_, ?_, hminw, hminh⟩ <;> dsimp only <;> split <;> (try split) <;> omega

theorem clampSize_between {min max : Int} (h : min ≤ max) (v : Int) :
    min ≤ clampSize v min max ∧ clampSize v min max ≤ max := by
  simp only [clampSize]
  split <;> (try split) <;> omega

theorem Usable.resized (h : Usable g w) (hg : SignedSizes g) (x y : Int) :
    Usable g { w with
      w := u32 (guiClampWindowSize w x y (gfxWindowRoleMinWidth w.role)
        (gfxWindowRoleMinHeight w.role) g.width g.height gfxTaskbarHeight).1
      h := u32 (guiClampWindowSize w x y (gfxWindowRoleMinWidth w.role)
        (gfxWindowRoleMinHeight w.role) g.width g.height gfxTaskbarHeight).2 } := by
  obtain ⟨hw, hh, hwide, htall⟩ := h.sizes hg
  have htaskbar := taskbar_s32
  have htaskbarNat : gfxTaskbarHeight.toNat = 27 := by decide
  have hwidth := hg.width
  have hheight := hg.height
  obtain ⟨hx, hy, hright, hbottom, hminw, hminh⟩ := h
  rw [UInt32.le_iff_toNat_le] at hminw hminh
  have hleast : s32 (gfxWindowRoleMinWidth w.role) = (gfxWindowRoleMinWidth w.role).toNat :=
    s32_small (by omega)
  have hlow : s32 (gfxWindowRoleMinHeight w.role) = (gfxWindowRoleMinHeight w.role).toNat :=
    s32_small (by omega)
  simp only [guiClampWindowSize, hwide, htall, htaskbar, hleast, hlow]
  have hfits : ((gfxWindowRoleMinWidth w.role).toNat : Int) ≤ g.width.toNat - w.x := by omega
  have hstands : ((gfxWindowRoleMinHeight w.role).toNat : Int) ≤ g.height.toNat - 27 - w.y := by
    omega
  obtain ⟨hmore, hless⟩ := clampSize_between hfits x
  obtain ⟨habove, hbelow⟩ := clampSize_between hstands y
  generalize clampSize x _ _ = width at hmore hless ⊢
  generalize clampSize y _ _ = height at habove hbelow ⊢
  have hwords : ((u32 width).toNat : Int) = width := u32_toNat_of_nonneg (by omega) (by omega)
  have hwordsh : ((u32 height).toNat : Int) = height := u32_toNat_of_nonneg (by omega) (by omega)
  refine ⟨hx, hy, ?_, ?_, ?_, ?_⟩
  · dsimp only
    omega
  · dsimp only
    omega
  · rw [UInt32.le_iff_toNat_le]
    dsimp only
    omega
  · rw [UInt32.le_iff_toNat_le]
    dsimp only
    omega

theorem WindowStep.usable (h : WindowStep g w w') (hg : SignedSizes g) (hu : Usable g w) :
    Usable g w' := by
  induction h with
  | same_place hkey hx hy hw hh =>
    have hrole := congrArg Prod.fst hkey
    simp only [GuiWindow.key] at hrole
    obtain ⟨h1, h2, h3, h4, h5, h6⟩ := hu
    constructor <;> simp only [hx, hy, hw, hh, hrole] <;> assumption
  | dragged w x y => exact hu.dragged hg x y
  | resized w x y => exact hu.resized hg x y
  | trans _ _ ih ih' => exact ih' (ih hu)

end Steps

section Runs

variable {P : GuiWindow → Prop} {g : Geometry} {u u' : Ui}

/-- The desktop stays behind all windows, so what every step keeps of a window is kept of those
in front of it. -/
theorem Rearranged.each (h : Rearranged g u u')
    (hP : ∀ {w w'}, WindowStep g w w' → P w → P w')
    (hu : ∀ i < winCount, i ≠ winDesktop → P (u.windows i)) :
    ∀ i < winCount, i ≠ winDesktop → P (u'.windows i) := by
  obtain ⟨f, hf0, hf, hinj, hstep⟩ := h.windows
  intro i hi hne
  have hmoved : f i ≠ winDesktop := fun h0 => hne (hinj i hi 0 (by decide) (h0.trans hf0.symm))
  exact hP (hstep i hi) (hu (f i) (hf i hi) hmoved)

theorem DisplayRun.each {d d' : Display} {events : List DisplayEvent}
    (h : DisplayRun d events d') (hP : ∀ {w w'}, WindowStep d.geo w w' → P w → P w')
    (hd : ∀ i < winCount, i ≠ winDesktop → P (d.ui.windows i)) :
    d'.geo = d.geo ∧ ∀ i < winCount, i ≠ winDesktop → P (d'.ui.windows i) := by
  refine Run.invariant (P := fun d' => d'.geo = d.geo ∧
    ∀ i < winCount, i ≠ winDesktop → P (d'.ui.windows i)) ?_ h ⟨rfl, hd⟩
  rintro s e s' ⟨hgeo, hs⟩ rfl
  have hshuffled := displayNext_shuffled s e
  refine ⟨hshuffled.geo.trans hgeo, ?_⟩
  have hui := hshuffled.ui
  rw [hgeo] at hui
  exact hui.each hP hs

theorem sampleUsage_windows (u : Ui) : (sampleUsage u).windows = u.windows := by
  have husage : u.updateProcessUsageSample.windows = u.windows := by
    rw [updateProcessUsageSample]
    split <;> rfl
  simp only [sampleUsage]
  split <;> split
  · exact husage
  · exact husage
  · rfl
  · rfl

theorem refreshPanic_windows (d : Display) : d.refreshPanic.ui.windows = d.ui.windows := by
  dsimp only [refreshPanic]
  rw [(clearDirty_drawn _ _ _).windows]
  exact (renderPanic_drawn d.geo d.ui d.tid).windows

theorem refreshFull_windows (d : Display) (s : Nat) :
    (d.refreshFull s).ui.windows = d.ui.windows := by
  dsimp only [refreshFull]
  rw [(clearDirty_drawn _ _ _).windows]
  exact (renderFull_drawn d.geo d.ui d.tid).windows

theorem refreshIncremental_windows (d : Display) :
    d.gfxRefreshTerminalIncremental.ui.windows = d.ui.windows :=
  (incrementalRender_drawn d.mouseHideCursor.geo d.ui d.tid).windows

/-- A refresh that makes no terminal leaves the windows as they are. -/
theorem refresh_windows {d : Display} (h : d.ui.pendingTerminalSpawn = false) :
    d.displayRefresh.ui.windows = d.ui.windows := by
  have hspawn : d.spawnPending = d := if_neg (by simp [h])
  simp only [displayRefresh, hspawn]
  generalize hclamped : d.clampSession (d.ui.terminalStateForTaskIo d.tid) = c
  have hkept : c.ui.windows = d.ui.windows := by
    rw [← hclamped]
    rfl
  split
  · exact hkept
  split
  · exact (refreshPanic_windows c).trans hkept
  · have hsample := (sampleUsage_windows c.ui).trans hkept
    split
    · exact (refreshFull_windows _ _).trans hsample
    · exact (refreshIncremental_windows _).trans hsample

/-- The windows that `display_init` lays out. -/
def laidOut (g : Geometry) : WindowList := (initDisplayUi g .zero [] false).windows

theorem displayInit_windows (fb : Framebuffer) (sched : Scheduler) (graphics : Bool)
    (asset : List UInt8) (overlay : Bool) :
    (displayInit (bootDisplay fb sched graphics) asset overlay).ui.windows = laidOut fb.geo :=
  refresh_windows rfl

theorem displayInit_geo (fb : Framebuffer) (sched : Scheduler) (graphics : Bool)
    (asset : List UInt8) (overlay : Bool) :
    (displayInit (bootDisplay fb sched graphics) asset overlay).geo = fb.geo :=
  (refresh_shuffled _).geo

/-- What every step keeps of a window, and holds as `display_init` lays it out, holds in every
run. -/
theorem started_each {fb : Framebuffer} {sched : Scheduler} {graphics : Bool}
    {asset : List UInt8} {overlay : Bool} {events : List DisplayEvent} {d : Display}
    (h : DisplayRun (displayInit (bootDisplay fb sched graphics) asset overlay) events d)
    (hP : ∀ {w w'}, WindowStep fb.geo w w' → P w → P w')
    (hlaid : ∀ i < winCount, i ≠ winDesktop → P (laidOut fb.geo i)) :
    d.geo = fb.geo ∧ ∀ i < winCount, i ≠ winDesktop → P (d.ui.windows i) := by
  have hwindows := displayInit_windows fb sched graphics asset overlay
  have hgeo := displayInit_geo fb sched graphics asset overlay
  generalize displayInit (bootDisplay fb sched graphics) asset overlay = start at h hwindows hgeo
  rw [← hgeo] at hP ⊢
  refine h.each hP ?_
  rwa [hwindows]

end Runs

/-- Whether `display_init` can place the windows so that all are usable. -/
theorem laidOut_usable (res : VideoResolution) :
    (∀ i < winCount, i ≠ winDesktop → Usable (fbDefaults res) (laidOut (fbDefaults res) i)) ↔
      res = .res800x600 ∨ res = .res1024x768 := by
  cases res <;> decide +kernel

instance (g : Geometry) (w : GuiWindow) : Decidable (WellPlaced g w) :=
  decidable_of_iff (0 ≤ w.x ∧ 0 ≤ w.y ∧ w.x ≤ s32 g.width + 1000 ∧
      w.y ≤ s32 g.height - s32 gfxTaskbarHeight + 1000 ∧
      (-1000 ≤ s32 w.w ∧ s32 w.w ≤ s32 g.width) ∧
      -1000 ≤ s32 w.h ∧ s32 w.h ≤ s32 g.height - s32 gfxTaskbarHeight)
    ⟨fun ⟨h1, h2, h3, h4, h5, h6⟩ => ⟨h1, h2, h3, h4, h5, h6⟩,
      fun ⟨h1, h2, h3, h4, h5, h6⟩ => ⟨h1, h2, h3, h4, h5, h6⟩⟩

theorem laidOut_placed (res : VideoResolution) :
    ∀ i < winCount, i ≠ winDesktop → WellPlaced (fbDefaults res) (laidOut (fbDefaults res) i) := by
  cases res <;> decide +kernel

theorem fbDefaults_signed (res : VideoResolution) : SignedSizes (fbDefaults res) := by
  cases res <;> exact ⟨by decide, by decide⟩

/-- No coordinate of a window ever wraps around, on any screen. -/
theorem windows_placed (res : VideoResolution) {front : Pixels} {back : Option Pixels}
    {dirty : Option DirtyRect} {sched : Scheduler} {graphics : Bool} {asset : List UInt8}
    {overlay : Bool} {events : List DisplayEvent} {d : Display}
    (h : DisplayRun (displayInit (bootDisplay ⟨fbDefaults res, front, back, dirty⟩ sched graphics)
      asset overlay) events d) :
    ∀ i < winCount, i ≠ winDesktop → WellPlaced (fbDefaults res) (d.ui.windows i) :=
  (started_each h (fun hstep hp => hstep.placed hp) (laidOut_placed res)).2

/-- The windows are laid out usable on the two largest screens only, and there no event changes
that: a window is clamped to its screen whenever it is moved or resized. -/
theorem windows_usable_iff (res : VideoResolution) (front : Pixels) (back : Option Pixels)
    (dirty : Option DirtyRect) (sched : Scheduler) (graphics : Bool) (asset : List UInt8)
    (overlay : Bool) :
    (∀ events d, DisplayRun (displayInit (bootDisplay ⟨fbDefaults res, front, back, dirty⟩ sched
        graphics) asset overlay) events d →
      ∀ i < winCount, i ≠ winDesktop → Usable d.geo (d.ui.windows i)) ↔
      res = .res800x600 ∨ res = .res1024x768 := by
  rw [← laidOut_usable]
  constructor
  · intro h
    have hstart := h [] _ (.nil _)
    rw [displayInit_windows, displayInit_geo] at hstart
    exact hstart
  · intro h events d hrun
    have hsigned := fbDefaults_signed res
    obtain ⟨hgeo, husable⟩ := started_each hrun (fun hstep hu => hstep.usable hsigned hu) h
    rwa [hgeo]

/-- On the smallest screen the last terminal lies beside the screen and has a negative width. -/
theorem windows_unusable : DisplayRun freshDisplay [] freshDisplay ∧
    (freshDisplay.ui.windows winTerminalLast).x = 444 ∧
    (freshDisplay.ui.windows winTerminalLast).w = 4294967172 ∧
    ¬Usable freshDisplay.geo (freshDisplay.ui.windows winTerminalLast) := by
  have hgeo : freshDisplay.geo = fbDefaults .res320x200 := displayInit_geo _ _ _ _ _
  have hwindows : freshDisplay.ui.windows = laidOut (fbDefaults .res320x200) :=
    displayInit_windows _ _ _ _ _
  rw [hgeo, hwindows]
  exact ⟨.nil _, by decide +kernel, by decide +kernel, by decide +kernel⟩

end VertexOS
