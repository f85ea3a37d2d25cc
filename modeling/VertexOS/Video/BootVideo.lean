import VertexOS.Fs.Isolation
import VertexOS.Drivers.Pci
import VertexOS.Video.Framebuffer

namespace VertexOS
open Library.BlockStore Library.Transitions

/-! The video settings in the boot sector, from the commands that save them to the next boot. -/

inductive VideoMode where
  | text
  | graphics
  deriving DecidableEq, Repr

def bootPrefSector : UInt32 := 0
def bootPrefOffset : Fin 512 := 508
def bootOverlayOffset : Fin 512 := 509

def bootFlagOverlayMask : UInt8 := 0x01
def bootFlagResShift : UInt8 := 1
def bootFlagResMask : UInt8 := 0x06

/-- The number of the enumeration constant. -/
def VideoResolution.value : VideoResolution → UInt8
  | .res320x200 => 0
  | .res640x480 => 1
  | .res800x600 => 2
  | .res1024x768 => 3

def decodeResolutionBits (flags : UInt8) : VideoResolution :=
  let value := (flags &&& bootFlagResMask) >>> bootFlagResShift
  if value = VideoResolution.res640x480.value then .res640x480
  else if value = VideoResolution.res800x600.value then .res800x600
  else if value = VideoResolution.res1024x768.value then .res1024x768
  else .res320x200

def encodeResolutionBits (resolution : VideoResolution) : UInt8 :=
  resolution.value <<< bootFlagResShift

structure VideoFbInfo where
  fbPhys : UInt32
  geo : Geometry
  bpp : UInt8

def vgaLfbDefault : UInt32 := 0xE0000000

def discoverVbeLfbAddr (p : PciBridge) : UInt32 :=
  match pciFindDevice p 0x1234 0x1111 with
  | none => vgaLfbDefault
  | some (bus, slot, func) =>
    let bar := pciConfigRead32 p bus slot func 0x10 &&& 0xFFFFFFF0
    if bar ≠ 0 then bar else vgaLfbDefault

def setFbDefaults (p : PciBridge) (resolution : VideoResolution) : VideoFbInfo where
  fbPhys := if resolution = .res320x200 then 0xA0000 else discoverVbeLfbAddr p
  geo := fbDefaults resolution
  bpp := 8

/-- `g_mode`, `g_resolution` and `g_fb_info`. -/
structure Video where
  mode : VideoMode
  resolution : VideoResolution
  fbInfo : VideoFbInfo

def videoInit (p : PciBridge) (bootVideoState : UInt32) : Video where
  mode := if bootVideoState &&& 0x01 ≠ 0 then .graphics else .text
  resolution := decodeResolutionBits bootVideoState.toUInt8
  fbInfo := setFbDefaults p (decodeResolutionBits bootVideoState.toUInt8)

def videoGetBootPreference (d : Drive) : Drive × Option VideoMode :=
  match blockdevRead d bootPrefSector with
  | (d, none) => (d, none)
  | (d, some sector) => (d, some (if sector bootPrefOffset = 1 then .graphics else .text))

def videoGetBootResolutionPreference (d : Drive) : Drive × Option VideoResolution :=
  match blockdevRead d bootPrefSector with
  | (d, none) => (d, none)
  | (d, some sector) => (d, some (decodeResolutionBits (sector bootOverlayOffset)))

def videoGetBootOverlayPreference (d : Drive) : Drive × Option Bool :=
  match blockdevRead d bootPrefSector with
  | (d, none) => (d, none)
  | (d, some sector) => (d, some (decide (sector bootOverlayOffset &&& bootFlagOverlayMask ≠ 0)))

/-- The three setters read the boot sector, change one byte and write the sector back. -/
def setBootByte (d : Drive) (offset : Fin 512) (f : UInt8 → UInt8) : Drive × Bool :=
  match blockdevRead d bootPrefSector with
  | (d, none) => (d, false)
  | (d, some sector) =>
    blockdevWrite d bootPrefSector (Function.update sector offset (f (sector offset)))

def videoSetBootPreference (d : Drive) (mode : VideoMode) : Drive × Bool :=
  setBootByte d bootPrefOffset fun _ => if mode = .graphics then 1 else 0

def videoSetBootResolutionPreference (d : Drive) (resolution : VideoResolution) : Drive × Bool :=
  setBootByte d bootOverlayOffset fun flags =>
    (flags &&& ~~~bootFlagResMask) ||| encodeResolutionBits resolution

def videoSetBootOverlayPreference (d : Drive) (enabled : Bool) : Drive × Bool :=
  setBootByte d bootOverlayOffset fun flags =>
    let flags := flags &&& ~~~bootFlagOverlayMask
    if enabled then flags ||| bootFlagOverlayMask else flags

/-- The display modes that the boot sector asks the BIOS for. -/
inductive BiosMode where
  | text80x25
  | vga320x200
  | vbe640x480
  | vbe800x600
  | vbe1024x768
  deriving DecidableEq, Repr

/-- The boot sector from `.set_320x200` on, and from the labels that fall back to it: the state it
hands to the kernel, and the mode the BIOS has set. `accepts` is the answer to a VBE call. -/
def set320x200 : UInt8 × BiosMode := (0x01, .vga320x200)

def set800x600 (accepts : BiosMode → Bool) : UInt8 × BiosMode :=
  if accepts .vbe800x600 then (0x01 ||| 0x04, .vbe800x600) else set320x200

def set640x480 (accepts : BiosMode → Bool) : UInt8 × BiosMode :=
  if accepts .vbe640x480 then (0x01 ||| 0x02, .vbe640x480) else set320x200

def set1024x768 (accepts : BiosMode → Bool) : UInt8 × BiosMode :=
  if accepts .vbe1024x768 then (0x01 ||| 0x06, .vbe1024x768) else set800x600 accepts

def bootSelect (accepts : BiosMode → Bool) (videoModePref bootFlags : UInt8) : UInt8 × BiosMode :=
  if videoModePref ≠ 1 then (0, .text80x25)
  else
    let al := bootFlags &&& 0x06
    if al = 0x02 then set640x480 accepts
    else if al = 0x04 then set800x600 accepts
    else if al = 0x06 then set1024x768 accepts
    else set320x200

/-- What the user asks for. -/
structure Settings where
  mode : VideoMode
  resolution : VideoResolution
  overlay : Bool
  deriving DecidableEq, Repr

inductive SettingCall where
  | mode (mode : VideoMode)
  | resolution (resolution : VideoResolution)
  | overlay (enabled : Bool)

def SettingCall.apply (st : Settings) : SettingCall → Settings
  | .mode m => { st with mode := m }
  | .resolution r => { st with resolution := r }
  | .overlay enabled => { st with overlay := enabled }

/-- The settings that a boot sector holds. -/
def settingsOf (sector : Sector) : Settings where
  mode := if sector bootPrefOffset = 1 then .graphics else .text
  resolution := decodeResolutionBits (sector bootOverlayOffset)
  overlay := decide (sector bootOverlayOffset &&& bootFlagOverlayMask ≠ 0)

def settingStep (d : Drive) : SettingCall → Drive × Bool
  | .mode mode => videoSetBootPreference d mode
  | .resolution resolution => videoSetBootResolutionPreference d resolution
  | .overlay enabled => videoSetBootOverlayPreference d enabled

/-- The resolution that the machine can show, with the fallbacks. -/
def shownResolution (accepts : BiosMode → Bool) : VideoResolution → VideoResolution
  | .res320x200 => .res320x200
  | .res640x480 => if accepts .vbe640x480 then .res640x480 else .res320x200
  | .res800x600 => if accepts .vbe800x600 then .res800x600 else .res320x200
  | .res1024x768 =>
    if accepts .vbe1024x768 then .res1024x768
    else if accepts .vbe800x600 then .res800x600 else .res320x200

/-- The mode of the BIOS in which a picture of the kernel's mode and size can be seen. -/
def biosModeOf : VideoMode → VideoResolution → BiosMode
  | .text, _ => .text80x25
  | .graphics, .res320x200 => .vga320x200
  | .graphics, .res640x480 => .vbe640x480
  | .graphics, .res800x600 => .vbe800x600
  | .graphics, .res1024x768 => .vbe1024x768

section Bytes

/-- The boot sector looks at the same bits as the kernel. -/
theorem flags_mask (flags : UInt8) :
    flags &&& 0x06 = encodeResolutionBits (decodeResolutionBits flags) := by
  have hall : ∀ n < 256, UInt8.ofNat n &&& 0x06 =
      encodeResolutionBits (decodeResolutionBits (UInt8.ofNat n)) := by
    decide +kernel
  have h := hall flags.toNat flags.toNat_lt
  rwa [UInt8.ofNat_toNat] at h

/-- Setting the resolution keeps the overlay, and the other way round. -/
theorem flags_resolution (flags : UInt8) (r : VideoResolution) :
    decodeResolutionBits ((flags &&& ~~~bootFlagResMask) ||| encodeResolutionBits r) = r ∧
      ((flags &&& ~~~bootFlagResMask) ||| encodeResolutionBits r) &&& bootFlagOverlayMask =
        flags &&& bootFlagOverlayMask := by
  have hall : ∀ n < 256,
      decodeResolutionBits ((UInt8.ofNat n &&& ~~~bootFlagResMask) ||| encodeResolutionBits r) = r ∧
      ((UInt8.ofNat n &&& ~~~bootFlagResMask) ||| encodeResolutionBits r) &&& bootFlagOverlayMask =
        UInt8.ofNat n &&& bootFlagOverlayMask := by
    cases r <;> decide +kernel
  have h := hall flags.toNat flags.toNat_lt
  rwa [UInt8.ofNat_toNat] at h

theorem flags_overlay (flags : UInt8) (enabled : Bool) :
    let flags' := if enabled then (flags &&& ~~~bootFlagOverlayMask) ||| bootFlagOverlayMask
      else flags &&& ~~~bootFlagOverlayMask
    decodeResolutionBits flags' = decodeResolutionBits flags ∧
      decide (flags' &&& bootFlagOverlayMask ≠ 0) = enabled := by
  have hall : ∀ n < 256,
      let flags' := if enabled then
          (UInt8.ofNat n &&& ~~~bootFlagOverlayMask) ||| bootFlagOverlayMask
        else UInt8.ofNat n &&& ~~~bootFlagOverlayMask
      decodeResolutionBits flags' = decodeResolutionBits (UInt8.ofNat n) ∧
        decide (flags' &&& bootFlagOverlayMask ≠ 0) = enabled := by
    cases enabled <;> decide +kernel
  have h := hall flags.toNat flags.toNat_lt
  rwa [UInt8.ofNat_toNat] at h

end Bytes

section Settings

variable {d d' : Drive} {ok : Bool}

/-- The byte at a place of the boot sector, behind a setter. -/
theorem setBootByte_cases {offset : Fin 512} {f : UInt8 → UInt8}
    (h : setBootByte d offset f = (d', ok)) :
    d'.faults = d.faults ∧ (∀ b, b ≠ 0 → d'.sectors b = d.sectors b) ∧
      d'.sectors 0 =
        if ok then Function.update (d.sectors 0) offset (f (d.sectors 0 offset))
        else d.sectors 0 := by
  unfold setBootByte at h
  cases hr : blockdevRead d bootPrefSector with
  | mk d1 r =>
    obtain ⟨hs, -, hf⟩ := blockdevRead_frame hr
    rw [hr] at h
    cases r with
    | none =>
      cases h
      exact ⟨hf, fun b _ => by rw [hs], by rw [hs]; rfl⟩
    | some sector =>
      have hsector := (blockdevRead_some hr).2
      have hzero : bootPrefSector.toNat = 0 := rfl
      rw [hzero] at hsector
      obtain ⟨e, done, hw, hf', -, hs'⟩ := blockdevWrite_cases d1 bootPrefSector
        (Function.update sector offset (f (sector offset)))
      dsimp only at h
      rw [h] at hw
      obtain ⟨rfl, rfl⟩ := Prod.mk.inj hw
      rw [hzero, hs] at hs'
      refine ⟨hf'.trans hf, fun b hb => ?_, ?_⟩
      · rw [hs']
        cases ok with
        | false => rfl
        | true => exact perform_other _ _ hb
      · rw [hs', hsector]
        cases ok with
        | false => rfl
        | true => exact perform_same _ _

/-- The sector as the setters change it: other bytes stay, and the settings read from it follow. -/
structure SettingDone (c : SettingCall) (b b' : Sector) : Prop where
  settings : settingsOf b' = c.apply (settingsOf b)
  code : ∀ k, k ≠ bootPrefOffset → k ≠ bootOverlayOffset → b' k = b k

theorem pref_ne_overlay : bootPrefOffset ≠ bootOverlayOffset := by decide

theorem settingDone_mode (b : Sector) (m : VideoMode) :
    SettingDone (.mode m) b
      (Function.update b bootPrefOffset (if m = .graphics then 1 else 0)) := by
  refine ⟨?_, fun k hk _ => Function.update_of_ne hk _ _⟩
  unfold settingsOf
  rw [Function.update_self, Function.update_of_ne pref_ne_overlay.symm]
  cases m <;> rfl

theorem settingDone_resolution (b : Sector) (r : VideoResolution) :
    SettingDone (.resolution r) b (Function.update b bootOverlayOffset
      ((b bootOverlayOffset &&& ~~~bootFlagResMask) ||| encodeResolutionBits r)) := by
  refine ⟨?_, fun k _ hk => Function.update_of_ne hk _ _⟩
  obtain ⟨hres, hoverlay⟩ := flags_resolution (b bootOverlayOffset) r
  unfold settingsOf
  rw [Function.update_self, Function.update_of_ne pref_ne_overlay, hres, hoverlay]
  rfl

theorem settingDone_overlay (b : Sector) (enabled : Bool) :
    SettingDone (.overlay enabled) b (Function.update b bootOverlayOffset
      (if enabled then (b bootOverlayOffset &&& ~~~bootFlagOverlayMask) ||| bootFlagOverlayMask
        else b bootOverlayOffset &&& ~~~bootFlagOverlayMask)) := by
  refine ⟨?_, fun k _ hk => Function.update_of_ne hk _ _⟩
  obtain ⟨hres, hoverlay⟩ := flags_overlay (b bootOverlayOffset) enabled
  unfold settingsOf
  rw [Function.update_self, Function.update_of_ne pref_ne_overlay, hres, hoverlay]
  rfl

/-- A setter that reports success has done what it says, and one that fails nothing. -/
theorem settingStep_cases {c : SettingCall} (h : settingStep d c = (d', ok)) :
    d'.faults = d.faults ∧ (∀ b, b ≠ 0 → d'.sectors b = d.sectors b) ∧
      if ok then SettingDone c (d.sectors 0) (d'.sectors 0) else d'.sectors 0 = d.sectors 0 := by
  cases c with
  | mode m =>
    simp only [settingStep, videoSetBootPreference] at h
    obtain ⟨hf, hother, hzero⟩ := setBootByte_cases h
    refine ⟨hf, hother, ?_⟩
    cases ok with
    | false => exact hzero
    | true => exact hzero.symm ▸ settingDone_mode (d.sectors 0) m
  | resolution r =>
    simp only [settingStep, videoSetBootResolutionPreference] at h
    obtain ⟨hf, hother, hzero⟩ := setBootByte_cases h
    refine ⟨hf, hother, ?_⟩
    cases ok with
    | false => exact hzero
    | true => exact hzero.symm ▸ settingDone_resolution (d.sectors 0) r
  | overlay enabled =>
    simp only [settingStep, videoSetBootOverlayPreference] at h
    obtain ⟨hf, hother, hzero⟩ := setBootByte_cases h
    refine ⟨hf, hother, ?_⟩
    cases ok with
    | false => exact hzero
    | true => exact hzero.symm ▸ settingDone_overlay (d.sectors 0) enabled

/-- What the getters tell, where the drive answers them. -/
structure Reports (st : Settings) (d : Drive) : Prop where
  mode : ∀ d' m, videoGetBootPreference d = (d', some m) → m = st.mode
  resolution : ∀ d' r, videoGetBootResolutionPreference d = (d', some r) → r = st.resolution
  overlay : ∀ d' enabled, videoGetBootOverlayPreference d = (d', some enabled) →
    enabled = st.overlay

theorem reports_settings (d : Drive) : Reports (settingsOf (d.sectors 0)) d := by
  have hread (d' : Drive) (b : Sector) (h : blockdevRead d bootPrefSector = (d', some b)) :
      b = d.sectors 0 := (blockdevRead_some h).2
  constructor
  · intro d' m h
    unfold videoGetBootPreference at h
    split at h
    · cases h
    · next d1 b hr =>
      rw [hread d1 b hr] at h
      cases h
      rfl
  · intro d' r h
    unfold videoGetBootResolutionPreference at h
    split at h
    · cases h
    · next d1 b hr =>
      rw [hread d1 b hr] at h
      cases h
      rfl
  · intro d' enabled h
    unfold videoGetBootOverlayPreference at h
    split at h
    · cases h
    · next d1 b hr =>
      rw [hread d1 b hr] at h
      cases h
      rfl

end Settings

section Boot

/-- What the boot sector hands over, and what the kernel makes of it. -/
structure Handed (boot : UInt8 × BiosMode) (r : VideoResolution) : Prop where
  graphics : boot.1.toUInt32 &&& 0x01 ≠ 0
  resolution : decodeResolutionBits boot.1.toUInt32.toUInt8 = r
  shown : boot.2 = biosModeOf .graphics r

theorem handed_320x200 : Handed set320x200 .res320x200 := ⟨by decide, by decide, rfl⟩

theorem handed_vbe : Handed (0x01 ||| 0x02, .vbe640x480) .res640x480 ∧
    Handed (0x01 ||| 0x04, .vbe800x600) .res800x600 ∧
    Handed (0x01 ||| 0x06, .vbe1024x768) .res1024x768 :=
  ⟨⟨by decide, by decide, rfl⟩, ⟨by decide, by decide, rfl⟩, by decide, by decide, rfl⟩

theorem handed_800x600 (accepts : BiosMode → Bool) :
    Handed (set800x600 accepts) (shownResolution accepts .res800x600) := by
  unfold set800x600 shownResolution
  cases accepts .vbe800x600 with
  | false => exact handed_320x200
  | true => exact handed_vbe.2.1

theorem handed_640x480 (accepts : BiosMode → Bool) :
    Handed (set640x480 accepts) (shownResolution accepts .res640x480) := by
  unfold set640x480 shownResolution
  cases accepts .vbe640x480 with
  | false => exact handed_320x200
  | true => exact handed_vbe.1

theorem handed_1024x768 (accepts : BiosMode → Bool) :
    Handed (set1024x768 accepts) (shownResolution accepts .res1024x768) := by
  unfold set1024x768 shownResolution
  cases accepts .vbe1024x768 with
  | false => exact handed_800x600 accepts
  | true => exact handed_vbe.2.2

/-- In graphics the resolution is the one asked for where the machine has it. -/
theorem bootSelect_graphics (accepts : BiosMode → Bool) (flags : UInt8) :
    Handed (bootSelect accepts 1 flags) (shownResolution accepts (decodeResolutionBits flags)) := by
  unfold bootSelect
  rw [if_neg (by decide), flags_mask]
  cases decodeResolutionBits flags with
  | res320x200 => exact handed_320x200
  | res640x480 => exact handed_640x480 accepts
  | res800x600 => exact handed_800x600 accepts
  | res1024x768 => exact handed_1024x768 accepts

/-- What the kernel shows after a boot with these settings. -/
structure BootsInto (accepts : BiosMode → Bool) (st : Settings) (v : Video) (shown : BiosMode) :
    Prop where
  mode : v.mode = st.mode
  resolution : v.mode = .graphics → v.resolution = shownResolution accepts st.resolution
  bios : shown = biosModeOf v.mode v.resolution

/-- The kernel runs in the mode that the BIOS has set, and that is the one asked for. -/
theorem boot_shows (p : PciBridge) (accepts : BiosMode → Bool) (b : Sector) :
    BootsInto accepts (settingsOf b)
      (videoInit p (bootSelect accepts (b bootPrefOffset) (b bootOverlayOffset)).1.toUInt32)
      (bootSelect accepts (b bootPrefOffset) (b bootOverlayOffset)).2 := by
  by_cases hpref : b bootPrefOffset = 1
  · have h := bootSelect_graphics accepts (b bootOverlayOffset)
    rw [hpref]
    have hmode : (settingsOf b).mode = .graphics := if_pos hpref
    have hv : (videoInit p (bootSelect accepts 1 (b bootOverlayOffset)).1.toUInt32).mode =
        .graphics := if_pos h.graphics
    refine ⟨hv.trans hmode.symm, fun _ => h.resolution, ?_⟩
    rw [hv, h.shown, videoInit, h.resolution]
  · have hmode : (settingsOf b).mode = .text := if_neg hpref
    have hboot : bootSelect accepts (b bootPrefOffset) (b bootOverlayOffset) = (0, .text80x25) :=
      if_pos hpref
    rw [hboot]
    refine ⟨hmode.symm, fun h => ?_, rfl⟩
    cases h

end Boot

section Runs

variable {s s' : SimpleFs} {xs : List ((SettingCall × Bool) ⊕ SfsCall)}

/-- The commands that save settings, with what they report, among the calls of the file system. -/
def diskStep (s : SimpleFs) (x : (SettingCall × Bool) ⊕ SfsCall) (s' : SimpleFs) : Prop :=
  match x with
  | .inl (c, ok) => ∃ d, settingStep s.dev c = (d, ok) ∧ s' = { s with dev := d }
  | .inr c => boundedStep s c s'

/-- The settings that were reported saved, one after another. -/
def saved (st : Settings) (xs : List ((SettingCall × Bool) ⊕ SfsCall)) : Settings :=
  xs.foldl (fun st x => match x with | .inl (c, true) => c.apply st | _ => st) st

/-- The bytes of the boot sector besides the two settings. -/
def SameCode (b b' : Sector) : Prop :=
  ∀ k, k ≠ bootPrefOffset → k ≠ bootOverlayOffset → b' k = b k

theorem diskStep_keeps {x : (SettingCall × Bool) ⊕ SfsCall} (hs : Intact s)
    (h : diskStep s x s') : Intact s' ∧ SameCode (s.dev.sectors 0) (s'.dev.sectors 0) ∧
      settingsOf (s'.dev.sectors 0) = saved (settingsOf (s.dev.sectors 0)) [x] := by
  cases x with
  | inl y =>
    obtain ⟨c, ok⟩ := y
    obtain ⟨d, hd, rfl⟩ := h
    obtain ⟨-, -, hcase⟩ := settingStep_cases hd
    refine ⟨⟨hs.tree, hs.allocation⟩, ?_⟩
    cases ok with
    | false =>
      have hsame : d.sectors 0 = s.dev.sectors 0 := hcase
      exact ⟨fun k _ _ => congrFun hsame k, congrArg settingsOf hsame⟩
    | true =>
      have hdone : SettingDone c (s.dev.sectors 0) (d.sectors 0) := hcase
      exact ⟨hdone.code, hdone.settings⟩
  | inr c =>
    obtain ⟨hs', hcase⟩ := hs.step h
    have hzero : s'.dev.sectors 0 = s.dev.sectors 0 := by
      rcases hcase with rfl | ⟨n, -, hat⟩
      · rfl
      · exact hat.low.sectors 0 (by decide)
    exact ⟨hs', fun k _ _ => congrFun hzero k, congrArg settingsOf hzero⟩

theorem diskRun_keeps (hs : Intact s) (hrun : Run diskStep s xs s') :
    Intact s' ∧ SameCode (s.dev.sectors 0) (s'.dev.sectors 0) ∧
      settingsOf (s'.dev.sectors 0) = saved (settingsOf (s.dev.sectors 0)) xs := by
  induction hrun with
  | nil s => exact ⟨hs, fun _ _ _ => rfl, rfl⟩
  | cons head tail ih =>
    obtain ⟨hs1, hcode1, hset1⟩ := diskStep_keeps hs head
    obtain ⟨hs2, hcode2, hset2⟩ := ih hs1
    refine ⟨hs2, fun k hp ho => (hcode2 k hp ho).trans (hcode1 k hp ho), ?_⟩
    rw [hset2, hset1]
    rfl

/-- Whatever settings are saved between whatever calls of the file system, and whichever accesses
the drive refuses: the getters tell the last settings that were reported saved, and the next boot
comes up in their mode as far as the machine has it, with the kernel drawing in the mode that the
BIOS has set. The code in the boot sector stays. -/
theorem boot_follows_settings (hs : Intact s) (hrun : Run diskStep s xs s') (p : PciBridge)
    (accepts : BiosMode → Bool) :
    SameCode (s.dev.sectors 0) (s'.dev.sectors 0) ∧
      Reports (saved (settingsOf (s.dev.sectors 0)) xs) s'.dev ∧
      BootsInto accepts (saved (settingsOf (s.dev.sectors 0)) xs)
        (videoInit p (bootSelect accepts (s'.dev.sectors 0 bootPrefOffset)
          (s'.dev.sectors 0 bootOverlayOffset)).1.toUInt32)
        (bootSelect accepts (s'.dev.sectors 0 bootPrefOffset)
          (s'.dev.sectors 0 bootOverlayOffset)).2 := by
  obtain ⟨-, hcode, hsettings⟩ := diskRun_keeps hs hrun
  rw [← hsettings]
  exact ⟨hcode, reports_settings s'.dev, boot_shows p accepts (s'.dev.sectors 0)⟩

/-- The drive loses the second setting; the machine has no VBE mode of 800 by 600. -/
theorem boot_follows_settings_lost :
    let dev : Drive := { blankDrive with faults := fun k => k = 3 }
    let accepts : BiosMode → Bool := fun m => m ≠ .vbe800x600
    ∃ s', Run diskStep (formatted 0 dev) [.inl (.mode .graphics, true),
        .inl (.mode .text, false), .inl (.resolution .res800x600, true)] s' ∧
      BootsInto accepts ⟨.graphics, .res800x600, false⟩
        (videoInit ⟨fun _ _ _ _ => 0xFFFFFFFF, 0⟩ (bootSelect accepts
          (s'.dev.sectors 0 bootPrefOffset) (s'.dev.sectors 0 bootOverlayOffset)).1.toUInt32)
        (bootSelect accepts (s'.dev.sectors 0 bootPrefOffset)
          (s'.dev.sectors 0 bootOverlayOffset)).2 := by
  intro dev accepts
  obtain ⟨s', hrun⟩ : ∃ s', Run diskStep (formatted 0 dev) [.inl (.mode .graphics, true),
      .inl (.mode .text, false), .inl (.resolution .res800x600, true)] s' :=
    ⟨_, .cons ⟨_, rfl, rfl⟩ (.cons ⟨_, rfl, rfl⟩ (.cons ⟨_, rfl, rfl⟩ (.nil _)))⟩
  have hs : Intact (formatted 0 dev) := ⟨formatted_tree dev, formatted_allocation dev⟩
  have hsaved : saved (settingsOf ((formatted 0 dev).dev.sectors 0))
      [.inl (.mode .graphics, true), .inl (.mode .text, false),
        .inl (.resolution .res800x600, true)] = ⟨.graphics, .res800x600, false⟩ := by
    decide
  have h := (boot_follows_settings hs hrun ⟨fun _ _ _ _ => 0xFFFFFFFF, 0⟩ accepts).2.2
  rw [hsaved] at h
  exact ⟨s', hrun, h⟩

end Runs

end VertexOS
