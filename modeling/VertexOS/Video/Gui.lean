import Mathlib

namespace VertexOS

/-- `(s32)u` and `(u32)i`. -/
def s32 (u : UInt32) : Int := u.toInt32.toInt
def u32 (i : Int) : UInt32 := UInt32.ofInt i

inductive WindowRole where
  | desktop
  | terminal
  | settings
  | processManager
  | generic
  deriving DecidableEq, Repr

/-- The title is a string once `display_init` has run. -/
structure GuiWindow where
  x : Int
  y : Int
  w : UInt32
  h : UInt32
  titleBg : UInt8
  bodyBg : UInt8
  border : UInt8
  title : List UInt8
  visible : Bool
  role : WindowRole
  slotId : Nat

/-- A window in zeroed memory. -/
def GuiWindow.zero : GuiWindow := ⟨0, 0, 0, 0, 0, 0, 0, [], false, .desktop, 0⟩

/-- The windows from the back to the front. -/
abbrev WindowList := Nat → GuiWindow

/-- The two windows at `index` change places. -/
def swapUp (ws : WindowList) (index : Nat) : WindowList :=
  Function.update (Function.update ws index (ws (index + 1))) (index + 1) (ws index)

/-- The loop of `gui_bring_window_to_front`, with the swaps that are left. -/
def bringLoop (ws : WindowList) (index : Nat) : Nat → WindowList
  | 0 => ws
  | swaps + 1 => bringLoop (swapUp ws index) (index + 1) swaps

def guiBringWindowToFront (ws : WindowList) (count firstMovableIndex index : Nat) : WindowList :=
  if index ≥ firstMovableIndex then bringLoop ws index (count - 1 - index) else ws

/-- The index of the window that the pointer names. -/
def guiFindWindowByRole (ws : WindowList) (count : Nat) (role : WindowRole)
    (fallbackIndex : Option Nat) : Option Nat :=
  match (List.range count).find? (fun i => (ws i).role = role) with
  | some i => some i
  | none => fallbackIndex.filter (· < count)

/-- The indices from `count - 1` down to `first`. -/
def indicesDown (count first : Nat) : List Nat := (List.range' first (count - first)).reverse

def guiFindTopmostVisibleAt (ws : WindowList) (count firstIndex : Nat) (x y : Int)
    (includeDesktop : Bool) : Option Nat :=
  (indicesDown count firstIndex).find? fun i =>
    let window := ws i
    window.visible ∧ ¬(includeDesktop = false ∧ window.role = .desktop) ∧
      x ≥ window.x ∧ x < window.x + s32 window.w ∧ y ≥ window.y ∧ y < window.y + s32 window.h

/-- A value is raised to 0 and then lowered to the bound. -/
def clampPosition (v max : Int) : Int :=
  let v := if v < 0 then 0 else v
  if v > max then max else v

def guiClampWindowPosition (window : GuiWindow) (x y : Int)
    (boundsW boundsH reservedBottom : UInt32) : Int × Int :=
  (clampPosition x (s32 boundsW - s32 window.w),
    clampPosition y (s32 boundsH - s32 reservedBottom - s32 window.h))

def clampSize (v min max : Int) : Int :=
  let v := if v < min then min else v
  if v > max then max else v

def guiClampWindowSize (window : GuiWindow) (w h : Int)
    (minW minH boundsW boundsH reservedBottom : UInt32) : Int × Int :=
  (clampSize w (s32 minW) (s32 boundsW - window.x),
    clampSize h (s32 minH) (s32 boundsH - s32 reservedBottom - window.y))

section Raise

variable {ws : WindowList} {index count first : Nat}

/-- A window is told from the others by its role and its slot. -/
def GuiWindow.key (w : GuiWindow) : WindowRole × Nat := (w.role, w.slotId)

/-- What is brought up goes to the end, what was above it goes one down. -/
theorem bringLoop_apply (ws : WindowList) (index swaps j : Nat) :
    bringLoop ws index swaps j =
      if j < index ∨ index + swaps < j then ws j
      else if j = index + swaps then ws index
      else ws (j + 1) := by
  induction swaps generalizing ws index with
  | zero =>
    simp only [bringLoop, Nat.add_zero]
    split
    · rfl
    · rw [if_pos (by omega), show j = index by omega]
  | succ swaps ih =>
    rw [bringLoop, ih]
    simp only [swapUp, Function.update_apply]
    split
    · split
      · omega
      · split <;> grind
    · split
      · grind
      · grind

theorem bringToFront_apply (h : first ≤ index) (hc : index < count) (j : Nat) :
    guiBringWindowToFront ws count first index j =
      if j < index ∨ count ≤ j then ws j
      else if j = count - 1 then ws index
      else ws (j + 1) := by
  rw [guiBringWindowToFront, if_pos h, bringLoop_apply]
  have he : index + (count - 1 - index) = count - 1 := by omega
  rw [he]
  apply if_congr _ rfl rfl
  omega

/-- The window that is brought up is in front. -/
theorem bringToFront_front (h : first ≤ index) (hc : index < count) :
    guiBringWindowToFront ws count first index (count - 1) = ws index := by
  rw [bringToFront_apply h hc, if_neg (by omega), if_pos rfl]

end Raise

end VertexOS
