import VertexOS.Drivers.Keyboard
import VertexOS.Library.Queues
import VertexOS.Video.NewTerminal

namespace VertexOS
open Library.Queues Display

def kbBufferSize : Nat := 128

abbrev KeyRing := Ring Int kbBufferSize

def emptyRing : KeyRing := ⟨fun _ => 0, 0, 0, by decide, by decide⟩

/-- `keyboard.c`: `shared` is `kb_buffer`, and every terminal has a ring of its own. -/
structure Keyboard where
  decoder : KeyDecoder
  shared : KeyRing
  terminals : Nat → KeyRing

namespace Keyboard

def init : Keyboard := ⟨.init, emptyRing, fun _ => emptyRing⟩

/-- The ring of a session; `none` is the shared one. -/
def ring (k : Keyboard) : Option Nat → KeyRing
  | none => k.shared
  | some session => k.terminals session

def setRing (k : Keyboard) (q : Option Nat) (r : KeyRing) : Keyboard :=
  match q with
  | none => { k with shared := r }
  | some session => { k with terminals := Function.update k.terminals session r }

/-- `keyboard_route_key`, whose look at the focus may move it. -/
def routeKey (k : Keyboard) (d : Display) (key : Int) : Keyboard × Display :=
  let q := keyboardRoute d
  (k.setRing q ((k.ring q).push key), d.displayGetFocusedTerminalSession.2)

/-- A turn of the loop of a reader: it runs with the interrupts off. -/
def readTurn (k : Keyboard) (q : Option Nat) : Option Int × Keyboard :=
  if (k.ring q).isEmpty then (none, k) else (some (k.ring q).front, k.setRing q (k.ring q).pop)

end Keyboard

/-- `display_terminal_session_for_task`. -/
def displayTerminalSessionForTask (u : Ui) (task : Option Nat) : Option Nat :=
  (List.range winTerminalSlots).find? fun i => u.taskIds i = task

/-- The ring that `keyboard_read_key` reads in the task, or, with a session,
`keyboard_read_key_for_terminal`. -/
def readQueue (u : Ui) (task : Option Nat) : Option UInt32 → Option Nat
  | none => displayTerminalSessionForTask u task
  | some session =>
    if session.toNat ≥ winTerminalSlots then displayTerminalSessionForTask u task
    else some session.toNat

/-- A key has been routed at the display as it was, or returned to a task from a ring. -/
inductive KeyEvent where
  | routed (d : Display) (key : Int)
  | returned (task q : Option Nat) (key : Int)

/-- The tasks that are inside a call of a reader, each with the ring it reads. -/
structure KeySystem where
  keyboard : Keyboard
  display : Display
  reading : Option Nat → Option (Option Nat)
  log : List KeyEvent

/-- The display becomes another one whenever the rest of the kernel makes it so. -/
inductive KeyAction where
  | irq (scancode : UInt8)
  | display (d : Display)
  | call (task : Option Nat) (session : Option UInt32)
  | turn (task : Option Nat)

namespace KeySystem

def init (d : Display) : KeySystem := ⟨.init, d, fun _ => none, []⟩

def irq (s : KeySystem) (scancode : UInt8) : KeySystem :=
  let r := keyboardIrqHandler s.keyboard.decoder scancode
  let k := { s.keyboard with decoder := r.1 }
  match r.2 with
  | none => { s with keyboard := k }
  | some key =>
    let next := k.routeKey s.display key
    { s with keyboard := next.1, display := next.2, log := s.log ++ [.routed s.display key] }

def turn (s : KeySystem) (task : Option Nat) : KeySystem :=
  match s.reading task with
  | none => s
  | some q =>
    match s.keyboard.readTurn q with
    | (none, _) => s
    | (some key, k) =>
      { s with
        keyboard := k
        reading := Function.update s.reading task none
        log := s.log ++ [.returned task q key] }

def next (s : KeySystem) : KeyAction → KeySystem
  | .irq scancode => s.irq scancode
  | .display d => { s with display := d }
  | .call task session =>
    if s.reading task = none then
      { s with
        reading := Function.update s.reading task (some (readQueue s.display.ui task session)) }
    else s
  | .turn task => s.turn task

def run (s : KeySystem) (actions : List KeyAction) : KeySystem := actions.foldl next s

end KeySystem

/-- The keys of a ring, as the history offers them and takes them. -/
def keyOp (q : Option Nat) : KeyEvent → Option (QueueOp Int)
  | .routed d key => if keyboardRoute d = q then some (.put key) else none
  | .returned _ q' key => if q' = q then some (.take key) else none

def keyOps (q : Option Nat) (log : List KeyEvent) : List (QueueOp Int) := log.filterMap (keyOp q)

/-- The keys that were routed to a ring, without those that found 127 others waiting. -/
def acceptedKeys (q : Option Nat) (log : List KeyEvent) : List Int :=
  (queueHistory (kbBufferSize - 1) (keyOps q log)).1

def returnedKeys (q : Option Nat) (log : List KeyEvent) : List Int :=
  (queueHistory (kbBufferSize - 1) (keyOps q log)).2

/-- The session has the focus, in a window that is visible. -/
def FocusedVisible (d : Display) (session : Nat) : Prop :=
  session < winTerminalSlots ∧ d.displayGetFocusedTerminalSession.1 = some session ∧
    ∃ i < winCount, (d.ui.windows i).key = (.terminal, session) ∧ (d.ui.windows i).visible = true

/-- The keys of every ring come back once, in order, and none is lost that found room. -/
structure KeysDelivered (s : KeySystem) : Prop where
  queues : ∀ q, acceptedKeys q s.log = returnedKeys q s.log ++ (s.keyboard.ring q).contents
  turns : ∀ task q, s.reading task = some q → (s.turn task).log =
    s.log ++ (s.keyboard.ring q).contents.head?.toList.map (.returned task q)
  calls : ∀ task session, session.toNat < winTerminalSlots → s.reading task = none →
    (s.next (.call task (some session))).reading task = some (some session.toNat)
  focus : ∀ d key, .routed d key ∈ s.log → ∀ session,
    keyboardRoute d = some session ↔ FocusedVisible d session

section Focus

variable {u : Ui} {d : Display} {session i : Nat}

/-- The focus that is made valid is on a window that is seen. -/
theorem ensureFocus_visible (h : u.ensureValidTerminalFocus.focused = some session)
    (hs : session < winTerminalSlots) :
    ∃ i < winCount, (u.windows i).key = (.terminal, session) ∧ (u.windows i).visible = true := by
  rw [Ui.ensureValidTerminalFocus] at h
  split at h
  case h_1 i hi =>
    rw [Ui.focusedWindow, h] at hi
    simp only [if_pos hs, Ui.terminalWindowForSession, if_neg (Nat.not_le.mpr hs),
      Option.filter_eq_some_iff, List.find?_eq_some_iff_append, decide_eq_true_eq] at hi
    obtain ⟨⟨⟨hrole, hslot⟩, before, after, hmem, -⟩, hvisible⟩ := hi
    have hlt : i ∈ List.range winCount := by rw [hmem]; simp
    exact ⟨i, List.mem_range.mp hlt, by rw [GuiWindow.key, hrole, hslot], hvisible⟩
  case h_2 hnone =>
    obtain ⟨i, htop, hsession⟩ := Option.bind_eq_some_iff.mp h
    have hmem := List.mem_of_find?_eq_some htop
    have hvisible := List.find?_some htop
    simp only [Ui.isVisibleTerminal, decide_eq_true_eq] at hvisible
    rw [indicesDown, List.mem_reverse, List.mem_range'_1] at hmem
    exact ⟨i, Nat.lt_of_lt_of_le hmem.2 (by decide), terminalSession_key hsession, hvisible.2⟩

theorem keyboardRoute_iff : keyboardRoute d = some session ↔ FocusedVisible d session := by
  rw [keyboardRoute, Option.filter_eq_some_iff, decide_eq_true_eq, FocusedVisible]
  constructor
  · intro h
    exact ⟨h.2, h.1, ensureFocus_visible h.1 h.2⟩
  · intro h
    exact ⟨h.2.1, h.1⟩

end Focus

section Queues

variable {k : Keyboard} {s : KeySystem} {q q' task : Option Nat} {r : KeyRing} {key : Int}
  {log : List KeyEvent} {e : KeyEvent}

@[simp] theorem ring_setRing :
    (k.setRing q r).ring q' = if q' = q then r else k.ring q' := by
  cases q <;> cases q' <;> simp [Keyboard.setRing, Keyboard.ring, Function.update_apply]

@[simp] theorem ring_decoder (decoder : KeyDecoder) :
    ({ k with decoder := decoder } : Keyboard).ring q = k.ring q := by
  cases q <;> rfl

@[simp] theorem keyOps_snoc : keyOps q (log ++ [e]) = keyOps q log ++ (keyOp q e).toList := by
  cases h : keyOp q e <;> simp [keyOps, h]

/-- Every ring holds what its history leaves waiting. -/
def RingsWait (k : Keyboard) (log : List KeyEvent) : Prop :=
  ∀ q, Library.Queues.Waits (kbBufferSize - 1) (keyOps q log) (k.ring q).contents

theorem RingsWait.routed (h : RingsWait k log) (d : Display) (key : Int) :
    RingsWait (k.routeKey d key).1 (log ++ [.routed d key]) := by
  intro q
  rw [keyOps_snoc, keyOp, Keyboard.routeKey, ring_setRing]
  by_cases hq : keyboardRoute d = q
  · rw [if_pos hq, if_pos hq.symm, hq]
    exact (h q).push
  · rw [if_neg hq, if_neg (Ne.symm hq)]
    simpa using h q

theorem RingsWait.returned (h : RingsWait k log) (task : Option Nat)
    (hne : (k.ring q').isEmpty = false) :
    RingsWait (k.setRing q' (k.ring q').pop)
      (log ++ [.returned task q' (k.ring q').front]) := by
  intro q
  rw [keyOps_snoc, keyOp, ring_setRing]
  by_cases hq : q' = q
  · rw [if_pos hq, if_pos hq.symm, ← hq]
    exact (h q').pop hne
  · rw [if_neg hq, if_neg (Ne.symm hq)]
    simpa using h q

theorem RingsWait.next (h : RingsWait s.keyboard s.log) (a : KeyAction) :
    RingsWait (s.next a).keyboard (s.next a).log := by
  cases a with
  | irq scancode =>
    rw [KeySystem.next, KeySystem.irq]
    have hd : RingsWait { s.keyboard with
        decoder := (keyboardIrqHandler s.keyboard.decoder scancode).1 } s.log := by
      intro q
      rw [ring_decoder]
      exact h q
    split
    · exact hd
    · exact hd.routed _ _
  | display d => exact h
  | call task session =>
    rw [KeySystem.next]
    split <;> exact h
  | turn task =>
    rw [KeySystem.next, KeySystem.turn]
    split
    · exact h
    · rename_i q hq
      rw [Keyboard.readTurn]
      cases hempty : (s.keyboard.ring q).isEmpty with
      | true => exact h
      | false => exact h.returned task hempty

theorem RingsWait.run (h : RingsWait s.keyboard s.log) (actions : List KeyAction) :
    RingsWait (s.run actions).keyboard (s.run actions).log := by
  induction actions generalizing s with
  | nil => exact h
  | cons a actions ih => exact ih (h.next a)

/-- A turn returns the key that has waited longest. -/
theorem turn_log (h : s.reading task = some q) : (s.turn task).log =
    s.log ++ (s.keyboard.ring q).contents.head?.toList.map (.returned task q) := by
  rw [KeySystem.turn, h]
  simp only [Keyboard.readTurn]
  cases hempty : (s.keyboard.ring q).isEmpty with
  | true => simp [(Ring.isEmpty_iff _).mp hempty]
  | false => simp [Ring.pop_contents _ hempty]

end Queues

/-- Whatever the keyboard, the focus and the readers do, every ring returns the keys that were
routed to it, in order and once, but for those that found 127 waiting. -/
theorem keys_delivered (d : Display) (actions : List KeyAction) :
    KeysDelivered ((KeySystem.init d).run actions) := by
  have hinit : RingsWait (KeySystem.init d).keyboard (KeySystem.init d).log := by
    intro q
    cases q <;> exact Waits.nil
  constructor
  case queues => exact hinit.run actions
  case turns =>
    intro task q h
    exact turn_log h
  case calls =>
    intro task session hs hfree
    simp [KeySystem.next, hfree, readQueue, hs]
  case focus =>
    intro d' key _ session
    exact keyboardRoute_iff

end VertexOS
