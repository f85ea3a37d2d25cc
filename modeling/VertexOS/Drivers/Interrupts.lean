import VertexOS.Library.Transitions

namespace VertexOS

/-! The interrupt controllers and the descriptor table that `interrupts_init` sets up, and what the
machine does with a request from then on. -/

/-- The initialization words that a controller takes at its data port. -/
inductive Icw where
  | icw2 | icw3 | icw4
  deriving DecidableEq, Repr

/-- An 8259 interrupt controller. -/
structure Pic where
  /-- The mask. -/
  imr : UInt8
  /-- The lines with a request, and those in service. -/
  irr : Fin 8 → Bool
  isr : Fin 8 → Bool
  /-- The initialization words. -/
  icw1 : UInt8
  offset : UInt8
  wiring : UInt8
  mode : UInt8
  /-- The word expected next. -/
  expects : Option Icw

namespace Pic

def afterWiring (p : Pic) : Option Icw := if p.icw1 &&& 0x01 ≠ 0 then some .icw4 else none

/-- The end of the service that comes first. -/
def endService (p : Pic) : Pic :=
  match (List.finRange 8).find? p.isr with
  | some i => { p with isr := Function.update p.isr i false }
  | none => p

/-- A write to the command port. A first initialization word empties the mask and the edge
detectors; the only other command that the driver sends is the end of an interrupt. -/
def outCommand (p : Pic) (v : UInt8) : Pic :=
  if v &&& 0x10 ≠ 0 then
    { p with imr := 0, irr := fun _ => false, icw1 := v, expects := some .icw2 }
  else if v = 0x20 then p.endService
  else p

def outData (p : Pic) (v : UInt8) : Pic :=
  match p.expects with
  | none => { p with imr := v }
  | some .icw2 =>
    { p with
      offset := v &&& 0xF8
      expects := if p.icw1 &&& 0x02 = 0 then some .icw3 else p.afterWiring }
  | some .icw3 => { p with wiring := v, expects := p.afterWiring }
  | some .icw4 => { p with mode := v, expects := none }

def inData (p : Pic) : UInt8 := p.imr

def masked (p : Pic) (i : Fin 8) : Bool := p.imr >>> UInt8.ofNat i.val &&& 1 != 0

/-- The line for which the controller asks to interrupt. A line in service holds back itself and
the lines behind it. -/
def candidate (p : Pic) (request : Fin 8 → Bool) : Option (Fin 8) :=
  match (List.finRange 8).find? fun i => p.isr i || (request i && !p.masked i) with
  | some i => if p.isr i then none else some i
  | none => none

def serve (p : Pic) (i : Fin 8) : Pic :=
  { p with irr := Function.update p.irr i false, isr := Function.update p.isr i true }

/-- The vector, in the mode for this processor. -/
def vector (p : Pic) (i : Fin 8) : Option UInt8 :=
  if p.mode &&& 0x01 ≠ 0 then some (p.offset + UInt8.ofNat i.val) else none

end Pic

/-- The two controllers; the second one is wired to line 2 of the first. -/
structure Pics where
  master : Pic
  slave : Pic

/-- The lines that devices are wired to. -/
abbrev IrqLine := { n : Fin 16 // n.val ≠ 2 }

namespace Pics

def setRequest (p : Pics) (l : IrqLine) (on : Bool) : Pics :=
  if l.val.val < 8 then
    { p with
      master := { p.master with irr := Function.update p.master.irr (Fin.ofNat 8 l.val.val) on } }
  else
    { p with
      slave := { p.slave with
        irr := Function.update p.slave.irr (Fin.ofNat 8 (l.val.val - 8)) on } }

def request (p : Pics) (l : IrqLine) : Bool :=
  if l.val.val < 8 then p.master.irr (Fin.ofNat 8 l.val.val)
  else p.slave.irr (Fin.ofNat 8 (l.val.val - 8))

def masterRequest (p : Pics) (i : Fin 8) : Bool :=
  if i = 2 then (p.slave.candidate p.slave.irr).isSome else p.master.irr i

/-- The answer to the processor that accepts an interrupt, if there is one: a line with a controller
behind it is answered by that controller. -/
def acknowledge (p : Pics) : Option (Pics × Option UInt8) :=
  (p.master.candidate p.masterRequest).map fun (i : Fin 8) =>
    if p.master.wiring >>> UInt8.ofNat i.val &&& 1 ≠ 0 then
      match p.slave.candidate p.slave.irr with
      | some j =>
        if p.slave.wiring &&& 0x07 = UInt8.ofNat i.val then
          (⟨p.master.serve i, p.slave.serve j⟩, p.slave.vector j)
        else ({ p with master := p.master.serve i }, none)
      | none => ({ p with master := p.master.serve i }, none)
    else ({ p with master := p.master.serve i }, p.master.vector i)

end Pics

def picRemap (p : Pics) (masterOffset slaveOffset : UInt8) : Pics :=
  let masterMask := p.master.inData
  let slaveMask := p.slave.inData
  let p := { p with master := p.master.outCommand (0x10 ||| 0x01) }
  let p := { p with slave := p.slave.outCommand (0x10 ||| 0x01) }
  let p := { p with master := p.master.outData masterOffset }
  let p := { p with slave := p.slave.outData slaveOffset }
  let p := { p with master := p.master.outData 4 }
  let p := { p with slave := p.slave.outData 2 }
  let p := { p with master := p.master.outData 0x01 }
  let p := { p with slave := p.slave.outData 0x01 }
  let p := { p with master := p.master.outData masterMask }
  { p with slave := p.slave.outData slaveMask }

def picSetMask (p : Pics) (irqLine : UInt8) : Pics :=
  if irqLine < 8 then
    let value := (p.master.inData.toUInt32 ||| 1 <<< irqLine.toUInt32).toUInt8
    { p with master := p.master.outData value }
  else
    let value := (p.slave.inData.toUInt32 ||| 1 <<< (irqLine - 8).toUInt32).toUInt8
    { p with slave := p.slave.outData value }

def picClearMask (p : Pics) (irqLine : UInt8) : Pics :=
  if irqLine < 8 then
    let value := p.master.inData &&& (~~~((1 : UInt32) <<< irqLine.toUInt32)).toUInt8
    { p with master := p.master.outData value }
  else
    let value := p.slave.inData &&& (~~~((1 : UInt32) <<< (irqLine - 8).toUInt32)).toUInt8
    { p with slave := p.slave.outData value }

def picSendEoi (p : Pics) (irqLine : UInt8) : Pics :=
  let p := if irqLine ≥ 8 then { p with slave := p.slave.outCommand 0x20 } else p
  { p with master := p.master.outCommand 0x20 }

/-- `idt_entry`. -/
structure IdtEntry where
  baseLo : UInt16
  selector : UInt16
  zero : UInt8
  flags : UInt8
  baseHi : UInt16
  deriving DecidableEq, Repr

def kernelCs : UInt16 := 0x08
def idtFlagIntGate : UInt8 := 0x8E
def idtFlagUserIntGate : UInt8 := 0xEE

def idtSetGate (idt : UInt8 → IdtEntry) (index : UInt8) (handler : UInt32) (selector : UInt16)
    (flags : UInt8) : UInt8 → IdtEntry :=
  Function.update idt index
    { baseLo := (handler &&& 0xFFFF).toUInt16
      selector
      zero := 0
      flags
      baseHi := ((handler >>> 16) &&& 0xFFFF).toUInt16 }

/-- Where the processor goes through the entry, and whether interrupts stay on there; nothing for an
entry that is no gate into the kernel's code. -/
def IdtEntry.enter (e : IdtEntry) : Option (UInt32 × Bool) :=
  if e.flags &&& 0x8E = 0x8E ∧ e.selector = kernelCs then
    some (e.baseLo.toUInt32 ||| e.baseHi.toUInt32 <<< 16, decide (e.flags &&& 0x01 ≠ 0))
  else none

/-- The stubs of `interrupts.asm`. -/
inductive Stub where
  | irq0 | irq1 | irq12 | isr128
  deriving DecidableEq, Repr

/-- Where the stubs lie. -/
structure Stubs where
  address : Stub → UInt32
  apart : Function.Injective address

/-- The timer chip: the control word, the first half of a count, and the count. -/
structure Pit where
  control : UInt8
  half : Option UInt8
  count : Nat

def Pit.outControl (t : Pit) (v : UInt8) : Pit := { t with control := v, half := none }

/-- Channel 0 takes its count in two halves. -/
def Pit.outChannel0 (t : Pit) (v : UInt8) : Pit :=
  match t.half with
  | none => { t with half := some v }
  | some lo => { t with half := none, count := lo.toNat + 256 * v.toNat }

/-- The machine as far as interrupts go, with the variables of `pit.c`. The innermost handler comes
first, each with the interrupt flag of what it interrupted. -/
structure Interrupts where
  pics : Pics
  idt : UInt8 → IdtEntry
  limit : UInt16
  pit : Pit
  pitFrequency : UInt32
  pitTicks : UInt32
  flag : Bool
  handlers : List (UInt32 × Bool)

def pitBaseHz : UInt32 := 1193182

def pitInit (k : Interrupts) (frequencyHz : UInt32) : Interrupts :=
  let frequencyHz := if frequencyHz = 0 then 100 else frequencyHz
  let divisor := pitBaseHz / frequencyHz
  let divisor := if divisor = 0 then 1 else divisor
  { k with
    pitFrequency := frequencyHz
    pit := ((k.pit.outControl 0x36).outChannel0 (divisor &&& 0xFF).toUInt8).outChannel0
      ((divisor >>> 8) &&& 0xFF).toUInt8 }

/-- The masks that `interrupts_init` sets: all lines but the timer, the keyboard, the second
controller and the mouse. -/
def maskLines (p : Pics) : Pics :=
  let p := (List.range 16).foldl (fun p i => picSetMask p (UInt8.ofNat i)) p
  picClearMask (picClearMask (picClearMask (picClearMask p 0) 1) 2) 12

/-- `interrupts_init`; nothing where its assertion fails. -/
def interruptsInit (st : Stubs) (k : Interrupts) : Option Interrupts :=
  let idt := (List.range 256).foldl (fun t i => idtSetGate t (UInt8.ofNat i) 0 0 0) k.idt
  let idt := idtSetGate idt 32 (st.address .irq0) kernelCs idtFlagIntGate
  let idt := idtSetGate idt 33 (st.address .irq1) kernelCs idtFlagIntGate
  let idt := idtSetGate idt 44 (st.address .irq12) kernelCs idtFlagIntGate
  let idt := idtSetGate idt 0x80 (st.address .isr128) kernelCs idtFlagUserIntGate
  let k := { k with idt, limit := 8 * 256 - 1 }
  let pics := maskLines (picRemap k.pics 0x20 0x28)
  let k : Interrupts := { pitInit { k with pics } 100 with flag := true }
  if k.pitFrequency ≠ 0 then some k else none

/-- `irq_timer_handler`, `irq_keyboard_handler` and `irq_mouse_handler`, as far as this machine
goes; nothing at any other address. -/
def Interrupts.handle (st : Stubs) (k : Interrupts) (address : UInt32) : Option Interrupts :=
  if address = st.address .irq0 then
    some { k with pitTicks := k.pitTicks + 1, pics := picSendEoi k.pics 0 }
  else if address = st.address .irq1 then some { k with pics := picSendEoi k.pics 1 }
  else if address = st.address .irq12 then some { k with pics := picSendEoi k.pics 12 }
  else none

inductive LineEvent where
  /-- A device asks, or gives up before it was heard. -/
  | raise (l : IrqLine)
  | withdraw (l : IrqLine)
  /-- The processor accepts an interrupt. -/
  | accept
  /-- The innermost handler ends. -/
  | finish
  /-- The code outside of the handlers sets or clears the interrupt flag. -/
  | setFlag (on : Bool)

/-- The processor has nowhere to go. -/
inductive Crash where
  | noVector
  | noGate (vector : UInt8)
  | noHandler (address : UInt32)

/-- One event, where it can happen. -/
def Interrupts.step (st : Stubs) (k : Interrupts) : LineEvent → Except Crash (Option Interrupts)
  | .raise l => .ok (some { k with pics := k.pics.setRequest l true })
  | .withdraw l => .ok (some { k with pics := k.pics.setRequest l false })
  | .accept =>
    match k.flag, k.pics.acknowledge with
    | true, some (_, none) => .error .noVector
    | true, some (pics, some v) =>
      match if 8 * v.toNat + 7 ≤ k.limit.toNat then (k.idt v).enter else none with
      | none => .error (.noGate v)
      | some (address, on) =>
        .ok (some { k with pics, flag := on, handlers := (address, k.flag) :: k.handlers })
    | _, _ => .ok none
  | .finish =>
    match k.handlers with
    | [] => .ok none
    | (address, flag) :: handlers =>
      match k.handle st address with
      | none => .error (.noHandler address)
      | some k => .ok (some { k with flag, handlers })
  | .setFlag on => .ok (if k.handlers = [] then some { k with flag := on } else none)

def Interrupts.run (st : Stubs) (k : Interrupts) : List LineEvent → Except Crash (Option Interrupts)
  | [] => .ok (some k)
  | e :: es =>
    match k.step st e with
    | .error c => .error c
    | .ok none => .ok none
    | .ok (some k) => k.run st es

/-! What it is for: three devices that take turns by rank. -/

inductive IrqDevice where
  | timer | keyboard | mouse
  deriving DecidableEq, Repr

namespace IrqDevice

def line : IrqDevice → IrqLine
  | timer => ⟨⟨0, by decide⟩, by decide⟩
  | keyboard => ⟨⟨1, by decide⟩, by decide⟩
  | mouse => ⟨⟨12, by decide⟩, by decide⟩

def stub : IrqDevice → Stub
  | timer => .irq0
  | keyboard => .irq1
  | mouse => .irq12

def vector : IrqDevice → UInt8
  | timer => 32
  | keyboard => 33
  | mouse => 44

end IrqDevice

/-- The lines with a request, the device whose handler runs, the interrupt flag, and the ticks that
were counted. -/
structure Lines where
  waiting : IrqLine → Bool
  serving : Option IrqDevice
  flag : Bool
  ticks : UInt32

namespace Lines

/-- The device that comes next. -/
def next (a : Lines) : Option IrqDevice :=
  [IrqDevice.timer, .keyboard, .mouse].find? fun d => a.waiting d.line

def step (a : Lines) : LineEvent → Option Lines
  | .raise l => some { a with waiting := Function.update a.waiting l true }
  | .withdraw l => some { a with waiting := Function.update a.waiting l false }
  | .accept =>
    if a.flag then
      a.next.map fun d => { a with
        waiting := Function.update a.waiting d.line false, serving := some d, flag := false }
    else none
  | .finish => a.serving.map fun d => { a with
      serving := none, flag := true, ticks := if d = .timer then a.ticks + 1 else a.ticks }
  | .setFlag on => if a.serving = none then some { a with flag := on } else none

def run (a : Lines) : List LineEvent → Option Lines
  | [] => some a
  | e :: es => (a.step e).bind fun a => a.run es

end Lines

section Chips

variable {p : Pics} {l : IrqLine}

theorem setRequest_request (p : Pics) (l : IrqLine) (on : Bool) :
    (p.setRequest l on).request = Function.update p.request l on := by
  funext l'
  have hl := l.val.isLt
  have hl' := l'.val.isLt
  by_cases h : l' = l
  · subst h
    unfold Pics.setRequest Pics.request
    split <;> simp_all
  · have hne : l'.val.val ≠ l.val.val := fun he => h (Subtype.ext (Fin.ext he))
    rw [Function.update_of_ne h]
    unfold Pics.setRequest Pics.request
    split <;> split <;> simp_all [Fin.ext_iff, Function.update_apply] <;> omega

/-- The controllers as `interrupts_init` leaves them. -/
structure Pics.Ready (p : Pics) : Prop where
  master : p.master.imr = 0xF8 ∧ p.master.offset = 0x20 ∧ p.master.wiring = 4 ∧ p.master.mode = 1
  slave : p.slave.imr = 0xEF ∧ p.slave.offset = 0x28 ∧ p.slave.wiring = 2 ∧ p.slave.mode = 1

/-- The lines in service while a device's handler runs. -/
def masterService : Option IrqDevice → Fin 8 → Bool
  | none, _ => false
  | some .timer, i => decide (i = 0)
  | some .keyboard, i => decide (i = 1)
  | some .mouse, i => decide (i = 2)

def slaveService : Option IrqDevice → Fin 8 → Bool
  | some .mouse, i => decide (i = 4)
  | _, _ => false

def Pics.Serves (p : Pics) (d : Option IrqDevice) : Prop :=
  p.master.isr = masterService d ∧ p.slave.isr = slaveService d

/-- The controllers behind the acknowledgement of a device. -/
def Pics.taken (p : Pics) : IrqDevice → Pics
  | .timer => { p with master := p.master.serve 0 }
  | .keyboard => { p with master := p.master.serve 1 }
  | .mouse => ⟨p.master.serve 2, p.slave.serve 4⟩

theorem finRange_eight : List.finRange 8 = [0, 1, 2, 3, 4, 5, 6, 7] := rfl

/-- Nothing in service: the first line that the mask lets through. -/
theorem candidate_idle {p : Pic} (h : p.isr = fun _ => false) (request : Fin 8 → Bool) :
    p.candidate request =
      (List.finRange 8).find? fun i => request i && !p.masked i := by
  simp only [Pic.candidate, h, Bool.false_or, Bool.false_eq_true, if_false]
  cases (List.finRange 8).find? fun i => request i && !p.masked i <;> rfl

theorem slave_candidate (hr : p.Ready) (hs : p.Serves none) :
    p.slave.candidate p.slave.irr = if p.slave.irr 4 then some 4 else none := by
  have hmask : p.slave.masked = fun i => i != 4 := by
    funext i
    rw [Pic.masked, hr.slave.1]
    revert i
    decide
  rw [candidate_idle hs.2, hmask, finRange_eight]
  cases h : p.slave.irr 4 <;> simp [List.find?, h]

theorem master_candidate (hr : p.Ready) (hs : p.Serves none) :
    p.master.candidate p.masterRequest =
      if p.master.irr 0 then some 0 else if p.master.irr 1 then some 1
      else if p.slave.irr 4 then some 2 else none := by
  have hmask : p.master.masked = fun i => decide (3 ≤ i) := by
    funext i
    rw [Pic.masked, hr.master.1]
    revert i
    decide
  have hslave := slave_candidate hr hs
  rw [candidate_idle hs.1, hmask, finRange_eight]
  cases h0 : p.master.irr 0 <;> cases h1 : p.master.irr 1 <;> cases h4 : p.slave.irr 4 <;>
    simp [List.find?, Pics.masterRequest, hslave, h0, h1, h4]

/-- With nothing in service the next device is acknowledged, with its vector. -/
theorem acknowledge_ready {a : Lines} (hr : p.Ready) (hs : p.Serves none)
    (hw : p.request = a.waiting) :
    p.acknowledge = a.next.map fun d => (p.taken d, some d.vector) := by
  have h0 : a.waiting IrqDevice.timer.line = p.master.irr 0 := by rw [← hw]; rfl
  have h1 : a.waiting IrqDevice.keyboard.line = p.master.irr 1 := by rw [← hw]; rfl
  have h4 : a.waiting IrqDevice.mouse.line = p.slave.irr 4 := by rw [← hw]; rfl
  have hslave := slave_candidate hr hs
  obtain ⟨-, hoff, hwire, hmode⟩ := hr.master
  obtain ⟨-, hoff', hwire', hmode'⟩ := hr.slave
  have hpin0 : (4 : UInt8) &&& 1 = 0 := rfl
  have hpin1 : (4 : UInt8) >>> 1 &&& 1 = 0 := rfl
  have hpin2 : (4 : UInt8) >>> 2 &&& 1 = 1 := rfl
  have hcascade : (2 : UInt8) &&& 7 = 2 := rfl
  rw [Pics.acknowledge, master_candidate hr hs]
  cases hc0 : p.master.irr 0 <;> cases hc1 : p.master.irr 1 <;> cases hc4 : p.slave.irr 4 <;>
    simp [Lines.next, List.find?, h0, h1, h4, hc0, hc1, hc4, hslave, hwire, hwire', Pic.vector,
      hmode,
      hmode', hoff, hoff', Pics.taken, IrqDevice.vector, hpin0, hpin1, hpin2, hcascade]

theorem taken_ready (hr : p.Ready) (d : IrqDevice) : (p.taken d).Ready := by
  cases d <;> exact ⟨hr.master, hr.slave⟩

theorem taken_serves (hs : p.Serves none) (d : IrqDevice) : (p.taken d).Serves (some d) := by
  obtain ⟨hm, hsl⟩ := hs
  have hempty : masterService none = fun _ => false := rfl
  cases d <;> refine ⟨?_, ?_⟩ <;> funext i <;>
    simp [Pics.taken, Pic.serve, hm, hsl, masterService, slaveService, Function.update_apply]

/-- The request is taken back; that of line 2 is not one of a device. -/
theorem taken_request (p : Pics) (d : IrqDevice) :
    (p.taken d).request = Function.update p.request d.line false := by
  rw [← setRequest_request]
  cases d with
  | timer => rfl
  | keyboard => rfl
  | mouse =>
    funext l
    by_cases hl : l.val.val < 8
    · have hne : Fin.ofNat 8 l.val.val ≠ 2 := by
        intro he
        have hval := congrArg Fin.val he
        simp only [Fin.ofNat, Nat.mod_eq_of_lt hl] at hval
        exact l.property hval
      simp only [Pics.request, hl, if_true]
      exact Function.update_of_ne hne _ _
    · simp only [Pics.request, hl, if_false]
      rfl

/-- The only bit is the first one. -/
theorem endService_single {p : Pic} {i : Fin 8} (h : p.isr = fun k => decide (k = i)) :
    p.endService = { p with isr := fun _ => false } := by
  have hfind : ∀ i : Fin 8, (List.finRange 8).find? (fun k => decide (k = i)) = some i := by
    decide
  have hempty : Function.update (fun k => decide (k = i)) i false = fun _ => false := by
    funext k
    by_cases hk : k = i <;> simp [hk]
  simp only [Pic.endService, h, hfind, hempty]

/-- The commands at the end of a handler end its service. -/
theorem picSendEoi_ends (hs : p.Serves (some d)) :
    picSendEoi p (UInt8.ofNat d.line.val.val) =
      ⟨{ p.master with isr := fun _ => false }, { p.slave with isr := fun _ => false }⟩ := by
  obtain ⟨hm, hsl⟩ := hs
  have heoi (q : Pic) : q.outCommand 0x20 = q.endService := rfl
  cases d with
  | timer =>
    have hslave : ({ p.slave with isr := fun _ => false } : Pic) = p.slave := by
      rw [← show p.slave.isr = fun _ => false from hsl]
    rw [hslave, ← endService_single (i := 0) hm]
    rfl
  | keyboard =>
    have hslave : ({ p.slave with isr := fun _ => false } : Pic) = p.slave := by
      rw [← show p.slave.isr = fun _ => false from hsl]
    rw [hslave, ← endService_single (i := 1) hm]
    rfl
  | mouse =>
    rw [← endService_single (i := 2) hm, ← endService_single (i := 4) hsl]
    rfl

end Chips

/-- The handlers at the stubs do what they do and end the service. -/
theorem handle_stub (st : Stubs) (k : Interrupts) (d : IrqDevice) :
    k.handle st (st.address d.stub) = some { k with
      pitTicks := if d = .timer then k.pitTicks + 1 else k.pitTicks
      pics := picSendEoi k.pics (UInt8.ofNat d.line.val.val) } := by
  have h10 : st.address .irq1 ≠ st.address .irq0 := st.apart.ne (by decide)
  have h20 : st.address .irq12 ≠ st.address .irq0 := st.apart.ne (by decide)
  have h21 : st.address .irq12 ≠ st.address .irq1 := st.apart.ne (by decide)
  cases d <;> simp [Interrupts.handle, IrqDevice.stub, h10, h20, h21] <;> rfl

/-- The machine stands for the lines. -/
structure StandsForLines (st : Stubs) (k : Interrupts) (a : Lines) : Prop where
  ready : k.pics.Ready
  service : k.pics.Serves a.serving
  requests : k.pics.request = a.waiting
  gates : ∀ d : IrqDevice, (k.idt d.vector).enter = some (st.address d.stub, false)
  limit : k.limit = 2047
  handlers : k.handlers = a.serving.toList.map fun d => (st.address d.stub, true)
  flag : k.flag = a.flag
  held : a.serving ≠ none → a.flag = false
  ticks : k.pitTicks = a.ticks

section Steps

variable {st : Stubs} {k : Interrupts} {a : Lines}

theorem StandsForLines.setRequest (h : StandsForLines st k a) (l : IrqLine) (on : Bool) :
    StandsForLines st { k with pics := k.pics.setRequest l on }
      { a with waiting := Function.update a.waiting l on } := by
  have hother : (k.pics.setRequest l on).Ready ∧ (k.pics.setRequest l on).Serves a.serving := by
    unfold Pics.setRequest
    split
    · exact ⟨⟨h.ready.master, h.ready.slave⟩, h.service⟩
    · exact ⟨⟨h.ready.master, h.ready.slave⟩, h.service⟩
  exact ⟨hother.1, hother.2, by rw [setRequest_request, h.requests], h.gates, h.limit, h.handlers,
    h.flag, h.held, h.ticks⟩

/-- An interrupt is accepted exactly where a device waits and the flag is set. -/
theorem StandsForLines.accept (h : StandsForLines st k a) :
    ∃ r, k.step st .accept = .ok r ∧ Option.Rel (StandsForLines st) r (a.step .accept) := by
  cases hflag : a.flag with
  | false =>
    refine ⟨none, ?_, ?_⟩
    · simp [Interrupts.step, h.flag, hflag]
    · simp [Lines.step, hflag]
  | true =>
    have hidle : a.serving = none := by
      by_contra hne
      exact absurd (h.held hne) (by simp [hflag])
    have hserves : k.pics.Serves none := hidle ▸ h.service
    have hack := acknowledge_ready h.ready hserves h.requests
    cases hnext : a.next with
    | none =>
      refine ⟨none, ?_, ?_⟩
      · simp [Interrupts.step, h.flag, hflag, hack, hnext]
      · simp [Lines.step, hflag, hnext]
    | some d =>
      have hin : 8 * d.vector.toNat + 7 ≤ k.limit.toNat := by
        rw [h.limit]
        cases d <;> decide
      refine ⟨some { k with
        pics := k.pics.taken d, flag := false,
        handlers := (st.address d.stub, k.flag) :: k.handlers },
        ?_, ?_⟩
      · simp [Interrupts.step, h.flag, hflag, hack, hnext, hin, h.gates d]
      · simp only [Lines.step, hflag, hnext, if_true, Option.map_some]
        refine .some ⟨taken_ready h.ready d, taken_serves hserves d, ?_, h.gates, h.limit, ?_, rfl,
          fun _ => rfl, h.ticks⟩
        · rw [taken_request, h.requests]
        · simp [h.handlers, hidle, h.flag, hflag]

theorem StandsForLines.finish (h : StandsForLines st k a) :
    ∃ r, k.step st .finish = .ok r ∧ Option.Rel (StandsForLines st) r (a.step .finish) := by
  have hhandlers := h.handlers
  have hservice := h.service
  cases hserving : a.serving with
  | none =>
    rw [hserving] at hhandlers
    refine ⟨none, ?_, ?_⟩
    · simp only [Interrupts.step, hhandlers, Option.toList_none, List.map_nil]
    · simp [Lines.step, hserving]
  | some d =>
    rw [hserving] at hhandlers hservice
    have heoi := picSendEoi_ends hservice
    refine ⟨some { k with
      pitTicks := if d = .timer then k.pitTicks + 1 else k.pitTicks
      pics := picSendEoi k.pics (UInt8.ofNat d.line.val.val)
      flag := true, handlers := [] }, ?_, ?_⟩
    · simp only [Interrupts.step, hhandlers, Option.toList_some, List.map_cons, List.map_nil,
        handle_stub]
    · simp only [Lines.step, hserving, Option.map_some, heoi]
      refine .some ⟨⟨h.ready.master, h.ready.slave⟩, ⟨rfl, rfl⟩, ?_, h.gates, h.limit, rfl, rfl,
        fun hne => absurd rfl hne, ?_⟩
      · exact h.requests
      · simp [h.ticks]

theorem StandsForLines.step (h : StandsForLines st k a) (e : LineEvent) :
    ∃ r, k.step st e = .ok r ∧ Option.Rel (StandsForLines st) r (a.step e) := by
  cases e with
  | raise l => exact ⟨_, rfl, .some (h.setRequest l true)⟩
  | withdraw l => exact ⟨_, rfl, .some (h.setRequest l false)⟩
  | accept => exact h.accept
  | finish => exact h.finish
  | setFlag on =>
    have hempty : k.handlers = [] ↔ a.serving = none := by
      rw [h.handlers]
      cases a.serving <;> simp
    by_cases hidle : a.serving = none
    · refine ⟨some { k with flag := on }, ?_, ?_⟩
      · simp [Interrupts.step, hempty.mpr hidle]
      · rw [Lines.step, if_pos hidle]
        exact .some ⟨h.ready, h.service, h.requests, h.gates, h.limit, h.handlers, rfl,
          fun hne => absurd hidle hne, h.ticks⟩
    · refine ⟨none, ?_, ?_⟩
      · simp [Interrupts.step, mt hempty.mp hidle]
      · simp [Lines.step, hidle]

theorem StandsForLines.run (h : StandsForLines st k a) (es : List LineEvent) :
    ∃ r, k.run st es = .ok r ∧ Option.Rel (StandsForLines st) r (a.run es) := by
  induction es generalizing k a with
  | nil => exact ⟨_, rfl, .some h⟩
  | cons e es ih =>
    obtain ⟨r, hstep, hrel⟩ := h.step e
    simp only [Interrupts.run, hstep, Lines.run]
    generalize a.step e = b at hrel
    cases hrel with
    | none => exact ⟨none, rfl, .none⟩
    | some hnext => exact ih hnext

end Steps

section Init

/-- Whatever was masked and expected before. -/
theorem picRemap_eq (p : Pics) : picRemap p 0x20 0x28 =
    ⟨⟨p.master.imr, fun _ => false, p.master.isr, 0x11, 0x20, 4, 1, none⟩,
      ⟨p.slave.imr, fun _ => false, p.slave.isr, 0x11, 0x28, 2, 1, none⟩⟩ := by
  simp +decide [picRemap, Pic.outCommand, Pic.outData, Pic.afterWiring, Pic.inData]

/-- What a call of `pic_set_mask` or `pic_clear_mask` does to each mask. -/
def lowMask (f : UInt8 → UInt8 → UInt8) (v irqLine : UInt8) : UInt8 :=
  if irqLine < 8 then f v irqLine else v

def highMask (f : UInt8 → UInt8 → UInt8) (v irqLine : UInt8) : UInt8 :=
  if irqLine < 8 then v else f v (irqLine - 8)

def setBitOf (v i : UInt8) : UInt8 := (v.toUInt32 ||| 1 <<< i.toUInt32).toUInt8
def clearBitOf (v i : UInt8) : UInt8 := v &&& (~~~((1 : UInt32) <<< i.toUInt32)).toUInt8

/-- The controllers with other masks. -/
def Pics.withMasks (p : Pics) (m s : UInt8) : Pics :=
  ⟨{ p.master with imr := m }, { p.slave with imr := s }⟩

variable {p : Pics} (hm : p.master.expects = none) (hs : p.slave.expects = none)
include hm hs

theorem picSetMask_eq (m s i : UInt8) : picSetMask (p.withMasks m s) i =
    p.withMasks (lowMask setBitOf m i) (highMask setBitOf s i) := by
  unfold picSetMask lowMask highMask
  split <;> simp [Pics.withMasks, Pic.outData, Pic.inData, hm, hs, setBitOf]

theorem picClearMask_eq (m s i : UInt8) : picClearMask (p.withMasks m s) i =
    p.withMasks (lowMask clearBitOf m i) (highMask clearBitOf s i) := by
  unfold picClearMask lowMask highMask
  split <;> simp [Pics.withMasks, Pic.outData, Pic.inData, hm, hs, clearBitOf]

theorem picSetMasks_eq (m s : UInt8) (is : List Nat) :
    is.foldl (fun p i => picSetMask p (UInt8.ofNat i)) (p.withMasks m s) =
      p.withMasks (is.foldl (fun v i => lowMask setBitOf v (UInt8.ofNat i)) m)
        (is.foldl (fun v i => highMask setBitOf v (UInt8.ofNat i)) s) := by
  induction is generalizing m s with
  | nil => rfl
  | cons i is ih => rw [List.foldl_cons, picSetMask_eq hm hs, ih, List.foldl_cons, List.foldl_cons]

/-- Whatever was masked before. -/
theorem maskLines_eq : maskLines p = p.withMasks 0xF8 0xEF := by
  have hlow : ∀ n < 256, (List.range 16).foldl (fun v i => lowMask setBitOf v (UInt8.ofNat i))
      (UInt8.ofNat n) = 0xFF := by
    decide +kernel
  have hhigh : ∀ n < 256, (List.range 16).foldl (fun v i => highMask setBitOf v (UInt8.ofNat i))
      (UInt8.ofNat n) = 0xFF := by
    decide +kernel
  have hl := hlow p.master.imr.toNat p.master.imr.toNat_lt
  have hh := hhigh p.slave.imr.toNat p.slave.imr.toNat_lt
  rw [UInt8.ofNat_toNat] at hl hh
  change picClearMask (picClearMask (picClearMask (picClearMask ((List.range 16).foldl
    (fun p i => picSetMask p (UInt8.ofNat i)) (p.withMasks p.master.imr p.slave.imr)) 0) 1) 2)
    12 = _
  rw [picSetMasks_eq hm hs, hl, hh, picClearMask_eq hm hs, picClearMask_eq hm hs,
    picClearMask_eq hm hs, picClearMask_eq hm hs]
  congr 1

omit hm hs

/-- An address is put together from the halves of its entry. -/
theorem halves_joined (w : UInt32) :
    (w &&& 0xFFFF).toUInt16.toUInt32 ||| ((w >>> 16) &&& 0xFFFF).toUInt16.toUInt32 <<< 16 = w := by
  have hw := w.toNat_lt
  have hmask (n : Nat) : n &&& 65535 = n % 65536 := Nat.and_two_pow_sub_one_eq_mod n 16
  have hlo : ((w &&& 0xFFFF).toUInt16.toUInt32).toNat = w.toNat % 65536 := by
    simp [hmask]
  have hhi : (((w >>> 16) &&& 0xFFFF).toUInt16.toUInt32 <<< 16).toNat =
      2 ^ 16 * (w.toNat / 65536) := by
    simp [hmask, Nat.shiftLeft_eq, Nat.shiftRight_eq_div_pow]
    omega
  apply UInt32.toNat_inj.mp
  rw [UInt32.toNat_or, hlo, hhi, Nat.or_comm, ← Nat.two_pow_add_eq_or_of_lt (by omega)]
  omega

theorem enter_setGate (idt : UInt8 → IdtEntry) (i : UInt8) (handler : UInt32) :
    (idtSetGate idt i handler kernelCs idtFlagIntGate i).enter = some (handler, false) := by
  have hflags : idtFlagIntGate &&& 0x8E = 0x8E := by decide
  have htrap : ¬idtFlagIntGate &&& 0x01 ≠ 0 := by decide
  rw [idtSetGate, Function.update_self, IdtEntry.enter, if_pos ⟨hflags, rfl⟩]
  simp only [decide_eq_false htrap, halves_joined]

theorem setGate_other (idt : UInt8 → IdtEntry) {i j : UInt8} (h : j ≠ i) (handler : UInt32)
    (selector : UInt16) (flags : UInt8) : idtSetGate idt i handler selector flags j = idt j :=
  Function.update_of_ne h _ _

/-- What `interrupts_init` leaves. -/
theorem interruptsInit_stands (st : Stubs) (k : Interrupts) (h : k.pics.Serves none)
    (hhandlers : k.handlers = []) :
    ∃ k', interruptsInit st k = some k' ∧
      StandsForLines st k' ⟨fun _ => false, none, true, k.pitTicks⟩ := by
  have hfrequency (k : Interrupts) : (pitInit k 100).pitFrequency ≠ 0 := by
    change (100 : UInt32) ≠ 0
    decide
  have hpics : maskLines (picRemap k.pics 0x20 0x28) =
      ⟨⟨0xF8, fun _ => false, k.pics.master.isr, 0x11, 0x20, 4, 1, none⟩,
        ⟨0xEF, fun _ => false, k.pics.slave.isr, 0x11, 0x28, 2, 1, none⟩⟩ := by
    rw [picRemap_eq, maskLines_eq rfl rfl]
    rfl
  simp only [interruptsInit, hpics]
  rw [if_pos (hfrequency _)]
  refine ⟨_, rfl, ⟨⟨rfl, rfl, rfl, rfl⟩, ⟨rfl, rfl, rfl, rfl⟩⟩, h, ?_, ?_, rfl, ?_, rfl, ?_, rfl⟩
  · funext l
    simp only [Pics.request, pitInit]
    split <;> rfl
  · intro d
    simp only [pitInit]
    cases d with
    | timer =>
      rw [IrqDevice.vector, setGate_other _ (by decide), setGate_other _ (by decide),
        setGate_other _ (by decide), enter_setGate]
      rfl
    | keyboard =>
      rw [IrqDevice.vector, setGate_other _ (by decide), setGate_other _ (by decide),
        enter_setGate]
      rfl
    | mouse =>
      rw [IrqDevice.vector, setGate_other _ (by decide), enter_setGate]
      rfl
  · exact hhandlers
  · exact fun hne => absurd rfl hne

end Init

/-- Whatever the controllers, the table and the timer held before, as long as nothing is in service:
from `interrupts_init` on the machine does what the three lines do, by rank and one at a time, and
no interrupt is ever accepted that has no handler. -/
theorem interrupts_refine_lines (st : Stubs) (k : Interrupts) (hquiet : k.pics.Serves none)
    (hhandlers : k.handlers = []) (es : List LineEvent) :
    ∃ k' r, interruptsInit st k = some k' ∧ k'.run st es = .ok r ∧
      Option.Rel (StandsForLines st) r (Lines.run ⟨fun _ => false, none, true, k.pitTicks⟩ es) := by
  obtain ⟨k', hinit, hstands⟩ := interruptsInit_stands st k hquiet hhandlers
  obtain ⟨r, hrun, hrel⟩ := hstands.run es
  exact ⟨k', r, hinit, hrun, hrel⟩

/-- The controllers as a BIOS leaves them, with all lines but the first open. -/
def biosMachine : Interrupts where
  pics :=
    ⟨⟨0x01, fun _ => false, fun _ => false, 0x11, 0x08, 4, 1, none⟩,
      ⟨0x00, fun _ => true, fun _ => false, 0x11, 0x70, 2, 1, none⟩⟩
  idt := fun _ => ⟨0, 0, 0, 0, 0⟩
  limit := 0
  pit := ⟨0, none, 65536⟩
  pitFrequency := 100
  pitTicks := 0
  flag := false
  handlers := []

def someStubs : Stubs where
  address
    | .irq0 => 0x10000
    | .irq1 => 0x10020
    | .irq12 => 0x10040
    | .isr128 => 0x10060
  apart := by
    intro a b h
    cases a <;> cases b <;> first | rfl | cases h

/-- The mouse asks first, the timer is served first. -/
theorem interrupts_refine_lines_ranked : ∃ k' k'', interruptsInit someStubs biosMachine = some k' ∧
    k'.run someStubs [.raise IrqDevice.mouse.line, .raise IrqDevice.timer.line, .accept, .finish,
      .accept] = .ok (some k'') ∧
    k''.handlers = [(0x10040, true)] ∧ k''.flag = false ∧ k''.pitTicks = 1 := by
  obtain ⟨k', r, hinit, hrun, hrel⟩ := interrupts_refine_lines someStubs biosMachine ⟨rfl, rfl⟩ rfl
    [.raise IrqDevice.mouse.line, .raise IrqDevice.timer.line, .accept, .finish, .accept]
  cases hrel with
  | some h => exact ⟨k', _, hinit, hrun, h.handlers, h.flag, h.ticks⟩

end VertexOS
