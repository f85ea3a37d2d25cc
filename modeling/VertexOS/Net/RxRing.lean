import VertexOS.Library.Transitions
import VertexOS.Net.Rtl8139

namespace VertexOS
open Library.Programs Library.Transitions

/-- The frames the controller has stored. -/
def receivedFrames (trace : List NetEvent) : List (List UInt8) :=
  trace.filterMap fun
    | .received f => some f
    | _ => none

/-- The frames the handler was called with. -/
def dispatchedFrames (trace : List NetEvent) : List (List UInt8) :=
  trace.filterMap fun
    | .dispatched f => some f
    | _ => none

/-- What reception is about: the ring and its offsets, the interrupt status and
the frames on both sides. -/
structure RxView where
  ring : Buf
  writePos : Nat
  capr : UInt16
  isr : UInt16
  rxOffset : Nat
  up : Bool
  env : Nat → List HwEvent
  accesses : Nat
  received : List (List UInt8)
  dispatched : List (List UInt8)

def rxView (n : Net) : RxView where
  ring := n.nic.ring
  writePos := n.nic.writePos
  capr := n.nic.capr
  isr := n.nic.isr
  rxOffset := n.drv.rxOffset
  up := n.drv.up
  env := n.env
  accesses := n.accesses
  received := receivedFrames n.trace
  dispatched := dispatchedFrames n.trace

def RxView.readPos (v : RxView) : Nat := (v.capr.toNat + 16) % rxBufSize

/-- An event beside the program, as reception sees it. -/
def RxView.event (v : RxView) : HwEvent → RxView
  | .tick => v
  | .arrive p =>
    if (v.writePos + rxBufSize - v.readPos) % rxBufSize + p.room < rxBufSize then
      { v with
        ring := ringStore v.ring v.writePos p.bytes
        writePos := (v.writePos + p.room) % rxBufSize
        isr := v.isr ||| 0x0001
        received := v.received ++ [p.data] }
    else { v with isr := v.isr ||| 0x0010 }
  | .txDone _ => { v with isr := v.isr ||| 0x0004 }

def RxView.access (v : RxView) : RxView :=
  { (v.env v.accesses).foldl RxView.event v with accesses := v.accesses + 1 }

section View

variable {n : Net}

theorem receivedFrames_append (t t' : List NetEvent) :
    receivedFrames (t ++ t') = receivedFrames t ++ receivedFrames t' := List.filterMap_append

theorem dispatchedFrames_append (t t' : List NetEvent) :
    dispatchedFrames (t ++ t') = dispatchedFrames t ++ dispatchedFrames t' :=
  List.filterMap_append

theorem rxView_event (n : Net) (e : HwEvent) : rxView (hwEvent n e) = (rxView n).event e := by
  cases e with
  | tick => rfl
  | txDone i => rfl
  | arrive p =>
    simp only [hwEvent, receiveFrame, RxView.event]
    change _ = if (n.nic.writePos + rxBufSize - n.nic.readPos) % rxBufSize + p.room < rxBufSize
      then _ else _
    split
    · simp only [rxView, Net.log, receivedFrames_append, dispatchedFrames_append]
      simp [receivedFrames, dispatchedFrames]
    · rfl

theorem rxView_events (l : List HwEvent) (n : Net) :
    rxView (l.foldl hwEvent n) = l.foldl RxView.event (rxView n) := by
  induction l generalizing n with
  | nil => rfl
  | cons e l ih => rw [List.foldl_cons, List.foldl_cons, ih, rxView_event]

/-- An access to the hardware acts on the view. -/
theorem rxView_access (n : Net) : rxView (access n) = (rxView n).access := by
  have h := rxView_events (n.env n.accesses) n
  change { rxView ((n.env n.accesses).foldl hwEvent n) with accesses := n.accesses + 1 } = _
  rw [h]
  rfl

end View

/-- The room the frames take in the ring. -/
def roomSum (ps : List RxPacket) : Nat := (ps.map RxPacket.room).sum

/-- The frames lie in the ring one behind the other, from `off` on. -/
def HeldAt (ring : Buf) : Nat → List RxPacket → Prop
  | _, [] => True
  | off, p :: ps =>
    (∀ i < p.bytes.length, ring ((off + i) % rxBufSize) = p.bytes.getD i 0) ∧
      HeldAt ring ((off + p.room) % rxBufSize) ps

/-- The ring between the two parties: what is unread, from the driver's offset
up to the controller's. -/
structure RingHolds (v : RxView) (unread : List RxPacket) : Prop where
  aligned : v.rxOffset % 4 = 0
  inside : v.rxOffset < rxBufSize
  read : v.readPos = v.rxOffset
  write : v.writePos = (v.rxOffset + roomSum unread) % rxBufSize
  fits : roomSum unread < rxBufSize
  held : HeldAt v.ring v.rxOffset unread

section Ring

variable {ring : Buf} {off pos i : Nat} {p : RxPacket} {ps qs : List RxPacket} {l : List UInt8}

@[simp] theorem roomSum_nil : roomSum [] = 0 := rfl

@[simp] theorem roomSum_cons (p : RxPacket) (ps : List RxPacket) :
    roomSum (p :: ps) = p.room + roomSum ps := rfl

@[simp] theorem roomSum_append (ps qs : List RxPacket) :
    roomSum (ps ++ qs) = roomSum ps + roomSum qs := by
  rw [roomSum, List.map_append, List.sum_append]
  rfl

theorem bytes_length (p : RxPacket) : p.bytes.length = p.data.length + 8 := by
  simp only [RxPacket.bytes, List.length_append, List.length_cons, List.length_nil, p.crcLength]
  omega

theorem bytes_room (p : RxPacket) : p.bytes.length ≤ p.room ∧ p.room % 4 = 0 ∧ 0 < p.room := by
  rw [bytes_length, RxPacket.room]
  omega

/-- The frame itself follows the header. -/
theorem bytes_data (p : RxPacket) (h : i < p.data.length) :
    p.bytes.getD (4 + i) 0 = p.data.getD i 0 := by
  simp only [RxPacket.bytes, List.getD_eq_getElem?_getD, List.append_assoc]
  rw [List.getElem?_append_right (by simp), List.getElem?_append_left (by simpa using h)]
  simp

theorem ringStore_self (hpos : pos < rxBufSize) (hl : l.length ≤ rxBufSize) (hi : i < l.length) :
    ringStore ring pos l ((pos + i) % rxBufSize) = l.getD i 0 := by
  simp only [rxBufSize] at *
  have hback : ((pos + i) % 8192 + 8192 - pos) % 8192 = i := by omega
  have hlt : (pos + i) % 8192 < 8192 := Nat.mod_lt _ (by decide)
  simp only [ringStore, rxBufSize, hback, hi, hlt, and_self, if_true]

theorem ringStore_apart (h : l.length ≤ (i + rxBufSize - pos) % rxBufSize) :
    ringStore ring pos l i = ring i := by
  simp only [ringStore]
  rw [if_neg]
  omega

/-- A frame stored behind the unread ones leaves them as they are. -/
theorem heldAt_store (h : HeldAt ring off ps) (hoff : off < rxBufSize)
    (hpos : pos = (off + roomSum ps) % rxBufSize) (hroom : roomSum ps + l.length ≤ rxBufSize) :
    HeldAt (ringStore ring pos l) off ps := by
  induction ps generalizing off with
  | nil => trivial
  | cons p ps ih =>
    obtain ⟨hbytes, htail⟩ := h
    have hb := (bytes_room p).1
    rw [roomSum_cons] at hpos hroom
    refine ⟨?_, ?_⟩
    · intro i hi
      rw [ringStore_apart, hbytes i hi]
      simp only [rxBufSize] at *
      omega
    · apply ih htail (Nat.mod_lt _ (by decide))
      · simp only [rxBufSize] at *
        omega
      · omega

theorem heldAt_append : HeldAt ring off (ps ++ qs) ↔
    HeldAt ring off ps ∧ HeldAt ring ((off + roomSum ps) % rxBufSize) qs := by
  induction ps generalizing off with
  | nil =>
    simp only [List.nil_append, HeldAt, true_and, roomSum_nil, Nat.add_zero]
    cases qs with
    | nil => rfl
    | cons q qs =>
      have hstart : ∀ i, (off % rxBufSize + i) % rxBufSize = (off + i) % rxBufSize :=
        fun i => Nat.mod_add_mod off rxBufSize i
      simp only [HeldAt, hstart]
  | cons p ps ih =>
    have hoff : ((off + p.room) % rxBufSize + roomSum ps) % rxBufSize =
        (off + (p.room + roomSum ps)) % rxBufSize := by
      rw [Nat.mod_add_mod, Nat.add_assoc]
    simp only [List.cons_append, HeldAt, ih, roomSum_cons, hoff, and_assoc]

/-- The frame just stored is there. -/
theorem heldAt_stored (hpos : pos < rxBufSize) (hp : p.bytes.length ≤ rxBufSize) :
    HeldAt (ringStore ring pos p.bytes) pos [p] :=
  ⟨fun _ hi => ringStore_self hpos hp hi, trivial⟩

end Ring

/-- The frames an event brings. -/
def HwEvent.frames : HwEvent → Nat
  | .arrive _ => 1
  | _ => 0

/-- The frames that arrive at the accesses from `a` up to `stop`. -/
def pendingFrames (env : Nat → List HwEvent) (a stop : Nat) : Nat :=
  ∑ k ∈ Finset.Ico a stop, ((env k).map HwEvent.frames).sum

/-- What an access may do to the view: frames arrive. -/
structure Arrivals (v v' : RxView) (new : List RxPacket) : Prop where
  rxOffset : v'.rxOffset = v.rxOffset
  up : v'.up = v.up
  env : v'.env = v.env
  dispatched : v'.dispatched = v.dispatched
  received : v'.received = v.received ++ new.map RxPacket.data
  raised : new ≠ [] ∨ v.isr ≠ 0 → v'.isr ≠ 0
  holds : ∀ unread, RingHolds v unread → RingHolds v' (unread ++ new)

section Arrive

variable {v v' v'' : RxView} {new new' : List RxPacket}

theorem Arrivals.refl (v : RxView) : Arrivals v v [] where
  rxOffset := rfl
  up := rfl
  env := rfl
  dispatched := rfl
  received := (List.append_nil _).symm
  raised h := h.resolve_left (fun hn => hn rfl)
  holds unread h := by rwa [List.append_nil]

theorem Arrivals.trans (h : Arrivals v v' new) (h' : Arrivals v' v'' new') :
    Arrivals v v'' (new ++ new') where
  rxOffset := h'.rxOffset.trans h.rxOffset
  up := h'.up.trans h.up
  env := h'.env.trans h.env
  dispatched := h'.dispatched.trans h.dispatched
  received := by rw [h'.received, h.received, List.map_append, List.append_assoc]
  raised := by
    intro hr
    apply h'.raised
    by_cases hn : new' = []
    · right
      apply h.raised
      rw [hn, List.append_nil] at hr
      exact hr
    · exact .inl hn
  holds unread hu := by
    rw [← List.append_assoc]
    exact h'.holds _ (h.holds unread hu)

/-- Only the interrupt status changes. -/
theorem Arrivals.status (v : RxView) (bits : UInt16) :
    Arrivals v { v with isr := v.isr ||| bits } [] where
  rxOffset := rfl
  up := rfl
  env := rfl
  dispatched := rfl
  received := (List.append_nil _).symm
  raised h := by
    have hv := h.resolve_left (fun hn => hn rfl)
    intro h0
    exact hv (UInt16.or_eq_zero_iff.mp h0).1
  holds unread h := by
    rw [List.append_nil]
    exact ⟨h.aligned, h.inside, h.read, h.write, h.fits, h.held⟩

theorem event_arrivals (v : RxView) (e : HwEvent) :
    ∃ new, Arrivals v (v.event e) new ∧ new.length ≤ e.frames := by
  cases e with
  | tick => exact ⟨[], .refl v, Nat.le_refl _⟩
  | txDone i => exact ⟨[], .status v _, Nat.le_refl _⟩
  | arrive p =>
    simp only [RxView.event]
    split
    · next hroom =>
      refine ⟨[p], ⟨rfl, rfl, rfl, rfl, rfl, ?_, ?_⟩, Nat.le_refl _⟩
      · intro _ h0
        exact absurd (UInt16.or_eq_zero_iff.mp h0).2 (by decide)
      · intro unread h
        obtain ⟨haligned, hinside, hread, hwrite, hfits, hheld⟩ := h
        have hb := (bytes_room p).1
        have hused : (v.writePos + rxBufSize - v.readPos) % rxBufSize = roomSum unread := by
          rw [hread, hwrite]
          simp only [rxBufSize] at *
          omega
        rw [hused] at hroom
        have hpos : v.writePos < rxBufSize := by
          rw [hwrite]
          exact Nat.mod_lt _ (by decide)
        refine ⟨haligned, hinside, hread, ?_, ?_, ?_⟩
        · simp only [hwrite, roomSum_append, roomSum_cons, roomSum_nil, Nat.add_zero,
            Nat.mod_add_mod, Nat.add_assoc]
        · simpa using hroom
        · apply heldAt_append.mpr
          rw [← hwrite]
          refine ⟨heldAt_store hheld hinside hwrite (by omega), ?_⟩
          exact heldAt_stored hpos (by omega)
    · exact ⟨[], .status v _, Nat.zero_le _⟩

theorem events_arrivals (l : List HwEvent) (v : RxView) :
    ∃ new, Arrivals v (l.foldl RxView.event v) new ∧ new.length ≤ (l.map HwEvent.frames).sum := by
  induction l generalizing v with
  | nil => exact ⟨[], .refl v, Nat.zero_le _⟩
  | cons e l ih =>
    obtain ⟨new, hnew, hlen⟩ := event_arrivals v e
    obtain ⟨rest, hrest, hlen'⟩ := ih (v.event e)
    refine ⟨new ++ rest, hnew.trans hrest, ?_⟩
    rw [List.length_append, List.map_cons, List.sum_cons]
    omega

/-- From `stop` on no frame arrives. -/
def QuietFrom (env : Nat → List HwEvent) (stop : Nat) : Prop :=
  ∀ k, stop ≤ k → ∀ e ∈ env k, e.frames = 0

theorem pendingFrames_step {env : Nat → List HwEvent} {stop : Nat} (h : QuietFrom env stop)
    (a : Nat) : ((env a).map HwEvent.frames).sum + pendingFrames env (a + 1) stop ≤
      pendingFrames env a stop := by
  by_cases ha : a < stop
  · exact Nat.le_of_eq
      (Finset.sum_eq_sum_Ico_succ_bot ha fun k => ((env k).map HwEvent.frames).sum).symm
  · have hnone : ((env a).map HwEvent.frames).sum = 0 := by
      apply List.sum_eq_zero
      intro k hk
      obtain ⟨e, he, rfl⟩ := List.mem_map.mp hk
      exact h a (Nat.le_of_not_lt ha) e he
    simp only [pendingFrames, hnone, Finset.Ico_eq_empty_of_le (Nat.le_of_not_lt ha),
      Finset.Ico_eq_empty_of_le (Nat.le_succ_of_le (Nat.le_of_not_lt ha)), Finset.sum_empty,
      Nat.add_zero, Nat.le_refl]

/-- Frames stored at an access no longer come. -/
structure Accessed (v v' : RxView) (new : List RxPacket) : Prop extends Arrivals v v' new where
  pending : ∀ stop, QuietFrom v.env stop →
    new.length + pendingFrames v.env v'.accesses stop ≤ pendingFrames v.env v.accesses stop

theorem Accessed.refl (v : RxView) : Accessed v v [] where
  toArrivals := .refl v
  pending _ _ := Nat.le_of_eq (Nat.zero_add _)

theorem Accessed.trans (h : Accessed v v' new) (h' : Accessed v' v'' new') :
    Accessed v v'' (new ++ new') where
  toArrivals := h.toArrivals.trans h'.toArrivals
  pending stop hq := by
    have h1 := h.pending stop hq
    have h2 := h'.pending stop (by rwa [h.env])
    rw [h.env] at h2
    rw [List.length_append]
    omega

theorem access_accessed (v : RxView) : ∃ new, Accessed v v.access new := by
  obtain ⟨new, hnew, hlen⟩ := events_arrivals (v.env v.accesses) v
  refine ⟨new, ⟨?_, ?_⟩⟩
  · refine ⟨hnew.rxOffset, hnew.up, hnew.env, hnew.dispatched, hnew.received, hnew.raised, ?_⟩
    intro unread hu
    obtain ⟨haligned, hinside, hread, hwrite, hfits, hheld⟩ := hnew.holds unread hu
    exact ⟨haligned, hinside, hread, hwrite, hfits, hheld⟩
  · intro stop hq
    have hstep := pendingFrames_step hq v.accesses
    change new.length + pendingFrames v.env (v.accesses + 1) stop ≤ _
    omega

theorem accesses_accessed (v : RxView) (k : Nat) :
    ∃ new, Accessed v (RxView.access^[k] v) new := by
  induction k with
  | zero => exact ⟨[], .refl v⟩
  | succ k ih =>
    obtain ⟨new, hnew⟩ := ih
    rw [Function.iterate_succ_apply']
    obtain ⟨rest, hrest⟩ := access_accessed (RxView.access^[k] v)
    exact ⟨_, hnew.trans hrest⟩

end Arrive

/-- The same for reception. -/
def SameRx (n n' : Net) : Prop := rxView n = rxView n'

/-- A handler that returns and leaves reception alone: it may access the
hardware any number of times, but it does not poll. -/
def QuietHandler (onFrame : Nat → NetM Unit) : Prop :=
  ∀ len n, ∃ n' k, onFrame len n = some ((), n') ∧ SameRx n' (access^[k] n)

/-- `RX_TOTAL_SIZE`, the bytes of `rx_ring_buf`. -/
def rxTotalSize : Nat := rxBufSize + 16 + 1500

/-- The bytes of `rx_frame_tmp`. -/
def rxFrameTmpSize : Nat := 1600

/-- Where the controller stores the frame that follows these. -/
def nicOffset (frames : List (List UInt8)) : Nat :=
  (frames.map fun f => (f.length + 8 + 3) / 4 * 4).sum % rxBufSize

/-- The driver is at the controller's offset for the next frame. -/
def InStep (n : Net) : Prop :=
  dispatchedFrames n.trace <+: receivedFrames n.trace ∧
  n.drv.rxOffset = nicOffset ((receivedFrames n.trace).take (dispatchedFrames n.trace).length) ∧
  n.drv.rxOffset % 4 = 0 ∧ n.drv.rxOffset < rxBufSize

instance (n : Net) : Decidable (InStep n) := inferInstanceAs (Decidable (_ ∧ _))

/-- Stops for good where the condition fails. -/
def demand (c : Net → Prop) [DecidablePred c] : NetM Unit := fun n =>
  if c n then some ((), n) else none

/-- The loop of `rtl8139_poll` that stops at an index outside its array, and
after a frame that leaves the offsets apart. -/
def rxLoopWatched (onFrame : Nat → NetM Unit) : Nat → NetM Unit
  | 0 => fun _ => none
  | fuel + 1 => do
    modify access
    let n ← get
    if n.nic.rxEmpty then return
    demand fun n => n.drv.rxOffset + 3 < rxTotalSize
    let size := (readU16 n.nic.ring (n.drv.rxOffset + 2)).toNat
    if size < 4 ∨ size > 1600 then
      modify fun n => clearIsr n 0xFFFF
      return
    demand fun n => ∀ i < size - 4,
      (n.drv.rxOffset + 4 + i) % rxBufSize < rxTotalSize ∧ i < rxFrameTmpSize
    modify fun n => enterFrame n (size - 4)
    onFrame (size - 4)
    modify fun n => leaveFrame n (size - 4)
    modify fun n => advanceRx n size
    demand InStep
    rxLoopWatched onFrame fuel

def rtl8139PollWatched (onFrame : Nat → NetM Unit) (fuel : Nat) : NetM Unit := do
  let n ← get
  if ¬n.drv.up then return
  modify access
  let n ← get
  let isr := n.nic.isr
  if isr = 0 then return
  modify access
  modify fun n => (clearIsr n isr).log (.polled (0 < n.depth))
  rxLoopWatched onFrame fuel

/-- The two bytes of a halfword, read back. -/
theorem half_split (w : UInt16) : w.toUInt8.toUInt16 ||| ((w >>> 8).toUInt8.toUInt16 <<< 8) = w := by
  apply UInt16.toNat_inj.mp
  have hw := w.toNat_lt
  have hlow : w.toNat % 256 < 2 ^ 8 := Nat.mod_lt _ (by decide)
  have hhigh : (w >>> 8).toUInt8.toUInt16.toNat = w.toNat / 256 := by
    rw [UInt8.toNat_toUInt16, UInt16.toNat_toUInt8, UInt16.toNat_shiftRight]
    change w.toNat >>> 8 % 256 = _
    rw [Nat.shiftRight_eq_div_pow]
    omega
  have hshift : ((w >>> 8).toUInt8.toUInt16 <<< 8).toNat = (w.toNat / 256) <<< 8 := by
    rw [UInt16.toNat_shiftLeft, hhigh]
    change (w.toNat / 256) <<< 8 % 65536 = _
    rw [Nat.shiftLeft_eq]
    omega
  rw [UInt16.toNat_or, hshift, UInt8.toNat_toUInt16, UInt16.toNat_toUInt8, Nat.or_comm,
    ← Nat.shiftLeft_add_eq_or_of_lt hlow, Nat.shiftLeft_eq]
  omega

section Driver

variable {v : RxView} {n : Net} {p : RxPacket} {ps : List RxPacket} {off : Nat}

/-- `CAPR` lags 16 bytes behind; the controller adds them again. -/
theorem capr_readPos (h : off < rxBufSize) :
    ((UInt16.ofNat ((off + 65536 - 16) % 65536) &&& 0x1FFF).toNat + 16) % rxBufSize = off := by
  have hmask : ∀ x : UInt16, (x &&& 0x1FFF).toNat = x.toNat % 8192 :=
    fun x => Nat.and_two_pow_sub_one_eq_mod x.toNat 13
  rw [hmask, UInt16.toNat_ofNat']
  simp only [rxBufSize] at *
  omega

/-- Moving on by one frame leaves the others unread. -/
theorem ringHolds_advance (h : RingHolds v (p :: ps)) :
    RingHolds { v with
      rxOffset := ringNext v.rxOffset (p.data.length + 4)
      capr := UInt16.ofNat ((ringNext v.rxOffset (p.data.length + 4) + 65536 - 16) % 65536) &&&
        0x1FFF } ps := by
  obtain ⟨haligned, hinside, hread, hwrite, hfits, hbytes, htail⟩ := h
  have hnext : ringNext v.rxOffset (p.data.length + 4) = (v.rxOffset + p.room) % rxBufSize := by
    simp only [ringNext, RxPacket.room, rxBufSize]
    omega
  have hlt : (v.rxOffset + p.room) % rxBufSize < rxBufSize := Nat.mod_lt _ (by decide)
  have hroom := (bytes_room p).2.1
  rw [roomSum_cons] at hwrite hfits
  simp only [hnext]
  refine ⟨?_, hlt, capr_readPos hlt, ?_, by omega, htail⟩
  · simp only [rxBufSize]
    omega
  · simp only [hwrite, Nat.mod_add_mod, Nat.add_assoc]

/-- The header never lies across the end of the ring. -/
theorem ringHolds_header (h : RingHolds v (p :: ps)) :
    v.rxOffset + 3 < rxBufSize ∧ (readU16 v.ring (v.rxOffset + 2)).toNat = p.data.length + 4 := by
  obtain ⟨haligned, hinside, _, _, _, hbytes, _⟩ := h
  have hlen := bytes_length p
  have hfits := p.fits
  have hbound : v.rxOffset + 3 < rxBufSize := by
    simp only [rxBufSize] at *
    omega
  refine ⟨hbound, ?_⟩
  have h2 := hbytes 2 (by omega)
  have h3 := hbytes 3 (by omega)
  rw [Nat.mod_eq_of_lt (by omega)] at h2 h3
  rw [readU16, h2, h3]
  simp only [RxPacket.bytes, List.cons_append, List.getD_cons_succ, List.getD_cons_zero]
  have hsize : (UInt16.ofNat (p.data.length + 4)).toNat = p.data.length + 4 :=
    UInt16.toNat_ofNat_of_lt' (by change _ < 65536; omega)
  rw [half_split, hsize]

theorem ringHolds_data (h : RingHolds v (p :: ps)) :
    bytesAt (fun i => v.ring ((v.rxOffset + 4 + i) % rxBufSize)) 0 p.data.length = p.data := by
  obtain ⟨_, _, _, _, _, hbytes, _⟩ := h
  have hlen := bytes_length p
  apply List.ext_getElem (bytesAt_length _ _ _)
  intro i h1 h2
  have hi := hbytes (4 + i) (by omega)
  rw [← Nat.add_assoc, bytes_data p h2] at hi
  simp only [bytesAt, List.getElem_map, List.getElem_range, Nat.zero_add, hi]
  simp [List.getElem?_eq_getElem h2]

end Driver

/-- Between two accesses of the driver: what is unread, and where the driver is
in the sequence of frames. -/
structure RxInv (n : Net) (unread : List RxPacket) : Prop where
  ring : RingHolds (rxView n) unread
  frames : receivedFrames n.trace = dispatchedFrames n.trace ++ unread.map RxPacket.data
  offset : n.drv.rxOffset = nicOffset (dispatchedFrames n.trace)
  up : n.drv.up = true

section Turn

variable {n n' : Net} {p : RxPacket} {unread ps : List RxPacket}

theorem nicOffset_append (fs gs : List (List UInt8)) :
    nicOffset (fs ++ gs) = (nicOffset fs + nicOffset gs) % rxBufSize := by
  simp only [nicOffset, List.map_append, List.sum_append, ← Nat.add_mod]

theorem RxInv.inStep (h : RxInv n unread) : InStep n := by
  obtain ⟨hring, hframes, hoffset, _⟩ := h
  refine ⟨?_, ?_, hring.aligned, hring.inside⟩
  · rw [hframes]
    exact List.prefix_append _ _
  · rw [hframes, List.take_left', hoffset]
    rfl

theorem nicOffset_data (ps : List RxPacket) :
    nicOffset (ps.map RxPacket.data) = roomSum ps % rxBufSize := by
  simp only [nicOffset, roomSum, List.map_map]
  rfl

/-- The controller is where the frames it has stored lead. -/
theorem RxInv.writePos (h : RxInv n unread) :
    n.nic.writePos = nicOffset (receivedFrames n.trace) := by
  have hwrite : n.nic.writePos = (n.drv.rxOffset + roomSum unread) % rxBufSize := h.ring.write
  rw [h.frames, nicOffset_append, nicOffset_data, ← h.offset, hwrite, Nat.add_mod_mod]

theorem RxInv.accessed (h : RxInv n unread) :
    ∃ new, Accessed (rxView n) (rxView (access n)) new ∧ RxInv (access n) (unread ++ new) := by
  obtain ⟨new, hnew⟩ := access_accessed (rxView n)
  rw [← rxView_access] at hnew
  have hd : dispatchedFrames (access n).trace = dispatchedFrames n.trace := hnew.dispatched
  have hr : receivedFrames (access n).trace = receivedFrames n.trace ++ _ := hnew.received
  have ho : (access n).drv.rxOffset = n.drv.rxOffset := hnew.rxOffset
  have hu : (access n).drv.up = n.drv.up := hnew.up
  refine ⟨new, hnew, hnew.holds _ h.ring, ?_, ?_, ?_⟩
  · rw [hr, hd, h.frames, List.map_append, List.append_assoc]
  · rw [ho, hd, h.offset]
  · rw [hu, h.up]

/-- `CR` says the ring is empty exactly when nothing is unread. -/
theorem ringHolds_empty_iff (h : RingHolds (rxView n) unread) :
    n.nic.rxEmpty = true ↔ unread = [] := by
  obtain ⟨_, hinside, hread, hwrite, hfits, _⟩ := h
  have hempty : n.nic.rxEmpty = true ↔ (rxView n).readPos = (rxView n).writePos := by
    simp only [Nic.rxEmpty, decide_eq_true_eq]
    exact Iff.rfl
  rw [hempty, hread, hwrite]
  cases unread with
  | nil => simp [Nat.mod_eq_of_lt hinside]
  | cons p ps =>
    have hpos := (bytes_room p).2.2
    rw [roomSum_cons] at hfits ⊢
    simp only [reduceCtorEq, iff_false, rxBufSize] at *
    omega

theorem rxView_iterate (k : Nat) (n : Net) :
    rxView (access^[k] n) = RxView.access^[k] (rxView n) := by
  induction k generalizing n with
  | zero => rfl
  | succ k ih => rw [Function.iterate_succ_apply, Function.iterate_succ_apply, ih, rxView_access]

/-- The handler is entered with exactly the bytes of the frame. -/
theorem RxInv.entered (h : RxInv n (p :: ps)) :
    (enterFrame n p.data.length).trace = n.trace ++ [.dispatched p.data] ∧
      bytesAt (enterFrame n p.data.length).drv.rxFrameTmp 0 p.data.length = p.data := by
  have hdata : bytesAt (enterFrame n p.data.length).drv.rxFrameTmp 0 p.data.length = p.data := by
    simp only [enterFrame, Net.log, bytesAt_memCopyAt]
    exact ringHolds_data h.ring
  refine ⟨?_, hdata⟩
  change n.trace ++ [.dispatched (bytesAt (enterFrame n _).drv.rxFrameTmp 0 _)] = _
  rw [hdata]

/-- A handler that has left reception alone leaves the driver at the next frame. -/
theorem RxInv.left {m : Net} {k : Nat} (h : RxInv n (p :: ps))
    (hsame : SameRx m (access^[k] (enterFrame n p.data.length))) :
    ∃ new, RxInv (advanceRx (leaveFrame m p.data.length) (p.data.length + 4)) (ps ++ new) ∧
      m.env = n.env ∧ ∀ stop, QuietFrom n.env stop →
        new.length + pendingFrames n.env m.accesses stop ≤ pendingFrames n.env n.accesses stop := by
  have htrace := h.entered.1
  obtain ⟨hring, hframes, hoffset, hup⟩ := h
  have hbytes : dispatchedFrames (enterFrame n p.data.length).trace =
      dispatchedFrames n.trace ++ [p.data] := by
    rw [htrace, dispatchedFrames_append]
    rfl
  have hkept : receivedFrames (enterFrame n p.data.length).trace = receivedFrames n.trace := by
    simp only [enterFrame, Net.log, receivedFrames_append]
    exact List.append_nil _
  have henter : RingHolds (rxView (enterFrame n p.data.length)) (p :: ps) :=
    ⟨hring.aligned, hring.inside, hring.read, hring.write, hring.fits, hring.held⟩
  obtain ⟨new, hnew⟩ := accesses_accessed (rxView (enterFrame n p.data.length)) k
  rw [← rxView_iterate, ← show rxView m = _ from hsame] at hnew
  have hd : dispatchedFrames m.trace = dispatchedFrames n.trace ++ [p.data] :=
    hnew.dispatched.trans hbytes
  have hr : receivedFrames m.trace = receivedFrames n.trace ++ new.map RxPacket.data := by
    rw [← hkept]
    exact hnew.received
  have ho : m.drv.rxOffset = n.drv.rxOffset := hnew.rxOffset
  have hu : m.drv.up = n.drv.up := hnew.up
  have hlogd : dispatchedFrames (leaveFrame m p.data.length).trace = dispatchedFrames m.trace := by
    simp only [leaveFrame, Net.log, dispatchedFrames_append]
    exact List.append_nil _
  have hlogr : receivedFrames (leaveFrame m p.data.length).trace = receivedFrames m.trace := by
    simp only [leaveFrame, Net.log, receivedFrames_append]
    exact List.append_nil _
  have hend := ringHolds_advance (hnew.holds _ henter)
  refine ⟨new, ⟨?_, ?_, ?_, ?_⟩, hnew.env, hnew.pending⟩
  · exact ⟨hend.aligned, hend.inside, hend.read, hend.write, hend.fits, hend.held⟩
  · change receivedFrames (leaveFrame m _).trace = dispatchedFrames (leaveFrame m _).trace ++ _
    rw [hlogr, hlogd, hr, hd, hframes, List.map_cons, List.map_append, List.append_assoc,
      List.append_assoc]
    rfl
  · change ringNext m.drv.rxOffset _ = nicOffset (dispatchedFrames (leaveFrame m _).trace)
    have hroom : nicOffset [p.data] = p.room % rxBufSize := nicOffset_data [p]
    have haligned : m.drv.rxOffset % 4 = 0 := by
      rw [ho]
      exact hring.aligned
    rw [hlogd, hd, nicOffset_append, hroom, ← hoffset, ← ho]
    simp only [ringNext, RxPacket.room, rxBufSize]
    omega
  · change m.drv.up = true
    rw [hu, hup]

theorem demand_bind {c : Net → Prop} [DecidablePred c] (h : c n) (f : Unit → NetM Unit) :
    (demand c >>= f) n = f () n := by
  apply bind_run
  simp only [demand, h, if_true]

theorem modify_bind (g : Net → Net) (f : Unit → NetM Unit) (n : Net) :
    (modify g >>= f) n = f () (g n) := rfl

theorem rxTotalSize_lt {i : Nat} (h : i < rxBufSize) : i < rxTotalSize :=
  Nat.lt_of_lt_of_le h (by decide)

theorem rxLoop_empty {onFrame : Nat → NetM Unit} (h : RingHolds (rxView (access n)) [])
    (fuel : Nat) : rxLoop onFrame (fuel + 1) n = some ((), access n) := by
  change (if (access n).nic.rxEmpty then _ else _ : NetM Unit) (access n) = _
  rw [if_pos ((ringHolds_empty_iff h).mpr rfl)]
  rfl

/-- Where a frame is unread, a turn of the loop hands it over, whatever the
handler does. -/
theorem rxLoop_held {onFrame : Nat → NetM Unit} (h : RingHolds (rxView (access n)) (p :: ps))
    (fuel : Nat) : rxLoop onFrame (fuel + 1) n =
      (do
        onFrame p.data.length
        modify fun n => leaveFrame n p.data.length
        modify fun n => advanceRx n (p.data.length + 4)
        rxLoop onFrame fuel : NetM Unit) (enterFrame (access n) p.data.length) := by
  have hempty : ¬(access n).nic.rxEmpty := by
    simp [ringHolds_empty_iff h]
  have hsize := (ringHolds_header h).2
  change (readU16 (access n).nic.ring ((access n).drv.rxOffset + 2)).toNat = _ at hsize
  have hvalid : ¬(p.data.length + 4 < 4 ∨ p.data.length + 4 > 1600) := by
    have := p.fits
    omega
  change (if (access n).nic.rxEmpty then _ else _ : NetM Unit) (access n) = _
  rw [if_neg hempty]
  simp only [hsize]
  rw [if_neg hvalid, Nat.add_sub_cancel]
  rfl

/-- One turn of the loop: it ends with everything read, or handles one frame
and goes on; the watched loop does the same. -/
theorem rxLoop_turn {onFrame : Nat → NetM Unit} (hcb : QuietHandler onFrame)
    (h : RxInv n unread) :
    (∃ n', RxInv n' [] ∧ n'.env = n.env ∧ ∀ fuel,
      rxLoop onFrame (fuel + 1) n = some ((), n') ∧
      rxLoopWatched onFrame (fuel + 1) n = some ((), n')) ∨
    ∃ n' rest, RxInv n' rest ∧ n'.env = n.env ∧
      (∀ stop, QuietFrom n.env stop → rest.length + pendingFrames n.env n'.accesses stop <
        unread.length + pendingFrames n.env n.accesses stop) ∧
      ∀ fuel, rxLoop onFrame (fuel + 1) n = rxLoop onFrame fuel n' ∧
        rxLoopWatched onFrame (fuel + 1) n = rxLoopWatched onFrame fuel n' := by
  obtain ⟨new, hacc, hinv⟩ := h.accessed
  have henv : (access n).env = n.env := hacc.env
  generalize hall : unread ++ new = all at hinv
  cases all with
  | nil =>
    left
    have hempty := (ringHolds_empty_iff hinv.ring).mpr rfl
    refine ⟨access n, hinv, henv, fun fuel => ⟨rxLoop_empty hinv.ring fuel, ?_⟩⟩
    · change (if (access n).nic.rxEmpty then _ else _ : NetM Unit) (access n) = _
      rw [if_pos hempty]
      rfl
  | cons p ps =>
    right
    have hempty : ¬(access n).nic.rxEmpty := by
      simp [ringHolds_empty_iff hinv.ring]
    obtain ⟨hhead, hsize⟩ := ringHolds_header hinv.ring
    change (access n).drv.rxOffset + 3 < rxBufSize at hhead
    change (readU16 (access n).nic.ring ((access n).drv.rxOffset + 2)).toNat = _ at hsize
    have hfits := p.fits
    have hvalid : ¬(p.data.length + 4 < 4 ∨ p.data.length + 4 > 1600) := by omega
    obtain ⟨m, k, hm, hsame⟩ := hcb p.data.length (enterFrame (access n) p.data.length)
    obtain ⟨more, hnext, hmenv, hmpending⟩ := hinv.left hsame
    rw [henv] at hmenv hmpending
    have hcount := congrArg List.length hall
    rw [List.length_append, List.length_cons] at hcount
    refine ⟨_, ps ++ more, hnext, hmenv, ?_, fun fuel => ⟨?_, ?_⟩⟩
    · intro stop hq
      have hfirst : new.length + pendingFrames n.env (access n).accesses stop ≤
          pendingFrames n.env n.accesses stop := hacc.pending stop hq
      have hthen := hmpending stop hq
      change _ + pendingFrames n.env m.accesses stop < _
      rw [List.length_append]
      omega
    · rw [rxLoop_held hinv.ring, bind_run hm]
      rfl
    · change (if (access n).nic.rxEmpty then _ else _ : NetM Unit) (access n) = _
      rw [if_neg hempty]
      have hindex : ∀ i < (readU16 (access n).nic.ring ((access n).drv.rxOffset + 2)).toNat - 4,
          ((access n).drv.rxOffset + 4 + i) % rxBufSize < rxTotalSize ∧ i < rxFrameTmpSize := by
        intro i hi
        rw [hsize, Nat.add_sub_cancel] at hi
        refine ⟨rxTotalSize_lt (Nat.mod_lt _ (by decide)), ?_⟩
        exact Nat.lt_of_lt_of_le hi (hfits.trans (by decide))
      rw [demand_bind (rxTotalSize_lt hhead)]
      simp only [hsize]
      rw [if_neg hvalid, Nat.add_sub_cancel]
      rw [demand_bind hindex, modify_bind, bind_run hm, modify_bind, modify_bind,
        demand_bind hnext.inStep]

/-- A returning loop has read everything, watched or not; it returns when no
more frames arrive. -/
theorem rxLoop_exact {onFrame : Nat → NetM Unit} (hcb : QuietHandler onFrame) (fuel : Nat)
    (h : RxInv n unread) :
    (∀ n', rxLoop onFrame fuel n = some ((), n') →
      rxLoopWatched onFrame fuel n = some ((), n') ∧ RxInv n' [] ∧ n'.env = n.env) ∧
    ∀ stop, QuietFrom n.env stop →
      unread.length + pendingFrames n.env n.accesses stop < fuel →
      ∃ n', rxLoop onFrame fuel n = some ((), n') := by
  induction fuel generalizing n unread with
  | zero =>
    refine ⟨?_, ?_⟩
    · intro n' hn
      cases hn
    · intro stop _ hlt
      exact absurd hlt (Nat.not_lt_zero _)
  | succ fuel ih =>
    rcases rxLoop_turn hcb h with ⟨m, hm, henv, hrun⟩ | ⟨m, rest, hm, henv, hless, hrun⟩
    · refine ⟨?_, fun _ _ _ => ⟨m, (hrun fuel).1⟩⟩
      intro n' hn
      rw [(hrun fuel).1] at hn
      cases hn
      exact ⟨(hrun fuel).2, hm, henv⟩
    · obtain ⟨hret, hend⟩ := ih hm
      rw [(hrun fuel).1, (hrun fuel).2]
      refine ⟨?_, ?_⟩
      · intro n' hn
        obtain ⟨hwatched, hinv, he⟩ := hret n' hn
        exact ⟨hwatched, hinv, he.trans henv⟩
      · intro stop hq hlt
        have := hless stop hq
        rw [henv] at hend
        exact hend stop hq (by omega)

/-- Between two polls: unread frames have raised the interrupt status. -/
structure RxReady (n : Net) (unread : List RxPacket) : Prop extends RxInv n unread where
  raised : unread ≠ [] → n.nic.isr ≠ 0

theorem RxInv.same (h : RxInv n unread) (hs : SameRx n' n) : RxInv n' unread := by
  obtain ⟨hring, hframes, hoffset, hup⟩ := h
  have hr : receivedFrames n'.trace = receivedFrames n.trace := congrArg RxView.received hs
  have hd : dispatchedFrames n'.trace = dispatchedFrames n.trace := congrArg RxView.dispatched hs
  have ho : n'.drv.rxOffset = n.drv.rxOffset := congrArg RxView.rxOffset hs
  have hu : n'.drv.up = n.drv.up := congrArg RxView.up hs
  refine ⟨?_, ?_, ?_, ?_⟩
  · rw [show rxView n' = rxView n from hs]
    exact hring
  · rw [hr, hd, hframes]
  · rw [ho, hd, hoffset]
  · rw [hu, hup]

theorem RxReady.accessed (h : RxReady n unread) :
    ∃ new, Accessed (rxView n) (rxView (access n)) new ∧ RxReady (access n) (unread ++ new) := by
  obtain ⟨new, hacc, hinv⟩ := h.toRxInv.accessed
  refine ⟨new, hacc, hinv, ?_⟩
  intro hne
  apply hacc.raised
  by_cases hn : new = []
  · right
    apply h.raised
    rwa [hn, List.append_nil] at hne
  · exact .inl hn

/-- A poll clears the status before its loop: what is unread stays. -/
theorem RxInv.cleared (h : RxInv n unread) (bits : UInt16) (nested : Bool) :
    RxInv ((clearIsr n bits).log (.polled nested)) unread := by
  obtain ⟨hring, hframes, hoffset, hup⟩ := h
  refine ⟨⟨hring.aligned, hring.inside, hring.read, hring.write, hring.fits, hring.held⟩,
    ?_, ?_, hup⟩
  · simp only [Net.log, receivedFrames_append, dispatchedFrames_append]
    change receivedFrames n.trace ++ [] = dispatchedFrames n.trace ++ [] ++ _
    rw [List.append_nil, List.append_nil, hframes]
  · simp only [Net.log, dispatchedFrames_append]
    change _ = nicOffset (dispatchedFrames n.trace ++ [])
    rw [List.append_nil]
    exact hoffset

/-- The same for `rtl8139_poll`: where it finds no interrupt, nothing is unread. -/
theorem rtl8139Poll_exact {onFrame : Nat → NetM Unit} (hcb : QuietHandler onFrame)
    (h : RxReady n unread) :
    (∀ fuel n', rtl8139Poll onFrame fuel n = some ((), n') →
      rtl8139PollWatched onFrame fuel n = some ((), n') ∧ RxReady n' [] ∧ n'.env = n.env) ∧
    ∀ stop, QuietFrom n.env stop → ∃ fuel n', rtl8139Poll onFrame fuel n = some ((), n') := by
  obtain ⟨new, hacc, hinv⟩ := h.accessed
  obtain ⟨more, hacc', hinv'⟩ := hinv.accessed
  have hup : ¬¬n.drv.up = true := not_not.mpr h.up
  have henv : (access (access n)).env = n.env := hacc'.env.trans hacc.env
  by_cases hisr : (access n).nic.isr = 0
  · have hall : unread ++ new = [] := by
      by_contra hne
      exact hinv.raised hne hisr
    rw [hall] at hinv
    have hrun : ∀ fuel, rtl8139Poll onFrame fuel n = some ((), access n) ∧
        rtl8139PollWatched onFrame fuel n = some ((), access n) := by
      intro fuel
      refine ⟨?_, ?_⟩
      · rw [rtl8139Poll, get_bind_run, if_neg hup, modify_bind, get_bind_run, if_pos hisr]
        rfl
      · rw [rtl8139PollWatched, get_bind_run, if_neg hup, modify_bind, get_bind_run, if_pos hisr]
        rfl
    refine ⟨?_, fun _ _ => ⟨0, access n, (hrun 0).1⟩⟩
    intro fuel n' hn
    rw [(hrun fuel).1] at hn
    cases hn
    exact ⟨(hrun fuel).2, hinv, hacc.env⟩
  · obtain ⟨m, hm, he, hrun⟩ : ∃ m, RxInv m (unread ++ new ++ more) ∧ m.env = n.env ∧ ∀ fuel,
        rtl8139Poll onFrame fuel n = rxLoop onFrame fuel m ∧
        rtl8139PollWatched onFrame fuel n = rxLoopWatched onFrame fuel m := by
      refine ⟨_, hinv'.toRxInv.cleared (access n).nic.isr (0 < (access (access n)).depth), henv, ?_⟩
      intro fuel
      refine ⟨?_, ?_⟩
      · rw [rtl8139Poll, get_bind_run, if_neg hup, modify_bind, get_bind_run, if_neg hisr]
        rfl
      · rw [rtl8139PollWatched, get_bind_run, if_neg hup, modify_bind, get_bind_run, if_neg hisr]
        rfl
    refine ⟨?_, ?_⟩
    · intro fuel n' hn
      rw [(hrun fuel).1] at hn
      obtain ⟨hwatched, hend, henv'⟩ := (rxLoop_exact hcb fuel hm).1 n' hn
      rw [(hrun fuel).2]
      exact ⟨hwatched, ⟨hend, fun hne => absurd rfl hne⟩, henv'.trans he⟩
    · intro stop hq
      rw [← he] at hq
      obtain ⟨n', hn⟩ := (rxLoop_exact hcb _ hm).2 stop hq (Nat.lt_succ_self _)
      exact ⟨_, n', (hrun _).1.trans hn⟩

end Turn

/-- What happens to the receiver: the rest of the system accesses the hardware,
or polls. -/
inductive RxCmd where
  | idle
  | poll

def rxStep (onFrame : Nat → NetM Unit) (n : Net) (c : RxCmd) (n' : Net) : Prop :=
  match c with
  | .idle => SameRx n' (access n)
  | .poll => ∃ fuel, rtl8139Poll onFrame fuel n = some ((), n')

/-- `rtl8139_init` has just returned, before the first frame. -/
structure RxReset (n : Net) : Prop where
  up : n.drv.up = true
  rxOffset : n.drv.rxOffset = 0
  writePos : n.nic.writePos = 0
  capr : n.nic.capr = 0xFFF0
  received : receivedFrames n.trace = []
  dispatched : dispatchedFrames n.trace = []

section Runs

variable {n n' : Net} {onFrame : Nat → NetM Unit}

theorem RxReset.ready (h : RxReset n) : RxReady n [] where
  ring :=
    { aligned := by simp [rxView, h.rxOffset]
      inside := by simp [rxView, h.rxOffset, rxBufSize]
      read := by simp [RxView.readPos, rxView, h.rxOffset, h.capr, rxBufSize]
      write := by simp [rxView, h.rxOffset, h.writePos]
      fits := by decide
      held := trivial }
  frames := by simp [h.received, h.dispatched]
  offset := by simp [h.rxOffset, h.dispatched, nicOffset]
  up := h.up
  raised hne := absurd rfl hne

theorem rxStep_ready (hcb : QuietHandler onFrame) {c : RxCmd} (h : ∃ unread, RxReady n unread)
    (hs : rxStep onFrame n c n') : (∃ unread, RxReady n' unread) ∧ n'.env = n.env := by
  obtain ⟨unread, h⟩ := h
  cases c with
  | idle =>
    obtain ⟨new, hacc, hinv⟩ := h.accessed
    have henv : n'.env = (access n).env := congrArg RxView.env hs
    refine ⟨⟨_, hinv.toRxInv.same hs, ?_⟩, henv.trans hacc.env⟩
    intro hne
    rw [show n'.nic.isr = (access n).nic.isr from congrArg RxView.isr hs]
    exact hinv.raised hne
  | poll =>
    obtain ⟨fuel, hn⟩ := hs
    obtain ⟨_, hready, henv⟩ := (rtl8139Poll_exact hcb h).1 fuel n' hn
    exact ⟨⟨[], hready⟩, henv⟩

theorem rxRun_ready (hcb : QuietHandler onFrame) {cs : List RxCmd} {n₀ : Net} (h₀ : RxReset n₀)
    (hrun : Run (rxStep onFrame) n₀ cs n) : (∃ unread, RxReady n unread) ∧ n.env = n₀.env := by
  apply hrun.invariant (P := fun m => (∃ unread, RxReady m unread) ∧ m.env = n₀.env)
  · intro m c m' ⟨hm, henv⟩ hs
    obtain ⟨hm', henv'⟩ := rxStep_ready hcb hm hs
    exact ⟨hm', henv'.trans henv⟩
  · exact ⟨⟨[], h₀.ready⟩, rfl⟩

/-- The ring is decoded exactly: after any run the driver is at the controller's
offset for the next frame, and a poll hands over all the frames stored so far,
in order, without an index outside its array. -/
theorem rx_ring_exact (hcb : QuietHandler onFrame) {cs : List RxCmd} {n₀ : Net} (h₀ : RxReset n₀)
    (hrun : Run (rxStep onFrame) n₀ cs n) :
    InStep n ∧ n.nic.writePos = nicOffset (receivedFrames n.trace) ∧
    (∀ stop, QuietFrom n₀.env stop → ∃ fuel n', rtl8139Poll onFrame fuel n = some ((), n')) ∧
    ∀ fuel n', rtl8139Poll onFrame fuel n = some ((), n') →
      rtl8139PollWatched onFrame fuel n = some ((), n') ∧
      dispatchedFrames n'.trace = receivedFrames n'.trace ∧ n'.drv.rxOffset = n'.nic.writePos := by
  obtain ⟨⟨unread, hready⟩, henv⟩ := rxRun_ready hcb h₀ hrun
  obtain ⟨hret, hend⟩ := rtl8139Poll_exact hcb hready
  rw [henv] at hend
  refine ⟨hready.inStep, hready.writePos, hend, ?_⟩
  intro fuel n' hn
  obtain ⟨hwatched, hready', _⟩ := hret fuel n' hn
  have hall : receivedFrames n'.trace = dispatchedFrames n'.trace := by
    rw [hready'.frames, List.map_nil, List.append_nil]
  refine ⟨hwatched, hall.symm, ?_⟩
  rw [hready'.writePos, hready'.offset, hall]

/-- A receiver at which two frames arrive, the second one empty. -/
def twoFrames : Net where
  cfg := { mac := ⟨[0, 0, 0, 0, 0, 0], zeroMac_size⟩ }
  drv := { up := true }
  env := fun k => if k = 0 then
    [.arrive ⟨1, [1, 2, 3], [0, 0, 0, 0], by decide, zeroCrc_length⟩,
      .arrive ⟨1, [], [0, 0, 0, 0], by decide, zeroCrc_length⟩] else []

theorem rx_ring_exact_two : receivedFrames (access twoFrames).trace = [[1, 2, 3], []] ∧
    ∃ fuel n', rtl8139Poll (fun _ => pure ()) fuel (access twoFrames) = some ((), n') ∧
      dispatchedFrames n'.trace = receivedFrames n'.trace ∧
      n'.drv.rxOffset = n'.nic.writePos := by
  have hquiet : QuietHandler fun _ => pure () := fun _ n => ⟨n, 0, rfl, rfl⟩
  have hreset : RxReset twoFrames := ⟨rfl, rfl, rfl, rfl, rfl, rfl⟩
  have hrun : Run (rxStep fun _ => pure ()) twoFrames [.idle] (access twoFrames) :=
    .cons rfl (.nil _)
  have hq : QuietFrom twoFrames.env 1 := by
    intro k hk e he
    rw [show twoFrames.env k = [] from if_neg (by omega)] at he
    cases he
  obtain ⟨_, _, hend, hret⟩ := rx_ring_exact hquiet hreset hrun
  obtain ⟨fuel, n', hn⟩ := hend 1 hq
  exact ⟨by decide, fuel, n', hn, (hret fuel n' hn).2⟩

end Runs

end VertexOS
