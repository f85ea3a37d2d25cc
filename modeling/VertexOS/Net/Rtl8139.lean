import VertexOS.Net.State

namespace VertexOS
open Library.Programs

/-- The descriptor gets the frame: it is on the wire from here on. -/
def startTx (n : Net) (frame : List UInt8) : Net :=
  ({ n with
    nic := { n.nic with txBusy := Function.update n.nic.txBusy n.drv.txIndex true }
    drv := { n.drv with txIndex := (n.drv.txIndex + 1) % 4 } }).log (.sent frame)

def rtl8139Send (frame : Net → Buf) (len : Nat) : NetM Bool := do
  let n ← get
  if ¬n.drv.up ∨ len = 0 ∨ len > 1514 then return false
  modify access
  let n ← get
  -- the controller still owns the descriptor
  if n.nic.txBusy n.drv.txIndex then return false
  modify fun n => startTx n (bytesAt (frame n) 0 len)
  return true

/-- `read_u16`: little-endian. -/
def readU16 (b : Buf) (off : Nat) : UInt16 := (b off).toUInt16 ||| ((b (off + 1)).toUInt16 <<< 8)

/-- Writing `ISR` clears the bits that are written. -/
def clearIsr (n : Net) (bits : UInt16) : Net :=
  { n with nic := { n.nic with isr := n.nic.isr &&& ~~~bits } }

/-- The frame at `rx_offset` is copied and the handler entered. -/
def enterFrame (n : Net) (frameLen : Nat) : Net :=
  let tmp := memCopyAt n.drv.rxFrameTmp 0
    (fun i => n.nic.ring ((n.drv.rxOffset + 4 + i) % rxBufSize)) frameLen
  ({ n with
    drv := { n.drv with rxFrameTmp := tmp }
    depth := n.depth + 1 }).log (.dispatched (bytesAt tmp 0 frameLen))

def leaveFrame (n : Net) (frameLen : Nat) : Net :=
  ({ n with depth := n.depth - 1 }).log (.returned (bytesAt n.drv.rxFrameTmp 0 frameLen))

/-- `rx_offset` moves on by the frame's size, and `CAPR` after it. -/
def advanceRx (n : Net) (size : Nat) : Net :=
  let off := ringNext n.drv.rxOffset size
  { n with
    drv := { n.drv with rxOffset := off }
    nic := { n.nic with capr := UInt16.ofNat ((off + 65536 - 16) % 65536) &&& 0x1FFF } }

/-- The loop of `rtl8139_poll`, with `rx_callback` as `onFrame`. -/
def rxLoop (onFrame : Nat → NetM Unit) : Nat → NetM Unit
  | 0 => fun _ => none
  | fuel + 1 => do
    modify access
    let n ← get
    if n.nic.rxEmpty then return
    let size := (readU16 n.nic.ring (n.drv.rxOffset + 2)).toNat
    if size < 4 ∨ size > 1600 then
      modify fun n => clearIsr n 0xFFFF
      return
    modify fun n => enterFrame n (size - 4)
    onFrame (size - 4)
    modify fun n => leaveFrame n (size - 4)
    modify fun n => advanceRx n size
    rxLoop onFrame fuel

def rtl8139Poll (onFrame : Nat → NetM Unit) (fuel : Nat) : NetM Unit := do
  let n ← get
  if ¬n.drv.up then return
  modify access
  let n ← get
  let isr := n.nic.isr
  if isr = 0 then return
  modify access
  modify fun n => (clearIsr n isr).log (.polled (0 < n.depth))
  rxLoop onFrame fuel

end VertexOS
