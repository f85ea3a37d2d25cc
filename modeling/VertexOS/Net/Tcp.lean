import VertexOS.Net.Transmit

namespace VertexOS
open Library.Programs

def tcpFlagFin : UInt8 := 0x01
def tcpFlagSyn : UInt8 := 0x02
def tcpFlagRst : UInt8 := 0x04
def tcpFlagPsh : UInt8 := 0x08
def tcpFlagAck : UInt8 := 0x10

def TcpSegment.has (s : TcpSegment) (flag : UInt8) : Bool := s.flags &&& flag ≠ 0

/-- The segment belongs to the connection. -/
def TcpHttp.owns (t : TcpHttp) (s : TcpSegment) : Bool :=
  t.active && s.srcIp = t.remoteIp && s.srcPort = t.remotePort && s.dstPort = t.localPort

/-- The acknowledgment that `handle_tcp` sends after an update. -/
def sendAck (poll : NetM Unit) (fuel : Nat) : NetM Unit := do
  let n ← get
  let _ ← sendTcpPacket poll fuel n.tcp.remoteIp n.tcp.localPort n.tcp.remotePort n.tcp.seqLocal
    n.tcp.seqRemote tcpFlagAck [] n.tcp.seqLocal.toUInt16

/-- A SYN-ACK opens the connection. -/
def acceptSynAck (n : Net) (seq : UInt32) : Net :=
  let t := { n.tcp with seqRemote := seq + 1, connecting := false, established := true }
  ({ n with tcp := t }).log (.accepted seq)

/-- Data in order is fed to the parser. -/
def acceptData (n : Net) (data : List UInt8) : Net :=
  let t := { n.tcp with seqRemote := n.tcp.seqRemote + UInt32.ofNat data.length }
  ({ n with tcp := tcpHttpFeedData t data }).log (.fed data)

/-- A FIN is noted; it counts in the sequence when nothing is missing before it. -/
def acceptFin (n : Net) (s : TcpSegment) : Net :=
  let seqRemote := if s.seq + UInt32.ofNat s.data.length = n.tcp.seqRemote then n.tcp.seqRemote + 1
    else n.tcp.seqRemote
  ({ n with tcp := { n.tcp with seqRemote := seqRemote, finSeen := true } }).log
    (.fin (s.seq + UInt32.ofNat s.data.length) n.tcp.seqRemote)

/-- The data of a segment counts only where it is next in the stream. -/
def tcpData (poll : NetM Unit) (fuel : Nat) (s : TcpSegment) : NetM Unit := do
  let n ← get
  if s.data ≠ [] ∧ s.seq = n.tcp.seqRemote then
    modify fun n => acceptData n s.data
    sendAck poll fuel

def tcpFin (poll : NetM Unit) (fuel : Nat) (s : TcpSegment) : NetM Unit := do
  if s.has tcpFlagFin then
    modify fun n => acceptFin n s
    sendAck poll fuel

/-- The segment is one of the connection's. -/
def noteSegment (n : Net) (now : UInt32) (s : TcpSegment) : Net :=
  ({ n with tcp := { n.tcp with lastActivityTicks := now } }).log (.segment s)

/-- `handle_tcp` on a segment of the connection. -/
def tcpProcess (poll : NetM Unit) (fuel : Nat) (s : TcpSegment) : NetM Unit := do
  if s.has tcpFlagRst then
    modify fun n => { n with tcp := { n.tcp with failed := true } }
    return
  let n ← get
  if n.tcp.connecting ∧ s.has tcpFlagSyn ∧ s.has tcpFlagAck then
    modify fun n => acceptSynAck n s.seq
    sendAck poll fuel
    return
  if ¬n.tcp.established then return
  tcpData poll fuel s
  tcpFin poll fuel s

/-- `handle_tcp` once the segment is decoded. -/
def tcpReceive (poll : NetM Unit) (fuel : Nat) (s : TcpSegment) : NetM Unit := do
  let n ← get
  if ¬n.tcp.owns s then return
  let now ← pitGetTicks
  modify fun n => noteSegment n now s
  tcpProcess poll fuel s
  modify fun n => n.log (.handled n.tcp.seqRemote)

/-- The segment whose IPv4 header is at `ip` and whose `len` bytes are at
`payload`. -/
def tcpSegmentAt (b : Buf) (ip payload len : Nat) : TcpSegment :=
  let dataOffset := (b (payload + 12) >>> 4).toNat * 4
  ⟨rd32 b (ip + 12), rd16 b payload, rd16 b (payload + 2), rd32 b (payload + 4), b (payload + 13),
    bytesAt b (payload + dataOffset) (len - dataOffset)⟩

/-- `handle_tcp` on the bytes of `rx_frame_tmp`. -/
def handleTcp (poll : NetM Unit) (fuel ip payload len : Nat) : NetM Unit := do
  let n ← get
  let b := n.drv.rxFrameTmp
  let dataOffset := (b (payload + 12) >>> 4).toNat * 4
  if len < 20 ∨ dataOffset < 20 ∨ dataOffset > len then return
  tcpReceive poll fuel (tcpSegmentAt b ip payload len)

end VertexOS
