import VertexOS.Library.Programs
import VertexOS.Net.Http

namespace VertexOS
open Library.Programs

/-- `net_config`. -/
structure NetConfig where
  mac : Mac
  ip : UInt32 := 0
  subnet : UInt32 := 0
  gateway : UInt32 := 0
  dns : UInt32 := 0
  linkUp : Bool := false
  dhcpConfigured : Bool := false
  deriving DecidableEq, Repr

structure ArpCache where
  valid : Bool := false
  ip : UInt32 := 0
  mac : Mac := ⟨[0, 0, 0, 0, 0, 0], zeroMac_size⟩
  deriving DecidableEq, Repr

structure PingState where
  waiting : Bool := false
  ident : UInt16 := 0
  seq : UInt16 := 0
  target : UInt32 := 0
  sentTicks : UInt32 := 0
  gotReply : Bool := false
  rttMs : UInt32 := 0
  deriving DecidableEq, Repr

structure DhcpState where
  waitingOffer : Bool := false
  waitingAck : Bool := false
  xid : UInt32 := 0
  offeredIp : UInt32 := 0
  serverIp : UInt32 := 0
  subnet : UInt32 := 0
  router : UInt32 := 0
  dns : UInt32 := 0
  deriving DecidableEq, Repr

structure DnsState where
  waiting : Bool := false
  gotReply : Bool := false
  xid : UInt16 := 0
  resultIp : UInt32 := 0
  deriving DecidableEq, Repr

/-- The static transmit buffers that outlive a call. -/
structure TxBufs where
  ipv4 : Buf := fun _ => 0
  udp : Buf := fun _ => 0
  tcp : Buf := fun _ => 0
  eth : Buf := fun _ => 0

/-- A frame as the controller stores it: the driver takes frames of at most 1596
bytes. -/
structure RxPacket where
  status : UInt16
  data : List UInt8
  crc : List UInt8
  fits : data.length ≤ 1596
  crcLength : crc.length = 4

theorem zeroCrc_length : ([0, 0, 0, 0] : List UInt8).length = 4 := rfl

/-- What may happen beside the program at an access to the hardware. -/
inductive HwEvent where
  | tick
  | arrive (p : RxPacket)
  /-- The controller has sent the frame of a transmit descriptor. -/
  | txDone (index : Nat)

/-- The controller: `ring` is `rx_ring_buf`, `writePos` where it stores the next
frame. -/
structure Nic where
  ring : Buf := fun _ => 0
  writePos : Nat := 0
  capr : UInt16 := 0xFFF0
  isr : UInt16 := 0
  txBusy : Nat → Bool := fun _ => false

/-- The driver's own variables. -/
structure Driver where
  up : Bool := false
  rxOffset : Nat := 0
  rxFrameTmp : Buf := fun _ => 0
  txIndex : Nat := 0

/-- A segment of the connection, as `handle_tcp` decodes it. -/
structure TcpSegment where
  srcIp : UInt32
  srcPort : UInt16
  dstPort : UInt16
  seq : UInt32
  flags : UInt8
  data : List UInt8
  deriving DecidableEq, Repr

/-- The options of a DHCP message that `handle_dhcp` looks at. -/
structure DhcpOptions where
  msgType : UInt8 := 0
  subnet : Option UInt32 := none
  router : Option UInt32 := none
  dns : Option UInt32 := none
  serverIp : Option UInt32 := none
  deriving DecidableEq, Repr

structure DhcpMessage where
  xid : UInt32
  chaddr : List UInt8
  cookie : UInt32
  yiaddr : UInt32
  options : DhcpOptions
  deriving DecidableEq, Repr

/-- The history of the network stack: no code reads it. -/
inductive NetEvent where
  /-- The controller has stored a frame in the ring. -/
  | received (frame : List UInt8)
  /-- `rtl8139_poll` found the interrupt status set. -/
  | polled (nested : Bool)
  | dispatched (frame : List UInt8)
  /-- The handler is done; `rx_frame_tmp` as it left it. -/
  | returned (frame : List UInt8)
  | sent (frame : List UInt8)
  /-- A TCP header was built in `tcp_tx_buf`. -/
  | built (header : List UInt8)
  /-- `handle_tcp` has a segment of the connection. -/
  | segment (s : TcpSegment)
  /-- A SYN-ACK was accepted. -/
  | accepted (seq : UInt32)
  | fed (data : List UInt8)
  /-- A FIN was handled: the sequence number it has, and `seq_remote` before it. -/
  | fin (seq seqRemote : UInt32)
  /-- `handle_tcp` is done with a segment; `seq_remote` as it left it. -/
  | handled (seqRemote : UInt32)
  /-- `net_http_get` has set up its session. -/
  | opened
  /-- `net_http_get` has filled its response. -/
  | fetched
  /-- A DHCP message passed the checks of `handle_dhcp`. -/
  | dhcp (m : DhcpMessage)
  /-- An ACK was accepted: the configuration it left. -/
  | leased (cfg : NetConfig)
  /-- `net_dhcp_request` has sent its REQUEST. -/
  | requested
  deriving DecidableEq, Repr

structure Net where
  cfg : NetConfig
  arp : ArpCache := {}
  ping : PingState := {}
  dhcp : DhcpState := {}
  dns : DnsState := {}
  tcp : TcpHttp := {}
  bufs : TxBufs := {}
  drv : Driver := {}
  nic : Nic := {}
  ticks : UInt32 := 0
  pitFrequency : UInt32 := 100
  /-- What happens at each access to the hardware, and the number of accesses. -/
  env : Nat → List HwEvent := fun _ => []
  accesses : Nat := 0
  /-- The handlers that are active. -/
  depth : Nat := 0
  trace : List NetEvent := []

abbrev NetM := Prog Net

def Net.log (n : Net) (e : NetEvent) : Net := { n with trace := n.trace ++ [e] }

/-- `RX_BUF_SIZE`. -/
def rxBufSize : Nat := 8192

/-- The next offset in the ring behind `size` bytes and a header. -/
def ringNext (off size : Nat) : Nat := (off + size + 4 + 3) / 4 * 4 % rxBufSize

/-- The controller's reading position, from `CAPR`. -/
def Nic.readPos (c : Nic) : Nat := (c.capr.toNat + 16) % rxBufSize

/-- `CR_RX_EMPTY`: the driver has consumed everything. -/
def Nic.rxEmpty (c : Nic) : Bool := c.readPos = c.writePos

/-- The controller writes bytes behind its position, around the end of the ring. -/
def ringStore (ring : Buf) (pos : Nat) (l : List UInt8) : Buf :=
  fun i => if (i + rxBufSize - pos) % rxBufSize < l.length ∧ i < rxBufSize then
    l.getD ((i + rxBufSize - pos) % rxBufSize) 0 else ring i

/-- The bytes of a stored frame: status, size with the checksum, data, checksum. -/
def RxPacket.bytes (p : RxPacket) : List UInt8 :=
  [p.status.toUInt8, (p.status >>> 8).toUInt8, (UInt16.ofNat (p.data.length + 4)).toUInt8,
    (UInt16.ofNat (p.data.length + 4) >>> 8).toUInt8] ++ p.data ++ p.crc

/-- The room a stored frame takes. -/
def RxPacket.room (p : RxPacket) : Nat := (p.data.length + 8 + 3) / 4 * 4

/-- A frame arrives: it is stored when it does not reach unread frames. -/
def receiveFrame (n : Net) (p : RxPacket) : Net :=
  if (n.nic.writePos + rxBufSize - n.nic.readPos) % rxBufSize + p.room < rxBufSize then
    ({ n with
      nic := { n.nic with
        ring := ringStore n.nic.ring n.nic.writePos p.bytes
        writePos := (n.nic.writePos + p.room) % rxBufSize
        isr := n.nic.isr ||| 0x0001 } }).log (.received p.data)
  else { n with nic := { n.nic with isr := n.nic.isr ||| 0x0010 } }

def hwEvent (n : Net) : HwEvent → Net
  | .tick => { n with ticks := n.ticks + 1 }
  | .arrive p => receiveFrame n p
  | .txDone i =>
    { n with nic := { n.nic with
      txBusy := Function.update n.nic.txBusy i false, isr := n.nic.isr ||| 0x0004 } }

/-- An access to the hardware, and what happens beside it. -/
def access (n : Net) : Net :=
  { (n.env n.accesses).foldl hwEvent n with accesses := n.accesses + 1 }

def pitGetTicks : NetM UInt32 := do
  modify access
  return (← get).ticks

end VertexOS
