import VertexOS.Net.Rtl8139

namespace VertexOS
open Library.Programs

/-- `ETH_TYPE_ARP`. -/
def ethTypeArp : UInt16 := 0x0806

/-- `ETH_TYPE_IPV4`. -/
def ethTypeIpv4 : UInt16 := 0x0800

def broadcastMac : Mac := ⟨[0xFF, 0xFF, 0xFF, 0xFF, 0xFF, 0xFF], rfl⟩

/-- The frame in `eth_tx_frame_buf`: a short one is padded to 60 bytes. -/
def buildFrame (n : Net) (dst : Mac) (ethertype : UInt16) (payload : Buf)
    (payloadLen : Nat) : Net :=
  let b := putBytes n.bufs.eth 0 (dst.bytes ++ n.cfg.mac.bytes ++ be16 ethertype)
  let b := memCopyAt b 14 payload payloadLen
  let b := if 14 + payloadLen < 60 then memSetAt b (14 + payloadLen) 0 (60 - (14 + payloadLen)) else b
  { n with bufs := { n.bufs with eth := b } }

/-- `send_frame`; the payload is a pointer into the current state. -/
def sendFrame (dst : Mac) (ethertype : UInt16) (payload : Net → Buf) (payloadLen : Nat) :
    NetM Bool := do
  if payloadLen > 1500 then return false
  modify fun n => buildFrame n dst ethertype (payload n) payloadLen
  rtl8139Send (·.bufs.eth) (max 60 (14 + payloadLen))

/-- An `arp_packet`. -/
def arpPacket (op : UInt16) (senderMac : Mac) (senderIp : UInt32) (targetMac : List UInt8)
    (targetIp : UInt32) : List UInt8 :=
  be16 1 ++ be16 ethTypeIpv4 ++ [6, 4] ++ be16 op ++ senderMac.bytes ++ be32 senderIp ++ targetMac ++
    be32 targetIp

def sendArpRequest (targetIp : UInt32) : NetM Unit := do
  let n ← get
  let p := arpPacket 1 n.cfg.mac n.cfg.ip [0, 0, 0, 0, 0, 0] targetIp
  let _ ← sendFrame broadcastMac ethTypeArp (fun _ => bufOf p) 28

def sendArpReply (dstMac : Mac) (dstIp : UInt32) : NetM Unit := do
  let n ← get
  let p := arpPacket 2 n.cfg.mac n.cfg.ip dstMac.bytes dstIp
  let _ ← sendFrame dstMac ethTypeArp (fun _ => bufOf p) 28

/-- The next hop for an address. -/
def routeIp (cfg : NetConfig) (dstIp : UInt32) : UInt32 :=
  if cfg.subnet ≠ 0 ∧ dstIp &&& cfg.subnet ≠ cfg.ip &&& cfg.subnet then cfg.gateway else dstIp

section Waiting

/-! `poll` is `net_poll`, which the waiting loops call. -/

variable (poll : NetM Unit)

/-- The waiting loop of `resolve_target_mac`. -/
def waitMac (route start : UInt32) : Nat → NetM (Option Mac)
  | 0 => fun _ => none
  | fuel + 1 => do
    let now ← pitGetTicks
    let n ← get
    if now - start < n.pitFrequency then
      poll
      let n ← get
      if n.arp.valid ∧ n.arp.ip = route then return some n.arp.mac
      waitMac route start fuel
    else return none

def resolveTargetMac (fuel : Nat) (dstIp : UInt32) : NetM (Option Mac) := do
  let n ← get
  let route := routeIp n.cfg dstIp
  if n.arp.valid ∧ n.arp.ip = route then return some n.arp.mac
  sendArpRequest route
  let start ← pitGetTicks
  waitMac poll route start fuel

/-- An `ipv4_header` without options. -/
def ipv4Header (totalLen ident flagsFrag : UInt16) (proto : UInt8) (srcIp dstIp : UInt32) :
    List UInt8 :=
  let h := fun sum => [0x45, 0] ++ be16 totalLen ++ be16 ident ++ be16 flagsFrag ++ [64, proto] ++
    be16 sum ++ be32 srcIp ++ be32 dstIp
  h (checksum16 (bufOf (h 0)) 20)

/-- The packet in `ipv4_tx_buf`. -/
def buildIpv4 (n : Net) (dstIp : UInt32) (proto : UInt8) (payload : Buf) (payloadLen : Nat)
    (ident : UInt16) : Net :=
  let h := ipv4Header (UInt16.ofNat (20 + payloadLen)) ident 0x4000 proto n.cfg.ip dstIp
  { n with bufs := { n.bufs with ipv4 := memCopyAt (putBytes n.bufs.ipv4 0 h) 20 payload payloadLen } }

def sendIpv4Packet (fuel : Nat) (dstIp : UInt32) (proto : UInt8) (payload : Net → Buf)
    (payloadLen : Nat) (ident : UInt16) : NetM Bool := do
  match ← resolveTargetMac poll fuel dstIp with
  | none => return false
  | some dstMac =>
    modify fun n => buildIpv4 n dstIp proto (payload n) payloadLen ident
    sendFrame dstMac ethTypeIpv4 (·.bufs.ipv4) (20 + payloadLen)

/-- The datagram in `udp_tx_buf`. -/
def buildUdp (n : Net) (srcPort dstPort : UInt16) (payload : List UInt8) : Net :=
  let h := be16 srcPort ++ be16 dstPort ++ be16 (UInt16.ofNat (8 + payload.length)) ++ be16 0
  { n with bufs := { n.bufs with udp := putBytes (putBytes n.bufs.udp 0 h) 8 payload } }

def sendUdpPacket (fuel : Nat) (dstIp : UInt32) (srcPort dstPort : UInt16) (payload : List UInt8)
    (ident : UInt16) : NetM Bool := do
  if 8 + payload.length > 1600 then return false
  modify fun n => buildUdp n srcPort dstPort payload
  sendIpv4Packet poll fuel dstIp 17 (·.bufs.udp) (8 + payload.length) ident

/-- A `tcp_header`. -/
def tcpHeader (srcPort dstPort : UInt16) (seq ack : UInt32) (flags : UInt8) (checksum : UInt16) :
    List UInt8 :=
  be16 srcPort ++ be16 dstPort ++ be32 seq ++ be32 ack ++ [0x50, flags] ++ be16 4096 ++
    be16 checksum ++ be16 0

/-- The header of a segment, its checksum over header and payload. -/
def tcpSegmentHeader (srcIp dstIp : UInt32) (srcPort dstPort : UInt16) (seq ack : UInt32)
    (flags : UInt8) (payload : List UInt8) : List UInt8 :=
  tcpHeader srcPort dstPort seq ack flags
    (tcpChecksum srcIp dstIp (bufOf (tcpHeader srcPort dstPort seq ack flags 0 ++ payload))
      (20 + payload.length))

/-- The segment in `tcp_tx_buf`. -/
def buildTcp (n : Net) (dstIp : UInt32) (srcPort dstPort : UInt16) (seq ack : UInt32)
    (flags : UInt8) (payload : List UInt8) : Net :=
  let h := tcpSegmentHeader n.cfg.ip dstIp srcPort dstPort seq ack flags payload
  ({ n with bufs := { n.bufs with tcp := putBytes (putBytes n.bufs.tcp 20 payload) 0 h } }).log
    (.built h)

def sendTcpPacket (fuel : Nat) (dstIp : UInt32) (srcPort dstPort : UInt16) (seq ack : UInt32)
    (flags : UInt8) (payload : List UInt8) (ident : UInt16) : NetM Bool := do
  if 20 + payload.length > 1600 then return false
  modify fun n => buildTcp n dstIp srcPort dstPort seq ack flags payload
  sendIpv4Packet poll fuel dstIp 6 (·.bufs.tcp) (20 + payload.length) ident

end Waiting

end VertexOS
