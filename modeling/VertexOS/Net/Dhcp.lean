import VertexOS.Net.Transmit

namespace VertexOS
open Library.Programs

/-- `sizeof(d->options)`. -/
def dhcpOptionsSize : Nat := 312

/-- The offset of the options in a `dhcp_packet`. -/
def dhcpHeaderSize : Nat := 240

/-- The option loop of `handle_dhcp`: `f` is given each option's code, length and
the position of its value. -/
def optionLoop {σ : Type} (o : Buf) (f : σ → UInt8 → Nat → Nat → σ) : Nat → Nat → σ → σ
  | 0, _, s => s
  | fuel + 1, i, s =>
    if i + 1 < dhcpOptionsSize then
      if o i = 0xFF then s
      else if o i = 0 then optionLoop o f fuel (i + 1) s
      else
        let optLen := (o (i + 1)).toNat
        if i + 2 + optLen > dhcpOptionsSize then s
        else optionLoop o f fuel (i + 2 + optLen) (f s (o i) optLen (i + 2))
    else s

/-- One option of a message: its type is kept beside the lease data. -/
def storeOption (o : Buf) (s : UInt8 × DhcpState) (code : UInt8) (optLen i : Nat) :
    UInt8 × DhcpState :=
  if code = 53 ∧ optLen = 1 then (o i, s.2)
  else if code = 1 ∧ optLen = 4 then (s.1, { s.2 with subnet := rd32 o i })
  else if code = 3 ∧ optLen ≥ 4 then (s.1, { s.2 with router := rd32 o i })
  else if code = 6 ∧ optLen ≥ 4 then (s.1, { s.2 with dns := rd32 o i })
  else if code = 54 ∧ optLen = 4 then (s.1, { s.2 with serverIp := rd32 o i })
  else s

/-- What one option of a message says by itself. -/
def readOption (o : Buf) (s : DhcpOptions) (code : UInt8) (optLen i : Nat) : DhcpOptions :=
  if code = 53 ∧ optLen = 1 then { s with msgType := o i }
  else if code = 1 ∧ optLen = 4 then { s with subnet := some (rd32 o i) }
  else if code = 3 ∧ optLen ≥ 4 then { s with router := some (rd32 o i) }
  else if code = 6 ∧ optLen ≥ 4 then { s with dns := some (rd32 o i) }
  else if code = 54 ∧ optLen = 4 then { s with serverIp := some (rd32 o i) }
  else s

/-- The message at `payload`. -/
def dhcpMessageAt (b : Buf) (payload : Nat) : DhcpMessage :=
  let o := fun i => b (payload + dhcpHeaderSize + i)
  ⟨rd32 b (payload + 4), bytesAt b (payload + 28) 6, rd32 b (payload + 236),
    rd32 b (payload + 16), optionLoop o (readOption o) dhcpOptionsSize 0 {}⟩

/-- The configuration after an ACK. -/
def ackConfig (cfg : NetConfig) (d : DhcpState) (yiaddr : UInt32) : NetConfig :=
  let cfg := { cfg with ip := yiaddr }
  let cfg := if d.subnet ≠ 0 then { cfg with subnet := d.subnet } else cfg
  let cfg := if d.router ≠ 0 then { cfg with gateway := d.router } else cfg
  let cfg := if d.dns ≠ 0 then { cfg with dns := d.dns } else cfg
  { cfg with dhcpConfigured := true }

/-- An OFFER or ACK that is waited for. -/
def dhcpTransition (n : Net) (msgType : UInt8) (yiaddr : UInt32) : Net :=
  if msgType = 2 ∧ n.dhcp.waitingOffer then
    { n with dhcp := { n.dhcp with offeredIp := yiaddr, waitingOffer := false, waitingAck := true } }
  else if msgType = 5 ∧ n.dhcp.waitingAck then
    let cfg := ackConfig n.cfg n.dhcp yiaddr
    ({ n with cfg := cfg, dhcp := { n.dhcp with waitingAck := false } }).log (.leased cfg)
  else n

/-- `handle_dhcp` on the bytes of `rx_frame_tmp` from `payload` on. -/
def dhcpReceive (n : Net) (payload len : Nat) : Net :=
  let b := n.drv.rxFrameTmp
  if len < dhcpHeaderSize then n
  else if rd32 b (payload + 4) ≠ n.dhcp.xid then n
  else if bytesAt b (payload + 28) 6 ≠ n.cfg.mac.bytes then n
  else if rd32 b (payload + 236) ≠ 0x63825363 then n
  else
    let o := fun i => b (payload + dhcpHeaderSize + i)
    let r := optionLoop o (storeOption o) dhcpOptionsSize 0 (0, n.dhcp)
    dhcpTransition (({ n with dhcp := r.2 }).log (.dhcp (dhcpMessageAt b payload))) r.1
      (rd32 b (payload + 16))

def handleDhcp (payload len : Nat) : NetM Unit := modify fun n => dhcpReceive n payload len

/-- The options of a message that the client sends. -/
def dhcpClientOptions (msgType : UInt8) (reqIp serverId : UInt32) : List UInt8 :=
  [53, 1, msgType, 55, 3, 1, 3, 6] ++
    (if msgType = 3 ∧ reqIp ≠ 0 ∧ serverId ≠ 0 then
      [50, 4] ++ be32 reqIp ++ [54, 4] ++ be32 serverId
    else []) ++ [255]

/-- The body that `send_dhcp_message` builds: at least 300 bytes. -/
def dhcpBody (xid : UInt32) (mac : Mac) (msgType : UInt8) (reqIp serverId : UInt32) :
    List UInt8 :=
  let body := [1, 1, 6, 0] ++ be32 xid ++ be16 0 ++ be16 0x8000 ++ List.replicate 16 0 ++
    mac.bytes ++ List.replicate 10 0 ++ List.replicate 192 0 ++ be32 0x63825363 ++
    dhcpClientOptions msgType reqIp serverId
  body ++ List.replicate (300 - body.length) 0

/-- The packet in `dhcp_ip_buf`. -/
def dhcpPacket (xid : UInt32) (mac : Mac) (msgType : UInt8) (reqIp serverId : UInt32) :
    List UInt8 :=
  let body := dhcpBody xid mac msgType reqIp serverId
  let udp := be16 68 ++ be16 67 ++ be16 (UInt16.ofNat (8 + body.length)) ++ be16 0 ++ body
  ipv4Header (UInt16.ofNat (20 + udp.length)) xid.toUInt16 0 17 0 0xFFFFFFFF ++ udp

def sendDhcpMessage (msgType : UInt8) (reqIp serverId : UInt32) : NetM Bool := do
  let n ← get
  let p := dhcpPacket n.dhcp.xid n.cfg.mac msgType reqIp serverId
  sendFrame broadcastMac ethTypeIpv4 (fun _ => bufOf p) p.length

end VertexOS
