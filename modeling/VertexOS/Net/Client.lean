import VertexOS.Net.Receive
import VertexOS.Net.Url

namespace VertexOS
open Library.Programs

/-- `net_init`, with the address that `rtl8139_init` found; `none` when it
failed. -/
def netInit (n : Net) (device : Option Mac) : Net :=
  let n := { n with arp := {}, ping := {}, dhcp := {}, dns := {}, tcp := {} }
  match device with
  | none =>
    { n with
      cfg := { mac := ⟨[0, 0, 0, 0, 0, 0], zeroMac_size⟩ }
      drv := { n.drv with up := false } }
  | some mac =>
    { n with
      cfg := { mac := mac, linkUp := true }
      drv := { n.drv with up := true, rxOffset := 0, txIndex := 0 }
      nic := { ring := n.nic.ring } }

/-- A timeout in ticks, at least one. -/
def timeoutTicks (n : Net) (timeoutMs : UInt32) : UInt32 :=
  if timeoutMs * n.pitFrequency / 1000 = 0 then 1 else timeoutMs * n.pitFrequency / 1000

/-- A loop that polls until `done` holds (`true`) or the time is over. -/
def pollUntil (poll : NetM Unit) (done : Net → Bool) (start timeout : UInt32) : Nat → NetM Bool
  | 0 => fun _ => none
  | fuel + 1 => do
    let now ← pitGetTicks
    if now - start < timeout then
      poll
      let n ← get
      if done n then return true
      pollUntil poll done start timeout fuel
    else return false

/-- The state of a new request. -/
def dhcpStart (n : Net) (now : UInt32) : Net :=
  { n with dhcp := { xid := now ^^^ 0xA5A51234, waitingOffer := true } }

/-- `net_dhcp_request` once the DISCOVER is sent: wait for an OFFER, send the
REQUEST. -/
def dhcpSelect (fuel : Nat) : NetM Bool := do
  let start ← pitGetTicks
  let n ← get
  let _ ← pollUntil (netPoll fuel) (fun n => !n.dhcp.waitingOffer) start (n.pitFrequency * 5) fuel
  let n ← get
  if n.dhcp.waitingOffer ∨ n.dhcp.offeredIp = 0 ∨ n.dhcp.serverIp = 0 then return false
  if ¬(← sendDhcpMessage 3 n.dhcp.offeredIp n.dhcp.serverIp) then return false
  modify fun n => n.log .requested
  return true

/-- `net_dhcp_request` once the REQUEST is sent: wait for the ACK. -/
def dhcpAwaitAck (fuel : Nat) : NetM Bool := do
  let start ← pitGetTicks
  let n ← get
  let _ ← pollUntil (netPoll fuel) (fun n => !n.dhcp.waitingAck) start (n.pitFrequency * 5) fuel
  let n ← get
  return n.cfg.dhcpConfigured

def netDhcpRequest (fuel : Nat) : NetM Bool := do
  let n ← get
  if ¬n.cfg.linkUp then return false
  let now ← pitGetTicks
  modify fun n => dhcpStart n now
  if ¬(← sendDhcpMessage 1 0 0) then return false
  if ¬(← dhcpSelect fuel) then return false
  dhcpAwaitAck fuel

/-- The echo request of `net_ping`: 64 bytes. -/
def pingPayload (ident seq : UInt16) : List UInt8 :=
  let body := (List.range 56).map fun i => UInt8.ofNat (8 + i)
  let p := fun sum => [8, 0] ++ be16 sum ++ be16 ident ++ be16 seq ++ body
  p (checksum16 (bufOf (p 0)) 64)

def pingStart (n : Net) (targetIp now : UInt32) : Net :=
  { n with ping := { n.ping with
    waiting := true, gotReply := false, ident := now.toUInt16, seq := n.ping.seq + 1,
    target := targetIp } }

def stopPing (n : Net) : Net := { n with ping := { n.ping with waiting := false } }

/-- `net_ping`: the round trip in milliseconds, or `none` for a result of 0. -/
def netPing (fuel : Nat) (targetIp timeoutMs : UInt32) : NetM (Option UInt32) := do
  let n ← get
  if ¬n.cfg.linkUp ∨ n.cfg.ip = 0 then return none
  let now ← pitGetTicks
  modify fun n => pingStart n targetIp now
  let sent ← pitGetTicks
  modify fun n => { n with ping := { n.ping with sentTicks := sent } }
  let n ← get
  let p := pingPayload n.ping.ident n.ping.seq
  if ¬(← sendIpv4Packet (netPoll fuel) fuel targetIp 1 (fun _ => bufOf p) 64 n.ping.ident) then
    modify stopPing
    return none
  let start ← pitGetTicks
  let n ← get
  if ← pollUntil (netPoll fuel) (·.ping.gotReply) start (timeoutTicks n timeoutMs) fuel then
    let n ← get
    return some n.ping.rttMs
  modify stopPing
  return none

def dnsStart (n : Net) (now : UInt32) : Net :=
  { n with dns := { waiting := true, xid := (now ^^^ 0xBEEF1234).toUInt16 } }

def stopDns (n : Net) : Net := { n with dns := { n.dns with waiting := false } }

/-- `net_resolve_ipv4`: the address, or `none` for a result of 0. -/
def netResolveIpv4 (fuel : Nat) (host : List UInt8) (timeoutMs : UInt32) :
    NetM (Option UInt32) := do
  let n ← get
  if ¬n.cfg.linkUp ∨ n.cfg.ip = 0 ∨ n.cfg.dns = 0 ∨ host = [] then return none
  if let some ip := netParseIpv4 host then return some ip
  let now ← pitGetTicks
  modify fun n => dnsStart n now
  let n ← get
  match dnsEncodeName host 500 with
  | none =>
    modify stopDns
    return none
  | some name =>
    if 12 + name.length + 4 > 512 then
      modify stopDns
      return none
    let query := be16 n.dns.xid ++ be16 0x0100 ++ be16 1 ++ [0, 0, 0, 0, 0, 0] ++ name ++ [0, 1, 0, 1]
    if ¬(← sendUdpPacket (netPoll fuel) fuel n.cfg.dns 43210 53 query n.dns.xid) then
      modify stopDns
      return none
    let start ← pitGetTicks
    let n ← get
    let _ ← pollUntil (netPoll fuel) (fun n => !n.dns.waiting) start (timeoutTicks n timeoutMs) fuel
    let n ← get
    if ¬n.dns.gotReply ∨ n.dns.resultIp = 0 then return none
    return some n.dns.resultIp

/-- `net_http_response`, with the caller's body buffer. -/
structure HttpResponse where
  result : NetHttpResult
  resolvedIp : UInt32 := 0
  port : UInt16 := 0
  statusCode : UInt16 := 0
  bodyLen : UInt32 := 0
  bodyTruncated : Bool := false
  body : Option Buf := none

/-- Reset with the connection's fields set, before the SYN. -/
def openTcp (n : Net) (ip : UInt32) (port : UInt16) (ticks0 ticks1 ticks2 : UInt32)
    (bodyOut : Option Buf) (bodyOutSize : UInt32) : Net :=
  let t : TcpHttp := { active := true, connecting := true }
  let t := { t with remoteIp := ip, localPort := (49152 + (ticks0 &&& 0x3FFF)).toUInt16 }
  let t := { t with remotePort := port, seqLocal := 0x13570000 ^^^ ticks1, bodyOut := bodyOut }
  ({ n with tcp := { t with bodyOutSize := bodyOutSize, lastActivityTicks := ticks2 } }).log .opened

/-- `send_tcp_packet` on the connection, from its local sequence number minus
`back`. -/
def sendOnTcp (fuel : Nat) (back ack : UInt32) (flags : UInt8) (payload : List UInt8) :
    NetM Bool := do
  let n ← get
  sendTcpPacket (netPoll fuel) fuel n.tcp.remoteIp n.tcp.localPort n.tcp.remotePort
    (n.tcp.seqLocal - back) ack flags payload (n.tcp.seqLocal - back).toUInt16

/-- The SYN is counted and its time noted. -/
def synSent (n : Net) (now : UInt32) : Net :=
  { n with tcp := { n.tcp with seqLocal := n.tcp.seqLocal + 1, connectSentTicks := now } }

/-- The loop of `net_http_get` that waits for the connection; `false` when it has
failed. -/
def connectLoop (pollFuel : Nat) (start timeout : UInt32) : Nat → Nat → NetM Bool
  | 0, _ => fun _ => none
  | fuel + 1, retries => do
    let now ← pitGetTicks
    if now - start < timeout then
      netPoll pollFuel
      let n ← get
      if n.tcp.established then return true
      if n.tcp.failed then return false
      let now ← pitGetTicks
      if retries < 3 ∧ now - n.tcp.connectSentTicks > n.pitFrequency / 2 then
        if ← sendOnTcp pollFuel 1 0 tcpFlagSyn [] then
          modify fun n => { n with tcp := { n.tcp with connectSentTicks := now } }
          connectLoop pollFuel start timeout fuel (retries + 1)
        else connectLoop pollFuel start timeout fuel retries
      else connectLoop pollFuel start timeout fuel retries
    else return true

/-- The exchange is over: the session is reset. -/
def finishHttp (r : HttpResponse) : NetM HttpResponse := do
  let n ← get
  modify fun n => { n with tcp := {} }
  return { r with body := n.tcp.bodyOut }

/-- The result of `net_http_get` once its receive loop is over, and the closing
FIN. -/
def httpAnswer (fuel : Nat) (r : HttpResponse) : NetM HttpResponse := do
  let n ← get
  if ¬n.tcp.headerDone then return ← finishHttp { r with result := .timeout }
  if ¬n.tcp.statusValid then return ← finishHttp { r with result := .protocol }
  modify fun n => n.log .fetched
  if n.tcp.established then
    let _ ← sendOnTcp fuel 0 n.tcp.seqRemote (tcpFlagFin ||| tcpFlagAck) []
  let r := { r with result := .ok, statusCode := n.tcp.statusCode, bodyLen := n.tcp.bodyTotal }
  finishHttp { r with bodyTruncated := n.tcp.bodyTruncated }

/-- `net_http_get` from the request on. -/
def httpExchange (fuel : Nat) (host path : List UInt8) (timeout : UInt32) (r : HttpResponse) :
    NetM HttpResponse := do
  let n ← get
  let request := httpRequest host r.port path
  if request.length + 1 ≥ 384 then
    return ← finishHttp { r with result := .protocol }
  if ¬(← sendOnTcp fuel 0 n.tcp.seqRemote (tcpFlagAck ||| tcpFlagPsh) request) then
    return ← finishHttp { r with result := .timeout }
  modify fun n =>
    { n with tcp := { n.tcp with seqLocal := n.tcp.seqLocal + UInt32.ofNat request.length } }
  let start ← pitGetTicks
  let stopped ←
    pollUntil (netPoll fuel) (fun n => n.tcp.failed || n.tcp.finSeen) start timeout fuel
  let n ← get
  if stopped ∧ n.tcp.failed then return ← finishHttp { r with result := .protocol }
  httpAnswer fuel r

/-- `net_http_get` once the address is known. -/
def httpConnect (fuel : Nat) (host path : List UInt8) (ip : UInt32) (port : UInt16)
    (timeoutMs : UInt32) (bodyOut : Option Buf) (bodyOutSize : UInt32) : NetM HttpResponse := do
  let r : HttpResponse := { result := .timeout, resolvedIp := ip, port := port }
  let n ← get
  let timeout := timeoutTicks n timeoutMs
  let ticks0 ← pitGetTicks
  let ticks1 ← pitGetTicks
  let ticks2 ← pitGetTicks
  let body := if bodyOutSize > 0 then bodyOut.map fun b => Function.update b 0 0 else bodyOut
  modify fun n => openTcp n ip port ticks0 ticks1 ticks2 body bodyOutSize
  if ¬(← sendOnTcp fuel 0 0 tcpFlagSyn []) then return ← finishHttp r
  let now ← pitGetTicks
  modify fun n => synSent n now
  let start ← pitGetTicks
  if ¬(← connectLoop fuel start timeout fuel 0) then
    return ← finishHttp { r with result := .protocol }
  let n ← get
  if ¬n.tcp.established then return ← finishHttp r
  httpExchange fuel host path timeout r

def netHttpGet (fuel : Nat) (url : List UInt8) (timeoutMs : UInt32) (bodyOut : Option Buf)
    (bodyOutSize : UInt32) : NetM HttpResponse := do
  if timeoutMs = 0 then return { result := .invalidArg, body := bodyOut }
  match parseHttpUrl url 128 with
  | .error e => return { result := e, body := bodyOut }
  | .ok (host, port, path) =>
    let n ← get
    if ¬n.cfg.linkUp then return { result := .linkDown, body := bodyOut }
    if n.cfg.ip = 0 then return { result := .noIp, body := bodyOut }
    match ← netResolveIpv4 fuel host timeoutMs with
    | none => return { result := .dnsFailed, body := bodyOut }
    | some ip => httpConnect fuel host path ip port timeoutMs bodyOut bodyOutSize

end VertexOS
