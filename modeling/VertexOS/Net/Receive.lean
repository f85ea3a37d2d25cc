import VertexOS.Net.Dhcp
import VertexOS.Net.Dns
import VertexOS.Net.Tcp

namespace VertexOS
open Library.Programs

def handleUdp (payload len : Nat) : NetM Unit := do
  let n ← get
  let b := n.drv.rxFrameTmp
  let udpLen := (rd16 b (payload + 4)).toNat
  if len < 8 ∨ udpLen < 8 ∨ udpLen > len then return
  if rd16 b payload = 67 ∧ rd16 b (payload + 2) = 68 then handleDhcp (payload + 8) (udpLen - 8)
  else if rd16 b (payload + 2) = 43210 ∧ rd16 b payload = 53 then
    handleDns (payload + 8) (udpLen - 8)

/-- An echo reply that is waited for. -/
def pingReply (n : Net) (now : UInt32) : Net :=
  { n with ping := { n.ping with
    waiting := false
    gotReply := true
    rttMs := (now - n.ping.sentTicks) * 1000 / n.pitFrequency } }

/-- The reply to an echo request: at most 128 bytes of it are sent back. -/
def echoReply (b : Buf) (payload len : Nat) : List UInt8 :=
  let copy := bytesAt b payload (min len 128)
  let zeroed := putBytes (putBytes (bufOf copy) 0 [0]) 2 [0, 0]
  bytesAt (putBytes zeroed 2 (be16 (checksum16 zeroed (min len 128)))) 0 (min len 128)

def handleIcmp (poll : NetM Unit) (fuel ip payload len : Nat) : NetM Unit := do
  let n ← get
  let b := n.drv.rxFrameTmp
  if len < 8 then return
  if b payload = 0 ∧ n.ping.waiting then
    if rd16 b (payload + 4) = n.ping.ident ∧ rd16 b (payload + 6) = n.ping.seq then
      let now ← pitGetTicks
      modify fun n => pingReply n now
  else if b payload = 8 ∧ n.cfg.ip ≠ 0 ∧ rd32 b (ip + 16) = n.cfg.ip then
    let reply := echoReply b payload len
    let _ ← sendIpv4Packet poll fuel (rd32 b (ip + 12)) 1 (fun _ => bufOf reply) reply.length 0x1234

def handleIpv4 (poll : NetM Unit) (fuel payload len : Nat) : NetM Unit := do
  let n ← get
  let b := n.drv.rxFrameTmp
  if len < 20 then return
  if b payload >>> 4 ≠ 4 then return
  let ihl := (b payload &&& 0x0F).toNat * 4
  if ihl < 20 ∨ len < ihl then return
  let totalLen := (rd16 b (payload + 2)).toNat
  if totalLen < ihl ∨ totalLen > len then return
  if n.cfg.ip ≠ 0 ∧ rd32 b (payload + 16) ≠ n.cfg.ip ∧ rd32 b (payload + 16) ≠ 0xFFFFFFFF then return
  if b (payload + 9) = 1 then handleIcmp poll fuel payload (payload + ihl) (totalLen - ihl)
  else if b (payload + 9) = 17 then handleUdp (payload + ihl) (totalLen - ihl)
  else if b (payload + 9) = 6 then handleTcp poll fuel payload (payload + ihl) (totalLen - ihl)

/-- Every well-formed ARP packet is learned. -/
def learnArp (n : Net) (ip : UInt32) (mac : Mac) : Net := { n with arp := ⟨true, ip, mac⟩ }

def handleArp (payload len : Nat) : NetM Unit := do
  let n ← get
  let b := n.drv.rxFrameTmp
  if len < 28 then return
  if rd16 b payload ≠ 1 ∨ rd16 b (payload + 2) ≠ ethTypeIpv4 ∨ b (payload + 4) ≠ 6 ∨
      b (payload + 5) ≠ 4 then return
  let senderIp := rd32 b (payload + 14)
  let senderMac := macAt b (payload + 8)
  modify fun n => learnArp n senderIp senderMac
  if rd16 b (payload + 6) = 1 ∧ n.cfg.ip ≠ 0 ∧ rd32 b (payload + 24) = n.cfg.ip then
    sendArpReply senderMac senderIp

/-- `net_on_frame` on the first `len` bytes of `rx_frame_tmp`. -/
def netOnFrame (poll : NetM Unit) (fuel len : Nat) : NetM Unit := do
  let n ← get
  let b := n.drv.rxFrameTmp
  if len < 14 then return
  if rd16 b 12 = ethTypeArp then handleArp 14 (len - 14)
  else if rd16 b 12 = ethTypeIpv4 then handleIpv4 poll fuel 14 (len - 14)

/-- `net_poll`: its handlers poll again while they wait. -/
def netPoll : Nat → NetM Unit
  | 0 => fun _ => none
  | fuel + 1 => do
    let n ← get
    if ¬n.cfg.linkUp then return
    rtl8139Poll (netOnFrame (netPoll fuel) fuel) fuel

end VertexOS
