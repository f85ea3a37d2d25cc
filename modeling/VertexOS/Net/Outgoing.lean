import VertexOS.Library.Histories
import VertexOS.Net.Lease

namespace VertexOS
open Library.Programs

section Held

variable {n0 n n' : Net} {t : List NetEvent}

def NetEvent.header : NetEvent → Option (List UInt8)
  | .built h => some h
  | _ => none

/-- The TCP headers that were built. -/
def headers (t : List NetEvent) : List (List UInt8) := t.filterMap NetEvent.header

theorem headers_append (t u : List NetEvent) : headers (t ++ u) = headers t ++ headers u :=
  List.filterMap_append

/-- Of a segment in `tcp_tx_buf` later ones change the header only; a datagram in
`udp_tx_buf` stays. -/
structure Held (n0 n : Net) (t : List NetEvent) : Prop where
  header : bytesAt n.bufs.tcp 0 20 = (headers t).getLastD (bytesAt n0.bufs.tcp 0 20)
  data : ∀ i, 20 ≤ i → n.bufs.tcp i = n0.bufs.tcp i
  udp : n.bufs.udp = n0.bufs.udp

/-- The transport buffers are left alone. -/
structure SameSegment (n n' : Net) : Prop where
  tcp : n'.bufs.tcp = n.bufs.tcp
  udp : n'.bufs.udp = n.bufs.udp
  grows : ∃ u, n'.trace = n.trace ++ u ∧ headers u = []

theorem SameSegment.still (ht : n'.bufs.tcp = n.bufs.tcp) (hu : n'.bufs.udp = n.bufs.udp)
    (hh : n'.trace = n.trace) : SameSegment n n' :=
  ⟨ht, hu, [], by rw [hh, List.append_nil], rfl⟩

theorem SameSegment.event {e : NetEvent} (ht : n'.bufs.tcp = n.bufs.tcp)
    (hu : n'.bufs.udp = n.bufs.udp) (hh : n'.trace = n.trace ++ [e]) (he : e.header = none) :
    SameSegment n n' :=
  ⟨ht, hu, [e], hh, by simp [headers, he]⟩

theorem sameSegment_chains : Chains SameSegment := by
  constructor
  · intro n
    exact .still rfl rfl rfl
  · intro n1 n2 n3 h h'
    obtain ⟨u, hu, hn⟩ := h.grows
    obtain ⟨u', hu', hn'⟩ := h'.grows
    refine ⟨h'.tcp.trans h.tcp, h'.udp.trans h.udp, u ++ u', ?_, ?_⟩
    · rw [hu', hu, List.append_assoc]
    · rw [headers_append, hn, hn']
      rfl

theorem hwEvent_sameSegment (n : Net) (e : HwEvent) : SameSegment n (hwEvent n e) := by
  cases e with
  | tick => exact .still rfl rfl rfl
  | txDone i => exact .still rfl rfl rfl
  | arrive p =>
    simp only [hwEvent, receiveFrame]
    split
    · exact .event rfl rfl rfl rfl
    · exact .still rfl rfl rfl

theorem access_sameSegment (n : Net) : SameSegment n (access n) := by
  apply access_of_hwEvent sameSegment_chains hwEvent_sameSegment
  intro n k
  exact .still rfl rfl rfl

theorem startTx_sameSegment (n : Net) (frame : List UInt8) : SameSegment n (startTx n frame) :=
  .event rfl rfl rfl rfl

theorem dnsReceive_sameSegment (n : Net) (payload len : Nat) :
    SameSegment n (dnsReceive n payload len) := by
  simp only [dnsReceive]
  repeat' split
  all_goals exact .still rfl rfl rfl

theorem dhcpReceive_sameSegment (n : Net) (payload len : Nat) :
    SameSegment n (dhcpReceive n payload len) := by
  rcases dhcpReceive_cases n payload len with he | ⟨m, -, he⟩
  · rw [he]
    exact sameSegment_chains.refl n
  have hstore : SameSegment n (({ n with dhcp := n.dhcp.store m.options }).log (.dhcp m)) :=
    .event rfl rfl rfl rfl
  rw [he, acceptDhcp, dhcpTransition]
  split
  · exact ⟨hstore.tcp, hstore.udp, hstore.grows⟩
  split
  · exact sameSegment_chains.trans _ _ _ hstore (.event rfl rfl rfl rfl)
  · exact hstore

/-- What the receive path does to the transport buffers. -/
def KeepsBuilt (n0 : Net) : Net → Net → Prop := Carries Net.trace (fun _ => True) (Held n0)

theorem keepsBuilt_chains : Chains (KeepsBuilt n0) := Carries.chains fun _ _ _ => trivial

theorem SameSegment.keepsBuilt (h : SameSegment n n') : KeepsBuilt n0 n n' := by
  obtain ⟨u, hu, hn⟩ := h.grows
  refine ⟨u, hu, ?_⟩
  intro t0 _ hi
  constructor
  · rw [h.tcp, headers_append, hn, List.append_nil]
    exact hi.header
  · rw [h.tcp]
    exact hi.data
  · rw [h.udp]
    exact hi.udp

theorem tcpSegmentHeader_length (srcIp dstIp : UInt32) (srcPort dstPort : UInt16)
    (seq ack : UInt32) (flags : UInt8) (payload : List UInt8) :
    (tcpSegmentHeader srcIp dstIp srcPort dstPort seq ack flags payload).length = 20 := rfl

/-- The segment that was built last is in `tcp_tx_buf`. -/
theorem buildTcp_bytes (n : Net) (dstIp : UInt32) (srcPort dstPort : UInt16) (seq ack : UInt32)
    (flags : UInt8) (payload : List UInt8) :
    bytesAt (buildTcp n dstIp srcPort dstPort seq ack flags payload).bufs.tcp 0 20 =
      tcpSegmentHeader n.cfg.ip dstIp srcPort dstPort seq ack flags payload ∧
    bytesAt (buildTcp n dstIp srcPort dstPort seq ack flags payload).bufs.tcp 20 payload.length =
      payload := by
  have hlen := tcpSegmentHeader_length n.cfg.ip dstIp srcPort dstPort seq ack flags payload
  constructor
  · simp only [buildTcp, Net.log]
    rw [← hlen, bytesAt_putBytes]
  · simp only [buildTcp, Net.log]
    rw [bytesAt_putBytes_apart (by omega), bytesAt_putBytes]

/-- An acknowledgment has no data. -/
theorem buildAck_keepsBuilt (n : Net) (dstIp : UInt32) (srcPort dstPort : UInt16) (seq ack : UInt32) :
    KeepsBuilt n0 n (buildTcp n dstIp srcPort dstPort seq ack tcpFlagAck []) := by
  refine ⟨[.built _], rfl, ?_⟩
  intro t0 _ hi
  constructor
  · rw [(buildTcp_bytes n dstIp srcPort dstPort seq ack tcpFlagAck []).1, headers_append]
    simp [headers, NetEvent.header]
  · intro i hlow
    have hlen := tcpSegmentHeader_length n.cfg.ip dstIp srcPort dstPort seq ack tcpFlagAck []
    rw [← hi.data i hlow]
    simp only [buildTcp, Net.log, putBytes, memCopyAt]
    rw [if_neg (by omega), if_neg (by simp)]
  · exact hi.udp

theorem keepsBuilt_handlers : HandlerStable (KeepsBuilt n0) where
  toChains := keepsBuilt_chains
  access n := (access_sameSegment n).keepsBuilt
  startTx n frame := (startTx_sameSegment n frame).keepsBuilt
  buildFrame _ _ _ _ _ := SameSegment.keepsBuilt (.still rfl rfl rfl)
  buildIpv4 _ _ _ _ _ _ := SameSegment.keepsBuilt (.still rfl rfl rfl)
  learnArp _ _ _ := SameSegment.keepsBuilt (.still rfl rfl rfl)
  pingReply _ _ := SameSegment.keepsBuilt (.still rfl rfl rfl)
  dnsReceive n payload len := (dnsReceive_sameSegment n payload len).keepsBuilt
  dhcpReceive n payload len := (dhcpReceive_sameSegment n payload len).keepsBuilt
  buildAck := buildAck_keepsBuilt

theorem keepsBuilt_polling : PollStable (KeepsBuilt n0) where
  clearIsr _ _ := SameSegment.keepsBuilt (.still rfl rfl rfl)
  polled _ _ := SameSegment.keepsBuilt (.event rfl rfl rfl rfl)
  enterFrame _ _ := SameSegment.keepsBuilt (.event rfl rfl rfl rfl)
  leaveFrame _ _ := SameSegment.keepsBuilt (.event rfl rfl rfl rfl)
  advanceRx _ _ := SameSegment.keepsBuilt (.still rfl rfl rfl)

theorem keepsBuilt_tcp : TcpStable (KeepsBuilt n0) where
  noteSegment _ _ _ := SameSegment.keepsBuilt (.event rfl rfl rfl rfl)
  failed _ := SameSegment.keepsBuilt (.still rfl rfl rfl)
  acceptSynAck _ _ := SameSegment.keepsBuilt (.event rfl rfl rfl rfl)
  acceptData _ _ := SameSegment.keepsBuilt (.event rfl rfl rfl rfl)
  acceptFin _ _ := SameSegment.keepsBuilt (.event rfl rfl rfl rfl)
  handled _ := SameSegment.keepsBuilt (.event rfl rfl rfl rfl)

theorem netPoll_keepsBuilt (fuel : Nat) : Keeps (KeepsBuilt n0) (netPoll fuel) := by
  apply netPoll_keeps keepsBuilt_handlers keepsBuilt_polling
  intro poll hpoll fuel s
  exact tcpReceive_keeps (keepsBuilt_handlers.steps hpoll).toHandlerSteps keepsBuilt_tcp fuel s

end Held

section Send

variable {poll : NetM Unit} {n n' : Net} {fuel len : Nat} {dstIp : UInt32} {proto : UInt8}
  {payload : Net → Buf} {ident : UInt16}

theorem ipv4Header_length (totalLen ident flagsFrag : UInt16) (proto : UInt8)
    (srcIp dstIp : UInt32) : (ipv4Header totalLen ident flagsFrag proto srcIp dstIp).length = 20 :=
  rfl

/-- The packet that is built in `ipv4_tx_buf`. -/
theorem buildIpv4_bytes (n : Net) (dstIp : UInt32) (proto : UInt8) (payload : Buf) (len : Nat)
    (ident : UInt16) : bytesAt (buildIpv4 n dstIp proto payload len ident).bufs.ipv4 0 (20 + len) =
      ipv4Header (UInt16.ofNat (20 + len)) ident 0x4000 proto n.cfg.ip dstIp ++
        bytesAt payload 0 len := by
  have hlen := ipv4Header_length (UInt16.ofNat (20 + len)) ident 0x4000 proto n.cfg.ip dstIp
  simp only [buildIpv4]
  generalize ipv4Header (UInt16.ofNat (20 + len)) ident 0x4000 proto n.cfg.ip dstIp = h at *
  rw [bytesAt_add, Nat.zero_add, bytesAt_memCopyAt, bytesAt_memCopyAt_apart (by omega), ← hlen,
    bytesAt_putBytes]

/-- The transport layer's part of a frame. -/
def transportBytes (frame : List UInt8) (len : Nat) : List UInt8 := (frame.drop 34).take len

theorem transportBytes_etherFrame (dst src : Mac) (h body : List UInt8) (hlen : h.length = 20) :
    transportBytes (etherFrame dst src ethTypeIpv4 (h ++ body)) body.length = body := by
  have hhead := etherHeader_length dst src ethTypeIpv4
  have h34 : (dst.bytes ++ src.bytes ++ be16 ethTypeIpv4 ++ h).length = 34 := by
    rw [List.length_append, hhead, hlen]
  rw [transportBytes, etherFrame, ← List.append_assoc, List.append_assoc _ body,
    List.drop_left' h34, List.take_left]

/-- A packet is sent once the hardware address is known: its payload is read then. -/
theorem sendIpv4Packet_inv
    (h : sendIpv4Packet poll fuel dstIp proto payload len ident n = some (true, n')) :
    ∃ (m : Net) (mac : Mac) (u : List NetEvent) (frame : List UInt8),
      resolveTargetMac poll fuel dstIp n = some (some mac, m) ∧
      n'.trace = m.trace ++ (u ++ [.sent frame]) ∧ headers u = [] ∧
      transportBytes frame len = bytesAt (payload m) 0 len := by
  obtain ⟨target, m, hm, h⟩ := bind_inv h
  cases target with
  | none => cases (pure_inv h).1
  | some mac =>
    replace h := modify_bind_inv h
    rcases sendFrame_inv h with ⟨hf, -⟩ | ⟨-, rfl⟩
    · cases hf
    obtain ⟨u, hu, hn⟩ := (access_sameSegment (buildFrame
      (buildIpv4 m dstIp proto (payload m) len ident) mac ethTypeIpv4
      (buildIpv4 m dstIp proto (payload m) len ident).bufs.ipv4 (20 + len))).grows
    refine ⟨m, mac, u, etherFrame mac m.cfg.mac ethTypeIpv4 (bytesAt
      (buildIpv4 m dstIp proto (payload m) len ident).bufs.ipv4 0 (20 + len)), hm, ?_, hn, ?_⟩
    · rw [← List.append_assoc]
      exact congrArg (· ++ [_]) hu
    · rw [buildIpv4_bytes]
      have hbody := transportBytes_etherFrame mac m.cfg.mac
        (ipv4Header (UInt16.ofNat (20 + len)) ident 0x4000 proto m.cfg.ip dstIp)
        (bytesAt (payload m) 0 len) rfl
      rwa [bytesAt_length] at hbody

/-- A datagram as `send_udp_packet` builds it. -/
def udpDatagram (srcPort dstPort : UInt16) (payload : List UInt8) : List UInt8 :=
  be16 srcPort ++ be16 dstPort ++ be16 (UInt16.ofNat (8 + payload.length)) ++ be16 0 ++ payload

theorem buildUdp_bytes (n : Net) (srcPort dstPort : UInt16) (payload : List UInt8) :
    bytesAt (buildUdp n srcPort dstPort payload).bufs.udp 0 (8 + payload.length) =
      udpDatagram srcPort dstPort payload := by
  simp only [buildUdp, udpDatagram]
  generalize hh : be16 srcPort ++ be16 dstPort ++ be16 (UInt16.ofNat (8 + payload.length)) ++
    be16 0 = h
  have hlen : h.length = 8 := by
    rw [← hh]
    rfl
  rw [bytesAt_add, Nat.zero_add, bytesAt_putBytes, bytesAt_putBytes_apart (by omega), ← hlen,
    bytesAt_putBytes]

/-- A datagram leaves as it was built, and a segment as it was built but for its header,
which is the one that was built last before the hardware address was known. -/
theorem transport_own_bytes (pollFuel fuel : Nat) (dstIp : UInt32) (srcPort dstPort : UInt16)
    (payload : List UInt8) (ident : UInt16) (n n' : Net) :
    (sendUdpPacket (netPoll pollFuel) fuel dstIp srcPort dstPort payload ident n =
        some (true, n') →
      ∃ (u : List NetEvent) (frame : List UInt8), n'.trace = n.trace ++ (u ++ [.sent frame]) ∧
        transportBytes frame (8 + payload.length) = udpDatagram srcPort dstPort payload) ∧
    (∀ (seq ack : UInt32) (flags : UInt8) (own : List UInt8),
      own = tcpSegmentHeader n.cfg.ip dstIp srcPort dstPort seq ack flags payload →
      sendTcpPacket (netPoll pollFuel) fuel dstIp srcPort dstPort seq ack flags payload ident n =
        some (true, n') →
      ∃ (u : List NetEvent) (frame : List UInt8),
        n'.trace = n.trace ++ .built own :: (u ++ [.sent frame]) ∧
        (transportBytes frame (20 + payload.length) = own ++ payload ↔
          (headers u).getLastD own = own)) := by
  refine ⟨?_, ?_⟩
  · intro h
    unfold sendUdpPacket at h
    split at h
    · cases (pure_inv h).1
    replace h := modify_bind_inv h
    obtain ⟨m, mac, u, frame, hm, htrace, -, hframe⟩ := sendIpv4Packet_inv h
    obtain ⟨w, hw, hi⟩ := resolveTargetMac_keeps keepsBuilt_handlers.toSendStable
      (netPoll_keepsBuilt pollFuel) fuel dstIp _ _ _ hm
    have hheld := hi [] trivial ⟨rfl, fun _ _ => rfl, rfl⟩
    rw [List.nil_append] at hheld
    refine ⟨w ++ u, frame, ?_, ?_⟩
    · rw [htrace, hw]
      simp [buildUdp]
    · rw [hframe, hheld.udp, buildUdp_bytes]
  · intro seq ack flags own hown h
    unfold sendTcpPacket at h
    split at h
    · cases (pure_inv h).1
    replace h := modify_bind_inv h
    obtain ⟨m, mac, u, frame, hm, htrace, hnone, hframe⟩ := sendIpv4Packet_inv h
    obtain ⟨w, hw, hi⟩ := resolveTargetMac_keeps keepsBuilt_handlers.toSendStable
      (netPoll_keepsBuilt pollFuel) fuel dstIp _ _ _ hm
    have hheld := hi [] trivial ⟨rfl, fun _ _ => rfl, rfl⟩
    rw [List.nil_append] at hheld
    obtain ⟨hhead, hdata⟩ := buildTcp_bytes n dstIp srcPort dstPort seq ack flags payload
    refine ⟨w ++ u, frame, ?_, ?_⟩
    · rw [htrace, hw, hown]
      simp [buildTcp, Net.log]
    · have hbody : bytesAt m.bufs.tcp 20 payload.length = payload := by
        refine Eq.trans (bytesAt_congr ?_) hdata
        intro i _
        exact hheld.data (20 + i) (by omega)
      rw [hframe, bytesAt_add, Nat.zero_add, hheld.header, hbody, hhead, ← hown,
        List.append_left_inj, headers_append, hnone, List.append_nil]

end Send

section Waiting

/-- A frame as it arrives. -/
def arrivingFrame (ethertype : UInt16) (payload : List UInt8)
    (fits : (etherFrame broadcastMac broadcastMac ethertype payload).length ≤ 1596) : RxPacket where
  status := 1
  data := etherFrame broadcastMac broadcastMac ethertype payload
  crc := [0, 0, 0, 0]
  fits := fits
  crcLength := zeroCrc_length

/-- A connection with a neighbour, whose hardware address may be known. -/
def connectedNet (arp : ArpCache) (env : Nat → List HwEvent) : Net :=
  { cfg := { mac := broadcastMac, ip := 0x0A000001, linkUp := true }
    arp := arp
    drv := { up := true }
    tcp := { active := true, established := true, remoteIp := 0x0A000002, localPort := 49152,
             remotePort := 80 }
    env := env }

/-- With the hardware address known, nothing is handled in between. -/
def knownNet : Net := connectedNet ⟨true, 0x0A000002, broadcastMac⟩ fun _ => []

/-- The header of the calls below. -/
def requestHeader : List UInt8 :=
  tcpSegmentHeader 0x0A000001 0x0A000002 49152 80 7 0 (tcpFlagAck ||| tcpFlagPsh) [72, 105]

theorem transport_own_bytes_known :
    (∃ n' u frame, sendUdpPacket (netPoll 1) 1 0x0A000002 49152 80 [72, 105] 0 knownNet =
      some (true, n') ∧ n'.trace = u ++ [.sent frame] ∧
      transportBytes frame 10 = udpDatagram 49152 80 [72, 105]) ∧
    (∃ n' u frame, sendTcpPacket (netPoll 1) 1 0x0A000002 49152 80 7 0 (tcpFlagAck ||| tcpFlagPsh)
      [72, 105] 0 knownNet = some (true, n') ∧ n'.trace = .built requestHeader :: (u ++ [.sent frame]) ∧
      transportBytes frame 22 = requestHeader ++ [72, 105]) := by
  constructor
  · have h : ((sendUdpPacket (netPoll 1) 1 0x0A000002 49152 80 [72, 105] 0 knownNet).map
        fun r => r.1) = some true := by
      decide +kernel
    obtain ⟨⟨sent, n'⟩, hrun, rfl⟩ := Option.map_eq_some_iff.mp h
    obtain ⟨u, frame, ht, hf⟩ :=
      (transport_own_bytes 1 1 0x0A000002 49152 80 [72, 105] 0 knownNet n').1 hrun
    exact ⟨n', u, frame, hrun, ht, hf⟩
  · have h : ((sendTcpPacket (netPoll 1) 1 0x0A000002 49152 80 7 0 (tcpFlagAck ||| tcpFlagPsh)
        [72, 105] 0 knownNet).map fun r => (r.1, headers r.2.trace)) = some (true, [requestHeader]) := by
      decide +kernel
    obtain ⟨⟨sent, n'⟩, hrun, heq⟩ := Option.map_eq_some_iff.mp h
    obtain ⟨rfl, hheads⟩ := Prod.mk.inj heq
    obtain ⟨u, frame, ht, hf⟩ :=
      (transport_own_bytes 1 1 0x0A000002 49152 80 [72, 105] 0 knownNet n').2 7 0
        (tcpFlagAck ||| tcpFlagPsh) requestHeader rfl hrun
    refine ⟨n', u, frame, hrun, ht, hf.mpr ?_⟩
    have hu : requestHeader :: headers u = [requestHeader] := by
      rw [← hheads, ht]
      simp [headers, knownNet, connectedNet, NetEvent.header]
    rw [(List.cons.inj hu).2]
    rfl

/-- The address is not known any more: the server's data arrives with the first poll of
the next call, and its ARP reply while the acknowledgment waits. -/
def unknownNet : Net :=
  connectedNet {} fun i =>
    if i = 3 then [.arrive (arrivingFrame ethTypeIpv4 (ipv4Header 41 0 0 6 0x0A000002 0x0A000001 ++
      tcpHeader 80 49152 0 0 tcpFlagAck 0 ++ [104]) (by decide))]
    else if i = 10 then [.arrive (arrivingFrame ethTypeArp
      (arpPacket 2 broadcastMac 0x0A000002 broadcastMac.bytes 0x0A000001) (by decide))]
    else []

/-- The data leaves behind the header of the acknowledgment. -/
theorem transport_foreign_header : ∃ n' u frame,
    sendTcpPacket (netPoll 8) 8 0x0A000002 49152 80 7 0 (tcpFlagAck ||| tcpFlagPsh) [72, 105] 0
      unknownNet = some (true, n') ∧ n'.trace = u ++ [.sent frame] ∧
    transportBytes frame 22 =
      tcpSegmentHeader 0x0A000001 0x0A000002 49152 80 0 1 tcpFlagAck [] ++ [72, 105] ∧
    transportBytes frame 22 ≠ requestHeader ++ [72, 105] := by
  have h : ((sendTcpPacket (netPoll 8) 8 0x0A000002 49152 80 7 0 (tcpFlagAck ||| tcpFlagPsh)
      [72, 105] 0 unknownNet).map fun r => (r.1, r.2.trace.getLast?)) =
    some (true, some (.sent (etherFrame broadcastMac broadcastMac ethTypeIpv4
      (ipv4Header 42 0 0x4000 6 0x0A000001 0x0A000002 ++
        (tcpSegmentHeader 0x0A000001 0x0A000002 49152 80 0 1 tcpFlagAck [] ++ [72, 105]))))) := by
    decide +kernel
  obtain ⟨⟨sent, n'⟩, hrun, heq⟩ := Option.map_eq_some_iff.mp h
  obtain ⟨rfl, hlast⟩ := Prod.mk.inj heq
  obtain ⟨u, hu⟩ := List.getLast?_eq_some_iff.mp hlast
  refine ⟨n', u, _, hrun, hu, by decide, by decide⟩

end Waiting

end VertexOS
