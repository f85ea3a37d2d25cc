import VertexOS.Net.DhcpRuns
import VertexOS.Net.Emitted
import VertexOS.Net.Fetch

namespace VertexOS
open Library.Programs

/-- The history grows, and no frame, TCP header or handler is in what is new. -/
def Quietly (n n' : Net) : Prop := ∃ u, n'.trace = n.trace ++ u ∧ ∀ e ∈ u, e.quiet = true

/-- What a handler or a call adds to the history. -/
def Emits (n n' : Net) : Prop := ∃ u, n'.trace = n.trace ++ u ∧ Emission u

/-- What is added while a call waits. -/
def Waits (n n' : Net) : Prop := ∃ u, n'.trace = n.trace ++ u ∧ Waiting u

section Relations

variable {n n' m : Net} {e : NetEvent}

theorem Quietly.waits (h : Quietly n n') : Waits n n' := by
  obtain ⟨u, hu, hq⟩ := h
  exact ⟨u, hu, .quiet hq⟩

theorem Waits.emits (h : Waits n n') : Emits n n' := by
  obtain ⟨u, hu, hw⟩ := h
  exact ⟨u, hu, hw.toEmission⟩

theorem Quietly.same (h : n'.trace = n.trace) : Quietly n n' := ⟨[], by simp [h], by simp⟩

theorem Quietly.event (h : n'.trace = n.trace ++ [e]) (he : e.quiet = true) : Quietly n n' :=
  ⟨[e], h, by simpa using he⟩

theorem quietly_chains : Chains Quietly := by
  constructor
  · intro n
    exact .same rfl
  · intro n1 n2 n3 h h'
    obtain ⟨u, hu, hq⟩ := h
    obtain ⟨w, hw, hq'⟩ := h'
    refine ⟨u ++ w, by rw [hw, hu, List.append_assoc], ?_⟩
    intro e he
    exact (List.mem_append.mp he).elim (hq e) (hq' e)

theorem waits_chains : Chains Waits := by
  constructor
  · intro n
    exact (quietly_chains.refl n).waits
  · intro n1 n2 n3 h h'
    obtain ⟨u, hu, hq⟩ := h
    obtain ⟨w, hw, hq'⟩ := h'
    exact ⟨u ++ w, by rw [hw, hu, List.append_assoc], hq.append hq'⟩

theorem emits_chains : Chains Emits := by
  constructor
  · intro n
    exact (quietly_chains.refl n).waits.emits
  · intro n1 n2 n3 h h'
    obtain ⟨u, hu, hq⟩ := h
    obtain ⟨w, hw, hq'⟩ := h'
    exact ⟨u ++ w, by rw [hw, hu, List.append_assoc], hq.append hq'⟩

theorem hwEvent_quietly (n : Net) (e : HwEvent) : Quietly n (hwEvent n e) := by
  cases e with
  | tick => exact .same rfl
  | txDone i => exact .same rfl
  | arrive p =>
    simp only [hwEvent, receiveFrame]
    split
    · exact .event rfl rfl
    · exact .same rfl

theorem access_quietly (n : Net) : Quietly n (access n) :=
  access_of_hwEvent quietly_chains hwEvent_quietly (fun _ _ => .same rfl) n

theorem dnsReceive_quietly (n : Net) (payload len : Nat) :
    Quietly n (dnsReceive n payload len) := by
  simp only [dnsReceive]
  repeat' split
  all_goals exact .same rfl

theorem dhcpReceive_quietly (n : Net) (payload len : Nat) :
    Quietly n (dhcpReceive n payload len) := by
  rcases dhcpReceive_cases n payload len with he | ⟨m, -, he⟩
  · rw [he]
    exact quietly_chains.refl n
  have hstore : Quietly n (({ n with dhcp := n.dhcp.store m.options }).log (.dhcp m)) :=
    .event rfl rfl
  rw [he, acceptDhcp, dhcpTransition]
  split
  · exact hstore
  split
  · exact quietly_chains.trans _ _ _ hstore (.event rfl rfl)
  · exact hstore

/-- `send_frame` sends the frame or nothing. -/
theorem sendFrame_emitted {dst : Mac} {ethertype : UInt16} {payload : Net → Buf} {len : Nat}
    {sent : Bool} (h : sendFrame dst ethertype payload len n = some (sent, n')) :
    Quietly n n' ∨ len ≤ 1500 ∧ ∃ u, (∀ e ∈ u, e.quiet = true) ∧ n'.trace = n.trace ++
      (u ++ [.sent (etherFrame dst n.cfg.mac ethertype (bytesAt (payload n) 0 len))]) := by
  have hbuild : Quietly n (buildFrame n dst ethertype (payload n) len) := .same rfl
  rcases sendFrame_inv h with ⟨-, rfl | ⟨m, rfl, rfl | rfl⟩⟩ | ⟨rfl, rfl⟩
  · exact .inl (quietly_chains.refl _)
  · exact .inl hbuild
  · exact .inl (quietly_chains.trans _ _ _ hbuild (access_quietly _))
  · refine .inr ⟨?_, ?_⟩
    · by_contra hlong
      unfold sendFrame at h
      rw [if_pos (by omega)] at h
      cases (pure_inv h).1
    · obtain ⟨u, hu, hq⟩ := quietly_chains.trans _ _ _ hbuild (access_quietly _)
      refine ⟨u, hq, ?_⟩
      rw [← List.append_assoc]
      exact congrArg (· ++ [_]) hu

end Relations

section Units

variable {poll : NetM Unit} {n n' : Net}

theorem waits_time : TimeStable Waits where
  toChains := waits_chains
  access n := (access_quietly n).waits

theorem emits_time : TimeStable Emits where
  toChains := emits_chains
  access n := (access_quietly n).waits.emits

/-- An ARP packet has no checksum. -/
theorem sendFrame_arp (dst : Mac) (payload : Net → Buf) (len : Nat) :
    Keeps Waits (sendFrame dst ethTypeArp payload len) := by
  intro n sent n' h
  rcases sendFrame_emitted h with hq | ⟨-, u, hq, htrace⟩
  · exact hq.waits
  · refine ⟨_, htrace, .send hq ?_⟩
    intro t
    have hnot : ¬isIpv4 (etherFrame dst n.cfg.mac ethTypeArp (bytesAt (payload n) 0 len)) := by
      rw [isIpv4, etherFrame_type]
      decide
    exact ⟨fun h => absurd h hnot, fun h => absurd h hnot, fun h => absurd h hnot,
      fun h => absurd h hnot⟩

theorem sendArpRequest_waits (ip : UInt32) : Keeps Waits (sendArpRequest ip) := by
  refine Keeps.bind waits_chains (Keeps.get waits_chains) fun n => ?_
  exact Keeps.bind waits_chains (sendFrame_arp _ _ _) fun _ => Keeps.pure waits_chains _

theorem sendArpReply_waits (mac : Mac) (ip : UInt32) : Keeps Waits (sendArpReply mac ip) := by
  refine Keeps.bind waits_chains (Keeps.get waits_chains) fun n => ?_
  exact Keeps.bind waits_chains (sendFrame_arp _ _ _) fun _ => Keeps.pure waits_chains _

theorem resolveTargetMac_waits (hpoll : Keeps Waits poll) (fuel : Nat) (dstIp : UInt32) :
    Keeps Waits (resolveTargetMac poll fuel dstIp) :=
  resolveTargetMac_steps waits_time sendArpRequest_waits hpoll fuel dstIp

/-- After the wait a packet is sent with the payload as it is then, or nothing. -/
theorem sendIpv4Packet_emitted {fuel len : Nat} {dstIp : UInt32} {proto : UInt8}
    {payload : Net → Buf} {ident : UInt16} {sent : Bool}
    (h : sendIpv4Packet poll fuel dstIp proto payload len ident n = some (sent, n')) :
    ∃ target m, resolveTargetMac poll fuel dstIp n = some (target, m) ∧
      (Quietly m n' ∨ ∃ u frame, (∀ e ∈ u, e.quiet = true) ∧
        n'.trace = m.trace ++ (u ++ [.sent frame]) ∧
        Ipv4Frame frame proto m.cfg.ip dstIp (bytesAt (payload m) 0 len)) := by
  obtain ⟨target, m, hm, h⟩ := bind_inv h
  refine ⟨target, m, hm, ?_⟩
  cases target with
  | none =>
    obtain ⟨-, rfl⟩ := pure_inv h
    exact .inl (quietly_chains.refl _)
  | some mac =>
    replace h := modify_bind_inv h
    rcases sendFrame_emitted h with hq | ⟨hlen, u, hq, htrace⟩
    · exact .inl (quietly_chains.trans _ _ _ (.same rfl) hq)
    · refine .inr ⟨u, _, hq, htrace, ?_, mac, m.cfg.mac, ident, 0x4000, ?_⟩
      · rw [bytesAt_length]
        omega
      · rw [bytesAt_length, buildIpv4_bytes]
        rfl

/-- A packet whose payload has a checksum that depends on nothing else. -/
theorem sendIpv4Packet_waits (hpoll : Keeps Waits poll) (fuel : Nat) (dstIp : UInt32)
    (proto : UInt8) (payload : Net → Buf) (len : Nat) (ident : UInt16)
    (hwell : ∀ m t frame, Ipv4Frame frame proto m.cfg.ip dstIp (bytesAt (payload m) 0 len) →
      SentWell t frame) :
    Keeps Waits (sendIpv4Packet poll fuel dstIp proto payload len ident) := by
  intro n sent n' h
  obtain ⟨target, m, hm, hsent⟩ := sendIpv4Packet_emitted h
  refine waits_chains.trans _ _ _ (resolveTargetMac_waits hpoll _ _ _ _ _ hm) ?_
  rcases hsent with hq | ⟨u, frame, hq, htrace, hframe⟩
  · exact hq.waits
  · exact ⟨_, htrace, .send hq fun t => hwell m t frame hframe⟩

theorem Ipv4Frame.sentWell_icmp {frame body : List UInt8} {srcIp dstIp : UInt32}
    (h : Ipv4Frame frame 1 srcIp dstIp body) (hbody : checksum16 (bufOf body) body.length = 0)
    (t : List NetEvent) : SentWell t frame := by
  obtain ⟨hproto, -⟩ := h.fields
  have hnot : protoOf frame ≠ 6 := by
    rw [hproto]
    decide
  exact ⟨fun _ => h.header_verifies, fun _ _ => h.icmp_verifies hbody, fun _ h6 => absurd h6 hnot,
    fun _ h6 => absurd h6 hnot⟩

theorem Ipv4Frame.sentWell_udp {frame body : List UInt8} {srcIp dstIp : UInt32}
    (h : Ipv4Frame frame 17 srcIp dstIp body) (t : List NetEvent) : SentWell t frame := by
  obtain ⟨hproto, -⟩ := h.fields
  have hnot : ∀ p : UInt8, p ≠ 17 → protoOf frame ≠ p := by
    intro p hp
    rw [hproto]
    exact Ne.symm hp
  exact ⟨fun _ => h.header_verifies, fun _ h1 => absurd h1 (hnot 1 (by decide)),
    fun _ h6 => absurd h6 (hnot 6 (by decide)), fun _ h6 => absurd h6 (hnot 6 (by decide))⟩

end Units

section Payloads

variable {n m : Net} {w : List NetEvent} {payload : List UInt8}

/-- The checksum of an echo reply, cut off or not. -/
theorem echoReply_verifies (b : Buf) (payload len : Nat) (hlen : 8 ≤ len) :
    checksum16 (bufOf (echoReply b payload len)) (echoReply b payload len).length = 0 := by
  have hcopy : ∃ zeroed : Buf, zeroed 2 = 0 ∧ zeroed 3 = 0 ∧ echoReply b payload len =
      bytesAt (putBytes zeroed 2 (be16 (checksum16 zeroed (min len 128)))) 0 (min len 128) :=
    ⟨_, rfl, rfl, rfl⟩
  obtain ⟨zeroed, h2, h3, hreply⟩ := hcopy
  have hsize : (echoReply b payload len).length = min len 128 := by rw [hreply, bytesAt_length]
  have hbytes := bytesAt_bufOf (echoReply b payload len)
  rw [hsize] at hbytes ⊢
  have hzero : checksum16 (putBytes zeroed 2 (be16 (checksum16 zeroed (min len 128))))
      (min len 128) = 0 := checksum16_verifies (by omega) rfl (by omega) h2 h3
  rw [← hzero]
  exact checksum16_congr (hbytes.trans hreply) (by omega)

theorem pingPayload_verifies (ident seq : UInt16) :
    checksum16 (bufOf (pingPayload ident seq)) (pingPayload ident seq).length = 0 := by
  have hsplit : ∃ (body : List UInt8) (c : UInt16), body.length = 56 ∧
      pingPayload ident seq = [8, 0] ++ be16 c ++ (be16 ident ++ be16 seq ++ body) ∧
      c = checksum16 (bufOf ([8, 0] ++ [0, 0] ++ (be16 ident ++ be16 seq ++ body))) 64 := by
    refine ⟨(List.range 56).map fun i => UInt8.ofNat (8 + i), _, by simp, ?_, rfl⟩
    simp only [pingPayload, List.append_assoc]
    rfl
  obtain ⟨body, c, hbody, hping, hc⟩ := hsplit
  have hlen : ([8, 0] ++ be16 c ++ (be16 ident ++ be16 seq ++ body)).length = 64 := by
    simp [be16, hbody]
  rw [hping]
  rw [← hlen] at hc
  exact checksum16_list rfl (by omega) hc

/-- The checksum of a segment behind its own header. -/
theorem tcpSegmentHeader_verifies (srcIp dstIp : UInt32) (srcPort dstPort : UInt16)
    (seq ack : UInt32) (flags : UInt8) (payload : List UInt8) (hlen : payload.length ≤ 1480) :
    tcpChecksum srcIp dstIp
      (bufOf (tcpSegmentHeader srcIp dstIp srcPort dstPort seq ack flags payload ++ payload))
      (20 + payload.length) = 0 := by
  have hsplit : ∃ (front : List UInt8) (c : UInt16), front.length = 16 ∧
      tcpSegmentHeader srcIp dstIp srcPort dstPort seq ack flags payload ++ payload =
        front ++ be16 c ++ (be16 0 ++ payload) ∧
      c = tcpChecksum srcIp dstIp (bufOf (front ++ [0, 0] ++ (be16 0 ++ payload)))
        (20 + payload.length) := by
    refine ⟨be16 srcPort ++ be16 dstPort ++ be32 seq ++ be32 ack ++ [0x50, flags] ++ be16 4096,
      tcpChecksum srcIp dstIp (bufOf (tcpHeader srcPort dstPort seq ack flags 0 ++ payload))
        (20 + payload.length), rfl, ?_, ?_⟩
    · simp only [tcpSegmentHeader, tcpHeader, List.append_assoc]
    · simp only [tcpHeader, List.append_assoc]
      rfl
  obtain ⟨front, c, hfront, hsegment, hc⟩ := hsplit
  have hsize : (front ++ be16 c ++ (be16 0 ++ payload)).length = 20 + payload.length := by
    simp [be16, hfront]
    omega
  rw [hsegment]
  rw [← hsize] at hc ⊢
  exact tcpChecksum_list (by simp [hfront]) (by omega) hc

end Payloads

section Address

variable {ip : UInt32}

/-- No lease was accepted. -/
def NoLease (t : List NetEvent) : Prop := ∀ cfg, .leased cfg ∉ t

theorem noLease_prefixClosed : PrefixClosed NoLease := by
  intro t u h cfg hm
  exact h cfg (List.mem_append_left u hm)

/-- The address stays until a lease is accepted. -/
def KeepsAddress (ip : UInt32) : Net → Net → Prop :=
  Carries Net.dhcpHistory NoLease fun n _ => n.cfg.ip = ip

theorem keepsAddress_stable : DhcpStable (KeepsAddress ip) where
  toChains := Carries.chains noLease_prefixClosed
  same n n' h := .silent h.history fun _ _ hi => by rw [h.cfg, hi]
  sent n frame := .event (dhcpHistory_log _ _) fun _ _ hi => hi
  accept n m _ := by
    rcases acceptDhcp_cases n m with ⟨-, -, he⟩ | ⟨-, -, he⟩ | ⟨-, he⟩
    · rw [he]
      exact .event (storeDhcp_history n m) fun _ _ hi => hi
    · rw [he]
      refine ⟨_, ackedNet_history n m, ?_⟩
      intro t0 hg
      exact absurd (by simp) (hg (ackConfig n.cfg (n.dhcp.store m.options) m.yiaddr))
    · rw [he]
      exact .event (storeDhcp_history n m) fun _ _ hi => hi

end Address

section Segments

variable {t u w : List NetEvent} {own : List UInt8}

/-- A call's own header is built, and then it waits. -/
theorem Emission.build (hw : Waiting w) (h : List UInt8) : Emission (.built h :: w) := by
  have hone : Emission [.built h] := by
    refine ⟨rfl, ?_, ?_⟩
    · intro a hd b hsplit
      rcases List.append_eq_singleton_iff.mp hsplit.symm with ⟨rfl, -⟩ | ⟨-, hcons⟩
      · exact Int.le_refl 0
      · cases hcons
    · intro a frame b hsplit
      rcases List.append_eq_singleton_iff.mp hsplit.symm with ⟨-, hcons⟩ | ⟨-, hcons⟩ <;> cases hcons
  exact hone.append hw.toEmission

theorem Emission.snoc {frame : List UInt8} (h : Emission u) (hsent : SentWell u frame) :
    Emission (u ++ [.sent frame]) := by
  refine ⟨?_, ?_, ?_⟩
  · rw [level_append, h.closed]
    rfl
  · intro a hd b hsplit
    rcases split_append hsplit with ⟨b', hu, -⟩ | ⟨a', -, hlast⟩
    · exact h.inside a hd b' hu
    · rcases List.append_eq_singleton_iff.mp hlast.symm with ⟨-, hcons⟩ | ⟨-, hcons⟩ <;> cases hcons
  · intro a f b hsplit
    rcases split_append hsplit with ⟨b', hu, -⟩ | ⟨a', rfl, hlast⟩
    · exact h.sent a f b' hu
    · rcases List.append_eq_singleton_iff.mp hlast.symm with ⟨rfl, hcons⟩ | ⟨-, hcons⟩
      · cases hcons
        rwa [List.append_nil]
      · cases hcons

/-- An undisturbed wait leaves no header behind but the call's own. -/
theorem undisturbed_own (hw : Waiting w) (h : Undisturbed (.built own :: w)) :
    headers w = [] ∧ NoLease w := by
  obtain ⟨before, hd, since, hsplit, hnone, hlevel, hlease⟩ := h
  cases before with
  | nil =>
    obtain ⟨-, rfl⟩ := List.cons.inj hsplit
    exact ⟨hnone, hlease⟩
  | cons e before =>
    have hrest : w = before ++ .built hd :: since := (List.cons.inj hsplit).2
    have hdepth := hw.nested before hd since hrest
    have hclosed := hw.closed
    rw [hrest, level_append, level_cons, hlevel] at hclosed
    change level before + (0 + 0) = 0 at hclosed
    omega

variable {n m n' : Net}

theorem KeepsAddress.kept {ip : UInt32} (h : KeepsAddress ip n m) (hip : n.cfg.ip = ip)
    (ht : m.trace = n.trace ++ w) (hlease : NoLease w) : m.cfg.ip = ip := by
  obtain ⟨v, hv, hkept⟩ := h
  have hfilter : m.dhcpHistory = n.dhcpHistory ++ w.filter NetEvent.ofDhcp := by
    rw [Net.dhcpHistory, ht, List.filter_append]
    rfl
  obtain rfl := List.append_cancel_left (hv.symm.trans hfilter)
  exact hkept [] (fun cfg hm => hlease cfg (List.mem_filter.mp hm).1) hip

/-- A wait in which no header is built and no lease accepted leaves segment and address. -/
theorem resolveTargetMac_held {pollFuel fuel : Nat} {dstIp seq ack : UInt32}
    {srcPort dstPort : UInt16} {flags : UInt8} {payload : List UInt8} {target : Option Mac}
    (h : resolveTargetMac (netPoll pollFuel) fuel dstIp
      (buildTcp n dstIp srcPort dstPort seq ack flags payload) = some (target, m))
    (hw : m.trace = (buildTcp n dstIp srcPort dstPort seq ack flags payload).trace ++ w)
    (hnone : headers w = []) (hlease : NoLease w) :
    m.cfg.ip = n.cfg.ip ∧ bytesAt m.bufs.tcp 0 (20 + payload.length) =
      tcpSegmentHeader n.cfg.ip dstIp srcPort dstPort seq ack flags payload ++ payload := by
  have hip : m.cfg.ip = n.cfg.ip :=
    (resolveTargetMac_keeps keepsAddress_stable.handlers.toSendStable
      (keepsAddress_stable.poll pollFuel) fuel dstIp _ _ _ h).kept rfl hw hlease
  obtain ⟨v, hv, hkept⟩ := resolveTargetMac_keeps keepsBuilt_handlers.toSendStable
    (netPoll_keepsBuilt pollFuel) fuel dstIp _ _ _ h
  have hheld := hkept [] trivial ⟨rfl, fun _ _ => rfl, rfl⟩
  rw [List.nil_append, List.append_cancel_left (hv.symm.trans hw)] at hheld
  obtain ⟨hhead, hdata⟩ := buildTcp_bytes n dstIp srcPort dstPort seq ack flags payload
  refine ⟨hip, ?_⟩
  rw [bytesAt_add, hheld.header, hnone, Nat.zero_add]
  congr 1
  refine Eq.trans (bytesAt_congr ?_) hdata
  intro i _
  exact hheld.data (20 + i) (by omega)

/-- `send_tcp_packet`: its checksum fits the frame if its wait was undisturbed. -/
theorem sendTcpPacket_emits {pollFuel : Nat} (hpoll : Keeps Waits (netPoll pollFuel)) (fuel : Nat)
    (dstIp : UInt32) (srcPort dstPort : UInt16) (seq ack : UInt32) (flags : UInt8)
    (payload : List UInt8) (ident : UInt16) : Keeps Emits
      (sendTcpPacket (netPoll pollFuel) fuel dstIp srcPort dstPort seq ack flags payload ident) := by
  intro n sent n' h
  unfold sendTcpPacket at h
  split at h
  · obtain ⟨-, rfl⟩ := pure_inv h
    exact emits_chains.refl _
  replace h := modify_bind_inv h
  obtain ⟨target, m, hm, hsent⟩ := sendIpv4Packet_emitted h
  obtain ⟨w, hw, hwait⟩ := resolveTargetMac_waits hpoll _ _ _ _ _ hm
  obtain ⟨own, hown⟩ : ∃ own, own =
    tcpSegmentHeader n.cfg.ip dstIp srcPort dstPort seq ack flags payload := ⟨_, rfl⟩
  have htrace : m.trace = n.trace ++ .built own :: w := by
    rw [hw, hown]
    simp [buildTcp, Net.log]
  rcases hsent with ⟨q, hq, hquiet⟩ | ⟨q, frame, hquiet, hq, hframe⟩
  · refine ⟨_, ?_, .build (hwait.append (.quiet hquiet)) own⟩
    rw [hq, htrace, List.append_assoc]
    rfl
  · have hwell : SentWell (.built own :: (w ++ q)) frame := by
      obtain ⟨hproto, -⟩ := hframe.fields
      have hnot : protoOf frame ≠ 1 := by
        rw [hproto]
        decide
      refine ⟨fun _ => hframe.header_verifies, fun _ h1 => absurd h1 hnot, ?_, ?_⟩
      · intro _ _ hnone
        cases hnone
      · intro _ _ hcalm
        obtain ⟨hnone, hlease⟩ := undisturbed_own (hwait.append (.quiet hquiet)) hcalm
        rw [headers_append] at hnone
        obtain ⟨hip, hbody⟩ := resolveTargetMac_held hm hw (List.append_eq_nil_iff.mp hnone).1
          (noLease_prefixClosed _ _ hlease)
        have hfits := hframe.fits
        rw [bytesAt_length] at hfits
        refine hframe.tcp_verifies ?_
        rw [bytesAt_length, hbody, hip]
        exact tcpSegmentHeader_verifies _ _ _ _ _ _ _ _ (by omega)
    refine ⟨_, ?_, (Emission.build (hwait.append (.quiet hquiet)) own).snoc hwell⟩
    rw [hq, htrace]
    simp

end Segments

section Runs

variable {poll : NetM Unit}

theorem sendAck_emits {fuel pollFuel : Nat} (hpoll : Keeps Waits (netPoll pollFuel)) :
    Keeps Emits (sendAck (netPoll pollFuel) fuel) := by
  refine Keeps.bind emits_chains (Keeps.get emits_chains) fun n => ?_
  exact Keeps.bind emits_chains (sendTcpPacket_emits hpoll _ _ _ _ _ _ _ _ _)
    fun _ => Keeps.pure emits_chains _

theorem sendIcmp_emits (hpoll : Keeps Waits poll) (fuel : Nat) (dstIp : UInt32)
    {body : List UInt8} {len : Nat} (hlen : body.length = len) (ident : UInt16)
    (hbody : checksum16 (bufOf body) body.length = 0) :
    Keeps Emits (sendIpv4Packet poll fuel dstIp 1 (fun _ => bufOf body) len ident) := by
  subst hlen
  refine (sendIpv4Packet_waits hpoll fuel dstIp 1 _ _ ident ?_).mono fun _ _ => Waits.emits
  intro m t frame hframe
  rw [bytesAt_bufOf] at hframe
  exact hframe.sentWell_icmp hbody t

theorem emits_handlers {pollFuel : Nat} (hpoll : Keeps Waits (netPoll pollFuel)) :
    FrameSteps Emits (netPoll pollFuel) where
  toTimeStable := emits_time
  learnArp _ _ _ := (Quietly.same rfl).waits.emits
  pingReply _ _ := (Quietly.same rfl).waits.emits
  dnsReceive n p l := (dnsReceive_quietly n p l).waits.emits
  dhcpReceive n p l := (dhcpReceive_quietly n p l).waits.emits
  sendArpReply mac ip := (sendArpReply_waits mac ip).mono fun _ _ => Waits.emits
  sendEcho _ _ b p l h := sendIcmp_emits hpoll _ _ rfl _ (echoReply_verifies b p l h)
  sendAck _ := sendAck_emits hpoll

theorem emits_tcp : TcpStable Emits where
  noteSegment _ _ _ := (Quietly.event rfl rfl).waits.emits
  failed _ := (Quietly.same rfl).waits.emits
  acceptSynAck _ _ := (Quietly.event rfl rfl).waits.emits
  acceptData _ _ := (Quietly.event rfl rfl).waits.emits
  acceptFin _ _ := (Quietly.event rfl rfl).waits.emits
  handled _ := (Quietly.event rfl rfl).waits.emits

theorem waits_driver : DriverStable Waits where
  toTimeStable := waits_time
  clearIsr _ _ := (Quietly.same rfl).waits
  polled _ _ := (Quietly.event rfl rfl).waits
  advanceRx _ _ := (Quietly.same rfl).waits

/-- What a poll adds is inside the turns of its frames. -/
theorem netPoll_waits (fuel : Nat) : Keeps Waits (netPoll fuel) := by
  refine netPoll_turns waits_driver ?_ fuel
  intro fuel hpoll len n a n' h
  obtain ⟨u, m, hframe, hleave⟩ := bind_inv (modify_bind_inv h)
  obtain rfl := modify_inv hleave
  have hsteps := emits_handlers hpoll
  obtain ⟨w, hw, hemit⟩ := netOnFrame_keeps hsteps
    (tcpReceive_keeps hsteps.toHandlerSteps emits_tcp)
    fuel len _ _ _ hframe
  have htrace : (leaveFrame m len).trace = n.trace ++
      .dispatched (bytesAt (enterFrame n len).drv.rxFrameTmp 0 len) ::
        (w ++ [.returned (bytesAt m.drv.rxFrameTmp 0 len)]) := by
    simp [leaveFrame, Net.log, hw, enterFrame]
  exact ⟨_, htrace, .turn hemit _ _⟩

theorem sendUdpPacket_emits (pollFuel fuel : Nat) (dstIp : UInt32) (srcPort dstPort : UInt16)
    (payload : List UInt8) (ident : UInt16) : Keeps Emits
      (sendUdpPacket (netPoll pollFuel) fuel dstIp srcPort dstPort payload ident) := by
  refine Keeps.ite (Keeps.pure emits_chains _) ?_
  refine Keeps.bind emits_chains (Keeps.modify fun n => (Quietly.same rfl).waits.emits) fun _ => ?_
  refine (sendIpv4Packet_waits (netPoll_waits pollFuel) _ _ _ _ _ _ ?_).mono fun _ _ => Waits.emits
  intro m t frame hframe
  exact hframe.sentWell_udp t

theorem sendDhcpMessage_emits (msgType : UInt8) (reqIp serverId : UInt32) :
    Keeps Emits (sendDhcpMessage msgType reqIp serverId) := by
  intro n sent n' h
  replace h := get_bind_inv h
  rcases sendFrame_emitted h with hq | ⟨hlen, u, hq, htrace⟩
  · exact hq.waits.emits
  obtain ⟨udp, hpacket⟩ : ∃ udp : List UInt8,
      dhcpPacket n.dhcp.xid n.cfg.mac msgType reqIp serverId =
        ipv4Header (UInt16.ofNat (20 + udp.length)) n.dhcp.xid.toUInt16 0 17 0 0xFFFFFFFF ++ udp :=
    ⟨_, rfl⟩
  rw [bytesAt_bufOf] at htrace
  rw [hpacket, List.length_append, ipv4Header_length] at hlen
  have hframe : Ipv4Frame (etherFrame broadcastMac n.cfg.mac ethTypeIpv4
      (dhcpPacket n.dhcp.xid n.cfg.mac msgType reqIp serverId)) 17 0 0xFFFFFFFF udp :=
    ⟨by omega, broadcastMac, n.cfg.mac, _, _, by rw [hpacket]⟩
  exact Waits.emits ⟨_, htrace, .send hq hframe.sentWell_udp⟩

theorem emits_client : ClientSteps Emits where
  toTimeStable := emits_time
  poll fuel := (netPoll_waits fuel).mono fun _ _ => Waits.emits
  sendUdp := sendUdpPacket_emits
  sendTcp pollFuel := sendTcpPacket_emits (netPoll_waits pollFuel)
  dnsStart _ _ := (Quietly.same rfl).waits.emits
  stopDns _ := (Quietly.same rfl).waits.emits
  tcpLocal _ _ _ := (Quietly.same rfl).waits.emits

theorem pingPayload_length (ident seq : UInt16) : (pingPayload ident seq).length = 64 := by
  simp [pingPayload, be16]

theorem emits_api : ApiSteps Emits where
  toClientSteps := emits_client
  dhcpStart _ _ := (Quietly.same rfl).waits.emits
  requested _ := (Quietly.event rfl rfl).waits.emits
  openTcp _ _ _ _ _ _ _ _ := (Quietly.event rfl rfl).waits.emits
  fetched _ := (Quietly.event rfl rfl).waits.emits
  closeTcp _ := (Quietly.same rfl).waits.emits
  pingStart _ _ _ := (Quietly.same rfl).waits.emits
  pingSent _ _ := (Quietly.same rfl).waits.emits
  stopPing _ := (Quietly.same rfl).waits.emits
  sendPing fuel _ ident seq := sendIcmp_emits (netPoll_waits fuel) _ _ (pingPayload_length ident seq)
    _ (pingPayload_verifies ident seq)
  sendDhcp := sendDhcpMessage_emits

/-- The identities hold for all contents and no sum overflows; in every run each IPv4 and ICMP
header that is sent verifies, and each TCP header whose wait was undisturbed. -/
theorem checksums_verify (n n' : Net) :
    (∀ (b : Buf) (len off : Nat), len ≤ 65535 → off % 2 = 0 → off + 2 ≤ len → b off = 0 →
      b (off + 1) = 0 → checksum16 (putBytes b off (be16 (checksum16 b len))) len = 0) ∧
    (∀ (srcIp dstIp : UInt32) (seg : Buf) (len : Nat), 18 ≤ len → len ≤ 1500 → seg 16 = 0 →
      seg 17 = 0 →
      tcpChecksum srcIp dstIp (putBytes seg 16 (be16 (tcpChecksum srcIp dstIp seg len))) len = 0) ∧
    (∀ (b : Buf) (len k : Nat), len ≤ 65535 →
      (sumPairs b len k 0 0).toNat = wordSum (bytesAt b 0 (2 * min k (len / 2))) ∧
      (checksum32Add 0 b len).toNat = wordSum (bytesAt b 0 len)) ∧
    (∀ (srcIp dstIp : UInt32) (seg : Buf) (len k : Nat) (pseudo : UInt32), len ≤ 1500 →
      pseudo = checksum32Add 0 (bufOf (pseudoHeader srcIp dstIp len)) 12 →
      pseudo.toNat = wordSum (pseudoHeader srcIp dstIp len) ∧
      (sumPairs seg len k 0 pseudo).toNat =
        pseudo.toNat + wordSum (bytesAt seg 0 (2 * min k (len / 2))) ∧
      (checksum32Add pseudo seg len).toNat = pseudo.toNat + wordSum (bytesAt seg 0 len)) ∧
    (∀ sum : UInt32, ((sum &&& (0xFFFF : UInt32)) + (sum >>> 16)).toNat =
      sum.toNat % 65536 + sum.toNat / 65536) ∧
    ∀ (u before after : List NetEvent) (frame : List UInt8), NetRun n n' →
      n'.trace = n.trace ++ u → u = before ++ .sent frame :: after → isIpv4 frame →
      ipv4Verifies frame ∧ (protoOf frame = 1 → icmpVerifies frame) ∧
      (protoOf frame = 6 → Undisturbed before → tcpVerifies frame) := by
  refine ⟨?_, ?_, ?_, ?_, foldRound_toNat, ?_⟩
  · intro b len off hlen heven hin h0 h1
    exact checksum16_verifies hlen heven hin h0 h1
  · intro srcIp dstIp seg len hlow hlen h0 h1
    exact tcpChecksum_verifies srcIp dstIp (by omega) rfl hlow h0 h1
  · intro b len k hlen
    have hle := bytes_wordSum_le b 0 len
    have hfits : (0 : UInt32).toNat + wordSum (bytesAt b 0 len) < 4294967296 := by
      simp
      omega
    have hpairs := sumPairs_exact hfits k
    have hall := checksum32Add_exact hfits
    simp only [UInt32.toNat_zero, Nat.zero_add] at hpairs hall
    exact ⟨hpairs, hall⟩
  · intro srcIp dstIp seg len k pseudo hlen hpseudo
    obtain ⟨hexact, hsmall⟩ := pseudo_exact srcIp dstIp len
    rw [← hpseudo] at hexact
    have hle := bytes_wordSum_le seg 0 len
    have hfits : pseudo.toNat + wordSum (bytesAt seg 0 len) < 4294967296 := by omega
    exact ⟨hexact, sumPairs_exact hfits k, checksum32Add_exact hfits⟩
  · intro u before after frame hrun htrace hsplit hip
    obtain ⟨v, hv, hemit⟩ := hrun.keeps emits_api
    obtain rfl := List.append_cancel_left (hv.symm.trans htrace)
    have hwell := hemit.sent before frame after hsplit
    exact ⟨hwell.ipv4 hip, hwell.icmp hip, hwell.tcp hip⟩

end Runs

section Disturbed

instance : DecidablePred isIpv4 := fun _ => inferInstanceAs (Decidable (_ = _))

instance : DecidablePred tcpVerifies := fun _ => inferInstanceAs (Decidable (_ = _))

theorem literal_netRun {n n' : Net} {r : HttpResponse} (hup : n.cfg.linkUp = true)
    (hip : n.cfg.ip ≠ 0) (hdns : n.cfg.dns ≠ 0)
    (hrun : httpConnect 8 literalHost [47] 0x0A000002 80 1000 none 0 n = some (r, n')) :
    NetRun n n' := by
  have hget := netHttpGet_literal 8 1000 0 none n (by decide) hup hip hdns
  have hcall : netCall 8 (.httpGet literalUrl 1000 none 0) n = some ((), n') := by
    rw [netCall, bind_run (hget.trans hrun)]
    rfl
  exact .call 8 _ (.start _) hcall

/-- Nobody answers, and time passes. -/
def unansweredNet : Net := { fetchNet [] with env := fun _ => .txDone 0 :: List.replicate 60 .tick }

/-- The SYN of a new session is sent at once. -/
def sendsSyn : List NetEvent → Bool
  | .opened :: .built _ :: .sent frame :: _ => decide (isIpv4 frame ∧ protoOf frame = 6)
  | _ => false

theorem sendsSyn_inv {t : List NetEvent} (h : sendsSyn t = true) : ∃ header frame after,
    t = [.opened, .built header] ++ .sent frame :: after ∧ isIpv4 frame ∧ protoOf frame = 6 := by
  unfold sendsSyn at h
  split at h
  · obtain ⟨hip, hproto⟩ := of_decide_eq_true h
    exact ⟨_, _, _, rfl, hip, hproto⟩
  · cases h

/-- The SYN verifies. -/
theorem checksums_verify_syn : ∃ n' before frame after, NetRun unansweredNet n' ∧
    n'.trace = before ++ .sent frame :: after ∧ isIpv4 frame ∧ protoOf frame = 6 ∧
    Undisturbed before ∧ tcpVerifies frame := by
  have h : (httpConnect 8 literalHost [47] 0x0A000002 80 1000 none 0 unansweredNet).map
      (fun r => sendsSyn r.2.trace) = some true := by
    decide +kernel
  obtain ⟨⟨r, n'⟩, hrun, hsyn⟩ := Option.map_eq_some_iff.mp h
  obtain ⟨header, frame, after, htrace, hip, hproto⟩ := sendsSyn_inv hsyn
  have hrun : NetRun unansweredNet n' :=
    literal_netRun rfl (by simp [unansweredNet, fetchNet]) (by simp [unansweredNet, fetchNet]) hrun
  have hstill : Undisturbed [.opened, .built header] :=
    ⟨[.opened], header, [], rfl, rfl, rfl, by simp⟩
  obtain ⟨-, -, -, -, -, hverify⟩ := checksums_verify unansweredNet n'
  have htcp := hverify _ _ _ _ hrun (List.nil_append _).symm htrace hip
  exact ⟨n', _, frame, after, hrun, htrace, hip, hproto, hstill, htcp.2.2 hproto hstill⟩

/-- A TCP segment whose checksum is wrong. -/
def NetEvent.wrongSegment : NetEvent → Bool
  | .sent frame => decide (isIpv4 frame ∧ protoOf frame = 6 ∧ ¬tcpVerifies frame)
  | _ => false

/-- A frame with an ARP packet of a neighbour. -/
def neighbourPacket (ip : UInt32) : RxPacket :=
  arrivingFrame ethTypeArp (arpPacket 2 broadcastMac ip broadcastMac.bytes 0x0A000001)
    (by simp [etherFrame, arpPacket, broadcastMac, be16, be32])

/-- The server answers the SYN, another host takes its place in the ARP cache, and while the
request waits for the server's address a byte of data is acknowledged. -/
def disturbedNet : Net :=
  { fetchNet [] with
    env := fun i => [.txDone 0, .txDone 1, .txDone 2, .txDone 3] ++
      if i = 0 then [.arrive (serverPacket 99 0x12 [] (by decide)), .arrive (neighbourPacket 0x0A000003)]
      else if i = 20 then [.arrive (serverPacket 100 0x10 [104] (by decide))]
      else if i = 30 then [.arrive (neighbourPacket 0x0A000002)]
      else if i < 40 then []
      else List.replicate 60 .tick }

/-- The request leaves with the header of the acknowledgment. -/
theorem tcp_checksum_foreign : ∃ n' before frame after, NetRun disturbedNet n' ∧
    n'.trace = before ++ .sent frame :: after ∧ isIpv4 frame ∧ protoOf frame = 6 ∧
    ¬tcpVerifies frame := by
  have h : (httpConnect 8 literalHost [47] 0x0A000002 80 1000 none 0 disturbedNet).map
      (fun r => r.2.trace.any NetEvent.wrongSegment) = some true := by
    decide +kernel
  obtain ⟨⟨r, n'⟩, hrun, hany⟩ := Option.map_eq_some_iff.mp h
  obtain ⟨e, he, hwrong⟩ := List.any_eq_true.mp hany
  obtain ⟨before, after, htrace⟩ := List.append_of_mem he
  have hrun : NetRun disturbedNet n' :=
    literal_netRun rfl (by simp [disturbedNet, fetchNet]) (by simp [disturbedNet, fetchNet]) hrun
  cases e with
  | sent frame =>
    obtain ⟨hip, hproto, hnot⟩ := of_decide_eq_true hwrong
    exact ⟨n', before, frame, after, hrun, htrace, hip, hproto, hnot⟩
  | _ => cases hwrong

end Disturbed

end VertexOS
