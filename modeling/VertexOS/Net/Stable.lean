import VertexOS.Net.Client

namespace VertexOS
open Library.Programs

/-- What an access to the hardware preserves. -/
structure TimeStable (R : Net → Net → Prop) : Prop extends Chains R where
  access : ∀ n, R n (access n)

/-- What everything below a handler preserves. -/
structure SendStable (R : Net → Net → Prop) : Prop extends TimeStable R where
  startTx : ∀ n frame, R n (startTx n frame)
  buildFrame : ∀ n dst ethertype payload len, R n (buildFrame n dst ethertype payload len)
  buildIpv4 : ∀ n dstIp proto payload len ident, R n (buildIpv4 n dstIp proto payload len ident)

/-- What the handlers preserve, apart from `handle_tcp` and an echo reply. -/
structure PacketStable (R : Net → Net → Prop) : Prop extends SendStable R where
  learnArp : ∀ n ip mac, R n (learnArp n ip mac)
  dnsReceive : ∀ n payload len, R n (dnsReceive n payload len)
  dhcpReceive : ∀ n payload len, R n (dhcpReceive n payload len)
  buildAck : ∀ n dstIp srcPort dstPort seq ack,
    R n (buildTcp n dstIp srcPort dstPort seq ack tcpFlagAck [])

/-- What the handlers preserve, apart from `handle_tcp`. -/
structure HandlerStable (R : Net → Net → Prop) : Prop extends PacketStable R where
  pingReply : ∀ n now, R n (pingReply n now)

/-- What the handlers preserve beside `handle_tcp` and an echo reply, with their sends as
wholes. -/
structure HandlerSteps (R : Net → Net → Prop) (poll : NetM Unit) : Prop extends TimeStable R where
  learnArp : ∀ n ip mac, R n (learnArp n ip mac)
  dnsReceive : ∀ n payload len, R n (dnsReceive n payload len)
  dhcpReceive : ∀ n payload len, R n (dhcpReceive n payload len)
  sendArpReply : ∀ mac ip, Keeps R (sendArpReply mac ip)
  sendEcho : ∀ fuel dstIp b payload len, 8 ≤ len → Keeps R (sendIpv4Packet poll fuel dstIp 1
    (fun _ => bufOf (echoReply b payload len)) (echoReply b payload len).length 0x1234)
  sendAck : ∀ fuel, Keeps R (sendAck poll fuel)

/-- What the handlers preserve beside `handle_tcp`, with their sends as wholes. -/
structure FrameSteps (R : Net → Net → Prop) (poll : NetM Unit) : Prop extends
    HandlerSteps R poll where
  pingReply : ∀ n now, R n (pingReply n now)

/-- What `rtl8139_poll` preserves beside its frames. -/
structure DriverStable (R : Net → Net → Prop) : Prop extends TimeStable R where
  clearIsr : ∀ n bits, R n (clearIsr n bits)
  polled : ∀ n bits, R n ((VertexOS.clearIsr n bits).log (.polled (0 < n.depth)))
  advanceRx : ∀ n size, R n (advanceRx n size)

/-- What the steps of `rtl8139_poll` preserve. -/
structure PollStable (R : Net → Net → Prop) : Prop where
  clearIsr : ∀ n bits, R n (clearIsr n bits)
  polled : ∀ n bits, R n ((VertexOS.clearIsr n bits).log (.polled (0 < n.depth)))
  enterFrame : ∀ n len, R n (enterFrame n len)
  leaveFrame : ∀ n len, R n (leaveFrame n len)
  advanceRx : ∀ n size, R n (advanceRx n size)

/-- What the updates of `handle_tcp` preserve. -/
structure TcpStable (R : Net → Net → Prop) : Prop where
  noteSegment : ∀ n now s, R n (noteSegment n now s)
  failed : ∀ n, R n { n with tcp := { n.tcp with failed := true } }
  acceptSynAck : ∀ n seq, R n (acceptSynAck n seq)
  acceptData : ∀ n data, R n (acceptData n data)
  acceptFin : ∀ n s, R n (acceptFin n s)
  handled : ∀ n, R n (n.log (.handled n.tcp.seqRemote))

section Mono

variable {R R' : Net → Net → Prop}

theorem SendStable.mono (hR' : Chains R') (hle : ∀ n n', R n n' → R' n n') (h : SendStable R) :
    SendStable R' where
  toChains := hR'
  access n := hle _ _ (h.access n)
  startTx n f := hle _ _ (h.startTx n f)
  buildFrame n d e p l := hle _ _ (h.buildFrame n d e p l)
  buildIpv4 n d o p l i := hle _ _ (h.buildIpv4 n d o p l i)

theorem PacketStable.mono (hR' : Chains R') (hle : ∀ n n', R n n' → R' n n')
    (h : PacketStable R) : PacketStable R' where
  toSendStable := h.toSendStable.mono hR' hle
  learnArp n i m := hle _ _ (h.learnArp n i m)
  dnsReceive n p l := hle _ _ (h.dnsReceive n p l)
  dhcpReceive n p l := hle _ _ (h.dhcpReceive n p l)
  buildAck n d s p q a := hle _ _ (h.buildAck n d s p q a)

theorem HandlerStable.mono (hR' : Chains R') (hle : ∀ n n', R n n' → R' n n')
    (h : HandlerStable R) : HandlerStable R' where
  toPacketStable := h.toPacketStable.mono hR' hle
  pingReply n t := hle _ _ (h.pingReply n t)

theorem PollStable.mono (hle : ∀ n n', R n n' → R' n n') (h : PollStable R) : PollStable R' where
  clearIsr n b := hle _ _ (h.clearIsr n b)
  polled n b := hle _ _ (h.polled n b)
  enterFrame n l := hle _ _ (h.enterFrame n l)
  leaveFrame n l := hle _ _ (h.leaveFrame n l)
  advanceRx n s := hle _ _ (h.advanceRx n s)

end Mono

/-- What each event beside the program preserves, an access preserves. -/
theorem access_of_hwEvent {R : Net → Net → Prop} (hR : Chains R) (hevent : ∀ n e, R n (hwEvent n e))
    (hcount : ∀ n k, R n { n with accesses := k }) (n : Net) : R n (access n) := by
  have hfold : ∀ (l : List HwEvent) n, R n (l.foldl hwEvent n) := by
    intro l
    induction l with
    | nil => exact hR.refl
    | cons e l ih =>
      intro n
      exact hR.trans n (hwEvent n e) _ (hevent n e) (ih (hwEvent n e))
  exact hR.trans n _ _ (hfold _ n) (hcount _ _)

section Send

variable {R : Net → Net → Prop} {poll : NetM Unit}

theorem pitGetTicks_keeps (h : TimeStable R) : Keeps R pitGetTicks := by
  refine Keeps.bind h.toChains (Keeps.modify h.access) ?_
  intro u
  exact Keeps.bind h.toChains (Keeps.get h.toChains) fun n => Keeps.pure h.toChains _

theorem rtl8139Send_keeps (h : SendStable R) (frame : Net → Buf) (len : Nat) :
    Keeps R (rtl8139Send frame len) := by
  refine Keeps.bind h.toChains (Keeps.get h.toChains) fun n => ?_
  refine Keeps.ite (Keeps.pure h.toChains _) ?_
  refine Keeps.bind h.toChains (Keeps.modify h.access) fun _ => ?_
  refine Keeps.bind h.toChains (Keeps.get h.toChains) fun n => ?_
  refine Keeps.ite (Keeps.pure h.toChains _) ?_
  refine Keeps.bind h.toChains (Keeps.modify ?_) fun _ => Keeps.pure h.toChains _
  intro n
  exact h.startTx n _

theorem sendFrame_keeps (h : SendStable R) (dst : Mac) (ethertype : UInt16)
    (payload : Net → Buf) (len : Nat) : Keeps R (sendFrame dst ethertype payload len) := by
  refine Keeps.ite (Keeps.pure h.toChains _) ?_
  refine Keeps.bind h.toChains (Keeps.modify ?_) fun _ => rtl8139Send_keeps h _ _
  intro n
  exact h.buildFrame n _ _ _ _

theorem sendArpRequest_keeps (h : SendStable R) (ip : UInt32) : Keeps R (sendArpRequest ip) := by
  refine Keeps.bind h.toChains (Keeps.get h.toChains) fun n => ?_
  exact Keeps.bind h.toChains (sendFrame_keeps h _ _ _ _) fun _ => Keeps.pure h.toChains _

theorem sendArpReply_keeps (h : SendStable R) (mac : Mac) (ip : UInt32) :
    Keeps R (sendArpReply mac ip) := by
  refine Keeps.bind h.toChains (Keeps.get h.toChains) fun n => ?_
  exact Keeps.bind h.toChains (sendFrame_keeps h _ _ _ _) fun _ => Keeps.pure h.toChains _

theorem waitMac_keeps (h : TimeStable R) (hpoll : Keeps R poll) (route start : UInt32)
    (fuel : Nat) : Keeps R (waitMac poll route start fuel) := by
  induction fuel with
  | zero => exact Keeps.none
  | succ fuel ih =>
    refine Keeps.bind h.toChains (pitGetTicks_keeps h) fun now => ?_
    refine Keeps.bind h.toChains (Keeps.get h.toChains) fun n => ?_
    refine Keeps.ite ?_ (Keeps.pure h.toChains _)
    refine Keeps.bind h.toChains hpoll fun _ => ?_
    refine Keeps.bind h.toChains (Keeps.get h.toChains) fun n => ?_
    exact Keeps.ite (Keeps.pure h.toChains _) ih

/-- What `resolve_target_mac` does with the ARP request as a whole. -/
theorem resolveTargetMac_steps (h : TimeStable R) (hask : ∀ ip, Keeps R (sendArpRequest ip))
    (hpoll : Keeps R poll) (fuel : Nat) (dstIp : UInt32) :
    Keeps R (resolveTargetMac poll fuel dstIp) := by
  refine Keeps.bind h.toChains (Keeps.get h.toChains) fun n => ?_
  refine Keeps.ite (Keeps.pure h.toChains _) ?_
  refine Keeps.bind h.toChains (hask _) fun _ => ?_
  exact Keeps.bind h.toChains (pitGetTicks_keeps h) fun _ => waitMac_keeps h hpoll _ _ _

theorem resolveTargetMac_keeps (h : SendStable R) (hpoll : Keeps R poll) (fuel : Nat)
    (dstIp : UInt32) : Keeps R (resolveTargetMac poll fuel dstIp) :=
  resolveTargetMac_steps h.toTimeStable (sendArpRequest_keeps h) hpoll fuel dstIp

theorem sendIpv4Packet_keeps (h : SendStable R) (hpoll : Keeps R poll) (fuel : Nat)
    (dstIp : UInt32) (proto : UInt8) (payload : Net → Buf) (len : Nat) (ident : UInt16) :
    Keeps R (sendIpv4Packet poll fuel dstIp proto payload len ident) := by
  refine Keeps.bind h.toChains (resolveTargetMac_keeps h hpoll _ _) ?_
  rintro (_ | mac)
  · exact Keeps.pure h.toChains _
  · refine Keeps.bind h.toChains (Keeps.modify ?_) fun _ => sendFrame_keeps h _ _ _ _
    intro n
    exact h.buildIpv4 n _ _ _ _ _

end Send

section Handlers

variable {R : Net → Net → Prop} {poll : NetM Unit}

theorem sendAck_keeps (h : PacketStable R) (hpoll : Keeps R poll) (fuel : Nat) :
    Keeps R (sendAck poll fuel) := by
  refine Keeps.bind h.toChains (Keeps.get h.toChains) fun n => ?_
  refine Keeps.bind h.toChains (Keeps.ite (Keeps.pure h.toChains _) ?_)
    fun _ => Keeps.pure h.toChains _
  refine Keeps.bind h.toChains (Keeps.modify ?_) fun _ =>
    sendIpv4Packet_keeps h.toSendStable hpoll _ _ _ _ _ _
  intro n
  exact h.buildAck n _ _ _ _ _

theorem PacketStable.steps (h : PacketStable R) (hpoll : Keeps R poll) :
    HandlerSteps R poll where
  toTimeStable := h.toTimeStable
  learnArp := h.learnArp
  dnsReceive := h.dnsReceive
  dhcpReceive := h.dhcpReceive
  sendArpReply := sendArpReply_keeps h.toSendStable
  sendEcho _ _ _ _ _ _ := sendIpv4Packet_keeps h.toSendStable hpoll _ _ _ _ _ _
  sendAck := sendAck_keeps h hpoll

theorem HandlerStable.steps (h : HandlerStable R) (hpoll : Keeps R poll) : FrameSteps R poll where
  toHandlerSteps := h.toPacketStable.steps hpoll
  pingReply := h.pingReply

theorem tcpData_keeps (h : HandlerSteps R poll) (ht : TcpStable R) (fuel : Nat)
    (s : TcpSegment) : Keeps R (tcpData poll fuel s) := by
  refine Keeps.bind h.toChains (Keeps.get h.toChains) fun n => ?_
  refine Keeps.ite ?_ (Keeps.pure h.toChains _)
  exact Keeps.bind h.toChains (Keeps.modify fun n => ht.acceptData n _) fun _ => h.sendAck fuel

theorem tcpFin_keeps (h : HandlerSteps R poll) (ht : TcpStable R) (fuel : Nat)
    (s : TcpSegment) : Keeps R (tcpFin poll fuel s) := by
  refine Keeps.ite ?_ (Keeps.pure h.toChains _)
  exact Keeps.bind h.toChains (Keeps.modify fun n => ht.acceptFin n _) fun _ => h.sendAck fuel

theorem tcpProcess_keeps (h : HandlerSteps R poll) (ht : TcpStable R) (fuel : Nat)
    (s : TcpSegment) : Keeps R (tcpProcess poll fuel s) := by
  refine Keeps.ite ?_ ?_
  · exact Keeps.bind h.toChains (Keeps.modify ht.failed) fun _ => Keeps.pure h.toChains _
  refine Keeps.bind h.toChains (Keeps.get h.toChains) fun n => ?_
  refine Keeps.ite ?_ ?_
  · refine Keeps.bind h.toChains (Keeps.modify fun n => ht.acceptSynAck n _) fun _ => ?_
    exact Keeps.bind h.toChains (h.sendAck fuel) fun _ => Keeps.pure h.toChains _
  refine Keeps.ite (Keeps.pure h.toChains _) ?_
  exact Keeps.bind h.toChains (tcpData_keeps h ht _ _) fun _ => tcpFin_keeps h ht _ _

theorem tcpReceive_keeps (h : HandlerSteps R poll) (ht : TcpStable R) (fuel : Nat)
    (s : TcpSegment) : Keeps R (tcpReceive poll fuel s) := by
  refine Keeps.bind h.toChains (Keeps.get h.toChains) fun n => ?_
  refine Keeps.ite (Keeps.pure h.toChains _) ?_
  refine Keeps.bind h.toChains (pitGetTicks_keeps h.toTimeStable) fun now => ?_
  refine Keeps.bind h.toChains (Keeps.modify fun n => ht.noteSegment n _ _) fun _ => ?_
  refine Keeps.bind h.toChains (tcpProcess_keeps h ht fuel s) fun _ => ?_
  exact Keeps.modify ht.handled

/-- `handle_tcp` preserves the relation, whatever the segment. -/
def TcpKeeps (R : Net → Net → Prop) (poll : NetM Unit) : Prop :=
  ∀ fuel s, Keeps R (tcpReceive poll fuel s)

theorem handleUdp_keeps (h : HandlerSteps R poll) (payload len : Nat) :
    Keeps R (handleUdp payload len) := by
  refine Keeps.bind h.toChains (Keeps.get h.toChains) fun n => ?_
  refine Keeps.ite (Keeps.pure h.toChains _) ?_
  refine Keeps.ite (Keeps.modify fun n => h.dhcpReceive n _ _) ?_
  exact Keeps.ite (Keeps.modify fun n => h.dnsReceive n _ _) (Keeps.pure h.toChains _)

/-- `handle_icmp` preserves what an echo reply that it takes preserves. -/
theorem handleIcmp_keepsAt (h : HandlerSteps R poll) {n : Net} {fuel ip payload len : Nat}
    (hreply : 8 ≤ len → n.drv.rxFrameTmp payload = 0 → n.ping.waiting = true →
      rd16 n.drv.rxFrameTmp (payload + 4) = n.ping.ident →
      rd16 n.drv.rxFrameTmp (payload + 6) = n.ping.seq → ∀ m now, R m (pingReply m now)) :
    KeepsAt R n (handleIcmp poll fuel ip payload len) := by
  refine KeepsAt.get_bind ?_
  refine KeepsAt.ite (fun _ => (Keeps.pure h.toChains _).at n) fun hlong => ?_
  refine KeepsAt.ite (fun htype => KeepsAt.ite ?_ fun _ => (Keeps.pure h.toChains _).at n) ?_
  · intro hmine
    refine (Keeps.bind h.toChains (pitGetTicks_keeps h.toTimeStable) fun now => ?_).at n
    exact Keeps.modify fun m => hreply (Nat.le_of_not_lt hlong) htype.1 htype.2 hmine.1 hmine.2 m now
  · intro _
    refine KeepsAt.ite (fun _ => ?_) fun _ => (Keeps.pure h.toChains _).at n
    exact (Keeps.bind h.toChains (h.sendEcho _ _ _ _ _ (Nat.le_of_not_lt hlong))
      fun _ => Keeps.pure h.toChains _).at n

theorem handleTcp_keeps (h : Chains R) (ht : TcpKeeps R poll) (fuel ip payload len : Nat) :
    Keeps R (handleTcp poll fuel ip payload len) := by
  refine Keeps.bind h (Keeps.get h) fun n => ?_
  exact Keeps.ite (Keeps.pure h _) (ht _ _)

theorem handleArp_keeps (h : HandlerSteps R poll) (payload len : Nat) :
    Keeps R (handleArp payload len) := by
  refine Keeps.bind h.toChains (Keeps.get h.toChains) fun n => ?_
  refine Keeps.ite (Keeps.pure h.toChains _) ?_
  refine Keeps.ite (Keeps.pure h.toChains _) ?_
  refine Keeps.bind h.toChains (Keeps.modify fun n => h.learnArp n _ _) fun _ => ?_
  exact Keeps.ite (h.sendArpReply _ _) (Keeps.pure h.toChains _)

/-- The packet behind the Ethernet header of a frame of `len` bytes passes the checks of
`handle_ipv4`. -/
structure Ipv4At (b : Buf) (len ihl totalLen : Nat) : Prop where
  type : rd16 b 12 = ethTypeIpv4
  version : b 14 >>> 4 = 4
  ihlField : ihl = (b 14 &&& 0x0F).toNat * 4
  header : 20 ≤ ihl
  totalField : totalLen = (rd16 b 16).toNat
  covers : ihl ≤ totalLen
  inside : 14 + totalLen ≤ len

/-- A handler preserves what `handle_icmp` preserves on the packets that reach it. -/
theorem netOnFrame_keepsAt (h : HandlerSteps R poll) (ht : TcpKeeps R poll) {n : Net}
    {fuel len : Nat} (hicmp : ∀ ihl totalLen, Ipv4At n.drv.rxFrameTmp len ihl totalLen →
      n.drv.rxFrameTmp 23 = 1 →
      KeepsAt R n (handleIcmp poll fuel 14 (14 + ihl) (totalLen - ihl))) :
    KeepsAt R n (netOnFrame poll fuel len) := by
  have hskip := (Keeps.pure h.toChains ()).at n
  refine KeepsAt.get_bind ?_
  refine KeepsAt.ite (fun _ => hskip) fun hlen => ?_
  refine KeepsAt.ite (fun _ => (handleArp_keeps h _ _).at n) fun _ => ?_
  refine KeepsAt.ite (fun htype => ?_) fun _ => hskip
  refine KeepsAt.get_bind ?_
  refine KeepsAt.ite (fun _ => hskip) fun hshort => ?_
  refine KeepsAt.ite (fun _ => hskip) fun hversion => ?_
  refine KeepsAt.ite (fun _ => hskip) fun hihl => ?_
  refine KeepsAt.ite (fun _ => hskip) fun htotal => ?_
  refine KeepsAt.ite (fun _ => hskip) fun _ => ?_
  refine KeepsAt.ite (fun hproto => ?_) fun _ => ?_
  · rw [not_or] at hihl htotal
    refine hicmp _ _ ⟨htype, not_not.mp hversion, rfl, ?_, rfl, ?_, ?_⟩ hproto <;> omega
  · refine KeepsAt.ite (fun _ => (handleUdp_keeps h _ _).at n) fun _ => ?_
    exact KeepsAt.ite (fun _ => (handleTcp_keeps h.toChains ht _ _ _ _).at n) fun _ => hskip

theorem netOnFrame_keeps (h : FrameSteps R poll) (ht : TcpKeeps R poll) (fuel len : Nat) :
    Keeps R (netOnFrame poll fuel len) := by
  refine KeepsAt.all fun n => netOnFrame_keepsAt h.toHandlerSteps ht ?_
  intro ihl totalLen _ _
  exact handleIcmp_keepsAt h.toHandlerSteps fun _ _ _ _ _ => h.pingReply

end Handlers

section Poll

variable {R : Net → Net → Prop} {onFrame : Nat → NetM Unit}

/-- A frame from its copy until its handler has returned. -/
def frameTurn (onFrame : Nat → NetM Unit) (len : Nat) : NetM Unit := do
  modify fun n => enterFrame n len
  onFrame len
  modify fun n => leaveFrame n len

theorem frameTurn_run {n m : Net} {u : Unit} {len : Nat}
    (h : onFrame len (enterFrame n len) = some (u, m)) :
    frameTurn onFrame len n = some ((), leaveFrame m len) := by
  change (onFrame len >>= fun _ => modify fun n => leaveFrame n len) (enterFrame n len) = _
  rw [bind_run h]
  rfl

theorem rxLoop_turns (h : DriverStable R) (hturn : ∀ len, Keeps R (frameTurn onFrame len))
    (fuel : Nat) : Keeps R (rxLoop onFrame fuel) := by
  induction fuel with
  | zero => exact Keeps.none
  | succ fuel ih =>
    refine Keeps.bind h.toChains (Keeps.modify h.access) fun _ => ?_
    refine Keeps.bind h.toChains (Keeps.get h.toChains) fun n => ?_
    refine Keeps.ite (Keeps.pure h.toChains _) ?_
    refine Keeps.ite ?_ ?_
    · exact Keeps.bind h.toChains (Keeps.modify fun n => h.clearIsr n _) fun _ =>
        Keeps.pure h.toChains _
    intro s a s' hrun
    obtain ⟨u, m, hframe, hrest⟩ := bind_inv (modify_bind_inv hrun)
    refine h.trans s _ s' (hturn _ s () _ (frameTurn_run hframe)) ?_
    exact Keeps.bind h.toChains (Keeps.modify fun n => h.advanceRx n _) (fun _ => ih) _ _ _
      (modify_bind_inv hrest)

theorem rtl8139Poll_turns (h : DriverStable R) (hturn : ∀ len, Keeps R (frameTurn onFrame len))
    (fuel : Nat) : Keeps R (rtl8139Poll onFrame fuel) := by
  refine Keeps.bind h.toChains (Keeps.get h.toChains) fun n => ?_
  refine Keeps.ite (Keeps.pure h.toChains _) ?_
  refine Keeps.bind h.toChains (Keeps.modify h.access) fun _ => ?_
  refine Keeps.bind h.toChains (Keeps.get h.toChains) fun n => ?_
  refine Keeps.ite (Keeps.pure h.toChains _) ?_
  refine Keeps.bind h.toChains (Keeps.modify h.access) fun _ => ?_
  refine Keeps.bind h.toChains (Keeps.modify fun n => h.polled n _) fun _ => ?_
  exact rxLoop_turns h hturn fuel

/-- The receive path preserves what its steps and the turn of every frame preserve. -/
theorem netPoll_turns (h : DriverStable R) (hturn : ∀ fuel, Keeps R (netPoll fuel) →
      ∀ len, Keeps R (frameTurn (netOnFrame (netPoll fuel) fuel) len)) (fuel : Nat) :
    Keeps R (netPoll fuel) := by
  induction fuel with
  | zero => exact Keeps.none
  | succ fuel ih =>
    refine Keeps.bind h.toChains (Keeps.get h.toChains) fun n => ?_
    refine Keeps.ite (Keeps.pure h.toChains _) ?_
    exact rtl8139Poll_turns h (hturn _ ih) fuel

theorem PollStable.driver (hp : PollStable R) (h : TimeStable R) : DriverStable R where
  toTimeStable := h
  clearIsr := hp.clearIsr
  polled := hp.polled
  advanceRx := hp.advanceRx

theorem PollStable.turn (hp : PollStable R) (h : Chains R) (hf : ∀ len, Keeps R (onFrame len))
    (len : Nat) : Keeps R (frameTurn onFrame len) := by
  refine Keeps.bind h (Keeps.modify fun n => hp.enterFrame n len) fun _ => ?_
  exact Keeps.bind h (hf len) fun _ => Keeps.modify fun n => hp.leaveFrame n len

theorem rxLoop_keeps (h : SendStable R) (hp : PollStable R) (hf : ∀ len, Keeps R (onFrame len))
    (fuel : Nat) : Keeps R (rxLoop onFrame fuel) :=
  rxLoop_turns (hp.driver h.toTimeStable) (hp.turn h.toChains hf) fuel

theorem rtl8139Poll_keeps (h : SendStable R) (hp : PollStable R)
    (hf : ∀ len, Keeps R (onFrame len)) (fuel : Nat) : Keeps R (rtl8139Poll onFrame fuel) :=
  rtl8139Poll_turns (hp.driver h.toTimeStable) (hp.turn h.toChains hf) fuel

/-- The whole receive path preserves what its steps and `handle_tcp` preserve. -/
theorem netPoll_keeps (h : HandlerStable R) (hp : PollStable R)
    (ht : ∀ poll, Keeps R poll → TcpKeeps R poll) (fuel : Nat) : Keeps R (netPoll fuel) := by
  refine netPoll_turns (hp.driver h.toTimeStable) ?_ fuel
  intro fuel hpoll len
  exact hp.turn h.toChains (netOnFrame_keeps (h.steps hpoll) (ht _ hpoll) fuel) len

theorem pollUntil_keeps (h : TimeStable R) {poll : NetM Unit} (hpoll : Keeps R poll)
    (done : Net → Bool) (start timeout : UInt32) (fuel : Nat) :
    Keeps R (pollUntil poll done start timeout fuel) := by
  induction fuel with
  | zero => exact Keeps.none
  | succ fuel ih =>
    refine Keeps.bind h.toChains (pitGetTicks_keeps h) fun now => ?_
    refine Keeps.ite ?_ (Keeps.pure h.toChains _)
    refine Keeps.bind h.toChains hpoll fun _ => ?_
    refine Keeps.bind h.toChains (Keeps.get h.toChains) fun n => ?_
    exact Keeps.ite (Keeps.pure h.toChains _) ih

end Poll

/-- What the steps of the client preserve, a new session apart. -/
structure ClientStable (R : Net → Net → Prop) : Prop extends HandlerStable R where
  poll : ∀ fuel, Keeps R (netPoll fuel)
  buildUdp : ∀ n srcPort dstPort payload, R n (buildUdp n srcPort dstPort payload)
  buildTcp : ∀ n dstIp srcPort dstPort seq ack flags payload,
    R n (buildTcp n dstIp srcPort dstPort seq ack flags payload)
  dnsStart : ∀ n now, R n (dnsStart n now)
  stopDns : ∀ n, R n (stopDns n)
  /-- The client's own sequence number and the time of the SYN. -/
  tcpLocal : ∀ n seqLocal ticks,
    R n { n with tcp := { n.tcp with seqLocal := seqLocal, connectSentTicks := ticks } }

/-- What the client preserves, with its sends as wholes. -/
structure ClientSteps (R : Net → Net → Prop) : Prop extends TimeStable R where
  poll : ∀ fuel, Keeps R (netPoll fuel)
  sendUdp : ∀ pollFuel fuel dstIp srcPort dstPort payload ident,
    Keeps R (sendUdpPacket (netPoll pollFuel) fuel dstIp srcPort dstPort payload ident)
  sendTcp : ∀ pollFuel fuel dstIp srcPort dstPort seq ack flags payload ident, Keeps R
    (sendTcpPacket (netPoll pollFuel) fuel dstIp srcPort dstPort seq ack flags payload ident)
  dnsStart : ∀ n now, R n (dnsStart n now)
  stopDns : ∀ n, R n (stopDns n)
  tcpLocal : ∀ n seqLocal ticks,
    R n { n with tcp := { n.tcp with seqLocal := seqLocal, connectSentTicks := ticks } }

section Client

variable {R : Net → Net → Prop}

theorem sendUdpPacket_keeps (h : ClientStable R) (pollFuel fuel : Nat) (dstIp : UInt32)
    (srcPort dstPort : UInt16) (payload : List UInt8) (ident : UInt16) :
    Keeps R (sendUdpPacket (netPoll pollFuel) fuel dstIp srcPort dstPort payload ident) := by
  refine Keeps.ite (Keeps.pure h.toChains _) ?_
  refine Keeps.bind h.toChains (Keeps.modify ?_) fun _ =>
    sendIpv4Packet_keeps h.toSendStable (h.poll _) _ _ _ _ _ _
  intro n
  exact h.buildUdp n _ _ _

theorem sendTcpPacket_keeps (h : ClientStable R) (pollFuel fuel : Nat) (dstIp : UInt32)
    (srcPort dstPort : UInt16) (seq ack : UInt32) (flags : UInt8) (payload : List UInt8)
    (ident : UInt16) : Keeps R
      (sendTcpPacket (netPoll pollFuel) fuel dstIp srcPort dstPort seq ack flags payload ident) := by
  refine Keeps.ite (Keeps.pure h.toChains _) ?_
  refine Keeps.bind h.toChains (Keeps.modify ?_) fun _ =>
    sendIpv4Packet_keeps h.toSendStable (h.poll _) _ _ _ _ _ _
  intro n
  exact h.buildTcp n _ _ _ _ _ _ _

theorem ClientStable.steps (h : ClientStable R) : ClientSteps R where
  toTimeStable := h.toTimeStable
  poll := h.poll
  sendUdp := sendUdpPacket_keeps h
  sendTcp := sendTcpPacket_keeps h
  dnsStart := h.dnsStart
  stopDns := h.stopDns
  tcpLocal := h.tcpLocal

theorem sendOnTcp_keeps (h : ClientSteps R) (fuel : Nat) (back ack : UInt32) (flags : UInt8)
    (payload : List UInt8) : Keeps R (sendOnTcp fuel back ack flags payload) := by
  refine Keeps.bind h.toChains (Keeps.get h.toChains) fun n => ?_
  exact h.sendTcp _ _ _ _ _ _ _ _ _ _

theorem connectLoop_keeps (h : ClientSteps R) (pollFuel : Nat) (start timeout : UInt32)
    (fuel retries : Nat) : Keeps R (connectLoop pollFuel start timeout fuel retries) := by
  induction fuel generalizing retries with
  | zero => exact Keeps.none
  | succ fuel ih =>
    refine Keeps.bind h.toChains (pitGetTicks_keeps h.toTimeStable) fun now => ?_
    refine Keeps.ite ?_ (Keeps.pure h.toChains _)
    refine Keeps.bind h.toChains (h.poll _) fun _ => ?_
    refine Keeps.bind h.toChains (Keeps.get h.toChains) fun n => ?_
    refine Keeps.ite (Keeps.pure h.toChains _) ?_
    refine Keeps.ite (Keeps.pure h.toChains _) ?_
    refine Keeps.bind h.toChains (pitGetTicks_keeps h.toTimeStable) fun later => ?_
    refine Keeps.ite ?_ (ih _)
    refine Keeps.bind h.toChains (sendOnTcp_keeps h _ _ _ _ _) fun sent => ?_
    refine Keeps.ite ?_ (ih _)
    refine Keeps.bind h.toChains (Keeps.modify ?_) fun _ => ih _
    intro n
    exact h.tcpLocal n n.tcp.seqLocal _

theorem netResolveIpv4_keeps (h : ClientSteps R) (fuel : Nat) (host : List UInt8)
    (timeoutMs : UInt32) : Keeps R (netResolveIpv4 fuel host timeoutMs) := by
  have hfail : Keeps R (do modify stopDns; return none : NetM (Option UInt32)) :=
    Keeps.bind h.toChains (Keeps.modify h.stopDns) fun _ => Keeps.pure h.toChains _
  refine Keeps.bind h.toChains (Keeps.get h.toChains) fun n => ?_
  refine Keeps.ite (Keeps.pure h.toChains _) ?_
  cases netParseIpv4 host with
  | some ip => exact Keeps.pure h.toChains _
  | none =>
    refine Keeps.bind h.toChains (pitGetTicks_keeps h.toTimeStable) fun now => ?_
    refine Keeps.bind h.toChains (Keeps.modify fun n => h.dnsStart n _) fun _ => ?_
    refine Keeps.bind h.toChains (Keeps.get h.toChains) fun n => ?_
    cases dnsEncodeName host 500 with
    | none => exact hfail
    | some name =>
      refine Keeps.ite hfail ?_
      refine Keeps.bind h.toChains (h.sendUdp _ _ _ _ _ _ _) fun sent => ?_
      refine Keeps.ite hfail ?_
      refine Keeps.bind h.toChains (pitGetTicks_keeps h.toTimeStable) fun start => ?_
      refine Keeps.bind h.toChains (Keeps.get h.toChains) fun n => ?_
      refine Keeps.bind h.toChains (pollUntil_keeps h.toTimeStable (h.poll _) _ _ _ _) fun _ => ?_
      refine Keeps.bind h.toChains (Keeps.get h.toChains) fun n => ?_
      exact Keeps.ite (Keeps.pure h.toChains _) (Keeps.pure h.toChains _)

end Client

end VertexOS
