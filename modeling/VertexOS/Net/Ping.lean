import VertexOS.Net.EmittedRuns
import VertexOS.Net.RxRing

namespace VertexOS
open Library.Programs

/-- An ICMP echo reply in an IPv4 packet. -/
structure EchoReply (frame : List UInt8) (ident seq : UInt16) : Prop where
  ipv4 : isIpv4 frame
  proto : protoOf frame = 1
  long : 8 ≤ dataLen frame
  type : bufOf (dataOf frame) 0 = 0
  ident : rd16 (bufOf (dataOf frame)) 4 = ident
  seq : rd16 (bufOf (dataOf frame)) 6 = seq

/-- The source address of a frame's packet. -/
def sourceOf (frame : List UInt8) : UInt32 := rd32 (bufOf (packetOf frame)) 12

section Frames

variable {b : Buf} {len ihl totalLen : Nat} {ident seq : UInt16}

theorem bufOf_drop (l : List UInt8) (k i : Nat) : bufOf (l.drop k) i = bufOf l (k + i) := by
  simp [bufOf]

theorem bufOf_bytesAt {i : Nat} (h : i < len) : bufOf (bytesAt b 0 len) i = b i := by
  simp [bufOf, bytesAt, h]

/-- What `handle_icmp` takes for an echo reply is one. -/
theorem Ipv4At.echoReply (h : Ipv4At b len ihl totalLen) (hproto : b 23 = 1)
    (hlong : 8 ≤ totalLen - ihl) (htype : b (14 + ihl) = 0)
    (hident : rd16 b (14 + ihl + 4) = ident) (hseq : rd16 b (14 + ihl + 6) = seq) :
    EchoReply (bytesAt b 0 len) ident seq := by
  obtain ⟨hethertype, -, hihl, hheader, htotal, hcovers, hinside⟩ := h
  have hhead : headerLen (bytesAt b 0 len) = ihl := by
    rw [headerLen, packetOf, bufOf_drop, bufOf_bytesAt (by omega), hihl]
  have hword : ∀ off i, off + i + 1 < len →
      rd16 (bufOf ((bytesAt b 0 len).drop off)) i = rd16 b (off + i) := by
    intro off i hi
    simp only [rd16, bufOf_drop]
    rw [bufOf_bytesAt (by omega), bufOf_bytesAt (by omega)]
    rfl
  have hdata : dataOf (bytesAt b 0 len) = (bytesAt b 0 len).drop (14 + ihl) := by
    rw [dataOf, packetOf, hhead, List.drop_drop]
  refine ⟨?_, ?_, ?_, ?_, ?_, ?_⟩
  · rw [isIpv4, hword 12 0 (by omega)]
    exact hethertype
  · rw [protoOf, packetOf, bufOf_drop, bufOf_bytesAt (by omega)]
    exact hproto
  · rw [dataLen, hhead, packetOf, hword 14 2 (by omega), ← htotal]
    exact hlong
  · rw [hdata, bufOf_drop, bufOf_bytesAt (by omega)]
    exact htype
  · rw [hdata, hword _ 4 (by omega)]
    exact hident
  · rw [hdata, hword _ 6 (by omega)]
    exact hseq

end Frames

/-- The call's echo request stays what it is, and if it was answered then by an echo reply that
was handled, or `taken` holds. -/
structure Answers (taken : Prop) (n n' : Net) (u : List NetEvent) : Prop where
  trace : n'.trace = n.trace ++ u
  ident : n'.ping.ident = n.ping.ident
  seq : n'.ping.seq = n.ping.seq
  answered : n'.ping.gotReply = true → n.ping.gotReply = true ∨ taken ∨
    ∃ f ∈ dispatchedFrames u, EchoReply f n.ping.ident n.ping.seq

/-- What the network stack does to an echo request that is waited for. -/
def Awaits (taken : Prop) (n n' : Net) : Prop := ∃ u, Answers taken n n' u

section Steps

variable {taken : Prop} {n n' m : Net} {e : NetEvent}

theorem Awaits.same (ht : n'.trace = n.trace) (hp : n'.ping = n.ping) : Awaits taken n n' := by
  refine ⟨[], by simp [ht], by rw [hp], by rw [hp], ?_⟩
  rw [hp]
  exact .inl

theorem Awaits.event (ht : n'.trace = n.trace ++ [e]) (hp : n'.ping = n.ping) : Awaits taken n n' := by
  refine ⟨[e], ht, by rw [hp], by rw [hp], ?_⟩
  rw [hp]
  exact .inl

theorem awaits_chains : Chains (Awaits taken) := by
  constructor
  · intro n
    exact .same rfl rfl
  · intro n1 n2 n3 h h'
    obtain ⟨u, hu⟩ := h
    obtain ⟨w, hw⟩ := h'
    refine ⟨u ++ w, ?_, hw.ident.trans hu.ident, hw.seq.trans hu.seq, ?_⟩
    · rw [hw.trace, hu.trace, List.append_assoc]
    · intro hgot
      have happend := dispatchedFrames_append u w
      rcases hw.answered hgot with hgot | htaken | ⟨f, hf, hreply⟩
      · rcases hu.answered hgot with hgot | htaken | ⟨f, hf, hreply⟩
        · exact .inl hgot
        · exact .inr (.inl htaken)
        · exact .inr (.inr ⟨f, happend ▸ List.mem_append_left _ hf, hreply⟩)
      · exact .inr (.inl htaken)
      · rw [hu.ident, hu.seq] at hreply
        exact .inr (.inr ⟨f, happend ▸ List.mem_append_right _ hf, hreply⟩)

theorem hwEvent_awaits (n : Net) (e : HwEvent) : Awaits taken n (hwEvent n e) := by
  cases e with
  | tick => exact .same rfl rfl
  | txDone i => exact .same rfl rfl
  | arrive p =>
    simp only [hwEvent, receiveFrame]
    split
    · exact .event rfl rfl
    · exact .same rfl rfl

theorem dnsReceive_awaits (n : Net) (payload len : Nat) : Awaits taken n (dnsReceive n payload len) := by
  simp only [dnsReceive]
  repeat' split
  all_goals exact .same rfl rfl

theorem dhcpReceive_awaits (n : Net) (payload len : Nat) :
    Awaits taken n (dhcpReceive n payload len) := by
  rcases dhcpReceive_cases n payload len with he | ⟨m, -, he⟩
  · rw [he]
    exact awaits_chains.refl n
  have hstore : Awaits taken n (storeDhcp n m) := .event rfl rfl
  rcases acceptDhcp_cases n m with ⟨-, -, hm⟩ | ⟨-, -, hm⟩ | ⟨-, hm⟩
  · rw [he, hm]
    exact .event rfl rfl
  · rw [he, hm]
    exact awaits_chains.trans _ _ _ hstore (.event rfl rfl)
  · rw [he, hm]
    exact hstore

theorem awaits_packets : PacketStable (Awaits taken) where
  toChains := awaits_chains
  access := access_of_hwEvent awaits_chains hwEvent_awaits fun _ _ => .same rfl rfl
  startTx _ _ := .event rfl rfl
  buildFrame _ _ _ _ _ := .same rfl rfl
  buildIpv4 _ _ _ _ _ _ := .same rfl rfl
  learnArp _ _ _ := .same rfl rfl
  dnsReceive := dnsReceive_awaits
  dhcpReceive := dhcpReceive_awaits
  buildAck _ _ _ _ _ _ := .event rfl rfl

theorem awaits_driver : DriverStable (Awaits taken) where
  toTimeStable := awaits_packets.toTimeStable
  clearIsr _ _ := .same rfl rfl
  polled _ _ := .event rfl rfl
  advanceRx _ _ := .same rfl rfl

theorem awaits_tcp : TcpStable (Awaits taken) where
  noteSegment _ _ _ := .event rfl rfl
  failed _ := .same rfl rfl
  acceptSynAck _ _ := .event rfl rfl
  acceptData _ _ := .event rfl rfl
  acceptFin _ _ := .event rfl rfl
  handled _ := .event rfl rfl

theorem awaits_reply (htaken : taken) (n : Net) (now : UInt32) :
    Awaits taken n (pingReply n now) :=
  ⟨[], by simp [pingReply], rfl, rfl, fun _ => .inr (.inl htaken)⟩

theorem Awaits.mono {t : Prop} (h : taken → t) (ha : Awaits taken n n') : Awaits t n n' := by
  obtain ⟨u, hu⟩ := ha
  exact ⟨u, hu.trace, hu.ident, hu.seq, fun hgot => (hu.answered hgot).imp_right (Or.imp_left h)⟩

/-- A handler takes its own frame for the answer at most. -/
theorem netOnFrame_awaits {fuel len : Nat} (hpoll : Keeps (Awaits False) (netPoll fuel)) :
    KeepsAt (Awaits (EchoReply (bytesAt n.drv.rxFrameTmp 0 len) n.ping.ident n.ping.seq)) n
      (netOnFrame (netPoll fuel) fuel len) := by
  have hsteps := awaits_packets.steps (hpoll.mono fun _ _ => Awaits.mono
    (t := EchoReply (bytesAt n.drv.rxFrameTmp 0 len) n.ping.ident n.ping.seq) False.elim)
  refine netOnFrame_keepsAt hsteps (tcpReceive_keeps hsteps awaits_tcp) ?_
  intro ihl totalLen hat hproto
  refine handleIcmp_keepsAt hsteps ?_
  intro hlong htype _ hident hseq
  exact awaits_reply (hat.echoReply hproto hlong htype hident hseq)

theorem netPoll_awaits (fuel : Nat) : Keeps (Awaits False) (netPoll fuel) := by
  refine netPoll_turns awaits_driver ?_ fuel
  intro fuel hpoll len n a n' h
  obtain ⟨u, m, hframe, hleave⟩ := bind_inv (modify_bind_inv h)
  obtain rfl := modify_inv hleave
  obtain ⟨w, htrace, hident, hseq, hanswered⟩ := netOnFrame_awaits hpoll _ _ hframe
  have hturn : (leaveFrame m len).trace = n.trace ++
      .dispatched (bytesAt (enterFrame n len).drv.rxFrameTmp 0 len) ::
        (w ++ [.returned (bytesAt m.drv.rxFrameTmp 0 len)]) := by
    simp [leaveFrame, Net.log, htrace, enterFrame]
  refine ⟨_, hturn, hident, hseq, ?_⟩
  intro hgot
  rcases hanswered hgot with hgot | htaken | ⟨f, hf, hreply⟩
  · exact .inl hgot
  · exact .inr (.inr ⟨_, by simp [dispatchedFrames], htaken⟩)
  · refine .inr (.inr ⟨f, ?_, hreply⟩)
    simp only [dispatchedFrames, List.filterMap_cons, List.filterMap_append, List.mem_cons,
      List.mem_append]
    exact .inr (.inl hf)

end Steps

section Call

variable {n n' : Net} {fuel : Nat} {targetIp timeoutMs rtt : UInt32} {u : List NetEvent}

theorem pollUntil_done {poll : NetM Unit} {done : Net → Bool} {start timeout : UInt32}
    (h : pollUntil poll done start timeout fuel n = some (true, n')) : done n' = true := by
  induction fuel generalizing n with
  | zero => cases h
  | succ fuel ih =>
    obtain ⟨now, m, -, h⟩ := bind_inv h
    split at h
    · obtain ⟨u, m', -, h⟩ := bind_inv h
      replace h := get_bind_inv h
      split at h
      · next hdone =>
        obtain ⟨-, rfl⟩ := pure_inv h
        exact hdone
      · exact ih h
    · cases (pure_inv h).1

theorem pingSent_awaits (n : Net) (ticks : UInt32) :
    Awaits False n { n with ping := { n.ping with sentTicks := ticks } } :=
  ⟨[], by simp, rfl, rfl, .inl⟩

/-- `net_ping` from its new request on. -/
theorem netPing_some (h : netPing fuel targetIp timeoutMs n = some (some rtt, n')) :
    Awaits False (pingStart (access n) targetIp (access n).ticks) n' ∧ n'.ping.gotReply = true := by
  have htime : TimeStable (Awaits False) := awaits_packets.toTimeStable
  have hpoll := netPoll_awaits fuel
  replace h := get_bind_inv h
  split at h
  · cases (pure_inv h).1
  obtain ⟨now, n1, hnow, h⟩ := bind_inv h
  obtain ⟨rfl, rfl⟩ : now = (access n).ticks ∧ n1 = access n := by
    cases hnow
    exact ⟨rfl, rfl⟩
  replace h := modify_bind_inv h
  generalize pingStart (access n) targetIp (access n).ticks = n2 at *
  obtain ⟨sentAt, n3, hsentAt, h⟩ := bind_inv h
  replace h := get_bind_inv (modify_bind_inv h)
  obtain ⟨sent, n5, hsend, h⟩ := bind_inv h
  have h5 : Awaits False n2 n5 := by
    apply awaits_chains.trans _ _ _ (pitGetTicks_keeps htime _ _ _ hsentAt)
    apply awaits_chains.trans _ _ _ (pingSent_awaits n3 sentAt)
    exact sendIpv4Packet_keeps awaits_packets.toSendStable hpoll _ _ _ _ _ _ _ _ _ hsend
  split at h
  · replace h := modify_bind_inv h
    cases (pure_inv h).1
  obtain ⟨start, n6, hstart, h⟩ := bind_inv h
  replace h := get_bind_inv h
  obtain ⟨got, n7, hwait, h⟩ := bind_inv h
  have h7 : Awaits False n2 n7 := by
    apply awaits_chains.trans _ _ _ h5
    apply awaits_chains.trans _ _ _ (pitGetTicks_keeps htime _ _ _ hstart)
    exact pollUntil_keeps htime hpoll _ _ _ _ _ _ _ hwait
  split at h
  · next hgot =>
    subst hgot
    replace h := get_bind_inv h
    obtain ⟨-, rfl⟩ := pure_inv h
    exact ⟨h7, pollUntil_done hwait⟩
  · replace h := modify_bind_inv h
    cases (pure_inv h).1

/-- A successful ping was answered. -/
theorem netPing_answered (h : netPing fuel targetIp timeoutMs n = some (some rtt, n'))
    (htrace : n'.trace = n.trace ++ u) : ∃ f ∈ dispatchedFrames u,
      EchoReply f (access n).ticks.toUInt16 (n.ping.seq + 1) := by
  obtain ⟨⟨w, hw⟩, hgot⟩ := netPing_some h
  obtain ⟨v, hv⟩ : Awaits False n (access n) := awaits_packets.access n
  have hall : u = v ++ w := by
    have hstart : (pingStart (access n) targetIp (access n).ticks).trace = (access n).trace := rfl
    rw [hw.trace, hstart, hv.trace, List.append_assoc] at htrace
    exact (List.append_cancel_left htrace).symm
  rcases hw.answered hgot with hold | hnone | ⟨f, hf, hreply⟩
  · cases hold
  · exact hnone.elim
  · refine ⟨f, ?_, ?_⟩
    · rw [hall, dispatchedFrames_append]
      exact List.mem_append_right _ hf
    · have hseq : (access n).ping.seq = n.ping.seq := hv.seq
      rw [← hseq]
      exact hreply

/-- A successful ping was answered by its target if no other host's echo reply to it was
handled. -/
theorem ping_answered (h : netPing fuel targetIp timeoutMs n = some (some rtt, n'))
    (htrace : n'.trace = n.trace ++ u)
    (hothers : ∀ f ∈ dispatchedFrames u,
      EchoReply f (access n).ticks.toUInt16 (n.ping.seq + 1) → sourceOf f = targetIp) :
    ∃ f ∈ dispatchedFrames u, EchoReply f (access n).ticks.toUInt16 (n.ping.seq + 1) ∧
      sourceOf f = targetIp := by
  obtain ⟨f, hf, hreply⟩ := netPing_answered h htrace
  exact ⟨f, hf, hreply, hothers f hf hreply⟩

/-- The frame of an echo reply. -/
def replyFrame (source : UInt32) : List UInt8 :=
  etherFrame broadcastMac broadcastMac ethTypeIpv4
    (ipv4Header 28 0 0 1 source 0x0A000001 ++ [0, 0, 0, 0, 0, 0, 0, 1])

/-- A host that pings its neighbour 10.0.0.2; the reply is of the given host. -/
def pingNet (source : UInt32) : Net :=
  { cfg := { mac := broadcastMac, ip := 0x0A000001, linkUp := true }
    arp := ⟨true, 0x0A000002, broadcastMac⟩
    drv := { up := true }
    env := fun i => if i = 2 then [.arrive (arrivingFrame ethTypeIpv4
      (ipv4Header 28 0 0 1 source 0x0A000001 ++ [0, 0, 0, 0, 0, 0, 0, 1])
      (by simp [etherFrame, ipv4Header, broadcastMac, be16, be32]))] else [] }

theorem pingNet_reply (source : UInt32) (frames : List (List UInt8))
    (h : (netPing 3 0x0A000002 1000 (pingNet source)).map
      (fun r => (r.1, dispatchedFrames r.2.trace)) = some (some 0, frames)) :
    ∃ n', netPing 3 0x0A000002 1000 (pingNet source) = some (some 0, n') ∧
      dispatchedFrames n'.trace = frames := by
  obtain ⟨⟨r, n'⟩, hrun, heq⟩ := Option.map_eq_some_iff.mp h
  obtain ⟨rfl, hframes⟩ := Prod.mk.inj heq
  exact ⟨n', hrun, hframes⟩

/-- The target's reply. -/
theorem ping_answered_target : ∃ n', netPing 3 0x0A000002 1000 (pingNet 0x0A000002) =
      some (some 0, n') ∧ ∃ f ∈ dispatchedFrames n'.trace,
        EchoReply f 0 1 ∧ sourceOf f = 0x0A000002 := by
  obtain ⟨n', hrun, hframes⟩ := pingNet_reply 0x0A000002 [replyFrame 0x0A000002] (by decide +kernel)
  refine ⟨n', hrun, ?_⟩
  refine ping_answered hrun (List.nil_append _).symm ?_
  intro f hf _
  rw [hframes, List.mem_singleton] at hf
  rw [hf]
  decide +kernel

/-- The reply of another host is taken for the target's. -/
theorem ping_answered_stranger : ∃ n', netPing 3 0x0A000002 1000 (pingNet 0x0A000009) =
      some (some 0, n') ∧ ¬∃ f ∈ dispatchedFrames n'.trace,
        EchoReply f 0 1 ∧ sourceOf f = 0x0A000002 := by
  obtain ⟨n', hrun, hframes⟩ := pingNet_reply 0x0A000009 [replyFrame 0x0A000009] (by decide +kernel)
  refine ⟨n', hrun, ?_⟩
  rintro ⟨f, hf, -, hsource⟩
  rw [hframes, List.mem_singleton] at hf
  rw [hf] at hsource
  exact absurd hsource (by decide +kernel)

end Call

end VertexOS
