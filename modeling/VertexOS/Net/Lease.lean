import VertexOS.Library.Histories
import VertexOS.Net.Wire

namespace VertexOS
open Library.Programs

section Messages

variable {n n' : Net} {o : Buf}

/-- The options of a message overwrite what was stored before. -/
def DhcpState.store (d : DhcpState) (o : DhcpOptions) : DhcpState :=
  { d with
    subnet := o.subnet.getD d.subnet
    router := o.router.getD d.router
    dns := o.dns.getD d.dns
    serverIp := o.serverIp.getD d.serverIp }

/-- The loop over the options, through a view of its state. -/
theorem optionLoop_view {σ τ : Type} (view : σ → τ) (f : σ → UInt8 → Nat → Nat → σ)
    (g : τ → UInt8 → Nat → Nat → τ) (h : ∀ s c l i, g (view s) c l i = view (f s c l i))
    (fuel i : Nat) (s : σ) : optionLoop o g fuel i (view s) = view (optionLoop o f fuel i s) := by
  induction fuel generalizing i s with
  | zero => rfl
  | succ fuel ih =>
    simp only [optionLoop, h, ih]
    split
    · split
      · rfl
      · split
        · rfl
        · split <;> rfl
    · rfl

theorem storeOption_view (d : DhcpState) (s : DhcpOptions) (code : UInt8) (optLen i : Nat) :
    storeOption o (s.msgType, d.store s) code optLen i =
      ((readOption o s code optLen i).msgType, d.store (readOption o s code optLen i)) := by
  simp only [storeOption, readOption]
  split
  · rfl
  split
  · rfl
  split
  · rfl
  split
  · rfl
  split
  · rfl
  · rfl

theorem optionLoop_store (o : Buf) (d : DhcpState) :
    optionLoop o (storeOption o) dhcpOptionsSize 0 (0, d) =
      ((optionLoop o (readOption o) dhcpOptionsSize 0 {}).msgType,
        d.store (optionLoop o (readOption o) dhcpOptionsSize 0 {})) :=
  optionLoop_view (fun s : DhcpOptions => (s.msgType, d.store s)) (readOption o) (storeOption o)
    (storeOption_view d) dhcpOptionsSize 0 {}

/-- `handle_dhcp` on a message that passed its checks. -/
def acceptDhcp (n : Net) (m : DhcpMessage) : Net :=
  dhcpTransition (({ n with dhcp := n.dhcp.store m.options }).log (.dhcp m)) m.options.msgType
    m.yiaddr

/-- The checks of `handle_dhcp`. -/
structure DhcpMessage.Matches (m : DhcpMessage) (xid : UInt32) (mac : Mac) : Prop where
  xid : m.xid = xid
  chaddr : m.chaddr = mac.bytes
  cookie : m.cookie = 0x63825363

theorem dhcpReceive_cases (n : Net) (payload len : Nat) : dhcpReceive n payload len = n ∨
    ∃ m : DhcpMessage, m.Matches n.dhcp.xid n.cfg.mac ∧
      dhcpReceive n payload len = acceptDhcp n m := by
  simp only [dhcpReceive]
  split
  · exact .inl rfl
  split
  · exact .inl rfl
  next hxid =>
  split
  · exact .inl rfl
  next hmac =>
  split
  · exact .inl rfl
  next hcookie =>
  refine .inr ⟨dhcpMessageAt n.drv.rxFrameTmp payload,
    ⟨not_not.mp hxid, not_not.mp hmac, not_not.mp hcookie⟩, ?_⟩
  rw [optionLoop_store]
  rfl

end Messages

section History

/-- The events of the DHCP client. -/
def NetEvent.ofDhcp : NetEvent → Bool
  | .sent _ | .dhcp _ | .leased _ | .requested => true
  | _ => false

def Net.dhcpHistory (n : Net) : List NetEvent := n.trace.filter NetEvent.ofDhcp

theorem dhcpHistory_log (n : Net) (e : NetEvent) : (n.log e).dhcpHistory =
    if e.ofDhcp then n.dhcpHistory ++ [e] else n.dhcpHistory := by
  simp only [Net.dhcpHistory, Net.log, List.filter_append, List.filter_singleton]
  cases e.ofDhcp <;> simp

/-- Neither the configuration nor the DHCP state has changed. -/
structure SameDhcp (n n' : Net) : Prop where
  cfg : n'.cfg = n.cfg
  dhcp : n'.dhcp = n.dhcp
  history : n'.dhcpHistory = n.dhcpHistory

theorem sameDhcp_chains : Chains SameDhcp := by
  constructor
  · intro n
    exact ⟨rfl, rfl, rfl⟩
  · intro n1 n2 n3 h h'
    exact ⟨h'.cfg.trans h.cfg, h'.dhcp.trans h.dhcp, h'.history.trans h.history⟩

theorem SameDhcp.log {n n' : Net} {e : NetEvent} (h : SameDhcp n n') (he : e.ofDhcp = false) :
    SameDhcp n (n'.log e) := by
  refine ⟨h.cfg, h.dhcp, ?_⟩
  rw [dhcpHistory_log, he, if_neg Bool.false_ne_true]
  exact h.history

theorem hwEvent_sameDhcp (n : Net) (e : HwEvent) : SameDhcp n (hwEvent n e) := by
  cases e with
  | tick => exact ⟨rfl, rfl, rfl⟩
  | txDone i => exact ⟨rfl, rfl, rfl⟩
  | arrive p =>
    simp only [hwEvent, receiveFrame]
    split
    · exact SameDhcp.log ⟨rfl, rfl, rfl⟩ rfl
    · exact ⟨rfl, rfl, rfl⟩

theorem access_sameDhcp (n : Net) : SameDhcp n (access n) :=
  access_of_hwEvent sameDhcp_chains hwEvent_sameDhcp (fun _ _ => ⟨rfl, rfl, rfl⟩) n

theorem dnsReceive_sameDhcp (n : Net) (payload len : Nat) :
    SameDhcp n (dnsReceive n payload len) := by
  simp only [dnsReceive]
  repeat' split
  all_goals exact ⟨rfl, rfl, rfl⟩

theorem acceptData_sameDhcp (n : Net) (data : List UInt8) : SameDhcp n (acceptData n data) :=
  SameDhcp.log ⟨rfl, rfl, rfl⟩ rfl

end History

/-- What is kept by every step but those of the DHCP client itself. -/
structure DhcpStable (R : Net → Net → Prop) : Prop extends Chains R where
  same : ∀ n n', SameDhcp n n' → R n n'
  sent : ∀ n frame, R n (startTx n frame)
  accept : ∀ n (m : DhcpMessage), m.Matches n.dhcp.xid n.cfg.mac → R n (acceptDhcp n m)

section Stable

variable {R : Net → Net → Prop}

theorem DhcpStable.handlers (h : DhcpStable R) : HandlerStable R where
  toChains := h.toChains
  access n := h.same _ _ (access_sameDhcp n)
  startTx := h.sent
  buildFrame _ _ _ _ _ := h.same _ _ ⟨rfl, rfl, rfl⟩
  buildIpv4 _ _ _ _ _ _ := h.same _ _ ⟨rfl, rfl, rfl⟩
  learnArp _ _ _ := h.same _ _ ⟨rfl, rfl, rfl⟩
  pingReply _ _ := h.same _ _ ⟨rfl, rfl, rfl⟩
  dnsReceive n p l := h.same _ _ (dnsReceive_sameDhcp n p l)
  dhcpReceive n p l := by
    rcases dhcpReceive_cases n p l with he | ⟨m, hm, he⟩
    · rw [he]
      exact h.refl n
    · rw [he]
      exact h.accept n m hm
  buildAck _ _ _ _ _ _ := h.same _ _ (SameDhcp.log ⟨rfl, rfl, rfl⟩ rfl)

theorem DhcpStable.polling (h : DhcpStable R) : PollStable R where
  clearIsr _ _ := h.same _ _ ⟨rfl, rfl, rfl⟩
  polled _ _ := h.same _ _ (SameDhcp.log ⟨rfl, rfl, rfl⟩ rfl)
  enterFrame _ _ := h.same _ _ (SameDhcp.log ⟨rfl, rfl, rfl⟩ rfl)
  leaveFrame _ _ := h.same _ _ (SameDhcp.log ⟨rfl, rfl, rfl⟩ rfl)
  advanceRx _ _ := h.same _ _ ⟨rfl, rfl, rfl⟩

theorem DhcpStable.tcp (h : DhcpStable R) : TcpStable R where
  noteSegment _ _ _ := h.same _ _ (SameDhcp.log ⟨rfl, rfl, rfl⟩ rfl)
  failed _ := h.same _ _ ⟨rfl, rfl, rfl⟩
  acceptSynAck _ _ := h.same _ _ (SameDhcp.log ⟨rfl, rfl, rfl⟩ rfl)
  acceptData n data := h.same _ _ (acceptData_sameDhcp n data)
  acceptFin _ _ := h.same _ _ (SameDhcp.log ⟨rfl, rfl, rfl⟩ rfl)
  handled _ := h.same _ _ (SameDhcp.log ⟨rfl, rfl, rfl⟩ rfl)

theorem DhcpStable.poll (h : DhcpStable R) (fuel : Nat) : Keeps R (netPoll fuel) := by
  refine netPoll_keeps h.handlers h.polling ?_ fuel
  intro poll hpoll fuel s
  exact tcpReceive_keeps (h.handlers.steps hpoll).toHandlerSteps h.tcp fuel s

end Stable

end VertexOS
