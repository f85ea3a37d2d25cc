import VertexOS.Net.DhcpRuns

namespace VertexOS
open Library.Programs

section Server

/-- The body of a message of a server. -/
def dhcpReply (msgType : UInt8) (yiaddr server : UInt32) : List UInt8 :=
  [2, 1, 6, 0] ++ be32 0xA5A51234 ++ List.replicate 8 0 ++ be32 yiaddr ++ List.replicate 8 0 ++
    broadcastMac.bytes ++ List.replicate 202 0 ++ be32 0x63825363 ++
    ([53, 1, msgType, 54, 4] ++ be32 server ++ [255])

/-- A message of a server as it arrives. -/
def dhcpReplyPacket (msgType : UInt8) (yiaddr server : UInt32) : RxPacket where
  status := 1
  data := broadcastMac.bytes ++ broadcastMac.bytes ++ be16 ethTypeIpv4 ++
    (ipv4Header 278 0 0 17 server 0xFFFFFFFF ++
      (be16 67 ++ be16 68 ++ be16 258 ++ be16 0 ++ dhcpReply msgType yiaddr server))
  crc := [0, 0, 0, 0]
  fits := by
    simp only [dhcpReply, broadcastMac, ipv4Header, be16, be32, List.length_append,
      List.length_replicate, List.length_cons, List.length_nil]
    decide
  crcLength := zeroCrc_length

/-- A host that has just started: `first` arrive with its call of
`net_dhcp_request`, `later` after the REQUEST. -/
def dhcpNet (first later : List RxPacket) : Net :=
  netInit { cfg := { mac := broadcastMac }
            env := fun i => if i = 0 then first.map .arrive
              else if i = 13 then later.map .arrive else [] } (some broadcastMac)

/-- The message as `handle_dhcp` logs it. -/
def replyMessage (msgType : UInt8) (yiaddr server : UInt32) : DhcpMessage :=
  ⟨0xA5A51234, broadcastMac.bytes, 0x63825363, yiaddr,
    { msgType := msgType, serverIp := some server }⟩

/-- The requested address and the server identifier of a REQUEST, with their codes. -/
def requestOptions (frame : List UInt8) : List UInt8 := (frame.drop 290).take 12

/-- A history without the rest of its frames. -/
def shownEvent : NetEvent → NetEvent
  | .sent frame => .sent (requestOptions frame)
  | e => e

theorem shownEvent_sent {e : NetEvent} {l : List UInt8} (h : shownEvent e = .sent l) :
    ∃ frame, e = .sent frame ∧ requestOptions frame = l := by
  cases e with
  | sent frame => exact ⟨frame, rfl, NetEvent.sent.inj h⟩
  | _ => cases h

theorem shownEvent_other {e a : NetEvent} (h : shownEvent e = a) (ha : ∀ l, a ≠ .sent l) :
    e = a := by
  cases e with
  | sent frame => exact absurd h.symm (ha _)
  | _ => exact h

/-- The lease of the one server. -/
def oneLease : NetConfig :=
  { mac := broadcastMac, ip := 0x0A000005, linkUp := true, dhcpConfigured := true }

/-- One server offers, and acknowledges the REQUEST. -/
def oneServerNet : Net :=
  dhcpNet [dhcpReplyPacket 2 0x0A000005 0x0A000002] [dhcpReplyPacket 5 0x0A000005 0x0A000002]

theorem oneServerNet_history : ∃ n' discover request,
    netDhcpRequest 6 oneServerNet = some (true, n') ∧
    n'.dhcpHistory = [.sent discover, .dhcp (replyMessage 2 0x0A000005 0x0A000002), .sent request,
      .requested, .dhcp (replyMessage 5 0x0A000005 0x0A000002), .leased oneLease] := by
  have h : (netDhcpRequest 6 oneServerNet).map (fun r => (r.1, r.2.dhcpHistory.map shownEvent)) =
      some (true, [.sent [255, 0, 0, 0, 0, 0, 0, 0, 0, 0, 0, 0],
        .dhcp (replyMessage 2 0x0A000005 0x0A000002),
        .sent ([50, 4] ++ be32 0x0A000005 ++ ([54, 4] ++ be32 0x0A000002)), .requested,
        .dhcp (replyMessage 5 0x0A000005 0x0A000002), .leased oneLease]) := by
    decide +kernel
  obtain ⟨⟨ok, n'⟩, hrun, heq⟩ := Option.map_eq_some_iff.mp h
  obtain ⟨rfl, heq⟩ := Prod.mk.inj heq
  obtain ⟨e1, l1, h0, h1, heq⟩ := List.map_eq_cons_iff.mp heq
  obtain ⟨e2, l2, rfl, h2, heq⟩ := List.map_eq_cons_iff.mp heq
  obtain ⟨e3, l3, rfl, h3, heq⟩ := List.map_eq_cons_iff.mp heq
  obtain ⟨e4, l4, rfl, h4, heq⟩ := List.map_eq_cons_iff.mp heq
  obtain ⟨e5, l5, rfl, h5, heq⟩ := List.map_eq_cons_iff.mp heq
  obtain ⟨e6, l6, rfl, h6, hend⟩ := List.map_eq_cons_iff.mp heq
  obtain ⟨discover, rfl, -⟩ := shownEvent_sent h1
  obtain ⟨request, rfl, -⟩ := shownEvent_sent h3
  obtain rfl := shownEvent_other h2 (by simp)
  obtain rfl := shownEvent_other h4 (by simp)
  obtain rfl := shownEvent_other h5 (by simp)
  obtain rfl := shownEvent_other h6 (by simp)
  obtain rfl := List.map_eq_nil_iff.mp hend
  exact ⟨n', discover, request, hrun, h0⟩

end Server

section OneServer

variable {fuel : Nat} {n n' : Net} {ok : Bool} {server : UInt32} {t p q : List NetEvent}
  {m : DhcpMessage}

/-- Every message that was handled names the one server. -/
def OneServer (server : UInt32) (t : List NetEvent) : Prop :=
  ∀ m, .dhcp m ∈ t → m.options.serverIp = some server

/-- A value is as it was configured, or the server has sent it. -/
def SentBy (server : UInt32) (t : List NetEvent) (get : DhcpOptions → Option UInt32)
    (old new : UInt32) : Prop :=
  new = old ∨ ∃ m, .dhcp m ∈ t ∧ m.options.serverIp = some server ∧ get m.options = some new

theorem installs_sentBy (h : OneServer server t) (get : DhcpOptions → Option UInt32)
    (old : UInt32) : SentBy server t get old (installs old (lastOption get t)) := by
  cases hl : lastOption get t with
  | none => exact .inl rfl
  | some v =>
    by_cases hv : v = 0
    · left
      simp [installs, hv]
    · obtain ⟨m, hm, hget⟩ := lastOption_mem hl
      refine .inr ⟨m, hm, h m hm, ?_⟩
      simp [installs, hv, hget]

/-- The REQUEST asks for the address of an OFFER, from the server of that OFFER. -/
theorem Requested.oneServer {mac : Mac} {xid : UInt32} {frame : List UInt8}
    (h : Requested mac xid t frame) (hone : OneServer server t) :
    ∃ m0, firstOffer t = some m0 ∧ m0.options.serverIp = some server ∧
      frame = dhcpFrame mac xid 3 m0.yiaddr server := by
  obtain ⟨m0, serverId, h1, h2, -, -, hf⟩ := h
  obtain ⟨m, hm, hs⟩ := lastOption_mem h2
  have hid : serverId = server := Option.some.inj (hs.symm.trans (hone m hm))
  refine ⟨m0, h1, hone m0 (firstOffer_mem h1).1, ?_⟩
  rw [hf, hid]

/-- In a call in which every message names one server and the ACK has the address
that was offered, REQUEST and lease are that server's. -/
theorem dhcp_lease_one_server (fuel : Nat) (n n' : Net) (ok : Bool) (t : List NetEvent)
    (hrun : netDhcpRequest fuel n = some (ok, n')) (ht : n'.dhcpHistory = n.dhcpHistory ++ t) :
    (∀ (p q : List NetEvent) (frame : List UInt8) (server : UInt32),
      t = p ++ .sent frame :: .requested :: q → OneServer server p →
      ∃ m0 xid, firstOffer p = some m0 ∧ m0.options.serverIp = some server ∧
        frame = dhcpFrame n.cfg.mac xid 3 m0.yiaddr server) ∧
    (∀ (p q : List NetEvent) (m : DhcpMessage) (c : NetConfig) (server : UInt32),
      t = p ++ .dhcp m :: .leased c :: q → OneServer server (p ++ [.dhcp m]) →
      (∀ m0, firstOffer p = some m0 → m.yiaddr = m0.yiaddr) →
      ∃ m0, firstOffer p = some m0 ∧ m0.options.serverIp = some server ∧ c.ip = m0.yiaddr ∧
        SentBy server (p ++ [.dhcp m]) (·.subnet) n.cfg.subnet c.subnet ∧
        SentBy server (p ++ [.dhcp m]) (·.router) n.cfg.gateway c.gateway ∧
        SentBy server (p ++ [.dhcp m]) (·.dns) n.cfg.dns c.dns) := by
  obtain ⟨u, xid, hu, hcall, -⟩ := netDhcpRequest_leasing hrun
  obtain rfl := List.append_cancel_left (hu.symm.trans ht)
  rcases hcall with rfl | h
  · refine ⟨?_, ?_⟩
    · intro p q frame server he
      cases p <;> cases he
    · intro p q m c server he
      cases p <;> cases he
  refine ⟨?_, ?_⟩
  · intro p q frame server he hone
    obtain ⟨p', frame', hp, hreq⟩ := h.requests (p ++ [.sent frame]) q (by simp [he])
    obtain ⟨rfl, hf⟩ := List.append_inj' hp rfl
    cases hf
    obtain ⟨m0, h1, h2, h3⟩ := hreq.oneServer hone
    exact ⟨m0, xid, h1, h2, h3⟩
  · intro p q m c server he hone haddr
    obtain ⟨p', m', hp, hinst⟩ := h.leases (p ++ [.dhcp m]) q c (by simp [he])
    obtain ⟨rfl, hm⟩ := List.append_inj' hp rfl
    cases hm
    obtain ⟨m0, h1⟩ := hinst.offered
    refine ⟨m0, h1, ?_, ?_, ?_, ?_, ?_⟩
    · exact hone m0 (List.mem_append_left _ (firstOffer_mem h1).1)
    · rw [hinst.ip, haddr m0 h1]
    · rw [hinst.subnet]
      exact installs_sentBy hone _ _
    · rw [hinst.gateway]
      exact installs_sentBy hone _ _
    · rw [hinst.dns]
      exact installs_sentBy hone _ _

/-- The REQUEST and the lease of the one server. -/
theorem dhcp_lease_one_server_offered : ∃ n' p frame q m c m0,
    netDhcpRequest 6 oneServerNet = some (true, n') ∧
    n'.dhcpHistory = p ++ .sent frame :: .requested :: .dhcp m :: .leased c :: q ∧
    firstOffer p = some m0 ∧ (∃ xid, frame = dhcpFrame broadcastMac xid 3 m0.yiaddr 0x0A000002) ∧
    c.ip = m0.yiaddr := by
  obtain ⟨n', discover, request, hrun, hhist⟩ := oneServerNet_history
  have hlaw := dhcp_lease_one_server 6 oneServerNet n' true _ hrun hhist
  have hone : OneServer 0x0A000002 [.sent discover, .dhcp (replyMessage 2 0x0A000005 0x0A000002),
      .sent request, .requested, .dhcp (replyMessage 5 0x0A000005 0x0A000002)] := by
    intro m hm
    simp only [List.mem_cons, reduceCtorEq, NetEvent.dhcp.injEq, List.not_mem_nil, or_false,
      false_or] at hm
    rcases hm with rfl | rfl
    · rfl
    · rfl
  have hp : OneServer 0x0A000002
      [.sent discover, .dhcp (replyMessage 2 0x0A000005 0x0A000002)] := by
    intro m hm
    apply hone m
    simp only [List.mem_cons, List.not_mem_nil, or_false] at hm ⊢
    rcases hm with h | h
    · exact .inl h
    · exact .inr (.inl h)
  obtain ⟨m0, xid, h1, -, h3⟩ := hlaw.1 [_, _] _ request _ rfl hp
  obtain ⟨m1, h4, -, h6, -⟩ := hlaw.2 [_, _, _, _] [] _ oneLease _ rfl hone (by
    intro m1 hm1
    cases hm1
    rfl)
  refine ⟨n', [_, _], request, [], _, oneLease, m0, hrun, hhist, h1, ⟨xid, h3⟩, ?_⟩
  rw [h6]
  cases h1
  cases h4
  rfl

/-- Two servers offer; the REQUEST asks the second for the address of the first, and
the lease has another one. -/
theorem dhcp_lease_two_servers : ∃ n' p q frame,
    netDhcpRequest 6 (dhcpNet [dhcpReplyPacket 2 0x0A000005 0x0A000002,
      dhcpReplyPacket 2 0x0A000009 0x0A000003, dhcpReplyPacket 5 0x0A000009 0x0A000003] []) =
        some (true, n') ∧
    n'.dhcpHistory = p ++ .sent frame :: .requested :: q ∧
    requestOptions frame = [50, 4] ++ be32 0x0A000005 ++ ([54, 4] ++ be32 0x0A000003) ∧
    (∀ m, .dhcp m ∈ p → m.options.msgType = 2 → m.yiaddr = 0x0A000005 →
      m.options.serverIp ≠ some 0x0A000003) ∧ n'.cfg.ip = 0x0A000009 := by
  have h : (netDhcpRequest 6 (dhcpNet [dhcpReplyPacket 2 0x0A000005 0x0A000002,
      dhcpReplyPacket 2 0x0A000009 0x0A000003, dhcpReplyPacket 5 0x0A000009 0x0A000003] [])).map
        (fun r => (r.1, r.2.cfg.ip, r.2.dhcpHistory.map shownEvent)) =
      some (true, 0x0A000009, [.sent [255, 0, 0, 0, 0, 0, 0, 0, 0, 0, 0, 0],
        .dhcp (replyMessage 2 0x0A000005 0x0A000002), .dhcp (replyMessage 2 0x0A000009 0x0A000003),
        .dhcp (replyMessage 5 0x0A000009 0x0A000003),
        .leased { mac := broadcastMac, ip := 0x0A000009, linkUp := true, dhcpConfigured := true },
        .sent ([50, 4] ++ be32 0x0A000005 ++ ([54, 4] ++ be32 0x0A000003)), .requested]) := by
    decide +kernel
  obtain ⟨⟨ok, n'⟩, hrun, heq⟩ := Option.map_eq_some_iff.mp h
  obtain ⟨rfl, heq⟩ := Prod.mk.inj heq
  obtain ⟨hip, heq⟩ := Prod.mk.inj heq
  obtain ⟨e1, l1, h0, h1, heq⟩ := List.map_eq_cons_iff.mp heq
  obtain ⟨e2, l2, rfl, h2, heq⟩ := List.map_eq_cons_iff.mp heq
  obtain ⟨e3, l3, rfl, h3, heq⟩ := List.map_eq_cons_iff.mp heq
  obtain ⟨e4, l4, rfl, h4, heq⟩ := List.map_eq_cons_iff.mp heq
  obtain ⟨e5, l5, rfl, h5, heq⟩ := List.map_eq_cons_iff.mp heq
  obtain ⟨e6, l6, rfl, h6, heq⟩ := List.map_eq_cons_iff.mp heq
  obtain ⟨e7, l7, rfl, h7, heq⟩ := List.map_eq_cons_iff.mp heq
  obtain ⟨discover, rfl, -⟩ := shownEvent_sent h1
  obtain ⟨frame, rfl, hf⟩ := shownEvent_sent h6
  obtain rfl := shownEvent_other h2 (by simp)
  obtain rfl := shownEvent_other h3 (by simp)
  obtain rfl := shownEvent_other h4 (by simp)
  obtain rfl := shownEvent_other h5 (by simp)
  obtain rfl := shownEvent_other h7 (by simp)
  refine ⟨n', [_, _, _, _, _], l7, frame, hrun, h0, hf, ?_, hip⟩
  intro m hm
  simp only [List.mem_cons, reduceCtorEq, NetEvent.dhcp.injEq, List.not_mem_nil, or_false,
    false_or] at hm
  rcases hm with rfl | rfl | rfl
  · simp [replyMessage]
  · simp [replyMessage]
  · simp [replyMessage]

end OneServer

section Now

variable {n n' : Net} {t : List NetEvent} {m : DhcpMessage}

/-- `dhcp_configured` is set by an ACK alone. -/
structure Configured (n : Net) (t : List NetEvent) : Prop where
  configured : n.cfg.dhcpConfigured = true → ∃ c, .leased c ∈ t
  acks : ∀ (p q : List NetEvent) (c : NetConfig), t = p ++ .leased c :: q →
    ∃ (p' : List NetEvent) (m : DhcpMessage), p = p' ++ [.dhcp m] ∧ m.options.msgType = 5

theorem Configured.snoc (h : Configured n t) {e : NetEvent}
    (hc : n'.cfg.dhcpConfigured = n.cfg.dhcpConfigured) (he : ∀ c, e ≠ .leased c) :
    Configured n' (t ++ [e]) := by
  constructor
  · intro hconf
    obtain ⟨c, hmem⟩ := h.configured (hc.symm.trans hconf)
    exact ⟨c, List.mem_append_left _ hmem⟩
  · intro p q c ht
    rcases split_snoc ht with ⟨-, -, hl⟩ | ⟨q', -, ht'⟩
    · exact absurd hl.symm (he c)
    · exact h.acks p q' c ht'

theorem Configured.ack (h : Configured n t) (htype : m.options.msgType = 5) (c : NetConfig) :
    Configured n' (t ++ [.dhcp m] ++ [.leased c]) := by
  constructor
  · intro _
    exact ⟨c, by simp⟩
  · intro p q c' ht
    rcases split_snoc ht with ⟨-, rfl, -⟩ | ⟨q', -, ht'⟩
    · exact ⟨t, m, rfl, htype⟩
    · rcases split_snoc ht' with ⟨-, -, hl⟩ | ⟨q'', -, ht''⟩
      · cases hl
      · exact h.acks p q'' c' ht''

/-- What a part of the program does to `dhcp_configured`. -/
def Configures : Net → Net → Prop :=
  Carries Net.dhcpHistory (fun _ => True) Configured

theorem configures_chains : Chains Configures := Carries.chains fun _ _ _ => trivial

theorem configures_same (hh : n'.dhcpHistory = n.dhcpHistory)
    (hc : n'.cfg.dhcpConfigured = n.cfg.dhcpConfigured) : Configures n n' := by
  apply Carries.silent hh
  intro t0 _ hi
  exact ⟨fun h => hi.configured (hc.symm.trans h), hi.acks⟩

theorem configures_event {e : NetEvent} (hh : n'.dhcpHistory = n.dhcpHistory ++ [e])
    (hc : n'.cfg.dhcpConfigured = n.cfg.dhcpConfigured) (he : ∀ c, e ≠ .leased c) :
    Configures n n' := by
  apply Carries.event hh
  intro t0 _ hi
  exact hi.snoc hc he

theorem configures_dhcp : DhcpStable Configures where
  toChains := configures_chains
  same n n' h := configures_same h.history (by rw [h.cfg])
  sent n frame := configures_event (dhcpHistory_log _ _) rfl (by simp)
  accept n m _ := by
    rcases acceptDhcp_cases n m with ⟨-, -, he⟩ | ⟨htype, -, he⟩ | ⟨-, he⟩
    · rw [he]
      exact configures_event (storeDhcp_history n m) rfl (by simp)
    · rw [he]
      refine ⟨_, ackedNet_history n m, ?_⟩
      intro t0 _ hi
      rw [← List.append_assoc]
      exact hi.ack htype _
    · rw [he]
      exact configures_event (storeDhcp_history n m) rfl (by simp)

theorem configures_api : ApiStable Configures where
  toHandlerStable := configures_dhcp.handlers
  poll := configures_dhcp.poll
  buildUdp _ _ _ _ := configures_same rfl rfl
  buildTcp n _ _ _ _ _ _ _ :=
    have h : SameDhcp n _ := SameDhcp.log ⟨rfl, rfl, rfl⟩ rfl
    configures_same h.history rfl
  dnsStart _ _ := configures_same rfl rfl
  stopDns _ := configures_same rfl rfl
  tcpLocal _ _ _ := configures_same rfl rfl
  dhcpStart _ _ := configures_same rfl rfl
  requested _ := configures_event (dhcpHistory_log _ _) rfl (by simp)
  openTcp n _ _ _ _ _ _ _ :=
    have h : SameDhcp n _ := SameDhcp.log ⟨rfl, rfl, rfl⟩ rfl
    configures_same h.history rfl
  fetched n :=
    have h : SameDhcp n _ := SameDhcp.log ⟨rfl, rfl, rfl⟩ rfl
    configures_same h.history rfl
  closeTcp _ := configures_same rfl rfl
  pingStart _ _ _ := configures_same rfl rfl
  pingSent _ _ := configures_same rfl rfl
  stopPing _ := configures_same rfl rfl

theorem configured_init (n : Net) (device : Option Mac) : Configured (netInit n device) [] := by
  constructor
  · intro h
    cases device <;> cases h
  · intro p q c h
    cases p <;> cases h

/-- A call that returns 1 has handled an ACK after its REQUEST, in every run since
`net_init` in which no ACK was accepted before that REQUEST. -/
theorem dhcp_success_now (n0 n n' : Net) (device : Option Mac) (fuel : Nat) (h t : List NetEvent)
    (hrun : NetRun (netInit n0 device) n) (hcall : netDhcpRequest fuel n = some (true, n'))
    (hh : n.dhcpHistory = (netInit n0 device).dhcpHistory ++ h)
    (ht : n'.dhcpHistory = n.dhcpHistory ++ t)
    (hfresh : ∀ p q : List NetEvent, t = p ++ .requested :: q → ∀ c, .leased c ∉ h ++ p) :
    ∃ (p q : List NetEvent) (ip server : UInt32) (m : DhcpMessage),
      t = p ++ .sent (dhcpFrame n.cfg.mac n'.dhcp.xid 3 ip server) :: .requested :: q ∧
      .dhcp m ∈ q ∧ m.options.msgType = 5 ∧ m.Matches n'.dhcp.xid n.cfg.mac := by
  obtain ⟨u, xid, hu, hleas, hok⟩ := netDhcpRequest_leasing hcall
  obtain rfl := List.append_cancel_left (hu.symm.trans ht)
  obtain ⟨hconf, p, q, hpq⟩ := hok rfl
  have hl : Leasing n.cfg xid n' u := by
    rcases hleas with rfl | hl
    · cases p <;> cases hpq
    · exact hl
  obtain ⟨p', frame, hp, m0, server, -, -, -, -, hframe⟩ := hl.requests p q hpq
  -- the flag is set by an ACK, which is not before the REQUEST
  have hrunc : Configures (netInit n0 device) n' := by
    apply configures_chains.trans _ _ _ (hrun.keeps configures_api.steps)
    exact netDhcpRequest_keeps configures_api.steps _ _ _ _ hcall
  obtain ⟨v, hv, hiv⟩ := hrunc
  have hvu : v = h ++ u := by
    apply List.append_cancel_left (hv.symm.trans _)
    rw [ht, hh, List.append_assoc]
  have hcfg := hiv [] trivial (configured_init n0 device)
  rw [List.nil_append, hvu] at hcfg
  obtain ⟨c, hmem⟩ := hcfg.configured hconf
  have hq : .leased c ∈ q := by
    rcases List.mem_append.mp hmem with hm | hm
    · exact absurd (List.mem_append_left _ hm) (hfresh p q hpq c)
    · rw [hpq] at hm
      rcases List.mem_append.mp hm with hm | hm
      · exact absurd (List.mem_append_right _ hm) (hfresh p q hpq c)
      · simpa using hm
  obtain ⟨q1, q2, rfl⟩ := List.append_of_mem hq
  obtain ⟨r, m, hr, htype⟩ := hcfg.acks (h ++ (p ++ .requested :: q1)) q2 c (by simp [hpq])
  have hm : .dhcp m ∈ q1 := by
    rcases List.eq_nil_or_concat q1 with rfl | ⟨q3, e, rfl⟩
    · rw [← List.append_assoc] at hr
      cases (List.append_inj' hr rfl).2
    · rw [List.concat_eq_append, ← List.cons_append, ← List.append_assoc, ← List.append_assoc] at hr
      cases (List.append_inj' hr rfl).2
      simp
  refine ⟨p', q1 ++ .leased c :: q2, m0.yiaddr, server, m, ?_, List.mem_append_left _ hm, htype, ?_⟩
  · rw [hpq, hp, hframe, hl.sameXid]
    simp
  · rw [hl.sameXid]
    apply hl.messages m
    rw [hpq]
    simp [hm]

/-- An OFFER, the REQUEST, and the ACK. -/
theorem dhcp_success_now_acked : ∃ n', netDhcpRequest 6 oneServerNet = some (true, n') ∧
    ∃ (p q : List NetEvent) (ip server : UInt32) (m : DhcpMessage),
      n'.dhcpHistory = p ++ .sent (dhcpFrame broadcastMac n'.dhcp.xid 3 ip server) ::
        .requested :: q ∧
      .dhcp m ∈ q ∧ m.options.msgType = 5 ∧ m.Matches n'.dhcp.xid broadcastMac := by
  obtain ⟨n', discover, request, hrun, hhist⟩ := oneServerNet_history
  refine ⟨n', hrun, ?_⟩
  refine dhcp_success_now _ oneServerNet n' (some broadcastMac) 6 [] _ (NetRun.start _) hrun rfl
    (hhist.trans (by rw [hhist]; rfl)) ?_
  intro p q hpq c hc
  rw [hhist] at hpq
  rcases p with _ | ⟨a, _ | ⟨b, _ | ⟨d, _ | ⟨e, p⟩⟩⟩⟩
  · cases hc
  · simp at hpq
  · simp at hpq
  · obtain ⟨rfl, rfl, rfl, -⟩ : _ ∧ _ ∧ _ ∧ _ := by simpa using hpq
    simp at hc
  · simp at hpq
    obtain ⟨-, -, -, -, hpq⟩ := hpq
    rcases p with _ | ⟨f, _ | ⟨g, p⟩⟩ <;> simp at hpq

/-- OFFER and ACK are handled before the REQUEST is sent; nothing comes after it. -/
theorem dhcp_success_stale : ∃ n',
    netDhcpRequest 6 (dhcpNet [dhcpReplyPacket 2 0x0A000005 0x0A000002,
      dhcpReplyPacket 5 0x0A000005 0x0A000002] []) = some (true, n') ∧
    ∀ p q : List NetEvent, n'.dhcpHistory = p ++ .requested :: q → ∀ m, .dhcp m ∉ q := by
  have h : (netDhcpRequest 6 (dhcpNet [dhcpReplyPacket 2 0x0A000005 0x0A000002,
      dhcpReplyPacket 5 0x0A000005 0x0A000002] [])).map
        (fun r => (r.1, r.2.dhcpHistory.map shownEvent)) =
      some (true, [.sent [255, 0, 0, 0, 0, 0, 0, 0, 0, 0, 0, 0],
        .dhcp (replyMessage 2 0x0A000005 0x0A000002), .dhcp (replyMessage 5 0x0A000005 0x0A000002),
        .leased oneLease, .sent ([50, 4] ++ be32 0x0A000005 ++ ([54, 4] ++ be32 0x0A000002))] ++
        [.requested]) := by
    decide +kernel
  obtain ⟨⟨ok, n'⟩, hrun, heq⟩ := Option.map_eq_some_iff.mp h
  obtain ⟨rfl, heq⟩ := Prod.mk.inj heq
  refine ⟨n', hrun, ?_⟩
  intro p q hpq m hm
  rw [hpq, List.map_append, List.map_cons] at heq
  rcases split_snoc heq.symm with ⟨hq, -, -⟩ | ⟨r, -, hr⟩
  · rw [List.map_eq_nil_iff.mp hq] at hm
    cases hm
  · have : NetEvent.requested ∈ p.map shownEvent ++ shownEvent .requested :: r :=
      List.mem_append_right _ List.mem_cons_self
    rw [← hr] at this
    simp at this

end Now

end VertexOS
