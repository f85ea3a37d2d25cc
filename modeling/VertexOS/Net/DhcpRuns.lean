import VertexOS.Net.Lease

namespace VertexOS
open Library.Programs

section Messages

variable {t : List NetEvent} {d : DhcpState}

def NetEvent.offer : NetEvent → Option DhcpMessage
  | .dhcp m => if m.options.msgType = 2 then some m else none
  | _ => none

/-- The first OFFER that was handled. -/
def firstOffer (t : List NetEvent) : Option DhcpMessage := t.findSome? NetEvent.offer

def NetEvent.option (get : DhcpOptions → Option UInt32) : NetEvent → Option UInt32
  | .dhcp m => get m.options
  | _ => none

/-- An option in the last message that has it. -/
def lastOption (get : DhcpOptions → Option UInt32) (t : List NetEvent) : Option UInt32 :=
  t.reverse.findSome? (NetEvent.option get)

theorem firstOffer_append (t u : List NetEvent) :
    firstOffer (t ++ u) = (firstOffer t).or (firstOffer u) := by
  simp [firstOffer]

theorem lastOption_snoc (get : DhcpOptions → Option UInt32) (t : List NetEvent) (e : NetEvent) :
    lastOption get (t ++ [e]) = (e.option get).or (lastOption get t) := by
  simp only [lastOption, List.reverse_append, List.reverse_singleton, List.singleton_append,
    List.findSome?_cons]
  cases e.option get <;> rfl

/-- The option was in one of the messages. -/
theorem lastOption_mem {get : DhcpOptions → Option UInt32} {v : UInt32}
    (h : lastOption get t = some v) : ∃ m, .dhcp m ∈ t ∧ get m.options = some v := by
  obtain ⟨e, he, hv⟩ := List.exists_of_findSome?_eq_some h
  cases e with
  | dhcp m => exact ⟨m, List.mem_reverse.mp he, hv⟩
  | _ => cases hv

theorem firstOffer_mem {m : DhcpMessage} (h : firstOffer t = some m) :
    .dhcp m ∈ t ∧ m.options.msgType = 2 := by
  obtain ⟨e, he, hm⟩ := List.exists_of_findSome?_eq_some h
  cases e with
  | dhcp m' =>
    simp only [NetEvent.offer] at hm
    split at hm
    · next h2 =>
      cases hm
      exact ⟨he, h2⟩
    · cases hm
  | _ => cases hm

/-- What is stored of the messages: `dhcp_state` starts with zeros. -/
structure Stored (d : DhcpState) (t : List NetEvent) : Prop where
  subnet : d.subnet = (lastOption (·.subnet) t).getD 0
  router : d.router = (lastOption (·.router) t).getD 0
  dns : d.dns = (lastOption (·.dns) t).getD 0
  serverIp : d.serverIp = (lastOption (·.serverIp) t).getD 0

theorem getD_or (a b : Option UInt32) : a.getD (b.getD 0) = (a.or b).getD 0 := by
  cases a <;> rfl

theorem Stored.message (h : Stored d t) (m : DhcpMessage) :
    Stored (d.store m.options) (t ++ [.dhcp m]) := by
  constructor
  · rw [lastOption_snoc, DhcpState.store, h.subnet, getD_or]
    rfl
  · rw [lastOption_snoc, DhcpState.store, h.router, getD_or]
    rfl
  · rw [lastOption_snoc, DhcpState.store, h.dns, getD_or]
    rfl
  · rw [lastOption_snoc, DhcpState.store, h.serverIp, getD_or]
    rfl

theorem Stored.other (h : Stored d t) {e : NetEvent} (he : ∀ get, e.option get = none) :
    Stored d (t ++ [e]) := by
  constructor
  · rw [lastOption_snoc, he, h.subnet]
    rfl
  · rw [lastOption_snoc, he, h.router]
    rfl
  · rw [lastOption_snoc, he, h.dns]
    rfl
  · rw [lastOption_snoc, he, h.serverIp]
    rfl

/-- An option that is stored replaces what was configured. -/
def installs (old : UInt32) (v : Option UInt32) : UInt32 := if v.getD 0 ≠ 0 then v.getD 0 else old

/-- What an ACK installs, after the messages `p`. -/
structure Installed (cfg : NetConfig) (p : List NetEvent) (m : DhcpMessage) (c : NetConfig) :
    Prop where
  offered : ∃ m0, firstOffer p = some m0
  ack : m.options.msgType = 5
  ip : c.ip = m.yiaddr
  subnet : c.subnet = installs cfg.subnet (lastOption (·.subnet) (p ++ [.dhcp m]))
  gateway : c.gateway = installs cfg.gateway (lastOption (·.router) (p ++ [.dhcp m]))
  dns : c.dns = installs cfg.dns (lastOption (·.dns) (p ++ [.dhcp m]))

/-- The frame of a message that the client sends. -/
def dhcpFrame (mac : Mac) (xid : UInt32) (msgType : UInt8) (reqIp serverId : UInt32) :
    List UInt8 :=
  etherFrame broadcastMac mac ethTypeIpv4 (dhcpPacket xid mac msgType reqIp serverId)

/-- The REQUEST that follows the messages `p`. -/
def Requested (mac : Mac) (xid : UInt32) (p : List NetEvent) (frame : List UInt8) : Prop :=
  ∃ m0 serverId, firstOffer p = some m0 ∧ lastOption (·.serverIp) p = some serverId ∧
    m0.yiaddr ≠ 0 ∧ serverId ≠ 0 ∧ frame = dhcpFrame mac xid 3 m0.yiaddr serverId

/-- Every lease comes with its ACK, and installs what the messages up to it say. -/
def LeasesDescribed (cfg : NetConfig) (t : List NetEvent) : Prop :=
  ∀ (p q : List NetEvent) (c : NetConfig), t = p ++ .leased c :: q →
    ∃ (p' : List NetEvent) (m : DhcpMessage), p = p' ++ [.dhcp m] ∧ Installed cfg p' m c

/-- Every REQUEST asks for what the messages before it say. -/
def RequestsDescribed (mac : Mac) (xid : UInt32) (t : List NetEvent) : Prop :=
  ∀ p q : List NetEvent, t = p ++ .requested :: q →
    ∃ (p' : List NetEvent) (frame : List UInt8), p = p' ++ [.sent frame] ∧
      Requested mac xid p' frame

/-- The invariant of a call of `net_dhcp_request`; `cfg` is the configuration it
started with. -/
structure Leasing (cfg : NetConfig) (xid : UInt32) (n : Net) (t : List NetEvent) : Prop where
  sameXid : n.dhcp.xid = xid
  sameMac : n.cfg.mac = cfg.mac
  messages : ∀ m, .dhcp m ∈ t → m.Matches xid cfg.mac
  stored : Stored n.dhcp t
  waitingOffer : n.dhcp.waitingOffer = true →
    firstOffer t = none ∧ n.dhcp.waitingAck = false ∧ ∀ c, .leased c ∉ t
  offered : n.dhcp.waitingOffer = false →
    ∃ m0, firstOffer t = some m0 ∧ m0.yiaddr = n.dhcp.offeredIp
  waitingAck : n.dhcp.waitingAck = true → ∀ c, .leased c ∉ t
  unleased : (∀ c, .leased c ∉ t) → n.cfg = cfg
  leases : LeasesDescribed cfg t
  requests : RequestsDescribed cfg.mac xid t

end Messages

section Steps

variable {cfg : NetConfig} {xid : UInt32} {n n' : Net} {t : List NetEvent} {m : DhcpMessage}

/-- A message is stored whatever its type is. -/
def storeDhcp (n : Net) (m : DhcpMessage) : Net :=
  ({ n with dhcp := n.dhcp.store m.options }).log (.dhcp m)

/-- Earlier leases stay as they were. -/
theorem LeasesDescribed.snoc {e : NetEvent} (h : LeasesDescribed cfg t)
    (he : ∀ c, e = .leased c →
      ∃ (p : List NetEvent) (m : DhcpMessage), t = p ++ [.dhcp m] ∧ Installed cfg p m c) :
    LeasesDescribed cfg (t ++ [e]) := by
  intro p q c ht
  rcases split_snoc ht with ⟨-, rfl, hc⟩ | ⟨q', -, ht'⟩
  · exact he c hc.symm
  · exact h p q' c ht'

theorem RequestsDescribed.snoc {mac : Mac} {e : NetEvent} (h : RequestsDescribed mac xid t)
    (he : e = .requested → ∃ (p : List NetEvent) (frame : List UInt8), t = p ++ [.sent frame] ∧
      Requested mac xid p frame) : RequestsDescribed mac xid (t ++ [e]) := by
  intro p q ht
  rcases split_snoc ht with ⟨-, rfl, hc⟩ | ⟨q', -, ht'⟩
  · exact he hc.symm
  · exact h p q' ht'

/-- An event that is not a message of the server. -/
theorem Leasing.other (h : Leasing cfg xid n t) {e : NetEvent} (hc : n'.cfg = n.cfg)
    (hd : n'.dhcp = n.dhcp) (hm : ∀ m, e ≠ .dhcp m) (hl : ∀ c, e ≠ .leased c)
    (hr : e = .requested → ∃ (p : List NetEvent) (frame : List UInt8), t = p ++ [.sent frame] ∧
      Requested cfg.mac xid p frame) :
    Leasing cfg xid n' (t ++ [e]) := by
  have hoffer : firstOffer (t ++ [e]) = firstOffer t := by
    rw [firstOffer_append]
    cases e with
    | dhcp m => exact absurd rfl (hm m)
    | _ => simp [firstOffer, NetEvent.offer]
  have hoption : ∀ get, e.option get = none := by
    intro get
    cases e with
    | dhcp m => exact absurd rfl (hm m)
    | _ => rfl
  have hleased : ∀ c, .leased c ∈ t ++ [e] → .leased c ∈ t := by
    intro c hmem
    rcases List.mem_append.mp hmem with hmem | hmem
    · exact hmem
    · exact absurd (List.mem_singleton.mp hmem).symm (hl c)
  constructor
  · rw [hd, h.sameXid]
  · rw [hc, h.sameMac]
  · intro m hmem
    rcases List.mem_append.mp hmem with hmem | hmem
    · exact h.messages m hmem
    · exact absurd (List.mem_singleton.mp hmem).symm (hm m)
  · rw [hd]
    exact h.stored.other hoption
  · rw [hd, hoffer]
    intro hw
    obtain ⟨h1, h2, h3⟩ := h.waitingOffer hw
    exact ⟨h1, h2, fun c hmem => h3 c (hleased c hmem)⟩
  · rw [hd, hoffer]
    exact h.offered
  · rw [hd]
    exact fun hw c hmem => h.waitingAck hw c (hleased c hmem)
  · intro hno
    rw [hc]
    exact h.unleased fun c hmem => hno c (List.mem_append_left _ hmem)
  · exact h.leases.snoc fun c he => absurd he (hl c)
  · exact h.requests.snoc hr

/-- What a message leaves besides its options, as long as it is no first OFFER. -/
theorem Leasing.store (h : Leasing cfg xid n t) (hm : m.Matches n.dhcp.xid n.cfg.mac)
    (hno : ¬(m.options.msgType = 2 ∧ n.dhcp.waitingOffer = true)) :
    Leasing cfg xid (storeDhcp n m) (t ++ [.dhcp m]) := by
  have hmatch : m.Matches xid cfg.mac := by
    rw [← h.sameXid, ← h.sameMac]
    exact hm
  have hleased : ∀ c, .leased c ∈ t ++ [.dhcp m] → .leased c ∈ t := by
    intro c hmem
    simpa using hmem
  constructor
  · exact h.sameXid
  · exact h.sameMac
  · intro m' hmem
    rcases List.mem_append.mp hmem with hmem | hmem
    · exact h.messages m' hmem
    · cases List.mem_singleton.mp hmem
      exact hmatch
  · exact h.stored.message m
  · intro hw
    obtain ⟨h1, h2, h3⟩ := h.waitingOffer hw
    have htype : m.options.msgType ≠ 2 := fun h2 => hno ⟨h2, hw⟩
    refine ⟨?_, h2, fun c hmem => h3 c (hleased c hmem)⟩
    rw [firstOffer_append, h1]
    simp [firstOffer, NetEvent.offer, htype]
  · intro hw
    obtain ⟨m0, h1, h2⟩ := h.offered hw
    refine ⟨m0, ?_, h2⟩
    rw [firstOffer_append, h1]
    rfl
  · exact fun hw c hmem => h.waitingAck hw c (hleased c hmem)
  · exact fun hc => h.unleased fun c hmem => hc c (List.mem_append_left _ hmem)
  · exact h.leases.snoc (by simp)
  · exact h.requests.snoc (by simp)

/-- The first OFFER while one is waited for. -/
theorem Leasing.offer (h : Leasing cfg xid n t) (hm : m.Matches n.dhcp.xid n.cfg.mac)
    (htype : m.options.msgType = 2) (hw : n.dhcp.waitingOffer = true)
    (hn : n' = { storeDhcp n m with dhcp := { (storeDhcp n m).dhcp with
      offeredIp := m.yiaddr, waitingOffer := false, waitingAck := true } }) :
    Leasing cfg xid n' (t ++ [.dhcp m]) := by
  subst hn
  obtain ⟨h1, -, h3⟩ := h.waitingOffer hw
  have hleased : ∀ c, .leased c ∉ t ++ [.dhcp m] := by
    intro c hmem
    exact h3 c (by simpa using hmem)
  constructor
  · exact h.sameXid
  · exact h.sameMac
  · intro m' hmem
    rcases List.mem_append.mp hmem with hmem | hmem
    · exact h.messages m' hmem
    · cases List.mem_singleton.mp hmem
      rw [← h.sameXid, ← h.sameMac]
      exact hm
  · have hs := h.stored.message m
    exact ⟨hs.subnet, hs.router, hs.dns, hs.serverIp⟩
  · intro hw'
    cases hw'
  · intro _
    refine ⟨m, ?_, rfl⟩
    rw [firstOffer_append, h1]
    simp [firstOffer, NetEvent.offer, htype]
  · exact fun _ => hleased
  · exact fun _ => h.unleased h3
  · exact h.leases.snoc (by simp)
  · exact h.requests.snoc (by simp)

theorem ackConfig_fields (c : NetConfig) (d : DhcpState) (ip : UInt32) :
    (ackConfig c d ip).mac = c.mac ∧ (ackConfig c d ip).ip = ip ∧
    (ackConfig c d ip).subnet = (if d.subnet ≠ 0 then d.subnet else c.subnet) ∧
    (ackConfig c d ip).gateway = (if d.router ≠ 0 then d.router else c.gateway) ∧
    (ackConfig c d ip).dns = (if d.dns ≠ 0 then d.dns else c.dns) ∧
    (ackConfig c d ip).linkUp = c.linkUp ∧ (ackConfig c d ip).dhcpConfigured = true := by
  simp only [ackConfig]
  split <;> split <;> split <;> exact ⟨rfl, rfl, rfl, rfl, rfl, rfl, trivial⟩

/-- The configuration after an ACK that is waited for. -/
def ackedNet (n : Net) (m : DhcpMessage) : Net :=
  ({ storeDhcp n m with
    cfg := ackConfig n.cfg (n.dhcp.store m.options) m.yiaddr
    dhcp := { (storeDhcp n m).dhcp with waitingAck := false } }).log
      (.leased (ackConfig n.cfg (n.dhcp.store m.options) m.yiaddr))

theorem Leasing.ack (h : Leasing cfg xid n t) (hm : m.Matches n.dhcp.xid n.cfg.mac)
    (htype : m.options.msgType = 5) (hw : n.dhcp.waitingAck = true) :
    Leasing cfg xid (ackedNet n m) (t ++ [.dhcp m] ++
      [.leased (ackConfig n.cfg (n.dhcp.store m.options) m.yiaddr)]) := by
  have hs := h.store hm (by simp [htype])
  have hoffer : n.dhcp.waitingOffer = false := by
    cases ho : n.dhcp.waitingOffer with
    | false => rfl
    | true => simp [(h.waitingOffer ho).2.1] at hw
  have hcfg := h.unleased (h.waitingAck hw)
  obtain ⟨hmac, hip, hsub, hgw, hdns, -, -⟩ :=
    ackConfig_fields n.cfg (n.dhcp.store m.options) m.yiaddr
  generalize hc : ackConfig n.cfg (n.dhcp.store m.options) m.yiaddr = c at *
  have hstored : Stored (n.dhcp.store m.options) (t ++ [.dhcp m]) := h.stored.message m
  constructor
  · exact h.sameXid
  · change (ackConfig n.cfg (n.dhcp.store m.options) m.yiaddr).mac = _
    rw [hc, hmac, h.sameMac]
  · intro m' hmem
    apply hs.messages m'
    simpa using hmem
  · have hl := hstored.other (e := .leased c) fun _ => rfl
    exact ⟨hl.subnet, hl.router, hl.dns, hl.serverIp⟩
  · intro hw'
    change n.dhcp.waitingOffer = true at hw'
    rw [hoffer] at hw'
    cases hw'
  · intro _
    obtain ⟨m0, h1, h2⟩ := hs.offered hoffer
    refine ⟨m0, ?_, h2⟩
    rw [firstOffer_append, h1]
    rfl
  · intro hw'
    cases hw'
  · intro hno
    exact absurd (by simp) (hno c)
  · apply hs.leases.snoc
    intro c' hc'
    cases hc'
    refine ⟨t, m, rfl, ?_, htype, hip, ?_, ?_, ?_⟩
    · obtain ⟨m0, h1, -⟩ := h.offered hoffer
      exact ⟨m0, h1⟩
    · rw [hsub, hstored.subnet, hcfg]
      rfl
    · rw [hgw, hstored.router, hcfg]
      rfl
    · rw [hdns, hstored.dns, hcfg]
      rfl
  · exact hs.requests.snoc (by simp)

/-- What a message does, by its type and by what is waited for. -/
theorem acceptDhcp_cases (n : Net) (m : DhcpMessage) :
    (m.options.msgType = 2 ∧ n.dhcp.waitingOffer = true ∧
      acceptDhcp n m = { storeDhcp n m with dhcp := { (storeDhcp n m).dhcp with
        offeredIp := m.yiaddr, waitingOffer := false, waitingAck := true } }) ∨
    (m.options.msgType = 5 ∧ n.dhcp.waitingAck = true ∧ acceptDhcp n m = ackedNet n m) ∨
    (¬(m.options.msgType = 2 ∧ n.dhcp.waitingOffer = true) ∧
      acceptDhcp n m = storeDhcp n m) := by
  by_cases h2 : m.options.msgType = 2 ∧ n.dhcp.waitingOffer = true
  · exact .inl ⟨h2.1, h2.2, if_pos h2⟩
  · by_cases h5 : m.options.msgType = 5 ∧ n.dhcp.waitingAck = true
    · exact .inr (.inl ⟨h5.1, h5.2, (if_neg h2).trans (if_pos h5)⟩)
    · exact .inr (.inr ⟨h2, (if_neg h2).trans (if_neg h5)⟩)

/-- What a part of the program does within a call of `net_dhcp_request`. -/
def Leases (cfg : NetConfig) (xid : UInt32) : Net → Net → Prop :=
  Carries Net.dhcpHistory (fun _ => True) (Leasing cfg xid)

theorem leases_chains : Chains (Leases cfg xid) := Carries.chains fun _ _ _ => trivial

theorem storeDhcp_history (n : Net) (m : DhcpMessage) :
    (storeDhcp n m).dhcpHistory = n.dhcpHistory ++ [.dhcp m] := dhcpHistory_log _ _

theorem ackedNet_history (n : Net) (m : DhcpMessage) : (ackedNet n m).dhcpHistory =
    n.dhcpHistory ++ ([.dhcp m] ++
      [.leased (ackConfig n.cfg (n.dhcp.store m.options) m.yiaddr)]) := by
  rw [← List.append_assoc, ← storeDhcp_history]
  exact dhcpHistory_log _ _

theorem leases_stable : DhcpStable (Leases cfg xid) where
  toChains := leases_chains
  same n n' h := by
    apply Carries.silent h.history
    intro t0 _ hi
    constructor
    · rw [h.dhcp, hi.sameXid]
    · rw [h.cfg, hi.sameMac]
    · exact hi.messages
    · rw [h.dhcp]
      exact hi.stored
    · rw [h.dhcp]
      exact hi.waitingOffer
    · rw [h.dhcp]
      exact hi.offered
    · rw [h.dhcp]
      exact hi.waitingAck
    · rw [h.cfg]
      exact hi.unleased
    · exact hi.leases
    · exact hi.requests
  sent n frame := by
    apply Carries.event (dhcpHistory_log _ _)
    intro t0 _ hi
    exact hi.other rfl rfl (by simp) (by simp) (by simp)
  accept n m hm := by
    rcases acceptDhcp_cases n m with ⟨htype, hw, he⟩ | ⟨htype, hw, he⟩ | ⟨hno, he⟩
    · refine Carries.event (e := .dhcp m) ?_ ?_
      · rw [he]
        exact storeDhcp_history n m
      · intro t0 _ hi
        exact hi.offer hm htype hw he
    · rw [he]
      refine ⟨_, ackedNet_history n m, ?_⟩
      intro t0 _ hi
      rw [← List.append_assoc]
      exact hi.ack hm htype hw
    · rw [he]
      apply Carries.event (storeDhcp_history n m)
      intro t0 _ hi
      exact hi.store hm hno

end Steps

section Request

variable {fuel : Nat} {n n' : Net} {ok sent : Bool} {msgType : UInt8} {reqIp serverId : UInt32}

/-- What the receive path and the sending of frames preserve, the steps do. -/
def DhcpWithin (n n' : Net) : Prop := ∀ R, DhcpStable R → R n n'

/-- What `send_dhcp_message` puts on the wire. -/
theorem sendDhcpMessage_sent (h : sendDhcpMessage msgType reqIp serverId n = some (true, n')) :
    n'.cfg = n.cfg ∧ n'.dhcp = n.dhcp ∧ n'.dhcpHistory = n.dhcpHistory ++
      [.sent (dhcpFrame n.cfg.mac n.dhcp.xid msgType reqIp serverId)] := by
  replace h := get_bind_inv h
  rw [dhcpFrame]
  generalize dhcpPacket n.dhcp.xid n.cfg.mac msgType reqIp serverId = p at *
  rcases sendFrame_inv h with ⟨hf, -⟩ | ⟨-, rfl⟩
  · cases hf
  · have hsame : SameDhcp n (buildFrame n broadcastMac ethTypeIpv4 (bufOf p) p.length) :=
      ⟨rfl, rfl, rfl⟩
    have ha := sameDhcp_chains.trans _ _ _ hsame (access_sameDhcp _)
    refine ⟨ha.cfg, ha.dhcp, ?_⟩
    have hlog : ∀ m f, (startTx m f).dhcpHistory = m.dhcpHistory ++ [.sent f] :=
      fun m f => dhcpHistory_log _ _
    rw [hlog, ha.history, bytesAt_bufOf]

theorem DhcpWithin.trans {n1 n2 n3 : Net} (h : DhcpWithin n1 n2) (h' : DhcpWithin n2 n3) :
    DhcpWithin n1 n3 := fun R hR => hR.trans _ _ _ (h R hR) (h' R hR)

theorem DhcpWithin.of_keeps {α : Type} {a : α} {m : NetM α}
    (hm : ∀ R, DhcpStable R → Keeps R m) (h : m n = some (a, n')) : DhcpWithin n n' :=
  fun R hR => hm R hR _ _ _ h

theorem pitGetTicks_within {now : UInt32} (h : pitGetTicks n = some (now, n')) :
    DhcpWithin n n' :=
  .of_keeps (fun _ hR => pitGetTicks_keeps hR.handlers.toTimeStable) h

theorem pollUntil_within {done : Net → Bool} {start timeout : UInt32} {pollFuel : Nat}
    (h : pollUntil (netPoll pollFuel) done start timeout fuel n = some (ok, n')) :
    DhcpWithin n n' :=
  .of_keeps (fun _ hR => pollUntil_keeps hR.handlers.toTimeStable (hR.poll _) _ _ _ _) h

theorem sendDhcpMessage_within (h : sendDhcpMessage msgType reqIp serverId n = some (ok, n')) :
    DhcpWithin n n' :=
  .of_keeps (fun _ hR => sendDhcpMessage_keeps hR.handlers.toSendStable _ _ _) h

/-- The REQUEST of a call: the state in which it is sent, and after that. -/
structure RequestSent (n n' : Net) : Prop where
  waitingOffer : n.dhcp.waitingOffer = false
  offeredIp : n.dhcp.offeredIp ≠ 0
  serverIp : n.dhcp.serverIp ≠ 0
  sent : sendDhcpMessage 3 n.dhcp.offeredIp n.dhcp.serverIp n = some (true, n')

theorem dhcpSelect_cases (h : dhcpSelect fuel n = some (ok, n')) :
    (ok = false ∧ DhcpWithin n n') ∨
    (ok = true ∧ ∃ m m', DhcpWithin n m ∧ RequestSent m m' ∧ n' = m'.log .requested) := by
  obtain ⟨start, n1, h1, h⟩ := bind_inv h
  replace h := get_bind_inv h
  obtain ⟨b, m, hloop, h⟩ := bind_inv h
  have hm := (pitGetTicks_within h1).trans (pollUntil_within hloop)
  replace h := get_bind_inv h
  split at h
  · obtain ⟨rfl, rfl⟩ := pure_inv h
    exact .inl ⟨rfl, hm⟩
  next hno =>
  simp only [not_or] at hno
  obtain ⟨sent, m', hsend, h⟩ := bind_inv h
  cases sent with
  | false =>
    obtain ⟨rfl, rfl⟩ := pure_inv h
    exact .inl ⟨rfl, hm.trans (sendDhcpMessage_within hsend)⟩
  | true =>
    rw [if_neg (by simp)] at h
    replace h := modify_bind_inv h
    obtain ⟨rfl, rfl⟩ := pure_inv h
    exact .inr ⟨rfl, m, m', hm, ⟨by simpa using hno.1, hno.2.1, hno.2.2, hsend⟩, rfl⟩

theorem dhcpAwaitAck_within (h : dhcpAwaitAck fuel n = some (ok, n')) :
    DhcpWithin n n' ∧ ok = n'.cfg.dhcpConfigured := by
  obtain ⟨start, n1, h1, h⟩ := bind_inv h
  replace h := get_bind_inv h
  obtain ⟨b, m, hloop, h⟩ := bind_inv h
  replace h := get_bind_inv h
  obtain ⟨rfl, rfl⟩ := pure_inv h
  exact ⟨(pitGetTicks_within h1).trans (pollUntil_within hloop), rfl⟩

/-- A call that has reached its REQUEST. -/
structure DhcpStages (n : Net) (ok : Bool) (n' : Net) (start m m' : Net) : Prop where
  select : DhcpWithin start m
  request : RequestSent m m'
  await : DhcpWithin (m'.log .requested) n'
  result : ok = n'.cfg.dhcpConfigured

/-- The ways of a call: the link is down, no REQUEST is sent, or one is. -/
theorem netDhcpRequest_cases (h : netDhcpRequest fuel n = some (ok, n')) :
    (ok = false ∧ n' = n) ∨ ∃ n1 now, SameDhcp n n1 ∧
      ((ok = false ∧ DhcpWithin (dhcpStart n1 now) n') ∨
        ∃ m m', DhcpStages n ok n' (dhcpStart n1 now) m m') := by
  replace h := get_bind_inv h
  split at h
  · obtain ⟨rfl, rfl⟩ := pure_inv h
    exact .inl ⟨rfl, rfl⟩
  obtain ⟨now, n1, h1, h⟩ := bind_inv h
  have hsame : SameDhcp n n1 := by
    cases h1
    exact access_sameDhcp n
  refine .inr ⟨n1, now, hsame, ?_⟩
  replace h := modify_bind_inv h
  obtain ⟨sent, n2, h2, h⟩ := bind_inv h
  have hdiscover := sendDhcpMessage_within h2
  split at h
  · obtain ⟨rfl, rfl⟩ := pure_inv h
    exact .inl ⟨rfl, hdiscover⟩
  obtain ⟨selected, n3, h3, h⟩ := bind_inv h
  rcases dhcpSelect_cases h3 with ⟨rfl, hsel⟩ | ⟨rfl, m, m', hsel, hreq, rfl⟩
  · obtain ⟨rfl, rfl⟩ := pure_inv h
    exact .inl ⟨rfl, hdiscover.trans hsel⟩
  · obtain ⟨hawait, hres⟩ := dhcpAwaitAck_within h
    exact .inr ⟨m, m', hdiscover.trans hsel, hreq, hawait, hres⟩

end Request

section Call

variable {fuel : Nat} {n n' : Net} {ok : Bool} {cfg : NetConfig} {xid : UInt32}
  {t : List NetEvent}

theorem leasing_start (n : Net) (now : UInt32) :
    Leasing n.cfg (dhcpStart n now).dhcp.xid (dhcpStart n now) [] := by
  refine ⟨rfl, rfl, by simp, ⟨rfl, rfl, rfl, rfl⟩, ?_, ?_, ?_, fun _ => rfl, ?_, ?_⟩
  · intro _
    exact ⟨rfl, rfl, by simp⟩
  · intro h
    cases h
  · intro h
    cases h
  · intro p q c h
    cases p <;> cases h
  · intro p q h
    cases p <;> cases h

theorem firstOffer_of_offered {m : Net} (h : Leasing cfg xid m t)
    (hw : m.dhcp.waitingOffer = false) (h0 : m.dhcp.serverIp ≠ 0) :
    ∃ m0, firstOffer t = some m0 ∧ m0.yiaddr = m.dhcp.offeredIp ∧
      lastOption (·.serverIp) t = some m.dhcp.serverIp := by
  obtain ⟨m0, h1, h2⟩ := h.offered hw
  refine ⟨m0, h1, h2, ?_⟩
  have hs := h.stored.serverIp
  cases hl : lastOption (·.serverIp) t with
  | none =>
    rw [hl] at hs
    exact absurd hs h0
  | some v =>
    rw [hl] at hs
    rw [hs]
    rfl

theorem requestSent_leases {m m' : Net} (h : RequestSent m m') :
    Leases cfg xid m (m'.log .requested) := by
  obtain ⟨hc, hd, hh⟩ := sendDhcpMessage_sent h.sent
  refine ⟨[.sent (dhcpFrame m.cfg.mac m.dhcp.xid 3 m.dhcp.offeredIp m.dhcp.serverIp)] ++
    [.requested], ?_, ?_⟩
  · rw [← List.append_assoc, ← hh]
    exact dhcpHistory_log _ _
  · intro t0 _ hi
    rw [← List.append_assoc]
    have hsent : Leasing cfg xid m' (t0 ++ [.sent (dhcpFrame m.cfg.mac m.dhcp.xid 3
        m.dhcp.offeredIp m.dhcp.serverIp)]) := hi.other hc hd (by simp) (by simp) (by simp)
    refine hsent.other rfl rfl (by simp) (by simp) fun _ => ?_
    obtain ⟨m0, h1, h2, h3⟩ := firstOffer_of_offered hi h.waitingOffer h.serverIp
    refine ⟨t0, _, rfl, m0, m.dhcp.serverIp, h1, h3, ?_, h.serverIp, ?_⟩
    · rw [h2]
      exact h.offeredIp
    · rw [h2, hi.sameXid, hi.sameMac]

/-- The REQUEST of a call in its history. -/
theorem DhcpStages.history {start m m' : Net} (h : DhcpStages n ok n' start m m') :
    ∃ p q : List NetEvent, n'.dhcpHistory = start.dhcpHistory ++ (p ++ .requested :: q) := by
  obtain ⟨p, hp, -⟩ := h.select (Leases n.cfg 0) leases_stable
  obtain ⟨q, hq, -⟩ := h.await (Leases n.cfg 0) leases_stable
  obtain ⟨-, -, hs⟩ := sendDhcpMessage_sent h.request.sent
  have hr : (m'.log .requested).dhcpHistory = m'.dhcpHistory ++ [.requested] :=
    dhcpHistory_log _ _
  refine ⟨p ++ [.sent (dhcpFrame m.cfg.mac m.dhcp.xid 3 m.dhcp.offeredIp m.dhcp.serverIp)], q, ?_⟩
  rw [hq, hr, hs, hp]
  simp

/-- What a call of `net_dhcp_request` leaves, as long as the link is up. -/
theorem netDhcpRequest_leasing (h : netDhcpRequest fuel n = some (ok, n')) :
    ∃ t xid, n'.dhcpHistory = n.dhcpHistory ++ t ∧ (t = [] ∨ Leasing n.cfg xid n' t) ∧
      (ok = true → n'.cfg.dhcpConfigured = true ∧ ∃ p q : List NetEvent,
        t = p ++ .requested :: q) := by
  rcases netDhcpRequest_cases h with ⟨rfl, rfl⟩ | ⟨n1, now, hsame, hcall⟩
  · exact ⟨[], 0, (List.append_nil _).symm, .inl rfl, by simp⟩
  have hstart := leasing_start n1 now
  rw [hsame.cfg] at hstart
  have hhist : (dhcpStart n1 now).dhcpHistory = n.dhcpHistory := hsame.history
  rcases hcall with ⟨rfl, hw⟩ | ⟨m, m', hst⟩
  · obtain ⟨t, ht, hi⟩ := hw (Leases n.cfg (dhcpStart n1 now).dhcp.xid) leases_stable
    rw [hhist] at ht
    exact ⟨t, _, ht, .inr (hi [] trivial hstart), by simp⟩
  · have hleases : Leases n.cfg (dhcpStart n1 now).dhcp.xid (dhcpStart n1 now) n' := by
      apply leases_chains.trans _ _ _ (hst.select _ leases_stable)
      exact leases_chains.trans _ _ _ (requestSent_leases hst.request)
        (hst.await _ leases_stable)
    obtain ⟨t, ht, hi⟩ := hleases
    obtain ⟨p, q, hpq⟩ := hst.history
    have ht' := List.append_cancel_left (ht.symm.trans hpq)
    rw [hhist] at ht
    refine ⟨t, _, ht, .inr (hi [] trivial hstart), ?_⟩
    intro hok
    exact ⟨hst.result.symm.trans hok, p, q, ht'⟩

end Call

end VertexOS
