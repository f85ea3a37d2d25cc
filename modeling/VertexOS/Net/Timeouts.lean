import VertexOS.Net.Api

namespace VertexOS
open Library.Programs

/-! The calls of the client with the length of their waits as a number of ticks. -/

/-- A loop that polls while the clock shows fewer than `wait` ticks since `start`, or until `done`
holds. -/
def pollFor (poll : NetM Unit) (done : Net → Bool) (start : UInt32) (wait : Nat) :
    Nat → NetM Bool
  | 0 => fun _ => none
  | fuel + 1 => do
    let now ← pitGetTicks
    if (now - start).toNat < wait then
      poll
      let n ← get
      if done n then return true
      pollFor poll done start wait fuel
    else return false

/-- A ping that waits `wait` ticks for its reply. -/
def pingFor (fuel : Nat) (targetIp : UInt32) (wait : Nat) : NetM (Option UInt32) := do
  let n ← get
  if ¬n.cfg.linkUp ∨ n.cfg.ip = 0 then return none
  let now ← pitGetTicks
  modify fun n => pingStart n targetIp now
  let sent ← pitGetTicks
  modify fun n => { n with ping := { n.ping with sentTicks := sent } }
  let n ← get
  let p := pingPayload n.ping.ident n.ping.seq
  if ¬(← sendIpv4Packet (netPoll fuel) fuel targetIp 1 (fun _ => bufOf p) 64 n.ping.ident) then
    modify stopPing
    return none
  let start ← pitGetTicks
  if ← pollFor (netPoll fuel) (·.ping.gotReply) start wait fuel then
    let n ← get
    return some n.ping.rttMs
  modify stopPing
  return none

/-- A resolution that waits `wait` ticks for the response. -/
def resolveFor (fuel : Nat) (host : List UInt8) (wait : Nat) : NetM (Option UInt32) := do
  let n ← get
  if ¬n.cfg.linkUp ∨ n.cfg.ip = 0 ∨ n.cfg.dns = 0 ∨ host = [] then return none
  if let some ip := netParseIpv4 host then return some ip
  let now ← pitGetTicks
  modify fun n => dnsStart n now
  let n ← get
  match dnsEncodeName host 500 with
  | none =>
    modify stopDns
    return none
  | some name =>
    if 12 + name.length + 4 > 512 then
      modify stopDns
      return none
    let query := be16 n.dns.xid ++ be16 0x0100 ++ be16 1 ++ [0, 0, 0, 0, 0, 0] ++ name ++ [0, 1, 0, 1]
    if ¬(← sendUdpPacket (netPoll fuel) fuel n.cfg.dns 43210 53 query n.dns.xid) then
      modify stopDns
      return none
    let start ← pitGetTicks
    let _ ← pollFor (netPoll fuel) (fun n => !n.dns.waiting) start wait fuel
    let n ← get
    if ¬n.dns.gotReply ∨ n.dns.resultIp = 0 then return none
    return some n.dns.resultIp

/-- The wait for the connection, `wait` ticks with the repeated SYNs. -/
def connectFor (pollFuel : Nat) (start : UInt32) (wait : Nat) : Nat → Nat → NetM Bool
  | 0, _ => fun _ => none
  | fuel + 1, retries => do
    let now ← pitGetTicks
    if (now - start).toNat < wait then
      netPoll pollFuel
      let n ← get
      if n.tcp.established then return true
      if n.tcp.failed then return false
      let now ← pitGetTicks
      if retries < 3 ∧ now - n.tcp.connectSentTicks > n.pitFrequency / 2 then
        if ← sendOnTcp pollFuel 1 0 tcpFlagSyn [] then
          modify fun n => { n with tcp := { n.tcp with connectSentTicks := now } }
          connectFor pollFuel start wait fuel (retries + 1)
        else connectFor pollFuel start wait fuel retries
      else connectFor pollFuel start wait fuel retries
    else return true

/-- The request, and `wait` ticks for the response. -/
def exchangeFor (fuel : Nat) (host path : List UInt8) (wait : Nat) (r : HttpResponse) :
    NetM HttpResponse := do
  let n ← get
  let request := httpRequest host r.port path
  if request.length + 1 ≥ 384 then
    return ← finishHttp { r with result := .protocol }
  if ¬(← sendOnTcp fuel 0 n.tcp.seqRemote (tcpFlagAck ||| tcpFlagPsh) request) then
    return ← finishHttp { r with result := .timeout }
  modify fun n =>
    { n with tcp := { n.tcp with seqLocal := n.tcp.seqLocal + UInt32.ofNat request.length } }
  let start ← pitGetTicks
  let stopped ← pollFor (netPoll fuel) (fun n => n.tcp.failed || n.tcp.finSeen) start wait fuel
  let n ← get
  if stopped ∧ n.tcp.failed then return ← finishHttp { r with result := .protocol }
  httpAnswer fuel r

/-- `wait` ticks for the connection, and then the exchange. -/
def httpConnectFor (fuel : Nat) (host path : List UInt8) (ip : UInt32) (port : UInt16)
    (wait : Nat) (bodyOut : Option Buf) (bodyOutSize : UInt32) : NetM HttpResponse := do
  let r : HttpResponse := { result := .timeout, resolvedIp := ip, port := port }
  let ticks0 ← pitGetTicks
  let ticks1 ← pitGetTicks
  let ticks2 ← pitGetTicks
  let body := if bodyOutSize > 0 then bodyOut.map fun b => Function.update b 0 0 else bodyOut
  modify fun n => openTcp n ip port ticks0 ticks1 ticks2 body bodyOutSize
  if ¬(← sendOnTcp fuel 0 0 tcpFlagSyn []) then return ← finishHttp r
  let now ← pitGetTicks
  modify fun n => synSent n now
  let start ← pitGetTicks
  if ¬(← connectFor fuel start wait fuel 0) then
    return ← finishHttp { r with result := .protocol }
  let n ← get
  if ¬n.tcp.established then return ← finishHttp r
  exchangeFor fuel host path wait r

/-- A request that waits `wait` ticks for each of its answers. -/
def httpGetFor (fuel : Nat) (url : List UInt8) (wait : Nat) (bodyOut : Option Buf)
    (bodyOutSize : UInt32) : NetM HttpResponse := do
  match parseHttpUrl url 128 with
  | .error e => return { result := e, body := bodyOut }
  | .ok (host, port, path) =>
    let n ← get
    if ¬n.cfg.linkUp then return { result := .linkDown, body := bodyOut }
    if n.cfg.ip = 0 then return { result := .noIp, body := bodyOut }
    match ← resolveFor fuel host wait with
    | none => return { result := .dnsFailed, body := bodyOut }
    | some ip => httpConnectFor fuel host path ip port wait bodyOut bodyOutSize

/-- The calls that wait. -/
inductive TimedCall where
  | ping
  | resolve
  | httpGet

/-- The states with a tick rate. -/
def AtRate (freq : UInt32) (n : Net) : Prop := n.pitFrequency = freq

/-- At a tick rate, with the timeout `timeoutMs`, the call waits `wait` ticks; `net_http_get`
refuses a timeout of 0. -/
def TimedCall.WaitsFor (freq timeoutMs : UInt32) (wait : Nat) : TimedCall → Prop
  | .ping => ∀ fuel targetIp n, AtRate freq n →
    netPing fuel targetIp timeoutMs n = pingFor fuel targetIp wait n
  | .resolve => ∀ fuel host n, AtRate freq n →
    netResolveIpv4 fuel host timeoutMs n = resolveFor fuel host wait n
  | .httpGet => timeoutMs ≠ 0 → ∀ fuel url out size n, AtRate freq n →
    netHttpGet fuel url timeoutMs out size n = httpGetFor fuel url wait out size n

def KeepsRate (freq : UInt32) (n n' : Net) : Prop := AtRate freq n → AtRate freq n'

section Rate

variable {freq : UInt32}

theorem keepsRate_chains : Chains (KeepsRate freq) where
  refl _ := id
  trans _ _ _ h h' := h' ∘ h

theorem hwEvent_keepsRate (n : Net) (e : HwEvent) : KeepsRate freq n (hwEvent n e) := by
  intro h
  cases e with
  | tick => exact h
  | txDone i => exact h
  | arrive p =>
    simp only [hwEvent, receiveFrame]
    split
    · exact h
    · exact h

theorem dnsReceive_keepsRate (n : Net) (payload len : Nat) :
    KeepsRate freq n (dnsReceive n payload len) := by
  intro h
  simp only [dnsReceive]
  repeat' split
  all_goals exact h

theorem dhcpReceive_keepsRate (n : Net) (payload len : Nat) :
    KeepsRate freq n (dhcpReceive n payload len) := by
  intro h
  simp only [dhcpReceive, dhcpTransition]
  repeat' split
  all_goals exact h

theorem keepsRate_handlers : HandlerStable (KeepsRate freq) where
  toChains := keepsRate_chains
  access := access_of_hwEvent keepsRate_chains hwEvent_keepsRate fun _ _ => id
  startTx _ _ := id
  buildFrame _ _ _ _ _ := id
  buildIpv4 _ _ _ _ _ _ := id
  learnArp _ _ _ := id
  dnsReceive := dnsReceive_keepsRate
  dhcpReceive := dhcpReceive_keepsRate
  buildAck _ _ _ _ _ _ := id
  pingReply _ _ := id

theorem keepsRate_polling : PollStable (KeepsRate freq) where
  clearIsr _ _ := id
  polled _ _ := id
  enterFrame _ _ := id
  leaveFrame _ _ := id
  advanceRx _ _ := id

theorem keepsRate_tcp : TcpStable (KeepsRate freq) where
  noteSegment _ _ _ := id
  failed _ := id
  acceptSynAck _ _ := id
  acceptData _ _ := id
  acceptFin _ _ := id
  handled _ := id

theorem netPoll_keepsRate (fuel : Nat) : Keeps (KeepsRate freq) (netPoll fuel) := by
  refine netPoll_keeps keepsRate_handlers keepsRate_polling ?_ fuel
  intro poll hpoll
  exact tcpReceive_keeps (keepsRate_handlers.toPacketStable.steps hpoll) keepsRate_tcp

theorem keepsRate_api : ApiStable (KeepsRate freq) where
  toHandlerStable := keepsRate_handlers
  poll := netPoll_keepsRate
  buildUdp _ _ _ _ := id
  buildTcp _ _ _ _ _ _ _ _ := id
  dnsStart _ _ := id
  stopDns _ := id
  tcpLocal _ _ _ := id
  dhcpStart _ _ := id
  requested _ := id
  openTcp _ _ _ _ _ _ _ _ := id
  fetched _ := id
  closeTcp _ := id
  pingStart _ _ _ := id
  pingSent _ _ := id
  stopPing _ := id

end Rate

section Equal

variable {freq timeoutMs : UInt32} {wait : Nat}

/-- At a tick rate, the timeout makes so many ticks. -/
def MakesTicks (freq timeoutMs : UInt32) (wait : Nat) : Prop :=
  ∀ n, AtRate freq n → (timeoutTicks n timeoutMs).toNat = wait

theorem pollUntil_eq_pollFor (poll : NetM Unit) (done : Net → Bool) (start timeout : UInt32)
    (fuel : Nat) : pollUntil poll done start timeout fuel =
      pollFor poll done start timeout.toNat fuel := by
  induction fuel with
  | zero => rfl
  | succ fuel ih => simp only [pollUntil, pollFor, ih, UInt32.lt_iff_toNat_lt]

theorem connectLoop_eq_connectFor (pollFuel : Nat) (start timeout : UInt32) (fuel retries : Nat) :
    connectLoop pollFuel start timeout fuel retries =
      connectFor pollFuel start timeout.toNat fuel retries := by
  induction fuel generalizing retries with
  | zero => rfl
  | succ fuel ih => simp only [connectLoop, connectFor, ih, UInt32.lt_iff_toNat_lt]

theorem httpExchange_eq_exchangeFor (fuel : Nat) (host path : List UInt8) (timeout : UInt32)
    (r : HttpResponse) : httpExchange fuel host path timeout r =
      exchangeFor fuel host path timeout.toNat r := by
  simp only [httpExchange, exchangeFor, pollUntil_eq_pollFor]

/-- Up to the wait both do the same; what comes before it keeps the tick rate. -/
theorem netPing_alike (hticks : MakesTicks freq timeoutMs wait) (fuel : Nat) (targetIp : UInt32) :
    AlikeOn (AtRate freq) (netPing fuel targetIp timeoutMs) (pingFor fuel targetIp wait) := by
  have hrate : ApiSteps (KeepsRate freq) := keepsRate_api.steps
  have hnow := pitGetTicks_keeps hrate.toTimeStable
  refine .get_bind fun n _ => ?_
  refine .ite (.refl _) ?_
  refine .bind (.refl _) hnow fun now => ?_
  refine .bind (.refl _) (Keeps.modify fun n => hrate.pingStart n _ _) fun _ => ?_
  refine .bind (.refl _) hnow fun sent => ?_
  refine .bind (.refl _) (Keeps.modify fun n => hrate.pingSent n _) fun _ => ?_
  refine .get_bind fun n _ => ?_
  refine .bind (.refl _) (hrate.sendPing _ _ _ _) fun sent => ?_
  refine .ite (.refl _) ?_
  refine .bind (.refl _) hnow fun start => ?_
  intro n hn
  rw [get_bind_run, pollUntil_eq_pollFor, hticks n hn]

theorem netResolveIpv4_alike (hticks : MakesTicks freq timeoutMs wait) (fuel : Nat)
    (host : List UInt8) : AlikeOn (AtRate freq) (netResolveIpv4 fuel host timeoutMs)
      (resolveFor fuel host wait) := by
  have hrate : ClientSteps (KeepsRate freq) := keepsRate_api.toClientStable.steps
  have hnow := pitGetTicks_keeps hrate.toTimeStable
  refine .get_bind fun n _ => ?_
  refine .ite (.refl _) ?_
  cases netParseIpv4 host with
  | some ip => exact .refl _
  | none =>
    refine .bind (.refl _) hnow fun now => ?_
    refine .bind (.refl _) (Keeps.modify fun n => hrate.dnsStart n _) fun _ => ?_
    refine .get_bind fun n _ => ?_
    cases dnsEncodeName host 500 with
    | none => exact .refl _
    | some name =>
      refine .ite (.refl _) ?_
      refine .bind (.refl _) (hrate.sendUdp _ _ _ _ _ _ _) fun sent => ?_
      refine .ite (.refl _) ?_
      refine .bind (.refl _) hnow fun start => ?_
      intro n hn
      rw [get_bind_run, pollUntil_eq_pollFor, hticks n hn]

theorem httpConnect_alike (hticks : MakesTicks freq timeoutMs wait) (fuel : Nat)
    (host path : List UInt8) (ip : UInt32) (port : UInt16) (out : Option Buf) (size : UInt32) :
    AlikeOn (AtRate freq) (httpConnect fuel host path ip port timeoutMs out size)
      (httpConnectFor fuel host path ip port wait out size) := by
  intro n hn
  rw [httpConnect, get_bind_run, httpConnectFor]
  simp only [connectLoop_eq_connectFor, httpExchange_eq_exchangeFor, hticks n hn]

theorem netHttpGet_alike (hticks : MakesTicks freq timeoutMs wait) (hpos : timeoutMs ≠ 0)
    (fuel : Nat) (url : List UInt8) (out : Option Buf) (size : UInt32) :
    AlikeOn (AtRate freq) (netHttpGet fuel url timeoutMs out size)
      (httpGetFor fuel url wait out size) := by
  have hrate : ClientSteps (KeepsRate freq) := keepsRate_api.toClientStable.steps
  rw [netHttpGet, if_neg hpos, httpGetFor]
  rcases parseHttpUrl url 128 with e | ⟨host, port, path⟩
  · exact .refl _
  refine .get_bind fun n _ => ?_
  refine .ite (.refl _) ?_
  refine .ite (.refl _) ?_
  refine .bind (netResolveIpv4_alike hticks fuel host) (netResolveIpv4_keeps hrate _ _ _) ?_
  rintro (_ | ip)
  · exact .refl _
  · exact httpConnect_alike hticks _ _ _ _ _ _ _

/-- A call waits for the ticks of its timeout. -/
theorem TimedCall.waitsFor (hticks : MakesTicks freq timeoutMs wait) (c : TimedCall) :
    c.WaitsFor freq timeoutMs wait := by
  cases c with
  | ping =>
    intro fuel targetIp
    exact netPing_alike hticks fuel targetIp
  | resolve =>
    intro fuel host
    exact netResolveIpv4_alike hticks fuel host
  | httpGet =>
    intro hpos fuel url out size
    exact netHttpGet_alike hticks hpos fuel url out size

end Equal

section Distinct

variable (freq : UInt32) {a b late : Nat} {n : Net}

/-- Nothing but time passes. -/
theorem ticks_pass (k : Nat) (n : Net) : (List.replicate k .tick).foldl hwEvent n =
    { n with ticks := n.ticks + UInt32.ofNat k } := by
  induction k generalizing n with
  | zero => simp
  | succ k ih =>
    rw [List.replicate_succ, List.foldl_cons, ih]
    simp only [hwEvent, UInt32.ofNat_add]
    congr 1
    rw [UInt32.add_assoc, UInt32.add_comm 1]
    rfl

/-- A wait is about to begin, and `late` ticks pass before its first reading of the clock. -/
structure Late (n : Net) (late : Nat) : Prop where
  now : n.ticks = 0
  first : n.env n.accesses = List.replicate late .tick
  second : n.env (n.accesses + 1) = []
  link : n.cfg.linkUp = true
  up : n.drv.up = true
  quiet : n.nic.isr = 0

theorem Late.access_eq (h : Late n late) :
    access n = { n with ticks := UInt32.ofNat late, accesses := n.accesses + 1 } := by
  rw [access, h.first, ticks_pass, h.now, UInt32.zero_add]

/-- Nothing arrives during the first poll. -/
theorem Late.poll (h : Late n late) : netPoll 1 (access n) =
    some ((), { n with ticks := UInt32.ofNat late, accesses := n.accesses + 2 }) := by
  have hnext : access { n with ticks := UInt32.ofNat late, accesses := n.accesses + 1 } =
      { n with ticks := UInt32.ofNat late, accesses := n.accesses + 2 } := by
    rw [access, h.second]
    rfl
  rw [h.access_eq, netPoll, get_bind_run, if_neg (by simp [h.link]), rtl8139Poll, get_bind_run,
    if_neg (by simp [h.up]), modify_bind_run, get_bind_run, hnext, if_pos h.quiet]
  rfl

/-- A wait of `late` ticks is over at once, and a longer one goes on. -/
theorem Late.wait (h : Late n late) (done : Net → Bool) (hlate : late < 2 ^ 32)
    (hdone : ∀ t k, done { n with ticks := t, accesses := k } = false) (w : Nat) :
    pollFor (netPoll 1) done 0 late 1 n = some (false, access n) ∧
    (late < w → pollFor (netPoll 1) done 0 w 1 n = none) := by
  have hnow : ((access n).ticks - 0).toNat = late := by
    rw [h.access_eq, UInt32.sub_zero, UInt32.toNat_ofNat', Nat.mod_eq_of_lt hlate]
  have hread (w : Nat) : pollFor (netPoll 1) done 0 w 1 n =
      (if ((access n).ticks - 0).toNat < w then do
        netPoll 1
        let n ← get
        if done n then return true
        pollFor (netPoll 1) done 0 w 0
      else return false : NetM Bool) (access n) := rfl
  constructor
  · rw [hread, if_neg (by omega)]
    rfl
  · intro hw
    rw [hread, if_pos (by omega), bind_run h.poll, get_bind_run, hdone]
    rfl

/-- The machine of a host that knows its name server 10.0.0.2; at one access `late` ticks pass. -/
def lateNet (freq : UInt32) (index late : Nat) : Net :=
  { cfg := { mac := broadcastMac, ip := 0x0A000001, dns := 0x0A000002, linkUp := true }
    arp := ⟨true, 0x0A000002, broadcastMac⟩
    drv := { up := true }
    pitFrequency := freq
    env := fun i => if i = index then List.replicate late .tick else [] }

/-- What `net_ping` has done when its wait begins. -/
def pingBegun (n : Net) : Net :=
  let n := pingStart (access n) 0x0A000002 (access n).ticks
  let n := access n
  let n := { n with ping := { n.ping with sentTicks := n.ticks } }
  let p := pingPayload n.ping.ident n.ping.seq
  let n := buildIpv4 n 0x0A000002 1 (bufOf p) 64 n.ping.ident
  let n := buildFrame n broadcastMac ethTypeIpv4 n.bufs.ipv4 84
  let n := access n
  let n := startTx n (bytesAt n.bufs.eth 0 98)
  access n

theorem pingFor_late (w late : Nat) : pingFor 1 0x0A000002 w (lateNet freq 4 late) =
    (do
      if ← pollFor (netPoll 1) (·.ping.gotReply) 0 w 1 then
        let n ← get
        return some n.ping.rttMs
      modify stopPing
      return none : NetM (Option UInt32)) (pingBegun (lateNet freq 4 late)) := rfl

theorem pingBegun_late (late : Nat) : Late (pingBegun (lateNet freq 4 late)) late :=
  ⟨rfl, rfl, rfl, rfl, rfl, rfl⟩

/-- What `net_resolve_ipv4` has done when its wait for the host `a` begins. -/
def resolveBegun (n : Net) : Net :=
  let n := dnsStart (access n) (access n).ticks
  let query := be16 n.dns.xid ++ be16 0x0100 ++ be16 1 ++ [0, 0, 0, 0, 0, 0] ++ [1, 97, 0] ++
    [0, 1, 0, 1]
  let n := buildUdp n 43210 53 query
  let n := buildIpv4 n 0x0A000002 17 n.bufs.udp 27 n.dns.xid
  let n := buildFrame n broadcastMac ethTypeIpv4 n.bufs.ipv4 47
  let n := access n
  let n := startTx n (bytesAt n.bufs.eth 0 61)
  access n

theorem resolveFor_late (w late : Nat) : resolveFor 1 [97] w (lateNet freq 3 late) =
    (do
      let _ ← pollFor (netPoll 1) (fun n => !n.dns.waiting) 0 w 1
      let n ← get
      if ¬n.dns.gotReply ∨ n.dns.resultIp = 0 then return none
      return some n.dns.resultIp : NetM (Option UInt32)) (resolveBegun (lateNet freq 3 late)) := by
  have hparse : netParseIpv4 [97] = none := by decide +kernel
  have hname : dnsEncodeName [97] 500 = some [1, 97, 0] := by decide +kernel
  rw [resolveFor, hparse, hname]
  rfl

theorem resolveBegun_late (late : Nat) : Late (resolveBegun (lateNet freq 3 late)) late :=
  ⟨rfl, rfl, rfl, rfl, rfl, rfl⟩

/-- Where `a` ticks pass at once, a call that waits `a` ticks returns and one that waits `b` does
not. -/
theorem pingFor_distinct (ha : a < 2 ^ 32) (hab : a < b) :
    (∃ r, pingFor 1 0x0A000002 a (lateNet freq 4 a) = some r) ∧
    pingFor 1 0x0A000002 b (lateNet freq 4 a) = none := by
  obtain ⟨hover, hgoes⟩ :=
    (pingBegun_late freq a).wait (·.ping.gotReply) ha (fun _ _ => rfl) b
  rw [pingFor_late, pingFor_late, bind_run hover]
  exact ⟨⟨_, rfl⟩, bind_none_run (hgoes hab) _⟩

theorem resolveFor_distinct (ha : a < 2 ^ 32) (hab : a < b) :
    (∃ n, resolveFor 1 [97] a (lateNet freq 3 a) = some (none, n)) ∧
    resolveFor 1 [97] b (lateNet freq 3 a) = none := by
  obtain ⟨hover, hgoes⟩ :=
    (resolveBegun_late freq a).wait (fun n => !n.dns.waiting) ha (fun _ _ => rfl) b
  rw [(resolveBegun_late freq a).access_eq] at hover
  rw [resolveFor_late, resolveFor_late, bind_run hover]
  exact ⟨⟨_, rfl⟩, bind_none_run (hgoes hab) _⟩

theorem httpGetFor_distinct (ha : a < 2 ^ 32) (hab : a < b) :
    (∃ r, httpGetFor 1 [97] a none 0 (lateNet freq 3 a) = some r) ∧
    httpGetFor 1 [97] b none 0 (lateNet freq 3 a) = none := by
  have hurl : parseHttpUrl [97] 128 = .ok ([97], 80, [47]) := by decide +kernel
  have hcall (w : Nat) : httpGetFor 1 [97] w none 0 (lateNet freq 3 a) =
      (do
        match ← resolveFor 1 [97] w with
        | none => return { result := .dnsFailed, body := none }
        | some ip => httpConnectFor 1 [97] [47] ip 80 w none 0 : NetM HttpResponse)
      (lateNet freq 3 a) := by
    rw [httpGetFor, hurl]
    rfl
  obtain ⟨⟨n, hreturns⟩, hgoes⟩ := resolveFor_distinct freq ha hab
  rw [hcall, hcall, bind_run hreturns]
  exact ⟨⟨_, rfl⟩, bind_none_run hgoes _⟩

/-- Programs that wait are the same for one wait only. -/
theorem wait_unique {α : Type} (f : Nat → NetM α)
    (hfar : ∀ a b, a < 2 ^ 32 → a < b → ∃ n, AtRate freq n ∧ (∃ r, f a n = some r) ∧ f b n = none)
    (ha : a < 2 ^ 32) (hsame : ∀ n, AtRate freq n → f a n = f b n) : a = b := by
  rcases Nat.lt_trichotomy a b with hlt | heq | hgt
  · obtain ⟨n, hn, ⟨r, hreturns⟩, hgoes⟩ := hfar a b ha hlt
    rw [← hsame n hn, hreturns] at hgoes
    cases hgoes
  · exact heq
  · obtain ⟨n, hn, ⟨r, hreturns⟩, hgoes⟩ := hfar b a (Nat.lt_trans hgt ha) hgt
    rw [hsame n hn, hreturns] at hgoes
    cases hgoes

end Distinct

section Ticks

variable {freq timeoutMs : UInt32} {wait : Nat}

theorem timeoutTicks_toNat (n : Net) (v : UInt32) : (timeoutTicks n v).toNat =
    max 1 (v.toNat * n.pitFrequency.toNat % 2 ^ 32 / 1000) := by
  have hdiv : (v * n.pitFrequency / 1000).toNat =
      v.toNat * n.pitFrequency.toNat % 2 ^ 32 / 1000 := by
    rw [UInt32.toNat_div, UInt32.toNat_mul]
    rfl
  rw [timeoutTicks, ← hdiv]
  split
  · next hzero => simp [hzero]
  · next hpos =>
    have hne : (v * n.pitFrequency / 1000).toNat ≠ 0 := fun h => hpos (UInt32.toNat_inj.mp h)
    omega

theorem TimedCall.waitsFor_ticks (freq timeoutMs : UInt32) (c : TimedCall) :
    c.WaitsFor freq timeoutMs (max 1 (timeoutMs.toNat * freq.toNat % 2 ^ 32 / 1000)) := by
  refine c.waitsFor fun n hn => ?_
  rw [timeoutTicks_toNat, hn]

/-- A call waits for the ticks of its timeout, and for no other number. -/
theorem TimedCall.waitsFor_iff (c : TimedCall) (hv : c = .httpGet → timeoutMs ≠ 0) :
    c.WaitsFor freq timeoutMs wait ↔
      max 1 (timeoutMs.toNat * freq.toNat % 2 ^ 32 / 1000) = wait := by
  have hwaits := c.waitsFor_ticks freq timeoutMs
  constructor
  · intro hwait
    have hsmall : max 1 (timeoutMs.toNat * freq.toNat % 2 ^ 32 / 1000) < 2 ^ 32 := by omega
    cases c with
    | ping =>
      refine wait_unique freq (pingFor 1 0x0A000002) ?_ hsmall ?_
      · exact fun a b ha hab => ⟨lateNet freq 4 a, rfl, pingFor_distinct freq ha hab⟩
      · exact fun n hn => (hwaits 1 _ n hn).symm.trans (hwait 1 _ n hn)
    | resolve =>
      refine wait_unique freq (resolveFor 1 [97]) ?_ hsmall ?_
      · intro a b ha hab
        obtain ⟨⟨n, hreturns⟩, hgoes⟩ := resolveFor_distinct freq ha hab
        exact ⟨lateNet freq 3 a, rfl, ⟨_, hreturns⟩, hgoes⟩
      · exact fun n hn => (hwaits 1 _ n hn).symm.trans (hwait 1 _ n hn)
    | httpGet =>
      refine wait_unique freq (fun w => httpGetFor 1 [97] w none 0) ?_ hsmall ?_
      · exact fun a b ha hab => ⟨lateNet freq 3 a, rfl, httpGetFor_distinct freq ha hab⟩
      · intro n hn
        exact (hwaits (hv rfl) 1 _ _ _ n hn).symm.trans (hwait (hv rfl) 1 _ _ _ n hn)
  · rintro rfl
    exact hwaits

end Ticks

end VertexOS
