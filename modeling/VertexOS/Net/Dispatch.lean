import VertexOS.Net.LeaseRuns
import VertexOS.Net.RxRing

namespace VertexOS
open Library.Programs

/-- The events of the handlers. -/
def NetEvent.ofHandler : NetEvent → Bool
  | .dispatched _ | .returned _ => true
  | _ => false

/-- The events of reception. -/
def NetEvent.ofReception : NetEvent → Bool
  | .received _ | .polled _ | .dispatched _ | .returned _ => true
  | _ => false

def Net.handlerHistory (n : Net) : List NetEvent := n.trace.filter NetEvent.ofHandler

/-- One handler after the other, each with the bytes of its own frame until it
returns. -/
def turns (frames : List (List UInt8)) : List NetEvent :=
  frames.flatMap fun f => [.dispatched f, .returned f]

/-- A poll inside a handler has found the interrupt status set, and a handler
was entered before the last one returned. -/
def Nested (n : Net) : Prop :=
  .polled true ∈ n.trace ∧
    ∃ before f g after, n.handlerHistory = before ++ .dispatched f :: .dispatched g :: after

/-- No handler has been entered or left, and none has polled with success. -/
structure SameHandler (n n' : Net) : Prop where
  trace : n.trace <+: n'.trace
  rxFrameTmp : n'.drv.rxFrameTmp = n.drv.rxFrameTmp
  depth : n'.depth = n.depth
  linkUp : n'.cfg.linkUp = n.cfg.linkUp
  history : n'.handlerHistory = n.handlerHistory
  nested : .polled true ∈ n'.trace → .polled true ∈ n.trace

/-- At most the hardware has been accessed. -/
structure Passive (n n' : Net) : Prop extends SameHandler n n' where
  accessed : ∃ k, SameRx n' (access^[k] n)

section Traces

variable {n n' : Net} {e : NetEvent}

theorem turns_append (fs gs : List (List UInt8)) : turns (fs ++ gs) = turns fs ++ turns gs :=
  List.flatMap_append

/-- Between two handlers the first one returns. -/
theorem turns_ne (frames : List (List UInt8)) (before after : List NetEvent) (f g : List UInt8) :
    turns frames ≠ before ++ .dispatched f :: .dispatched g :: after := by
  induction frames generalizing before with
  | nil =>
    intro h
    cases before <;> cases h
  | cons frame frames ih =>
    intro h
    change .dispatched frame :: .returned frame :: turns frames = _ at h
    cases before with
    | nil => cases h
    | cons a before =>
      cases before with
      | nil => cases h
      | cons b before =>
        simp only [List.cons_append, List.cons.injEq] at h
        exact ih before h.2.2

theorem handlerHistory_log (n : Net) (e : NetEvent) : (n.log e).handlerHistory =
    if e.ofHandler then n.handlerHistory ++ [e] else n.handlerHistory := by
  simp only [Net.handlerHistory, Net.log, List.filter_append, List.filter_singleton]
  cases e.ofHandler <;> simp

theorem enterFrame_history (n : Net) (len : Nat) : (enterFrame n len).handlerHistory =
    n.handlerHistory ++ [.dispatched (bytesAt (enterFrame n len).drv.rxFrameTmp 0 len)] :=
  handlerHistory_log _ _

theorem leaveFrame_history (n : Net) (len : Nat) : (leaveFrame n len).handlerHistory =
    n.handlerHistory ++ [.returned (bytesAt n.drv.rxFrameTmp 0 len)] :=
  handlerHistory_log _ _

theorem Nested.later (h : Nested n) (hn : n.trace <+: n'.trace) : Nested n' := by
  obtain ⟨hpolled, before, f, g, after, hh⟩ := h
  obtain ⟨rest, hrest⟩ := hn
  refine ⟨?_, before, f, g, after ++ rest.filter NetEvent.ofHandler, ?_⟩
  · simp [← hrest, hpolled]
  · rw [Net.handlerHistory, ← hrest, List.filter_append]
    change n.handlerHistory ++ _ = _
    simp [hh]

theorem sameHandler_chains : Chains SameHandler := by
  constructor
  · intro n
    exact ⟨List.prefix_refl _, rfl, rfl, rfl, rfl, id⟩
  · intro n1 n2 n3 h h'
    exact ⟨h.trace.trans h'.trace, h'.rxFrameTmp.trans h.rxFrameTmp, h'.depth.trans h.depth,
      h'.linkUp.trans h.linkUp, h'.history.trans h.history, h.nested ∘ h'.nested⟩

theorem sameHandler_hwEvent (n : Net) (e : HwEvent) : SameHandler n (hwEvent n e) := by
  cases e with
  | tick => exact ⟨List.prefix_refl _, rfl, rfl, rfl, rfl, id⟩
  | txDone i => exact ⟨List.prefix_refl _, rfl, rfl, rfl, rfl, id⟩
  | arrive p =>
    simp only [hwEvent, receiveFrame]
    split
    · refine ⟨List.prefix_append _ _, rfl, rfl, rfl, ?_, ?_⟩
      · rw [handlerHistory_log]
        rfl
      · simp [Net.log]
    · exact ⟨List.prefix_refl _, rfl, rfl, rfl, rfl, id⟩

theorem sameHandler_access (n : Net) : SameHandler n (access n) :=
  access_of_hwEvent sameHandler_chains sameHandler_hwEvent
    (fun _ _ => ⟨List.prefix_refl _, rfl, rfl, rfl, rfl, id⟩) n

theorem rxView_accesses_congr (h : SameRx n n') (k : Nat) :
    SameRx (access^[k] n) (access^[k] n') := by
  change rxView _ = rxView _
  rw [rxView_iterate, rxView_iterate, show rxView n = rxView n' from h]

theorem passive_chains : Chains Passive := by
  constructor
  · intro n
    exact ⟨sameHandler_chains.refl n, 0, rfl⟩
  · intro n1 n2 n3 h h'
    obtain ⟨k, hk⟩ := h.accessed
    obtain ⟨k', hk'⟩ := h'.accessed
    refine ⟨sameHandler_chains.trans _ _ _ h.toSameHandler h'.toSameHandler, k' + k, ?_⟩
    change rxView n3 = rxView _
    rw [Function.iterate_add_apply]
    exact Eq.trans hk' (rxView_accesses_congr hk k')

theorem passive_access (n : Net) : Passive n (access n) :=
  ⟨sameHandler_access n, 1, rfl⟩

/-- An update that reception does not see. -/
theorem Passive.same (hrx : SameRx n' n) (htrace : n'.trace = n.trace)
    (htmp : n'.drv.rxFrameTmp = n.drv.rxFrameTmp) (hdepth : n'.depth = n.depth)
    (hlink : n'.cfg.linkUp = n.cfg.linkUp) : Passive n n' := by
  refine ⟨⟨?_, htmp, hdepth, hlink, ?_, ?_⟩, 0, hrx⟩
  · rw [htrace]
  · rw [Net.handlerHistory, htrace]
    rfl
  · rw [htrace]
    exact id

theorem Passive.log (h : Passive n n') (he : e.ofReception = false) : Passive n (n'.log e) := by
  obtain ⟨k, hk⟩ := h.accessed
  have hhandler : e.ofHandler = false := by
    cases e <;> first | rfl | cases he
  have hsame : SameRx (n'.log e) n' := by
    have hr : receivedFrames [e] = [] := by
      cases e <;> first | rfl | cases he
    have hd : dispatchedFrames [e] = [] := by
      cases e <;> first | rfl | cases he
    change rxView _ = rxView _
    simp only [rxView, Net.log, receivedFrames_append, dispatchedFrames_append, hr, hd,
      List.append_nil]
  refine ⟨⟨h.trace.trans (List.prefix_append _ _), h.rxFrameTmp, h.depth, h.linkUp, ?_, ?_⟩,
    k, Eq.trans hsame hk⟩
  · rw [handlerHistory_log, hhandler, h.history]
    rfl
  · intro hm
    rcases List.mem_append.mp hm with hm | hm
    · exact h.nested hm
    · rw [← List.mem_singleton.mp hm] at he
      cases he

/-- An update that reception does not see, and its entry in the history. -/
theorem Passive.logged {m : Net} (hrx : SameRx m n) (htrace : m.trace = n.trace)
    (htmp : m.drv.rxFrameTmp = n.drv.rxFrameTmp) (hdepth : m.depth = n.depth)
    (hlink : m.cfg.linkUp = n.cfg.linkUp) (he : e.ofReception = false) : Passive n (m.log e) :=
  (Passive.same hrx htrace htmp hdepth hlink).log he

end Traces

section Steps

theorem dhcpReceive_passive (n : Net) (payload len : Nat) :
    Passive n (dhcpReceive n payload len) := by
  rcases dhcpReceive_cases n payload len with he | ⟨m, -, he⟩
  · rw [he]
    exact passive_chains.refl n
  have hstore : Passive n (({ n with dhcp := n.dhcp.store m.options }).log (.dhcp m)) :=
    .logged rfl rfl rfl rfl rfl rfl
  rw [he, acceptDhcp, dhcpTransition]
  split
  · exact passive_chains.trans _ _ _ hstore (.same rfl rfl rfl rfl rfl)
  split
  · refine passive_chains.trans _ _ _ hstore (.logged rfl rfl rfl rfl ?_ rfl)
    simp only [ackConfig, apply_ite NetConfig.linkUp, ite_self]
  · exact hstore

theorem dnsReceive_passive (n : Net) (payload len : Nat) : Passive n (dnsReceive n payload len) := by
  simp only [dnsReceive]
  repeat' split
  all_goals exact .same rfl rfl rfl rfl rfl

theorem passive_handlers : HandlerStable Passive where
  toChains := passive_chains
  access := passive_access
  startTx _ _ := .logged rfl rfl rfl rfl rfl rfl
  buildFrame _ _ _ _ _ := .same rfl rfl rfl rfl rfl
  buildIpv4 _ _ _ _ _ _ := .same rfl rfl rfl rfl rfl
  learnArp _ _ _ := .same rfl rfl rfl rfl rfl
  pingReply _ _ := .same rfl rfl rfl rfl rfl
  dnsReceive := dnsReceive_passive
  dhcpReceive := dhcpReceive_passive
  buildAck _ _ _ _ _ _ := .logged rfl rfl rfl rfl rfl rfl

theorem acceptData_passive (n : Net) (data : List UInt8) : Passive n (acceptData n data) :=
  .logged rfl rfl rfl rfl rfl rfl

theorem passive_tcp : TcpStable Passive where
  noteSegment _ _ _ := .logged rfl rfl rfl rfl rfl rfl
  failed _ := .same rfl rfl rfl rfl rfl
  acceptSynAck _ _ := .logged rfl rfl rfl rfl rfl rfl
  acceptData := acceptData_passive
  acceptFin _ _ := .logged rfl rfl rfl rfl rfl rfl
  handled _ := .logged rfl rfl rfl rfl rfl rfl

/-- The history only grows. -/
def Extends (n n' : Net) : Prop := n.trace <+: n'.trace

theorem extends_chains : Chains Extends := by
  constructor
  · intro n
    exact List.prefix_refl _
  · intro n1 n2 n3 h h'
    exact h.trans h'

theorem Passive.extends {n n' : Net} (h : Passive n n') : Extends n n' := h.trace

theorem extends_handlers : HandlerStable Extends :=
  passive_handlers.mono extends_chains fun _ _ => Passive.extends

theorem TcpStable.mono {R R' : Net → Net → Prop} (hle : ∀ n n', R n n' → R' n n')
    (h : TcpStable R) : TcpStable R' where
  noteSegment n t s := hle _ _ (h.noteSegment n t s)
  failed n := hle _ _ (h.failed n)
  acceptSynAck n s := hle _ _ (h.acceptSynAck n s)
  acceptData n d := hle _ _ (h.acceptData n d)
  acceptFin n s := hle _ _ (h.acceptFin n s)
  handled n := hle _ _ (h.handled n)

theorem extends_polling : PollStable Extends where
  clearIsr _ _ := List.prefix_refl _
  polled _ _ := List.prefix_append _ _
  enterFrame _ _ := List.prefix_append _ _
  leaveFrame _ _ := List.prefix_append _ _
  advanceRx _ _ := List.prefix_refl _

theorem extends_tcp (poll : NetM Unit) (hpoll : Keeps Extends poll) : TcpKeeps Extends poll := by
  intro fuel s
  exact tcpReceive_keeps (extends_handlers.steps hpoll).toHandlerSteps
    (passive_tcp.mono fun _ _ => Passive.extends) fuel s

theorem netPoll_extends (fuel : Nat) : Keeps Extends (netPoll fuel) :=
  netPoll_keeps extends_handlers extends_polling extends_tcp fuel

theorem netOnFrame_extends (fuel len : Nat) : Keeps Extends (netOnFrame (netPoll fuel) fuel len) :=
  netOnFrame_keeps (extends_handlers.steps (netPoll_extends fuel))
    (extends_tcp _ (netPoll_extends fuel))
    fuel len

end Steps

/-- A handler is active: its frame is still unread. -/
structure Handling (n : Net) : Prop where
  depth : 0 < n.depth
  ring : ∃ p ps, RingHolds (rxView n) (p :: ps)
  entered : ∃ before f, n.handlerHistory = before ++ [.dispatched f]

/-- What a handler does to reception: nothing, unless it polls with success. -/
def WithinHandler (n n' : Net) : Prop := Extends n n' ∧ (Handling n → Nested n' ∨ Passive n n')

section WithinHandler

variable {n n' : Net}

theorem Handling.passive (h : Handling n) (hp : Passive n n') : Handling n' := by
  obtain ⟨hdepth, ⟨p, ps, hring⟩, hentered⟩ := h
  obtain ⟨k, hk⟩ := hp.accessed
  obtain ⟨new, hnew⟩ := accesses_accessed (rxView n) k
  rw [← rxView_iterate, ← show rxView n' = _ from hk] at hnew
  refine ⟨?_, ⟨p, ps ++ new, hnew.holds _ hring⟩, ?_⟩
  · rw [hp.depth]
    exact hdepth
  · rw [hp.history]
    exact hentered

theorem withinHandler_chains : Chains WithinHandler := by
  constructor
  · intro n
    exact ⟨extends_chains.refl n, fun _ => .inr (passive_chains.refl n)⟩
  · intro n1 n2 n3 h h'
    refine ⟨extends_chains.trans _ _ _ h.1 h'.1, fun hh => ?_⟩
    rcases h.2 hh with hn | hp
    · exact .inl (hn.later h'.1)
    · rcases h'.2 (hh.passive hp) with hn | hp'
      · exact .inl hn
      · exact .inr (passive_chains.trans _ _ _ hp hp')

theorem Passive.withinHandler (h : Passive n n') : WithinHandler n n' :=
  ⟨h.extends, fun _ => .inr h⟩

theorem withinHandler_handlers : HandlerStable WithinHandler :=
  passive_handlers.mono withinHandler_chains fun _ _ => Passive.withinHandler

/-- The loop of a poll inside a handler starts at the frame of that handler. -/
theorem rxLoop_nested {onFrame : Nat → NetM Unit} (hf : ∀ len, Keeps Extends (onFrame len))
    (h : Handling n) (hpolled : .polled true ∈ n.trace) {fuel : Nat}
    (hrun : rxLoop onFrame fuel n = some ((), n')) : Nested n' := by
  cases fuel with
  | zero => cases hrun
  | succ fuel =>
    obtain ⟨_, ⟨p, ps, hring⟩, before, f, hentered⟩ := h.passive (passive_access n)
    have hpolled' : .polled true ∈ (access n).trace := (sameHandler_access n).trace.mem hpolled
    rw [rxLoop_held hring] at hrun
    apply Nested.later (n := enterFrame (access n) p.data.length)
    · have hhistory := enterFrame_history (access n) p.data.length
      rw [hentered, List.append_assoc] at hhistory
      exact ⟨List.mem_append_left _ hpolled', before, f, _, [], hhistory⟩
    · refine Keeps.bind extends_chains (hf _) (fun _ => ?_) _ _ _ hrun
      refine Keeps.bind extends_chains (Keeps.modify fun n => extends_polling.leaveFrame n _)
        fun _ => ?_
      refine Keeps.bind extends_chains (Keeps.modify fun n => extends_polling.advanceRx n _)
        fun _ => ?_
      exact rxLoop_keeps extends_handlers.toSendStable extends_polling hf fuel

theorem rtl8139Poll_withinHandler {onFrame : Nat → NetM Unit}
    (hf : ∀ len, Keeps Extends (onFrame len)) (fuel : Nat) : Keeps WithinHandler (rtl8139Poll onFrame fuel) := by
  intro n u n' hrun
  refine ⟨rtl8139Poll_keeps extends_handlers.toSendStable extends_polling hf fuel n u n' hrun, ?_⟩
  intro hh
  have h1 := passive_access n
  have h2 := passive_chains.trans _ _ _ h1 (passive_access (access n))
  have hrun := get_bind_inv hrun
  split at hrun
  · cases hrun
    exact .inr (passive_chains.refl n)
  have hrun := get_bind_inv (modify_bind_inv hrun)
  split at hrun
  · cases hrun
    exact .inr h1
  left
  have hrun := modify_bind_inv (modify_bind_inv hrun)
  obtain ⟨hdepth, ⟨p, ps, hring⟩, hentered⟩ := hh.passive h2
  refine rxLoop_nested hf ?_ ?_ hrun
  · refine ⟨hdepth, ⟨p, ps, ?_⟩, ?_⟩
    · exact ⟨hring.aligned, hring.inside, hring.read, hring.write, hring.fits, hring.held⟩
    · rw [handlerHistory_log]
      exact hentered
  · simp [Net.log, clearIsr, hdepth]

theorem netPoll_withinHandler (fuel : Nat) : Keeps WithinHandler (netPoll fuel) := by
  cases fuel with
  | zero => exact Keeps.none
  | succ fuel =>
    refine Keeps.bind withinHandler_chains (Keeps.get withinHandler_chains) fun n => ?_
    refine Keeps.ite (Keeps.pure withinHandler_chains _) ?_
    exact rtl8139Poll_withinHandler (netOnFrame_extends fuel) fuel

theorem netOnFrame_withinHandler (fuel len : Nat) :
    Keeps WithinHandler (netOnFrame (netPoll fuel) fuel len) := by
  have hpoll := netPoll_withinHandler fuel
  have htcp : TcpStable WithinHandler := passive_tcp.mono fun _ _ => Passive.withinHandler
  refine netOnFrame_keeps (withinHandler_handlers.steps hpoll) ?_ fuel len
  intro fuel s
  exact tcpReceive_keeps (withinHandler_handlers.steps hpoll).toHandlerSteps htcp fuel s

end WithinHandler

/-- Between two handlers, all of them so far having run one after the other. -/
structure Calm (n : Net) : Prop where
  depth : n.depth = 0
  linkUp : n.cfg.linkUp = true
  history : n.handlerHistory = turns (dispatchedFrames n.trace)
  nested : .polled true ∉ n.trace

/-- Nothing is lost between two calls, or a handler was entered twice. -/
def AtRest (n : Net) : Prop := ∃ unread, RxReady n unread ∧ Calm n

/-- What a call does to reception. -/
def BetweenCalls (n n' : Net) : Prop := Extends n n' ∧ (AtRest n → Nested n' ∨ AtRest n')

section Calls

variable {n n' : Net} {p : RxPacket} {unread ps : List RxPacket}

theorem Passive.dispatched (h : Passive n n') :
    dispatchedFrames n'.trace = dispatchedFrames n.trace := by
  obtain ⟨k, hk⟩ := h.accessed
  obtain ⟨new, hnew⟩ := accesses_accessed (rxView n) k
  rw [← rxView_iterate, ← show rxView n' = _ from hk] at hnew
  exact hnew.dispatched

theorem Calm.passive (h : Calm n) (hp : Passive n n') : Calm n' where
  depth := hp.depth.trans h.depth
  linkUp := hp.linkUp.trans h.linkUp
  history := by rw [hp.history, h.history, hp.dispatched]
  nested := h.nested ∘ hp.nested

theorem RxReady.accesses (h : RxReady n unread) (k : Nat) :
    ∃ new, RxReady (access^[k] n) (unread ++ new) := by
  induction k generalizing n unread with
  | zero =>
    refine ⟨[], ?_⟩
    rw [List.append_nil]
    exact h
  | succ k ih =>
    obtain ⟨new, -, hnew⟩ := h.accessed
    obtain ⟨more, hmore⟩ := ih hnew
    refine ⟨new ++ more, ?_⟩
    rw [Function.iterate_succ_apply, ← List.append_assoc]
    exact hmore

theorem AtRest.passive (h : AtRest n) (hp : Passive n n') : AtRest n' := by
  obtain ⟨unread, hready, hcalm⟩ := h
  obtain ⟨k, hk⟩ := hp.accessed
  obtain ⟨new, hnew⟩ := hready.accesses k
  refine ⟨unread ++ new, ⟨hnew.toRxInv.same hk, ?_⟩, hcalm.passive hp⟩
  rw [show n'.nic.isr = (access^[k] n).nic.isr from congrArg RxView.isr hk]
  exact hnew.raised

/-- Entering a handler leaves its frame unread. -/
theorem RxInv.handling (h : RxInv n (p :: ps)) : Handling (enterFrame n p.data.length) := by
  refine ⟨Nat.succ_pos _, ⟨p, ps, ?_⟩, _, _, enterFrame_history n _⟩
  obtain ⟨haligned, hinside, hread, hwrite, hfits, hheld⟩ := h.ring
  exact ⟨haligned, hinside, hread, hwrite, hfits, hheld⟩

/-- A handler that has not polled with success returns in its turn. -/
theorem Calm.left {m : Net} (h : Calm n) (hinv : RxInv n (p :: ps))
    (hp : Passive (enterFrame n p.data.length) m) :
    Calm (advanceRx (leaveFrame m p.data.length) (p.data.length + 4)) := by
  obtain ⟨htrace, htmp⟩ := hinv.entered
  have hd : dispatchedFrames m.trace = dispatchedFrames n.trace ++ [p.data] := by
    rw [hp.dispatched, htrace, dispatchedFrames_append]
    rfl
  have hnested : .polled true ∉ m.trace := by
    intro hm
    have hm := hp.nested hm
    rw [htrace] at hm
    simp [h.nested] at hm
  refine ⟨?_, hp.linkUp.trans h.linkUp, ?_, ?_⟩
  · change m.depth - 1 = 0
    rw [hp.depth]
    change n.depth + 1 - 1 = 0
    rw [h.depth]
  · have hlast : dispatchedFrames (leaveFrame m p.data.length).trace =
        dispatchedFrames n.trace ++ [p.data] := by
      rw [← hd, leaveFrame, Net.log, dispatchedFrames_append]
      exact List.append_nil _
    change (leaveFrame m _).handlerHistory = turns (dispatchedFrames (leaveFrame m _).trace)
    rw [leaveFrame_history, hp.history, enterFrame_history, hp.rxFrameTmp, htmp, h.history, hlast,
      turns_append, List.append_assoc]
    rfl
  · change .polled true ∉ m.trace ++ [_]
    simp [hnested]

theorem Calm.cleared (h : Calm n) (bits : UInt16) :
    Calm ((clearIsr n bits).log (.polled false)) := by
  refine ⟨h.depth, h.linkUp, ?_, ?_⟩
  · have hsame : dispatchedFrames ((clearIsr n bits).log (.polled false)).trace =
        dispatchedFrames n.trace := by
      rw [Net.log, dispatchedFrames_append]
      exact List.append_nil _
    rw [handlerHistory_log, hsame]
    exact h.history
  · change .polled true ∉ n.trace ++ [_]
    simp [h.nested]

/-- A loop over the unread frames: the handlers run one after the other, unless
one of them polls with success. -/
theorem rxLoop_calm {onFrame : Nat → NetM Unit} (hf : ∀ len, Keeps WithinHandler (onFrame len))
    {fuel : Nat} (hcalm : Calm n) (h : RxInv n unread)
    (hrun : rxLoop onFrame fuel n = some ((), n')) :
    Nested n' ∨ RxInv n' [] ∧ Calm n' := by
  have hfx : ∀ len, Keeps Extends (onFrame len) := by
    intro len
    exact Keeps.mono (fun _ _ h => h.1) (hf len)
  induction fuel generalizing n unread with
  | zero => cases hrun
  | succ fuel ih =>
    obtain ⟨new, -, hinv⟩ := h.accessed
    have hcalm := hcalm.passive (passive_access n)
    generalize unread ++ new = all at hinv
    cases all with
    | nil =>
      rw [rxLoop_empty hinv.ring] at hrun
      cases hrun
      exact .inr ⟨hinv, hcalm⟩
    | cons p ps =>
      rw [rxLoop_held hinv.ring] at hrun
      obtain ⟨u, m, hm, hrun⟩ := bind_inv hrun
      have hrun := modify_bind_inv (modify_bind_inv hrun)
      rcases (hf _ _ _ _ hm).2 hinv.handling with hn | hp
      · left
        apply hn.later
        have hrest := rxLoop_keeps extends_handlers.toSendStable extends_polling hfx fuel _ _ _ hrun
        exact (extends_polling.leaveFrame m _).trans hrest
      · obtain ⟨k, hk⟩ := hp.accessed
        obtain ⟨more, hnext, -⟩ := hinv.left hk
        exact ih (hcalm.left hinv hp) hnext hrun

theorem netPoll_calm {fuel : Nat} (h : RxReady n unread) (hcalm : Calm n)
    (hrun : netPoll fuel n = some ((), n')) : Nested n' ∨ RxReady n' [] ∧ Calm n' := by
  cases fuel with
  | zero => cases hrun
  | succ fuel =>
    have hrun := get_bind_inv hrun
    rw [if_neg (by simp [hcalm.linkUp])] at hrun
    have hrun := get_bind_inv hrun
    rw [if_neg (by simp [h.up])] at hrun
    have hrun := get_bind_inv (modify_bind_inv hrun)
    obtain ⟨new, -, hready⟩ := h.accessed
    have hcalm := hcalm.passive (passive_access n)
    split at hrun
    · next hisr =>
      cases hrun
      have hall : unread ++ new = [] := by
        by_contra hne
        exact hready.raised hne hisr
      rw [hall] at hready
      exact .inr ⟨hready, hcalm⟩
    · have hrun := modify_bind_inv (modify_bind_inv hrun)
      obtain ⟨more, -, hinv⟩ := hready.toRxInv.accessed
      have hcalm := hcalm.passive (passive_access (access n))
      have hstart : Calm ((clearIsr (access (access n)) (access n).nic.isr).log
          (.polled (0 < (access (access n)).depth))) := by
        have hdepth : decide (0 < (access (access n)).depth) = false := by
          simp [hcalm.depth]
        rw [hdepth]
        exact hcalm.cleared _
      have hloop := rxLoop_calm (netOnFrame_withinHandler fuel) hstart (hinv.cleared _ _) hrun
      rcases hloop with hn | ⟨hinv, hc⟩
      · exact .inl hn
      · exact .inr ⟨⟨hinv, fun hne => absurd rfl hne⟩, hc⟩

theorem betweenCalls_chains : Chains BetweenCalls := by
  constructor
  · intro n
    exact ⟨extends_chains.refl n, .inr⟩
  · intro n1 n2 n3 h h'
    refine ⟨extends_chains.trans _ _ _ h.1 h'.1, fun hrest => ?_⟩
    rcases h.2 hrest with hn | hrest'
    · exact .inl (hn.later h'.1)
    · exact h'.2 hrest'

theorem Passive.betweenCalls (h : Passive n n') : BetweenCalls n n' :=
  ⟨h.extends, fun hrest => .inr (hrest.passive h)⟩

theorem netPoll_betweenCalls (fuel : Nat) : Keeps BetweenCalls (netPoll fuel) := by
  intro n u n' hrun
  refine ⟨netPoll_extends fuel n u n' hrun, ?_⟩
  intro hrest
  obtain ⟨unread, hready, hcalm⟩ := hrest
  rcases netPoll_calm hready hcalm hrun with hn | hrest'
  · exact .inl hn
  · exact .inr ⟨[], hrest'⟩

theorem openTcp_passive (n : Net) (ip : UInt32) (port : UInt16) (ticks0 ticks1 ticks2 : UInt32)
    (out : Option Buf) (size : UInt32) :
    Passive n (openTcp n ip port ticks0 ticks1 ticks2 out size) :=
  .logged rfl rfl rfl rfl rfl rfl

theorem betweenCalls_api : ApiStable BetweenCalls where
  toHandlerStable := passive_handlers.mono betweenCalls_chains fun _ _ => Passive.betweenCalls
  poll := netPoll_betweenCalls
  buildUdp _ _ _ _ := Passive.betweenCalls (.same rfl rfl rfl rfl rfl)
  buildTcp _ _ _ _ _ _ _ _ := Passive.betweenCalls (.logged rfl rfl rfl rfl rfl rfl)
  dnsStart _ _ := Passive.betweenCalls (.same rfl rfl rfl rfl rfl)
  stopDns _ := Passive.betweenCalls (.same rfl rfl rfl rfl rfl)
  tcpLocal _ _ _ := Passive.betweenCalls (.same rfl rfl rfl rfl rfl)
  dhcpStart _ _ := Passive.betweenCalls (.same rfl rfl rfl rfl rfl)
  requested _ := Passive.betweenCalls (.logged rfl rfl rfl rfl rfl rfl)
  openTcp n ip port k0 k1 k2 out size := (openTcp_passive n ip port k0 k1 k2 out size).betweenCalls
  fetched _ := Passive.betweenCalls (.logged rfl rfl rfl rfl rfl rfl)
  closeTcp _ := Passive.betweenCalls (.same rfl rfl rfl rfl rfl)
  pingStart _ _ _ := Passive.betweenCalls (.same rfl rfl rfl rfl rfl)
  pingSent _ _ := Passive.betweenCalls (.same rfl rfl rfl rfl rfl)
  stopPing _ := Passive.betweenCalls (.same rfl rfl rfl rfl rfl)

end Calls

/-- Every frame that was handed over is the next of those received, and its
handler had it to itself until it returned. -/
def InTurn (n : Net) : Prop :=
  n.handlerHistory = turns (dispatchedFrames n.trace) ∧
    dispatchedFrames n.trace <+: receivedFrames n.trace

section Runs

variable {boot n : Net} {mac : Mac}

theorem AtRest.inTurn (h : AtRest n) : InTurn n ∧ .polled true ∉ n.trace := by
  obtain ⟨unread, hready, hcalm⟩ := h
  exact ⟨⟨hcalm.history, hready.inStep.1⟩, hcalm.nested⟩

theorem Nested.overlap (h : Nested n) (frames : List (List UInt8)) :
    n.handlerHistory ≠ turns frames := by
  obtain ⟨-, before, f, g, after, hh⟩ := h
  intro hturns
  exact turns_ne frames before after f g (hturns.symm.trans hh)

theorem netInit_atRest (htrace : boot.trace = []) (hdepth : boot.depth = 0) :
    AtRest (netInit boot (some mac)) := by
  refine ⟨[], RxReset.ready ⟨rfl, rfl, rfl, rfl, ?_, ?_⟩, hdepth, rfl, ?_, ?_⟩
  all_goals simp [netInit, htrace, receivedFrames, dispatchedFrames, Net.handlerHistory, turns]

/-- A run ends at rest, or a handler was entered inside another one. -/
theorem netRun_rests (htrace : boot.trace = []) (hdepth : boot.depth = 0)
    (hrun : NetRun (netInit boot (some mac)) n) : Nested n ∨ AtRest n :=
  (hrun.keeps betweenCalls_api.steps).2 (netInit_atRest htrace hdepth)

/-- Whatever arrives and whenever it does, the handlers run one after the other,
each on the next frame, exactly as long as no poll inside a handler finds the
interrupt status set; a poll that returns has then handed over all the frames. -/
theorem handlers_in_turn_iff (htrace : boot.trace = []) (hdepth : boot.depth = 0)
    (hrun : NetRun (netInit boot (some mac)) n) :
    (InTurn n ↔ .polled true ∉ n.trace) ∧
    ∀ fuel n', netPoll fuel n = some ((), n') →
      (n'.handlerHistory = turns (receivedFrames n'.trace) ↔ .polled true ∉ n'.trace) := by
  have hrest := netRun_rests htrace hdepth hrun
  constructor
  · rcases hrest with hn | hrest
    · exact ⟨fun h => absurd h.1 (hn.overlap _), fun h => absurd hn.1 h⟩
    · exact iff_of_true hrest.inTurn.1 hrest.inTurn.2
  · intro fuel n' hpoll
    have hend : Nested n' ∨ RxReady n' [] ∧ Calm n' := by
      rcases hrest with hn | ⟨unread, hready, hcalm⟩
      · exact .inl (hn.later (netPoll_extends fuel _ _ _ hpoll))
      · exact netPoll_calm hready hcalm hpoll
    rcases hend with hn | ⟨hready, hcalm⟩
    · exact ⟨fun h => absurd h (hn.overlap _), fun h => absurd hn.1 h⟩
    · refine iff_of_true ?_ hcalm.nested
      rw [hready.frames, List.map_nil, List.append_nil]
      exact hcalm.history

/-- A first poll hands over the OFFER that has arrived. -/
theorem handlers_in_turn_offer : ∃ n', netPoll 4 oneServerNet = some ((), n') ∧
    (receivedFrames n'.trace).length = 1 ∧ n'.handlerHistory = turns (receivedFrames n'.trace) := by
  have h : (netPoll 4 oneServerNet).map (fun r =>
      ((receivedFrames r.2.trace).length, decide (.polled true ∈ r.2.trace))) =
      some (1, false) := by
    decide +kernel
  obtain ⟨⟨u, n'⟩, hpoll, heq⟩ := Option.map_eq_some_iff.mp h
  obtain ⟨hlen, hcalm⟩ := Prod.mk.inj heq
  refine ⟨n', hpoll, hlen, ?_⟩
  have hend := (handlers_in_turn_iff rfl rfl (NetRun.start _)).2 4 n' hpoll
  exact hend.mpr (of_decide_eq_false hcalm)

/-- An echo request for 10.0.0.5, from a host that is in no cache. -/
def echoRequest : RxPacket where
  status := 1
  data := broadcastMac.bytes ++ broadcastMac.bytes ++ be16 ethTypeIpv4 ++
    (ipv4Header 28 0 0 1 0x0A000009 0x0A000005 ++ [8, 0, 0, 0, 0, 1, 0, 1])
  crc := [0, 0, 0, 0]
  fits := by decide
  crcLength := zeroCrc_length

/-- The answer of that host to the ARP request. -/
def arpAnswer : RxPacket where
  status := 1
  data := broadcastMac.bytes ++ broadcastMac.bytes ++ be16 ethTypeArp ++
    arpPacket 2 broadcastMac 0x0A000009 broadcastMac.bytes 0x0A000005
  crc := [0, 0, 0, 0]
  fits := by decide
  crcLength := zeroCrc_length

/-- Once a lease is there, the request arrives; the answer arrives while its
handler waits, and a second goes by. -/
def pingedNet : Net :=
  netInit { cfg := { mac := broadcastMac }
            env := fun i =>
              if i = 0 then [.arrive (dhcpReplyPacket 2 0x0A000005 0x0A000002)]
              else if i = 13 then [.arrive (dhcpReplyPacket 5 0x0A000005 0x0A000002)]
              else if i = 17 then [.arrive echoRequest]
              else if i = 23 then [.arrive arpAnswer]
              else if i = 35 then List.replicate 100 .tick else [] } (some broadcastMac)

/-- The poll inside the handler hands the request over a second time. -/
theorem handlers_overlap_on_echo : ∃ n n', NetRun pingedNet n ∧ netPoll 8 n = some ((), n') ∧
    (receivedFrames n'.trace).count echoRequest.data = 1 ∧
    (dispatchedFrames n'.trace).count echoRequest.data = 2 ∧
    n'.handlerHistory ≠ turns (receivedFrames n'.trace) := by
  have h : ((netDhcpRequest 6 pingedNet).bind fun r => netPoll 8 r.2).map (fun r =>
      ((receivedFrames r.2.trace).count echoRequest.data,
        (dispatchedFrames r.2.trace).count echoRequest.data,
        decide (r.2.handlerHistory = turns (receivedFrames r.2.trace)))) =
      some (1, 2, false) := by
    decide +kernel
  obtain ⟨⟨u, n'⟩, hruns, heq⟩ := Option.map_eq_some_iff.mp h
  obtain ⟨⟨ok, n⟩, hdhcp, hpoll⟩ := Option.bind_eq_some_iff.mp hruns
  obtain ⟨honce, htwice, hturns⟩ : _ ∧ _ ∧ _ := by simpa using heq
  refine ⟨n, n', .call 6 .dhcpRequest (.start _) ?_, hpoll, honce, htwice, hturns⟩
  exact bind_run hdhcp

end Runs

end VertexOS
