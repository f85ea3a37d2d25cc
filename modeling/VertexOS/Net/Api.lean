import VertexOS.Net.Stable

namespace VertexOS
open Library.Programs

/-- A call of the shell into the network stack. -/
inductive NetCall where
  | poll
  | dhcpRequest
  | ping (targetIp timeoutMs : UInt32)
  | resolve (host : List UInt8) (timeoutMs : UInt32)
  | httpGet (url : List UInt8) (timeoutMs : UInt32) (bodyOut : Option Buf) (bodyOutSize : UInt32)

/-- The calls, without their results. -/
def netCall (fuel : Nat) : NetCall → NetM Unit
  | .poll => netPoll fuel
  | .dhcpRequest => do let _ ← netDhcpRequest fuel
  | .ping targetIp timeoutMs => do let _ ← netPing fuel targetIp timeoutMs
  | .resolve host timeoutMs => do let _ ← netResolveIpv4 fuel host timeoutMs
  | .httpGet url timeoutMs out size => do let _ ← netHttpGet fuel url timeoutMs out size

/-- Calls one after another. -/
inductive NetRun : Net → Net → Prop where
  | start (n : Net) : NetRun n n
  | call {n m n' : Net} (fuel : Nat) (c : NetCall) (hrun : NetRun n m)
      (hcall : netCall fuel c m = some ((), n')) : NetRun n n'

/-- What all the steps of the network stack preserve. -/
structure ApiStable (R : Net → Net → Prop) : Prop extends ClientStable R where
  dhcpStart : ∀ n now, R n (dhcpStart n now)
  requested : ∀ n, R n (n.log .requested)
  openTcp : ∀ n ip port k0 k1 k2 out size, R n (openTcp n ip port k0 k1 k2 out size)
  fetched : ∀ n, R n (n.log .fetched)
  closeTcp : ∀ n, R n { n with tcp := {} }
  pingStart : ∀ n targetIp now, R n (pingStart n targetIp now)
  pingSent : ∀ n ticks, R n { n with ping := { n.ping with sentTicks := ticks } }
  stopPing : ∀ n, R n (stopPing n)

/-- What the calls preserve, with their sends as wholes. -/
structure ApiSteps (R : Net → Net → Prop) : Prop extends ClientSteps R where
  dhcpStart : ∀ n now, R n (dhcpStart n now)
  requested : ∀ n, R n (n.log .requested)
  openTcp : ∀ n ip port k0 k1 k2 out size, R n (openTcp n ip port k0 k1 k2 out size)
  fetched : ∀ n, R n (n.log .fetched)
  closeTcp : ∀ n, R n { n with tcp := {} }
  pingStart : ∀ n targetIp now, R n (pingStart n targetIp now)
  pingSent : ∀ n ticks, R n { n with ping := { n.ping with sentTicks := ticks } }
  stopPing : ∀ n, R n (stopPing n)
  sendPing : ∀ fuel targetIp ident seq, Keeps R (sendIpv4Packet (netPoll fuel) fuel targetIp 1
    (fun _ => bufOf (pingPayload ident seq)) 64 ident)
  sendDhcp : ∀ msgType reqIp serverId, Keeps R (sendDhcpMessage msgType reqIp serverId)

section Api

variable {R : Net → Net → Prop}

theorem sendDhcpMessage_keeps (h : SendStable R) (msgType : UInt8) (reqIp serverId : UInt32) :
    Keeps R (sendDhcpMessage msgType reqIp serverId) := by
  refine Keeps.bind h.toChains (Keeps.get h.toChains) fun n => ?_
  exact sendFrame_keeps h _ _ _ _

theorem ApiStable.steps (h : ApiStable R) : ApiSteps R where
  toClientSteps := h.toClientStable.steps
  dhcpStart := h.dhcpStart
  requested := h.requested
  openTcp := h.openTcp
  fetched := h.fetched
  closeTcp := h.closeTcp
  pingStart := h.pingStart
  pingSent := h.pingSent
  stopPing := h.stopPing
  sendPing _ _ _ _ := sendIpv4Packet_keeps h.toSendStable (h.poll _) _ _ _ _ _ _
  sendDhcp := sendDhcpMessage_keeps h.toSendStable

theorem finishHttp_keeps (h : ApiSteps R) (r : HttpResponse) : Keeps R (finishHttp r) := by
  refine Keeps.bind h.toChains (Keeps.get h.toChains) fun n => ?_
  exact Keeps.bind h.toChains (Keeps.modify h.closeTcp) fun _ => Keeps.pure h.toChains _

theorem httpAnswer_keeps (h : ApiSteps R) (fuel : Nat) (r : HttpResponse) :
    Keeps R (httpAnswer fuel r) := by
  refine Keeps.bind h.toChains (Keeps.get h.toChains) fun n => ?_
  refine Keeps.ite (finishHttp_keeps h _) ?_
  refine Keeps.ite (finishHttp_keeps h _) ?_
  refine Keeps.bind h.toChains (Keeps.modify h.fetched) fun _ => ?_
  refine Keeps.ite ?_ (finishHttp_keeps h _)
  exact Keeps.bind h.toChains (sendOnTcp_keeps h.toClientSteps _ _ _ _ _) fun _ =>
    finishHttp_keeps h _

theorem httpExchange_keeps (h : ApiSteps R) (fuel : Nat) (host path : List UInt8)
    (timeout : UInt32) (r : HttpResponse) : Keeps R (httpExchange fuel host path timeout r) := by
  refine Keeps.bind h.toChains (Keeps.get h.toChains) fun n => ?_
  refine Keeps.ite (finishHttp_keeps h _) ?_
  refine Keeps.bind h.toChains (sendOnTcp_keeps h.toClientSteps _ _ _ _ _) fun sent => ?_
  refine Keeps.ite (finishHttp_keeps h _) ?_
  refine Keeps.bind h.toChains (Keeps.modify ?_) fun _ => ?_
  · intro n
    exact h.tcpLocal n _ n.tcp.connectSentTicks
  refine Keeps.bind h.toChains (pitGetTicks_keeps h.toTimeStable) fun start => ?_
  refine Keeps.bind h.toChains (pollUntil_keeps h.toTimeStable (h.poll _) _ _ _ _) fun stopped => ?_
  refine Keeps.bind h.toChains (Keeps.get h.toChains) fun n => ?_
  exact Keeps.ite (finishHttp_keeps h _) (httpAnswer_keeps h _ _)

theorem httpConnect_keeps (h : ApiSteps R) (fuel : Nat) (host path : List UInt8) (ip : UInt32)
    (port : UInt16) (timeoutMs : UInt32) (out : Option Buf) (size : UInt32) :
    Keeps R (httpConnect fuel host path ip port timeoutMs out size) := by
  have hticks := pitGetTicks_keeps h.toTimeStable
  refine Keeps.bind h.toChains (Keeps.get h.toChains) fun n => ?_
  refine Keeps.bind h.toChains hticks fun k0 => ?_
  refine Keeps.bind h.toChains hticks fun k1 => ?_
  refine Keeps.bind h.toChains hticks fun k2 => ?_
  refine Keeps.bind h.toChains (Keeps.modify fun n => h.openTcp n _ _ _ _ _ _ _) fun _ => ?_
  refine Keeps.bind h.toChains (sendOnTcp_keeps h.toClientSteps _ _ _ _ _) fun sent => ?_
  refine Keeps.ite (finishHttp_keeps h _) ?_
  refine Keeps.bind h.toChains hticks fun now => ?_
  refine Keeps.bind h.toChains (Keeps.modify fun n => h.tcpLocal n _ _) fun _ => ?_
  refine Keeps.bind h.toChains hticks fun start => ?_
  refine Keeps.bind h.toChains (connectLoop_keeps h.toClientSteps _ _ _ _ _) fun ready => ?_
  refine Keeps.ite (finishHttp_keeps h _) ?_
  refine Keeps.bind h.toChains (Keeps.get h.toChains) fun n => ?_
  exact Keeps.ite (finishHttp_keeps h _) (httpExchange_keeps h _ _ _ _ _)

theorem netHttpGet_keeps (h : ApiSteps R) (fuel : Nat) (url : List UInt8) (timeoutMs : UInt32)
    (out : Option Buf) (size : UInt32) : Keeps R (netHttpGet fuel url timeoutMs out size) := by
  refine Keeps.ite (Keeps.pure h.toChains _) ?_
  rcases parseHttpUrl url 128 with e | ⟨host, port, path⟩
  · exact Keeps.pure h.toChains _
  refine Keeps.bind h.toChains (Keeps.get h.toChains) fun n => ?_
  refine Keeps.ite (Keeps.pure h.toChains _) ?_
  refine Keeps.ite (Keeps.pure h.toChains _) ?_
  refine Keeps.bind h.toChains (netResolveIpv4_keeps h.toClientSteps _ _ _) ?_
  rintro (_ | ip)
  · exact Keeps.pure h.toChains _
  · exact httpConnect_keeps h _ _ _ _ _ _ _ _

theorem netPing_keeps (h : ApiSteps R) (fuel : Nat) (targetIp timeoutMs : UInt32) :
    Keeps R (netPing fuel targetIp timeoutMs) := by
  have hticks := pitGetTicks_keeps h.toTimeStable
  have hfail : Keeps R (do modify stopPing; return none : NetM (Option UInt32)) :=
    Keeps.bind h.toChains (Keeps.modify h.stopPing) fun _ => Keeps.pure h.toChains _
  refine Keeps.bind h.toChains (Keeps.get h.toChains) fun n => ?_
  refine Keeps.ite (Keeps.pure h.toChains _) ?_
  refine Keeps.bind h.toChains hticks fun now => ?_
  refine Keeps.bind h.toChains (Keeps.modify fun n => h.pingStart n _ _) fun _ => ?_
  refine Keeps.bind h.toChains hticks fun sentAt => ?_
  refine Keeps.bind h.toChains (Keeps.modify fun n => h.pingSent n _) fun _ => ?_
  refine Keeps.bind h.toChains (Keeps.get h.toChains) fun n => ?_
  refine Keeps.bind h.toChains (h.sendPing _ _ _ _)
    fun sent => ?_
  refine Keeps.ite hfail ?_
  refine Keeps.bind h.toChains hticks fun start => ?_
  refine Keeps.bind h.toChains (Keeps.get h.toChains) fun n => ?_
  refine Keeps.bind h.toChains (pollUntil_keeps h.toTimeStable (h.poll _) _ _ _ _) fun got => ?_
  refine Keeps.ite ?_ hfail
  exact Keeps.bind h.toChains (Keeps.get h.toChains) fun n => Keeps.pure h.toChains _

theorem dhcpSelect_keeps (h : ApiSteps R) (fuel : Nat) : Keeps R (dhcpSelect fuel) := by
  refine Keeps.bind h.toChains (pitGetTicks_keeps h.toTimeStable) fun start => ?_
  refine Keeps.bind h.toChains (Keeps.get h.toChains) fun n => ?_
  refine Keeps.bind h.toChains (pollUntil_keeps h.toTimeStable (h.poll _) _ _ _ _) fun _ => ?_
  refine Keeps.bind h.toChains (Keeps.get h.toChains) fun n => ?_
  refine Keeps.ite (Keeps.pure h.toChains _) ?_
  refine Keeps.bind h.toChains (h.sendDhcp _ _ _) fun sent => ?_
  refine Keeps.ite (Keeps.pure h.toChains _) ?_
  exact Keeps.bind h.toChains (Keeps.modify h.requested) fun _ => Keeps.pure h.toChains _

theorem netDhcpRequest_keeps (h : ApiSteps R) (fuel : Nat) : Keeps R (netDhcpRequest fuel) := by
  have hticks := pitGetTicks_keeps h.toTimeStable
  refine Keeps.bind h.toChains (Keeps.get h.toChains) fun n => ?_
  refine Keeps.ite (Keeps.pure h.toChains _) ?_
  refine Keeps.bind h.toChains hticks fun now => ?_
  refine Keeps.bind h.toChains (Keeps.modify fun n => h.dhcpStart n _) fun _ => ?_
  refine Keeps.bind h.toChains (h.sendDhcp _ _ _) fun sent => ?_
  refine Keeps.ite (Keeps.pure h.toChains _) ?_
  refine Keeps.bind h.toChains (dhcpSelect_keeps h _) fun selected => ?_
  refine Keeps.ite (Keeps.pure h.toChains _) ?_
  refine Keeps.bind h.toChains hticks fun start => ?_
  refine Keeps.bind h.toChains (Keeps.get h.toChains) fun n => ?_
  refine Keeps.bind h.toChains (pollUntil_keeps h.toTimeStable (h.poll _) _ _ _ _) fun _ => ?_
  exact Keeps.bind h.toChains (Keeps.get h.toChains) fun n => Keeps.pure h.toChains _

theorem netCall_keeps (h : ApiSteps R) (fuel : Nat) (c : NetCall) : Keeps R (netCall fuel c) := by
  cases c with
  | poll => exact h.poll fuel
  | dhcpRequest =>
    exact Keeps.bind h.toChains (netDhcpRequest_keeps h _) fun _ => Keeps.pure h.toChains _
  | ping targetIp timeoutMs =>
    exact Keeps.bind h.toChains (netPing_keeps h _ _ _) fun _ => Keeps.pure h.toChains _
  | resolve host timeoutMs =>
    exact Keeps.bind h.toChains (netResolveIpv4_keeps h.toClientSteps _ _ _) fun _ =>
      Keeps.pure h.toChains _
  | httpGet url timeoutMs out size =>
    exact Keeps.bind h.toChains (netHttpGet_keeps h _ _ _ _ _) fun _ => Keeps.pure h.toChains _

/-- What every step preserves, a run preserves. -/
theorem NetRun.keeps (h : ApiSteps R) {n n' : Net} (hrun : NetRun n n') : R n n' := by
  induction hrun with
  | start => exact h.refl _
  | call fuel c _ hcall ih => exact h.trans _ _ _ ih (netCall_keeps h fuel c _ _ _ hcall)

end Api

end VertexOS
