import VertexOS.Net.Receiver

namespace VertexOS
open Library.Programs

/-- What a part of the program feeds to the parser; it neither opens nor ends a
fetch. -/
def Parses (n n' : Net) : Prop :=
  ∃ t, n'.tcpHistory = n.tcpHistory ++ t ∧ .opened ∉ t ∧ .fetched ∉ t ∧
    n'.tcp = setConnection (tcpHttpFeedData n.tcp (fedBytes t)) n'.tcp

section Parses

variable {n n' : Net}

theorem feedData_nil (t : TcpHttp) : tcpHttpFeedData t [] = t := by
  simp [tcpHttpFeedData]

theorem parses_silent (hh : n'.tcpHistory = n.tcpHistory)
    (htcp : n'.tcp = setConnection n.tcp n'.tcp) : Parses n n' := by
  refine ⟨[], by rw [hh, List.append_nil], by simp, by simp, ?_⟩
  rw [show fedBytes [] = [] from rfl, feedData_nil]
  exact htcp

theorem parses_event {e : NetEvent} (hh : n'.tcpHistory = n.tcpHistory ++ [e])
    (hd : e.fedData = []) (ho : .opened ≠ e) (hf : .fetched ≠ e)
    (htcp : n'.tcp = setConnection n.tcp n'.tcp) : Parses n n' := by
  refine ⟨[e], hh, by simp [ho], by simp [hf], ?_⟩
  have hfed : fedBytes [e] = [] := by simp [fedBytes, hd]
  rw [hfed, feedData_nil]
  exact htcp

theorem parses_chains : Chains Parses := by
  constructor
  · intro n
    exact parses_silent rfl rfl
  · rintro n1 n2 n3 ⟨t, ht, ho, hf, htcp⟩ ⟨u, hu, ho', hf', htcp'⟩
    refine ⟨t ++ u, by rw [hu, ht, List.append_assoc], by simp [ho, ho'], by simp [hf, hf'], ?_⟩
    obtain ⟨f, hfeed⟩ := feedData_setConnection (tcpHttpFeedData n1.tcp (fedBytes t)) n2.tcp
      (fedBytes u)
    rw [← htcp, feedData_append] at hfeed
    rw [show fedBytes (t ++ u) = fedBytes t ++ fedBytes u from List.flatMap_append]
    calc n3.tcp = setConnection (tcpHttpFeedData n2.tcp (fedBytes u)) n3.tcp := htcp'
      _ = setConnection (tcpHttpFeedData n1.tcp (fedBytes t ++ fedBytes u)) n3.tcp := by
        rw [hfeed]
        rfl

theorem parses_of_sameTcp (h : SameTcp n n') : Parses n n' := by
  apply parses_silent h.history
  rw [h.tcp]
  rfl

theorem acceptData_parses (n : Net) (data : List UInt8) : Parses n (acceptData n data) := by
  refine ⟨[.fed data], tcpHistory_log _ _, by simp, by simp, ?_⟩
  have hfed : fedBytes [.fed data] = data := by simp [fedBytes, NetEvent.fedData]
  obtain ⟨f, hf⟩ := feedData_setConnection n.tcp
    { n.tcp with seqRemote := n.tcp.seqRemote + UInt32.ofNat data.length } data
  have htcp : (acceptData n data).tcp = setConnection (tcpHttpFeedData n.tcp data) _ := hf
  rw [hfed, htcp]
  rfl

theorem parses_tcp : TcpStable Parses where
  noteSegment n _ s := parses_event (tcpHistory_log n (.segment s)) rfl (by simp) (by simp) rfl
  failed _ := parses_silent rfl rfl
  acceptSynAck n seq := parses_event (tcpHistory_log n (.accepted seq)) rfl (by simp) (by simp) rfl
  acceptData := acceptData_parses
  acceptFin n _ := parses_event (tcpHistory_log n (.fin _ _)) rfl (by simp) (by simp) rfl
  handled n := parses_event (tcpHistory_log n (.handled _)) rfl (by simp) (by simp) rfl

theorem parses_client : ClientStable Parses where
  toHandlerStable := sameTcp_handlers.mono parses_chains fun _ _ => parses_of_sameTcp
  poll fuel := by
    have h : HandlerStable Parses :=
      sameTcp_handlers.mono parses_chains fun _ _ => parses_of_sameTcp
    refine netPoll_keeps h (sameTcp_poll.mono fun _ _ => parses_of_sameTcp) ?_ fuel
    intro poll hpoll fuel s
    exact tcpReceive_keeps (h.steps hpoll).toHandlerSteps parses_tcp fuel s
  buildUdp _ _ _ _ := parses_silent rfl rfl
  buildTcp _ _ _ _ _ _ _ _ := parses_of_sameTcp (SameTcp.log ⟨rfl, rfl⟩ rfl)
  dnsStart _ _ := parses_silent rfl rfl
  stopDns _ := parses_silent rfl rfl
  tcpLocal _ _ _ := parses_silent rfl rfl

end Parses

section Receives

variable {stream : List UInt8} {isn : UInt32}

theorem receives_client (hlen : stream.length < 2 ^ 31) :
    ClientStable (Receives stream isn) where
  toHandlerStable := receives_handlers
  poll := netPoll_receives hlen
  buildUdp _ _ _ _ := receives_of_sameTcp ⟨rfl, rfl⟩
  buildTcp _ _ _ _ _ _ _ _ := receives_of_sameTcp (SameTcp.log ⟨rfl, rfl⟩ rfl)
  dnsStart _ _ := receives_of_sameTcp ⟨rfl, rfl⟩
  stopDns _ := receives_of_sameTcp ⟨rfl, rfl⟩
  tcpLocal _ _ _ := receives_of_sameReceiver ⟨rfl, rfl, rfl, rfl⟩

end Receives

section Stages

variable {fuel : Nat} {host path : List UInt8} {timeout : UInt32} {r r' : HttpResponse} {n n' : Net}

theorem finishHttp_inv (h : finishHttp r n = some (r', n')) :
    r' = { r with body := n.tcp.bodyOut } ∧ n' = { n with tcp := {} } := by
  cases h
  exact ⟨rfl, rfl⟩

theorem finishHttp_not_ok (h : finishHttp r n = some (r', n')) (hr : r.result ≠ .ok) :
    r'.result ≠ .ok := by
  rw [(finishHttp_inv h).1]
  exact hr

/-- What the client's program preserves, it does. -/
def Within (n n' : Net) : Prop := ∀ R, ClientStable R → R n n'

/-- The result is taken from the session, which is closed after that. -/
structure Answered (n : Net) (r : HttpResponse) (n' : Net) : Prop where
  headerDone : n.tcp.headerDone = true
  bodyLen : r.bodyLen = n.tcp.bodyTotal
  bodyTruncated : r.bodyTruncated = n.tcp.bodyTruncated
  closed : ∃ m, Within (n.log .fetched) m ∧ r.body = m.tcp.bodyOut ∧ n' = { m with tcp := {} }

theorem httpAnswer_ok (h : httpAnswer fuel r n = some (r', n')) (hok : r'.result = .ok) :
    Answered n r' n' := by
  replace h := get_bind_inv h
  split at h
  · exact absurd hok (finishHttp_not_ok h (by simp))
  · next hdone =>
    split at h
    · exact absurd hok (finishHttp_not_ok h (by simp))
    · replace h := modify_bind_inv h
      have hdone' : n.tcp.headerDone = true := by simpa using hdone
      split at h
      · obtain ⟨_, m, hsend, h⟩ := bind_inv h
        obtain ⟨rfl, rfl⟩ := finishHttp_inv h
        refine ⟨hdone', rfl, rfl, m, ?_, rfl, rfl⟩
        intro R hR
        exact sendOnTcp_keeps hR.steps _ _ _ _ _ _ _ _ hsend
      · obtain ⟨rfl, rfl⟩ := finishHttp_inv h
        refine ⟨hdone', rfl, rfl, n.log .fetched, ?_, rfl, rfl⟩
        intro R hR
        exact hR.refl _

theorem httpExchange_ok (h : httpExchange fuel host path timeout r n = some (r', n'))
    (hok : r'.result = .ok) : ∃ m, Within n m ∧ Answered m r' n' := by
  replace h := get_bind_inv h
  split at h
  · exact absurd hok (finishHttp_not_ok h (by simp))
  obtain ⟨sent, n1, hsend, h⟩ := bind_inv h
  split at h
  · exact absurd hok (finishHttp_not_ok h (by simp))
  replace h := modify_bind_inv h
  obtain ⟨start, n2, hstart, h⟩ := bind_inv h
  obtain ⟨stopped, n3, hloop, h⟩ := bind_inv h
  replace h := get_bind_inv h
  split at h
  · exact absurd hok (finishHttp_not_ok h (by simp))
  refine ⟨n3, ?_, httpAnswer_ok h hok⟩
  intro R hR
  apply hR.trans _ _ _ (sendOnTcp_keeps hR.steps _ _ _ _ _ _ _ _ hsend)
  apply hR.trans _ _ _ (hR.tcpLocal n1 _ n1.tcp.connectSentTicks)
  apply hR.trans _ _ _ (pitGetTicks_keeps hR.toTimeStable _ _ _ hstart)
  exact pollUntil_keeps hR.toTimeStable (hR.poll _) _ _ _ _ _ _ _ hloop

/-- The session that `net_http_get` sets up, its result and the end. -/
theorem httpConnect_ok {ip : UInt32} {port : UInt16} {timeoutMs z : UInt32} {out : Option Buf}
    (h : httpConnect fuel host path ip port timeoutMs out z n = some (r', n'))
    (hok : r'.result = .ok) : ∃ n0 k0 k1 k2 m, Within n n0 ∧
      Within (openTcp n0 ip port k0 k1 k2
        (if z > 0 then out.map fun b => Function.update b 0 0 else out) z) m ∧
      Answered m r' n' := by
  replace h := get_bind_inv h
  obtain ⟨k0, n1, h1, h⟩ := bind_inv h
  obtain ⟨k1, n2, h2, h⟩ := bind_inv h
  obtain ⟨k2, n0, h0, h⟩ := bind_inv h
  replace h := modify_bind_inv h
  obtain ⟨sent, n3, hsend, h⟩ := bind_inv h
  split at h
  · exact absurd hok (finishHttp_not_ok h (by simp))
  obtain ⟨now, n4, hnow, h⟩ := bind_inv h
  replace h := modify_bind_inv h
  obtain ⟨start, n5, hstart, h⟩ := bind_inv h
  obtain ⟨ready, n6, hloop, h⟩ := bind_inv h
  split at h
  · exact absurd hok (finishHttp_not_ok h (by simp))
  replace h := get_bind_inv h
  split at h
  · exact absurd hok (finishHttp_not_ok h (by simp))
  obtain ⟨m, hm, ha⟩ := httpExchange_ok h hok
  refine ⟨n0, k0, k1, k2, m, ?_, ?_, ha⟩
  · intro R hR
    apply hR.trans _ _ _ (pitGetTicks_keeps hR.toTimeStable _ _ _ h1)
    apply hR.trans _ _ _ (pitGetTicks_keeps hR.toTimeStable _ _ _ h2)
    exact pitGetTicks_keeps hR.toTimeStable _ _ _ h0
  · intro R hR
    apply hR.trans _ _ _ (sendOnTcp_keeps hR.steps _ _ _ _ _ _ _ _ hsend)
    apply hR.trans _ _ _ (pitGetTicks_keeps hR.toTimeStable _ _ _ hnow)
    apply hR.trans _ _ _ (hR.tcpLocal n4 _ _)
    apply hR.trans _ _ _ (pitGetTicks_keeps hR.toTimeStable _ _ _ hstart)
    apply hR.trans _ _ _ (connectLoop_keeps hR.steps _ _ _ _ _ _ _ _ hloop)
    exact hm R hR

theorem parseAuthority_error {p : List UInt8} {size : Nat} {e : NetHttpResult}
    (h : parseAuthority p size = .error e) : e ≠ .ok := by
  simp only [parseAuthority] at h
  split at h
  · cases h
    simp
  split at h
  · cases h
    simp
  · cases h
  · split at h
    · cases h
    · cases h
      simp

theorem parseHttpUrl_error {url : List UInt8} {size : Nat} {e : NetHttpResult}
    (h : parseHttpUrl url size = .error e) : e ≠ .ok := by
  simp only [parseHttpUrl] at h
  split at h
  · split at h
    · cases h
      simp
    split at h
    · cases h
      simp
    · exact parseAuthority_error h
  · exact parseAuthority_error h

theorem netHttpGet_ok {url : List UInt8} {timeoutMs z : UInt32} {out : Option Buf}
    (h : netHttpGet fuel url timeoutMs out z n = some (r', n')) (hok : r'.result = .ok) :
    ∃ n0 ip port k0 k1 k2 m, Within n n0 ∧
      Within (openTcp n0 ip port k0 k1 k2
        (if z > 0 then out.map fun b => Function.update b 0 0 else out) z) m ∧
      Answered m r' n' := by
  unfold netHttpGet at h
  split at h
  · cases h
    cases hok
  cases hp : parseHttpUrl url 128 with
  | error e =>
    rw [hp] at h
    cases h
    exact absurd hok (parseHttpUrl_error hp)
  | ok p =>
    obtain ⟨host, port, path⟩ := p
    rw [hp] at h
    replace h := get_bind_inv h
    split at h
    · cases h
      cases hok
    split at h
    · cases h
      cases hok
    obtain ⟨resolved, n1, hres, h⟩ := bind_inv h
    cases resolved with
    | none =>
      cases h
      cases hok
    | some ip =>
      obtain ⟨n0, k0, k1, k2, m, h0, hm, ha⟩ := httpConnect_ok h hok
      refine ⟨n0, ip, port, k0, k1, k2, m, ?_, hm, ha⟩
      intro R hR
      exact hR.trans _ _ _ (netResolveIpv4_keeps hR.steps _ _ _ _ _ _ hres) (h0 R hR)

end Stages

section Complete

variable {stream : List UInt8} {isn : UInt32}

/-- The session that `net_http_get` opens, whatever room it has for the body. -/
structure OpenSession (t : TcpHttp) : Prop where
  header : t.headerLen = 0
  headerDone : t.headerDone = false
  total : t.bodyTotal = 0
  pos : t.bodyOutPos = 0
  truncated : t.bodyTruncated = false
  out : ∀ buf, t.bodyOut = some buf → 0 < t.bodyOutSize → buf 0 = 0

theorem openTcp_openSession (n : Net) (ip : UInt32) (port : UInt16) (k0 k1 k2 z : UInt32)
    (out : Option Buf) : OpenSession (openTcp n ip port k0 k1 k2
      (if z > 0 then out.map fun b => Function.update b 0 0 else out) z).tcp := by
  refine ⟨rfl, rfl, rfl, rfl, rfl, ?_⟩
  intro buf hbuf hz
  have hz' : z > 0 := hz
  cases out with
  | none => simp [openTcp, Net.log, hz'] at hbuf
  | some b =>
    simp only [openTcp, Net.log, hz', if_true, Option.map_some, Option.some.injEq] at hbuf
    rw [← hbuf, Function.update_self]

/-- The whole body is in the buffer, as it is shown there. -/
def BodyIn (out : Option Buf) (body : List UInt8) : Prop :=
  ∀ i (hi : i < body.length), ∃ buf, out = some buf ∧ buf i = shownByte body[i]

/-- What a stream leaves once its header is done. -/
theorem feedData_complete {t : TcpHttp} (h : OpenSession t)
    (hdone : (tcpHttpFeedData t stream).headerDone = true) :
    ∃ hdr body, HeaderOf stream hdr ∧ stream = hdr ++ body ∧
      (tcpHttpFeedData t stream).bodyTotal = UInt32.ofNat body.length ∧
      ((tcpHttpFeedData t stream).bodyTruncated = false →
        BodyIn (tcpHttpFeedData t stream).bodyOut body) := by
  by_cases hroom : ∃ buf, t.bodyOut = some buf ∧ 0 < t.bodyOutSize
  · obtain ⟨buf, hbuf, hz⟩ := hroom
    have hfresh : FreshSession t t.bodyOutSize :=
      ⟨h.header, h.headerDone, h.total, rfl, h.pos, h.truncated, buf, hbuf, h.out buf hbuf hz⟩
    rcases feedData_fresh hz hfresh stream with ⟨-, hdr, body, hh, -, happ, hb⟩ | ⟨hd, -, -⟩
    · refine ⟨hdr, body, hh, happ, hb.total, ?_⟩
      intro ht i hi
      obtain ⟨out, hout, hshown, -⟩ := hb.shown
      have hle : ¬t.bodyOutSize.toNat - 1 < body.length := by
        rw [← hb.truncated, ht]
        simp
      exact ⟨out, hout, hshown i hi (by omega)⟩
    · rw [hd] at hdone
      cases hdone
  · have hout : t.bodyOut = none ∨ t.bodyOutSize = 0 := by
      cases hb : t.bodyOut with
      | none => exact .inl rfl
      | some buf =>
        right
        by_contra hz
        exact hroom ⟨buf, hb, UInt32.pos_iff_ne_zero.mpr hz⟩
    have hnil : stream ≠ [] := by
      rintro rfl
      rw [feedData_nil, h.headerDone] at hdone
      cases hdone
    obtain ⟨hsame, hspec⟩ :=
      headerLoop_spec (headerHolds_nil h.header) h.headerDone nil_no_header stream
    rw [List.nil_append] at hspec
    rcases hspec with ⟨hd, hdr, hh, -, happ⟩ | ⟨hd, -⟩
    · by_cases hrest : (headerLoop t stream).2 = []
      · have hfeed : tcpHttpFeedData t stream = (headerLoop t stream).1 := by
          simp [tcpHttpFeedData, hnil, h.headerDone, hd, hrest]
        rw [hrest] at happ
        refine ⟨hdr, [], hh, happ, ?_, ?_⟩
        · rw [hfeed, hsame.total, h.total]
          rfl
        · intro _ i hi
          cases hi
      · have hfeed : tcpHttpFeedData t stream =
            tcpHttpAppendBody (headerLoop t stream).1 (headerLoop t stream).2 := by
          simp [tcpHttpFeedData, hnil, h.headerDone, hd, hrest]
        refine ⟨hdr, _, hh, happ, ?_, ?_⟩
        · rw [hfeed, appendBody_total, hsame.total, h.total, UInt32.zero_add]
        · intro ht
          rw [hfeed, appendBody_nowhere (by rwa [hsame.out, hsame.size]) _ hrest] at ht
          cases ht
    · have hfeed : tcpHttpFeedData t stream = (headerLoop t stream).1 := by
        simp [tcpHttpFeedData, hnil, h.headerDone, hd]
      rw [hfeed, hd] at hdone
      cases hdone

/-- Once a FIN was in order the whole stream has been fed, and nothing more is. -/
theorem Receiving.complete {n : Net} {t : List NetEvent} (h : Receiving stream isn n t)
    (hfin : ∃ a, .fin a a ∈ t) : fedBytes t = stream := by
  obtain ⟨a, ha⟩ := hfin
  have hopen : n.tcp.established = true := by
    cases he : n.tcp.established with
    | true => rfl
    | false => exact absurd ha ((h.before he).2.2 a a)
  obtain ⟨k, hk, hfed, -⟩ := (h.after hopen).2.2
  obtain ⟨p, b, c, r, ht, hp⟩ := h.fins a ha
  have hlen := congrArg List.length hfed
  rw [ht, fedBytes, List.flatMap_append, List.length_append, List.length_take] at hlen
  rw [fedBytes] at hp
  rw [hp] at hlen
  rw [hfed, List.take_of_length_le (by omega)]

/-- The events of the session that a call of `net_http_get` opens. -/
def sessionEvents (t : List NetEvent) : List NetEvent :=
  (t.dropWhile fun e => e ≠ .opened).tail

/-- The events before the result is decided. -/
def beforeResult (t : List NetEvent) : List NetEvent := t.takeWhile fun e => e ≠ .fetched

theorem sessionEvents_append {t : List NetEvent} (ht : .opened ∉ t) (u : List NetEvent) :
    sessionEvents (t ++ .opened :: u) = u := by
  rw [sessionEvents, List.dropWhile_append_of_pos]
  · simp
  · intro e he
    simp only [ne_eq, decide_not, Bool.not_eq_true', decide_eq_false_iff_not]
    rintro rfl
    exact ht he

theorem beforeResult_append {t : List NetEvent} (ht : .fetched ∉ t) (u : List NetEvent) :
    beforeResult (t ++ .fetched :: u) = t := by
  rw [beforeResult, List.takeWhile_append_of_pos]
  · simp
  · intro e he
    simp only [ne_eq, decide_not, Bool.not_eq_true', decide_eq_false_iff_not]
    rintro rfl
    exact ht he

/-- The fetch is complete in every run in which a FIN with nothing missing before it
is handled before the result is decided. -/
theorem http_get_complete (fuel : Nat) (url : List UInt8) (timeoutMs z : UInt32)
    (out : Option Buf) (stream : List UInt8) (isn : UInt32) (n n' : Net) (r : HttpResponse)
    (t : List NetEvent) (hlen : stream.length < 2 ^ 31)
    (hrun : netHttpGet fuel url timeoutMs out z n = some (r, n')) (hok : r.result = .ok)
    (ht : n'.tcpHistory = n.tcpHistory ++ t) (hnet : ServerStream stream isn (sessionEvents t))
    (hfin : ∃ a, .fin a a ∈ beforeResult (sessionEvents t)) :
    fedBytes (beforeResult (sessionEvents t)) = stream ∧
    ∃ hdr body, HeaderOf stream hdr ∧ stream = hdr ++ body ∧ r.bodyLen.toNat = body.length ∧
      (r.bodyTruncated = false → BodyIn r.body body) := by
  obtain ⟨n0, ip, port, k0, k1, k2, m, h0, hm, ⟨hdone, hlenr, htrunc, m', hm', hbody, rfl⟩⟩ :=
    netHttpGet_ok hrun hok
  have hopen := openTcp_openSession n0 ip port k0 k1 k2 z out
  have hclosed : (openTcp n0 ip port k0 k1 k2
      (if z > 0 then out.map fun b => Function.update b 0 0 else out) z).tcp.established = false :=
    rfl
  have hhist : (openTcp n0 ip port k0 k1 k2 (if z > 0 then out.map fun b => Function.update b 0 0
      else out) z).tcpHistory = n0.tcpHistory ++ [.opened] := tcpHistory_log _ _
  generalize openTcp n0 ip port k0 k1 k2
    (if z > 0 then out.map fun b => Function.update b 0 0 else out) z = n1 at *
  obtain ⟨t0, ht0, ho0, -, -⟩ := h0 Parses parses_client
  obtain ⟨t1, ht1, -, hf1, htcp1⟩ := hm Parses parses_client
  obtain ⟨t2, ht2, -, -, htcp2⟩ := hm' Parses parses_client
  obtain ⟨t1', ht1', hrec1⟩ : Receives stream isn n1 m := hm _ (receives_client hlen)
  obtain ⟨t2', ht2', hrec2⟩ : Receives stream isn (m.log .fetched) m' :=
    hm' _ (receives_client hlen)
  obtain rfl := List.append_cancel_left (ht1'.symm.trans ht1)
  obtain rfl := List.append_cancel_left (ht2'.symm.trans ht2)
  have hmark : (m.log .fetched).tcpHistory = m.tcpHistory ++ [.fetched] := tcpHistory_log _ _
  -- the history of the call, with its two marks
  have hsplit : t = t0 ++ .opened :: (t1' ++ .fetched :: t2') := by
    have hall : n.tcpHistory ++ t = n.tcpHistory ++ (t0 ++ .opened :: (t1' ++ .fetched :: t2')) := by
      calc n.tcpHistory ++ t = m'.tcpHistory := ht.symm
        _ = _ := by
          rw [ht2, hmark, ht1, hhist, ht0]
          simp
    exact List.append_cancel_left hall
  rw [hsplit, sessionEvents_append ho0] at hnet hfin ⊢
  rw [beforeResult_append hf1] at hfin ⊢
  have hgood := serverStream_prefixClosed _ _ hnet
  have hrec := hrec1 [] hgood (receiving_nil hclosed)
  rw [List.nil_append] at hrec
  have hfed := hrec.complete hfin
  -- what comes after the result is not data
  have hafter : fedBytes t2' = [] := by
    have hmarked : Receiving stream isn (m.log .fetched) (t1' ++ [.fetched]) :=
      hrec.other rfl rfl rfl rfl rfl (by simp) (by simp)
    rw [show t1' ++ .fetched :: t2' = t1' ++ [.fetched] ++ t2' by simp] at hnet
    have hend := (hrec2 (t1' ++ [.fetched]) hnet hmarked).complete
      (hfin.imp fun a ha => by simp [ha])
    rw [fedBytes, List.flatMap_append, List.flatMap_append] at hend
    rw [fedBytes] at hfed ⊢
    rw [hfed] at hend
    simpa [NetEvent.fedData] using hend
  rw [hfed] at htcp1
  rw [hafter, feedData_nil] at htcp2
  have hdone1 : (tcpHttpFeedData n1.tcp stream).headerDone = true := by
    rw [htcp1] at hdone
    exact hdone
  obtain ⟨hdr, body, hh, happ, htot, hin⟩ := feedData_complete hopen hdone1
  have hbl : body.length < 2 ^ 31 := by
    have := congrArg List.length happ
    rw [List.length_append] at this
    omega
  refine ⟨hfed, hdr, body, hh, happ, ?_, ?_⟩
  · have htot' : m.tcp.bodyTotal = UInt32.ofNat body.length := by
      rw [htcp1]
      exact htot
    rw [hlenr, htot', UInt32.toNat_ofNat_of_lt' (lt_trans hbl (by decide))]
  · intro htr
    have hout : m'.tcp.bodyOut = (tcpHttpFeedData n1.tcp stream).bodyOut := by
      rw [htcp2]
      change m.tcp.bodyOut = _
      rw [htcp1]
      rfl
    rw [hbody, hout]
    apply hin
    rw [htrunc, htcp1] at htr
    exact htr

/-- `http://10.0.0.2/`. -/
def literalUrl : List UInt8 :=
  [104, 116, 116, 112, 58, 47, 47, 49, 48, 46, 48, 46, 48, 46, 50, 47]

/-- `10.0.0.2`. -/
def literalHost : List UInt8 := [49, 48, 46, 48, 46, 48, 46, 50]

theorem netHttpGet_literal (fuel : Nat) (timeoutMs z : UInt32) (out : Option Buf) (n : Net)
    (ht : timeoutMs ≠ 0) (hup : n.cfg.linkUp = true) (hip : n.cfg.ip ≠ 0) (hdns : n.cfg.dns ≠ 0) :
    netHttpGet fuel literalUrl timeoutMs out z n =
      httpConnect fuel literalHost [47] 0x0A000002 80 timeoutMs out z n := by
  have hurl : parseHttpUrl literalUrl 128 = .ok (literalHost, 80, [47]) := by decide +kernel
  have hhost : netParseIpv4 literalHost = some 0x0A000002 := by decide +kernel
  have hne : literalHost ≠ [] := by decide +kernel
  have hres : netResolveIpv4 fuel literalHost timeoutMs n = some (some 0x0A000002, n) := by
    unfold netResolveIpv4
    rw [get_bind_run, if_neg (by simp [hup, hip, hdns, hne]), hhost]
    rfl
  unfold netHttpGet
  rw [if_neg ht, hurl]
  dsimp only
  rw [get_bind_run, if_neg (by simp [hup]), if_neg hip, bind_run hres]

/-- A frame of the server that carries a segment. -/
def serverPacket (seq : UInt32) (flags : UInt8) (data : List UInt8)
    (h : data.length ≤ 16) : RxPacket where
  status := 1
  data := broadcastMac.bytes ++ broadcastMac.bytes ++ be16 ethTypeIpv4 ++
    (ipv4Header (UInt16.ofNat (40 + data.length)) 0 0 6 0x0A000002 0x0A000001 ++
      (tcpHeader 80 49152 seq 0 flags 0 ++ data))
  crc := [0, 0, 0, 0]
  fits := by
    simp only [List.length_append, broadcastMac, ipv4Header, tcpHeader, be16, be32,
      List.length_cons, List.length_nil]
    omega
  crcLength := zeroCrc_length

/-- A host whose neighbour is the server; the packets arrive as the call starts. -/
def fetchNet (packets : List RxPacket) : Net :=
  { cfg := { mac := broadcastMac, ip := 0x0A000001, dns := 1, linkUp := true }
    arp := ⟨true, 0x0A000002, broadcastMac⟩
    drv := { up := true }
    env := fun i => if i = 0 then packets.map .arrive else [.txDone 0] }

def fetchRun (packets : List RxPacket) : Option (HttpResponse × Net) :=
  netHttpGet 6 literalUrl 1000 (some fun _ => 0) 16 (fetchNet packets)

/-- `H 200` and an empty line: a header. -/
def shortHeader : List UInt8 := [72, 32, 50, 48, 48, 13, 10, 13, 10]

theorem fetchRun_eq (packets : List RxPacket) : fetchRun packets =
    httpConnect 6 literalHost [47] 0x0A000002 80 1000 (some fun _ => 0) 16 (fetchNet packets) := by
  exact netHttpGet_literal _ _ _ _ _ (by decide) rfl (by simp [fetchNet]) (by simp [fetchNet])

/-- A SYN-ACK, and the whole stream in one segment with the FIN. -/
theorem http_get_complete_one_segment : ∃ r n',
    fetchRun [serverPacket 99 0x12 [] (by decide),
      serverPacket 100 0x11 (shortHeader ++ [104, 105]) (by decide)] = some (r, n') ∧
    r.result = .ok ∧
    ∃ hdr body, HeaderOf (shortHeader ++ [104, 105]) hdr ∧
      shortHeader ++ [104, 105] = hdr ++ body ∧ r.bodyLen.toNat = body.length ∧
      (r.bodyTruncated = false → BodyIn r.body body) := by
  have h : (fetchRun [serverPacket 99 0x12 [] (by decide),
      serverPacket 100 0x11 (shortHeader ++ [104, 105]) (by decide)]).map
        (fun a => (a.1.result, a.2.tcpHistory)) =
      some (.ok, [.opened, .segment ⟨0x0A000002, 80, 49152, 99, 0x12, []⟩, .accepted 99,
        .handled 100, .segment ⟨0x0A000002, 80, 49152, 100, 0x11, shortHeader ++ [104, 105]⟩,
        .fed (shortHeader ++ [104, 105]), .fin 111 111, .handled 112, .fetched]) := by
    rw [fetchRun_eq]
    decide +kernel
  obtain ⟨⟨r, n'⟩, hrun, heq⟩ := Option.map_eq_some_iff.mp h
  obtain ⟨hok, hhist⟩ := Prod.mk.inj heq
  refine ⟨r, n', hrun, hok, ?_⟩
  refine (http_get_complete 6 literalUrl 1000 16 _ (shortHeader ++ [104, 105]) 99 _ n' r _
    (by decide) hrun hok hhist ⟨?_, ?_⟩ ⟨111, by decide⟩).2
  · intro s hs
    simp only [sessionEvents, List.dropWhile_cons, ne_eq, not_true_eq_false, decide_false,
      Bool.false_eq_true, if_false, List.tail_cons, List.mem_cons, reduceCtorEq,
      NetEvent.segment.injEq, List.not_mem_nil, or_false, false_or] at hs
    rcases hs with rfl | rfl
    · exact ⟨fun h => absurd rfl h, by decide⟩
    · exact ⟨fun _ => ⟨0, by decide, by decide, List.prefix_refl _⟩, by decide⟩
  · intro q hq
    exact (Option.some.inj hq).symm

/-- The FIN overtakes a byte of the body: the result is `NET_HTTP_OK` all the same,
without a byte of the body and without a word on it. -/
theorem http_get_incomplete : ∃ r n' t,
    fetchRun [serverPacket 99 0x12 [] (by decide), serverPacket 100 0x18 shortHeader (by decide),
      serverPacket 110 0x11 [105] (by decide)] = some (r, n') ∧ r.result = .ok ∧
    n'.tcpHistory = t ∧ ServerStream (shortHeader ++ [104, 105]) 99 (sessionEvents t) ∧
    fedBytes (beforeResult (sessionEvents t)) ≠ shortHeader ++ [104, 105] ∧
    r.bodyLen = 0 ∧ r.bodyTruncated = false := by
  have h : (fetchRun [serverPacket 99 0x12 [] (by decide),
      serverPacket 100 0x18 shortHeader (by decide), serverPacket 110 0x11 [105] (by decide)]).map
        (fun a => ((a.1.result, a.1.bodyLen, a.1.bodyTruncated), a.2.tcpHistory)) =
      some ((.ok, 0, false), [.opened, .segment ⟨0x0A000002, 80, 49152, 99, 0x12, []⟩,
        .accepted 99, .handled 100, .segment ⟨0x0A000002, 80, 49152, 100, 0x18, shortHeader⟩,
        .fed shortHeader, .handled 109, .segment ⟨0x0A000002, 80, 49152, 110, 0x11, [105]⟩,
        .fin 111 109, .handled 109, .fetched]) := by
    rw [fetchRun_eq]
    decide +kernel
  obtain ⟨⟨r, n'⟩, hrun, heq⟩ := Option.map_eq_some_iff.mp h
  obtain ⟨hres, hhist⟩ := Prod.mk.inj heq
  obtain ⟨hok, hres⟩ := Prod.mk.inj hres
  obtain ⟨hlen, htrunc⟩ := Prod.mk.inj hres
  refine ⟨r, n', _, hrun, hok, hhist, ⟨?_, ?_⟩, by decide, hlen, htrunc⟩
  · intro s hs
    simp only [sessionEvents, List.dropWhile_cons, ne_eq, not_true_eq_false, decide_false,
      Bool.false_eq_true, if_false, List.tail_cons, List.mem_cons, reduceCtorEq,
      NetEvent.segment.injEq, List.not_mem_nil, or_false, false_or] at hs
    rcases hs with rfl | rfl | rfl
    · exact ⟨fun h => absurd rfl h, by decide⟩
    · exact ⟨fun _ => ⟨0, by decide, by decide, List.prefix_append _ _⟩, by decide⟩
    · exact ⟨fun _ => ⟨10, by decide, by decide, List.prefix_refl _⟩, by decide⟩
  · intro q hq
    exact (Option.some.inj hq).symm

end Complete

end VertexOS
