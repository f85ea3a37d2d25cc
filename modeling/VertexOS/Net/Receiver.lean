import VertexOS.Library.Histories
import VertexOS.Net.HttpStream
import VertexOS.Net.Stable

namespace VertexOS
open Library.Programs

/-- The events of the connection. -/
def NetEvent.ofTcp : NetEvent → Bool
  | .segment _ | .accepted _ | .fed _ | .fin _ _ | .handled _ | .opened | .fetched => true
  | _ => false

def Net.tcpHistory (n : Net) : List NetEvent := n.trace.filter NetEvent.ofTcp

/-- Neither the session nor its history has changed. -/
structure SameTcp (n n' : Net) : Prop where
  tcp : n'.tcp = n.tcp
  history : n'.tcpHistory = n.tcpHistory

theorem sameTcp_chains : Chains SameTcp := by
  constructor
  · intro n
    exact ⟨rfl, rfl⟩
  · intro n1 n2 n3 h h'
    exact ⟨h'.tcp.trans h.tcp, h'.history.trans h.history⟩

theorem tcpHistory_log (n : Net) (e : NetEvent) : (n.log e).tcpHistory =
    if e.ofTcp then n.tcpHistory ++ [e] else n.tcpHistory := by
  simp only [Net.tcpHistory, Net.log, List.filter_append, List.filter_singleton]
  cases e.ofTcp <;> simp

theorem SameTcp.log {n n' : Net} {e : NetEvent} (h : SameTcp n n') (he : e.ofTcp = false) :
    SameTcp n (n'.log e) := by
  refine ⟨h.tcp, ?_⟩
  rw [tcpHistory_log, he, if_neg Bool.false_ne_true]
  exact h.history

theorem hwEvent_sameTcp (n : Net) (e : HwEvent) : SameTcp n (hwEvent n e) := by
  cases e with
  | tick => exact ⟨rfl, rfl⟩
  | txDone i => exact ⟨rfl, rfl⟩
  | arrive p =>
    simp only [hwEvent, receiveFrame]
    split
    · exact SameTcp.log ⟨rfl, rfl⟩ rfl
    · exact ⟨rfl, rfl⟩

theorem dnsReceive_sameTcp (n : Net) (payload len : Nat) : SameTcp n (dnsReceive n payload len) := by
  simp only [dnsReceive]
  repeat' split
  all_goals exact ⟨rfl, rfl⟩

theorem dhcpTransition_sameTcp (n : Net) (msgType : UInt8) (yiaddr : UInt32) :
    SameTcp n (dhcpTransition n msgType yiaddr) := by
  simp only [dhcpTransition]
  split
  · exact ⟨rfl, rfl⟩
  · split
    · exact SameTcp.log ⟨rfl, rfl⟩ rfl
    · exact ⟨rfl, rfl⟩

theorem dhcpReceive_sameTcp (n : Net) (payload len : Nat) :
    SameTcp n (dhcpReceive n payload len) := by
  simp only [dhcpReceive]
  split
  · exact ⟨rfl, rfl⟩
  split
  · exact ⟨rfl, rfl⟩
  split
  · exact ⟨rfl, rfl⟩
  split
  · exact ⟨rfl, rfl⟩
  apply sameTcp_chains.trans _ _ _ _ (dhcpTransition_sameTcp _ _ _)
  exact SameTcp.log ⟨rfl, rfl⟩ rfl

theorem sameTcp_handlers : HandlerStable SameTcp where
  toChains := sameTcp_chains
  access := access_of_hwEvent sameTcp_chains hwEvent_sameTcp fun _ _ => ⟨rfl, rfl⟩
  startTx _ _ := SameTcp.log ⟨rfl, rfl⟩ rfl
  buildFrame _ _ _ _ _ := ⟨rfl, rfl⟩
  buildIpv4 _ _ _ _ _ _ := ⟨rfl, rfl⟩
  learnArp _ _ _ := ⟨rfl, rfl⟩
  pingReply _ _ := ⟨rfl, rfl⟩
  dnsReceive := dnsReceive_sameTcp
  dhcpReceive := dhcpReceive_sameTcp
  buildAck _ _ _ _ _ _ := SameTcp.log ⟨rfl, rfl⟩ rfl

theorem sameTcp_poll : PollStable SameTcp where
  clearIsr _ _ := ⟨rfl, rfl⟩
  polled _ _ := SameTcp.log ⟨rfl, rfl⟩ rfl
  enterFrame _ _ := SameTcp.log ⟨rfl, rfl⟩ rfl
  leaveFrame _ _ := SameTcp.log ⟨rfl, rfl⟩ rfl
  advanceRx _ _ := ⟨rfl, rfl⟩

section Stream

variable {stream : List UInt8} {isn : UInt32} {t : List NetEvent}

/-- The data an event feeds to the parser. -/
def NetEvent.fedData : NetEvent → List UInt8
  | .fed data => data
  | _ => []

/-- All the data that was passed to `tcp_http_feed_data`. -/
def fedBytes (t : List NetEvent) : List UInt8 := t.flatMap NetEvent.fedData

def NetEvent.acceptedSeq : NetEvent → Option UInt32
  | .accepted seq => some seq
  | _ => none

/-- The sequence number of the first SYN-ACK that was accepted. -/
def firstAccepted (t : List NetEvent) : Option UInt32 := t.findSome? NetEvent.acceptedSeq

/-- The FIN was received when all of the stream had been. -/
def FinInOrder (stream : List UInt8) (t : List NetEvent) : Prop :=
  ∃ (p : List NetEvent) (a b : UInt32) (r : List NetEvent), t = p ++ .fin a b :: r ∧
    fedBytes p = stream

/-- A segment carries the slice of the stream that its sequence number names, and a
FIN stands behind the whole stream. -/
structure SliceOf (stream : List UInt8) (isn : UInt32) (s : TcpSegment) : Prop where
  data : s.data ≠ [] → ∃ j, s.seq = isn + 1 + UInt32.ofNat j ∧ j ≤ stream.length ∧
    s.data <+: stream.drop j
  fin : s.has tcpFlagFin = true →
    s.seq + UInt32.ofNat s.data.length = isn + 1 + UInt32.ofNat stream.length

/-- What the network may do: any order, loss and duplication of the server's
segments. -/
structure ServerStream (stream : List UInt8) (isn : UInt32) (t : List NetEvent) : Prop where
  slices : ∀ s, .segment s ∈ t → SliceOf stream isn s
  syn : ∀ q, firstAccepted t = some q → q = isn

/-- `seq_remote` stands behind the bytes that were fed, a prefix of the stream, and
behind the FIN. -/
def AtPosition (stream : List UInt8) (isn : UInt32) (t : List NetEvent) (seqRemote : UInt32) :
    Prop :=
  ∃ k, k ≤ stream.length ∧ fedBytes t = stream.take k ∧
    ((FinInOrder stream t ∧ k = stream.length ∧ seqRemote = isn + 1 + UInt32.ofNat k + 1) ∨
      (¬FinInOrder stream t ∧ seqRemote = isn + 1 + UInt32.ofNat k))

/-- Every call that is over left `seq_remote` behind what was fed. -/
def CallsDescribed (stream : List UInt8) (isn : UInt32) (t : List NetEvent) : Prop :=
  ∀ (p : List NetEvent) (q : UInt32) (r : List NetEvent), t = p ++ .handled q :: r →
    firstAccepted p ≠ none → AtPosition stream isn p q

/-- The invariant of the receiver. -/
structure Receiving (stream : List UInt8) (isn : UInt32) (n : Net) (t : List NetEvent) : Prop where
  before : n.tcp.established = false →
    fedBytes t = [] ∧ firstAccepted t = none ∧ ∀ a b, .fin a b ∉ t
  after : n.tcp.established = true → n.tcp.connecting = false ∧ firstAccepted t = some isn ∧
    AtPosition stream isn t n.tcp.seqRemote
  calls : CallsDescribed stream isn t
  fins : ∀ a, .fin a a ∈ t → FinInOrder stream t

theorem fedBytes_snoc (t : List NetEvent) (e : NetEvent) :
    fedBytes (t ++ [e]) = fedBytes t ++ e.fedData := by
  simp [fedBytes]

theorem firstAccepted_append (t u : List NetEvent) :
    firstAccepted (t ++ u) = (firstAccepted t).or (firstAccepted u) := by
  simp [firstAccepted]

theorem finInOrder_snoc (t : List NetEvent) (e : NetEvent) : FinInOrder stream (t ++ [e]) ↔
    FinInOrder stream t ∨ ((∃ a b, e = .fin a b) ∧ fedBytes t = stream) := by
  constructor
  · rintro ⟨p, a, b, r, h, hp⟩
    rcases split_snoc h with ⟨-, rfl, rfl⟩ | ⟨r', -, rfl⟩
    · exact .inr ⟨⟨a, b, rfl⟩, hp⟩
    · exact .inl ⟨p, a, b, r', rfl, hp⟩
  · rintro (⟨p, a, b, r, rfl, hp⟩ | ⟨⟨a, b, rfl⟩, hp⟩)
    · exact ⟨p, a, b, r ++ [e], by simp, hp⟩
    · exact ⟨t, a, b, [], rfl, hp⟩

theorem finInOrder_snoc_other {e : NetEvent} (he : ∀ a b, e ≠ .fin a b) :
    FinInOrder stream (t ++ [e]) ↔ FinInOrder stream t := by
  rw [finInOrder_snoc]
  constructor
  · rintro (h | ⟨⟨a, b, rfl⟩, -⟩)
    · exact h
    · exact absurd rfl (he a b)
  · exact Or.inl

theorem serverStream_prefixClosed : PrefixClosed (ServerStream stream isn) := by
  intro t u h
  constructor
  · intro s hs
    exact h.slices s (List.mem_append_left _ hs)
  · intro q hq
    apply h.syn
    rw [firstAccepted_append, hq]
    rfl

/-- Positions below `2 ^ 32` have different sequence numbers. -/
theorem seq_inj {isn : UInt32} {j k : Nat} (hj : j < 2 ^ 32) (hk : k < 2 ^ 32)
    (h : isn + 1 + UInt32.ofNat j = isn + 1 + UInt32.ofNat k) : j = k := by
  have h' := congrArg UInt32.toNat ((UInt32.add_right_inj _).mp h)
  rwa [UInt32.toNat_ofNat_of_lt' hj, UInt32.toNat_ofNat_of_lt' hk] at h'

theorem seq_next (isn : UInt32) (k d : Nat) :
    isn + 1 + UInt32.ofNat k + UInt32.ofNat d = isn + 1 + UInt32.ofNat (k + d) := by
  rw [UInt32.ofNat_add, UInt32.add_assoc _ (UInt32.ofNat k)]

theorem seq_fin (isn : UInt32) (k : Nat) :
    isn + 1 + UInt32.ofNat k + 1 = isn + 1 + UInt32.ofNat (k + 1) := seq_next isn k 1

theorem AtPosition.other {e : NetEvent} {q : UInt32} (h : AtPosition stream isn t q)
    (hd : e.fedData = []) (hf : ∀ a b, e ≠ .fin a b) : AtPosition stream isn (t ++ [e]) q := by
  obtain ⟨k, hk, hfed, hseq⟩ := h
  refine ⟨k, hk, ?_, ?_⟩
  · rw [fedBytes_snoc, hd, List.append_nil, hfed]
  · rw [finInOrder_snoc_other hf]
    exact hseq

/-- Data that is next in the stream moves the position on. -/
theorem AtPosition.data {s : TcpSegment} (hlen : stream.length < 2 ^ 31)
    (h : AtPosition stream isn t s.seq) (hs : SliceOf stream isn s) (hdata : s.data ≠ []) :
    AtPosition stream isn (t ++ [.fed s.data]) (s.seq + UInt32.ofNat s.data.length) := by
  obtain ⟨k, hk, hfed, hseq⟩ := h
  obtain ⟨j, hj, hjlen, hslice⟩ := hs.data hdata
  have hpos : 0 < s.data.length := List.length_pos_iff.mpr hdata
  have hroom := hslice.length_le
  rw [List.length_drop] at hroom
  rcases hseq with ⟨-, hkl, hq⟩ | ⟨hno, hq⟩
  · -- behind the FIN there is no data
    have := seq_inj (by omega) (by omega) (hj.symm.trans (hq.trans (seq_fin isn k)))
    omega
  · have hjk := seq_inj (by omega) (by omega) (hj.symm.trans hq)
    subst hjk
    refine ⟨j + s.data.length, by omega, ?_, .inr ⟨?_, ?_⟩⟩
    · rw [fedBytes_snoc, hfed, List.take_add, List.prefix_iff_eq_take.mp hslice]
      simp [NetEvent.fedData]
    · rw [finInOrder_snoc_other (by simp)]
      exact hno
    · rw [hq, seq_next]

/-- A FIN moves the position on when nothing is missing before it, and only once. -/
theorem AtPosition.fin {q a : UInt32} (hlen : stream.length < 2 ^ 31)
    (h : AtPosition stream isn t q) (ha : a = isn + 1 + UInt32.ofNat stream.length) :
    AtPosition stream isn (t ++ [.fin a q]) (if a = q then q + 1 else q) := by
  obtain ⟨k, hk, hfed, hseq⟩ := h
  refine ⟨k, hk, by rw [fedBytes_snoc, hfed]; simp [NetEvent.fedData], ?_⟩
  rw [finInOrder_snoc, hfed]
  rcases hseq with ⟨hyes, hkl, hq⟩ | ⟨hno, hq⟩
  · have hne : a ≠ q := by
      intro h
      rw [ha, hq, seq_fin, ← hkl] at h
      have := seq_inj (by omega) (by omega) h
      omega
    rw [if_neg hne]
    exact .inl ⟨.inl hyes, hkl, hq⟩
  · by_cases hkl : k = stream.length
    · have he : a = q := by rw [ha, hq, hkl]
      rw [if_pos he, hq]
      refine .inl ⟨.inr ⟨⟨a, _, rfl⟩, ?_⟩, hkl, rfl⟩
      rw [hkl, List.take_length]
    · have hne : a ≠ q := by
        intro h
        rw [ha, hq] at h
        exact hkl (seq_inj (by omega) (by omega) h).symm
      rw [if_neg hne]
      refine .inr ⟨?_, hq⟩
      rintro (h | ⟨-, h⟩)
      · exact hno h
      · have := congrArg List.length h
        rw [List.length_take] at this
        omega

/-- A FIN whose sequence number is `seq_remote` is in order. -/
theorem AtPosition.finInOrder {q a : UInt32} (hlen : stream.length < 2 ^ 31)
    (h : AtPosition stream isn t q) (hq : q = isn + 1 + UInt32.ofNat stream.length) :
    FinInOrder stream (t ++ [.fin a q]) := by
  obtain ⟨k, hk, hfed, hseq⟩ := h
  rw [finInOrder_snoc]
  rcases hseq with ⟨hyes, -, -⟩ | ⟨-, hk'⟩
  · exact .inl hyes
  · have hkl := seq_inj (by omega) (by omega) (hk'.symm.trans hq)
    refine .inr ⟨⟨a, q, rfl⟩, ?_⟩
    rw [hfed, hkl, List.take_length]

end Stream

section Steps

variable {stream : List UInt8} {isn : UInt32} {n n' : Net} {t : List NetEvent} {s : TcpSegment}

/-- A call that is over stays described as it was. -/
theorem CallsDescribed.snoc {e : NetEvent} (h : CallsDescribed stream isn t)
    (he : ∀ q, e = .handled q → firstAccepted t ≠ none → AtPosition stream isn t q) :
    CallsDescribed stream isn (t ++ [e]) := by
  intro p q r ht hp
  rcases split_snoc ht with ⟨-, rfl, hq⟩ | ⟨r', -, ht'⟩
  · exact he q hq.symm hp
  · exact h p q r' ht' hp

/-- A FIN that was in order stays so. -/
theorem fins_snoc {e : NetEvent} (h : ∀ a, .fin a a ∈ t → FinInOrder stream t)
    (he : ∀ a b, e ≠ .fin a b) : ∀ a, .fin a a ∈ t ++ [e] → FinInOrder stream (t ++ [e]) := by
  intro a ha
  rw [finInOrder_snoc_other he]
  rcases List.mem_append.mp ha with ha | ha
  · exact h a ha
  · exact absurd (List.mem_singleton.mp ha).symm (he a a)

theorem Receiving.established (h : Receiving stream isn n t) (ha : firstAccepted t ≠ none) :
    n.tcp.established = true := by
  cases he : n.tcp.established with
  | true => rfl
  | false => exact absurd (h.before he).2.1 ha

theorem Receiving.same (h : Receiving stream isn n t)
    (he : n'.tcp.established = n.tcp.established) (hc : n'.tcp.connecting = n.tcp.connecting)
    (hs : n'.tcp.seqRemote = n.tcp.seqRemote) : Receiving stream isn n' t := by
  constructor
  · rw [he]
    exact h.before
  · rw [he, hc, hs]
    exact h.after
  · exact h.calls
  · exact h.fins

/-- An event that is none of the receiver's. -/
theorem Receiving.other (h : Receiving stream isn n t) {e : NetEvent}
    (he : n'.tcp.established = n.tcp.established) (hc : n'.tcp.connecting = n.tcp.connecting)
    (hs : n'.tcp.seqRemote = n.tcp.seqRemote) (hd : e.fedData = []) (ha : e.acceptedSeq = none)
    (hf : ∀ a b, e ≠ .fin a b) (hcall : ∀ q, e ≠ .handled q) :
    Receiving stream isn n' (t ++ [e]) := by
  have hacc : firstAccepted (t ++ [e]) = firstAccepted t := by
    rw [firstAccepted_append]
    simp [firstAccepted, ha]
  constructor
  · intro he'
    obtain ⟨h1, h2, h3⟩ := h.before (he.symm.trans he')
    refine ⟨by rw [fedBytes_snoc, h1, hd]; rfl, hacc.trans h2, ?_⟩
    intro a b hab
    rcases List.mem_append.mp hab with hab | hab
    · exact h3 a b hab
    · exact hf a b (List.mem_singleton.mp hab).symm
  · intro he'
    obtain ⟨h1, h2, h3⟩ := h.after (he.symm.trans he')
    refine ⟨hc.trans h1, hacc.trans h2, ?_⟩
    rw [hs]
    exact h3.other hd hf
  · exact h.calls.snoc fun q hq => absurd hq (hcall q)
  · exact fins_snoc h.fins hf

theorem Receiving.accept (h : Receiving stream isn n t) (hc : n.tcp.connecting = true)
    {seq : UInt32} (hg : ServerStream stream isn (t ++ [.accepted seq])) :
    Receiving stream isn (acceptSynAck n seq) (t ++ [.accepted seq]) := by
  have he : n.tcp.established = false := by
    cases he : n.tcp.established with
    | false => rfl
    | true => simp [(h.after he).1] at hc
  obtain ⟨h1, h2, h3⟩ := h.before he
  have hfirst : firstAccepted (t ++ [.accepted seq]) = some seq := by
    rw [firstAccepted_append, h2]
    rfl
  have hseq := hg.syn seq hfirst
  subst hseq
  constructor
  · intro he'
    cases he'
  · intro _
    refine ⟨rfl, hfirst, 0, Nat.zero_le _, ?_, .inr ⟨?_, ?_⟩⟩
    · rw [fedBytes_snoc, h1]
      rfl
    · rw [finInOrder_snoc_other (by simp)]
      rintro ⟨p, a, b, r, rfl, -⟩
      exact h3 a b (by simp)
    · exact (UInt32.add_zero _).symm
  · exact h.calls.snoc (by simp)
  · exact fins_snoc h.fins (by simp)

theorem acceptData_connection (n : Net) (data : List UInt8) :
    (acceptData n data).tcp.established = n.tcp.established ∧
    (acceptData n data).tcp.connecting = n.tcp.connecting ∧
    (acceptData n data).tcp.seqRemote = n.tcp.seqRemote + UInt32.ofNat data.length := by
  obtain ⟨f, hf⟩ := feedData_connection
    { n.tcp with seqRemote := n.tcp.seqRemote + UInt32.ofNat data.length } data
  simp only [acceptData, Net.log]
  rw [hf]
  exact ⟨rfl, rfl, rfl⟩

theorem Receiving.data (hlen : stream.length < 2 ^ 31) (h : Receiving stream isn n t)
    (ha : firstAccepted t ≠ none) (hs : SliceOf stream isn s) (hdata : s.data ≠ [])
    (hseq : s.seq = n.tcp.seqRemote) :
    Receiving stream isn (acceptData n s.data) (t ++ [.fed s.data]) := by
  have he := h.established ha
  obtain ⟨hc, hf, hp⟩ := h.after he
  obtain ⟨htcp1, htcp2, htcp3⟩ := acceptData_connection n s.data
  constructor
  · intro he'
    rw [htcp1, he] at he'
    cases he'
  · intro _
    refine ⟨by rw [htcp2, hc], by rw [firstAccepted_append, hf]; rfl, ?_⟩
    rw [htcp3, ← hseq]
    rw [← hseq] at hp
    exact hp.data hlen hs hdata
  · exact h.calls.snoc (by simp)
  · exact fins_snoc h.fins (by simp)

theorem Receiving.fin (hlen : stream.length < 2 ^ 31) (h : Receiving stream isn n t)
    (ha : firstAccepted t ≠ none) (hs : SliceOf stream isn s) (hfin : s.has tcpFlagFin = true) :
    Receiving stream isn (acceptFin n s)
      (t ++ [.fin (s.seq + UInt32.ofNat s.data.length) n.tcp.seqRemote]) := by
  have he := h.established ha
  obtain ⟨hc, hf, hp⟩ := h.after he
  constructor
  · intro he'
    rw [show (acceptFin n s).tcp.established = n.tcp.established from rfl, he] at he'
    cases he'
  · intro _
    exact ⟨hc, by rw [firstAccepted_append, hf]; rfl, hp.fin hlen (hs.fin hfin)⟩
  · exact h.calls.snoc (by simp)
  · intro a ha
    rcases List.mem_append.mp ha with ha | ha
    · exact (finInOrder_snoc _ _).mpr (.inl (h.fins a ha))
    · have hq := NetEvent.fin.inj (List.mem_singleton.mp ha)
      apply hp.finInOrder hlen
      rw [← hq.2, hq.1, hs.fin hfin]

theorem Receiving.handled (h : Receiving stream isn n t) :
    Receiving stream isn (n.log (.handled n.tcp.seqRemote))
      (t ++ [.handled n.tcp.seqRemote]) := by
  constructor
  · intro he
    obtain ⟨h1, h2, h3⟩ := h.before he
    refine ⟨by rw [fedBytes_snoc, h1]; rfl, by rw [firstAccepted_append, h2]; rfl, ?_⟩
    intro a b hab
    simp only [List.mem_append, List.mem_singleton, reduceCtorEq, or_false] at hab
    exact h3 a b hab
  · intro he
    obtain ⟨h1, h2, h3⟩ := h.after he
    exact ⟨h1, by rw [firstAccepted_append, h2]; rfl, h3.other rfl (by simp)⟩
  · apply h.calls.snoc
    intro q hq ha
    cases hq
    exact (h.after (h.established ha)).2.2
  · exact fins_snoc h.fins (by simp)

end Steps

section Programs

variable {stream : List UInt8} {isn : UInt32} {poll : NetM Unit}

/-- What a part of the program does to the receiver. -/
def Receives (stream : List UInt8) (isn : UInt32) : Net → Net → Prop :=
  Carries Net.tcpHistory (ServerStream stream isn) (Receiving stream isn)

/-- The same once a segment is there and a SYN-ACK was accepted. -/
def ReceivesGiven (stream : List UInt8) (isn : UInt32) (past : List NetEvent → Prop) :
    Net → Net → Prop :=
  Carries Net.tcpHistory (ServerStream stream isn) fun n t => past t ∧ Receiving stream isn n t

theorem receives_chains : Chains (Receives stream isn) :=
  Carries.chains serverStream_prefixClosed

theorem receivesGiven_chains {past : List NetEvent → Prop} :
    Chains (ReceivesGiven stream isn past) :=
  Carries.chains serverStream_prefixClosed

theorem receives_of_sameTcp {n n' : Net} (h : SameTcp n n') : Receives stream isn n n' := by
  apply Carries.silent h.history
  intro t0 _ hi
  exact hi.same (by rw [h.tcp]) (by rw [h.tcp]) (by rw [h.tcp])

theorem receives_handlers : HandlerStable (Receives stream isn) :=
  sameTcp_handlers.mono receives_chains fun _ _ => receives_of_sameTcp

/-- The segment has come in. -/
def Arrived (s : TcpSegment) (t : List NetEvent) : Prop := .segment s ∈ t

/-- The segment has come in on an open connection. -/
def ArrivedOpen (s : TcpSegment) (t : List NetEvent) : Prop :=
  .segment s ∈ t ∧ firstAccepted t ≠ none

theorem arrived_lasting (s : TcpSegment) : Lasting (Arrived s) := fun _ _ h =>
  List.mem_append_left _ h

theorem arrivedOpen_lasting (s : TcpSegment) : Lasting (ArrivedOpen s) := by
  rintro t u ⟨h, ha⟩
  refine ⟨List.mem_append_left _ h, ?_⟩
  rw [firstAccepted_append]
  cases hf : firstAccepted t with
  | none => exact absurd hf ha
  | some q => simp

theorem tcpData_receives (hlen : stream.length < 2 ^ 31) (hpoll : Keeps (Receives stream isn) poll)
    (fuel : Nat) (s : TcpSegment) :
    Keeps (ReceivesGiven stream isn (ArrivedOpen s)) (tcpData poll fuel s) := by
  apply KeepsAt.all
  intro n
  apply KeepsAt.get_bind
  apply KeepsAt.ite
  · rintro ⟨hdata, hseq⟩
    apply KeepsAt.modify_bind receivesGiven_chains
    · apply Carries.event (e := .fed s.data)
      · exact tcpHistory_log _ _
      · rintro t0 hg ⟨⟨hs, ha⟩, hi⟩
        refine ⟨arrivedOpen_lasting s t0 _ ⟨hs, ha⟩, ?_⟩
        exact hi.data hlen ha (hg.slices s (List.mem_append_left _ hs)) hdata hseq
    · apply Keeps.at
      exact (sendAck_keeps receives_handlers.toPacketStable hpoll fuel).mono fun _ _ =>
        Carries.given (arrivedOpen_lasting s)
  · intro _
    exact (Keeps.pure receivesGiven_chains _).at n

theorem tcpFin_receives (hlen : stream.length < 2 ^ 31) (hpoll : Keeps (Receives stream isn) poll)
    (fuel : Nat) (s : TcpSegment) :
    Keeps (ReceivesGiven stream isn (ArrivedOpen s)) (tcpFin poll fuel s) := by
  apply KeepsAt.all
  intro n
  apply KeepsAt.ite
  · intro hfin
    apply KeepsAt.modify_bind receivesGiven_chains
    · apply Carries.event (tcpHistory_log _ _)
      rintro t0 hg ⟨⟨hs, ha⟩, hi⟩
      refine ⟨arrivedOpen_lasting s t0 _ ⟨hs, ha⟩, ?_⟩
      exact hi.fin hlen ha (hg.slices s (List.mem_append_left _ hs)) hfin
    · apply Keeps.at
      exact (sendAck_keeps receives_handlers.toPacketStable hpoll fuel).mono fun _ _ =>
        Carries.given (arrivedOpen_lasting s)
  · intro _
    exact (Keeps.pure receivesGiven_chains _).at n

theorem tcpProcess_receives (hlen : stream.length < 2 ^ 31)
    (hpoll : Keeps (Receives stream isn) poll) (fuel : Nat) (s : TcpSegment) :
    Keeps (ReceivesGiven stream isn (Arrived s)) (tcpProcess poll fuel s) := by
  have hack := sendAck_keeps receives_handlers.toPacketStable hpoll fuel
  apply KeepsAt.all
  intro n
  apply KeepsAt.ite
  · intro _
    apply KeepsAt.modify_bind receivesGiven_chains
    · apply Carries.silent
      · rfl
      · rintro t0 _ ⟨hs, hi⟩
        exact ⟨hs, hi.same rfl rfl rfl⟩
    · exact (Keeps.pure receivesGiven_chains _).at _
  · intro _
    apply KeepsAt.get_bind
    apply KeepsAt.ite
    · rintro ⟨hc, -, -⟩
      apply KeepsAt.modify_bind receivesGiven_chains
      · apply Carries.event (tcpHistory_log _ _)
        rintro t0 hg ⟨hs, hi⟩
        exact ⟨arrived_lasting s t0 _ hs, hi.accept hc hg⟩
      · apply Keeps.at
        exact (Keeps.bind receives_chains hack fun _ => Keeps.pure receives_chains _).mono
          fun _ _ => Carries.given (arrived_lasting s)
    · intro _
      apply KeepsAt.ite
      · intro _
        exact (Keeps.pure receivesGiven_chains _).at n
      · intro hopen
        have hboth := Keeps.bind receivesGiven_chains (tcpData_receives hlen hpoll fuel s) fun _ =>
          tcpFin_receives hlen hpoll fuel s
        intro a n' hrun
        -- the connection is open here, so its SYN-ACK is in the past
        obtain ⟨t, ht, hi⟩ := hboth n a n' hrun
        refine ⟨t, ht, ?_⟩
        rintro t0 hg ⟨hs, h0⟩
        have he : n.tcp.established = true := by simpa using hopen
        have ha : firstAccepted t0 ≠ none := by
          rw [(h0.after he).2.1]
          simp
        exact ⟨arrived_lasting s t0 t hs, (hi t0 hg ⟨⟨hs, ha⟩, h0⟩).2⟩

theorem tcpReceive_receives (hlen : stream.length < 2 ^ 31)
    (hpoll : Keeps (Receives stream isn) poll) : TcpKeeps (Receives stream isn) poll := by
  intro fuel s
  refine Keeps.bind receives_chains (Keeps.get receives_chains) fun n => ?_
  refine Keeps.ite (Keeps.pure receives_chains _) ?_
  refine Keeps.bind receives_chains (pitGetTicks_keeps receives_handlers.toTimeStable) fun now => ?_
  intro n a n' hrun
  obtain ⟨_, n1, h1, hrun⟩ := bind_inv hrun
  obtain ⟨_, n2, h2, h3⟩ := bind_inv hrun
  rw [modify_inv h1] at h2
  rw [modify_inv h3]
  obtain ⟨t, ht, hi⟩ := tcpProcess_receives hlen hpoll fuel s _ _ _ h2
  have harrive : ∀ t0, Receiving stream isn n t0 →
      Receiving stream isn (noteSegment n now s) (t0 ++ [.segment s]) := by
    intro t0 h0
    exact h0.other rfl rfl rfl rfl rfl (by simp) (by simp)
  refine ⟨[.segment s] ++ t ++ [.handled n2.tcp.seqRemote], ?_, ?_⟩
  · have hn : (noteSegment n now s).tcpHistory = n.tcpHistory ++ [.segment s] :=
      tcpHistory_log _ _
    have hh : (n2.log (.handled n2.tcp.seqRemote)).tcpHistory = n2.tcpHistory ++
        [.handled n2.tcp.seqRemote] := tcpHistory_log _ _
    rw [hh, ht, hn, List.append_assoc, List.append_assoc, List.append_assoc]
  · intro t0 hg h0
    rw [← List.append_assoc, ← List.append_assoc] at hg ⊢
    have hg' := serverStream_prefixClosed _ _ hg
    exact (hi (t0 ++ [.segment s]) hg' ⟨by simp [Arrived], harrive t0 h0⟩).2.handled

/-- The receive path, however it is nested. -/
theorem netPoll_receives (hlen : stream.length < 2 ^ 31) (fuel : Nat) :
    Keeps (Receives stream isn) (netPoll fuel) := by
  have hp : PollStable (Receives stream isn) := sameTcp_poll.mono fun _ _ => receives_of_sameTcp
  refine netPoll_keeps receives_handlers hp ?_ fuel
  intro poll hpoll
  exact tcpReceive_receives hlen hpoll

end Programs

section Runs

variable {stream : List UInt8} {isn : UInt32}

/-- Between two calls the rest of the kernel runs: it leaves the receiver alone. -/
structure SameReceiver (n n' : Net) : Prop where
  established : n'.tcp.established = n.tcp.established
  connecting : n'.tcp.connecting = n.tcp.connecting
  seqRemote : n'.tcp.seqRemote = n.tcp.seqRemote
  history : n'.tcpHistory = n.tcpHistory

/-- Calls of `handle_tcp` one after another, on whatever bytes; while one of them
waits to send its acknowledgment, it polls and more of them are nested in it. -/
inductive TcpRun : Net → Net → Prop where
  | start (n : Net) : TcpRun n n
  | call {n m m' n' : Net} (fuel ip payload len : Nat) (hrun : TcpRun n m) (hm : SameReceiver m m')
      (hcall : handleTcp (netPoll fuel) fuel ip payload len m' = some ((), n')) : TcpRun n n'

theorem receives_of_sameReceiver {n n' : Net} (h : SameReceiver n n') :
    Receives stream isn n n' := by
  apply Carries.silent h.history
  intro t0 _ hi
  exact hi.same h.established h.connecting h.seqRemote

theorem TcpRun.receives (hlen : stream.length < 2 ^ 31) {n n' : Net} (h : TcpRun n n') :
    Receives stream isn n n' := by
  induction h with
  | start => exact receives_chains.refl _
  | call fuel ip payload len hrun hm hcall ih =>
    have hpoll : Keeps (Receives stream isn) (netPoll fuel) := netPoll_receives hlen fuel
    have hstep := handleTcp_keeps receives_chains (tcpReceive_receives hlen hpoll)
      fuel ip payload len
    apply receives_chains.trans _ _ _ ih
    exact receives_chains.trans _ _ _ (receives_of_sameReceiver hm) (hstep _ _ _ hcall)

/-- Before the connection is set up nothing was received. -/
theorem receiving_nil {n : Net} (h : n.tcp.established = false) : Receiving stream isn n [] := by
  constructor
  · intro _
    exact ⟨rfl, rfl, by simp⟩
  · intro he
    rw [h] at he
    cases he
  · intro p q r ht
    cases p <;> cases ht
  · intro a ha
    cases ha

/-- Whatever the network does with the segments, after each call the parser was fed a
prefix of the stream, and `seq_remote` stands behind it. -/
theorem tcp_delivers_stream (stream : List UInt8) (isn : UInt32) (n n' : Net) (t : List NetEvent)
    (hlen : stream.length < 2 ^ 31) (hclosed : n.tcp.established = false) (hrun : TcpRun n n')
    (ht : n'.tcpHistory = n.tcpHistory ++ t) (hnet : ServerStream stream isn t) :
    (∀ (p : List NetEvent) (q : UInt32) (r : List NetEvent), t = p ++ .handled q :: r →
      firstAccepted p ≠ none → AtPosition stream isn p q) ∧
    (firstAccepted t ≠ none → AtPosition stream isn t n'.tcp.seqRemote) := by
  obtain ⟨u, hu, hi⟩ : Receives stream isn n n' := hrun.receives hlen
  have hut : u = t := List.append_cancel_left (hu.symm.trans ht)
  subst hut
  have h := hi [] hnet (receiving_nil hclosed)
  refine ⟨h.calls, ?_⟩
  intro ha
  exact (h.after (h.established ha)).2.2

/-- A session that waits for its SYN-ACK; the server is a neighbour. -/
def connectingNet : Net :=
  { cfg := { mac := broadcastMac, ip := 0x0A000001 }
    arp := ⟨true, 0x0A000002, broadcastMac⟩
    tcp := { active := true, connecting := true, remoteIp := 0x0A000002, localPort := 49152,
             remotePort := 80 } }

/-- A segment of the server, its IPv4 header first. -/
def serverFrame (seq : UInt32) (flags : UInt8) (data : List UInt8) : Buf :=
  bufOf (List.replicate 12 0 ++ be32 0x0A000002 ++ be32 0x0A000001 ++
    tcpHeader 80 49152 seq 0 flags 0 ++ data)

/-- A call of `handle_tcp` on a segment of the server. -/
def callTcp (n : Net) (seq : UInt32) (flags : UInt8) (data : List UInt8) : Net :=
  match handleTcp (netPoll 1) 1 0 20 (20 + data.length)
    { n with drv := { n.drv with rxFrameTmp := serverFrame seq flags data } } with
  | some r => r.2
  | none => n

theorem TcpRun.callTcp {n m : Net} (h : TcpRun n m) (seq : UInt32) (flags : UInt8)
    (data : List UInt8) : TcpRun n (callTcp m seq flags data) := by
  simp only [VertexOS.callTcp]
  split
  · next r hr =>
    have hm : SameReceiver m
        { m with drv := { m.drv with rxFrameTmp := serverFrame seq flags data } } :=
      ⟨rfl, rfl, rfl, rfl⟩
    exact .call 1 0 20 (20 + data.length) h hm hr
  · exact h

/-- A SYN-ACK with the last sequence number, the end of the stream ahead of the rest,
and the whole stream with the FIN. -/
def reorderedRun : Net :=
  callTcp (callTcp (callTcp connectingNet 0xFFFFFFFF 0x12 []) 1 0x11 [105]) 0 0x11 [72, 105]

theorem tcp_delivers_stream_reordered : ∃ t, reorderedRun.tcpHistory = t ∧
    fedBytes t = [72, 105] ∧ reorderedRun.tcp.seqRemote = 3 ∧
    AtPosition [72, 105] 0xFFFFFFFF t reorderedRun.tcp.seqRemote := by
  have hrun : TcpRun connectingNet reorderedRun :=
    (((TcpRun.start connectingNet).callTcp _ _ _).callTcp _ _ _).callTcp _ _ _
  have ht : reorderedRun.tcpHistory = [
      .segment ⟨0x0A000002, 80, 49152, 0xFFFFFFFF, 0x12, []⟩, .accepted 0xFFFFFFFF, .handled 0,
      .segment ⟨0x0A000002, 80, 49152, 1, 0x11, [105]⟩, .fin 2 0, .handled 0,
      .segment ⟨0x0A000002, 80, 49152, 0, 0x11, [72, 105]⟩, .fed [72, 105], .fin 2 2,
      .handled 3] := by decide +kernel
  refine ⟨_, ht, by decide, by decide +kernel, ?_⟩
  refine (tcp_delivers_stream [72, 105] 0xFFFFFFFF connectingNet _ _ (by decide) rfl hrun
    ht ⟨?_, ?_⟩).2 (by decide)
  · intro s hs
    simp only [List.mem_cons, reduceCtorEq, NetEvent.segment.injEq, List.not_mem_nil, or_false,
      false_or] at hs
    rcases hs with rfl | rfl | rfl
    · exact ⟨fun h => absurd rfl h, by decide⟩
    · exact ⟨fun _ => ⟨1, by decide, by decide, List.prefix_refl _⟩, by decide⟩
    · exact ⟨fun _ => ⟨0, by decide, by decide, List.prefix_refl _⟩, by decide⟩
  · intro q hq
    exact (Option.some.inj hq).symm

end Runs

end VertexOS
