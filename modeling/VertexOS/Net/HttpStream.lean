import VertexOS.Net.Http

namespace VertexOS

section Body

variable {t : TcpHttp} {a b : List UInt8}

/-- The next body byte overwrites the terminating zero. -/
theorem appendByte_endBody (t : TcpHttp) (c : UInt8) :
    appendByte (endBody t) c = appendByte t c ∨
    appendByte (endBody t) c = endBody (appendByte t c) := by
  cases hb : t.bodyOut with
  | none => simp [appendByte, endBody, hb]
  | some buf =>
    by_cases hs : t.bodyOutSize > 0
    · by_cases hp : t.bodyOutPos + 1 < t.bodyOutSize
      · left
        simp [appendByte, endBody, hb, hs, hp]
      · right
        simp [appendByte, endBody, hb, hs, hp]
    · right
      simp [appendByte, endBody, hb, hs]

@[simp] theorem endBody_endBody (t : TcpHttp) : endBody (endBody t) = endBody t := by
  cases hb : t.bodyOut with
  | none => simp [endBody, hb]
  | some buf =>
    by_cases hs : t.bodyOutSize > 0
    · simp [endBody, hb, hs]
    · simp [endBody, hb, hs]

theorem endBody_foldl (t : TcpHttp) (cs : List UInt8) :
    endBody (cs.foldl appendByte (endBody t)) = endBody (cs.foldl appendByte t) := by
  induction cs generalizing t with
  | nil => exact endBody_endBody t
  | cons c cs ih =>
    rcases appendByte_endBody t c with h | h
    · simp only [List.foldl_cons, h]
    · simp only [List.foldl_cons, h, ih]

/-- `body_total` counts and decides nothing. -/
def addTotal (t : TcpHttp) (n : UInt32) : TcpHttp := { t with bodyTotal := t.bodyTotal + n }

theorem appendByte_addTotal (t : TcpHttp) (n : UInt32) (c : UInt8) :
    appendByte (addTotal t n) c = addTotal (appendByte t c) n := by
  cases hb : t.bodyOut with
  | none => simp [appendByte, addTotal, hb]
  | some buf =>
    by_cases hs : t.bodyOutSize > 0 ∧ t.bodyOutPos + 1 < t.bodyOutSize
    · simp [appendByte, addTotal, hb, hs]
    · simp only [appendByte, addTotal, hb, hs, if_false]

theorem foldl_addTotal (t : TcpHttp) (n : UInt32) (cs : List UInt8) :
    cs.foldl appendByte (addTotal t n) = addTotal (cs.foldl appendByte t) n := by
  induction cs generalizing t with
  | nil => rfl
  | cons c cs ih => simp only [List.foldl_cons, appendByte_addTotal, ih]

theorem endBody_addTotal (t : TcpHttp) (n : UInt32) :
    endBody (addTotal t n) = addTotal (endBody t) n := by
  cases hb : t.bodyOut with
  | none => simp [endBody, addTotal, hb]
  | some buf =>
    by_cases hs : t.bodyOutSize > 0
    · simp [endBody, addTotal, hb, hs]
    · simp [endBody, addTotal, hb, hs]

theorem appendBody_eq (t : TcpHttp) (cs : List UInt8) :
    tcpHttpAppendBody t cs =
      addTotal (endBody (cs.foldl appendByte t)) (UInt32.ofNat cs.length) := by
  rw [← endBody_addTotal, ← foldl_addTotal]
  rfl

theorem addTotal_addTotal (t : TcpHttp) (n m : UInt32) :
    addTotal (addTotal t n) m = addTotal t (n + m) := by
  simp [addTotal, UInt32.add_assoc]

theorem appendBody_append (t : TcpHttp) (a b : List UInt8) :
    tcpHttpAppendBody (tcpHttpAppendBody t a) b = tcpHttpAppendBody t (a ++ b) := by
  simp only [appendBody_eq, foldl_addTotal, endBody_addTotal, endBody_foldl, addTotal_addTotal,
    List.foldl_append, List.length_append, UInt32.ofNat_add]

end Body

section Split

variable {t : TcpHttp} {a b : List UInt8}

theorem parseStatusLine_headerDone (t : TcpHttp) :
    (tcpHttpParseStatusLine t).headerDone = t.headerDone := by
  simp only [tcpHttpParseStatusLine]
  split <;> rfl

/-- A full header buffer fails again on every further byte. -/
theorem headerLoop_full (hfull : ¬t.headerLen + 1 < headerBufSize) (hf : t.failed = true) :
    headerLoop t b = (t, []) := by
  cases b with
  | nil => rfl
  | cons c cs =>
    rw [headerLoop, if_neg hfull, ← hf]

theorem headerLoop_append (h : t.headerDone = false) (a b : List UInt8) :
    headerLoop t (a ++ b) =
      if (headerLoop t a).1.headerDone = true then
        ((headerLoop t a).1, (headerLoop t a).2 ++ b)
      else headerLoop (headerLoop t a).1 b := by
  induction a generalizing t with
  | nil => simp [headerLoop, h]
  | cons c cs ih =>
    simp only [List.cons_append, headerLoop]
    split
    · split
      · simp [parseStatusLine_headerDone]
      · exact ih h
    · next hfull =>
      have hd : ¬({ t with failed := true } : TcpHttp).headerDone = true := by simp [h]
      rw [if_neg hd]
      exact (headerLoop_full (t := { t with failed := true }) hfull rfl).symm

theorem appendByte_headerDone (t : TcpHttp) (c : UInt8) :
    (appendByte t c).headerDone = t.headerDone := by
  simp only [appendByte]
  split
  · split <;> rfl
  · rfl

theorem appendBody_headerDone (t : TcpHttp) (cs : List UInt8) :
    (tcpHttpAppendBody t cs).headerDone = t.headerDone := by
  have hfold : ∀ t, (cs.foldl appendByte t).headerDone = t.headerDone := by
    induction cs with
    | nil => exact fun t => rfl
    | cons c cs ih =>
      intro t
      rw [List.foldl_cons, ih, appendByte_headerDone]
  rw [appendBody_eq]
  simp only [addTotal, endBody]
  split
  · split <;> exact hfold t
  · exact hfold t

/-- Feeding `a ++ b` once is feeding `a`, then `b`. -/
theorem feedData_append (t : TcpHttp) (a b : List UInt8) :
    tcpHttpFeedData (tcpHttpFeedData t a) b = tcpHttpFeedData t (a ++ b) := by
  by_cases ha : a = []
  · simp [ha, tcpHttpFeedData]
  by_cases hb : b = []
  · simp [hb, tcpHttpFeedData]
  have hab : a ++ b ≠ [] := by simp [ha]
  cases hd : t.headerDone with
  | true =>
    simp only [tcpHttpFeedData, ha, hb, hab, hd, if_true, if_false, appendBody_headerDone,
      appendBody_append]
  | false =>
    have happ := headerLoop_append hd a b
    cases hr : (headerLoop t a).1.headerDone with
    | false =>
      simp only [hr, Bool.false_eq_true, if_false] at happ
      simp [tcpHttpFeedData, ha, hb, hd, hr, happ]
    | true =>
      simp only [hr, if_true] at happ
      by_cases hrest : (headerLoop t a).2 = []
      · simp [tcpHttpFeedData, ha, hb, hd, hr, happ, hrest]
      · simp [tcpHttpFeedData, ha, hb, hd, hr, happ, hrest, appendBody_headerDone,
          appendBody_append]

theorem feedData_calls (t : TcpHttp) (calls : List (List UInt8)) :
    calls.foldl tcpHttpFeedData t = tcpHttpFeedData t calls.flatten := by
  induction calls generalizing t with
  | nil => simp [tcpHttpFeedData]
  | cons c calls ih => rw [List.foldl_cons, ih, feedData_append, List.flatten_cons]

end Split

section Connection

variable {t u : TcpHttp}

/-- The connection's fields are those of `u`: the parser neither reads nor changes
them, `failed` apart. -/
def setConnection (t u : TcpHttp) : TcpHttp :=
  { t with
    active := u.active
    connecting := u.connecting
    established := u.established
    failed := u.failed
    finSeen := u.finSeen
    remoteIp := u.remoteIp
    localPort := u.localPort
    remotePort := u.remotePort
    seqLocal := u.seqLocal
    seqRemote := u.seqRemote
    connectSentTicks := u.connectSentTicks
    lastActivityTicks := u.lastActivityTicks }

theorem appendByte_setConnection (t u : TcpHttp) (c : UInt8) :
    appendByte (setConnection t u) c = setConnection (appendByte t c) u := by
  cases hb : t.bodyOut with
  | none => simp [appendByte, setConnection, hb]
  | some buf =>
    by_cases hs : t.bodyOutSize > 0 ∧ t.bodyOutPos + 1 < t.bodyOutSize
    · simp [appendByte, setConnection, hb, hs]
    · simp only [appendByte, setConnection, hb, hs, if_false]

theorem endBody_setConnection (t u : TcpHttp) :
    endBody (setConnection t u) = setConnection (endBody t) u := by
  cases hb : t.bodyOut with
  | none => simp [endBody, setConnection, hb]
  | some buf =>
    by_cases hs : t.bodyOutSize > 0
    · simp [endBody, setConnection, hb, hs]
    · simp [endBody, setConnection, hb, hs]

theorem appendBody_setConnection (t u : TcpHttp) (cs : List UInt8) :
    tcpHttpAppendBody (setConnection t u) cs = setConnection (tcpHttpAppendBody t cs) u := by
  have hfold : ∀ t, cs.foldl appendByte (setConnection t u) =
      setConnection (cs.foldl appendByte t) u := by
    induction cs with
    | nil => exact fun t => rfl
    | cons c cs ih =>
      intro t
      rw [List.foldl_cons, appendByte_setConnection, ih, List.foldl_cons]
  rw [appendBody_eq, appendBody_eq, hfold, endBody_setConnection]
  rfl

theorem parseStatusLine_setConnection (t u : TcpHttp) :
    tcpHttpParseStatusLine (setConnection t u) = setConnection (tcpHttpParseStatusLine t) u := by
  simp only [tcpHttpParseStatusLine]
  rw [apply_ite (fun t => setConnection t u)]
  rfl

theorem headerLoop_setConnection (t u : TcpHttp) (cs : List UInt8) :
    ∃ f, headerLoop (setConnection t u) cs =
      (setConnection (headerLoop t cs).1 { u with failed := f }, (headerLoop t cs).2) := by
  induction cs generalizing t with
  | nil => exact ⟨u.failed, rfl⟩
  | cons c cs ih =>
    by_cases hroom : t.headerLen + 1 < headerBufSize
    · by_cases hends : headerEnds (pushHeader t c) = true
      · refine ⟨u.failed, ?_⟩
        have h1 : headerLoop t (c :: cs) =
            (tcpHttpParseStatusLine { pushHeader t c with headerDone := true }, cs) := by
          rw [headerLoop, if_pos hroom, if_pos hends]
        rw [h1, headerLoop, if_pos (show (setConnection t u).headerLen + 1 < headerBufSize from hroom),
          if_pos (show headerEnds (pushHeader (setConnection t u) c) = true from hends)]
        exact congrArg (·, cs)
          (parseStatusLine_setConnection { pushHeader t c with headerDone := true } u)
      · have h1 : headerLoop t (c :: cs) = headerLoop (pushHeader t c) cs := by
          rw [headerLoop, if_pos hroom, if_neg hends]
        rw [h1, headerLoop, if_pos (show (setConnection t u).headerLen + 1 < headerBufSize from hroom),
          if_neg (show ¬headerEnds (pushHeader (setConnection t u) c) = true from hends)]
        exact ih (pushHeader t c)
    · refine ⟨true, ?_⟩
      have h1 : headerLoop t (c :: cs) = ({ t with failed := true }, []) := by
        rw [headerLoop, if_neg hroom]
      rw [h1, headerLoop,
        if_neg (show ¬(setConnection t u).headerLen + 1 < headerBufSize from hroom)]
      rfl

/-- The parser works beside the connection's fields, and can only make it fail. -/
theorem feedData_setConnection (t u : TcpHttp) (data : List UInt8) :
    ∃ f, tcpHttpFeedData (setConnection t u) data =
      setConnection (tcpHttpFeedData t data) { u with failed := f } := by
  by_cases hd : data = []
  · exact ⟨u.failed, by simp [tcpHttpFeedData, hd]⟩
  cases hdone : t.headerDone with
  | true =>
    have hdone' : (setConnection t u).headerDone = true := hdone
    refine ⟨u.failed, ?_⟩
    simp only [tcpHttpFeedData, hd, hdone, hdone', if_true, if_false]
    exact appendBody_setConnection t u data
  | false =>
    have hdone' : (setConnection t u).headerDone = false := hdone
    obtain ⟨f, hf⟩ := headerLoop_setConnection t u data
    refine ⟨f, ?_⟩
    simp only [tcpHttpFeedData, hd, hdone, hdone', if_false, Bool.false_eq_true, hf]
    split
    · next h =>
      rw [if_pos (show (headerLoop t data).1.headerDone = false from h)]
    · next h =>
      rw [if_neg (show ¬(headerLoop t data).1.headerDone = false from h)]
      split
      · exact appendBody_setConnection _ _ _
      · rfl

/-- What the receiver keeps of a connection is left alone by the parser. -/
theorem feedData_connection (t : TcpHttp) (data : List UInt8) :
    ∃ f, tcpHttpFeedData t data =
      setConnection (tcpHttpFeedData t data) { t with failed := f } := by
  obtain ⟨f, hf⟩ := feedData_setConnection t t data
  exact ⟨f, hf⟩

end Connection

section Fresh

variable {t : TcpHttp} {p h body : List UInt8} {c : UInt8}

/-- `\r\n\r\n`. -/
def crlfCrlf : List UInt8 := [13, 10, 13, 10]

/-- The header of a stream: up to and with its first `\r\n\r\n`. -/
structure HeaderOf (stream h : List UInt8) : Prop where
  start : h <+: stream
  ends : crlfCrlf <:+ h
  first : ∀ q, q <+: stream → crlfCrlf <:+ q → h.length ≤ q.length

/-- `header_buf` holds the bytes `p`. -/
structure HeaderHolds (t : TcpHttp) (p : List UInt8) : Prop where
  length : t.headerLen = p.length
  bytes : ∀ i (hi : i < p.length), t.headerBuf i = p[i]

theorem HeaderHolds.push (hp : HeaderHolds t p) (c : UInt8) :
    HeaderHolds (pushHeader t c) (p ++ [c]) := by
  refine ⟨by simp [pushHeader, hp.length], ?_⟩
  intro i hi
  rw [List.length_append, List.length_singleton] at hi
  simp only [pushHeader, hp.length]
  rw [Function.update_of_ne (by omega)]
  by_cases he : i = p.length
  · simp [he]
  · rw [Function.update_of_ne he, hp.bytes i (by omega), List.getElem_append_left (by omega)]

theorem crlfCrlf_suffix (p : List UInt8) : crlfCrlf <:+ p ↔
    ∃ h4 : 4 ≤ p.length, p[p.length - 4] = 13 ∧ p[p.length - 3] = 10 ∧ p[p.length - 2] = 13 ∧
      p[p.length - 1] = 10 := by
  constructor
  · rintro ⟨q, rfl⟩
    refine ⟨by simp [crlfCrlf], ?_⟩
    simp [crlfCrlf]
  · rintro ⟨h4, h0, h1, h2, h3⟩
    refine ⟨p.take (p.length - 4), ?_⟩
    have hdrop : p.drop (p.length - 4) = crlfCrlf := by
      rw [List.drop_eq_getElem_cons (by omega), List.drop_eq_getElem_cons (by omega),
        List.drop_eq_getElem_cons (by omega), List.drop_eq_getElem_cons (by omega)]
      simp only [show p.length - 4 + 1 = p.length - 3 by omega,
        show p.length - 3 + 1 = p.length - 2 by omega,
        show p.length - 2 + 1 = p.length - 1 by omega, h0, h1, h2, h3, crlfCrlf]
      rw [List.drop_eq_nil_of_le (by omega)]
    rw [← hdrop, List.take_append_drop]

theorem headerEnds_iff (hp : HeaderHolds t p) : headerEnds t = true ↔ crlfCrlf <:+ p := by
  rw [crlfCrlf_suffix]
  simp only [headerEnds, hp.length, Bool.and_eq_true, decide_eq_true_eq, beq_iff_eq]
  constructor
  · rintro ⟨⟨⟨⟨h4, h0⟩, h1⟩, h2⟩, h3⟩
    rw [hp.bytes _ (by omega)] at h0 h1 h2 h3
    exact ⟨h4, h0, h1, h2, h3⟩
  · rintro ⟨h4, h0, h1, h2, h3⟩
    rw [hp.bytes _ (by omega), hp.bytes _ (by omega), hp.bytes _ (by omega),
      hp.bytes _ (by omega)]
    exact ⟨⟨⟨⟨h4, h0⟩, h1⟩, h2⟩, h3⟩

/-- The fields of the body are as they were. -/
structure SameBody (t t' : TcpHttp) : Prop where
  out : t'.bodyOut = t.bodyOut
  size : t'.bodyOutSize = t.bodyOutSize
  pos : t'.bodyOutPos = t.bodyOutPos
  total : t'.bodyTotal = t.bodyTotal
  truncated : t'.bodyTruncated = t.bodyTruncated

theorem SameBody.trans {t t' t'' : TcpHttp} (h : SameBody t t') (h' : SameBody t' t'') :
    SameBody t t'' :=
  ⟨h'.out.trans h.out, h'.size.trans h.size, h'.pos.trans h.pos, h'.total.trans h.total,
    h'.truncated.trans h.truncated⟩

theorem parseStatusLine_sameBody (t : TcpHttp) : SameBody t (tcpHttpParseStatusLine t) := by
  simp only [tcpHttpParseStatusLine]
  split
  · exact ⟨rfl, rfl, rfl, rfl, rfl⟩
  · exact ⟨rfl, rfl, rfl, rfl, rfl⟩

theorem prefix_snoc {q : List UInt8} (hq : q <+: p ++ c :: body) :
    q <+: p ∨ p.length + 1 ≤ q.length := by
  by_cases hl : q.length ≤ p.length
  · exact .inl (List.prefix_of_prefix_length_le hq (List.prefix_append _ _) hl)
  · exact .inr (by omega)

/-- The header loop stops behind the first `\r\n\r\n`, or runs out of bytes or of
room before it. -/
theorem headerLoop_spec (hp : HeaderHolds t p) (hd : t.headerDone = false)
    (hq : ∀ q, q <+: p → ¬crlfCrlf <:+ q) (stream : List UInt8) :
    SameBody t (headerLoop t stream).1 ∧
    (((headerLoop t stream).1.headerDone = true ∧ ∃ h, HeaderOf (p ++ stream) h ∧
        h.length ≤ 1023 ∧ p ++ stream = h ++ (headerLoop t stream).2) ∨
      ((headerLoop t stream).1.headerDone = false ∧
        ∀ h, HeaderOf (p ++ stream) h → 1023 < h.length)) := by
  induction stream generalizing t p with
  | nil =>
    refine ⟨⟨rfl, rfl, rfl, rfl, rfl⟩, .inr ⟨hd, ?_⟩⟩
    intro h hh
    rw [List.append_nil] at hh
    exact absurd hh.ends (hq h hh.start)
  | cons c cs ih =>
    simp only [headerLoop]
    split
    · next hroom =>
      have hp' := hp.push c
      have hroom' : p.length + 1 < 1024 := by
        rw [← hp.length]
        exact hroom
      split
      · next he =>
        have hends := (headerEnds_iff hp').mp he
        refine ⟨⟨?_, ?_, ?_, ?_, ?_⟩, .inl ⟨parseStatusLine_headerDone _, p ++ [c], ⟨?_, hends, ?_⟩,
          ?_, ?_⟩⟩
        · exact (parseStatusLine_sameBody _).out
        · exact (parseStatusLine_sameBody _).size
        · exact (parseStatusLine_sameBody _).pos
        · exact (parseStatusLine_sameBody _).total
        · exact (parseStatusLine_sameBody _).truncated
        · exact ⟨cs, by simp⟩
        · intro q hqs hqe
          rcases prefix_snoc hqs with h | h
          · exact absurd hqe (hq q h)
          · simpa using h
        · simp
          omega
        · simp
      · next he =>
        have hno : ∀ q, q <+: p ++ [c] → ¬crlfCrlf <:+ q := by
          intro q hqs
          rcases prefix_snoc hqs with h | h
          · exact hq q h
          · have heq : q = p ++ [c] := hqs.eq_of_length_le (by simpa using h)
            rw [heq]
            exact fun hc => he ((headerEnds_iff hp').mpr hc)
        obtain ⟨hsame, hres⟩ := ih hp' hd hno
        rw [List.append_assoc, List.singleton_append] at hres
        exact ⟨⟨hsame.out, hsame.size, hsame.pos, hsame.total, hsame.truncated⟩, hres⟩
    · next hroom =>
      refine ⟨⟨rfl, rfl, rfl, rfl, rfl⟩, .inr ⟨hd, ?_⟩⟩
      intro h hh
      have hfull : 1023 ≤ p.length := by
        rw [← hp.length]
        simp only [headerBufSize] at hroom
        omega
      rcases prefix_snoc hh.start with hpre | hlen
      · exact absurd hh.ends (hq h hpre)
      · omega

/-- The body buffer of `z` bytes holds the bytes `b`, as many as fit. -/
structure BodyHolds (t : TcpHttp) (z : UInt32) (b : List UInt8) : Prop where
  size : t.bodyOutSize = z
  pos : t.bodyOutPos.toNat = min b.length (z.toNat - 1)
  bytes : ∃ buf, t.bodyOut = some buf ∧
    ∀ i (hi : i < b.length), i < z.toNat - 1 → buf i = shownByte b[i]
  truncated : t.bodyTruncated = true ↔ z.toNat - 1 < b.length

theorem BodyHolds.append {z : UInt32} {b : List UInt8} (hz : 0 < z) (h : BodyHolds t z b)
    (c : UInt8) : BodyHolds (appendByte t c) z (b ++ [c]) := by
  obtain ⟨buf, hbuf, hbytes⟩ := h.bytes
  have hzn := UInt32.lt_iff_toNat_lt.mp hz
  rw [UInt32.toNat_zero] at hzn
  have hlt := z.toNat_lt
  have hpos := h.pos
  have hsize : t.bodyOutSize > 0 := by
    rw [h.size]
    exact hz
  have hnext : t.bodyOutPos.toNat + 1 < 4294967296 := by omega
  have hsucc : (t.bodyOutPos + 1).toNat = t.bodyOutPos.toNat + 1 := by
    rw [UInt32.toNat_add]
    exact Nat.mod_eq_of_lt hnext
  by_cases hroom : t.bodyOutPos + 1 < t.bodyOutSize
  · have hr := UInt32.lt_iff_toNat_lt.mp hroom
    rw [hsucc, h.size] at hr
    have hb : b.length < z.toNat - 1 := by omega
    have htr : t.bodyTruncated = false := by
      rw [Bool.eq_false_iff]
      intro htr
      have := h.truncated.mp htr
      omega
    simp only [appendByte, hbuf, hsize, hroom, and_self, if_true]
    refine ⟨h.size, ?_, ⟨_, rfl, ?_⟩, ?_⟩
    · simp only [hsucc, List.length_append, List.length_singleton]
      omega
    · intro i hi hiz
      rw [List.length_append, List.length_singleton] at hi
      by_cases he : i = b.length
      · subst he
        have : t.bodyOutPos.toNat = b.length := by omega
        simp [this]
      · rw [Function.update_of_ne (by omega), hbytes i (by omega) hiz,
          List.getElem_append_left (by omega)]
    · simp only [htr, List.length_append, List.length_singleton]
      constructor
      · intro hf
        cases hf
      · omega
  · have hr := mt UInt32.lt_iff_toNat_lt.mpr hroom
    rw [hsucc, h.size] at hr
    simp only [appendByte, hbuf, hroom, and_false, if_false]
    refine ⟨h.size, ?_, ⟨buf, rfl, ?_⟩, ?_⟩
    · simp only [List.length_append, List.length_singleton]
      omega
    · intro i hi hiz
      rw [hbytes i (by omega) hiz, List.getElem_append_left (by omega)]
    · simp only [List.length_append, List.length_singleton, true_iff]
      omega

theorem BodyHolds.appendAll {z : UInt32} {b : List UInt8} (hz : 0 < z) (h : BodyHolds t z b)
    (cs : List UInt8) : BodyHolds (cs.foldl appendByte t) z (b ++ cs) := by
  induction cs generalizing t b with
  | nil => simpa using h
  | cons c cs ih =>
    have := ih (h.append hz c)
    rwa [List.append_assoc, List.singleton_append] at this

/-- The session that `net_http_get` sets up: reset, with a body buffer of `z`
bytes whose first byte is zero. -/
structure FreshSession (t : TcpHttp) (z : UInt32) : Prop where
  header : t.headerLen = 0
  headerDone : t.headerDone = false
  total : t.bodyTotal = 0
  size : t.bodyOutSize = z
  pos : t.bodyOutPos = 0
  truncated : t.bodyTruncated = false
  out : ∃ buf, t.bodyOut = some buf ∧ buf 0 = 0

theorem FreshSession.bodyHolds {z : UInt32} (h : FreshSession t z) : BodyHolds t z [] := by
  obtain ⟨buf, hbuf, -⟩ := h.out
  refine ⟨h.size, by simp [h.pos], ⟨buf, hbuf, by simp⟩, by simp [h.truncated]⟩

/-- What the body buffer holds after `n` body bytes `b`: as many as fit, then a
zero. -/
structure BodyShown (t : TcpHttp) (z : UInt32) (b : List UInt8) : Prop where
  total : t.bodyTotal = UInt32.ofNat b.length
  shown : ∃ buf, t.bodyOut = some buf ∧
    (∀ i (hi : i < b.length), i < z.toNat - 1 → buf i = shownByte b[i]) ∧
    buf (min b.length (z.toNat - 1)) = 0
  truncated : t.bodyTruncated = true ↔ z.toNat - 1 < b.length

theorem foldl_bodyTotal (t : TcpHttp) (cs : List UInt8) :
    (cs.foldl appendByte t).bodyTotal = t.bodyTotal := by
  induction cs generalizing t with
  | nil => rfl
  | cons c cs ih =>
    rw [List.foldl_cons, ih]
    simp only [appendByte]
    split
    · split <;> rfl
    · rfl

theorem appendBody_total (t : TcpHttp) (cs : List UInt8) :
    (tcpHttpAppendBody t cs).bodyTotal = t.bodyTotal + UInt32.ofNat cs.length := by
  have hend : ∀ t, (endBody t).bodyTotal = t.bodyTotal := by
    intro t
    simp only [endBody]
    split
    · split <;> rfl
    · rfl
  rw [appendBody_eq]
  change (endBody (cs.foldl appendByte t)).bodyTotal + _ = _
  rw [hend, foldl_bodyTotal]

theorem appendBody_shown {z : UInt32} (hz : 0 < z) (h : BodyHolds t z []) (ht : t.bodyTotal = 0)
    (b : List UInt8) : BodyShown (tcpHttpAppendBody t b) z b := by
  have hall := h.appendAll hz b
  obtain ⟨buf, hbuf, hbytes⟩ := hall.bytes
  have htot := foldl_bodyTotal t b
  have hsize : (b.foldl appendByte t).bodyOutSize > 0 := by
    rw [hall.size]
    exact hz
  have hpos := hall.pos
  rw [List.nil_append] at hpos
  rw [appendBody_eq]
  simp only [addTotal, endBody, hbuf, hsize, if_true]
  refine ⟨by simp [htot, ht], ⟨_, rfl, ?_, ?_⟩, hall.truncated⟩
  · intro i hi hiz
    rw [Function.update_of_ne (by omega)]
    exact hbytes i hi hiz
  · rw [hpos, Function.update_self]

theorem appendBody_nil_shown {z : UInt32} (h : FreshSession t z) : BodyShown t z [] := by
  obtain ⟨buf, hbuf, h0⟩ := h.out
  refine ⟨h.total, ⟨buf, hbuf, by simp, ?_⟩, ?_⟩
  · simpa using h0
  · simp [h.truncated]

theorem headerHolds_nil (h : t.headerLen = 0) : HeaderHolds t [] := by
  refine ⟨h, ?_⟩
  intro i hi
  exact absurd hi (Nat.not_lt_zero i)

theorem nil_no_header (q : List UInt8) (hq : q <+: []) : ¬crlfCrlf <:+ q := by
  rw [List.prefix_nil.mp hq]
  simp [crlfCrlf]

theorem BodyHolds.congr {z : UInt32} {t' : TcpHttp} (h : BodyHolds t z body)
    (hs : SameBody t t') : BodyHolds t' z body := by
  refine ⟨by rw [hs.size, h.size], by rw [hs.pos, h.pos], ?_, by rw [hs.truncated, h.truncated]⟩
  rw [hs.out]
  exact h.bytes

theorem BodyShown.congr {z : UInt32} {t' : TcpHttp} (h : BodyShown t z body)
    (hs : SameBody t t') : BodyShown t' z body := by
  refine ⟨by rw [hs.total, h.total], ?_, by rw [hs.truncated, h.truncated]⟩
  rw [hs.out]
  exact h.shown

/-- What a stream fed into a fresh session leaves: its header ends at the first
`\r\n\r\n`, and the rest is the body. -/
theorem feedData_fresh {z : UInt32} (hz : 0 < z) (h : FreshSession t z) (stream : List UInt8) :
    ((tcpHttpFeedData t stream).headerDone = true ∧ ∃ hdr body, HeaderOf stream hdr ∧
      hdr.length ≤ 1023 ∧ stream = hdr ++ body ∧ BodyShown (tcpHttpFeedData t stream) z body) ∨
    ((tcpHttpFeedData t stream).headerDone = false ∧
      (∀ hdr, HeaderOf stream hdr → 1023 < hdr.length) ∧
      BodyShown (tcpHttpFeedData t stream) z []) := by
  by_cases hnil : stream = []
  · subst hnil
    refine .inr ⟨h.headerDone, ?_, appendBody_nil_shown h⟩
    intro hdr hh
    exact absurd hh.ends (nil_no_header hdr hh.start)
  have hspec := headerLoop_spec (headerHolds_nil h.header) h.headerDone nil_no_header stream
  rw [List.nil_append] at hspec
  obtain ⟨hsame, ⟨hd, hdr, hh, hlen, happ⟩ | ⟨hd, hno⟩⟩ := hspec
  · left
    by_cases hrest : (headerLoop t stream).2 = []
    · have hfeed : tcpHttpFeedData t stream = (headerLoop t stream).1 := by
        simp [tcpHttpFeedData, hnil, h.headerDone, hd, hrest]
      rw [hfeed]
      rw [hrest] at happ
      exact ⟨hd, hdr, [], hh, hlen, happ, (appendBody_nil_shown h).congr hsame⟩
    · have hfeed : tcpHttpFeedData t stream =
          tcpHttpAppendBody (headerLoop t stream).1 (headerLoop t stream).2 := by
        simp [tcpHttpFeedData, hnil, h.headerDone, hd, hrest]
      rw [hfeed]
      refine ⟨by rw [appendBody_headerDone, hd], hdr, _, hh, hlen, happ, ?_⟩
      apply appendBody_shown hz (h.bodyHolds.congr hsame)
      rw [hsame.total, h.total]
  · right
    have hfeed : tcpHttpFeedData t stream = (headerLoop t stream).1 := by
      simp [tcpHttpFeedData, hnil, h.headerDone, hd]
    rw [hfeed]
    exact ⟨hd, hno, (appendBody_nil_shown h).congr hsame⟩

/-- Without room for a body its first byte sets `body_truncated`. -/
theorem appendBody_nowhere (hout : t.bodyOut = none ∨ t.bodyOutSize = 0) (cs : List UInt8)
    (hcs : cs ≠ []) : (tcpHttpAppendBody t cs).bodyTruncated = true := by
  have hstep : ∀ t c, t.bodyOut = none ∨ t.bodyOutSize = 0 →
      appendByte t c = { t with bodyTruncated := true } := by
    rintro t c (h | h)
    · simp only [appendByte, h]
    · simp only [appendByte, h]
      split
      · exact if_neg (by simp)
      · rfl
  have hfold : ∀ (cs : List UInt8) t, t.bodyOut = none ∨ t.bodyOutSize = 0 →
      t.bodyTruncated = true → (cs.foldl appendByte t).bodyTruncated = true := by
    intro cs
    induction cs with
    | nil => exact fun t _ h => h
    | cons c cs ih =>
      intro t ht h
      rw [List.foldl_cons, hstep t c ht]
      exact ih _ ht rfl
  have hend : ∀ t, (endBody t).bodyTruncated = t.bodyTruncated := by
    intro t
    simp only [endBody]
    split
    · split <;> rfl
    · rfl
  cases cs with
  | nil => exact absurd rfl hcs
  | cons c cs =>
    rw [appendBody_eq]
    change (endBody ((c :: cs).foldl appendByte t)).bodyTruncated = true
    rw [hend, List.foldl_cons, hstep t c hout]
    exact hfold cs _ hout rfl

/-- Parsing does not depend on how the stream is cut, and from a fresh session
the body buffer holds what fits of the body, whatever the number of body bytes;
`body_total` is that number modulo `2 ^ 32`. -/
theorem feedData_split_invariant :
    (∀ (t : TcpHttp) (a b : List UInt8),
      tcpHttpFeedData (tcpHttpFeedData t a) b = tcpHttpFeedData t (a ++ b)) ∧
    ∀ (t : TcpHttp) (z : UInt32) (calls : List (List UInt8)), 0 < z → FreshSession t z →
      ((calls.foldl tcpHttpFeedData t).headerDone = true ∧ ∃ hdr body,
        HeaderOf calls.flatten hdr ∧ calls.flatten = hdr ++ body ∧
        BodyShown (calls.foldl tcpHttpFeedData t) z body) ∨
      ((calls.foldl tcpHttpFeedData t).headerDone = false ∧
        BodyShown (calls.foldl tcpHttpFeedData t) z []) := by
  refine ⟨feedData_append, ?_⟩
  intro t z calls hz h
  rw [feedData_calls]
  rcases feedData_fresh hz h calls.flatten with ⟨hd, hdr, body, hh, -, happ, hb⟩ | ⟨hd, -, hb⟩
  · exact .inl ⟨hd, hdr, body, hh, happ, hb⟩
  · exact .inr ⟨hd, hb⟩

/-- A session with an empty buffer of ten bytes. -/
def tenByteSession : TcpHttp := { bodyOut := some fun _ => 0, bodyOutSize := 10 }

theorem tenByteSession_fresh : FreshSession tenByteSession 10 :=
  ⟨rfl, rfl, rfl, rfl, rfl, rfl, fun _ => 0, rfl, rfl⟩

theorem feedData_split_invariant_short :
    ((([[13, 10], [13, 10, 72], [105]] : List (List UInt8)).foldl tcpHttpFeedData
      tenByteSession).headerDone = true ∧ ∃ hdr body,
        HeaderOf [13, 10, 13, 10, 72, 105] hdr ∧ [13, 10, 13, 10, 72, 105] = hdr ++ body ∧
        BodyShown (([[13, 10], [13, 10, 72], [105]] : List (List UInt8)).foldl tcpHttpFeedData
          tenByteSession) 10 body) ∨
    ((([[13, 10], [13, 10, 72], [105]] : List (List UInt8)).foldl tcpHttpFeedData
      tenByteSession).headerDone = false ∧
      BodyShown (([[13, 10], [13, 10, 72], [105]] : List (List UInt8)).foldl tcpHttpFeedData
        tenByteSession) 10 []) :=
  feedData_split_invariant.2 tenByteSession 10 [[13, 10], [13, 10, 72], [105]] (by decide)
    tenByteSession_fresh

theorem crlfCrlf_header (body : List UInt8) {hdr : List UInt8}
    (h : HeaderOf (crlfCrlf ++ body) hdr) : hdr = crlfCrlf := by
  have hle := h.first crlfCrlf (List.prefix_append _ _) (List.suffix_refl _)
  obtain ⟨q, hq⟩ := h.ends
  have hlen : q.length + 4 = hdr.length := by
    rw [← hq]
    simp [crlfCrlf]
  have hq0 : q = [] := by
    apply List.eq_nil_of_length_eq_zero
    simp only [crlfCrlf, List.length_cons, List.length_nil] at hle
    omega
  rw [← hq, hq0, List.nil_append]

/-- After `2 ^ 32` body bytes `body_total` is zero again, while the body was cut
off. -/
theorem feedData_total_wraps : ∃ t, FreshSession t 10 ∧
    ∃ t', t' = ([crlfCrlf, List.replicate 2147483648 65, List.replicate 2147483648 65].foldl
        tcpHttpFeedData t) ∧
      t'.headerDone = true ∧ t'.bodyTotal = 0 ∧ t'.bodyTruncated = true := by
  refine ⟨tenByteSession, tenByteSession_fresh, _, rfl, ?_⟩
  rw [feedData_calls]
  have hflat : [crlfCrlf, List.replicate 2147483648 65, List.replicate 2147483648 65].flatten =
      crlfCrlf ++ List.replicate 4294967296 (65 : UInt8) := by
    simp only [List.flatten_cons, List.flatten_nil, List.append_nil, List.replicate_append_replicate]
  rw [hflat]
  rcases feedData_fresh (by decide) tenByteSession_fresh
      (crlfCrlf ++ List.replicate 4294967296 65) with
    ⟨hd, hdr, body, hh, -, happ, hb⟩ | ⟨-, hno, -⟩
  · rw [crlfCrlf_header _ hh] at happ
    have hbody := List.append_cancel_left happ
    refine ⟨hd, ?_, hb.truncated.mpr ?_⟩
    · rw [hb.total, ← hbody, List.length_replicate]
      rfl
    · rw [← hbody, List.length_replicate]
      decide
  · have hhdr : HeaderOf (crlfCrlf ++ List.replicate 4294967296 65) crlfCrlf := by
      refine ⟨List.prefix_append _ _, List.suffix_refl _, ?_⟩
      intro q _ hq
      exact hq.length_le
    exact absurd (hno crlfCrlf hhdr) (by decide)

end Fresh

end VertexOS
