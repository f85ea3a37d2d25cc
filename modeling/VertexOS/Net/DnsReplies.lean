import VertexOS.Net.Dns

namespace VertexOS

/-- A byte of the message; a read behind its end stops for good. -/
def readByte (msg : Buf) (len i : Nat) : Option UInt8 := if i < len then some (msg i) else none

def readHalf (msg : Buf) (len i : Nat) : Option UInt16 := do
  let hi ← readByte msg len i
  let lo ← readByte msg len (i + 1)
  return (hi.toUInt16 <<< 8) ||| lo.toUInt16

def readWord (msg : Buf) (len i : Nat) : Option UInt32 := do
  let b0 ← readByte msg len i
  let b1 ← readByte msg len (i + 1)
  let b2 ← readByte msg len (i + 2)
  let b3 ← readByte msg len (i + 3)
  return (b0.toUInt32 <<< 24) ||| (b1.toUInt32 <<< 16) ||| (b2.toUInt32 <<< 8) ||| b3.toUInt32

/-- The loop of `dns_skip_name` that stops at a read outside the message. -/
def skipNameWatched (msg : Buf) (msgLen : Nat) :
    Nat → Nat → Nat → Option Nat → Option (Option Nat)
  | 0, _, _, _ => some none
  | fuel + 1, pos, jumps, out =>
    if pos < msgLen then do
      let c ← readByte msg msgLen pos
      if c = 0 then some (some (out.getD (pos + 1)))
      else if c &&& 0xC0 = 0xC0 then
        if pos + 1 ≥ msgLen then some none
        else do
          let out := some (out.getD (pos + 2))
          let d ← readByte msg msgLen (pos + 1)
          let pos := (c &&& 0x3F).toNat * 256 + d.toNat
          if jumps + 1 > 8 ∨ pos ≥ msgLen then some none
          else skipNameWatched msg msgLen fuel pos (jumps + 1) out
      else if c > 63 ∨ pos + 1 + c.toNat > msgLen then some none
      else skipNameWatched msg msgLen fuel (pos + 1 + c.toNat) jumps out
    else some none

def dnsSkipNameWatched (msg : Buf) (msgLen offset : Nat) : Option (Option Nat) :=
  skipNameWatched msg msgLen (9 * (msgLen + 1)) offset 0 none

def skipQuestionsWatched (msg : Buf) (len : Nat) : Nat → Nat → Option (Option Nat)
  | 0, off => some (some off)
  | n + 1, off => do
    match ← dnsSkipNameWatched msg len off with
    | none => some none
    | some off => if off + 4 > len then some none else skipQuestionsWatched msg len n (off + 4)

def findAddressWatched (msg : Buf) (len : Nat) : Nat → Nat → Option (Option UInt32)
  | 0, _ => some none
  | n + 1, off => do
    match ← dnsSkipNameWatched msg len off with
    | none => some none
    | some off =>
      if off + 10 > len then some none
      else do
        let rrType ← readHalf msg len off
        let rrClass ← readHalf msg len (off + 2)
        let rdlen ← readHalf msg len (off + 8)
        if off + 10 + rdlen.toNat > len then some none
        else if rrType = 1 ∧ rrClass = 1 ∧ rdlen.toNat = 4 then do
          let ip ← readWord msg len (off + 10)
          some (some ip)
        else findAddressWatched msg len n (off + 10 + rdlen.toNat)

/-- `handle_dns` that stops at a read outside its `len` bytes. -/
def dnsReceiveWatched (n : Net) (payload len : Nat) : Option Net :=
  let msg := fun i => n.drv.rxFrameTmp (payload + i)
  let stopped := { n with dns := { n.dns with waiting := false } }
  if ¬n.dns.waiting ∨ len < 12 then some n
  else do
    let id ← readHalf msg len 0
    if id ≠ n.dns.xid then return n
    let flags ← readHalf msg len 2
    let qdcount ← readHalf msg len 4
    let ancount ← readHalf msg len 6
    if flags &&& 0x8000 = 0 then return n
    if flags &&& 0x000F ≠ 0 then return stopped
    match ← skipQuestionsWatched msg len qdcount.toNat 12 with
    | none => return stopped
    | some off =>
      match ← findAddressWatched msg len ancount.toNat off with
      | none => return stopped
      | some ip =>
        return { n with dns := { n.dns with resultIp := ip, gotReply := true, waiting := false } }

section Reads

variable {msg : Buf} {len i : Nat}

theorem readByte_inside (h : i < len) : readByte msg len i = some (msg i) := if_pos h

theorem readHalf_inside (h : i + 2 ≤ len) : readHalf msg len i = some (rd16 msg i) := by
  simp [readHalf, readByte_inside (show i < len by omega),
    readByte_inside (show i + 1 < len by omega), rd16]

theorem readWord_inside (h : i + 4 ≤ len) : readWord msg len i = some (rd32 msg i) := by
  simp [readWord, readByte_inside (show i < len by omega),
    readByte_inside (show i + 1 < len by omega), readByte_inside (show i + 2 < len by omega),
    readByte_inside (show i + 3 < len by omega), rd32]

theorem skipNameWatched_eq (fuel pos jumps : Nat) (out : Option Nat) :
    skipNameWatched msg len fuel pos jumps out = some (skipNameLoop msg len fuel pos jumps out) := by
  induction fuel generalizing pos jumps out with
  | zero => rfl
  | succ fuel ih =>
    simp only [skipNameWatched, skipNameLoop]
    by_cases hpos : pos < len
    · simp only [if_pos hpos, readByte_inside hpos, Option.bind_eq_bind, Option.bind_some]
      split
      · rfl
      split
      · split
        · rfl
        next hnext =>
        simp only [readByte_inside (Nat.lt_of_not_le hnext), Option.bind_some]
        split
        · rfl
        · exact ih _ _ _
      · split
        · rfl
        · exact ih _ _ _
    · rw [if_neg hpos, if_neg hpos]

theorem dnsSkipNameWatched_eq (off : Nat) :
    dnsSkipNameWatched msg len off = some (dnsSkipName msg len off) :=
  skipNameWatched_eq _ _ _ _

theorem skipQuestionsWatched_eq (n off : Nat) :
    skipQuestionsWatched msg len n off = some (skipQuestions msg len n off) := by
  induction n generalizing off with
  | zero => rfl
  | succ n ih =>
    simp only [skipQuestionsWatched, skipQuestions, dnsSkipNameWatched_eq, Option.bind_eq_bind,
      Option.bind_some]
    cases dnsSkipName msg len off with
    | none => rfl
    | some off' =>
      simp only
      split
      · rfl
      · exact ih _

theorem findAddressWatched_eq (n off : Nat) :
    findAddressWatched msg len n off = some (findAddress msg len n off) := by
  induction n generalizing off with
  | zero => rfl
  | succ n ih =>
    simp only [findAddressWatched, findAddress, dnsSkipNameWatched_eq, Option.bind_eq_bind,
      Option.bind_some]
    cases dnsSkipName msg len off with
    | none => rfl
    | some off' =>
      simp only
      split
      · rfl
      next hheader =>
      simp only [readHalf_inside (show off' + 2 ≤ len by omega),
        readHalf_inside (show off' + 2 + 2 ≤ len by omega),
        readHalf_inside (show off' + 8 + 2 ≤ len by omega), Option.bind_some]
      split
      · rfl
      next hdata =>
      split
      · next haddr => simp only [readWord_inside (show off' + 10 + 4 ≤ len by omega), Option.bind_some]
      · exact ih _

/-- `handle_dns` reads inside its payload. -/
theorem dnsReceiveWatched_eq (n : Net) (payload len : Nat) :
    dnsReceiveWatched n payload len = some (dnsReceive n payload len) := by
  simp only [dnsReceiveWatched, dnsReceive]
  split
  · rfl
  next hlong =>
  rw [not_or] at hlong
  simp only [readHalf_inside (show 0 + 2 ≤ len by omega),
    readHalf_inside (show 2 + 2 ≤ len by omega), readHalf_inside (show 4 + 2 ≤ len by omega),
    readHalf_inside (show 6 + 2 ≤ len by omega), Option.bind_eq_bind, Option.bind_some,
    skipQuestionsWatched_eq]
  split
  · rfl
  split
  · rfl
  split
  · rfl
  cases skipQuestions (fun i => n.drv.rxFrameTmp (payload + i)) len
      (rd16 (fun i => n.drv.rxFrameTmp (payload + i)) 4).toNat 12 with
  | none => rfl
  | some off =>
    simp only [findAddressWatched_eq, Option.bind_some]
    cases findAddress (fun i => n.drv.rxFrameTmp (payload + i)) len
      (rd16 (fun i => n.drv.rxFrameTmp (payload + i)) 6).toNat off <;> rfl

end Reads

/-- The questions of a message: so many, from one offset to another. -/
inductive Questions (msg : Buf) (len : Nat) : Nat → Nat → Nat → Prop
  | done (off : Nat) : Questions msg len 0 off off
  | next {n off name stop : Nat} (hname : dnsSkipName msg len off = some name)
      (hfits : name + 4 ≤ len) (hrest : Questions msg len n (name + 4) stop) :
      Questions msg len (n + 1) off stop

/-- `rdlength` of the record whose fixed fields are at `fields`. -/
def rdLength (msg : Buf) (fields : Nat) : Nat := (rd16 msg (fields + 8)).toNat

/-- A resource record at `off`, inside the message. -/
structure ResourceRecord (msg : Buf) (len off fields : Nat) : Prop where
  name : dnsSkipName msg len off = some fields
  header : fields + 10 ≤ len
  data : fields + 10 + rdLength msg fields ≤ len

/-- Type A, class IN, four bytes of data. -/
structure AddressRecord (msg : Buf) (fields : Nat) : Prop where
  type : rd16 msg fields = 1
  cls : rd16 msg (fields + 2) = 1
  length : rdLength msg fields = 4

/-- Resource records one behind the other, by their fixed fields. -/
inductive Records (msg : Buf) (len : Nat) : List Nat → Nat → Nat → Prop
  | none (off : Nat) : Records msg len [] off off
  | next {fields off stop : Nat} {rest : List Nat} (hrecord : ResourceRecord msg len off fields)
      (hrest : Records msg len rest (fields + 10 + rdLength msg fields) stop) :
      Records msg len (fields :: rest) off stop

/-- Among the answers one is an address, and those before it parse and are none. -/
def AnswerAt (msg : Buf) (len count off : Nat) (ip : UInt32) : Prop :=
  ∃ before stop fields, Records msg len before off stop ∧ before.length < count ∧
    (∀ f ∈ before, ¬AddressRecord msg f) ∧ ResourceRecord msg len stop fields ∧
    AddressRecord msg fields ∧ ip = rd32 msg (fields + 10)

/-- The response of the message format to the pending query. -/
structure DnsResponse (xid : UInt16) (msg : Buf) (len : Nat) (ip : UInt32) : Prop where
  long : 12 ≤ len
  id : rd16 msg 0 = xid
  qr : rd16 msg 2 &&& 0x8000 ≠ 0
  rcode : rd16 msg 2 &&& 0x000F = 0
  answer : ∃ first, Questions msg len (rd16 msg 4).toNat 12 first ∧
    AnswerAt msg len (rd16 msg 6).toNat first ip

section Grammar

variable {msg : Buf} {len n off stop : Nat} {ip : UInt32}

theorem skipQuestions_iff : skipQuestions msg len n off = some stop ↔
    Questions msg len n off stop := by
  induction n generalizing off with
  | zero =>
    constructor
    · intro h
      obtain rfl := Option.some.inj h
      exact .done off
    · intro h
      cases h
      rfl
  | succ n ih =>
    rw [skipQuestions]
    constructor
    · intro h
      cases hname : dnsSkipName msg len off with
      | none => simp [hname] at h
      | some name =>
        simp only [hname] at h
        split at h
        · cases h
        next hfits =>
        exact .next hname (by omega) (ih.mp h)
    · intro h
      cases h with
      | next hname hfits hrest =>
        simp only [hname]
        rw [if_neg (by omega)]
        exact ih.mpr hrest

theorem findAddress_iff : findAddress msg len n off = some ip ↔ AnswerAt msg len n off ip := by
  induction n generalizing off with
  | zero =>
    simp only [findAddress, reduceCtorEq, false_iff]
    intro h
    obtain ⟨before, _, _, _, hcount, _⟩ := h
    exact absurd hcount (Nat.not_lt_zero _)
  | succ n ih =>
    rw [findAddress]
    constructor
    · intro h
      cases hname : dnsSkipName msg len off with
      | none => simp [hname] at h
      | some fields =>
        simp only [hname] at h
        split at h
        · cases h
        next hheader =>
        split at h
        · cases h
        next hdata =>
        have hrecord : ResourceRecord msg len off fields :=
          ⟨hname, by omega, Nat.le_of_not_lt hdata⟩
        split at h
        · next haddr =>
          obtain rfl := Option.some.inj h
          exact ⟨[], off, fields, .none off, Nat.succ_pos n, by simp, hrecord,
            ⟨haddr.1, haddr.2.1, haddr.2.2⟩, rfl⟩
        · next hother =>
          obtain ⟨before, stop, last, hbefore, hcount, hnone, hlast, haddr, hip⟩ := ih.mp h
          refine ⟨fields :: before, stop, last, .next hrecord hbefore, Nat.succ_lt_succ hcount, ?_,
            hlast, haddr, hip⟩
          intro f hf
          rcases List.mem_cons.mp hf with rfl | hf
          · exact fun ha => hother ⟨ha.type, ha.cls, ha.length⟩
          · exact hnone f hf
    · intro h
      obtain ⟨before, stop, last, hbefore, hcount, hnone, hlast, haddr, hip⟩ := h
      cases hbefore with
      | none =>
        have hdata := hlast.data
        simp only [rdLength] at hdata
        simp only [hlast.name]
        rw [if_neg (Nat.not_lt.mpr hlast.header), if_neg (Nat.not_lt.mpr hdata),
          if_pos ⟨haddr.type, haddr.cls, haddr.length⟩, hip]
      | @next fields _ _ rest hrecord hrest =>
        have hother := hnone fields List.mem_cons_self
        have hdata := hrecord.data
        simp only [rdLength] at hdata
        simp only [hrecord.name]
        rw [if_neg (Nat.not_lt.mpr hrecord.header), if_neg (Nat.not_lt.mpr hdata),
          if_neg (fun ha => hother ⟨ha.1, ha.2.1, ha.2.2⟩)]
        exact ih.mpr ⟨rest, stop, last, hrest, Nat.lt_of_succ_lt_succ hcount,
          fun f hf => hnone f (List.mem_cons_of_mem _ hf), hlast, haddr, hip⟩

end Grammar

section Skipping

variable {msg : Buf} {len : Nat}

/-- Every round of `dns_skip_name` moves on in the message or takes one of its jumps, so
that more rounds change nothing. -/
theorem skipNameLoop_rounds {fuel fuel' pos jumps : Nat} (out : Option Nat) (hjumps : jumps ≤ 8)
    (h : (8 - jumps) * (len + 1) + (len - pos) < fuel)
    (h' : (8 - jumps) * (len + 1) + (len - pos) < fuel') :
    skipNameLoop msg len fuel pos jumps out = skipNameLoop msg len fuel' pos jumps out := by
  induction fuel generalizing fuel' pos jumps out with
  | zero => cases h
  | succ fuel ih =>
    cases fuel' with
    | zero => cases h'
    | succ fuel' =>
      simp only [skipNameLoop]
      split
      · next hpos =>
        split
        · rfl
        split
        · split
          · rfl
          split
          · rfl
          next hjump =>
          rw [not_or] at hjump
          have hless : (8 - jumps) * (len + 1) = (8 - (jumps + 1)) * (len + 1) + (len + 1) := by
            rw [← Nat.succ_mul]
            congr 1
            omega
          exact ih _ (by omega) (by omega) (by omega)
        · split
          · rfl
          · exact ih _ hjumps (by omega) (by omega)
      · rfl

theorem dnsSkipName_rounds {fuel : Nat} (offset : Nat) (h : 9 * (len + 1) ≤ fuel) :
    skipNameLoop msg len fuel offset 0 none = dnsSkipName msg len offset :=
  skipNameLoop_rounds none (Nat.zero_le 8) (by omega) (by omega)

end Skipping

section Replies

variable {n : Net} {payload len : Nat}

/-- What `handle_dns` does to the DNS state once the header is accepted. -/
theorem dnsReceive_accepted (hwait : n.dns.waiting = true) (hlong : 12 ≤ len)
    (hid : rd16 (fun i => n.drv.rxFrameTmp (payload + i)) 0 = n.dns.xid)
    (hqr : rd16 (fun i => n.drv.rxFrameTmp (payload + i)) 2 &&& 0x8000 ≠ 0) :
    (∃ ip, DnsResponse n.dns.xid (fun i => n.drv.rxFrameTmp (payload + i)) len ip ∧
      dnsReceive n payload len =
        { n with dns := { n.dns with resultIp := ip, gotReply := true, waiting := false } }) ∨
    (¬∃ ip, DnsResponse n.dns.xid (fun i => n.drv.rxFrameTmp (payload + i)) len ip) ∧
      dnsReceive n payload len = { n with dns := { n.dns with waiting := false } } := by
  simp only [dnsReceive]
  rw [if_neg (by rw [not_or, not_not]; exact ⟨hwait, by omega⟩), if_neg (not_not.mpr hid),
    if_neg hqr]
  by_cases hcode : rd16 (fun i => n.drv.rxFrameTmp (payload + i)) 2 &&& 0x000F = 0
  · rw [if_neg (not_not.mpr hcode)]
    cases hq : skipQuestions (fun i => n.drv.rxFrameTmp (payload + i)) len
        (rd16 (fun i => n.drv.rxFrameTmp (payload + i)) 4).toNat 12 with
    | none =>
      refine .inr ⟨?_, rfl⟩
      intro h
      obtain ⟨ip, hr⟩ := h
      obtain ⟨first, hfirst, -⟩ := hr.answer
      rw [skipQuestions_iff.mpr hfirst] at hq
      cases hq
    | some first =>
      simp only
      cases ha : findAddress (fun i => n.drv.rxFrameTmp (payload + i)) len
          (rd16 (fun i => n.drv.rxFrameTmp (payload + i)) 6).toNat first with
      | none =>
        refine .inr ⟨?_, rfl⟩
        intro h
        obtain ⟨ip, hr⟩ := h
        obtain ⟨first', hfirst, hanswer⟩ := hr.answer
        rw [skipQuestions_iff.mpr hfirst] at hq
        obtain rfl := Option.some.inj hq
        rw [findAddress_iff.mpr hanswer] at ha
        cases ha
      | some ip =>
        exact .inl ⟨ip, ⟨hlong, hid, hqr, hcode, first, skipQuestions_iff.mp hq,
          findAddress_iff.mp ha⟩, rfl⟩
  · rw [if_pos hcode]
    refine .inr ⟨?_, rfl⟩
    intro h
    obtain ⟨ip, hr⟩ := h
    exact hcode hr.rcode

/-- A response has at most one address. -/
theorem DnsResponse.unique {xid : UInt16} {msg : Buf} {ip ip' : UInt32}
    (h : DnsResponse xid msg len ip) (h' : DnsResponse xid msg len ip') : ip = ip' := by
  obtain ⟨first, hfirst, hanswer⟩ := h.answer
  obtain ⟨first', hfirst', hanswer'⟩ := h'.answer
  obtain rfl : first = first' := by
    rw [← skipQuestions_iff] at hfirst hfirst'
    exact Option.some.inj (hfirst.symm.trans hfirst')
  rw [← findAddress_iff] at hanswer hanswer'
  exact Option.some.inj (hanswer.symm.trans hanswer')

/-- `handle_dns` reads inside its payload and takes the address of exactly the responses of
the message format; any other message with a full header, the pending identifier and the QR
bit ends the query, and the rest is left alone. -/
theorem dns_response_exact (hwait : n.dns.waiting = true) :
    dnsReceiveWatched n payload len = some (dnsReceive n payload len) ∧
    (∀ ip, DnsResponse n.dns.xid (fun i => n.drv.rxFrameTmp (payload + i)) len ip →
      dnsReceive n payload len =
        { n with dns := { n.dns with resultIp := ip, gotReply := true, waiting := false } }) ∧
    ((¬∃ ip, DnsResponse n.dns.xid (fun i => n.drv.rxFrameTmp (payload + i)) len ip) →
      dnsReceive n payload len =
        if 12 ≤ len ∧ rd16 (fun i => n.drv.rxFrameTmp (payload + i)) 0 = n.dns.xid ∧
            rd16 (fun i => n.drv.rxFrameTmp (payload + i)) 2 &&& 0x8000 ≠ 0 then
          { n with dns := { n.dns with waiting := false } }
        else n) := by
  refine ⟨dnsReceiveWatched_eq n payload len, ?_, ?_⟩
  · intro ip hr
    rcases dnsReceive_accepted hwait hr.long hr.id hr.qr with ⟨ip', hr', he⟩ | ⟨hno, -⟩
    · rw [he, hr.unique hr']
    · exact absurd ⟨ip, hr⟩ hno
  · intro hno
    split
    · next hheader =>
      rcases dnsReceive_accepted hwait hheader.1 hheader.2.1 hheader.2.2 with ⟨ip, hr, -⟩ | ⟨-, he⟩
      · exact absurd ⟨ip, hr⟩ hno
      · exact he
    · next hheader =>
      simp only [dnsReceive]
      split
      · rfl
      next hlong =>
      split
      · rfl
      next hid =>
      split
      · rfl
      next hqr =>
      rw [not_or, Nat.not_lt] at hlong
      exact absurd ⟨hlong.2, not_not.mp hid, hqr⟩ hheader

/-- A pending query, and a message in the buffer. -/
def queriedNet (message : List UInt8) : Net where
  cfg := { mac := broadcastMac }
  dns := { waiting := true }
  drv := { rxFrameTmp := bufOf message }

/-- A response without questions, with the address 10.0.0.7. -/
def addressResponse : List UInt8 :=
  [0, 0, 0x80, 0, 0, 0, 0, 1, 0, 0, 0, 0] ++ [0, 0, 1, 0, 1, 0, 0, 0, 0, 0, 4, 10, 0, 0, 7]

theorem dns_response_exact_address : dnsReceive (queriedNet addressResponse) 0 27 =
    { queriedNet addressResponse with
      dns := { waiting := false, gotReply := true, resultIp := 0x0A000007 } } := by
  have hr : DnsResponse 0 (fun i => (queriedNet addressResponse).drv.rxFrameTmp (0 + i)) 27
      0x0A000007 := by
    refine ⟨by decide, by decide, by decide, by decide, 12, .done 12, [], 12, 13, .none 12,
      by decide, by simp, ⟨by decide, by decide, by decide⟩, ⟨by decide, by decide, by decide⟩,
      by decide⟩
  exact (dns_response_exact rfl).2.1 _ hr

/-- Four bytes with the identifier and the QR bit leave the query pending. -/
theorem dns_short_header_ignored :
    rd16 (queriedNet [0, 0, 0x80, 0]).drv.rxFrameTmp 0 = (queriedNet [0, 0, 0x80, 0]).dns.xid ∧
    rd16 (queriedNet [0, 0, 0x80, 0]).drv.rxFrameTmp 2 &&& 0x8000 ≠ 0 ∧
    (dnsReceive (queriedNet [0, 0, 0x80, 0]) 0 4).dns.waiting = true := by
  decide

end Replies

end VertexOS
