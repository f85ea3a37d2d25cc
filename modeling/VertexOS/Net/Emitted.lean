import VertexOS.Net.Checksums
import VertexOS.Net.Outgoing

namespace VertexOS
open Library.Programs

section Verification

/-- The frame's type is IPv4. -/
def isIpv4 (frame : List UInt8) : Prop := rd16 (bufOf (frame.drop 12)) 0 = ethTypeIpv4

/-- The frame's packet, and its protocol. -/
def packetOf (frame : List UInt8) : List UInt8 := frame.drop 14

def protoOf (frame : List UInt8) : UInt8 := bufOf (packetOf frame) 9

/-- The length of the packet's header, from its first byte. -/
def headerLen (frame : List UInt8) : Nat := (bufOf (packetOf frame) 0 &&& 0x0F).toNat * 4

/-- The length of what follows the header, by the packet's total length. -/
def dataLen (frame : List UInt8) : Nat := (rd16 (bufOf (packetOf frame)) 2).toNat - headerLen frame

def dataOf (frame : List UInt8) : List UInt8 := (packetOf frame).drop (headerLen frame)

def ipv4Verifies (frame : List UInt8) : Prop :=
  checksum16 (bufOf (packetOf frame)) (headerLen frame) = 0

def icmpVerifies (frame : List UInt8) : Prop := checksum16 (bufOf (dataOf frame)) (dataLen frame) = 0

def tcpVerifies (frame : List UInt8) : Prop :=
  tcpChecksum (rd32 (bufOf (packetOf frame)) 12) (rd32 (bufOf (packetOf frame)) 16)
    (bufOf (dataOf frame)) (dataLen frame) = 0

end Verification

section Packets

variable {frame : List UInt8} {proto : UInt8} {srcIp dstIp : UInt32}
  {body : List UInt8}

/-- The front of a list in a buffer. -/
theorem bytesAt_front (l l' : List UInt8) : bytesAt (bufOf (l ++ l')) 0 l.length = l := by
  have hsame : bytesAt (bufOf (l ++ l')) 0 l.length = bytesAt (bufOf l) 0 l.length := by
    apply bytesAt_congr
    intro i hi
    simp [bufOf, List.getElem?_append_left hi]
  rw [hsame, bytesAt_bufOf]

/-- An IPv4 packet as it is sent, behind an Ethernet header. -/
structure Ipv4Frame (frame : List UInt8) (proto : UInt8) (srcIp dstIp : UInt32)
    (body : List UInt8) : Prop where
  fits : body.length ≤ 1480
  bytes : ∃ (dst src : Mac) (ident flagsFrag : UInt16), frame = etherFrame dst src ethTypeIpv4
    (ipv4Header (UInt16.ofNat (20 + body.length)) ident flagsFrag proto srcIp dstIp ++ body)

/-- The header before its checksum. -/
def ipv4Front (totalLen ident flagsFrag : UInt16) (proto : UInt8) : List UInt8 :=
  [0x45, 0] ++ be16 totalLen ++ be16 ident ++ be16 flagsFrag ++ [64, proto]

theorem ipv4Header_split (totalLen ident flagsFrag : UInt16) (proto : UInt8)
    (srcIp dstIp : UInt32) : ∃ c,
      ipv4Header totalLen ident flagsFrag proto srcIp dstIp =
        ipv4Front totalLen ident flagsFrag proto ++ be16 c ++ (be32 srcIp ++ be32 dstIp) ∧
      c = checksum16 (bufOf (ipv4Front totalLen ident flagsFrag proto ++ [0, 0] ++
        (be32 srcIp ++ be32 dstIp))) 20 := by
  refine ⟨_, ?_, rfl⟩
  simp only [ipv4Header, ipv4Front, List.append_assoc]
  rfl

/-- The checksum in the header. -/
theorem ipv4Header_verifies (totalLen ident flagsFrag : UInt16) (proto : UInt8)
    (srcIp dstIp : UInt32) :
    checksum16 (bufOf (ipv4Header totalLen ident flagsFrag proto srcIp dstIp)) 20 = 0 := by
  obtain ⟨c, hheader, hc⟩ := ipv4Header_split totalLen ident flagsFrag proto srcIp dstIp
  have hlen : (ipv4Front totalLen ident flagsFrag proto ++ be16 c ++
      (be32 srcIp ++ be32 dstIp)).length = 20 := rfl
  rw [hheader, ← hlen]
  exact checksum16_list (by simp [ipv4Front, be16]) (by rw [hlen]; decide) hc

theorem packetOf_etherFrame (dst src : Mac) (ethertype : UInt16) (payload : List UInt8) :
    packetOf (etherFrame dst src ethertype payload) =
      payload ++ List.replicate (60 - (14 + payload.length)) 0 := by
  rw [packetOf, etherFrame, List.append_assoc, List.drop_left' (etherHeader_length dst src ethertype)]

theorem etherFrame_type (dst src : Mac) (ethertype : UInt16) (payload : List UInt8) :
    rd16 (bufOf ((etherFrame dst src ethertype payload).drop 12)) 0 = ethertype := by
  have h12 : (dst.bytes ++ src.bytes).length = 12 := by simp [dst.size, src.size]
  rw [etherFrame, List.append_assoc, List.append_assoc, List.drop_left' h12]
  exact rd16_bytes rfl

/-- The packet of a frame, with its padding. -/
theorem Ipv4Frame.packet (h : Ipv4Frame frame proto srcIp dstIp body) :
    isIpv4 frame ∧ ∃ (ident flagsFrag : UInt16) (pad : List UInt8), packetOf frame =
      ipv4Header (UInt16.ofNat (20 + body.length)) ident flagsFrag proto srcIp dstIp ++ (body ++ pad) := by
  obtain ⟨dst, src, ident, flagsFrag, rfl⟩ := h.bytes
  refine ⟨etherFrame_type _ _ _ _, ident, flagsFrag, ?_⟩
  rw [packetOf_etherFrame]
  exact ⟨_, List.append_assoc _ _ _⟩

theorem Ipv4Frame.fields (h : Ipv4Frame frame proto srcIp dstIp body) :
    protoOf frame = proto ∧ headerLen frame = 20 ∧ dataLen frame = body.length ∧
    rd32 (bufOf (packetOf frame)) 12 = srcIp ∧ rd32 (bufOf (packetOf frame)) 16 = dstIp ∧
    ∃ pad, dataOf frame = body ++ pad := by
  have hfits := h.fits
  obtain ⟨-, ident, flagsFrag, pad, hpacket⟩ := h.packet
  have hheadLen := ipv4Header_length (UInt16.ofNat (20 + body.length)) ident flagsFrag proto srcIp dstIp
  obtain ⟨c, hheader, -⟩ :=
    ipv4Header_split (UInt16.ofNat (20 + body.length)) ident flagsFrag proto srcIp dstIp
  rw [hheader] at hpacket hheadLen
  have hlen : headerLen frame = 20 := by
    have hfirst : bufOf (packetOf frame) 0 = 0x45 := by
      rw [hpacket]
      rfl
    rw [headerLen, hfirst]
    decide
  have htotal : rd16 (bufOf (packetOf frame)) 2 = UInt16.ofNat (20 + body.length) := by
    rw [hpacket]
    exact rd16_bytes rfl
  refine ⟨?_, hlen, ?_, ?_, ?_, pad, ?_⟩
  · rw [protoOf, hpacket]
    rfl
  · rw [dataLen, hlen, htotal, UInt16.toNat_ofNat_of_lt' (by simp [UInt16.size]; omega)]
    omega
  · rw [hpacket]
    exact rd32_bytes rfl
  · rw [hpacket]
    exact rd32_bytes rfl
  · rw [dataOf, hlen, hpacket, List.drop_left' hheadLen]

theorem Ipv4Frame.header_verifies (h : Ipv4Frame frame proto srcIp dstIp body) :
    ipv4Verifies frame := by
  obtain ⟨-, hlen, -⟩ := h.fields
  obtain ⟨-, ident, flagsFrag, pad, hpacket⟩ := h.packet
  have hhead := ipv4Header_verifies (UInt16.ofNat (20 + body.length)) ident flagsFrag proto srcIp dstIp
  have hfront := bytesAt_front
    (ipv4Header (UInt16.ofNat (20 + body.length)) ident flagsFrag proto srcIp dstIp) (body ++ pad)
  rw [ipv4Verifies, hlen, hpacket, ← hhead]
  exact checksum16_congr (hfront.trans (bytesAt_bufOf _).symm) (by decide)

theorem Ipv4Frame.icmp_verifies (h : Ipv4Frame frame proto srcIp dstIp body)
    (hbody : checksum16 (bufOf body) body.length = 0) : icmpVerifies frame := by
  have hfits := h.fits
  obtain ⟨-, -, hlen, -, -, pad, hdata⟩ := h.fields
  rw [icmpVerifies, hlen, hdata, ← hbody]
  exact checksum16_congr ((bytesAt_front _ _).trans (bytesAt_bufOf _).symm) (by omega)

theorem Ipv4Frame.tcp_verifies (h : Ipv4Frame frame proto srcIp dstIp body)
    (hbody : tcpChecksum srcIp dstIp (bufOf body) body.length = 0) : tcpVerifies frame := by
  have hfits := h.fits
  obtain ⟨-, -, hlen, hsrc, hdst, pad, hdata⟩ := h.fields
  rw [tcpVerifies, hlen, hsrc, hdst, hdata, ← hbody]
  exact tcpChecksum_congr ((bytesAt_front _ _).trans (bytesAt_bufOf _).symm) (by omega)

end Packets

section Histories

/-- An event that neither sends, nor builds a TCP header, nor enters or leaves a handler. -/
def NetEvent.quiet : NetEvent → Bool
  | .sent _ | .built _ | .dispatched _ | .returned _ => false
  | _ => true

def NetEvent.turn : NetEvent → Int
  | .dispatched _ => 1
  | .returned _ => -1
  | _ => 0

/-- The handlers that were entered, less those that have returned. -/
def level (t : List NetEvent) : Int := (t.map NetEvent.turn).sum

/-- Since the last TCP header was built no handler has returned that was entered before, and
no lease was accepted: a segment that is sent now is the one with this header. -/
def Undisturbed (t : List NetEvent) : Prop :=
  ∃ before h since, t = before ++ .built h :: since ∧ headers since = [] ∧ level since = 0 ∧
    ∀ cfg, .leased cfg ∉ since

/-- A frame that is sent after a history. -/
structure SentWell (t : List NetEvent) (frame : List UInt8) : Prop where
  ipv4 : isIpv4 frame → ipv4Verifies frame
  icmp : isIpv4 frame → protoOf frame = 1 → icmpVerifies frame
  built : isIpv4 frame → protoOf frame = 6 → headers t ≠ []
  tcp : isIpv4 frame → protoOf frame = 6 → Undisturbed t → tcpVerifies frame

/-- A part of a history in which as many handlers return as are entered. -/
structure Emission (u : List NetEvent) : Prop where
  closed : level u = 0
  inside : ∀ a h b, u = a ++ .built h :: b → 0 ≤ level a
  sent : ∀ a frame b, u = a ++ .sent frame :: b → SentWell a frame

/-- The same where TCP headers are built by handlers only. -/
structure Waiting (u : List NetEvent) : Prop extends Emission u where
  nested : ∀ a h b, u = a ++ .built h :: b → 1 ≤ level a

variable {t u w : List NetEvent} {frame : List UInt8} {e : NetEvent}

theorem level_append (t u : List NetEvent) : level (t ++ u) = level t + level u := by
  simp [level]

theorem level_cons (e : NetEvent) (t : List NetEvent) : level (e :: t) = e.turn + level t := by
  simp [level]

/-- The history before a frame may be longer. -/
theorem SentWell.extend (h : SentWell u frame) (t : List NetEvent) : SentWell (t ++ u) frame := by
  refine ⟨h.ipv4, h.icmp, ?_, ?_⟩
  · intro hip hproto hnone
    rw [headers_append] at hnone
    exact h.built hip hproto (List.append_eq_nil_iff.mp hnone).2
  · intro hip hproto hcalm
    obtain ⟨before, hd, since, hsplit, hnone, hlevel, hlease⟩ := hcalm
    rcases split_append hsplit with ⟨b', -, rfl⟩ | ⟨a', -, rfl⟩
    · rw [headers_append] at hnone
      exact absurd (List.append_eq_nil_iff.mp hnone).2 (h.built hip hproto)
    · exact h.tcp hip hproto ⟨a', hd, since, rfl, hnone, hlevel, hlease⟩

theorem Emission.append (h : Emission u) (h' : Emission w) : Emission (u ++ w) := by
  refine ⟨by rw [level_append, h.closed, h'.closed]; rfl, ?_, ?_⟩
  · intro a hd b hsplit
    rcases split_append hsplit with ⟨b', hu, -⟩ | ⟨a', rfl, hw⟩
    · exact h.inside a hd b' hu
    · rw [level_append, h.closed, Int.zero_add]
      exact h'.inside a' hd b hw
  · intro a frame b hsplit
    rcases split_append hsplit with ⟨b', hu, -⟩ | ⟨a', rfl, hw⟩
    · exact h.sent a frame b' hu
    · exact (h'.sent a' frame b hw).extend u

theorem Waiting.append (h : Waiting u) (h' : Waiting w) : Waiting (u ++ w) := by
  refine ⟨h.toEmission.append h'.toEmission, ?_⟩
  intro a hd b hsplit
  rcases split_append hsplit with ⟨b', hu, -⟩ | ⟨a', rfl, hw⟩
  · exact h.nested a hd b' hu
  · rw [level_append, h.closed, Int.zero_add]
    exact h'.nested a' hd b hw

theorem quiet_level (h : ∀ e ∈ u, e.quiet = true) : level u = 0 := by
  induction u with
  | nil => rfl
  | cons e u ih =>
    have he : e.turn = 0 := by
      have hq := h e List.mem_cons_self
      cases e <;> first | rfl | cases hq
    rw [level_cons, he, ih fun x hx => h x (List.mem_cons_of_mem _ hx)]
    rfl

/-- Nothing is sent or built. -/
theorem Waiting.quiet (h : ∀ e ∈ u, e.quiet = true) : Waiting u := by
  have hnot : ∀ a e b, u = a ++ e :: b → e.quiet = true := fun a e b hu => h e (by simp [hu])
  refine ⟨⟨quiet_level h, ?_, ?_⟩, ?_⟩
  · intro a hd b hu
    cases hnot a _ b hu
  · intro a frame b hu
    cases hnot a _ b hu
  · intro a hd b hu
    cases hnot a _ b hu

/-- One frame is sent. -/
theorem Waiting.send (h : ∀ e ∈ u, e.quiet = true) (hsent : ∀ t, SentWell t frame) :
    Waiting (u ++ [.sent frame]) := by
  refine (Waiting.quiet h).append ⟨⟨rfl, ?_, ?_⟩, ?_⟩
  · intro a hd b hsplit
    rcases List.append_eq_singleton_iff.mp hsplit.symm with ⟨-, hcons⟩ | ⟨-, hcons⟩ <;> cases hcons
  · intro a f b hsplit
    rcases List.append_eq_singleton_iff.mp hsplit.symm with ⟨rfl, hcons⟩ | ⟨-, hcons⟩
    · cases hcons
      exact hsent []
    · cases hcons
  · intro a hd b hsplit
    rcases List.append_eq_singleton_iff.mp hsplit.symm with ⟨-, hcons⟩ | ⟨-, hcons⟩ <;> cases hcons

/-- A handler, from its frame to its return. -/
theorem Waiting.turn (h : Emission u) (f g : List UInt8) :
    Waiting (.dispatched f :: (u ++ [.returned g])) := by
  have hbuilt : ∀ a hd b, .dispatched f :: (u ++ [.returned g]) = a ++ .built hd :: b →
      1 ≤ level a := by
    intro a hd b hsplit
    cases a with
    | nil => cases hsplit
    | cons e a =>
      obtain ⟨rfl, hrest⟩ := List.cons.inj hsplit
      rcases split_append hrest with ⟨b', hu, -⟩ | ⟨a', -, hlast⟩
      · have hin := h.inside a hd b' hu
        rw [level_cons]
        change 1 ≤ 1 + level a
        omega
      · rcases List.append_eq_singleton_iff.mp hlast.symm with ⟨-, hcons⟩ | ⟨-, hcons⟩ <;> cases hcons
  refine ⟨⟨?_, ?_, ?_⟩, hbuilt⟩
  · rw [level_cons, level_append, h.closed]
    rfl
  · intro a hd b hsplit
    have := hbuilt a hd b hsplit
    omega
  · intro a frame b hsplit
    cases a with
    | nil => cases hsplit
    | cons e a =>
      obtain ⟨rfl, hrest⟩ := List.cons.inj hsplit
      rcases split_append hrest with ⟨b', hu, -⟩ | ⟨a', -, hlast⟩
      · exact (h.sent a frame b' hu).extend [.dispatched f]
      · rcases List.append_eq_singleton_iff.mp hlast.symm with ⟨-, hcons⟩ | ⟨-, hcons⟩ <;> cases hcons

end Histories

end VertexOS
