import VertexOS.Library.Loops
import VertexOS.Net.DnsReplies

namespace VertexOS
open Library.Loops

/-- The variables of `dns_skip_name` in their 32 bits; `outOffset` is `*out_offset` once it has
been set. -/
structure SkipState where
  pos : UInt32
  jumps : UInt32
  jumped : Bool
  outOffset : Option UInt32

def SkipState.start (offset : UInt32) : SkipState := ⟨offset, 0, false, none⟩

/-- `*out_offset` is set unless a jump has set it. -/
def SkipState.setOut (s : SkipState) (out : UInt32) : Option UInt32 :=
  if s.jumped then s.outOffset else some out

/-- The position that the compression pointer at `pos` names. -/
def pointerTarget (msg : Buf) (pos : UInt32) : UInt32 :=
  (msg pos.toNat &&& 0x3F).toUInt32 <<< 8 ||| (msg (pos + 1).toNat).toUInt32

/-- A turn of the loop of `dns_skip_name`: the indices it reads, and the state it goes on with or
what is returned. -/
def skipTurn (msg : Buf) (msgLen : UInt32) (s : SkipState) :
    List UInt32 × Outcome SkipState (Bool × Option UInt32) :=
  if s.pos < msgLen then
    let c := msg s.pos.toNat
    if c = 0 then ([s.pos], .stop (true, s.setOut (s.pos + 1)))
    else if c &&& 0xC0 = 0xC0 then
      if s.pos + 1 ≥ msgLen then ([s.pos], .stop (false, s.outOffset))
      else
        let out := s.setOut (s.pos + 2)
        let pos := pointerTarget msg s.pos
        if s.jumps + 1 > 8 ∨ pos ≥ msgLen then ([s.pos, s.pos + 1], .stop (false, out))
        else ([s.pos, s.pos + 1], .next ⟨pos, s.jumps + 1, true, out⟩)
    else if c > 63 ∨ s.pos + 1 + c.toUInt32 > msgLen then ([s.pos], .stop (false, s.outOffset))
    else ([s.pos], .next { s with pos := s.pos + 1 + c.toUInt32 })
  else ([], .stop (false, s.outOffset))

/-- The loop comes around in the state. -/
def SkipsTo (msg : Buf) (msgLen offset : UInt32) (n : Nat) (s : SkipState) : Prop :=
  Turns (fun s => (skipTurn msg msgLen s).2) (.start offset) n s

/-- The name at `pos` ends at `stop`: behind its zero or behind its first pointer. -/
inductive NameEnds (msg : Buf) (msgLen : Nat) : Nat → Nat → Prop
  | zero {pos : Nat} (hpos : pos < msgLen) (hc : msg pos = 0) : NameEnds msg msgLen pos (pos + 1)
  | pointer {pos : Nat} (hpos : pos + 1 < msgLen) (hc : msg pos &&& 0xC0 = 0xC0) :
      NameEnds msg msgLen pos (pos + 2)
  | label {pos stop : Nat} (hpos : pos < msgLen) (hc : msg pos ≠ 0 ∧ msg pos ≤ 63)
      (rest : NameEnds msg msgLen (pos + 1 + (msg pos).toNat) stop) : NameEnds msg msgLen pos stop

/-- `dns_skip_name` stops, stays inside the message and says where the name ends. -/
structure SkipsName (msg : Buf) (msgLen offset : UInt32) : Prop where
  stops : ∃ n s r, SkipsTo msg msgLen offset n s ∧ (skipTurn msg msgLen s).2 = .stop r
  turns : ∀ n s, SkipsTo msg msgLen offset n s → n ≤ 9 * msgLen.toNat + 8
  jumps : ∀ n s, SkipsTo msg msgLen offset n s → s.jumps ≤ 8
  forward : ∀ n s s', SkipsTo msg msgLen offset n s → (skipTurn msg msgLen s).2 = .next s' →
    s'.jumps = s.jumps + 1 ∨ s'.jumps = s.jumps ∧ s.pos < s'.pos
  reads : ∀ n s, SkipsTo msg msgLen offset n s → ∀ i ∈ (skipTurn msg msgLen s).1, i < msgLen
  result : ∀ n s out, SkipsTo msg msgLen offset n s →
    (skipTurn msg msgLen s).2 = .stop (true, out) →
    ∃ stop, out = some stop ∧ offset < stop ∧ stop ≤ msgLen ∧
      NameEnds msg msgLen.toNat offset.toNat stop.toNat

section Turn

variable {msg : Buf} {msgLen offset : UInt32} {s s' : SkipState} {out : Option UInt32}

/-- What a turn reads is in the message, whatever the length is. -/
theorem skipTurn_reads (msg : Buf) (msgLen : UInt32) (s : SkipState) :
    ∀ i ∈ (skipTurn msg msgLen s).1, i < msgLen := by
  intro i hi
  simp only [skipTurn] at hi
  split at hi
  · next hpos =>
    split at hi
    · simp only [List.mem_singleton] at hi
      exact hi ▸ hpos
    split at hi
    · split at hi
      · simp only [List.mem_singleton] at hi
        exact hi ▸ hpos
      next hnext =>
      split at hi <;>
        simp only [List.mem_cons, List.not_mem_nil, or_false] at hi <;>
        rcases hi with rfl | rfl
      · exact hpos
      · exact UInt32.not_le.mp hnext
      · exact hpos
      · exact UInt32.not_le.mp hnext
    · split at hi <;> simp only [List.mem_singleton] at hi <;> exact hi ▸ hpos
  · cases hi

/-- A turn that goes on has walked over a label or has jumped. -/
theorem skipTurn_next (h : (skipTurn msg msgLen s).2 = .next s') :
    s.pos < msgLen ∧ msg s.pos.toNat ≠ 0 ∧
      (msg s.pos.toNat &&& 0xC0 = 0xC0 ∧ s.pos + 1 < msgLen ∧ s.jumps + 1 ≤ 8 ∧
          pointerTarget msg s.pos < msgLen ∧
          s' = ⟨pointerTarget msg s.pos, s.jumps + 1, true, s.setOut (s.pos + 2)⟩ ∨
        msg s.pos.toNat &&& 0xC0 ≠ 0xC0 ∧ msg s.pos.toNat ≤ 63 ∧
          s.pos + 1 + (msg s.pos.toNat).toUInt32 ≤ msgLen ∧
          s' = { s with pos := s.pos + 1 + (msg s.pos.toNat).toUInt32 }) := by
  simp only [skipTurn] at h
  split at h
  · next hpos =>
    split at h
    · cases h
    next hzero =>
    refine ⟨hpos, hzero, ?_⟩
    split at h
    · next hptr =>
      split at h
      · cases h
      next hnext =>
      split at h
      · cases h
      next hjump =>
      rw [not_or] at hjump
      cases h
      exact .inl ⟨hptr, UInt32.not_le.mp hnext, UInt32.not_lt.mp hjump.1,
        UInt32.not_le.mp hjump.2, rfl⟩
    · next hptr =>
      split at h
      · cases h
      next hlabel =>
      rw [not_or] at hlabel
      cases h
      exact .inr ⟨hptr, UInt8.not_lt.mp hlabel.1, UInt32.not_lt.mp hlabel.2, rfl⟩
  · cases h

/-- Only a zero ends a name. -/
theorem skipTurn_true (h : (skipTurn msg msgLen s).2 = .stop (true, out)) :
    s.pos < msgLen ∧ msg s.pos.toNat = 0 ∧ out = s.setOut (s.pos + 1) := by
  simp only [skipTurn] at h
  split at h
  · next hpos =>
    split at h
    · next hzero =>
      cases h
      exact ⟨hpos, hzero, rfl⟩
    split at h
    · split at h
      · cases h
      split at h <;> cases h
    · split at h <;> cases h
  · cases h

/-- Below this length the positions do not wrap around. -/
theorem label_toNat (hlen : msgLen ≤ 0xFFFFFFC0) (hpos : s.pos < msgLen)
    (hc : msg s.pos.toNat ≤ 63) :
    (s.pos + 1 + (msg s.pos.toNat).toUInt32).toNat = s.pos.toNat + 1 + (msg s.pos.toNat).toNat := by
  rw [UInt32.le_iff_toNat_le] at hlen
  rw [UInt32.lt_iff_toNat_lt] at hpos
  rw [UInt8.le_iff_toNat_le] at hc
  have hbound : (0xFFFFFFC0 : UInt32).toNat = 4294967232 := rfl
  have hshort : (63 : UInt8).toNat = 63 := rfl
  simp only [UInt32.toNat_add, UInt8.toNat_toUInt32, UInt32.toNat_one]
  omega

theorem succ_toNat (hpos : s.pos < msgLen) : (s.pos + 1).toNat = s.pos.toNat + 1 := by
  have hlt := msgLen.toNat_lt
  rw [UInt32.lt_iff_toNat_lt] at hpos
  simp only [UInt32.toNat_add, UInt32.toNat_one]
  omega

theorem setOut_fresh (h : s.jumped = false) (out : UInt32) : s.setOut out = some out := by
  simp [SkipState.setOut, h]

theorem setOut_kept (h : s.jumped = true) (out : UInt32) : s.setOut out = s.outOffset := by
  simp [SkipState.setOut, h]

/-- What holds whenever the loop comes around: up to the first jump the walk is still in the name,
from then on its end is known. -/
structure SkipInv (msg : Buf) (msgLen offset : UInt32) (s : SkipState) : Prop where
  jumps : s.jumps.toNat ≤ 8
  walking : s.jumped = false → s.outOffset = none ∧ offset ≤ s.pos ∧ ∀ stop,
    NameEnds msg msgLen.toNat s.pos.toNat stop → NameEnds msg msgLen.toNat offset.toNat stop
  known : s.jumped = true → ∃ stop, s.outOffset = some stop ∧ offset < stop ∧ stop ≤ msgLen ∧
    NameEnds msg msgLen.toNat offset.toNat stop.toNat

theorem SkipInv.start (msg : Buf) (msgLen offset : UInt32) :
    SkipInv msg msgLen offset (.start offset) :=
  ⟨Nat.zero_le 8, fun _ => ⟨rfl, UInt32.le_refl _, fun _ h => h⟩, fun h => nomatch h⟩

/-- A jump fixes the end of the name. -/
theorem SkipInv.jumped (h : SkipInv msg msgLen offset s) (hpos : s.pos < msgLen)
    (hptr : msg s.pos.toNat &&& 0xC0 = 0xC0) (hnext : s.pos + 1 < msgLen) :
    ∃ stop, s.setOut (s.pos + 2) = some stop ∧ offset < stop ∧ stop ≤ msgLen ∧
      NameEnds msg msgLen.toNat offset.toNat stop.toNat := by
  cases hj : s.jumped with
  | true =>
    rw [setOut_kept hj]
    exact h.known hj
  | false =>
    obtain ⟨-, hoffset, hends⟩ := h.walking hj
    have hone := succ_toNat hpos
    have htwo : (s.pos + 2).toNat = s.pos.toNat + 2 := by
      have hlt := msgLen.toNat_lt
      rw [UInt32.lt_iff_toNat_lt, hone] at hnext
      simp only [UInt32.toNat_add, UInt32.reduceToNat]
      omega
    rw [UInt32.lt_iff_toNat_lt, hone] at hnext
    refine ⟨s.pos + 2, setOut_fresh hj _, ?_, ?_, ?_⟩
    · rw [UInt32.lt_iff_toNat_lt, htwo]
      have hle := UInt32.le_iff_toNat_le.mp hoffset
      omega
    · rw [UInt32.le_iff_toNat_le, htwo]
      omega
    · rw [htwo]
      exact hends _ (.pointer hnext hptr)

theorem SkipInv.next (hlen : msgLen ≤ 0xFFFFFFC0) (h : SkipInv msg msgLen offset s)
    (hturn : (skipTurn msg msgLen s).2 = .next s') : SkipInv msg msgLen offset s' := by
  obtain ⟨hpos, hzero, ⟨hptr, hnext, hjumps, htarget, rfl⟩ | ⟨hptr, hc, hfits, rfl⟩⟩ :=
    skipTurn_next hturn
  · refine ⟨UInt32.le_iff_toNat_le.mp hjumps, (nomatch ·), fun _ => ?_⟩
    exact h.jumped hpos hptr hnext
  · refine ⟨h.jumps, fun hj => ?_, h.known⟩
    obtain ⟨hout, hoffset, hends⟩ := h.walking hj
    have hvalue := label_toNat hlen hpos hc
    refine ⟨hout, ?_, fun stop hstop => hends stop ?_⟩
    · rw [UInt32.le_iff_toNat_le] at hoffset ⊢
      dsimp only
      omega
    · dsimp only at hstop
      rw [hvalue] at hstop
      exact .label (UInt32.lt_iff_toNat_lt.mp hpos) ⟨hzero, hc⟩ hstop

/-- The jumps that are left count for a whole message each. -/
def skipMeasure (msgLen : UInt32) (s : SkipState) : Nat :=
  (8 - s.jumps.toNat) * (msgLen.toNat + 1) + (msgLen.toNat - s.pos.toNat)

theorem succ_jumps (h : SkipInv msg msgLen offset s) :
    (s.jumps + 1).toNat = s.jumps.toNat + 1 := by
  have hjumps := h.jumps
  simp only [UInt32.toNat_add, UInt32.toNat_one]
  omega

theorem skipMeasure_next (hlen : msgLen ≤ 0xFFFFFFC0) (h : SkipInv msg msgLen offset s)
    (hturn : (skipTurn msg msgLen s).2 = .next s') : skipMeasure msgLen s' < skipMeasure msgLen s := by
  obtain ⟨hpos, -, ⟨-, -, hjumps, -, rfl⟩ | ⟨-, hc, hfits, rfl⟩⟩ := skipTurn_next hturn
  · have hone := succ_jumps h
    have height : (8 : UInt32).toNat = 8 := rfl
    rw [UInt32.le_iff_toNat_le, hone, height] at hjumps
    have hsplit : 8 - s.jumps.toNat = 8 - (s.jumps.toNat + 1) + 1 := by omega
    simp only [skipMeasure, hone]
    rw [hsplit, Nat.succ_mul]
    omega
  · have hvalue := label_toNat hlen hpos hc
    rw [UInt32.lt_iff_toNat_lt] at hpos
    simp only [skipMeasure, hvalue]
    omega

theorem SkipsTo.inv (hlen : msgLen ≤ 0xFFFFFFC0) {n : Nat} (h : SkipsTo msg msgLen offset n s) :
    SkipInv msg msgLen offset s :=
  Turns.invariant (fun _ _ hs hturn => SkipInv.next hlen hs hturn) h (.start msg msgLen offset)

theorem skipsName_short (hlen : msgLen ≤ 0xFFFFFFC0) : SkipsName msg msgLen offset := by
  have hnext : ∀ s s', SkipInv msg msgLen offset s → (skipTurn msg msgLen s).2 = .next s' →
      SkipInv msg msgLen offset s' := fun _ _ hs hturn => SkipInv.next hlen hs hturn
  have hless : ∀ s s', SkipInv msg msgLen offset s → (skipTurn msg msgLen s).2 = .next s' →
      skipMeasure msgLen s' < skipMeasure msgLen s :=
    fun _ _ hs hturn => skipMeasure_next hlen hs hturn
  have hstart := SkipInv.start msg msgLen offset
  constructor
  case stops => exact Turns.stops hnext hless hstart
  case turns =>
    intro n s h
    have hle := h.add_measure_le hnext hless hstart
    have hfirst : skipMeasure msgLen (.start offset) ≤ 8 * (msgLen.toNat + 1) + msgLen.toNat :=
      Nat.add_le_add_left (Nat.sub_le _ _) _
    omega
  case jumps => exact fun n s h => UInt32.le_iff_toNat_le.mpr (h.inv hlen).jumps
  case forward =>
    intro n s s' _ hturn
    obtain ⟨hpos, -, ⟨-, -, -, -, rfl⟩ | ⟨-, hc, -, rfl⟩⟩ := skipTurn_next hturn
    · exact .inl rfl
    · refine .inr ⟨rfl, UInt32.lt_iff_toNat_lt.mpr ?_⟩
      rw [label_toNat hlen hpos hc]
      omega
  case reads => exact fun n s _ => skipTurn_reads msg msgLen s
  case result =>
    intro n s out h hturn
    obtain ⟨hpos, hzero, rfl⟩ := skipTurn_true hturn
    have hinv := h.inv hlen
    cases hj : s.jumped with
    | true =>
      rw [setOut_kept hj]
      exact hinv.known hj
    | false =>
      obtain ⟨-, hoffset, hends⟩ := hinv.walking hj
      have hone := succ_toNat hpos
      rw [UInt32.lt_iff_toNat_lt] at hpos
      rw [UInt32.le_iff_toNat_le] at hoffset
      refine ⟨s.pos + 1, setOut_fresh hj _, ?_, ?_, ?_⟩
      · rw [UInt32.lt_iff_toNat_lt]
        omega
      · rw [UInt32.le_iff_toNat_le]
        omega
      · rw [hone]
        exact hends _ (.zero hpos hzero)

theorem pointerTarget_toNat (msg : Buf) (hpos : s.pos < msgLen) :
    (pointerTarget msg s.pos).toNat =
      (msg s.pos.toNat &&& 0x3F).toNat * 256 + (msg (s.pos.toNat + 1)).toNat := by
  have hlow := (msg (s.pos.toNat + 1)).toNat_lt
  have hhigh : (msg s.pos.toNat &&& 0x3F).toNat ≤ 63 := by
    rw [UInt8.toNat_and]
    exact Nat.and_le_right
  have hshift : (msg s.pos.toNat &&& 0x3F).toNat <<< 8 < 2 ^ 32 := by
    rw [Nat.shiftLeft_eq]
    omega
  rw [pointerTarget, succ_toNat hpos, UInt32.toNat_or, UInt32.toNat_shiftLeft,
    UInt8.toNat_toUInt32, UInt8.toNat_toUInt32]
  change (msg s.pos.toNat &&& 0x3F).toNat <<< 8 % 2 ^ 32 ||| (msg (s.pos.toNat + 1)).toNat = _
  rw [Nat.mod_eq_of_lt hshift, ← Nat.shiftLeft_add_eq_or_of_lt hlow, Nat.shiftLeft_eq]

theorem SkipInv.getD (h : SkipInv msg msgLen offset s) (out : UInt32) :
    (s.setOut out).map UInt32.toNat =
      some ((s.outOffset.map UInt32.toNat).getD out.toNat) := by
  cases hj : s.jumped with
  | true =>
    obtain ⟨stop, hout, -⟩ := h.known hj
    simp [setOut_kept hj, hout]
  | false => simp [setOut_fresh hj, (h.walking hj).1]

/-- A turn of the loop in unbounded numbers is the turn in 32 bits. -/
theorem skipNameLoop_turn (hlen : msgLen ≤ 0xFFFFFFC0) (h : SkipInv msg msgLen offset s)
    (fuel : Nat) :
    skipNameLoop msg msgLen.toNat (fuel + 1) s.pos.toNat s.jumps.toNat
        (s.outOffset.map UInt32.toNat) =
      match (skipTurn msg msgLen s).2 with
      | .next s' => skipNameLoop msg msgLen.toNat fuel s'.pos.toNat s'.jumps.toNat
        (s'.outOffset.map UInt32.toNat)
      | .stop (ok, out) => if ok then out.map UInt32.toNat else none := by
  have hjumps := succ_jumps h
  simp only [skipNameLoop, skipTurn]
  by_cases hpos : s.pos < msgLen
  · have hone := succ_toNat hpos
    have htarget := pointerTarget_toNat msg hpos
    rw [if_pos (UInt32.lt_iff_toNat_lt.mp hpos), if_pos hpos]
    split
    · simp [h.getD, hone]
    split
    · have hin : s.pos.toNat + 1 ≥ msgLen.toNat ↔ s.pos + 1 ≥ msgLen := by
        rw [ge_iff_le, ge_iff_le, UInt32.le_iff_toNat_le, hone]
      simp only [hin]
      split
      · simp
      next hnext =>
      have htwo : (s.pos + 2).toNat = s.pos.toNat + 2 := by
        have hlt := msgLen.toNat_lt
        rw [ge_iff_le, UInt32.not_le, UInt32.lt_iff_toNat_lt, hone] at hnext
        simp only [UInt32.toNat_add, UInt32.reduceToNat]
        omega
      have hjump : s.jumps.toNat + 1 > 8 ∨ (msg s.pos.toNat &&& 0x3F).toNat * 256 +
          (msg (s.pos.toNat + 1)).toNat ≥ msgLen.toNat ↔
          s.jumps + 1 > 8 ∨ pointerTarget msg s.pos ≥ msgLen := by
        rw [← hjumps, ← htarget]
        rfl
      simp only [hjump]
      split
      · simp
      · simp only [hjumps, htarget, h.getD, htwo]
    · by_cases hc : msg s.pos.toNat > 63
      · simp [hc]
      · have hvalue := label_toNat hlen hpos (UInt8.not_lt.mp hc)
        have hfits : s.pos.toNat + 1 + (msg s.pos.toNat).toNat > msgLen.toNat ↔
            s.pos + 1 + (msg s.pos.toNat).toUInt32 > msgLen := by
          rw [← hvalue]
          rfl
        simp only [hc, hfits, false_or]
        split
        · simp
        · simp only [hvalue]
  · rw [if_neg (fun h => hpos (UInt32.lt_iff_toNat_lt.mpr h)), if_neg hpos]
    simp

theorem SkipsTo.loop (hlen : msgLen ≤ 0xFFFFFFC0) {n : Nat} (h : SkipsTo msg msgLen offset n s)
    (fuel : Nat) :
    skipNameLoop msg msgLen.toNat (n + fuel) offset.toNat 0 none =
      skipNameLoop msg msgLen.toNat fuel s.pos.toNat s.jumps.toNat
        (s.outOffset.map UInt32.toNat) := by
  induction h generalizing fuel with
  | none => simp [SkipState.start]
  | snoc front last ih =>
    have hturn := skipNameLoop_turn hlen (SkipsTo.inv hlen front) fuel
    rw [last] at hturn
    rw [Nat.add_assoc, Nat.add_comm 1 fuel, ih, hturn]

/-- What the loop in 32 bits returns is what `dnsSkipName` says. -/
theorem SkipsTo.dnsSkipName (hlen : msgLen ≤ 0xFFFFFFC0) {n : Nat} {ok : Bool}
    (h : SkipsTo msg msgLen offset n s) (hstop : (skipTurn msg msgLen s).2 = .stop (ok, out)) :
    dnsSkipName msg msgLen.toNat offset.toNat = if ok then out.map UInt32.toNat else none := by
  have hturn := skipNameLoop_turn hlen (h.inv hlen) (9 * (msgLen.toNat + 1))
  rw [hstop] at hturn
  rw [← dnsSkipName_rounds offset.toNat (show 9 * (msgLen.toNat + 1) ≤
    n + (9 * (msgLen.toNat + 1) + 1) by omega),
    h.loop hlen, hturn]

end Turn

section Wrap

variable {msgLen : UInt32} {s s' : SkipState}

/-- Labels of 63 bytes without an end. -/
def endlessName : Buf := fun _ => 63

/-- The turns go from label to label, in a message of nearly 4 GiB around the address space. -/
theorem endless_turn (hlen : 0xFFFFFFC0 < msgLen) (hpos : s.pos.toNat % 64 = 0) :
    (skipTurn endlessName msgLen s).2 = .next { s with pos := s.pos + 64 } := by
  rw [UInt32.lt_iff_toNat_lt] at hlen
  have hbound : (0xFFFFFFC0 : UInt32).toNat = 4294967232 := rfl
  have hlt := s.pos.toNat_lt
  have hin : s.pos < msgLen := by
    rw [UInt32.lt_iff_toNat_lt]
    omega
  have hsum : s.pos + 1 + (63 : UInt8).toUInt32 = s.pos + 64 := by
    rw [UInt32.add_assoc]
    rfl
  have hfits : ¬s.pos + 64 > msgLen := by
    simp only [gt_iff_lt, UInt32.lt_iff_toNat_lt, UInt32.toNat_add, UInt32.reduceToNat]
    omega
  have hzero : ¬(63 : UInt8) = 0 := by decide
  have hptr : ¬(63 : UInt8) &&& 0xC0 = 0xC0 := by decide
  have hshort : ¬((63 : UInt8) > 63 ∨ s.pos + 64 > msgLen) := by
    rw [not_or]
    exact ⟨by decide, hfits⟩
  simp only [skipTurn, endlessName, hsum, if_pos hin, if_neg hzero, if_neg hptr, if_neg hshort]

/-- On such a name the loop never stops. -/
theorem endless_never_stops (hlen : 0xFFFFFFC0 < msgLen) :
    ¬∃ n s r, SkipsTo endlessName msgLen 0 n s ∧ (skipTurn endlessName msgLen s).2 = .stop r := by
  intro h
  obtain ⟨n, s, r, hto, hstop⟩ := h
  have hpos : s.pos.toNat % 64 = 0 := by
    apply Turns.invariant (I := fun s => s.pos.toNat % 64 = 0) ?_ hto rfl
    intro s s' hs hturn
    rw [endless_turn hlen hs] at hturn
    cases hturn
    simp only [UInt32.toNat_add, UInt32.reduceToNat]
    omega
  rw [endless_turn hlen hpos] at hstop
  cases hstop

end Wrap

/-- `dns_skip_name` stops and stays in bounds on all messages of a length exactly if the sum of a
position and a label cannot wrap around. -/
theorem skip_name_safe_iff (msgLen : UInt32) :
    (∀ msg offset, SkipsName msg msgLen offset) ↔ msgLen ≤ 0xFFFFFFC0 := by
  constructor
  · intro h
    apply UInt32.not_lt.mp
    intro hlen
    exact endless_never_stops hlen (h endlessName 0).stops
  · exact fun hlen msg offset => skipsName_short hlen

/-- A message of 2^32 - 1 bytes. -/
theorem skip_name_loops : ¬SkipsName endlessName 0xFFFFFFFF 0 := by
  intro h
  exact endless_never_stops (by decide) h.stops

end VertexOS
