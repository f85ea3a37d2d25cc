import VertexOS.Library.Positional
import VertexOS.Net.Url

namespace VertexOS
open Library.Positional

/-- Decimal numbers in ASCII. -/
def asciiDecimal : Numerals UInt8 where
  base := 10
  isDigit := asciiDigit
  val c := c.toNat - 48

/-- A non-empty run of decimal digits with this value. -/
structure Decimal (ds : List UInt8) (v : Nat) : Prop where
  nonempty : ds ≠ []
  digits : ∀ c ∈ ds, asciiDigit c = true
  value : asciiDecimal.valueFrom 0 ds = v

section Numbers

variable {s rest : List UInt8} {v w : UInt32}

theorem asciiDigit_iff {c : UInt8} : asciiDigit c = true ↔ 48 ≤ c.toNat ∧ c.toNat ≤ 57 := by
  simp [asciiDigit, UInt8.le_iff_toNat_le]

/-- One digit more, in 32 bits. -/
theorem digit_step {c : UInt8} (hc : asciiDigit c = true) (hv : v.toNat ≤ 65535) :
    (v * 10 + (c - 48).toUInt32).toNat = v.toNat * 10 + (c.toNat - 48) := by
  obtain ⟨hlow, hhigh⟩ := asciiDigit_iff.mp hc
  have hsub : (c - 48).toNat = c.toNat - 48 := UInt8.toNat_sub_of_le _ _ (UInt8.le_iff_toNat_le.mpr hlow)
  have h10 : (10 : UInt32).toNat = 10 := rfl
  rw [UInt32.toNat_add, UInt32.toNat_mul, UInt8.toNat_toUInt32, hsub, h10]
  omega

/-- A loop that reads digits up to a bound of 16 bits reads the number. -/
theorem digitLoop_scan {f : UInt32 → List UInt8 → Option (UInt32 × List UInt8)} {b : UInt32}
    (hbound : b.toNat ≤ 65535) (hnil : ∀ v, f v [] = some (v, []))
    (hcons : ∀ v c cs, f v (c :: cs) =
      if asciiDigit c then
        if v * 10 + (c - 48).toUInt32 > b then none else f (v * 10 + (c - 48).toUInt32) cs
      else some (v, c :: cs))
    (hv : v.toNat ≤ b.toNat) :
    (f v s).map (fun r => (r.1.toNat, r.2)) = asciiDecimal.scan b.toNat v.toNat s := by
  induction s generalizing v with
  | nil => simp [hnil, Numerals.scan]
  | cons c cs ih =>
    rw [hcons, Numerals.scan]
    change _ = if asciiDigit c = true then
      if v.toNat * 10 + (c.toNat - 48) > b.toNat then none
      else asciiDecimal.scan b.toNat (v.toNat * 10 + (c.toNat - 48)) cs
      else some (v.toNat, c :: cs)
    by_cases hc : asciiDigit c = true
    · have hstep := digit_step hc (Nat.le_trans hv hbound)
      have hgt : v * 10 + (c - 48).toUInt32 > b ↔
          v.toNat * 10 + (c.toNat - 48) > b.toNat := by
        rw [← hstep]
        exact UInt32.lt_iff_toNat_lt
      rw [if_pos hc, if_pos hc]
      by_cases hbig : v.toNat * 10 + (c.toNat - 48) > b.toNat
      · rw [if_pos hbig, if_pos (hgt.mpr hbig)]
        rfl
      · rw [if_neg hbig, if_neg (fun h => hbig (hgt.mp h)), ← hstep]
        exact ih (hstep ▸ Nat.le_of_not_lt hbig)
    · rw [if_neg hc, if_neg hc]
      rfl

/-- Such a loop behind the check for a first digit. -/
def startingDigit (f : UInt32 → List UInt8 → Option (UInt32 × List UInt8)) :
    List UInt8 → Option (UInt32 × List UInt8)
  | [] => none
  | c :: cs => if asciiDigit c then f 0 (c :: cs) else none

theorem startingDigit_iff {f : UInt32 → List UInt8 → Option (UInt32 × List UInt8)} {b : UInt32}
    (hscan : ∀ s, (f 0 s).map (fun r => (r.1.toNat, r.2)) = asciiDecimal.scan b.toNat 0 s) :
    startingDigit f s = some (w, rest) ↔
      ∃ ds, Decimal ds w.toNat ∧ s = ds ++ rest ∧ (∀ c ∈ rest.head?, asciiDigit c = false) ∧
        w.toNat ≤ b.toNat := by
  have hf : ∀ s, f 0 s = some (w, rest) ↔
      asciiDecimal.scan b.toNat 0 s = some (w.toNat, rest) := by
    intro s
    rw [← hscan s]
    cases f 0 s with
    | none => simp
    | some r => simp [Prod.ext_iff, UInt32.toNat_inj]
  have hbase : 0 < asciiDecimal.base := by decide
  have hiff : ∀ s, f 0 s = some (w, rest) ↔ ∃ ds, s = ds ++ rest ∧
      (∀ c ∈ ds, asciiDigit c = true) ∧ (∀ c ∈ rest.head?, asciiDigit c = false) ∧
      w.toNat = asciiDecimal.valueFrom 0 ds ∧ w.toNat ≤ b.toNat :=
    fun s => (hf s).trans (Numerals.scan_iff hbase (Nat.zero_le b.toNat))
  cases s with
  | nil =>
    simp only [startingDigit, reduceCtorEq, false_iff]
    intro h
    obtain ⟨ds, hds, hs, -⟩ := h
    exact hds.nonempty (List.append_eq_nil_iff.mp hs.symm).1
  | cons c cs =>
    by_cases hc : asciiDigit c = true
    · rw [startingDigit, if_pos hc, hiff]
      constructor
      · intro h
        obtain ⟨ds, hs, hds, hstop, hval, hw⟩ := h
        refine ⟨ds, ⟨?_, hds, hval.symm⟩, hs, hstop, hw⟩
        intro hnil
        subst hnil
        obtain rfl : c :: cs = rest := hs
        rw [hstop c rfl] at hc
        cases hc
      · intro h
        obtain ⟨ds, hds, hs, hstop, hw⟩ := h
        exact ⟨ds, hs, hds.digits, hstop, hds.value.symm, hw⟩
    · rw [startingDigit, if_neg hc]
      simp only [reduceCtorEq, false_iff]
      intro h
      obtain ⟨ds, hds, hs, -⟩ := h
      cases ds with
      | nil => exact hds.nonempty rfl
      | cons d ds =>
        obtain ⟨rfl, -⟩ := List.cons.inj hs
        exact hc (hds.digits c List.mem_cons_self)

theorem parseU32_eq (s : List UInt8) : parseU32 s = startingDigit parseU32Loop s := by
  cases s <;> rfl

theorem parseU16Any_eq (s : List UInt8) :
    parseU16Any s = (startingDigit parseU16Loop s).map fun r => (r.1.toUInt16, r.2) := by
  cases s with
  | nil => rfl
  | cons c cs =>
    simp only [parseU16Any, startingDigit]
    split <;> rfl

theorem parseU32_iff : parseU32 s = some (w, rest) ↔
    ∃ ds, Decimal ds w.toNat ∧ s = ds ++ rest ∧ (∀ c ∈ rest.head?, asciiDigit c = false) ∧
      w.toNat ≤ 255 := by
  rw [parseU32_eq]
  exact startingDigit_iff (b := 255) fun _ => digitLoop_scan (b := 255) (by decide)
    (fun _ => rfl) (fun _ _ _ => rfl) (by decide)

theorem parseU16Any_iff {port : UInt16} : parseU16Any s = some (port, rest) ↔
    ∃ ds, Decimal ds port.toNat ∧ s = ds ++ rest ∧ ∀ c ∈ rest.head?, asciiDigit c = false := by
  have hloop : ∀ w : UInt32, startingDigit parseU16Loop s = some (w, rest) ↔ _ :=
    fun w => startingDigit_iff (b := 65535) fun _ => digitLoop_scan (b := 65535) (by decide)
      (fun _ => rfl) (fun _ _ _ => rfl) (by decide)
  have hlt := port.toNat_lt
  rw [parseU16Any_eq, Option.map_eq_some_iff]
  constructor
  · intro h
    obtain ⟨⟨w, r⟩, hw, heq⟩ := h
    obtain ⟨rfl, rfl⟩ := Prod.mk.inj heq
    obtain ⟨ds, hds, hs, hstop, hbound⟩ := (hloop w).mp hw
    have hval : w.toUInt16.toNat = w.toNat := by
      rw [UInt32.toNat_toUInt16]
      exact Nat.mod_eq_of_lt (Nat.lt_succ_of_le hbound)
    exact ⟨ds, hval ▸ hds, hs, hstop⟩
  · intro h
    obtain ⟨ds, hds, hs, hstop⟩ := h
    refine ⟨(port.toUInt32, rest), (hloop _).mpr ⟨ds, ?_, hs, hstop, ?_⟩, ?_⟩
    · rwa [UInt16.toNat_toUInt32]
    · rw [UInt16.toNat_toUInt32]
      exact Nat.le_of_lt_succ hlt
    · simp

/-- An octet in decimal. -/
structure Octet (ds : List UInt8) (v : Nat) : Prop extends Decimal ds v where
  small : v ≤ 255

/-- Four numbers with single dots between them, and their address. -/
def Ipv4Text (text : List UInt8) (ip : UInt32) : Prop :=
  ∃ d0 d1 d2 d3 v0 v1 v2 v3, Octet d0 v0 ∧ Octet d1 v1 ∧ Octet d2 v2 ∧ Octet d3 v3 ∧
    text = d0 ++ 46 :: (d1 ++ 46 :: (d2 ++ 46 :: d3)) ∧
    ip.toNat = v0 * 16777216 + v1 * 65536 + v2 * 256 + v3

theorem parseOctetDot_iff : parseOctetDot s = some (w, rest) ↔
    ∃ ds, Octet ds w.toNat ∧ s = ds ++ 46 :: rest := by
  have hiff : parseOctetDot s = some (w, rest) ↔ parseU32 s = some (w, 46 :: rest) := by
    rw [parseOctetDot]
    split
    · next h => simp [h]
    · next h =>
      simp only [reduceCtorEq, false_iff]
      exact h w rest
  rw [hiff, parseU32_iff]
  constructor
  · intro h
    obtain ⟨ds, hds, hs, -, hw⟩ := h
    exact ⟨ds, ⟨hds, hw⟩, hs⟩
  · intro h
    obtain ⟨ds, hds, hs⟩ := h
    refine ⟨ds, hds.toDecimal, hs, ?_, hds.small⟩
    simp [asciiDigit]

theorem or_low {a b i : Nat} (h : b < 2 ^ i) : a * 2 ^ i ||| b = a * 2 ^ i + b := by
  rw [← Nat.shiftLeft_eq, Nat.shiftLeft_add_eq_or_of_lt h]

theorem octets_toNat {o0 o1 o2 o3 : UInt32} (h0 : o0.toNat ≤ 255) (h1 : o1.toNat ≤ 255)
    (h2 : o2.toNat ≤ 255) (h3 : o3.toNat ≤ 255) :
    ((o0 <<< 24) ||| (o1 <<< 16) ||| (o2 <<< 8) ||| o3).toNat =
      o0.toNat * 16777216 + o1.toNat * 65536 + o2.toNat * 256 + o3.toNat := by
  have hshift : ∀ (o k : UInt32), o.toNat ≤ 255 → k.toNat ≤ 24 →
      (o <<< k).toNat = o.toNat * 2 ^ k.toNat := by
    intro o k ho hk
    rw [UInt32.toNat_shiftLeft, Nat.mod_eq_of_lt (a := k.toNat) (by omega), Nat.shiftLeft_eq]
    apply Nat.mod_eq_of_lt
    have hpow : 2 ^ k.toNat ≤ 2 ^ 24 := Nat.pow_le_pow_right (by decide) hk
    have hmul := Nat.mul_le_mul ho hpow
    omega
  have e24 : (24 : UInt32).toNat = 24 := rfl
  have e16 : (16 : UInt32).toNat = 16 := rfl
  have e8 : (8 : UInt32).toNat = 8 := rfl
  have hs0 := hshift o0 24 h0 (by decide)
  have hs1 := hshift o1 16 h1 (by decide)
  have hs2 := hshift o2 8 h2 (by decide)
  rw [e24] at hs0
  rw [e16] at hs1
  rw [e8] at hs2
  have j1 : o0.toNat * 2 ^ 24 ||| o1.toNat * 2 ^ 16 = (o0.toNat * 256 + o1.toNat) * 2 ^ 16 := by
    rw [or_low (by omega)]
    omega
  have j2 : (o0.toNat * 256 + o1.toNat) * 2 ^ 16 ||| o2.toNat * 2 ^ 8 =
      ((o0.toNat * 256 + o1.toNat) * 256 + o2.toNat) * 2 ^ 8 := by
    rw [or_low (by omega)]
    omega
  rw [UInt32.toNat_or, UInt32.toNat_or, UInt32.toNat_or, hs0, hs1, hs2, j1, j2, or_low (by omega)]
  omega

theorem netParseIpv4_steps {text : List UInt8} {ip : UInt32} : netParseIpv4 text = some ip ↔
    ∃ o0 t0, parseOctetDot text = some (o0, t0) ∧ ∃ o1 t1, parseOctetDot t0 = some (o1, t1) ∧
      ∃ o2 t2, parseOctetDot t1 = some (o2, t2) ∧ ∃ o3, parseU32 t2 = some (o3, []) ∧
        (o0 <<< 24) ||| (o1 <<< 16) ||| (o2 <<< 8) ||| o3 = ip := by
  simp only [netParseIpv4, Option.bind_eq_bind, Option.bind_eq_some_iff, Prod.exists]
  constructor
  · intro h
    obtain ⟨o0, t0, h0, o1, t1, h1, o2, t2, h2, o3, t3, h3, hip⟩ := h
    refine ⟨o0, t0, h0, o1, t1, h1, o2, t2, h2, o3, ?_⟩
    cases t3 with
    | nil => exact ⟨h3, Option.some.inj hip⟩
    | cons c cs => cases hip
  · intro h
    obtain ⟨o0, t0, h0, o1, t1, h1, o2, t2, h2, o3, h3, rfl⟩ := h
    exact ⟨o0, t0, h0, o1, t1, h1, o2, t2, h2, o3, [], h3, rfl⟩

/-- `net_parse_ipv4` accepts exactly the texts of addresses. -/
theorem netParseIpv4_iff {text : List UInt8} {ip : UInt32} :
    netParseIpv4 text = some ip ↔ Ipv4Text text ip := by
  rw [netParseIpv4_steps]
  constructor
  · intro h
    obtain ⟨o0, t0, h0, o1, t1, h1, o2, t2, h2, o3, h3, rfl⟩ := h
    obtain ⟨d0, hd0, rfl⟩ := parseOctetDot_iff.mp h0
    obtain ⟨d1, hd1, rfl⟩ := parseOctetDot_iff.mp h1
    obtain ⟨d2, hd2, rfl⟩ := parseOctetDot_iff.mp h2
    obtain ⟨d3, hd3, rfl, -, hsmall⟩ := parseU32_iff.mp h3
    refine ⟨d0, d1, d2, d3, _, _, _, _, hd0, hd1, hd2, ⟨hd3, hsmall⟩, ?_, ?_⟩
    · rw [List.append_nil]
    · exact octets_toNat hd0.small hd1.small hd2.small hsmall
  · intro h
    obtain ⟨d0, d1, d2, d3, v0, v1, v2, v3, h0, h1, h2, h3, rfl, hip⟩ := h
    have hval : ∀ v ≤ 255, (UInt32.ofNat v).toNat = v :=
      fun v hv => UInt32.toNat_ofNat_of_lt' (Nat.lt_of_le_of_lt hv (by decide))
    have e0 := hval v0 h0.small
    have e1 := hval v1 h1.small
    have e2 := hval v2 h2.small
    have e3 := hval v3 h3.small
    refine ⟨UInt32.ofNat v0, _, parseOctetDot_iff.mpr ⟨d0, e0.symm ▸ h0, rfl⟩,
      UInt32.ofNat v1, _, parseOctetDot_iff.mpr ⟨d1, e1.symm ▸ h1, rfl⟩,
      UInt32.ofNat v2, _, parseOctetDot_iff.mpr ⟨d2, e2.symm ▸ h2, rfl⟩,
      UInt32.ofNat v3, parseU32_iff.mpr ⟨d3, e3.symm ▸ h3.toDecimal, ?_, ?_, ?_⟩, ?_⟩
    · rw [List.append_nil]
    · simp
    · rw [e3]
      exact h3.small
    · have hsum := octets_toNat (e0 ▸ h0.small) (e1 ▸ h1.small) (e2 ▸ h2.small) (e3 ▸ h3.small)
      rw [e0, e1, e2, e3, ← hip] at hsum
      exact UInt32.toNat_inj.mp hsum

end Numbers

/-- The digits of `u32_to_dec` in `tmp`, the last one first. -/
def tmpDigits : Nat → UInt32 → List UInt8
  | 0, _ => []
  | fuel + 1, value =>
    if value > 0 then UInt8.ofNat (48 + (value % 10).toNat) :: tmpDigits fuel (value / 10) else []

/-- `u32_to_dec`: a value has at most ten digits. -/
def u32ToDec (value : UInt32) : List UInt8 :=
  if value = 0 then [48] else (tmpDigits 10 value).reverse

/-- `out[p++] = a[i]` as long as there is room; the text and the position behind it. -/
def appendText (outSize : Nat) : List UInt8 → Nat × Buf → Nat × Buf
  | [], r => r
  | c :: cs, r =>
    if r.1 + 1 < outSize then appendText outSize cs (r.1 + 1, Function.update r.2 r.1 c) else r

/-- `out[p++] = c`. -/
def appendChar (c : UInt8) (r : Nat × Buf) : Nat × Buf := (r.1 + 1, Function.update r.2 r.1 c)

def netFormatIpv4 (ip : UInt32) (out : Buf) (outSize : Nat) : Buf :=
  if outSize < 16 then out
  else
    let r := appendText outSize (u32ToDec ((ip >>> 24) &&& 0xFF)) (0, out)
    let r := appendText outSize (u32ToDec ((ip >>> 16) &&& 0xFF)) (appendChar 46 r)
    let r := appendText outSize (u32ToDec ((ip >>> 8) &&& 0xFF)) (appendChar 46 r)
    let r := appendText outSize (u32ToDec (ip &&& 0xFF)) (appendChar 46 r)
    Function.update r.2 r.1 0

/-- The string in a buffer. -/
def textIn (b : Buf) (size : Nat) : List UInt8 := (bytesAt b 0 size).takeWhile (· ≠ 0)

/-- `net_parse_ipv4` with its result and `*out_ip`. -/
def netParseIpv4Into (text : List UInt8) (outIp : UInt32) : Bool × UInt32 :=
  match netParseIpv4 text with
  | some ip => (true, ip)
  | none => (false, outIp)

section Format

variable {v : UInt32} {ip : UInt32} {outSize : Nat}

theorem digitChar {d : Nat} (hd : d < 10) :
    asciiDigit (UInt8.ofNat (48 + d)) = true ∧ (UInt8.ofNat (48 + d)).toNat - 48 = d := by
  have hall : ∀ d < 10, asciiDigit (UInt8.ofNat (48 + d)) = true ∧
      (UInt8.ofNat (48 + d)).toNat - 48 = d := by
    decide
  exact hall d hd

theorem tmpDigits_eq (fuel : Nat) (h : v.toNat < 10 ^ fuel) :
    tmpDigits fuel v = (Nat.digits 10 v.toNat).map fun d => UInt8.ofNat (48 + d) := by
  induction fuel generalizing v with
  | zero =>
    have h0 : v.toNat = 0 := by simpa using h
    simp [tmpDigits, h0]
  | succ fuel ih =>
    have hmod : (v % 10).toNat = v.toNat % 10 := UInt32.toNat_mod v 10
    have hdiv : (v / 10).toNat = v.toNat / 10 := UInt32.toNat_div v 10
    rw [tmpDigits]
    split
    · next hpos =>
      have hne : v.toNat ≠ 0 := by
        have := UInt32.lt_iff_toNat_lt.mp hpos
        exact Nat.ne_of_gt this
      have hless : (v / 10).toNat < 10 ^ fuel := by
        rw [hdiv]
        rw [Nat.pow_succ] at h
        omega
      rw [ih hless, hmod, hdiv, Nat.digits_eq_cons_digits_div (by decide) hne, List.map_cons]
    · next hzero =>
      have h0 : v.toNat = 0 := by
        have := mt UInt32.lt_iff_toNat_lt.mpr hzero
        simpa using this
      simp [h0]

/-- `u32_to_dec` writes the number. -/
theorem u32ToDec_eq (v : UInt32) :
    u32ToDec v = asciiDecimal.write (fun d => UInt8.ofNat (48 + d)) v.toNat := by
  have hlt := v.toNat_lt
  rw [u32ToDec, Numerals.write]
  by_cases h : v = 0
  · simp [h]
  · have hne : v.toNat ≠ 0 := fun h0 => h (UInt32.toNat_inj.mp h0)
    rw [if_neg h, if_neg hne, tmpDigits_eq 10 (by omega), ← List.map_reverse]
    rfl

theorem u32ToDec_octet (h : v.toNat ≤ 255) : Octet (u32ToDec v) v.toNat := by
  have hbase : 1 < asciiDecimal.base := by decide
  rw [u32ToDec_eq]
  refine ⟨⟨Numerals.write_ne_nil _ _, ?_, ?_⟩, h⟩
  · exact Numerals.write_isDigit hbase (fun d hd => (digitChar hd).1) _
  · exact Numerals.valueFrom_write hbase (fun d hd => (digitChar hd).2) _

theorem u32ToDec_length (h : v.toNat ≤ 255) : (u32ToDec v).length ≤ 3 := by
  rw [u32ToDec_eq, Numerals.write]
  split
  · decide
  · rw [List.length_map, List.length_reverse]
    exact (Nat.digits_length_le_iff (by decide) _).mpr (by change v.toNat < 10 ^ 3; omega)

/-- The text so far in a buffer that is otherwise as it was. -/
structure Written (out : Buf) (text : List UInt8) (r : Nat × Buf) : Prop where
  position : r.1 = text.length
  bytes : bytesAt r.2 0 text.length = text
  rest : ∀ j, text.length ≤ j → r.2 j = out j

variable {out : Buf} {text l : List UInt8} {r : Nat × Buf} {c : UInt8}

theorem Written.char (h : Written out text r) : Written out (text ++ [c]) (appendChar c r) := by
  obtain ⟨hpos, hbytes, hrest⟩ := h
  refine ⟨by simp [appendChar, hpos], ?_, ?_⟩
  · rw [List.length_append, List.length_singleton, bytesAt_add]
    congr 1
    · refine Eq.trans (bytesAt_congr ?_) hbytes
      intro k hk
      simp only [appendChar]
      rw [Function.update_of_ne (by omega)]
    · simp [bytesAt, appendChar, hpos]
  · intro j hj
    rw [List.length_append, List.length_singleton] at hj
    simp only [appendChar]
    rw [Function.update_of_ne (by omega), hrest j (by omega)]

theorem Written.append (h : Written out text r) (l : List UInt8) (outSize : Nat)
    (hroom : text.length + l.length < outSize) :
    Written out (text ++ l) (appendText outSize l r) := by
  induction l generalizing text r with
  | nil => simpa [appendText] using h
  | cons c cs ih =>
    rw [List.length_cons] at hroom
    have hpos := h.position
    rw [appendText, if_pos (by omega)]
    have hnext := ih (h.char (c := c)) (by simp; omega)
    rwa [List.append_assoc, List.singleton_append] at hnext

theorem Written.start (out : Buf) : Written out [] (0, out) := ⟨rfl, rfl, fun _ _ => rfl⟩

/-- The string that ends with the zero behind the text. -/
theorem Written.read (h : Written out text r) (hzero : 0 ∉ text)
    (hroom : text.length < outSize) : textIn (Function.update r.2 r.1 0) outSize = text := by
  obtain ⟨k, rfl⟩ : ∃ k, outSize = text.length + (1 + k) := ⟨outSize - text.length - 1, by omega⟩
  obtain ⟨hpos, hbytes, -⟩ := h
  have hfront : bytesAt (Function.update r.2 r.1 0) 0 text.length = text := by
    refine Eq.trans (bytesAt_congr ?_) hbytes
    intro j hj
    rw [Function.update_of_ne (by omega)]
  have hmid : bytesAt (Function.update r.2 r.1 0) text.length 1 = [0] := by
    simp [bytesAt, hpos]
  rw [textIn, bytesAt_add, bytesAt_add, hfront, Nat.zero_add, hmid,
    List.takeWhile_append_of_pos]
  · simp
  · intro a ha
    have hne : a ≠ 0 := fun h0 => hzero (h0 ▸ ha)
    simp [hne]

/-- The four octets of an address. -/
def octetText (ip : UInt32) : List UInt8 :=
  let dot : List UInt8 := [46]
  u32ToDec ((ip >>> 24) &&& 0xFF) ++ dot ++ u32ToDec ((ip >>> 16) &&& 0xFF) ++ dot ++
    u32ToDec ((ip >>> 8) &&& 0xFF) ++ dot ++ u32ToDec (ip &&& 0xFF)

theorem octet_toNat (w : UInt32) : (w &&& 0xFF).toNat = w.toNat % 256 := by
  rw [UInt32.toNat_and]
  exact Nat.and_two_pow_sub_one_eq_mod _ 8

theorem octetText_spec (ip : UInt32) : Ipv4Text (octetText ip) ip := by
  have hsmall : ∀ w : UInt32, (w &&& 0xFF).toNat ≤ 255 := by
    intro w
    rw [octet_toNat]
    omega
  refine ⟨_, _, _, _, _, _, _, _, u32ToDec_octet (hsmall (ip >>> 24)),
    u32ToDec_octet (hsmall (ip >>> 16)), u32ToDec_octet (hsmall (ip >>> 8)),
    u32ToDec_octet (hsmall ip), by simp [octetText], ?_⟩
  have hlt := ip.toNat_lt
  have h24 : (ip >>> 24).toNat = ip.toNat / 2 ^ 24 := by
    rw [UInt32.toNat_shiftRight]
    exact Nat.shiftRight_eq_div_pow _ 24
  have h16 : (ip >>> 16).toNat = ip.toNat / 2 ^ 16 := by
    rw [UInt32.toNat_shiftRight]
    exact Nat.shiftRight_eq_div_pow _ 16
  have h8 : (ip >>> 8).toNat = ip.toNat / 2 ^ 8 := by
    rw [UInt32.toNat_shiftRight]
    exact Nat.shiftRight_eq_div_pow _ 8
  simp only [octet_toNat, h24, h16, h8]
  omega

theorem octetText_length (ip : UInt32) : (octetText ip).length ≤ 15 := by
  have hlen : ∀ w : UInt32, (u32ToDec (w &&& 0xFF)).length ≤ 3 := by
    intro w
    apply u32ToDec_length
    rw [octet_toNat]
    omega
  have h0 := hlen (ip >>> 24)
  have h1 := hlen (ip >>> 16)
  have h2 := hlen (ip >>> 8)
  have h3 := hlen ip
  simp only [octetText, List.length_append, List.length_singleton]
  omega

/-- An address is written in its buffer, and nothing behind it. -/
theorem netFormatIpv4_spec (ip : UInt32) (out : Buf) (hsize : 16 ≤ outSize) :
    textIn (netFormatIpv4 ip out outSize) outSize = octetText ip ∧
    ∀ j, outSize ≤ j → netFormatIpv4 ip out outSize j = out j := by
  have hlen := octetText_length ip
  have hzero : 0 ∉ octetText ip := by
    have hdigits : ∀ w : UInt32, 0 ∉ u32ToDec w := by
      intro w hm
      rw [u32ToDec_eq] at hm
      have h0 := Numerals.write_isDigit (N := asciiDecimal) (by decide)
        (fun d hd => (digitChar hd).1) _ 0 hm
      cases h0
    simp [octetText, hdigits]
  rw [netFormatIpv4, if_neg (by omega)]
  rw [octetText] at hlen hzero ⊢
  generalize u32ToDec ((ip >>> 24) &&& 0xFF) = a at *
  generalize u32ToDec ((ip >>> 16) &&& 0xFF) = b at *
  generalize u32ToDec ((ip >>> 8) &&& 0xFF) = c at *
  generalize u32ToDec (ip &&& 0xFF) = d at *
  simp only [List.length_append, List.length_singleton] at hlen
  have ha : Written out a (appendText outSize a (0, out)) :=
    (Written.start out).append a outSize (by simp; omega)
  have hb := (ha.char (c := 46)).append b outSize (by simp; omega)
  have hc := (hb.char (c := 46)).append c outSize (by simp; omega)
  have hd := (hc.char (c := 46)).append d outSize (by simp; omega)
  refine ⟨hd.read hzero (by simp; omega), ?_⟩
  intro j hj
  have hpos := hd.position
  simp only [List.length_append, List.length_singleton] at hpos
  refine Eq.trans (Function.update_of_ne (by omega) _ _) (hd.rest j (by simp; omega))

/-- The two forms of an address are inverse: what `net_format_ipv4` writes is read back, and a
string is read exactly when it is four octets. -/
theorem ipv4_text_inverse :
    (∀ (ip : UInt32) (out : Buf) (outSize : Nat) (outIp : UInt32), 16 ≤ outSize →
      netParseIpv4Into (textIn (netFormatIpv4 ip out outSize) outSize) outIp = (true, ip)) ∧
    (∀ (text : List UInt8) (ip outIp : UInt32), Ipv4Text text ip →
      netParseIpv4Into text outIp = (true, ip)) ∧
    ∀ (text : List UInt8) (outIp : UInt32), (¬ ∃ ip, Ipv4Text text ip) →
      netParseIpv4Into text outIp = (false, outIp) := by
  have hread : ∀ (text : List UInt8) (ip outIp : UInt32), Ipv4Text text ip →
      netParseIpv4Into text outIp = (true, ip) := by
    intro text ip outIp h
    simp [netParseIpv4Into, (netParseIpv4_iff).mpr h]
  refine ⟨?_, hread, ?_⟩
  · intro ip out outSize outIp hsize
    rw [(netFormatIpv4_spec ip out hsize).1]
    exact hread _ _ _ (octetText_spec ip)
  · intro text outIp hnone
    cases hparse : netParseIpv4 text with
    | none => simp [netParseIpv4Into, hparse]
    | some ip => exact absurd ⟨ip, netParseIpv4_iff.mp hparse⟩ hnone

end Format

end VertexOS
