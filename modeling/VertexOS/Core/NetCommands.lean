import VertexOS.Net.Ipv4Text
import VertexOS.Net.Timeouts

namespace VertexOS
open Library.Programs Library.Positional

/-! A command line is read argument by argument. -/

def skipSpaces (s : List UInt8) : List UInt8 := s.dropWhile (· = 32)

/-- A character of an argument; what the buffer has no room for is dropped. -/
def putArgChar (outSize : Nat) (out : List UInt8) (c : UInt8) : List UInt8 :=
  if out.length + 1 < outSize then out ++ [c] else out

/-- The loop of `read_arg`, with the argument so far; `quote` is 0 outside quotes. -/
def readArgLoop (outSize : Nat) (quote : UInt8) :
    List UInt8 → List UInt8 → List UInt8 × List UInt8
  | [], out => (out, [])
  | c :: cs, out =>
    if quote ≠ 0 ∧ c = quote then (out, cs)
    else if quote = 0 ∧ c = 32 then (out, c :: cs)
    else
      match cs with
      | d :: ds =>
        -- an escaped quote or backslash
        if quote ≠ 0 ∧ c = 92 ∧ (d = quote ∨ d = 92) then
          readArgLoop outSize quote ds (putArgChar outSize out d)
        else readArgLoop outSize quote (d :: ds) (putArgChar outSize out c)
      | [] => (putArgChar outSize out c, [])

/-- `read_arg`: the argument, if there is one, and what is left of the line. -/
def readArg (args : List UInt8) (outSize : Nat) : Option (List UInt8) × List UInt8 :=
  if outSize = 0 then (none, args)
  else
    match skipSpaces args with
    | [] => (none, [])
    | c :: cs =>
      let r := if c = 34 ∨ c = 39 then readArgLoop outSize c cs [] else
        readArgLoop outSize 0 (c :: cs) []
      (some r.1, r.2)

def parseU32ArgLoop (v : UInt32) : List UInt8 → Option UInt32
  | [] => some v
  | c :: cs => if asciiDigit c then parseU32ArgLoop (v * 10 + (c - 48).toUInt32) cs else none

def parseU32Arg (s : List UInt8) : Option UInt32 :=
  if s = [] then none else parseU32ArgLoop 0 s

/-- The optional timeout at the end of the line; `none` when it is invalid. -/
def readTimeout (args : List UInt8) (default : UInt32) : Option UInt32 :=
  match (readArg args 16).1 with
  | some (c :: cs) => parseU32Arg (c :: cs)
  | _ => some default

/-- What `cmd_ping` prints of a call. -/
def pingReport (target : List UInt8) (rtt : Option UInt32) : List UInt8 :=
  ascii "ping: sending to " ++ target ++ ascii "\n" ++
    match rtt with
    | none => ascii "ping: timeout or network error\n"
    | some rtt => ascii "ping reply: " ++ u32ToDec rtt ++ ascii " ms\n"

/-- `cmd_ping`: what it prints. -/
def cmdPing (fuel : Nat) (args : List UInt8) : NetM (List UInt8) := do
  match readArg args 32 with
  | (some (c :: cs), args) =>
    match netParseIpv4 (c :: cs) with
    | none => return ascii "ping: invalid ipv4 address\n"
    | some ip =>
      match readTimeout args 1000 with
      | none => return ascii "ping: invalid timeout\n"
      | some timeoutMs => return pingReport (c :: cs) (← netPing fuel ip timeoutMs)
  | _ => return ascii "Usage: ping <ipv4> [timeout_ms]\n"

/-- An address as the commands print it. -/
def ipText (ip : UInt32) : List UInt8 := textIn (netFormatIpv4 ip (fun _ => 0) 16) 16

/-- What `cmd_dns` prints of a call. -/
def dnsReport (host : List UInt8) (ip : Option UInt32) : List UInt8 :=
  ascii "dns: resolving " ++ host ++ ascii "\n" ++
    match ip with
    | none => ascii "dns: resolve failed\n"
    | some ip => host ++ ascii " -> " ++ ipText ip ++ ascii "\n"

/-- `cmd_dns`: what it prints. -/
def cmdDns (fuel : Nat) (args : List UInt8) : NetM (List UInt8) := do
  match readArg args 128 with
  | (some (c :: cs), args) =>
    match readTimeout args 1500 with
    | none => return ascii "dns: invalid timeout\n"
    | some timeoutMs => return dnsReport (c :: cs) (← netResolveIpv4 fuel (c :: cs) timeoutMs)
  | _ => return ascii "Usage: dns <hostname|ipv4> [timeout_ms]\n"

def httpResultText : NetHttpResult → List UInt8
  | .ok => ascii "ok"
  | .invalidArg => ascii "invalid arguments"
  | .badUrl => ascii "bad url (expected http://host[:port]/path or host[:port]/path)"
  | .unsupportedScheme => ascii "unsupported scheme (use http://, https deferred)"
  | .linkDown => ascii "network link is down"
  | .noIp => ascii "no IPv4 address configured"
  | .dnsFailed => ascii "dns resolve failed"
  | .tcpUnavailable => ascii "tcp client path not implemented yet"
  | .timeout => ascii "timeout"
  | .protocol => ascii "protocol error"

/-- The host of a response. -/
def httpTarget (r : HttpResponse) : List UInt8 :=
  ascii "http: target " ++ ipText r.resolvedIp ++ ascii ":" ++ u32ToDec r.port.toUInt32 ++
    ascii "\n"

/-- What `cmd_http` prints of a response. -/
def httpReport (url : List UInt8) (r : HttpResponse) : List UInt8 :=
  ascii "http: requesting " ++ url ++ ascii "\n" ++
  if r.result ≠ .ok then
    ascii "http: " ++ httpResultText r.result ++ ascii "\n" ++
      if r.resolvedIp ≠ 0 then httpTarget r else []
  else
    httpTarget r ++ ascii "http: status " ++ u32ToDec r.statusCode.toUInt32 ++ ascii "\n" ++
      (if r.bodyLen > 0 then ((r.body.map fun b => textIn b 256).getD []) ++ ascii "\n" else []) ++
      if r.bodyTruncated then ascii "http: body truncated\n" else []

/-- `cmd_http`, with its buffer for the body: what it prints. -/
def cmdHttp (fuel : Nat) (args : List UInt8) (bodyBuf : Buf) : NetM (List UInt8) := do
  let usage := ascii "Usage: http get <url> [timeout_ms]\n"
  match readArg args 8 with
  | (some (m :: ms), args) =>
    match readArg args 192 with
    | (some (c :: cs), args) =>
      if m :: ms ≠ ascii "get" then return ascii "http: only 'get' is supported right now\n"
      -- the default is not 0: a timeout of 0 was typed
      match readTimeout args 3000 with
      | none | some 0 => return ascii "http: invalid timeout\n"
      | some timeoutMs =>
        return httpReport (c :: cs) (← netHttpGet fuel (c :: cs) timeoutMs (some bodyBuf) 256)
    | _ => return usage
  | _ => return usage

/-- The argument that was typed: `read_arg` with room for all of it. -/
def typedArg (args : List UInt8) : Option (List UInt8) := (readArg args (args.length + 1)).1

section Typed

variable {size : Nat} {c : UInt8} {out : List UInt8}

theorem putArgChar_take (k : Nat) (h : out.length + 1 < size) :
    putArgChar (k + 1) (out.take k) c = (putArgChar size out c).take k := by
  rw [putArgChar, putArgChar, if_pos h, List.length_take, List.take_append]
  by_cases hroom : out.length < k
  · rw [if_pos (by omega), List.take_of_length_le (i := k - out.length) (by simp; omega)]
  · have hfull : k - out.length = 0 := by omega
    rw [if_neg (by omega), hfull, List.take_zero, List.append_nil]

theorem putArgChar_length (h : out.length + 1 < size) :
    (putArgChar size out c).length = out.length + 1 := by
  simp [putArgChar, h]

/-- A short buffer holds the front of the argument. -/
theorem readArgLoop_take (k : Nat) (quote : UInt8) (s out : List UInt8)
    (h : out.length + s.length < size) :
    (readArgLoop (k + 1) quote s (out.take k)).1 = (readArgLoop size quote s out).1.take k := by
  fun_induction readArgLoop size quote s out with
  | case1 out => rfl
  | case2 c cs out hend => simp only [readArgLoop.eq_def (k + 1) quote (c :: _), if_pos hend]
  | case3 c cs out hend hspace =>
    simp only [readArgLoop.eq_def (k + 1) quote (c :: _), if_neg hend, if_pos hspace]
  | case4 c out hend hspace d ds hesc ih =>
    rw [List.length_cons, List.length_cons] at h
    have hput : out.length + 1 < size := by omega
    simp only [readArgLoop.eq_def (k + 1) quote (c :: _), if_neg hend, if_neg hspace, if_pos hesc]
    rw [putArgChar_take k hput]
    apply ih
    rw [putArgChar_length hput]
    omega
  | case5 c out hend hspace d ds hesc ih =>
    rw [List.length_cons, List.length_cons] at h
    have hput : out.length + 1 < size := by omega
    simp only [readArgLoop.eq_def (k + 1) quote (c :: _), if_neg hend, if_neg hspace, if_neg hesc]
    rw [putArgChar_take k hput]
    apply ih
    rw [putArgChar_length hput, List.length_cons]
    omega
  | case6 c out hend hspace =>
    rw [List.length_singleton] at h
    simp only [readArgLoop.eq_def (k + 1) quote (c :: _), if_neg hend, if_neg hspace]
    exact putArgChar_take k h

theorem readArg_take (args : List UInt8) (k : Nat) :
    (readArg args (k + 1)).1 = (typedArg args).map (·.take k) := by
  have hless : (skipSpaces args).length ≤ args.length := List.length_dropWhile_le _ _
  rw [typedArg, readArg, readArg, if_neg (by omega), if_neg (by omega)]
  split
  · rfl
  · next c cs heq =>
    rw [heq, List.length_cons] at hless
    split
    · simpa using readArgLoop_take k c cs [] (by simp; omega : _ < args.length + 1)
    · simpa using readArgLoop_take k 0 (c :: cs) [] (by simp; omega : _ < args.length + 1)

end Typed

/-- The ticks of a timeout in milliseconds, at least one. -/
def exactTicks (freq : UInt32) (ms : Nat) : Nat := max 1 (ms * freq.toNat / 1000)

/-- A timeout means what was typed: its value is exact or it is rejected, and the call waits for
its ticks. -/
structure TimeoutExact (call : TimedCall) (freq : UInt32) (typed : Nat) (read : Option UInt32) :
    Prop where
  value : ∀ v, read = some v → v.toNat = typed
  rejected : 2 ^ 32 ≤ typed → read = none
  waits : ∀ v, read = some v → call.WaitsFor freq v (exactTicks freq typed)

/-- A timeout that fits its buffer, its variable and the product with the tick rate. -/
structure TimeoutFits (freq : UInt32) (text : List UInt8) (typed : Nat) : Prop where
  text : text.length ≤ 15 ∨ typed = 0
  value : typed < 2 ^ 32
  product : typed * freq.toNat < 2 ^ 32

/-- The commands, with `rest` of their lines for the timeout, wait as long as was typed. -/
structure CommandsWait (freq : UInt32) (rest : List UInt8) (typed : Nat) : Prop where
  ping : ∀ fuel args target ip n, AtRate freq n → readArg args 32 = (some target, rest) →
    netParseIpv4 target = some ip →
    cmdPing fuel args n = (pingReport target <$> pingFor fuel ip (exactTicks freq typed)) n
  dns : ∀ fuel args host n, AtRate freq n → readArg args 128 = (some host, rest) → host ≠ [] →
    cmdDns fuel args n = (dnsReport host <$> resolveFor fuel host (exactTicks freq typed)) n
  http : ∀ fuel args urlArgs url buf n, AtRate freq n → typed ≠ 0 →
    readArg args 8 = (some (ascii "get"), urlArgs) → readArg urlArgs 192 = (some url, rest) →
    url ≠ [] → cmdHttp fuel args buf n =
      (httpReport url <$> httpGetFor fuel url (exactTicks freq typed) (some buf) 256) n

section Exact

variable {freq : UInt32} {args rest text : List UInt8} {typed : Nat}

theorem parseU32ArgLoop_digits (hdigits : ∀ c ∈ text, asciiDigit c = true) (v : UInt32) :
    parseU32ArgLoop v text = some (UInt32.ofNat (asciiDecimal.valueFrom v.toNat text)) := by
  induction text generalizing v with
  | nil => simp [parseU32ArgLoop]
  | cons c cs ih =>
    have hc := hdigits c List.mem_cons_self
    obtain ⟨hlow, -⟩ := asciiDigit_iff.mp hc
    have hsub : (c - 48).toNat = c.toNat - 48 :=
      UInt8.toNat_sub_of_le _ _ (UInt8.le_iff_toNat_le.mpr hlow)
    have hstep : (v * 10 + (c - 48).toUInt32).toNat =
        (v.toNat * 10 + (c.toNat - 48)) % 2 ^ 32 := by
      rw [UInt32.toNat_add, UInt32.toNat_mul, UInt8.toNat_toUInt32, hsub]
      exact Nat.mod_add_mod _ _ _
    rw [parseU32ArgLoop, if_pos hc, ih fun d hd => hdigits d (List.mem_cons_of_mem _ hd)]
    congr 1
    apply UInt32.toNat_inj.mp
    rw [hstep, UInt32.toNat_ofNat', UInt32.toNat_ofNat', Numerals.valueFrom_cons,
      Numerals.valueFrom_eq, Numerals.valueFrom_eq _ (_ + _)]
    exact Nat.ModEq.add_right _ (Nat.ModEq.mul_right _ (Nat.mod_modEq _ _))

/-- What is read of a typed number: the digits that the buffer holds, in 32 bits. -/
theorem readTimeout_digits (default : UInt32) (harg : typedArg args = some text)
    (htext : Decimal text typed) : readTimeout args default =
    some (UInt32.ofNat (asciiDecimal.valueFrom 0 (text.take 15))) := by
  have hne := htext.nonempty
  have hread : (readArg args 16).1 = some (text.take 15) := by
    rw [readArg_take, harg, Option.map_some]
  have hdigits : ∀ c ∈ text.take 15, asciiDigit c = true :=
    fun c hc => htext.digits c (List.mem_of_mem_take hc)
  rw [readTimeout, hread]
  cases htake : text.take 15 with
  | nil => simp [hne] at htake
  | cons c cs =>
    rw [htake] at hdigits
    change parseU32Arg (c :: cs) = _
    rw [parseU32Arg, if_neg (List.cons_ne_nil _ _), parseU32ArgLoop_digits hdigits]
    rfl

/-- A product that overflows makes fewer ticks. -/
theorem ticks_exact_iff (a : Nat) :
    max 1 (a % 2 ^ 32 / 1000) = max 1 (a / 1000) ↔ a < 2 ^ 32 := by
  constructor
  · intro heq
    by_contra hbig
    have hlow : a % 2 ^ 32 + 2 ^ 32 ≤ a := by omega
    omega
  · intro hfits
    rw [Nat.mod_eq_of_lt hfits]

theorem readTimeout_fits (default : UInt32) (harg : typedArg args = some text)
    (htext : Decimal text typed) (hfits : TimeoutFits freq text typed) :
    ∃ v, readTimeout args default = some v ∧ v.toNat = typed := by
  have hcut := Numerals.valueFrom_take_iff (N := asciiDecimal) (by decide) 15 text
  rw [htext.value] at hcut
  refine ⟨_, readTimeout_digits default harg htext, ?_⟩
  rw [hcut.mpr hfits.text, UInt32.toNat_ofNat', Nat.mod_eq_of_lt hfits.value]

/-- The ticks of a timeout that fits are exact. -/
theorem TimeoutFits.waits (hfits : TimeoutFits freq text typed) {v : UInt32}
    (hv : v.toNat = typed) (call : TimedCall) : call.WaitsFor freq v (exactTicks freq typed) := by
  have hwaits := call.waitsFor_ticks freq v
  rwa [hv, (ticks_exact_iff _).mpr hfits.product] at hwaits

theorem timeout_exact (call : TimedCall) (freq default : UInt32) (harg : typedArg args = some text)
    (htext : Decimal text typed) :
    TimeoutExact call freq typed (readTimeout args default) ↔ TimeoutFits freq text typed := by
  have hread := readTimeout_digits default harg htext
  constructor
  · intro h
    have hvalue := h.value _ hread
    have hfits : typed < 2 ^ 32 := by
      by_contra hbig
      have hnone := h.rejected (Nat.le_of_not_lt hbig)
      rw [hread] at hnone
      cases hnone
    refine ⟨?_, hfits, ?_⟩
    · have hcut := Numerals.valueFrom_take_iff (N := asciiDecimal) (by decide) 15 text
      have hfront := Numerals.valueFrom_take_le (N := asciiDecimal) (by decide) 15 text
      rw [htext.value] at hcut hfront
      rw [UInt32.toNat_ofNat', Nat.mod_eq_of_lt (Nat.lt_of_le_of_lt hfront hfits)] at hvalue
      exact hcut.mp hvalue
    · by_cases hzero : typed = 0
      · simp [hzero]
      -- a wait of `net_http_get` has a timeout other than 0
      have hpos : call = .httpGet → UInt32.ofNat (asciiDecimal.valueFrom 0 (text.take 15)) ≠ 0 := by
        intro _ hv
        rw [hv] at hvalue
        exact hzero hvalue.symm
      have hticks := (call.waitsFor_iff hpos).mp (h.waits _ hread)
      rw [hvalue] at hticks
      exact (ticks_exact_iff _).mp hticks
  · intro hfits
    obtain ⟨v, hv, hvalue⟩ := readTimeout_fits default harg htext hfits
    refine ⟨?_, fun hbig => absurd hfits.value (Nat.not_lt.mpr hbig), ?_⟩
    · intro w hw
      rw [hv] at hw
      cases hw
      exact hvalue
    · intro w hw
      rw [hv] at hw
      cases hw
      exact hfits.waits hvalue call

/-- The commands with a timeout that fits. -/
theorem TimeoutFits.commands (hfits : TimeoutFits freq text typed)
    (harg : typedArg rest = some text) (htext : Decimal text typed) :
    CommandsWait freq rest typed := by
  constructor
  · intro fuel args target ip n hn hargs hip
    obtain ⟨v, hv, hvalue⟩ := readTimeout_fits 1000 harg htext hfits
    cases target with
    | nil => cases hip
    | cons c cs =>
      rw [cmdPing, hargs]
      simp only [hip, hv]
      exact bind_pure_run (hfits.waits hvalue .ping fuel ip n hn) _
  · intro fuel args host n hn hargs hhost
    obtain ⟨v, hv, hvalue⟩ := readTimeout_fits 1500 harg htext hfits
    cases host with
    | nil => cases hhost rfl
    | cons c cs =>
      rw [cmdDns, hargs]
      simp only [hv]
      exact bind_pure_run (hfits.waits hvalue .resolve fuel (c :: cs) n hn) _
  · intro fuel args urlArgs url buf n hn hpos hget hargs hurl
    obtain ⟨v, hv, hvalue⟩ := readTimeout_fits 3000 harg htext hfits
    have hzero : v ≠ 0 := by
      rintro rfl
      exact hpos hvalue.symm
    cases url with
    | nil => cases hurl rfl
    | cons c cs =>
      have hwaits := hfits.waits hvalue .httpGet hzero fuel (c :: cs) (some buf) 256 n hn
      have hmethod : ascii "get" = [103, 101, 116] := by decide +kernel
      rw [hmethod] at hget
      rw [cmdHttp, hget]
      simp only [hargs, hmethod, hv]
      rw [if_neg (by simp)]
      exact bind_pure_run hwaits _

/-- Of two timeouts that mean what was typed, the larger never makes the shorter wait. -/
theorem TimeoutExact.mono {call : TimedCall} {a b w w' : Nat} {r r' : Option UInt32} {v v' : UInt32}
    (ha : TimeoutExact call freq a r) (hb : TimeoutExact call freq b r') (hv : r = some v)
    (hv' : r' = some v') (hw : call.WaitsFor freq v w) (hw' : call.WaitsFor freq v' w')
    (hpos : call = .httpGet → a ≠ 0) (hle : a ≤ b) : w ≤ w' := by
  have hvalue := ha.value v hv
  have hvalue' := hb.value v' hv'
  have hne : call = .httpGet → v ≠ 0 := by
    rintro hcall rfl
    exact hpos hcall hvalue.symm
  have hne' : call = .httpGet → v' ≠ 0 := by
    rintro hcall rfl
    have hzero : b = 0 := hvalue'.symm
    rw [hzero] at hle
    exact hpos hcall (Nat.le_zero.mp hle)
  rw [← (call.waitsFor_iff hne).mp hw, ← (call.waitsFor_iff hne').mp hw',
    (call.waitsFor_iff hne).mp (ha.waits v hv), (call.waitsFor_iff hne').mp (hb.waits v' hv')]
  exact max_le_max_left 1 (Nat.div_le_div_right (Nat.mul_le_mul_right _ hle))

/-- The typed timeouts that mean what was typed are those that fit: with these the commands wait
as long as was typed. A larger timeout never makes a shorter wait. -/
theorem timeouts_exact_iff (freq : UInt32) (call : TimedCall) (default : UInt32) :
    (∀ rest text typed, typedArg rest = some text → Decimal text typed →
      (TimeoutExact call freq typed (readTimeout rest default) ↔ TimeoutFits freq text typed) ∧
      (TimeoutFits freq text typed → CommandsWait freq rest typed)) ∧
    ∀ rest rest' a b v v' w w', TimeoutExact call freq a (readTimeout rest default) →
      TimeoutExact call freq b (readTimeout rest' default) →
      readTimeout rest default = some v → readTimeout rest' default = some v' →
      call.WaitsFor freq v w → call.WaitsFor freq v' w' → (call = .httpGet → a ≠ 0) →
      a ≤ b → w ≤ w' := by
  constructor
  · intro rest text typed harg htext
    exact ⟨timeout_exact call freq default harg htext, fun hfits => hfits.commands harg htext⟩
  · intro rest rest' a b v v' w w' ha hb hv hv' hw hw' hpos hle
    exact ha.mono hb hv hv' hw hw' hpos hle

/-- At 100 Hz, one second is a wait of 100 ticks and one minute of no fewer. -/
theorem timeouts_exact_second : CommandsWait 100 (ascii "1000") 1000 ∧
    exactTicks 100 1000 ≤ exactTicks 100 60000 := by
  have htyped : typedArg (ascii "1000") = some (ascii "1000") := by decide +kernel
  have htyped' : typedArg (ascii "60000") = some (ascii "60000") := by decide +kernel
  obtain ⟨hexact, hmono⟩ := timeouts_exact_iff 100 .ping 1000
  obtain ⟨hiff, hcommands⟩ :=
    hexact _ _ 1000 htyped ⟨by decide, by decide +kernel, by decide +kernel⟩
  obtain ⟨hiff', -⟩ :=
    hexact _ _ 60000 htyped' ⟨by decide, by decide +kernel, by decide +kernel⟩
  have hfits : TimeoutFits 100 (ascii "1000") 1000 :=
    ⟨by decide, by decide, by decide +kernel⟩
  have hfits' : TimeoutFits 100 (ascii "60000") 60000 :=
    ⟨by decide, by decide, by decide +kernel⟩
  have hread : readTimeout (ascii "1000") 1000 = some 1000 := by decide +kernel
  have hread' : readTimeout (ascii "60000") 1000 = some 60000 := by decide +kernel
  refine ⟨hcommands hfits, hmono _ _ _ _ _ _ _ _ (hiff.mpr hfits) (hiff'.mpr hfits') hread hread' ?_
    ?_ (by simp) (by decide)⟩
  · exact (hiff.mpr hfits).waits _ hread
  · exact (hiff'.mpr hfits').waits _ hread'

/-- 2^32 milliseconds are read as none, and of 42949673 one tick is left. -/
theorem timeout_wraps :
    ¬TimeoutExact .ping 100 4294967296 (readTimeout (ascii "4294967296") 1000) ∧
    ¬TimeoutExact .ping 100 42949673 (readTimeout (ascii "42949673") 1000) := by
  constructor
  · intro h
    exact absurd (h.rejected (Nat.le_refl _)) (by decide +kernel)
  · intro h
    have hwaits := h.waits 42949673 (by decide +kernel)
    have hticks := (TimedCall.ping.waitsFor_iff (by simp)).mp hwaits
    exact absurd hticks (by decide +kernel)

end Exact

end VertexOS
