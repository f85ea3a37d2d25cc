import VertexOS.Net.Bytes

namespace VertexOS

/-! Strings are the bytes before their terminating zero. -/

def asciiDigit (c : UInt8) : Bool := 48 ≤ c && c ≤ 57

/-- The digits of `parse_u32`, after the first check. -/
def parseU32Loop (v : UInt32) : List UInt8 → Option (UInt32 × List UInt8)
  | [] => some (v, [])
  | c :: cs =>
    if asciiDigit c then
      let v := v * 10 + (c - 48).toUInt32
      if v > 255 then none else parseU32Loop v cs
    else some (v, c :: cs)

/-- `parse_u32`: the value, and the text behind its digits. -/
def parseU32 (s : List UInt8) : Option (UInt32 × List UInt8) :=
  match s with
  | [] => none
  | c :: _ => if asciiDigit c then parseU32Loop 0 s else none

def parseU16Loop (v : UInt32) : List UInt8 → Option (UInt32 × List UInt8)
  | [] => some (v, [])
  | c :: cs =>
    if asciiDigit c then
      let v := v * 10 + (c - 48).toUInt32
      if v > 65535 then none else parseU16Loop v cs
    else some (v, c :: cs)

def parseU16Any (s : List UInt8) : Option (UInt16 × List UInt8) :=
  match s with
  | [] => none
  | c :: _ =>
    if asciiDigit c then (parseU16Loop 0 s).map fun r => (r.1.toUInt16, r.2) else none

/-- One octet with the `.` behind it. -/
def parseOctetDot (s : List UInt8) : Option (UInt32 × List UInt8) :=
  match parseU32 s with
  | some (o, 46 :: cs) => some (o, cs)
  | _ => none

def netParseIpv4 (text : List UInt8) : Option UInt32 := do
  let (o0, text) ← parseOctetDot text
  let (o1, text) ← parseOctetDot text
  let (o2, text) ← parseOctetDot text
  match ← parseU32 text with
  | (o3, []) => some ((o0 <<< 24) ||| (o1 <<< 16) ||| (o2 <<< 8) ||| o3)
  | _ => none

/-- The loop of `dns_encode_name`: `label` is the label so far, `out` the bytes
written. -/
def encodeNameLoop (outSize : Nat) (label out : List UInt8) :
    List UInt8 → Option (List UInt8)
  | [] =>
    if label = [] then none
    else if label.length > 63 ∨ out.length + 1 + label.length + 1 > outSize then none
    else some (out ++ [UInt8.ofNat label.length] ++ label ++ [0])
  | c :: cs =>
    if c = 46 then
      if label = [] ∨ label.length > 63 ∨ out.length + 1 + label.length ≥ outSize then none
      else encodeNameLoop outSize [] (out ++ [UInt8.ofNat label.length] ++ label) cs
    else if c < 33 ∨ c > 126 then none
    else encodeNameLoop outSize (label ++ [c]) out cs

def dnsEncodeName (host : List UInt8) (outSize : Nat) : Option (List UInt8) :=
  encodeNameLoop outSize [] [] host

inductive NetHttpResult where
  | ok | invalidArg | badUrl | unsupportedScheme | linkDown | noIp | dnsFailed | tcpUnavailable
  | timeout | protocol
  deriving DecidableEq, Repr

def asciiLower (c : UInt8) : UInt8 := if 65 ≤ c ∧ c ≤ 90 then c + 32 else c

def startsWithCi : List UInt8 → List UInt8 → Bool
  | _, [] => true
  | [], _ :: _ => false
  | c :: cs, p :: ps => asciiLower c = asciiLower p && startsWithCi cs ps

/-- `://` occurs in the text. -/
def hasScheme : List UInt8 → Bool
  | [] => false
  | c :: cs => (c = 58 && cs.take 2 = [47, 47]) || hasScheme cs

/-- The bytes of an ASCII string. -/
def ascii (s : String) : List UInt8 := s.toList.map fun c => UInt8.ofNat c.toNat

/-- Host, port and path behind the scheme. -/
def parseAuthority (p : List UInt8) (hostOutSize : Nat) :
    Except NetHttpResult (List UInt8 × UInt16 × List UInt8) :=
  let host := p.takeWhile fun c => c ≠ 58 && c ≠ 47
  let rest := p.drop host.length
  if host = [] ∨ host.length + 1 > hostOutSize then .error .badUrl
  else
    match (match rest with
      | 58 :: cs => parseU16Any cs
      | _ => some (80, rest)) with
    | none => .error .badUrl
    | some (port, []) => .ok (host, port, ascii "/")
    | some (port, c :: cs) => if c = 47 then .ok (host, port, c :: cs) else .error .badUrl

def parseHttpUrl (url : List UInt8) (hostOutSize : Nat) :
    Except NetHttpResult (List UInt8 × UInt16 × List UInt8) :=
  if hasScheme url then
    if startsWithCi url (ascii "https://") then .error .unsupportedScheme
    else if ¬startsWithCi url (ascii "http://") then .error .unsupportedScheme
    else parseAuthority (url.drop 7) hostOutSize
  else parseAuthority url hostOutSize

/-- The decimal digits of a port. -/
def portDigits : Nat → Nat → List UInt8
  | 0, _ => []
  | fuel + 1, v => if v = 0 then [] else portDigits fuel (v / 10) ++ [UInt8.ofNat (48 + v % 10)]

def portText (port : UInt16) : List UInt8 :=
  if port = 0 then [48] else portDigits 8 port.toNat

/-- The request in `request[384]`: what does not fit is cut off. -/
def httpRequest (host : List UInt8) (port : UInt16) (path : List UInt8) : List UInt8 :=
  (ascii "GET " ++ path ++ ascii " HTTP/1.1\r\nHost: " ++ host ++
    (if port ≠ 80 then ascii ":" ++ portText port else []) ++
    ascii "\r\nConnection: close\r\nUser-Agent: VertexOS/0.1\r\n\r\n").take 383

end VertexOS
