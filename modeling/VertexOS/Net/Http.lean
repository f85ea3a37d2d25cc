import VertexOS.Net.Bytes

namespace VertexOS

/-- `tcp_http_session`. A `bodyOut` of `none` is the null pointer. -/
structure TcpHttp where
  active : Bool := false
  connecting : Bool := false
  established : Bool := false
  failed : Bool := false
  finSeen : Bool := false
  headerDone : Bool := false
  bodyTruncated : Bool := false
  statusValid : Bool := false
  remoteIp : UInt32 := 0
  localPort : UInt16 := 0
  remotePort : UInt16 := 0
  seqLocal : UInt32 := 0
  seqRemote : UInt32 := 0
  connectSentTicks : UInt32 := 0
  lastActivityTicks : UInt32 := 0
  bodyTotal : UInt32 := 0
  statusCode : UInt16 := 0
  bodyOut : Option Buf := none
  bodyOutSize : UInt32 := 0
  bodyOutPos : UInt32 := 0
  headerBuf : Buf := fun _ => 0
  headerLen : Nat := 0

/-- `sizeof(header_buf)`. -/
def headerBufSize : Nat := 1024

def isDigit (c : UInt8) : Bool := 48 ≤ c && c ≤ 57

/-- The first index from `i` on, below `len`, whose byte fails `p`. -/
def skipWhile (buf : Buf) (p : UInt8 → Bool) (len : Nat) : Nat → Nat → Nat
  | 0, i => i
  | n + 1, i => if i < len ∧ p (buf i) = true then skipWhile buf p len n (i + 1) else i

def tcpHttpParseStatusLine (t : TcpHttp) : TcpHttp :=
  let i := skipWhile t.headerBuf (· ≠ 32) t.headerLen t.headerLen 0
  let i := skipWhile t.headerBuf (· = 32) t.headerLen t.headerLen i
  if i + 2 < t.headerLen ∧ isDigit (t.headerBuf i) ∧ isDigit (t.headerBuf (i + 1)) ∧
      isDigit (t.headerBuf (i + 2)) then
    { t with
      statusCode := (t.headerBuf i - 48).toUInt16 * 100 + (t.headerBuf (i + 1) - 48).toUInt16 * 10 +
        (t.headerBuf (i + 2) - 48).toUInt16
      statusValid := true }
  else t

/-- A control byte other than `\n`, `\r`, `\t` is shown as `.`. -/
def shownByte (c : UInt8) : UInt8 := if c < 32 ∧ c ≠ 10 ∧ c ≠ 13 ∧ c ≠ 9 then 46 else c

/-- One byte of the loop of `tcp_http_append_body`. -/
def appendByte (t : TcpHttp) (c : UInt8) : TcpHttp :=
  match t.bodyOut with
  | some buf =>
    if t.bodyOutSize > 0 ∧ t.bodyOutPos + 1 < t.bodyOutSize then
      { t with
        bodyOut := some (Function.update buf t.bodyOutPos.toNat (shownByte c))
        bodyOutPos := t.bodyOutPos + 1 }
    else { t with bodyTruncated := true }
  | none => { t with bodyTruncated := true }

/-- The terminating zero behind the body. -/
def endBody (t : TcpHttp) : TcpHttp :=
  match t.bodyOut with
  | some buf =>
    if t.bodyOutSize > 0 then
      { t with bodyOut := some (Function.update buf t.bodyOutPos.toNat 0) }
    else t
  | none => t

def tcpHttpAppendBody (t : TcpHttp) (data : List UInt8) : TcpHttp :=
  endBody (data.foldl appendByte { t with bodyTotal := t.bodyTotal + UInt32.ofNat data.length })

/-- One byte more in `header_buf`. -/
def pushHeader (t : TcpHttp) (c : UInt8) : TcpHttp :=
  { t with
    headerBuf := Function.update (Function.update t.headerBuf t.headerLen c) (t.headerLen + 1) 0
    headerLen := t.headerLen + 1 }

/-- The header ends with `\r\n\r\n`. -/
def headerEnds (t : TcpHttp) : Bool :=
  4 ≤ t.headerLen && t.headerBuf (t.headerLen - 4) == 13 && t.headerBuf (t.headerLen - 3) == 10 &&
    t.headerBuf (t.headerLen - 2) == 13 && t.headerBuf (t.headerLen - 1) == 10

/-- The header loop of `tcp_http_feed_data`, with the bytes it leaves. -/
def headerLoop (t : TcpHttp) : List UInt8 → TcpHttp × List UInt8
  | [] => (t, [])
  | c :: cs =>
    if t.headerLen + 1 < headerBufSize then
      if headerEnds (pushHeader t c) then
        (tcpHttpParseStatusLine { pushHeader t c with headerDone := true }, cs)
      else headerLoop (pushHeader t c) cs
    else ({ t with failed := true }, [])

def tcpHttpFeedData (t : TcpHttp) (data : List UInt8) : TcpHttp :=
  if data = [] then t
  else if t.headerDone then tcpHttpAppendBody t data
  else
    let r := headerLoop t data
    if r.1.headerDone = false then r.1
    else if r.2 ≠ [] then tcpHttpAppendBody r.1 r.2
    else r.1

end VertexOS
