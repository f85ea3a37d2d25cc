import VertexOS.Net.Transmit

namespace VertexOS
open Library.Programs

/-- The loop of `dns_skip_name`: `out` is `*out_offset` once a jump has set it.
Each round moves `pos` on or takes one of at most eight jumps. -/
def skipNameLoop (msg : Buf) (msgLen : Nat) : Nat → Nat → Nat → Option Nat → Option Nat
  | 0, _, _, _ => none
  | fuel + 1, pos, jumps, out =>
    if pos < msgLen then
      let c := msg pos
      if c = 0 then some (out.getD (pos + 1))
      else if c &&& 0xC0 = 0xC0 then
        if pos + 1 ≥ msgLen then none
        else
          let out := some (out.getD (pos + 2))
          let pos := (c &&& 0x3F).toNat * 256 + (msg (pos + 1)).toNat
          if jumps + 1 > 8 ∨ pos ≥ msgLen then none
          else skipNameLoop msg msgLen fuel pos (jumps + 1) out
      else if c > 63 ∨ pos + 1 + c.toNat > msgLen then none
      else skipNameLoop msg msgLen fuel (pos + 1 + c.toNat) jumps out
    else none

def dnsSkipName (msg : Buf) (msgLen offset : Nat) : Option Nat :=
  skipNameLoop msg msgLen (9 * (msgLen + 1)) offset 0 none

/-- The questions of a response: where the first record starts. -/
def skipQuestions (msg : Buf) (len : Nat) : Nat → Nat → Option Nat
  | 0, off => some off
  | n + 1, off =>
    match dnsSkipName msg len off with
    | none => none
    | some off => if off + 4 > len then none else skipQuestions msg len n (off + 4)

/-- The first address record among the answers. -/
def findAddress (msg : Buf) (len : Nat) : Nat → Nat → Option UInt32
  | 0, _ => none
  | n + 1, off =>
    match dnsSkipName msg len off with
    | none => none
    | some off =>
      if off + 10 > len then none
      else
        let rdlen := (rd16 msg (off + 8)).toNat
        if off + 10 + rdlen > len then none
        else if rd16 msg off = 1 ∧ rd16 msg (off + 2) = 1 ∧ rdlen = 4 then
          some (rd32 msg (off + 10))
        else findAddress msg len n (off + 10 + rdlen)

/-- `handle_dns` on the bytes of `rx_frame_tmp` from `payload` on. -/
def dnsReceive (n : Net) (payload len : Nat) : Net :=
  let msg := fun i => n.drv.rxFrameTmp (payload + i)
  if ¬n.dns.waiting ∨ len < 12 then n
  else if rd16 msg 0 ≠ n.dns.xid then n
  else if rd16 msg 2 &&& 0x8000 = 0 then n
  else if rd16 msg 2 &&& 0x000F ≠ 0 then { n with dns := { n.dns with waiting := false } }
  else
    match skipQuestions msg len (rd16 msg 4).toNat 12 with
    | none => { n with dns := { n.dns with waiting := false } }
    | some off =>
      match findAddress msg len (rd16 msg 6).toNat off with
      | none => { n with dns := { n.dns with waiting := false } }
      | some ip =>
        { n with dns := { n.dns with resultIp := ip, gotReply := true, waiting := false } }

def handleDns (payload len : Nat) : NetM Unit := modify fun n => dnsReceive n payload len

end VertexOS
