import Mathlib

namespace VertexOS

/-- A buffer of bytes. -/
abbrev Buf := Nat → UInt8

/-- The bytes of a list as a buffer. -/
def bufOf (l : List UInt8) : Buf := fun i => l.getD i 0

/-- The first `len` bytes from `off` on. -/
def bytesAt (b : Buf) (off len : Nat) : List UInt8 := (List.range len).map fun i => b (off + i)

theorem bytesAt_length (b : Buf) (off len : Nat) : (bytesAt b off len).length = len := by
  simp [bytesAt]

/-- A hardware address. -/
structure Mac where
  bytes : List UInt8
  size : bytes.length = 6
  deriving DecidableEq, Repr

theorem zeroMac_size : ([0, 0, 0, 0, 0, 0] : List UInt8).length = 6 := rfl

/-- The hardware address stored at `off`. -/
def macAt (b : Buf) (off : Nat) : Mac := ⟨bytesAt b off 6, bytesAt_length b off 6⟩

/-- `mem_copy(dst + off, src, len)` between separate buffers. -/
def memCopyAt (dst : Buf) (off : Nat) (src : Buf) (len : Nat) : Buf :=
  fun i => if off ≤ i ∧ i < off + len then src (i - off) else dst i

/-- `mem_set(dst + off, value, len)`. -/
def memSetAt (dst : Buf) (off : Nat) (value : UInt8) (len : Nat) : Buf :=
  memCopyAt dst off (fun _ => value) len

/-- The fields of a packed header, stored from `off` on. -/
def putBytes (dst : Buf) (off : Nat) (l : List UInt8) : Buf := memCopyAt dst off (bufOf l) l.length

/-- A 16-bit field after `htons`. -/
def be16 (x : UInt16) : List UInt8 := [(x >>> 8).toUInt8, x.toUInt8]

/-- A 32-bit field after `htonl`. -/
def be32 (x : UInt32) : List UInt8 :=
  [(x >>> 24).toUInt8, (x >>> 16).toUInt8, (x >>> 8).toUInt8, x.toUInt8]

/-- `ntohs` of the field at `off`. -/
def rd16 (b : Buf) (off : Nat) : UInt16 := ((b off).toUInt16 <<< 8) ||| (b (off + 1)).toUInt16

/-- `ntohl` of the field at `off`. -/
def rd32 (b : Buf) (off : Nat) : UInt32 :=
  ((b off).toUInt32 <<< 24) ||| ((b (off + 1)).toUInt32 <<< 16) |||
    ((b (off + 2)).toUInt32 <<< 8) ||| (b (off + 3)).toUInt32

/-- The loop of `checksum32_add` over pairs of bytes, from `i` on. -/
def sumPairs (b : Buf) (len : Nat) : Nat → Nat → UInt32 → UInt32
  | 0, _, sum => sum
  | n + 1, i, sum =>
    if i + 1 < len then
      sumPairs b len n (i + 2) (sum + (((b i).toUInt32 <<< 8) ||| (b (i + 1)).toUInt32))
    else sum

def checksum32Add (sum : UInt32) (b : Buf) (len : Nat) : UInt32 :=
  let sum := sumPairs b len len 0 sum
  if len % 2 = 1 then sum + ((b (len - 1)).toUInt32 <<< 8) else sum

/-- `while (sum >> 16)`: a 32-bit sum is folded in two rounds. -/
def foldCarry : Nat → UInt32 → UInt32
  | 0, sum => sum
  | n + 1, sum => if sum >>> 16 ≠ 0 then foldCarry n ((sum &&& (0xFFFF : UInt32)) + (sum >>> 16)) else sum

def checksum16 (b : Buf) (len : Nat) : UInt16 := (~~~foldCarry 2 (checksum32Add 0 b len)).toUInt16

def tcpChecksum (srcIp dstIp : UInt32) (seg : Buf) (tcpLen : Nat) : UInt16 :=
  let pseudo := be32 srcIp ++ be32 dstIp ++ [0, 6] ++ be16 (UInt16.ofNat tcpLen)
  let sum := checksum32Add 0 (bufOf pseudo) 12
  (~~~foldCarry 2 (checksum32Add sum seg tcpLen)).toUInt16

theorem bytesAt_add (b : Buf) (off k m : Nat) :
    bytesAt b off (k + m) = bytesAt b off k ++ bytesAt b (off + k) m := by
  simp only [bytesAt, List.range_add, List.map_append, List.map_map]
  congr 1
  apply List.map_congr_left
  intro i _
  simp [Nat.add_assoc]

theorem bytesAt_congr {b c : Buf} {off off' len : Nat} (h : ∀ i < len, b (off + i) = c (off' + i)) :
    bytesAt b off len = bytesAt c off' len := by
  simp only [bytesAt]
  apply List.map_congr_left
  intro i hi
  exact h i (List.mem_range.mp hi)

theorem bytesAt_bufOf (l : List UInt8) : bytesAt (bufOf l) 0 l.length = l := by
  apply List.ext_getElem
  · exact bytesAt_length _ _ _
  · intro i h h'
    simp [bytesAt, bufOf, List.getElem?_eq_getElem h']

theorem bytesAt_replicate (v : UInt8) (off len : Nat) :
    bytesAt (fun _ => v) off len = List.replicate len v := by
  simp [bytesAt, List.map_const']

/-- The bytes that were copied. -/
theorem bytesAt_memCopyAt (dst src : Buf) (off len : Nat) :
    bytesAt (memCopyAt dst off src len) off len = bytesAt src 0 len := by
  apply bytesAt_congr
  intro i hi
  simp [memCopyAt, hi]

/-- A copy leaves the bytes before and behind it alone. -/
theorem bytesAt_memCopyAt_apart {dst src : Buf} {off len off' len' : Nat}
    (h : off' + len' ≤ off ∨ off + len ≤ off') :
    bytesAt (memCopyAt dst off src len) off' len' = bytesAt dst off' len' := by
  apply bytesAt_congr
  intro i hi
  rw [memCopyAt, if_neg (by omega)]

theorem bytesAt_putBytes (dst : Buf) (off : Nat) (l : List UInt8) :
    bytesAt (putBytes dst off l) off l.length = l := by
  rw [putBytes, bytesAt_memCopyAt, bytesAt_bufOf]

theorem bytesAt_putBytes_apart {dst : Buf} {l : List UInt8} {off off' len' : Nat}
    (h : off' + len' ≤ off ∨ off + l.length ≤ off') :
    bytesAt (putBytes dst off l) off' len' = bytesAt dst off' len' :=
  bytesAt_memCopyAt_apart h

theorem shift16_toNat (s : UInt32) : (s >>> 16).toNat = s.toNat / 65536 := by
  rw [UInt32.toNat_shiftRight]
  exact Nat.shiftRight_eq_div_pow _ 16

theorem shift16_eq_zero (s : UInt32) : s >>> 16 = 0 ↔ s.toNat < 65536 := by
  rw [← UInt32.toNat_inj, shift16_toNat, UInt32.toNat_zero]
  omega

theorem foldRound_toNat (s : UInt32) :
    ((s &&& (0xFFFF : UInt32)) + (s >>> 16)).toNat = s.toNat % 65536 + s.toNat / 65536 := by
  have hand : (s &&& (0xFFFF : UInt32)).toNat = s.toNat % 65536 := by
    rw [UInt32.toNat_and]
    exact Nat.and_two_pow_sub_one_eq_mod _ 16
  have hlt := s.toNat_lt
  rw [UInt32.toNat_add, hand, shift16_toNat]
  omega

/-- The folding loop has ended after two rounds. -/
theorem foldCarry_ended (sum : UInt32) : foldCarry 2 sum >>> 16 = 0 := by
  have hlt := sum.toNat_lt
  have h1 := foldRound_toNat sum
  have h2 := foldRound_toNat ((sum &&& (0xFFFF : UInt32)) + (sum >>> 16))
  simp only [foldCarry, ne_eq, ite_not]
  split
  · next h => exact h
  · split
    · next h' => exact h'
    · next h h' =>
      rw [shift16_eq_zero] at h' ⊢
      rw [h1] at h' h2
      rw [h2]
      omega

end VertexOS
