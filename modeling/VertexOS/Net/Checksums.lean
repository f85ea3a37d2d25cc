import VertexOS.Library.OnesComplement
import VertexOS.Net.Bytes

namespace VertexOS
open Library.OnesComplement

/-- The 16-bit words of a message, added up. -/
def wordSum (l : List UInt8) : Nat := pairSum 256 (l.map UInt8.toNat)

section Sums

variable {b : Buf} {l l' : List UInt8} {s : UInt32} {i k len off : Nat} {w : UInt16}

theorem wordSum_append (h : l.length % 2 = 0) : wordSum (l ++ l') = wordSum l + wordSum l' := by
  rw [wordSum, List.map_append, pairSum_append (by simpa using h)]
  rfl

theorem wordSum_le (l : List UInt8) : wordSum l ≤ (l.length + 1) / 2 * 65535 := by
  have h : pairSum 256 (l.map UInt8.toNat) ≤ _ := pairSum_le (by
    simp only [List.forall_mem_map]
    exact fun a _ => a.toNat_lt)
  simpa [wordSum] using h

theorem be16_wordSum (w : UInt16) : wordSum (be16 w) = w.toNat := by
  have hlt := w.toNat_lt
  simp [wordSum, be16, pairSum, Nat.shiftRight_eq_div_pow]
  omega

/-- A word more in place of a zero one. -/
theorem wordSum_field (h : l.length % 2 = 0) (w : UInt16) :
    wordSum (l ++ be16 w ++ l') = wordSum (l ++ [0, 0] ++ l') + w.toNat := by
  have h2 : (l ++ be16 w).length % 2 = 0 := by simpa [be16] using h
  have h2' : (l ++ [0, 0]).length % 2 = 0 := by simpa using h
  rw [wordSum_append h2, wordSum_append h, wordSum_append h2', wordSum_append h, be16_wordSum]
  simp [wordSum, pairSum]
  omega

theorem word_toNat (c d : UInt8) :
    ((c.toUInt32 <<< 8) ||| d.toUInt32).toNat = c.toNat * 256 + d.toNat := by
  have hc := c.toNat_lt
  have hd : d.toNat < 2 ^ 8 := d.toNat_lt
  have hshift : (c.toUInt32 <<< 8).toNat = c.toNat <<< 8 := by
    rw [UInt32.toNat_shiftLeft, UInt8.toNat_toUInt32]
    apply Nat.mod_eq_of_lt
    simp only [Nat.shiftLeft_eq]
    change c.toNat * 256 < 4294967296
    omega
  rw [UInt32.toNat_or, hshift, UInt8.toNat_toUInt32, ← Nat.shiftLeft_add_eq_or_of_lt hd,
    Nat.shiftLeft_eq]

theorem bytesAt_pair (b : Buf) (i k : Nat) :
    bytesAt b i (2 * (k + 1)) = b i :: b (i + 1) :: bytesAt b (i + 2) (2 * k) := by
  have hlen : 2 * (k + 1) = 2 + 2 * k := by omega
  rw [hlen, bytesAt_add]
  rfl

/-- As long as it fits, the sum of the first pairs is exact. -/
theorem sumPairs_toNat (hlen : i + 2 * k ≤ len)
    (h : s.toNat + wordSum (bytesAt b i (2 * k)) < 4294967296) :
    (sumPairs b len k i s).toNat = s.toNat + wordSum (bytesAt b i (2 * k)) := by
  induction k generalizing i s with
  | zero => simp [sumPairs, wordSum, bytesAt, pairSum]
  | succ k ih =>
    rw [bytesAt_pair] at h ⊢
    simp only [wordSum, List.map_cons, pairSum] at h ih ⊢
    have hadd : (s + (((b i).toUInt32 <<< 8) ||| (b (i + 1)).toUInt32)).toNat =
        s.toNat + ((b i).toNat * 256 + (b (i + 1)).toNat) := by
      rw [UInt32.toNat_add, word_toNat]
      omega
    rw [sumPairs, if_pos (by omega), ih (by omega) (by omega), hadd]
    omega

/-- The loop ends with the last pair. -/
theorem sumPairs_ended (hk : len ≤ i + 2 * k + 1) (j : Nat) :
    sumPairs b len (k + j) i s = sumPairs b len k i s := by
  induction k generalizing i s with
  | zero =>
    cases j with
    | zero => rfl
    | succ j =>
      simp only [sumPairs]
      rw [if_neg (by omega)]
  | succ k ih =>
    rw [Nat.add_right_comm]
    simp only [sumPairs]
    split
    · exact ih (by omega)
    · rfl

/-- Every intermediate sum is exact. -/
theorem sumPairs_exact (h : s.toNat + wordSum (bytesAt b 0 len) < 4294967296) (k : Nat) :
    (sumPairs b len k 0 s).toNat =
      s.toNat + wordSum (bytesAt b 0 (2 * min k (len / 2))) := by
  have hpart : ∀ j, 2 * j ≤ len → (sumPairs b len j 0 s).toNat =
      s.toNat + wordSum (bytesAt b 0 (2 * j)) := by
    intro j hj
    apply sumPairs_toNat (by omega)
    have hsplit : len = 2 * j + (len - 2 * j) := by omega
    rw [hsplit, bytesAt_add, wordSum_append (by simp [bytesAt_length])] at h
    omega
  rcases Nat.le_total k (len / 2) with hk | hk
  · rw [Nat.min_eq_left hk, hpart k (by omega)]
  · obtain ⟨j, rfl⟩ := Nat.exists_eq_add_of_le hk
    rw [Nat.min_eq_right hk, sumPairs_ended (by omega), hpart _ (by omega)]

theorem checksum32Add_exact (h : s.toNat + wordSum (bytesAt b 0 len) < 4294967296) :
    (checksum32Add s b len).toNat = s.toNat + wordSum (bytesAt b 0 len) := by
  have hpairs := sumPairs_exact h len
  rw [Nat.min_eq_right (by omega)] at hpairs
  rw [checksum32Add]
  by_cases hodd : len % 2 = 1
  · obtain ⟨k, rfl⟩ : ∃ k, len = 2 * k + 1 := ⟨len / 2, by omega⟩
    have hhalf : (2 * k + 1) / 2 = k := by omega
    have hword : ((b (2 * k)).toUInt32 <<< 8).toNat = (b (2 * k)).toNat * 256 := by
      simpa using word_toNat (b (2 * k)) 0
    have hlast : wordSum (bytesAt b 0 (2 * k + 1)) =
        wordSum (bytesAt b 0 (2 * k)) + (b (2 * k)).toNat * 256 := by
      rw [bytesAt_add, wordSum_append (by simp [bytesAt_length])]
      simp [wordSum, bytesAt, pairSum]
    rw [hhalf] at hpairs
    rw [if_pos hodd, Nat.add_sub_cancel, UInt32.toNat_add, hpairs, hword]
    rw [hlast] at h ⊢
    rw [Nat.mod_eq_of_lt (by omega)]
    omega
  · have heven : 2 * (len / 2) = len := by omega
    rw [if_neg hodd, hpairs, heven]

/-- Folding adds the carries back in. -/
theorem foldCarry_toNat (s : UInt32) : (foldCarry 2 s).toNat = endAround 65535 s.toNat := by
  have hkeep : ∀ n (s : UInt32),
      endAround 65535 (foldCarry n s).toNat = endAround 65535 s.toNat := by
    intro n
    induction n with
    | zero => exact fun s => rfl
    | succ n ih =>
      intro s
      rw [foldCarry]
      split
      · rw [ih, foldRound_toNat, endAround_round]
      · rfl
  have hword := (shift16_eq_zero _).mp (foldCarry_ended s)
  rw [← hkeep 2, endAround_word (by omega)]

theorem complement_toNat (s : UInt32) :
    (~~~foldCarry 2 s).toUInt16.toNat = 65535 - endAround 65535 s.toNat := by
  have hword := (shift16_eq_zero _).mp (foldCarry_ended s)
  have hsize : UInt32.size = 4294967296 := rfl
  rw [← foldCarry_toNat, UInt32.toNat_toUInt16, UInt32.toNat_not]
  omega

theorem bytes_wordSum_le (b : Buf) (off len : Nat) :
    wordSum (bytesAt b off len) ≤ (len + 1) / 2 * 65535 := by
  have h := wordSum_le (bytesAt b off len)
  rwa [bytesAt_length] at h

theorem checksum16_toNat (hlen : len ≤ 65535) :
    (checksum16 b len).toNat = 65535 - endAround 65535 (wordSum (bytesAt b 0 len)) := by
  have hle := bytes_wordSum_le b 0 len
  have hexact : (checksum32Add 0 b len).toNat = wordSum (bytesAt b 0 len) := by
    have hsum : (0 : UInt32).toNat + wordSum (bytesAt b 0 len) < 4294967296 := by
      simp
      omega
    simpa using checksum32Add_exact hsum
  rw [checksum16, complement_toNat, hexact]

/-- The pseudo header of a segment. -/
def pseudoHeader (srcIp dstIp : UInt32) (tcpLen : Nat) : List UInt8 :=
  be32 srcIp ++ be32 dstIp ++ [0, 6] ++ be16 (UInt16.ofNat tcpLen)

theorem pseudo_exact (srcIp dstIp : UInt32) (tcpLen : Nat) :
    (checksum32Add 0 (bufOf (pseudoHeader srcIp dstIp tcpLen)) 12).toNat =
      wordSum (pseudoHeader srcIp dstIp tcpLen) ∧
    wordSum (pseudoHeader srcIp dstIp tcpLen) ≤ 6 * 65535 := by
  have hle := wordSum_le (pseudoHeader srcIp dstIp tcpLen)
  have hbytes : bytesAt (bufOf (pseudoHeader srcIp dstIp tcpLen)) 0 12 =
      pseudoHeader srcIp dstIp tcpLen := bytesAt_bufOf (pseudoHeader srcIp dstIp tcpLen)
  have hlen : (pseudoHeader srcIp dstIp tcpLen).length = 12 := rfl
  rw [hlen] at hle
  refine ⟨?_, hle⟩
  rw [checksum32Add_exact (by rw [hbytes]; simp; omega), hbytes]
  simp

theorem tcpChecksum_toNat {srcIp dstIp : UInt32} (hlen : len ≤ 65535) :
    (tcpChecksum srcIp dstIp b len).toNat = 65535 -
      endAround 65535 (wordSum (pseudoHeader srcIp dstIp len) + wordSum (bytesAt b 0 len)) := by
  obtain ⟨hpseudo, hsmall⟩ := pseudo_exact srcIp dstIp len
  have hle := bytes_wordSum_le b 0 len
  simp only [tcpChecksum]
  rw [complement_toNat]
  change 65535 - endAround 65535
    (checksum32Add (checksum32Add 0 (bufOf (pseudoHeader srcIp dstIp len)) 12) b len).toNat = _
  rw [checksum32Add_exact (by rw [hpseudo]; omega), hpseudo]

/-- A word stored over a zero one. -/
theorem wordSum_putBytes (heven : off % 2 = 0) (hin : off + 2 ≤ len) (h0 : b off = 0)
    (h1 : b (off + 1) = 0) (w : UInt16) :
    wordSum (bytesAt (putBytes b off (be16 w)) 0 len) = wordSum (bytesAt b 0 len) + w.toNat := by
  obtain ⟨k, rfl⟩ := Nat.exists_eq_add_of_le hin
  have hl : (bytesAt b 0 off).length % 2 = 0 := by rwa [bytesAt_length]
  have hzero : bytesAt b off 2 = [0, 0] := by simp [bytesAt, List.range_succ, h0, h1]
  have hword : bytesAt (putBytes b off (be16 w)) off 2 = be16 w := bytesAt_putBytes b off (be16 w)
  have hlen : (be16 w).length = 2 := rfl
  simp only [bytesAt_add, Nat.zero_add, hzero, hword]
  rw [bytesAt_putBytes_apart (by omega), bytesAt_putBytes_apart (by omega), wordSum_field hl]

/-- The complement of a sum, added to it, leaves a checksum of zero. -/
theorem complement_verifies {x y : UInt16} {sum : Nat}
    (hx : x.toNat = 65535 - endAround 65535 sum)
    (hy : y.toNat = 65535 - endAround 65535 (sum + x.toNat)) : y = 0 := by
  have hall := endAround_complement (m := 65535) (s := sum) (by decide)
  rw [hx, hall] at hy
  exact UInt16.toNat_inj.mp (by simpa using hy)

theorem checksum16_verifies (hlen : len ≤ 65535) (heven : off % 2 = 0) (hin : off + 2 ≤ len)
    (h0 : b off = 0) (h1 : b (off + 1) = 0) :
    checksum16 (putBytes b off (be16 (checksum16 b len))) len = 0 := by
  refine complement_verifies (x := checksum16 b len) (checksum16_toNat hlen) ?_
  rw [checksum16_toNat hlen, wordSum_putBytes heven hin h0 h1]

theorem tcpChecksum_verifies (srcIp dstIp : UInt32) (hlen : len ≤ 65535) (heven : off % 2 = 0)
    (hin : off + 2 ≤ len) (h0 : b off = 0) (h1 : b (off + 1) = 0) :
    tcpChecksum srcIp dstIp (putBytes b off (be16 (tcpChecksum srcIp dstIp b len))) len = 0 := by
  refine complement_verifies (x := tcpChecksum srcIp dstIp b len) (tcpChecksum_toNat hlen) ?_
  rw [tcpChecksum_toNat hlen, wordSum_putBytes heven hin h0 h1, Nat.add_assoc]

/-- A checksum depends on the bytes it covers. -/
theorem checksum16_congr {c : Buf} (h : bytesAt b 0 len = bytesAt c 0 len) (hlen : len ≤ 65535) :
    checksum16 b len = checksum16 c len := by
  apply UInt16.toNat_inj.mp
  rw [checksum16_toNat hlen, checksum16_toNat hlen, h]

theorem tcpChecksum_congr {c : Buf} {srcIp dstIp : UInt32} (h : bytesAt b 0 len = bytesAt c 0 len)
    (hlen : len ≤ 65535) : tcpChecksum srcIp dstIp b len = tcpChecksum srcIp dstIp c len := by
  apply UInt16.toNat_inj.mp
  rw [tcpChecksum_toNat hlen, tcpChecksum_toNat hlen, h]

/-- The same where the word stands in a list. -/
theorem checksum16_list (heven : l.length % 2 = 0) (hlen : (l ++ be16 w ++ l').length ≤ 65535)
    (hw : w = checksum16 (bufOf (l ++ [0, 0] ++ l')) (l ++ be16 w ++ l').length) :
    checksum16 (bufOf (l ++ be16 w ++ l')) (l ++ be16 w ++ l').length = 0 := by
  have hsame : (l ++ be16 w ++ l').length = (l ++ [0, 0] ++ l').length := by simp [be16]
  have hword : w.toNat = 65535 - endAround 65535 (wordSum (l ++ [0, 0] ++ l')) := by
    rw [hsame] at hw hlen
    conv_lhs => rw [hw]
    rw [checksum16_toNat hlen, bytesAt_bufOf]
  apply complement_verifies hword
  rw [checksum16_toNat hlen, bytesAt_bufOf, wordSum_field heven]

theorem tcpChecksum_list {srcIp dstIp : UInt32} (heven : l.length % 2 = 0)
    (hlen : (l ++ be16 w ++ l').length ≤ 65535)
    (hw : w = tcpChecksum srcIp dstIp (bufOf (l ++ [0, 0] ++ l')) (l ++ be16 w ++ l').length) :
    tcpChecksum srcIp dstIp (bufOf (l ++ be16 w ++ l')) (l ++ be16 w ++ l').length = 0 := by
  have hsame : (l ++ be16 w ++ l').length = (l ++ [0, 0] ++ l').length := by simp [be16]
  have hword : w.toNat = 65535 - endAround 65535
      (wordSum (pseudoHeader srcIp dstIp (l ++ be16 w ++ l').length) +
        wordSum (l ++ [0, 0] ++ l')) := by
    conv_lhs => rw [hw]
    rw [tcpChecksum_toNat hlen, hsame, bytesAt_bufOf]
  apply complement_verifies hword
  rw [tcpChecksum_toNat hlen, bytesAt_bufOf, wordSum_field heven, Nat.add_assoc]

end Sums

section Fields

theorem rd16_toNat (b : Buf) (off : Nat) :
    (rd16 b off).toNat = (b off).toNat * 256 + (b (off + 1)).toNat := by
  have hc := (b off).toNat_lt
  have hd : (b (off + 1)).toNat < 2 ^ 8 := (b (off + 1)).toNat_lt
  have hshift : ((b off).toUInt16 <<< 8).toNat = (b off).toNat <<< 8 := by
    rw [UInt16.toNat_shiftLeft, UInt8.toNat_toUInt16]
    apply Nat.mod_eq_of_lt
    simp only [Nat.shiftLeft_eq]
    change (b off).toNat * 256 < 65536
    omega
  rw [rd16, UInt16.toNat_or, hshift, UInt8.toNat_toUInt16, ← Nat.shiftLeft_add_eq_or_of_lt hd,
    Nat.shiftLeft_eq]

/-- A field that was stored is read back. -/
theorem rd16_bytes {b : Buf} {off : Nat} {w : UInt16} (h : bytesAt b off 2 = be16 w) :
    rd16 b off = w := by
  obtain ⟨h0, h1⟩ : b off = (w >>> 8).toUInt8 ∧ b (off + 1) = w.toUInt8 := by
    simpa [bytesAt, be16, List.range_succ] using h
  have hlt := w.toNat_lt
  apply UInt16.toNat_inj.mp
  rw [rd16_toNat, h0, h1]
  simp [Nat.shiftRight_eq_div_pow]
  omega

theorem rd32_halves (b : Buf) (off : Nat) :
    (rd32 b off).toNat = (rd16 b off).toNat * 65536 + (rd16 b (off + 2)).toNat := by
  rw [rd16_toNat, rd16_toNat]
  have h0 := (b off).toNat_lt
  have h1 := (b (off + 1)).toNat_lt
  have h2 := (b (off + 2)).toNat_lt
  have h3 := (b (off + 3)).toNat_lt
  have hword := word_toNat (b (off + 2)) (b (off + 3))
  have hs1 : ((b off).toUInt32 <<< 24).toNat = (b off).toNat <<< 24 := by
    rw [UInt32.toNat_shiftLeft, UInt8.toNat_toUInt32]
    apply Nat.mod_eq_of_lt
    simp only [Nat.shiftLeft_eq]
    change (b off).toNat * 16777216 < 4294967296
    omega
  have hs2 : ((b (off + 1)).toUInt32 <<< 16).toNat = (b (off + 1)).toNat <<< 16 := by
    rw [UInt32.toNat_shiftLeft, UInt8.toNat_toUInt32]
    apply Nat.mod_eq_of_lt
    simp only [Nat.shiftLeft_eq]
    change (b (off + 1)).toNat * 65536 < 4294967296
    omega
  have hlow : (b (off + 1)).toNat <<< 16 < 2 ^ 24 := by
    rw [Nat.shiftLeft_eq]
    omega
  have hsmall : (b (off + 2)).toNat * 256 + (b (off + 3)).toNat < 2 ^ 16 := by omega
  rw [rd32, UInt32.or_assoc, UInt32.toNat_or, hword, UInt32.toNat_or, hs1, hs2,
    ← Nat.shiftLeft_add_eq_or_of_lt hlow, Nat.shiftLeft_eq, Nat.shiftLeft_eq]
  have hsum : (b off).toNat * 2 ^ 24 + (b (off + 1)).toNat * 2 ^ 16 =
      ((b off).toNat * 256 + (b (off + 1)).toNat) <<< 16 := by
    rw [Nat.shiftLeft_eq]
    omega
  rw [hsum, ← Nat.shiftLeft_add_eq_or_of_lt hsmall, Nat.shiftLeft_eq]

theorem rd32_bytes {b : Buf} {off : Nat} {w : UInt32} (h : bytesAt b off 4 = be32 w) :
    rd32 b off = w := by
  obtain ⟨h0, h1, h2, h3⟩ : b off = (w >>> 24).toUInt8 ∧ b (off + 1) = (w >>> 16).toUInt8 ∧
      b (off + 2) = (w >>> 8).toUInt8 ∧ b (off + 3) = w.toUInt8 := by
    simpa [bytesAt, be32, List.range_succ] using h
  have hlt := w.toNat_lt
  apply UInt32.toNat_inj.mp
  rw [rd32_halves, rd16_toNat, rd16_toNat, h0, h1, h2, h3]
  simp [Nat.shiftRight_eq_div_pow]
  omega

end Fields

end VertexOS
