import VertexOS.Fs.WriteRange

namespace VertexOS
open Library.BlockStore

/-- A write reported successful: the placement `s1`, the bytes after the data loop, and the
metadata that was flushed. -/
structure WriteDone (s : SimpleFs) (n : Fin 64) (offset : UInt32) (data : Nat → UInt8)
    (len : UInt32) (s1 : SimpleFs) (ws : List (Write 512)) (s' : SimpleFs) : Prop where
  placed : Placed s n (needSectors offset len) s1 ws
  reserved : Reserved s1 n (needSectors offset len)
  bytes : ∀ a, 137 ≤ a / 512 → byte s'.dev.sectors a =
    loopByte s.dev.faults data (byte s1.dev.sectors)
      (512 * (s1.entries n).startLba.toNat + offset.toNat) (placedAccess s n (needSectors offset len))
      0 len.toNat a
  entries : s'.entries = extendSize s1.entries n (offset + len)

/-- The data loop of a placed file does not leave the address space. -/
theorem Reserved.numbers (h : Reserved s n (needSectors offset len)) (hf : (s.entries n).IsFile)
    (hwrap : offset.toNat + len.toNat + 511 < 4294967296) :
    (s.entries n).startLba.toNat + (offset.toNat + len.toNat) / 512 < 4294967296 := by
  have hneed := needSectors_toNat hwrap
  have hcap := h.capacity
  have hstart := (s.entries n).startLba.toNat_lt
  have hfree := s.super.nextFreeLba.toNat_lt
  rcases h.allocation.below hf h.start with h0 | hend
  · omega
  · omega

theorem sfsWrite_done (hx : Allocation s.super s.entries)
    (hfile : fileWith s.entries nodeId sfsPermWrite = some n)
    (hwrap : offset.toNat + len.toNat + 511 < 4294967296)
    (hroom : Moves (s.entries n) (needSectors offset len) →
      s.super.nextFreeLba.toNat + (needSectors offset len).toNat ≤ 65536)
    (h : sfsWrite s nodeId offset data len = (s', some written)) :
    ∃ s1 ws, WriteDone s n offset data len s1 ws s' := by
  have hf := (fileWith_some hfile).1
  cases hres : sfsReserve s n (needSectors offset len) with
  | mk s1 ok =>
    simp only [sfsWrite, hfile, hres] at h
    cases ok with
    | false => cases h
    | true =>
      obtain ⟨ws, hpl, hhas, -⟩ := sfsReserve_done hx hf hroom hres
      obtain ⟨-, -, hacc, hfaults⟩ := sfsReserve_place hres
      have hwrap' : offset.toNat + len.toNat < 4294967296 := by
        omega
      have hno := hhas.numbers ((hpl.isFile n).mpr hf) hwrap
      have hzero : (0 : UInt32).toNat ≤ len.toNat := Nat.zero_le _
      obtain ⟨d, r, stop, hloop, hrun⟩ := writeLoop_run data s1.dev hwrap' hno hzero
      dsimp only at h
      rw [hloop] at h
      cases r with
      | none => cases h
      | some count =>
        dsimp only at h
        cases hflush : sfsFlush
            { s1 with dev := d, entries := extendSize s1.entries n (offset + len) } with
        | mk s2 done =>
          rw [hflush] at h
          cases done with
          | false => cases h
          | true =>
            cases h
            obtain ⟨-, hent, hw⟩ := sfsFlush_done hflush
            refine ⟨s1, ws, hpl, hhas, fun a ha => ?_, hent⟩
            have hstop : stop = len.toNat := by
              rcases hrun.finished with ⟨-, he⟩ | ⟨hnone, -⟩
              · exact he
              · cases hnone
            rw [hw.sectors, byte_flushed ha, hrun.bytes, hfaults, hacc, hstop]
            rfl

section WriteDone

variable {s s1 s' : SimpleFs} {n : Fin 64} {offset len : UInt32} {data : Nat → UInt8}
  {ws : List (Write 512)}

theorem WriteDone.other (h : WriteDone s n offset data len s1 ws s') (hm : m ≠ n) :
    s'.entries m = s.entries m := by
  rw [h.entries, extendSize_other _ _ hm, h.placed.other hm]

theorem WriteDone.self (h : WriteDone s n offset data len s1 ws s') :
    s'.entries n = { s1.entries n with size := newSize (s.entries n).size (offset + len) } := by
  rw [h.entries, extendSize_self, h.placed.size]

/-- No other file loses a byte, whatever the drive refuses. -/
theorem WriteDone.content_other (h : WriteDone s n offset data len s1 ws s')
    (hx : Allocation s.super s.entries) (hf : (s.entries n).IsFile)
    (hwrap : offset.toNat + len.toNat + 511 < 4294967296) (hm : m ≠ n)
    (hfm : (s.entries m).IsFile) :
    content s'.entries s'.dev.sectors m = content s.entries s.dev.sectors m := by
  have hneed := needSectors_toNat hwrap
  obtain ⟨hx1, hstart, hcap⟩ := h.reserved
  unfold content
  rw [h.other hm]
  apply List.map_congr_left
  intro k hk
  rw [List.mem_range] at hk
  have hsm : (s.entries m).startLba ≠ 0 := by
    intro h0
    rw [hx.unallocated m hfm h0] at hk
    exact absurd hk (by simp)
  have hin := hx.mem_extent hfm hsm hk
  have hb := hx.bounds hin
  have hout : (512 * (s.entries m).startLba.toNat + k) / 512 ∉ (s1.entries n).extent := by
    have hdis := hx1.packed.disjoint m n hm
    simp only [h.placed.other hm] at hdis
    exact Set.disjoint_left.mp hdis hin
  rw [extent_of_file ((h.placed.isFile n).mpr hf) hstart, Set.mem_Ico] at hout
  rw [h.bytes _ hb.1, loopByte, if_neg (by omega), if_neg (by omega), h.placed.low hb.2]

end WriteDone

/-- Byte `k` lies in a sector that the write overwrites in part and the drive refuses to read. -/
def Unread (s : SimpleFs) (n : Fin 64) (offset len : UInt32) (k : Nat) : Prop :=
  ¬(offset.toNat ≤ k ∧ k < offset.toNat + len.toNat) ∧ 0 < len.toNat ∧
    offset.toNat / 512 ≤ k / 512 ∧ 512 * (k / 512) < offset.toNat + len.toNat ∧
    s.dev.faults (placedAccess s n (needSectors offset len) +
      2 * (k / 512 - offset.toNat / 512)) = true

instance (s : SimpleFs) (n : Fin 64) (offset len : UInt32) (k : Nat) :
    Decidable (Unread s n offset len k) := inferInstanceAs (Decidable (_ ∧ _))

/-- Byte `k` of the written file: the data, zero where the old byte could not be read, or the old
byte. -/
theorem WriteDone.byte_self {s s1 s' : SimpleFs} {n : Fin 64} {offset len : UInt32}
    {data : Nat → UInt8} {ws : List (Write 512)} (h : WriteDone s n offset data len s1 ws s')
    (hf : (s.entries n).IsFile) (hwrap : offset.toNat + len.toNat + 511 < 4294967296)
    (hk : k < (s.entries n).size.toNat ∨ offset.toNat ≤ k ∧ k < offset.toNat + len.toNat) :
    byte s'.dev.sectors (512 * (s'.entries n).startLba.toNat + k) =
      if offset.toNat ≤ k ∧ k < offset.toNat + len.toNat then data (k - offset.toNat)
      else if Unread s n offset len k then 0
      else byte s.dev.sectors (512 * (s.entries n).startLba.toNat + k) := by
  have hneed := needSectors_toNat hwrap
  obtain ⟨hx1, hstart, hcap⟩ := h.reserved
  have hf1 := (h.placed.isFile n).mpr hf
  have hfit := hx1.fits n hf1
  rw [h.placed.size] at hfit
  have hmem : (512 * (s1.entries n).startLba.toNat + k) / 512 ∈ (s1.entries n).extent := by
    rw [extent_of_file hf1 hstart, Set.mem_Ico]
    omega
  have hst : (s'.entries n).startLba = (s1.entries n).startLba := by
    rw [h.self]
  rw [hst, h.bytes _ (hx1.bounds hmem).1, loopByte]
  by_cases hin : offset.toNat ≤ k ∧ k < offset.toNat + len.toNat
  · rw [if_pos (by omega), if_pos hin]
    exact congrArg data (by omega)
  · have hold : k < (s.entries n).size.toNat := by
      omega
    have hplace : (512 * (s1.entries n).startLba.toNat + k) / 512 -
        (512 * (s1.entries n).startLba.toNat + offset.toNat + 0) / 512 =
        k / 512 - offset.toNat / 512 := by
      omega
    rw [if_neg (by omega), if_neg hin, hplace, h.placed.copied hold]
    apply if_congr _ rfl rfl
    constructor
    · rintro ⟨hpos, hlow, hhigh, hfault⟩
      exact ⟨hin, hpos, by omega, by omega, hfault⟩
    · rintro ⟨-, hpos, hlow, hhigh, hfault⟩
      exact ⟨hpos, by omega, by omega, hfault⟩

/-- A write reported successful alters only the requested bytes exactly when every byte beside them
that the drive refuses to read is zero already. -/
theorem sfs_write_alters_only_iff (s s' : SimpleFs) (n : Fin 64) (nodeId offset len written : UInt32)
    (data : Nat → UInt8) (hx : Allocation s.super s.entries)
    (hfile : fileWith s.entries nodeId sfsPermWrite = some n)
    (hoff : offset.toNat ≤ (s.entries n).size.toNat)
    (hwrap : offset.toNat + len.toNat + 511 < 4294967296)
    (hroom : Moves (s.entries n) (needSectors offset len) →
      s.super.nextFreeLba.toNat + (needSectors offset len).toNat ≤ 65536)
    (h : sfsWrite s nodeId offset data len = (s', some written)) :
    (content s'.entries s'.dev.sectors n =
        (content s.entries s.dev.sectors n).take offset.toNat ++ dataBytes data len ++
          (content s.entries s.dev.sectors n).drop (offset.toNat + len.toNat) ∧
      ∀ m, m ≠ n → (s.entries m).IsFile →
        content s'.entries s'.dev.sectors m = content s.entries s.dev.sectors m) ↔
    ∀ k, k < (s.entries n).size.toNat → Unread s n offset len k →
      byte s.dev.sectors (512 * (s.entries n).startLba.toNat + k) = 0 := by
  have hf := (fileWith_some hfile).1
  obtain ⟨s1, ws, hdone⟩ := sfsWrite_done hx hfile hwrap hroom h
  have hother : ∀ m, m ≠ n → (s.entries m).IsFile →
      content s'.entries s'.dev.sectors m = content s.entries s.dev.sectors m :=
    fun m hm hfm => hdone.content_other hx hf hwrap hm hfm
  have hsize : (s'.entries n).size.toNat =
      max (s.entries n).size.toNat (offset.toNat + len.toNat) := by
    have hsum : (offset + len).toNat = offset.toNat + len.toNat := by
      rw [UInt32.toNat_add]
      omega
    rw [hdone.self]
    simp only [newSize_toNat, hsum]
  rw [and_iff_left hother, content_overlaid hoff hsize]
  constructor
  · intro hbytes k hk hun
    have hself := hdone.byte_self hf hwrap (.inl hk)
    rw [hbytes k (by omega), if_neg hun.1, if_neg hun.1, if_pos hun] at hself
    exact hself
  · intro hzero k hk
    have hwhere : k < (s.entries n).size.toNat ∨
        offset.toNat ≤ k ∧ k < offset.toNat + len.toNat := by
      omega
    rw [hdone.byte_self hf hwrap hwhere]
    by_cases hin : offset.toNat ≤ k ∧ k < offset.toNat + len.toNat
    · rw [if_pos hin, if_pos hin]
    · rw [if_neg hin, if_neg hin]
      by_cases hun : Unread s n offset len k
      · rw [if_pos hun, hzero k (by omega) hun]
      · rw [if_neg hun]

/-- A write to the middle of a file whose drive refuses nothing. -/
theorem sfs_write_alters_only_middle :
    let s := oneFile (fun _ _ => 65) 137 3 1 138
    content (sfsWrite s 1 1 (fun _ => 66) 1).1.entries
        (sfsWrite s 1 1 (fun _ => 66) 1).1.dev.sectors 1 =
      (content s.entries s.dev.sectors 1).take 1 ++ dataBytes (fun _ => 66) 1 ++
        (content s.entries s.dev.sectors 1).drop 2 := by
  have hrun : sfsWrite (oneFile (fun _ _ => 65) 137 3 1 138) 1 1 (fun _ => 66) 1 =
      ((sfsWrite (oneFile (fun _ _ => 65) 137 3 1 138) 1 1 (fun _ => 66) 1).1, some 1) :=
    Prod.ext rfl (by decide +kernel)
  have hiff := sfs_write_alters_only_iff (oneFile (fun _ _ => 65) 137 3 1 138) _ 1 1 1 1 1
    (fun _ => 66) (oneFile_allocation _ (by decide) (by decide) (by decide)) (by decide +kernel)
    (by decide) (by decide) (fun hm => absurd hm (by decide +kernel)) hrun
  exact (hiff.mpr fun k hk hun => absurd hun.2.2.2.2 Bool.false_ne_true).1

/-- A file of three bytes on a drive that refuses its first access. -/
def unreadFile : SimpleFs :=
  let s := oneFile (fun _ _ => 65) 137 3 1 138
  { s with dev := { s.dev with faults := fun k => k == 0 } }

/-- The write reports success and zeroes the bytes beside its own. -/
theorem sfs_write_zeroes_beside :
    let s' := (sfsWrite unreadFile 1 1 (fun _ => 66) 1).1
    Allocation unreadFile.super unreadFile.entries ∧
      (sfsWrite unreadFile 1 1 (fun _ => 66) 1).2 = some 1 ∧
      content s'.entries s'.dev.sectors 1 = [0, 66, 0] ∧
      (content unreadFile.entries unreadFile.dev.sectors 1).take 1 ++ dataBytes (fun _ => 66) 1 ++
        (content unreadFile.entries unreadFile.dev.sectors 1).drop 2 = [65, 66, 65] := by
  refine ⟨oneFile_allocation (fun _ _ => 65) (by decide) (by decide) (by decide), ?_, ?_, ?_⟩
  · decide +kernel
  · decide +kernel
  · decide +kernel

end VertexOS
