import VertexOS.Fs.FlakyWrites
import VertexOS.Fs.Rewrites

namespace VertexOS
open Library.BlockStore

/-- The sectors that file `m` needs with `len` bytes more. -/
def appendNeed (s : SimpleFs) (m : Fin 64) (len : UInt32) : UInt32 :=
  needSectors (s.entries m).size len

/-- The sector that the end of file `m` lies in, once the file has its sectors. -/
def appendSector (s : SimpleFs) (m : Fin 64) (len : UInt32) : Nat :=
  (placedStart s m (appendNeed s m len)).toNat + (s.entries m).size.toNat / 512

/-- A few bytes more cannot be written: the old sectors cannot be copied, the new end lies behind
the device, or the drive refuses the data or the flush. -/
def AppendStops (s : SimpleFs) (m : Fin 64) (len : UInt32) : Prop :=
  CopyFails s m (appendNeed s m len) ∨ 65536 ≤ appendSector s m len ∨
    s.dev.faults (placedAccess s m (appendNeed s m len) + 1) = true ∨
    ∃ k < 9, s.dev.faults (placedAccess s m (appendNeed s m len) + 2 + k) = true

/-- What an append leaves of a file whose last sector it could not read. -/
def lastSectorLost (old : List UInt8) : List UInt8 :=
  old.take (512 * (old.length / 512)) ++ List.replicate (old.length % 512) 0

/-- An append that stays within one sector. -/
structure Appendable (s : SimpleFs) (m : Fin 64) (len : UInt32) : Prop where
  allocation : Allocation s.super s.entries
  file : (s.entries m).IsFile
  writable : (s.entries m).perm &&& sfsPermWrite ≠ 0
  nonempty : 0 < len.toNat
  few : len.toNat ≤ 128
  sector : (s.entries m).size.toNat % 512 + len.toNat ≤ 512
  small : (s.entries m).size.toNat < 512 * 65536

/-- The other files are as they were. -/
structure Beside (s : SimpleFs) (m : Fin 64) (s' : SimpleFs) : Prop where
  entry : ∀ k, k ≠ m → s'.entries k = s.entries k
  content : ∀ k, k ≠ m → (s.entries k).IsFile →
    content s'.entries s'.dev.sectors k = VertexOS.content s.entries s.dev.sectors k

/-- An append that was carried out. -/
structure AppendDone (s : SimpleFs) (m : Fin 64) (data : Nat → UInt8) (len : UInt32)
    (s' : SimpleFs) : Prop where
  allocation : Allocation s'.super s'.entries
  faults : s'.dev.faults = s.dev.faults
  accesses : s'.dev.accesses = placedAccess s m (appendNeed s m len) + 11
  front : s'.super.nextFreeLba = if Moves (s.entries m) (appendNeed s m len) then
    s.super.nextFreeLba + appendNeed s m len else s.super.nextFreeLba
  self : s'.entries m = { s.entries m with
    startLba := placedStart s m (appendNeed s m len)
    capacitySectors := placedCapacity s m (appendNeed s m len)
    size := (s.entries m).size + len }
  bytes : content s'.entries s'.dev.sectors m =
    (if s.dev.faults (placedAccess s m (appendNeed s m len)) then
      lastSectorLost (content s.entries s.dev.sectors m)
    else content s.entries s.dev.sectors m) ++ dataBytes data len

theorem lastSectorLost_length (old : List UInt8) :
    (lastSectorLost old).length = old.length := by
  simp only [lastSectorLost, List.length_append, List.length_take, List.length_replicate]
  omega

theorem lastSectorLost_getElem {old : List UInt8} (hn : old.length = n)
    (hj : j < (lastSectorLost old).length) (hj' : j < old.length) :
    (lastSectorLost old)[j] = if 512 * (n / 512) ≤ j then 0 else old[j] := by
  subst hn
  have htake : (old.take (512 * (old.length / 512))).length = 512 * (old.length / 512) := by
    rw [List.length_take]
    omega
  simp only [lastSectorLost]
  by_cases hlow : j < 512 * (old.length / 512)
  · rw [List.getElem_append_left (by omega), List.getElem_take, if_neg (by omega)]
  · rw [List.getElem_append_right (by omega), List.getElem_replicate, if_pos (by omega)]

section Append

variable {s s1 s' : SimpleFs} {m k : Fin 64} {len : UInt32} {data : Nat → UInt8}

theorem Appendable.wrap (h : Appendable s m len) :
    (s.entries m).size.toNat + len.toNat + 511 < 4294967296 := by
  have hfew := h.few
  have hsmall := h.small
  omega

theorem Appendable.need (h : Appendable s m len) :
    (appendNeed s m len).toNat = (s.entries m).size.toNat / 512 + 1 := by
  have hneed : (appendNeed s m len).toNat = _ := needSectors_toNat h.wrap
  have hsome := h.nonempty
  have hsector := h.sector
  omega

theorem Appendable.newSize (h : Appendable s m len) :
    ((s.entries m).size + len).toNat = (s.entries m).size.toNat + len.toNat := by
  have hwrap := h.wrap
  rw [UInt32.toNat_add]
  omega

theorem Appendable.fileWith (h : Appendable s m len) :
    VertexOS.fileWith s.entries (slotId m) sfsPermWrite = some m :=
  fileWith_slot s.entries m sfsPermWrite h.file h.writable

/-- The sector of the end lies in the extent that the file keeps, or at the free end. -/
theorem Appendable.kept_sector (h : Appendable s m len)
    (hm : ¬Moves (s.entries m) (appendNeed s m len)) : (s.entries m).startLba ≠ 0 ∧
    appendSector s m len = (s.entries m).startLba.toNat + (s.entries m).size.toNat / 512 ∧
    appendSector s m len <
      (s.entries m).startLba.toNat + (s.entries m).capacitySectors.toNat := by
  obtain ⟨hs, hcap⟩ := not_or.mp hm
  have hcap := UInt32.le_iff_toNat_le.mp (UInt32.not_lt.mp hcap)
  have hneed := h.need
  have hsector : appendSector s m len =
      (s.entries m).startLba.toNat + (s.entries m).size.toNat / 512 := by
    rw [appendSector, placedStart, if_neg hm]
  exact ⟨hs, hsector, by omega⟩

theorem Appendable.moved_sector (hm : Moves (s.entries m) (appendNeed s m len)) :
    appendSector s m len = s.super.nextFreeLba.toNat + (s.entries m).size.toNat / 512 := by
  rw [appendSector, placedStart, if_pos hm]

/-- An append that has copied the old sectors does not leave the address space. -/
theorem Appendable.numbers (h : Appendable s m len)
    (hcopy : ¬CopyFails s m (appendNeed s m len)) :
    (placedStart s m (appendNeed s m len)).toNat +
      ((s.entries m).size.toNat + len.toNat) / 512 < 4294967296 := by
  have hneed := h.need
  have hsome := h.nonempty
  have hfew := h.few
  have hsector := h.sector
  have hsmall := h.small
  have hfront := s.super.nextFreeLba.toNat_lt
  have hfits := h.allocation.fits m h.file
  by_cases hm : Moves (s.entries m) (appendNeed s m len)
  · rw [placedStart, if_pos hm]
    by_cases hempty : (s.entries m).size.toNat = 0
    · omega
    · -- a file that holds bytes is copied, so the free end lies on the device
      have hs : (s.entries m).startLba ≠ 0 := by
        intro h0
        apply hempty
        rw [h.allocation.unallocated m h.file h0]
        rfl
      have hlow : s.super.nextFreeLba.toNat < 65536 := by
        by_contra hbig
        refine hcopy ⟨⟨hs, hm.resolve_left hs⟩, 0, by omega, .inr (.inl ?_)⟩
        rw [show UInt32.ofNat 0 = 0 from rfl, UInt32.add_zero]
        omega
      omega
  · obtain ⟨hs, hplace, hlt⟩ := h.kept_sector hm
    rw [placedStart, if_neg hm]
    rcases h.allocation.below h.file hs with h0 | hend
    · omega
    · omega

/-- No byte of another file lies in the sector of the end. -/
theorem Appendable.apart (h : Appendable s m len) (hk : k ≠ m) (hfk : (s.entries k).IsFile)
    (hj : j < (s.entries k).size.toNat) :
    (512 * (s.entries k).startLba.toNat + j) / 512 ≠ appendSector s m len := by
  have hbound := h.allocation.bounds (h.allocation.stored h.allocation.unallocated hfk hj)
  by_cases hm : Moves (s.entries m) (appendNeed s m len)
  · rw [Appendable.moved_sector hm]
    omega
  · obtain ⟨hs, hplace, hlt⟩ := h.kept_sector hm
    rcases h.allocation.apart h.allocation.unallocated h.file hs hk hfk hj with hlow | hhigh
    · omega
    · omega

theorem sfsReserve_other (s : SimpleFs) (m : Fin 64) (need : UInt32) (hk : k ≠ m) :
    (sfsReserve s m need).1.entries k = s.entries k := by
  rcases sfsReserve_cases s m need with ⟨-, he⟩ | ⟨-, he⟩ | ⟨-, he⟩
  · rw [he]
    exact grow_other s need hk
  · rw [he]
    cases relocateLoop (s.entries m).startLba s.super.nextFreeLba
        (s.entries m).capacitySectors.toNat s.dev 0 with
    | mk dev ok =>
      cases ok with
      | false => rfl
      | true => exact grow_other { s with dev } need hk
  · rw [he]

/-- A data loop at the end of the file leaves every other sector alone. -/
theorem LoopRun.sector_only {base stop : Nat} {d d' : Drive} {r : Option UInt32}
    (h : LoopRun base len data d 0 d' r stop) (hsector : base % 512 + len.toNat ≤ 512)
    (ha : a / 512 ≠ base / 512) : byte d'.sectors a = byte d.sectors a := by
  have hhigh := h.high
  rw [h.bytes, loopByte, if_neg (by omega), if_neg (by omega)]

/-- The reservation and the data loop of an append. -/
structure AppendLoop (s : SimpleFs) (m : Fin 64) (data : Nat → UInt8) (len : UInt32)
    (s1 : SimpleFs) (d : Drive) (r : Option UInt32) : Prop where
  reserved : sfsReserve s m (appendNeed s m len) = (s1, true)
  loop : writeLoop (s1.entries m).startLba (s.entries m).size data len s1.dev 0 = (d, r)
  stop : ∃ stop, LoopRun (512 * (s1.entries m).startLba.toNat + (s.entries m).size.toNat) len data
    s1.dev 0 d r stop
  done_iff : r = some len ↔ appendSector s m len < 65536 ∧
    s.dev.faults (placedAccess s m (appendNeed s m len) + 1) = false
  stopped : r ≠ some len → r = none
  faults : d.faults = s.dev.faults
  accesses : r = some len → d.accesses = placedAccess s m (appendNeed s m len) + 2

theorem Appendable.loop (h : Appendable s m len)
    (hres : sfsReserve s m (appendNeed s m len) = (s1, true)) (data : Nat → UInt8) :
    ∃ d r, AppendLoop s m data len s1 d r := by
  have hcopy : ¬CopyFails s m (appendNeed s m len) := by
    rw [← sfsReserve_answered, hres]
  obtain ⟨hstart, -, hacc, hfaults⟩ := sfsReserve_place hres
  have hnum := h.numbers hcopy
  rw [← hstart] at hnum
  have hwrap : (s.entries m).size.toNat + len.toNat < 4294967296 := by
    have := h.wrap
    omega
  have hlow : (0 : UInt32).toNat ≤ len.toNat := Nat.zero_le _
  obtain ⟨d, r, stop, hloop, hrun⟩ := writeLoop_run data s1.dev hwrap hnum hlow
  obtain ⟨hiff, hend⟩ := writeLoop_answered data s1.dev hwrap hnum hlow
  have hsector := h.sector
  have hsome := h.nonempty
  have hzero : (0 : UInt32).toNat = 0 := rfl
  have hone : loopSectors (512 * (s1.entries m).startLba.toNat + (s.entries m).size.toNat) 0
      len.toNat = 1 := by
    rw [loopSectors, if_pos hsome]
    omega
  have hfirst : (512 * (s1.entries m).startLba.toNat + (s.entries m).size.toNat + 0) / 512 =
      appendSector s m len := by
    rw [appendSector, ← hstart]
    omega
  rw [hloop, hzero, hfirst, hone] at hiff
  rw [hloop, hzero, hone, hacc] at hend
  refine ⟨d, r, hres, hloop, ⟨stop, hrun⟩, hiff.trans ?_, ?_, hrun.faults.trans hfaults, hend⟩
  · simp only [TurnsAnswered, Nat.lt_one_iff, forall_eq, Nat.add_zero, Nat.mul_zero, hacc, hfaults]
  · intro hne
    rcases hrun.finished with ⟨hr, -⟩ | ⟨hr, -⟩
    · exact absurd hr hne
    · exact hr

/-- Up to the flush, an append changes no byte of another file. -/
theorem Appendable.beside_loop (h : Appendable s m len) {d : Drive} {r : Option UInt32}
    (hl : AppendLoop s m data len s1 d r) (hk : k ≠ m) (hfk : (s.entries k).IsFile)
    (hj : j < (s.entries k).size.toNat) :
    byte d.sectors (512 * (s.entries k).startLba.toNat + j) =
      byte s.dev.sectors (512 * (s.entries k).startLba.toNat + j) := by
  obtain ⟨stop, hrun⟩ := hl.stop
  have hstart := (sfsReserve_place hl.reserved).1
  have hsector := h.sector
  have hapart := Appendable.apart h hk hfk hj
  have hbound := h.allocation.bounds (h.allocation.stored h.allocation.unallocated hfk hj)
  have hlow := sfsReserve_low s m (appendNeed s m len) hbound.2
  rw [hl.reserved] at hlow
  rw [hrun.sector_only (by omega), hlow]
  rw [appendSector, ← hstart] at hapart
  omega

/-- With the data written, what the flush leaves. -/
structure AppendFlushed (s : SimpleFs) (m : Fin 64) (len : UInt32) (s1 : SimpleFs) (d : Drive)
    (s' : SimpleFs) (done : Bool) : Prop where
  flush : sfsFlush { s1 with
    dev := d, entries := extendSize s1.entries m ((s.entries m).size + len) } = (s', done)

section Flushed

variable {d : Drive} {done : Bool}

theorem AppendFlushed.entries (hfl : AppendFlushed s m len s1 d s' done) :
    s'.entries = extendSize s1.entries m ((s.entries m).size + len) := by
  have hent := sfsFlush_entries { s1 with
    dev := d, entries := extendSize s1.entries m ((s.entries m).size + len) }
  rw [hfl.flush] at hent
  exact hent

theorem AppendFlushed.super (hfl : AppendFlushed s m len s1 d s' done) : s'.super = s1.super := by
  have hsup := sfsFlush_super { s1 with
    dev := d, entries := extendSize s1.entries m ((s.entries m).size + len) }
  rw [hfl.flush] at hsup
  exact hsup

theorem AppendFlushed.confined (hfl : AppendFlushed s m len s1 d s' done) :
    Confined (Set.Ico 128 137) d s'.dev := by
  have hdev := sfsFlush_confined { s1 with
    dev := d, entries := extendSize s1.entries m ((s.entries m).size + len) }
  rw [hfl.flush] at hdev
  exact hdev

theorem AppendFlushed.beside (hfl : AppendFlushed s m len s1 d s' done) (h : Appendable s m len)
    {r : Option UInt32} (hl : AppendLoop s m data len s1 d r) : Beside s m s' := by
  have hentry : ∀ k, k ≠ m → s'.entries k = s.entries k := by
    intro k hk
    have hent := sfsReserve_other s m (appendNeed s m len) hk
    rw [hl.reserved] at hent
    rw [hfl.entries, extendSize_other _ _ hk]
    exact hent
  refine ⟨hentry, fun k hk hfk => ?_⟩
  rw [content_kept (hentry k hk)]
  intro j hj
  have hbound := h.allocation.bounds (h.allocation.stored h.allocation.unallocated hfk hj)
  have hsame : byte s'.dev.sectors (512 * (s.entries k).startLba.toNat + j) =
      byte d.sectors (512 * (s.entries k).startLba.toNat + j) := by
    rw [byte, byte, hfl.confined.sectors _ (by rw [Set.mem_Ico]; omega)]
  rw [hsame, h.beside_loop hl hk hfk hj]

theorem AppendFlushed.done_iff (hfl : AppendFlushed s m len s1 d s' done)
    (hl : AppendLoop s m data len s1 d (some len)) : done = true ↔
    ∀ k < 9, s.dev.faults (placedAccess s m (appendNeed s m len) + 2 + k) = false := by
  have hanswered := sfsFlush_answered { s1 with
    dev := d, entries := extendSize s1.entries m ((s.entries m).size + len) }
  rw [hfl.flush, Drive.Answers, hl.accesses rfl, hl.faults] at hanswered
  exact hanswered

end Flushed

/-- A byte of the old file that the append could not read stands in its last sector. -/
theorem Appendable.unread_iff (h : Appendable s m len) (hj : j < (s.entries m).size.toNat) :
    Unread s m (s.entries m).size len j ↔ 512 * ((s.entries m).size.toNat / 512) ≤ j ∧
      s.dev.faults (placedAccess s m (appendNeed s m len)) = true := by
  have hsome := h.nonempty
  constructor
  · rintro ⟨-, -, hlow, -, hfault⟩
    have hplace : j / 512 - (s.entries m).size.toNat / 512 = 0 := by omega
    rw [hplace] at hfault
    exact ⟨by omega, hfault⟩
  · rintro ⟨hlow, hfault⟩
    have hplace : j / 512 - (s.entries m).size.toNat / 512 = 0 := by omega
    refine ⟨by omega, hsome, by omega, by omega, ?_⟩
    rw [hplace]
    exact hfault

/-- The bytes of a file after an append that was carried out. -/
theorem WriteDone.appended {ws : List (Write 512)}
    (hw : WriteDone s m (s.entries m).size data len s1 ws s') (h : Appendable s m len)
    (hself : (s'.entries m).size = (s.entries m).size + len) :
    content s'.entries s'.dev.sectors m =
      (if s.dev.faults (placedAccess s m (appendNeed s m len)) then
        lastSectorLost (content s.entries s.dev.sectors m)
      else content s.entries s.dev.sectors m) ++ dataBytes data len := by
  have hlen := content_length s.entries s.dev.sectors m
  have hnew := h.newSize
  have hdata : (dataBytes data len).length = len.toNat := by simp [dataBytes]
  have hold : (if s.dev.faults (placedAccess s m (appendNeed s m len)) then
      lastSectorLost (content s.entries s.dev.sectors m)
      else content s.entries s.dev.sectors m).length = (s.entries m).size.toNat := by
    split
    · rw [lastSectorLost_length, hlen]
    · exact hlen
  apply List.ext_getElem
  · rw [content_length, hself, hnew, List.length_append, hdata, hold]
  · intro j hj hj'
    rw [content_length, hself, hnew] at hj
    have hbyte := hw.byte_self (k := j) h.file h.wrap (by omega)
    have hget : (content s'.entries s'.dev.sectors m)[j] =
        byte s'.dev.sectors (512 * (s'.entries m).startLba.toNat + j) := by simp [content]
    rw [hget, hbyte]
    by_cases hin : j < (s.entries m).size.toNat
    · rw [if_neg (by omega), List.getElem_append_left (by omega)]
      by_cases hfault : s.dev.faults (placedAccess s m (appendNeed s m len)) = true
      · simp only [h.unread_iff hin, hfault, if_true, and_true]
        rw [lastSectorLost_getElem hlen _ (by omega)]
        simp [content]
      · simp [h.unread_iff hin, hfault, content]
    · rw [if_pos (by omega), List.getElem_append_right (by omega)]
      simp [dataBytes, hold]

theorem AppendFlushed.appended {d : Drive} (hfl : AppendFlushed s m len s1 d s' true)
    (h : Appendable s m len) (hl : AppendLoop s m data len s1 d (some len))
    (hrun : sfsWrite s (slotId m) (s.entries m).size data len = (s', some len)) :
    AppendDone s m data len s' := by
  have hneed := h.need
  have hsector := (hl.done_iff.mp rfl).1
  have hroom : Moves (s.entries m) (appendNeed s m len) →
      s.super.nextFreeLba.toNat + (appendNeed s m len).toNat ≤ 65536 := by
    intro hm
    rw [Appendable.moved_sector hm] at hsector
    omega
  obtain ⟨ws, hpl⟩ := sfsReserve_done h.allocation h.file hroom hl.reserved
  obtain ⟨hstart, hcap, -, -⟩ := sfsReserve_place hl.reserved
  have hnew := h.newSize
  have hgrown : newSize (s.entries m).size ((s.entries m).size + len) =
      (s.entries m).size + len := by
    apply UInt32.toNat_inj.mp
    rw [newSize_toNat, hnew]
    omega
  have hself : s'.entries m = { s.entries m with
      startLba := placedStart s m (appendNeed s m len)
      capacitySectors := placedCapacity s m (appendNeed s m len)
      size := (s.entries m).size + len } := by
    rw [hfl.entries, extendSize_self, hpl.placed.self, hstart, hcap, hgrown]
  refine ⟨?_, hfl.confined.faults.trans hl.faults, ?_, ?_, hself, ?_⟩
  · rw [hfl.super, hfl.entries]
    unfold extendSize
    split
    · have hcapacity := hpl.reserved.capacity
      have hfile := (hpl.placed.isFile m).mpr h.file
      refine hpl.reserved.allocation.shrink ?_ (fun _ => ?_)
        (fun _ h0 => absurd h0 hpl.reserved.start)
      · exact (extent_congr Iff.rfl rfl rfl).le
      · have hfits := h.sector
        simp only [hnew]
        omega
    · exact hpl.reserved.allocation
  · rw [sfsFlush_accesses hfl.flush, hl.accesses rfl]
  · rw [hfl.super]
    rcases sfsReserve_taken hl.reserved with ⟨hm, hfree⟩ | ⟨hm, rfl⟩
    · rw [if_pos hm, hfree]
    · rw [if_neg hm]
  · obtain ⟨s2, ws2, hw⟩ := sfsWrite_done h.allocation h.fileWith h.wrap hroom hrun
    exact hw.appended h (by rw [hself])

/-- What an append comes to, on any drive. -/
theorem sfsWrite_append (h : Appendable s m len) (data : Nat → UInt8) :
    (AppendStops s m len ∧ ∃ s',
      sfsWrite s (slotId m) (s.entries m).size data len = (s', none) ∧ Beside s m s') ∨
    (¬AppendStops s m len ∧ ∃ s',
      sfsWrite s (slotId m) (s.entries m).size data len = (s', some len) ∧ Beside s m s' ∧
      AppendDone s m data len s') := by
  have hfile := h.fileWith
  cases hres : sfsReserve s m (appendNeed s m len) with
  | mk s1 ok =>
    have hother : ∀ k, k ≠ m → s1.entries k = s.entries k := by
      intro k hk
      have hent := sfsReserve_other s m (appendNeed s m len) hk
      rw [hres] at hent
      exact hent
    have hcopied : ok = true ↔ ¬CopyFails s m (appendNeed s m len) := by
      rw [← sfsReserve_answered, hres]
    cases ok with
    | false =>
      have hstops : CopyFails s m (appendNeed s m len) := by
        by_contra hno
        exact Bool.false_ne_true (hcopied.mpr hno)
      refine .inl ⟨.inl hstops, s1, ?_, hother, fun k hk hfk => ?_⟩
      · simp only [sfsWrite, hfile]
        rw [← appendNeed, hres]
      · rw [content_kept (hother k hk)]
        intro j hj
        have hlow := sfsReserve_low s m (appendNeed s m len) (h.allocation.bounds
          (h.allocation.stored h.allocation.unallocated hfk hj)).2
        rw [hres] at hlow
        exact hlow
    | true =>
      obtain ⟨d, r, hl⟩ := h.loop hres data
      by_cases hr : r = some len
      · subst hr
        obtain ⟨hsector, hfault⟩ := hl.done_iff.mp rfl
        cases hflush : sfsFlush { s1 with
            dev := d, entries := extendSize s1.entries m ((s.entries m).size + len) } with
        | mk s' done =>
          have hfl : AppendFlushed s m len s1 d s' done := ⟨hflush⟩
          have hdone := hfl.done_iff hl
          cases done with
          | false =>
            refine .inl ⟨?_, s', ?_, hfl.beside h hl⟩
            · right; right; right
              simpa using hdone
            · simp only [sfsWrite, hfile]
              rw [← appendNeed, hres]
              simp only [hl.loop, hflush]
          | true =>
            have hrun : sfsWrite s (slotId m) (s.entries m).size data len = (s', some len) := by
              simp only [sfsWrite, hfile]
              rw [← appendNeed, hres]
              simp only [hl.loop, hflush]
            refine .inr ⟨?_, s', hrun, hfl.beside h hl, ?_⟩
            · rintro (hc | hs | hf | ⟨k, hk, hf⟩)
              · exact hcopied.mp rfl hc
              · omega
              · rw [hfault] at hf
                cases hf
              · rw [hdone.mp rfl k hk] at hf
                cases hf
            · exact hfl.appended h hl hrun
      · obtain rfl := hl.stopped hr
        refine .inl ⟨?_, { s1 with dev := d }, ?_, hother, fun k hk hfk => ?_⟩
        · have hno := hl.done_iff.not.mp hr
          by_cases hsector : appendSector s m len < 65536
          · right; right; left
            simpa [hsector] using hno
          · exact .inr (.inl (Nat.le_of_not_lt hsector))
        · simp only [sfsWrite, hfile]
          rw [← appendNeed, hres]
          simp only [hl.loop]
        · exact (content_kept (hother k hk)).mpr fun j hj => h.beside_loop hl hk hfk hj

end Append

end VertexOS
