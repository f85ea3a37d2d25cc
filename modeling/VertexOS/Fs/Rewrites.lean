import VertexOS.Fs.Faults
import VertexOS.Fs.FailedWrites
import VertexOS.Fs.Refusals

namespace VertexOS
open Library.BlockStore

/-- The sectors that the data loop still goes through from byte `copied` on. -/
def loopSectors (base copied len : Nat) : Nat :=
  if copied < len then (base + len - 1) / 512 - (base + copied) / 512 + 1 else 0

/-- The drive answers the `count` writes of a loop that reads before each; they are on the
device. -/
def TurnsAnswered (d : Drive) (first count : Nat) : Prop :=
  ∀ j < count, first + j < 65536 ∧ d.faults (d.accesses + 2 * j + 1) = false

/-- A whole file is written where none of its bytes is there: some data sector cannot be
written, or the old sectors cannot be copied. -/
def RewriteStops (s : SimpleFs) (n : Fin 64) (len : UInt32) : Prop :=
  CopyFails s n (needSectors 0 len) ∨
    ∃ j < (needSectors 0 len).toNat, 65536 ≤ (placedStart s n (needSectors 0 len)).toNat + j ∨
      s.dev.faults (placedAccess s n (needSectors 0 len) + 2 * j + 1) = true

/-- The drive answers the flush behind the data. -/
def RewriteCommits (s : SimpleFs) (n : Fin 64) (len : UInt32) : Prop :=
  ∀ k < 9, s.dev.faults (placedAccess s n (needSectors 0 len) +
    2 * (needSectors 0 len).toNat + k) = false

section Loop

variable {start offset len copied : UInt32} {d d' : Drive} {first count : Nat}

theorem turnsAnswered_succ (hf : d'.faults = d.faults) (ha : d'.accesses = d.accesses + 2) :
    TurnsAnswered d first (count + 1) ↔ (first < 65536 ∧ d.faults (d.accesses + 1) = false) ∧
      TurnsAnswered d' (first + 1) count := by
  rw [TurnsAnswered, Nat.forall_lt_succ_left]
  refine and_congr Iff.rfl (forall₂_congr fun j _ => ?_)
  have hplace : first + (j + 1) = first + 1 + j := by omega
  have haccess : d.accesses + 2 * (j + 1) + 1 = d'.accesses + 2 * j + 1 := by omega
  rw [hplace, haccess, hf]

/-- The data loop comes to its end exactly when its writes are answered. -/
theorem writeLoop_answered (data : Nat → UInt8) (d : Drive)
    (hwrap : offset.toNat + len.toNat < 4294967296)
    (hno : start.toNat + (offset.toNat + len.toNat) / 512 < 4294967296)
    (hcl : copied.toNat ≤ len.toNat) :
    ((writeLoop start offset data len d copied).2 = some len ↔
      TurnsAnswered d ((512 * start.toNat + offset.toNat + copied.toNat) / 512)
        (loopSectors (512 * start.toNat + offset.toNat) copied.toNat len.toNat)) ∧
    ((writeLoop start offset data len d copied).2 = some len →
      (writeLoop start offset data len d copied).1.accesses = d.accesses +
        2 * loopSectors (512 * start.toNat + offset.toNat) copied.toNat len.toNat) := by
  induction hm : len.toNat - copied.toNat using Nat.strongRecOn generalizing d copied with
  | ind m ih =>
    by_cases hlt : copied < len
    · have hltn := UInt32.lt_iff_toNat_lt.mp hlt
      have habs : offset.toNat + copied.toNat < 4294967296 := by omega
      obtain ⟨hq, -, -, hnext⟩ := turn_numbers hlt habs
      obtain ⟨d1, done, hturn, ht⟩ := dataTurn_turned start offset data len d copied
      have hlba : (start + (offset + copied) / 512).toNat =
          (512 * start.toNat + offset.toNat + copied.toNat) / 512 := by
        rw [UInt32.toNat_add, hq]
        omega
      rw [hlba] at ht
      rw [writeLoop_turn hlt, hturn]
      have hsectors : loopSectors (512 * start.toNat + offset.toNat) copied.toNat len.toNat =
          (512 * start.toNat + offset.toNat + len.toNat - 1) / 512 -
            (512 * start.toNat + offset.toNat + copied.toNat) / 512 + 1 := if_pos hltn
      cases done with
      | false =>
        have hstop := ht.done_iff.not.mp (by decide)
        refine ⟨iff_of_false (by simp) ?_, by simp⟩
        intro h
        exact hstop (h 0 (by omega))
      | true =>
        have hok := ht.done_iff.mp rfl
        have hacc := ht.accesses rfl
        dsimp only
        generalize copied + chunkAt (offset + copied) (len - copied) = copied' at hnext ⊢
        obtain ⟨hiff, hend⟩ := ih (len.toNat - copied'.toNat) (by omega) d1 (by omega) rfl
        have hrest : loopSectors (512 * start.toNat + offset.toNat) copied.toNat len.toNat =
              loopSectors (512 * start.toNat + offset.toNat) copied'.toNat len.toNat + 1 ∧
            (loopSectors (512 * start.toNat + offset.toNat) copied'.toNat len.toNat ≠ 0 →
              (512 * start.toNat + offset.toNat + copied'.toNat) / 512 =
                (512 * start.toNat + offset.toNat + copied.toNat) / 512 + 1) := by
          rw [hsectors, loopSectors]
          split <;> omega
        refine ⟨?_, fun h => by rw [hend h, hacc]; omega⟩
        rw [hrest.1, turnsAnswered_succ ht.faults hacc, hiff]
        by_cases hzero :
            loopSectors (512 * start.toNat + offset.toNat) copied'.toNat len.toNat = 0
        · rw [hzero]
          simp [TurnsAnswered, hok]
        · rw [hrest.2 hzero]
          exact ⟨fun h => ⟨hok, h⟩, fun h => h.2⟩
    · have hge := UInt32.le_iff_toNat_le.mp (UInt32.not_lt.mp hlt)
      obtain rfl : copied = len := UInt32.toNat_inj.mp (by omega)
      rw [writeLoop_end hlt, loopSectors, if_neg (Nat.lt_irrefl _)]
      simp [TurnsAnswered]

theorem loopSectors_whole (start : Nat) (len : Nat) :
    loopSectors (512 * start + 0) 0 len = (len + 511) / 512 := by
  rw [loopSectors]
  split <;> omega

end Loop

section Rewrite

variable {s s1 s' : SimpleFs} {n : Fin 64} {need len : UInt32} {data : Nat → UInt8}

theorem needSectors_whole (hwrap : len.toNat + 511 < 4294967296) :
    (needSectors 0 len).toNat = (len.toNat + 511) / 512 := by
  have hzero : (0 : UInt32).toNat = 0 := rfl
  rw [needSectors_toNat (by omega), hzero, Nat.zero_add]

theorem sfsReserve_size (s : SimpleFs) (n : Fin 64) (need : UInt32) :
    ((sfsReserve s n need).1.entries n).size = (s.entries n).size := by
  rcases sfsReserve_cases s n need with ⟨-, he⟩ | ⟨-, he⟩ | ⟨-, he⟩
  · rw [he, grow_self]
  · rw [he]
    cases relocateLoop (s.entries n).startLba s.super.nextFreeLba
        (s.entries n).capacitySectors.toNat s.dev 0 with
    | mk dev ok =>
      cases ok with
      | false => rfl
      | true => simp
  · rw [he]

/-- The data loop of a rewrite, once the file has its sectors. -/
theorem rewriteLoop (hx : ExtentCondition s.super s.entries) (hf : (s.entries n).IsFile)
    (hwrap : len.toNat + 511 < 4294967296)
    (hno : s.super.nextFreeLba.toNat + (needSectors 0 len).toNat < 4294967296)
    (hres : sfsReserve s n (needSectors 0 len) = (s1, true)) (data : Nat → UInt8) :
    ∃ d r stop, writeLoop (s1.entries n).startLba 0 data len s1.dev 0 = (d, r) ∧
      LoopRun (512 * (s1.entries n).startLba.toNat) len data s1.dev 0 d r stop ∧
      (r = some len ↔ ¬RewriteStops s n len) ∧
      (r = some len → d.accesses = placedAccess s n (needSectors 0 len) +
        2 * (needSectors 0 len).toNat ∧ d.faults = s.dev.faults) := by
  obtain ⟨hstart, -, hacc, hfaults⟩ := sfsReserve_place hres
  have hzero : (0 : UInt32).toNat = 0 := rfl
  have hneed := needSectors_whole hwrap
  have hnum := placedStart_numbers hx hf
    (show (0 : UInt32).toNat + len.toNat + 511 < 4294967296 by omega) hno
  rw [← hstart] at hnum
  have hcopied : ¬CopyFails s n (needSectors 0 len) := by
    rw [← sfsReserve_answered, hres]
  have hlow : (0 : UInt32).toNat ≤ len.toNat := Nat.zero_le _
  have hsum : (0 : UInt32).toNat + len.toNat < 4294967296 := by omega
  obtain ⟨d, r, stop, hloop, hrun⟩ := writeLoop_run data s1.dev hsum hnum hlow
  obtain ⟨hiff, hend⟩ := writeLoop_answered data s1.dev hsum hnum hlow
  have hfirst : (512 * (s1.entries n).startLba.toNat + 0 + 0) / 512 =
      (placedStart s n (needSectors 0 len)).toNat := by
    rw [hstart]
    omega
  rw [hloop, hzero, hfirst, loopSectors_whole, ← hneed] at hiff
  rw [hloop, hzero, loopSectors_whole, ← hneed, hacc] at hend
  refine ⟨d, r, stop, hloop, hrun, hiff.trans ?_, fun h => ⟨hend h, hrun.faults.trans hfaults⟩⟩
  simp only [RewriteStops, hcopied, false_or, TurnsAnswered, hacc, hfaults, not_exists, not_and,
    not_or, Nat.not_le, Bool.not_eq_true]

/-- The sectors of the data lie in the data area. -/
theorem rewrite_start (hx : Allocation s.super s.entries) (hf : (s.entries n).IsFile)
    (hwrap : len.toNat + 511 < 4294967296) (hres : sfsReserve s n (needSectors 0 len) = (s1, true))
    (hgo : ¬RewriteStops s n len) (hpos : 0 < len.toNat) : 137 ≤ (s1.entries n).startLba.toNat := by
  have hneed := needSectors_whole hwrap
  have hroom : Moves (s.entries n) (needSectors 0 len) →
      s.super.nextFreeLba.toNat + (needSectors 0 len).toNat ≤ 65536 := by
    intro hmoves
    by_contra hbig
    refine hgo (.inr ⟨(needSectors 0 len).toNat - 1, by omega, .inl ?_⟩)
    rw [placedStart, if_pos hmoves]
    omega
  obtain ⟨ws, hpl⟩ := sfsReserve_done hx hf hroom hres
  have hcap := hpl.reserved.capacity
  have hin : (s1.entries n).startLba.toNat ∈ (s1.entries n).extent := by
    rw [extent_of_file ((hpl.placed.isFile n).mpr hf) hpl.reserved.start, Set.mem_Ico]
    omega
  exact (hpl.reserved.allocation.bounds hin).1

/-- A data loop that comes to its end leaves the data, whatever becomes of the flush. -/
theorem rewrite_content {d : Drive} {stop : Nat}
    (hrun : LoopRun (512 * (s1.entries n).startLba.toNat) len data s1.dev 0 d (some len) stop)
    (hsize : (s1.entries n).size = 0)
    (hstart : 0 < len.toNat → 137 ≤ (s1.entries n).startLba.toNat)
    (hflush : sfsFlush { s1 with dev := d, entries := extendSize s1.entries n (0 + len) } =
      (s', ok)) : content s'.entries s'.dev.sectors n = dataBytes data len := by
  have hent := sfsFlush_entries
    { s1 with dev := d, entries := extendSize s1.entries n (0 + len) }
  have hdev := sfsFlush_confined
    { s1 with dev := d, entries := extendSize s1.entries n (0 + len) }
  rw [hflush] at hent hdev
  have hstop : stop = len.toNat := by
    rcases hrun.finished with ⟨-, he⟩ | ⟨hnone, -⟩
    · exact he
    · cases hnone
  have hself : s'.entries n = { s1.entries n with size := newSize 0 (0 + len) } := by
    rw [hent]
    dsimp only
    rw [extendSize_self, hsize]
  have hlen : (newSize 0 (0 + len)).toNat = len.toNat := by
    rw [newSize_toNat, UInt32.zero_add]
    exact Nat.zero_max _
  rw [content, hself, dataBytes]
  dsimp only
  rw [hlen]
  refine List.map_congr_left ?_
  intro k hk
  rw [List.mem_range] at hk
  have hin := hstart (Nat.zero_lt_of_lt hk)
  have hsame : byte s'.dev.sectors (512 * (s1.entries n).startLba.toNat + k) =
      byte d.sectors (512 * (s1.entries n).startLba.toNat + k) := by
    rw [byte, byte, hdev.sectors _ (by rw [Set.mem_Ico]; omega)]
  rw [hsame, hrun.bytes, loopByte, hstop, if_pos (by omega), Nat.add_sub_cancel_left]

/-- What writing a whole file comes to, on any drive: it stops and the file is empty, or the file
holds the data and the flush decides what is returned. -/
theorem sfsWrite_rewrites (hx : Allocation s.super s.entries) (hf : (s.entries n).IsFile)
    (hp : (s.entries n).perm &&& sfsPermWrite ≠ 0) (hsize : (s.entries n).size = 0)
    (hwrap : len.toNat + 511 < 4294967296)
    (hno : s.super.nextFreeLba.toNat + (needSectors 0 len).toNat < 4294967296)
    (data : Nat → UInt8) :
    (RewriteStops s n len ∧ ∃ s', sfsWrite s (slotId n) 0 data len = (s', none) ∧
      (s'.entries n).size = 0) ∨
    (¬RewriteStops s n len ∧ ∃ s' r, sfsWrite s (slotId n) 0 data len = (s', r) ∧
      (r = some len ∧ RewriteCommits s n len ∨ r = none ∧ ¬RewriteCommits s n len) ∧
      content s'.entries s'.dev.sectors n = dataBytes data len) := by
  have hfile := fileWith_slot s.entries n sfsPermWrite hf hp
  cases hres : sfsReserve s n (needSectors 0 len) with
  | mk s1 ok =>
    have hkept := sfsReserve_size s n (needSectors 0 len)
    rw [hres, hsize] at hkept
    have hcopied : ok = true ↔ ¬CopyFails s n (needSectors 0 len) := by
      rw [← sfsReserve_answered, hres]
    cases ok with
    | false =>
      have hstops : CopyFails s n (needSectors 0 len) := by
        by_contra h
        exact Bool.false_ne_true (hcopied.mpr h)
      exact .inl ⟨.inl hstops, s1, by simp only [sfsWrite, hfile, hres], hkept⟩
    | true =>
      obtain ⟨d, r, stop, hloop, hrun, hiff, hend⟩ :=
        rewriteLoop hx.toExtentCondition hf hwrap hno hres data
      rcases hrun.finished with ⟨rfl, hstop⟩ | ⟨rfl, hstop⟩
      · right
        have hgo := hiff.mp rfl
        refine ⟨hgo, ?_⟩
        obtain ⟨hacc, hfaults⟩ := hend rfl
        have hcommit : (sfsFlush { s1 with
            dev := d, entries := extendSize s1.entries n (0 + len) }).2 = true ↔
            RewriteCommits s n len := by
          rw [sfsFlush_answered, Drive.Answers, RewriteCommits, hfaults, hacc]
        cases hflush : sfsFlush { s1 with
            dev := d, entries := extendSize s1.entries n (0 + len) } with
        | mk s' done =>
          have hcontent := rewrite_content hrun hkept (rewrite_start hx hf hwrap hres hgo) hflush
          rw [hflush] at hcommit
          cases done with
          | false =>
            refine ⟨s', none, ?_, .inr ⟨rfl, fun h => ?_⟩, hcontent⟩
            · simp only [sfsWrite, hfile, hres, hloop, hflush]
            · exact Bool.false_ne_true (hcommit.mpr h)
          | true =>
            refine ⟨s', some len, ?_, .inl ⟨rfl, hcommit.mp rfl⟩, hcontent⟩
            simp only [sfsWrite, hfile, hres, hloop, hflush]
      · left
        have hstops : RewriteStops s n len := by
          by_contra h
          exact absurd (hiff.mpr h) (by simp)
        exact ⟨hstops, { s1 with dev := d }, by simp only [sfsWrite, hfile, hres, hloop], hkept⟩

end Rewrite

end VertexOS
