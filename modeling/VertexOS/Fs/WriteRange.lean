import VertexOS.Fs.FileContents
import VertexOS.Fs.Issued

namespace VertexOS
open Library.BlockStore

/-- The calls of `blockdev_write` that lead from `d` to `d'`. -/
def Drive.callsSince (d d' : Drive) : List (Write 512 × Bool) := d'.calls.drop d.calls.length

theorem callsSince_eq {d d' : Drive} (h : d'.calls = d.calls ++ xs) : d.callsSince d' = xs := by
  rw [Drive.callsSince, h, List.drop_left]

theorem Issued.callsSince {d d' : Drive} (h : Issued d xs d') : d.callsSince d' = xs :=
  callsSince_eq h.calls

/-- From a sector inside `cap` sectors the loop stays inside them, unless it has more data than
they hold and every write up to their end takes effect. -/
theorem writeLoop_inside {start offset len copied : UInt32} {d : Drive}
    {cap : Nat} (hlt : copied < len) (data : Nat → UInt8)
    (hwrap : offset.toNat + copied.toNat < 4294967296)
    (hno : start.toNat + (offset.toNat + copied.toNat) / 512 < 4294967296)
    (hin : (offset.toNat + copied.toNat) / 512 < cap) :
    ∃ xs, (writeLoop start offset data len d copied).1.calls = d.calls ++ xs ∧
      ((∀ x ∈ xs, x.1.block ∈ Set.Ico start.toNat (start.toNat + cap)) ↔
        offset.toNat + len.toNat ≤ 512 * cap ∨ 65536 < start.toNat + cap ∨
          ∃ t, t < cap - (offset.toNat + copied.toNat) / 512 ∧
            d.faults (d.accesses + 2 * t + 1) = true) := by
  induction hm : len.toNat - copied.toNat using Nat.strongRecOn generalizing d copied with
  | ind m ih =>
    have hltn := UInt32.lt_iff_toNat_lt.mp hlt
    obtain ⟨hq, -, -, hnext⟩ := turn_numbers hlt hwrap
    have hlba : (start + (offset + copied) / 512).toNat =
        start.toNat + (offset.toNat + copied.toNat) / 512 := by
      rw [UInt32.toNat_add, hq]
      omega
    obtain ⟨d1, done, hturn, ht⟩ := dataTurn_turned start offset data len d copied
    rw [hlba] at ht
    obtain ⟨sector, hcalls⟩ := ht.calls
    have hfirst : start.toNat + (offset.toNat + copied.toNat) / 512 ∈
        Set.Ico start.toNat (start.toNat + cap) := by
      rw [Set.mem_Ico]
      omega
    rw [writeLoop_turn hlt, hturn]
    cases done with
    | false =>
      refine ⟨_, hcalls, iff_of_true (fun x hx => ?_) (.inr ?_)⟩
      · rw [List.mem_singleton.mp hx]
        exact hfirst
      · have hstop := ht.done_iff.not.mp (by decide)
        by_cases hl : start.toNat + (offset.toNat + copied.toNat) / 512 < 65536
        · refine .inr ⟨0, by omega, ?_⟩
          rw [← Bool.not_eq_false]
          exact fun hf => hstop ⟨hl, hf⟩
        · exact .inl (by omega)
    | true =>
      obtain ⟨hl, hok⟩ := ht.done_iff.mp rfl
      have hacc := ht.accesses rfl
      dsimp only
      generalize copied + chunkAt (offset + copied) (len - copied) = copied' at hnext ⊢
      by_cases hmore : copied' < len
      · have hmoren := UInt32.lt_iff_toNat_lt.mp hmore
        have hpos : (offset.toNat + copied'.toNat) / 512 =
            (offset.toNat + copied.toNat) / 512 + 1 := by
          omega
        by_cases hcap : (offset.toNat + copied'.toNat) / 512 < cap
        · obtain ⟨xs, hxs, hiff⟩ := ih (len.toNat - copied'.toNat) (by omega) hmore
            (by omega) (by omega) hcap rfl
          refine ⟨(⟨_, sector⟩, true) :: xs, by rw [hxs, hcalls, List.append_assoc]; rfl, ?_⟩
          rw [List.forall_mem_cons, hiff, hacc, ht.faults]
          have hshift : (∃ t, t < cap - (offset.toNat + copied'.toNat) / 512 ∧
                d.faults (d.accesses + 2 + 2 * t + 1) = true) ↔
              ∃ t, t < cap - (offset.toNat + copied.toNat) / 512 ∧
                d.faults (d.accesses + 2 * t + 1) = true := by
            constructor
            · rintro ⟨t, htc, hf⟩
              refine ⟨t + 1, by omega, ?_⟩
              rwa [show d.accesses + 2 * (t + 1) + 1 = d.accesses + 2 + 2 * t + 1 by omega]
            · rintro ⟨t, htc, hf⟩
              cases t with
              | zero =>
                rw [Nat.mul_zero, Nat.add_zero, hok] at hf
                cases hf
              | succ t =>
                refine ⟨t, by omega, ?_⟩
                rwa [show d.accesses + 2 + 2 * t + 1 = d.accesses + 2 * (t + 1) + 1 by omega]
          rw [hshift]
          exact ⟨fun h => h.2, fun h => ⟨hfirst, h⟩⟩
        · -- the next turn writes the sector behind the last of the `cap`
          have hend : (offset.toNat + copied'.toNat) / 512 = cap := by
            omega
          have hwrap' : offset.toNat + copied'.toNat < 4294967296 := by
            omega
          obtain ⟨hq', -, -, -⟩ := turn_numbers hmore hwrap'
          obtain ⟨d2, done, hturn', ht'⟩ := dataTurn_turned start offset data len d1 copied'
          have hlba' : (start + (offset + copied') / 512).toNat = start.toNat + cap := by
            rw [UInt32.toNat_add, hq']
            omega
          rw [hlba'] at ht'
          obtain ⟨sector', hcalls'⟩ := ht'.calls
          obtain ⟨xs, hx, -⟩ := writeLoop_issued start offset data len d2
            (copied' + chunkAt (offset + copied') (len - copied'))
          have hout : ∃ ys, (writeLoop start offset data len d1 copied').1.calls =
              d1.calls ++ (⟨start.toNat + cap, sector'⟩, done) :: ys := by
            rw [writeLoop_turn hmore, hturn']
            cases done with
            | false => exact ⟨[], hcalls'⟩
            | true => exact ⟨xs, by rw [hx.calls, hcalls', List.append_assoc]; rfl⟩
          obtain ⟨ys, hys⟩ := hout
          refine ⟨_, by rw [hys, hcalls, List.append_assoc], iff_of_false ?_ ?_⟩
          · intro h
            have hbad := h (⟨start.toNat + cap, sector'⟩, done) (by simp)
            exact absurd (Set.mem_Ico.mp hbad).2 (Nat.lt_irrefl _)
          · rintro (hfit | hbig | ⟨t, htc, hf⟩)
            · omega
            · omega
            · obtain rfl : t = 0 := by omega
              rw [Nat.mul_zero, Nat.add_zero, hok] at hf
              cases hf
      · rw [writeLoop_end hmore]
        have hge := UInt32.le_iff_toNat_le.mp (UInt32.not_lt.mp hmore)
        refine ⟨_, hcalls, iff_of_true (fun x hx => ?_) (.inl (by omega))⟩
        rw [List.mem_singleton.mp hx]
        exact hfirst

/-- The loop's first call names the sector of the first byte. -/
theorem writeLoop_first (start offset : UInt32) {len : UInt32} (hlt : 0 < len) (data : Nat → UInt8)
    (d : Drive) : ∃ x ∈ d.callsSince (writeLoop start offset data len d 0).1,
      x.1.block = (start + offset / 512).toNat := by
  obtain ⟨xs, hx, -, hfirst⟩ := writeLoop_issued start offset data len d 0
  rw [UInt32.add_zero] at hfirst
  rw [hx.callsSince]
  exact hfirst hlt

/-- The copies of a relocation go to the new place. -/
theorem relocateLoop_inside (old new : UInt32) (count : Nat) (d : Drive) (i : UInt32)
    (hno : (new + i).toNat = new.toNat + i.toNat) : ∃ xs,
    (relocateLoop old new count d i).1.calls = d.calls ++ xs ∧
      ∀ x ∈ xs, x.1.block ∈ Set.Ico (new.toNat + i.toNat) (new.toNat + i.toNat + count) := by
  induction count generalizing d i with
  | zero => exact ⟨[], (List.append_nil _).symm, fun x hx => by cases hx⟩
  | succ count ih =>
    cases hr : blockdevRead d (old + i) with
    | mk d1 r =>
      obtain ⟨-, hc1, -⟩ := blockdevRead_frame hr
      simp only [relocateLoop, hr]
      cases r with
      | none => exact ⟨[], by rw [hc1, List.append_nil], fun x hx => by cases hx⟩
      | some tmp =>
        cases hw : blockdevWrite d1 (new + i) tmp with
        | mk d2 done =>
          have hc2 := (blockdevWrite_issued hw).calls
          rw [hc1] at hc2
          have hfirst : (new + i).toNat ∈
              Set.Ico (new.toNat + i.toNat) (new.toNat + i.toNat + (count + 1)) := by
            rw [Set.mem_Ico]
            omega
          simp only [hw]
          cases done with
          | false =>
            refine ⟨_, hc2, fun x hx => ?_⟩
            rw [List.mem_singleton.mp hx]
            exact hfirst
          | true =>
            have hbound := blockdevWrite_bound hw
            have hi : (i + 1).toNat = i.toNat + 1 := by
              rw [UInt32.toNat_add, show (1 : UInt32).toNat = 1 from rfl]
              omega
            obtain ⟨xs, hxs, hin⟩ := ih d2 (i + 1) (by rw [UInt32.toNat_add, hi]; omega)
            refine ⟨_, by rw [hxs, hc2, List.append_assoc], fun x hx => ?_⟩
            rcases List.mem_append.mp hx with hx | hx
            · rw [List.mem_singleton.mp hx]
              exact hfirst
            · have hx' := hin x hx
              rw [Set.mem_Ico] at hx' ⊢
              omega

/-- The first sector, the capacity and the place in the drive's schedule with which the data loop
starts. -/
def placedStart (s : SimpleFs) (n : Fin 64) (need : UInt32) : UInt32 :=
  if Moves (s.entries n) need then s.super.nextFreeLba else (s.entries n).startLba

def placedCapacity (s : SimpleFs) (n : Fin 64) (need : UInt32) : UInt32 :=
  if Moves (s.entries n) need then need else (s.entries n).capacitySectors

def placedAccess (s : SimpleFs) (n : Fin 64) (need : UInt32) : Nat :=
  s.dev.accesses +
    if Relocates (s.entries n) need then 2 * (s.entries n).capacitySectors.toNat else 0

/-- Some sector of the relocation cannot be copied. -/
def CopyFails (s : SimpleFs) (n : Fin 64) (need : UInt32) : Prop :=
  Relocates (s.entries n) need ∧ ∃ j, j < (s.entries n).capacitySectors.toNat ∧
    CopyStops (s.entries n).startLba s.super.nextFreeLba s.dev (UInt32.ofNat j) (2 * j)

section Reserve

variable {s s1 : SimpleFs} {n : Fin 64} {need : UInt32}

theorem sfsReserve_answered : (sfsReserve s n need).2 = true ↔ ¬CopyFails s n need := by
  rcases sfsReserve_cases s n need with ⟨h0, he⟩ | ⟨hr, he⟩ | ⟨hm, he⟩
  · rw [he]
    exact iff_of_true rfl fun h => h.1.1 h0
  · obtain ⟨hiff, -⟩ := relocateLoop_answered (s.entries n).startLba s.super.nextFreeLba
      (s.entries n).capacitySectors.toNat s.dev 0
    have hstops : (∀ j, j < (s.entries n).capacitySectors.toNat → ¬CopyStops (s.entries n).startLba
        s.super.nextFreeLba s.dev (0 + UInt32.ofNat j) (2 * j)) ↔ ¬CopyFails s n need := by
      simp only [UInt32.zero_add, CopyFails, hr, true_and, not_exists, not_and]
    rw [he, ← hstops, ← hiff]
    cases relocateLoop (s.entries n).startLba s.super.nextFreeLba
        (s.entries n).capacitySectors.toNat s.dev 0 with
    | mk dev ok => cases ok <;> rfl
  · rw [he]
    exact iff_of_true rfl fun h => hm (.inr h.1.2)

/-- What the data loop starts with. -/
theorem sfsReserve_place (h : sfsReserve s n need = (s1, true)) :
    (s1.entries n).startLba = placedStart s n need ∧
      (s1.entries n).capacitySectors = placedCapacity s n need ∧
      s1.dev.accesses = placedAccess s n need ∧ s1.dev.faults = s.dev.faults := by
  unfold placedStart placedCapacity placedAccess
  rcases sfsReserve_cases s n need with ⟨h0, he⟩ | ⟨hr, he⟩ | ⟨hm, he⟩
  · rw [he] at h
    cases h
    have hno : ¬Relocates (s.entries n) need := fun hr => hr.1 h0
    rw [if_pos (.inl h0), if_pos (.inl h0), if_neg hno, grow_self]
    exact ⟨rfl, rfl, rfl, rfl⟩
  · obtain ⟨-, hacc⟩ := relocateLoop_answered (s.entries n).startLba s.super.nextFreeLba
      (s.entries n).capacitySectors.toNat s.dev 0
    obtain ⟨xs, hx, -⟩ := relocateLoop_issued (s.entries n).startLba s.super.nextFreeLba
      (s.entries n).capacitySectors.toNat s.dev 0
    rw [he] at h
    rw [if_pos (.inr hr.2), if_pos (.inr hr.2), if_pos hr]
    cases hl : relocateLoop (s.entries n).startLba s.super.nextFreeLba
        (s.entries n).capacitySectors.toNat s.dev 0 with
    | mk dev ok =>
      rw [hl] at h hacc hx
      cases ok with
      | false => cases h
      | true =>
        cases h
        rw [grow_self]
        exact ⟨rfl, rfl, hacc rfl, hx.faults⟩
  · rw [he] at h
    cases h
    have hno : ¬Relocates (s.entries n) need := fun hr => hm (.inr hr.2)
    rw [if_neg hm, if_neg hm, if_neg hno]
    exact ⟨rfl, rfl, rfl, rfl⟩

/-- The copies of a relocation lie in the sectors that the file is given. -/
theorem sfsReserve_inside : ∀ x ∈ s.dev.callsSince (sfsReserve s n need).1.dev,
    x.1.block ∈ Set.Ico s.super.nextFreeLba.toNat (s.super.nextFreeLba.toNat + need.toNat) := by
  have hnone : s.dev.callsSince s.dev = [] := List.drop_length
  rcases sfsReserve_cases s n need with ⟨-, he⟩ | ⟨hr, he⟩ | ⟨-, he⟩
  · rw [he, grow_dev, hnone]
    exact fun x hx => by cases hx
  · obtain ⟨xs, hxs, hin⟩ := relocateLoop_inside (s.entries n).startLba s.super.nextFreeLba
      (s.entries n).capacitySectors.toNat s.dev 0 (by rw [UInt32.add_zero]; rfl)
    have hdev : (sfsReserve s n need).1.dev = (relocateLoop (s.entries n).startLba
        s.super.nextFreeLba (s.entries n).capacitySectors.toNat s.dev 0).1 := by
      rw [he]
      cases relocateLoop (s.entries n).startLba s.super.nextFreeLba
          (s.entries n).capacitySectors.toNat s.dev 0 with
      | mk dev ok => cases ok <;> rfl
    rw [hdev, callsSince_eq hxs]
    have hcap := UInt32.lt_iff_toNat_lt.mp hr.2
    intro x hx
    have hx' := hin x hx
    rw [Set.mem_Ico] at hx' ⊢
    rw [show (0 : UInt32).toNat = 0 from rfl] at hx'
    omega
  · rw [he, hnone]
    exact fun x hx => by cases hx

end Reserve

/-- The sector writes of `sfs_write` before its flush: the copies lie in the sectors the file is
given, and the data in those it has while the data loop runs. -/
structure WritesInside (s : SimpleFs) (nodeId offset : UInt32) (data : Nat → UInt8)
    (len : UInt32) : Prop where
  copies : ∀ n, fileWith s.entries nodeId sfsPermWrite = some n →
    ∀ x ∈ s.dev.callsSince (sfsReserve s n (needSectors offset len)).1.dev,
      x.1.block ∈ Set.Ico s.super.nextFreeLba.toNat
        (s.super.nextFreeLba.toNat + (needSectors offset len).toNat)
  data : ∀ n s1, fileWith s.entries nodeId sfsPermWrite = some n →
    sfsReserve s n (needSectors offset len) = (s1, true) →
    ∀ x ∈ s1.dev.callsSince (writeLoop (s1.entries n).startLba offset data len s1.dev 0).1,
      x.1.block ∈ Set.Ico (s1.entries n).startLba.toNat
        ((s1.entries n).startLba.toNat + (s1.entries n).capacitySectors.toNat)

/-- The first data sector lies in the extent, and the loop has no more data than the extent holds
or is stopped before it leaves. -/
def RangeKept (s : SimpleFs) (n : Fin 64) (offset len : UInt32) : Prop :=
  let need := needSectors offset len
  let start := (placedStart s n need).toNat
  let capacity := (placedCapacity s n need).toNat
  let first := offset.toNat / 512
  first < capacity ∧ start + first < 4294967296 ∧
    (offset.toNat + len.toNat ≤ 512 * capacity ∨ 65536 < start + capacity ∨
      ∃ t, t < capacity - first ∧ s.dev.faults (placedAccess s n need + 2 * t + 1) = true)

/-- The data loop stays inside `capacity` sectors exactly under that condition. -/
theorem writeLoop_inside_iff {start offset len : UInt32} (hlt : 0 < len) (data : Nat → UInt8)
    (d : Drive) (capacity : Nat) :
    (∀ x ∈ d.callsSince (writeLoop start offset data len d 0).1,
        x.1.block ∈ Set.Ico start.toNat (start.toNat + capacity)) ↔
      offset.toNat / 512 < capacity ∧ start.toNat + offset.toNat / 512 < 4294967296 ∧
        (offset.toNat + len.toNat ≤ 512 * capacity ∨ 65536 < start.toNat + capacity ∨
          ∃ t, t < capacity - offset.toNat / 512 ∧ d.faults (d.accesses + 2 * t + 1) = true) := by
  have hz : (0 : UInt32).toNat = 0 := rfl
  have hoff := offset.toNat_lt
  by_cases hin : offset.toNat / 512 < capacity ∧ start.toNat + offset.toNat / 512 < 4294967296
  · have hwrap : offset.toNat + (0 : UInt32).toNat < 4294967296 := hoff
    have hno : start.toNat + (offset.toNat + (0 : UInt32).toNat) / 512 < 4294967296 := hin.2
    have hcap : (offset.toNat + (0 : UInt32).toNat) / 512 < capacity := hin.1
    obtain ⟨xs, hxs, hiff⟩ := writeLoop_inside (d := d) hlt data hwrap hno hcap
    rw [callsSince_eq hxs, hiff, hz, Nat.add_zero]
    exact ⟨fun h => ⟨hin.1, hin.2, h⟩, fun h => h.2.2⟩
  · refine iff_of_false (fun h => ?_) fun h => hin ⟨h.1, h.2.1⟩
    obtain ⟨x, hx, hblock⟩ := writeLoop_first start offset hlt data d
    have hlow := h x hx
    rw [hblock, Set.mem_Ico, UInt32.toNat_add, UInt32.toNat_div,
      show (512 : UInt32).toNat = 512 from rfl] at hlow
    omega

/-- All writes of `sfs_write` stay inside the file's sectors exactly when it is refused, cannot
relocate, has no data, or keeps to the extent. -/
theorem sfs_write_inside_iff (s : SimpleFs) (nodeId offset : UInt32) (data : Nat → UInt8)
    (len : UInt32) :
    WritesInside s nodeId offset data len ↔
      ∀ n, fileWith s.entries nodeId sfsPermWrite = some n →
        CopyFails s n (needSectors offset len) ∨ len = 0 ∨ RangeKept s n offset len := by
  have hloop : ∀ n s1, sfsReserve s n (needSectors offset len) = (s1, true) → 0 < len →
      ((∀ x ∈ s1.dev.callsSince (writeLoop (s1.entries n).startLba offset data len s1.dev 0).1,
        x.1.block ∈ Set.Ico (s1.entries n).startLba.toNat
          ((s1.entries n).startLba.toNat + (s1.entries n).capacitySectors.toNat)) ↔
        RangeKept s n offset len) := by
    intro n s1 hres hlen
    obtain ⟨hstart, hcap, hacc, hf⟩ := sfsReserve_place hres
    rw [writeLoop_inside_iff hlen, hstart, hcap, hacc, hf]
    rfl
  constructor
  · rintro ⟨-, hdata⟩ n hfile
    by_cases hfail : CopyFails s n (needSectors offset len)
    · exact .inl hfail
    · by_cases hlen : len = 0
      · exact .inr (.inl hlen)
      · have hres : sfsReserve s n (needSectors offset len) =
            ((sfsReserve s n (needSectors offset len)).1, true) :=
          Prod.ext rfl (sfsReserve_answered.mpr hfail)
        have hpos : 0 < len := UInt32.pos_iff_ne_zero.mpr hlen
        exact .inr (.inr ((hloop n _ hres hpos).mp (hdata n _ hfile hres)))
  · intro h
    refine ⟨fun n hfile => sfsReserve_inside, fun n s1 hfile hres => ?_⟩
    rcases h n hfile with hfail | rfl | hkept
    · have hok := sfsReserve_answered.mp (congrArg Prod.snd hres)
      exact absurd hfail hok
    · rw [writeLoop_end (by decide), Drive.callsSince, List.drop_length]
      exact fun x hx => by cases hx
    · by_cases hlen : len = 0
      · subst hlen
        rw [writeLoop_end (by decide), Drive.callsSince, List.drop_length]
        exact fun x hx => by cases hx
      · exact (hloop n s1 hres (UInt32.pos_iff_ne_zero.mpr hlen)).mpr hkept

/-- A volume with one file of one sector, on a drive that refuses its access 3. -/
def shortFile : SimpleFs :=
  let s := oneFile (fun _ _ => 65) 137 3 1 138
  { s with dev := { s.dev with faults := fun k => k == 3 } }

/-- The rounded length wraps to no sector at all, and the loop goes on behind the file's one. -/
theorem sfs_write_leaves_extent : ExtentCondition shortFile.super shortFile.entries ∧
    (shortFile.entries 1).startLba = 137 ∧ (shortFile.entries 1).capacitySectors = 1 ∧
    ¬WritesInside shortFile 1 0 (fun _ => 66) 4294966785 := by
  refine ⟨oneFile_condition (fun _ _ => 65) (fun _ => ⟨by decide, by decide⟩) (by decide), rfl, rfl,
    fun h => ?_⟩
  have hfile : fileWith shortFile.entries 1 sfsPermWrite = some 1 := by
    decide +kernel
  have hneed : ¬Moves (shortFile.entries 1) (needSectors 0 4294966785) := by
    decide +kernel
  have hres : sfsReserve shortFile 1 (needSectors 0 4294966785) = (shortFile, true) := by
    rcases sfsReserve_cases shortFile 1 (needSectors 0 4294966785) with
      ⟨h0, -⟩ | ⟨hr, -⟩ | ⟨-, he⟩
    · exact absurd (.inl h0) hneed
    · exact absurd (.inr hr.2) hneed
    · exact he
  have hcall : (shortFile.dev.callsSince
      (writeLoop 137 0 (fun _ => 66) 4294966785 shortFile.dev 0).1).any
      (fun x => x.1.block == 138) = true := by
    decide +kernel
  obtain ⟨x, hx, hblock⟩ := List.any_eq_true.mp hcall
  have hin := h.data 1 shortFile hfile hres x hx
  rw [show x.1.block = 138 from by simpa using hblock] at hin
  exact absurd hin.2 (by decide +kernel)

end VertexOS
