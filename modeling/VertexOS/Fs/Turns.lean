import VertexOS.Fs.Transfer

namespace VertexOS
open Library.BlockStore

/-- Inside the range of the block layer the drive's schedule decides a read. -/
theorem blockdevRead_scheduled (d : Drive) (hl : lba.toNat < 65536) :
    ∃ d', blockdevRead d lba =
        (d', if d.faults d.accesses then none else some (d.sectors lba.toNat)) ∧
      d'.sectors = d.sectors ∧ d'.calls = d.calls ∧ d'.faults = d.faults ∧
      d'.accesses = d.accesses + 1 := by
  have hn : ¬lba ≥ sectorCount := by
    simp only [ge_iff_le, UInt32.le_iff_toNat_le, sectorCount_toNat]
    omega
  unfold blockdevRead ataReadSector
  rw [if_neg hn]
  cases hf : d.faults d.accesses with
  | true => exact ⟨_, rfl, rfl, rfl, rfl, rfl⟩
  | false => exact ⟨_, rfl, rfl, rfl, rfl, rfl⟩

theorem blockdevRead_range (d : Drive) (hl : 65536 ≤ lba.toNat) : blockdevRead d lba = (d, none) := by
  have hn : lba ≥ sectorCount := by
    simp only [ge_iff_le, UInt32.le_iff_toNat_le, sectorCount_toNat]
    exact hl
  rw [blockdevRead, if_pos hn]

theorem blockdevWrite_scheduled (d : Drive) (hl : lba.toNat < 65536) (b : Sector) :
    ∃ d', blockdevWrite d lba b = (d', !d.faults d.accesses) ∧ d'.faults = d.faults ∧
      d'.accesses = d.accesses + 1 ∧
      d'.sectors = if d.faults d.accesses then d.sectors else perform d.sectors ⟨lba.toNat, b⟩ := by
  have hn : ¬lba ≥ sectorCount := by
    simp only [ge_iff_le, UInt32.le_iff_toNat_le, sectorCount_toNat]
    omega
  unfold blockdevWrite ataWriteSector
  rw [if_neg hn]
  cases hf : d.faults d.accesses with
  | true => exact ⟨_, rfl, rfl, rfl, rfl⟩
  | false => exact ⟨_, rfl, rfl, rfl, rfl⟩

/-- One turn of the data loop of `sfs_write`. -/
def dataTurn (start offset : UInt32) (data : Nat → UInt8) (len : UInt32) (d : Drive)
    (copied : UInt32) : Drive × Bool :=
  let absOff := offset + copied
  let lba := start + absOff / 512
  let (d, r) := blockdevRead d lba
  blockdevWrite d lba (overlay (r.getD fun _ => 0) (absOff % 512).toNat
    (chunkAt absOff (len - copied)).toNat data copied.toNat)

theorem writeLoop_turn (h : copied < len) : writeLoop start offset data len d copied =
    match dataTurn start offset data len d copied with
    | (d, false) => (d, none)
    | (d, true) => writeLoop start offset data len d
        (copied + chunkAt (offset + copied) (len - copied)) := by
  rw [writeLoop, dif_pos h]
  rfl

theorem writeLoop_end (h : ¬copied < len) :
    writeLoop start offset data len d copied = (d, some copied) := by
  rw [writeLoop, dif_neg h]

/-- What a turn at sector `l` does, over bytes `[i, i + c)` with the data from `k` on: it takes a
sector that cannot be read for zeros, and stops the loop if its write fails. -/
structure Turned (d : Drive) (l i c : Nat) (data : Nat → UInt8) (k : Nat) (d' : Drive)
    (done : Bool) : Prop where
  faults : d'.faults = d.faults
  calls : ∃ sector, d'.calls = d.calls ++ [(⟨l, sector⟩, done)]
  done_iff : done = true ↔ l < 65536 ∧ d.faults (d.accesses + 1) = false
  accesses : done = true → d'.accesses = d.accesses + 2
  sectors : d'.sectors = if done then
    perform d.sectors ⟨l, overlay (if d.faults d.accesses then fun _ => 0 else d.sectors l) i c data k⟩
    else d.sectors

theorem dataTurn_turned (start offset : UInt32) (data : Nat → UInt8) (len : UInt32) (d : Drive)
    (copied : UInt32) : ∃ d' done, dataTurn start offset data len d copied = (d', done) ∧
      Turned d (start + (offset + copied) / 512).toNat ((offset + copied) % 512).toNat
        (chunkAt (offset + copied) (len - copied)).toNat data copied.toNat d' done := by
  unfold dataTurn
  dsimp only
  generalize start + (offset + copied) / 512 = lba
  by_cases hl : lba.toNat < 65536
  · obtain ⟨d1, hread, hs1, hc1, hf1, ha1⟩ := blockdevRead_scheduled d hl
    rw [hread]
    dsimp only
    generalize hsector : overlay ((if d.faults d.accesses then none
      else some (d.sectors lba.toNat) : Option Sector).getD fun _ => 0) _ _ _ _ = sector
    obtain ⟨d2, hwrite, hf2, ha2, hs2⟩ := blockdevWrite_scheduled d1 hl sector
    obtain ⟨d2', done, hwrite', -, hc2, -⟩ := blockdevWrite_cases d1 lba sector
    rw [hwrite] at hwrite'
    obtain ⟨rfl, rfl⟩ := Prod.mk.inj hwrite'
    rw [hf1, ha1] at hs2 hc2 hwrite
    rw [hf1] at hf2
    refine ⟨d2, _, hwrite, hf2, ⟨sector, by rw [hc2, hc1]⟩, by simp [hl], fun _ => by rw [ha2, ha1], ?_⟩
    rw [hs2, hs1, ← hsector]
    cases d.faults d.accesses with
    | true => cases d.faults (d.accesses + 1) <;> rfl
    | false => cases d.faults (d.accesses + 1) <;> rfl
  · rw [blockdevRead_range d (Nat.le_of_not_lt hl)]
    dsimp only
    generalize overlay _ _ _ _ _ = sector
    obtain ⟨d', done, hwrite, hf, hc, hs⟩ := blockdevWrite_cases d lba sector
    have hdone : done = false := by
      by_contra hne
      rw [Bool.not_eq_false] at hne
      subst hne
      exact hl (blockdevWrite_bound hwrite)
    subst hdone
    exact ⟨d', false, hwrite, hf, ⟨sector, hc⟩, by simp [hl], (fun h => by cases h), hs⟩

/-- The numbers of a turn that starts below 2^32. -/
theorem turn_numbers {offset copied len : UInt32} (hlt : copied < len)
    (hwrap : offset.toNat + copied.toNat < 4294967296) :
    ((offset + copied) / 512).toNat = (offset.toNat + copied.toNat) / 512 ∧
    ((offset + copied) % 512).toNat = (offset.toNat + copied.toNat) % 512 ∧
    (chunkAt (offset + copied) (len - copied)).toNat =
      min (len.toNat - copied.toNat) (512 - (offset.toNat + copied.toNat) % 512) ∧
    (copied + chunkAt (offset + copied) (len - copied)).toNat = copied.toNat +
      min (len.toNat - copied.toNat) (512 - (offset.toNat + copied.toNat) % 512) := by
  have hltn := UInt32.lt_iff_toNat_lt.mp hlt
  have habs : (offset + copied).toNat = offset.toNat + copied.toNat := by
    rw [UInt32.toNat_add]
    omega
  have hsub : (len - copied).toNat = len.toNat - copied.toNat :=
    UInt32.toNat_sub_of_le _ _ (UInt32.le_iff_toNat_le.mpr hltn.le)
  have hchunk := chunkAt_toNat (offset + copied) (len - copied)
  have hnext := (chunk_step hlt (offset + copied)).1
  rw [habs] at hchunk hnext
  rw [hsub] at hchunk
  refine ⟨?_, ?_, hchunk, hnext⟩
  · rw [UInt32.toNat_div, habs]
    rfl
  · rw [UInt32.toNat_mod, habs]
    rfl

/-- The bytes after a turn whose write took effect. -/
theorem Turned.byte {d d' : Drive} {l i c k : Nat} {data : Nat → UInt8}
    (h : Turned d l i c data k d' true) (hc : i + c ≤ 512) (a : Nat) :
    byte d'.sectors a =
      if 512 * l + i ≤ a ∧ a < 512 * l + i + c then data (k + (a - (512 * l + i)))
      else if a / 512 = l ∧ d.faults d.accesses = true then 0 else byte d.sectors a := by
  have ha : 512 * (a / 512) + a % 512 = a := Nat.div_add_mod a 512
  rw [h.sectors, if_pos rfl]
  by_cases hl : a / 512 = l
  · rw [byte_perform_same _ _ hl]
    subst hl
    simp only [overlay]
    by_cases hin : i ≤ a % 512 ∧ a % 512 < i + c
    · rw [if_pos hin, if_pos (by omega)]
      congr 1
      omega
    · have hout : ¬(512 * (a / 512) + i ≤ a ∧ a < 512 * (a / 512) + i + c) := by
        omega
      rw [if_neg hin, if_neg hout]
      cases d.faults d.accesses with
      | true => simp
      | false =>
        simp only [Bool.false_eq_true, and_false, ↓reduceIte]
        rfl
  · rw [byte_perform_other _ _ hl, if_neg (by omega), if_neg fun h => hl h.1]

/-- A byte after the loop, by whether its sector was passed and could be read. -/
def loopByte (f : Nat → Bool) (data old : Nat → UInt8) (base access copied stop a : Nat) : UInt8 :=
  if base + copied ≤ a ∧ a < base + stop then data (a - base)
  else if copied < stop ∧ (base + copied) / 512 ≤ a / 512 ∧ 512 * (a / 512) < base + stop ∧
    f (access + 2 * (a / 512 - (base + copied) / 512)) = true then 0
  else old a

/-- The bytes of one turn, then those of the rest of the loop. -/
theorem loopByte_cons {f : Nat → Bool} {data old mid : Nat → UInt8}
    {base access copied next stop l : Nat} (hl : (base + copied) / 512 = l) (hprog : copied < next)
    (hlow : next ≤ stop) (hsector : base + next ≤ 512 * (l + 1))
    (hnext : next < stop → base + next = 512 * (l + 1))
    (hmid : ∀ a, mid a = if base + copied ≤ a ∧ a < base + next then data (a - base)
      else if a / 512 = l ∧ f access = true then 0 else old a) (a : Nat) :
    loopByte f data mid base (access + 2) next stop a =
      loopByte f data old base access copied stop a := by
  rw [loopByte, loopByte, hl]
  by_cases hturn : base + copied ≤ a ∧ a < base + next
  · have hlater : ¬(base + next ≤ a ∧ a < base + stop) := by
      omega
    have hbehind : ¬(next < stop ∧ (base + next) / 512 ≤ a / 512 ∧
        512 * (a / 512) < base + stop ∧
        f (access + 2 + 2 * (a / 512 - (base + next) / 512)) = true) := by
      rintro ⟨hm, hle, -, -⟩
      have hgo := hnext hm
      omega
    have hin : base + copied ≤ a ∧ a < base + stop := by
      omega
    rw [if_neg hlater, if_neg hbehind, hmid, if_pos hturn, if_pos hin]
  · by_cases hlater : base + next ≤ a ∧ a < base + stop
    · have hin : base + copied ≤ a ∧ a < base + stop := by
        omega
      rw [if_pos hlater, if_pos hin]
    · have hout : ¬(base + copied ≤ a ∧ a < base + stop) := by
        omega
      rw [if_neg hlater, if_neg hout, hmid, if_neg hturn]
      by_cases hsame : a / 512 = l
      · have hbehind : ¬(next < stop ∧ (base + next) / 512 ≤ a / 512 ∧
            512 * (a / 512) < base + stop ∧
            f (access + 2 + 2 * (a / 512 - (base + next) / 512)) = true) := by
          rintro ⟨hm, hle, -, -⟩
          have hgo := hnext hm
          omega
        have hplace : access + 2 * (a / 512 - l) = access := by
          omega
        rw [if_neg hbehind, hplace]
        apply if_congr _ rfl rfl
        exact ⟨fun hz => ⟨by omega, by omega, by omega, hz.2⟩, fun hz => ⟨hsame, hz.2.2.2⟩⟩
      · have hno : ¬(a / 512 = l ∧ f access = true) := fun hz => hsame hz.1
        rw [if_neg hno]
        apply if_congr _ rfl rfl
        constructor
        · rintro ⟨hm, hle, hend, hf⟩
          have hgo := hnext hm
          have hplace : access + 2 + 2 * (a / 512 - (base + next) / 512) =
              access + 2 * (a / 512 - l) := by
            omega
          exact ⟨by omega, by omega, hend, hplace ▸ hf⟩
        · rintro ⟨-, hle, hend, hf⟩
          have hm : next < stop := by
            omega
          have hgo := hnext hm
          have hplace : access + 2 + 2 * (a / 512 - (base + next) / 512) =
              access + 2 * (a / 512 - l) := by
            omega
          exact ⟨hm, by omega, hend, hplace ▸ hf⟩

/-- A run of the data loop from `copied` on, under any schedule: it writes the data up to `stop`,
zeroes what it cannot read of the sectors it passes, and ends early where a write fails. -/
structure LoopRun (base : Nat) (len : UInt32) (data : Nat → UInt8) (d : Drive) (copied : Nat)
    (d' : Drive) (r : Option UInt32) (stop : Nat) : Prop where
  faults : d'.faults = d.faults
  low : copied ≤ stop
  finished : r = some len ∧ stop = len.toNat ∨ r = none ∧ stop < len.toNat ∧
    (65536 ≤ (base + stop) / 512 ∨
      d.faults (d.accesses + 2 * ((base + stop) / 512 - (base + copied) / 512) + 1) = true)
  device : copied < stop → base + stop ≤ 512 * 65536
  bytes : ∀ a, byte d'.sectors a =
    loopByte d.faults data (byte d.sectors) base d.accesses copied stop a

theorem LoopRun.high (h : LoopRun base len data d copied d' r stop) : stop ≤ len.toNat := by
  rcases h.finished with ⟨-, he⟩ | ⟨-, hlt, -⟩
  · exact he.le
  · exact hlt.le

/-- A turn whose write takes effect, before a run of the rest. -/
theorem LoopRun.cons {base copied next stop : Nat} {len : UInt32} {data : Nat → UInt8}
    {d d1 d' : Drive} {r : Option UInt32}
    (ht : Turned d ((base + copied) / 512) ((base + copied) % 512) (next - copied) data copied d1
      true)
    (hprog : copied < next) (hsector : base + next ≤ 512 * ((base + copied) / 512 + 1))
    (hnext : next < len.toNat → base + next = 512 * ((base + copied) / 512 + 1))
    (h : LoopRun base len data d1 next d' r stop) : LoopRun base len data d copied d' r stop := by
  have hl := (ht.done_iff.mp rfl).1
  have hacc := ht.accesses rfl
  have hlow := h.low
  have hhigh := h.high
  refine ⟨h.faults.trans ht.faults, hprog.le.trans hlow, ?_, ?_, fun a => ?_⟩
  · refine h.finished.imp_right fun ⟨hr, hlt, hstop⟩ => ⟨hr, hlt, hstop.imp_right fun hf => ?_⟩
    have hgo := hnext (hlow.trans_lt hlt)
    have hplace : d.accesses + 2 + 2 * ((base + stop) / 512 - (base + next) / 512) + 1 =
        d.accesses + 2 * ((base + stop) / 512 - (base + copied) / 512) + 1 := by
      omega
    rw [ht.faults, hacc, hplace] at hf
    exact hf
  · intro _
    by_cases hmore : next < stop
    · exact h.device hmore
    · omega
  · rw [h.bytes, ht.faults, hacc]
    refine loopByte_cons rfl hprog hlow hsector (fun hm => hnext (hm.trans_le hhigh))
      (fun b => ?_) a
    have hplace : 512 * ((base + copied) / 512) + (base + copied) % 512 = base + copied :=
      Nat.div_add_mod _ _
    have hend : base + copied + (next - copied) = base + next := by
      omega
    rw [ht.byte (by omega), hplace, hend]
    split
    · exact congrArg data (by omega)
    · rfl

/-- What the data loop does, whether or not it comes to its end. -/
theorem writeLoop_run {start offset len copied : UInt32} (data : Nat → UInt8) (d : Drive)
    (hwrap : offset.toNat + len.toNat < 4294967296)
    (hno : start.toNat + (offset.toNat + len.toNat) / 512 < 4294967296)
    (hcl : copied.toNat ≤ len.toNat) :
    ∃ d' r stop, writeLoop start offset data len d copied = (d', r) ∧
      LoopRun (512 * start.toNat + offset.toNat) len data d copied.toNat d' r stop := by
  induction hm : len.toNat - copied.toNat using Nat.strongRecOn generalizing d copied with
  | ind m ih =>
    by_cases hlt : copied < len
    · have hltn := UInt32.lt_iff_toNat_lt.mp hlt
      have habs : offset.toNat + copied.toNat < 4294967296 := by omega
      obtain ⟨hq, hi, hc, hnext⟩ := turn_numbers hlt habs
      obtain ⟨d1, done, hturn, ht⟩ := dataTurn_turned start offset data len d copied
      have hlba : (start + (offset + copied) / 512).toNat =
          (512 * start.toNat + offset.toNat + copied.toNat) / 512 := by
        rw [UInt32.toNat_add, hq]
        omega
      have hin : ((offset + copied) % 512).toNat =
          (512 * start.toNat + offset.toNat + copied.toNat) % 512 := by
        rw [hi]
        omega
      rw [hlba, hin] at ht
      rw [writeLoop_turn hlt, hturn]
      cases done with
      | false =>
        have hstop := ht.done_iff.not.mp (by decide)
        refine ⟨d1, none, copied.toNat, rfl, ht.faults, le_refl _, .inr ⟨rfl, hltn, ?_⟩,
          fun h => absurd h (lt_irrefl _), fun a => ?_⟩
        · by_cases hl : (512 * start.toNat + offset.toNat + copied.toNat) / 512 < 65536
          · right
            rw [Nat.sub_self, Nat.mul_zero, Nat.add_zero, ← Bool.not_eq_false]
            exact fun hf => hstop ⟨hl, hf⟩
          · exact .inl (by omega)
        · have hsectors : d1.sectors = d.sectors := ht.sectors
          rw [hsectors, loopByte, if_neg (by omega), if_neg (by omega)]
      | true =>
        have hchunk : (chunkAt (offset + copied) (len - copied)).toNat =
            (copied + chunkAt (offset + copied) (len - copied)).toNat - copied.toNat := by
          omega
        rw [hchunk] at ht
        dsimp only
        generalize copied + chunkAt (offset + copied) (len - copied) = copied' at hnext ht ⊢
        obtain ⟨d', r, stop, hloop, hrun⟩ := ih (len.toNat - copied'.toNat) (by omega) d1
          (by omega) rfl
        exact ⟨d', r, stop, hloop, hrun.cons ht (by omega) (by omega) (by omega)⟩
    · have hge := UInt32.le_iff_toNat_le.mp (UInt32.not_lt.mp hlt)
      obtain rfl : copied = len := UInt32.toNat_inj.mp (by omega)
      refine ⟨d, some copied, copied.toNat, writeLoop_end hlt, rfl, le_refl _, .inl ⟨rfl, rfl⟩,
        fun h => absurd h (lt_irrefl _), fun a => ?_⟩
      rw [loopByte, if_neg (by omega), if_neg (by omega)]

section Relocate

variable (old new : UInt32)

/-- Sector `i` of a relocation cannot be copied. -/
def CopyStops (d : Drive) (i : UInt32) (k : Nat) : Prop :=
  65536 ≤ (old + i).toNat ∨ 65536 ≤ (new + i).toNat ∨ d.faults (d.accesses + k) = true ∨
    d.faults (d.accesses + k + 1) = true

/-- One sector of a relocation. -/
theorem relocateLoop_turn (count : Nat) (d : Drive) (i : UInt32) :
    CopyStops old new d i 0 ∧ (relocateLoop old new (count + 1) d i).2 = false ∨
    ¬CopyStops old new d i 0 ∧ ∃ d',
      relocateLoop old new (count + 1) d i = relocateLoop old new count d' (i + 1) ∧
      d'.faults = d.faults ∧ d'.accesses = d.accesses + 2 ∧
      Wrote d [⟨(new + i).toNat, d.sectors (old + i).toNat⟩] d' := by
  rw [relocateLoop]
  by_cases hlo : (old + i).toNat < 65536
  · obtain ⟨d1, hread, hs1, hc1, hf1, ha1⟩ := blockdevRead_scheduled d hlo
    rw [hread]
    cases hf : d.faults d.accesses with
    | true => exact .inl ⟨.inr (.inr (.inl hf)), rfl⟩
    | false =>
      by_cases hln : (new + i).toNat < 65536
      · obtain ⟨d2, hwrite, hf2, ha2, hs2⟩ := blockdevWrite_scheduled d1 hln
          (d.sectors (old + i).toNat)
        rw [hf1, ha1] at hwrite
        cases hfw : d.faults (d.accesses + 1) with
        | true =>
          rw [hfw] at hwrite
          simp only [Bool.false_eq_true, ↓reduceIte, hwrite, Bool.not_true]
          exact .inl ⟨.inr (.inr (.inr hfw)), trivial⟩
        | false =>
          rw [hfw] at hwrite
          simp only [Bool.false_eq_true, ↓reduceIte, hwrite, Bool.not_false]
          refine .inr ⟨?_, d2, rfl, hf2.trans hf1, by rw [ha2, ha1], ?_⟩
          · rintro (h | h | h | h)
            · omega
            · omega
            · rw [Nat.add_zero, hf] at h
              cases h
            · rw [Nat.add_zero, hfw] at h
              cases h
          · have hw := blockdevWrite_done hwrite
            exact ⟨hw.faults.trans hf1, by rw [hw.calls, hc1], by rw [hw.sectors, hs1]⟩
      · obtain ⟨d2, done, hwrite, -⟩ := blockdevWrite_cases d1 (new + i) (d.sectors (old + i).toNat)
        cases done with
        | false =>
          simp only [Bool.false_eq_true, ↓reduceIte, hwrite]
          exact .inl ⟨.inr (.inl (Nat.le_of_not_lt hln)), trivial⟩
        | true => exact absurd (blockdevWrite_bound hwrite) hln
  · rw [blockdevRead_range d (Nat.le_of_not_lt hlo)]
    exact .inl ⟨.inl (Nat.le_of_not_lt hlo), rfl⟩

/-- A relocation succeeds exactly when no sector of it stops the copy. -/
theorem relocateLoop_answered (count : Nat) (d : Drive) (i : UInt32) :
    ((relocateLoop old new count d i).2 = true ↔
      ∀ j, j < count → ¬CopyStops old new d (i + UInt32.ofNat j) (2 * j)) ∧
    ((relocateLoop old new count d i).2 = true →
      (relocateLoop old new count d i).1.accesses = d.accesses + 2 * count) := by
  induction count generalizing d i with
  | zero => exact ⟨⟨fun _ j hj => absurd hj (Nat.not_lt_zero j), fun _ => rfl⟩, fun _ => rfl⟩
  | succ count ih =>
    have hzero : i + UInt32.ofNat 0 = i := UInt32.add_zero i
    rcases relocateLoop_turn old new count d i with ⟨hstop, hfail⟩ | ⟨hgo, d', hloop, hf, ha, -⟩
    · rw [hfail]
      refine ⟨⟨(fun h => by cases h), fun h => ?_⟩, fun h => by cases h⟩
      have hnot := h 0 (Nat.succ_pos count)
      rw [hzero] at hnot
      exact absurd hstop hnot
    · obtain ⟨hiff, hacc⟩ := ih d' (i + 1)
      have hshift : ∀ j, CopyStops old new d' (i + 1 + UInt32.ofNat j) (2 * j) ↔
          CopyStops old new d (i + UInt32.ofNat (j + 1)) (2 * (j + 1)) := by
        intro j
        have hidx : i + UInt32.ofNat (j + 1) = i + 1 + UInt32.ofNat j := by
          rw [UInt32.ofNat_add, UInt32.add_assoc, UInt32.add_comm (UInt32.ofNat j)]
          rfl
        have hplace : d'.accesses + 2 * j = d.accesses + 2 * (j + 1) := by
          omega
        rw [CopyStops, CopyStops, hidx, hplace, hf]
      rw [hloop, hiff, Nat.forall_lt_succ_left]
      refine ⟨⟨fun h => ⟨by rwa [hzero], fun j hj => (hshift j).not.mp (h j hj)⟩,
        fun h j hj => (hshift j).not.mpr (h.2 j hj)⟩, fun h => ?_⟩
      rw [hacc (hiff.mpr h), ha]
      omega

/-- A relocation that succeeds has copied the old extent to the free end. The two regions do not
overlap, so it reads only bytes it has not written. -/
theorem relocateLoop_done {count : Nat} {d d' : Drive} {i : UInt32}
    (h : relocateLoop old new count d i = (d', true))
    (hold : old.toNat + (i.toNat + count) ≤ new.toNat)
    (hnew : new.toNat + (i.toNat + count) ≤ 65536) : ∃ ws, Wrote d ws d' ∧
      Touches (Set.Ico (512 * (new.toNat + i.toNat)) (512 * (new.toNat + (i.toNat + count))))
        d.sectors ws ∧
      ∀ k, 512 * i.toNat ≤ k → k < 512 * (i.toNat + count) →
        byte d'.sectors (512 * new.toNat + k) = byte d.sectors (512 * old.toNat + k) := by
  induction count generalizing d i with
  | zero =>
    cases h
    exact ⟨[], Wrote.refl _, trivial, fun k h1 h2 => by omega⟩
  | succ count ih =>
    have hoi : (old + i).toNat = old.toNat + i.toNat := by rw [UInt32.toNat_add]; omega
    have hni : (new + i).toNat = new.toNat + i.toNat := by rw [UInt32.toNat_add]; omega
    have hi1 : (i + 1).toNat = i.toNat + 1 := by
      rw [UInt32.toNat_add, show (1 : UInt32).toNat = 1 from rfl]; omega
    rcases relocateLoop_turn old new count d i with ⟨-, hfail⟩ | ⟨-, d2, hloop, -, -, hw⟩
    · rw [h] at hfail
      cases hfail
    · rw [hloop] at h
      have hs2 : d2.sectors = perform d.sectors ⟨(new + i).toNat, d.sectors (old + i).toNat⟩ :=
        hw.sectors
      obtain ⟨ws, hw3, htouch, hdata⟩ := ih h (by omega) (by omega)
      refine ⟨_, hw.trans hw3, ⟨?_, ?_⟩, ?_⟩
      · intro a ha
        simp only [Set.mem_Ico, not_and, not_lt] at ha
        exact byte_perform_other _ _ (by simp only [hni]; omega)
      · rw [hs2] at htouch
        refine htouch.mono (fun a ha => ?_)
        simp only [Set.mem_Ico] at ha ⊢
        omega
      · intro k hk hkl
        by_cases hki : k < 512 * (i + 1).toNat
        · rw [hw3.sectors, htouch.outside (by simp only [Set.mem_Ico]; omega), hs2]
          rw [byte_perform_same _ _ (by simp only [hni]; omega)]
          have hk' : 512 * old.toNat + k = 512 * (old + i).toNat + (k - 512 * i.toNat) := by omega
          have hkb : k - 512 * i.toNat < 512 := by omega
          rw [hk', byte_block d.sectors (old + i).toNat ⟨k - 512 * i.toNat, hkb⟩]
          exact congrArg (d.sectors (old + i).toNat) (Fin.ext (by dsimp only; omega))
        · rw [hdata k (by omega) (by omega), hs2]
          exact byte_perform_other _ _ (by simp only [hni]; omega)

/-- On a reliable drive it succeeds as long as the new place lies on the device. -/
theorem relocateLoop_reliable {d : Drive} (hr : d.Reliable) (count : Nat) (i : UInt32)
    (hold : old.toNat + (i.toNat + count) ≤ new.toNat)
    (hnew : new.toNat + (i.toNat + count) ≤ 65536) :
    (relocateLoop old new count d i).2 = true := by
  rw [(relocateLoop_answered old new count d i).1]
  intro j hj hstop
  have hidx : (i + UInt32.ofNat j).toNat = i.toNat + j := by
    rw [UInt32.toNat_add, UInt32.toNat_ofNat']
    omega
  rcases hstop with h | h | h | h
  · rw [UInt32.toNat_add, hidx] at h
    omega
  · rw [UInt32.toNat_add, hidx] at h
    omega
  · rw [hr] at h
    cases h
  · rw [hr] at h
    cases h

end Relocate

end VertexOS
