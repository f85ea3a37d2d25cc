import VertexOS.Library.BlockStore

namespace VertexOS
open Library.BlockStore

/-- One 512-byte sector. -/
abbrev Sector := Block 512

instance neZeroSector : NeZero 512 := ⟨by decide⟩

/-- The ATA drive behind the block layer. `faults k` says whether the drive
refuses its `k`-th access; a refused write leaves its sector as it was.
`calls` records every call of `blockdev_write` with its outcome, in order. -/
structure Drive where
  sectors : Store 512
  faults : Nat → Bool
  accesses : Nat
  calls : List (Write 512 × Bool)

/-- `g_dev.sector_count`. -/
def sectorCount : UInt32 := 65536

@[simp] theorem sectorCount_toNat : sectorCount.toNat = 65536 := rfl

def ataReadSector (d : Drive) (lba : UInt32) : Drive × Option Sector :=
  let d' := { d with accesses := d.accesses + 1 }
  if d.faults d.accesses then (d', none) else (d', some (d.sectors lba.toNat))

def ataWriteSector (d : Drive) (lba : UInt32) (buffer : Sector) : Drive × Bool :=
  let d' := { d with accesses := d.accesses + 1 }
  if d.faults d.accesses then (d', false)
  else ({ d' with sectors := perform d.sectors ⟨lba.toNat, buffer⟩ }, true)

def blockdevRead (d : Drive) (lba : UInt32) : Drive × Option Sector :=
  if lba ≥ sectorCount then (d, none) else ataReadSector d lba

/-- The call is recorded whether or not the range check or the drive refuses it. -/
def blockdevWrite (d : Drive) (lba : UInt32) (buffer : Sector) : Drive × Bool :=
  let (d', done) := if lba ≥ sectorCount then (d, false) else ataWriteSector d lba buffer
  ({ d' with calls := d.calls ++ [(⟨lba.toNat, buffer⟩, done)] }, done)

/-- The drive itself never refuses an access; only the range check can fail. -/
def Drive.Reliable (d : Drive) : Prop := ∀ k, d.faults k = false

/-- A blank disk behind a drive that answers every access. -/
def blankDrive : Drive := ⟨fun _ _ => 0, fun _ => false, 0, []⟩

/-- From `d`, exactly the writes `ws` were issued and all of them took effect. -/
structure Wrote (d : Drive) (ws : List (Write 512)) (d' : Drive) : Prop where
  faults : d'.faults = d.faults
  calls : d'.calls = d.calls ++ ws.map (fun w => (w, true))
  sectors : d'.sectors = replay d.sectors ws

theorem Wrote.refl (d : Drive) : Wrote d [] d := ⟨rfl, by simp, rfl⟩

theorem Wrote.trans (h : Wrote d ws d') (h' : Wrote d' vs d'') : Wrote d (ws ++ vs) d'' := by
  refine ⟨h'.faults.trans h.faults, ?_, ?_⟩
  · simp [h'.calls, h.calls]
  · rw [h'.sectors, h.sectors, replay_append]

theorem Wrote.reliable (h : Wrote d ws d') (hr : d.Reliable) : d'.Reliable := by
  intro k
  rw [h.faults]
  exact hr k

/-- The recorded writes that took effect. -/
def performed (xs : List (Write 512 × Bool)) : List (Write 512) :=
  xs.filterMap fun x => if x.2 then some x.1 else none

/-- From `d`, exactly the write calls `xs` were made. -/
structure Issued (d : Drive) (xs : List (Write 512 × Bool)) (d' : Drive) : Prop where
  faults : d'.faults = d.faults
  calls : d'.calls = d.calls ++ xs
  sectors : d'.sectors = replay d.sectors (performed xs)

theorem Issued.refl (d : Drive) : Issued d [] d := ⟨rfl, by simp, rfl⟩

theorem Issued.trans (h : Issued d xs d') (h' : Issued d' ys d'') : Issued d (xs ++ ys) d'' := by
  refine ⟨h'.faults.trans h.faults, ?_, ?_⟩
  · rw [h'.calls, h.calls, List.append_assoc]
  · rw [h'.sectors, h.sectors, performed, performed, performed, List.filterMap_append,
      replay_append]

theorem Issued.reliable (h : Issued d xs d') (hr : d.Reliable) : d'.Reliable := by
  intro k
  rw [h.faults]
  exact hr k

/-- A sector no write call names keeps its content. -/
theorem Issued.other (h : Issued d xs d') (hb : ∀ x ∈ xs, x.1.block ≠ b) :
    d'.sectors b = d.sectors b := by
  rw [h.sectors]
  apply replay_other
  intro w hw
  obtain ⟨x, hx, he⟩ := List.mem_filterMap.mp hw
  split at he
  · cases he
    exact hb x hx
  · cases he

/-- On a reliable drive a read below the sector count returns what is stored. -/
theorem blockdevRead_reliable (hr : d.Reliable) (hl : lba.toNat < 65536) :
    ∃ d', blockdevRead d lba = (d', some (d.sectors lba.toNat)) ∧ Wrote d [] d' := by
  refine ⟨{ d with accesses := d.accesses + 1 }, ?_, ⟨rfl, by simp, rfl⟩⟩
  have hn : ¬ lba ≥ sectorCount := by
    simp only [ge_iff_le, UInt32.le_iff_toNat_le, sectorCount_toNat]
    omega
  simp [blockdevRead, ataReadSector, hn, hr d.accesses]

/-- On a reliable drive a write below the sector count takes effect. -/
theorem blockdevWrite_reliable (hr : d.Reliable) (hl : lba.toNat < 65536) (b : Sector) :
    ∃ d', blockdevWrite d lba b = (d', true) ∧ Wrote d [⟨lba.toNat, b⟩] d' := by
  have hn : ¬ lba ≥ sectorCount := by
    simp only [ge_iff_le, UInt32.le_iff_toNat_le, sectorCount_toNat]
    omega
  simp only [blockdevWrite, ataWriteSector, hn, hr d.accesses, Bool.false_eq_true, ↓reduceIte]
  exact ⟨_, rfl, ⟨rfl, rfl, rfl⟩⟩

/-- What any write call does: it is recorded, the fault schedule stays, and the
sectors change exactly when the call reports success. -/
theorem blockdevWrite_cases (d : Drive) (lba : UInt32) (b : Sector) :
    ∃ d' done, blockdevWrite d lba b = (d', done) ∧ d'.faults = d.faults ∧
      d'.calls = d.calls ++ [(⟨lba.toNat, b⟩, done)] ∧
      d'.sectors = if done then perform d.sectors ⟨lba.toNat, b⟩ else d.sectors := by
  unfold blockdevWrite ataWriteSector
  by_cases hl : lba ≥ sectorCount
  · rw [if_pos hl]
    exact ⟨_, _, rfl, rfl, rfl, rfl⟩
  · rw [if_neg hl]
    cases hf : d.faults d.accesses <;> exact ⟨_, _, rfl, rfl, rfl, rfl⟩

theorem blockdevWrite_issued (h : blockdevWrite d lba b = (d', done)) :
    Issued d [(⟨lba.toNat, b⟩, done)] d' := by
  obtain ⟨e, ok, he, hf, hc, hs⟩ := blockdevWrite_cases d lba b
  rw [h] at he
  obtain ⟨rfl, rfl⟩ := Prod.mk.inj he
  refine ⟨hf, hc, ?_⟩
  rw [hs]
  cases done <;> rfl

/-- Only a write below the sector count can succeed. -/
theorem blockdevWrite_bound (h : blockdevWrite d lba b = (d', true)) : lba.toNat < 65536 := by
  unfold blockdevWrite at h
  by_cases hl : lba ≥ sectorCount
  · simp [hl] at h
  · simpa only [ge_iff_le, UInt32.le_iff_toNat_le, sectorCount_toNat, not_le] using hl

/-- A write that reports success performed exactly that write. -/
theorem blockdevWrite_done (h : blockdevWrite d lba b = (d', true)) :
    Wrote d [⟨lba.toNat, b⟩] d' := by
  obtain ⟨e, done, he, hf, hc, hs⟩ := blockdevWrite_cases d lba b
  rw [h] at he
  obtain ⟨rfl, rfl⟩ := Prod.mk.inj he
  exact ⟨hf, hc, hs⟩

/-- A read changes neither the sectors nor the record of writes. -/
theorem blockdevRead_frame (h : blockdevRead d lba = (d', r)) :
    d'.sectors = d.sectors ∧ d'.calls = d.calls ∧ d'.faults = d.faults := by
  unfold blockdevRead ataReadSector at h
  split at h
  · cases h; exact ⟨rfl, rfl, rfl⟩
  · split at h <;> cases h <;> exact ⟨rfl, rfl, rfl⟩

theorem blockdevRead_issued (h : blockdevRead d lba = (d', r)) : Issued d [] d' := by
  obtain ⟨hs, hc, hf⟩ := blockdevRead_frame h
  exact ⟨hf, by rw [hc, List.append_nil], hs⟩

/-- A read that succeeds was in range and returned the stored sector. -/
theorem blockdevRead_some (h : blockdevRead d lba = (d', some b)) :
    lba.toNat < 65536 ∧ b = d.sectors lba.toNat := by
  unfold blockdevRead ataReadSector at h
  split at h
  · cases h
  · rename_i hl
    simp only [ge_iff_le, UInt32.le_iff_toNat_le, sectorCount_toNat] at hl
    split at h
    · cases h
    · cases h; exact ⟨by omega, rfl⟩

end VertexOS
