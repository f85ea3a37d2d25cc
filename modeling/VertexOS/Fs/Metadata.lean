import VertexOS.Fs.SimpleFs

namespace VertexOS
open Library.BlockStore

/-- The nine sector writes of `sfs_flush`, in program order. -/
def metadataWrites (sb : Superblock) (es : Table) : List (Write 512) :=
  ⟨128, sb.bytes⟩ :: (List.finRange 8).map fun i => ⟨129 + i.val, tableSector es i⟩

/-- The superblock on a disk. -/
def diskSuper (f : Store 512) : Superblock := Superblock.ofBytes (f 128)

/-- The entry table on a disk. -/
def diskTable (f : Store 512) : Table := tableEntry fun i => f (129 + i.val)

theorem tableLba_toNat (i : Fin 8) : (sfsTableLba + UInt32.ofNat i).toNat = 129 + i.val := by
  have := i.isLt
  simp only [UInt32.toNat_add, sfsTableLba_toNat, UInt32.toNat_ofNat']
  omega

theorem flushTable_faults (es : Table) (d : Drive) (is : List (Fin 8)) :
    (flushTable es d is).1.faults = d.faults := by
  induction is generalizing d with
  | nil => rfl
  | cons i is ih =>
    obtain ⟨d', done, he, hf, -, -⟩ :=
      blockdevWrite_cases d (sfsTableLba + UInt32.ofNat i) (tableSector es i)
    simp only [flushTable, he]
    cases done with
    | false => exact hf
    | true => exact (ih d').trans hf

theorem flushTable_done (h : flushTable es d is = (d', true)) :
    Wrote d (is.map fun i => ⟨129 + i.val, tableSector es i⟩) d' := by
  induction is generalizing d with
  | nil => cases h; exact Wrote.refl _
  | cons i is ih =>
    cases hw : blockdevWrite d (sfsTableLba + UInt32.ofNat i) (tableSector es i) with
    | mk e done =>
      rw [flushTable, hw] at h
      cases done with
      | false => cases h
      | true =>
        have h1 := blockdevWrite_done hw
        rw [tableLba_toNat] at h1
        exact h1.trans (ih h)

theorem flushTable_reliable (hr : d.Reliable) (es : Table) (is : List (Fin 8)) :
    ∃ d', flushTable es d is = (d', true) := by
  induction is generalizing d with
  | nil => exact ⟨d, rfl⟩
  | cons i is ih =>
    have hl : (sfsTableLba + UInt32.ofNat i).toNat < 65536 := by
      rw [tableLba_toNat]; omega
    obtain ⟨e, hw, he⟩ := blockdevWrite_reliable hr hl (tableSector es i)
    rw [flushTable, hw]
    exact ih (he.reliable hr)

/-- Flushing changes only the device. -/
theorem sfsFlush_frame (s : SimpleFs) :
    (sfsFlush s).1.super = s.super ∧ (sfsFlush s).1.entries = s.entries ∧
      (sfsFlush s).1.dev.faults = s.dev.faults := by
  unfold sfsFlush
  obtain ⟨d, done, he, hf, -, -⟩ := blockdevWrite_cases s.dev sfsSuperLba s.super.bytes
  rw [he]
  cases done with
  | false => exact ⟨rfl, rfl, hf⟩
  | true => exact ⟨rfl, rfl, (flushTable_faults _ _ _).trans hf⟩

/-- A flush that succeeds wrote the superblock and the whole table. -/
theorem sfsFlush_done (h : sfsFlush s = (s', true)) :
    s'.super = s.super ∧ s'.entries = s.entries ∧
      Wrote s.dev (metadataWrites s.super s.entries) s'.dev := by
  unfold sfsFlush at h
  cases hw : blockdevWrite s.dev sfsSuperLba s.super.bytes with
  | mk d done =>
    rw [hw] at h
    cases done with
    | false => cases h
    | true =>
      cases ht : flushTable s.entries d (List.finRange 8) with
      | mk e ok =>
        simp only [ht, Prod.mk.injEq] at h
        obtain ⟨rfl, rfl⟩ := h
        exact ⟨rfl, rfl, (blockdevWrite_done hw).trans (flushTable_done ht)⟩

theorem sfsFlush_reliable (hr : s.dev.Reliable) : ∃ dev, sfsFlush s = ({ s with dev }, true) := by
  obtain ⟨d, hw, hd⟩ := blockdevWrite_reliable hr
    (show sfsSuperLba.toNat < 65536 by decide) s.super.bytes
  obtain ⟨e, he⟩ := flushTable_reliable (hd.reliable hr) s.entries (List.finRange 8)
  exact ⟨e, by simp only [sfsFlush, hw, he]⟩

/-- The block every metadata write names, and what it puts there. -/
theorem mem_metadataWrites (hw : w ∈ metadataWrites sb es) :
    (w.block = 128 ∧ w.data = sb.bytes) ∨
      ∃ i : Fin 8, w.block = 129 + i.val ∧ w.data = tableSector es i := by
  rcases List.mem_cons.mp hw with rfl | hw
  · exact Or.inl ⟨rfl, rfl⟩
  · obtain ⟨i, -, rfl⟩ := List.mem_map.mp hw
    exact Or.inr ⟨i, rfl, rfl⟩

/-- Metadata writes stay within the nine metadata sectors. -/
theorem metadataWrites_other (f : Store 512) (sb : Superblock) (es : Table)
    (hb : b < 128 ∨ 137 ≤ b) (k : Nat) : replay f ((metadataWrites sb es).take k) b = f b := by
  apply replay_other
  intro w hw he
  rcases mem_metadataWrites (List.mem_of_mem_take hw) with ⟨h, -⟩ | ⟨i, h, -⟩ <;> omega

/-- A flush leaves the bytes of the data area alone. -/
theorem byte_flushed {f : Store 512} {sb : Superblock} {es : Table} (ha : 137 ≤ a / 512) :
    byte (replay f (metadataWrites sb es)) a = byte f a := by
  have hother := metadataWrites_other f sb es (Or.inr ha) (metadataWrites sb es).length
  rw [List.take_length] at hother
  unfold byte
  rw [hother]

theorem diskSuper_flushed (f : Store 512) (sb : Superblock) (es : Table) :
    diskSuper (replay f (metadataWrites sb es)) = sb := by
  obtain ⟨w, hw, hb, he⟩ := replay_named f (metadataWrites sb es) (b := 128)
    ⟨⟨128, sb.bytes⟩, List.mem_cons_self, rfl⟩
  rcases mem_metadataWrites hw with ⟨-, hd⟩ | ⟨i, h, -⟩
  · rw [diskSuper, he, hd, Superblock.ofBytes_bytes]
  · omega

theorem diskTable_flushed (f : Store 512) (sb : Superblock) (es : Table) :
    diskTable (replay f (metadataWrites sb es)) = es := by
  have hs : (fun i : Fin 8 => replay f (metadataWrites sb es) (129 + i.val)) = tableSector es := by
    funext i
    obtain ⟨w, hw, hb, he⟩ := replay_named f (metadataWrites sb es) (b := 129 + i.val)
      ⟨⟨129 + i.val, tableSector es i⟩,
        List.mem_cons_of_mem _ (List.mem_map.mpr ⟨i, List.mem_finRange i, rfl⟩), rfl⟩
    rcases mem_metadataWrites hw with ⟨h, -⟩ | ⟨j, h, hd⟩
    · omega
    · have hij : j = i := Fin.ext (by omega)
      rw [he, hd, hij]
  rw [diskTable, hs, tableEntry_tableSector]

/-- At a cut inside the flush each entry on disk is its old or its new self,
because an entry never straddles two sectors. -/
theorem diskTable_cut (f : Store 512) (sb : Superblock) (es : Table) (k : Nat) (n : Fin 64) :
    diskTable (replay f ((metadataWrites sb es).take k)) n = diskTable f n ∨
      diskTable (replay f ((metadataWrites sb es).take k)) n = es n := by
  rcases replay_cases f ((metadataWrites sb es).take k) (129 + n.val / 8) with h | ⟨w, hw, hb, he⟩
  · exact Or.inl (by simp only [diskTable, tableEntry, h])
  · rcases mem_metadataWrites (List.mem_of_mem_take hw) with ⟨h, -⟩ | ⟨i, h, hd⟩
    · omega
    · have hi : i = ⟨n / 8, by omega⟩ := Fin.ext (by simp only; omega)
      rw [hi] at hd
      refine Or.inr ?_
      simp only [diskTable, tableEntry, he]
      exact ofBytes_tableSector es n w.data hd

theorem loadTable_frame (d : Drive) (es : Table) (is : List (Fin 8)) :
    (loadTable d es is).1.sectors = d.sectors ∧ (loadTable d es is).1.calls = d.calls ∧
      (loadTable d es is).1.faults = d.faults := by
  induction is generalizing d es with
  | nil => exact ⟨rfl, rfl, rfl⟩
  | cons i is ih =>
    cases hr : blockdevRead d (sfsTableLba + UInt32.ofNat i) with
    | mk d' r =>
      obtain ⟨hs, hc, hf⟩ := blockdevRead_frame hr
      cases r with
      | none => simp only [loadTable, hr]; exact ⟨hs, hc, hf⟩
      | some b =>
        simp only [loadTable, hr]
        obtain ⟨hs', hc', hf'⟩ := ih d' (loadSector es i b)
        exact ⟨hs'.trans hs, hc'.trans hc, hf'.trans hf⟩

/-- Loading the listed table sectors replaces exactly their entries. -/
theorem loadTable_done (h : loadTable d es is = (d', es', true)) (n : Fin 64) :
    es' n = if (⟨n / 8, tableIndex_lt n⟩ : Fin 8) ∈ is then diskTable d.sectors n else es n := by
  induction is generalizing d es with
  | nil => cases h; simp
  | cons i is ih =>
    cases hr : blockdevRead d (sfsTableLba + UInt32.ofNat i) with
    | mk d1 r =>
      obtain ⟨hs, -, -⟩ := blockdevRead_frame hr
      rw [loadTable, hr] at h
      cases r with
      | none => cases h
      | some b =>
        have hb := (blockdevRead_some hr).2
        rw [tableLba_toNat] at hb
        rw [ih h, hs]
        by_cases hm : (⟨n / 8, by omega⟩ : Fin 8) ∈ is
        · simp [hm]
        · by_cases hi : n.val / 8 = i.val
          · have he : (⟨n / 8, by omega⟩ : Fin 8) = i := Fin.ext hi
            rw [if_neg hm, if_pos (by rw [he]; exact List.mem_cons_self), loadSector, if_pos hi]
            simp only [diskTable, tableEntry, hi, hb]
          · have he : (⟨n / 8, by omega⟩ : Fin 8) ≠ i := fun he => hi (congrArg Fin.val he)
            rw [if_neg hm, if_neg (by simp [he, hm]), loadSector, if_neg hi]

theorem loadTable_reliable (hr : d.Reliable) (es : Table) (is : List (Fin 8)) :
    ∃ d' es', loadTable d es is = (d', es', true) := by
  induction is generalizing d es with
  | nil => exact ⟨d, es, rfl⟩
  | cons i is ih =>
    have hl : (sfsTableLba + UInt32.ofNat i).toNat < 65536 := by
      rw [tableLba_toNat]; omega
    obtain ⟨d1, h1, hw⟩ := blockdevRead_reliable hr hl
    rw [loadTable, h1]
    exact ih (hw.reliable hr) _

/-- A load that succeeds puts into memory exactly what the disk holds. -/
theorem sfsLoad_done (h : sfsLoad s = (s', true)) :
    s'.super = diskSuper s.dev.sectors ∧ s'.entries = diskTable s.dev.sectors := by
  unfold sfsLoad at h
  cases hr : blockdevRead s.dev sfsSuperLba with
  | mk d r =>
    rw [hr] at h
    cases r with
    | none => cases h
    | some b =>
      obtain ⟨-, hb⟩ := blockdevRead_some hr
      obtain ⟨hs, -, -⟩ := blockdevRead_frame hr
      cases ht : loadTable d s.entries (List.finRange 8) with
      | mk e rest =>
        obtain ⟨es, ok⟩ := rest
        simp only [ht, Prod.mk.injEq] at h
        obtain ⟨rfl, rfl⟩ := h
        refine ⟨by rw [hb]; rfl, funext fun n => ?_⟩
        have hn := loadTable_done ht n
        rw [if_pos (List.mem_finRange _), hs] at hn
        exact hn

theorem sfsLoad_frame (s : SimpleFs) :
    (sfsLoad s).1.dev.sectors = s.dev.sectors ∧ (sfsLoad s).1.dev.calls = s.dev.calls ∧
      (sfsLoad s).1.dev.faults = s.dev.faults := by
  unfold sfsLoad
  cases hr : blockdevRead s.dev sfsSuperLba with
  | mk d r =>
    obtain ⟨hs, hc, hf⟩ := blockdevRead_frame hr
    cases r with
    | none => exact ⟨hs, hc, hf⟩
    | some b =>
      obtain ⟨hs', hc', hf'⟩ := loadTable_frame d s.entries (List.finRange 8)
      exact ⟨hs'.trans hs, hc'.trans hc, hf'.trans hf⟩

theorem sfsLoad_reliable (hr : s.dev.Reliable) : ∃ s', sfsLoad s = (s', true) := by
  obtain ⟨d, hd, hw⟩ := blockdevRead_reliable hr (show sfsSuperLba.toNat < 65536 by decide)
  obtain ⟨e, es, he⟩ := loadTable_reliable (hw.reliable hr) s.entries (List.finRange 8)
  exact ⟨⟨Superblock.ofBytes (s.dev.sectors sfsSuperLba.toNat), es, e⟩,
    by simp only [sfsLoad, hd, he]⟩

/-- A disk that carries the SimpleFS signature. -/
def Signed (sb : Superblock) : Prop := sb.magic = sfsMagic ∧ sb.version = sfsVersion

/-- On a drive that answers, `sfs_init` mounts a signed disk as it is: it takes
over superblock and table and writes nothing. -/
theorem sfsInit_mounts (hr : s.dev.Reliable) (hs : Signed (diskSuper s.dev.sectors)) :
    ∃ s', sfsInit s = (s', true) ∧ s'.super = diskSuper s.dev.sectors ∧
      s'.entries = diskTable s.dev.sectors ∧ s'.dev.sectors = s.dev.sectors ∧
      s'.dev.calls = s.dev.calls ∧ s'.dev.faults = s.dev.faults := by
  obtain ⟨s', hl⟩ := sfsLoad_reliable hr
  obtain ⟨hsup, hent⟩ := sfsLoad_done hl
  have hf := sfsLoad_frame s
  rw [hl] at hf
  refine ⟨s', ?_, hsup, hent, hf⟩
  simp only [sfsInit, hl, hsup, hs.1, hs.2, ne_eq, not_true_eq_false, Bool.true_eq_false, or_self,
    ↓reduceIte]

end VertexOS
