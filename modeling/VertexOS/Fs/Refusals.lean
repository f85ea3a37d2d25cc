import VertexOS.Fs.Crash
import VertexOS.Fs.Issued

namespace VertexOS
open Library.BlockStore

/-- The sectors outside `r` are as they were, whatever the drive refused. -/
structure Confined (r : Set Nat) (d d' : Drive) : Prop where
  faults : d'.faults = d.faults
  sectors : ∀ b, b ∉ r → d'.sectors b = d.sectors b

theorem Confined.refl (r : Set Nat) (d : Drive) : Confined r d d := ⟨rfl, fun _ _ => rfl⟩

theorem Confined.trans (h : Confined r d d') (h' : Confined r d' d'') : Confined r d d'' := by
  constructor
  · rw [h'.faults, h.faults]
  · intro b hb
    rw [h'.sectors b hb, h.sectors b hb]

theorem Confined.mono (h : Confined r d d') (hr : r ⊆ r') : Confined r' d d' :=
  ⟨h.faults, fun b hb => h.sectors b (fun hm => hb (hr hm))⟩

theorem Confined.reliable (h : Confined r d d') (hr : d.Reliable) : d'.Reliable := by
  intro k
  rw [h.faults]
  exact hr k

theorem blockdevRead_confined (r : Set Nat) (d : Drive) (lba : UInt32) :
    Confined r d (blockdevRead d lba).1 := by
  cases hr : blockdevRead d lba with
  | mk d' sector =>
    obtain ⟨hs, -, hf⟩ := blockdevRead_frame hr
    exact ⟨hf, fun b _ => by rw [hs]⟩

/-- A flush, cut short or not, stays within the metadata sectors. -/
theorem sfsFlush_confined (s : SimpleFs) : Confined (Set.Ico 128 137) s.dev (sfsFlush s).1.dev := by
  obtain ⟨xs, hx, -, hb⟩ := sfsFlush_issued s
  refine ⟨hx.faults, ?_⟩
  intro b hout
  apply hx.other
  intro x hmem he
  exact hout (he ▸ hb x hmem)

theorem readLoop_confined (r : Set Nat) (start offset len : UInt32) (d : Drive) (copied : UInt32)
    (out : List UInt8) : Confined r d (readLoop start offset len d copied out).1 := by
  induction hm : len.toNat - copied.toNat using Nat.strongRecOn generalizing d copied out with
  | ind m ih =>
    rw [readLoop]
    split
    · rename_i hlt
      have hread := blockdevRead_confined r d (start + (offset + copied) / 512)
      have hstep := (chunk_step hlt (offset + copied)).2
      have hltn := UInt32.lt_iff_toNat_lt.mp hlt
      dsimp only
      cases hr : blockdevRead d (start + (offset + copied) / 512) with
      | mk d' sector =>
        rw [hr] at hread
        cases sector with
        | none => exact hread
        | some sector => exact hread.trans (ih _ (by omega) d' _ _ rfl)
    · exact Confined.refl r d

theorem sfsRead_confined (r : Set Nat) (s : SimpleFs) (nodeId offset len : UInt32) :
    (sfsRead s nodeId offset len).1.super = s.super ∧
      (sfsRead s nodeId offset len).1.entries = s.entries ∧
      Confined r s.dev (sfsRead s nodeId offset len).1.dev := by
  unfold sfsRead
  split
  · exact ⟨rfl, rfl, Confined.refl r s.dev⟩
  · dsimp only
    split
    · exact ⟨rfl, rfl, Confined.refl r s.dev⟩
    · exact ⟨rfl, rfl, readLoop_confined r _ _ _ _ _ _⟩

/-- A file keeps its bytes while only other sectors change. -/
theorem Confined.content {s : SimpleFs} (h : Confined r s.dev d') (hx : Allocation s.super s.entries)
    (hf : (s.entries n).IsFile) (hr : ∀ b ∈ (s.entries n).extent, b ∉ r) :
    content s.entries d'.sectors n = VertexOS.content s.entries s.dev.sectors n := by
  apply content_congr hx.toExtentCondition hf
  · intro hsize h0
    exact hsize (hx.unallocated n hf h0)
  · intro a ha
    unfold byte
    rw [h.sectors _ (hr _ ha)]

/-- No file lies in the metadata sectors. -/
theorem Allocation.outside_metadata (hx : Allocation sb es) (n : Fin 64) :
    ∀ b ∈ (es n).extent, b ∉ Set.Ico 128 137 := by
  intro b hb hm
  have := (hx.bounds hb).1
  rw [Set.mem_Ico] at hm
  omega

end VertexOS
