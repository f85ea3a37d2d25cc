import VertexOS.Fs.Metadata

namespace VertexOS
open Library.BlockStore

/-- A sector rewritten by `overlay` differs only in the overlaid bytes. -/
theorem byte_overlay (f : Store 512) (data : Nat → UInt8) (l i c k a : Nat) (hc : i + c ≤ 512) :
    byte (perform f ⟨l, overlay (f l) i c data k⟩) a =
      if 512 * l + i ≤ a ∧ a < 512 * l + i + c then data (k + (a - (512 * l + i)))
      else byte f a := by
  have ha : 512 * (a / 512) + a % 512 = a := Nat.div_add_mod a 512
  by_cases hl : a / 512 = l
  · rw [byte_perform_same f _ hl]
    subst hl
    simp only [overlay]
    by_cases hin : i ≤ a % 512 ∧ a % 512 < i + c
    · rw [if_pos hin, if_pos (by omega)]
      congr 1
      omega
    · rw [if_neg hin, if_neg (by omega)]
      rfl
  · rw [byte_perform_other f _ hl, if_neg (by omega)]

/-- What the loop of `sfs_read` delivers is what it copied. -/
theorem readLoopOut_some (h : readLoop start offset len d copied out = (d', some out')) :
    out' = out ++ readLoopOut start offset len d copied := by
  induction hm : len.toNat - copied.toNat using Nat.strongRecOn generalizing d copied out with
  | ind m ih =>
    rw [readLoop] at h
    rw [readLoopOut]
    by_cases hlt : copied < len
    · rw [dif_pos hlt] at h ⊢
      have hltn := UInt32.lt_iff_toNat_lt.mp hlt
      obtain ⟨-, hprog⟩ := chunk_step hlt (offset + copied)
      cases hread : blockdevRead d (start + (offset + copied) / 512) with
      | mk d1 r =>
        simp only [hread] at h ⊢
        cases r with
        | none => cases h
        | some sector =>
          rw [← List.append_assoc]
          exact ih _ (by omega) h rfl
    · rw [dif_neg hlt] at h ⊢
      cases h
      exact (List.append_nil _).symm

/-- It copies no more than was asked for. -/
theorem readLoopOut_length (hcl : copied.toNat ≤ len.toNat) :
    (readLoopOut start offset len d copied).length ≤ len.toNat - copied.toNat := by
  induction hm : len.toNat - copied.toNat using Nat.strongRecOn generalizing d copied with
  | ind m ih =>
    rw [readLoopOut]
    by_cases hlt : copied < len
    · rw [dif_pos hlt]
      have hltn := UInt32.lt_iff_toNat_lt.mp hlt
      have hsub : (len - copied).toNat = len.toNat - copied.toNat :=
        UInt32.toNat_sub_of_le _ _ (UInt32.le_iff_toNat_le.mpr hcl)
      have hchunk := chunkAt_toNat (offset + copied) (len - copied)
      obtain ⟨hnext, hprog⟩ := chunk_step hlt (offset + copied)
      rw [hsub] at hchunk
      cases hread : blockdevRead d (start + (offset + copied) / 512) with
      | mk d1 r =>
        simp only [hread]
        cases r with
        | none => exact Nat.zero_le _
        | some sector =>
          have hrest : (readLoopOut start offset len d1
              (copied + chunkAt (offset + copied) (len - copied))).length ≤ _ :=
            ih _ (by omega) (by omega) rfl
          simp only [List.length_append, sectorSlice, List.length_map, List.length_range]
          omega
    · rw [dif_neg hlt]
      exact Nat.zero_le _

/-- What the loop of `sfs_read` delivers, if the drive lets it finish, are the
stored bytes. -/
theorem readLoop_some (hcl : copied.toNat ≤ len.toNat) (hstart : start.toNat ≤ 65536)
    (hwrap : offset.toNat + len.toNat < 4294967296)
    (h : readLoop start offset len d copied out = (d', some out')) :
    out' = out ++ ((List.range (len.toNat - copied.toNat)).map fun k =>
        byte d.sectors (512 * start.toNat + offset.toNat + copied.toNat + k)) ∧
      d'.sectors = d.sectors ∧
      (copied.toNat < len.toNat → 512 * start.toNat + offset.toNat + len.toNat ≤ 512 * 65536) := by
  induction hm : len.toNat - copied.toNat using Nat.strongRecOn generalizing d copied out with
  | ind m ih =>
    rw [readLoop] at h
    by_cases hlt : copied < len
    · rw [dif_pos hlt] at h
      have hltn := UInt32.lt_iff_toNat_lt.mp hlt
      have habs : (offset + copied).toNat = offset.toNat + copied.toNat := by
        rw [UInt32.toNat_add]; omega
      have hlba : (start + (offset + copied) / 512).toNat =
          start.toNat + (offset.toNat + copied.toNat) / 512 := by
        rw [UInt32.toNat_add, UInt32.toNat_div, habs, show (512 : UInt32).toNat = 512 from rfl]
        omega
      have hin : ((offset + copied) % 512).toNat = (offset.toNat + copied.toNat) % 512 := by
        rw [UInt32.toNat_mod, habs]; rfl
      have hsub : (len - copied).toNat = len.toNat - copied.toNat :=
        UInt32.toNat_sub_of_le _ _ (UInt32.le_iff_toNat_le.mpr hltn.le)
      have hchunk := chunkAt_toNat (offset + copied) (len - copied)
      rw [habs, hsub] at hchunk
      obtain ⟨hnext, hprog⟩ := chunk_step hlt (offset + copied)
      rw [habs] at hnext
      cases hread : blockdevRead d (start + (offset + copied) / 512) with
      | mk d1 r =>
        simp only [hread] at h
        cases r with
        | none => cases h
        | some sector =>
          obtain ⟨hl, rfl⟩ := blockdevRead_some hread
          have hs1 := (blockdevRead_frame hread).1
          obtain ⟨hout, hsec, hlast⟩ := ih _ (by omega) (by omega) h rfl
          refine ⟨?_, hsec.trans hs1, fun _ => ?_⟩
          swap
          · by_cases hmore :
                (copied + chunkAt (offset + copied) (len - copied)).toNat < len.toNat
            · exact hlast hmore
            · omega
          rw [hout, hs1]
          have hslice : sectorSlice (d.sectors (start + (offset + copied) / 512).toNat)
              ((offset + copied) % 512).toNat (chunkAt (offset + copied) (len - copied)).toNat =
              (List.range (chunkAt (offset + copied) (len - copied)).toNat).map fun k =>
                byte d.sectors (512 * start.toNat + offset.toNat + copied.toNat + k) := by
            apply List.map_congr_left
            intro k hk
            rw [List.mem_range] at hk
            have hb := byte_block d.sectors (start + (offset + copied) / 512).toNat
              (Fin.ofNat 512 (((offset + copied) % 512).toNat + k))
            rw [← hb, Fin.val_ofNat]
            exact congrArg (byte d.sectors) (by omega)
          have hsplit : m = (chunkAt (offset + copied) (len - copied)).toNat +
              (len.toNat - (copied + chunkAt (offset + copied) (len - copied)).toNat) := by omega
          have htail : ((List.range (len.toNat -
              (copied + chunkAt (offset + copied) (len - copied)).toNat)).map fun k =>
                byte d.sectors (512 * start.toNat + offset.toNat +
                  (copied + chunkAt (offset + copied) (len - copied)).toNat + k)) =
              (List.range (len.toNat -
                (copied + chunkAt (offset + copied) (len - copied)).toNat)).map
                ((fun k => byte d.sectors (512 * start.toNat + offset.toNat + copied.toNat + k)) ∘
                  ((chunkAt (offset + copied) (len - copied)).toNat + ·)) :=
            List.map_congr_left fun k _ => congrArg (byte d.sectors) (by dsimp only; omega)
          rw [hslice, hsplit, List.range_add, List.map_append, List.map_map, htail,
            List.append_assoc]
    · rw [dif_neg hlt] at h
      have hge := UInt32.le_iff_toNat_le.mp (UInt32.not_lt.mp hlt)
      have hz : m = 0 := by omega
      cases h
      exact ⟨by simp [hz], rfl, fun hlt' => absurd hlt' (by omega)⟩

section Reliable

variable {d : Drive} (hr : d.Reliable)

include hr

/-- On a reliable drive the data loop of `sfs_write` puts the rest of the data
where it belongs and changes no other byte, at any moment. -/
theorem writeLoop_reliable (data : Nat → UInt8) (copied : UInt32) (hcl : copied.toNat ≤ len.toNat)
    (hfit : copied < len → 512 * start.toNat + offset.toNat + len.toNat ≤ 512 * 65536) :
    ∃ d' ws, writeLoop start offset data len d copied = (d', some len) ∧ Wrote d ws d' ∧
      Touches (Set.Ico (512 * start.toNat + offset.toNat + copied.toNat)
        (512 * start.toNat + offset.toNat + len.toNat)) d.sectors ws ∧
      ∀ k, copied.toNat ≤ k → k < len.toNat →
        byte d'.sectors (512 * start.toNat + offset.toNat + k) = data k := by
  induction hm : len.toNat - copied.toNat using Nat.strongRecOn generalizing d copied with
  | ind m ih =>
    rw [writeLoop]
    by_cases hlt : copied < len
    · rw [dif_pos hlt]
      have hfit := hfit hlt
      have hltn := UInt32.lt_iff_toNat_lt.mp hlt
      have habs : (offset + copied).toNat = offset.toNat + copied.toNat := by
        rw [UInt32.toNat_add]; omega
      have hlba : (start + (offset + copied) / 512).toNat =
          start.toNat + (offset.toNat + copied.toNat) / 512 := by
        rw [UInt32.toNat_add, UInt32.toNat_div, habs, show (512 : UInt32).toNat = 512 from rfl]
        omega
      have hin : ((offset + copied) % 512).toNat = (offset.toNat + copied.toNat) % 512 := by
        rw [UInt32.toNat_mod, habs]; rfl
      have hsub : (len - copied).toNat = len.toNat - copied.toNat :=
        UInt32.toNat_sub_of_le _ _ (UInt32.le_iff_toNat_le.mpr hltn.le)
      have hchunk := chunkAt_toNat (offset + copied) (len - copied)
      rw [habs, hsub] at hchunk
      obtain ⟨hnext, hprog⟩ := chunk_step hlt (offset + copied)
      rw [habs] at hnext
      have hl : (start + (offset + copied) / 512).toNat < 65536 := by omega
      obtain ⟨d1, hread, hw1⟩ := blockdevRead_reliable hr hl
      simp only [hread, Option.getD_some]
      obtain ⟨d2, hwrite, hw2⟩ := blockdevWrite_reliable (hw1.reliable hr) hl
        (overlay (d.sectors (start + (offset + copied) / 512).toNat)
          ((offset + copied) % 512).toNat (chunkAt (offset + copied) (len - copied)).toNat data
          copied.toNat)
      simp only [hwrite]
      have hs1 : d1.sectors = d.sectors := hw1.sectors
      have hw12 := hw1.trans hw2
      -- one sector written, then the loop continues at the next multiple of 512
      obtain ⟨d', ws, hloop, hw3, htouch, hdata⟩ := ih _ (by omega) (hw12.reliable hr)
        (copied + chunkAt (offset + copied) (len - copied)) (by omega)
        (fun _ => hfit) rfl
      refine ⟨d', _, hloop, hw12.trans hw3, ?_, ?_⟩
      · refine ⟨?_, ?_⟩
        · intro a ha
          simp only [Set.mem_Ico, not_and, not_lt] at ha
          rw [byte_overlay _ _ _ _ _ _ _ (by omega), if_neg (by omega)]
        · rw [hw12.sectors] at htouch
          refine htouch.mono (fun a ha => ?_)
          simp only [Set.mem_Ico] at ha ⊢
          omega
      · intro k hk hkl
        by_cases hkn : k < (copied + chunkAt (offset + copied) (len - copied)).toNat
        · rw [hw3.sectors, htouch.outside (by simp only [Set.mem_Ico]; omega), hw12.sectors]
          change byte (perform d.sectors _) _ = _
          rw [byte_overlay _ _ _ _ _ _ _ (by omega), if_pos (by omega)]
          exact congrArg data (by omega)
        · exact hdata k (by omega) hkl
    · rw [dif_neg hlt]
      have hge := UInt32.le_iff_toNat_le.mp (UInt32.not_lt.mp hlt)
      have he : copied = len := UInt32.toNat_inj.mp (by omega)
      subst he
      exact ⟨d, [], rfl, Wrote.refl d, trivial, fun k h1 h2 => by omega⟩

theorem readLoop_returns (start offset len copied : UInt32) (out : List UInt8)
    (hcl : copied.toNat ≤ len.toNat)
    (hfit : 512 * start.toNat + offset.toNat + len.toNat ≤ 512 * 65536) :
    ∃ d' out', Wrote d [] d' ∧ readLoop start offset len d copied out = (d', some out') := by
  induction hm : len.toNat - copied.toNat using Nat.strongRecOn generalizing d copied out with
  | ind m ih =>
    rw [readLoop]
    by_cases hlt : copied < len
    · rw [dif_pos hlt]
      have hltn := UInt32.lt_iff_toNat_lt.mp hlt
      have habs : (offset + copied).toNat = offset.toNat + copied.toNat := by
        rw [UInt32.toNat_add]; omega
      have hlba : (start + (offset + copied) / 512).toNat =
          start.toNat + (offset.toNat + copied.toNat) / 512 := by
        rw [UInt32.toNat_add, UInt32.toNat_div, habs, show (512 : UInt32).toNat = 512 from rfl]
        omega
      obtain ⟨hnext, hprog⟩ := chunk_step hlt (offset + copied)
      obtain ⟨d1, hread, hw1⟩ := blockdevRead_reliable hr
        (show (start + (offset + copied) / 512).toNat < 65536 by omega)
      simp only [hread]
      obtain ⟨d', out', hw, hloop⟩ := ih _ (by omega) (hw1.reliable hr)
        (copied + chunkAt (offset + copied) (len - copied)) _ (by omega) rfl
      exact ⟨d', out', hw1.trans hw, hloop⟩
    · rw [dif_neg hlt]
      exact ⟨d, out, Wrote.refl d, rfl⟩

/-- On a reliable drive the loop of `sfs_read` delivers the stored bytes. -/
theorem readLoop_reliable (start offset len copied : UInt32) (out : List UInt8)
    (hcl : copied.toNat ≤ len.toNat)
    (hfit : 512 * start.toNat + offset.toNat + len.toNat ≤ 512 * 65536) :
    ∃ d', Wrote d [] d' ∧ readLoop start offset len d copied out = (d', some (out ++
      (List.range (len.toNat - copied.toNat)).map fun k =>
        byte d.sectors (512 * start.toNat + offset.toNat + copied.toNat + k))) := by
  obtain ⟨d', out', hw, hloop⟩ := readLoop_returns hr start offset len copied out hcl hfit
  have hstored := readLoop_some hcl (by omega) (by omega) hloop
  rw [hloop, hstored.1]
  exact ⟨d', hw, rfl⟩

end Reliable

end VertexOS
