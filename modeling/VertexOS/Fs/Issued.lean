import VertexOS.Fs.Calls

namespace VertexOS
open Library.BlockStore

/-- A file's sectors are written upwards: the first one decides how low the data
loop of `sfs_write` reaches, since it stops at the first refused sector. -/
theorem writeLoop_issued (start offset : UInt32) (data : Nat → UInt8) (len : UInt32) (d : Drive)
    (copied : UInt32) : ∃ xs, Issued d xs (writeLoop start offset data len d copied).1 ∧
      (∀ b, b ≤ 65536 → b ≤ (start + (offset + copied) / 512).toNat → ∀ x ∈ xs, b ≤ x.1.block) ∧
      (copied < len → ∃ x ∈ xs, x.1.block = (start + (offset + copied) / 512).toNat) := by
  induction hm : len.toNat - copied.toNat using Nat.strongRecOn generalizing d copied with
  | ind m ih =>
    rw [writeLoop]
    by_cases hlt : copied < len
    · simp only [dif_pos hlt]
      cases hr : blockdevRead d (start + (offset + copied) / 512) with
      | mk d1 r =>
        dsimp only
        generalize overlay (r.getD fun _ => 0) ((offset + copied) % 512).toNat
          (chunkAt (offset + copied) (len - copied)).toNat data copied.toNat = sector
        have h1 := blockdevRead_issued hr
        cases hw : blockdevWrite d1 (start + (offset + copied) / 512) sector with
        | mk d2 done =>
          have h2 := h1.trans (blockdevWrite_issued hw)
          rw [List.nil_append] at h2
          cases done with
          | false =>
            refine ⟨_, h2, ?_, fun _ => ⟨_, List.mem_singleton_self _, rfl⟩⟩
            intro b _ hb x hx
            rw [List.mem_singleton.mp hx]
            exact hb
          | true =>
            have hbound := blockdevWrite_bound hw
            obtain ⟨hnext, hprog⟩ := chunk_step hlt (offset + copied)
            have hltn := UInt32.lt_iff_toNat_lt.mp hlt
            obtain ⟨xs, h3, hlow, -⟩ := ih _ (by omega) d2
              (copied + chunkAt (offset + copied) (len - copied)) rfl
            refine ⟨_, h2.trans h3, ?_, fun _ => ⟨_, List.mem_cons_self, rfl⟩⟩
            intro b hb hfirst x hx
            rcases List.mem_cons.mp hx with rfl | hx
            · exact hfirst
            · refine hlow b hb ?_ x hx
              simp only [UInt32.toNat_add, UInt32.toNat_div, hnext,
                show (512 : UInt32).toNat = 512 from rfl] at hbound hfirst ⊢
              omega
    · rw [dif_neg hlt]
      exact ⟨[], Issued.refl d, fun b _ _ x hx => by simp at hx, fun h => absurd h hlt⟩

theorem relocateLoop_issued (old new : UInt32) (count : Nat) (d : Drive) (i : UInt32) :
    ∃ xs, Issued d xs (relocateLoop old new count d i).1 ∧
      (∀ b, b ≤ 65536 → b ≤ (new + i).toNat → ∀ x ∈ xs, b ≤ x.1.block) ∧
      (count ≠ 0 → (blockdevRead d (old + i)).2 ≠ none → ∃ x ∈ xs, x.1.block = (new + i).toNat) ∧
      ((blockdevRead d (old + i)).2 = none → xs = []) := by
  induction count generalizing d i with
  | zero =>
    exact ⟨[], Issued.refl d, fun b _ _ x hx => by simp at hx, fun h => absurd rfl h, fun _ => rfl⟩
  | succ count ih =>
    cases hr : blockdevRead d (old + i) with
    | mk d1 r =>
      have h1 := blockdevRead_issued hr
      simp only [relocateLoop, hr]
      cases r with
      | none =>
        exact ⟨[], h1, fun b _ _ x hx => by simp at hx, fun _ h => absurd rfl h, fun _ => rfl⟩
      | some tmp =>
        cases hw : blockdevWrite d1 (new + i) tmp with
        | mk d2 done =>
          have h2 := h1.trans (blockdevWrite_issued hw)
          rw [List.nil_append] at h2
          simp only [hw]
          cases done with
          | false =>
            refine ⟨_, h2, ?_, fun _ _ => ⟨_, List.mem_singleton_self _, rfl⟩, fun h => by cases h⟩
            intro b _ hb x hx
            rw [List.mem_singleton.mp hx]
            exact hb
          | true =>
            have hbound := blockdevWrite_bound hw
            obtain ⟨xs, h3, hlow, -⟩ := ih d2 (i + 1)
            refine ⟨_, h2.trans h3, ?_, fun _ _ => ⟨_, List.mem_cons_self, rfl⟩, fun h => by cases h⟩
            intro b hb hfirst x hx
            rcases List.mem_cons.mp hx with rfl | hx
            · exact hfirst
            · refine hlow b hb ?_ x hx
              simp only [UInt32.toNat_add, show (1 : UInt32).toNat = 1 from rfl] at hbound hfirst ⊢
              omega

theorem flushTable_issued (es : Table) (d : Drive) (is : List (Fin 8)) :
    ∃ xs, Issued d xs (flushTable es d is).1 ∧ ∀ x ∈ xs, 128 ≤ x.1.block ∧ x.1.block < 137 := by
  induction is generalizing d with
  | nil => exact ⟨[], Issued.refl d, fun x hx => by simp at hx⟩
  | cons i is ih =>
    cases hw : blockdevWrite d (sfsTableLba + UInt32.ofNat i) (tableSector es i) with
    | mk d1 done =>
      have h1 := blockdevWrite_issued hw
      rw [tableLba_toNat] at h1
      simp only [flushTable, hw]
      have hfirst : ∀ x ∈ [((⟨129 + i.val, tableSector es i⟩ : Write 512), done)],
          128 ≤ x.1.block ∧ x.1.block < 137 := by
        intro x hx
        rw [List.mem_singleton.mp hx]
        have := i.isLt
        constructor <;> dsimp only <;> omega
      cases done with
      | false => exact ⟨_, h1, hfirst⟩
      | true =>
        obtain ⟨xs, h2, hxs⟩ := ih d1
        refine ⟨_, h1.trans h2, fun x hx => ?_⟩
        rcases List.mem_append.mp hx with hx | hx
        · exact hfirst x hx
        · exact hxs x hx

/-- Every flush starts at the superblock and stays within the metadata sectors. -/
theorem sfsFlush_issued (s : SimpleFs) : ∃ xs, Issued s.dev xs (sfsFlush s).1.dev ∧
    (∃ x ∈ xs, x.1.block = 128) ∧ ∀ x ∈ xs, 128 ≤ x.1.block ∧ x.1.block < 137 := by
  unfold sfsFlush
  cases hw : blockdevWrite s.dev sfsSuperLba s.super.bytes with
  | mk d1 done =>
    have h1 := blockdevWrite_issued hw
    have hfirst : ∀ x ∈ [((⟨sfsSuperLba.toNat, s.super.bytes⟩ : Write 512), done)],
        128 ≤ x.1.block ∧ x.1.block < 137 := by
      intro x hx
      rw [List.mem_singleton.mp hx]
      exact ⟨le_refl 128, show 128 < 137 by decide⟩
    cases done with
    | false => exact ⟨_, h1, ⟨_, List.mem_singleton_self _, rfl⟩, hfirst⟩
    | true =>
      obtain ⟨xs, h2, hxs⟩ := flushTable_issued s.entries d1 (List.finRange 8)
      refine ⟨_, h1.trans h2, ⟨_, List.mem_cons_self, rfl⟩, fun x hx => ?_⟩
      rcases List.mem_append.mp hx with hx | hx
      · exact hfirst x hx
      · exact hxs x hx

theorem sfsReserve_issued (s : SimpleFs) (n : Fin 64) (need : UInt32) :
    ∃ xs, Issued s.dev xs (sfsReserve s n need).1.dev := by
  unfold sfsReserve
  by_cases h0 : (s.entries n).startLba = 0
  · simp only [if_pos h0]
    exact ⟨[], Issued.refl s.dev⟩
  · by_cases hc : need > (s.entries n).capacitySectors
    · simp only [if_neg h0, if_pos hc]
      obtain ⟨xs, hx, -⟩ := relocateLoop_issued (s.entries n).startLba s.super.nextFreeLba
        (s.entries n).capacitySectors.toNat s.dev 0
      cases hl : relocateLoop (s.entries n).startLba s.super.nextFreeLba
          (s.entries n).capacitySectors.toNat s.dev 0 with
      | mk dev ok =>
        rw [hl] at hx
        cases ok <;> exact ⟨xs, hx⟩
    · simp only [if_neg h0, if_neg hc]
      exact ⟨[], Issued.refl s.dev⟩

theorem sfsWrite_issued (s : SimpleFs) (nodeId offset : UInt32) (data : Nat → UInt8)
    (len : UInt32) : ∃ xs, Issued s.dev xs (sfsWrite s nodeId offset data len).1.dev := by
  unfold sfsWrite
  cases fileWith s.entries nodeId sfsPermWrite with
  | none => exact ⟨[], Issued.refl s.dev⟩
  | some n =>
    obtain ⟨xs, hx⟩ := sfsReserve_issued s n (needSectors offset len)
    dsimp only
    cases hres : sfsReserve s n (needSectors offset len) with
    | mk s1 ok =>
      rw [hres] at hx
      cases ok with
      | false => exact ⟨xs, hx⟩
      | true =>
        obtain ⟨ys, hy, -⟩ := writeLoop_issued (s1.entries n).startLba offset data len s1.dev 0
        dsimp only
        cases hloop : writeLoop (s1.entries n).startLba offset data len s1.dev 0 with
        | mk dev r =>
          rw [hloop] at hy
          cases r with
          | none => exact ⟨_, hx.trans hy⟩
          | some copied =>
            obtain ⟨zs, hz, -⟩ := sfsFlush_issued
              { s1 with dev, entries := extendSize s1.entries n (offset + len) }
            dsimp only
            cases hfl : sfsFlush
                { s1 with dev, entries := extendSize s1.entries n (offset + len) } with
            | mk s2 done =>
              rw [hfl] at hz
              cases done <;> exact ⟨_, (hx.trans hy).trans hz⟩

/-- A create without a new entry, or one that flushes the table with it. -/
theorem sfsCreate_cases (h : sfsCreate s path cwd type perm = .ok (s', nodeId)) :
    sfsCreateEntry s path cwd type perm = .ok none ∧ s' = s ∧ nodeId = none ∨
      ∃ idx e, sfsCreateEntry s path cwd type perm = .ok (some (idx, e)) ∧
        sfsFlush { s with entries := Function.update s.entries idx e } = (s', nodeId.isSome) ∧
        ∀ id, nodeId = some id → id = slotId idx := by
  unfold sfsCreate at h
  cases hr : sfsCreateEntry s path cwd type perm with
  | error => rw [hr] at h; cases h
  | ok r =>
    rw [hr] at h
    cases r with
    | none => cases h; exact Or.inl ⟨rfl, rfl, rfl⟩
    | some p =>
      obtain ⟨idx, e⟩ := p
      refine Or.inr ⟨idx, e, rfl, ?_⟩
      simp only [bind, Except.bind] at h
      cases hf : sfsFlush { s with entries := Function.update s.entries idx e } with
      | mk s2 done =>
        rw [hf] at h
        cases done with
        | false => cases h; exact ⟨rfl, fun id hid => by cases hid⟩
        | true => cases h; exact ⟨rfl, fun id hid => (Option.some.inj hid).symm⟩

theorem sfsRemove_cases (h : sfsRemove s path cwd = .ok (s', ok)) :
    sfsRemoveTarget s path cwd = .ok none ∧ s' = s ∧ ok = false ∨
      ∃ n, sfsRemoveTarget s path cwd = .ok (some n) ∧
        sfsFlush { s with entries := Function.update s.entries n Entry.zero } = (s', ok) := by
  unfold sfsRemove at h
  cases hr : sfsRemoveTarget s path cwd with
  | error => rw [hr] at h; cases h
  | ok r =>
    rw [hr] at h
    cases r with
    | none => cases h; exact Or.inl ⟨rfl, rfl, rfl⟩
    | some n => exact Or.inr ⟨n, rfl, Except.ok.inj h⟩

theorem sfsTruncate_cases (s : SimpleFs) (nodeId : UInt32) :
    fileWith s.entries nodeId sfsPermWrite = none ∧ sfsTruncate s nodeId = (s, false) ∨
      ∃ n, fileWith s.entries nodeId sfsPermWrite = some n ∧ sfsTruncate s nodeId =
        sfsFlush { s with
          entries := Function.update s.entries n { s.entries n with size := 0 } } := by
  unfold sfsTruncate
  cases fileWith s.entries nodeId sfsPermWrite with
  | none => exact Or.inl ⟨rfl, rfl⟩
  | some n => exact Or.inr ⟨n, rfl, rfl⟩

/-- Every call only adds to the record of writes and keeps the drive's faults. -/
theorem sfsStep_issued (h : sfsStep s c = .ok (s', ok)) : ∃ xs, Issued s.dev xs s'.dev := by
  cases c with
  | create path cwd type perm =>
    simp only [sfsStep, bind, Except.bind] at h
    cases hc : sfsCreate s path cwd type perm with
    | error => rw [hc] at h; cases h
    | ok p =>
      obtain ⟨s2, nodeId⟩ := p
      rw [hc] at h
      cases h
      rcases sfsCreate_cases hc with ⟨-, rfl, -⟩ | ⟨idx, e, -, hf, -⟩
      · exact ⟨[], Issued.refl _⟩
      · obtain ⟨xs, hx, -⟩ := sfsFlush_issued
          { s with entries := Function.update s.entries idx e }
        rw [hf] at hx
        exact ⟨xs, hx⟩
  | remove path cwd =>
    rcases sfsRemove_cases h with ⟨-, rfl, -⟩ | ⟨n, -, hf⟩
    · exact ⟨[], Issued.refl _⟩
    · obtain ⟨xs, hx, -⟩ := sfsFlush_issued
        { s with entries := Function.update s.entries n Entry.zero }
      rw [hf] at hx
      exact ⟨xs, hx⟩
  | write nodeId offset data len =>
    cases h
    exact sfsWrite_issued s nodeId offset data len
  | truncate nodeId =>
    rcases sfsTruncate_cases s nodeId with ⟨-, ht⟩ | ⟨n, -, ht⟩
    · cases h.symm.trans (congrArg Except.ok ht)
      exact ⟨[], Issued.refl _⟩
    · obtain ⟨xs, hx, -⟩ := sfsFlush_issued
        { s with entries := Function.update s.entries n { s.entries n with size := 0 } }
      rw [← ht, Except.ok.inj h] at hx
      exact ⟨xs, hx⟩

end VertexOS
