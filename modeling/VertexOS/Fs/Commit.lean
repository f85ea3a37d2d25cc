import VertexOS.Fs.Reboot

namespace VertexOS
open Library.BlockStore Library.Packing

/-- The names from the root down to entry `i`, read off `fuel` parent steps. -/
def pathFrom (es : Table) : Nat → Fin 64 → List (List UInt8)
  | 0, _ => []
  | fuel + 1, i => if i = 0 then [] else pathFrom es fuel (parentSlot es i) ++ [(es i).nameString]

/-- The path of an entry; a tree of 64 entries is never deeper. -/
def pathOf (es : Table) (i : Fin 64) : List (List UInt8) := pathFrom es 64 i

/-- Paths are decided by the parents and names along the way. -/
theorem pathFrom_congr {P : Fin 64 → Prop} (hclosed : ∀ i, P i → P (parentSlot es i))
    (hparent : ∀ i, P i → (es' i).parent = (es i).parent)
    (hname : ∀ i, P i → (es' i).nameString = (es i).nameString) (fuel : Nat) (hi : P i) :
    pathFrom es' fuel i = pathFrom es fuel i := by
  induction fuel generalizing i with
  | zero => rfl
  | succ fuel ih =>
    have hslot : parentSlot es' i = parentSlot es i := by
      unfold parentSlot
      rw [hparent i hi]
    rw [pathFrom, pathFrom, hslot, ih (hclosed i hi), hname i hi]

/-- Where the data writes of a call on entry `n` may land: in the data area, and
in no other file's extent. -/
def dataRegion (es : Table) (n : Fin 64) : Set Nat :=
  {a | 137 ≤ a / 512 ∧ ∀ m, m ≠ n → a / 512 ∉ (es m).extent}

/-- A call that got as far as its flush: `data` are its data writes and `n` the
one entry it changed. -/
structure Commit (s : SimpleFs) (n : Fin 64) (data : List (Write 512)) (s' : SimpleFs) : Prop where
  wrote : Wrote s.dev (data ++ metadataWrites s'.super s'.entries) s'.dev
  touches : Touches (dataRegion s.entries n) s.dev.sectors data
  super : SuperFrame s.super s'.super
  free : s.super.nextFreeLba.toNat ≤ s'.super.nextFreeLba.toNat
  other : ∀ m, m ≠ n → s'.entries m = s.entries m
  path : ∀ m, m ≠ n → (s.entries m).used ≠ 0 → pathOf s'.entries m = pathOf s.entries m
  allocation : Allocation s'.super s'.entries

/-- Shrinking an extent, or giving it up, keeps the allocation sound. -/
theorem Allocation.shrink (hx : Allocation sb es) (hext : e.extent ⊆ (es n).extent)
    (hfit : e.IsFile → e.size.toNat ≤ 512 * e.capacitySectors.toNat)
    (hun : e.IsFile → e.startLba = 0 → e.size = 0) : Allocation sb (Function.update es n e) := by
  refine ⟨⟨hx.packed.shrink ?_, ?_⟩, hx.frontier, ?_⟩
  · intro i
    by_cases hi : i = n
    · subst hi
      simpa using hext
    · simp [hi]
  · intro i hf
    by_cases hi : i = n
    · subst hi
      rw [Function.update_self] at hf ⊢
      exact hfit hf
    · rw [Function.update_of_ne hi] at hf ⊢
      exact hx.fits i hf
  · intro i hf h0
    by_cases hi : i = n
    · subst hi
      rw [Function.update_self] at hf h0 ⊢
      exact hun hf h0
    · rw [Function.update_of_ne hi] at hf h0 ⊢
      exact hx.unallocated i hf h0

/-- An update of one entry, followed by the flush. -/
theorem commit_update (hr : s.dev.Reliable)
    (hx : Allocation s.super (Function.update s.entries n e))
    (hpath : ∀ m, m ≠ n → (s.entries m).used ≠ 0 →
      pathOf (Function.update s.entries n e) m = pathOf s.entries m) :
    ∃ s', sfsFlush { s with entries := Function.update s.entries n e } = (s', true) ∧
      Commit s n [] s' := by
  obtain ⟨dev, hf⟩ := sfsFlush_reliable (s := { s with entries := Function.update s.entries n e }) hr
  obtain ⟨-, -, hw⟩ := sfsFlush_done hf
  exact ⟨_, hf, hw, trivial, SuperFrame.refl _, le_refl _,
    fun m hm => Function.update_of_ne hm _ _, hpath, hx⟩

/-- A new entry holds nothing yet. -/
theorem Allocation.add (hx : Allocation sb es) (hn : NewEntry es idx e type) :
    Allocation sb (Function.update es idx e) := by
  obtain ⟨hstart, hsize, -⟩ := hn.fresh
  apply hx.shrink
  · rw [show e.extent = ∅ from if_neg (fun h => h.2 hstart)]
    exact Set.empty_subset _
  · intro _
    simp [hsize]
  · intro _ _
    exact hsize

/-- An emptied file keeps its extent. -/
theorem Allocation.empty (hx : Allocation sb es) (n : Fin 64) :
    Allocation sb (Function.update es n { es n with size := 0 }) := by
  apply hx.shrink
  · exact fun a ha => ha
  · intro _
    simp
  · exact fun _ _ => rfl

/-- What a remove leaves holds nothing. -/
theorem Allocation.clear (hx : Allocation sb es) (n : Fin 64) :
    Allocation sb (Function.update es n Entry.zero) := by
  apply hx.shrink
  · rw [show Entry.zero.extent = ∅ from if_neg (fun h => zero_not_file h.1)]
    exact Set.empty_subset _
  · exact fun h => absurd h zero_not_file
  · exact fun h => absurd h zero_not_file

theorem create_commit (hr : s.dev.Reliable) (hx : Allocation s.super s.entries)
    (ht : DirectoryTree s.super s.entries) (hn : NewEntry s.entries idx e type) :
    ∃ s', sfsFlush { s with entries := Function.update s.entries idx e } = (s', true) ∧
      Commit s idx [] s' := by
  have hold : ∀ i, (s.entries i).used ≠ 0 → i ≠ idx := fun i hi he => hi (he ▸ hn.free)
  refine commit_update hr (hx.add hn) ?_
  intro m _ hm
  refine pathFrom_congr (P := fun i => (s.entries i).used ≠ 0) ht.tree.parent_used ?_ ?_ 64 hm
  · intro i hi
    rw [Function.update_of_ne (hold i hi)]
  · intro i hi
    rw [Function.update_of_ne (hold i hi)]

theorem remove_commit (hr : s.dev.Reliable) (hx : Allocation s.super s.entries)
    (ht : DirectoryTree s.super s.entries) (hn : Removable s.entries n) :
    ∃ s', sfsFlush { s with entries := Function.update s.entries n Entry.zero } = (s', true) ∧
      Commit s n [] s' := by
  refine commit_update hr (hx.clear n) ?_
  intro m hm hu
  refine pathFrom_congr (P := fun i => (s.entries i).used ≠ 0 ∧ i ≠ n) ?_ ?_ ?_ 64 ⟨hu, hm⟩
  · intro i hi
    exact ⟨ht.tree.parent_used i hi.1, hn.childless i hi.1⟩
  · intro i hi
    rw [Function.update_of_ne hi.2]
  · intro i hi
    rw [Function.update_of_ne hi.2]

theorem SameShape.nameString (h : SameShape es es') (i : Fin 64) :
    (es' i).nameString = (es i).nameString := by
  unfold Entry.nameString
  rw [h.nameBytes]

theorem SameShape.pathOf (h : SameShape es es') (i : Fin 64) :
    pathOf es' i = VertexOS.pathOf es i :=
  pathFrom_congr (P := fun _ => True) (fun _ _ => trivial) (fun i _ => h.parent i)
    (fun i _ => h.nameString i) 64 trivial

theorem truncate_commit (hr : s.dev.Reliable) (hx : Allocation s.super s.entries)
    (n : Fin 64) :
    ∃ s', sfsFlush { s with
        entries := Function.update s.entries n { s.entries n with size := 0 } } = (s', true) ∧
      Commit s n [] s' := by
  refine commit_update hr (hx.empty n) ?_
  intro m _ _
  exact (SameShape.update s.entries n (s.entries n).startLba 0
    (s.entries n).capacitySectors).pathOf m

section WriteRun

variable {s s1 s' : SimpleFs} {n : Fin 64} {offset len : UInt32} {data : Nat → UInt8}
  {ws1 ws2 : List (Write 512)} (h : WriteRun s n offset data len s1 ws1 ws2 s')
  (hx : Allocation s.super s.entries) (hf : (s.entries n).IsFile)
  (hwrap : offset.toNat + len.toNat + 511 < 4294967296)
  (hroom : s.super.nextFreeLba.toNat + (offset.toNat + len.toNat + 511) / 512 ≤ 65536)

include h hx hf hwrap hroom

/-- Both kinds of data writes stay within the file's new extent or the free end. -/
theorem WriteRun.touches_data : Touches (dataRegion s.entries n) s.dev.sectors (ws1 ++ ws2) := by
  have hneed := needSectors_toNat hwrap
  rw [← hneed] at hroom
  obtain ⟨hx1, hstart⟩ := h.placed.allocation hx hf hroom
  have hcap := (h.placed.room hroom).1
  have hfront := hx.frontier
  rw [sfsDataLba_toNat] at hfront
  refine Touches.append ?_ ?_
  · rcases h.placed with _ | ⟨hw, ht, -, -⟩
    · trivial
    · refine ht.mono (fun a ha => ?_)
      rw [Set.mem_Ico] at ha
      refine ⟨by omega, fun m _ hm => ?_⟩
      have := hx.bounds hm
      omega
  · rw [← h.placed.wrote.sectors]
    refine h.touches.mono (fun a ha => ?_)
    rw [Set.mem_Ico] at ha
    have hmem : a / 512 ∈ (s1.entries n).extent := by
      rw [extent_of_file ((h.placed.isFile n).mpr hf) hstart, Set.mem_Ico]
      omega
    refine ⟨(hx1.bounds hmem).1, fun m hm hin => ?_⟩
    have hdis := hx1.packed.disjoint m n hm
    simp only [h.placed.other hm] at hdis
    exact Set.disjoint_left.mp hdis hin hmem

omit hroom in
/-- A write that gets a new extent, or starts at or after the old end, leaves the
bytes of the old content alone until the metadata changes. -/
theorem WriteRun.touches_old
    (hkeep : (s.entries n).startLba = 0 ∨ (s.entries n).capacitySectors < needSectors offset len ∨
      (s.entries n).size ≤ offset) :
    Touches {a | ∀ k, k < (s.entries n).size.toNat → a ≠ 512 * (s.entries n).startLba.toNat + k}
      s.dev.sectors (ws1 ++ ws2) := by
  have hfront := hx.frontier
  rw [sfsDataLba_toNat] at hfront
  -- where old content exists, it ends below the free end
  have hold : ∀ k, k < (s.entries n).size.toNat →
      (512 * (s.entries n).startLba.toNat + k) / 512 < s.super.nextFreeLba.toNat := by
    intro k hk
    have hs : (s.entries n).startLba ≠ 0 := by
      intro h0
      rw [hx.unallocated n hf h0] at hk
      exact absurd hk (by simp)
    exact (hx.bounds (hx.mem_extent hf hs hk)).2
  have htouch := h.touches
  rcases h.placed with ⟨hs, hc⟩ | ⟨hw, ht, -, -⟩
  · rw [List.nil_append]
    refine htouch.mono (fun a ha k hk he => ?_)
    rw [Set.mem_Ico] at ha
    rcases hkeep with h0 | hlt | hoff
    · exact hs h0
    · have := UInt32.lt_iff_toNat_lt.mp hlt
      omega
    · have := UInt32.le_iff_toNat_le.mp hoff
      omega
  · refine Touches.append (ht.mono (fun a ha k hk he => ?_)) ?_
    · rw [Set.mem_Ico] at ha
      have := hold k hk
      omega
    · rw [grow_dev, hw.sectors, grow_self] at htouch
      refine htouch.mono (fun a ha k hk he => ?_)
      rw [Set.mem_Ico] at ha
      have := hold k hk
      dsimp only at ha
      omega

theorem WriteRun.commit : Commit s n (ws1 ++ ws2) s' := by
  have hneed := needSectors_toNat hwrap
  have hroom' := hroom
  rw [← hneed] at hroom'
  refine ⟨?_, h.touches_data hx hf hwrap hroom, ?_, ?_, fun m hm => h.other hm, ?_,
    h.allocation hx hf hwrap (h.placed.reserved hx hf hroom')⟩
  · rw [List.append_assoc]
    exact h.allWrites
  · rw [h.super]
    rcases h.placed with _ | _
    · exact SuperFrame.refl _
    · rfl
  · rw [h.super]
    rcases h.placed with _ | _
    · exact le_refl _
    · simp only [grow_super, UInt32.toNat_add]
      omega
  · intro m hm _
    have hshape : SameShape s.entries s'.entries := by
      have hother : ∀ (β : Type) (f : Entry → β) (i : Fin 64),
          (i = n → f (s'.entries n) = f (s.entries n)) → f (s'.entries i) = f (s.entries i) := by
        intro β f i hi
        by_cases hin : i = n
        · subst hin
          exact hi rfl
        · rw [h.other hin]
      refine ⟨fun i => hother _ Entry.used i ?_, fun i => hother _ Entry.type i ?_,
        fun i => hother _ Entry.perm i ?_, fun i => hother _ Entry.parent i ?_,
        fun i => hother _ Entry.name i ?_⟩ <;>
      · intro _
        rw [h.self, h.placed.self]
    exact hshape.pathOf m

end WriteRun

end VertexOS
