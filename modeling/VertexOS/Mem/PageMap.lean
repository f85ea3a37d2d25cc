import VertexOS.Mem.PageTables

namespace VertexOS
open Library.Transitions

/-- The arguments of a call of `paging_map_page`. -/
structure MapCall where
  virtualAddr : UInt32
  physicalAddr : UInt32
  flags : UInt32
  deriving DecidableEq, Repr

/-- The identity map below `limit` rounded up to a page. -/
def identityMap (limit a : UInt32) : Option Translation :=
  if a.toNat < (limit.toNat + 4095) / 4096 * 4096 then some (translation a pageWritable) else none

/-- The address space as a map from pages: the last call for the page of `a`,
else the identity map. -/
def flatMap (limit : UInt32) (calls : List MapCall) (a : UInt32) : Option Translation :=
  match calls.reverse.find? fun c => a.toNat / 4096 = c.virtualAddr.toNat / 4096 with
  | some c => some (translation c.physicalAddr c.flags)
  | none => identityMap limit a

inductive PagingCall where
  | map (c : MapCall)
  /-- The rest of the kernel allocates and frees frames. -/
  | rest (pmm : Pmm)

/-- The calls of `paging_map_page` in a run. -/
def mapCalls (cs : List PagingCall) : List MapCall :=
  cs.filterMap fun
    | .map c => some c
    | .rest _ => none

/-- Where a page is mapped, `pmm_alloc_frame` returns frames not used as
directory or table. -/
def pagingStep (s : Paging) (c : PagingCall) (s' : Paging) : Prop :=
  match c with
  | .map c => FreshFrames s ∧ pagingMapPage s c.virtualAddr c.physicalAddr c.flags = some s'
  | .rest pmm => s' = { s with pmm }

section Identity

variable {s s' : Paging}

/-- A new directory maps nothing, and its frame is marked. -/
theorem newDirectory_spec {pmm : Pmm} {r : Pmm × UInt32} (ram : Ram)
    (h : pmmAllocFrame pmm = some r) :
    Tables ⟨r.1, memset32 ram r.2 0 1024, r.2⟩ ∧ Marked ⟨r.1, memset32 ram r.2 0 1024, r.2⟩ ∧
      ∀ a, walk ⟨r.1, memset32 ram r.2 0 1024, r.2⟩ a = none := by
  have habsent : ∀ i < 1024, ¬Present ⟨r.1, memset32 ram r.2 0 1024, r.2⟩ i := by
    intro i hi
    simp [Present, hi]
  refine ⟨⟨?_, ?_, ?_⟩, ?_, ?_⟩
  · intro i hi hp
    exact absurd hp (habsent i hi)
  · intro i hi hp
    exact absurd hp (habsent i hi)
  · intro i hi j hj hp
    exact absurd hp (habsent i hi)
  · rintro fr (rfl | ⟨i, hi, hp, -⟩)
    · rcases pmmAllocFrame_cases pmm with ⟨hnone, -⟩ | ⟨f, t, hf, -, ht, hsome⟩
      · rw [hnone] at h
        cases h
      · rw [hsome] at h
        cases h
        rw [take_clear, ht, Nat.mul_div_cancel_left _ (by decide)]
        exact Finset.notMem_erase f _
    · exact absurd hp (habsent i hi)
  · intro a
    exact walk_absent (habsent _ (pdIndex_lt a))

theorem translation_page {a b : UInt32} (h : a.toNat / 4096 = b.toNat / 4096) (f : UInt32) :
    translation a f = translation b f := by
  have hm : a &&& frameMask = b &&& frameMask := by
    apply UInt32.toNat_inj.mp
    rw [show frameMask = ~~~(pageSize - 1) from rfl, page_floor, page_floor, h]
  rw [translation, translation, hm]

/-- The loop maps the pages from `i` up to `j` to themselves. -/
theorem identityLoop_spec {n i j : Nat} {addr limit : UInt32} (hs : Tables s) (hm : Marked s)
    (hi : addr.toNat = i * 4096) (hj : limit.toNat = j * 4096) (hn : j ≤ i + n)
    (h : identityLoop n s addr limit = some s') :
    Tables s' ∧ Marked s' ∧ ∀ a, walk s' a =
      if i ≤ a.toNat / 4096 ∧ a.toNat / 4096 < j then some (translation a pageWritable)
      else walk s a := by
  induction n generalizing s addr i with
  | zero =>
    cases h
    refine ⟨hs, hm, ?_⟩
    intro a
    rw [if_neg (by omega)]
  | succ n ih =>
    simp only [identityLoop] at h
    split at h
    · next hlt =>
      rw [UInt32.lt_iff_toNat_lt] at hlt
      have hmax := limit.toNat_lt
      cases hmap : pagingMapPage s addr addr pageWritable with
      | none => simp [hmap] at h
      | some s1 =>
        obtain ⟨hs1, hm1, hw1⟩ := pagingMapPage_spec hs hm.fresh hmap
        have hnext : (addr + pageSize).toNat = (i + 1) * 4096 := by
          rw [page_add] <;> omega
        rw [hmap] at h
        obtain ⟨hs', hm', hw'⟩ := ih hs1 (hm1 hm) hnext (by omega) h
        refine ⟨hs', hm', ?_⟩
        intro a
        rw [hw', hw1]
        by_cases he : a.toNat / 4096 = i
        · have hpage : a.toNat / 4096 = addr.toNat / 4096 := by omega
          rw [if_neg (by omega), if_pos hpage, if_pos (by omega), translation_page hpage]
        · have hpage : a.toNat / 4096 ≠ addr.toNat / 4096 := by omega
          rw [if_neg hpage]
          apply if_congr _ rfl rfl
          omega
    · next hlt =>
      rw [UInt32.lt_iff_toNat_lt] at hlt
      cases h
      refine ⟨hs, hm, ?_⟩
      intro a
      rw [if_neg (by omega)]

theorem pagingInitIdentity_spec {pmm : Pmm} {ram : Ram} {limit : UInt32}
    (hlimit : limit.toNat < 4294963200) (h : pagingInitIdentity pmm ram limit = some s) :
    Tables s ∧ Marked s ∧ ∀ a, walk s a = identityMap limit a := by
  cases hr : pmmAllocFrame pmm with
  | none => simp [pagingInitIdentity, hr] at h
  | some r =>
    simp only [pagingInitIdentity, hr, Option.bind_some] at h
    obtain ⟨hs0, hm0, hw0⟩ := newDirectory_spec ram hr
    have hceil : (alignUp limit pageSize).toNat = (limit.toNat + 4095) / 4096 * 4096 := by
      rw [page_ceil]
      omega
    have hfuel : (limit.toNat + 4095) / 4096 ≤ 0 + addressPages := by
      simp only [addressPages]
      omega
    obtain ⟨hs, hm, hw⟩ := identityLoop_spec hs0 hm0 (by simp) hceil hfuel h
    refine ⟨hs, hm, ?_⟩
    intro a
    have hiff : 0 ≤ a.toNat / 4096 ∧ a.toNat / 4096 < (limit.toNat + 4095) / 4096 ↔
        a.toNat < (limit.toNat + 4095) / 4096 * 4096 := by
      omega
    rw [hw, hw0, identityMap, if_congr hiff rfl rfl]

end Identity

section Runs

variable {s s' s0 : Paging} {cs : List PagingCall}

theorem flatMap_snoc (limit : UInt32) (calls : List MapCall) (c : MapCall) (a : UInt32) :
    flatMap limit (calls ++ [c]) a =
      if a.toNat / 4096 = c.virtualAddr.toNat / 4096 then
        some (translation c.physicalAddr c.flags)
      else flatMap limit calls a := by
  by_cases h : a.toNat / 4096 = c.virtualAddr.toNat / 4096
  · simp [flatMap, h]
  · simp [flatMap, h]

theorem mapCalls_snoc_map (cs : List PagingCall) (c : MapCall) :
    mapCalls (cs ++ [.map c]) = mapCalls cs ++ [c] := by
  simp [mapCalls]

theorem mapCalls_snoc_rest (cs : List PagingCall) (pmm : Pmm) :
    mapCalls (cs ++ [.rest pmm]) = mapCalls cs := by
  simp [mapCalls]

/-- The tables refine the flat map in every run. -/
theorem paging_run {limit : UInt32} (hs : Tables s0)
    (hw : ∀ a, walk s0 a = identityMap limit a) (hrun : Run pagingStep s0 cs s) :
    Tables s ∧ ∀ a, walk s a = flatMap limit (mapCalls cs) a := by
  induction cs using List.reverseRecOn generalizing s with
  | nil =>
    cases hrun
    exact ⟨hs, hw⟩
  | append_singleton cs c ih =>
    obtain ⟨s1, hrun1, hstep⟩ := hrun.snoc_inv
    obtain ⟨hs1, hw1⟩ := ih hrun1
    cases c with
    | map c =>
      obtain ⟨hfresh, hmap⟩ := hstep
      obtain ⟨hs', -, hw'⟩ := pagingMapPage_spec hs1 hfresh hmap
      refine ⟨hs', ?_⟩
      intro a
      rw [hw', hw1, mapCalls_snoc_map, flatMap_snoc]
    | rest pmm =>
      cases hstep
      rw [mapCalls_snoc_rest]
      exact ⟨⟨hs1.entry, hs1.apart, hs1.distinct⟩, hw1⟩

/-- After any calls of `paging_map_page` the two levels of tables are the flat
map of these calls, and one more call changes the translation of one page. -/
theorem paging_is_flat_map {pmm : Pmm} {ram : Ram} {limit : UInt32}
    (hlimit : limit.toNat < 4294967296 - 4096)
    (hinit : pagingInitIdentity pmm ram limit = some s0) (hrun : Run pagingStep s0 cs s) :
    (∀ a, walk s a = flatMap limit (mapCalls cs) a) ∧
    ∀ c s', pagingStep s (.map c) s' → ∀ a : UInt32,
      a.toNat / 4096 ≠ c.virtualAddr.toNat / 4096 → walk s' a = walk s a := by
  obtain ⟨hs0, -, hw0⟩ := pagingInitIdentity_spec hlimit hinit
  obtain ⟨hs, hw⟩ := paging_run hs0 hw0 hrun
  refine ⟨hw, ?_⟩
  intro c s' hstep a ha
  obtain ⟨-, -, hw'⟩ := pagingMapPage_spec hs hstep.1 hstep.2
  rw [hw', if_neg ha]

/-- Frame 0 is taken, every other frame is clear. -/
def lowTaken : Pmm := ⟨fun i => if i = 0 then 1 else 0, 0, 0⟩

theorem paging_is_flat_map_remap : ∃ s0 s,
    pagingInitIdentity lowTaken (fun _ _ => 0) 0x2000 = some s0 ∧
    Run pagingStep s0 [.map ⟨0x400000, 0x5007, 0x7⟩] s ∧
    walk s 0x400123 = some ⟨0x5000, 0x7, true⟩ ∧ walk s 0x1FFF = some ⟨0x1000, 0x3, true⟩ ∧
    walk s 0x2000 = none := by
  have hrun : ((pagingInitIdentity lowTaken (fun _ _ => 0) 0x2000).bind fun s0 =>
      pagingMapPage s0 0x400000 0x5007 0x7).isSome = true := by
    decide +kernel
  obtain ⟨s, hs⟩ := Option.isSome_iff_exists.mp hrun
  obtain ⟨s0, hinit, hmap⟩ := Option.bind_eq_some_iff.mp hs
  obtain ⟨-, hm, -⟩ := pagingInitIdentity_spec (by decide) hinit
  have hr : Run pagingStep s0 [.map ⟨0x400000, 0x5007, 0x7⟩] s :=
    .cons ⟨hm.fresh, hmap⟩ (.nil s)
  obtain ⟨hw, -⟩ := paging_is_flat_map (by decide) hinit hr
  refine ⟨s0, s, hinit, hr, ?_, ?_, ?_⟩ <;> rw [hw] <;> decide

end Runs

end VertexOS
