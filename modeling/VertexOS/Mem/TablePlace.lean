import VertexOS.Mem.Mmu

namespace VertexOS
open Library.Transitions

/-- The last call that mapped the page of an address. -/
def lastCall (calls : List MapCall) (a : UInt32) : Option MapCall :=
  calls.reverse.find? fun c => a.toNat / 4096 = c.virtualAddr.toNat / 4096

/-- The page of a frame is still mapped to the frame itself: by the last call for
it, or by the identity map outside the heap. -/
def FrameInPlace (calls : List MapCall) (fr : UInt32) : Prop :=
  match lastCall calls fr with
  | some c => c.physicalAddr &&& frameMask = fr
  | none => fr < identityMapLimit ∧ ¬InHeap fr

/-- Without an entry in the directory, `fr` is the frame of the next table. -/
def NextTable (s : Paging) (v fr : UInt32) : Prop :=
  ¬Present s (pdIndex v) ∧ ∃ r, pmmAllocFrame s.pmm = some r ∧ r.2 = fr

/-- One of the first `n` pages of the heap. -/
def HeapPage (n : Nat) (a : UInt32) : Prop :=
  heapStart.toNat / 4096 ≤ a.toNat / 4096 ∧ a.toNat / 4096 < heapStart.toNat / 4096 + n

theorem heapPage_inHeap (a : UInt32) : HeapPage 256 a ↔ InHeap a := by
  have h1 : heapStart.toNat = 16777216 := rfl
  have h2 : heapSize.toNat = 1048576 := rfl
  unfold HeapPage InHeap
  omega

/-- The directory and its tables are mapped to themselves, and the heap's pages
to frames of their own. -/
structure TablesHome (n : Nat) (s : Paging) : Prop where
  aligned : s.pageDirectory.toNat % 4096 = 0
  tables : Tables s
  marked : Marked s
  home : ∀ fr, InUse s fr → translate s fr = some fr
  heap : ∀ a, HeapPage n a → ∃ q, translate s a = some q ∧ ¬InUse s q ∧
    q.toNat / 4096 ∉ clearFrames s.pmm

/-- The arguments leave the tables and the heap where they are. -/
structure Leaves (n : Nat) (s : Paging) (v p : UInt32) : Prop where
  tables : ∀ fr, InUse s fr ∨ NextTable s v fr → v.toNat / 4096 = fr.toNat / 4096 →
    p &&& frameMask = fr
  heap : HeapPage n v → ¬InUse s (p &&& frameMask) ∧
    (p &&& frameMask).toNat / 4096 ∉ clearFrames s.pmm

section Step

variable {s s' : Paging} {v p f : UInt32} {n : Nat}

theorem pmmAllocFrame_clear {m : Pmm} (h : pmmAllocFrame m = some r) :
    r.2.toNat / 4096 ∈ clearFrames m ∧
      clearFrames r.1 = (clearFrames m).erase (r.2.toNat / 4096) := by
  rcases pmmAllocFrame_cases m with ⟨hnone, -⟩ | ⟨fr, t, hfr, -, ht, hsome⟩
  · rw [hnone] at h
    cases h
  · rw [hsome] at h
    cases h
    change t.toNat / 4096 ∈ _ ∧ clearFrames (m.take fr) = (clearFrames m).erase (t.toNat / 4096)
    rw [ht, Nat.mul_div_cancel_left _ (by decide), take_clear]
    exact ⟨hfr, rfl⟩

/-- The frames a call puts to use, and the frames it leaves. -/
theorem pagingMapPage_frames (hs : Tables s) (hfresh : FreshFrames s)
    (h : pagingMapPage s v p f = some s') :
    s'.pageDirectory = s.pageDirectory ∧ clearFrames s'.pmm ⊆ clearFrames s.pmm ∧
      ∀ fr, InUse s' fr → InUse s fr ∨ NextTable s v fr := by
  by_cases hd : s.pageDirectory = 0
  · simp [pagingMapPage, hd] at h
  rw [pagingMapPage_eq s v p f hd] at h
  split at h
  · next hp =>
    have hnew : ¬Present s (pdIndex v) := fun hc => hc hp
    cases hr : pmmAllocFrame s.pmm with
    | none => simp [addTable, hr] at h
    | some r =>
      cases hadd : addTable s (pdIndex v) with
      | none => simp [hadd] at h
      | some s1 =>
        obtain ⟨fr, t, ht, hpmm, ha, -, -⟩ := addTable_added hfresh _ hadd
        have hs1 := ha.tables hs
        have hv : Present s1 (pdIndex v) := (ha.present _).mpr (.inl rfl)
        rw [hadd] at h
        cases h
        refine ⟨ha.directory, ?_, ?_⟩
        · rw [setEntry_pmm, hpmm, take_clear]
          exact Finset.erase_subset _ _
        · intro q hq
          rw [setEntry_inUse hs1 hv, ha.inUse (pdIndex_lt v) hnew] at hq
          rcases hq with rfl | hold
          · right
            exact ⟨hnew, r, hr, (addTable_table hr hadd).symm.trans ha.table_new⟩
          · exact .inl hold
  · next hp =>
    cases h
    refine ⟨rfl, Finset.Subset.refl _, ?_⟩
    intro q hq
    rw [setEntry_inUse hs hp] at hq
    exact .inl hq

/-- One call of `paging_map_page` that leaves the tables and the heap in place. -/
theorem TablesHome.map (h : TablesHome n s) (hl : Leaves n s v p)
    (hnew : ∀ fr, NextTable s v fr → translate s fr = some fr)
    (hstep : pagingMapPageMapped s v p f = some s') :
    TablesHome n s' ∧ clearFrames s'.pmm ⊆ clearFrames s.pmm ∧
      (∀ fr, InUse s' fr → InUse s fr ∨ NextTable s v fr) ∧
      ∀ a, walk s' a =
        if a.toNat / 4096 = v.toNat / 4096 then some (translation p f) else walk s a := by
  rw [pagingMapPageMapped_eq v p f h.tables h.marked.fresh h.aligned h.home
    (fun r hp hr => hnew r.2 ⟨hp, r, hr, rfl⟩)] at hstep
  obtain ⟨hs, hm, hw⟩ := pagingMapPage_spec h.tables h.marked.fresh hstep
  obtain ⟨hdir, hclear, huse⟩ := pagingMapPage_frames h.tables h.marked.fresh hstep
  have hpage : ∀ a, a.toNat / 4096 = v.toNat / 4096 → translate s' a = some (p &&& frameMask) := by
    intro a ha
    rw [translate, hw, if_pos ha]
    rfl
  have hother : ∀ a, a.toNat / 4096 ≠ v.toNat / 4096 → translate s' a = translate s a := by
    intro a ha
    rw [translate, hw, if_neg ha, translate]
  refine ⟨⟨by rw [hdir]; exact h.aligned, hs, hm h.marked, ?_, ?_⟩, hclear, huse, hw⟩
  · intro fr hfr
    by_cases ha : fr.toNat / 4096 = v.toNat / 4096
    · rw [hpage fr ha, hl.tables fr (huse fr hfr) ha.symm]
    · rw [hother fr ha]
      rcases huse fr hfr with hold | hnext
      · exact h.home fr hold
      · exact hnew fr hnext
  · intro a ha
    have hfree : ∀ q, ¬InUse s q → q.toNat / 4096 ∉ clearFrames s.pmm →
        ¬InUse s' q ∧ q.toNat / 4096 ∉ clearFrames s'.pmm := by
      intro q hq hc
      refine ⟨fun hin => ?_, fun hmem => hc (hclear hmem)⟩
      rcases huse q hin with hold | ⟨-, r, hr, rfl⟩
      · exact hq hold
      · exact hc (pmmAllocFrame_clear hr).1
    by_cases hav : a.toNat / 4096 = v.toNat / 4096
    · have hv : HeapPage n v := by
        unfold HeapPage at ha ⊢
        rwa [← hav]
      obtain ⟨hq, hc⟩ := hl.heap hv
      exact ⟨_, hpage a hav, hfree _ hq hc⟩
    · obtain ⟨q, hq, huseq, hc⟩ := h.heap a ha
      rw [hother a hav]
      exact ⟨q, hq, hfree q huseq hc⟩

end Step

/-- The tables are in place, and the other pages where the last call for them or
the identity map has put them. -/
structure InPlace (m : Mmu) : Prop where
  home : TablesHome 256 m.paging
  called : ∀ a c, lastCall m.calls a = some c →
    walk m.paging a = some (translation c.physicalAddr c.flags)
  rest : ∀ a, lastCall m.calls a = none → ¬InHeap a →
    walk m.paging a = identityMap identityMapLimit a

/-- A call that does not lead to the defect: the next table's frame, if it takes
one, is in place, and the tables and the heap's frames are left alone. -/
def Harmless (m : Mmu) : MmuCall → Prop
  | .map c => Leaves 256 m.paging c.virtualAddr c.physicalAddr ∧
      ∀ fr, Allocates m.paging c fr → FrameInPlace m.calls fr
  | _ => True

def harmlessStep (m : Mmu) (c : MmuCall) (m' : Mmu) : Prop := Harmless m c ∧ mmuStep m c m'

theorem lastCall_snoc (calls : List MapCall) (c : MapCall) (a : UInt32) :
    lastCall (calls ++ [c]) a =
      if a.toNat / 4096 = c.virtualAddr.toNat / 4096 then some c else lastCall calls a := by
  by_cases h : a.toNat / 4096 = c.virtualAddr.toNat / 4096
  · simp [lastCall, h]
  · simp [lastCall, h]

theorem identityMap_frame {fr : UInt32} (hfr : fr.toNat % 4096 = 0) :
    (identityMap identityMapLimit fr).map Translation.frame = some fr ↔
      fr < identityMapLimit := by
  have hl : (identityMapLimit.toNat + 4095) / 4096 * 4096 = identityMapLimit.toNat := by decide
  unfold identityMap
  rw [hl, UInt32.lt_iff_toNat_lt]
  by_cases hlt : fr.toNat < identityMapLimit.toNat
  · rw [if_pos hlt, Option.map_some]
    constructor
    · intro _
      exact hlt
    · intro _
      exact congrArg some (frameMask_aligned hfr)
  · rw [if_neg hlt]
    constructor
    · intro h
      cases h
    · intro h
      exact absurd h hlt

section Run

variable {m m' : Mmu} {v fr : UInt32}

theorem TablesHome.allocates {n : Nat} {s : Paging} (h : TablesHome n s) (c : MapCall) :
    Allocates s c fr ↔ NextTable s c.virtualAddr fr := by
  have hload := loadMapped_home h.aligned (pdIndex_lt c.virtualAddr) (h.home _ (.inl rfl))
  unfold Allocates NextTable Present
  rw [hload]
  constructor
  · rintro ⟨pde, r, hpde, hp, hr, hfr⟩
    cases hpde
    exact ⟨not_not.mpr hp, r, hr, hfr⟩
  · rintro ⟨hp, r, hr, hfr⟩
    exact ⟨_, r, rfl, not_not.mp hp, hr, hfr⟩

/-- A frame that is handed out is mapped to itself exactly if it is in place: a
page of the heap leads to a frame that was taken before. -/
theorem InPlace.frame (h : InPlace m) (hr : pmmAllocFrame m.paging.pmm = some r) :
    translate m.paging r.2 = some r.2 ↔ FrameInPlace m.calls r.2 := by
  have haligned := pmmAllocFrame_aligned hr
  unfold FrameInPlace
  cases hl : lastCall m.calls r.2 with
  | some c =>
    rw [translate, h.called _ c hl]
    simp [translation]
  | none =>
    by_cases hheap : InHeap r.2
    · obtain ⟨q, hq, -, hclear⟩ := h.home.heap r.2 ((heapPage_inHeap r.2).mpr hheap)
      constructor
      · intro hhome
        rw [hq] at hhome
        cases hhome
        exact absurd (pmmAllocFrame_clear hr).1 hclear
      · intro hplace
        exact absurd hheap hplace.2
    · rw [translate, h.rest _ hl hheap, identityMap_frame haligned]
      simp [hheap]

theorem InPlace.step (h : InPlace m) (hstep : harmlessStep m c m') : InPlace m' := by
  obtain ⟨hharm, hstep⟩ := hstep
  cases c with
  | allocFrame =>
    obtain ⟨r, hr, rfl⟩ := hstep
    obtain ⟨-, hclear⟩ := pmmAllocFrame_clear hr
    have hsub : ∀ f, f ∈ clearFrames r.1 → f ∈ clearFrames m.paging.pmm := by
      intro f hf
      rw [hclear] at hf
      exact Finset.mem_of_mem_erase hf
    have ht := h.home.tables
    refine ⟨⟨h.home.aligned, ⟨ht.entry, ht.apart, ht.distinct⟩, ?_, h.home.home, ?_⟩,
      h.called, h.rest⟩
    · intro q hq hmem
      exact h.home.marked q hq (hsub _ hmem)
    · intro a ha
      obtain ⟨q, hq, huse, hc⟩ := h.home.heap a ha
      exact ⟨q, hq, huse, fun hmem => hc (hsub _ hmem)⟩
  | map c =>
    obtain ⟨p, hp, rfl⟩ := hstep
    obtain ⟨hleaves, hplace⟩ := hharm
    have hnew : ∀ q, NextTable m.paging c.virtualAddr q → translate m.paging q = some q := by
      intro q hq
      have hall := (h.home.allocates c).mpr hq
      obtain ⟨-, r, hr, rfl⟩ := hq
      exact (h.frame hr).mpr (hplace r.2 hall)
    obtain ⟨hhome, -, -, hw⟩ := h.home.map hleaves hnew hp
    refine ⟨hhome, ?_, ?_⟩
    · intro a d hd
      rw [lastCall_snoc] at hd
      rw [hw]
      split at hd
      · next hpage =>
        cases hd
        rw [if_pos hpage]
      · next hpage =>
        rw [if_neg hpage]
        exact h.called a d hd
    · intro a hnone hheap
      rw [lastCall_snoc] at hnone
      split at hnone
      · cases hnone
      · next hpage =>
        rw [hw, if_neg hpage]
        exact h.rest a hnone hheap
  | heapStore a w =>
    obtain ⟨ha, p, hp, rfl⟩ := hstep
    obtain ⟨q, hq, huse, -⟩ := h.home.heap a ((heapPage_inHeap a).mpr ha)
    rw [storeMapped, hq] at hp
    cases hp
    have hother : ∀ t, t ≠ q → storeWord m.paging.ram q (wordIndex a) w t = m.paging.ram t := by
      intro t ht
      funext j
      simp [storeWord, ht]
    have hwalk := walk_ram_other huse hother m.paging.pmm
    have htrans : ∀ b, translate { m.paging with ram := storeWord m.paging.ram q (wordIndex a) w } b =
        translate m.paging b := fun b => congrArg (Option.map Translation.frame) (hwalk b)
    have huses := inUse_ram_other huse hother m.paging.pmm
    refine ⟨⟨h.home.aligned, tables_ram_other h.home.tables huse hother _, ?_, ?_, ?_⟩, ?_, ?_⟩
    · intro fr hfr
      exact h.home.marked fr ((huses fr).mp hfr)
    · intro fr hfr
      rw [htrans]
      exact h.home.home fr ((huses fr).mp hfr)
    · intro b hb
      obtain ⟨t, ht, hfree, hc⟩ := h.home.heap b hb
      exact ⟨t, (htrans b).trans ht, fun hin => hfree ((huses t).mp hin), hc⟩
    · intro b c hc
      exact (hwalk b).trans (h.called b c hc)
    · intro b hnone hb
      exact (hwalk b).trans (h.rest b hnone hb)

end Run

end VertexOS
