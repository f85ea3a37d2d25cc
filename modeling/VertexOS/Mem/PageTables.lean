import VertexOS.Mem.FrameRuns
import VertexOS.Mem.Paging

namespace VertexOS
open Library.Bitmap Library.Words Library.Transitions

section Words

/-- The table entry that `paging_map_page` writes. -/
def pteOf (p f : UInt32) : UInt32 := (p &&& frameMask) ||| (f &&& flagMask) ||| pagePresent

/-- The directory entry for a table. -/
def pdeOf (t : UInt32) : UInt32 := t ||| pagePresent ||| pageWritable

@[simp] theorem pteOf_frame (p f : UInt32) : pteOf p f &&& frameMask = p &&& frameMask := by
  have h1 : flagMask &&& frameMask = 0 := by decide
  have h2 : pagePresent &&& frameMask = 0 := by decide
  simp only [pteOf, or_and_distrib, UInt32.and_assoc, UInt32.and_self, h1, h2, UInt32.and_zero,
    UInt32.or_zero]

@[simp] theorem pteOf_flags (p f : UInt32) :
    pteOf p f &&& flagMask = (f &&& flagMask) ||| pagePresent := by
  have h1 : frameMask &&& flagMask = 0 := by decide
  have h2 : pagePresent &&& flagMask = pagePresent := by decide
  simp only [pteOf, or_and_distrib, UInt32.and_assoc, UInt32.and_self, h1, h2, UInt32.and_zero,
    UInt32.zero_or]

@[simp] theorem pteOf_present (p f : UInt32) : ¬pteOf p f &&& pagePresent = 0 := by
  intro h
  simp only [pteOf, or_and_distrib, UInt32.and_self] at h
  rw [UInt32.or_eq_zero_iff] at h
  exact absurd h.2 (by decide)

@[simp] theorem pteOf_writable (p f : UInt32) :
    pteOf p f &&& pageWritable = f &&& pageWritable := by
  have h1 : frameMask &&& pageWritable = 0 := by decide
  have h2 : flagMask &&& pageWritable = pageWritable := by decide
  have h3 : pagePresent &&& pageWritable = 0 := by decide
  simp only [pteOf, or_and_distrib, UInt32.and_assoc, h1, h2, h3, UInt32.and_zero,
    UInt32.zero_or, UInt32.or_zero]

theorem frameMask_aligned {t : UInt32} (h : t.toNat % 4096 = 0) : t &&& frameMask = t := by
  apply UInt32.toNat_inj.mp
  rw [show frameMask = ~~~(pageSize - 1) from rfl, page_floor]
  omega

@[simp] theorem pdeOf_present (t : UInt32) : ¬pdeOf t &&& pagePresent = 0 := by
  intro h
  simp only [pdeOf, or_and_distrib, UInt32.and_self] at h
  rw [UInt32.or_eq_zero_iff, UInt32.or_eq_zero_iff] at h
  exact absurd h.1.2 (by decide)

@[simp] theorem pdeOf_writable (t : UInt32) : ¬pdeOf t &&& pageWritable = 0 := by
  intro h
  simp only [pdeOf, or_and_distrib, UInt32.and_self] at h
  rw [UInt32.or_eq_zero_iff] at h
  exact absurd h.2 (by decide)

theorem pdeOf_frame {t : UInt32} (h : t.toNat % 4096 = 0) : pdeOf t &&& frameMask = t := by
  have h1 : pagePresent &&& frameMask = 0 := by decide
  have h2 : pageWritable &&& frameMask = 0 := by decide
  simp only [pdeOf, or_and_distrib, h1, h2, UInt32.or_zero, frameMask_aligned h]

theorem pdIndex_eq (a : UInt32) : pdIndex a = a.toNat / 4096 / 1024 := by
  rw [pdIndex, UInt32.toNat_shiftRight, Nat.shiftRight_eq_div_pow, Nat.div_div_eq_div_mul]
  rfl

theorem ptIndex_eq (a : UInt32) : ptIndex a = a.toNat / 4096 % 1024 := by
  rw [ptIndex, UInt32.toNat_and, UInt32.toNat_shiftRight, Nat.shiftRight_eq_div_pow]
  exact Nat.and_two_pow_sub_one_eq_mod _ 10

/-- Two addresses share both indices exactly when they lie in one page. -/
theorem indices_inj (a b : UInt32) :
    pdIndex a = pdIndex b ∧ ptIndex a = ptIndex b ↔ a.toNat / 4096 = b.toNat / 4096 := by
  rw [pdIndex_eq, pdIndex_eq, ptIndex_eq, ptIndex_eq]
  omega

theorem pdIndex_lt (a : UInt32) : pdIndex a < 1024 := by
  rw [pdIndex_eq]
  have := a.toNat_lt
  omega

theorem ptIndex_lt (a : UInt32) : ptIndex a < 1024 := by
  rw [ptIndex_eq]
  omega

@[simp] theorem memset32_get (m : Ram) (p v : UInt32) (n : Nat) (q : UInt32) (j : Nat) :
    memset32 m p v n q j = if q = p ∧ j < n then v else m q j := by
  induction n with
  | zero => simp [memset32]
  | succ n ih =>
    simp only [memset32, storeWord, ih]
    by_cases hq : q = p
    · by_cases hj : j = n
      · simp [hq, hj]
      · have : j < n + 1 ↔ j < n := by omega
        simp [hq, hj, this]
    · simp [hq]

end Words

section Tables

variable {s s' : Paging} {v p f : UInt32}

/-- The directory entry `i` names a page table. -/
def Present (s : Paging) (i : Nat) : Prop := ¬s.ram s.pageDirectory i &&& pagePresent = 0

def tableOf (s : Paging) (i : Nat) : UInt32 := s.ram s.pageDirectory i &&& frameMask

/-- The directory's entries are page tables of their own, apart from it. -/
structure Tables (s : Paging) : Prop where
  entry : ∀ i < 1024, Present s i → s.ram s.pageDirectory i &&& pageWritable ≠ 0
  apart : ∀ i < 1024, Present s i → tableOf s i ≠ s.pageDirectory
  distinct : ∀ i < 1024, ∀ j < 1024, Present s i → Present s j → tableOf s i = tableOf s j → i = j

/-- The frame is the directory or one of its tables. -/
def InUse (s : Paging) (fr : UInt32) : Prop :=
  fr = s.pageDirectory ∨ ∃ i < 1024, Present s i ∧ tableOf s i = fr

/-- `pmm_alloc_frame` does not return the directory or a table. -/
def FreshFrames (s : Paging) : Prop := ∀ r, pmmAllocFrame s.pmm = some r → ¬InUse s r.2

/-- The step of `paging_map_page` once the table is there. -/
def setEntry (s : Paging) (v p f : UInt32) : Paging :=
  { s with ram := storeWord s.ram (tableOf s (pdIndex v)) (ptIndex v) (pteOf p f) }

theorem pagingMapPage_eq (s : Paging) (v p f : UInt32) (h : s.pageDirectory ≠ 0) :
    pagingMapPage s v p f =
      (if s.ram s.pageDirectory (pdIndex v) &&& pagePresent = 0 then addTable s (pdIndex v)
        else some s).map fun s => setEntry s v p f := if_neg h

/-- What the entries of a page say. -/
def translation (p f : UInt32) : Translation :=
  ⟨p &&& frameMask, (f &&& flagMask) ||| pagePresent, f &&& pageWritable ≠ 0⟩

theorem walk_absent {a : UInt32} (h : ¬Present s (pdIndex a)) : walk s a = none := by
  simp only [Present, not_not] at h
  simp only [walk, h, if_true]

/-- The walk reads one entry of the directory and one of its table. -/
theorem walk_congr {a : UInt32}
    (hd : s'.ram s'.pageDirectory (pdIndex a) = s.ram s.pageDirectory (pdIndex a))
    (ht : Present s (pdIndex a) →
      s'.ram (tableOf s (pdIndex a)) (ptIndex a) = s.ram (tableOf s (pdIndex a)) (ptIndex a)) :
    walk s' a = walk s a := by
  by_cases h : Present s (pdIndex a)
  · have ht' := ht h
    simp only [tableOf] at ht'
    simp only [walk, hd, ht']
  · have h' : ¬Present s' (pdIndex a) := by
      simp only [Present, hd]
      exact h
    rw [walk_absent h, walk_absent h']

@[simp] theorem setEntry_pageDirectory (s : Paging) (v p f : UInt32) :
    (setEntry s v p f).pageDirectory = s.pageDirectory := rfl

@[simp] theorem setEntry_pmm (s : Paging) (v p f : UInt32) : (setEntry s v p f).pmm = s.pmm := rfl

theorem setEntry_directory (hs : Tables s) (hv : Present s (pdIndex v)) (i : Nat) :
    (setEntry s v p f).ram s.pageDirectory i = s.ram s.pageDirectory i := by
  have hne := hs.apart (pdIndex v) (pdIndex_lt v) hv
  simp [setEntry, storeWord, hne.symm]

theorem setEntry_tables (hs : Tables s) (hv : Present s (pdIndex v)) :
    Tables (setEntry s v p f) := by
  have hd := setEntry_directory (p := p) (f := f) hs hv
  refine ⟨?_, ?_, ?_⟩
  · simp only [Present, setEntry_pageDirectory, hd]
    exact hs.entry
  · simp only [Present, tableOf, setEntry_pageDirectory, hd]
    exact hs.apart
  · simp only [Present, tableOf, setEntry_pageDirectory, hd]
    exact hs.distinct

theorem setEntry_inUse (hs : Tables s) (hv : Present s (pdIndex v)) (fr : UInt32) :
    InUse (setEntry s v p f) fr ↔ InUse s fr := by
  simp only [InUse, Present, tableOf, setEntry_pageDirectory, setEntry_directory hs hv]

theorem setEntry_walk (hs : Tables s) (hv : Present s (pdIndex v)) (a : UInt32) :
    walk (setEntry s v p f) a =
      if a.toNat / 4096 = v.toNat / 4096 then some (translation p f) else walk s a := by
  have hd := setEntry_directory (p := p) (f := f) hs hv (pdIndex a)
  split
  · next h =>
    obtain ⟨hi, hj⟩ := (indices_inj a v).mpr h
    rw [hi] at hd
    have hpte : (setEntry s v p f).ram (tableOf s (pdIndex v)) (ptIndex v) = pteOf p f := by
      simp [setEntry, storeWord]
    have hw := hs.entry (pdIndex v) (pdIndex_lt v) hv
    simp only [tableOf] at hpte
    simp only [Present] at hv
    simp only [walk, hi, hj]
    rw [setEntry_pageDirectory, hd, hpte]
    simp [hv, hw, translation]
  · next h =>
    apply walk_congr hd
    intro hp
    have hne : ¬(tableOf s (pdIndex a) = tableOf s (pdIndex v) ∧ ptIndex a = ptIndex v) := by
      rintro ⟨ht, hj⟩
      have hi := hs.distinct _ (pdIndex_lt a) _ (pdIndex_lt v) hp hv ht
      exact h ((indices_inj a v).mp ⟨hi, hj⟩)
    simp only [setEntry, storeWord, hne, if_false]

section AddTable

variable {i fr : Nat} {t : UInt32}

/-- The entries after a table `t` was added at `i`. -/
structure Added (s s' : Paging) (i : Nat) (t : UInt32) : Prop where
  directory : s'.pageDirectory = s.pageDirectory
  new : s'.ram s.pageDirectory i = pdeOf t
  others : ∀ j, j ≠ i → s'.ram s.pageDirectory j = s.ram s.pageDirectory j
  aligned : t.toNat % 4096 = 0
  fresh : ¬InUse s t

theorem Added.present (h : Added s s' i t) (j : Nat) :
    Present s' j ↔ j = i ∨ Present s j := by
  by_cases hj : j = i
  · simp [Present, h.directory, hj, h.new]
  · simp [Present, h.directory, h.others j hj, hj]

theorem Added.table_new (h : Added s s' i t) : tableOf s' i = t := by
  simp only [tableOf, h.directory, h.new, pdeOf_frame h.aligned]

theorem Added.table_old (h : Added s s' i t) {j : Nat} (hj : j ≠ i) :
    tableOf s' j = tableOf s j := by
  simp only [tableOf, h.directory, h.others j hj]

theorem Added.tables (h : Added s s' i t) (hs : Tables s) : Tables s' := by
  have hold : ∀ j, j ≠ i → Present s' j → Present s j := by
    intro j hj hp
    exact ((h.present j).mp hp).resolve_left hj
  have hne : ∀ j < 1024, j ≠ i → Present s' j → tableOf s j ≠ t := by
    intro j hj hji hp he
    exact h.fresh (.inr ⟨j, hj, hold j hji hp, he⟩)
  refine ⟨?_, ?_, ?_⟩
  · intro j hj hp
    by_cases hji : j = i
    · simp [h.directory, hji, h.new]
    · rw [h.directory, h.others j hji]
      exact hs.entry j hj (hold j hji hp)
  · intro j hj hp
    rw [h.directory]
    by_cases hji : j = i
    · rw [hji, h.table_new]
      exact fun he => h.fresh (.inl he)
    · rw [h.table_old hji]
      exact hs.apart j hj (hold j hji hp)
  · intro j hj k hk hp hp' he
    by_cases hji : j = i
    · by_cases hki : k = i
      · rw [hji, hki]
      · rw [hji, h.table_new, h.table_old hki] at he
        exact absurd he.symm (hne k hk hki hp')
    · by_cases hki : k = i
      · rw [hki, h.table_new, h.table_old hji] at he
        exact absurd he (hne j hj hji hp)
      · rw [h.table_old hji, h.table_old hki] at he
        exact hs.distinct j hj k hk (hold j hji hp) (hold k hki hp') he

theorem Added.inUse (h : Added s s' i t) (hi : i < 1024) (hnew : ¬Present s i) (fr : UInt32) :
    InUse s' fr ↔ fr = t ∨ InUse s fr := by
  constructor
  · rintro (he | ⟨j, hj, hp, he⟩)
    · exact .inr (.inl (he.trans h.directory))
    · by_cases hji : j = i
      · rw [hji, h.table_new] at he
        exact .inl he.symm
      · rw [h.table_old hji] at he
        exact .inr (.inr ⟨j, hj, ((h.present j).mp hp).resolve_left hji, he⟩)
  · rintro (he | he | ⟨j, hj, hp, he⟩)
    · exact .inr ⟨i, hi, (h.present i).mpr (.inl rfl), h.table_new.trans he.symm⟩
    · exact .inl (he.trans h.directory.symm)
    · have hji : j ≠ i := by
        intro hji
        rw [hji] at hp
        exact hnew hp
      exact .inr ⟨j, hj, (h.present j).mpr (.inr hp), (h.table_old hji).trans he⟩

/-- The new table is a frame that was not in use, and holds zeros. -/
theorem addTable_added (hfresh : FreshFrames s) (i : Nat) (h : addTable s i = some s') :
    ∃ fr t, t.toNat = 4096 * fr ∧ s'.pmm = s.pmm.take fr ∧ Added s s' i t ∧
      (∀ j < 1024, s'.ram t j = 0) ∧ ∀ q, q ≠ t → q ≠ s.pageDirectory → s'.ram q = s.ram q := by
  rcases pmmAllocFrame_cases s.pmm with ⟨hnone, -⟩ | ⟨fr, t, -, -, ht, hsome⟩
  · simp [addTable, hnone] at h
  · have hnew := hfresh _ hsome
    have hne : t ≠ s.pageDirectory := fun he => hnew (.inl he)
    simp only [addTable, hsome, Option.map_some, Option.some.injEq] at h
    subst h
    refine ⟨fr, t, ht, rfl, ⟨rfl, ?_, ?_, by omega, hnew⟩, ?_, ?_⟩
    · simp [storeWord, pdeOf]
    · intro j hj
      simp [storeWord, hj, hne.symm]
    · intro j hj
      simp [storeWord, hj, hne]
    · intro q hq hq'
      funext j
      simp [storeWord, hq, hq']

/-- Adding a table adds no translation. -/
theorem addTable_walk {i : Nat} (hs : Tables s) (hadd : Added s s' i t) (hnew : ¬Present s i)
    (hzero : ∀ j < 1024, s'.ram t j = 0)
    (hram : ∀ q, q ≠ t → q ≠ s.pageDirectory → s'.ram q = s.ram q) (a : UInt32) :
    walk s' a = walk s a := by
  by_cases ha : pdIndex a = i
  · subst ha
    rw [walk_absent hnew]
    simp [walk, hadd.directory, hadd.new, pdeOf_frame hadd.aligned, hzero _ (ptIndex_lt a)]
  · apply walk_congr
    · rw [hadd.directory, hadd.others _ ha]
    · intro hp
      rw [hram]
      · exact fun he => hadd.fresh (.inr ⟨_, pdIndex_lt a, hp, he⟩)
      · exact hs.apart _ (pdIndex_lt a) hp

end AddTable

/-- The frames in use are marked in the bitmap. -/
def Marked (s : Paging) : Prop := ∀ fr, InUse s fr → fr.toNat / 4096 ∉ clearFrames s.pmm

theorem Marked.fresh (h : Marked s) : FreshFrames s := by
  intro r hr hin
  rcases pmmAllocFrame_cases s.pmm with ⟨hnone, -⟩ | ⟨fr, t, hfr, -, ht, hsome⟩
  · rw [hnone] at hr
    cases hr
  · rw [hsome] at hr
    cases hr
    apply h t hin
    rw [ht, Nat.mul_div_cancel_left _ (by decide)]
    exact hfr

/-- `paging_map_page` updates the translation of one page. -/
theorem pagingMapPage_spec (hs : Tables s) (hfresh : FreshFrames s)
    (h : pagingMapPage s v p f = some s') :
    Tables s' ∧ (Marked s → Marked s') ∧ ∀ a, walk s' a =
      if a.toNat / 4096 = v.toNat / 4096 then some (translation p f) else walk s a := by
  by_cases hd : s.pageDirectory = 0
  · simp [pagingMapPage, hd] at h
  rw [pagingMapPage_eq s v p f hd] at h
  split at h
  · next hp =>
    cases hadd : addTable s (pdIndex v) with
    | none => simp [hadd] at h
    | some s1 =>
      have hnew : ¬Present s (pdIndex v) := fun hc => hc hp
      obtain ⟨fr, t, ht, hpmm, ha, hzero, hram⟩ := addTable_added hfresh _ hadd
      have hs1 := ha.tables hs
      have hv : Present s1 (pdIndex v) := (ha.present _).mpr (.inl rfl)
      rw [hadd] at h
      cases h
      refine ⟨setEntry_tables hs1 hv, ?_, ?_⟩
      · intro hm q hq
        rw [setEntry_inUse hs1 hv, ha.inUse (pdIndex_lt v) hnew] at hq
        rw [setEntry_pmm, hpmm, take_clear, Finset.mem_erase]
        rintro ⟨hne, hmem⟩
        rcases hq with rfl | hq
        · omega
        · exact hm q hq hmem
      · intro a
        rw [setEntry_walk hs1 hv, addTable_walk hs ha hnew hzero hram]
  · next hp =>
    cases h
    refine ⟨setEntry_tables hs hp, ?_, setEntry_walk hs hp⟩
    intro hm q hq
    rw [setEntry_inUse hs hp] at hq
    exact hm q hq

/-- The call returns as long as a frame is left. -/
theorem pagingMapPage_returns (v p f : UInt32) (hd : s.pageDirectory ≠ 0)
    (hroom : (clearFrames s.pmm).Nonempty) : ∃ s', pagingMapPage s v p f = some s' := by
  rw [pagingMapPage_eq s v p f hd]
  split
  · rcases pmmAllocFrame_cases s.pmm with ⟨-, hempty⟩ | ⟨fr, t, -, -, -, hsome⟩
    · rw [hempty] at hroom
      exact absurd hroom Finset.not_nonempty_empty
    · simp [addTable, hsome]
  · exact ⟨_, rfl⟩

end Tables

end VertexOS
