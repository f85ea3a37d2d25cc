import VertexOS.Mem.TablePlace

namespace VertexOS
open Library.Transitions

/-- The directory and the tables of the identity map lie inside it and outside
the heap's pages. -/
def StartInPlace (s : Paging) : Prop :=
  ∀ fr, InUse s fr → fr < identityMapLimit ∧ ¬InHeap fr

theorem pagingMapPage_directory (h : pagingMapPage s v p f = some s') :
    s'.pageDirectory = s.pageDirectory := by
  unfold pagingMapPage at h
  split at h
  · cases h
  · obtain ⟨s1, hs1, rfl⟩ := Option.map_eq_some_iff.mp h
    split at hs1
    · obtain ⟨r, -, rfl⟩ := Option.map_eq_some_iff.mp hs1
      rfl
    · cases hs1
      rfl

theorem identityLoop_directory (h : identityLoop n s addr limit = some s') :
    s'.pageDirectory = s.pageDirectory := by
  induction n generalizing s addr with
  | zero =>
    cases h
    rfl
  | succ n ih =>
    unfold identityLoop at h
    split at h
    · obtain ⟨s1, hs1, hs'⟩ := Option.bind_eq_some_iff.mp h
      rw [ih hs', pagingMapPage_directory hs1]
    · cases h
      rfl

theorem pagingInitIdentity_aligned {limit : UInt32} (h : pagingInitIdentity m ram limit = some s) :
    s.pageDirectory.toNat % 4096 = 0 := by
  obtain ⟨r, hr, hloop⟩ := Option.bind_eq_some_iff.mp h
  rw [identityLoop_directory hloop]
  exact pmmAllocFrame_aligned hr

theorem inUse_aligned (ha : s.pageDirectory.toNat % 4096 = 0) (h : InUse s fr) :
    fr.toNat % 4096 = 0 := by
  rcases h with rfl | ⟨i, -, -, rfl⟩
  · exact ha
  · exact frameMask_mod _

/-- A table of the identity map is mapped to itself by it. -/
theorem identity_home (h : pagingInitIdentity m ram identityMapLimit = some s)
    (hstart : StartInPlace s) : TablesHome 0 s ∧ ∀ a, walk s a = identityMap identityMapLimit a := by
  obtain ⟨hs, hm, hw⟩ := pagingInitIdentity_spec (by decide) h
  have ha := pagingInitIdentity_aligned h
  refine ⟨⟨ha, hs, hm, ?_, ?_⟩, hw⟩
  · intro fr hfr
    rw [translate, hw]
    exact (identityMap_frame (inUse_aligned ha hfr)).mpr (hstart fr hfr).1
  · intro a hp
    unfold HeapPage at hp
    omega

section HeapInit

variable {s s' : Paging} {addr stop : UInt32} {k n : Nat}

/-- The heap's pages so far, and the identity map of the rest. -/
structure HeapMapped (k : Nat) (s : Paging) : Prop where
  home : TablesHome k s
  out : ∀ fr, InUse s fr → ¬InHeap fr
  rest : ∀ a, ¬HeapPage k a → walk s a = identityMap identityMapLimit a

/-- One turn of the loop of `heap_init`: its page has a table already. -/
theorem HeapMapped.page (h : HeapMapped k s) (hd : s.pageDirectory ≠ 0) (hk : k < 256)
    (haddr : addr.toNat = heapStart.toNat + k * 4096) (hr : pmmAllocFrame s.pmm = some r) :
    ∃ s1, pagingMapPageMapped { s with pmm := r.1 } addr r.2 pageWritable = some s1 ∧
      s1.pmm = r.1 ∧ s1.pageDirectory = s.pageDirectory ∧ HeapMapped (k + 1) s1 ∧
      ∀ i, Present s1 i ↔ Present s i := by
  have hstart : heapStart.toNat = 4096 * 4096 := by decide
  have hsize : heapSize.toNat = 256 * 4096 := by decide
  obtain ⟨hfree, hclear⟩ := pmmAllocFrame_clear hr
  have haligned := pmmAllocFrame_aligned hr
  have ht := h.home.tables
  let s0 : Paging := { s with pmm := r.1 }
  have hs0 : Tables s0 := ⟨ht.entry, ht.apart, ht.distinct⟩
  have hm0 : Marked s0 := by
    intro fr hfr hmem
    change _ ∈ clearFrames r.1 at hmem
    rw [hclear] at hmem
    exact h.home.marked fr hfr (Finset.mem_of_mem_erase hmem)
  have hpresent : Present s0 (pdIndex addr) := by
    have hw := h.rest addr (by unfold HeapPage; omega)
    intro habsent
    have hnone : walk s addr = none := walk_absent fun hp => hp habsent
    have hsome : identityMap identityMapLimit addr = some (translation addr pageWritable) := by
      have hl : (identityMapLimit.toNat + 4095) / 4096 * 4096 = 8192 * 4096 := by decide
      unfold identityMap
      rw [if_pos]
      omega
    rw [hnone, hsome] at hw
    cases hw
  have heq : pagingMapPageMapped s0 addr r.2 pageWritable =
      some (setEntry s0 addr r.2 pageWritable) := by
    rw [pagingMapPageMapped_eq _ _ _ hs0 hm0.fresh h.home.aligned h.home.home
      (fun q hq => absurd hpresent hq), pagingMapPage_eq s0 _ _ _ hd, if_neg hpresent]
    rfl
  have huse := setEntry_inUse (p := r.2) (f := pageWritable) hs0 hpresent
  have hw := setEntry_walk (p := r.2) (f := pageWritable) hs0 hpresent
  have hframe : r.2 &&& frameMask = r.2 := frameMask_aligned haligned
  have hin : ∀ a : UInt32, a.toNat / 4096 = addr.toNat / 4096 → InHeap a := by
    intro a ha
    unfold InHeap
    omega
  have hother : ∀ a : UInt32, a.toNat / 4096 ≠ addr.toNat / 4096 →
      walk (setEntry s0 addr r.2 pageWritable) a = walk s a := by
    intro a ha
    rw [hw, if_neg ha]
    rfl
  refine ⟨_, heq, rfl, rfl, ⟨⟨h.home.aligned, setEntry_tables hs0 hpresent, ?_, ?_, ?_⟩, ?_, ?_⟩, ?_⟩
  · intro fr hfr
    exact hm0 fr ((huse fr).mp hfr)
  · intro fr hfr
    have hold := (huse fr).mp hfr
    rw [translate, hother fr]
    · exact h.home.home fr hold
    · intro hpage
      exact h.out fr hold (hin fr hpage)
  · intro a ha
    by_cases hpage : a.toNat / 4096 = addr.toNat / 4096
    · refine ⟨r.2, ?_, ?_, ?_⟩
      · rw [translate, hw, if_pos hpage]
        exact congrArg some hframe
      · intro hused
        exact h.home.marked r.2 ((huse r.2).mp hused) hfree
      · change _ ∉ clearFrames r.1
        rw [hclear]
        exact Finset.notMem_erase _ _
    · obtain ⟨q, hq, hused, hc⟩ := h.home.heap a (by unfold HeapPage at ha ⊢; omega)
      refine ⟨q, ?_, fun hin' => hused ((huse q).mp hin'), ?_⟩
      · rw [translate, hother a hpage]
        exact hq
      · change _ ∉ clearFrames r.1
        rw [hclear]
        exact fun hmem => hc (Finset.mem_of_mem_erase hmem)
  · intro fr hfr
    exact h.out fr ((huse fr).mp hfr)
  · intro a ha
    rw [hother a (by unfold HeapPage at ha; omega)]
    exact h.rest a (by unfold HeapPage at ha ⊢; omega)
  · intro i
    have hdir := setEntry_directory (p := r.2) (f := pageWritable) hs0 hpresent i
    unfold Present
    rw [setEntry_pageDirectory, hdir]

/-- The loop of `heap_init` maps the pages that are left. -/
theorem HeapMapped.loop (h : HeapMapped k s) (hk : k ≤ 256) (hn : 256 ≤ k + n)
    (haddr : addr.toNat = heapStart.toNat + k * 4096)
    (hstop : stop.toNat = heapStart.toNat + 256 * 4096)
    (hloop : heapInitLoop n s addr stop = some s') : HeapMapped 256 s' := by
  have hstart : heapStart.toNat = 4096 * 4096 := by decide
  induction n generalizing k s addr with
  | zero =>
    cases hloop
    obtain rfl : k = 256 := by omega
    exact h
  | succ n ih =>
    unfold heapInitLoop at hloop
    split at hloop
    · next hlt =>
      rw [UInt32.lt_iff_toNat_lt] at hlt
      obtain ⟨r, hr, hbind⟩ := Option.bind_eq_some_iff.mp hloop
      obtain ⟨s1, hmap, hrest⟩ := Option.bind_eq_some_iff.mp hbind
      have hd : s.pageDirectory ≠ 0 := by
        intro hd
        simp [pagingMapPageMapped, hd] at hmap
      obtain ⟨s2, hs2, -, -, hnext, -⟩ := h.page hd (by omega) haddr hr
      obtain rfl := Option.some.inj (hmap.symm.trans hs2)
      have hstep : (addr + pageSize).toNat = heapStart.toNat + (k + 1) * 4096 := by
        rw [page_add] <;> omega
      exact ih hnext (by omega) (by omega) hstep hrest
    · next hlt =>
      rw [UInt32.lt_iff_toNat_lt] at hlt
      cases hloop
      obtain rfl : k = 256 := by omega
      exact h

end HeapInit

theorem heapStop_toNat : (heapStart + alignUp heapSize pageSize).toNat =
    heapStart.toNat + 256 * 4096 := by
  decide

/-- After the bring-up everything is in place. -/
theorem bringUp_inPlace (hid : pagingInitIdentity m ram identityMapLimit = some s0)
    (hstart : StartInPlace s0) (hheap : heapInitPages s0 = some s1) : InPlace ⟨s1, []⟩ := by
  obtain ⟨hhome, hw⟩ := identity_home hid hstart
  have h0 : HeapMapped 0 s0 := ⟨hhome, fun fr hfr => (hstart fr hfr).2, fun a _ => hw a⟩
  have h := h0.loop (by omega) (by simp [addressPages]) (by simp) heapStop_toNat hheap
  refine ⟨h.home, ?_, ?_⟩
  · intro a c hc
    cases hc
  · intro a _ ha
    exact h.rest a fun hp => ha ((heapPage_inHeap a).mp hp)

section Frames

/-- With the frames from `a` to `b` clear, `a` is handed out. -/
theorem pmmAllocFrame_ico {m : Pmm} (hc : clearFrames m = Finset.Ico a b) (hab : a < b) :
    ∃ r, pmmAllocFrame m = some r ∧ r.2.toNat = 4096 * a ∧
      clearFrames r.1 = Finset.Ico (a + 1) b := by
  rcases pmmAllocFrame_cases m with ⟨-, hempty⟩ | ⟨fr, t, hfr, hlow, ht, hsome⟩
  · rw [hc] at hempty
    have := Finset.mem_Ico.mpr ⟨le_refl a, hab⟩
    rw [hempty] at this
    exact absurd this (Finset.notMem_empty a)
  · rw [hc, Finset.mem_Ico] at hfr
    have hle := hlow a (by rw [hc, Finset.mem_Ico]; omega)
    obtain rfl : fr = a := by omega
    refine ⟨_, hsome, ht, ?_⟩
    rw [take_clear, hc]
    ext f
    simp only [Finset.mem_erase, Finset.mem_Ico]
    omega

variable {s : Paging} {v p f : UInt32} {a b : Nat}

/-- The tables that a call adds, and the frames it leaves clear. -/
structure Grows (s s' : Paging) (i : Nat) (a : Nat) : Prop where
  directory : s'.pageDirectory = s.pageDirectory
  tables : Tables s'
  marked : Marked s'
  present : ∀ k, Present s' k ↔ k = i ∨ Present s k
  frames : ∀ fr, InUse s' fr → InUse s fr ∨ ¬Present s i ∧ fr.toNat / 4096 = a

theorem pagingMapPage_absent (hs : Tables s) (hm : Marked s) (hd : s.pageDirectory ≠ 0)
    (hp : ¬Present s (pdIndex v)) (hc : clearFrames s.pmm = Finset.Ico a b) (hab : a < b) :
    ∃ s', pagingMapPage s v p f = some s' ∧ clearFrames s'.pmm = Finset.Ico (a + 1) b ∧
      Grows s s' (pdIndex v) a := by
  obtain ⟨r, hr, hra, hclear⟩ := pmmAllocFrame_ico hc hab
  cases hadd : addTable s (pdIndex v) with
  | none => simp [addTable, hr] at hadd
  | some s1 =>
    obtain ⟨-, t, -, -, ha, -, -⟩ := addTable_added hm.fresh _ hadd
    have hs1 := ha.tables hs
    have hv : Present s1 (pdIndex v) := (ha.present _).mpr (.inl rfl)
    have hstep : pagingMapPage s v p f = some (setEntry s1 v p f) := by
      rw [pagingMapPage_eq s v p f hd, if_pos (not_not.mp hp), hadd]
      rfl
    obtain ⟨htables, hmarked, -⟩ := pagingMapPage_spec hs hm.fresh hstep
    refine ⟨_, hstep, ?_, ⟨ha.directory, htables, hmarked hm, ?_, ?_⟩⟩
    · rw [setEntry_pmm, addTable_eq hr hadd]
      exact hclear
    · intro k
      unfold Present
      rw [setEntry_pageDirectory, setEntry_directory hs1 hv]
      exact ha.present k
    · intro fr hfr
      rw [setEntry_inUse hs1 hv, ha.inUse (pdIndex_lt v) hp] at hfr
      rcases hfr with rfl | hold
      · right
        refine ⟨hp, ?_⟩
        rw [← ha.table_new, addTable_table hr hadd, hra]
        omega
      · exact .inl hold

theorem pagingMapPage_present (hs : Tables s) (hm : Marked s) (hd : s.pageDirectory ≠ 0)
    (hp : Present s (pdIndex v)) (a : Nat) :
    ∃ s', pagingMapPage s v p f = some s' ∧ s'.pmm = s.pmm ∧ Grows s s' (pdIndex v) a := by
  have hstep : pagingMapPage s v p f = some (setEntry s v p f) := by
    rw [pagingMapPage_eq s v p f hd, if_neg hp]
    rfl
  obtain ⟨htables, hmarked, -⟩ := pagingMapPage_spec hs hm.fresh hstep
  refine ⟨_, hstep, rfl, ⟨rfl, htables, hmarked hm, ?_, ?_⟩⟩
  · intro k
    unfold Present
    rw [setEntry_pageDirectory, setEntry_directory hs hp]
    constructor
    · exact .inr
    · rintro (rfl | hk)
      · exact hp
      · exact hk
  · intro fr hfr
    rw [setEntry_inUse hs hp] at hfr
    exact .inl hfr

/-- The tables that `i` pages take. -/
def tableCount (i : Nat) : Nat := (i + 1023) / 1024

/-- The identity loop adds one table for each 1024 pages. -/
theorem identityLoop_frames {n i j : Nat} {addr limit : UInt32} (hs : Tables s) (hm : Marked s)
    (hd : s.pageDirectory ≠ 0) (hi : addr.toNat = i * 4096) (hj : limit.toNat = j * 4096)
    (hij : i ≤ j) (hn : j ≤ i + n) (hpres : ∀ k, k < 1024 → (Present s k ↔ k < tableCount i))
    (hc : clearFrames s.pmm = Finset.Ico (a + tableCount i) b) (hroom : a + tableCount j ≤ b) :
    ∃ s', identityLoop n s addr limit = some s' ∧
      clearFrames s'.pmm = Finset.Ico (a + tableCount j) b ∧
      (∀ k, k < 1024 → (Present s' k ↔ k < tableCount j)) ∧
      ∀ fr, InUse s' fr → InUse s fr ∨
        a ≤ fr.toNat / 4096 ∧ fr.toNat / 4096 < a + tableCount j := by
  induction n generalizing s addr i with
  | zero =>
    obtain rfl : i = j := by omega
    exact ⟨s, rfl, hc, hpres, fun fr hfr => .inl hfr⟩
  | succ n ih =>
    by_cases hlt : i < j
    · have hmax := limit.toNat_lt
      have hidx : pdIndex addr = i / 1024 := by
        rw [pdIndex_eq, hi]
        omega
      have hnext : (addr + pageSize).toNat = (i + 1) * 4096 := by
        rw [page_add] <;> omega
      -- a call with or without a new table, then the rest of the loop
      have hrest : ∀ s1, pagingMapPage s addr addr pageWritable = some s1 →
          clearFrames s1.pmm = Finset.Ico (a + tableCount (i + 1)) b →
          (∀ k, k < 1024 → (Present s1 k ↔ k < tableCount (i + 1))) →
          Grows s s1 (pdIndex addr) (a + tableCount i) →
          ∃ s', identityLoop (n + 1) s addr limit = some s' ∧
            clearFrames s'.pmm = Finset.Ico (a + tableCount j) b ∧
            (∀ k, k < 1024 → (Present s' k ↔ k < tableCount j)) ∧
            ∀ fr, InUse s' fr → InUse s fr ∨
              a ≤ fr.toNat / 4096 ∧ fr.toNat / 4096 < a + tableCount j := by
        intro s1 hmap hc1 hpres1 hg
        obtain ⟨s', hloop, hc', hpres', huse'⟩ := ih hg.tables hg.marked
          (by rw [hg.directory]; exact hd) hnext (by omega) (by omega) hpres1 hc1
        refine ⟨s', ?_, hc', hpres', ?_⟩
        · rw [identityLoop, if_pos (UInt32.lt_iff_toNat_lt.mpr (by omega)), hmap]
          exact hloop
        · intro fr hfr
          rcases huse' fr hfr with h1 | hrange
          · rcases hg.frames fr h1 with hold | ⟨habsent, heq⟩
            · exact .inl hold
            · right
              rw [hpres _ (pdIndex_lt addr), hidx] at habsent
              unfold tableCount at *
              omega
          · exact .inr hrange
      by_cases hfull : i % 1024 = 0
      · have hcount : tableCount i = i / 1024 := by
          unfold tableCount
          omega
        have hcount' : tableCount (i + 1) = tableCount i + 1 := by
          unfold tableCount
          omega
        have hmono : tableCount (i + 1) ≤ tableCount j := by
          unfold tableCount
          omega
        have habsent : ¬Present s (pdIndex addr) := by
          rw [hpres _ (pdIndex_lt addr), hidx]
          omega
        obtain ⟨s1, hmap, hc1, hg⟩ := pagingMapPage_absent (v := addr) (p := addr)
          (f := pageWritable) hs hm hd habsent hc (by omega)
        apply hrest s1 hmap (by rw [hcount', ← Nat.add_assoc]; exact hc1) _ hg
        intro k hk
        rw [hg.present, hpres k hk, hidx]
        omega
      · have hcount' : tableCount (i + 1) = tableCount i := by
          unfold tableCount
          omega
        have hin : i / 1024 < tableCount i := by
          unfold tableCount
          omega
        have hpresent : Present s (pdIndex addr) := by
          rw [hpres _ (pdIndex_lt addr), hidx]
          exact hin
        obtain ⟨s1, hmap, hpmm, hg⟩ := pagingMapPage_present (v := addr) (p := addr)
          (f := pageWritable) hs hm hd hpresent (a + tableCount i)
        apply hrest s1 hmap (by rw [hcount', hpmm]; exact hc) _ hg
        intro k hk
        rw [hg.present, hpres k hk, hidx, hcount']
        omega
    · obtain rfl : i = j := by omega
      refine ⟨s, ?_, hc, hpres, fun fr hfr => .inl hfr⟩
      rw [identityLoop, if_neg]
      rw [UInt32.lt_iff_toNat_lt]
      omega

/-- The identity map takes a directory and eight tables. -/
theorem pagingInitIdentity_frames {m : Pmm} (ram : Ram) (hc : clearFrames m = Finset.Ico a b)
    (ha : 0 < a) (hlow : a + 9 ≤ 4096) (hroom : a + 9 ≤ b) :
    ∃ s0, pagingInitIdentity m ram identityMapLimit = some s0 ∧ StartInPlace s0 ∧
      clearFrames s0.pmm = Finset.Ico (a + 9) b ∧ s0.pageDirectory ≠ 0 ∧
      ∀ k, k < 1024 → (Present s0 k ↔ k < 8) := by
  obtain ⟨r, hr, hra, hclear⟩ := pmmAllocFrame_ico hc (by omega)
  obtain ⟨hs, hm, -⟩ := newDirectory_spec ram hr
  have hd : r.2 ≠ 0 := by
    intro hz
    rw [hz] at hra
    simp only [UInt32.toNat_zero] at hra
    omega
  have hpres : ∀ k, k < 1024 →
      (Present ⟨r.1, memset32 ram r.2 0 1024, r.2⟩ k ↔ k < tableCount 0) := by
    intro k hk
    simp [Present, hk, tableCount]
  have hlimit : (alignUp identityMapLimit pageSize).toNat = 8192 * 4096 := by decide
  obtain ⟨s0, hloop, hc0, hpres0, huse⟩ := identityLoop_frames (n := addressPages) (i := 0)
    (a := a + 1) hs hm hd UInt32.toNat_zero hlimit (by omega) (by simp [addressPages]) hpres hclear
    hroom
  have hid : pagingInitIdentity m ram identityMapLimit = some s0 := by
    rw [pagingInitIdentity, hr]
    exact hloop
  refine ⟨s0, hid, ?_, hc0, ?_, hpres0⟩
  · intro fr hfr
    have haligned := inUse_aligned (pagingInitIdentity_aligned hid) hfr
    have hrange : fr.toNat / 4096 < a + 9 := by
      rcases huse fr hfr with (rfl | ⟨i, hi, hp, -⟩) | ⟨-, hlt⟩
      · change r.2.toNat / 4096 < a + 9
        omega
      · rw [hpres i hi] at hp
        exact absurd hp (by simp [tableCount])
      · exact hlt
    have hl : identityMapLimit.toNat = 8192 * 4096 := by decide
    have hstart : heapStart.toNat = 4096 * 4096 := by decide
    unfold InHeap
    rw [UInt32.lt_iff_toNat_lt]
    omega
  · rw [identityLoop_directory hloop]
    exact hd

/-- `heap_init` takes a frame for each of its 256 pages. -/
theorem HeapMapped.returns {k n : Nat} {addr stop : UInt32} (h : HeapMapped k s)
    (hd : s.pageDirectory ≠ 0) (hk : k ≤ 256) (hn : 256 < k + n)
    (haddr : addr.toNat = heapStart.toNat + k * 4096)
    (hstop : stop.toNat = heapStart.toNat + 256 * 4096)
    (hc : clearFrames s.pmm = Finset.Ico (a + k) b) (hroom : a + 256 ≤ b) :
    ∃ s', heapInitLoop n s addr stop = some s' ∧ clearFrames s'.pmm = Finset.Ico (a + 256) b ∧
      s'.pageDirectory = s.pageDirectory ∧ ∀ i, Present s' i ↔ Present s i := by
  have hstart : heapStart.toNat = 4096 * 4096 := by decide
  induction n generalizing k s addr with
  | zero => omega
  | succ n ih =>
    unfold heapInitLoop
    by_cases hlt : k < 256
    · obtain ⟨r, hr, -, hclear⟩ := pmmAllocFrame_ico hc (by omega)
      obtain ⟨s1, hmap, hpmm, hdir, hnext, hpres⟩ := h.page hd hlt haddr hr
      have hstep : (addr + pageSize).toNat = heapStart.toNat + (k + 1) * 4096 := by
        rw [page_add] <;> omega
      obtain ⟨s', hloop, hc', hdir', hpres'⟩ := ih hnext (by rw [hdir]; exact hd) (by omega)
        (by omega) hstep (by rw [hpmm]; exact hclear)
      refine ⟨s', ?_, hc', hdir'.trans hdir, fun i => (hpres' i).trans (hpres i)⟩
      rw [if_pos (UInt32.lt_iff_toNat_lt.mpr (by omega)), hr, Option.bind_some, hmap]
      exact hloop
    · obtain rfl : k = 256 := by omega
      refine ⟨s, ?_, hc, rfl, fun i => Iff.rfl⟩
      rw [if_neg]
      rw [UInt32.lt_iff_toNat_lt]
      omega

/-- Frames handed out to the rest of the kernel. -/
theorem allocFrames_run (st : Mmu) (n : Nat) (hc : clearFrames st.paging.pmm = Finset.Ico a b)
    (hroom : a + n ≤ b) :
    ∃ st', Run harmlessStep st (List.replicate n .allocFrame) st' ∧
      clearFrames st'.paging.pmm = Finset.Ico (a + n) b ∧ st'.calls = st.calls ∧
      ∀ i, Present st'.paging i ↔ Present st.paging i := by
  induction n generalizing st a with
  | zero => exact ⟨st, .nil st, hc, rfl, fun i => Iff.rfl⟩
  | succ n ih =>
    obtain ⟨r, hr, -, hclear⟩ := pmmAllocFrame_ico hc (by omega)
    obtain ⟨st', hrun, hc', hcalls, hpres⟩ := ih
      ⟨{ st.paging with pmm := r.1 }, st.calls⟩ hclear (by omega)
    have hstep : harmlessStep st .allocFrame ⟨{ st.paging with pmm := r.1 }, st.calls⟩ :=
      ⟨trivial, r, hr, rfl⟩
    refine ⟨st', .cons hstep hrun, ?_, hcalls, hpres⟩
    rw [hc', Nat.add_assoc, Nat.add_comm 1 n]

/-- The bring-up on 64 MiB with the kernel in the second one: 265 frames are taken
from frame 512 on. -/
theorem bringUp_small : ∃ m s0 s1,
    pmmInit [⟨0x100000, 0x3F00000⟩] 0x100000 0x200000 = some m ∧
    pagingInitIdentity m (fun _ _ => 0) identityMapLimit = some s0 ∧ StartInPlace s0 ∧
    heapInitPages s0 = some s1 ∧ clearFrames s1.pmm = Finset.Ico 777 16384 ∧
    ¬Present s1 256 := by
  have hoffer : Offers ⟨0x100000, 0x3F00000⟩ 512 := by decide
  obtain ⟨m, hm⟩ := pmmInit_some 0x100000 0x200000 (List.mem_singleton.mpr rfl) hoffer
  have hc : clearFrames m = Finset.Ico 512 16384 := by
    ext f
    rw [(pmmInit_spec hm).2 f, Finset.mem_Ico]
    have hbase : (0x100000 : UInt32).toNat = 256 * 4096 := by decide
    have hstop : regionStop ⟨0x100000, 0x3F00000⟩ = 16384 * 4096 := by decide
    have hend : (0x200000 : UInt32).toNat = 512 * 4096 := by decide
    have hacc : Accepted ⟨0x100000, 0x3F00000⟩ := by decide
    simp only [List.mem_singleton, exists_eq_left, Offers, Reserves, hacc, hstop, hend, hbase,
      true_and]
    omega
  obtain ⟨s0, hid, hstart, hc0, hd, hpres0⟩ :=
    pagingInitIdentity_frames (fun _ _ => 0) hc (by omega) (by omega) (by omega)
  obtain ⟨hhome, hw⟩ := identity_home hid hstart
  have h0 : HeapMapped 0 s0 := ⟨hhome, fun fr hfr => (hstart fr hfr).2, fun a _ => hw a⟩
  have haddr : heapStart.toNat = heapStart.toNat + 0 * 4096 := by simp
  obtain ⟨s1, hheap, hc1, -, hpres⟩ := h0.returns (n := addressPages) hd (by omega)
    (by simp [addressPages]) haddr heapStop_toNat hc0 (by omega)
  refine ⟨m, s0, s1, hm, hid, hstart, hheap, hc1, ?_⟩
  rw [hpres, hpres0 256 (by omega)]
  omega

/-- The frame that the next table takes there, `n` frames later. -/
theorem next_table_small (n : Nat) (hn : n < 15607) : ∃ m s0 s1 st fr,
    pmmInit [⟨0x100000, 0x3F00000⟩] 0x100000 0x200000 = some m ∧
    pagingInitIdentity m (fun _ _ => 0) identityMapLimit = some s0 ∧ StartInPlace s0 ∧
    heapInitPages s0 = some s1 ∧
    Run harmlessStep ⟨s1, []⟩ (List.replicate n .allocFrame) st ∧ InPlace st ∧ st.calls = [] ∧
    Allocates st.paging ⟨0x40000000, 0x5000, 0x2⟩ fr ∧ fr.toNat = 4096 * (777 + n) := by
  obtain ⟨m, s0, s1, hm, hid, hstart, hheap, hc, habsent⟩ := bringUp_small
  obtain ⟨st, hrun, hc', hcalls, hpres⟩ := allocFrames_run ⟨s1, []⟩ n hc (by omega)
  have hplace : InPlace st := hrun.invariant (P := InPlace) (fun _ _ _ h hs => h.step hs)
    (bringUp_inPlace hid hstart hheap)
  obtain ⟨r, hr, hfr, -⟩ := pmmAllocFrame_ico hc' (by omega)
  refine ⟨m, s0, s1, st, r.2, hm, hid, hstart, hheap, hrun, hplace, hcalls, ?_, hfr⟩
  rw [hplace.home.allocates]
  refine ⟨?_, r, hr, rfl⟩
  rw [show pdIndex (0x40000000 : UInt32) = 256 from by decide, hpres]
  exact habsent

end Frames

/-- Page tables are written where they live. After the bring-up, in every run of
harmless calls, the frame that `paging_map_page` would allocate for a new table is
mapped to itself exactly if no call and no page of the heap has moved its page and
it lies below the identity limit or was mapped to itself. -/
theorem page_tables_in_place {m : Pmm} {ram : Ram} {s0 s1 : Paging} {cs : List MmuCall} {st : Mmu}
    (hid : pagingInitIdentity m ram identityMapLimit = some s0) (hstart : StartInPlace s0)
    (hheap : heapInitPages s0 = some s1) (hrun : Run harmlessStep ⟨s1, []⟩ cs st)
    (c : MapCall) (fr : UInt32) (hc : Allocates st.paging c fr) :
    translate st.paging fr = some fr ↔ FrameInPlace st.calls fr := by
  have h : InPlace st := hrun.invariant (P := InPlace) (fun _ _ _ h hs => h.step hs)
    (bringUp_inPlace hid hstart hheap)
  obtain ⟨-, r, -, -, hr, rfl⟩ := hc
  exact h.frame hr

theorem page_tables_in_place_small : ∃ m s0 s1 st fr,
    pmmInit [⟨0x100000, 0x3F00000⟩] 0x100000 0x200000 = some m ∧
    pagingInitIdentity m (fun _ _ => 0) identityMapLimit = some s0 ∧ heapInitPages s0 = some s1 ∧
    Run harmlessStep ⟨s1, []⟩ [.allocFrame] st ∧
    Allocates st.paging ⟨0x40000000, 0x5000, 0x2⟩ fr ∧
    (translate st.paging fr = some fr ↔ FrameInPlace st.calls fr) := by
  obtain ⟨m, s0, s1, st, fr, hm, hid, hstart, hheap, hrun, -, -, hall, -⟩ :=
    next_table_small 1 (by omega)
  exact ⟨m, s0, s1, st, fr, hm, hid, hheap, hrun, hall,
    page_tables_in_place hid hstart hheap hrun ⟨0x40000000, 0x5000, 0x2⟩ fr hall⟩

/-- After 3319 more frames the next table is the frame at the heap's first
address, and that address leads to another frame. -/
theorem page_tables_on_heap : ∃ m s0 s1 st,
    pmmInit [⟨0x100000, 0x3F00000⟩] 0x100000 0x200000 = some m ∧
    pagingInitIdentity m (fun _ _ => 0) identityMapLimit = some s0 ∧ heapInitPages s0 = some s1 ∧
    Run mmuStep ⟨s1, []⟩ (List.replicate 3319 .allocFrame) st ∧
    Allocates st.paging ⟨0x40000000, 0x5000, 0x2⟩ heapStart ∧
    translate st.paging heapStart ≠ some heapStart := by
  obtain ⟨m, s0, s1, st, fr, hm, hid, -, hheap, hrun, hplace, hcalls, hall, hfr⟩ :=
    next_table_small 3319 (by omega)
  obtain rfl : fr = heapStart := by
    apply UInt32.toNat_inj.mp
    rw [hfr]
    decide
  refine ⟨m, s0, s1, st, hm, hid, hheap, hrun.mono (fun _ _ _ hs => hs.2), hall, ?_⟩
  obtain ⟨-, r, -, -, hr, hrf⟩ := hall
  have hiff := hplace.frame hr
  rw [hrf, hcalls] at hiff
  intro hhome
  exact (hiff.mp hhome).2 (by decide)

end VertexOS
