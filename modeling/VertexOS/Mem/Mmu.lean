import VertexOS.Mem.HeapRuns
import VertexOS.Mem.PageMap

namespace VertexOS
open Library.Transitions

/-- `IDENTITY_MAP_LIMIT`. -/
def identityMapLimit : UInt32 := 0x02000000

/-- An address of the heap's pages. -/
def InHeap (a : UInt32) : Prop :=
  heapStart.toNat ≤ a.toNat ∧ a.toNat < heapStart.toNat + heapSize.toNat

instance (a : UInt32) : Decidable (InHeap a) := inferInstanceAs (Decidable (_ ∧ _))

/-- The frame the processor reaches through a virtual address. -/
def translate (s : Paging) (a : UInt32) : Option UInt32 := (walk s a).map Translation.frame

/-- The word of its frame that an address names. -/
def wordIndex (a : UInt32) : Nat := a.toNat % 4096 / 4

/-- A load once paging is on; `none` is a page fault. -/
def loadMapped (s : Paging) (a : UInt32) : Option UInt32 :=
  (translate s a).map fun q => s.ram q (wordIndex a)

/-- A store once paging is on. Write protection does not bind the kernel. -/
def storeMapped (s : Paging) (a w : UInt32) : Option Paging :=
  (translate s a).map fun q => { s with ram := storeWord s.ram q (wordIndex a) w }

/-- The address of `p[i]`. -/
def wordAddr (p : UInt32) (i : Nat) : UInt32 := p + 4 * UInt32.ofNat i

def memset32Mapped (s : Paging) (p value : UInt32) : Nat → Option Paging
  | 0 => some s
  | count + 1 => (memset32Mapped s p value count).bind fun s => storeMapped s (wordAddr p count) value

/-- `paging_map_page` once paging is on: the directory and the tables are
reached through the tables in force. -/
def pagingMapPageMapped (s : Paging) (virtualAddr physicalAddr flags : UInt32) : Option Paging :=
  if s.pageDirectory = 0 then none
  else
    let entry := wordAddr s.pageDirectory (pdIndex virtualAddr)
    (loadMapped s entry).bind fun pde =>
    (if pde &&& pagePresent = 0 then
      (pmmAllocFrame s.pmm).bind fun r =>
      (memset32Mapped { s with pmm := r.1 } r.2 0 1024).bind fun s =>
        storeMapped s entry (r.2 ||| pagePresent ||| pageWritable)
    else some s).bind fun s =>
    (loadMapped s entry).bind fun pde =>
      storeMapped s (wordAddr (pde &&& frameMask) (ptIndex virtualAddr))
        ((physicalAddr &&& frameMask) ||| (flags &&& flagMask) ||| pagePresent)

/-- The loop of `heap_init`. -/
def heapInitLoop : Nat → Paging → UInt32 → UInt32 → Option Paging
  | 0, s, _, _ => some s
  | n + 1, s, addr, stop =>
    if addr < stop then
      (pmmAllocFrame s.pmm).bind fun r =>
      (pagingMapPageMapped { s with pmm := r.1 } addr r.2 pageWritable).bind fun s =>
        heapInitLoop n s (addr + pageSize) stop
    else some s

/-- The pages that `kmain` maps for the heap. -/
def heapInitPages (s : Paging) : Option Paging :=
  heapInitLoop addressPages s heapStart (heapStart + alignUp heapSize pageSize)

/-- Paging and what was mapped since the bring-up. -/
structure Mmu where
  paging : Paging
  calls : List MapCall

/-- What happens after the bring-up. `kmalloc` and `kfree` appear as the words
they store in the heap's pages. -/
inductive MmuCall where
  | allocFrame
  | map (c : MapCall)
  | heapStore (a w : UInt32)

def mmuStep (s : Mmu) (c : MmuCall) (s' : Mmu) : Prop :=
  match c with
  | .allocFrame => ∃ r, pmmAllocFrame s.paging.pmm = some r ∧
      s' = ⟨{ s.paging with pmm := r.1 }, s.calls⟩
  | .map c => ∃ p, pagingMapPageMapped s.paging c.virtualAddr c.physicalAddr c.flags = some p ∧
      s' = ⟨p, s.calls ++ [c]⟩
  | .heapStore a w => InHeap a ∧ ∃ p, storeMapped s.paging a w = some p ∧ s' = ⟨p, s.calls⟩

/-- `kmalloc` and `kfree` store in the heap's pages only. -/
theorem heapStep_inHeap (h : Rowed heapStart heapSize s rs) (hs : heapStep s c s')
    (ha : ¬InHeap a) : s'.heap.mem a = s.heap.mem a := by
  apply heapStep_outside h hs a
  unfold InHeap at ha
  omega

/-- `paging_map_page` would allocate the frame `fr` for a new table. -/
def Allocates (s : Paging) (c : MapCall) (fr : UInt32) : Prop :=
  ∃ pde r, loadMapped s (wordAddr s.pageDirectory (pdIndex c.virtualAddr)) = some pde ∧
    pde &&& pagePresent = 0 ∧ pmmAllocFrame s.pmm = some r ∧ r.2 = fr

theorem wordAddr_toNat {p : UInt32} {i : Nat} (hp : p.toNat % 4096 = 0) (hi : i < 1024) :
    (wordAddr p i).toNat = p.toNat + 4 * i := by
  have hlt := p.toNat_lt
  have hm : (4 * UInt32.ofNat i).toNat = 4 * i := by
    rw [UInt32.toNat_mul, UInt32.toNat_ofNat']
    change 4 * (i % 4294967296) % 4294967296 = 4 * i
    omega
  rw [wordAddr, UInt32.toNat_add, hm]
  omega

theorem wordAddr_index {p : UInt32} {i : Nat} (hp : p.toNat % 4096 = 0) (hi : i < 1024) :
    wordIndex (wordAddr p i) = i := by
  rw [wordIndex, wordAddr_toNat hp hi]
  omega

/-- Translation depends on the page only. -/
theorem walk_page (s : Paging) {a b : UInt32} (h : a.toNat / 4096 = b.toNat / 4096) :
    walk s a = walk s b := by
  obtain ⟨hd, ht⟩ := (indices_inj a b).mpr h
  simp only [walk, hd, ht]

theorem translate_page (s : Paging) {a b : UInt32} (h : a.toNat / 4096 = b.toNat / 4096) :
    translate s a = translate s b := by
  rw [translate, walk_page s h, translate]

theorem translate_wordAddr (s : Paging) {p : UInt32} {i : Nat} (hp : p.toNat % 4096 = 0)
    (hi : i < 1024) : translate s (wordAddr p i) = translate s p := by
  apply translate_page
  rw [wordAddr_toNat hp hi]
  omega

theorem loadMapped_home {s : Paging} {p : UInt32} {i : Nat} (hp : p.toNat % 4096 = 0)
    (hi : i < 1024) (h : translate s p = some p) :
    loadMapped s (wordAddr p i) = some (s.ram p i) := by
  rw [loadMapped, translate_wordAddr s hp hi, h, Option.map_some, wordAddr_index hp hi]

theorem storeMapped_home {s : Paging} {p : UInt32} {i : Nat} (w : UInt32)
    (hp : p.toNat % 4096 = 0) (hi : i < 1024) (h : translate s p = some p) :
    storeMapped s (wordAddr p i) w = some { s with ram := storeWord s.ram p i w } := by
  rw [storeMapped, translate_wordAddr s hp hi, h, Option.map_some, wordAddr_index hp hi]

section Home

variable {s : Paging} {t : UInt32}

/-- A frame that is no table can change without moving anything. -/
theorem walk_ram_other {ram : Ram} (ht : ¬InUse s t)
    (hram : ∀ q, q ≠ t → ram q = s.ram q) (pmm : Pmm) (a : UInt32) :
    walk { s with pmm := pmm, ram := ram } a = walk s a := by
  have hd : s.pageDirectory ≠ t := fun he => ht (.inl he.symm)
  apply walk_congr
  · change ram s.pageDirectory _ = _
    rw [hram _ hd]
  · intro hp
    change ram _ _ = _
    rw [hram]
    exact fun he => ht (.inr ⟨_, pdIndex_lt a, hp, he⟩)

theorem inUse_ram_other {ram : Ram} (ht : ¬InUse s t) (hram : ∀ q, q ≠ t → ram q = s.ram q)
    (pmm : Pmm) (fr : UInt32) : InUse { s with pmm := pmm, ram := ram } fr ↔ InUse s fr := by
  have hd : ram s.pageDirectory = s.ram s.pageDirectory := hram _ fun he => ht (.inl he.symm)
  simp only [InUse, Present, tableOf, hd]

theorem tables_ram_other {ram : Ram} (hs : Tables s) (ht : ¬InUse s t)
    (hram : ∀ q, q ≠ t → ram q = s.ram q) (pmm : Pmm) :
    Tables { s with pmm := pmm, ram := ram } := by
  have hd : ram s.pageDirectory = s.ram s.pageDirectory := hram _ fun he => ht (.inl he.symm)
  refine ⟨?_, ?_, ?_⟩
  · simp only [Present, hd]
    exact hs.entry
  · simp only [Present, tableOf, hd]
    exact hs.apart
  · simp only [Present, tableOf, hd]
    exact hs.distinct

theorem memset32Mapped_home (ht : t.toNat % 4096 = 0) (hnew : ¬InUse s t)
    (home : translate s t = some t) (value : UInt32) (pmm : Pmm) (hn : n ≤ 1024) :
    memset32Mapped { s with pmm := pmm } t value n =
      some { s with pmm := pmm, ram := memset32 s.ram t value n } := by
  induction n with
  | zero => rfl
  | succ n ih =>
    rw [memset32Mapped, ih (by omega), Option.bind_some]
    apply storeMapped_home value ht (by omega)
    rw [translate, walk_ram_other hnew _ pmm, ← translate, home]
    intro q hq
    funext j
    simp [hq]

theorem pmmAllocFrame_aligned {m : Pmm} (h : pmmAllocFrame m = some r) :
    r.2.toNat % 4096 = 0 := by
  rcases pmmAllocFrame_cases m with ⟨hnone, -⟩ | ⟨fr, t, -, -, ht, hsome⟩
  · rw [hnone] at h
    cases h
  · rw [hsome] at h
    cases h
    change t.toNat % 4096 = 0
    omega

theorem frameMask_mod (w : UInt32) : (w &&& frameMask).toNat % 4096 = 0 := by
  rw [show frameMask = ~~~(pageSize - 1) from rfl, page_floor]
  omega

/-- The end of `paging_map_page`, once the table is there. -/
theorem storeEntry_home (v p f : UInt32) (haligned : s.pageDirectory.toNat % 4096 = 0)
    (hdir : translate s s.pageDirectory = some s.pageDirectory)
    (htable : translate s (tableOf s (pdIndex v)) = some (tableOf s (pdIndex v))) :
    ((loadMapped s (wordAddr s.pageDirectory (pdIndex v))).bind fun pde =>
      storeMapped s (wordAddr (pde &&& frameMask) (ptIndex v)) (pteOf p f)) =
        some (setEntry s v p f) := by
  rw [loadMapped_home haligned (pdIndex_lt v) hdir, Option.bind_some]
  exact storeMapped_home (pteOf p f) (frameMask_mod _) (ptIndex_lt v) htable

theorem addTable_eq (hr : pmmAllocFrame s.pmm = some r) (h : addTable s i = some s') :
    s' = { s with
      pmm := r.1
      ram := storeWord (memset32 s.ram r.2 0 1024) s.pageDirectory i
        (r.2 ||| pagePresent ||| pageWritable) } := by
  simp only [addTable, hr, Option.map_some, Option.some.injEq] at h
  exact h.symm

/-- The new table is the frame that was handed out. -/
theorem addTable_table (hr : pmmAllocFrame s.pmm = some r) (h : addTable s i = some s') :
    tableOf s' i = r.2 := by
  rw [addTable_eq hr h]
  simp only [tableOf, storeWord, and_self, if_true]
  exact pdeOf_frame (pmmAllocFrame_aligned hr)

/-- Where the directory, the tables and the new frame are mapped to themselves,
`paging_map_page` works on the frames it means. -/
theorem pagingMapPageMapped_eq (v p f : UInt32) (hs : Tables s) (hfresh : FreshFrames s)
    (haligned : s.pageDirectory.toNat % 4096 = 0)
    (home : ∀ fr, InUse s fr → translate s fr = some fr)
    (hnew : ∀ r, ¬Present s (pdIndex v) → pmmAllocFrame s.pmm = some r →
      translate s r.2 = some r.2) :
    pagingMapPageMapped s v p f = pagingMapPage s v p f := by
  by_cases hd : s.pageDirectory = 0
  · simp [pagingMapPageMapped, pagingMapPage, hd]
  have hdir := home _ (.inl rfl)
  rw [pagingMapPage_eq s v p f hd, pagingMapPageMapped, if_neg hd]
  dsimp only
  rw [loadMapped_home haligned (pdIndex_lt v) hdir, Option.bind_some]
  by_cases hp : s.ram s.pageDirectory (pdIndex v) &&& pagePresent = 0
  · rw [if_pos hp, if_pos hp]
    have habsent : ¬Present s (pdIndex v) := fun hc => hc hp
    cases hr : pmmAllocFrame s.pmm with
    | none => simp [addTable, hr]
    | some r =>
      have hfree := hfresh r hr
      have hframe := pmmAllocFrame_aligned hr
      cases hadd : addTable s (pdIndex v) with
      | none => simp [addTable, hr] at hadd
      | some s1 =>
        obtain ⟨-, t, -, -, ha, hzero, hram⟩ := addTable_added hfresh _ hadd
        have hs1 := addTable_eq hr hadd
        have ht := addTable_table hr hadd
        have hwalk := addTable_walk hs ha habsent hzero hram
        have hsame : ∀ a, translate s1 a = translate s a := by
          intro a
          rw [translate, hwalk, translate]
        have hmem : ∀ q, q ≠ r.2 → memset32 s.ram r.2 0 1024 q = s.ram q := by
          intro q hq
          funext j
          simp [hq]
        have hstore : translate { s with pmm := r.1, ram := memset32 s.ram r.2 0 1024 }
            s.pageDirectory = some s.pageDirectory := by
          rw [translate, walk_ram_other hfree hmem, ← translate, hdir]
        rw [Option.bind_some, memset32Mapped_home hframe hfree (hnew r habsent hr) 0 r.1 (le_refl _),
          Option.bind_some, storeMapped_home _ haligned (pdIndex_lt v) hstore, Option.bind_some,
          ← hs1, Option.map_some]
        have hdir1 := ha.directory
        rw [← hdir1]
        apply storeEntry_home v p f
        · rw [hdir1]
          exact haligned
        · rw [hsame, hdir1]
          exact hdir
        · rw [hsame, ht]
          exact hnew r habsent hr
  · rw [if_neg hp, if_neg hp, Option.bind_some, Option.map_some]
    exact storeEntry_home v p f haligned hdir (home _ (.inr ⟨_, pdIndex_lt v, hp, rfl⟩))

end Home

end VertexOS
