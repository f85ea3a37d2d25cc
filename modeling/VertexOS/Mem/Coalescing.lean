import VertexOS.Mem.HeapRuns

namespace VertexOS
open Library.Memory Library.FreeList Library.Transitions Library.Words

/-- A row without neighbouring free regions whose taken regions all belong to live pointers. -/
structure Tidy (start size : UInt32) (s : Arena) (rs : List Region) : Prop
    extends Rowed start size s rs where
  merged : Merged rs
  owned : ∀ o r, regionAt 12 rs o = some r → r.free = false →
    ∃ l ∈ s.live, l.1.toNat = start.toNat + o + 12

/-- Two consecutive blocks that are both free. -/
def FreePair (b b' : UInt32 × BlockHeader) : Prop := b.2.free ≠ 0 ∧ b'.2.free ≠ 0

section Steps

variable {start size : UInt32} {s s' : Arena} {rs : List Region} {fuel : Nat}

theorem heapInit_header (m : Mem) (h12 : start.toNat + 12 ≤ 4294967296) (hpage : 4096 ∣ size.toNat) :
    header (heapInit m start size).mem start = ⟨size - headerBytes, 1, 0⟩ := by
  simp only [heapInit]
  rw [alignUp_page size hpage, header_setNext h12, header_setFree h12, header_setSize h12]

theorem heapInit_tidy (m : Mem) (h0 : start ≠ 0) (hpos : size ≠ 0) (hpage : 4096 ∣ size.toNat)
    (hfit : start.toNat + size.toNat ≤ 4294967296) :
    Tidy start size ⟨heapInit m start size, []⟩ [⟨size.toNat - 12, true⟩] := by
  have hsize : 4096 ≤ size.toNat := by
    have : size.toNat ≠ 0 := fun h => hpos (UInt32.toNat_inj.mp h)
    omega
  refine ⟨heapInit_rowed m h0 hpos hpage hfit, List.IsChain.singleton _, ?_⟩
  intro o r hr hf
  have hmem := regionAt_mem hr
  rw [List.mem_singleton] at hmem
  rw [hmem] at hf
  cases hf

theorem kmalloc_tidy (h : Tidy start size s rs) (hn : n.toNat ≤ 0xFFFFFFF8)
    (hc : heapCall fuel s (.kmalloc n) = some s') : ∃ rs', Tidy start size s' rs' := by
  obtain ⟨⟨hp, q⟩, hk, rfl⟩ := Option.map_eq_some_iff.mp hc
  rcases kmalloc_cases h.toRowed (Or.inl hn) hk with
    ⟨rfl, rfl, -⟩ | ⟨rs', o, r, ⟨hfit, -⟩, h', hr, hf, hq, hle, hnew, -⟩
  · exact ⟨rs, h⟩
  have hq0 : q ≠ 0 := by
    rintro rfl
    simp at hq
  rw [alignUp_heap n hn] at hle
  dsimp only
  rw [if_neg hq0]
  refine ⟨rs', h'.cons hr hf hq (by omega) hnew, firstFit_merged h.merged hfit, ?_⟩
  intro o' r' hr' hf'
  rcases firstFit_taken (by omega) (by omega) hfit hr' hf' with rfl | hold
  · exact ⟨_, List.mem_cons_self, hq⟩
  · obtain ⟨l, hl, hl1⟩ := h.owned o' r' hold hf'
    exact ⟨l, List.mem_cons_of_mem _ hl, hl1⟩

theorem kfree_tidy (h : Tidy start size s rs) (hp : p = 0 ∨ ∃ l ∈ s.live, l.1 = p)
    (hc : heapCall fuel s (.kfree p) = some s') : ∃ rs', Tidy start size s' rs' := by
  obtain ⟨h', hk, rfl⟩ := Option.map_eq_some_iff.mp hc
  rcases hp with rfl | ⟨l, hl, rfl⟩
  · rw [kfree, if_pos rfl] at hk
    cases hk
    refine ⟨rs, ⟨h.head, h.nonzero, h.fits, h.chain, h.whole, h.aligned,
      fun l hl => h.seated l (List.mem_filter.mp hl).1, h.distinct.filter _⟩, h.merged, ?_⟩
    intro o r hr hf
    obtain ⟨l, hl, hl1⟩ := h.owned o r hr hf
    have hne : l.1 ≠ 0 := by
      intro he
      rw [he] at hl1
      simp at hl1
    exact ⟨l, List.mem_filter.mpr ⟨hl, by simpa using hne⟩, hl1⟩
  · obtain ⟨o, r, hr, hl1, hrow⟩ := kfree_row h.toRowed hl hk
    refine ⟨_, hrow, coalesce_merged 12 _, ?_⟩
    intro o' r' hr' hf'
    obtain ⟨hne, hold⟩ := release_taken (by omega) (coalesce_taken (by omega) hr' hf') hf'
    obtain ⟨l', hl', hl1'⟩ := h.owned o' r' hold hf'
    refine ⟨l', List.mem_filter.mpr ⟨hl', ?_⟩, hl1'⟩
    have hdiff : l'.1 ≠ l.1 := by
      intro he
      rw [he] at hl1'
      omega
    simpa using hdiff

theorem store_tidy (h : Tidy start size s rs) (hl : l ∈ s.live) (hlo : l.1.toNat ≤ a.toNat)
    (hhi : a.toNat < l.1.toNat + l.2.toNat) (b : UInt8) :
    Tidy start size ⟨{ s.heap with mem := store8 s.heap.mem a b }, s.live⟩ rs := by
  exact ⟨h.payload hl (store8_outside s.heap.mem a b) hlo (by omega), h.merged, h.owned⟩

theorem heapStep_tidy (h : Tidy start size s rs) (hs : heapStep s c s') :
    ∃ rs', Tidy start size s' rs' := by
  obtain ⟨ha, fuel, hc⟩ := hs
  cases c with
  | kmalloc n => exact kmalloc_tidy h ha hc
  | kfree p => exact kfree_tidy h ha hc
  | store a b =>
    cases hc
    obtain ⟨l, hl, hlo, hhi⟩ := ha
    exact ⟨rs, store_tidy h hl hlo hhi b⟩

/-- Neighbouring blocks of the list are neighbouring regions. -/
theorem Laid.merged (h : Laid a rs bs) (hm : Merged rs) :
    bs.IsChain fun b b' => ¬FreePair b b' := by
  induction rs generalizing a bs with
  | nil =>
    rw [show bs = [] from h]
    exact List.IsChain.nil
  | cons r rs ih =>
    obtain ⟨b, rest, rfl, -, -, hf, -, hrest⟩ := h
    have htail := ih hrest hm.tail
    cases rs with
    | nil =>
      rw [show rest = [] from hrest]
      exact List.IsChain.singleton b
    | cons r' rs =>
      obtain ⟨b', rest', rfl, -, -, hf', -⟩ := hrest
      have hne := (List.isChain_cons_cons.mp hm).1
      exact List.isChain_cons_cons.mpr
        ⟨fun hc => hne ⟨(flag_iff hf).mp hc.1, (flag_iff hf').mp hc.2⟩, htail⟩

/-- The block list of an arena: it fills the arena with blocks of whole words, each
free or taken. -/
structure Blocked (start size : UInt32) (hp : Heap) (bs : List (UInt32 × BlockHeader)) : Prop where
  head : hp.heapHead = start
  list : ∃ fuel, blockList hp.mem fuel start = some bs
  tiles : Tiles start.toNat (start.toNat + size.toNat) bs
  words : ∀ b ∈ bs, 4 ∣ b.2.size.toNat
  flags : ∀ b ∈ bs, b.2.free = 0 ∨ b.2.free = 1

/-- Such a list is a row of regions. -/
theorem Blocked.rowed (h : Blocked start size hp bs) (h0 : start ≠ 0)
    (hfit : start.toNat + size.toNat ≤ 4294967296) :
    Rowed start size ⟨hp, []⟩ (regionsOf bs) := by
  obtain ⟨fuel, hbs⟩ := h.list
  have hspan := h.tiles.span
  refine ⟨h.head, h0, hfit, h.tiles.chain hbs h.flags, by omega, ?_, by simp, by simp⟩
  intro r hr
  obtain ⟨b, hb, rfl⟩ := List.mem_map.mp hr
  exact h.words b hb

theorem regionsOf_merged (h : bs.IsChain fun b b' => ¬FreePair b b') : Merged (regionsOf bs) := by
  apply (List.isChain_map _).mpr
  apply h.imp
  intro b b' hne
  simpa [FreePair] using hne

/-- The same row again is the same list again. -/
theorem Blocked.again (h : Blocked start size hp bs) (h0 : start ≠ 0)
    (hfit : start.toNat + size.toNat ≤ 4294967296)
    (h' : Rowed start size ⟨hp', live⟩ (regionsOf bs)) : Blocked start size hp' bs := by
  obtain ⟨fuel, hbs⟩ := h.list
  have hsame := (h.rowed h0 hfit).chain.blockList_eq h'.chain fuel
  exact ⟨h'.head, ⟨fuel, hsame.trans hbs⟩, h.tiles, h.words, h.flags⟩

theorem Rowed.blocked (h : Rowed start size s rs) :
    ∃ bs, Blocked start size s.heap bs ∧ Laid start.toNat rs bs := by
  obtain ⟨bs, hbs, hl⟩ := blockList_chain h.chain (Nat.lt_succ_self rs.length)
  have htiles := hl.tiles
  rw [h.whole] at htiles
  refine ⟨bs, ⟨h.head, ⟨_, hbs⟩, htiles, ?_, ?_⟩, hl⟩
  · intro b hb
    obtain ⟨o, r, hr, -, hsize, -⟩ := hl.region hb
    rw [hsize]
    exact h.aligned r (regionAt_mem hr)
  · intro b hb
    obtain ⟨o, r, -, -, -, hf⟩ := hl.region hb
    rw [hf]
    cases r.free with
    | false => exact .inl rfl
    | true => exact .inr rfl

/-- With nothing live the row is one free region. -/
theorem Tidy.emptied (h : Tidy start size s rs) (hlive : s.live = []) :
    rs = [⟨size.toNat - 12, true⟩] := by
  rw [← h.whole]
  apply h.merged.single
  · intro r hr
    obtain ⟨o, ho⟩ := mem_regionAt (show 0 < 12 by omega) hr
    by_contra hf
    obtain ⟨l, hl, -⟩ := h.owned o r ho (by simpa using hf)
    rw [hlive] at hl
    cases hl
  · rintro rfl
    exact h.nonzero h.chain

/-- The one block that is left is the one of `heap_init`. -/
theorem Tidy.restored (h : Tidy start size s rs) (hlive : s.live = []) :
    header s.heap.mem start = ⟨size - headerBytes, 1, 0⟩ := by
  obtain rfl := h.emptied hlive
  obtain ⟨-, hsize, hfree, -, hnext⟩ := h.chain
  have h12 : 12 ≤ size.toNat := by
    have hwhole := h.whole
    simp only [span] at hwhole
    omega
  have hvalue : (header s.heap.mem start).size = size - headerBytes := by
    apply UInt32.toNat_inj.mp
    have hle : headerBytes ≤ size := UInt32.le_iff_toNat_le.mpr h12
    rw [hsize, UInt32.toNat_sub_of_le _ _ hle]
    rfl
  have hflag : (header s.heap.mem start).free = 1 := hfree
  rw [← hvalue, ← hflag, ← show (header s.heap.mem start).next = 0 from hnext]

theorem blockList_single (h0 : p ≠ 0) (hh : header m p = ⟨size, free, 0⟩) (hfuel : 1 < fuel) :
    blockList m fuel p = some [(p, ⟨size, free, 0⟩)] := by
  obtain ⟨fuel, rfl⟩ : ∃ f, fuel = f + 2 := ⟨fuel - 2, by omega⟩
  rw [blockList, if_neg h0, hh, blockList, if_pos rfl]
  rfl

/-- In that block every request that fits is met. -/
theorem Tidy.met (h : Tidy start size s rs) (hlive : s.live = []) (hn0 : n ≠ 0)
    (hn : (n.toNat + 7) / 8 * 8 ≤ size.toNat - 12) (hfuel : size.toNat < fuel) :
    ∃ hp q, kmalloc fuel s.heap n = some (hp, q) ∧ q ≠ 0 := by
  obtain rfl := h.emptied hlive
  have hsmall : n.toNat ≤ 0xFFFFFFF8 := by
    have := size.toNat_lt
    omega
  have hspec := kmalloc_eq h.toRowed hn0 (.inl hsmall) (h.length_lt hfuel)
  rw [firstFit, if_pos ⟨rfl, by rwa [alignUp_heap n hsmall]⟩] at hspec
  obtain ⟨m, q, hk, hq, -⟩ := hspec
  refine ⟨_, q, hk, ?_⟩
  rintro rfl
  simp at hq

end Steps

/-- In every state of a run no two consecutive blocks are free; once every allocation is given
back the list is the one block of `heap_init`, and every request that fits in it is met. -/
theorem heap_coalesces (m : Mem) (start size : UInt32) (calls : List HeapCall) (s : Arena)
    (h0 : start ≠ 0) (hpos : size ≠ 0) (hpage : 4096 ∣ size.toNat)
    (hfit : start.toNat + size.toNat ≤ 4294967296)
    (hrun : Run heapStep ⟨heapInit m start size, []⟩ calls s) (fuel : Nat)
    (hfuel : size.toNat < fuel) :
    ∃ bs, blockList s.heap.mem fuel s.heap.heapHead = some bs ∧
      bs.IsChain (fun b b' => ¬FreePair b b') ∧
      (s.live = [] →
        blockList (heapInit m start size).mem fuel start = some bs ∧
        bs = [(start, ⟨size - headerBytes, 1, 0⟩)] ∧
        ∀ n : UInt32, n ≠ 0 → (n.toNat + 7) / 8 * 8 ≤ size.toNat - 12 →
          ∃ hp q, kmalloc fuel s.heap n = some (hp, q) ∧ q ≠ 0) := by
  obtain ⟨rs, h⟩ : ∃ rs, Tidy start size s rs := by
    refine hrun.invariant (P := fun s => ∃ rs, Tidy start size s rs) ?_
      ⟨_, heapInit_tidy m h0 hpos hpage hfit⟩
    intro t c t' ⟨rs, ht⟩ hc
    exact heapStep_tidy ht hc
  obtain ⟨bs, hbs, hlaid⟩ := blockList_chain h.chain (h.length_lt hfuel)
  rw [h.head]
  refine ⟨bs, hbs, hlaid.merged h.merged, ?_⟩
  intro hlive
  have hsize : 4096 ≤ size.toNat := by
    have : size.toNat ≠ 0 := fun h => hpos (UInt32.toNat_inj.mp h)
    omega
  have hone : 1 < fuel := by omega
  have hsame := blockList_single h0 (h.restored hlive) hone
  obtain rfl := Option.some.inj (hbs.symm.trans hsame)
  exact ⟨blockList_single h0 (heapInit_header m (by omega) hpage) hone, rfl,
    fun n hn0 hn => h.met hlive hn0 hn hfuel⟩

/-- Two allocations given back in the order they were made. -/
theorem heap_coalesces_page : ∃ s, Run heapStep ⟨heapInit (fun _ => 0) 0x100000 4096, []⟩
      [.kmalloc 10, .kmalloc 100, .kfree 0x10000C, .kfree 0x100028] s ∧
    blockList s.heap.mem 4097 s.heap.heapHead = some [(0x100000, ⟨4084, 1, 0⟩)] := by
  have heval : (exec (heapNext 5) ⟨heapInit (fun _ => 0) 0x100000 4096, []⟩
      [.kmalloc 10, .kmalloc 100, .kfree 0x10000C, .kfree 0x100028]).toOption.map
      (fun s => s.live) = some [] := by
    decide +kernel
  obtain ⟨s, hrun, hlive⟩ := exec_observed _ heval
  have hrun' := hrun.mono (fun _ _ _ h => heapNext_step h)
  obtain ⟨bs, hbs, -, hempty⟩ := heap_coalesces (fun _ => 0) 0x100000 4096 _ s (by decide)
    (by decide) (by decide) (by decide) hrun' 4097 (by decide)
  obtain ⟨-, rfl, -⟩ := hempty hlive
  exact ⟨s, hrun', hbs⟩

/-- Before any call the heap refuses a request of no bytes, which would fit. -/
theorem heap_refuses_nothing :
    Run heapStep ⟨heapInit (fun _ => 0) heapStart heapSize, []⟩ []
      ⟨heapInit (fun _ => 0) heapStart heapSize, []⟩ ∧
    ((0 : UInt32).toNat + 7) / 8 * 8 ≤ heapSize.toNat - 12 ∧
    kmalloc 9 (heapInit (fun _ => 0) heapStart heapSize) 0 =
      some (heapInit (fun _ => 0) heapStart heapSize, 0) :=
  ⟨.nil _, by decide, rfl⟩


end VertexOS
