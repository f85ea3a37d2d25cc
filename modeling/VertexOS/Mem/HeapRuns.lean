import VertexOS.Library.Transitions
import VertexOS.Mem.Blocks

namespace VertexOS
open Library.Memory Library.FreeList Library.Words Library.Transitions

/-- The heap and its live allocations: each pointer with the size it was
requested with. -/
structure Arena where
  heap : Heap
  live : List (UInt32 × UInt32)

inductive HeapCall where
  | kmalloc (n : UInt32)
  | kfree (p : UInt32)
  /-- The client writes a byte. -/
  | store (a : UInt32) (b : UInt8)
  deriving DecidableEq, Repr

def heapCall (fuel : Nat) (s : Arena) : HeapCall → Option Arena
  | .kmalloc n => (kmalloc fuel s.heap n).map fun r =>
      ⟨r.1, if r.2 = 0 then s.live else (r.2, n) :: s.live⟩
  | .kfree p => (kfree fuel s.heap p).map fun h => ⟨h, s.live.filter (·.1 ≠ p)⟩
  | .store a b => some ⟨{ s.heap with mem := store8 s.heap.mem a b }, s.live⟩

/-- What a client may ask for: a size that can be rounded up, and only its own
pointers and bytes. -/
def Allowed (s : Arena) : HeapCall → Prop
  | .kmalloc n => n.toNat ≤ 0xFFFFFFF8
  | .kfree p => p = 0 ∨ ∃ l ∈ s.live, l.1 = p
  | .store a _ => ∃ l ∈ s.live, l.1.toNat ≤ a.toNat ∧ a.toNat < l.1.toNat + l.2.toNat

def heapStep (s : Arena) (c : HeapCall) (s' : Arena) : Prop :=
  Allowed s c ∧ ∃ fuel, heapCall fuel s c = some s'

/-- An allocation sits in a taken region of the row behind `start`. -/
def Seated (start : UInt32) (rs : List Region) (l : UInt32 × UInt32) : Prop :=
  ∃ o r, regionAt 12 rs o = some r ∧ r.free = false ∧ l.1.toNat = start.toNat + o + 12 ∧
    l.2.toNat ≤ r.size

/-- The heap's memory is a row of regions, and the live allocations have theirs. -/
structure Rowed (start size : UInt32) (s : Arena) (rs : List Region) : Prop where
  head : s.heap.heapHead = start
  nonzero : start ≠ 0
  fits : start.toNat + size.toNat ≤ 4294967296
  chain : Chain s.heap.mem start rs
  whole : span 12 rs = size.toNat
  aligned : ∀ r ∈ rs, 4 ∣ r.size
  seated : ∀ l ∈ s.live, Seated start rs l
  distinct : s.live.Pairwise fun l l' => l.1 ≠ l'.1

section Steps

variable {start size : UInt32} {s s' : Arena} {rs : List Region} {fuel : Nat}

theorem heapInit_rowed (m : Mem) (h0 : start ≠ 0) (hpos : size ≠ 0) (hpage : 4096 ∣ size.toNat)
    (hfit : start.toNat + size.toNat ≤ 4294967296) :
    Rowed start size ⟨heapInit m start size, []⟩ [⟨size.toNat - 12, true⟩] := by
  have hsize : 4096 ≤ size.toNat := by
    have : size.toNat ≠ 0 := fun h => hpos (UInt32.toNat_inj.mp h)
    omega
  have hp : start.toNat + 12 ≤ 4294967296 := by omega
  have hsub : (size - headerBytes).toNat = size.toNat - 12 := by
    apply UInt32.toNat_sub_of_le
    rw [UInt32.le_iff_toNat_le]
    exact Nat.le_trans (by decide) hsize
  have hh : header (heapInit m start size).mem start = ⟨size - headerBytes, 1, 0⟩ := by
    simp only [heapInit, alignUp_page size hpage]
    rw [header_setNext hp, header_setFree hp, header_setSize hp]
  refine ⟨rfl, h0, hfit, ?_, ?_, ?_, by simp, by simp⟩
  · exact Chain.mk_cons h0 hh hsub rfl (by simp) rfl
  · simp only [span]
    omega
  · simp only [List.mem_singleton, forall_eq]
    omega

theorem Rowed.bound (h : Rowed start size s rs) : start.toNat + span 12 rs ≤ 4294967296 := by
  rw [h.whole]
  exact h.fits

/-- What the list walk of `kmalloc` does with a row. -/
theorem kmalloc_eq (h : Rowed start size s rs) (hn0 : n ≠ 0)
    (hn : n.toNat ≤ 0xFFFFFFF8 ∨ start.toNat + size.toNat < 4294967296)
    (hfuel : rs.length < fuel) :
    match firstFit 12 20 (alignUp n heapAlign).toNat rs with
    | none => kmalloc fuel s.heap n = some (s.heap, 0)
    | some (o, rs') => ∃ m q, kmalloc fuel s.heap n = some ({ s.heap with mem := m }, q) ∧
        q.toNat = start.toNat + o + 12 ∧ Chain m start rs' ∧
        ∃ r, regionAt 12 rs o = some r ∧
          SameOutside (start.toNat + o) (start.toNat + o + (12 + r.size)) s.heap.mem m := by
  obtain rfl := h.head
  have hpos : 0 < (alignUp n heapAlign).toNat ∨
      s.heap.heapHead.toNat + span 12 rs < 4294967296 := by
    rw [h.whole]
    refine hn.imp (fun hn => ?_) id
    rw [alignUp_heap n hn]
    have : n.toNat ≠ 0 := fun hz => hn0 (UInt32.toNat_inj.mp hz)
    omega
  have hloop := kmallocLoop_chain h.chain h.bound hpos hfuel
  have hne : ¬ (n = 0 ∨ s.heap.heapHead = 0) := by
    rintro (hz | hz)
    · exact hn0 hz
    · exact h.nonzero hz
  rw [kmalloc, if_neg hne]
  revert hloop
  cases firstFit 12 20 (alignUp n heapAlign).toNat rs with
  | none =>
    intro hloop
    dsimp only at hloop ⊢
    rw [hloop]
    rfl
  | some found =>
    obtain ⟨o, rs'⟩ := found
    rintro ⟨m, q, hloop, hq, hchain, hs, -⟩
    exact ⟨m, q, by rw [hloop]; rfl, hq, hchain, hs⟩

theorem kmalloc_mono (h : kmalloc fuel hp n = some x) (k : Nat) :
    kmalloc (fuel + k) hp n = some x := by
  unfold kmalloc at h ⊢
  split
  · rwa [if_pos (by assumption)] at h
  · rw [if_neg (by assumption)] at h
    obtain ⟨y, hy, hx⟩ := Option.map_eq_some_iff.mp h
    rw [kmallocLoop_mono hy k]
    exact congrArg some hx

/-- Two taken or free regions at different offsets do not overlap. -/
theorem regionAt_apart (hr : regionAt 12 rs o = some r) (hr' : regionAt 12 rs o' = some r')
    (hne : o ≠ o') : o + 12 + r.size ≤ o' ∨ o' + 12 + r'.size ≤ o := by
  rcases Nat.lt_or_gt_of_ne hne with hlt | hlt
  · exact Or.inl (regionAt_disjoint hr hr' hlt)
  · exact Or.inr (regionAt_disjoint hr' hr hlt)

/-- `kmalloc` leaves the heap as it was, or takes a region for itself and keeps
the bytes of every live payload. -/
theorem kmalloc_cases (h : Rowed start size s rs)
    (hn : n.toNat ≤ 0xFFFFFFF8 ∨ start.toNat + size.toNat < 4294967296)
    (hk : kmalloc fuel s.heap n = some (hp, q)) :
    q = 0 ∧ hp = s.heap ∧
      (n = 0 ∨ firstFit 12 20 (alignUp n heapAlign).toNat rs = none) ∨
    ∃ rs' o r, (firstFit 12 20 (alignUp n heapAlign).toNat rs = some (o, rs') ∧
        ∃ t, regionAt 12 rs o = some t ∧
          SameOutside (start.toNat + o) (start.toNat + o + (12 + t.size)) s.heap.mem hp.mem) ∧
      Rowed start size ⟨hp, s.live⟩ rs' ∧ regionAt 12 rs' o = some r ∧ r.free = false ∧
      q.toNat = start.toNat + o + 12 ∧ (alignUp n heapAlign).toNat ≤ r.size ∧
      (∀ l ∈ s.live, q ≠ l.1) ∧
      ∀ l ∈ s.live, ∀ a : UInt32, l.1.toNat ≤ a.toNat → a.toNat < l.1.toNat + l.2.toNat →
        hp.mem a = s.heap.mem a := by
  by_cases hn0 : n = 0
  · rw [kmalloc, if_pos (Or.inl hn0)] at hk
    cases hk
    exact Or.inl ⟨rfl, rfl, Or.inl hn0⟩
  have hlen : rs.length < fuel + (rs.length + 1) := by omega
  have hk' := kmalloc_mono hk (rs.length + 1)
  have hspec := kmalloc_eq h hn0 hn hlen
  revert hspec
  cases hfit : firstFit 12 20 (alignUp n heapAlign).toNat rs with
  | none =>
    intro hspec
    dsimp only at hspec
    rw [hspec] at hk'
    cases hk'
    exact Or.inl ⟨rfl, rfl, Or.inr rfl⟩
  | some found =>
    obtain ⟨o, rs'⟩ := found
    rintro ⟨m, q', hspec, hq, hchain, t, ht, hs⟩
    rw [hspec] at hk'
    cases hk'
    obtain ⟨⟨r, hr, hrfree⟩, r', hr', hfree, hle⟩ := firstFit_new (by omega) hfit
    obtain rfl : t = r := Option.some.inj (ht.symm.trans hr)
    -- the region handed out was free, the live ones are not
    have hother : ∀ l ∈ s.live, ∃ o' r'', regionAt 12 rs o' = some r'' ∧ o ≠ o' ∧
        l.1.toNat = start.toNat + o' + 12 ∧ l.2.toNat ≤ r''.size := by
      intro l hl
      obtain ⟨o', r'', hr'', hf, hl1, hl2⟩ := h.seated l hl
      refine ⟨o', r'', hr'', ?_, hl1, hl2⟩
      rintro rfl
      rw [hr] at hr''
      cases hr''
      rw [hrfree] at hf
      cases hf
    refine Or.inr ⟨rs', o, r', ⟨rfl, t, hr, hs⟩, ⟨h.head, h.nonzero, h.fits, hchain, ?_, ?_, ?_, h.distinct⟩, hr',
      hfree, hq, hle, ?_, ?_⟩
    · rw [firstFit_span (by omega) hfit, h.whole]
    · have := alignUp_dvd n
      exact firstFit_dvd (by omega) (by omega) h.aligned hfit
    · intro l hl
      obtain ⟨o', t', ht', htf, hrest⟩ := h.seated l hl
      exact ⟨o', t', firstFit_kept (by omega) (by omega) hfit ht' htf, htf, hrest⟩
    · rintro l hl rfl
      obtain ⟨o', r'', -, hne, hl1, -⟩ := hother l hl
      omega
    · intro l hl a hlo hhi
      obtain ⟨o', r'', hr'', hne, hl1, hl2⟩ := hother l hl
      have := regionAt_apart hr hr'' hne
      exact hs a (by omega)

/-- The new pointer joins the live ones. -/
theorem Rowed.cons (h : Rowed start size ⟨hp, live⟩ rs) (hr : regionAt 12 rs o = some r)
    (hf : r.free = false) (hq : q.toNat = start.toNat + o + 12) (hn : n.toNat ≤ r.size)
    (hnew : ∀ l ∈ live, q ≠ l.1) : Rowed start size ⟨hp, (q, n) :: live⟩ rs := by
  refine ⟨h.head, h.nonzero, h.fits, h.chain, h.whole, h.aligned, ?_, ?_⟩
  · intro l hl
    rcases List.mem_cons.mp hl with rfl | hl
    · exact ⟨o, r, hr, hf, hq, hn⟩
    · exact h.seated l hl
  · exact List.pairwise_cons.mpr ⟨hnew, h.distinct⟩

/-- An allocation keeps the row, with the new pointer in it. -/
theorem kmalloc_rowed (h : Rowed start size s rs) (hn : n.toNat ≤ 0xFFFFFFF8)
    (hc : heapCall fuel s (.kmalloc n) = some s') : ∃ rs', Rowed start size s' rs' := by
  obtain ⟨⟨hp, q⟩, hk, rfl⟩ := Option.map_eq_some_iff.mp hc
  rcases kmalloc_cases h (Or.inl hn) hk with ⟨rfl, rfl, -⟩ | ⟨rs', o, r, -, h', hr, hf, hq, hle, hnew, -⟩
  · exact ⟨rs, h⟩
  · have hq0 : q ≠ 0 := by
      rintro rfl
      simp at hq
    rw [alignUp_heap n hn] at hle
    dsimp only
    rw [if_neg hq0]
    exact ⟨rs', h'.cons hr hf hq (by omega) hnew⟩

theorem kfree_eq (h : Rowed start size s rs) (hr : regionAt 12 rs o = some r)
    (hp : p.toNat = start.toNat + o + 12) (hfuel : rs.length < fuel) :
    ∃ m, kfree fuel s.heap p = some { s.heap with mem := m } ∧
      Chain m start (coalesce 12 (release 12 rs o)) ∧
      SameOutside start.toNat (start.toNat + span 12 rs) s.heap.mem m := by
  obtain rfl := h.head
  have hp0 : p ≠ 0 := by
    rintro rfl
    simp at hp
  have hq : (p - headerBytes).toNat = s.heap.heapHead.toNat + o := by
    rw [UInt32.toNat_sub_of_le]
    · rw [hp]
      exact Nat.add_sub_cancel _ _
    · rw [UInt32.le_iff_toNat_le, hp]
      exact Nat.le_add_left _ _
  have hchain := setFree_chain h.chain h.bound hr hq
  have hb : s.heap.heapHead.toNat + span 12 (release 12 rs o) ≤ 4294967296 := by
    rw [release_span]
    exact h.bound
  obtain ⟨m, hloop, hm, hs⟩ := coalesceLoop_chain hchain hb (by rwa [release_length])
  have hbound := regionAt_bound hr
  have hfit := h.bound
  have hq12 : (p - headerBytes).toNat + 12 ≤ 4294967296 := by omega
  refine ⟨m, ?_, hm, ?_⟩
  · rw [kfree, if_neg hp0]
    dsimp only
    rw [hloop]
    rfl
  · rw [release_span] at hs
    have hfree := setFree_outside hq12 s.heap.mem 1
    exact (hfree.mono (by omega) (by omega)).trans hs

theorem kfree_mono (h : kfree fuel hp p = some h') (k : Nat) : kfree (fuel + k) hp p = some h' := by
  unfold kfree at h ⊢
  split
  · rwa [if_pos (by assumption)] at h
  · rw [if_neg (by assumption)] at h
    obtain ⟨m, hm, hx⟩ := Option.map_eq_some_iff.mp h
    dsimp only at hm ⊢
    rw [coalesceLoop_mono hm k]
    exact congrArg some hx

/-- A live pointer given back: its region is released, and the others stay. -/
theorem kfree_row (h : Rowed start size s rs) (hl : l ∈ s.live)
    (hk : kfree fuel s.heap l.1 = some hp) : ∃ o r, regionAt 12 rs o = some r ∧
      l.1.toNat = start.toNat + o + 12 ∧
      Rowed start size ⟨hp, s.live.filter (·.1 ≠ l.1)⟩ (coalesce 12 (release 12 rs o)) := by
  have hkeep : ∀ l', l' ∈ s.live.filter (·.1 ≠ l.1) → l' ∈ s.live ∧ l'.1 ≠ l.1 := by
    intro l' hl'
    simpa using List.mem_filter.mp hl'
  obtain ⟨o, r, hr, hf, hl1, -⟩ := h.seated l hl
  have hlen : rs.length < fuel + (rs.length + 1) := by omega
  obtain ⟨m, hspec, hchain, -⟩ := kfree_eq h hr hl1 hlen
  rw [kfree_mono hk] at hspec
  cases hspec
  refine ⟨o, r, hr, hl1, h.head, h.nonzero, h.fits, hchain, ?_, ?_, ?_, h.distinct.filter _⟩
  · rw [coalesce_span, release_span, h.whole]
  · exact coalesce_dvd (by omega) (release_dvd h.aligned o)
  · intro l' hl'
    obtain ⟨hmem, hne⟩ := hkeep l' hl'
    obtain ⟨o', r', hr', hf', hl1', hle⟩ := h.seated l' hmem
    have hoo : o' ≠ o := by
      rintro rfl
      exact hne (UInt32.toNat_inj.mp (hl1'.trans hl1.symm))
    exact ⟨o', r', coalesce_kept (by omega) (release_other (by omega) hr hr' hoo) hf', hf', hl1',
      hle⟩

/-- The pointer was handed out from a row, which became another one by it. -/
def Allotted (start : UInt32) (rs rs' : List Region) (q : UInt32) : Prop :=
  ∃ n o, firstFit 12 20 n rs = some (o, rs') ∧ q.toNat = start.toNat + o + 12

/-- Giving back what was allotted last restores the row it came from. -/
theorem kfree_allotted (ha : Allotted start rs rs' q) (hm : Merged rs)
    (h : Rowed start size ⟨hp, (q, n) :: live⟩ rs') (hk : kfree fuel hp q = some hp') :
    Rowed start size ⟨hp', live⟩ rs := by
  obtain ⟨k, o, hfit, hq⟩ := ha
  obtain ⟨o', r, hr, hq', hrow⟩ := kfree_row h List.mem_cons_self hk
  dsimp only at hq'
  obtain rfl : o' = o := by omega
  have hlive : ((q, n) :: live).filter (·.1 ≠ q) = live := by
    have hne := (List.pairwise_cons.mp h.distinct).1
    rw [List.filter_cons_of_neg (by simp)]
    apply List.filter_eq_self.mpr
    intro l hl
    simpa using fun he => hne l hl he.symm
  rwa [firstFit_release (by omega) (by omega) hm hfit, hlive] at hrow

/-- Giving a pointer back keeps the row and the other allocations. -/
theorem kfree_rowed (h : Rowed start size s rs) (hp : p = 0 ∨ ∃ l ∈ s.live, l.1 = p)
    (hc : heapCall fuel s (.kfree p) = some s') : ∃ rs', Rowed start size s' rs' := by
  obtain ⟨h', hk, rfl⟩ := Option.map_eq_some_iff.mp hc
  rcases hp with rfl | ⟨l, hl, rfl⟩
  · rw [kfree, if_pos rfl] at hk
    cases hk
    exact ⟨rs, h.head, h.nonzero, h.fits, h.chain, h.whole, h.aligned,
      fun l hl => h.seated l (List.mem_filter.mp hl).1, h.distinct.filter _⟩
  · obtain ⟨o, r, -, -, hrow⟩ := kfree_row h hl hk
    exact ⟨_, hrow⟩

/-- Writing to a live payload keeps the row. -/
theorem Rowed.payload (h : Rowed start size s rs) (hl : l ∈ s.live)
    (hs : SameOutside lo hi s.heap.mem m) (hlo : l.1.toNat ≤ lo)
    (hhi : hi ≤ l.1.toNat + l.2.toNat) :
    Rowed start size ⟨{ s.heap with mem := m }, s.live⟩ rs := by
  obtain ⟨o, r, hr, -, hl1, hle⟩ := h.seated l hl
  exact ⟨h.head, h.nonzero, h.fits, payload_chain h.chain h.bound hr hs (by omega) (by omega),
    h.whole, h.aligned, h.seated, h.distinct⟩

theorem heapStep_rowed (h : Rowed start size s rs) (hs : heapStep s c s') :
    ∃ rs', Rowed start size s' rs' := by
  obtain ⟨ha, fuel, hc⟩ := hs
  cases c with
  | kmalloc n => exact kmalloc_rowed h ha hc
  | kfree p => exact kfree_rowed h ha hc
  | store a b =>
    cases hc
    obtain ⟨l, hl, hlo, hhi⟩ := ha
    exact ⟨rs, h.payload hl (store8_outside _ a b) hlo (by omega)⟩

/-- The heap's code writes in the heap only. -/
theorem heapStep_outside (h : Rowed start size s rs) (hs : heapStep s c s') :
    SameOutside start.toNat (start.toNat + size.toNat) s.heap.mem s'.heap.mem := by
  obtain ⟨ha, fuel, hc⟩ := hs
  have hlen : rs.length < fuel + (rs.length + 1) := by omega
  have hwhole := h.whole
  cases c with
  | kmalloc n =>
    obtain ⟨⟨hp, q⟩, hk, rfl⟩ := Option.map_eq_some_iff.mp hc
    by_cases hn0 : n = 0
    · rw [kmalloc, if_pos (Or.inl hn0)] at hk
      cases hk
      exact SameOutside.refl _ _ _
    · have hk' := kmalloc_mono hk (rs.length + 1)
      have hspec := kmalloc_eq h hn0 (Or.inl ha) hlen
      revert hspec
      cases firstFit 12 20 (alignUp n heapAlign).toNat rs with
      | none =>
        intro hspec
        dsimp only at hspec
        rw [hspec] at hk'
        cases hk'
        exact SameOutside.refl _ _ _
      | some found =>
        rintro ⟨m, q', hspec, -, -, r, hr, hsame⟩
        rw [hspec] at hk'
        cases hk'
        have hbound := regionAt_bound hr
        exact hsame.mono (by omega) (by omega)
  | kfree p =>
    obtain ⟨h', hk, rfl⟩ := Option.map_eq_some_iff.mp hc
    rcases ha with rfl | ⟨l, hl, rfl⟩
    · rw [kfree, if_pos rfl] at hk
      cases hk
      exact SameOutside.refl _ _ _
    · obtain ⟨o, r, hr, -, hl1, -⟩ := h.seated l hl
      obtain ⟨m, hspec, -, hsame⟩ := kfree_eq h hr hl1 hlen
      rw [kfree_mono hk] at hspec
      cases hspec
      rw [← hwhole]
      exact hsame
  | store a b =>
    cases hc
    obtain ⟨l, hl, hlo, hhi⟩ := ha
    obtain ⟨o, r, hr, -, hl1, hle⟩ := h.seated l hl
    have hbound := regionAt_bound hr
    exact (store8_outside _ a b).mono (by omega) (by omega)

theorem Rowed.length_lt (h : Rowed start size s rs) (hfuel : size.toNat < fuel) :
    rs.length < fuel := by
  have := length_le_span (show 0 < 12 by omega) rs
  have := h.whole
  omega

theorem kmalloc_returns (h : Rowed start size s rs)
    (hn : n.toNat ≤ 0xFFFFFFF8 ∨ start.toNat + size.toNat < 4294967296)
    (hfuel : size.toNat < fuel) :
    ∃ x, kmalloc fuel s.heap n = some x := by
  by_cases hn0 : n = 0
  · exact ⟨_, by rw [kmalloc, if_pos (Or.inl hn0)]⟩
  have hspec := kmalloc_eq h hn0 hn (h.length_lt hfuel)
  revert hspec
  cases firstFit 12 20 (alignUp n heapAlign).toNat rs with
  | none => exact fun hspec => ⟨_, hspec⟩
  | some found =>
    rintro ⟨m, q, hspec, -⟩
    exact ⟨_, hspec⟩

/-- No call runs for ever. -/
theorem heapCall_returns (h : Rowed start size s rs) (ha : Allowed s c)
    (hfuel : size.toNat < fuel) : ∃ s', heapCall fuel s c = some s' := by
  cases c with
  | kmalloc n =>
    obtain ⟨x, hx⟩ := kmalloc_returns h (Or.inl ha) hfuel
    exact ⟨_, by rw [heapCall, hx]; rfl⟩
  | kfree p =>
    rcases ha with rfl | ⟨l, hl, rfl⟩
    · exact ⟨_, by rw [heapCall, kfree, if_pos rfl]; rfl⟩
    · obtain ⟨o, r, hr, -, hl1, -⟩ := h.seated l hl
      obtain ⟨m, hspec, -⟩ := kfree_eq h hr hl1 (h.length_lt hfuel)
      exact ⟨_, by rw [heapCall, hspec]; rfl⟩
  | store a b => exact ⟨_, rfl⟩

end Steps

/-- A list of blocks that fills the bytes from `a` to `e`, in address order. -/
def Tiles : Nat → Nat → List (UInt32 × BlockHeader) → Prop
  | a, e, [] => a = e
  | a, e, b :: bs => b.1.toNat = a ∧
      (b.2.next ≠ 0 → b.2.next.toNat = a + (12 + b.2.size.toNat)) ∧
      Tiles (a + (12 + b.2.size.toNat)) e bs

/-- A live pointer is the payload, up to `hi`, of a taken block that is large enough. -/
def Payload (bs : List (UInt32 × BlockHeader)) (l : UInt32 × UInt32) (hi : Nat) : Prop :=
  ∃ b ∈ bs, b.2.free = 0 ∧ l.1.toNat = b.1.toNat + 12 ∧ l.2.toNat ≤ b.2.size.toNat ∧
    hi = l.1.toNat + b.2.size.toNat

/-- Every byte of the arena is accounted for by the block list. -/
structure Accounted (start size : Nat) (live : List (UInt32 × UInt32))
    (bs : List (UInt32 × BlockHeader)) : Prop where
  tiles : Tiles start (start + size) bs
  bytes : (bs.map fun b => 12 + b.2.size.toNat).sum = size
  payloads : ∀ l ∈ live, ∃ hi, Payload bs l hi
  apart : live.Pairwise fun l l' => ∀ hi hi', Payload bs l hi → Payload bs l' hi' →
    hi ≤ l'.1.toNat ∨ hi' ≤ l.1.toNat
  headers : ∀ l hi, Payload bs l hi → ∀ b ∈ bs, hi ≤ b.1.toNat ∨ b.1.toNat + 12 ≤ l.1.toNat
  inside : ∀ l hi, Payload bs l hi → start ≤ l.1.toNat ∧ hi ≤ start + size ∧ 4 ∣ l.1.toNat

section Account

variable {start size : UInt32} {s : Arena} {rs : List Region} {bs : List (UInt32 × BlockHeader)}

theorem Laid.tiles (h : Laid a rs bs) : Tiles a (a + span 12 rs) bs := by
  induction rs generalizing a bs with
  | nil =>
    rw [show bs = [] from h]
    rfl
  | cons r rs ih =>
    obtain ⟨b, rest, rfl, hb, hsize, -, hnext, hrest⟩ := h
    have := ih hrest
    rw [Nat.add_assoc] at this
    rw [Tiles, hsize]
    exact ⟨hb, hnext, this⟩

theorem Laid.bytes (h : Laid a rs bs) :
    (bs.map fun b => 12 + b.2.size.toNat).sum = span 12 rs := by
  induction rs generalizing a bs with
  | nil =>
    rw [show bs = [] from h]
    rfl
  | cons r rs ih =>
    obtain ⟨b, rest, rfl, -, hsize, -, -, hrest⟩ := h
    simp only [List.map_cons, List.sum_cons, span]
    rw [ih hrest, hsize]

theorem Laid.usedBytes (h : Laid a rs bs) :
    ((bs.filter fun b => b.2.free = 0).map fun b => b.2.size.toNat).sum = used rs := by
  induction rs generalizing a bs with
  | nil =>
    rw [show bs = [] from h]
    rfl
  | cons r rs ih =>
    obtain ⟨b, rest, rfl, -, hsize, hf, -, hrest⟩ := h
    rw [used, ← ih hrest]
    by_cases hz : b.2.free = 0
    · have hr : r.free = false := by
        by_contra hne
        exact (flag_iff hf).mpr (by simpa using hne) hz
      simp [hz, hr, hsize]
    · simp [hz, (flag_iff hf).mp hz]

/-- The region of a live pointer's payload. -/
theorem Laid.payload (h : Laid a rs bs) (hp : Payload bs l hi) : ∃ o r,
    regionAt 12 rs o = some r ∧ l.1.toNat = a + o + 12 ∧ hi = a + o + 12 + r.size := by
  obtain ⟨b, hb, -, hl, -, rfl⟩ := hp
  obtain ⟨o, r, hr, hbo, hsize, -⟩ := h.region hb
  exact ⟨o, r, hr, by omega, by omega⟩

/-- The regions that a list of blocks stands for. -/
def regionsOf (bs : List (UInt32 × BlockHeader)) : List Region :=
  bs.map fun b => ⟨b.2.size.toNat, b.2.free ≠ 0⟩

theorem blockList_nil (h : blockList m fuel p = some []) : p = 0 := by
  cases fuel with
  | zero => cases h
  | succ fuel =>
    rw [blockList] at h
    by_contra hp
    rw [if_neg hp] at h
    obtain ⟨bs, -, he⟩ := Option.map_eq_some_iff.mp h
    cases he

/-- A list of blocks that lie one behind the other is a row in memory. -/
theorem Tiles.chain (h : Tiles p.toNat e bs) (hbs : blockList m fuel p = some bs)
    (hflags : ∀ b ∈ bs, b.2.free = 0 ∨ b.2.free = 1) : Chain m p (regionsOf bs) := by
  induction bs generalizing p fuel with
  | nil => exact blockList_nil hbs
  | cons b bs ih =>
    cases fuel with
    | zero => cases hbs
    | succ fuel =>
    rw [blockList] at hbs
    have h0 : p ≠ 0 := by
      intro hp
      rw [if_pos hp] at hbs
      cases hbs
    rw [if_neg h0] at hbs
    obtain ⟨rest, hrest, he⟩ := Option.map_eq_some_iff.mp hbs
    cases he
    obtain ⟨-, hnext, htail⟩ := h
    have hflag : (header m p).free = (decide ((header m p).free ≠ 0)).toUInt8 := by
      rcases hflags _ List.mem_cons_self with hf | hf
      · rw [show (header m p).free = 0 from hf]
        rfl
      · rw [show (header m p).free = 1 from hf]
        rfl
    have hlinked : bs ≠ [] → (header m p).next.toNat = p.toNat + (12 + (header m p).size.toNat) := by
      intro hne
      apply hnext
      intro hz
      rw [hz] at hrest
      cases fuel with
      | zero => cases hrest
      | succ fuel =>
        cases hrest
        exact hne rfl
    refine ⟨h0, rfl, hflag, fun hne => hlinked (fun hb => hne (by rw [hb]; rfl)), ?_⟩
    cases bs with
    | nil => exact blockList_nil hrest
    | cons b' bs =>
      rw [← hlinked (by simp)] at htail
      exact ih htail hrest (fun b hb => hflags b (List.mem_cons_of_mem _ hb))

theorem Tiles.span (h : Tiles a e bs) : a + span 12 (regionsOf bs) = e := by
  induction bs generalizing a with
  | nil => exact h
  | cons b bs ih =>
    obtain ⟨-, -, htail⟩ := h
    rw [← ih htail, Nat.add_assoc]
    rfl

theorem Rowed.accounted (h : Rowed start size s rs) (hstart : 4 ∣ start.toNat)
    (hl : Laid start.toNat rs bs) : Accounted start.toNat size.toNat s.live bs := by
  refine ⟨?_, ?_, ?_, ?_, ?_, ?_⟩
  · rw [← h.whole]
    exact hl.tiles
  · rw [hl.bytes, h.whole]
  · intro l hmem
    obtain ⟨o, r, hr, hf, hl1, hle⟩ := h.seated l hmem
    obtain ⟨b, hb, hbo, hsize, hbf⟩ := hl.block hr
    refine ⟨_, b, hb, ?_, by omega, by omega, rfl⟩
    by_contra hne
    rw [hbf.mp hne] at hf
    cases hf
  · refine h.distinct.imp ?_
    intro l l' hne hi hi' hp hp'
    obtain ⟨o, r, hr, hl1, rfl⟩ := hl.payload hp
    obtain ⟨o', r', hr', hl1', rfl⟩ := hl.payload hp'
    have hoo : o ≠ o' := by
      rintro rfl
      exact hne (UInt32.toNat_inj.mp (hl1.trans hl1'.symm))
    have := regionAt_apart hr hr' hoo
    omega
  · intro l hi hp b hb
    obtain ⟨o, r, hr, hl1, rfl⟩ := hl.payload hp
    obtain ⟨o', r', hr', hb1, -⟩ := hl.region hb
    by_cases hoo : o = o'
    · omega
    · have := regionAt_apart hr hr' hoo
      omega
  · intro l hi hp
    obtain ⟨o, r, hr, hl1, rfl⟩ := hl.payload hp
    have hbound := regionAt_bound hr
    have hdvd := regionAt_dvd (show 4 ∣ 12 by omega) h.aligned hr
    rw [h.whole] at hbound
    omega

/-- `kmalloc` gives up only if no free block is large enough. -/
theorem Rowed.refused (h : Rowed start size s rs) (hl : Laid start.toNat rs bs)
    (hn : n.toNat ≤ 0xFFFFFFF8) (hk : kmalloc fuel s.heap n = some (h', 0)) :
    n = 0 ∨ ∀ b ∈ bs, b.2.free ≠ 0 → b.2.size.toNat < (n.toNat + 7) / 8 * 8 := by
  rcases kmalloc_cases h (Or.inl hn) hk with ⟨-, -, hn0 | hfit⟩ | ⟨rs', o, r, -, -, -, -, hq, -⟩
  · exact Or.inl hn0
  · refine Or.inr (fun b hb hf => ?_)
    obtain ⟨o, r, hr, -, hsize, hbf⟩ := hl.region hb
    rw [hsize, ← alignUp_heap n hn]
    exact firstFit_none hfit (regionAt_mem hr) ((flag_iff hbf).mp hf)
  · simp at hq

end Account

/-- Over every run of allocations, releases and writes to live payloads the block
list tiles the arena, every live allocation has a block of its own that is large
enough, and no call runs for ever or refuses what would fit. -/
theorem heap_accounts (m : Mem) (start size : UInt32) (calls : List HeapCall) (s : Arena)
    (h0 : start ≠ 0) (hstart : 4 ∣ start.toNat) (hpos : size ≠ 0) (hpage : 4096 ∣ size.toNat)
    (hfit : start.toNat + size.toNat ≤ 4294967296)
    (hrun : Run heapStep ⟨heapInit m start size, []⟩ calls s) (fuel : Nat)
    (hfuel : size.toNat < fuel) :
    ∃ bs, blockList s.heap.mem fuel s.heap.heapHead = some bs ∧
      Accounted start.toNat size.toNat s.live bs ∧
      (∃ u, heapUsedBytes fuel s.heap = some u ∧
        u.toNat = ((bs.filter fun b => b.2.free = 0).map fun b => b.2.size.toNat).sum) ∧
      (∀ c, Allowed s c → ∃ s', heapCall fuel s c = some s') ∧
      ∀ n h', n.toNat ≤ 0xFFFFFFF8 → kmalloc fuel s.heap n = some (h', 0) →
        n = 0 ∨ ∀ b ∈ bs, b.2.free ≠ 0 → b.2.size.toNat < (n.toNat + 7) / 8 * 8 := by
  obtain ⟨rs, h⟩ : ∃ rs, Rowed start size s rs := by
    refine hrun.invariant (P := fun s => ∃ rs, Rowed start size s rs) ?_
      ⟨_, heapInit_rowed m h0 hpos hpage hfit⟩
    rintro t c t' ⟨rs, ht⟩ hc
    exact heapStep_rowed ht hc
  have hlen := h.length_lt hfuel
  obtain ⟨bs, hbs, hl⟩ := blockList_chain h.chain hlen
  have hused : (0 : UInt32).toNat + used rs < 4294967296 := by
    have hle := used_le_span 12 rs
    rw [h.whole] at hle
    have := size.toNat_lt
    simp only [UInt32.toNat_zero]
    omega
  obtain ⟨u, hu, huv⟩ := usedLoop_chain h.chain hused hlen
  rw [← h.head] at hbs hu
  refine ⟨bs, hbs, h.accounted hstart hl, ⟨u, hu, ?_⟩, ?_, ?_⟩
  · rw [huv, hl.usedBytes]
    exact Nat.zero_add _
  · exact fun c hc => heapCall_returns h hc hfuel
  · exact fun n h' hn hk => h.refused hl hn hk

instance (s : Arena) (c : HeapCall) : Decidable (Allowed s c) :=
  match c with
  | .kmalloc n => inferInstanceAs (Decidable (n.toNat ≤ 0xFFFFFFF8))
  | .kfree p => inferInstanceAs (Decidable (p = 0 ∨ ∃ l ∈ s.live, l.1 = p))
  | .store a _ => inferInstanceAs
      (Decidable (∃ l ∈ s.live, l.1.toNat ≤ a.toNat ∧ a.toNat < l.1.toNat + l.2.toNat))

/-- A step carried out with the fuel given. -/
def heapNext (fuel : Nat) (s : Arena) (c : HeapCall) : Except Unit Arena :=
  if Allowed s c then ((heapCall fuel s c).map .ok).getD (.error ()) else .error ()

theorem heapNext_step (h : heapNext fuel s c = .ok s') : heapStep s c s' := by
  unfold heapNext at h
  split at h
  · cases hc : heapCall fuel s c with
    | none =>
      rw [hc] at h
      cases h
    | some t =>
      rw [hc] at h
      cases h
      exact ⟨by assumption, fuel, hc⟩
  · cases h

/-- Two allocations, the first one written to and given back. -/
theorem heap_accounts_page : ∃ s, Run heapStep ⟨heapInit (fun _ => 0) 0x100000 4096, []⟩
      [.kmalloc 10, .kmalloc 100, .store 0x10000C 7, .kfree 0x10000C] s ∧
    s.live = [(0x100028, 100)] ∧ heapUsedBytes 4097 s.heap = some 104 ∧
    ∃ bs, blockList s.heap.mem 4097 s.heap.heapHead = some bs ∧
      Accounted 0x100000 4096 s.live bs := by
  have heval : (exec (heapNext 5) ⟨heapInit (fun _ => 0) 0x100000 4096, []⟩
      [.kmalloc 10, .kmalloc 100, .store 0x10000C 7, .kfree 0x10000C]).toOption.map
      (fun s => (s.live, heapUsedBytes 4097 s.heap)) = some ([(0x100028, 100)], some 104) := by
    decide +kernel
  obtain ⟨s, hrun, hs⟩ := exec_observed _ heval
  simp only [Prod.mk.injEq] at hs
  have hrun' := hrun.mono (fun _ _ _ h => heapNext_step h)
  obtain ⟨bs, hbs, hacc, -⟩ := heap_accounts (fun _ => 0) 0x100000 4096 _ s (by decide) (by decide)
    (by decide) (by decide) (by decide) hrun' 4097 (by decide)
  exact ⟨s, hrun', hs.1, hs.2, bs, hbs, hacc⟩

/-- An arena at address 0 is no arena; one of no bytes has a block of almost 2^32;
and in one that reaches past the last address a split can lose what is left over. -/
theorem heap_unaccounted :
    (∃ bs, blockList (heapInit (fun _ => 0) 0 4096).mem 9 0 = some bs ∧
      ¬ Accounted 0 4096 [] bs) ∧
    (∃ bs, blockList (heapInit (fun _ => 0) 4096 0).mem 9 4096 = some bs ∧
      ¬ Accounted 4096 0 [] bs) ∧
    ∃ s bs, Run heapStep ⟨heapInit (fun _ => 0) 0xFFFFF004 8192, []⟩ [.kmalloc 4080] s ∧
      blockList s.heap.mem 9 s.heap.heapHead = some bs ∧
      ¬ Accounted 0xFFFFF004 8192 s.live bs := by
  refine ⟨⟨[], rfl, fun h => absurd h.bytes (by decide)⟩,
    ⟨[(4096, ⟨4294967284, 1, 0⟩)], by decide +kernel, fun h => absurd h.bytes (by decide)⟩, ?_⟩
  have heval : (exec (heapNext 5) ⟨heapInit (fun _ => 0) 0xFFFFF004 8192, []⟩
      [.kmalloc 4080]).toOption.map (fun s => blockList s.heap.mem 9 s.heap.heapHead) =
      some (some [(0xFFFFF004, ⟨4080, 0, 0⟩)]) := by decide +kernel
  obtain ⟨s, hrun, hs⟩ := exec_observed _ heval
  exact ⟨s, _, hrun.mono (fun _ _ _ h => heapNext_step h), hs, fun h => absurd h.bytes (by decide)⟩

end VertexOS
