import VertexOS.Mem.HeapRuns

namespace VertexOS
open Library.Memory Library.FreeList Library.Transitions Library.Words

/-- Any request may be made, also one whose rounding wraps around; its caller does not write. -/
def AllowedAny (s : Arena) : HeapCall → Prop
  | .kmalloc _ => True
  | .kfree p => p = 0 ∨ ∃ l ∈ s.live, l.1 = p
  | .store a _ => ∃ l ∈ s.live, l.2.toNat ≤ 0xFFFFFFF8 ∧ l.1.toNat ≤ a.toNat ∧
      a.toNat < l.1.toNat + l.2.toNat

def heapStepAny (s : Arena) (c : HeapCall) (s' : Arena) : Prop :=
  AllowedAny s c ∧ ∃ fuel, heapCall fuel s c = some s'

/-- A live allocation with the bytes it can rely on. -/
def honest (l : UInt32 × UInt32) : UInt32 × UInt32 :=
  if l.2.toNat ≤ 0xFFFFFFF8 then l else (l.1, 0)

/-- The block headed by `p - 12` has `n` payload bytes inside the arena. -/
def Roomy (start size : Nat) (bs : List (UInt32 × BlockHeader)) (p n : UInt32) : Prop :=
  ∃ b ∈ bs, p.toNat = b.1.toNat + 12 ∧ n.toNat ≤ b.2.size.toNat ∧
    p.toNat + b.2.size.toNat ≤ start + size

@[simp] theorem honest_fst (l : UInt32 × UInt32) : (honest l).1 = l.1 := by
  unfold honest
  split
  · rfl
  · rfl

theorem alignUp_wrapped (n : UInt32) (hn : ¬n.toNat ≤ 0xFFFFFFF8) :
    (alignUp n heapAlign).toNat = 0 := by
  have hlt := n.toNat_lt
  have hs : (n + heapAlign - 1).toNat = n.toNat + 7 - 4294967296 := by
    simp only [heapAlign, UInt32.toNat_sub, UInt32.toNat_add, show (8 : UInt32).toNat = 8 from rfl,
      show (1 : UInt32).toNat = 1 from rfl]
    omega
  rw [alignUp, UInt32.toNat_and, hs]
  refine (and_highMask _ 3 29 (by omega)).trans ?_
  omega

section Steps

variable {start size : UInt32} {s s' : Arena} {rs : List Region} {fuel : Nat}

theorem heapStepAny_rowed (hlow : start.toNat + size.toNat < 4294967296)
    (h : Rowed start size ⟨s.heap, s.live.map honest⟩ rs) (hs : heapStepAny s c s') :
    ∃ rs', Rowed start size ⟨s'.heap, s'.live.map honest⟩ rs' := by
  obtain ⟨ha, fuel, hc⟩ := hs
  cases c with
  | kmalloc n =>
    obtain ⟨⟨hp, q⟩, hk, rfl⟩ := Option.map_eq_some_iff.mp hc
    rcases kmalloc_cases h (.inr hlow) hk with
      ⟨rfl, rfl, -⟩ | ⟨rs', o, r, -, h', hr, hf, hq, hle, hnew, -⟩
    · exact ⟨rs, h⟩
    · have hq0 : q ≠ 0 := by
        rintro rfl
        simp at hq
      dsimp only
      rw [if_neg hq0, List.map_cons]
      refine ⟨rs', ?_⟩
      by_cases hn : n.toNat ≤ 0xFFFFFFF8
      · rw [alignUp_heap n hn] at hle
        rw [honest, if_pos hn]
        exact h'.cons hr hf hq (by omega) hnew
      · rw [honest, if_neg hn]
        exact h'.cons hr hf hq (Nat.zero_le _) hnew
  | kfree p =>
    obtain ⟨h', hk, rfl⟩ := Option.map_eq_some_iff.mp hc
    have hfilter : (s.live.map honest).filter (·.1 ≠ p) = (s.live.filter (·.1 ≠ p)).map honest := by
      rw [List.filter_map]
      congr 1
      exact List.filter_congr fun l _ => by simp
    have hp : p = 0 ∨ ∃ l ∈ s.live.map honest, l.1 = p := by
      rcases ha with h0 | ⟨l, hl, he⟩
      · exact .inl h0
      · exact .inr ⟨honest l, List.mem_map_of_mem hl, by rw [honest_fst, he]⟩
    have hcall : heapCall fuel ⟨s.heap, s.live.map honest⟩ (.kfree p) =
        some ⟨h', (s.live.filter (·.1 ≠ p)).map honest⟩ := by
      rw [heapCall, hk, ← hfilter]
      rfl
    exact kfree_rowed h hp hcall
  | store a b =>
    cases hc
    obtain ⟨l, hl, hn, hlo, hhi⟩ := ha
    have hl' : l ∈ s.live.map honest := List.mem_map.mpr ⟨l, hl, if_pos hn⟩
    exact ⟨rs, h.payload hl' (store8_outside _ a b) hlo (by omega)⟩

/-- A block of the arena is smaller than a request that wraps around. -/
theorem Rowed.not_roomy (h : Rowed start size s rs) (hl : Laid start.toNat rs bs)
    (hn : ¬n.toNat ≤ 0xFFFFFFF8) : ¬Roomy start.toNat size.toNat bs p n := by
  intro ⟨b, hb, _, hle, _⟩
  obtain ⟨o, r, hr, -, hsize, -⟩ := hl.region hb
  have hbound := regionAt_bound hr
  have hwhole := h.whole
  have := size.toNat_lt
  omega

end Steps

/-- In every reachable state `kmalloc` hands out enough exactly for the requests whose rounding
does not wrap around; any other gets a block that is too small, unless nothing is free. -/
theorem kmalloc_size_iff (m : Mem) (start size : UInt32) (calls : List HeapCall) (s : Arena)
    (h0 : start ≠ 0) (hpos : size ≠ 0) (hpage : 4096 ∣ size.toNat)
    (hlow : start.toNat + size.toNat < 4294967296)
    (hrun : Run heapStepAny ⟨heapInit m start size, []⟩ calls s) (n : UInt32) (fuel : Nat)
    (hfuel : size.toNat < fuel) :
    ∃ bs hp p bs', blockList s.heap.mem fuel s.heap.heapHead = some bs ∧
      kmalloc fuel s.heap n = some (hp, p) ∧ blockList hp.mem fuel hp.heapHead = some bs' ∧
      ((p ≠ 0 → Roomy start.toNat size.toNat bs' p n) ↔
        n.toNat ≤ 0xFFFFFFF8 ∨ ∀ b ∈ bs, b.2.free = 0) := by
  obtain ⟨rs, h⟩ : ∃ rs, Rowed start size ⟨s.heap, s.live.map honest⟩ rs := by
    refine hrun.invariant (P := fun s => ∃ rs, Rowed start size ⟨s.heap, s.live.map honest⟩ rs) ?_
      ⟨_, heapInit_rowed m h0 hpos hpage hlow.le⟩
    intro t c t' ⟨rs, ht⟩ hc
    exact heapStepAny_rowed hlow ht hc
  obtain ⟨bs, hbs, hl⟩ := blockList_chain h.chain (h.length_lt hfuel)
  rw [← show s.heap.heapHead = start from h.head] at hbs
  obtain ⟨⟨hp, p⟩, hk⟩ := kmalloc_returns (n := n) h (.inr hlow) hfuel
  rcases kmalloc_cases h (.inr hlow) hk with
    ⟨rfl, rfl, hnone⟩ | ⟨rs', o, r, ⟨hfit, -⟩, h', hr, hf, hq, hle, -⟩
  · refine ⟨bs, _, 0, bs, hbs, hk, hbs, iff_of_true (fun hne => absurd rfl hne) ?_⟩
    rcases hnone with rfl | hnone
    · exact .inl (Nat.zero_le _)
    · by_cases hn : n.toNat ≤ 0xFFFFFFF8
      · exact .inl hn
      · refine .inr (fun b hb => ?_)
        obtain ⟨o, r, hr, -, -, hbf⟩ := hl.region hb
        by_contra hfree
        have hlt := firstFit_none hnone (regionAt_mem hr) ((flag_iff hbf).mp hfree)
        rw [alignUp_wrapped n hn] at hlt
        exact absurd hlt (Nat.not_lt_zero _)
  · obtain ⟨bs', hbs', hl'⟩ := blockList_chain h'.chain (h'.length_lt hfuel)
    rw [← show hp.heapHead = start from h'.head] at hbs'
    refine ⟨bs, hp, p, bs', hbs, hk, hbs', ?_⟩
    by_cases hn : n.toNat ≤ 0xFFFFFFF8
    · refine iff_of_true (fun _ => ?_) (.inl hn)
      obtain ⟨b, hb, hbo, hsize, -⟩ := hl'.block hr
      have hbound := regionAt_bound hr
      have hwhole := h'.whole
      rw [alignUp_heap n hn] at hle
      exact ⟨b, hb, by omega, by omega, by omega⟩
    · refine iff_of_false (fun hroom => ?_) ?_
      · refine h'.not_roomy hl' hn (hroom ?_)
        rintro rfl
        simp at hq
      · -- the block that was handed out had been free
        rintro (hn' | htaken)
        · exact hn hn'
        · obtain ⟨⟨t, ht, hfree⟩, -⟩ := firstFit_new (by omega) hfit
          obtain ⟨b, hb, -, -, hbf⟩ := hl.block ht
          exact hbf.mpr hfree (htaken b hb)

/-- A request in a fresh arena of one page. -/
theorem kmalloc_size_page : ∃ hp p bs,
    kmalloc 4097 (heapInit (fun _ => 0) 0x100000 4096) 100 = some (hp, p) ∧ p = 0x10000C ∧
    blockList hp.mem 4097 hp.heapHead = some bs ∧ Roomy 0x100000 4096 bs p 100 := by
  obtain ⟨_, hp, p, bs, -, hk, hbs, hiff⟩ := kmalloc_size_iff (fun _ => 0) 0x100000 4096 [] _
    (by decide) (by decide) (by decide) (by decide) (.nil _) 100 4097 (by decide)
  have heval : (kmalloc 4097 (heapInit (fun _ => 0) 0x100000 4096) 100).map (·.2) =
      some 0x10000C := by
    decide +kernel
  rw [hk] at heval
  have hp0 : p = 0x10000C := Option.some.inj heval
  exact ⟨hp, p, bs, hk, hp0, hbs, hiff.mpr (.inl (by decide)) (by rw [hp0]; decide)⟩

/-- The kernel's heap, a request of `2^32 - 1` bytes: the block has no payload. -/
theorem kmalloc_undersized : ∃ hp p bs,
    kmalloc 9 (heapInit (fun _ => 0) heapStart heapSize) 0xFFFFFFFF = some (hp, p) ∧ p ≠ 0 ∧
    blockList hp.mem 9 hp.heapHead = some bs ∧
    ¬Roomy heapStart.toNat heapSize.toNat bs p 0xFFFFFFFF := by
  have heval : (kmalloc 9 (heapInit (fun _ => 0) heapStart heapSize) 0xFFFFFFFF).map
      (fun x => (x.2, blockList x.1.mem 9 x.1.heapHead)) =
      some (0x0100000C, some [(0x01000000, ⟨0, 0, 0x0100000C⟩), (0x0100000C, ⟨1048552, 1, 0⟩)]) := by
    decide +kernel
  obtain ⟨⟨hp, p⟩, hk, hx⟩ := Option.map_eq_some_iff.mp heval
  obtain ⟨hp0, hbs⟩ := Prod.mk.inj hx
  dsimp only at hp0 hbs
  refine ⟨hp, p, _, hk, by rw [hp0]; decide, hbs, ?_⟩
  intro ⟨b, hb, _, hn, _⟩
  have hall : ∀ b ∈ [((0x01000000 : UInt32), (⟨0, 0, 0x0100000C⟩ : BlockHeader)),
      (0x0100000C, ⟨1048552, 1, 0⟩)], ¬(0xFFFFFFFF : UInt32).toNat ≤ b.2.size.toNat := by
    decide
  exact hall b hb hn

end VertexOS
