import VertexOS.Library.FreeList
import VertexOS.Mem.Heap

namespace VertexOS
open Library.Memory Library.FreeList Library.Words

theorem alignUp_dvd (n : UInt32) : 8 ∣ (alignUp n heapAlign).toNat := by
  rw [alignUp, UInt32.toNat_and]
  have := (n + heapAlign - 1).toNat_lt
  exact ⟨_, (and_highMask _ 3 29 (by omega)).trans (Nat.mul_comm _ _)⟩

theorem alignUp_heap (n : UInt32) (hn : n.toNat ≤ 4294967288) :
    (alignUp n heapAlign).toNat = (n.toNat + 7) / 8 * 8 := by
  have hs : (n + heapAlign - 1).toNat = n.toNat + 7 := by
    simp only [heapAlign, UInt32.toNat_sub, UInt32.toNat_add, show (8 : UInt32).toNat = 8 from rfl,
      show (1 : UInt32).toNat = 1 from rfl]
    omega
  rw [alignUp, UInt32.toNat_and, hs]
  exact and_highMask _ 3 29 (by omega)

theorem alignUp_page (n : UInt32) (hn : 4096 ∣ n.toNat) : alignUp n pageSize = n := by
  apply UInt32.toNat_inj.mp
  have hlt := n.toNat_lt
  have hs : (n + pageSize - 1).toNat = n.toNat + 4095 := by
    simp only [pageSize, UInt32.toNat_sub, UInt32.toNat_add,
      show (4096 : UInt32).toNat = 4096 from rfl, show (1 : UInt32).toNat = 1 from rfl]
    omega
  rw [alignUp, UInt32.toNat_and, hs]
  refine (and_highMask _ 12 20 (by omega)).trans ?_
  omega

section Header

variable {m m' : Mem} {p q : UInt32}

/-- A header clear of the changed bytes reads as before. -/
theorem header_frame (h : SameOutside lo hi m m') (hp : p.toNat + 12 ≤ 4294967296)
    (hout : p.toNat + 12 ≤ lo ∨ hi ≤ p.toNat) : header m' p = header m p := by
  have h4 : (p + 4).toNat = p.toNat + 4 := toNat_add_small p 4 (by omega)
  have h8 : (p + 8).toNat = p.toNat + 8 := toNat_add_small p 8 (by omega)
  unfold header
  rw [load32_frame h (by omega) (by omega), h (p + 4) (by omega),
    load32_frame h (by omega) (by omega)]

variable (hp : p.toNat + 12 ≤ 4294967296)

include hp

theorem header_setSize (v : UInt32) :
    header (setSize m p v) p = { header m p with size := v } := by
  have h4 : (p + 4).toNat = p.toNat + 4 := toNat_add_small p 4 (by omega)
  have h8 : (p + 8).toNat = p.toNat + 8 := toNat_add_small p 8 (by omega)
  have hs := store32_outside m p v (by omega)
  unfold header setSize
  rw [load32_store32, hs (p + 4) (by omega), load32_frame hs (by omega) (by omega)]

theorem header_setFree (v : UInt8) :
    header (setFree m p v) p = { header m p with free := v } := by
  have h4 : (p + 4).toNat = p.toNat + 4 := toNat_add_small p 4 (by omega)
  have h8 : (p + 8).toNat = p.toNat + 8 := toNat_add_small p 8 (by omega)
  have hs := store8_outside m (p + 4) v
  unfold header setFree
  rw [load32_frame hs (by omega) (by omega), load32_frame hs (by omega) (by omega)]
  congr 1
  exact Function.update_self _ _ _

theorem header_setNext (v : UInt32) :
    header (setNext m p v) p = { header m p with next := v } := by
  have h4 : (p + 4).toNat = p.toNat + 4 := toNat_add_small p 4 (by omega)
  have h8 : (p + 8).toNat = p.toNat + 8 := toNat_add_small p 8 (by omega)
  have hs := store32_outside m (p + 8) v (by omega)
  unfold header setNext
  rw [load32_store32, hs (p + 4) (by omega), load32_frame hs (by omega) (by omega)]

/-- Setting a field writes inside the header. -/
theorem setSize_outside (m : Mem) (v : UInt32) :
    SameOutside p.toNat (p.toNat + 12) m (setSize m p v) :=
  (store32_outside m p v (by omega)).mono (by omega) (by omega)

theorem setFree_outside (m : Mem) (v : UInt8) :
    SameOutside p.toNat (p.toNat + 12) m (setFree m p v) := by
  have h4 : (p + 4).toNat = p.toNat + 4 := toNat_add_small p 4 (by omega)
  exact (store8_outside m (p + 4) v).mono (by omega) (by omega)

theorem setNext_outside (m : Mem) (v : UInt32) :
    SameOutside p.toNat (p.toNat + 12) m (setNext m p v) := by
  have h8 : (p + 8).toNat = p.toNat + 8 := toNat_add_small p 8 (by omega)
  exact (store32_outside m (p + 8) v (by omega)).mono (by omega) (by omega)

end Header

/-- The memory holds, from address `p` on, the headers of a row of regions, each
pointing at the next one. -/
def Chain (m : Mem) : UInt32 → List Region → Prop
  | p, [] => p = 0
  | p, r :: rs => p ≠ 0 ∧ (header m p).size.toNat = r.size ∧
    (header m p).free = r.free.toUInt8 ∧
    (rs ≠ [] → (header m p).next.toNat = p.toNat + (12 + r.size)) ∧
    Chain m (header m p).next rs

/-- The flag is read as a truth value. -/
theorem flag_iff (h : flag = Bool.toUInt8 b) : flag ≠ 0 ↔ b = true := by
  subst h
  cases b <;> decide

theorem Chain.frame (h : Chain m p rs) (hb : p.toNat + span 12 rs ≤ 4294967296)
    (hs : SameOutside lo hi m m') (hout : p.toNat + span 12 rs ≤ lo ∨ hi ≤ p.toNat) :
    Chain m' p rs := by
  induction rs generalizing p with
  | nil => exact h
  | cons r rs ih =>
    obtain ⟨h0, hsize, hfree, hnext, hrest⟩ := h
    rw [span] at hb hout
    have hh : header m' p = header m p := header_frame hs (by omega) (by omega)
    refine ⟨h0, by rw [hh]; exact hsize, by rw [hh]; exact hfree, by rw [hh]; exact hnext, ?_⟩
    rw [hh]
    cases rs with
    | nil => exact hrest
    | cons r' rs' =>
      have hn := hnext (by simp)
      exact ih hrest (by omega) (by omega)

/-- A chain behind a header that does not change survives what stays behind it. -/
theorem Chain.cons_congr (h : Chain m p (r :: rs)) (hh : header m' p = header m p)
    (hrest : Chain m' (header m p).next rs') (hnil : rs' = [] ↔ rs = []) :
    Chain m' p (r :: rs') := by
  obtain ⟨h0, hsize, hfree, hnext, -⟩ := h
  refine ⟨h0, by rw [hh]; exact hsize, by rw [hh]; exact hfree, ?_, by rw [hh]; exact hrest⟩
  intro hne
  rw [hh]
  exact hnext (fun he => hne (hnil.mpr he))

/-- Rewriting the head of a chain: its new header and what it points at. -/
theorem Chain.mk_cons (h0 : p ≠ 0) (hh : header m p = ⟨size, free, next⟩)
    (hsize : size.toNat = r.size) (hfree : free = r.free.toUInt8)
    (hnext : rs ≠ [] → next.toNat = p.toNat + (12 + r.size)) (hrest : Chain m next rs) :
    Chain m p (r :: rs) := by
  refine ⟨h0, ?_, ?_, ?_, ?_⟩ <;> rw [hh]
  · exact hsize
  · exact hfree
  · exact hnext
  · exact hrest

/-- `kmalloc` takes a block the way `carve` takes a region. -/
theorem takeBlock_chain (h : Chain m p (r :: rs)) (hb : p.toNat + span 12 (r :: rs) ≤ 4294967296)
    (hfit : size.toNat ≤ r.size) : Chain (takeBlock m p size) p (carve 12 20 size.toNat r rs) ∧
      SameOutside p.toNat (p.toNat + (12 + r.size)) m (takeBlock m p size) := by
  obtain ⟨h0, hsize, hfree, hnext, hrest⟩ := h
  rw [span] at hb
  have hp : p.toNat + 12 ≤ 4294967296 := by omega
  have hrem : ((header m p).size - size).toNat = r.size - size.toNat := by
    rw [UInt32.toNat_sub_of_le _ _ (by rw [UInt32.le_iff_toNat_le, hsize]; exact hfit), hsize]
  have hrestb : rs ≠ [] → (header m p).next.toNat + span 12 rs ≤ 4294967296 ∧
      p.toNat + 12 + r.size ≤ (header m p).next.toNat := by
    intro hne
    have := hnext hne
    omega
  have hrestframe : ∀ m', SameOutside p.toNat (p.toNat + (12 + r.size)) m m' →
      Chain m' (header m p).next rs := by
    intro m' hs
    cases rs with
    | nil => exact hrest
    | cons r' rs' =>
      obtain ⟨h1, h2⟩ := hrestb (by simp)
      exact hrest.frame h1 hs (by omega)
  unfold takeBlock
  dsimp only
  have hcond : (header m p).size - size > headerBytes + heapAlign ↔ 20 < r.size - size.toNat := by
    rw [gt_iff_lt, UInt32.lt_iff_toNat_lt, hrem]
    rfl
  by_cases hsplit : 20 < r.size - size.toNat
  · rw [if_pos (hcond.mpr hsplit), carve, if_pos hsplit]
    have hq : (p + headerBytes + size).toNat = p.toNat + 12 + size.toNat := by
      rw [UInt32.toNat_add, UInt32.toNat_add, show headerBytes.toNat = 12 from rfl]
      omega
    generalize p + headerBytes + size = q at hq ⊢
    have hq12 : q.toNat + 12 ≤ 4294967296 := by omega
    have hleft : ((header m p).size - size - headerBytes).toNat = r.size - size.toNat - 12 := by
      rw [UInt32.toNat_sub_of_le _ _ (by
        rw [UInt32.le_iff_toNat_le, hrem, show headerBytes.toNat = 12 from rfl]; omega), hrem]
      rfl
    generalize (header m p).size - size - headerBytes = left at hleft ⊢
    -- the new header is built first, then the old one is shortened
    have s1 := setSize_outside hq12 m left
    have s2 := s1.trans (setFree_outside hq12 (setSize m q left) 1)
    have hold2 : header (setFree (setSize m q left) q 1) p = header m p :=
      header_frame s2 hp (by omega)
    have s3 := s2.trans (setNext_outside hq12 (setFree (setSize m q left) q 1)
      (header (setFree (setSize m q left) q 1) p).next)
    have hnew : header (setNext (setFree (setSize m q left) q 1) q
        (header (setFree (setSize m q left) q 1) p).next) q = ⟨left, 1, (header m p).next⟩ := by
      rw [header_setNext hq12, header_setFree hq12, header_setSize hq12, hold2]
    have hold : header (setNext (setFree (setSize m q left) q 1) q
        (header (setFree (setSize m q left) q 1) p).next) p = header m p :=
      header_frame s3 hp (by omega)
    generalize setNext (setFree (setSize m q left) q 1) q
      (header (setFree (setSize m q left) q 1) p).next = m3 at s3 hnew hold ⊢
    have t1 := setNext_outside hp m3 q
    have t2 := t1.trans (setSize_outside hp (setNext m3 p q) size)
    have t3 := t2.trans (setFree_outside hp (setSize (setNext m3 p q) p size) 0)
    have hhead : header (setFree (setSize (setNext m3 p q) p size) p 0) p = ⟨size, 0, q⟩ := by
      rw [header_setFree hp, header_setSize hp, header_setNext hp]
    have htail : header (setFree (setSize (setNext m3 p q) p size) p 0) q =
        ⟨left, 1, (header m p).next⟩ := by
      rw [header_frame t3 hq12 (by omega), hnew]
    generalize setFree (setSize (setNext m3 p q) p size) p 0 = m6 at t3 hhead htail ⊢
    have hall : SameOutside p.toNat (p.toNat + (12 + r.size)) m m6 :=
      (s3.mono (by omega) (by omega)).trans (t3.mono (by omega) (by omega))
    have hq0 : q ≠ 0 := by
      intro hz
      rw [hz] at hq
      exact absurd hq (by simp; omega)
    refine ⟨Chain.mk_cons h0 hhead rfl rfl (fun _ => by dsimp only; omega) ?_, hall⟩
    exact Chain.mk_cons hq0 htail hleft rfl
      (fun hne => by have := hnext hne; dsimp only; omega) (hrestframe m6 hall)
  · rw [if_neg (fun hc => hsplit (hcond.mp hc)), carve, if_neg hsplit]
    have hs := setFree_outside hp m 0
    refine ⟨?_, hs.mono (by omega) (by omega)⟩
    exact Chain.mk_cons h0 (header_setFree hp 0) hsize rfl hnext
      (hrestframe _ (hs.mono (by omega) (by omega)))

/-- The walk of `kmalloc` finds what `firstFit` finds and writes only inside it. -/
theorem kmallocLoop_chain (h : Chain m p rs) (hb : p.toNat + span 12 rs ≤ 4294967296)
    (hpos : 0 < size.toNat ∨ p.toNat + span 12 rs < 4294967296) (hfuel : rs.length < fuel) :
    match firstFit 12 20 size.toNat rs with
    | none => kmallocLoop size fuel m p = some (m, 0)
    | some (o, rs') => ∃ m' q, kmallocLoop size fuel m p = some (m', q) ∧
        q.toNat = p.toNat + o + 12 ∧ Chain m' p rs' ∧
        (∃ r, regionAt 12 rs o = some r ∧
          SameOutside (p.toNat + o) (p.toNat + o + (12 + r.size)) m m') ∧
        (rs' = [] ↔ rs = []) := by
  induction rs generalizing p fuel with
  | nil =>
    obtain ⟨fuel, rfl⟩ : ∃ f, fuel = f + 1 := ⟨fuel - 1, by simp at hfuel; omega⟩
    have hp : p = 0 := h
    rw [firstFit, kmallocLoop, if_pos hp]
  | cons r rs ih =>
    obtain ⟨fuel, rfl⟩ : ∃ f, fuel = f + 1 := ⟨fuel - 1, by simp at hfuel; omega⟩
    obtain ⟨h0, hsize, hfree, hnext, hrest⟩ := id h
    have hbs := hb
    rw [span] at hbs hpos
    have hcond : (header m p).free ≠ 0 ∧ (header m p).size ≥ size ↔
        r.free = true ∧ size.toNat ≤ r.size := by
      rw [flag_iff hfree, ge_iff_le, UInt32.le_iff_toNat_le, hsize]
    rw [firstFit, kmallocLoop, if_neg h0]
    dsimp only
    by_cases hfit : r.free = true ∧ size.toNat ≤ r.size
    · rw [if_pos hfit, if_pos (hcond.mpr hfit)]
      obtain ⟨hchain, hs⟩ := takeBlock_chain h hb hfit.2
      refine ⟨_, _, rfl, ?_, hchain, ⟨r, if_pos rfl, hs⟩, ?_⟩
      · rw [UInt32.toNat_add, show headerBytes.toNat = 12 from rfl]
        have := hfit.2
        omega
      · obtain ⟨k, rest, hc, -⟩ := carve_head 12 20 size.toNat r rs
        simp [hc]
    · rw [if_neg hfit, if_neg (fun hc => hfit (hcond.mp hc))]
      have hlen : rs.length < fuel := by simp at hfuel; omega
      cases rs with
      | nil =>
        have := ih hrest (by
          have hz : (header m p).next = 0 := hrest
          rw [hz, span]
          decide) (Or.inr (by
          have hz : (header m p).next = 0 := hrest
          rw [hz, span]
          decide)) hlen
        simpa [firstFit] using this
      | cons r' rs' =>
        have hn := hnext (by simp)
        have := ih hrest (by omega) (hpos.imp id (by omega)) hlen
        revert this
        cases firstFit 12 20 size.toNat (r' :: rs') with
        | none => exact fun this => this
        | some found =>
          obtain ⟨o, rest⟩ := found
          rintro ⟨m', q, hloop, hq, hchain, ⟨t, ht, hs⟩, hnil⟩
          refine ⟨m', q, hloop, by omega, ?_, ⟨t, ?_, hs.mono (by omega) (by omega)⟩, by simp⟩
          · exact h.cons_congr (header_frame hs (by omega) (by omega)) hchain hnil
          · exact (regionAt_cons (by omega) r (r' :: rs') o).trans ht

/-- The merging walk of `kfree` merges what `coalesce` merges. -/
theorem coalesceLoop_chain (h : Chain m p rs) (hb : p.toNat + span 12 rs ≤ 4294967296)
    (hfuel : rs.length < fuel) : ∃ m', coalesceLoop fuel m p = some m' ∧
      Chain m' p (coalesce 12 rs) ∧ SameOutside p.toNat (p.toNat + span 12 rs) m m' := by
  induction rs using coalesce.induct 12 generalizing m p fuel with
  | case1 =>
    obtain ⟨fuel, rfl⟩ : ∃ f, fuel = f + 1 := ⟨fuel - 1, by simp at hfuel; omega⟩
    have hp : p = 0 := h
    exact ⟨m, by rw [coalesceLoop, if_pos (Or.inl hp)], by rwa [coalesce],
      SameOutside.refl _ _ _⟩
  | case2 r =>
    obtain ⟨fuel, rfl⟩ : ∃ f, fuel = f + 1 := ⟨fuel - 1, by simp at hfuel; omega⟩
    have hnext : (header m p).next = 0 := h.2.2.2.2
    exact ⟨m, by rw [coalesceLoop, if_pos (Or.inr hnext)], by rwa [coalesce],
      SameOutside.refl _ _ _⟩
  | case3 r r' rs hfree ih =>
    obtain ⟨fuel, rfl⟩ : ∃ f, fuel = f + 1 := ⟨fuel - 1, by simp at hfuel; omega⟩
    obtain ⟨h0, hsize, hf, hnext, h0', hsize', hf', hnext', hrest⟩ := h
    have hspan : span 12 (r :: r' :: rs) = 12 + r.size + (12 + r'.size + span 12 rs) := rfl
    have hn := hnext (by simp)
    have hp12 : p.toNat + 12 ≤ 4294967296 := by omega
    rw [coalesceLoop, if_neg (by rintro (h | h) <;> contradiction), coalesce, if_pos hfree]
    dsimp only
    rw [if_pos ⟨(flag_iff hf).mpr hfree.1, (flag_iff hf').mpr hfree.2⟩]
    have s1 := setSize_outside hp12 m ((header m p).size +
      (headerBytes + (header m (header m p).next).size))
    have hh1 := header_setSize (m := m) hp12 ((header m p).size +
      (headerBytes + (header m (header m p).next).size))
    have hsum : ((header m p).size + (headerBytes + (header m (header m p).next).size)).toNat =
        r.size + (12 + r'.size) := by
      rw [UInt32.toNat_add, UInt32.toNat_add, hsize, hsize', show headerBytes.toNat = 12 from rfl]
      omega
    generalize (header m p).size + (headerBytes + (header m (header m p).next).size) = total
      at s1 hh1 hsum ⊢
    have hnexteq : (header (setSize m p total) p).next = (header m p).next := by rw [hh1]
    have hnn : header (setSize m p total) (header m p).next = header m (header m p).next :=
      header_frame s1 (by omega) (by omega)
    rw [hnexteq, hnn]
    have s2 := s1.trans (setNext_outside hp12 (setSize m p total)
      (header m (header m p).next).next)
    have hh2 := header_setNext (m := setSize m p total) hp12 (header m (header m p).next).next
    rw [hh1] at hh2
    generalize setNext (setSize m p total) p (header m (header m p).next).next = m2 at s2 hh2 ⊢
    have hchain : Chain m2 p (⟨r.size + (12 + r'.size), true⟩ :: rs) := by
      refine Chain.mk_cons h0 hh2 hsum ?_ ?_ ?_
      · rw [hf, hfree.1]
      · intro hne
        have := hnext' hne
        dsimp only
        omega
      · cases rs with
        | nil => exact hrest
        | cons r'' rs' =>
          have hn' := hnext' (by simp)
          exact hrest.frame (by omega) s2 (by omega)
    have hspan' : span 12 (⟨r.size + (12 + r'.size), true⟩ :: rs) = span 12 (r :: r' :: rs) := by
      rw [hspan, span]
      dsimp only
      omega
    obtain ⟨m', hloop, hc, hs⟩ := ih hchain (by omega) (by simpa using hfuel)
    rw [hspan'] at hs
    exact ⟨m', hloop, hc, (s2.mono (Nat.le_refl _) (by omega)).trans hs⟩
  | case4 r r' rs hfree ih =>
    obtain ⟨fuel, rfl⟩ : ∃ f, fuel = f + 1 := ⟨fuel - 1, by simp at hfuel; omega⟩
    obtain ⟨h0, -, hf, hnext, hrest⟩ := id h
    obtain ⟨h0', -, hf', -⟩ := id hrest
    have hspan : span 12 (r :: r' :: rs) = 12 + r.size + span 12 (r' :: rs) := rfl
    have hn := hnext (by simp)
    rw [coalesceLoop, if_neg (by rintro (h | h) <;> contradiction), coalesce, if_neg hfree]
    dsimp only
    rw [if_neg (fun hc => hfree ⟨(flag_iff hf).mp hc.1, (flag_iff hf').mp hc.2⟩)]
    obtain ⟨m', hloop, hc, hs⟩ := ih hrest (by omega) (by simpa using hfuel)
    have hhead : header m' p = header m p := header_frame hs (by omega) (by omega)
    refine ⟨m', hloop, ?_, hs.mono (by omega) (by omega)⟩
    exact h.cons_congr hhead hc (by simp [coalesce_eq_nil])

/-- Giving back the region behind a payload frees its header. -/
theorem setFree_chain (h : Chain m p rs) (hb : p.toNat + span 12 rs ≤ 4294967296)
    (hr : regionAt 12 rs o = some r) (hq : q.toNat = p.toNat + o) :
    Chain (setFree m q 1) p (release 12 rs o) := by
  induction rs generalizing p o with
  | nil => cases hr
  | cons r' rs ih =>
    obtain ⟨h0, hsize, hf, hnext, hrest⟩ := id h
    rw [span] at hb
    have hq12 : q.toNat + 12 ≤ 4294967296 := by
      have := regionAt_bound hr
      rw [span] at this
      omega
    have hs := setFree_outside hq12 m 1
    rcases regionAt_cases hr with ⟨rfl, rfl⟩ | ⟨o', rfl, hr'⟩
    · rw [release, if_pos rfl]
      obtain rfl : q = p := UInt32.toNat_inj.mp hq
      refine Chain.mk_cons h0 (header_setFree hq12 1) hsize rfl hnext ?_
      cases rs with
      | nil => exact hrest
      | cons r'' rs' =>
        have hn := hnext (by simp)
        exact hrest.frame (by omega) hs (by omega)
    · rw [release, if_neg (by omega), Nat.add_sub_cancel_left]
      have hn := hnext (by rintro rfl; cases hr')
      refine h.cons_congr (header_frame hs (by omega) (by omega)) ?_ ?_
      · exact ih hrest (by omega) hr' (by omega)
      · cases rs with
        | nil => cases hr'
        | cons r'' rs' =>
          rw [release]
          split <;> simp

/-- What is written inside a payload touches no header. -/
theorem payload_chain (h : Chain m p rs) (hb : p.toNat + span 12 rs ≤ 4294967296)
    (hr : regionAt 12 rs o = some r) (hs : SameOutside lo hi m m') (hlo : p.toNat + o + 12 ≤ lo)
    (hhi : hi ≤ p.toNat + o + 12 + r.size) : Chain m' p rs := by
  induction rs generalizing p o with
  | nil => cases hr
  | cons r' rs ih =>
    obtain ⟨h0, hsize, hf, hnext, hrest⟩ := id h
    rw [span] at hb
    refine h.cons_congr (header_frame hs (by omega) (by omega)) ?_ (Iff.refl _)
    cases rs with
    | nil => exact hrest
    | cons r'' rs' =>
      have hn := hnext (by simp)
      rcases regionAt_cases hr with ⟨rfl, rfl⟩ | ⟨o', rfl, hr'⟩
      · exact hrest.frame (by omega) hs (by omega)
      · exact ih hrest (by omega) hr' (by omega) (by omega)

/-- The loop of `heap_used_bytes` adds up the taken regions. -/
theorem usedLoop_chain (h : Chain m p rs) (hu : acc.toNat + used rs < 4294967296)
    (hfuel : rs.length < fuel) :
    ∃ u, usedLoop m fuel p acc = some u ∧ u.toNat = acc.toNat + used rs := by
  induction rs generalizing p acc fuel with
  | nil =>
    obtain ⟨fuel, rfl⟩ : ∃ f, fuel = f + 1 := ⟨fuel - 1, by simp at hfuel; omega⟩
    have hp : p = 0 := h
    exact ⟨acc, by rw [usedLoop, if_pos hp], rfl⟩
  | cons r rs ih =>
    obtain ⟨fuel, rfl⟩ : ∃ f, fuel = f + 1 := ⟨fuel - 1, by simp at hfuel; omega⟩
    obtain ⟨h0, hsize, hf, -, hrest⟩ := h
    have hlen : rs.length < fuel := by simpa using hfuel
    rw [usedLoop, if_neg h0]
    dsimp only
    rw [used] at hu ⊢
    cases hfree : r.free with
    | true =>
      rw [if_neg ((flag_iff hf).mpr hfree)]
      rw [hfree, if_pos rfl] at hu
      obtain ⟨u, hloop, hval⟩ := ih hrest (show acc.toNat + used rs < 4294967296 by omega) hlen
      exact ⟨u, hloop, by rw [hval]; simp⟩
    | false =>
      have hz : (header m p).free = 0 := by
        rw [hf, hfree]
        rfl
      rw [if_pos hz]
      rw [hfree, if_neg (by simp)] at hu
      have hadd : (acc + (header m p).size).toNat = acc.toNat + r.size := by
        rw [UInt32.toNat_add, hsize]
        omega
      have hu' : (acc + (header m p).size).toNat + used rs < 4294967296 := by omega
      obtain ⟨u, hloop, hval⟩ := ih hrest hu' hlen
      exact ⟨u, hloop, by rw [hval, hadd]; simp; omega⟩

/-- The blocks a row of regions stands for, one behind the other from `a` on. -/
def Laid : Nat → List Region → List (UInt32 × BlockHeader) → Prop
  | _, [], bs => bs = []
  | a, r :: rs, bs => ∃ b rest, bs = b :: rest ∧ b.1.toNat = a ∧ b.2.size.toNat = r.size ∧
      b.2.free = r.free.toUInt8 ∧ (b.2.next ≠ 0 → b.2.next.toNat = a + (12 + r.size)) ∧
      Laid (a + (12 + r.size)) rs rest

theorem blockList_chain (h : Chain m p rs) (hfuel : rs.length < fuel) :
    ∃ bs, blockList m fuel p = some bs ∧ Laid p.toNat rs bs := by
  induction rs generalizing p fuel with
  | nil =>
    obtain ⟨fuel, rfl⟩ : ∃ f, fuel = f + 1 := ⟨fuel - 1, by simp at hfuel; omega⟩
    have hp : p = 0 := h
    exact ⟨[], by rw [blockList, if_pos hp], rfl⟩
  | cons r rs ih =>
    obtain ⟨fuel, rfl⟩ : ∃ f, fuel = f + 1 := ⟨fuel - 1, by simp at hfuel; omega⟩
    obtain ⟨h0, hsize, hf, hnext, hrest⟩ := h
    have hlen : rs.length < fuel := by simpa using hfuel
    obtain ⟨bs, hbs, hlaid⟩ := ih hrest hlen
    refine ⟨(p, header m p) :: bs, by rw [blockList, if_neg h0, hbs]; rfl, _, _, rfl, rfl, hsize,
      hf, ?_⟩
    cases rs with
    | nil => exact ⟨fun hne => absurd hrest hne, hlaid⟩
    | cons r' rs' =>
      rw [hnext (by simp)] at hlaid
      exact ⟨fun _ => hnext (by simp), hlaid⟩

/-- Two memories with the same row hold the same blocks. -/
theorem Chain.blockList_eq (h : Chain m p rs) (h' : Chain m' p rs) (fuel : Nat) :
    blockList m' fuel p = blockList m fuel p := by
  induction rs generalizing p fuel with
  | nil =>
    have hp : p = 0 := h
    cases fuel with
    | zero => rfl
    | succ fuel => rw [blockList, blockList, if_pos hp, if_pos hp]
  | cons r rs ih =>
    obtain ⟨h0, hsize, hf, hnext, hrest⟩ := h
    obtain ⟨-, hsize', hf', hnext', hrest'⟩ := h'
    have hn : (header m' p).next = (header m p).next := by
      cases rs with
      | nil => exact hrest'.trans hrest.symm
      | cons r' rs =>
        exact UInt32.toNat_inj.mp ((hnext' (by simp)).trans (hnext (by simp)).symm)
    have hh : header m' p = header m p := by
      have hs : (header m' p).size = (header m p).size :=
        UInt32.toNat_inj.mp (hsize'.trans hsize.symm)
      calc header m' p = ⟨(header m' p).size, (header m' p).free, (header m' p).next⟩ := rfl
        _ = header m p := by rw [hs, hf', ← hf, hn]
    cases fuel with
    | zero => rfl
    | succ fuel =>
      rw [hn] at hrest'
      rw [blockList, blockList, if_neg h0, if_neg h0, hh, ih hrest hrest' fuel]

/-- A memory with the same list of blocks holds the row. -/
theorem Chain.of_blockList (h : Chain m p rs) (hfuel : rs.length < fuel)
    (he : blockList m' fuel p = blockList m fuel p) : Chain m' p rs := by
  induction rs generalizing p fuel with
  | nil => exact h
  | cons r rs ih =>
    obtain ⟨fuel, rfl⟩ : ∃ f, fuel = f + 1 := ⟨fuel - 1, by simp at hfuel; omega⟩
    obtain ⟨h0, hsize, hf, hnext, hrest⟩ := h
    have hlen : rs.length < fuel := by simpa using hfuel
    obtain ⟨bs, hbs, -⟩ := blockList_chain hrest hlen
    rw [blockList, blockList, if_neg h0, if_neg h0, hbs, Option.map_some] at he
    obtain ⟨bs', hbs', heq⟩ := Option.map_eq_some_iff.mp he
    simp only [List.cons.injEq, Prod.mk.injEq, true_and] at heq
    obtain ⟨hh, rfl⟩ := heq
    rw [hh] at hbs'
    refine ⟨h0, by rw [hh]; exact hsize, by rw [hh]; exact hf, by rw [hh]; exact hnext, ?_⟩
    rw [hh]
    exact ih hrest hlen (hbs'.trans hbs.symm)

/-- A region of the row and its block. -/
theorem Laid.block (h : Laid a rs bs) (hr : regionAt 12 rs o = some r) :
    ∃ b ∈ bs, b.1.toNat = a + o ∧ b.2.size.toNat = r.size ∧ (b.2.free ≠ 0 ↔ r.free = true) := by
  induction rs generalizing a o bs with
  | nil => cases hr
  | cons r' rs ih =>
    obtain ⟨b, rest, rfl, hb, hsize, hf, -, hrest⟩ := h
    rcases regionAt_cases hr with ⟨rfl, rfl⟩ | ⟨o', rfl, hr'⟩
    · exact ⟨b, List.mem_cons_self, hb, hsize, flag_iff hf⟩
    · obtain ⟨b', hmem, hb', hrest'⟩ := ih hrest hr'
      exact ⟨b', List.mem_cons_of_mem _ hmem, by omega, hrest'⟩

/-- A block of the row and its region. -/
theorem Laid.region (h : Laid a rs bs) (hb : b ∈ bs) : ∃ o r, regionAt 12 rs o = some r ∧
    b.1.toNat = a + o ∧ b.2.size.toNat = r.size ∧ b.2.free = r.free.toUInt8 := by
  induction rs generalizing a bs with
  | nil =>
    rw [show bs = [] from h] at hb
    cases hb
  | cons r' rs ih =>
    obtain ⟨b', rest, rfl, hb', hsize, hf, -, hrest⟩ := h
    rcases List.mem_cons.mp hb with rfl | hb
    · exact ⟨0, r', rfl, hb', hsize, hf⟩
    · obtain ⟨o, r, hr, ho, hrest'⟩ := ih hrest hb
      exact ⟨12 + r'.size + o, r, (regionAt_cons (by omega) r' rs o).trans hr, by omega, hrest'⟩

end VertexOS
