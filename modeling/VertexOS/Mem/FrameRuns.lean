import VertexOS.Library.Transitions
import VertexOS.Mem.Frames

namespace VertexOS
open Library.Bitmap Library.Memory Library.Transitions

/-- The allocator and the addresses handed out and not freed since. -/
structure Frames where
  pmm : Pmm
  live : List UInt32

inductive PmmCall where
  | alloc
  | free (physicalAddr : UInt32)
  deriving DecidableEq, Repr

def pmmCall (s : Frames) : PmmCall → Option Frames
  | .alloc => (pmmAllocFrame s.pmm).map fun r => ⟨r.1, r.2 :: s.live⟩
  | .free a => if a ∈ s.live then some ⟨pmmFreeFrame s.pmm a, s.live.erase a⟩ else none

/-- Only a live address is freed. -/
def pmmStep (s : Frames) (c : PmmCall) (s' : Frames) : Prop := pmmCall s c = some s'

section Alloc

variable {p p' : Pmm} {a : UInt32}

theorem allocLoop_cases (p : Pmm) (n k : Nat) :
    (allocLoop p n k = none ∧ ∀ f, k ≤ f → f < k + n → testBit p.bitmap f = true) ∨
    ∃ f, k ≤ f ∧ f < k + n ∧ testBit p.bitmap f = false ∧
      (∀ g, k ≤ g → g < f → testBit p.bitmap g = true) ∧
      allocLoop p n k = some (p.take f, UInt32.ofNat f * pageSize) := by
  induction n generalizing k with
  | zero =>
    left
    refine ⟨rfl, ?_⟩
    intro f h1 h2
    omega
  | succ n ih =>
    cases ht : testBit p.bitmap k with
    | false =>
      right
      refine ⟨k, Nat.le_refl k, by omega, ht, ?_, ?_⟩
      · intro g h1 h2
        omega
      · simp only [allocLoop, ht, if_true]
        rfl
    | true =>
      simp only [allocLoop, ht, Bool.true_eq_false, if_false]
      rcases ih (k + 1) with ⟨hnone, hall⟩ | ⟨f, h1, h2, hf, hlow, hsome⟩
      · left
        refine ⟨hnone, ?_⟩
        intro f h1 h2
        by_cases he : f = k
        · rw [he]
          exact ht
        · exact hall f (by omega) (by omega)
      · right
        refine ⟨f, by omega, by omega, hf, ?_, hsome⟩
        intro g hg hgf
        by_cases he : g = k
        · rw [he]
          exact ht
        · exact hlow g (by omega) hgf

theorem frameAddr_toNat {f : Nat} (hf : f < 65536) :
    (UInt32.ofNat f * pageSize).toNat = 4096 * f := by
  simp only [UInt32.toNat_mul, UInt32.toNat_ofNat', pageSize,
    show (4096 : UInt32).toNat = 4096 from rfl]
  omega

/-- `pmm_alloc_frame` takes the lowest clear frame, and fails only without one. -/
theorem pmmAllocFrame_cases (p : Pmm) :
    (pmmAllocFrame p = none ∧ clearFrames p = ∅) ∨
    ∃ f a, f ∈ clearFrames p ∧ (∀ g ∈ clearFrames p, f ≤ g) ∧ a.toNat = 4096 * f ∧
      pmmAllocFrame p = some (p.take f, a) := by
  rcases allocLoop_cases p pmmMaxFrames 0 with ⟨hnone, hall⟩ | ⟨f, -, hlt, hf, hlow, hsome⟩
  · left
    refine ⟨hnone, ?_⟩
    apply Finset.eq_empty_of_forall_notMem
    intro g hg
    obtain ⟨hlt, hclear⟩ := mem_clearFrames.mp hg
    rw [hall g (Nat.zero_le g) (by rw [Nat.zero_add]; exact hlt)] at hclear
    cases hclear
  · right
    rw [Nat.zero_add] at hlt
    refine ⟨f, _, mem_clearFrames.mpr ⟨hlt, hf⟩, ?_, frameAddr_toNat hlt, hsome⟩
    intro g hg
    apply Nat.le_of_not_lt
    intro hgf
    have hclear := (mem_clearFrames.mp hg).2
    rw [hlow g (Nat.zero_le g) hgf] at hclear
    cases hclear

end Alloc

/-- The clear frames are those of `p0` without the live ones, and the counters
agree. -/
structure Owned (p0 : Pmm) (s : Frames) : Prop where
  clear : ∀ f, f ∈ clearFrames s.pmm ↔ f ∈ clearFrames p0 ∧ ∀ a ∈ s.live, a.toNat / 4096 ≠ f
  balanced : Balanced s.pmm
  total : s.pmm.totalBytes = p0.totalBytes
  nodup : s.live.Nodup
  aligned : ∀ a ∈ s.live, a.toNat = 4096 * (a.toNat / 4096)
  taken : ∀ a ∈ s.live, a.toNat / 4096 ∈ clearFrames p0

section Runs

variable {p p0 : Pmm} {s s' : Frames} {a : UInt32} {f : Nat}

theorem Owned.start (h : Balanced p) : Owned p ⟨p, []⟩ := by
  refine ⟨?_, h, rfl, List.nodup_nil, ?_, ?_⟩ <;> simp

theorem Owned.fresh (h : Owned p0 s) (hf : f ∈ clearFrames s.pmm) (ha : a.toNat = 4096 * f) :
    a ∉ s.live ∧ f ∈ clearFrames p0 := by
  obtain ⟨hf0, hlive⟩ := (h.clear f).mp hf
  refine ⟨?_, hf0⟩
  intro hm
  apply hlive a hm
  omega

theorem Owned.alloc (h : Owned p0 s) (hf : f ∈ clearFrames s.pmm) (ha : a.toNat = 4096 * f) :
    Owned p0 ⟨s.pmm.take f, a :: s.live⟩ := by
  obtain ⟨hnew, hf0⟩ := h.fresh hf ha
  have hdiv : a.toNat / 4096 = f := by omega
  refine ⟨?_, take_balanced h.balanced hf, h.total, List.nodup_cons.mpr ⟨hnew, h.nodup⟩, ?_, ?_⟩
  · intro g
    simp only [take_clear, Finset.mem_erase, h.clear, List.forall_mem_cons, hdiv]
    rw [and_left_comm, ne_comm]
  · simp only [List.forall_mem_cons, hdiv]
    exact ⟨ha, h.aligned⟩
  · simp only [List.forall_mem_cons, hdiv]
    exact ⟨hf0, h.taken⟩

/-- A live frame is in use, so a page of the counter is its own. -/
theorem Owned.used_le (h : Owned p0 s) (h0 : Balanced p0) (ha : a ∈ s.live) :
    4096 ≤ s.pmm.usedBytes.toNat := by
  have hss : clearFrames s.pmm ⊂ clearFrames p0 := by
    refine ⟨?_, ?_⟩
    · intro g hg
      exact ((h.clear g).mp hg).1
    · intro hsub
      exact ((h.clear _).mp (hsub (h.taken a ha))).2 a ha rfl
  have hcard := Finset.card_lt_card hss
  have hacc := h.balanced.accounts
  have hacc0 := h0.accounts
  rw [h.total] at hacc
  omega

theorem pmmFreeFrame_eq (h : Owned p0 s) (h0 : Balanced p0) (ha : a ∈ s.live) :
    pmmFreeFrame s.pmm a =
      { s.pmm with
        bitmap := clearBit s.pmm.bitmap (a.toNat / 4096)
        usedBytes := s.pmm.usedBytes - pageSize } := by
  have hlt := (mem_clearFrames.mp (h.taken a ha)).1
  have hset : testBit s.pmm.bitmap (a.toNat / 4096) = true := by
    cases ht : testBit s.pmm.bitmap (a.toNat / 4096) with
    | true => rfl
    | false =>
      have hc := (h.clear _).mp (mem_clearFrames.mpr ⟨hlt, ht⟩)
      exact absurd rfl (hc.2 a ha)
  have hused : s.pmm.usedBytes ≥ pageSize := UInt32.le_iff_toNat_le.mpr (h.used_le h0 ha)
  have hmax : ¬a.toNat / 4096 ≥ pmmMaxFrames := Nat.not_le.mpr hlt
  simp only [pmmFreeFrame, page_div, hmax, hset, hused, if_true, if_false]

theorem Owned.free (h : Owned p0 s) (h0 : Balanced p0) (ha : a ∈ s.live) :
    a.toNat / 4096 ∈ clearFrames (pmmFreeFrame s.pmm a) ∧
      Owned p0 ⟨pmmFreeFrame s.pmm a, s.live.erase a⟩ := by
  have hlt := (mem_clearFrames.mp (h.taken a ha)).1
  have hclear : clearFrames (pmmFreeFrame s.pmm a) =
      insert (a.toNat / 4096) (clearFrames s.pmm) := by
    rw [pmmFreeFrame_eq h h0 ha]
    exact clearBelow_clearBit _ hlt
  have hnot : a.toNat / 4096 ∉ clearFrames s.pmm := by
    intro hm
    exact ((h.clear _).mp hm).2 a ha rfl
  refine ⟨by rw [hclear]; exact Finset.mem_insert_self _ _, ?_, ?_, ?_, h.nodup.erase a, ?_, ?_⟩
  · intro g
    simp only [hclear, Finset.mem_insert, h.clear, h.nodup.mem_erase_iff]
    constructor
    · rintro (rfl | ⟨hg, hlive⟩)
      · refine ⟨h.taken a ha, ?_⟩
        intro b ⟨hne, hb⟩ he
        apply hne
        apply UInt32.toNat_inj.mp
        rw [h.aligned a ha, h.aligned b hb, he]
      · exact ⟨hg, fun b hb => hlive b hb.2⟩
    · rintro ⟨hg, hlive⟩
      by_cases he : g = a.toNat / 4096
      · exact .inl he
      · refine .inr ⟨hg, ?_⟩
        intro b hb
        by_cases hab : b = a
        · subst hab
          exact fun hc => he hc.symm
        · exact hlive b ⟨hab, hb⟩
  · have hused := h.used_le h0 ha
    have hsub : (s.pmm.usedBytes - pageSize).toNat = s.pmm.usedBytes.toNat - 4096 :=
      UInt32.toNat_sub_of_le _ _ (UInt32.le_iff_toNat_le.mpr hused)
    have hacc := h.balanced.accounts
    have hcard := Finset.card_insert_of_notMem hnot
    refine ⟨?_, ?_⟩
    · simp only [hclear, hcard]
      simp only [pmmFreeFrame_eq h h0 ha, hsub]
      omega
    · simp only [pmmFreeFrame_eq h h0 ha]
      exact h.balanced.bounded
  · simp only [pmmFreeFrame_eq h h0 ha]
    exact h.total
  · intro b hb
    exact h.aligned b (List.mem_of_mem_erase hb)
  · intro b hb
    exact h.taken b (List.mem_of_mem_erase hb)

theorem pmmStep_owned (h0 : Balanced p0) (s : Frames) (c : PmmCall) (s' : Frames)
    (h : Owned p0 s) (hstep : pmmStep s c s') : Owned p0 s' := by
  cases c with
  | alloc =>
    simp only [pmmStep, pmmCall] at hstep
    rcases pmmAllocFrame_cases s.pmm with ⟨hnone, -⟩ | ⟨f, a, hf, -, ha, hsome⟩
    · rw [hnone] at hstep
      cases hstep
    · rw [hsome] at hstep
      cases hstep
      exact h.alloc hf ha
  | free a =>
    simp only [pmmStep, pmmCall] at hstep
    split at hstep
    · next ha =>
      cases hstep
      exact (h.free h0 ha).2
    · cases hstep

theorem pmm_run_owned {regions : List MemoryRegion} {ks ke : UInt32} {cs : List PmmCall}
    (hinit : pmmInit regions ks ke = some p0) (hrun : Run pmmStep ⟨p0, []⟩ cs s) :
    Owned p0 s := by
  have h0 := (pmmInit_spec hinit).1
  exact hrun.invariant (pmmStep_owned h0) (Owned.start h0)

theorem Balanced.free_bytes (h : Balanced p) :
    (pmmFreeMemoryBytes p).toNat = 4096 * (clearFrames p).card ∧
    (pmmUsedMemoryBytes p).toNat + (pmmFreeMemoryBytes p).toNat =
      (pmmTotalMemoryBytes p).toNat := by
  have hacc := h.accounts
  have hsub : (p.totalBytes - p.usedBytes).toNat = p.totalBytes.toNat - p.usedBytes.toNat := by
    apply UInt32.toNat_sub_of_le
    rw [UInt32.le_iff_toNat_le]
    omega
  simp only [pmmFreeMemoryBytes, pmmUsedMemoryBytes, pmmTotalMemoryBytes, hsub]
  omega

/-- What `pmm_alloc_frame` returns in a run: the lowest clear frame. -/
theorem pmmAllocFrame_fresh (h : Owned p0 s) (hs : pmmAllocFrame s.pmm = some (p, a)) :
    a.toNat = 4096 * (a.toNat / 4096) ∧ a.toNat / 4096 ∈ clearFrames s.pmm ∧
      (∀ g ∈ clearFrames s.pmm, a.toNat / 4096 ≤ g) ∧
      a ∉ s.live ∧ a.toNat / 4096 ∈ clearFrames p0 := by
  rcases pmmAllocFrame_cases s.pmm with ⟨hnone, hempty⟩ | ⟨f, b, hf, hlow, hb, hsome⟩
  · rw [hnone] at hs
    cases hs
  · rw [hsome] at hs
    cases hs
    have hdiv : a.toNat / 4096 = f := by omega
    rw [hdiv]
    exact ⟨hb, hf, hlow, h.fresh hf hb⟩

theorem pmmAllocFrame_none (p : Pmm) : pmmAllocFrame p = none ↔ clearFrames p = ∅ := by
  rcases pmmAllocFrame_cases p with ⟨hnone, hempty⟩ | ⟨f, a, hf, -, -, hsome⟩
  · exact ⟨fun _ => hempty, fun _ => hnone⟩
  · constructor
    · intro hn
      rw [hsome] at hn
      cases hn
    · intro he
      rw [he] at hf
      exact absurd hf (Finset.notMem_empty f)

/-- In every run of allocations and of frees of live addresses a frame is handed
out to one owner at a time, the lowest first, and the counters are exact. -/
theorem pmm_frames_exact {regions : List MemoryRegion} {ks ke : UInt32} {cs : List PmmCall}
    (hinit : pmmInit regions ks ke = some p0) (hrun : Run pmmStep ⟨p0, []⟩ cs s) :
    (∀ p' a, pmmAllocFrame s.pmm = some (p', a) →
      a.toNat = 4096 * (a.toNat / 4096) ∧ a.toNat / 4096 ∈ clearFrames s.pmm ∧
      (∀ g ∈ clearFrames s.pmm, a.toNat / 4096 ≤ g) ∧
      a ∉ s.live ∧ a.toNat / 4096 ∈ clearFrames p0) ∧
    (pmmAllocFrame s.pmm = none ↔ clearFrames s.pmm = ∅) ∧
    (∀ f, f ∈ clearFrames s.pmm ↔
      f ∈ clearFrames p0 ∧ ∀ a ∈ s.live, a.toNat / 4096 ≠ f) ∧
    (∀ a ∈ s.live, a.toNat / 4096 ∈ clearFrames (pmmFreeFrame s.pmm a)) ∧
    (pmmUsedMemoryBytes s.pmm).toNat + (pmmFreeMemoryBytes s.pmm).toNat =
      (pmmTotalMemoryBytes s.pmm).toNat ∧
    (pmmFreeMemoryBytes s.pmm).toNat = 4096 * (clearFrames s.pmm).card := by
  have h := pmm_run_owned hinit hrun
  obtain ⟨hfree, hsum⟩ := h.balanced.free_bytes
  refine ⟨?_, pmmAllocFrame_none s.pmm, h.clear, ?_, hsum, hfree⟩
  · intro p' a hs
    exact pmmAllocFrame_fresh h hs
  · intro a ha
    exact (h.free (pmmInit_spec hinit).1 ha).1

theorem pmm_frames_exact_two_pages : ∃ p0 a s,
    pmmInit [⟨0x100000, 0x2000⟩] 0x200000 0x300000 = some p0 ∧
    Run pmmStep ⟨p0, []⟩ [.alloc, .free a] s ∧ s.live = [] ∧
    (∀ f, f ∈ clearFrames s.pmm ↔ f ∈ clearFrames p0 ∧ ∀ a ∈ s.live, a.toNat / 4096 ≠ f) := by
  have hoffer : Offers ⟨0x100000, 0x2000⟩ 256 := by decide
  obtain ⟨p0, hinit⟩ := pmmInit_some 0x200000 0x300000 (List.mem_singleton.mpr rfl) hoffer
  have hclear : 256 ∈ clearFrames p0 := by
    apply ((pmmInit_spec hinit).2 256).mpr
    exact ⟨⟨_, List.mem_singleton.mpr rfl, hoffer⟩, by decide⟩
  rcases pmmAllocFrame_cases p0 with ⟨-, hempty⟩ | ⟨f, a, -, -, -, hsome⟩
  · rw [hempty] at hclear
    exact absurd hclear (Finset.notMem_empty 256)
  · have hrun : Run pmmStep ⟨p0, []⟩ [.alloc, .free a]
        ⟨pmmFreeFrame (p0.take f) a, [a].erase a⟩ := by
      refine Run.cons (?_ : pmmStep _ _ ⟨p0.take f, [a]⟩) ?_
      · simp [pmmStep, pmmCall, hsome]
      · apply Run.cons _ (Run.nil _)
        simp [pmmStep, pmmCall]
    exact ⟨p0, a, _, hinit, hrun, by simp, (pmm_frames_exact hinit hrun).2.2.1⟩

end Runs

end VertexOS
