import VertexOS.Exec.Safety

namespace VertexOS
open Library.Memory Library.FreeList Library.Transitions

/-- The second machine has the first one's heap blocks and descriptors. -/
structure Untouched (s s' : Machine) : Prop where
  head : s'.heap.heapHead = s.heap.heapHead
  blocks : ∀ fuel, blockList s'.heap.mem fuel s.heap.heapHead =
    blockList s.heap.mem fuel s.heap.heapHead
  fds : s'.vfs.fds = s.vfs.fds

theorem Untouched.rowed (hu : Untouched s s') (h : Rowed start size ⟨s.heap, live⟩ rs) :
    Rowed start size ⟨s'.heap, live⟩ rs := by
  obtain rfl := h.head
  have hchain := h.chain.of_blockList (Nat.lt_succ_self rs.length) (hu.blocks _)
  exact ⟨hu.head, h.nonzero, h.fits, hchain, h.whole, h.aligned, h.seated, h.distinct⟩

section Return

variable {program : Machine → UInt32 → Machine} {live : List (UInt32 × UInt32)} {rs : List Region}
  {fuel : Nat} {s : Machine} {session : Int} {path : List UInt8}

/-- Once the file is read, what is left is to load it, to call it and to give
both buffers back. -/
theorem execReturn_read (hfuel : heapSize.toNat < fuel) (hpath : path.headD 0 ≠ 0) (hm : Merged rs)
    (hread : readFileAll fuel s session path = .ok (s₁, some f))
    (hfile : FileRead heapStart heapSize live rs s session path s₁ f file)
    (hprog : ∀ s₂ offset entry, execRunElf fuel s session path = .ok (s₂, .entered offset) →
      Untouched s₂ (program s₂ entry)) :
    (∃ s₂ t s', execRunElf fuel s session path = .ok (s₂, t) ∧
      execReturn program fuel s session path = .ok (s', t.returned) ∧
      SlotsKept s.vfs.fds s'.vfs.fds ∧ Rowed heapStart heapSize ⟨s'.heap, live⟩ rs) ∨
    ∃ e, execRunElf fuel s session path = .error e ∧
      execReturn program fuel s session path = .error e ∧ e ≠ .spent := by
  have hrun : execRunElf fuel s session path = execLoaded fuel s₁ f := by
    simp only [execRunElf, if_neg hpath, hread, bind, Except.bind]
  have hslots := hfile.slots
  rcases execLoaded_cases hfuel (by decide) (by decide) hm hfile with
    ⟨-, hp, t, hload, hheld⟩ | ⟨-, e, hload, hout⟩
  swap
  · refine Or.inr ⟨e, hrun.trans hload, ?_, ?_⟩
    · simp only [execReturn, if_neg hpath, hread, hload, bind, Except.bind]
    · rintro rfl
      exact hout
  cases t with
  | failed msg =>
    refine Or.inl ⟨_, _, ⟨s₁.vfs, hp⟩, hrun.trans hload, ?_, hslots, hheld⟩
    simp only [execReturn, if_neg hpath, hread, hload, bind, Except.bind, ExecEnd.returned]
  | entered offset =>
    obtain ⟨rs₁, rs₂, n, w, ha, hm₁, ha', hrow⟩ := hheld
    have hkept := hprog _ offset (imageOf fuel s₁ f + offset) (hrun.trans hload)
    obtain ⟨hp', hfreed, hback⟩ := (hkept.rowed hrow).released_both hfuel hm hm₁ ha ha'
    refine Or.inl ⟨_, _, ⟨(program ⟨s₁.vfs, hp⟩ (imageOf fuel s₁ f + offset)).vfs, hp'⟩,
      hrun.trans hload, ?_, ?_, hback⟩
    · simp only [execReturn, if_neg hpath, hread, hload, hfreed, orSpent, bind, Except.bind,
        ExecEnd.returned]
    · rw [← hkept.fds] at hslots
      exact hslots

/-- `exec_run_elf` returns with nothing kept, or it does not return. -/
theorem execReturn_cases (hfuel : heapSize.toNat + 2 ≤ fuel)
    (h : Rowed heapStart heapSize ⟨s.heap, live⟩ rs) (hm : Merged rs)
    (hround : Roundable s session path)
    (hprog : ∀ s₁ offset entry, execRunElf fuel s session path = .ok (s₁, .entered offset) →
      Untouched s₁ (program s₁ entry)) :
    (∃ s₁ t s', execRunElf fuel s session path = .ok (s₁, t) ∧
      execReturn program fuel s session path = .ok (s', t.returned) ∧
      SlotsKept s.vfs.fds s'.vfs.fds ∧ Rowed heapStart heapSize ⟨s'.heap, live⟩ rs) ∨
    ∃ e, execRunElf fuel s session path = .error e ∧
      execReturn program fuel s session path = .error e ∧ e ≠ .spent := by
  by_cases hpath : path.headD 0 = 0
  · refine Or.inl ⟨s, .failed "missing path", s, ?_, ?_, SlotsKept.refl _, h⟩
    · rw [execRunElf, if_pos hpath]
      rfl
    · rw [execReturn, if_pos hpath]
      rfl
  rcases readFileAll_cases h hm (by decide) hfuel session path with
    ⟨e, hread⟩ | ⟨s₁, hread, hslots, hback⟩ | ⟨hwraps, -⟩ | ⟨s₁, f, file, hread, hfile⟩
  · refine Or.inr ⟨.fault e, ?_, ?_, by simp⟩
    · simp only [execRunElf, if_neg hpath, hread, bind, Except.bind]
    · simp only [execReturn, if_neg hpath, hread, bind, Except.bind]
  · refine Or.inl ⟨s₁, .failed "unable to read file", s₁, ?_, ?_, hslots, hback hround⟩
    · simp only [execRunElf, if_neg hpath, hread, bind, Except.bind]
      rfl
    · simp only [execReturn, if_neg hpath, hread, bind, Except.bind, ExecEnd.returned]
  · exact absurd hround hwraps
  · exact execReturn_read (by omega) hpath hm hread hfile hprog

end Return

/-- However `exec_run_elf` returns, the heap's block list is the one before the
call, and so is the descriptor table up to what a closed slot still says. It
returns wherever no access leaves its buffers and the file system does not fault. -/
theorem exec_leaks_nothing (program : Machine → UInt32 → Machine) (fuel : Nat)
    (hfuel : heapSize.toNat + 2 ≤ fuel) (s : Machine) (bs : List (UInt32 × BlockHeader))
    (hheap : Blocked heapStart heapSize s.heap bs)
    (hapart : bs.IsChain fun b b' => ¬FreePair b b') (session : Int) (path : List UInt8)
    (hround : Roundable s session path)
    (hprog : ∀ s₁ offset entry, execRunElf fuel s session path = .ok (s₁, .entered offset) →
      Untouched s₁ (program s₁ entry)) :
    (∀ s' r, execReturn program fuel s session path = .ok (s', r) →
      Blocked heapStart heapSize s'.heap bs ∧ SlotsKept s.vfs.fds s'.vfs.fds) ∧
    (∀ s₁ t, execRunElf fuel s session path = .ok (s₁, t) →
      ∃ s', execReturn program fuel s session path = .ok (s', t.returned)) ∧
    execReturn program fuel s session path ≠ .error .spent := by
  have h := hheap.rowed (by decide) (by decide)
  rcases execReturn_cases hfuel h (regionsOf_merged hapart) hround hprog with
    ⟨s₁, t, s', hrun, hreturn, hslots, hback⟩ | ⟨e, hrun, hreturn, hspent⟩
  · rw [hrun, hreturn]
    refine ⟨?_, ?_, by simp⟩
    · intro s'' r heq
      cases heq
      exact ⟨hheap.again (by decide) (by decide) hback, hslots⟩
    · intro s₂ t' heq
      cases heq
      exact ⟨s', rfl⟩
  · rw [hrun, hreturn]
    exact ⟨by simp, by simp, by simpa using hspent⟩

/-- The kernel's heap after any use of it. -/
theorem heapRun_blocked (hheap : Run heapStep ⟨heapInit m heapStart heapSize, []⟩ calls a) :
    ∃ bs, Blocked heapStart heapSize a.heap bs ∧ bs.IsChain fun b b' => ¬FreePair b b' := by
  obtain ⟨rs, h, hm⟩ := heapRun_rowed hheap
  obtain ⟨bs, hbs, hl⟩ := h.blocked
  exact ⟨bs, hbs, hl.merged hm⟩

/-- A program that is run and returns at once. -/
theorem exec_leaks_nothing_run :
    let file := elfWithSegment 0x1000 84 0x1000 4 8 [0xC3, 0, 0, 0]
    ∃ s' bs, execReturn (fun s _ => s) 1048578 (machineWith file) 0 [97] = .ok (s', true) ∧
      Blocked heapStart heapSize (machineWith file).heap bs ∧
      Blocked heapStart heapSize s'.heap bs ∧ SlotsKept (machineWith file).vfs.fds s'.vfs.fds := by
  intro file
  have hnil : Run heapStep ⟨heapInit (fun _ => 0) heapStart heapSize, []⟩ []
    ⟨(machineWith file).heap, []⟩ := .nil _
  obtain ⟨bs, hbs, hapart⟩ := heapRun_blocked hnil
  have hstat : (vfsStatPath (machineWith file).vfs 0 [97]).map (Option.map (·.size)) =
      .ok (some 88) := by decide +kernel
  have hround : Roundable (machineWith file) 0 [97] := by
    intro st hst
    rw [hst] at hstat
    have hsize : st.size = 88 := Option.some.inj (Except.ok.inj hstat)
    rw [hsize]
    decide
  have hrun : (execRunElf 1048578 (machineWith file) 0 [97]).map Prod.snd = .ok (.entered 0) := by
    decide +kernel
  obtain ⟨hkept, hreturns, -⟩ := exec_leaks_nothing (fun s _ => s) 1048578 (by decide)
    (machineWith file) bs hbs hapart 0 [97] hround (fun _ _ _ _ => ⟨rfl, fun _ => rfl, rfl⟩)
  cases hexec : execRunElf 1048578 (machineWith file) 0 [97] with
  | error e =>
    rw [hexec] at hrun
    cases hrun
  | ok x =>
    obtain ⟨s₁, t⟩ := x
    rw [hexec] at hrun
    obtain rfl : t = .entered 0 := Except.ok.inj hrun
    obtain ⟨s', hreturn⟩ := hreturns s₁ _ hexec
    obtain ⟨hbs', hslots⟩ := hkept s' true hreturn
    exact ⟨s', bs, hreturn, hbs, hbs', hslots⟩

/-- After a file of one byte, which is refused, the slot it was read through is
free again but still names the node. -/
theorem exec_leaves_slot : ∃ s' bs, Blocked heapStart heapSize (machineWith [7]).heap bs ∧
    bs.IsChain (fun b b' => ¬FreePair b b') ∧
    execReturn (fun s _ => s) 1048578 (machineWith [7]) 0 [97] = .ok (s', false) ∧
    s'.vfs.fds ≠ (machineWith [7]).vfs.fds := by
  have hnil : Run heapStep ⟨heapInit (fun _ => 0) heapStart heapSize, []⟩ []
    ⟨(machineWith [7]).heap, []⟩ := .nil _
  obtain ⟨bs, hbs, hapart⟩ := heapRun_blocked hnil
  have hrun : (execReturn (fun s _ => s) 1048578 (machineWith [7]) 0 [97]).map
      (fun x => (x.2, x.1.vfs.fds 0)) = .ok (false, ⟨0, 1, 1, vfsORead⟩) := by decide +kernel
  cases hreturn : execReturn (fun s _ => s) 1048578 (machineWith [7]) 0 [97] with
  | error e =>
    rw [hreturn] at hrun
    cases hrun
  | ok x =>
    obtain ⟨s', r⟩ := x
    rw [hreturn] at hrun
    have hpair := Except.ok.inj hrun
    obtain ⟨rfl, hslot⟩ : r = false ∧ s'.vfs.fds 0 = ⟨0, 1, 1, vfsORead⟩ :=
      ⟨congrArg Prod.fst hpair, congrArg Prod.snd hpair⟩
    refine ⟨s', bs, hbs, hapart, rfl, ?_⟩
    intro hsame
    rw [hsame] at hslot
    exact absurd hslot (by decide)

end VertexOS
