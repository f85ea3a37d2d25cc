import VertexOS.Exec.Safety

namespace VertexOS
open Library.Memory Library.FreeList Library.Transitions

/-- The segment takes the byte at an address from the file. -/
def Segment.Covers (g : Segment) (a : Nat) : Prop :=
  g.vaddr.toNat ≤ a ∧ a < g.vaddr.toNat + g.filesz.toNat

instance (g : Segment) (a : Nat) : Decidable (g.Covers a) := inferInstanceAs (Decidable (_ ∧ _))

/-- The last loadable segment that covers an address. -/
def lastCovering (file : List UInt8) (a : Nat) : Option Segment :=
  (segments file).reverse.find? fun g => g.Covers a

/-- The byte that the headers put at an address. -/
def describedByte (file : List UInt8) (a : Nat) : UInt8 :=
  match lastCovering file a with
  | some g => file.getD (g.offset.toNat + (a - g.vaddr.toNat)) 0
  | none => 0

section Described

variable {file : List UInt8} {lo hi : UInt32}

/-- One copy puts the bytes of its segment over what was there. -/
theorem copied_eq {g : Segment} (hlo : lo ≤ g.vaddr) (bytes : Nat → UInt8) (k : Nat) :
    copied file lo bytes g k =
      if g.Covers (lo.toNat + k) then
        file.getD (g.offset.toNat + (lo.toNat + k - g.vaddr.toNat)) 0
      else bytes k := by
  have hsub : (g.vaddr - lo).toNat = g.vaddr.toNat - lo.toNat := UInt32.toNat_sub_of_le _ _ hlo
  have hle := UInt32.le_iff_toNat_le.mp hlo
  simp only [copied, pasted, hsub]
  by_cases hc : g.Covers (lo.toNat + k)
  · have hc' := hc
    obtain ⟨h1, h2⟩ := hc'
    rw [if_pos (by omega), if_pos hc]
    congr 1
    omega
  · rw [if_neg hc, if_neg]
    intro hin
    obtain ⟨h1, h2⟩ := hin
    exact hc ⟨by omega, by omega⟩

/-- After all copies the last segment over an address has the say. -/
theorem foldl_copied_eq (gs : List Segment) (hlo : ∀ g ∈ gs, lo ≤ g.vaddr)
    (bytes : Nat → UInt8) (k : Nat) :
    gs.foldl (copied file lo) bytes k =
      match gs.reverse.find? (fun g => g.Covers (lo.toNat + k)) with
      | some g => file.getD (g.offset.toNat + (lo.toNat + k - g.vaddr.toNat)) 0
      | none => bytes k := by
  induction gs generalizing bytes with
  | nil => rfl
  | cons g gs ih =>
    have hrest := ih (fun g' hg' => hlo g' (List.mem_cons_of_mem _ hg')) (copied file lo bytes g)
    rw [List.foldl_cons, hrest, List.reverse_cons, List.find?_append]
    cases gs.reverse.find? (fun g => decide (g.Covers (lo.toNat + k))) with
    | some g' => rfl
    | none =>
      rw [copied_eq (hlo g List.mem_cons_self)]
      by_cases hc : g.Covers (lo.toNat + k)
      · simp [hc]
      · simp [hc]

/-- Where no sum of a header wraps around, every segment fits in file and image. -/
theorem fitsImage_of_sums {m : Mem} {f : Buffer} (h : Holds m f file)
    (ha : acceptedRange file = some (lo, hi))
    (hsums : ∀ g ∈ segments file, g.offset.toNat + g.filesz.toNat < 4294967296 ∧
      g.vaddr.toNat + g.memsz.toNat < 4294967296) (base : UInt32) :
    ∀ g ∈ segments file, FitsImage file ⟨base, hi - lo⟩ lo g := by
  apply (fitsImage_iff h ha).mpr
  intro g hg
  obtain ⟨-, -, hall⟩ := acceptedRange_some ha
  obtain ⟨-, -, hfile, hend⟩ := hall g hg
  obtain ⟨hoff, hmem⟩ := hsums g hg
  rw [UInt32.le_iff_toNat_le] at hfile
  rw [UInt32.le_iff_toNat_le, UInt32.toNat_add, Nat.mod_eq_of_lt hmem] at hend
  exact Or.inr ⟨hoff, by omega⟩

end Described

/-- For an executable whose headers do not wrap around, `exec_run_elf` enters the
program with its image as the headers describe it. -/
theorem elf_image_described (m : Mem) (calls : List HeapCall) (s : Machine)
    (live : List (UInt32 × UInt32))
    (hheap : Run heapStep ⟨heapInit m heapStart heapSize, []⟩ calls ⟨s.heap, live⟩)
    (fuel : Nat) (hfuel : heapSize.toNat + 2 ≤ fuel) (session : Int) (path file : List UInt8)
    {s₁ : Machine} {f : Buffer} {minVaddr maxVaddr image : UInt32} {hp : Heap}
    (hreads : Reads fuel s session path s₁ file)
    (hread : readFileAll fuel s session path = .ok (s₁, some f))
    (hvalid : validate s₁.heap.mem f = .ok (minVaddr, maxVaddr))
    (htable : (phoffOf file).toNat + 32 * phnumOf file < 4294967296)
    (hsums : ∀ g ∈ segments file, g.offset.toNat + g.filesz.toNat < 4294967296 ∧
      g.vaddr.toNat + g.memsz.toNat < 4294967296)
    (halloc : kmalloc fuel s₁.heap (maxVaddr - minVaddr) = some (hp, image)) (himage : image ≠ 0)
    (hentry : minVaddr ≤ fileWord file 24 ∧ fileWord file 24 < maxVaddr) :
    ∃ s', execRunElf fuel s session path =
        .ok (s', .entered (fileWord file 24 - minVaddr)) ∧
      ∀ k, k < (maxVaddr - minVaddr).toNat →
        s'.heap.mem (image + UInt32.ofNat k) = describedByte file (minVaddr.toNat + k) := by
  obtain ⟨rs, h, hm⟩ := heapRun_rowed hheap
  have hpath := hreads.1
  rcases readFileAll_cases h hm (by decide) hfuel session path with
    ⟨e, he⟩ | ⟨s', he, -⟩ | ⟨-, he⟩ | ⟨s', f', file', he, hfile⟩
  · rw [hread] at he
    cases he
  · rw [hread] at he
    cases he
  · rw [hread] at he
    cases he
  rw [hread] at he
  cases he
  obtain rfl := hfile.unique hreads
  have hh := hfile.holds
  obtain ⟨rs', n, -, -, hrow, hn⟩ := hfile.rowed
  have hhead : headerError file = none := by
    cases hc : headerError file with
    | none => rfl
    | some msg =>
      rw [validate_refused hh hc] at hvalid
      cases hvalid
  obtain ⟨lo, hi, hv, hacc⟩ := (validate_cases hh hhead htable).resolve_left (by
    rintro ⟨msg, hv, -⟩
    rw [hv] at hvalid
    cases hvalid)
  rw [hv] at hvalid
  cases hvalid
  obtain ⟨hlt, hsmall, hall⟩ := acceptedRange_some hacc
  have hplaced := kmalloc_placed (by decide) hh hrow hn hsmall halloc himage
  obtain ⟨m', -, hbytes, hload⟩ := execLoaded_image hh hhead htable hv hlt halloc himage hplaced
    (fitsImage_of_sums hh hacc hsums image)
  have hin : ¬(fileWord file 24 < minVaddr ∨ fileWord file 24 ≥ maxVaddr) := by
    rintro (hc | hc)
    · exact UInt32.not_lt.mpr hentry.1 hc
    · exact UInt32.not_le.mpr hentry.2 hc
  rw [if_neg hin] at hload
  refine ⟨⟨s₁.vfs, { hp with mem := m' }⟩, ?_, ?_⟩
  · simp only [execRunElf, if_neg hpath, hread, bind, Except.bind]
    exact hload
  · intro k hk
    have hlast : (segments file).foldl (copied file minVaddr) (fun _ => 0) k =
        describedByte file (minVaddr.toNat + k) :=
      foldl_copied_eq (segments file) (fun g hg => (hall g hg).2.1) (fun _ => 0) k
    exact (hbytes k hk).trans hlast

/-- Four bytes of code and four of zeros behind them. -/
theorem elf_image_described_run :
    let file := elfWithSegment 0x1000 84 0x1000 4 8 [0xC3, 0, 0, 0]
    ∃ s' image, execRunElf 1048578 (machineWith file) 0 [97] = .ok (s', .entered 0) ∧
      ∀ k, k < 8 → s'.heap.mem (image + UInt32.ofNat k) = describedByte file (0x1000 + k) := by
  intro file
  have hcontent : file = content (machineWith file).vfs.fs.entries
      (machineWith file).vfs.fs.dev.sectors 1 := by decide +kernel
  have hres : sfsResolve (machineWith file).vfs.fs [97] ((machineWith file).vfs.cwd 0) =
      .ok (some (slotId 1)) := by decide +kernel
  have hrun : (readFileAll 1048578 (machineWith file) 0 [97]).toOption.any (fun r =>
      r.2.any fun f => decide (validate r.1.heap.mem f = .ok (0x1000, 0x1008)) &&
        ((kmalloc 1048578 r.1.heap 8).map Prod.snd).any (fun q => decide (q ≠ 0))) = true := by
    decide +kernel
  cases hread : readFileAll 1048578 (machineWith file) 0 [97] with
  | error e =>
    rw [hread] at hrun
    cases hrun
  | ok r =>
    obtain ⟨s₁, b⟩ := r
    rw [hread] at hrun
    cases b with
    | none => cases hrun
    | some f =>
      simp only [Except.toOption, Option.any_some, Bool.and_eq_true, decide_eq_true_eq,
        Option.any_eq_true, Option.map_eq_some_iff] at hrun
      obtain ⟨hvalid, image, ⟨⟨hp, q⟩, halloc, rfl⟩, himage⟩ := hrun
      have hreads : Reads 1048578 (machineWith file) 0 [97] s₁ file :=
        ⟨by decide, ⟨f, hread⟩, 1, hres, by decide, hcontent⟩
      obtain ⟨s', hs', hbytes⟩ := elf_image_described (fun _ => 0) [] (machineWith file) [] (.nil _)
        1048578 (by decide) 0 [97] file hreads hread hvalid (by decide) (by decide) halloc himage
        (by decide)
      have hoffset : fileWord file 24 - 0x1000 = 0 := by decide
      have hsize : ((0x1008 : UInt32) - 0x1000).toNat = 8 := by decide
      have hstart : (0x1000 : UInt32).toNat = 0x1000 := by decide
      rw [hoffset] at hs'
      rw [hsize, hstart] at hbytes
      exact ⟨s', q, hs', hbytes⟩

end VertexOS
