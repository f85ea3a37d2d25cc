import VertexOS.Exec.Loader

namespace VertexOS
open Library Library.Memory Library.FreeList Library.Transitions

/-- The address range of the image, if the segment checks accept the file. -/
def acceptedRange (file : List UInt8) : Option (UInt32 × UInt32) :=
  match boundsOf (UInt32.ofNat file.length) (segments file) 0xFFFFFFFF 0 with
  | .error _ => none
  | .ok (lo, hi) =>
    if lo = 0xFFFFFFFF ∨ hi ≤ lo ∨ hi - lo > execImageLimit then none else some (lo, hi)

/-- The program header table does not wrap around, and neither does a segment of
an image that is loaded, in the file or in memory. -/
def LoadSafe (room : UInt32 → Prop) (file : List UInt8) : Prop :=
  headerError file = none → (phoffOf file).toNat + 32 * phnumOf file < 4294967296 ∧
    ∀ lo hi, acceptedRange file = some (lo, hi) → room (hi - lo) → ∀ g ∈ segments file,
      g.filesz = 0 ∨ g.offset.toNat + g.filesz.toNat < 4294967296 ∧
        g.vaddr.toNat + g.filesz.toNat ≤ hi.toNat

section Validate

variable {m : Mem} {f : Buffer} {file : List UInt8} (h : Holds m f file)

include h

theorem headerError_none (hhead : headerError file = none) : 52 ≤ file.length ∧
    ((phoffOf file).toNat + 32 * phnumOf file < 4294967296 →
      (phoffOf file).toNat + 32 * phnumOf file ≤ file.length) := by
  unfold headerError at hhead
  split_ifs at hhead with h1 h2 h3 h4 h5
  refine ⟨by omega, fun hwrap => ?_⟩
  have hle := UInt32.le_iff_toNat_le.mp (UInt32.not_lt.mp (fun hc => h5 (Or.inr hc)))
  rw [size_eq h, ← h.length, UInt32.toNat_add, UInt32.toNat_mul] at hle
  have hnum : (fileHalf file 44).toUInt32.toNat = phnumOf file := UInt16.toNat_toUInt32 _
  have h32 : phdrBytes.toNat = 32 := rfl
  rw [hnum, h32] at hle
  have := (fileHalf file 44).toNat_lt
  unfold phnumOf at *
  omega

theorem validate_refused (hhead : headerError file = some msg) :
    validate m f = .error (.refused msg) := by
  have hc := checkHeader_eq h
  rw [hhead] at hc
  simp only [validate, hc, bind, Except.bind]

theorem validate_outside (hhead : headerError file = none) (hsmall : file.length ≤ 1048576)
    (hwrap : 4294967296 ≤ (phoffOf file).toNat + 32 * phnumOf file) :
    validate m f = .error (.file (phoffOf file)) := by
  have hc := checkHeader_eq h
  rw [hhead] at hc
  have hb := boundsLoop_outside h (headerError_none h hhead).1 hwrap hsmall 0xFFFFFFFF 0
  simp only [validate, hc, hb, bind, Except.bind]

/-- Inside the file the checks accept a range or refuse the file. -/
theorem validate_cases (hhead : headerError file = none)
    (hwrap : (phoffOf file).toNat + 32 * phnumOf file < 4294967296) :
    (∃ msg, validate m f = .error (.refused msg) ∧ acceptedRange file = none) ∨
    ∃ lo hi, validate m f = .ok (lo, hi) ∧ acceptedRange file = some (lo, hi) := by
  have hc := checkHeader_eq h
  rw [hhead] at hc
  obtain ⟨hlen, hfit⟩ := headerError_none h hhead
  have hb := boundsLoop_eq h hlen (hfit hwrap) 0 0xFFFFFFFF 0
  simp only [validate, acceptedRange, hc, hb, bind, Except.bind, size_eq h, segments]
  cases hbounds : boundsOf f.size (segmentsFrom file 0) 0xFFFFFFFF 0 with
  | error e =>
    obtain ⟨msg, rfl⟩ := boundsOf_refused hbounds
    exact Or.inl ⟨msg, rfl, rfl⟩
  | ok r =>
    obtain ⟨lo, hi⟩ := r
    dsimp only
    by_cases h1 : lo = 0xFFFFFFFF ∨ hi ≤ lo
    · exact Or.inl ⟨_, if_pos h1, if_pos (h1.imp id Or.inl)⟩
    · by_cases h2 : hi - lo > execImageLimit
      · exact Or.inl ⟨_, by rw [if_neg h1, if_pos h2], if_pos (Or.inr (Or.inr h2))⟩
      · refine Or.inr ⟨lo, hi, by rw [if_neg h1, if_neg h2], if_neg ?_⟩
        rintro (h3 | h3 | h3)
        · exact h1 (Or.inl h3)
        · exact h1 (Or.inr h3)
        · exact h2 h3

omit h in
theorem acceptedRange_some (ha : acceptedRange file = some (lo, hi)) : lo < hi ∧
    (hi - lo).toNat ≤ 1048576 ∧ ∀ g ∈ segments file,
      g.offset + g.filesz ≤ UInt32.ofNat file.length ∧ lo ≤ g.vaddr ∧ g.filesz ≤ g.memsz ∧
        g.vaddr + g.memsz ≤ hi := by
  unfold acceptedRange at ha
  split at ha
  · cases ha
  · rename_i hbounds
    split at ha
    · cases ha
    · rename_i hc
      cases ha
      refine ⟨UInt32.not_le.mp (fun hle => hc (Or.inr (Or.inl hle))), ?_, (boundsOf_ok hbounds).2.2⟩
      exact UInt32.le_iff_toNat_le.mp (UInt32.not_lt.mp (fun hlt => hc (Or.inr (Or.inr hlt))))

/-- For an accepted file the copies stay inside exactly if no sum wraps around. -/
theorem fitsImage_iff (ha : acceptedRange file = some (lo, hi)) {base : UInt32} :
    (∀ g ∈ segments file, FitsImage file ⟨base, hi - lo⟩ lo g) ↔ ∀ g ∈ segments file,
      g.filesz = 0 ∨ g.offset.toNat + g.filesz.toNat < 4294967296 ∧
        g.vaddr.toNat + g.filesz.toNat ≤ hi.toNat := by
  obtain ⟨hlt, -, hall⟩ := acceptedRange_some ha
  have hltn := UInt32.lt_iff_toNat_lt.mp hlt
  have hsmall := length_small h
  have hsub : (hi - lo).toNat = hi.toNat - lo.toNat :=
    UInt32.toNat_sub_of_le _ _ (UInt32.le_of_lt hlt)
  refine forall₂_congr (fun g hg => ?_)
  obtain ⟨hoff, hlo, -, -⟩ := hall g hg
  have hv : (g.vaddr - lo).toNat = g.vaddr.toNat - lo.toNat := UInt32.toNat_sub_of_le _ _ hlo
  have hlon := UInt32.le_iff_toNat_le.mp hlo
  rw [size_eq h, UInt32.le_iff_toNat_le, ← h.length, UInt32.toNat_add] at hoff
  have hz : g.filesz = 0 ↔ g.filesz.toNat = 0 := (UInt32.toNat_inj (b := 0)).symm
  have := g.offset.toNat_lt
  have := g.filesz.toNat_lt
  rw [FitsImage, hz, hsub, hv]
  omega

end Validate

section Run

variable {start size : UInt32} {live : List (UInt32 × UInt32)} {rs : List Region} {fuel : Nat}
  (hfuel : size.toNat < fuel)

include hfuel

/-- Two buffers, taken one after the other and given back the other way round. -/
theorem Rowed.released_both (h : Rowed start size ⟨hp, (q, w) :: (q', n) :: live⟩ rs₂)
    (hm : Merged rs) (hm' : Merged rs₁) (ha : Allotted start rs rs₁ q')
    (ha' : Allotted start rs₁ rs₂ q) : ∃ hp', [q, q'].foldlM (kfree fuel) hp = some hp' ∧
      Rowed start size ⟨hp', live⟩ rs := by
  obtain ⟨hp₁, hk, h₁⟩ := h.released hm' ha' hfuel
  obtain ⟨hp₂, hk', h₂⟩ := h₁.released hm ha hfuel
  exact ⟨hp₂, by simp [hk, hk'], h₂⟩

omit hfuel in
theorem execFail_freed (hk : bufs.foldlM (kfree fuel) s.heap = some hp) (msg : String) :
    execFail fuel s bufs msg = .ok (⟨s.vfs, hp⟩, .failed msg) := by
  simp only [execFail, hk, orSpent, bind, Except.bind]

/-- The heap can serve an image of `n` bytes. -/
def HasRoom (fuel : Nat) (hp : Heap) (n : UInt32) : Prop :=
  ∃ hp' q, kmalloc fuel hp n = some (hp', q) ∧ q ≠ 0

/-- An image behind a file that is read: both lie in the heap, apart, and the
file is still there. -/
structure ImagePlaced (start size : UInt32) (live : List (UInt32 × UInt32)) (rs : List Region)
    (hp : Heap) (f img : Buffer) (file : List UInt8) : Prop where
  fits : img.base.toNat + img.size.toNat ≤ 4294967296
  apart : f.base.toNat + f.size.toNat ≤ img.base.toNat ∨
    img.base.toNat + img.size.toNat ≤ f.base.toNat
  holds : Holds hp.mem f file
  rowed : ∃ rs', Allotted start rs rs' img.base ∧
    Rowed start size ⟨hp, (img.base, img.size) :: live⟩ rs'

omit hfuel in
/-- `kmalloc` puts the image clear of the file. -/
theorem kmalloc_placed {s : Machine} (hlow : start.toNat + size.toNat < 4294967296)
    (hh : Holds s.heap.mem f file) (hrow : Rowed start size ⟨s.heap, (f.base, n) :: live⟩ rs)
    (hn : f.size.toNat ≤ n.toNat) (hw : w.toNat ≤ 1048576)
    (hk : kmalloc fuel s.heap w = some (hp, q)) (hq0 : q ≠ 0) :
    ImagePlaced start size ((f.base, n) :: live) rs hp f ⟨q, w⟩ file := by
  have hmem : (f.base, n) ∈ (f.base, n) :: live := List.mem_cons_self
  rcases kmalloc_cases hrow (Or.inr hlow) hk with
    ⟨rfl, -, -⟩ | ⟨rs', o, r, ⟨hfit, -⟩, hrow', hr, hrf, hq, hle, hnew, hkept⟩
  · exact absurd rfl hq0
  rw [alignUp_heap _ (by omega)] at hle
  have hspan := regionAt_bound hr
  rw [hrow'.whole] at hspan
  have hrow'' := hrow'.cons hr hrf hq (show w.toNat ≤ r.size by omega) hnew
  obtain ⟨o', r', hr', -, hf1, hf2⟩ := hrow'.seated _ hmem
  dsimp only at hf1 hf2
  have hoo : o ≠ o' := by
    rintro rfl
    exact hnew _ hmem (UInt32.toNat_inj.mp (hq.trans hf1.symm))
  have happart := regionAt_apart hr hr' hoo
  refine ⟨?_, ?_, ⟨hh.length, hh.fits, ?_⟩, rs', ⟨_, o, hfit, hq⟩, hrow''⟩
  · dsimp only
    omega
  · dsimp only
    omega
  · intro k hk
    have hlen := hh.length
    have hfits := hh.fits
    have hadd : (f.base + UInt32.ofNat k).toNat = f.base.toNat + k :=
      toNat_add_small f.base k (by omega)
    rw [hkept _ hmem _ (by dsimp only; omega) (by dsimp only; omega)]
    exact hh.bytes k hk

omit hfuel in
/-- What the loader leaves in the image, and how it goes on. -/
theorem execLoaded_image {s : Machine} (hh : Holds s.heap.mem f file)
    (hhead : headerError file = none)
    (hwrap : (phoffOf file).toNat + 32 * phnumOf file < 4294967296)
    (hv : validate s.heap.mem f = .ok (lo, hi)) (hlt : lo < hi)
    (hk : kmalloc fuel s.heap (hi - lo) = some (hp, q)) (hq0 : q ≠ 0)
    (hplaced : ImagePlaced start size live rs hp f ⟨q, hi - lo⟩ file)
    (hall : ∀ g ∈ segments file, FitsImage file ⟨q, hi - lo⟩ lo g) : ∃ m,
      SameOutside q.toNat (q.toNat + (hi - lo).toNat) hp.mem m ∧
      (∀ k, k < (hi - lo).toNat → bufByte m ⟨q, hi - lo⟩ k =
        (segments file).foldl (copied file lo) (fun _ => 0) k) ∧
      execLoaded fuel s f =
        if fileWord file 24 < lo ∨ fileWord file 24 ≥ hi then
          execFail fuel ⟨s.vfs, { hp with mem := m }⟩ [q, f.base] "entry outside image"
        else .ok (⟨s.vfs, { hp with mem := m }⟩, .entered (fileWord file 24 - lo)) := by
  obtain ⟨himg, hd, hh1, -⟩ := hplaced
  have hlen52 := (headerError_none hh hhead).1
  obtain ⟨m1, hzero, hs1, hb1⟩ := memZero_ok (m := hp.mem) himg (hi - lo).toNat 0
    (Nat.le_of_eq (Nat.zero_add _))
  have hh2 := hh1.frame hs1 hd
  rcases copyLoop_cases himg hh2 hlen52 hd ((headerError_none hh hhead).2 hwrap) lo 0 with
    ⟨m2, hcopy, hs2, -, hb2⟩ | ⟨e, -, -, hnot⟩
  swap
  · exact absurd hall hnot
  have hentry : loadWord m2 f 24 = .ok (fileWord file 24) :=
    loadWord_ok (hh2.frame hs2 hd) (show (24 : UInt32).toNat + 4 ≤ file.length by simp; omega)
  refine ⟨m2, hs1.trans hs2, ?_, ?_⟩
  · intro k hk
    have hzeroed : ∀ j, j < (hi - lo).toNat → bufByte m1 ⟨q, hi - lo⟩ j = 0 := by
      intro j hj
      rw [hb1 j hj, if_pos ⟨Nat.zero_le j, by omega⟩]
    rw [hb2 k hk, foldl_copied_congr hzeroed hk]
    rfl
  · simp only [execLoaded, hv, hk, orSpent, bind, Except.bind, if_neg hq0, hzero, hcopy, hentry]
    by_cases hout : fileWord file 24 < lo ∨ fileWord file 24 ≥ hi
    · rw [if_pos hout, if_pos hout]
    · rw [if_neg hout, if_neg hout]
      have hin : fileWord file 24 - lo < hi - lo := by
        have h1 := UInt32.not_lt.mp (fun hc => hout (Or.inl hc))
        have h2 := UInt32.lt_iff_toNat_lt.mp (UInt32.not_le.mp (fun hc => hout (Or.inr hc)))
        have h3 := UInt32.le_iff_toNat_le.mp h1
        rw [UInt32.lt_iff_toNat_lt, UInt32.toNat_sub_of_le _ _ (UInt32.le_of_lt hlt),
          UInt32.toNat_sub_of_le _ _ h1]
        omega
      exact if_pos hin

/-- What `exec_run_elf` holds at the end: nothing after an error, and its two
buffers when it enters the program. -/
def ExecHeld (start size : UInt32) (live : List (UInt32 × UInt32)) (rs : List Region)
    (file image : UInt32) (hp : Heap) : ExecEnd → Prop
  | .failed _ => Rowed start size ⟨hp, live⟩ rs
  | .entered _ => ∃ rs₁ rs₂ n w, Allotted start rs rs₁ file ∧ Merged rs₁ ∧
    Allotted start rs₁ rs₂ image ∧ Rowed start size ⟨hp, (image, w) :: (file, n) :: live⟩ rs₂

/-- A loaded file is run, or refused, or read or written outside its buffers; the
last exactly if it is not safe. -/
theorem execLoaded_cases (hlow : start.toNat + size.toNat < 4294967296)
    (hsize : size.toNat ≤ 1048576) (hm : Merged rs)
    (h : FileRead start size live rs s0 session path s f file) :
    LoadSafe (HasRoom fuel s.heap) file ∧ (∃ hp t, execLoaded fuel s f = .ok (⟨s.vfs, hp⟩, t) ∧
      ExecHeld start size live rs f.base (imageOf fuel s f) hp t) ∨
    ¬ LoadSafe (HasRoom fuel s.heap) file ∧ ∃ e, execLoaded fuel s f = .error e ∧ e.Outside := by
  obtain ⟨rs₁, n, ha, hm₁, hrow, hn⟩ := h.rowed
  obtain ⟨hp₀, hfree, hback⟩ := hrow.released hm ha hfuel
  have hgiven : ∀ msg, ∃ hp t, execFail fuel s [f.base] msg = .ok (⟨s.vfs, hp⟩, t) ∧
      ExecHeld start size live rs f.base (imageOf fuel s f) hp t :=
    fun msg => ⟨hp₀, _, execFail_freed (by simpa using hfree) msg, hback⟩
  have hh := h.holds
  have hlen := hh.length
  have hshort := h.short
  cases hhead : headerError file with
  | some msg =>
    refine Or.inl ⟨fun hc => ?_, ?_⟩
    · rw [hhead] at hc
      cases hc
    · rw [execLoaded, validate_refused hh hhead]
      exact hgiven msg
  | none =>
  by_cases hwrap : (phoffOf file).toNat + 32 * phnumOf file < 4294967296
  swap
  · refine Or.inr ⟨fun hc => hwrap (hc hhead).1, .file (phoffOf file), ?_, trivial⟩
    rw [execLoaded, validate_outside hh hhead (by omega) (by omega)]
  rcases validate_cases hh hhead hwrap with ⟨msg, hv, hnone⟩ | ⟨lo, hi, hv, hacc⟩
  · refine Or.inl ⟨fun _ => ⟨hwrap, fun lo hi ha => ?_⟩, ?_⟩
    · rw [hnone] at ha
      cases ha
    · rw [execLoaded, hv]
      exact hgiven msg
  obtain ⟨hlt, himage, -⟩ := acceptedRange_some hacc
  obtain ⟨⟨hp, q⟩, hk⟩ := kmalloc_returns hrow (n := hi - lo) (Or.inr hlow) hfuel
  dsimp only at hk
  have hsafe : LoadSafe (HasRoom fuel s.heap) file ↔ (q ≠ 0 → ∀ g ∈ segments file,
      FitsImage file ⟨q, hi - lo⟩ lo g) := by
    rw [fitsImage_iff hh hacc]
    constructor
    · intro hc hq
      exact (hc hhead).2 lo hi hacc ⟨hp, q, hk, hq⟩
    · rintro hc -
      refine ⟨hwrap, fun lo' hi' ha hroom => ?_⟩
      rw [hacc] at ha
      cases ha
      obtain ⟨hp', q', hk', hq'⟩ := hroom
      rw [hk] at hk'
      cases hk'
      exact hc hq'
  rw [hsafe]
  have himage' : imageOf fuel s f = q := by simp only [imageOf, hv, hk]
  by_cases hq0 : q = 0
  · rcases kmalloc_cases hrow (Or.inr hlow) hk with ⟨-, rfl, -⟩ | ⟨-, o, -, -, -, -, -, hq, -, -, -⟩
    · refine Or.inl ⟨fun hc => absurd hq0 hc, ?_⟩
      simp only [execLoaded, hv, hk, orSpent, bind, Except.bind, if_pos hq0]
      exact hgiven "out of memory"
    · rw [hq0, UInt32.toNat_zero] at hq
      omega
  have hplaced := kmalloc_placed hlow hh hrow hn himage hk hq0
  by_cases hall : ∀ g ∈ segments file, FitsImage file ⟨q, hi - lo⟩ lo g
  · refine Or.inl ⟨fun _ => hall, ?_⟩
    obtain ⟨m, hs, -, hload⟩ := execLoaded_image hh hhead hwrap hv hlt hk hq0 hplaced hall
    obtain ⟨-, -, -, rs₂, ha', hrow'⟩ := hplaced
    have hkept := hrow'.payload (l := (q, hi - lo)) List.mem_cons_self hs (Nat.le_refl _)
      (Nat.le_refl _)
    rw [hload, himage']
    split
    · obtain ⟨hp', hfreed, hback'⟩ := hkept.released_both hfuel hm hm₁ ha ha'
      exact ⟨hp', _, execFail_freed hfreed _, hback'⟩
    · exact ⟨_, _, rfl, rs₁, rs₂, n, hi - lo, ha, hm₁, ha', hkept⟩
  · refine Or.inr ⟨fun hc => hall (hc hq0), ?_⟩
    obtain ⟨himg, hd, hh1, -⟩ := hplaced
    obtain ⟨m1, hzero, hs1, -⟩ := memZero_ok (m := hp.mem) himg (hi - lo).toNat 0
      (Nat.le_of_eq (Nat.zero_add _))
    rcases copyLoop_cases himg (hh1.frame hs1 hd) (headerError_none hh hhead).1 hd
      ((headerError_none hh hhead).2 hwrap) lo 0 with ⟨-, -, -, hfit, -⟩ | ⟨e, hcopy, ho, -⟩
    · exact absurd hfit hall
    · refine ⟨e, ?_, ho⟩
      simp only [execLoaded, hv, hk, orSpent, bind, Except.bind, if_neg hq0, hzero, hcopy]

end Run

/-- The file that `exec_run_elf` loads, and the machine once it is read. -/
def Reads (fuel : Nat) (s : Machine) (session : Int) (path : List UInt8) (s' : Machine)
    (file : List UInt8) : Prop :=
  path.headD 0 ≠ 0 ∧ (∃ f, readFileAll fuel s session path = .ok (s', some f)) ∧
    ∃ n, sfsResolve s.vfs.fs path (s.vfs.cwd session) = .ok (some (slotId n)) ∧
      (s.vfs.fs.entries n).IsFile ∧ file = content s.vfs.fs.entries s.vfs.fs.dev.sectors n

/-- The file is the one that was read. -/
theorem FileRead.unique (h : FileRead start size live rs s session path s' f file)
    (hr : Reads fuel s session path s'' file') : file' = file := by
  obtain ⟨n, hres, -, rfl⟩ := h.named
  obtain ⟨-, -, n', hres', -, rfl⟩ := hr
  rw [hres] at hres'
  have hslot : slotId n = slotId n' := Option.some.inj (Except.ok.inj hres')
  have hnn : n = n' := by
    apply Fin.ext
    rw [← slotId_toNat, hslot, slotId_toNat]
  rw [hnn]

/-- The kernel's heap is a row of regions after any use of it, no two free ones
side by side. -/
theorem heapRun_rowed (hheap : Run heapStep ⟨heapInit m heapStart heapSize, []⟩ calls a) :
    ∃ rs, Rowed heapStart heapSize a rs ∧ Merged rs := by
  obtain ⟨rs, h⟩ : ∃ rs, Tidy heapStart heapSize a rs := by
    refine hheap.invariant (P := fun s => ∃ rs, Tidy heapStart heapSize s rs) ?_
      ⟨_, heapInit_tidy m (by decide) (by decide) (by decide) (by decide)⟩
    rintro t c t' ⟨rs, ht⟩ hc
    exact heapStep_tidy ht hc
  exact ⟨rs, h.toRowed, h.merged⟩

/-- With the heap as the kernel sets it up, after any use of it, `exec_run_elf`
returns or calls the program, and touches nothing outside its buffers exactly if
the file it reads is safe to load. -/
theorem elf_loader_safe_iff (m : Mem) (calls : List HeapCall) (s : Machine)
    (live : List (UInt32 × UInt32))
    (hheap : Run heapStep ⟨heapInit m heapStart heapSize, []⟩ calls ⟨s.heap, live⟩)
    (fuel : Nat) (hfuel : heapSize.toNat + 2 ≤ fuel) (session : Int) (path : List UInt8) :
    ((∀ e, execRunElf fuel s session path = .error e → ¬ e.Outside) ↔
      ∀ s' file, Reads fuel s session path s' file → LoadSafe (HasRoom fuel s'.heap) file) ∧
    (Roundable s session path → execRunElf fuel s session path ≠ .error .spent) := by
  obtain ⟨rs, h, hm⟩ := heapRun_rowed hheap
  by_cases hpath : path.headD 0 = 0
  · have hrun : execRunElf fuel s session path = .ok (⟨s.vfs, s.heap⟩, .failed "missing path") := by
      rw [execRunElf, if_pos hpath]
      rfl
    rw [hrun]
    exact ⟨⟨fun _ s' file hr => absurd hpath hr.1, fun _ e he => nomatch he⟩, nofun⟩
  have hfuel' : heapSize.toNat < fuel := by omega
  rcases readFileAll_cases h hm (by decide) hfuel session path with
    ⟨e, hread⟩ | ⟨s', hread, -⟩ | ⟨hwraps, hread⟩ | ⟨s', f, file, hread, hfile⟩
  · have hrun : execRunElf fuel s session path = .error (.fault e) := by
      simp only [execRunElf, if_neg hpath, hread, bind, Except.bind]
    rw [hrun]
    refine ⟨⟨fun _ s' file hr => ?_, ?_⟩, nofun⟩
    · obtain ⟨-, ⟨f, hf⟩, -⟩ := hr
      rw [hread] at hf
      cases hf
    · rintro - e' he'
      cases he'
      exact id
  · have hrun : execRunElf fuel s session path =
        .ok (⟨s'.vfs, s'.heap⟩, .failed "unable to read file") := by
      simp only [execRunElf, if_neg hpath, hread, bind, Except.bind]
      rfl
    rw [hrun]
    refine ⟨⟨fun _ s'' file hr => ?_, fun _ e he => nomatch he⟩, nofun⟩
    obtain ⟨-, ⟨f, hf⟩, -⟩ := hr
    rw [hread] at hf
    cases hf
  · have hrun : execRunElf fuel s session path = .error .spent := by
      simp only [execRunElf, if_neg hpath, hread, bind, Except.bind]
    rw [hrun]
    refine ⟨⟨fun _ s' file hr => ?_, ?_⟩, fun hround => absurd hround hwraps⟩
    · obtain ⟨-, ⟨f, hf⟩, -⟩ := hr
      rw [hread] at hf
      cases hf
    · rintro - e' he'
      cases he'
      exact id
  · have hrun : execRunElf fuel s session path = execLoaded fuel s' f := by
      simp only [execRunElf, if_neg hpath, hread, bind, Except.bind]
    have hreads : (∀ s'' file', Reads fuel s session path s'' file' →
        LoadSafe (HasRoom fuel s''.heap) file') ↔ LoadSafe (HasRoom fuel s'.heap) file := by
      obtain ⟨n, hres, hf, hcontent⟩ := hfile.named
      constructor
      · exact fun hall => hall s' file ⟨hpath, ⟨f, hread⟩, n, hres, hf, hcontent⟩
      · intro hsafe s'' file' hr
        rw [hfile.unique hr]
        obtain ⟨-, ⟨f', hread'⟩, -⟩ := hr
        rw [hread] at hread'
        cases hread'
        exact hsafe
    rw [hrun, hreads]
    rcases execLoaded_cases hfuel' (by decide) (by decide) hm hfile with
      ⟨hsafe, hp, t, hx, -⟩ | ⟨hnot, e, he, ho⟩
    · rw [hx]
      exact ⟨⟨fun _ => hsafe, fun _ e he => nomatch he⟩, nofun⟩
    · rw [he]
      refine ⟨⟨fun hall => absurd ho (hall e rfl), fun hc => absurd hc hnot⟩, ?_⟩
      rintro - hsp
      cases hsp
      exact ho

/-- An executable with one program header, behind its ELF header. -/
def elfWithSegment (entry offset vaddr filesz memsz : UInt32) (rest : List UInt8) : List UInt8 :=
  let word := fun w => (List.range 4).map (Words.byteOf w)
  word elfMagic ++ [1, 1, 1, 0, 0, 0, 0, 0, 0, 0, 0, 0, 2, 0, 3, 0] ++ word 1 ++ word entry ++
    word 52 ++ word 0 ++ word 0 ++ [52, 0, 32, 0, 1, 0, 0, 0, 0, 0, 0, 0] ++
    word elfPtLoad ++ word offset ++ word vaddr ++ word 0 ++ word filesz ++ word memsz ++ word 7 ++
    word 0 ++ rest

/-- A machine whose volume holds a file under the name `a`, its heap unused. -/
def machineWith (file : List UInt8) : Machine :=
  let root := { Entry.zero with used := 1, type := sfsTypeDir, perm := 7 }
  let entry := { Entry.zero with
    used := 1, type := sfsTypeFile, perm := 3, startLba := 137
    size := UInt32.ofNat file.length, capacitySectors := 1, name := sCopy Entry.zero.name [97] }
  let es := Function.update (Function.update (fun _ => Entry.zero) 1 entry) 0 root
  let dev := { blankDrive with sectors := fun l i => if l = 137 then file.getD i 0 else 0 }
  ⟨⟨⟨{ Superblock.zero with nextFreeLba := 138 }, es, dev⟩, fun _ => ⟨0, 0, 0, 0⟩,
    fun _ => ⟨0, [], fun _ => 0, fun _ _ => 0, fun _ _ => 0⟩⟩,
    heapInit (fun _ => 0) heapStart heapSize⟩

theorem elf_loader_safe_iff_run :
    let s := machineWith (elfWithSegment 0x1000 84 0x1000 4 8 [0xC3, 0, 0, 0])
    (execRunElf 1048578 s 0 [97]).map Prod.snd = .ok (.entered 0) ∧
    ∀ s' file, Reads 1048578 s 0 [97] s' file → LoadSafe (HasRoom 1048578 s'.heap) file := by
  have heval : (execRunElf 1048578
      (machineWith (elfWithSegment 0x1000 84 0x1000 4 8 [0xC3, 0, 0, 0])) 0 [97]).map Prod.snd =
      .ok (.entered 0) := by decide +kernel
  refine ⟨heval, (elf_loader_safe_iff (fun _ => 0) [] _ [] (.nil _) 1048578 (by decide) 0
    [97]).1.mp ?_⟩
  intro e he
  rw [he] at heval
  cases heval

/-- A segment whose `offset + filesz` wraps around to a value inside the file. -/
theorem elf_loader_reads_outside :
    (execRunElf 1048578 (machineWith (elfWithSegment 0x1000 0xFFFFFFF0 0x1000 32 32 [])) 0
      [97]).map Prod.snd = .error (.file 0xFFFFFFF0) ∧
    ExecStop.Outside (.file 0xFFFFFFF0) :=
  ⟨by decide +kernel, trivial⟩

end VertexOS
