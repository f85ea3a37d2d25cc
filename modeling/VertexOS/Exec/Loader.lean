import VertexOS.Exec.Segments

namespace VertexOS
open Library.Memory Library.Words Library.FreeList Library.Transitions

section Table

variable {m : Mem} {f : Buffer} {file : List UInt8} (h : Holds m f file)
  (hlen : 52 ≤ file.length)

include h hlen

theorem loadPhnum : loadHalf m f 44 = .ok (fileHalf file 44) :=
  loadHalf_ok h (show (44 : UInt32).toNat + 2 ≤ file.length by simp; omega)

theorem loadPhoff : loadWord m f 28 = .ok (phoffOf file) :=
  loadWord_ok h (show (28 : UInt32).toNat + 4 ≤ file.length by simp; omega)

omit hlen

theorem isLoad_ok (hph : ph.toNat = (phoffOf file).toNat + 32 * i)
    (hfit : (phoffOf file).toNat + 32 * i + 32 ≤ file.length) :
    isLoad m f ph = .ok (segmentAt file i).loads := by
  have hsmall := length_small h
  have h20 : (ph + 20).toNat = ph.toNat + 20 := toNat_add_small ph 20 (by omega)
  have w0 := loadWord_ok h (show ph.toNat + 4 ≤ file.length by omega)
  have w20 := loadWord_ok h (show (ph + 20).toNat + 4 ≤ file.length by omega)
  rw [hph] at w0
  rw [h20, hph] at w20
  simp only [isLoad, w0, w20, bind, Except.bind, Segment.loads, segmentAt]
  split_ifs with ht <;> simp_all

/-- The other fields of a program header inside the file. -/
theorem phdrFields (hph : ph.toNat = (phoffOf file).toNat + 32 * i)
    (hfit : (phoffOf file).toNat + 32 * i + 32 ≤ file.length) :
    loadWord m f (ph + 4) = .ok (segmentAt file i).offset ∧
      loadWord m f (ph + 8) = .ok (segmentAt file i).vaddr ∧
      loadWord m f (ph + 16) = .ok (segmentAt file i).filesz ∧
      loadWord m f (ph + 20) = .ok (segmentAt file i).memsz := by
  have hsmall := length_small h
  have h4 : (ph + 4).toNat = ph.toNat + 4 := toNat_add_small ph 4 (by omega)
  have h8 : (ph + 8).toNat = ph.toNat + 8 := toNat_add_small ph 8 (by omega)
  have h16 : (ph + 16).toNat = ph.toNat + 16 := toNat_add_small ph 16 (by omega)
  have h20 : (ph + 20).toNat = ph.toNat + 20 := toNat_add_small ph 20 (by omega)
  refine ⟨?_, ?_, ?_, ?_⟩
  · rw [loadWord_ok h (by omega), h4, hph]
    rfl
  · rw [loadWord_ok h (by omega), h8, hph]
    rfl
  · rw [loadWord_ok h (by omega), h16, hph]
    rfl
  · rw [loadWord_ok h (by omega), h20, hph]
    rfl

/-- Where the header of segment `i` stands. -/
theorem phdrOffset (hfit : (phoffOf file).toNat + 32 * phnumOf file ≤ file.length)
    (hlt : i < phnumOf file) : (phoffOf file + UInt32.ofNat i * phdrBytes).toNat =
      (phoffOf file).toNat + 32 * i := by
  have hsmall := length_small h
  rw [UInt32.toNat_add, UInt32.toNat_mul, UInt32.toNat_ofNat', show phdrBytes.toNat = 32 from rfl]
  omega

include hlen

/-- Inside the file the first loop sees the segments one after the other. -/
theorem boundsLoop_eq (hfit : (phoffOf file).toNat + 32 * phnumOf file ≤ file.length)
    (i : Nat) (lo hi : UInt32) :
    boundsLoop m f i lo hi = boundsOf f.size (segmentsFrom file i) lo hi := by
  induction hk : phnumOf file - i generalizing i lo hi with
  | zero =>
    have hdone : ¬ i < phnumOf file := by omega
    rw [segmentsFrom_done (by omega), boundsLoop, loadPhnum h hlen]
    exact dif_neg hdone
  | succ k ih =>
    have hlt : i < phnumOf file := by omega
    have hph := phdrOffset h hfit hlt
    have hload := isLoad_ok h hph (by omega)
    rw [boundsLoop, segmentsFrom_step hlt, loadPhnum h hlen]
    simp only [bind, Except.bind]
    rw [dif_pos (show i < (fileHalf file 44).toNat from hlt), loadPhoff h hlen]
    simp only [hload]
    generalize phoffOf file + UInt32.ofNat i * phdrBytes = ph at hph hload ⊢
    by_cases hl : (segmentAt file i).loads = true
    · obtain ⟨w4, w8, w16, w20⟩ := phdrFields h hph (by omega)
      rw [if_pos hl, if_pos hl, boundsOf]
      simp only [w4, w8, w16, w20]
      split
      · rfl
      · exact ih (i + 1) _ _ (by omega)
    · rw [if_neg hl, if_neg hl]
      exact ih (i + 1) _ _ (by omega)

/-- A header table that wraps around is read outside the file at its first entry. -/
theorem boundsLoop_outside (hwrap : 4294967296 ≤ (phoffOf file).toNat + 32 * phnumOf file)
    (hsmall : file.length ≤ 1048576) (lo hi : UInt32) :
    boundsLoop m f 0 lo hi = .error (.file (phoffOf file)) := by
  have hnum : phnumOf file < 65536 := (fileHalf file 44).toNat_lt
  have hoff := (phoffOf file).toNat_lt
  have hlt : 0 < (fileHalf file 44).toNat := by
    change 0 < phnumOf file
    omega
  have hbad : loadWord m f (phoffOf file) = .error (.file (phoffOf file)) :=
    loadWord_outside h (by omega)
  have hzero : phoffOf file + UInt32.ofNat 0 * phdrBytes = phoffOf file := by
    rw [show UInt32.ofNat 0 = 0 from rfl, UInt32.zero_mul, UInt32.add_zero]
  rw [boundsLoop, loadPhnum h hlen]
  simp only [bind, Except.bind]
  rw [dif_pos hlt, loadPhoff h hlen]
  simp only [hzero, isLoad, hbad, bind, Except.bind]

end Table

/-- Byte `k` of a buffer. -/
def bufByte (m : Mem) (b : Buffer) (k : Nat) : UInt8 := m (b.base + UInt32.ofNat k)

/-- Bytes `dst` up to `dst + n` of an image replaced by those of the file from `src` on. -/
def pasted (file : List UInt8) (dst src n : Nat) (bytes : Nat → UInt8) : Nat → UInt8 := fun k =>
  if dst ≤ k ∧ k < dst + n then file.getD (src + (k - dst)) 0 else bytes k

/-- A segment copied into the image. -/
def copied (file : List UInt8) (lo : UInt32) (bytes : Nat → UInt8) (g : Segment) : Nat → UInt8 :=
  pasted file (g.vaddr - lo).toNat g.offset.toNat g.filesz.toNat bytes

section Image

variable {m : Mem} {img : Buffer} (himg : img.base.toNat + img.size.toNat ≤ 4294967296)

include himg

theorem storeByte_ok (hoff : off.toNat < img.size.toNat) (b : UInt8) :
    ∃ m', storeByte m img off b = .ok m' ∧
      SameOutside img.base.toNat (img.base.toNat + img.size.toNat) m m' ∧
      ∀ j, j < img.size.toNat →
        bufByte m' img j = if j = off.toNat then b else bufByte m img j := by
  have hadd : (img.base + off).toNat = img.base.toNat + off.toNat := by
    rw [UInt32.toNat_add]
    omega
  refine ⟨_, if_pos (UInt32.lt_iff_toNat_lt.mpr hoff), ?_, ?_⟩
  · exact (store8_outside m (img.base + off) b).mono (by omega) (by omega)
  · intro j hj
    have hadd' : (img.base + UInt32.ofNat j).toNat = img.base.toNat + j :=
      toNat_add_small img.base j (by omega)
    simp only [bufByte, store8, Function.update_apply]
    by_cases he : j = off.toNat
    · rw [if_pos he, if_pos (UInt32.toNat_inj.mp (by omega))]
    · rw [if_neg he, if_neg]
      intro hc
      have := congrArg UInt32.toNat hc
      omega

theorem memZero_ok (n k : Nat) (hn : k + n ≤ img.size.toNat) :
    ∃ m', memZero img m k n = .ok m' ∧
      SameOutside img.base.toNat (img.base.toNat + img.size.toNat) m m' ∧
      ∀ j, j < img.size.toNat →
        bufByte m' img j = if k ≤ j ∧ j < k + n then 0 else bufByte m img j := by
  have hlt := img.size.toNat_lt
  induction n generalizing m k with
  | zero =>
    refine ⟨m, rfl, SameOutside.refl _ _ _, fun j _ => ?_⟩
    rw [if_neg (by omega)]
  | succ n ih =>
    have hk : (UInt32.ofNat k).toNat = k := UInt32.toNat_ofNat_of_lt' (by change k < 4294967296; omega)
    obtain ⟨m1, hstore, hs1, hb1⟩ := storeByte_ok (m := m) himg
      (show (UInt32.ofNat k).toNat < img.size.toNat by omega) 0
    obtain ⟨m2, hrest, hs2, hb2⟩ := ih (m := m1) (k + 1) (by omega)
    refine ⟨m2, ?_, hs1.trans hs2, ?_⟩
    · rw [memZero, hstore]
      exact hrest
    · intro j hj
      rw [hb2 j hj, hb1 j hj, hk]
      by_cases he : j = k
      · rw [if_neg (by omega), if_pos he, if_pos (by omega)]
      · rw [if_neg he]
        by_cases hin : k + 1 ≤ j ∧ j < k + 1 + n
        · rw [if_pos hin, if_pos (by omega)]
        · rw [if_neg hin, if_neg (by omega)]

variable {f : Buffer} {file : List UInt8}

/-- A copy moves all its bytes inside the two buffers, or stops at the first
byte outside one of them. -/
theorem memCopy_cases (h : Holds m f file) (hd : f.base.toNat + f.size.toNat ≤ img.base.toNat ∨
      img.base.toNat + img.size.toNat ≤ f.base.toNat) (n k : Nat)
    (hsrc : src.toNat + k < 4294967296) (hdst : dst.toNat + k < 4294967296) :
    (∃ m', memCopy f img dst src m k n = .ok m' ∧
      SameOutside img.base.toNat (img.base.toNat + img.size.toNat) m m' ∧
      (n = 0 ∨ src.toNat + k + n ≤ file.length ∧ dst.toNat + k + n ≤ img.size.toNat) ∧
      ∀ j, j < img.size.toNat → bufByte m' img j =
        pasted file (dst.toNat + k) (src.toNat + k) n (bufByte m img) j) ∨
    ∃ e, memCopy f img dst src m k n = .error e ∧ e.Outside ∧
      ¬ (n = 0 ∨ src.toNat + k + n ≤ file.length ∧ dst.toNat + k + n ≤ img.size.toNat) := by
  have hsmall := length_small h
  have hlt := img.size.toNat_lt
  induction n generalizing m k with
  | zero =>
    refine Or.inl ⟨m, rfl, SameOutside.refl _ _ _, Or.inl rfl, fun j _ => ?_⟩
    rw [pasted, if_neg (by omega)]
  | succ n ih =>
    have hs : (src + UInt32.ofNat k).toNat = src.toNat + k := toNat_add_small src k hsrc
    have ht : (dst + UInt32.ofNat k).toNat = dst.toNat + k := toNat_add_small dst k hdst
    have hload := loadByte_eq h (src + UInt32.ofNat k)
    rw [hs] at hload
    rw [memCopy]
    by_cases hin : src.toNat + k < file.length
    · rw [if_pos hin] at hload
      rw [hload]
      simp only [bind, Except.bind]
      by_cases hout : dst.toNat + k < img.size.toNat
      · obtain ⟨m1, hstore, hs1, hb1⟩ := storeByte_ok (m := m) himg
          (show (dst + UInt32.ofNat k).toNat < img.size.toNat by omega)
          (file.getD (src.toNat + k) 0)
        rw [hstore]
        rcases ih (h.frame hs1 hd) (k + 1) (by omega) (by omega) with
          ⟨m2, hrest, hs2, hb, hb2⟩ | ⟨e, hrest, ho, hb⟩
        · refine Or.inl ⟨m2, hrest, hs1.trans hs2, Or.inr (by omega), ?_⟩
          intro j hj
          rw [hb2 j hj, pasted, pasted, hb1 j hj, ht]
          by_cases he : j = dst.toNat + k
          · rw [if_neg (by omega), if_pos he, if_pos (by omega), he, Nat.sub_self, Nat.add_zero]
          · rw [if_neg he]
            by_cases hj' : dst.toNat + (k + 1) ≤ j ∧ j < dst.toNat + (k + 1) + n
            · rw [if_pos hj', if_pos (by omega)]
              congr 1
              omega
            · rw [if_neg hj', if_neg (by omega)]
        · exact Or.inr ⟨e, hrest, ho, by omega⟩
      · have hstore : storeByte m img (dst + UInt32.ofNat k) (file.getD (src.toNat + k) 0) =
            .error (.image (dst + UInt32.ofNat k)) := by
          rw [storeByte, if_neg]
          rw [UInt32.lt_iff_toNat_lt, ht]
          exact hout
        rw [hstore]
        exact Or.inr ⟨_, rfl, trivial, by omega⟩
    · rw [if_neg hin] at hload
      rw [hload]
      exact Or.inr ⟨_, rfl, trivial, by omega⟩

omit himg in
/-- Inside the image the copies depend on its bytes only. -/
theorem foldl_copied_congr {gs : List Segment} {bytes bytes' : Nat → UInt8} {n : Nat}
    (h : ∀ j, j < n → bytes j = bytes' j) {j : Nat} (hj : j < n) :
    gs.foldl (copied file lo) bytes j = gs.foldl (copied file lo) bytes' j := by
  induction gs generalizing bytes bytes' with
  | nil => exact h j hj
  | cons g gs ih =>
    apply ih
    intro i hi
    simp only [copied, pasted, h i hi]

/-- The bytes of a segment lie in the file, and in the image from its address on. -/
def FitsImage (file : List UInt8) (img : Buffer) (lo : UInt32) (g : Segment) : Prop :=
  g.filesz.toNat = 0 ∨ g.offset.toNat + g.filesz.toNat ≤ file.length ∧
    (g.vaddr - lo).toNat + g.filesz.toNat ≤ img.size.toNat

/-- The second loop copies every segment, or stops in the first that does not fit. -/
theorem copyLoop_cases (h : Holds m f file) (hlen : 52 ≤ file.length)
    (hd : f.base.toNat + f.size.toNat ≤ img.base.toNat ∨
      img.base.toNat + img.size.toNat ≤ f.base.toNat)
    (hfit : (phoffOf file).toNat + 32 * phnumOf file ≤ file.length) (lo : UInt32) (i : Nat) :
    (∃ m', copyLoop f img lo m i = .ok m' ∧
      SameOutside img.base.toNat (img.base.toNat + img.size.toNat) m m' ∧
      (∀ g ∈ segmentsFrom file i, FitsImage file img lo g) ∧
      ∀ j, j < img.size.toNat →
        bufByte m' img j = (segmentsFrom file i).foldl (copied file lo) (bufByte m img) j) ∨
    ∃ e, copyLoop f img lo m i = .error e ∧ e.Outside ∧
      ¬ ∀ g ∈ segmentsFrom file i, FitsImage file img lo g := by
  induction hk : phnumOf file - i generalizing i m with
  | zero =>
    have hdone : ¬ i < phnumOf file := by omega
    rw [segmentsFrom_done (by omega), copyLoop, loadPhnum h hlen]
    exact Or.inl ⟨m, dif_neg hdone, SameOutside.refl _ _ _, by simp, fun _ _ => rfl⟩
  | succ k ih =>
    have hlt : i < phnumOf file := by omega
    have hph := phdrOffset h hfit hlt
    have hload := isLoad_ok h hph (by omega)
    rw [copyLoop, segmentsFrom_step hlt, loadPhnum h hlen]
    simp only [bind, Except.bind]
    rw [dif_pos (show i < (fileHalf file 44).toNat from hlt), loadPhoff h hlen]
    simp only [hload]
    generalize phoffOf file + UInt32.ofNat i * phdrBytes = ph at hph hload ⊢
    by_cases hl : (segmentAt file i).loads = true
    · obtain ⟨w4, w8, w16, -⟩ := phdrFields h hph (by omega)
      rw [if_pos hl, if_pos hl]
      simp only [w4, w8, w16]
      generalize segmentAt file i = g
      rcases memCopy_cases himg h hd g.filesz.toNat 0 (show g.offset.toNat + 0 < _ from
        g.offset.toNat_lt) (show (g.vaddr - lo).toNat + 0 < _ from (g.vaddr - lo).toNat_lt) with
        ⟨m1, hcopy, hs1, hb, hb1⟩ | ⟨e, hcopy, ho, hb⟩
      · rw [hcopy]
        rcases ih (h.frame hs1 hd) (i + 1) (by omega) with
          ⟨m2, hrest, hs2, hall, hb2⟩ | ⟨e, hrest, ho, hall⟩
        · refine Or.inl ⟨m2, hrest, hs1.trans hs2, List.forall_mem_cons.mpr ⟨hb, hall⟩, ?_⟩
          intro j hj
          rw [hb2 j hj, List.foldl_cons]
          exact foldl_copied_congr (fun j hj => hb1 j hj) hj
        · exact Or.inr ⟨e, hrest, ho, fun hc => hall (List.forall_mem_cons.mp hc).2⟩
      · rw [hcopy]
        exact Or.inr ⟨e, rfl, ho, fun hc => hb (List.forall_mem_cons.mp hc).1⟩
    · rw [if_neg hl, if_neg hl]
      exact ih h (i + 1) (by omega)

end Image

end VertexOS
