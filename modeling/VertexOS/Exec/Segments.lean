import VertexOS.Exec.ReadFile

namespace VertexOS
open Library.Memory Library.Words

def fileWord (file : List UInt8) (k : Nat) : UInt32 :=
  wordOf (file.getD k 0) (file.getD (k + 1) 0) (file.getD (k + 2) 0) (file.getD (k + 3) 0)

def fileHalf (file : List UInt8) (k : Nat) : UInt16 := halfOf (file.getD k 0) (file.getD (k + 1) 0)

/-- The fields of a program header that the loader reads. -/
structure Segment where
  type : UInt32
  offset : UInt32
  vaddr : UInt32
  filesz : UInt32
  memsz : UInt32
  deriving DecidableEq, Repr

def Segment.loads (g : Segment) : Bool := g.type = elfPtLoad ∧ g.memsz ≠ 0

def phoffOf (file : List UInt8) : UInt32 := fileWord file 28
def phnumOf (file : List UInt8) : Nat := (fileHalf file 44).toNat

def segmentAt (file : List UInt8) (i : Nat) : Segment :=
  let k := (phoffOf file).toNat + 32 * i
  ⟨fileWord file k, fileWord file (k + 4), fileWord file (k + 8), fileWord file (k + 16),
    fileWord file (k + 20)⟩

/-- The loadable segments from entry `i` of the table on. -/
def segmentsFrom (file : List UInt8) (i : Nat) : List Segment :=
  ((List.range' i (phnumOf file - i)).map (segmentAt file)).filter Segment.loads

def segments (file : List UInt8) : List Segment := segmentsFrom file 0

/-- Why the header checks refuse a file. -/
def headerError (file : List UInt8) : Option String :=
  if file.length < 52 then some "file too small"
  else if fileWord file 0 ≠ elfMagic then some "not an ELF file"
  else if file.getD 4 0 ≠ elfClass32 ∨ file.getD 5 0 ≠ elfDataLsb ∨
      file.getD 6 0 ≠ elfVersionCurrent then some "unsupported ELF class/data/version"
  else if fileHalf file 16 ≠ elfTypeExec ∨ fileHalf file 18 ≠ elfMachine386 then
    some "unsupported ELF type or machine"
  else if (fileHalf file 42).toUInt32 ≠ phdrBytes ∨
      phoffOf file + (fileHalf file 44).toUInt32 * phdrBytes > UInt32.ofNat file.length then
    some "invalid program header table"
  else none

/-- The first loop over the segments, on the segments themselves. -/
def boundsOf (size : UInt32) : List Segment → UInt32 → UInt32 → Except ExecStop (UInt32 × UInt32)
  | [], lo, hi => .ok (lo, hi)
  | g :: gs, lo, hi =>
    if g.offset + g.filesz > size ∨ g.filesz > g.memsz then
      .error (.refused "invalid load segment")
    else boundsOf size gs (if g.vaddr < lo then g.vaddr else lo)
      (if g.vaddr + g.memsz > hi then g.vaddr + g.memsz else hi)

theorem boundsOf_ok (h : boundsOf size gs lo hi = .ok (lo', hi')) : lo' ≤ lo ∧ hi ≤ hi' ∧
    ∀ g ∈ gs, g.offset + g.filesz ≤ size ∧ lo' ≤ g.vaddr ∧ g.filesz ≤ g.memsz ∧
      g.vaddr + g.memsz ≤ hi' := by
  induction gs generalizing lo hi with
  | nil =>
    cases h
    exact ⟨UInt32.le_refl _, UInt32.le_refl _, by simp⟩
  | cons g gs ih =>
    rw [boundsOf] at h
    split at h
    · cases h
    · rename_i hc
      obtain ⟨hlo, hhi, hall⟩ := ih h
      have hlo' : lo' ≤ lo ∧ lo' ≤ g.vaddr := by
        split at hlo
        · rename_i hlt
          exact ⟨UInt32.le_trans hlo (UInt32.le_of_lt hlt), hlo⟩
        · rename_i hge
          exact ⟨hlo, UInt32.le_trans hlo (UInt32.not_lt.mp hge)⟩
      have hhi' : hi ≤ hi' ∧ g.vaddr + g.memsz ≤ hi' := by
        split at hhi
        · rename_i hgt
          exact ⟨UInt32.le_trans (UInt32.le_of_lt hgt) hhi, hhi⟩
        · rename_i hle
          exact ⟨hhi, UInt32.le_trans (UInt32.not_lt.mp hle) hhi⟩
      refine ⟨hlo'.1, hhi'.1, ?_⟩
      intro g' hg'
      rcases List.mem_cons.mp hg' with rfl | hg'
      · exact ⟨UInt32.not_lt.mp (fun hlt => hc (Or.inl hlt)), hlo'.2,
          UInt32.not_lt.mp (fun hlt => hc (Or.inr hlt)), hhi'.2⟩
      · exact hall g' hg'

theorem boundsOf_refused (h : boundsOf size gs lo hi = .error e) :
    ∃ msg, e = .refused msg := by
  induction gs generalizing lo hi with
  | nil => cases h
  | cons g gs ih =>
    rw [boundsOf] at h
    split at h
    · cases h
      exact ⟨_, rfl⟩
    · exact ih h

theorem segmentsFrom_done (h : phnumOf file ≤ i) : segmentsFrom file i = [] := by
  rw [segmentsFrom, Nat.sub_eq_zero_of_le h]
  rfl

theorem segmentsFrom_step (h : i < phnumOf file) : segmentsFrom file i =
    if (segmentAt file i).loads then segmentAt file i :: segmentsFrom file (i + 1)
    else segmentsFrom file (i + 1) := by
  have hn : phnumOf file - i = (phnumOf file - (i + 1)) + 1 := by omega
  rw [segmentsFrom, hn, List.range'_succ, List.map_cons, List.filter_cons]
  rfl

section Held

variable {m : Mem} {f : Buffer} {file : List UInt8} (h : Holds m f file)

include h

/-- A checked read of the buffer is a read of the file. -/
theorem loadByte_eq (off : UInt32) : loadByte m f off =
    if off.toNat < file.length then .ok (file.getD off.toNat 0) else .error (.file off) := by
  rw [loadByte, h.length]
  by_cases hlt : off.toNat < f.size.toNat
  · rw [if_pos (UInt32.lt_iff_toNat_lt.mpr hlt), if_pos hlt, ← h.bytes _ (h.length ▸ hlt),
      UInt32.ofNat_toNat]
  · rw [if_neg (fun hc => hlt (UInt32.lt_iff_toNat_lt.mp hc)), if_neg hlt]

theorem loadByte_ok (hoff : off.toNat < file.length) :
    loadByte m f off = .ok (file.getD off.toNat 0) := by
  rw [loadByte_eq h, if_pos hoff]

theorem length_small : file.length < 4294967296 := by
  rw [h.length]
  exact f.size.toNat_lt

theorem loadHalf_ok (hoff : off.toNat + 2 ≤ file.length) :
    loadHalf m f off = .ok (fileHalf file off.toNat) := by
  have hsmall := length_small h
  have h1 : (off + 1).toNat = off.toNat + 1 := toNat_add_small off 1 (by omega)
  have b0 := loadByte_ok h (show off.toNat < file.length by omega)
  have b1 := loadByte_ok h (show (off + 1).toNat < file.length by omega)
  simp only [loadHalf, b0, b1, h1, fileHalf, bind, Except.bind]

theorem loadWord_ok (hoff : off.toNat + 4 ≤ file.length) :
    loadWord m f off = .ok (fileWord file off.toNat) := by
  have hsmall := length_small h
  have h1 : (off + 1).toNat = off.toNat + 1 := toNat_add_small off 1 (by omega)
  have h2 : (off + 2).toNat = off.toNat + 2 := toNat_add_small off 2 (by omega)
  have h3 : (off + 3).toNat = off.toNat + 3 := toNat_add_small off 3 (by omega)
  have b0 := loadByte_ok h (show off.toNat < file.length by omega)
  have b1 := loadByte_ok h (show (off + 1).toNat < file.length by omega)
  have b2 := loadByte_ok h (show (off + 2).toNat < file.length by omega)
  have b3 := loadByte_ok h (show (off + 3).toNat < file.length by omega)
  simp only [loadWord, b0, b1, b2, b3, h1, h2, h3, fileWord, bind, Except.bind]

/-- A word that begins outside the file. -/
theorem loadWord_outside (hoff : file.length ≤ off.toNat) :
    loadWord m f off = .error (.file off) := by
  have b0 := loadByte_eq h off
  rw [if_neg (by omega)] at b0
  simp only [loadWord, b0, bind, Except.bind]

theorem size_eq : UInt32.ofNat file.length = f.size := by
  rw [h.length]
  exact UInt32.ofNat_toNat

theorem checkHeader_eq : checkHeader m f =
    match headerError file with
    | some msg => .error (.refused msg)
    | none => .ok () := by
  unfold checkHeader headerError
  have hsize : f.size < ehdrBytes ↔ file.length < 52 := by
    rw [UInt32.lt_iff_toNat_lt, ← h.length]
    rfl
  by_cases hlen : file.length < 52
  · rw [if_pos (hsize.mpr hlen), if_pos hlen]
  rw [if_neg (fun hc => hlen (hsize.mp hc)), if_neg hlen]
  have w0 : loadWord m f 0 = .ok (fileWord file 0) := loadWord_ok h (show (0 : UInt32).toNat + 4 ≤ file.length by simp; omega)
  have c4 : loadByte m f 4 = .ok (file.getD 4 0) := loadByte_ok h (show (4 : UInt32).toNat < file.length by simp; omega)
  have c5 : loadByte m f 5 = .ok (file.getD 5 0) := loadByte_ok h (show (5 : UInt32).toNat < file.length by simp; omega)
  have c6 : loadByte m f 6 = .ok (file.getD 6 0) := loadByte_ok h (show (6 : UInt32).toNat < file.length by simp; omega)
  have h16 : loadHalf m f 16 = .ok (fileHalf file 16) := loadHalf_ok h (show (16 : UInt32).toNat + 2 ≤ file.length by simp; omega)
  have h18 : loadHalf m f 18 = .ok (fileHalf file 18) := loadHalf_ok h (show (18 : UInt32).toNat + 2 ≤ file.length by simp; omega)
  have h42 : loadHalf m f 42 = .ok (fileHalf file 42) := loadHalf_ok h (show (42 : UInt32).toNat + 2 ≤ file.length by simp; omega)
  have w28 : loadWord m f 28 = .ok (phoffOf file) := loadWord_ok h (show (28 : UInt32).toNat + 4 ≤ file.length by simp; omega)
  have h44 : loadHalf m f 44 = .ok (fileHalf file 44) := loadHalf_ok h (show (44 : UInt32).toNat + 2 ≤ file.length by simp; omega)
  simp only [w0, c4, c5, c6, h16, h18, h42, w28, h44, bind, Except.bind, size_eq h]
  split_ifs <;> rfl

end Held

end VertexOS
