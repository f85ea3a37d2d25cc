import VertexOS.Fs.FileContents

namespace VertexOS

theorem cString_cons (a : UInt8) (as : List UInt8) :
    cString (a :: as) = if a = 0 then [] else a :: cString as := by
  by_cases ha : a = 0 <;> simp [cString, ha]

/-- `s_eq` of a terminated name with a string compares them as strings. -/
theorem sEq_eq (h0 : 0 ∈ as) (hn : 0 ∉ bs) : sEq as bs = .ok (decide (cString as = bs)) := by
  induction as generalizing bs with
  | nil => simp at h0
  | cons a as ih =>
    cases bs with
    | nil =>
      by_cases ha : a = 0 <;> simp [sEq, cString_cons, ha]
    | cons b bs =>
      have hb : b ≠ 0 := fun hb => hn (by simp [hb])
      by_cases ha : a = 0
      · simp [sEq, cString_cons, ha, hb.symm]
      · have h0' : 0 ∈ as := by
          rcases List.mem_cons.mp h0 with h | h
          · exact absurd h.symm ha
          · exact h
        by_cases hab : a = b
        · have hn' : 0 ∉ bs := fun h => hn (List.mem_cons_of_mem _ h)
          simp [sEq, cString_cons, hb, hab, ih h0' hn']
        · simp [sEq, cString_cons, ha, hb, hab]

/-- The string in a buffer that holds `str`, then a NUL. -/
theorem cString_eq (b : List UInt8) (str : List UInt8) (hs : str ++ [0] <+: b) (hn : 0 ∉ str) :
    cString b = str := by
  obtain ⟨rest, rfl⟩ := hs
  induction str with
  | nil => simp [cString]
  | cons c cs ih =>
    have hc : c ≠ 0 := fun hc => hn (by simp [hc])
    have := ih (fun h => hn (List.mem_cons_of_mem _ h))
    simp only [List.cons_append, cString_cons, hc, ↓reduceIte]
    rw [this]

/-- What `path_next` can produce: a nonempty name of at most 31 bytes without
NUL and without a separator. -/
structure ValidName (name : List UInt8) : Prop where
  nonempty : name ≠ []
  short : name.length ≤ sfsNameMax
  bytes : ∀ c ∈ name, c ≠ 0 ∧ c ≠ slash

theorem ValidName.no_nul (h : ValidName name) : 0 ∉ name := fun h0 => (h.bytes 0 h0).1 rfl

theorem pathNext_valid (h : pathNext path = some (name, rest)) : ValidName name :=
  let ⟨_, h1, h2, h3⟩ := pathNext_some h
  ⟨h1, h2, h3⟩

/-- What `s_copy` leaves in a buffer: as much of the string as fits, and its NUL. -/
theorem sCopy_starting (hn : 0 < n) (dst : Library.BlockStore.Block n) (src : List UInt8) :
    (cString src).take (n - 1) ++ [0] <+: List.ofFn (sCopy dst src) := by
  have hlen : ((cString src).take (n - 1)).length < n := by
    rw [List.length_take]
    omega
  rw [List.prefix_iff_eq_take]
  apply List.ext_getElem
  · simp only [List.length_append, List.length_singleton, List.length_take, List.length_ofFn] at hlen ⊢
    omega
  · intro i hi hi'
    rw [List.length_append, List.length_singleton] at hi
    rw [List.getElem_take, List.getElem_ofFn]
    simp only [sCopy]
    by_cases hlt : i < ((cString src).take (n - 1)).length
    · rw [dif_pos hlt, List.getElem_append_left hlt]
    · rw [dif_neg hlt, if_pos (by omega), List.getElem_append_right (by omega)]
      simp

theorem no_nul_cString (l : List UInt8) : 0 ∉ cString l := by
  intro h
  have := List.mem_takeWhile_imp h
  simp at this

theorem cString_sCopy (hn : 0 < n) (dst : Library.BlockStore.Block n) (src : List UInt8) :
    cString (List.ofFn (sCopy dst src)) = (cString src).take (n - 1) :=
  cString_eq _ _ (sCopy_starting hn dst src) fun h => no_nul_cString src (List.mem_of_mem_take h)

/-- A copied name is stored whole, with its NUL inside the field. -/
theorem sCopy_starts (dst : Library.BlockStore.Block 32) (h : ValidName name) :
    name ++ [0] <+: List.ofFn (sCopy dst name) := by
  have hself : cString name = name :=
    List.takeWhile_eq_self_iff.mpr fun c hc => by simpa using (h.bytes c hc).1
  have hstored := sCopy_starting (show 0 < 32 by omega) dst name
  have hshort : name.length ≤ 32 - 1 := h.short
  rwa [hself, List.take_of_length_le hshort] at hstored

theorem nameString_sCopy (e : Entry) (h : ValidName name) (hname : e.name = sCopy dst name) :
    e.nameString = name := by
  unfold Entry.nameString Entry.nameBytes
  rw [hname]
  exact cString_eq _ _ (sCopy_starts dst h) h.no_nul

theorem sCopy_terminated (dst : Library.BlockStore.Block 32) (h : ValidName name) :
    0 ∈ List.ofFn (sCopy dst name) :=
  (sCopy_starts dst h).subset (by simp)

/-- Entry `i` is the child of `parent` called `name`. -/
def isChild (es : Table) (parent : UInt32) (name : List UInt8) (i : Fin 64) : Bool :=
  (es i).used ≠ 0 && (es i).parent == parent && (es i).nameString == name

/-- In a table of terminated names the lookup finds the first matching entry. -/
theorem sfsFindChild_eq (ht : ∀ i, (es i).used ≠ 0 → 0 ∈ (es i).nameBytes) (hn : 0 ∉ name)
    (parent : UInt32) :
    sfsFindChild es parent name = .ok ((List.finRange 64).find? (isChild es parent name)) := by
  unfold sfsFindChild
  induction List.finRange 64 with
  | nil => rfl
  | cons i is ih =>
    rw [findChildFrom, List.find?_cons]
    by_cases hc : (es i).used ≠ 0 ∧ (es i).parent = parent
    · rw [if_pos hc, sEq_eq (ht i hc.1) hn]
      by_cases he : cString (es i).nameBytes = name
      · simp [isChild, Entry.nameString, hc.1, hc.2, he, bind, Except.bind]
      · have hb : (cString (es i).nameBytes == name) = false := beq_eq_false_iff_ne.mpr he
        simp [isChild, Entry.nameString, hc.1, hc.2, he, hb, ih, bind, Except.bind]
    · rw [if_neg hc, ih]
      have : isChild es parent name i = false := by
        by_cases hu : (es i).used = 0
        · simp [isChild, hu]
        · have hp : (es i).parent ≠ parent := fun hp => hc ⟨hu, hp⟩
          simp [isChild, hp]
      rw [this]

theorem isChild_iff : isChild es parent name i = true ↔
    (es i).used ≠ 0 ∧ (es i).parent = parent ∧ (es i).nameString = name := by
  simp [isChild, and_assoc]

end VertexOS
