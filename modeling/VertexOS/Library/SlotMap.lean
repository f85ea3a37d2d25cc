import Mathlib

namespace Library.SlotMap

variable {n : Nat} {κ ν : Type*} [DecidableEq κ]

/-- The key a slot holds. -/
def keyAt (f : Fin n → Option (κ × ν)) (i : Fin n) : Option κ := (f i).map Prod.fst

/-- The first slot with the key. -/
def slotOf (f : Fin n → Option (κ × ν)) (k : κ) : Option (Fin n) :=
  (List.finRange n).find? fun i => keyAt f i = some k

/-- The first slot that holds nothing. -/
def freeSlot (f : Fin n → Option (κ × ν)) : Option (Fin n) :=
  (List.finRange n).find? fun i => (f i).isNone

def lookup (f : Fin n → Option (κ × ν)) (k : κ) : Option ν :=
  (slotOf f k).bind fun i => (f i).map Prod.snd

/-- The slot a value for the key goes to: its own, else a free one. -/
def target (f : Fin n → Option (κ × ν)) (k : κ) : Option (Fin n) := (slotOf f k).or (freeSlot f)

/-- No key has two slots. -/
def Distinct (f : Fin n → Option (κ × ν)) : Prop :=
  ∀ i j k, keyAt f i = some k → keyAt f j = some k → i = j

variable {f : Fin n → Option (κ × ν)} {i j : Fin n} {k k' : κ} {v : ν}

theorem slotOf_key (h : slotOf f k = some i) : keyAt f i = some k := by
  simpa using List.find?_some h

theorem slotOf_none (h : slotOf f k = none) (i : Fin n) : keyAt f i ≠ some k := by
  simpa using List.find?_eq_none.mp h i (List.mem_finRange i)

theorem slotOf_eq (hd : Distinct f) (hi : keyAt f i = some k) : slotOf f k = some i := by
  cases hs : slotOf f k with
  | none => exact absurd hi (slotOf_none hs i)
  | some j => rw [hd i j k hi (slotOf_key hs)]

omit [DecidableEq κ] in
theorem freeSlot_free (h : freeSlot f = some i) : f i = none := by
  simpa using List.find?_some h

omit [DecidableEq κ] in
theorem freeSlot_none (h : freeSlot f = none) (i : Fin n) : (f i).isSome := by
  have := List.find?_eq_none.mp h i (List.mem_finRange i)
  cases hi : f i with
  | none => simp [hi] at this
  | some p => rfl

theorem lookup_eq (hd : Distinct f) (hi : f i = some (k, v)) : lookup f k = some v := by
  have hkey : keyAt f i = some k := by
    rw [keyAt, hi]
    rfl
  rw [lookup, slotOf_eq hd hkey, Option.bind_some, hi]
  rfl

theorem lookup_none (h : ∀ i, keyAt f i ≠ some k) : lookup f k = none := by
  cases hs : slotOf f k with
  | none => rw [lookup, hs, Option.bind_none]
  | some i => exact absurd (slotOf_key hs) (h i)

/-- Two maps that agree on who holds the key agree on its value. -/
theorem lookup_congr {g : Fin n → Option (κ × ν)} (hf : Distinct f) (hg : Distinct g)
    (h : ∀ i v, f i = some (k, v) ↔ g i = some (k, v)) : lookup f k = lookup g k := by
  by_cases hex : ∃ i v, f i = some (k, v)
  · obtain ⟨i, v, hi⟩ := hex
    rw [lookup_eq hf hi, lookup_eq hg ((h i v).mp hi)]
  · have hnone : ∀ g' : Fin n → Option (κ × ν), (∀ i v, g' i ≠ some (k, v)) → lookup g' k = none := by
      intro g' hg'
      refine lookup_none fun i hi => ?_
      obtain ⟨⟨k', v⟩, hp, rfl⟩ := Option.map_eq_some_iff.mp hi
      exact hg' i v hp
    rw [hnone f fun i v hi => hex ⟨i, v, hi⟩, hnone g fun i v hi => hex ⟨i, v, (h i v).mpr hi⟩]

/-- Where a key goes, no other slot has it. -/
theorem target_other (hd : Distinct f) (ht : target f k = some i) (hij : j ≠ i) :
    keyAt f j ≠ some k := by
  intro hj
  rw [target, slotOf_eq hd hj, Option.some_or, Option.some.injEq] at ht
  exact hij ht

/-- The slot a key goes to holds no other key. -/
theorem target_mine (ht : target f k = some i) (hk : keyAt f i = some k') : k' = k := by
  cases hs : slotOf f k with
  | none =>
    rw [target, hs, Option.none_or] at ht
    rw [keyAt, freeSlot_free ht] at hk
    cases hk
  | some j =>
    rw [target, hs, Option.some_or, Option.some.injEq] at ht
    rw [← ht, slotOf_key hs, Option.some.injEq] at hk
    exact hk.symm

omit [DecidableEq κ] in
theorem keyAt_update (f : Fin n → Option (κ × ν)) (i j : Fin n) (p : Option (κ × ν)) :
    keyAt (Function.update f i p) j = if j = i then p.map Prod.fst else keyAt f j := by
  simp only [keyAt, Function.update_apply]
  split
  · rfl
  · rfl

theorem insert_distinct (hd : Distinct f) (ht : target f k = some i) (v : ν) :
    Distinct (Function.update f i (some (k, v))) := by
  intro a b q ha hb
  rw [keyAt_update] at ha hb
  split at ha
  · next hai =>
    split at hb
    · next hbi => rw [hai, hbi]
    · next hbi => exact absurd (hb.trans ha.symm) (target_other hd ht hbi)
  · next hai =>
    split at hb
    · next hbi => exact absurd (ha.trans hb.symm) (target_other hd ht hai)
    · exact hd a b q ha hb

/-- Storing a value changes what is found under its key, and nothing else. -/
theorem lookup_insert (hd : Distinct f) (ht : target f k = some i) (v : ν) :
    lookup (Function.update f i (some (k, v))) = Function.update (lookup f) k (some v) := by
  funext q
  have hd' := insert_distinct hd ht v
  by_cases hq : q = k
  · rw [hq, Function.update_self]
    exact lookup_eq hd' (Function.update_self ..)
  · rw [Function.update_of_ne hq]
    refine lookup_congr hd' hd fun j w => ?_
    by_cases hji : j = i
    · subst hji
      rw [Function.update_self]
      refine iff_of_false ?_ ?_
      · intro he
        exact hq (congrArg Prod.fst (Option.some.inj he)).symm
      · intro he
        exact hq (target_mine ht (by rw [keyAt, he]; rfl))
    · rw [Function.update_of_ne hji]

omit [DecidableEq κ] in
theorem erase_distinct (hd : Distinct f) (i : Fin n) : Distinct (Function.update f i none) := by
  intro a b q ha hb
  rw [keyAt_update] at ha hb
  split at ha
  · cases ha
  · split at hb
    · cases hb
    · exact hd a b q ha hb

/-- Emptying a slot takes its key away, and nothing else. -/
theorem lookup_erase (hd : Distinct f) (hi : keyAt f i = some k) :
    lookup (Function.update f i none) = Function.update (lookup f) k none := by
  funext q
  by_cases hq : q = k
  · rw [hq, Function.update_self]
    refine lookup_none fun j hj => ?_
    rw [keyAt_update] at hj
    split at hj
    · cases hj
    · next hji => exact hji (hd j i k hj hi)
  · rw [Function.update_of_ne hq]
    refine lookup_congr (erase_distinct hd i) hd fun j w => ?_
    by_cases hji : j = i
    · subst hji
      rw [Function.update_self]
      refine iff_of_false (by simp) ?_
      intro he
      rw [keyAt, he] at hi
      exact hq (Option.some.inj hi)
    · rw [Function.update_of_ne hji]

/-- A key without a slot to go to is not held, and as many others are as there are slots. -/
theorem target_none (hd : Distinct f) (ht : target f k = none) : lookup f k = none ∧
    ∃ ks : List κ, ks.Nodup ∧ ks.length = n ∧ ∀ q ∈ ks, q ≠ k ∧ (lookup f q).isSome := by
  obtain ⟨hs, hfree⟩ := Option.or_eq_none_iff.mp ht
  refine ⟨lookup_none (slotOf_none hs), ?_⟩
  have hfull : ∀ i, ∃ p, f i = some p := fun i => Option.isSome_iff_exists.mp (freeSlot_none hfree i)
  choose p hp using hfull
  have hkey : ∀ i, keyAt f i = some (p i).1 := by
    intro i
    rw [keyAt, hp i]
    rfl
  refine ⟨(List.finRange n).map fun i => (p i).1, ?_, by simp, ?_⟩
  · refine (List.nodup_finRange n).map ?_
    intro i j hij
    exact hd i j _ (hkey i) ((hkey j).trans (congrArg some hij.symm))
  · intro q hq
    obtain ⟨i, -, rfl⟩ := List.mem_map.mp hq
    refine ⟨fun he => slotOf_none hs i (he ▸ hkey i), ?_⟩
    rw [lookup_eq hd (hp i)]
    rfl

end Library.SlotMap
