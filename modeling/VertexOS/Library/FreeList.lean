import Mathlib

namespace Library.FreeList

/-- One region of an arena; its header stands in front of it. -/
structure Region where
  size : Nat
  free : Bool
  deriving DecidableEq, Repr

/-- The bytes a row of regions takes up with headers of `hdr` bytes. -/
def span (hdr : Nat) : List Region → Nat
  | [] => 0
  | r :: rs => hdr + r.size + span hdr rs

/-- The region whose header stands `o` bytes into the row. -/
def regionAt (hdr : Nat) : List Region → Nat → Option Region
  | [], _ => none
  | r :: rs, o =>
    if o = 0 then some r
    else if o < hdr + r.size then none
    else regionAt hdr rs (o - (hdr + r.size))

/-- A free region taken for `n` bytes; what is left over becomes a region of its
own if it is worth more than `slack`. -/
def carve (hdr slack n : Nat) (r : Region) (rs : List Region) : List Region :=
  if slack < r.size - n then ⟨n, false⟩ :: ⟨r.size - n - hdr, true⟩ :: rs
  else ⟨r.size, false⟩ :: rs

/-- The first free region of at least `n` bytes, and the row once it is taken. -/
def firstFit (hdr slack n : Nat) : List Region → Option (Nat × List Region)
  | [] => none
  | r :: rs =>
    if r.free = true ∧ n ≤ r.size then some (0, carve hdr slack n r rs)
    else (firstFit hdr slack n rs).map fun p => (hdr + r.size + p.1, r :: p.2)

/-- The row with the region at offset `o` given back. -/
def release (hdr : Nat) : List Region → Nat → List Region
  | [], _ => []
  | r :: rs, o => if o = 0 then ⟨r.size, true⟩ :: rs else r :: release hdr rs (o - (hdr + r.size))

/-- Neighbouring free regions merged, in one pass from the left. -/
def coalesce (hdr : Nat) : List Region → List Region
  | [] => []
  | [r] => [r]
  | r :: r' :: rs =>
    if r.free = true ∧ r'.free = true then coalesce hdr (⟨r.size + (hdr + r'.size), true⟩ :: rs)
    else r :: coalesce hdr (r' :: rs)
termination_by rs => rs.length

/-- The bytes of the regions that are taken. -/
def used : List Region → Nat
  | [] => 0
  | r :: rs => (if r.free then 0 else r.size) + used rs

variable {hdr slack n : Nat} {r : Region} {rs rs' : List Region}

theorem used_le_span (hdr : Nat) (rs : List Region) : used rs ≤ span hdr rs := by
  induction rs with
  | nil => exact Nat.le_refl 0
  | cons r rs ih =>
    simp only [used, span]
    split <;> omega

theorem length_le_span (hpos : 0 < hdr) (rs : List Region) : rs.length ≤ span hdr rs := by
  induction rs with
  | nil => exact Nat.le_refl 0
  | cons r rs ih =>
    simp only [List.length_cons, span]
    omega

/-- A region lies, with its header, inside the row. -/
theorem regionAt_bound (h : regionAt hdr rs o = some r) : o + hdr + r.size ≤ span hdr rs := by
  induction rs generalizing o with
  | nil => cases h
  | cons q rs ih =>
    rw [regionAt] at h
    rw [span]
    split at h
    · cases h
      omega
    · split at h
      · cases h
      · have := ih h
        omega

theorem regionAt_mem (h : regionAt hdr rs o = some r) : r ∈ rs := by
  induction rs generalizing o with
  | nil => cases h
  | cons q rs ih =>
    rw [regionAt] at h
    split at h
    · cases h
      exact List.mem_cons_self
    · split at h
      · cases h
      · exact List.mem_cons_of_mem _ (ih h)

/-- Two regions of a row do not overlap, headers included. -/
theorem regionAt_disjoint (h : regionAt hdr rs o = some r) (h' : regionAt hdr rs o' = some r')
    (hlt : o < o') : o + hdr + r.size ≤ o' := by
  induction rs generalizing o o' with
  | nil => cases h
  | cons q rs ih =>
    rw [regionAt] at h h'
    rw [if_neg (by omega)] at h'
    split at h'
    · cases h'
    · split at h
      · cases h
        omega
      · split at h
        · cases h
        · have := ih h h' (by omega)
          omega

/-- A region's offset is a multiple of what divides all sizes and the header. -/
theorem regionAt_dvd (hk : k ∣ hdr) (hs : ∀ r ∈ rs, k ∣ r.size) (h : regionAt hdr rs o = some r) :
    k ∣ o := by
  induction rs generalizing o with
  | nil => cases h
  | cons q rs ih =>
    rw [regionAt] at h
    split at h
    · rename_i h0
      rw [h0]
      exact Nat.dvd_zero k
    · split at h
      · cases h
      · have hrest := ih (fun r hr => hs r (List.mem_cons_of_mem _ hr)) h
        have hq : k ∣ hdr + q.size := Nat.dvd_add hk (hs q List.mem_cons_self)
        have := Nat.dvd_add hrest hq
        rwa [Nat.sub_add_cancel (by omega)] at this

theorem regionAt_cons (hpos : 0 < hdr) (q : Region) (rs : List Region) (o : Nat) :
    regionAt hdr (q :: rs) (hdr + q.size + o) = regionAt hdr rs o := by
  rw [regionAt, if_neg (by omega), if_neg (by omega), Nat.add_sub_cancel_left]

/-- Every offset in a row of at least one region names its first region, or one
of the rest. -/
theorem regionAt_cases (h : regionAt hdr (q :: rs) o = some r) :
    o = 0 ∧ r = q ∨ ∃ o', o = hdr + q.size + o' ∧ regionAt hdr rs o' = some r := by
  rw [regionAt] at h
  split at h
  · rename_i h0
    cases h
    exact Or.inl ⟨h0, rfl⟩
  · split at h
    · cases h
    · exact Or.inr ⟨o - (hdr + q.size), by omega, h⟩

section Fit

variable (hslack : hdr ≤ slack)

include hslack

theorem carve_span (hn : n ≤ r.size) :
    span hdr (carve hdr slack n r rs) = hdr + r.size + span hdr rs := by
  unfold carve
  split
  · simp only [span]
    omega
  · rfl

omit hslack in
theorem carve_head (hdr slack n : Nat) (r : Region) (rs : List Region) :
    ∃ m rest, carve hdr slack n r rs = ⟨m, false⟩ :: rest ∧ (n ≤ r.size → n ≤ m) := by
  unfold carve
  split
  · exact ⟨_, _, rfl, fun _ => Nat.le_refl n⟩
  · exact ⟨_, _, rfl, fun h => h⟩

/-- Carving moves no region behind the one it is about. -/
theorem carve_rest (hpos : 0 < hdr) (hn : n ≤ r.size) (o : Nat) :
    regionAt hdr (carve hdr slack n r rs) (hdr + r.size + o) = regionAt hdr rs o := by
  unfold carve
  split
  · have h1 : hdr + r.size + o = hdr + n + (hdr + (r.size - n - hdr) + o) := by omega
    rw [h1]
    exact (regionAt_cons hpos ⟨n, false⟩ _ _).trans (regionAt_cons hpos ⟨r.size - n - hdr, true⟩ _ _)
  · exact regionAt_cons hpos ⟨r.size, false⟩ _ _

theorem firstFit_span (h : firstFit hdr slack n rs = some (o, rs')) :
    span hdr rs' = span hdr rs := by
  induction rs generalizing o rs' with
  | nil => cases h
  | cons q rs ih =>
    rw [firstFit] at h
    split at h
    · rename_i hfit
      cases h
      exact carve_span hslack hfit.2
    · obtain ⟨⟨o', rest⟩, hrest, he⟩ := Option.map_eq_some_iff.mp h
      cases he
      rw [span, span, ih hrest]

omit hslack in
/-- The region handed out was free and is now taken, and it is large enough. -/
theorem firstFit_new (hpos : 0 < hdr) (h : firstFit hdr slack n rs = some (o, rs')) :
    (∃ r, regionAt hdr rs o = some r ∧ r.free = true) ∧
      ∃ r', regionAt hdr rs' o = some r' ∧ r'.free = false ∧ n ≤ r'.size := by
  induction rs generalizing o rs' with
  | nil => cases h
  | cons q rs ih =>
    rw [firstFit] at h
    split at h
    · rename_i hfit
      cases h
      obtain ⟨m, rest, hc, hm⟩ := carve_head hdr slack n q rs
      rw [hc]
      exact ⟨⟨q, if_pos rfl, hfit.1⟩, ⟨m, false⟩, if_pos rfl, rfl, hm hfit.2⟩
    · obtain ⟨⟨o', rest⟩, hrest, he⟩ := Option.map_eq_some_iff.mp h
      cases he
      obtain ⟨⟨r, hr, hf⟩, r', hr', hf', hn⟩ := ih hrest
      refine ⟨⟨r, ?_, hf⟩, r', ?_, hf', hn⟩
      · exact (regionAt_cons hpos q rs o').trans hr
      · exact (regionAt_cons hpos q rest o').trans hr'

/-- The regions that were taken before stay where they are. -/
theorem firstFit_kept (hpos : 0 < hdr) (h : firstFit hdr slack n rs = some (o, rs'))
    (hr : regionAt hdr rs o' = some r) (hf : r.free = false) : regionAt hdr rs' o' = some r := by
  induction rs generalizing o o' rs' with
  | nil => cases h
  | cons q rs ih =>
    rw [firstFit] at h
    rcases regionAt_cases hr with ⟨rfl, rfl⟩ | ⟨o'', rfl, hr'⟩
    · split at h
      · rename_i hfit
        rw [hfit.1] at hf
        cases hf
      · obtain ⟨⟨o', rest⟩, hrest, he⟩ := Option.map_eq_some_iff.mp h
        cases he
        exact if_pos rfl
    · split at h
      · rename_i hfit
        cases h
        rw [carve_rest hslack hpos hfit.2]
        exact hr'
      · obtain ⟨⟨o', rest⟩, hrest, he⟩ := Option.map_eq_some_iff.mp h
        cases he
        rw [regionAt_cons hpos]
        exact ih hrest hr'

end Fit

theorem firstFit_none (h : firstFit hdr slack n rs = none) (hr : r ∈ rs) (hf : r.free = true) :
    r.size < n := by
  induction rs with
  | nil => cases hr
  | cons q rs ih =>
    rw [firstFit] at h
    split at h
    · cases h
    · rename_i hfit
      rcases List.mem_cons.mp hr with rfl | hr
      · by_contra hn
        exact hfit ⟨hf, by omega⟩
      · exact ih (Option.map_eq_none_iff.mp h) hr

theorem release_span (rs : List Region) (o : Nat) : span hdr (release hdr rs o) = span hdr rs := by
  induction rs generalizing o with
  | nil => rfl
  | cons q rs ih =>
    rw [release]
    split
    · rfl
    · rw [span, span, ih]

theorem release_length (rs : List Region) (o : Nat) : (release hdr rs o).length = rs.length := by
  induction rs generalizing o with
  | nil => rfl
  | cons q rs ih =>
    rw [release]
    split
    · rfl
    · simp [ih]

/-- Giving a region back moves no other. -/
theorem release_other (hpos : 0 < hdr) (ho : regionAt hdr rs o = some r)
    (hr : regionAt hdr rs o' = some r') (hne : o' ≠ o) :
    regionAt hdr (release hdr rs o) o' = some r' := by
  induction rs generalizing o o' with
  | nil => cases ho
  | cons q rs ih =>
    rcases regionAt_cases ho with ⟨rfl, rfl⟩ | ⟨p, rfl, hp⟩
    · rcases regionAt_cases hr with ⟨rfl, -⟩ | ⟨p', rfl, hp'⟩
      · exact absurd rfl hne
      · rw [release, if_pos rfl]
        exact (regionAt_cons hpos ⟨r.size, true⟩ rs p').trans hp'
    · rw [release, if_neg (by omega), Nat.add_sub_cancel_left]
      rcases regionAt_cases hr with ⟨rfl, rfl⟩ | ⟨p', rfl, hp'⟩
      · exact if_pos rfl
      · rw [regionAt_cons hpos]
        exact ih hp hp' (by omega)

theorem coalesce_eq_nil : coalesce hdr rs = [] ↔ rs = [] := by
  induction rs using coalesce.induct hdr with
  | case1 => rw [coalesce]
  | case2 r => rw [coalesce]
  | case3 r r' rs hf ih =>
    rw [coalesce, if_pos hf, ih]
    simp
  | case4 r r' rs hf ih =>
    rw [coalesce, if_neg hf]
    simp

theorem coalesce_span (rs : List Region) : span hdr (coalesce hdr rs) = span hdr rs := by
  induction rs using coalesce.induct hdr with
  | case1 => rw [coalesce]
  | case2 r => rw [coalesce]
  | case3 r r' rs hf ih =>
    rw [coalesce, if_pos hf, ih]
    simp only [span]
    omega
  | case4 r r' rs hf ih =>
    rw [coalesce, if_neg hf, span, ih]
    rfl

/-- Merging moves no taken region. -/
theorem coalesce_kept (hpos : 0 < hdr) (hr : regionAt hdr rs o = some r) (hf : r.free = false) :
    regionAt hdr (coalesce hdr rs) o = some r := by
  induction rs using coalesce.induct hdr generalizing o with
  | case1 => cases hr
  | case2 q =>
    rw [coalesce]
    exact hr
  | case3 q q' rs hfree ih =>
    rw [coalesce, if_pos hfree]
    rcases regionAt_cases hr with ⟨-, rfl⟩ | ⟨p, rfl, hp⟩
    · rw [hfree.1] at hf
      cases hf
    · rcases regionAt_cases hp with ⟨-, rfl⟩ | ⟨p', rfl, hp'⟩
      · rw [hfree.2] at hf
        cases hf
      · refine ih ?_
        have hsum : hdr + q.size + (hdr + q'.size + p') = hdr + (q.size + (hdr + q'.size)) + p' := by
          omega
        rw [hsum]
        exact (regionAt_cons hpos ⟨q.size + (hdr + q'.size), true⟩ rs p').trans hp'
  | case4 q q' rs hfree ih =>
    rw [coalesce, if_neg hfree]
    rcases regionAt_cases hr with ⟨rfl, rfl⟩ | ⟨p, rfl, hp⟩
    · exact if_pos rfl
    · rw [regionAt_cons hpos]
      exact ih hp

section Aligned

variable {k : Nat} (hk : k ∣ hdr)

include hk

theorem firstFit_dvd (hn : k ∣ n) (hs : ∀ r ∈ rs, k ∣ r.size)
    (h : firstFit hdr slack n rs = some (o, rs')) : ∀ r ∈ rs', k ∣ r.size := by
  induction rs generalizing o rs' with
  | nil => cases h
  | cons q rs ih =>
    rw [firstFit] at h
    have hq := hs q List.mem_cons_self
    have hrs := fun r hr => hs r (List.mem_cons_of_mem _ hr)
    split at h
    · cases h
      unfold carve
      intro r hr
      split at hr
      · rcases List.mem_cons.mp hr with rfl | hr
        · exact hn
        · rcases List.mem_cons.mp hr with rfl | hr
          · exact Nat.dvd_sub (Nat.dvd_sub hq hn) hk
          · exact hrs r hr
      · rcases List.mem_cons.mp hr with rfl | hr
        · exact hq
        · exact hrs r hr
    · obtain ⟨⟨o', rest⟩, hrest, he⟩ := Option.map_eq_some_iff.mp h
      cases he
      intro r hr
      rcases List.mem_cons.mp hr with rfl | hr
      · exact hq
      · exact ih hrs hrest r hr

omit hk in
theorem release_dvd (hs : ∀ r ∈ rs, k ∣ r.size) (o : Nat) :
    ∀ r ∈ release hdr rs o, k ∣ r.size := by
  induction rs generalizing o with
  | nil => exact hs
  | cons q rs ih =>
    have hq := hs q List.mem_cons_self
    have hrs := fun r hr => hs r (List.mem_cons_of_mem _ hr)
    rw [release]
    intro r hr
    split at hr
    · rcases List.mem_cons.mp hr with rfl | hr
      · exact hq
      · exact hrs r hr
    · rcases List.mem_cons.mp hr with rfl | hr
      · exact hq
      · exact ih hrs _ r hr

theorem coalesce_dvd (hs : ∀ r ∈ rs, k ∣ r.size) : ∀ r ∈ coalesce hdr rs, k ∣ r.size := by
  induction rs using coalesce.induct hdr with
  | case1 => rwa [coalesce]
  | case2 r => rwa [coalesce]
  | case3 q q' rs hf ih =>
    rw [coalesce, if_pos hf]
    refine ih (fun r hr => ?_)
    rcases List.mem_cons.mp hr with rfl | hr
    · exact Nat.dvd_add (hs q List.mem_cons_self)
        (Nat.dvd_add hk (hs q' (List.mem_cons_of_mem _ List.mem_cons_self)))
    · exact hs r (List.mem_cons_of_mem _ (List.mem_cons_of_mem _ hr))
  | case4 q q' rs hf ih =>
    rw [coalesce, if_neg hf]
    intro r hr
    rcases List.mem_cons.mp hr with rfl | hr
    · exact hs _ List.mem_cons_self
    · exact ih (fun r hr => hs r (List.mem_cons_of_mem _ hr)) r hr

end Aligned

section Merged

/-- No two neighbouring regions are free. -/
def Merged (rs : List Region) : Prop := rs.IsChain fun r r' => ¬(r.free = true ∧ r'.free = true)

theorem coalesce_head (hdr : Nat) (r : Region) (rs : List Region) :
    ∃ q rest, coalesce hdr (r :: rs) = q :: rest ∧ q.free = r.free := by
  induction hn : rs.length generalizing r rs with
  | zero =>
    rw [List.length_eq_zero_iff] at hn
    subst hn
    exact ⟨r, [], by rw [coalesce], rfl⟩
  | succ n ih =>
    obtain ⟨r', rs, rfl⟩ := List.exists_cons_of_length_eq_add_one hn
    rw [coalesce]
    split
    · next hf =>
      obtain ⟨q, rest, he, hq⟩ := ih ⟨r.size + (hdr + r'.size), true⟩ rs (by simpa using hn)
      exact ⟨q, rest, he, hq.trans hf.1.symm⟩
    · exact ⟨r, _, rfl, rfl⟩

theorem coalesce_merged (hdr : Nat) (rs : List Region) : Merged (coalesce hdr rs) := by
  induction rs using coalesce.induct hdr with
  | case1 =>
    rw [coalesce]
    exact List.IsChain.nil
  | case2 r =>
    rw [coalesce]
    exact List.IsChain.singleton r
  | case3 r r' rs hf ih =>
    rwa [coalesce, if_pos hf]
  | case4 r r' rs hf ih =>
    obtain ⟨q, rest, he, hq⟩ := coalesce_head hdr r' rs
    rw [coalesce, if_neg hf]
    rw [he] at ih ⊢
    exact List.isChain_cons_cons.mpr ⟨by rwa [hq], ih⟩

/-- The first region is free only if it was. -/
theorem firstFit_head (h : firstFit hdr slack n (r :: rs) = some (o, q :: rest))
    (hf : q.free = true) : r.free = true := by
  rw [firstFit] at h
  split at h
  · next hfit => exact hfit.1
  · obtain ⟨p, -, he⟩ := Option.map_eq_some_iff.mp h
    cases he
    exact hf

theorem firstFit_merged (hm : Merged rs) (h : firstFit hdr slack n rs = some (o, rs')) :
    Merged rs' := by
  induction rs generalizing o rs' with
  | nil => cases h
  | cons r rs ih =>
    have htail : Merged rs := List.IsChain.tail hm
    rw [firstFit] at h
    split at h
    · next hfit =>
      cases h
      unfold carve
      -- what is left over is free, and the region behind it is not
      split
      · refine List.isChain_cons_cons.mpr ⟨by simp, ?_⟩
        cases rs with
        | nil => exact List.IsChain.singleton _
        | cons r' rs =>
          have hne := (List.isChain_cons_cons.mp hm).1
          exact List.isChain_cons_cons.mpr ⟨fun hc => hne ⟨hfit.1, hc.2⟩, htail⟩
      · cases rs with
        | nil => exact List.IsChain.singleton _
        | cons r' rs => exact List.isChain_cons_cons.mpr ⟨by simp, htail⟩
    · obtain ⟨⟨o', rest⟩, hrest, he⟩ := Option.map_eq_some_iff.mp h
      cases he
      cases rs with
      | nil => cases hrest
      | cons r' rs =>
        have hne := (List.isChain_cons_cons.mp hm).1
        cases rest with
        | nil => exact List.IsChain.singleton _
        | cons q rest =>
          exact List.isChain_cons_cons.mpr
            ⟨fun hc => hne ⟨hc.1, firstFit_head hrest hc.2⟩, ih htail hrest⟩

/-- Only the region handed out is newly taken. -/
theorem firstFit_taken (hslack : hdr ≤ slack) (hpos : 0 < hdr) (h : firstFit hdr slack n rs = some (o, rs'))
    (hr : regionAt hdr rs' o' = some r) (hf : r.free = false) :
    o' = o ∨ regionAt hdr rs o' = some r := by
  induction rs generalizing o o' rs' with
  | nil => cases h
  | cons q rs ih =>
    rw [firstFit] at h
    split at h
    · next hfit =>
      cases h
      unfold carve at hr
      split at hr
      · next hslack =>
        rcases regionAt_cases hr with ⟨rfl, -⟩ | ⟨p, rfl, hp⟩
        · exact .inl rfl
        · rcases regionAt_cases hp with ⟨-, rfl⟩ | ⟨p', rfl, hp'⟩
          · cases hf
          · dsimp only
            have hsum : hdr + n + (hdr + (q.size - n - hdr) + p') = hdr + q.size + p' := by
              omega
            rw [hsum]
            exact .inr ((regionAt_cons hpos q rs p').trans hp')
      · rcases regionAt_cases hr with ⟨rfl, -⟩ | ⟨p, rfl, hp⟩
        · exact .inl rfl
        · exact .inr ((regionAt_cons hpos q rs p).trans hp)
    · obtain ⟨⟨p, rest⟩, hrest, he⟩ := Option.map_eq_some_iff.mp h
      cases he
      rcases regionAt_cases hr with ⟨rfl, rfl⟩ | ⟨p', rfl, hp'⟩
      · exact .inr (if_pos rfl)
      · rw [regionAt_cons hpos]
        exact (ih hrest hp').imp (fun he => by rw [he]) id

theorem release_taken (hpos : 0 < hdr) (hr : regionAt hdr (release hdr rs o) o' = some r)
    (hf : r.free = false) : o' ≠ o ∧ regionAt hdr rs o' = some r := by
  induction rs generalizing o o' with
  | nil => cases hr
  | cons q rs ih =>
    rw [release] at hr
    split at hr
    · next h0 =>
      subst h0
      rcases regionAt_cases hr with ⟨-, rfl⟩ | ⟨p, rfl, hp⟩
      · cases hf
      · exact ⟨by omega, (regionAt_cons hpos q rs p).trans hp⟩
    · next h0 =>
      rcases regionAt_cases hr with ⟨rfl, rfl⟩ | ⟨p, rfl, hp⟩
      · exact ⟨fun he => h0 he.symm, if_pos rfl⟩
      · obtain ⟨hne, hp'⟩ := ih hp
        exact ⟨by omega, (regionAt_cons hpos q rs p).trans hp'⟩

theorem coalesce_taken (hpos : 0 < hdr) (hr : regionAt hdr (coalesce hdr rs) o = some r)
    (hf : r.free = false) : regionAt hdr rs o = some r := by
  induction rs using coalesce.induct hdr generalizing o with
  | case1 => rwa [coalesce] at hr
  | case2 q => rwa [coalesce] at hr
  | case3 q q' rs hfree ih =>
    rw [coalesce, if_pos hfree] at hr
    rcases regionAt_cases (ih hr) with ⟨-, rfl⟩ | ⟨p, rfl, hp⟩
    · cases hf
    · dsimp only
      have hsum : hdr + (q.size + (hdr + q'.size)) + p = hdr + q.size + (hdr + q'.size + p) := by
        omega
      rw [hsum, regionAt_cons hpos, regionAt_cons hpos]
      exact hp
  | case4 q q' rs hfree ih =>
    rw [coalesce, if_neg hfree] at hr
    rcases regionAt_cases hr with ⟨rfl, rfl⟩ | ⟨p, rfl, hp⟩
    · exact if_pos rfl
    · exact (regionAt_cons hpos q (q' :: rs) p).trans (ih hp)

/-- There is nothing to merge in a merged row. -/
theorem Merged.coalesced (h : Merged rs) : coalesce hdr rs = rs := by
  induction rs using coalesce.induct hdr with
  | case1 => rw [coalesce]
  | case2 r => rw [coalesce]
  | case3 r r' rs hf ih => exact absurd hf (List.isChain_cons_cons.mp h).1
  | case4 r r' rs hf ih => rw [coalesce, if_neg hf, ih h.tail]

/-- Giving back what was taken last restores the row. -/
theorem firstFit_release (hpos : 0 < hdr) (hslack : hdr ≤ slack) (hm : Merged rs)
    (h : firstFit hdr slack n rs = some (o, rs')) : coalesce hdr (release hdr rs' o) = rs := by
  induction rs generalizing o rs' with
  | nil => cases h
  | cons r rs ih =>
    rw [firstFit] at h
    split at h
    · next hfit =>
      cases h
      have hr : r = ⟨r.size, true⟩ := by rw [← hfit.1]
      unfold carve
      split
      · next hsplit =>
        have hsize : n + (hdr + (r.size - n - hdr)) = r.size := by omega
        rw [release, if_pos rfl, coalesce, if_pos ⟨rfl, rfl⟩]
        simp only [hsize]
        rw [← hr, hm.coalesced]
      · rw [release, if_pos rfl, ← hr, hm.coalesced]
    · obtain ⟨⟨o', rest⟩, hrest, he⟩ := Option.map_eq_some_iff.mp h
      cases he
      have hback := ih hm.tail hrest
      rw [release, if_neg (by omega), Nat.add_sub_cancel_left]
      generalize release hdr rest o' = back at hback
      cases back with
      | nil =>
        rw [coalesce] at hback
        rw [← hback, coalesce]
      | cons q back =>
        obtain ⟨q', back', he, hq⟩ := coalesce_head hdr q back
        rw [coalesce, if_neg, hback]
        rintro ⟨hf, hqf⟩
        rw [he] at hback
        subst hback
        exact (List.isChain_cons_cons.mp hm).1 ⟨hf, hq.trans hqf⟩

/-- A merged row of free regions is a single one. -/
theorem Merged.single (h : Merged rs) (hall : ∀ r ∈ rs, r.free = true) (hne : rs ≠ []) :
    rs = [⟨span hdr rs - hdr, true⟩] := by
  cases rs with
  | nil => exact absurd rfl hne
  | cons r rs =>
    cases rs with
    | nil =>
      have hf := hall r List.mem_cons_self
      simp [span, ← hf]
    | cons r' rs =>
      exact absurd ⟨hall r List.mem_cons_self, hall r' (List.mem_cons_of_mem _ List.mem_cons_self)⟩
        (List.isChain_cons_cons.mp h).1

/-- Every region of a row has a place. -/
theorem mem_regionAt (hpos : 0 < hdr) (hr : r ∈ rs) : ∃ o, regionAt hdr rs o = some r := by
  induction rs with
  | nil => cases hr
  | cons q rs ih =>
    rcases List.mem_cons.mp hr with rfl | hr
    · exact ⟨0, if_pos rfl⟩
    · obtain ⟨o, ho⟩ := ih hr
      exact ⟨hdr + q.size + o, (regionAt_cons hpos q rs o).trans ho⟩

end Merged

end Library.FreeList
