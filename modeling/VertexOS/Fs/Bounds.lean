import VertexOS.Fs.Walk
import VertexOS.Fs.Faults

namespace VertexOS
open Library.BlockStore

/-- The id that `..` leads to, where the code may look it up. -/
def parentId (es : Table) (id : UInt32) : UInt32 :=
  if h : id.toNat < 64 then (es ⟨id.toNat, h⟩).parent else id

/-- The id and all that `..` leads to from it lie inside the table. -/
def Inside (es : Table) (id : UInt32) : Prop := ∀ k, ((parentId es)^[k] id).toNat < 64

/-- The ids a session can stand in. -/
def CwdId (sb : Superblock) (es : Table) (id : UInt32) : Prop := id = sb.rootId ∨ UsedId es id

section Inside

variable {es : Table} {id current : UInt32} {name : List UInt8}

theorem Inside.lt (h : Inside es id) : id.toNat < 64 := h 0

theorem Inside.parent (h : Inside es id) : Inside es (parentId es id) := by
  intro k
  rw [← Function.iterate_succ_apply]
  exact h (k + 1)

theorem entryAt_lt (es : Table) (h : id.toNat < 64) :
    ∃ e, entryAt es id = .ok e ∧ e.parent = parentId es id := by
  refine ⟨es ⟨id.toNat, h⟩, ?_, ?_⟩
  · rw [entryAt, dif_pos h]
  · rw [parentId, dif_pos h]

/-- A string that is shorter than the name field stops `s_eq` inside the field. -/
theorem sEq_inside {as bs : List UInt8} (h : bs.length < as.length) : ∃ b, sEq as bs = .ok b := by
  induction as generalizing bs with
  | nil => cases h
  | cons a as ih =>
    cases bs with
    | nil => exact ⟨_, rfl⟩
    | cons b bs =>
      rw [sEq]
      split
      · split
        · exact ⟨_, rfl⟩
        · exact ih (by simpa using h)
      · exact ⟨_, rfl⟩

theorem findChild_inside (es : Table) (parent : UInt32) (h : name.length ≤ sfsNameMax) :
    ∃ r, sfsFindChild es parent name = .ok r ∧ ∀ i, r = some i → (es i).used ≠ 0 := by
  rw [sfsFindChild]
  induction List.finRange 64 with
  | nil => exact ⟨none, rfl, fun i hi => by cases hi⟩
  | cons i is ih =>
    rw [findChildFrom]
    split
    · rename_i hc
      have hlen : name.length < (es i).nameBytes.length := by
        rw [Entry.nameBytes, List.length_ofFn]
        exact Nat.lt_succ_of_le h
      obtain ⟨b, hb⟩ := sEq_inside hlen
      rw [hb]
      cases b with
      | true => exact ⟨some i, rfl, fun j hj => Option.some.inj hj ▸ hc.1⟩
      | false => exact ih
    · exact ih

variable (hchild : ∀ id, UsedId es id → Inside es id)

include hchild

theorem walkNames_inside {names : List (List UInt8)} (hnames : ∀ name ∈ names, ValidName name)
    (hc : Inside es current) :
    ∃ r, walkNames es names current = .ok r ∧ ∀ id, r = some id → Inside es id := by
  induction names generalizing current with
  | nil => exact ⟨_, rfl, fun id hid => Option.some.inj hid ▸ hc⟩
  | cons name names ih =>
    have hrest : ∀ name ∈ names, ValidName name :=
      fun x hx => hnames x (List.mem_cons_of_mem _ hx)
    rw [walkNames]
    split
    · exact ih hrest hc
    · split
      · obtain ⟨e, he, hparent⟩ := entryAt_lt es hc.lt
        rw [he]
        exact ih hrest (hparent ▸ hc.parent)
      · obtain ⟨r, hr, hused⟩ := findChild_inside es current (hnames name List.mem_cons_self).short
        rw [hr]
        cases r with
        | none => exact ⟨none, rfl, fun id hid => by cases hid⟩
        | some child => exact ih hrest (hchild _ ⟨child, rfl, hused child rfl⟩)

theorem createLoop_inside (path last : List UInt8) (hc : Inside es current)
    (hl : last.length ≤ sfsNameMax) :
    ∃ r, createLoop es path current last = .ok r ∧
      ∀ dir name, r = some (dir, name) → name.length ≤ sfsNameMax := by
  induction hm : path.length using Nat.strongRecOn generalizing path current last with
  | ind m ih =>
    rw [createLoop]
    split
    · exact ⟨_, rfl, fun dir name h => (Prod.mk.inj (Option.some.inj h)).2 ▸ hl⟩
    · rename_i name rest hnext
      have hlen := (pathNext_some hnext).1
      have hname := (pathNext_valid hnext).short
      split
      · exact ih _ (hm ▸ hlen) rest name hc hname rfl
      · split
        · obtain ⟨e, he, hparent⟩ := entryAt_lt es hc.lt
          rw [he]
          exact ih _ (hm ▸ hlen) rest name (hparent ▸ hc.parent) hname rfl
        · split
          · exact ⟨_, rfl, fun dir name h => (Prod.mk.inj (Option.some.inj h)).2 ▸ hname⟩
          · obtain ⟨r, hr, hused⟩ := findChild_inside es current hname
            rw [hr]
            cases r with
            | none => exact ⟨none, rfl, fun dir name h => by cases h⟩
            | some child =>
              dsimp only [bind, Except.bind]
              split
              · exact ⟨none, rfl, fun dir name h => by cases h⟩
              · exact ih _ (hm ▸ hlen) rest name (hchild _ ⟨child, rfl, hused child rfl⟩) hname rfl

end Inside

/-- A path of `n` components `..`. -/
def ups : Nat → List UInt8
  | 0 => []
  | n + 1 => dotdot ++ slash :: ups n

theorem ups_no_nul (n : Nat) : 0 ∉ ups n := by
  induction n with
  | zero => simp [ups]
  | succ n ih => simp [ups, dotdot, slash, ih]

theorem components_ups (n : Nat) : (components (ups n)).map cutName = List.replicate n dotdot := by
  rw [components, cString_clean (ups_no_nul n)]
  induction n with
  | zero =>
    rw [ups, parts_nil]
    rfl
  | succ n ih =>
    rw [ups, parts_append, parts_name (by decide) (by decide), List.map_append, ih]
    rfl

/-- A walk of `..`s reads the parents of all it passes. -/
theorem walkNames_ups {es : Table} {current : UInt32} {r : Option UInt32} (n : Nat)
    (h : walkNames es (List.replicate n dotdot) current = .ok r) :
    ∀ k, k < n → ((parentId es)^[k] current).toNat < 64 := by
  induction n generalizing current with
  | zero => exact fun k hk => absurd hk (Nat.not_lt_zero k)
  | succ n ih =>
    rw [List.replicate_succ, walkNames, if_neg (by decide), if_pos rfl] at h
    have hlt : current.toNat < 64 := by
      by_contra hge
      rw [entryAt, dif_neg hge] at h
      cases h
    obtain ⟨e, he, hparent⟩ := entryAt_lt es hlt
    rw [he] at h
    intro k hk
    cases k with
    | zero => exact hlt
    | succ k =>
      rw [Function.iterate_succ_apply]
      exact ih (hparent ▸ h) k (Nat.lt_of_succ_lt_succ hk)

/-- No path makes the walks of the file system leave the table or a name field. -/
def WalksInside (s : SimpleFs) : Prop :=
  ∀ path cwdId, CwdId s.super s.entries cwdId →
    (∃ r, sfsResolve s path cwdId = .ok r) ∧
    (∀ type perm, ∃ r, sfsCreate s path cwdId type perm = .ok r) ∧
    ∃ r, sfsRemove s path cwdId = .ok r

theorem CwdId.start {s : SimpleFs} {cwdId : UInt32} (h : CwdId s.super s.entries cwdId)
    (path : List UInt8) : CwdId s.super s.entries (startNode s.super path cwdId) := by
  rw [startNode]
  split
  · exact .inl rfl
  · exact h

section Walks

variable {s : SimpleFs} {cwdId : UInt32} (path : List UInt8)
  (hin : ∀ id, CwdId s.super s.entries id → Inside s.entries id)
  (hc : CwdId s.super s.entries cwdId)

include hin hc

theorem sfsResolve_inside : ∃ r, sfsResolve s path cwdId = .ok r ∧
    ∀ id, r = some id → Inside s.entries id := by
  rw [sfsResolve, resolveLoop_components]
  exact walkNames_inside (fun id hid => hin id (.inr hid)) (components_valid path)
    (hin _ (hc.start path))

theorem sfsCreate_inside (type perm : UInt8) : ∃ r, sfsCreate s path cwdId type perm = .ok r := by
  have hentry : ∃ r, sfsCreateEntry s path cwdId type perm = .ok r := by
    rw [sfsCreateEntry]
    split
    · exact ⟨_, rfl⟩
    · obtain ⟨r, hr, hlast⟩ := createLoop_inside (fun id hid => hin id (.inr hid)) path
        [] (hin _ (hc.start path)) (by decide)
      rw [hr]
      cases r with
      | none => exact ⟨_, rfl⟩
      | some p =>
        obtain ⟨dir, last⟩ := p
        dsimp only [bind, Except.bind]
        split
        · exact ⟨_, rfl⟩
        · obtain ⟨child, hchild, -⟩ := findChild_inside s.entries dir (hlast dir last rfl)
          rw [hchild]
          cases child with
          | some i => exact ⟨_, rfl⟩
          | none =>
            dsimp only
            cases sfsFindFreeEntry s.entries with
            | none => exact ⟨_, rfl⟩
            | some idx => exact ⟨_, rfl⟩
  obtain ⟨r, hr⟩ := hentry
  rw [sfsCreate, hr]
  cases r with
  | none => exact ⟨_, rfl⟩
  | some p =>
    obtain ⟨idx, e⟩ := p
    dsimp only [bind, Except.bind]
    cases sfsFlush { s with entries := Function.update s.entries idx e } with
    | mk t done =>
      cases done with
      | false => exact ⟨_, rfl⟩
      | true => exact ⟨_, rfl⟩

theorem sfsRemove_inside : ∃ r, sfsRemove s path cwdId = .ok r := by
  obtain ⟨r, hr, hid⟩ := sfsResolve_inside path hin hc
  have htarget : ∃ t, sfsRemoveTarget s path cwdId = .ok t := by
    rw [sfsRemoveTarget, hr]
    cases r with
    | none => exact ⟨_, rfl⟩
    | some id =>
      dsimp only [bind, Except.bind]
      split
      · exact ⟨_, rfl⟩
      · rw [dif_pos (hid id rfl).lt]
        split
        · exact ⟨_, rfl⟩
        · exact ⟨_, rfl⟩
  obtain ⟨t, ht⟩ := htarget
  rw [sfsRemove, ht]
  cases t with
  | none => exact ⟨_, rfl⟩
  | some n => exact ⟨_, rfl⟩

end Walks

/-- The walks stay inside the table exactly when `..` does, from the root and from every used
entry. -/
theorem sfs_walks_inside_iff (s : SimpleFs) :
    WalksInside s ↔ ∀ id, CwdId s.super s.entries id → Inside s.entries id := by
  constructor
  · intro h id hid k
    obtain ⟨⟨r, hr⟩, -⟩ := h (ups (k + 1)) id hid
    have hstart : startNode s.super (ups (k + 1)) id = id := by
      rw [startNode, if_neg]
      exact (by decide : (46 : UInt8) ≠ slash)
    rw [sfsResolve, hstart, resolveLoop_components, components_ups] at hr
    exact walkNames_ups (k + 1) hr k (Nat.lt_succ_self k)
  · intro h path cwdId hc
    obtain ⟨r, hr, -⟩ := sfsResolve_inside path h hc
    exact ⟨⟨r, hr⟩, sfsCreate_inside path h hc, sfsRemove_inside path h hc⟩

/-- The superblock of a fresh volume, its root id outside the table. -/
def straySuper : Superblock := { (formatted 0 blankDrive).super with rootId := 64 }

/-- A signed disk with that superblock. -/
def strayDrive : Drive :=
  { blankDrive with
    sectors := replay blankDrive.sectors
      (metadataWrites straySuper (formatted 0 blankDrive).entries) }

/-- The disk mounts, and `/..` reads the table at 64. -/
theorem sfs_walk_leaves_table : ∃ s, Mountable (powerOn strayDrive) ∧
    sfsInit (powerOn strayDrive) = (s, true) ∧ CwdId s.super s.entries 0 ∧
    sfsResolve s [slash, 46, 46] 0 = .error .outOfBounds := by
  have hsuper : diskSuper (powerOn strayDrive).dev.sectors = straySuper :=
    diskSuper_flushed blankDrive.sectors straySuper (formatted 0 blankDrive).entries
  have htable : diskTable (powerOn strayDrive).dev.sectors = (formatted 0 blankDrive).entries :=
    diskTable_flushed blankDrive.sectors straySuper (formatted 0 blankDrive).entries
  have hm : Mountable (powerOn strayDrive) := by
    refine ⟨fun _ _ => rfl, ?_⟩
    rw [hsuper]
    exact ⟨rfl, rfl⟩
  obtain ⟨hok, hsup, hent, -⟩ := sfsInit_mounted hm
  rw [hsuper] at hsup
  rw [htable] at hent
  cases hinit : sfsInit (powerOn strayDrive) with
  | mk s ok =>
    rw [hinit] at hok hsup hent
    obtain rfl : ok = true := hok
    refine ⟨s, hm, rfl, .inr ⟨0, rfl, ?_⟩, ?_⟩
    · rw [show s.entries = _ from hent, formatted_root]
      decide
    · have hroot : s.super.rootId = 64 := congrArg Superblock.rootId hsup
      have hstart : startNode s.super [slash, 46, 46] 0 = 64 := hroot
      have hparts : (components [slash, 46, 46]).map cutName = [dotdot] := by
        decide +kernel
      rw [sfsResolve, hstart, resolveLoop_components, hparts, walkNames, if_neg (by decide),
        if_pos rfl, entryAt, dif_neg (by decide)]
      rfl

end VertexOS
