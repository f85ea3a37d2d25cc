import VertexOS.Library.Forest
import VertexOS.Fs.Names

namespace VertexOS
open Library.Forest

/-- The parent of an entry as a table index. -/
def parentSlot (es : Table) (i : Fin 64) : Fin 64 := Fin.ofNat 64 (es i).parent.toNat

def Entry.IsDir (e : Entry) : Prop := e.used ≠ 0 ∧ e.type = sfsTypeDir

/-- The entry table is a directory tree below entry 0. -/
structure DirectoryTree (sb : Superblock) (es : Table) : Prop where
  root : sb.rootId = slotId 0
  tree : IsTree (fun i => (es i).used ≠ 0) (parentSlot es) 0
  parent : ∀ i, (es i).used ≠ 0 → (es i).parent = slotId (parentSlot es i)
  dirs : ∀ i, (es i).used ≠ 0 → (es (parentSlot es i)).IsDir
  terminated : ∀ i, (es i).used ≠ 0 → 0 ∈ (es i).nameBytes
  names : ∀ i, (es i).used ≠ 0 → i ≠ 0 → (es i).nameString ≠ [] ∧ slash ∉ (es i).nameString
  rootName : (es 0).nameString = [slash]
  unique : ∀ i j, (es i).used ≠ 0 → (es j).used ≠ 0 → i ≠ 0 → j ≠ 0 →
    (es i).parent = (es j).parent → (es i).nameString = (es j).nameString → i = j

theorem slotId_inj (h : slotId i = slotId j) : i = j := by
  have := congrArg UInt32.toNat h
  rw [slotId_toNat, slotId_toNat] at this
  exact Fin.ext this

@[simp] theorem entryAt_slot (es : Table) (n : Fin 64) : entryAt es (slotId n) = .ok (es n) := by
  unfold entryAt
  rw [dif_pos (by rw [slotId_toNat]; omega)]
  exact congrArg Except.ok (congrArg es (Fin.ext (slotId_toNat n)))

/-- An id that names a used entry, or a used directory. -/
def UsedId (es : Table) (id : UInt32) : Prop := ∃ n, id = slotId n ∧ (es n).used ≠ 0
def DirId (es : Table) (id : UInt32) : Prop := ∃ n, id = slotId n ∧ (es n).IsDir

theorem DirId.used (h : DirId es node) : UsedId es node := by
  obtain ⟨n, hn, hd⟩ := h
  exact ⟨n, hn, hd.1⟩

section Tree

variable {sb : Superblock} {es : Table} (ht : DirectoryTree sb es)

include ht

theorem DirectoryTree.root_dir : (es 0).IsDir := by
  have h := ht.dirs 0 ht.tree.root_used
  rwa [ht.tree.root_parent] at h

theorem DirectoryTree.parentId (hn : (es n).used ≠ 0) : DirId es (es n).parent :=
  ⟨parentSlot es n, ht.parent n hn, ht.dirs n hn⟩

theorem DirectoryTree.start (hc : DirId es cwd) (path : List UInt8) :
    DirId es (startNode sb path cwd) := by
  unfold startNode
  split
  · rw [ht.root]
    exact ⟨0, rfl, ht.root_dir⟩
  · exact hc

/-- Lookups in a tree never fault, and find exactly the child asked for. -/
theorem DirectoryTree.findChild (hn : ValidName name) (parent : UInt32) :
    ∃ r, sfsFindChild es parent name = .ok r ∧
      (∀ i, r = some i → (es i).used ≠ 0 ∧ (es i).parent = parent ∧ (es i).nameString = name) ∧
      (r = none → ∀ i, (es i).used ≠ 0 → (es i).parent = parent → (es i).nameString ≠ name) := by
  refine ⟨_, sfsFindChild_eq ht.terminated hn.no_nul parent, ?_, ?_⟩
  · intro i hi
    exact isChild_iff.mp (List.find?_some hi)
  · intro hnone i hu hp he
    have := List.find?_eq_none.mp hnone i (List.mem_finRange i)
    exact this (isChild_iff.mpr ⟨hu, hp, he⟩)

/-- Resolving a path from a used entry ends, without a fault, in a used entry. -/
theorem DirectoryTree.resolve (hc : UsedId es current) (path : List UInt8) :
    ∃ r, resolveLoop es path current = .ok r ∧ ∀ id, r = some id → UsedId es id := by
  induction hm : path.length using Nat.strongRecOn generalizing path current with
  | ind m ih =>
    rw [resolveLoop]
    split
    · exact ⟨_, rfl, fun id hid => Option.some.inj hid ▸ hc⟩
    · rename_i name rest hnext
      have hlen := (pathNext_some hnext).1
      have hname := pathNext_valid hnext
      obtain ⟨n, rfl, hn⟩ := hc
      by_cases hdot : name = dot
      · rw [if_pos hdot]
        exact ih _ (hm ▸ hlen) ⟨n, rfl, hn⟩ rest rfl
      · by_cases hdd : name = dotdot
        · rw [if_neg hdot, if_pos hdd, entryAt_slot]
          exact ih _ (hm ▸ hlen) (ht.parentId hn).used rest rfl
        · obtain ⟨r, hr, hsome, -⟩ := ht.findChild hname (slotId n)
          rw [if_neg hdot, if_neg hdd, hr]
          cases r with
          | none => exact ⟨none, rfl, fun id hid => by cases hid⟩
          | some child =>
            exact ih _ (hm ▸ hlen) ⟨child, rfl, (hsome child rfl).1⟩ rest rfl

/-- The walk of a create stays in used directories; the name it ends with is
one of the path's components. -/
theorem DirectoryTree.walk (hc : DirId es current) (hl : last = [] ∨ ValidName last)
    (path : List UInt8) :
    ∃ r, createLoop es path current last = .ok r ∧
      ∀ dir name, r = some (dir, name) → DirId es dir ∧ (name = [] ∨ ValidName name) := by
  induction hm : path.length using Nat.strongRecOn generalizing path current last with
  | ind m ih =>
    rw [createLoop]
    split
    · refine ⟨_, rfl, fun dir name he => ?_⟩
      obtain ⟨rfl, rfl⟩ := Prod.mk.inj (Option.some.inj he)
      exact ⟨hc, hl⟩
    · rename_i name rest hnext
      have hlen := (pathNext_some hnext).1
      have hname := pathNext_valid hnext
      by_cases hdot : name = dot
      · rw [if_pos hdot]
        exact ih _ (hm ▸ hlen) hc (Or.inr hname) rest rfl
      · by_cases hdd : name = dotdot
        · obtain ⟨n, rfl, hn⟩ := hc
          rw [if_neg hdot, if_pos hdd, entryAt_slot]
          exact ih _ (hm ▸ hlen) (ht.parentId hn.1) (Or.inr hname) rest rfl
        · rw [if_neg hdot, if_neg hdd]
          by_cases hend : rest.headD 0 = 0
          · rw [if_pos hend]
            refine ⟨_, rfl, fun dir name' he => ?_⟩
            obtain ⟨rfl, rfl⟩ := Prod.mk.inj (Option.some.inj he)
            exact ⟨hc, Or.inr hname⟩
          · obtain ⟨r, hr, hsome, -⟩ := ht.findChild hname current
            rw [if_neg hend, hr]
            cases r with
            | none => exact ⟨none, rfl, fun dir name he => by cases he⟩
            | some child =>
              by_cases hd : (es child).type = sfsTypeDir
              · have hcd : (es child).IsDir := ⟨(hsome child rfl).1, hd⟩
                simp only [bind, Except.bind, ne_eq, hd, not_true_eq_false, ↓reduceIte]
                exact ih _ (hm ▸ hlen) ⟨child, rfl, hcd⟩ (Or.inr hname) rest rfl
              · simp only [bind, Except.bind, ne_eq, hd, not_false_eq_true, ↓reduceIte]
                exact ⟨none, rfl, fun dir name he => by cases he⟩

end Tree

/-- What a create adds to a table: an unused entry becomes a new child of a used
directory, under a valid name no other child of that directory has. -/
structure NewEntry (es : Table) (idx : Fin 64) (e : Entry) (type : UInt8) : Prop where
  free : (es idx).used = 0
  used : e.used = 1
  type : e.type = type
  fresh : e.startLba = 0 ∧ e.size = 0 ∧ e.capacitySectors = 0
  place : ∃ dir name, e.parent = slotId dir ∧ (es dir).IsDir ∧ ValidName name ∧
    e.nameString = name ∧ 0 ∈ e.nameBytes ∧
    ∀ i, (es i).used ≠ 0 → (es i).parent = slotId dir → (es i).nameString ≠ name

theorem findFreeEntry_some (h : sfsFindFreeEntry es = some idx) : (es idx).used = 0 := by
  simpa using List.find?_some h

/-- A create in a tree does not fault, and what it adds is a new child. -/
theorem sfsCreateEntry_new (ht : DirectoryTree s.super s.entries) (hc : DirId s.entries cwd)
    (path : List UInt8) (type perm : UInt8) :
    ∃ r, sfsCreateEntry s path cwd type perm = .ok r ∧
      ∀ idx e, r = some (idx, e) → NewEntry s.entries idx e type := by
  unfold sfsCreateEntry
  split
  · exact ⟨none, rfl, fun idx e he => by cases he⟩
  · obtain ⟨r, hr, hwalk⟩ := ht.walk (ht.start hc path) (Or.inl rfl) path
    rw [hr]
    cases r with
    | none => exact ⟨none, rfl, fun idx e he => by cases he⟩
    | some p =>
      obtain ⟨dir, last⟩ := p
      obtain ⟨⟨d, rfl, hd⟩, hl⟩ := hwalk dir last rfl
      by_cases hempty : last = []
      · exact ⟨none, by simp [bind, Except.bind, hempty], fun idx e he => by cases he⟩
      · have hname := hl.resolve_left hempty
        obtain ⟨c, hfind, -, hnone⟩ := ht.findChild hname (slotId d)
        simp only [bind, Except.bind, hempty, ↓reduceIte, hfind]
        cases c with
        | some child => exact ⟨none, rfl, fun idx e he => by cases he⟩
        | none =>
          cases hf : sfsFindFreeEntry s.entries with
          | none => exact ⟨none, rfl, fun idx e he => by cases he⟩
          | some idx =>
            refine ⟨_, rfl, fun idx' e he => ?_⟩
            obtain ⟨rfl, rfl⟩ := Prod.mk.inj (Option.some.inj he)
            refine ⟨findFreeEntry_some hf, rfl, rfl, ⟨rfl, rfl, rfl⟩, d, last, rfl, hd, hname,
              nameString_sCopy _ hname rfl, sCopy_terminated _ hname, hnone rfl⟩

theorem parentSlot_of_eq (h : (es i).parent = slotId d) : parentSlot es i = d := by
  unfold parentSlot
  rw [h, slotId_toNat]
  exact Fin.ext (Nat.mod_eq_of_lt d.isLt)

/-- Adding a new child keeps the tree. -/
theorem DirectoryTree.add (ht : DirectoryTree sb es) (hn : NewEntry es idx e type) :
    DirectoryTree sb (Function.update es idx e) := by
  obtain ⟨d, name, hpar, hdir, hname, hstr, hterm, huniq⟩ := hn.place
  have hold : ∀ i, (es i).used ≠ 0 → i ≠ idx := fun i hi he => hi (he ▸ hn.free)
  have huse : e.used ≠ 0 := by rw [hn.used]; decide
  have hused : ∀ i, (Function.update es idx e i).used ≠ 0 ↔ i = idx ∨ (es i).used ≠ 0 := by
    intro i
    by_cases hi : i = idx
    · subst hi
      simp [huse]
    · simp [hi]
  have hslot : parentSlot (Function.update es idx e) = Function.update (parentSlot es) idx d := by
    funext i
    by_cases hi : i = idx
    · subst hi
      rw [Function.update_self]
      exact parentSlot_of_eq (by rw [Function.update_self]; exact hpar)
    · rw [Function.update_of_ne hi]
      unfold parentSlot
      rw [Function.update_of_ne hi]
  have h0 : (0 : Fin 64) ≠ idx := hold 0 ht.tree.root_used
  have hdidx : d ≠ idx := hold d hdir.1
  -- every fact about an entry `i` is split into the new entry and the old ones
  have hcases : ∀ P : Fin 64 → Entry → Prop, P idx e → (∀ i, (es i).used ≠ 0 → i ≠ idx → P i (es i)) →
      ∀ i, (Function.update es idx e i).used ≠ 0 → P i (Function.update es idx e i) := by
    intro P hnew hrest i hi
    rcases (hused i).mp hi with rfl | hu
    · rw [Function.update_self]
      exact hnew
    · rw [Function.update_of_ne (hold i hu)]
      exact hrest i hu (hold i hu)
  refine ⟨ht.root, ?_, ?_, ?_, ?_, ?_, ?_, ?_⟩
  · rw [hslot]
    have hfree : ¬ (es idx).used ≠ 0 := fun h => h hn.free
    exact (ht.tree.grow (j := idx) hfree hdir.1).congr hused (fun i _ => rfl)
  · rw [hslot]
    refine hcases (fun i e' => e'.parent = slotId (Function.update (parentSlot es) idx d i)) ?_ ?_
    · rw [Function.update_self]
      exact hpar
    · intro i hu hi
      rw [Function.update_of_ne hi]
      exact ht.parent i hu
  · intro i hi
    rw [hslot]
    rcases (hused i).mp hi with rfl | hu
    · rw [Function.update_self, Function.update_of_ne hdidx]
      exact hdir
    · have hp := ht.dirs i hu
      rw [Function.update_of_ne (hold i hu), Function.update_of_ne (hold _ hp.1)]
      exact hp
  · exact hcases (fun _ e' => 0 ∈ e'.nameBytes) hterm (fun i hu _ => ht.terminated i hu)
  · refine hcases (fun i e' => i ≠ 0 → e'.nameString ≠ [] ∧ slash ∉ e'.nameString) ?_
      (fun i hu _ => ht.names i hu)
    intro _
    rw [hstr]
    exact ⟨hname.nonempty, fun h => (hname.bytes _ h).2 rfl⟩
  · rw [Function.update_of_ne h0]
    exact ht.rootName
  · intro i j hi hj hi0 hj0 hp he
    rcases (hused i).mp hi with rfl | hui
    · rcases (hused j).mp hj with rfl | huj
      · rfl
      · rw [Function.update_self, Function.update_of_ne (hold j huj)] at hp he
        exact absurd (he.symm.trans hstr) (huniq j huj (hp.symm.trans hpar))
    · rw [Function.update_of_ne (hold i hui)] at hp he
      rcases (hused j).mp hj with rfl | huj
      · rw [Function.update_self] at hp he
        exact absurd (he.trans hstr) (huniq i hui (hp.trans hpar))
      · rw [Function.update_of_ne (hold j huj)] at hp he
        exact ht.unique i j hui huj hi0 hj0 hp he

theorem hasChild_false (h : hasChild es node = false) (hu : (es i).used ≠ 0) :
    (es i).parent ≠ node := by
  intro hp
  have := List.any_eq_false.mp h i (List.mem_finRange i)
  simp [hu, hp] at this

/-- What a remove clears: a used entry other than the root with no children. -/
structure Removable (es : Table) (n : Fin 64) : Prop where
  used : (es n).used ≠ 0
  nonroot : n ≠ 0
  childless : ∀ i, (es i).used ≠ 0 → parentSlot es i ≠ n

/-- A remove in a tree does not fault, and its target is removable. Only
directories are looked at for children, but nothing else can have any. -/
theorem sfsRemoveTarget_removable (ht : DirectoryTree s.super s.entries)
    (hc : DirId s.entries cwd) (path : List UInt8) :
    ∃ r, sfsRemoveTarget s path cwd = .ok r ∧ ∀ n, r = some n → Removable s.entries n := by
  obtain ⟨r, hr, hused⟩ := ht.resolve (ht.start hc path).used path
  simp only [sfsRemoveTarget, sfsResolve, hr, bind, Except.bind]
  cases r with
  | none => exact ⟨none, rfl, fun n he => by cases he⟩
  | some node =>
    obtain ⟨n, rfl, hn⟩ := hused node rfl
    by_cases hroot : slotId n = s.super.rootId
    · exact ⟨none, by simp [hroot], fun n he => by cases he⟩
    · have hlt : (slotId n).toNat < 64 := by rw [slotId_toNat]; omega
      have hidx : (⟨(slotId n).toNat, hlt⟩ : Fin 64) = n := Fin.ext (slotId_toNat n)
      simp only [hroot, ↓reduceIte, hlt, ↓reduceDIte, hidx]
      by_cases hch : (s.entries n).type = sfsTypeDir ∧ hasChild s.entries (slotId n) = true
      · exact ⟨none, by rw [if_pos hch], fun n he => by cases he⟩
      · refine ⟨some n, by rw [if_neg hch], fun m hm => ?_⟩
        obtain rfl := Option.some.inj hm
        refine ⟨hn, ?_, ?_⟩
        · intro h0
          rw [h0, ht.root] at hroot
          exact hroot rfl
        · intro i hi hp
          have hdir := ht.dirs i hi
          rw [hp] at hdir
          have hno : hasChild s.entries (slotId n) = false := by
            simpa [hdir.2] using hch
          have hpar := ht.parent i hi
          rw [hp] at hpar
          exact hasChild_false hno hi hpar

/-- Clearing a removable entry keeps the tree. -/
theorem DirectoryTree.remove (ht : DirectoryTree sb es) (hn : Removable es n) :
    DirectoryTree sb (Function.update es n Entry.zero) := by
  have hused : ∀ i, (Function.update es n Entry.zero i).used ≠ 0 ↔ (es i).used ≠ 0 ∧ i ≠ n := by
    intro i
    by_cases hi : i = n
    · subst hi
      simp [Entry.zero]
    · simp [hi]
  have hslot : ∀ i, i ≠ n → parentSlot (Function.update es n Entry.zero) i = parentSlot es i := by
    intro i hi
    unfold parentSlot
    rw [Function.update_of_ne hi]
  have hkeep : ∀ i, i ≠ n → Function.update es n Entry.zero i = es i :=
    fun i hi => Function.update_of_ne hi _ _
  refine ⟨ht.root, ?_, ?_, ?_, ?_, ?_, ?_, ?_⟩
  · exact (ht.tree.prune hn.nonroot (fun i hi _ => hn.childless i hi)).congr hused
      (fun i hi => hslot i hi.2)
  · intro i hi
    obtain ⟨hu, hne⟩ := (hused i).mp hi
    rw [hkeep i hne, hslot i hne]
    exact ht.parent i hu
  · intro i hi
    obtain ⟨hu, hne⟩ := (hused i).mp hi
    rw [hslot i hne, hkeep _ (hn.childless i hu)]
    exact ht.dirs i hu
  · intro i hi
    obtain ⟨hu, hne⟩ := (hused i).mp hi
    rw [hkeep i hne]
    exact ht.terminated i hu
  · intro i hi
    obtain ⟨hu, hne⟩ := (hused i).mp hi
    rw [hkeep i hne]
    exact ht.names i hu
  · rw [hkeep 0 hn.nonroot.symm]
    exact ht.rootName
  · intro i j hi hj hi0 hj0 hp he
    obtain ⟨hui, hnei⟩ := (hused i).mp hi
    obtain ⟨huj, hnej⟩ := (hused j).mp hj
    rw [hkeep i hnei, hkeep j hnej] at hp he
    exact ht.unique i j hui huj hi0 hj0 hp he

/-- Two tables that differ at most in where the files' bytes lie. -/
structure SameShape (es es' : Table) : Prop where
  used : ∀ i, (es' i).used = (es i).used
  type : ∀ i, (es' i).type = (es i).type
  perm : ∀ i, (es' i).perm = (es i).perm
  parent : ∀ i, (es' i).parent = (es i).parent
  name : ∀ i, (es' i).name = (es i).name

theorem SameShape.refl (es : Table) : SameShape es es :=
  ⟨fun _ => rfl, fun _ => rfl, fun _ => rfl, fun _ => rfl, fun _ => rfl⟩

theorem SameShape.trans (h : SameShape es es') (h' : SameShape es' es'') : SameShape es es'' :=
  ⟨fun i => (h'.used i).trans (h.used i), fun i => (h'.type i).trans (h.type i),
    fun i => (h'.perm i).trans (h.perm i), fun i => (h'.parent i).trans (h.parent i),
    fun i => (h'.name i).trans (h.name i)⟩

/-- Rewriting one entry's extent and size keeps the shape. -/
theorem SameShape.update (es : Table) (n : Fin 64) (start size capacity : UInt32) :
    SameShape es (Function.update es n { es n with
      startLba := start, size := size, capacitySectors := capacity }) := by
  have h : ∀ (β : Type) (f : Entry → β) (i : Fin 64), f { es n with
      startLba := start, size := size, capacitySectors := capacity } = f (es n) →
      f (Function.update es n { es n with
        startLba := start, size := size, capacitySectors := capacity } i) = f (es i) := by
    intro β f i hf
    by_cases hi : i = n
    · subst hi
      rw [Function.update_self]
      exact hf
    · rw [Function.update_of_ne hi]
  exact ⟨fun i => h _ Entry.used i rfl, fun i => h _ Entry.type i rfl,
    fun i => h _ Entry.perm i rfl, fun i => h _ Entry.parent i rfl, fun i => h _ Entry.name i rfl⟩

theorem SameShape.isDir (h : SameShape es es') (i : Fin 64) : (es' i).IsDir ↔ (es i).IsDir := by
  unfold Entry.IsDir
  rw [h.used, h.type]

theorem SameShape.nameBytes (h : SameShape es es') (i : Fin 64) :
    (es' i).nameBytes = (es i).nameBytes := congrArg List.ofFn (h.name i)

theorem DirectoryTree.reshape (ht : DirectoryTree sb es) (h : SameShape es es')
    (hroot : sb'.rootId = sb.rootId) : DirectoryTree sb' es' := by
  have hslot : parentSlot es' = parentSlot es := by
    funext i
    unfold parentSlot
    rw [h.parent]
  have hstr : ∀ i, (es' i).nameString = (es i).nameString := by
    intro i
    unfold Entry.nameString
    rw [h.nameBytes]
  refine ⟨hroot.trans ht.root, ?_, ?_, ?_, ?_, ?_, ?_, ?_⟩
  · exact ht.tree.congr (fun i => by rw [h.used]) (fun i _ => by rw [hslot])
  · intro i hi
    rw [h.used] at hi
    rw [h.parent, hslot]
    exact ht.parent i hi
  · intro i hi
    rw [h.used] at hi
    rw [hslot]
    exact (h.isDir _).mpr (ht.dirs i hi)
  · intro i hi
    rw [h.used] at hi
    rw [h.nameBytes]
    exact ht.terminated i hi
  · intro i hi
    rw [h.used] at hi
    rw [hstr]
    exact ht.names i hi
  · rw [hstr]
    exact ht.rootName
  · intro i j hi hj hi0 hj0 hp he
    rw [h.used] at hi hj
    rw [h.parent, h.parent] at hp
    rw [hstr, hstr] at he
    exact ht.unique i j hi hj hi0 hj0 hp he

end VertexOS
