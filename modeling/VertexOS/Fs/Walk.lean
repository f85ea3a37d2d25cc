import VertexOS.Fs.Paths

namespace VertexOS
open Library.Forest Library.Transitions

/-- The nonempty parts of a string between its separators. -/
def parts (str : List UInt8) : List (List UInt8) := (str.splitOn slash).filter (· ≠ [])

/-- The components of a path. -/
def components (path : List UInt8) : List (List UInt8) := parts (cString path)

/-- What `path_next` keeps of a component. -/
def cutName (name : List UInt8) : List UInt8 := name.take sfsNameMax

/-- The loop of `sfs_resolve` over the names that `path_next` delivers. -/
def walkNames (es : Table) : List (List UInt8) → UInt32 → Except Fault (Option UInt32)
  | [], current => .ok (some current)
  | name :: names, current =>
    if name = dot then walkNames es names current
    else if name = dotdot then (entryAt es current).bind fun e => walkNames es names e.parent
    else (sfsFindChild es current name).bind fun r => match r with
      | none => .ok none
      | some child => walkNames es names (slotId child)

section Parts

variable {path rest name : List UInt8}

theorem parts_append (xs ys : List UInt8) : parts (xs ++ slash :: ys) = parts xs ++ parts ys := by
  rw [parts, List.splitOn_append_cons_self, List.filter_append]
  rfl

theorem parts_nil : parts [] = [] := by
  simp [parts]

theorem parts_slash (ys : List UInt8) : parts (slash :: ys) = parts ys := by
  have h := parts_append [] ys
  rwa [parts_nil, List.nil_append, List.nil_append] at h

theorem parts_name (h : slash ∉ name) (hne : name ≠ []) : parts name = [name] := by
  rw [parts, List.splitOn_eq_singleton h]
  simp [hne]

theorem parts_slashes (xs : List UInt8) (ys : List UInt8) (h : ∀ c ∈ xs, c = slash) :
    parts (xs ++ ys) = parts ys := by
  induction xs with
  | nil => rfl
  | cons c cs ih =>
    obtain rfl := h c List.mem_cons_self
    rw [List.cons_append, parts_slash]
    exact ih fun d hd => h d (List.mem_cons_of_mem _ hd)

theorem cString_clean (h : 0 ∉ path) : cString path = path := by
  rw [cString, List.takeWhile_eq_self_iff]
  intro c hc
  simpa using fun he : c = 0 => h (he ▸ hc)

theorem cString_no_nul (path : List UInt8) : 0 ∉ cString path := by
  intro h
  simpa using List.mem_takeWhile_imp h

theorem components_end (h : pathNext path = none) : components path = [] := by
  have hs : cString path = path.takeWhile (· == slash) := by
    rw [cString_dropWhile, cString_headD, List.append_nil]
    unfold pathNext at h
    dsimp only at h
    split at h
    · assumption
    · cases h
  have hall : ∀ c ∈ path.takeWhile (· == slash), c = slash := by
    intro c hc
    simpa using List.mem_takeWhile_imp hc
  rw [components, hs, ← List.append_nil (path.takeWhile _), parts_slashes _ _ hall, parts_nil]

/-- `path_next` takes the first component off a path, and cuts it. -/
theorem components_next (h : pathNext path = some (name, rest)) :
    ∃ full, components path = full :: components rest ∧ name = cutName full := by
  obtain ⟨xs, full, hpath, hx, hfull, hname, hrest⟩ := pathNext_split h
  have hne : full ≠ [] := by
    intro he
    rw [he] at hname
    exact (pathNext_some h).2.1 hname
  refine ⟨full, ?_, hname⟩
  rw [components, hpath, List.append_assoc, parts_slashes xs _ hx, components]
  cases rest with
  | nil =>
    rw [cString_headD rfl, List.append_nil, parts_name hfull hne, parts_nil]
  | cons c cs =>
    rcases hrest with hc | hc
    · rw [cString_headD hc, List.append_nil, parts_name hfull hne, parts_nil]
    · obtain rfl : c = slash := hc
      rw [cString_cons, if_neg (by decide), parts_append, parts_name hfull hne, parts_slash]
      rfl

end Parts

theorem components_valid (path : List UInt8) :
    ∀ name ∈ (components path).map cutName, ValidName name := by
  induction hm : path.length using Nat.strongRecOn generalizing path with
  | ind m ih =>
    cases hnext : pathNext path with
    | none =>
      rw [components_end hnext]
      simp
    | some p =>
      obtain ⟨name, rest⟩ := p
      obtain ⟨full, hfull, hname⟩ := components_next hnext
      rw [hfull, List.map_cons, ← hname]
      intro x hx
      rcases List.mem_cons.mp hx with rfl | hx
      · exact pathNext_valid hnext
      · exact ih _ (hm ▸ (pathNext_some hnext).1) rest rfl x hx

/-- The walk of `sfs_resolve` sees the path's components, each cut to 31 bytes. -/
theorem resolveLoop_components (es : Table) (path : List UInt8) (current : UInt32) :
    resolveLoop es path current = walkNames es ((components path).map cutName) current := by
  induction hm : path.length using Nat.strongRecOn generalizing path current with
  | ind m ih =>
    cases hnext : pathNext path with
    | none =>
      rw [resolveLoop_end es current hnext, components_end hnext]
      rfl
    | some p =>
      obtain ⟨name, rest⟩ := p
      have hlen := (pathNext_some hnext).1
      have hrest : ∀ current, resolveLoop es rest current =
          walkNames es ((components rest).map cutName) current :=
        fun current => ih _ (hm ▸ hlen) rest current rfl
      obtain ⟨full, hfull, hname⟩ := components_next hnext
      have hstep := resolveLoop_next es current hnext
      simp only [hrest] at hstep
      rw [hfull, List.map_cons, ← hname]
      exact hstep

/-- The entry table is a tree of directories and files below the entry `root`. -/
structure EntryTree (sb : Superblock) (es : Table) (root : Fin 64) : Prop where
  rootId : sb.rootId = slotId root
  tree : IsTree (fun i => (es i).used ≠ 0) (parentSlot es) root
  parent : ∀ i, (es i).used ≠ 0 → (es i).parent = slotId (parentSlot es i)
  dirs : ∀ i, (es i).used ≠ 0 → (es (parentSlot es i)).IsDir
  terminated : ∀ i, (es i).used ≠ 0 → 0 ∈ (es i).nameBytes
  rootName : slash ∈ (es root).nameString
  unique : ∀ i j, (es i).used ≠ 0 → (es j).used ≠ 0 → i ≠ root → j ≠ root →
    (es i).parent = (es j).parent → (es i).nameString = (es j).nameString → i = j

theorem DirectoryTree.entryTree (ht : DirectoryTree sb es) : EntryTree sb es 0 :=
  ⟨ht.root, ht.tree, ht.parent, ht.dirs, ht.terminated, by simp [ht.rootName], ht.unique⟩

/-- Where a component leads to from a node: `.` stays, `..` moves to the parent, any other name
moves to the child of that name. -/
inductive Leads (es : Table) : Fin 64 → List UInt8 → Fin 64 → Prop
  | here (n : Fin 64) : Leads es n dot n
  | up (n : Fin 64) : Leads es n dotdot (parentSlot es n)
  | down {n i : Fin 64} {name : List UInt8} (hdot : name ≠ dot) (hdotdot : name ≠ dotdot)
      (used : (es i).used ≠ 0) (parent : (es i).parent = slotId n)
      (named : (es i).nameString = name) : Leads es n name i

/-- A component taken at a directory. -/
def DirLeads (es : Table) (n : Fin 64) (name : List UInt8) (m : Fin 64) : Prop :=
  (es n).IsDir ∧ Leads es n name m

section EntryTree

variable {sb : Superblock} {es : Table} {root n m : Fin 64} {name : List UInt8}
  {names : List (List UInt8)} (ht : EntryTree sb es root)

include ht

/-- A lookup finds the child of that name, if there is one. -/
theorem EntryTree.findChild (hn : ValidName name) : ∃ r, sfsFindChild es (slotId n) name = .ok r ∧
    ∀ i, r = some i ↔ (es i).used ≠ 0 ∧ (es i).parent = slotId n ∧ (es i).nameString = name := by
  refine ⟨_, sfsFindChild_eq ht.terminated hn.no_nul (slotId n), fun i => ?_⟩
  have hroot : ∀ k, (es k).nameString = name → k ≠ root := by
    intro k hk he
    have hs := ht.rootName
    rw [← he, hk] at hs
    exact (hn.bytes slash hs).2 rfl
  constructor
  · intro h
    exact isChild_iff.mp (List.find?_some h)
  · intro h
    cases hf : (List.finRange 64).find? (isChild es (slotId n) name) with
    | none =>
      have hno := List.find?_eq_none.mp hf i (List.mem_finRange i)
      exact absurd (isChild_iff.mpr h) hno
    | some k =>
      have hk := isChild_iff.mp (List.find?_some hf)
      rw [ht.unique k i hk.1 h.1 (hroot k hk.2.2) (hroot i h.2.2) (hk.2.1.trans h.2.1.symm)
        (hk.2.2.trans h.2.2.symm)]

/-- One component: the code goes where the component leads. -/
theorem EntryTree.next (names : List (List UInt8)) (hn : (es n).used ≠ 0)
    (hname : ValidName name) :
    (∀ m, Leads es n name m → (es m).used ≠ 0 ∧
      walkNames es (name :: names) (slotId n) = walkNames es names (slotId m)) ∧
    ((∀ m, ¬Leads es n name m) → walkNames es (name :: names) (slotId n) = .ok none) := by
  rw [walkNames]
  constructor
  · intro m hm
    cases hm with
    | here => exact ⟨hn, by rw [if_pos rfl]⟩
    | up =>
      refine ⟨(ht.dirs n hn).1, ?_⟩
      rw [if_neg (by decide), if_pos rfl, entryAt_slot, ← ht.parent n hn]
      rfl
    | down hdot hdotdot hused hparent hnamed =>
      refine ⟨hused, ?_⟩
      obtain ⟨r, hr, hiff⟩ := ht.findChild (n := n) hname
      rw [if_neg hdot, if_neg hdotdot, hr, (hiff m).mpr ⟨hused, hparent, hnamed⟩]
      rfl
  · intro hno
    have hdot : name ≠ dot := by
      rintro rfl
      exact hno n (.here n)
    have hdotdot : name ≠ dotdot := by
      rintro rfl
      exact hno _ (.up n)
    obtain ⟨r, hr, hiff⟩ := ht.findChild (n := n) hname
    rw [if_neg hdot, if_neg hdotdot, hr]
    cases r with
    | none => rfl
    | some i =>
      obtain ⟨hused, hparent, hnamed⟩ := (hiff i).mp rfl
      exact absurd (.down hdot hdotdot hused hparent hnamed) (hno i)

/-- The code ends where the components lead to, and fails where they lead nowhere. -/
theorem EntryTree.walk (hn : (es n).used ≠ 0) (hnames : ∀ name ∈ names, ValidName name) :
    (∀ m, Run (Leads es) n names m → walkNames es names (slotId n) = .ok (some (slotId m))) ∧
    ((∀ m, ¬Run (Leads es) n names m) → walkNames es names (slotId n) = .ok none) := by
  induction names generalizing n with
  | nil =>
    constructor
    · intro m hm
      cases hm
      rfl
    · intro hno
      exact absurd (.nil n) (hno n)
  | cons name names ih =>
    have hrest : ∀ name ∈ names, ValidName name :=
      fun x hx => hnames x (List.mem_cons_of_mem _ hx)
    obtain ⟨hsome, hnone⟩ := ht.next names hn (hnames name List.mem_cons_self)
    constructor
    · intro m hm
      cases hm with
      | cons head tail =>
        obtain ⟨hused, he⟩ := hsome _ head
        rw [he]
        exact (ih hused hrest).1 m tail
    · intro hno
      by_cases hex : ∃ k, Leads es n name k
      · obtain ⟨k, hk⟩ := hex
        obtain ⟨hused, he⟩ := hsome k hk
        rw [he]
        exact (ih hused hrest).2 fun m hm => hno m (.cons hk hm)
      · exact hnone fun k hk => hex ⟨k, hk⟩

omit ht in
/-- A `.` or `..` of the names is taken at a node that is no directory. -/
def DotAtFile (es : Table) (n : Fin 64) (names : List (List UInt8)) : Prop :=
  ∃ done name more m, names = done ++ name :: more ∧ (name = dot ∨ name = dotdot) ∧
    Run (Leads es) n done m ∧ ¬(es m).IsDir

/-- The nodes that are walked through are directories, or one of them stands before a dot. -/
theorem EntryTree.through (h : Run (Leads es) n names m) :
    Run (DirLeads es) n names m ∨ DotAtFile es n names := by
  induction h with
  | nil n => exact .inl (.nil n)
  | @cons n k m name names head tail ih =>
    by_cases hd : (es n).IsDir
    · rcases ih with hrun | ⟨done, dotted, more, l, rfl, hname, hrun, hl⟩
      · exact .inl (.cons ⟨hd, head⟩ hrun)
      · exact .inr ⟨name :: done, dotted, more, l, rfl, hname, .cons head hrun, hl⟩
    · refine .inr ⟨[], name, names, n, rfl, ?_, .nil n, hd⟩
      cases head with
      | here => exact .inl rfl
      | up => exact .inr rfl
      | down hdot hdotdot hused hparent hnamed =>
        have hdir := ht.dirs k hused
        rw [parentSlot_of_eq hparent] at hdir
        exact absurd hdir hd

end EntryTree

/-- Where a walk of the path starts. -/
def startSlot (root cwd : Fin 64) (path : List UInt8) : Fin 64 :=
  if path.headD 0 = slash then root else cwd

theorem EntryTree.start (ht : EntryTree sb es root) (cwd : Fin 64) (path : List UInt8) :
    startNode sb path (slotId cwd) = slotId (startSlot root cwd path) := by
  rw [startNode, startSlot, ht.rootId]
  split <;> rfl

/-- A path resolves to the node that its components, each cut to 31 bytes, lead to through
directories, and to no other unless a dot is taken at a file. -/
theorem sfs_resolve_walks (s : SimpleFs) (root cwd : Fin 64) (path : List UInt8)
    (ht : EntryTree s.super s.entries root) (hc : (s.entries cwd).IsDir) :
    (∃ r, sfsResolve s path (slotId cwd) = .ok r) ∧
    (∀ m, Run (DirLeads s.entries) (startSlot root cwd path) ((components path).map cutName) m →
      sfsResolve s path (slotId cwd) = .ok (some (slotId m))) ∧
    (∀ id, sfsResolve s path (slotId cwd) = .ok (some id) →
      (∃ m, id = slotId m ∧ Run (DirLeads s.entries) (startSlot root cwd path)
        ((components path).map cutName) m) ∨
      DotAtFile s.entries (startSlot root cwd path) ((components path).map cutName)) := by
  have hused : (s.entries (startSlot root cwd path)).used ≠ 0 := by
    rw [startSlot]
    split
    · exact ht.tree.root_used
    · exact hc.1
  have hwalk := ht.walk hused (components_valid path)
  rw [sfsResolve, ht.start, resolveLoop_components]
  refine ⟨?_, ?_, ?_⟩
  · by_cases hex : ∃ m, Run (Leads s.entries) (startSlot root cwd path)
        ((components path).map cutName) m
    · obtain ⟨m, hm⟩ := hex
      exact ⟨_, hwalk.1 m hm⟩
    · exact ⟨_, hwalk.2 fun m hm => hex ⟨m, hm⟩⟩
  · intro m hm
    exact hwalk.1 m (hm.mono fun _ _ _ h => h.2)
  · intro id hid
    by_cases hex : ∃ m, Run (Leads s.entries) (startSlot root cwd path)
        ((components path).map cutName) m
    · obtain ⟨m, hm⟩ := hex
      rw [hwalk.1 m hm] at hid
      cases hid
      exact (ht.through hm).imp_left fun h => ⟨m, rfl, h⟩
    · rw [hwalk.2 fun m hm => hex ⟨m, hm⟩] at hid
      cases hid

/-- A volume with one file in its root. -/
theorem one_file_tree (name : List UInt8) : ∃ s,
    (∃ ok, sfsStep (formatted 0 blankDrive) (.create name 0 sfsTypeFile 3) = .ok (s, ok)) ∧
    EntryTree s.super s.entries 0 := by
  have hv : (SfsCall.create name 0 sfsTypeFile 3).Valid (formatted 0 blankDrive) :=
    ⟨⟨0, rfl, by decide, by decide⟩, .inl rfl⟩
  obtain ⟨s, ok, hok, ht⟩ := sfsStep_tree (formatted_tree blankDrive) hv
  exact ⟨s, ⟨ok, hok⟩, ht.entryTree⟩

theorem sfs_resolve_walks_child : ∃ s, EntryTree s.super s.entries 0 ∧
    sfsResolve s [97] (slotId 0) = .ok (some (slotId 1)) := by
  obtain ⟨s, ⟨ok, hok⟩, ht⟩ := one_file_tree [97]
  have heval : (sfsStep (formatted 0 blankDrive) (.create [97] 0 sfsTypeFile 3)).toOption.map
      (fun p => ((p.1.entries 0).used, (p.1.entries 0).type, (p.1.entries 1).used,
        (p.1.entries 1).parent, (p.1.entries 1).nameString)) =
      some (1, sfsTypeDir, 1, 0, [97]) := by
    decide +kernel
  rw [hok] at heval
  obtain ⟨hused0, htype, hused, hparent, hname⟩ : (s.entries 0).used = 1 ∧
      (s.entries 0).type = sfsTypeDir ∧ (s.entries 1).used = 1 ∧ (s.entries 1).parent = 0 ∧
      (s.entries 1).nameString = [97] := by
    simpa using Option.some.inj heval
  have hdir : (s.entries 0).IsDir := ⟨by rw [hused0]; decide, htype⟩
  have hchild : Leads s.entries 0 [97] 1 :=
    .down (by decide) (by decide) (by rw [hused]; decide) hparent hname
  have hparts : (components [97]).map cutName = [[97]] := by
    decide +kernel
  refine ⟨s, ht, (sfs_resolve_walks s 0 0 [97] ht hdir).2.1 1 ?_⟩
  rw [hparts]
  exact .cons ⟨hdir, hchild⟩ (.nil 1)

def letters (n : Nat) : List UInt8 := List.replicate n 97

/-- A path whose only component has 32 bytes resolves to the file whose name is the first 31. -/
theorem sfs_resolve_cuts_names : ∃ s, EntryTree s.super s.entries 0 ∧ (s.entries 0).IsDir ∧
    sfsResolve s (letters 32) (slotId 0) = .ok (some (slotId 1)) ∧
    ∀ m, ¬Run (DirLeads s.entries) 0 (components (letters 32)) m := by
  obtain ⟨s, ⟨ok, hok⟩, ht⟩ := one_file_tree (letters 31)
  have heval : (sfsStep (formatted 0 blankDrive)
      (.create (letters 31) 0 sfsTypeFile 3)).toOption.map
      (fun p => ((p.1.entries 0).used, (p.1.entries 0).type,
        (sfsResolve p.1 (letters 32) 0).toOption,
        (List.finRange 64).all fun i => (p.1.entries i).nameString ≠ letters 32)) =
      some (1, sfsTypeDir, some (some 1), true) := by
    decide +kernel
  rw [hok] at heval
  obtain ⟨hused, htype, hres, hnames⟩ : (s.entries 0).used = 1 ∧
      (s.entries 0).type = sfsTypeDir ∧
      (sfsResolve s (letters 32) 0).toOption = some (some 1) ∧
      ∀ i, (s.entries i).nameString ≠ letters 32 := by
    simpa using Option.some.inj heval
  have hparts : components (letters 32) = [letters 32] := by
    decide +kernel
  refine ⟨s, ht, ⟨by rw [hused]; decide, htype⟩, ?_, ?_⟩
  · cases hr : sfsResolve s (letters 32) (slotId 0) with
    | error e =>
      have hr' : sfsResolve s (letters 32) 0 = .error e := hr
      rw [hr'] at hres
      cases hres
    | ok r =>
      have hr' : sfsResolve s (letters 32) 0 = .ok r := hr
      rw [hr'] at hres
      cases hres
      rfl
  · intro m hm
    rw [hparts] at hm
    cases hm with
    | cons head tail =>
      generalize he : letters 32 = name at head
      cases head.2 with
      | here => revert he; decide
      | up => revert he; decide
      | down hdot hdotdot hused hparent hnamed => exact hnames _ (hnamed.trans he.symm)

end VertexOS
