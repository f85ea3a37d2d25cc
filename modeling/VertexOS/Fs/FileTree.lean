import VertexOS.Library.FileTree
import VertexOS.Vfs.Written
import VertexOS.Fs.Walk

namespace VertexOS
open Library.BlockStore Library.FileTree Library.Transitions

/-! The volume as a tree of files, without sectors, extents and table entries. -/

abbrev Nodes := Tree (Fin 64) (List UInt8) UInt8 UInt8

/-- The node of an entry whose file holds the bytes. -/
def Entry.node (e : Entry) (bytes : List UInt8) : Option (Node (Fin 64) (List UInt8) UInt8 UInt8) :=
  if e.used = 0 then none
  else some ⟨Fin.ofNat 64 e.parent.toNat, e.nameString, e.perm,
    if e.type = sfsTypeDir then none else some bytes⟩

def SimpleFs.nodes (s : SimpleFs) : Nodes := fun i =>
  (s.entries i).node (content s.entries s.dev.sectors i)

def moveOf (name : List UInt8) : Move (List UInt8) :=
  if name = dot then .here else if name = dotdot then .up else .down name

/-- The moves of a path, its names cut to 31 bytes. -/
def movesOf (path : List UInt8) : List (Move (List UInt8)) :=
  ((components path).map cutName).map moveOf

/-- The names that a create walks, and the one it gives to the new node. The last component is the
new name, and is walked too where it is `.` or `..`, or where a separator follows it. -/
def createNames (path last : List UInt8) : List (List UInt8) × List UInt8 :=
  match h : pathNext path with
  | none => ([], last)
  | some (name, rest) =>
    have : rest.length < path.length := (pathNext_some h).1
    if name ≠ dot ∧ name ≠ dotdot ∧ rest.headD 0 = 0 then ([], name)
    else
      let (names, last) := createNames rest name
      (name :: names, last)
termination_by path.length

/-- `sfs_create` on the tree. -/
def Makes (t : Nodes) (start : Fin 64) (path : List UInt8) (rights : UInt8)
    (bytes : Option (List UInt8)) (t' : Nodes) (r : Option (Fin 64)) : Prop :=
  let (names, last) := createNames path []
  if last = [] then t' = t ∧ r = none
  else t.Creates start (names.map moveOf) last rights bytes t' r

/-- What keeps the tree on the disk. -/
structure Settled (s : SimpleFs) : Prop where
  tree : DirectoryTree s.super s.entries
  reliable : s.dev.Reliable
  allocation : Allocation s.super s.entries
  free : s.super.nextFreeLba.toNat ≤ 65536
  typed : ∀ i, (s.entries i).used ≠ 0 →
    (s.entries i).type = sfsTypeFile ∨ (s.entries i).type = sfsTypeDir

section Nodes

variable {s s' : SimpleFs} {n m i : Fin 64} {e : Entry} {name : List UInt8}

theorem node_used {bytes : List UInt8} (h : e.used ≠ 0) : e.node bytes =
    some ⟨Fin.ofNat 64 e.parent.toNat, e.nameString, e.perm,
      if e.type = sfsTypeDir then none else some bytes⟩ := if_neg h

theorem nodes_used (h : (s.entries i).used ≠ 0) : s.nodes i =
    some ⟨parentSlot s.entries i, (s.entries i).nameString, (s.entries i).perm,
      if (s.entries i).type = sfsTypeDir then none
      else some (content s.entries s.dev.sectors i)⟩ := if_neg h

theorem nodes_none : s.nodes i = none ↔ (s.entries i).used = 0 := by
  constructor
  · intro h
    by_contra hu
    rw [nodes_used hu] at h
    cases h
  · exact fun h => if_pos h

theorem nodes_some {node : Node (Fin 64) (List UInt8) UInt8 UInt8} (h : s.nodes i = some node) :
    (s.entries i).used ≠ 0 ∧ node.parent = parentSlot s.entries i ∧
      node.name = (s.entries i).nameString ∧ node.rights = (s.entries i).perm ∧
      node.bytes = if (s.entries i).type = sfsTypeDir then none
        else some (content s.entries s.dev.sectors i) := by
  have hu : (s.entries i).used ≠ 0 := by
    intro h0
    rw [nodes_none.mpr h0] at h
    cases h
  rw [nodes_used hu] at h
  cases h
  exact ⟨hu, rfl, rfl, rfl, rfl⟩

theorem nodes_isDir : s.nodes.IsDir i ↔ (s.entries i).IsDir := by
  constructor
  · rintro ⟨node, hnode, hbytes⟩
    obtain ⟨hu, -, -, -, hb⟩ := nodes_some hnode
    refine ⟨hu, ?_⟩
    by_contra hd
    rw [hb, if_neg hd] at hbytes
    cases hbytes
  · rintro ⟨hu, hd⟩
    exact ⟨_, nodes_used hu, if_pos hd⟩

/-- A file's node holds its bytes. -/
theorem nodes_file (hf : (s.entries i).IsFile) : s.nodes i =
    some ⟨parentSlot s.entries i, (s.entries i).nameString, (s.entries i).perm,
      some (content s.entries s.dev.sectors i)⟩ := by
  have htype : (s.entries i).type ≠ sfsTypeDir := by
    rw [hf.2]
    decide
  rw [nodes_used hf.1, if_neg htype]

/-- Components lead in the tree where they lead in the table. -/
theorem Settled.leads_iff (h : Settled s) (hn : (s.entries n).used ≠ 0) :
    s.nodes.Leads n (moveOf name) m ↔ Leads s.entries n name m := by
  have hup : s.nodes.Leads n .up m ↔ m = parentSlot s.entries n := by
    constructor
    · intro hl
      cases hl with
      | up hnode => exact (nodes_some hnode).2.1
    · rintro rfl
      exact .up (nodes_used hn)
  unfold moveOf
  by_cases hdot : name = dot
  · rw [if_pos hdot]
    subst hdot
    constructor
    · intro hl
      cases hl
      exact .here n
    · intro hl
      generalize he : dot = name at hl
      cases hl with
      | here => exact .here n
      | up => cases he
      | down hd _ _ _ _ => exact absurd he.symm hd
  · rw [if_neg hdot]
    by_cases hdd : name = dotdot
    · rw [if_pos hdd, hup]
      subst hdd
      constructor
      · rintro rfl
        exact .up n
      · intro hl
        generalize he : dotdot = name at hl
        cases hl with
        | here => cases he
        | up => rfl
        | down _ hd _ _ _ => exact absurd he.symm hd
    · rw [if_neg hdd]
      constructor
      · intro hl
        generalize n = p at hl
        generalize he : Move.down name = move at hl
        cases hl with
        | here => cases he
        | up _ => cases he
        | down hnode =>
          obtain ⟨hu, hparent, hname, -, -⟩ := nodes_some hnode
          cases he
          refine .down hdot hdd hu ?_ hname.symm
          rw [h.tree.parent m hu, ← hparent]
      · intro hl
        cases hl with
        | here => exact absurd rfl hdot
        | up => exact absurd rfl hdd
        | down _ _ hu hparent hname =>
          have hslot : parentSlot s.entries m = n := parentSlot_of_eq hparent
          subst hname
          rw [← hslot]
          exact .down (nodes_used hu)

theorem Settled.leads_used (h : Settled s) (hn : (s.entries n).used ≠ 0)
    (hl : Leads s.entries n name m) : (s.entries m).used ≠ 0 := by
  cases hl with
  | here => exact hn
  | up => exact (h.tree.dirs n hn).1
  | down _ _ hu _ _ => exact hu

theorem Settled.run_leads_iff {names : List (List UInt8)} (h : Settled s)
    (hn : (s.entries n).used ≠ 0) :
    Run s.nodes.Leads n (names.map moveOf) m ↔ Run (Leads s.entries) n names m := by
  induction names generalizing n with
  | nil =>
    constructor <;>
    · intro hrun
      cases hrun
      exact .nil _
  | cons name names ih =>
    constructor
    · intro hrun
      cases hrun with
      | cons head tail =>
        have hl := (h.leads_iff hn).mp head
        exact .cons hl ((ih (h.leads_used hn hl)).mp tail)
    · intro hrun
      cases hrun with
      | cons head tail =>
        exact .cons ((h.leads_iff hn).mpr head) ((ih (h.leads_used hn head)).mpr tail)

/-- `sfs_resolve` ends where the path leads in the tree. -/
theorem Settled.resolve {cwd : Fin 64} (h : Settled s) (hc : (s.entries cwd).used ≠ 0)
    (path : List UInt8) :
    (∃ i, sfsResolve s path (slotId cwd) = .ok (some (slotId i)) ∧ (s.entries i).used ≠ 0 ∧
      Run s.nodes.Leads (startSlot 0 cwd path) (movesOf path) i ∧
      ∀ j, Run s.nodes.Leads (startSlot 0 cwd path) (movesOf path) j → j = i) ∨
    sfsResolve s path (slotId cwd) = .ok none ∧
      ∀ i, ¬Run s.nodes.Leads (startSlot 0 cwd path) (movesOf path) i := by
  have ht := h.tree.entryTree
  have hstart : (s.entries (startSlot 0 cwd path)).used ≠ 0 := by
    rw [startSlot]
    split
    · exact h.tree.tree.root_used
    · exact hc
  obtain ⟨hsome, hnone⟩ := ht.walk hstart (components_valid path)
  rw [sfsResolve, ht.start, resolveLoop_components, movesOf]
  simp only [h.run_leads_iff hstart]
  by_cases hex : ∃ i, Run (Leads s.entries) (startSlot 0 cwd path)
      ((components path).map cutName) i
  · obtain ⟨i, hi⟩ := hex
    have hres := hsome i hi
    obtain ⟨r, hr, hused⟩ := h.tree.resolve ⟨_, rfl, hstart⟩ path
    rw [resolveLoop_components, hres] at hr
    cases hr
    obtain ⟨k, hk, hu⟩ := hused _ rfl
    obtain rfl := slotId_inj hk
    refine .inl ⟨i, hres, hu, hi, fun j hj => ?_⟩
    have hsame := hsome j hj
    rw [hres] at hsame
    exact slotId_inj (Option.some.inj (Except.ok.inj hsame.symm))
  · exact .inr ⟨hnone fun i hi => hex ⟨i, hi⟩, fun i hi => hex ⟨i, hi⟩⟩

theorem createNames_end {path last : List UInt8} (h : pathNext path = none) :
    createNames path last = ([], last) := by
  rw [createNames]
  split
  · rfl
  · next hnext =>
    rw [h] at hnext
    cases hnext

theorem createNames_next {path last rest : List UInt8} (h : pathNext path = some (name, rest)) :
    createNames path last =
      if name ≠ dot ∧ name ≠ dotdot ∧ rest.headD 0 = 0 then ([], name)
      else (name :: (createNames rest name).1, (createNames rest name).2) := by
  rw [createNames]
  split
  · next hnext =>
    rw [h] at hnext
    cases hnext
  · next name' rest' hnext =>
    rw [h] at hnext
    cases hnext
    rfl

/-- One component of a create's walk, in the tree. -/
theorem Settled.enters_iff (h : Settled s) (hn : (s.entries n).used ≠ 0) :
    s.nodes.Enters n (moveOf name) m ↔ Leads s.entries n name m ∧
      (name ≠ dot → name ≠ dotdot → (s.entries m).IsDir) := by
  rw [Tree.Enters, h.leads_iff hn, and_congr_right_iff]
  intro _
  rw [nodes_isDir, moveOf]
  by_cases hdot : name = dot
  · simp [hdot]
  · by_cases hdd : name = dotdot
    · have hne : dotdot ≠ dot := by decide
      simp [hdd, hne]
    · simp [hdot, hdd]

theorem createLoop_end {path : List UInt8} (es : Table) (current : UInt32) (last : List UInt8)
    (h : pathNext path = none) : createLoop es path current last = .ok (some (current, last)) := by
  rw [createLoop]
  split
  · rfl
  · next hnext =>
    rw [h] at hnext
    cases hnext

theorem createLoop_next {path rest : List UInt8} (es : Table) (current : UInt32)
    (last : List UInt8) (h : pathNext path = some (name, rest)) :
    createLoop es path current last =
      if name = dot then createLoop es rest current name
      else if name = dotdot then
        (entryAt es current).bind fun e => createLoop es rest e.parent name
      else if rest.headD 0 = 0 then .ok (some (current, name))
      else (sfsFindChild es current name).bind fun r => match r with
        | none => .ok none
        | some child =>
          if (es child).type ≠ sfsTypeDir then .ok none
          else createLoop es rest (slotId child) name := by
  rw [createLoop]
  split
  · next hnext =>
    rw [h] at hnext
    cases hnext
  · next name' rest' hnext =>
    rw [h] at hnext
    cases hnext
    rfl

/-- `.`, `..` and a child's name lead to one node each at most. -/
theorem Leads.unique {sb : Superblock} {es : Table} (ht : EntryTree sb es 0)
    (hname : ValidName name) (h : Leads es n name i) (h' : Leads es n name m) : i = m := by
  cases h with
  | here =>
    generalize he : dot = name at h'
    cases h' with
    | here => rfl
    | up => cases he
    | down hd _ _ _ _ => exact absurd he.symm hd
  | up =>
    generalize he : dotdot = name at h'
    cases h' with
    | here => cases he
    | up => rfl
    | down _ hd _ _ _ => exact absurd he.symm hd
  | down hdot hdd hu hp hnamed =>
    cases h' with
    | here => exact absurd rfl hdot
    | up => exact absurd rfl hdd
    | down _ _ hu' hp' hnamed' =>
      obtain ⟨r, -, hiff⟩ := ht.findChild (n := n) hname
      have hi := (hiff i).mpr ⟨hu, hp, hnamed⟩
      have hm := (hiff m).mpr ⟨hu', hp', hnamed'⟩
      exact Option.some.inj (hi.symm.trans hm)

/-- A create goes on to the one directory that a component enters, or fails there. -/
theorem Settled.component {path rest : List UInt8} (h : Settled s) (hn : (s.entries n).IsDir)
    (hnext : pathNext path = some (name, rest))
    (hon : ¬(name ≠ dot ∧ name ≠ dotdot ∧ rest.headD 0 = 0)) (last : List UInt8) :
    (∃ j, s.nodes.Enters n (moveOf name) j ∧ (s.entries j).IsDir ∧
      createLoop s.entries path (slotId n) last = createLoop s.entries rest (slotId j) name) ∨
    (∀ j, ¬s.nodes.Enters n (moveOf name) j) ∧
      createLoop s.entries path (slotId n) last = .ok none := by
  rw [createLoop_next s.entries _ last hnext]
  simp only [h.enters_iff hn.1]
  by_cases hdot : name = dot
  · subst hdot
    rw [if_pos rfl]
    exact .inl ⟨n, ⟨.here n, fun hne => absurd rfl hne⟩, hn, rfl⟩
  · by_cases hdd : name = dotdot
    · subst hdd
      rw [if_neg hdot, if_pos rfl, entryAt_slot, Except.bind, h.tree.parent n hn.1]
      exact .inl ⟨_, ⟨.up n, fun _ hne => absurd rfl hne⟩, h.tree.dirs n hn.1, rfl⟩
    · have hend : rest.headD 0 ≠ 0 := fun he => hon ⟨hdot, hdd, he⟩
      obtain ⟨r, hr, hiff⟩ := h.tree.entryTree.findChild (n := n) (pathNext_valid hnext)
      have hchild : ∀ i, Leads s.entries n name i → r = some i := by
        intro i hl
        cases hl with
        | here => exact absurd rfl hdot
        | up => exact absurd rfl hdd
        | down _ _ hu hp hname => exact (hiff i).mpr ⟨hu, hp, hname⟩
      rw [if_neg hdot, if_neg hdd, if_neg hend, hr, Except.bind]
      cases r with
      | none => exact .inr ⟨fun j hj => Option.some_ne_none j (hchild j hj.1).symm, rfl⟩
      | some child =>
        dsimp only
        obtain ⟨hu, hp, hname⟩ := (hiff child).mp rfl
        by_cases hd : (s.entries child).type = sfsTypeDir
        · rw [if_neg fun hne => hne hd]
          exact .inl ⟨child, ⟨.down hdot hdd hu hp hname, fun _ _ => ⟨hu, hd⟩⟩, ⟨hu, hd⟩, rfl⟩
        · rw [if_pos hd]
          refine .inr ⟨fun j hj => ?_, rfl⟩
          obtain rfl := Option.some.inj (hchild j hj.1)
          exact hd (hj.2 hdot hdd).2

/-- The walk of a create enters directories only. -/
theorem Settled.createLoop (h : Settled s) (hn : (s.entries n).IsDir) (path last : List UInt8) :
    (∃ d, createLoop s.entries path (slotId n) last =
        .ok (some (slotId d, (createNames path last).2)) ∧ (s.entries d).IsDir ∧
      Run s.nodes.Enters n ((createNames path last).1.map moveOf) d) ∨
    VertexOS.createLoop s.entries path (slotId n) last = .ok none ∧
      ∀ d, ¬Run s.nodes.Enters n ((createNames path last).1.map moveOf) d := by
  induction hm : path.length using Nat.strongRecOn generalizing path n last with
  | ind k ih =>
    cases hnext : pathNext path with
    | none =>
      rw [createLoop_end s.entries _ last hnext, createNames_end hnext]
      exact .inl ⟨n, rfl, hn, .nil n⟩
    | some p =>
      obtain ⟨name, rest⟩ := p
      rw [createNames_next hnext]
      by_cases hon : name ≠ dot ∧ name ≠ dotdot ∧ rest.headD 0 = 0
      · rw [createLoop_next s.entries _ last hnext, if_neg hon.1, if_neg hon.2.1, if_pos hon.2.2,
          if_pos hon]
        exact .inl ⟨n, rfl, hn, .nil n⟩
      · rw [if_neg hon]
        rcases h.component hn hnext hon last with ⟨j, hj, hdir, hloop⟩ | ⟨hno, hloop⟩
        · rw [hloop]
          have hlen : rest.length < k := hm ▸ (pathNext_some hnext).1
          rcases ih _ hlen hdir rest name rfl with ⟨d, hd, hend, hrun⟩ | ⟨hnone, hnowhere⟩
          · exact .inl ⟨d, hd, hend, .cons hj hrun⟩
          · refine .inr ⟨hnone, fun d hrun => ?_⟩
            cases hrun with
            | cons head tail =>
              have hsame := Leads.unique h.tree.entryTree (pathNext_valid hnext)
                ((h.enters_iff hn.1).mp head).1 ((h.enters_iff hn.1).mp hj).1
              subst hsame
              exact hnowhere d tail
        · refine .inr ⟨hloop, fun d hrun => ?_⟩
          cases hrun with
          | cons head tail => exact hno _ head

theorem node_congr {bytes bytes' : List UInt8}
    (htyped : e.used ≠ 0 → e.type = sfsTypeFile ∨ e.type = sfsTypeDir)
    (hb : e.IsFile → bytes = bytes') : e.node bytes = e.node bytes' := by
  by_cases hu : e.used = 0
  · exact (if_pos hu).trans (if_pos hu).symm
  · rw [node_used hu, node_used hu]
    rcases htyped hu with hf | hd
    · rw [hb ⟨hu, hf⟩]
    · rw [if_pos hd, if_pos hd]

/-- A changed entry without bytes changes its own node. -/
theorem Settled.updated (h : Settled s) (hu : Updated s n e s')
    (ht : DirectoryTree s.super (Function.update s.entries n e))
    (hext : e.extent ⊆ (s.entries n).extent) (hempty : e.IsFile → e.size = 0)
    (htyped : e.used ≠ 0 → e.type = sfsTypeFile ∨ e.type = sfsTypeDir) :
    Settled s' ∧ s'.nodes = Function.update s.nodes n (e.node []) := by
  have hx : Allocation s.super (Function.update s.entries n e) := by
    refine h.allocation.shrink hext (fun hf => ?_) fun hf _ => hempty hf
    rw [hempty hf]
    exact Nat.zero_le _
  refine ⟨⟨?_, hu.dev.reliable h.reliable, ?_, ?_, fun i hi => ?_⟩, funext fun i => ?_⟩
  · rw [hu.super, hu.entries]
    exact ht
  · rw [hu.super, hu.entries]
    exact hx
  · rw [hu.super]
    exact h.free
  · by_cases hin : i = n
    · subst hin
      rw [hu.self] at hi ⊢
      exact htyped hi
    · rw [hu.other hin] at hi ⊢
      exact h.typed i hi
  · by_cases hin : i = n
    · subst hin
      rw [Function.update_self, SimpleFs.nodes, hu.self]
      refine node_congr htyped fun hf => List.eq_nil_of_length_eq_zero ?_
      rw [content_length, hu.self, hempty hf]
      rfl
    · rw [Function.update_of_ne hin, SimpleFs.nodes, SimpleFs.nodes, hu.other hin]
      exact node_congr (h.typed i) fun hf => hu.content h.allocation hin hf

theorem pathNext_empty {path : List UInt8} (h : path.headD 0 = 0) : pathNext path = none := by
  cases path with
  | nil => rfl
  | cons c cs =>
    obtain rfl : c = 0 := h
    rfl

/-- The entry of a create, in the tree. -/
theorem Settled.createEntry {cwd : Fin 64} (h : Settled s) (hc : (s.entries cwd).IsDir)
    (path : List UInt8) (type perm : UInt8) (bytes : Option (List UInt8)) :
    (∃ i e d, sfsCreateEntry s path (slotId cwd) type perm = .ok (some (i, e)) ∧
      NewEntry s.entries i e type ∧ e.node [] = some ⟨d, (createNames path []).2, perm,
        if type = sfsTypeDir then none else some []⟩ ∧
      Makes s.nodes (startSlot 0 cwd path) path perm bytes
        (Function.update s.nodes i (some ⟨d, (createNames path []).2, perm, bytes⟩)) (some i)) ∨
    sfsCreateEntry s path (slotId cwd) type perm = .ok none ∧
      Makes s.nodes (startSlot 0 cwd path) path perm bytes s.nodes none := by
  obtain ⟨r, hr, hnew⟩ := sfsCreateEntry_new h.tree ⟨cwd, rfl, hc⟩ path type perm
  rw [hr]
  unfold sfsCreateEntry at hr
  by_cases hhead : path.headD 0 = 0
  · rw [if_pos hhead] at hr
    cases hr
    refine .inr ⟨rfl, ?_⟩
    rw [Makes, createNames_end (pathNext_empty hhead)]
    exact ⟨rfl, rfl⟩
  · have hstart : (s.entries (startSlot 0 cwd path)).IsDir := by
      rw [startSlot]
      split
      · exact h.tree.root_dir
      · exact hc
    rw [if_neg hhead, h.tree.entryTree.start] at hr
    obtain ⟨r', hr', hvalid⟩ := h.tree.walk ⟨_, rfl, hstart⟩ (.inl rfl) path
    rcases h.createLoop hstart path [] with ⟨d, hloop, hdir, hrun⟩ | ⟨hloop, hno⟩
    · rw [hloop] at hr hr'
      cases hr'
      obtain ⟨-, hlast⟩ := hvalid _ _ rfl
      unfold Makes
      dsimp only [bind, Except.bind] at hr ⊢
      by_cases hempty : (createNames path []).2 = []
      · rw [if_pos hempty] at hr
        cases hr
        exact .inr ⟨rfl, by rw [if_pos hempty]; exact ⟨rfl, rfl⟩⟩
      · have hname := hlast.resolve_left hempty
        obtain ⟨c, hfind, hsome, hnone⟩ := h.tree.findChild hname (slotId d)
        rw [if_neg hempty, hfind] at hr
        dsimp only at hr
        cases c with
        | some child =>
          cases hr
          obtain ⟨hu, hparent, hnamed⟩ := hsome child rfl
          refine .inr ⟨rfl, ?_⟩
          rw [if_neg hempty]
          exact .taken hrun (nodes_used hu) (parentSlot_of_eq hparent) hnamed
        | none =>
          cases hfree : sfsFindFreeEntry s.entries with
          | none =>
            rw [hfree] at hr
            cases hr
            refine .inr ⟨rfl, ?_⟩
            rw [if_neg hempty]
            refine .full fun i hi => ?_
            have hall := List.find?_eq_none.mp hfree i (List.mem_finRange i)
            exact hall (beq_iff_eq.mpr (nodes_none.mp hi))
          | some i =>
            rw [hfree] at hr
            cases hr
            refine .inl ⟨i, _, d, rfl, hnew _ _ rfl, ?_, ?_⟩
            · rw [node_used (by decide : (1 : UInt8) ≠ 0), nameString_sCopy _ hname rfl]
              dsimp only
              rw [slotId_toNat]
              congr 2
              exact Fin.ext (Nat.mod_eq_of_lt d.isLt)
            · rw [if_neg hempty]
              refine .made hrun (fun j n hj hparent => ?_)
                (nodes_none.mpr (findFreeEntry_some hfree))
              obtain ⟨hu, hp, hnamed, -, -⟩ := nodes_some hj
              rw [hnamed]
              refine hnone rfl j hu ?_
              rw [h.tree.parent j hu, ← hp, hparent]
    · rw [hloop] at hr
      cases hr
      refine .inr ⟨rfl, ?_⟩
      rw [Makes]
      dsimp only
      by_cases hempty : (createNames path []).2 = []
      · rw [if_pos hempty]
        exact ⟨rfl, rfl⟩
      · rw [if_neg hempty]
        exact .lost hno

/-- `sfs_create` makes a node in the tree. -/
theorem Settled.create {cwd : Fin 64} (h : Settled s) (hc : (s.entries cwd).IsDir)
    (path : List UInt8) (type perm : UInt8) (htype : type = sfsTypeFile ∨ type = sfsTypeDir) :
    ∃ s' r, sfsCreate s path (slotId cwd) type perm = .ok (s', r.map slotId) ∧ Settled s' ∧
      Makes s.nodes (startSlot 0 cwd path) path perm
        (if type = sfsTypeDir then none else some []) s'.nodes r := by
  rcases h.createEntry hc path type perm (if type = sfsTypeDir then none else some []) with
    ⟨i, e, d, hentry, hnew, hnode, hmakes⟩ | ⟨hentry, hmakes⟩
  · obtain ⟨s', r, hcreate, -, -⟩ := sfsCreate_effect hentry
    rcases sfsCreate_cases hcreate with ⟨hnone, -, -⟩ | ⟨j, e', hentry', hflush, hid⟩
    · rw [hentry] at hnone
      cases hnone
    · rw [hentry] at hentry'
      cases hentry'
      have hok := sfsFlush_ok { s with entries := Function.update s.entries i e } h.reliable
      rw [hflush] at hok
      obtain ⟨id, rfl⟩ := Option.isSome_iff_exists.mp hok
      obtain rfl := hid id rfl
      obtain ⟨hstart, hsize, -⟩ := hnew.fresh
      obtain ⟨hs', hnodes⟩ := h.updated (sfsFlush_updated hflush) (h.tree.add hnew)
        (by rw [show e.extent = ∅ from if_neg fun hfile => hfile.2 hstart]
            exact Set.empty_subset _)
        (fun _ => hsize) (fun _ => hnew.type ▸ htype)
      refine ⟨s', some i, hcreate, hs', ?_⟩
      rw [hnodes, hnode]
      exact hmakes
  · obtain ⟨s', r, hcreate, -, rfl, rfl⟩ := sfsCreate_effect hentry
    exact ⟨s', none, hcreate, h, hmakes⟩

theorem hasChild_iff (es : Table) (id : UInt32) :
    hasChild es id = true ↔ ∃ i, (es i).used ≠ 0 ∧ (es i).parent = id := by
  simp [hasChild]

/-- What a remove clears, in the tree. -/
theorem Settled.removeTarget {cwd : Fin 64} (h : Settled s) (hc : (s.entries cwd).IsDir)
    (path : List UInt8) :
    (∃ i, sfsRemoveTarget s path (slotId cwd) = .ok (some i) ∧ Removable s.entries i ∧
      s.nodes.Removes 0 (startSlot 0 cwd path) (movesOf path)
        (Function.update s.nodes i none) true) ∨
    sfsRemoveTarget s path (slotId cwd) = .ok none ∧
      s.nodes.Removes 0 (startSlot 0 cwd path) (movesOf path) s.nodes false := by
  obtain ⟨r, hr, hrem⟩ := sfsRemoveTarget_removable h.tree ⟨cwd, rfl, hc⟩ path
  rw [hr]
  rcases h.resolve hc.1 path with ⟨i, hres, hu, hrun, hone⟩ | ⟨hres, hno⟩
  · rw [sfsRemoveTarget, hres] at hr
    dsimp only [bind, Except.bind] at hr
    by_cases hroot : slotId i = s.super.rootId
    · rw [if_pos hroot] at hr
      cases hr
      rw [h.tree.root] at hroot
      exact .inr ⟨rfl, .kept fun j hj => .inl ((hone j hj).trans (slotId_inj hroot))⟩
    · have hlt : (slotId i).toNat < 64 := by
        rw [slotId_toNat]
        exact i.isLt
      have hidx : (⟨(slotId i).toNat, hlt⟩ : Fin 64) = i := Fin.ext (slotId_toNat i)
      simp only [if_neg hroot, dif_pos hlt, hidx] at hr
      by_cases hch : (s.entries i).type = sfsTypeDir ∧ hasChild s.entries (slotId i) = true
      · rw [if_pos hch] at hr
        cases hr
        obtain ⟨j, hj, hparent⟩ := (hasChild_iff _ _).mp hch.2
        refine .inr ⟨rfl, .kept fun k hk => .inr ⟨j, _, nodes_used hj, ?_⟩⟩
        rw [hone k hk]
        exact parentSlot_of_eq hparent
      · rw [if_neg hch] at hr
        cases hr
        have hremovable := hrem i rfl
        refine .inl ⟨i, rfl, hremovable, .gone hrun hremovable.nonroot fun j n hj => ?_⟩
        obtain ⟨hused, hparent, -⟩ := nodes_some hj
        rw [hparent]
        exact hremovable.childless j hused
  · rw [sfsRemoveTarget, hres] at hr
    cases hr
    exact .inr ⟨rfl, .kept fun i hi => absurd hi (hno i)⟩

/-- `sfs_remove` takes a node out of the tree. -/
theorem Settled.remove {cwd : Fin 64} (h : Settled s) (hc : (s.entries cwd).IsDir)
    (path : List UInt8) : ∃ s' ok, sfsRemove s path (slotId cwd) = .ok (s', ok) ∧ Settled s' ∧
      s.nodes.Removes 0 (startSlot 0 cwd path) (movesOf path) s'.nodes ok := by
  rcases h.removeTarget hc path with ⟨i, htarget, hrem, hgone⟩ | ⟨htarget, hkept⟩
  · obtain ⟨s', ok, hremove, -, hflush, -⟩ := sfsRemove_effect htarget
    have hok := sfsFlush_ok { s with entries := Function.update s.entries i Entry.zero } h.reliable
    rw [← hflush] at hok
    obtain rfl : ok = true := hok
    obtain ⟨hs', hnodes⟩ := h.updated (sfsFlush_updated hflush.symm) (h.tree.remove hrem)
      (by rw [show Entry.zero.extent = ∅ from if_neg fun hfile => zero_not_file hfile.1]
          exact Set.empty_subset _)
      (fun hf => absurd hf zero_not_file) (fun hu => absurd rfl hu)
    refine ⟨s', true, hremove, hs', ?_⟩
    rw [hnodes]
    exact hgone
  · obtain ⟨s', ok, hremove, -, rfl, rfl⟩ := sfsRemove_effect htarget
    exact ⟨s', false, hremove, h, hkept⟩

/-- The node of a file that grants the right. -/
theorem nodes_granted {id : UInt32} {perm : UInt8} (h : fileWith s.entries id perm = some n) :
    id = slotId n ∧ (s.entries n).IsFile ∧ (s.entries n).perm &&& perm ≠ 0 := by
  obtain ⟨hf, hp, hid⟩ := fileWith_some h
  refine ⟨?_, hf, hp⟩
  apply UInt32.toNat_inj.mp
  rw [hid, slotId_toNat]

/-- A truncation empties its file. -/
theorem Settled.truncate (h : Settled s)
    (hw : fileWith s.entries (slotId n) sfsPermWrite = some n) :
    ∃ s', sfsTruncate s (slotId n) = (s', true) ∧ Settled s' ∧ s'.nodes =
      Function.update s.nodes n (some ⟨parentSlot s.entries n, (s.entries n).nameString,
        (s.entries n).perm, some []⟩) := by
  obtain ⟨-, hf, -⟩ := nodes_granted hw
  have hrun : sfsTruncate s (slotId n) = sfsFlush { s with
      entries := Function.update s.entries n { s.entries n with size := 0 } } := by
    rw [sfsTruncate, hw]
  have hok := sfsFlush_ok { s with
    entries := Function.update s.entries n { s.entries n with size := 0 } } h.reliable
  rw [← hrun] at hok
  obtain ⟨s', hs'⟩ : ∃ s', sfsTruncate s (slotId n) = (s', true) := ⟨_, Prod.ext rfl hok⟩
  have htree : DirectoryTree s.super
      (Function.update s.entries n { s.entries n with size := 0 }) :=
    h.tree.reshape (SameShape.update s.entries n _ 0 _) rfl
  obtain ⟨hsettled, hnodes⟩ := h.updated (sfsFlush_updated (hrun.symm.trans hs')) htree
    (fun a ha => ha) (fun _ => rfl) (fun _ => .inl hf.2)
  refine ⟨s', hs', hsettled, ?_⟩
  have htype : (s.entries n).type ≠ sfsTypeDir := by
    rw [hf.2]
    decide
  rw [hnodes, node_used (e := { s.entries n with size := 0 }) hf.1, if_neg htype]
  rfl

/-- A read leaves the tree, and returns the bytes of its file. -/
theorem Settled.read (h : Settled s) (id offset len : UInt32) :
    Settled (sfsRead s id offset len).1 ∧ (sfsRead s id offset len).1.nodes = s.nodes := by
  obtain ⟨hsup, hent, hdev⟩ := sfsRead_confined ∅ s id offset len
  have hsec : (sfsRead s id offset len).1.dev.sectors = s.dev.sectors :=
    funext fun b => hdev.sectors b (Set.notMem_empty b)
  refine ⟨⟨?_, hdev.reliable h.reliable, ?_, ?_, ?_⟩, ?_⟩
  · rw [hsup, hent]
    exact h.tree
  · rw [hsup, hent]
    exact h.allocation
  · rw [hsup]
    exact h.free
  · rw [hent]
    exact h.typed
  · funext i
    rw [SimpleFs.nodes, hent, hsec]
    rfl

/-- The bytes of the file that a write leaves. -/
theorem overwritten {offset len : UInt32} {data : Nat → UInt8} {s1 : SimpleFs}
    {ws1 ws2 : List (Write 512)} (h : WriteRun s n offset data len s1 ws1 ws2 s')
    (hf : (s.entries n).IsFile) (hwrap : offset.toNat + len.toNat + 511 < 4294967296)
    (hroom : Reserved s1 n (needSectors offset len)) : ∃ gap,
    gap.length = offset.toNat - (s.entries n).size.toNat ∧ content s'.entries s'.dev.sectors n =
      overwrite (content s.entries s.dev.sectors n) gap (dataBytes data len) offset.toNat := by
  have hsize : (s'.entries n).size.toNat =
      max (s.entries n).size.toNat (offset.toNat + len.toNat) := by
    have hsum : (offset + len).toNat = offset.toNat + len.toNat := by
      rw [UInt32.toNat_add]
      omega
    rw [h.self]
    simp only [newSize_toNat, hsum]
  have hlen := content_length s.entries s.dev.sectors n
  have hlen' := content_length s'.entries s'.dev.sectors n
  have hdata : (dataBytes data len).length = len.toNat := by simp [dataBytes]
  refine ⟨((content s'.entries s'.dev.sectors n).take offset.toNat).drop
    (s.entries n).size.toNat, ?_, ?_⟩
  · rw [List.length_drop, List.length_take, hlen', hsize]
    omega
  · apply List.ext_getElem?
    intro k
    rw [getElem?_overwrite (by
      rw [List.length_drop, List.length_take, hlen', hsize, hlen]
      omega), hdata, hlen]
    have hself := h.byte_self hf hwrap hroom (k := k)
    by_cases hin : offset.toNat ≤ k ∧ k < offset.toNat + len.toNat
    · have hk : k < (s'.entries n).size.toNat := by omega
      have hk' : k - offset.toNat < len.toNat := by omega
      rw [if_pos hin, content_getElem? _ _ _ hk, hself (.inr hin), if_pos hin]
      simp [dataBytes, hk']
    · rw [if_neg hin]
      by_cases hgap : k < offset.toNat ∧ (s.entries n).size.toNat ≤ k
      · have hback : (s.entries n).size.toNat + (k - (s.entries n).size.toNat) = k := by omega
        rw [if_pos hgap, List.getElem?_drop, hback, List.getElem?_take, if_pos hgap.1]
      · rw [if_neg hgap]
        by_cases hk : k < (s.entries n).size.toNat
        · have hk' : k < (s'.entries n).size.toNat := by omega
          rw [content_getElem? _ _ _ hk, content_getElem? _ _ _ hk', hself (.inl hk), if_neg hin]
        · rw [List.getElem?_eq_none (by omega), List.getElem?_eq_none (by omega)]

/-- A write with room replaces the bytes of its file from the offset on; what stood in the new
sectors fills the place up to it. -/
theorem Settled.write {offset len : UInt32} (h : Settled s)
    (hw : fileWith s.entries (slotId n) sfsPermWrite = some n)
    (hwrap : offset.toNat + len.toNat + 511 < 4294967296)
    (hroom : Moves (s.entries n) (needSectors offset len) →
      s.super.nextFreeLba.toNat + (needSectors offset len).toNat ≤ 65536) (data : Nat → UInt8) :
    ∃ s' gap, sfsWrite s (slotId n) offset data len = (s', some len) ∧ Settled s' ∧
      gap.length = offset.toNat - (s.entries n).size.toNat ∧
      s'.nodes = Function.update s.nodes n (some ⟨parentSlot s.entries n, (s.entries n).nameString,
        (s.entries n).perm, some (overwrite (content s.entries s.dev.sectors n) gap
          (dataBytes data len) offset.toNat)⟩) := by
  obtain ⟨-, hf, hp⟩ := nodes_granted hw
  obtain ⟨s1, ws1, ws2, s', hrun, hwr, hpl, hfree⟩ :=
    sfsWrite_spacious h.reliable h.allocation hf hp hwrap hroom h.free data
  obtain ⟨hshape, hframe⟩ := sfsWrite_shape s (slotId n) offset data len
  rw [hrun] at hshape hframe
  have hf' : (s'.entries n).IsFile := by
    rw [Entry.IsFile, hshape.used, hshape.type]
    exact hf
  obtain ⟨gap, hgap, hbytes⟩ := overwritten hwr hf hwrap hpl.reserved
  refine ⟨s', gap, hrun, ⟨?_, ?_, ?_, ?_, ?_⟩, hgap, ?_⟩
  · exact h.tree.reshape hshape hframe.rootId
  · exact hwr.allWrites.reliable h.reliable
  · exact hwr.allocation h.allocation hf hwrap hpl.reserved
  · rw [hwr.super]
    exact hfree
  · intro i hi
    rw [hshape.used] at hi
    rw [hshape.type]
    exact h.typed i hi
  · funext i
    by_cases hin : i = n
    · subst hin
      rw [Function.update_self, nodes_file hf', hbytes, SameShape.nameString hshape, hshape.perm,
        parentSlot, hshape.parent]
      rfl
    · rw [Function.update_of_ne hin, SimpleFs.nodes, SimpleFs.nodes, hwr.other hin]
      refine node_congr (h.typed i) fun hfi => ?_
      exact hwr.content_other h.allocation hf hwrap hpl.reserved hin hfi

end Nodes

end VertexOS
