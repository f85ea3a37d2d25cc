import VertexOS.Fs.Calls

namespace VertexOS
open Library.BlockStore

/-- The text after a path's last separator. -/
def lastName (path : List UInt8) : List UInt8 :=
  ((cString path).reverse.takeWhile (· ≠ slash)).reverse

/-- A path that does not end in a separator, in `.` or in `..`. -/
def EndsInName (path : List UInt8) : Prop :=
  lastName path ≠ [] ∧ lastName path ≠ dot ∧ lastName path ≠ dotdot

theorem takeWhile_append_neg {p : UInt8 → Bool} (hb : p b = false) (xs ys : List UInt8) :
    (xs ++ b :: ys).takeWhile p = xs.takeWhile p := by
  induction xs with
  | nil => simp [hb]
  | cons x xs ih => simp [List.takeWhile_cons, ih]

theorem lastName_separator (xs : List UInt8) (h : cString path = xs ++ slash :: cString rest) :
    lastName path = lastName rest := by
  unfold lastName
  rw [h, List.reverse_append, List.reverse_cons, List.append_assoc, List.singleton_append,
    takeWhile_append_neg (by simp)]

theorem lastName_plain (xs : List UInt8) (h : cString path = xs ++ name) (hx : ∀ c ∈ xs, c = slash)
    (hn : slash ∉ name) : lastName path = name := by
  unfold lastName
  have hname : name.reverse.takeWhile (· ≠ slash) = name.reverse := by
    apply List.takeWhile_eq_self_iff.mpr
    intro c hc
    have : c ≠ slash := fun he => hn (he ▸ List.mem_reverse.mp hc)
    simpa using this
  rcases xs.eq_nil_or_concat with rfl | ⟨ys, b, rfl⟩
  · rw [h, List.nil_append, hname, List.reverse_reverse]
  · obtain rfl := hx b (by simp)
    rw [h, List.reverse_append, List.concat_eq_append, List.reverse_append, List.reverse_singleton,
      List.singleton_append, takeWhile_append_neg (by simp), hname, List.reverse_reverse]

theorem cString_dropWhile (path : List UInt8) :
    cString path = path.takeWhile (· == slash) ++ cString (path.dropWhile (· == slash)) := by
  induction path with
  | nil => rfl
  | cons c cs ih =>
    by_cases hc : c = slash
    · subst hc
      rw [List.takeWhile_cons, List.dropWhile_cons, cString_cons, if_neg (by decide)]
      simp [ih]
    · simp [hc]

theorem cString_inName (path : List UInt8) :
    cString path = path.takeWhile inName ++ cString (path.dropWhile inName) := by
  induction path with
  | nil => rfl
  | cons c cs ih =>
    cases hc : inName c with
    | false => simp [hc]
    | true =>
      have h0 : c ≠ 0 := by
        intro he
        simp [inName, he] at hc
      rw [cString_cons, if_neg h0, ih]
      simp [hc]

theorem cString_headD (h : path.headD 0 = 0) : cString path = [] := by
  cases path with
  | nil => rfl
  | cons c cs =>
    obtain rfl : c = 0 := h
    simp [cString_cons]

theorem pathNext_end (h : path.headD 0 = 0) : pathNext path = none := by
  cases path with
  | nil => rfl
  | cons c cs =>
    obtain rfl : c = 0 := h
    simp [pathNext, slash]

/-- What `path_next` takes off a path: separators, then one component. -/
theorem pathNext_split (h : pathNext path = some (name, rest)) :
    ∃ xs full, cString path = xs ++ full ++ cString rest ∧ (∀ c ∈ xs, c = slash) ∧
      slash ∉ full ∧ name = full.take sfsNameMax ∧ (rest.headD 0 = 0 ∨ rest.headD 0 = slash) := by
  unfold pathNext at h
  dsimp only at h
  split at h
  · cases h
  · obtain ⟨rfl, rfl⟩ := Prod.mk.inj (Option.some.inj h)
    refine ⟨path.takeWhile (· == slash), (path.dropWhile (· == slash)).takeWhile inName,
      ?_, ?_, ?_, rfl, ?_⟩
    · rw [List.append_assoc, ← cString_inName, ← cString_dropWhile]
    · intro c hc
      simpa using List.mem_takeWhile_imp hc
    · intro hs
      have := List.mem_takeWhile_imp hs
      simp [inName] at this
    · cases hd : (path.dropWhile (· == slash)).dropWhile inName with
      | nil => exact Or.inl rfl
      | cons c cs =>
        have hhead := List.head_dropWhile_not inName (l := path.dropWhile (· == slash))
          (by simp [hd])
        simp only [hd, List.head_cons, inName] at hhead
        by_cases h0 : c = 0
        · exact Or.inl h0
        · exact Or.inr (by simpa [h0] using hhead)

theorem lastName_none (h : pathNext path = none) : lastName path = [] := by
  have hs : cString path = path.takeWhile (· == slash) := by
    rw [cString_dropWhile, cString_headD, List.append_nil]
    unfold pathNext at h
    dsimp only at h
    split at h
    · assumption
    · cases h
  apply lastName_plain (path.takeWhile (· == slash)) (by simpa using hs)
  · intro c hc
    simpa using List.mem_takeWhile_imp hc
  · simp

theorem lastName_end (h : pathNext path = some (name, rest)) (he : rest.headD 0 = 0) :
    name = (lastName path).take sfsNameMax := by
  obtain ⟨xs, full, hpath, hx, hfull, hname, -⟩ := pathNext_split h
  rw [cString_headD he, List.append_nil] at hpath
  rw [lastName_plain xs hpath hx hfull]
  exact hname

theorem lastName_next (h : pathNext path = some (name, rest)) (he : rest.headD 0 ≠ 0) :
    lastName path = lastName rest := by
  obtain ⟨xs, full, hpath, -, -, -, hrest⟩ := pathNext_split h
  cases rest with
  | nil => exact absurd rfl he
  | cons c cs =>
    obtain rfl : c = slash := hrest.resolve_left he
    have hskip : lastName (slash :: cs) = lastName cs := by
      apply lastName_separator []
      rw [cString_cons, if_neg (by decide)]
      rfl
    rw [hskip]
    apply lastName_separator (xs ++ full)
    rw [hpath, cString_cons, if_neg (by decide)]

theorem take_eq_short {name whole : List UInt8} (h : whole.take sfsNameMax = name)
    (hs : name.length < sfsNameMax) : whole = name := by
  rw [← h, List.length_take] at hs
  rw [← h, List.take_of_length_le (by omega)]

theorem endsInName_end (h : pathNext path = some (name, rest)) (he : rest.headD 0 = 0)
    (hdot : name ≠ dot) (hdd : name ≠ dotdot) : EndsInName path := by
  have hname := lastName_end h he
  have hne := (pathNext_some h).2.1
  constructor
  · intro hlast
    exact hne (by rw [hname, hlast]; rfl)
  constructor
  · intro hlast
    exact hdot (by rw [hname, hlast]; rfl)
  · intro hlast
    exact hdd (by rw [hname, hlast]; rfl)

/-- The end of a path is decided behind each component that is not its last name. -/
theorem endsInName_next (h : pathNext path = some (name, rest))
    (hn : rest.headD 0 = 0 → name = dot ∨ name = dotdot) : EndsInName path ↔ EndsInName rest := by
  by_cases he : rest.headD 0 = 0
  · have hname := lastName_end h he
    have hrest := lastName_none (pathNext_end he)
    constructor
    · intro hp
      rcases hn he with hd | hd
      · exact absurd (take_eq_short (hname.symm.trans hd) (by decide)) hp.2.1
      · exact absurd (take_eq_short (hname.symm.trans hd) (by decide)) hp.2.2
    · intro hp
      exact absurd hrest hp.1
  · unfold EndsInName
    rw [lastName_next h he]

/-- Every used entry of `es` is still there in `es'`. -/
def Grown (es es' : Table) : Prop := ∀ i, (es i).used ≠ 0 → es' i = es i

theorem Grown.refl (es : Table) : Grown es es := fun _ _ => rfl

theorem NewEntry.grown {kind : UInt8} (h : NewEntry es idx e kind) : Grown es (Function.update es idx e) := by
  intro i hi
  apply Function.update_of_ne
  intro he
  exact hi (he ▸ h.free)

/-- In a tree a lookup answers with the one child of that name. -/
theorem DirectoryTree.findChild_iff {dir : UInt32} (ht : DirectoryTree sb es)
    (hn : ValidName name) : sfsFindChild es dir name = .ok (some i) ↔
      (es i).used ≠ 0 ∧ (es i).parent = dir ∧ (es i).nameString = name := by
  obtain ⟨r, hr, hsome, hnone⟩ := ht.findChild hn dir
  rw [hr]
  constructor
  · intro h
    exact hsome i (Except.ok.inj h)
  · intro h
    have hroot : ∀ k, (es k).nameString = name → k ≠ 0 := by
      intro k hk he
      rw [he, ht.rootName] at hk
      exact (hn.bytes slash (by simp [← hk])).2 rfl
    cases r with
    | none => exact absurd h.2.2 (hnone rfl i h.1 h.2.1)
    | some k =>
      obtain ⟨hu, hp, hk⟩ := hsome k rfl
      rw [ht.unique k i hu h.1 (hroot k hk) (hroot i h.2.2) (hp.trans h.2.1.symm)
        (hk.trans h.2.2.symm)]

theorem resolveLoop_end (es : Table) (current : UInt32) (h : pathNext path = none) :
    resolveLoop es path current = .ok (some current) := by
  rw [resolveLoop]
  split
  · rfl
  · simp_all

theorem resolveLoop_next (es : Table) (current : UInt32) (h : pathNext path = some (name, rest)) :
    resolveLoop es path current =
      if name = dot then resolveLoop es rest current
      else if name = dotdot then (entryAt es current).bind fun e => resolveLoop es rest e.parent
      else (sfsFindChild es current name).bind fun r => match r with
        | none => .ok none
        | some child => resolveLoop es rest (slotId child) := by
  rw [resolveLoop]
  split
  · simp_all
  · rename_i name' rest' h'
    obtain ⟨rfl, rfl⟩ := Prod.mk.inj (Option.some.inj (h.symm.trans h'))
    rfl

theorem SameShape.isFile (h : SameShape es es') (i : Fin 64) : (es' i).IsFile ↔ (es i).IsFile := by
  unfold Entry.IsFile
  rw [h.used, h.type]

/-- Lookups and paths do not see where the files' bytes lie. -/
theorem SameShape.findChild (h : SameShape es es') (dir : UInt32) (name : List UInt8) :
    sfsFindChild es' dir name = sfsFindChild es dir name := by
  unfold sfsFindChild
  induction List.finRange 64 with
  | nil => rfl
  | cons i is ih =>
    rw [findChildFrom, findChildFrom, h.used, h.parent, h.nameBytes, ih]

theorem SameShape.resolveLoop (h : SameShape es es') (path : List UInt8) (current : UInt32) :
    resolveLoop es' path current = VertexOS.resolveLoop es path current := by
  induction hm : path.length using Nat.strongRecOn generalizing path current with
  | ind m ih =>
    cases hnext : pathNext path with
    | none => rw [resolveLoop_end es' current hnext, resolveLoop_end es current hnext]
    | some p =>
      obtain ⟨name, rest⟩ := p
      have hlen := (pathNext_some hnext).1
      have hrest : ∀ current, VertexOS.resolveLoop es' rest current =
          VertexOS.resolveLoop es rest current :=
        fun current => ih _ (hm ▸ hlen) rest current rfl
      rw [resolveLoop_next es' current hnext, resolveLoop_next es current hnext, h.findChild]
      unfold entryAt
      split
      · exact hrest current
      · simp only [hrest]
        split
        · split
          · simp only [Except.bind, h.parent]
          · rfl
        · rfl

theorem SameShape.resolve {s s' : SimpleFs} (h : SameShape s.entries s'.entries)
    (hroot : s'.super.rootId = s.super.rootId) (path : List UInt8) (cwd : UInt32) :
    sfsResolve s' path cwd = sfsResolve s path cwd := by
  unfold sfsResolve startNode
  rw [hroot, h.resolveLoop]

section Grown

variable {sb sb' : Superblock} {es es' : Table}
  (ht : DirectoryTree sb es) (ht' : DirectoryTree sb' es') (hg : Grown es es')

include ht ht' hg

theorem Grown.findChild (hn : ValidName name)
    (h : sfsFindChild es dir name = .ok (some i)) :
    sfsFindChild es' dir name = .ok (some i) := by
  have hi := (ht.findChild_iff hn).mp h
  rw [ht'.findChild_iff hn, hg i hi.1]
  exact hi

/-- What resolved in a table resolves to the same node in one that has grown. -/
theorem Grown.resolve (hc : UsedId es current) (path : List UInt8)
    (h : resolveLoop es path current = .ok (some node)) :
    resolveLoop es' path current = .ok (some node) := by
  induction hm : path.length using Nat.strongRecOn generalizing path current with
  | ind m ih =>
    rw [resolveLoop] at h ⊢
    split at h
    · exact h
    · rename_i name rest hnext
      have hlen := (pathNext_some hnext).1
      have hname := pathNext_valid hnext
      obtain ⟨n, rfl, hn⟩ := hc
      by_cases hdot : name = dot
      · rw [if_pos hdot] at h ⊢
        exact ih _ (hm ▸ hlen) ⟨n, rfl, hn⟩ rest h rfl
      · by_cases hdd : name = dotdot
        · rw [if_neg hdot, if_pos hdd, entryAt_slot] at h ⊢
          rw [hg n hn]
          exact ih _ (hm ▸ hlen) (ht.parentId hn).used rest h rfl
        · obtain ⟨r, hr, hsome, -⟩ := ht.findChild hname (slotId n)
          rw [if_neg hdot, if_neg hdd] at h ⊢
          rw [hr] at h
          cases r with
          | none => cases h
          | some child =>
            rw [hg.findChild ht ht' hname hr]
            exact ih _ (hm ▸ hlen) ⟨child, rfl, (hsome child rfl).1⟩ rest h rfl

/-- The walk of a create and a resolve agree: both stop in the same directory,
the resolve with one lookup left if the path ends in a name. -/
theorem Grown.walk (hc : UsedId es current) (path : List UInt8)
    (h : createLoop es path current l = .ok (some (dir, last))) :
    (EndsInName path → resolveLoop es' path current =
      (sfsFindChild es' dir last).map (Option.map slotId)) ∧
    (¬EndsInName path → resolveLoop es' path current = .ok (some dir)) := by
  induction hm : path.length using Nat.strongRecOn generalizing path current l with
  | ind m ih =>
    rw [createLoop] at h
    split at h
    · rename_i hnext
      obtain ⟨rfl, rfl⟩ := Prod.mk.inj (Option.some.inj (Except.ok.inj h))
      constructor
      · intro he
        exact absurd (lastName_none hnext) he.1
      · intro _
        exact resolveLoop_end es' _ hnext
    · rename_i name rest hnext
      have hlen := (pathNext_some hnext).1
      have hname := pathNext_valid hnext
      obtain ⟨n, rfl, hn⟩ := hc
      have hstep : ∀ current', resolveLoop es' path (slotId n) = resolveLoop es' rest current' →
          UsedId es current' → createLoop es rest current' name = .ok (some (dir, last)) →
          (rest.headD 0 = 0 → name = dot ∨ name = dotdot) →
          (EndsInName path → resolveLoop es' path (slotId n) =
            (sfsFindChild es' dir last).map (Option.map slotId)) ∧
          (¬EndsInName path → resolveLoop es' path (slotId n) = .ok (some dir)) := by
        intro current' hres hused hcreate hlast
        rw [hres, endsInName_next hnext hlast]
        exact ih _ (hm ▸ hlen) hused rest hcreate rfl
      have hloop := resolveLoop_next es' (slotId n) hnext
      by_cases hdot : name = dot
      · rw [if_pos hdot] at h hloop
        exact hstep _ hloop ⟨n, rfl, hn⟩ h (fun _ => Or.inl hdot)
      · by_cases hdd : name = dotdot
        · rw [if_neg hdot, if_pos hdd, entryAt_slot] at h hloop
          rw [hg n hn] at hloop
          exact hstep _ hloop (ht.parentId hn).used h (fun _ => Or.inr hdd)
        · rw [if_neg hdot, if_neg hdd] at h hloop
          by_cases hend : rest.headD 0 = 0
          · rw [if_pos hend] at h
            obtain ⟨rfl, rfl⟩ := Prod.mk.inj (Option.some.inj (Except.ok.inj h))
            refine ⟨fun _ => ?_, fun hne => absurd (endsInName_end hnext hend hdot hdd) hne⟩
            rw [hloop]
            obtain ⟨r, hr, -⟩ := ht'.findChild hname (slotId n)
            rw [hr]
            cases r with
            | none => rfl
            | some child => exact resolveLoop_end es' _ (pathNext_end hend)
          · rw [if_neg hend] at h
            obtain ⟨r, hr, hsome, -⟩ := ht.findChild hname (slotId n)
            rw [hr] at h
            cases r with
            | none => cases h
            | some child =>
              rw [hg.findChild ht ht' hname hr] at hloop
              by_cases hd : (es child).type = sfsTypeDir
              · simp only [bind, Except.bind, ne_eq, hd, not_true_eq_false, ↓reduceIte] at h
                exact hstep _ hloop ⟨child, rfl, (hsome child rfl).1⟩ h (fun he => absurd he hend)
              · simp [bind, Except.bind, hd] at h

end Grown

/-- The walk behind a created entry. -/
theorem sfsCreateEntry_walk (h : sfsCreateEntry s path cwd type perm = .ok (some (idx, e))) :
    ∃ dir last, createLoop s.entries path (startNode s.super path cwd) [] = .ok (some (dir, last)) ∧
      last ≠ [] ∧ sfsFindChild s.entries dir last = .ok none ∧
      e.parent = dir ∧ e.name = sCopy (s.entries idx).name last := by
  unfold sfsCreateEntry at h
  split at h
  · cases h
  · cases hw : createLoop s.entries path (startNode s.super path cwd) [] with
    | error => simp [hw, bind, Except.bind] at h
    | ok r =>
      cases r with
      | none => simp [hw, bind, Except.bind] at h
      | some p =>
        obtain ⟨dir, last⟩ := p
        by_cases hl : last = []
        · simp [hw, bind, Except.bind, hl] at h
        · cases hf : sfsFindChild s.entries dir last with
          | error => simp [hw, bind, Except.bind, hl, hf] at h
          | ok child =>
            simp only [hw, bind, Except.bind, hl, ↓reduceIte, hf] at h
            cases child with
            | some i => cases h
            | none =>
              cases hfree : sfsFindFreeEntry s.entries with
              | none => simp [hfree] at h
              | some i =>
                rw [hfree] at h
                obtain ⟨rfl, rfl⟩ := Prod.mk.inj (Option.some.inj (Except.ok.inj h))
                exact ⟨dir, last, rfl, hl, hf, rfl, rfl⟩

/-- The node is found under the path it was created with, and nothing that was
found before is lost. -/
structure FoundUnder (s s' : SimpleFs) (path : List UInt8) (cwdId node : UInt32) : Prop where
  before : sfsResolve s path cwdId = .ok none
  after : sfsResolve s' path cwdId = .ok (some node)
  others : ∀ path' cwd' node', UsedId s.entries cwd' →
    sfsResolve s path' cwd' = .ok (some node') → sfsResolve s' path' cwd' = .ok (some node')

/-- What a successful create did, and where its path leads. -/
theorem sfsCreate_found (ht : DirectoryTree s.super s.entries) (hc : DirId s.entries cwdId)
    (h : sfsCreate s path cwdId type perm = .ok (s', some node)) :
    ∃ idx e, NewEntry s.entries idx e type ∧ node = slotId idx ∧
      sfsFlush { s with entries := Function.update s.entries idx e } = (s', true) ∧
      (EndsInName path → FoundUnder s s' path cwdId node) ∧
      (¬EndsInName path → sfsResolve s path cwdId ≠ .ok none) := by
  obtain ⟨r, hr, hnew⟩ := sfsCreateEntry_new ht hc path type perm
  obtain ⟨s1, node1, hs1, hsup, heff⟩ := sfsCreate_effect hr
  obtain ⟨rfl, rfl⟩ := Prod.mk.inj (Except.ok.inj (hs1.symm.trans h))
  cases r with
  | none => simp at heff
  | some p =>
    obtain ⟨idx, e⟩ := p
    have hentry := hnew idx e rfl
    have hgrown := hentry.grown
    have ht' := ht.add hentry
    obtain ⟨hs', hes, hnode⟩ := heff
    obtain ⟨hflush, hidx⟩ : (sfsFlush { s with entries := Function.update s.entries idx e }).2 =
        true ∧ node = slotId idx := by
      cases hf : (sfsFlush { s with entries := Function.update s.entries idx e }).2 with
      | false => simp [hf] at hnode
      | true => simpa [hf] using hnode
    obtain ⟨dir, last, hwalk, hlast, hnone, hparent, hname⟩ := sfsCreateEntry_walk hr
    have hstart := (ht.start hc path).used
    have hvalid : ValidName last := by
      obtain ⟨r', hr', hwalk'⟩ := ht.walk (ht.start hc path) (Or.inl rfl) path
      obtain rfl := Except.ok.inj (hr'.symm.trans hwalk)
      exact (hwalk' dir last rfl).2.resolve_left hlast
    obtain ⟨hgood, hbad⟩ := (Grown.refl s.entries).walk ht ht hstart path hwalk
    obtain ⟨hgood', -⟩ := hgrown.walk ht ht' hstart path hwalk
    refine ⟨idx, e, hentry, hidx, Prod.ext hs'.symm hflush, ?_, ?_⟩
    · intro hend
      have hchild : sfsFindChild (Function.update s.entries idx e) dir last = .ok (some idx) := by
        rw [ht'.findChild_iff hvalid, Function.update_self]
        exact ⟨by simp [hentry.used], hparent, nameString_sCopy e hvalid hname⟩
      constructor
      · rw [sfsResolve, hgood hend, hnone]
        rfl
      · rw [sfsResolve, hsup, hes, hgood' hend, hchild, hidx]
        rfl
      · intro path' cwd' node' hused hres
        rw [sfsResolve, hsup, hes]
        apply hgrown.resolve ht ht' _ path' hres
        unfold startNode
        split
        · rw [ht.root]
          exact ⟨0, rfl, ht.tree.root_used⟩
        · exact hused
    · intro hend hres
      have := hres.symm.trans (hbad hend)
      cases this

theorem sfs_create_found_iff (s s' : SimpleFs) (path : List UInt8) (cwdId : UInt32)
    (type perm : UInt8) (node : UInt32) (ht : DirectoryTree s.super s.entries)
    (hc : DirId s.entries cwdId)
    (h : sfsCreate s path cwdId type perm = .ok (s', some node)) :
    FoundUnder s s' path cwdId node ↔ EndsInName path := by
  obtain ⟨-, -, -, -, -, hgood, hbad⟩ := sfsCreate_found ht hc h
  constructor
  · intro hfound
    by_contra hend
    exact hbad hend hfound.before
  · exact hgood

/-- A plain name on a fresh volume. -/
theorem sfs_create_found_iff_plain : ∃ s',
    sfsCreate (formatted 0 blankDrive) [97] 0 sfsTypeDir 7 = .ok (s', some 1) ∧
    (FoundUnder (formatted 0 blankDrive) s' [97] 0 1 ↔ EndsInName [97]) := by
  have hv : DirId (formatted 0 blankDrive).entries 0 := ⟨0, rfl, by decide, by decide⟩
  have hrun : (sfsCreate (formatted 0 blankDrive) [97] 0 sfsTypeDir 7).toOption.map (·.2) =
      some (some 1) := by
    decide +kernel
  cases hc : sfsCreate (formatted 0 blankDrive) [97] 0 sfsTypeDir 7 with
  | error => simp [hc, Except.toOption] at hrun
  | ok p =>
    obtain ⟨s', r⟩ := p
    rw [hc] at hrun
    obtain rfl : r = some 1 := Option.some.inj hrun
    exact ⟨s', rfl, sfs_create_found_iff _ s' [97] 0 sfsTypeDir 7 1 (formatted_tree blankDrive) hv hc⟩

/-- `mkdir .` makes an entry called `.`, which no path leads to. -/
theorem sfs_create_unreachable : ∃ s',
    sfsCreate (formatted 0 blankDrive) dot 0 sfsTypeDir 7 = .ok (s', some 1) ∧
    DirectoryTree (formatted 0 blankDrive).super (formatted 0 blankDrive).entries ∧
    DirId (formatted 0 blankDrive).entries 0 ∧ ¬FoundUnder (formatted 0 blankDrive) s' dot 0 1 := by
  have hv : DirId (formatted 0 blankDrive).entries 0 := ⟨0, rfl, by decide, by decide⟩
  have hrun : (sfsCreate (formatted 0 blankDrive) dot 0 sfsTypeDir 7).toOption.map (·.2) =
      some (some 1) := by
    decide +kernel
  have hres : sfsResolve (formatted 0 blankDrive) dot 0 = .ok (some 0) := by
    decide +kernel
  cases hc : sfsCreate (formatted 0 blankDrive) dot 0 sfsTypeDir 7 with
  | error => simp [hc, Except.toOption] at hrun
  | ok p =>
    obtain ⟨s', r⟩ := p
    rw [hc] at hrun
    obtain rfl : r = some 1 := Option.some.inj hrun
    refine ⟨s', rfl, formatted_tree blankDrive, hv, fun hfound => ?_⟩
    have := hfound.before.symm.trans hres
    cases this

end VertexOS
