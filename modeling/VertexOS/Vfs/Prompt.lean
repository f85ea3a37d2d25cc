import VertexOS.Fs.Walk
import VertexOS.Vfs.Cwd

namespace VertexOS
open Library.Transitions

/-- The path shown leads from the root to the working directory. -/
def Shown (v : Vfs) (session : Int) : Prop :=
  sfsResolve v.fs (v.ctx (sessionSlot session)).cwdPath v.fs.super.rootId =
    .ok (some (v.cwd session))

/-- Where the components of a path lead, each cut to 31 bytes. -/
def LeadTo (es : Table) (n : Fin 64) (path : List UInt8) (m : Fin 64) : Prop :=
  Run (Leads es) n ((components path).map cutName) m

/-- The bytes that the relative case of `vfs_chdir` has before the new ones. -/
def cwdRoom (cwdPath : List UInt8) : Nat :=
  if cwdPath.length > 1 ∧ cwdPath.getLast? ≠ some slash then cwdPath.length + 1
  else cwdPath.length

/-- The text can follow to the directory `m`: what is copied or appended fits `cwd_path`, or what
is cut off leads nowhere; and `..` takes a name off the text, or dots that stand behind the root. -/
def TextFollows (es : Table) (root n : Fin 64) (cwdPath path : List UInt8) (m : Fin 64) : Prop :=
  if path.headD 0 = slash then
    (cString path).length < vfsCwdPathMax ∨ LeadTo es root ((cString path).take (vfsCwdPathMax - 1)) m
  else if cString path = dotdot then
    (∀ name ∈ (components cwdPath).getLast?, name ≠ dot ∧ name ≠ dotdot) ∨
      Run (Leads es) root ((components cwdPath).dropLast.map cutName) root
  else cString path = dot ∨ cwdRoom cwdPath + (cString path).length + 1 < vfsCwdPathMax ∨ m = n

/-- Whenever the path names a directory, the text can follow there. -/
def Follows (v : Vfs) (session : Int) (path : List UInt8) : Prop :=
  ∀ root n m, v.fs.super.rootId = slotId root → v.cwd session = slotId n →
    LeadTo v.fs.entries (startSlot root n path) path m → (v.fs.entries m).IsDir →
    TextFollows v.fs.entries root n (v.ctx (sessionSlot session)).cwdPath path m

section Text

variable {cwdPath path : List UInt8}

theorem parts_then_slashes (xs ys : List UInt8) (h : ∀ c ∈ ys, c = slash) :
    parts (xs ++ ys) = parts xs := by
  induction ys using List.reverseRecOn with
  | nil => rw [List.append_nil]
  | append_singleton ys c ih =>
    obtain rfl : c = slash := h c (by simp)
    rw [← List.append_assoc, parts_append, parts_nil, List.append_nil]
    exact ih fun d hd => h d (List.mem_append_left _ hd)

theorem parts_rdrop_slashes (xs : List UInt8) :
    parts (xs.rdropWhile (· == slash)) = parts xs := by
  have hsplit := List.rdropWhile_append_rtakeWhile (p := (· == slash)) (l := xs)
  have hall : ∀ c ∈ xs.rtakeWhile (· == slash), c = slash := by
    intro c hc
    simpa using List.mem_rtakeWhile_imp hc
  conv_rhs => rw [← hsplit]
  exact (parts_then_slashes _ _ hall).symm

/-- Without its last name, a string has the parts before the last. -/
theorem parts_rdrop_name {xs : List UInt8} (hne : xs ≠ []) (h : xs.getLast hne ≠ slash) :
    parts xs = parts (xs.rdropWhile (· != slash)).dropLast ++ [xs.rtakeWhile (· != slash)] ∧
      (xs.rdropWhile (· != slash) = [] ∨
        xs.rdropWhile (· != slash) = (xs.rdropWhile (· != slash)).dropLast ++ [slash]) := by
  have hsplit := List.rdropWhile_append_rtakeWhile (p := (· != slash)) (l := xs)
  have hname : slash ∉ xs.rtakeWhile (· != slash) := by
    intro hs
    simpa using List.mem_rtakeWhile_imp hs
  have hsome : xs.rtakeWhile (· != slash) ≠ [] := by
    rw [ne_eq, List.rtakeWhile_eq_nil_iff]
    intro hno
    exact hno hne (by simpa using h)
  generalize hd : xs.rdropWhile (· != slash) = d at hsplit ⊢
  generalize xs.rtakeWhile (· != slash) = name at hsplit hname hsome ⊢
  rcases d.eq_nil_or_concat with rfl | ⟨ys, c, rfl⟩
  · rw [← hsplit, List.nil_append, parts_name hname hsome]
    exact ⟨rfl, .inl rfl⟩
  · have hc : c = slash := by
      have hlast := List.rdropWhile_last_not (p := (· != slash)) (l := xs) (by simp [hd])
      simpa [hd] using hlast
    subst hc
    rw [List.concat_eq_append, List.dropLast_concat, ← hsplit, List.concat_eq_append,
      List.append_assoc, List.singleton_append, parts_append, parts_name hname hsome]
    exact ⟨rfl, .inr rfl⟩

/-- The `..` case takes the last part off the text. -/
theorem parts_cwdParent (cs : List UInt8) :
    parts (cwdParent (slash :: cs)) = (parts (slash :: cs)).dropLast := by
  rw [parts_slash]
  cases cs with
  | nil => simp [cwdParent, parts_slash, parts_nil]
  | cons c cs =>
    rw [← parts_rdrop_slashes (c :: cs), cwdParent]
    · generalize hx : (c :: cs).rdropWhile (· == slash) = xs
      by_cases hne : xs = []
      · simp [hne, parts_slash, parts_nil]
      · have hlast : xs.getLast hne ≠ slash := by
          have hno := List.rdropWhile_last_not (p := (· == slash)) (l := c :: cs)
            (by rw [hx]; exact hne)
          simpa [hx] using hno
        obtain ⟨hparts, hend⟩ := parts_rdrop_name hne hlast
        rw [hparts, List.dropLast_concat]
        rcases hend with hnil | hcons
        · rw [hnil]
          simp [parts_slash, parts_nil]
        · generalize (xs.rdropWhile (· != slash)) = d at hcons ⊢
          cases d with
          | nil => cases (List.append_ne_nil_of_right_ne_nil _ (by simp) hcons.symm)
          | cons e es => exact parts_slash _
    · simp

theorem cutName_eq_dots (h : cutName name = dot ∨ cutName name = dotdot) : name = cutName name := by
  have hlen : (cutName name).length < sfsNameMax := by
    rcases h with he | he <;> rw [he] <;> decide
  exact take_eq_short rfl hlen

/-- The text in `cwd_path`: an absolute path without a NUL. -/
def Rooted (cwdPath : List UInt8) : Prop := cwdPath.headD 0 = slash ∧ 0 ∉ cwdPath

theorem Rooted.components (h : Rooted cwdPath) : components cwdPath = parts cwdPath := by
  rw [VertexOS.components, cString_clean h.2]

theorem rooted_cwdUpdate (h : path.headD 0 = slash) : Rooted (cwdUpdate path) := by
  constructor
  · cases path with
    | nil => cases h
    | cons c cs =>
      obtain rfl : c = slash := h
      rw [cwdUpdate, cString_cons, if_neg (by decide)]
      rfl
  · intro hz
    exact cString_no_nul path (List.mem_of_mem_take hz)

theorem Rooted.parent (h : Rooted cwdPath) : Rooted (cwdParent cwdPath) := by
  obtain ⟨hhead, hz⟩ := h
  unfold cwdParent
  split
  · exact ⟨hhead, hz⟩
  · exact ⟨hhead, hz⟩
  · rename_i c cs hcs
    have hpre := (List.rdropWhile_prefix (· != slash) (cs.rdropWhile (· == slash))).trans
      (List.rdropWhile_prefix (· == slash) cs)
    generalize (cs.rdropWhile (· == slash)).rdropWhile (· != slash) = ds at hpre
    obtain ⟨hc, hcs⟩ := not_or.mp fun h => hz (List.mem_cons.mpr h)
    cases ds with
    | nil => exact ⟨hhead, by simpa using hc⟩
    | cons d ds =>
      refine ⟨hhead, fun hm => ?_⟩
      rcases List.mem_cons.mp hm with h | h
      · exact hc h
      · exact hcs (hpre.subset (List.mem_of_mem_dropLast h))

theorem cwdAppend_eq (h : cwdRoom cwdPath + (cString path).length + 1 < vfsCwdPathMax) :
    cwdAppend cwdPath path = (if cwdPath.length > 1 ∧ cwdPath.getLast? ≠ some slash then
      cwdPath ++ [slash] else cwdPath) ++ cString path := by
  unfold cwdRoom at h
  by_cases hsep : cwdPath.length > 1 ∧ cwdPath.getLast? ≠ some slash
  · rw [if_pos hsep] at h ⊢
    have hroom : cwdPath.length > 1 ∧ cwdPath.getLast? ≠ some slash ∧
        cwdPath.length + 1 < vfsCwdPathMax := ⟨hsep.1, hsep.2, by omega⟩
    simp only [cwdAppend, if_pos hroom, List.length_append, List.length_singleton, if_pos h]
  · rw [if_neg hsep] at h ⊢
    have hroom : ¬(cwdPath.length > 1 ∧ cwdPath.getLast? ≠ some slash ∧
        cwdPath.length + 1 < vfsCwdPathMax) := fun hall => hsep ⟨hall.1, hall.2.1⟩
    simp only [cwdAppend, if_neg hroom, if_pos h]

theorem cwdAppend_cut (h : ¬cwdRoom cwdPath + (cString path).length + 1 < vfsCwdPathMax) :
    cwdAppend cwdPath path = cwdPath ∨ cwdAppend cwdPath path = cwdPath ++ [slash] := by
  unfold cwdRoom at h
  by_cases hroom : cwdPath.length > 1 ∧ cwdPath.getLast? ≠ some slash ∧
      cwdPath.length + 1 < vfsCwdPathMax
  · rw [if_pos ⟨hroom.1, hroom.2.1⟩] at h
    right
    simp only [cwdAppend, if_pos hroom, List.length_append, List.length_singleton, if_neg h]
  · have hno : ¬cwdPath.length + (cString path).length + 1 < vfsCwdPathMax := by
      intro hfit
      apply h
      split
      · rename_i hlong
        exact absurd ⟨hlong.1, hlong.2, by omega⟩ hroom
      · exact hfit
    left
    simp only [cwdAppend, if_neg hroom, if_neg hno]

theorem parts_cwdAppend (hr : Rooted cwdPath)
    (h : cwdRoom cwdPath + (cString path).length + 1 < vfsCwdPathMax) :
    parts (cwdAppend cwdPath path) = parts cwdPath ++ components path := by
  rw [cwdAppend_eq h, components]
  split
  · rw [List.append_assoc, List.singleton_append, parts_append]
  · -- the text ends in the separator, or is the separator alone
    rename_i hsep
    have hend : ∃ xs, cwdPath = xs ++ [slash] := by
      rcases cwdPath.eq_nil_or_concat with rfl | ⟨xs, c, rfl⟩
      · cases hr.1
      · rw [List.concat_eq_append] at hsep hr ⊢
        refine ⟨xs, ?_⟩
        by_cases hc : c = slash
        · rw [hc]
        · cases xs with
          | nil => exact absurd hr.1 hc
          | cons x xs => exact absurd ⟨by simp, by rw [List.getLast?_concat]; simpa using hc⟩ hsep
    obtain ⟨xs, rfl⟩ := hend
    rw [List.append_assoc, List.singleton_append, parts_append, parts_append, parts_nil,
      List.append_nil]

theorem parts_cwdAppend_cut (h : ¬cwdRoom cwdPath + (cString path).length + 1 < vfsCwdPathMax) :
    parts (cwdAppend cwdPath path) = parts cwdPath := by
  rcases cwdAppend_cut h with he | he
  · rw [he]
  · rw [he, parts_append, parts_nil, List.append_nil]

theorem Rooted.append (h : Rooted cwdPath) : Rooted (cwdAppend cwdPath path) := by
  obtain ⟨c, cs, rfl⟩ : ∃ c cs, cwdPath = c :: cs := by
    cases cwdPath with
    | nil => cases h.1
    | cons c cs => exact ⟨c, cs, rfl⟩
  obtain ⟨hhead, hz⟩ := h
  have hpath := cString_no_nul path
  have hslash : (0 : UInt8) ≠ slash := by
    decide
  have hform : ∃ ds, cwdAppend (c :: cs) path = (c :: cs) ++ ds ∧ 0 ∉ ds := by
    by_cases hfit : cwdRoom (c :: cs) + (cString path).length + 1 < vfsCwdPathMax
    · rw [cwdAppend_eq hfit]
      split
      · exact ⟨slash :: cString path, by simp, by simp [hslash, hpath]⟩
      · exact ⟨cString path, rfl, hpath⟩
    · rcases cwdAppend_cut hfit with he | he
      · exact ⟨[], by rw [he, List.append_nil], by simp⟩
      · exact ⟨[slash], he, by simp [hslash]⟩
  obtain ⟨ds, he, hds⟩ := hform
  rw [he]
  refine ⟨hhead, fun hm => ?_⟩
  rcases List.mem_append.mp hm with h | h
  · exact hz h
  · exact hds h

theorem Rooted.ne_nil (h : Rooted cwdPath) : cwdPath ≠ [] := by
  rintro rfl
  cases h.1

/-- `cwd_path` never becomes empty, so `vfs_chdir` never has to reset it. -/
theorem cwdAfter_eq (h : Rooted cwdPath) : Rooted (cwdAfter cwdPath path) ∧
    cwdAfter cwdPath path =
      if path.headD 0 = slash then cwdUpdate path
      else if cString path = dot then cwdPath
      else if cString path = dotdot then cwdParent cwdPath
      else cwdAppend cwdPath path := by
  have hnext : Rooted (if path.headD 0 = slash then cwdUpdate path
      else if cString path = dot then cwdPath
      else if cString path = dotdot then cwdParent cwdPath
      else cwdAppend cwdPath path) := by
    split
    · exact rooted_cwdUpdate ‹_›
    · split
      · exact h
      · split
        · exact h.parent
        · exact h.append
  unfold cwdAfter
  dsimp only
  rw [if_neg hnext.ne_nil]
  exact ⟨hnext, rfl⟩

end Text

theorem mem_map_dropLast {α β : Type*} {f : α → β} {xs : List α} {y : β}
    (h : y ∈ xs.dropLast.map f) : y ∈ xs.map f := by
  obtain ⟨x, hx, rfl⟩ := List.mem_map.mp h
  exact List.mem_map_of_mem (List.mem_of_mem_dropLast hx)

section Walks

variable {sb : Superblock} {es : Table} {root n m k : Fin 64} {names : List (List UInt8)}
  (ht : EntryTree sb es root)

include ht

theorem EntryTree.run_used (hn : (es n).used ≠ 0) (hnames : ∀ name ∈ names, ValidName name)
    (h : Run (Leads es) n names m) : (es m).used ≠ 0 := by
  induction h with
  | nil n => exact hn
  | cons head tail ih =>
    have hnext := ((ht.next [] hn (hnames _ List.mem_cons_self)).1 _ head).1
    exact ih hnext fun name hname => hnames name (List.mem_cons_of_mem _ hname)

theorem EntryTree.run_unique (hn : (es n).used ≠ 0) (hnames : ∀ name ∈ names, ValidName name)
    (h : Run (Leads es) n names m) (h' : Run (Leads es) n names k) : m = k := by
  have hm := (ht.walk hn hnames).1 m h
  rw [(ht.walk hn hnames).1 k h'] at hm
  exact slotId_inj (Option.some.inj (Except.ok.inj hm)).symm

omit ht in
/-- What the text shows, as a walk of its components. -/
theorem EntryTree.shown_iff {v : Vfs} {session : Int} (ht : EntryTree v.fs.super v.fs.entries root)
    (htext : Rooted (v.ctx (sessionSlot session)).cwdPath) (hcwd : v.cwd session = slotId n) :
    Shown v session ↔ LeadTo v.fs.entries root (v.ctx (sessionSlot session)).cwdPath n := by
  have hwalk := ht.walk ht.tree.root_used (components_valid (v.ctx (sessionSlot session)).cwdPath)
  rw [Shown, sfsResolve, startNode, if_pos htext.1, resolveLoop_components, hcwd, ht.rootId]
  constructor
  · intro h
    by_cases hex : ∃ m, LeadTo v.fs.entries root (v.ctx (sessionSlot session)).cwdPath m
    · obtain ⟨m, hm⟩ := hex
      rw [hwalk.1 m hm] at h
      rwa [← slotId_inj (Option.some.inj (Except.ok.inj h))]
    · rw [hwalk.2 fun m hm => hex ⟨m, hm⟩] at h
      cases h
  · exact hwalk.1 n

end Walks

/-- One call of `vfs_chdir`. -/
def ChdirStep (session : Int) (v : Vfs) (path : List UInt8) (v' : Vfs) : Prop :=
  ∃ ok, vfsChdir v session path = .ok (v', ok)

/-- A session stands in a directory of the tree, and its text is an absolute path. -/
structure Standing (root : Fin 64) (session : Int) (v : Vfs) : Prop where
  tree : EntryTree v.fs.super v.fs.entries root
  dir : DirId v.fs.entries (v.cwd session)
  text : Rooted (v.ctx (sessionSlot session)).cwdPath

/-- The session after it has moved. -/
def Vfs.entered (v : Vfs) (session : Int) (m : Fin 64) (path : List UInt8) : Vfs :=
  let c := v.ctx (sessionSlot session)
  let c := { c with cwd := slotId m, cwdPath := cwdAfter c.cwdPath path }
  { v with ctx := Function.update v.ctx (sessionSlot session) c }

section Calls

variable {v v' : Vfs} {session : Int} {root n m : Fin 64} {path : List UInt8}

@[simp] theorem Vfs.entered_fs : (v.entered session m path).fs = v.fs := rfl

theorem Vfs.entered_cwd : (v.entered session m path).cwd session = slotId m := by
  rw [Vfs.cwd, Vfs.entered]
  dsimp only
  rw [Function.update_self]

theorem Vfs.entered_text : ((v.entered session m path).ctx (sessionSlot session)).cwdPath =
    cwdAfter (v.ctx (sessionSlot session)).cwdPath path := by
  rw [Vfs.entered]
  dsimp only
  rw [Function.update_self]

theorem sfsStat_slot {s : SimpleFs} (hu : (s.entries m).used ≠ 0) :
    sfsStat s (slotId m) = some ((s.entries m).info (slotId m)) := by
  have hlt : (slotId m).toNat < 64 := by
    rw [slotId_toNat]
    exact m.isLt
  have hslot : (⟨(slotId m).toNat, hlt⟩ : Fin 64) = m := Fin.ext (slotId_toNat m)
  rw [sfsStat, dif_pos hlt, hslot]
  dsimp only
  rw [if_neg hu]

/-- `vfs_chdir` moves the session to the directory that the path leads to, or does nothing. -/
theorem Standing.chdir (hs : Standing root session v) (hn : v.cwd session = slotId n) :
    (∀ m, LeadTo v.fs.entries (startSlot root n path) path m → (v.fs.entries m).IsDir →
      vfsChdir v session path = .ok (v.entered session m path, true)) ∧
    ((∀ m, LeadTo v.fs.entries (startSlot root n path) path m → ¬(v.fs.entries m).IsDir) →
      vfsChdir v session path = .ok (v, false)) := by
  have hused : (v.fs.entries (startSlot root n path)).used ≠ 0 := by
    obtain ⟨n', hn', hdir⟩ := hs.dir
    obtain rfl := slotId_inj (hn.symm.trans hn')
    rw [startSlot]
    split
    · exact hs.tree.tree.root_used
    · exact hdir.1
  have hwalk := hs.tree.walk hused (components_valid path)
  have hres : sfsResolve v.fs path (v.cwd session) =
      walkNames v.fs.entries ((components path).map cutName) (slotId (startSlot root n path)) := by
    rw [sfsResolve, hn, hs.tree.start, resolveLoop_components]
  constructor
  · intro m hm hdir
    rw [vfsChdir, hres, hwalk.1 m hm]
    dsimp only [bind, Except.bind]
    rw [sfsStat_slot hdir.1]
    have htype : ((v.fs.entries m).info (slotId m)).type = sfsTypeDir := hdir.2
    dsimp only
    rw [if_neg fun hne => hne htype]
    rfl
  · intro hno
    by_cases hex : ∃ m, LeadTo v.fs.entries (startSlot root n path) path m
    · obtain ⟨m, hm⟩ := hex
      have hu := hs.tree.run_used hused (components_valid path) hm
      rw [vfsChdir, hres, hwalk.1 m hm]
      dsimp only [bind, Except.bind]
      rw [sfsStat_slot hu]
      have htype : ((v.fs.entries m).info (slotId m)).type ≠ sfsTypeDir :=
        fun htype => hno m hm ⟨hu, htype⟩
      dsimp only
      rw [if_pos htype]
    · rw [vfsChdir, hres, hwalk.2 fun m hm => hex ⟨m, hm⟩]
      rfl

theorem Standing.total (hs : Standing root session v) (path : List UInt8) :
    ∃ v', ChdirStep session v path v' := by
  obtain ⟨n, hn, -⟩ := hs.dir
  by_cases hex : ∃ m, LeadTo v.fs.entries (startSlot root n path) path m ∧ (v.fs.entries m).IsDir
  · obtain ⟨m, hm, hdir⟩ := hex
    exact ⟨_, true, (hs.chdir hn).1 m hm hdir⟩
  · exact ⟨v, false, (hs.chdir hn).2 fun m hm hdir => hex ⟨m, hm, hdir⟩⟩

theorem Standing.cases (hs : Standing root session v) (hn : v.cwd session = slotId n)
    (h : ChdirStep session v path v') :
    (∃ m, LeadTo v.fs.entries (startSlot root n path) path m ∧ (v.fs.entries m).IsDir ∧
      v' = v.entered session m path) ∨
    v' = v ∧ ∀ m, LeadTo v.fs.entries (startSlot root n path) path m → ¬(v.fs.entries m).IsDir := by
  obtain ⟨ok, h⟩ := h
  by_cases hex : ∃ m, LeadTo v.fs.entries (startSlot root n path) path m ∧ (v.fs.entries m).IsDir
  · obtain ⟨m, hm, hdir⟩ := hex
    rw [(hs.chdir hn).1 m hm hdir] at h
    cases h
    exact .inl ⟨m, hm, hdir, rfl⟩
  · have hno : ∀ m, LeadTo v.fs.entries (startSlot root n path) path m →
        ¬(v.fs.entries m).IsDir := fun m hm hdir => hex ⟨m, hm, hdir⟩
    rw [(hs.chdir hn).2 hno] at h
    cases h
    exact .inr ⟨rfl, hno⟩

theorem Standing.entered (hs : Standing root session v) (hdir : (v.fs.entries m).IsDir) :
    Standing root session (v.entered session m path) := by
  refine ⟨hs.tree, ⟨m, Vfs.entered_cwd, hdir⟩, ?_⟩
  rw [Vfs.entered_text]
  exact (cwdAfter_eq hs.text).1

theorem Standing.step (hs : Standing root session v) (h : ChdirStep session v path v') :
    Standing root session v' := by
  obtain ⟨n, hn, -⟩ := hs.dir
  rcases hs.cases hn h with ⟨m, -, hdir, rfl⟩ | ⟨rfl, -⟩
  · exact hs.entered hdir
  · exact hs

theorem Rooted.leadTo {es : Table} {cwdPath : List UInt8} (h : Rooted cwdPath) :
    LeadTo es root cwdPath m ↔ Run (Leads es) root ((parts cwdPath).map cutName) m := by
  rw [LeadTo, h.components]

end Calls

section Texts

variable {sb : Superblock} {es : Table} {root n m : Fin 64} {cwdPath path : List UInt8}
  (ht : EntryTree sb es root) (hr : Rooted cwdPath)

theorem components_cString (path : List UInt8) : components (cString path) = components path := by
  rw [components, cString_clean (cString_no_nul path)]
  rfl

theorem cwdUpdate_leadTo (hm : LeadTo es root path m) :
    LeadTo es root (cwdUpdate path) m ↔ (cString path).length < vfsCwdPathMax ∨
      LeadTo es root ((cString path).take (vfsCwdPathMax - 1)) m := by
  constructor
  · exact .inr
  · rintro (hfit | h)
    · rw [cwdUpdate, List.take_of_length_le (by omega), LeadTo, components_cString]
      exact hm
    · exact h

include ht hr

/-- `..` as text and `..` in the tree agree behind a name, and behind dots at the root. -/
theorem cwdParent_leadTo (hn : LeadTo es root cwdPath n) :
    LeadTo es root (cwdParent cwdPath) (parentSlot es n) ↔
      (∀ name ∈ (components cwdPath).getLast?, name ≠ dot ∧ name ≠ dotdot) ∨
        Run (Leads es) root ((components cwdPath).dropLast.map cutName) root := by
  have htext : parts (cwdParent cwdPath) = (parts cwdPath).dropLast := by
    obtain ⟨hhead, -⟩ := hr
    cases cwdPath with
    | nil => cases hhead
    | cons c cs =>
      obtain rfl : c = slash := hhead
      exact parts_cwdParent cs
  have hvalid : ∀ name ∈ (parts cwdPath).dropLast.map cutName, ValidName name := by
    intro name hname
    apply components_valid cwdPath
    rw [hr.components]
    exact mem_map_dropLast hname
  have hroot := ht.tree.root_used
  rw [hr.parent.leadTo, htext, hr.components]
  rw [hr.leadTo] at hn
  rcases (parts cwdPath).eq_nil_or_concat with hnil | ⟨names, last, hlast⟩
  · rw [hnil] at hn ⊢
    cases hn
    have hself : parentSlot es root = root := ht.tree.root_parent
    rw [hself]
    exact ⟨fun _ => .inl (by simp), fun _ => .nil root⟩
  · rw [hlast, List.concat_eq_append] at hn hvalid ⊢
    rw [List.dropLast_concat] at hvalid ⊢
    rw [List.map_append, List.map_singleton] at hn
    obtain ⟨k, hk, hleads⟩ := hn.snoc_inv
    have hku := ht.run_used hroot hvalid hk
    by_cases hdots : last = dot ∨ last = dotdot
    · have hno : ¬∀ name ∈ (names ++ [last]).getLast?, name ≠ dot ∧ name ≠ dotdot := by
        intro h
        obtain ⟨h1, h2⟩ := h last (by simp)
        exact hdots.elim h1 h2
      have hdone : parentSlot es n = k → k = root := by
        intro hp
        rcases hdots with rfl | rfl
        · cases hleads with
          | here => exact ht.tree.cycle_root (k := 0) hku hp
          | down hdot => exact absurd rfl hdot
        · cases hleads with
          | up => exact ht.tree.cycle_root (k := 1) hku hp
          | down hdot hdotdot => exact absurd rfl hdotdot
      have hback : k = root → parentSlot es n = root := by
        rintro rfl
        have hself : parentSlot es k = k := ht.tree.root_parent
        rcases hdots with rfl | rfl
        · cases hleads with
          | here => exact hself
          | down hdot => exact absurd rfl hdot
        · cases hleads with
          | up => rw [hself, hself]
          | down hdot hdotdot => exact absurd rfl hdotdot
      constructor
      · intro h
        have hk' := hdone (ht.run_unique hroot hvalid h hk)
        exact .inr (hk' ▸ hk)
      · rintro (h | h)
        · exact absurd h hno
        · rwa [hback (ht.run_unique hroot hvalid hk h)]
    · have hp : parentSlot es n = k := by
        obtain ⟨hdot, hdotdot⟩ := not_or.mp hdots
        generalize hcut : cutName last = name at hleads
        cases hleads with
        | here => exact absurd ((cutName_eq_dots (.inl hcut)).trans hcut) hdot
        | up => exact absurd ((cutName_eq_dots (.inr hcut)).trans hcut) hdotdot
        | down hdot hdotdot hused hparent hnamed => exact parentSlot_of_eq hparent
      rw [hp]
      refine ⟨fun _ => .inl ?_, fun _ => hk⟩
      intro name hname
      obtain rfl : last = name := by simpa using hname
      exact not_or.mp hdots

/-- A path appended leads on from where the text leads. -/
theorem cwdAppend_leadTo (hn : LeadTo es root cwdPath n) (hm : LeadTo es n path m) :
    LeadTo es root (cwdAppend cwdPath path) m ↔
      cwdRoom cwdPath + (cString path).length + 1 < vfsCwdPathMax ∨ m = n := by
  have hvalid := components_valid cwdPath
  rw [hr.components] at hvalid
  rw [hr.append.leadTo]
  rw [hr.leadTo] at hn
  by_cases hfit : cwdRoom cwdPath + (cString path).length + 1 < vfsCwdPathMax
  · rw [parts_cwdAppend hr hfit, List.map_append]
    exact ⟨fun _ => .inl hfit, fun _ => hn.append hm⟩
  · rw [parts_cwdAppend_cut hfit]
    constructor
    · intro h
      exact .inr (ht.run_unique ht.tree.root_used hvalid h hn)
    · rintro (h | rfl)
      · exact absurd h hfit
      · exact hn

theorem cwdAfter_leadTo (hn : LeadTo es root cwdPath n)
    (hm : LeadTo es (startSlot root n path) path m) :
    LeadTo es root (cwdAfter cwdPath path) m ↔ TextFollows es root n cwdPath path m := by
  rw [(cwdAfter_eq hr).2, TextFollows]
  rw [startSlot] at hm
  by_cases hslash : path.headD 0 = slash
  · rw [if_pos hslash] at hm ⊢
    rw [if_pos hslash]
    exact cwdUpdate_leadTo hm
  · rw [if_neg hslash] at hm ⊢
    rw [if_neg hslash]
    by_cases hdot : cString path = dot
    · rw [if_pos hdot, if_neg (by rw [hdot]; decide)]
      have hstay : m = n := by
        rw [LeadTo, components, hdot, parts_name (by decide) (by decide)] at hm
        cases hm with
        | cons head tail =>
          cases tail
          cases head with
          | here => rfl
          | down hdot => exact absurd rfl hdot
      rw [hstay]
      exact ⟨fun _ => .inl hdot, fun _ => hn⟩
    · rw [if_neg hdot]
      by_cases hdotdot : cString path = dotdot
      · rw [if_pos hdotdot, if_pos hdotdot]
        have hup : m = parentSlot es n := by
          rw [LeadTo, components, hdotdot, parts_name (by decide) (by decide)] at hm
          cases hm with
          | cons head tail =>
            cases tail
            cases head with
            | up => rfl
            | down hdot hdotdot => exact absurd rfl hdotdot
        rw [hup]
        exact cwdParent_leadTo ht hr hn
      · rw [if_neg hdotdot, if_neg hdotdot, cwdAppend_leadTo ht hr hn hm]
        exact ⟨.inr, fun h => h.resolve_left hdot⟩

end Texts

/-- A call keeps the prompt right exactly when the text can follow it. -/
theorem chdir_shown_iff {v v' : Vfs} {session : Int} {root : Fin 64} {path : List UInt8}
    (hs : Standing root session v) (hshown : Shown v session) (h : ChdirStep session v path v') :
    Shown v' session ↔ Follows v session path := by
  obtain ⟨n, hn, -⟩ := hs.dir
  have htext := (hs.tree.shown_iff hs.text hn).mp hshown
  have hused : (v.fs.entries (startSlot root n path)).used ≠ 0 := by
    have hn' := hs.tree.run_used hs.tree.tree.root_used (components_valid _) htext
    rw [startSlot]
    split
    · exact hs.tree.tree.root_used
    · exact hn'
  rcases hs.cases hn h with ⟨m, hm, hdir, rfl⟩ | ⟨rfl, hno⟩
  · have hs' : Standing root session (v.entered session m path) := hs.entered hdir
    rw [hs'.tree.shown_iff hs'.text Vfs.entered_cwd, Vfs.entered_text, Vfs.entered_fs,
      cwdAfter_leadTo hs.tree hs.text htext hm]
    constructor
    · intro hf root' n' m' hroot' hn' hm' _
      obtain rfl := slotId_inj (hs.tree.rootId.symm.trans hroot')
      obtain rfl := slotId_inj (hn.symm.trans hn')
      rwa [← hs.tree.run_unique hused (components_valid path) hm hm']
    · intro hf
      exact hf root n m hs.tree.rootId hn hm hdir
  · refine ⟨fun _ root' n' m' hroot' hn' hm' hdir => ?_, fun _ => hshown⟩
    obtain rfl := slotId_inj (hs.tree.rootId.symm.trans hroot')
    obtain rfl := slotId_inj (hn.symm.trans hn')
    exact absurd hdir (hno m' hm')

/-- After every call of a session the path shown leads from the root to its working directory,
exactly when the text can follow every call. -/
theorem vfs_chdir_shows_cwd_iff (v : Vfs) (session : Int) (root : Fin 64)
    (ht : EntryTree v.fs.super v.fs.entries root) (hcwd : v.cwd session = v.fs.super.rootId)
    (htext : (v.ctx (sessionSlot session)).cwdPath = [slash]) (paths : List (List UInt8)) :
    (∀ done v', done <+: paths → Run (ChdirStep session) v done v' → Shown v' session) ↔
      ∀ done path v', done ++ [path] <+: paths → Run (ChdirStep session) v done v' →
        Follows v' session path := by
  have hrooted : Rooted (v.ctx (sessionSlot session)).cwdPath := by
    rw [htext]
    exact ⟨rfl, by decide⟩
  have hroot := hcwd.trans ht.rootId
  have hdir := ht.dirs root ht.tree.root_used
  rw [show parentSlot v.fs.entries root = root from ht.tree.root_parent] at hdir
  have hs : Standing root session v := ⟨ht, ⟨root, hroot, hdir⟩, hrooted⟩
  have hshown : Shown v session := by
    rw [ht.shown_iff hrooted hroot, hrooted.leadTo, htext, parts_slash, parts_nil]
    exact .nil root
  rw [Run.all_iff (I := Standing root session) (C := fun v path => Follows v session path)
    (fun v path hv => hv.total path) (fun v path v' hv h => hv.step h)
    (fun v path v' hv hp h => chdir_shown_iff hv hp h) hs paths]
  exact ⟨fun h => h.2, fun h => ⟨hshown, h⟩⟩

/-- A volume with the directory `a`, on which session 0 stands in the root. -/
theorem one_dir_volume : ∃ v, exec vfsNext blankVfs [.mkdir 0 [97]] = .ok v ∧
    EntryTree v.fs.super v.fs.entries 0 ∧ v.cwd 0 = v.fs.super.rootId ∧
    (v.ctx (sessionSlot 0)).cwdPath = [slash] := by
  have heval : (exec vfsNext blankVfs [.mkdir 0 [97]]).toOption.map
      (fun v => (v.fs.super.rootId, v.cwd 0, (v.ctx (sessionSlot 0)).cwdPath)) =
      some (0, 0, [slash]) := by decide +kernel
  obtain ⟨w, hw, hwt, hhome, -⟩ := vfsInit_home (v := ⟨powerOn blankDrive, fun _ => ⟨0, 0, 0, 0⟩,
    fun _ => ⟨0, [], fun _ => 0, fun _ _ => 0, fun _ _ => 0⟩⟩) (fun _ => rfl) powerOn_blank_fresh
  obtain rfl : blankVfs = w := congrArg Prod.fst hw
  cases hv : exec vfsNext blankVfs [.mkdir 0 [97]] with
  | error e =>
    rw [hv] at heval
    cases heval
  | ok v =>
    rw [hv] at heval
    obtain ⟨hroot, hcwd, htext⟩ : v.fs.super.rootId = 0 ∧ v.cwd 0 = 0 ∧
        (v.ctx (sessionSlot 0)).cwdPath = [slash] := by
      simpa using Option.some.inj heval
    have hhomed : Homed v := by
      have hrun := exec_run hv
      have hstart : Homed blankVfs := ⟨hwt, fun s => ⟨0, (hhome s).trans hwt.root, hwt.root_dir⟩⟩
      cases hrun with
      | cons head tail =>
        cases tail
        refine hstart.step ?_ (vfsNext_rel head)
        intro session path n hc
        cases hc
    exact ⟨v, rfl, hhomed.tree.entryTree, hcwd.trans hroot.symm, htext⟩

theorem vfs_chdir_shows_cwd_dir : ∃ v v', EntryTree v.fs.super v.fs.entries 0 ∧
    Run (ChdirStep 0) v [[97]] v' ∧ Shown v' 0 := by
  obtain ⟨v, -, ht, hcwd, htext⟩ := one_dir_volume
  have hall := (vfs_chdir_shows_cwd_iff v 0 0 ht hcwd htext [[97]]).mpr ?_
  · have hdir := ht.dirs 0 ht.tree.root_used
    rw [show parentSlot v.fs.entries 0 = 0 from ht.tree.root_parent] at hdir
    have hs : Standing 0 0 v := ⟨ht, ⟨0, hcwd.trans ht.rootId, hdir⟩, htext ▸ ⟨rfl, by decide⟩⟩
    obtain ⟨v', hv'⟩ := hs.total [97]
    have hrun : Run (ChdirStep 0) v [[97]] v' := .cons hv' (.nil v')
    exact ⟨v, v', ht, hrun, hall [[97]] v' List.prefix_rfl hrun⟩
  · intro done path v' hpre hrun
    obtain ⟨rfl, rfl⟩ : done = [] ∧ path = [97] := by
      have hlen := hpre.length_le
      cases done with
      | nil => simpa using hpre
      | cons d ds => simp at hlen
    cases hrun
    intro root n m _ _ _ _
    rw [TextFollows, if_neg (by decide), if_neg (by decide +kernel), htext]
    exact .inr (.inl (by decide +kernel))

theorem chdirStep_of_next {v v' : Vfs} {session : Int} {path : List UInt8}
    (h : vfsNext v (.chdir session path) = .ok v') : ChdirStep session v path v' := by
  obtain ⟨r, hr⟩ := vfsNext_rel h
  obtain ⟨⟨w, ok⟩, hcd, hr⟩ := bind_ok hr
  cases hr
  exact ⟨ok, hcd⟩

/-- From `/a/.` the directory `..` is the root, but the text loses only its dot. -/
theorem vfs_chdir_misses_dot : ∃ v v', EntryTree v.fs.super v.fs.entries 0 ∧
    v.cwd 0 = v.fs.super.rootId ∧ (v.ctx (sessionSlot 0)).cwdPath = [slash] ∧
    Run (ChdirStep 0) v [[97, slash, 46], [46, 46]] v' ∧ v'.cwd 0 = 0 ∧
    (v'.ctx (sessionSlot 0)).cwdPath = [slash, 97] ∧ ¬Shown v' 0 := by
  obtain ⟨v, hv, ht, hcwd, htext⟩ := one_dir_volume
  have heval : (exec vfsNext blankVfs
      [.mkdir 0 [97], .chdir 0 [97, slash, 46], .chdir 0 [46, 46]]).toOption.map
      (fun v => (v.cwd 0, (v.ctx (sessionSlot 0)).cwdPath,
        (sfsResolve v.fs (v.ctx (sessionSlot 0)).cwdPath v.fs.super.rootId).toOption)) =
      some (0, [slash, 97], some (some 1)) := by decide +kernel
  obtain ⟨v', hrun, hobs⟩ := exec_observed _ heval
  simp only [Prod.mk.injEq] at hobs
  obtain ⟨hcwd', htext', hres⟩ := hobs
  cases hrun with
  | cons head tail =>
    cases exec_run hv with
    | cons head' tail' =>
      cases tail'
      obtain rfl := Except.ok.inj (head'.symm.trans head)
      cases tail with
      | cons dot tail =>
        cases tail with
        | cons dotdot tail =>
          cases tail
          refine ⟨v, v', ht, hcwd, htext, .cons (chdirStep_of_next dot)
            (.cons (chdirStep_of_next dotdot) (.nil v')), hcwd', htext', fun hshown => ?_⟩
          rw [Shown] at hshown
          rw [hshown, hcwd'] at hres
          exact absurd hres (by decide)

end VertexOS
