import VertexOS.Vfs.Descriptors

namespace VertexOS
open Library.Transitions Library.Forest

def vfsRel (v : Vfs) (c : VfsCall) (v' : Vfs) : Prop := ∃ r, vfsStep v c = .ok (v', r)

/-- No session stands in nowhere and no entry hangs loose: every working
directory is a used directory, and the root is reached from every used entry. -/
structure CwdSound (v : Vfs) : Prop where
  cwd : ∀ s, ∃ n, (v.ctx s).cwd = slotId n ∧ (v.fs.entries n).IsDir ∧
    ∃ k, k < 64 ∧ (parentSlot v.fs.entries)^[k] n = 0
  rooted : ∀ n, (v.fs.entries n).used ≠ 0 → ∃ k, k < 64 ∧ (parentSlot v.fs.entries)^[k] n = 0
  own : ∀ n, (v.fs.entries n).used ≠ 0 → (v.fs.entries n).parent = slotId n → n = 0

/-- A call does not remove a directory some session stands in. -/
def SparesCwd (v : Vfs) (c : VfsCall) : Prop :=
  ∀ session path n, c = .remove session path →
    sfsRemoveTarget v.fs path (v.cwd session) = .ok (some n) → ∀ s, (v.ctx s).cwd ≠ slotId n

/-- What is kept along a run: the table is a tree and every working directory is
one of its directories. -/
structure Homed (v : Vfs) : Prop where
  tree : DirectoryTree v.fs.super v.fs.entries
  cwd : ∀ s, DirId v.fs.entries (v.ctx s).cwd

theorem Homed.sound (h : Homed v) : CwdSound v := by
  have hrooted : ∀ n, (v.fs.entries n).used ≠ 0 →
      ∃ k, k < 64 ∧ (parentSlot v.fs.entries)^[k] n = 0 := by
    intro n hn
    obtain ⟨k, hk, hroot⟩ := h.tree.tree.depth_lt hn
    exact ⟨k, by simpa using hk, hroot⟩
  refine ⟨fun s => ?_, hrooted, fun n hn hown => ?_⟩
  · obtain ⟨n, hcwd, hdir⟩ := h.cwd s
    exact ⟨n, hcwd, hdir, hrooted n hdir.1⟩
  · -- an entry that is its own parent never leaves its slot
    obtain ⟨k, -, hroot⟩ := hrooted n hn
    rwa [Function.iterate_fixed (parentSlot_of_eq hown)] at hroot

/-- Directories stay directories. -/
def DirsKept (es es' : Table) : Prop := ∀ node, DirId es node → DirId es' node

theorem DirsKept.of_shape (h : SameShape es es') : DirsKept es es' := by
  rintro node ⟨n, rfl, hd⟩
  exact ⟨n, rfl, (h.isDir n).mpr hd⟩

theorem DirsKept.trans (h : DirsKept es es') (h' : DirsKept es' es'') : DirsKept es es'' :=
  fun node hn => h' node (h node hn)

theorem Kept.tree (h : Kept fs fs') (ht : DirectoryTree fs.super fs.entries) :
    DirectoryTree fs'.super fs'.entries := ht.reshape h.shape h.root

theorem sfsCreate_tree (ht : DirectoryTree fs.super fs.entries) (hc : DirId fs.entries cwd)
    (h : sfsCreate fs path cwd type perm = .ok (fs', r)) :
    DirectoryTree fs'.super fs'.entries ∧ DirsKept fs.entries fs'.entries := by
  rcases sfsCreate_cases h with ⟨-, rfl, -⟩ | ⟨idx, e, hentry, hflush, -⟩
  · exact ⟨ht, fun _ hn => hn⟩
  · obtain ⟨r', hr', hnew⟩ := sfsCreateEntry_new ht hc path type perm
    rw [hentry] at hr'
    cases hr'
    have hn := hnew idx e rfl
    have hsup := sfsFlush_super { fs with entries := Function.update fs.entries idx e }
    have hent := sfsFlush_entries { fs with entries := Function.update fs.entries idx e }
    rw [hflush] at hsup hent
    rw [hsup, hent]
    refine ⟨ht.add hn, ?_⟩
    rintro node ⟨n, rfl, hd⟩
    have hne : n ≠ idx := fun he => hd.1 (he ▸ hn.free)
    exact ⟨n, rfl, by dsimp only; rwa [Function.update_of_ne hne]⟩

theorem sfsRemove_tree (ht : DirectoryTree fs.super fs.entries) (hc : DirId fs.entries cwd)
    (h : sfsRemove fs path cwd = .ok (fs', ok)) :
    DirectoryTree fs'.super fs'.entries ∧ ∀ node, DirId fs.entries node →
      (∀ n, sfsRemoveTarget fs path cwd = .ok (some n) → node ≠ slotId n) →
      DirId fs'.entries node := by
  rcases sfsRemove_cases h with ⟨-, rfl, -⟩ | ⟨n, htarget, hflush⟩
  · exact ⟨ht, fun _ hn _ => hn⟩
  · obtain ⟨r, hr, hrem⟩ := sfsRemoveTarget_removable ht hc path
    rw [htarget] at hr
    cases hr
    have hsup := sfsFlush_super { fs with entries := Function.update fs.entries n Entry.zero }
    have hent := sfsFlush_entries { fs with entries := Function.update fs.entries n Entry.zero }
    rw [hflush] at hsup hent
    rw [hsup, hent]
    refine ⟨ht.remove (hrem n rfl), ?_⟩
    rintro node ⟨m, rfl, hd⟩ hspared
    have hne : m ≠ n := fun he => hspared n htarget (congrArg slotId he)
    exact ⟨m, rfl, by dsimp only; rwa [Function.update_of_ne hne]⟩

theorem openNode_tree (ht : DirectoryTree fs.super fs.entries) (hc : DirId fs.entries cwd)
    (h : openNode fs path cwd flags = .ok (fs', r)) :
    DirectoryTree fs'.super fs'.entries ∧ DirsKept fs.entries fs'.entries := by
  rcases openNode_cases h with ⟨-, rfl⟩ | ⟨-, -, hcreate⟩
  · exact ⟨ht, fun _ hn => hn⟩
  · exact sfsCreate_tree ht hc hcreate

theorem Homed.step (h : Homed v) (hs : SparesCwd v c) (hstep : vfsRel v c v') : Homed v' := by
  obtain ⟨r, hr⟩ := hstep
  cases vfsStep_effect hr with
  | @opened session _ _ _ _ _ _ node kept _ =>
    obtain ⟨ht, hd⟩ := openNode_tree h.tree (h.cwd (sessionSlot session)) node
    exact ⟨kept.tree ht, fun s => (hd.trans (DirsKept.of_shape kept.shape)) _ (h.cwd s)⟩
  | @refused session _ _ _ _ _ node kept =>
    obtain ⟨ht, hd⟩ := openNode_tree h.tree (h.cwd (sessionSlot session)) node
    exact ⟨kept.tree ht, fun s => (hd.trans (DirsKept.of_shape kept.shape)) _ (h.cwd s)⟩
  | moved _ _ kept _ =>
    exact ⟨kept.tree h.tree, fun s => DirsKept.of_shape kept.shape _ (h.cwd s)⟩
  | @made session _ _ _ create =>
    obtain ⟨ht, hd⟩ := sfsCreate_tree h.tree (h.cwd (sessionSlot session)) create
    exact ⟨ht, fun s => hd _ (h.cwd s)⟩
  | @removed session path _ _ remove =>
    obtain ⟨ht, hd⟩ := sfsRemove_tree h.tree (h.cwd (sessionSlot session)) remove
    exact ⟨ht, fun s => hd _ (h.cwd s) (fun n hn => hs session path n rfl hn s)⟩
  | @entered session _ c dir =>
    refine ⟨h.tree, fun s => ?_⟩
    by_cases hss : s = sessionSlot session
    · subst hss
      dsimp only
      rwa [Function.update_self]
    · dsimp only
      rw [Function.update_of_ne hss]
      exact h.cwd s
  | stayed => exact h

/-- A remove that takes a session's directory leaves that session nowhere. -/
theorem CwdSound.spares (h : CwdSound v') (hstep : vfsRel v c v') : SparesCwd v c := by
  rintro session path n rfl htarget s hs
  obtain ⟨r, hr⟩ := hstep
  obtain ⟨⟨w, ok⟩, hrm, hr⟩ := bind_ok hr
  cases hr
  obtain ⟨⟨fs, ok⟩, hremove, hrm⟩ := bind_ok hrm
  cases hrm
  obtain ⟨m, hm, hdir, -⟩ := h.cwd s
  obtain rfl : m = n := slotId_inj (hm.symm.trans hs)
  rcases sfsRemove_cases hremove with ⟨hnone, -, -⟩ | ⟨n, htarget', hflush⟩
  · rw [htarget] at hnone
    cases hnone
  · rw [htarget] at htarget'
    cases htarget'
    have hent := sfsFlush_entries { v.fs with entries := Function.update v.fs.entries m Entry.zero }
    rw [hflush] at hent
    refine hdir.1 ?_
    dsimp only
    rw [hent]
    dsimp only
    rw [Function.update_self]
    rfl

/-- Every call of a run leaves every session in a used directory, and every entry
connected to the root, exactly when no call removes a session's directory. -/
theorem cwd_never_dangles_iff (v v' : Vfs) (cs : List VfsCall)
    (ht : DirectoryTree v.fs.super v.fs.entries)
    (hcwd : ∀ s, (v.ctx s).cwd = v.fs.super.rootId) :
    Run (fun v c v' => vfsRel v c v' ∧ CwdSound v') v cs v' ↔
      Run (fun v c v' => vfsRel v c v' ∧ SparesCwd v c) v cs v' := by
  refine ⟨Run.mono fun s c s' hstep => ⟨hstep.1, hstep.2.spares hstep.1⟩, fun hrun => ?_⟩
  have hhome : Homed v := ⟨ht, fun s => ⟨0, (hcwd s).trans ht.root, ht.root_dir⟩⟩
  clear ht hcwd
  induction hrun with
  | nil s => exact .nil s
  | cons head tail ih =>
    have hnext := hhome.step head.2 head.1
    exact .cons ⟨head.1, hnext.sound⟩ (ih hnext)

/-- `vfs_init` on a disk without a signature puts every session into the root. -/
theorem vfsInit_home (hr : v.fs.dev.Reliable) (hn : ¬ Signed (diskSuper v.fs.dev.sectors)) :
    ∃ v', vfsInit v = (v', true) ∧ DirectoryTree v'.fs.super v'.fs.entries ∧
      (∀ s, (v'.ctx s).cwd = v'.fs.super.rootId) ∧ ∀ i, (v'.fds i).used = 0 := by
  obtain ⟨fs, hinit, -, -, hsup, hent⟩ := sfsInit_fresh hr hn
  have hv : vfsInit v = (⟨fs, fun i => { v.fds i with used := 0 },
      fun s => (v.ctx s).reset fs.super.rootId⟩, true) := by
    simp only [vfsInit, hinit]
  refine ⟨_, hv, ?_, fun _ => rfl, fun _ => rfl⟩
  dsimp only
  rw [hsup, hent]
  exact formatted_tree _

def vfsNext (v : Vfs) (c : VfsCall) : Except Fault Vfs := (vfsStep v c).map Prod.fst

theorem vfsNext_rel (h : vfsNext v c = .ok v') : vfsRel v c v' := by
  unfold vfsNext at h
  cases hs : vfsStep v c with
  | error e =>
    rw [hs] at h
    cases h
  | ok p =>
    rw [hs] at h
    cases h
    exact ⟨p.2, hs⟩

theorem cwd_never_dangles_mkdir : ∃ v', Run vfsRel blankVfs [.mkdir 1 [100], .chdir 1 [100]] v' ∧
    CwdSound v' ∧ (v'.ctx 1).cwd = 1 := by
  have heval : (exec vfsNext blankVfs [.mkdir 1 [100], .chdir 1 [100]]).toOption.map
      (fun v => (v.ctx 1).cwd) = some 1 := by decide +kernel
  obtain ⟨v', hrun, hcwd⟩ := exec_observed _ heval
  obtain ⟨v, hv, ht, hhome, -⟩ := vfsInit_home (v := ⟨powerOn blankDrive, fun _ => ⟨0, 0, 0, 0⟩,
    fun _ => ⟨0, [], fun _ => 0, fun _ _ => 0, fun _ _ => 0⟩⟩) (fun _ => rfl) powerOn_blank_fresh
  obtain rfl : blankVfs = v := congrArg Prod.fst hv
  refine ⟨v', hrun.mono fun _ _ _ h => vfsNext_rel h, ?_, hcwd⟩
  have hsound := (cwd_never_dangles_iff blankVfs v' [.mkdir 1 [100], .chdir 1 [100]] ht hhome).mpr ?_
  · cases hsound with
    | cons _ tail =>
      cases tail with
      | cons head tail =>
        cases tail
        exact head.2
  · cases hrun with
    | cons head tail =>
      cases tail with
      | cons head' tail =>
        cases tail
        refine .cons ⟨vfsNext_rel head, ?_⟩ (.cons ⟨vfsNext_rel head', ?_⟩ (.nil _)) <;>
        · intro session path n hc
          cases hc

/-- Session 0 removes the directory session 1 stands in; what session 1 then
creates takes the freed slot and becomes its own parent. -/
theorem cwd_dangles : ∃ v', Run vfsRel blankVfs
      [.mkdir 1 [100], .chdir 1 [100], .remove 0 [100], .mkdir 1 [120]] v' ∧
    ¬ CwdSound v' ∧ (v'.ctx 1).cwd = slotId 1 ∧ (v'.fs.entries 1).nameString = [120] ∧
    (v'.fs.entries 1).parent = slotId 1 := by
  have heval : (exec vfsNext blankVfs
      [.mkdir 1 [100], .chdir 1 [100], .remove 0 [100], .mkdir 1 [120]]).toOption.map
      (fun v => ((v.ctx 1).cwd, (v.fs.entries 1).nameString, (v.fs.entries 1).parent,
        (v.fs.entries 1).used)) = some (slotId 1, [120], slotId 1, 1) := by decide +kernel
  obtain ⟨v', hrun, hv⟩ := exec_observed _ heval
  simp only [Prod.mk.injEq] at hv
  obtain ⟨hcwd, hname, hparent, hused⟩ := hv
  refine ⟨v', hrun.mono fun _ _ _ h => vfsNext_rel h, fun hs => ?_, hcwd, hname, hparent⟩
  exact absurd (hs.own 1 (by rw [hused]; decide) hparent) (by decide)

end VertexOS
