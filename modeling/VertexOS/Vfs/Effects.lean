import VertexOS.Vfs.Vfs

namespace VertexOS

/-- The table keeps its shape and the root its place: at most extents and sizes
changed. -/
structure Kept (fs fs' : SimpleFs) : Prop where
  shape : SameShape fs.entries fs'.entries
  root : fs'.super.rootId = fs.super.rootId

theorem Kept.refl (fs : SimpleFs) : Kept fs fs := ⟨SameShape.refl _, rfl⟩

theorem Kept.trans (h : Kept fs fs') (h' : Kept fs' fs'') : Kept fs fs'' :=
  ⟨h.shape.trans h'.shape, h'.root.trans h.root⟩

theorem Kept.of_eq (he : fs'.entries = fs.entries) (hs : fs'.super = fs.super) : Kept fs fs' := by
  refine ⟨?_, by rw [hs]⟩
  rw [he]
  exact SameShape.refl _

theorem sfsTruncate_kept (fs : SimpleFs) (nodeId : UInt32) : Kept fs (sfsTruncate fs nodeId).1 := by
  obtain ⟨hshape, hsup⟩ := sfsTruncate_shape fs nodeId
  exact ⟨hshape, by rw [hsup]⟩

theorem openTruncate_kept (h : openTruncate fs nodeId flags = (fs', ok)) : Kept fs fs' := by
  unfold openTruncate at h
  split at h
  · have := sfsTruncate_kept fs nodeId
    rwa [h] at this
  · cases h
    exact Kept.refl fs

theorem sfsRead_kept (fs : SimpleFs) (nodeId offset len : UInt32) :
    Kept fs (sfsRead fs nodeId offset len).1 := by
  unfold sfsRead
  split
  · exact Kept.refl fs
  · dsimp only
    split
    · exact Kept.refl fs
    · exact Kept.of_eq rfl rfl

theorem sfsWrite_kept (fs : SimpleFs) (nodeId offset : UInt32) (data : Nat → UInt8) (len : UInt32) :
    Kept fs (sfsWrite fs nodeId offset data len).1 := by
  obtain ⟨hshape, hsup⟩ := sfsWrite_shape fs nodeId offset data len
  exact ⟨hshape, hsup.rootId⟩

/-- The used descriptors were used before, on the same nodes. -/
def FdsKept (fds fds' : Fin 16 → VfsFd) : Prop :=
  ∀ i, (fds' i).used ≠ 0 → (fds i).used ≠ 0 ∧ (fds' i).nodeId = (fds i).nodeId

theorem FdsKept.refl (fds : Fin 16 → VfsFd) : FdsKept fds fds := fun _ hi => ⟨hi, rfl⟩

theorem FdsKept.update (fds : Fin 16 → VfsFd) (i : Fin 16) (fd : VfsFd)
    (hu : fd.used ≠ 0 → (fds i).used ≠ 0) (hn : fd.nodeId = (fds i).nodeId) :
    FdsKept fds (Function.update fds i fd) := by
  intro j hj
  by_cases hji : j = i
  · subst hji
    rw [Function.update_self] at hj ⊢
    exact ⟨hu hj, hn⟩
  · rw [Function.update_of_ne hji] at hj ⊢
    exact ⟨hj, rfl⟩

/-- What each call can do to files, descriptors and contexts. -/
inductive VfsEffect (v : Vfs) : VfsCall → Vfs → VfsReply → Prop
  | opened {session : Int} {path : List UInt8} {flags nodeId : UInt32} {fs fs' : SimpleFs}
      {i : Fin 16} (node : openNode v.fs path (v.cwd session) flags = .ok (fs, some nodeId))
      (kept : Kept fs fs') (free : freeFd v.fds = some i) :
      VfsEffect v (.open session path flags)
        { v with fs := fs', fds := Function.update v.fds i ⟨1, nodeId, 0, flags⟩ } (.fd (some i))
  | refused {session : Int} {path : List UInt8} {flags : UInt32} {r : Option UInt32}
      {fs fs' : SimpleFs} (node : openNode v.fs path (v.cwd session) flags = .ok (fs, r))
      (kept : Kept fs fs') :
      VfsEffect v (.open session path flags) { v with fs := fs' } (.fd none)
  | moved {c : VfsCall} {r : VfsReply} {fs' : SimpleFs} {fds' : Fin 16 → VfsFd}
      (call : (∃ fd len, c = .read fd len) ∨ (∃ fd data len, c = .write fd data len) ∨
        ∃ fd, c = .close fd)
      (reply : ∀ fd, r ≠ .fd fd)
      (kept : Kept v.fs fs') (fds : FdsKept v.fds fds') :
      VfsEffect v c { v with fs := fs', fds := fds' } r
  | made {session : Int} {path : List UInt8} {fs' : SimpleFs} {nodeId : Option UInt32}
      (create : sfsCreate v.fs path (v.cwd session) sfsTypeDir
        (sfsPermRead ||| sfsPermWrite ||| sfsPermExec) = .ok (fs', nodeId)) :
      VfsEffect v (.mkdir session path) { v with fs := fs' } (.done nodeId.isSome)
  | removed {session : Int} {path : List UInt8} {fs' : SimpleFs} {ok : Bool}
      (remove : sfsRemove v.fs path (v.cwd session) = .ok (fs', ok)) :
      VfsEffect v (.remove session path) { v with fs := fs' } (.done ok)
  | entered {session : Int} {path : List UInt8} {c : VfsContext}
      (dir : DirId v.fs.entries c.cwd) :
      VfsEffect v (.chdir session path)
        { v with ctx := Function.update v.ctx (sessionSlot session) c } (.done true)
  | stayed {session : Int} {path : List UInt8} : VfsEffect v (.chdir session path) v (.done false)

theorem sfsStat_dir (h : sfsStat fs nodeId = some st) (ht : st.type = sfsTypeDir) :
    DirId fs.entries nodeId := by
  unfold sfsStat at h
  split at h
  · rename_i hlt
    dsimp only at h
    split at h
    · cases h
    · rename_i hu
      cases h
      refine ⟨⟨nodeId.toNat, hlt⟩, ?_, hu, ht⟩
      apply UInt32.toNat_inj.mp
      rw [slotId_toNat]
  · cases h

theorem vfsOpen_effect (h : vfsOpen v session path flags = .ok (v', fd)) :
    VfsEffect v (.open session path flags) v' (.fd fd) := by
  obtain ⟨⟨fs, r⟩, hnode, h⟩ := bind_ok h
  cases r with
  | none =>
    cases h
    exact .refused hnode (Kept.refl _)
  | some nodeId =>
    dsimp only at h
    cases ht : openTruncate fs nodeId flags with
    | mk fs' ok =>
      have hkept := openTruncate_kept ht
      rw [ht] at h
      cases ok with
      | false =>
        cases h
        exact .refused hnode hkept
      | true =>
        dsimp only at h
        cases hfree : freeFd v.fds with
        | none =>
          rw [hfree] at h
          cases h
          exact .refused hnode hkept
        | some i =>
          rw [hfree] at h
          cases h
          exact .opened hnode hkept hfree

theorem advance_kept (v : Vfs) (fs : SimpleFs) (i : Fin 16) (count : UInt32) :
    FdsKept v.fds (v.advance fs i count).fds :=
  FdsKept.update v.fds i _ (fun h => h) rfl

theorem vfsRead_effect (v : Vfs) (fd : Int) (len : UInt32) :
    VfsEffect v (.read fd len) (vfsRead v fd len).1 (.bytes (vfsRead v fd len).2) := by
  have hmoved : ∀ fs' fds' out, Kept v.fs fs' → FdsKept v.fds fds' →
      VfsEffect v (.read fd len) { v with fs := fs', fds := fds' } (.bytes out) :=
    fun fs' fds' out hk hf => .moved (Or.inl ⟨fd, len, rfl⟩) (fun _ h => by cases h) hk hf
  unfold vfsRead
  cases openFd v fd vfsORead with
  | none => exact hmoved _ _ _ (Kept.refl _) (FdsKept.refl _)
  | some i =>
    have hk := sfsRead_kept v.fs (v.fds i).nodeId (v.fds i).offset len
    dsimp only
    cases hr : sfsRead v.fs (v.fds i).nodeId (v.fds i).offset len with
    | mk fs' out =>
      rw [hr] at hk
      cases out with
      | none => exact hmoved _ _ _ hk (FdsKept.refl _)
      | some out => exact hmoved _ _ _ hk (advance_kept v fs' i _)

theorem vfsWrite_effect (v : Vfs) (fd : Int) (data : Nat → UInt8) (len : UInt32) :
    VfsEffect v (.write fd data len) (vfsWrite v fd data len).1
      (.count (vfsWrite v fd data len).2) := by
  have hmoved : ∀ fs' fds' n, Kept v.fs fs' → FdsKept v.fds fds' →
      VfsEffect v (.write fd data len) { v with fs := fs', fds := fds' } (.count n) :=
    fun fs' fds' n hk hf =>
      .moved (Or.inr (Or.inl ⟨fd, data, len, rfl⟩)) (fun _ h => by cases h) hk hf
  unfold vfsWrite
  cases openFd v fd vfsOWrite with
  | none => exact hmoved _ _ _ (Kept.refl _) (FdsKept.refl _)
  | some i =>
    have hk := sfsWrite_kept v.fs (v.fds i).nodeId (v.fds i).offset data len
    dsimp only
    cases hr : sfsWrite v.fs (v.fds i).nodeId (v.fds i).offset data len with
    | mk fs' count =>
      rw [hr] at hk
      cases count with
      | none => exact hmoved _ _ _ hk (FdsKept.refl _)
      | some count => exact hmoved _ _ _ hk (advance_kept v fs' i _)

theorem vfsClose_effect (v : Vfs) (fd : Int) :
    VfsEffect v (.close fd) (vfsClose v fd) (.done true) := by
  have hcall : (∃ f len, VfsCall.close fd = .read f len) ∨
      (∃ f data len, VfsCall.close fd = .write f data len) ∨
      ∃ f, VfsCall.close fd = .close f := Or.inr (Or.inr ⟨fd, rfl⟩)
  unfold vfsClose
  split
  · exact .moved hcall (fun _ h => by cases h) (Kept.refl _)
      (FdsKept.update v.fds _ _ (fun h => absurd rfl h) rfl)
  · exact .moved hcall (fun _ h => by cases h) (Kept.refl _) (FdsKept.refl _)

theorem vfsChdir_effect (h : vfsChdir v session path = .ok (v', ok)) :
    VfsEffect v (.chdir session path) v' (.done ok) := by
  obtain ⟨r, -, h⟩ := bind_ok h
  cases r with
  | none =>
    cases h
    exact .stayed
  | some nodeId =>
    dsimp only at h
    cases hst : sfsStat v.fs nodeId with
    | none =>
      rw [hst] at h
      cases h
      exact .stayed
    | some st =>
      rw [hst] at h
      dsimp only at h
      split at h
      · cases h
        exact .stayed
      · rename_i htype
        cases h
        exact .entered (sfsStat_dir hst (not_not.mp htype))

theorem vfsStep_effect (h : vfsStep v c = .ok (v', r)) : VfsEffect v c v' r := by
  cases c with
  | «open» session path flags =>
    obtain ⟨⟨w, fd⟩, hopen, h⟩ := bind_ok h
    cases h
    exact vfsOpen_effect hopen
  | read fd len =>
    cases h
    exact vfsRead_effect v fd len
  | write fd data len =>
    cases h
    exact vfsWrite_effect v fd data len
  | close fd =>
    cases h
    exact vfsClose_effect v fd
  | mkdir session path =>
    obtain ⟨⟨w, ok⟩, hmk, h⟩ := bind_ok h
    cases h
    obtain ⟨⟨fs, nodeId⟩, hcreate, h⟩ := bind_ok hmk
    cases h
    exact .made hcreate
  | remove session path =>
    obtain ⟨⟨w, ok⟩, hrm, h⟩ := bind_ok h
    cases h
    obtain ⟨⟨fs, ok⟩, hremove, h⟩ := bind_ok hrm
    cases h
    exact .removed hremove
  | chdir session path =>
    obtain ⟨⟨w, ok⟩, hcd, h⟩ := bind_ok h
    cases h
    exact vfsChdir_effect hcd

/-- How `vfs_open` comes by its node. -/
theorem openNode_cases (h : openNode fs path cwd flags = .ok (fs', r)) :
    sfsResolve fs path cwd = .ok r ∧ fs' = fs ∨
      sfsResolve fs path cwd = .ok none ∧ flags &&& vfsOCreate ≠ 0 ∧
        sfsCreate fs path cwd sfsTypeFile (sfsPermRead ||| sfsPermWrite) = .ok (fs', r) := by
  obtain ⟨a, hres, h⟩ := bind_ok h
  cases a with
  | some nodeId =>
    cases h
    exact Or.inl ⟨hres, rfl⟩
  | none =>
    dsimp only at h
    split at h
    · rename_i hflag
      exact Or.inr ⟨hres, hflag, h⟩
    · cases h
      exact Or.inl ⟨hres, rfl⟩

end VertexOS
