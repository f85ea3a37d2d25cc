import VertexOS.Vfs.Effects

namespace VertexOS
open Library.Transitions

instance (es : Table) (node : UInt32) : Decidable (UsedId es node) :=
  inferInstanceAs (Decidable (∃ n : Fin 64, node = slotId n ∧ (es n).used ≠ 0))

/-- An entry comes into being: its slot was unused before and is used after. -/
def Born (es es' : Table) (node : UInt32) : Prop := ¬ UsedId es node ∧ UsedId es' node

instance (es es' : Table) (node : UInt32) : Decidable (Born es es' node) :=
  inferInstanceAs (Decidable (_ ∧ _))

/-- A run as an observer sees it: `birth` says at which call the entry now in a
slot came into being, `opened` on which file each descriptor was opened. -/
structure Traced where
  vfs : Vfs
  clock : Nat
  birth : UInt32 → Nat
  opened : Fin 16 → UInt32 × Nat

def Traced.start (v : Vfs) : Traced := ⟨v, 0, fun _ => 0, fun _ => (0, 0)⟩

def Traced.observe (t : Traced) (v' : Vfs) (r : VfsReply) : Traced :=
  let birth := fun node =>
    if Born t.vfs.fs.entries v'.fs.entries node then t.clock + 1 else t.birth node
  let opened := match r with
    | .fd (some i) => Function.update t.opened i ((v'.fds i).nodeId, birth (v'.fds i).nodeId)
    | _ => t.opened
  ⟨v', t.clock + 1, birth, opened⟩

theorem observe_birth (t : Traced) (v' : Vfs) (r : VfsReply)
    (hn : ¬ Born t.vfs.fs.entries v'.fs.entries node) :
    (t.observe v' r).birth node = t.birth node := by
  simp only [Traced.observe, if_neg hn]

def tracedStep (t : Traced) (c : VfsCall) (t' : Traced) : Prop :=
  ∃ v' r, vfsStep t.vfs c = .ok (v', r) ∧ t' = t.observe v' r

/-- The slot a create is going to fill. -/
def createSlot (fs : SimpleFs) (path : List UInt8) (cwd : UInt32) (type perm : UInt8) :
    Option (Fin 64) := (sfsCreateEntry fs path cwd type perm).toOption.join.map Prod.fst

/-- The slot a call is going to fill with a new entry. -/
def VfsCall.newSlot (v : Vfs) : VfsCall → Option (Fin 64)
  | .open session path flags =>
    if flags &&& vfsOCreate ≠ 0 ∧ (sfsResolve v.fs path (v.cwd session)).toOption = some none then
      createSlot v.fs path (v.cwd session) sfsTypeFile (sfsPermRead ||| sfsPermWrite)
    else none
  | .mkdir session path => createSlot v.fs path (v.cwd session) sfsTypeDir
      (sfsPermRead ||| sfsPermWrite ||| sfsPermExec)
  | _ => none

/-- A call does not put a new entry where an open descriptor still points. -/
def SparesOpen (v : Vfs) (c : VfsCall) : Prop :=
  ∀ n, c.newSlot v = some n → ∀ i, (v.fds i).used ≠ 0 → (v.fds i).nodeId ≠ slotId n

/-- The descriptor and the node of a read or write that moves bytes. -/
def VfsCall.touches (v : Vfs) : VfsCall → Option (Fin 16 × UInt32)
  | .read fd len =>
    if (vfsRead v fd len).2 = [] then none
    else (openFd v fd vfsORead).map fun i => (i, (v.fds i).nodeId)
  | .write fd data len =>
    if (vfsWrite v fd data len).2 = 0 then none
    else (openFd v fd vfsOWrite).map fun i => (i, (v.fds i).nodeId)
  | _ => none

theorem SameShape.usedId (h : SameShape es es') (node : UInt32) :
    UsedId es' node ↔ UsedId es node := by
  unfold UsedId
  simp only [h.used]

theorem SameShape.not_born (h : SameShape es es') (node : UInt32) : ¬ Born es es' node :=
  fun hb => hb.1 ((h.usedId node).mp hb.2)

/-- What a create brings into being is in the slot it chose. -/
theorem sfsCreate_born (h : sfsCreate fs path cwd type perm = .ok (fs', r))
    (hk : SameShape fs'.entries es) (hb : Born fs.entries es node) :
    ∃ n, createSlot fs path cwd type perm = some n ∧ node = slotId n := by
  have hb : Born fs.entries fs'.entries node := ⟨hb.1, (hk.usedId node).mp hb.2⟩
  rcases sfsCreate_cases h with ⟨-, rfl, -⟩ | ⟨idx, e, hentry, hflush, -⟩
  · exact absurd hb.2 hb.1
  · have hent := sfsFlush_entries { fs with entries := Function.update fs.entries idx e }
    rw [hflush] at hent
    obtain ⟨n, rfl, hn⟩ := hb.2
    refine ⟨n, ?_, rfl⟩
    have hidx : n = idx := by
      by_contra hne
      rw [hent] at hn
      dsimp only at hn
      rw [Function.update_of_ne hne] at hn
      exact hb.1 ⟨n, rfl, hn⟩
    simp [createSlot, hentry, hidx, Except.toOption]

theorem remove_not_born (h : sfsRemove fs path cwd = .ok (fs', ok)) (node : UInt32) :
    ¬ Born fs.entries fs'.entries node := by
  intro hb
  rcases sfsRemove_cases h with ⟨-, rfl, -⟩ | ⟨n, -, hflush⟩
  · exact hb.1 hb.2
  · have hent := sfsFlush_entries { fs with entries := Function.update fs.entries n Entry.zero }
    rw [hflush] at hent
    obtain ⟨m, rfl, hm⟩ := hb.2
    rw [hent] at hm
    dsimp only at hm
    by_cases hmn : m = n
    · subst hmn
      rw [Function.update_self] at hm
      exact hm rfl
    · rw [Function.update_of_ne hmn] at hm
      exact hb.1 ⟨m, rfl, hm⟩

theorem openNode_born (node : openNode v.fs path (v.cwd session) flags = .ok (fs, r))
    (hk : SameShape fs.entries es) (hb : Born v.fs.entries es nodeId) :
    ∃ n, (VfsCall.open session path flags).newSlot v = some n ∧ nodeId = slotId n := by
  rcases openNode_cases node with ⟨-, rfl⟩ | ⟨hres, hflag, hcreate⟩
  · exact absurd hb (hk.not_born nodeId)
  · have hcond : flags &&& vfsOCreate ≠ 0 ∧
        (sfsResolve v.fs path (v.cwd session)).toOption = some none := ⟨hflag, by rw [hres]; rfl⟩
    rw [VfsCall.newSlot, if_pos hcond]
    exact sfsCreate_born hcreate hk hb

/-- A call brings an entry into being only in its new slot. -/
theorem vfsStep_born (h : vfsStep v c = .ok (v', r))
    (hb : Born v.fs.entries v'.fs.entries node) : ∃ n, c.newSlot v = some n ∧ node = slotId n := by
  cases vfsStep_effect h with
  | opened hnode kept _ => exact openNode_born hnode kept.shape hb
  | refused hnode kept => exact openNode_born hnode kept.shape hb
  | moved _ _ kept _ => exact absurd hb (kept.shape.not_born node)
  | made create => exact sfsCreate_born create (SameShape.refl _) hb
  | removed remove => exact absurd hb (remove_not_born remove node)
  | entered _ => exact absurd hb.2 hb.1
  | stayed => exact absurd hb.2 hb.1

/-- A call opens one descriptor, or leaves the open ones on their nodes. -/
theorem vfsStep_fds (h : vfsStep v c = .ok (v', r)) :
    (∃ i, r = .fd (some i) ∧ ∀ j, j ≠ i → v'.fds j = v.fds j) ∨
      (∀ i, r ≠ .fd (some i)) ∧ FdsKept v.fds v'.fds := by
  cases vfsStep_effect h with
  | @opened _ _ _ _ _ _ i _ _ _ =>
    exact Or.inl ⟨i, rfl, fun j hj => Function.update_of_ne hj _ _⟩
  | refused => exact Or.inr ⟨fun i h => by (cases h), FdsKept.refl _⟩
  | moved _ reply _ fds => exact Or.inr ⟨fun i => reply (some i), fds⟩
  | made => exact Or.inr ⟨fun i h => by (cases h), FdsKept.refl _⟩
  | removed => exact Or.inr ⟨fun i h => by (cases h), FdsKept.refl _⟩
  | entered => exact Or.inr ⟨fun i h => by (cases h), FdsKept.refl _⟩
  | stayed => exact Or.inr ⟨fun i h => by (cases h), FdsKept.refl _⟩

/-- Every open descriptor still points at the file it was opened on. -/
def Faithful (t : Traced) : Prop :=
  ∀ i, (t.vfs.fds i).used ≠ 0 →
    t.opened i = ((t.vfs.fds i).nodeId, t.birth (t.vfs.fds i).nodeId)

theorem Faithful.step (ht : Faithful t) (hs : SparesOpen t.vfs c) (h : tracedStep t c t') :
    Faithful t' := by
  obtain ⟨v', r, hstep, rfl⟩ := h
  -- the node of a descriptor that was open before is not in a new slot
  have hbirth : ∀ i, (t.vfs.fds i).used ≠ 0 →
      (t.observe v' r).birth (t.vfs.fds i).nodeId = t.birth (t.vfs.fds i).nodeId := by
    intro i hi
    refine observe_birth t v' r (fun hb => ?_)
    obtain ⟨n, hn, hnode⟩ := vfsStep_born hstep hb
    exact hs n hn i hi hnode
  intro i hi
  rcases vfsStep_fds hstep with ⟨j, rfl, hother⟩ | ⟨hr, hkept⟩
  · by_cases hij : i = j
    · subst hij
      simp only [Traced.observe, Function.update_self]
    · have hopen : (t.observe v' (.fd (some j))).opened i = t.opened i :=
        Function.update_of_ne hij _ _
      have hfd : (t.observe v' (.fd (some j))).vfs.fds i = t.vfs.fds i := hother i hij
      rw [hfd] at hi ⊢
      rw [hopen, hbirth i hi]
      exact ht i hi
  · have hopen : (t.observe v' r).opened = t.opened := by
      unfold Traced.observe
      cases r with
      | fd fd =>
        cases fd with
        | none => rfl
        | some j => exact absurd rfl (hr j)
      | bytes out => rfl
      | count n => rfl
      | done ok => rfl
    obtain ⟨hu, hnode⟩ := hkept i hi
    rw [hopen]
    have hfd : ((t.observe v' r).vfs.fds i).nodeId = (t.vfs.fds i).nodeId := hnode
    rw [hfd, hbirth i hu]
    exact ht i hu

theorem openFd_used (h : openFd v fd flag = some i) : (v.fds i).used ≠ 0 := by
  unfold openFd at h
  split at h
  · dsimp only at h
    split at h
    · cases h
    · rename_i hn
      cases h
      exact fun h0 => hn (Or.inl h0)
  · cases h

theorem touches_used {v : Vfs} {c : VfsCall} (h : c.touches v = some (i, node)) :
    (v.fds i).used ≠ 0 ∧ node = (v.fds i).nodeId := by
  have hmap : ∀ flag fd, (openFd v fd flag).map (fun i => (i, (v.fds i).nodeId)) = some (i, node) →
      (v.fds i).used ≠ 0 ∧ node = (v.fds i).nodeId := by
    intro flag fd hm
    obtain ⟨j, hj, he⟩ := Option.map_eq_some_iff.mp hm
    cases he
    exact ⟨openFd_used hj, rfl⟩
  cases c with
  | read fd len =>
    rw [VfsCall.touches] at h
    split at h
    · cases h
    · exact hmap _ _ h
  | write fd data len =>
    rw [VfsCall.touches] at h
    split at h
    · cases h
    · exact hmap _ _ h
  | _ => cases h

def traceStep (t : Traced) (c : VfsCall) : Except Fault Traced := do
  let (v', r) ← vfsStep t.vfs c
  .ok (t.observe v' r)

theorem traceStep_run (h : Run (fun t c t' => traceStep t c = .ok t') t cs t') :
    Run tracedStep t cs t' := by
  refine h.mono (fun t c t' hstep => ?_)
  obtain ⟨⟨v', r⟩, hv, hstep⟩ := bind_ok hstep
  cases hstep
  exact ⟨v', r, hv, rfl⟩

/-- The VFS right after `vfs_init` on a blank disk. -/
def blankVfs : Vfs :=
  (vfsInit ⟨powerOn blankDrive, fun _ => ⟨0, 0, 0, 0⟩,
    fun _ => ⟨0, [], fun _ => 0, fun _ _ => 0, fun _ _ => 0⟩⟩).1

theorem blankVfs_closed : ∀ i, (blankVfs.fds i).used = 0 := by decide +kernel

/-- In a run that never fills a slot an open descriptor still points at, bytes
move only between a descriptor and the file it was opened on. -/
theorem descriptor_keeps_file (v : Vfs) (hv : ∀ i, (v.fds i).used = 0) (cs : List VfsCall)
    (t : Traced)
    (h : Run (fun t c t' => SparesOpen t.vfs c ∧ tracedStep t c t') (Traced.start v) cs t)
    (c : VfsCall) (i : Fin 16) (node : UInt32) (hc : c.touches t.vfs = some (i, node)) :
    t.opened i = (node, t.birth node) := by
  have ht : Faithful t := by
    refine h.invariant (P := Faithful) (fun s c s' hs hstep => hs.step hstep.1 hstep.2) ?_
    intro j hj
    exact absurd (hv j) hj
  obtain ⟨hu, rfl⟩ := touches_used hc
  exact ht i hu

theorem descriptor_keeps_file_open : ∃ t,
    Run tracedStep (Traced.start blankVfs) [.open 0 [97] 7] t ∧
    (VfsCall.write 0 (fun _ => 66) 1).touches t.vfs = some (0, 1) ∧ t.opened 0 = (1, t.birth 1) := by
  have heval : (exec traceStep (Traced.start blankVfs) [.open 0 [97] 7]).toOption.map
      (fun t => (VfsCall.write 0 (fun _ => 66) 1).touches t.vfs) = some (some (0, 1)) := by
    decide +kernel
  obtain ⟨t, hrun, htouch⟩ := exec_observed _ heval
  replace hrun := traceStep_run hrun
  refine ⟨t, hrun, htouch, ?_⟩
  refine descriptor_keeps_file blankVfs blankVfs_closed [.open 0 [97] 7] t ?_ _ 0 1 htouch
  cases hrun with
  | cons head tail =>
    exact .cons ⟨fun n _ i hi => absurd (blankVfs_closed i) hi, head⟩ (by cases tail; exact .nil _)

/-- File `a` is opened and removed, and `b` takes its slot: the descriptor of
`a` then delivers what was written to `b`. -/
theorem descriptor_changes_file : ∃ t, Run tracedStep (Traced.start blankVfs)
      [.open 0 [97] 7, .remove 1 [97], .open 1 [98] 6, .write 1 (fun _ => 66) 1] t ∧
    (vfsRead t.vfs 0 1).2 = [66] ∧ (VfsCall.read 0 1).touches t.vfs = some (0, 1) ∧
    t.opened 0 ≠ (1, t.birth 1) := by
  have heval : (exec traceStep (Traced.start blankVfs)
      [.open 0 [97] 7, .remove 1 [97], .open 1 [98] 6, .write 1 (fun _ => 66) 1]).toOption.map
      (fun t => ((vfsRead t.vfs 0 1).2, (VfsCall.read 0 1).touches t.vfs, t.opened 0, t.birth 1)) =
      some ([66], some (0, 1), (1, 1), 3) := by decide +kernel
  obtain ⟨t, hrun, ht⟩ := exec_observed _ heval
  simp only [Prod.mk.injEq] at ht
  obtain ⟨hread, htouch, hopened, hbirth⟩ := ht
  refine ⟨t, traceStep_run hrun, hread, htouch, ?_⟩
  rw [hopened, hbirth]
  decide

end VertexOS
