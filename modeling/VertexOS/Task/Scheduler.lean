import VertexOS.Library.Transitions

namespace VertexOS
open Library.Transitions

inductive TaskState where
  | unused
  | ready
  | running
  | blocked
  | terminated
  deriving DecidableEq, Repr

inductive TaskMode where
  | kernel
  | user
  deriving DecidableEq, Repr

/-- A task, its stack apart; an entry of 0 is the null pointer. -/
structure Task where
  id : Nat := 0
  state : TaskState := .unused
  mode : TaskMode := .kernel
  entry : UInt32 := 0
  arg : UInt32 := 0
  deriving DecidableEq, Repr

def maxTasks : Nat := 64

structure Scheduler where
  tasks : Nat → Task := fun _ => {}
  taskCount : Nat := 0
  currentIndex : Int := -1
  preemptPending : Bool := false
  tickQuantumCounter : UInt32 := 0

namespace Scheduler

def setState (s : Scheduler) (i : Nat) (st : TaskState) : Scheduler :=
  { s with tasks := Function.update s.tasks i { s.tasks i with state := st } }

/-- The candidate of a round: the remainder is that of signed division. -/
def candidate (s : Scheduler) (i : Nat) : Nat :=
  ((s.currentIndex + 1 + i).tmod s.taskCount).toNat

def runnable (s : Scheduler) (i : Nat) : Bool :=
  (s.tasks i).state = .ready ∨ (s.tasks i).state = .running

/-- The task that gives up the CPU stays runnable. -/
def demote (s : Scheduler) : Scheduler :=
  if 0 ≤ s.currentIndex ∧ (s.tasks s.currentIndex.toNat).state = .running then
    s.setState s.currentIndex.toNat .ready
  else s

def promote (s : Scheduler) (idx : Nat) : Scheduler :=
  { s.demote with currentIndex := idx }.setState idx .running

/-- The loop of `scheduler_pick_next`: the first round with a runnable task. -/
def schedulerPickNext (s : Scheduler) : Scheduler :=
  match (List.range s.taskCount).find? (fun i => s.runnable (s.candidate i)) with
  | some i => s.promote (s.candidate i)
  | none => s

/-- `task_bootstrap` once the entry has returned. -/
def taskReturned (s : Scheduler) : Scheduler := s.setState s.currentIndex.toNat .terminated

def schedulerInit : Scheduler := { tasks := fun i => { id := i } }

def schedulerCreateTask (s : Scheduler) (entry arg : UInt32) (mode : TaskMode) :
    Option Nat × Scheduler :=
  if entry = 0 ∨ s.taskCount ≥ maxTasks then (none, s)
  else
    let task := { s.tasks s.taskCount with entry := entry, arg := arg, mode := mode, state := .ready }
    (some s.taskCount,
      { s with
        tasks := Function.update s.tasks s.taskCount task
        taskCount := s.taskCount + 1 })

/-- `none`: the kernel panics. -/
def schedulerStart (s : Scheduler) : Option Scheduler :=
  if s.taskCount = 0 then none else some s.schedulerPickNext

def schedulerYield (s : Scheduler) : Scheduler :=
  if s.taskCount < 2 then s else s.schedulerPickNext

def schedulerOnTick (s : Scheduler) : Scheduler :=
  if s.tickQuantumCounter + 1 ≥ 4 then { s with tickQuantumCounter := 0, preemptPending := true }
  else { s with tickQuantumCounter := s.tickQuantumCounter + 1 }

def schedulerMaybePreempt (s : Scheduler) : Scheduler :=
  if s.preemptPending then { s with preemptPending := false }.schedulerYield else s

end Scheduler

/-- The scheduler, whether it was started, and the tasks whose entry has returned. -/
structure Tasking where
  sched : Scheduler
  started : Bool := false
  returned : List Nat := []

inductive SchedCall where
  | create (entry arg : UInt32) (mode : TaskMode)
  | start
  | yield
  | onTick
  | maybePreempt
  | taskReturn
  deriving DecidableEq, Repr

/-- What the kernel may do: only a task that runs yields or returns. -/
inductive SchedStep : Tasking → SchedCall → Tasking → Prop
  | create (t : Tasking) (entry arg : UInt32) (mode : TaskMode) :
      SchedStep t (.create entry arg mode)
        { t with sched := (t.sched.schedulerCreateTask entry arg mode).2 }
  | start {t : Tasking} {s : Scheduler} (h : t.sched.schedulerStart = some s) :
      SchedStep t .start { t with sched := s, started := true }
  | yield {t : Tasking} (h : t.started = true) :
      SchedStep t .yield { t with sched := t.sched.schedulerYield }
  | onTick (t : Tasking) : SchedStep t .onTick { t with sched := t.sched.schedulerOnTick }
  | maybePreempt {t : Tasking} (h : t.started = true) :
      SchedStep t .maybePreempt { t with sched := t.sched.schedulerMaybePreempt }
  | taskReturn {t : Tasking} (h : t.started = true) :
      SchedStep t .taskReturn
        { t with
          sched := t.sched.taskReturned
          returned := t.sched.currentIndex.toNat :: t.returned }

section Invariant

variable {s : Scheduler} {t t' : Tasking} {i j : Nat} {st : TaskState}

/-- The table: before the start no task runs, after it the current one alone. -/
structure SchedInv (t : Tasking) : Prop where
  count : t.sched.taskCount ≤ maxTasks
  free : ∀ i, t.sched.taskCount ≤ i → (t.sched.tasks i).state = .unused
  created : ∀ i < t.sched.taskCount, i ∉ t.returned →
    (t.sched.tasks i).state = .ready ∨ (t.sched.tasks i).state = .running
  ended : ∀ i ∈ t.returned, (t.sched.tasks i).state = .terminated
  single : ∀ i, (t.sched.tasks i).state = .running → t.sched.currentIndex = i
  before : t.started = false → t.sched.currentIndex = -1 ∧ t.returned = []
  current : t.started = true → ∃ c < t.sched.taskCount, t.sched.currentIndex = c ∧
    ((t.sched.tasks c).state = .running ∨ (t.sched.tasks c).state = .terminated ∧ c ∈ t.returned)

theorem setState_state (s : Scheduler) (i j : Nat) (st : TaskState) :
    ((s.setState i st).tasks j).state = if j = i then st else (s.tasks j).state := by
  simp only [Scheduler.setState, Function.update_apply]
  split
  · rfl
  · rfl

theorem runnable_iff : s.runnable i = true ↔
    (s.tasks i).state = .ready ∨ (s.tasks i).state = .running := by
  simp [Scheduler.runnable]

/-- Demotion makes no task of another state. -/
theorem demote_state (s : Scheduler) (j : Nat) : (s.demote.tasks j).state =
    if (s.tasks j).state = .running ∧ s.currentIndex = j then .ready else (s.tasks j).state := by
  simp only [Scheduler.demote]
  split
  · next h =>
    rw [setState_state]
    by_cases hj : j = s.currentIndex.toNat
    · subst hj
      rw [if_pos rfl, if_pos ⟨h.2, (Int.toNat_of_nonneg h.1).symm⟩]
    · rw [if_neg hj, if_neg]
      rintro ⟨-, hcur⟩
      exact hj (by omega)
  · next h =>
    rw [if_neg]
    rintro ⟨hrun, hcur⟩
    apply h
    rw [hcur]
    exact ⟨by omega, by simpa using hrun⟩

theorem demote_fields (s : Scheduler) : s.demote.taskCount = s.taskCount ∧
    s.demote.preemptPending = s.preemptPending := by
  simp only [Scheduler.demote]
  split
  · exact ⟨rfl, rfl⟩
  · exact ⟨rfl, rfl⟩

theorem promote_state (s : Scheduler) (idx j : Nat) : ((s.promote idx).tasks j).state =
    if j = idx then .running
    else if (s.tasks j).state = .running ∧ s.currentIndex = j then .ready
    else (s.tasks j).state := by
  rw [Scheduler.promote, setState_state]
  split
  · rfl
  · exact demote_state s j

/-- What a pick does: it selects a runnable task, or leaves all as it is where there is
none. -/
theorem pickNext_cases (s : Scheduler) : (s.schedulerPickNext = s ∧
      ∀ i < s.taskCount, s.runnable (s.candidate i) = false) ∨
    ∃ idx < s.taskCount, s.runnable idx = true ∧ s.schedulerPickNext = s.promote idx := by
  simp only [Scheduler.schedulerPickNext]
  cases hf : (List.range s.taskCount).find? (fun i => s.runnable (s.candidate i)) with
  | none =>
    left
    refine ⟨rfl, ?_⟩
    intro i hi
    simpa using List.find?_eq_none.mp hf i (List.mem_range.mpr hi)
  | some i =>
    right
    have hrun := List.find?_some hf
    have hi := List.mem_range.mp (List.mem_of_find?_eq_some hf)
    refine ⟨s.candidate i, ?_, by simpa using hrun, rfl⟩
    have hpos : (0 : Int) < s.taskCount := by omega
    have hlt := Int.tmod_lt_of_pos (s.currentIndex + 1 + i) hpos
    simp only [Scheduler.candidate]
    omega

/-- Task 0 is the first candidate of the start. -/
theorem start_candidate (hc : s.currentIndex = -1) : s.candidate 0 = 0 := by
  simp [Scheduler.candidate, hc]

/-- A selection leaves the table in order. -/
theorem SchedInv.promote (h : SchedInv t) (hi : i < t.sched.taskCount)
    (hrun : t.sched.runnable i = true) :
    SchedInv { t with sched := t.sched.promote i, started := true } := by
  have hcount : (t.sched.promote i).taskCount = t.sched.taskCount := (demote_fields t.sched).1
  rw [runnable_iff] at hrun
  constructor
  · rw [hcount]
    exact h.count
  · intro j hj
    rw [hcount] at hj
    have hfree := h.free j hj
    rw [promote_state, if_neg (by omega), if_neg (by simp [hfree]), hfree]
  · intro j hj hret
    rw [hcount] at hj
    rw [promote_state]
    split
    · exact .inr rfl
    · split
      · exact .inl rfl
      · exact h.created j hj hret
  · intro j hret
    have hend := h.ended j hret
    rw [promote_state, if_neg _, if_neg (by simp [hend]), hend]
    rintro rfl
    simp [hend] at hrun
  · intro j hj
    rw [promote_state] at hj
    split at hj
    · next he => simp [Scheduler.promote, Scheduler.setState, he]
    · split at hj
      · cases hj
      · next hne => exact absurd ⟨hj, h.single j hj⟩ hne
  · intro hs
    cases hs
  · intro _
    refine ⟨i, by rwa [hcount], rfl, .inl ?_⟩
    rw [promote_state, if_pos rfl]

theorem SchedInv.pick (h : SchedInv t) (hpos : 0 < t.sched.taskCount) :
    SchedInv { t with sched := t.sched.schedulerPickNext, started := true } := by
  rcases pickNext_cases t.sched with ⟨he, hnone⟩ | ⟨idx, hidx, hrun, he⟩
  · rw [he]
    cases hs : t.started with
    | true => exact ⟨h.count, h.free, h.created, h.ended, h.single, by simp, fun _ => h.current hs⟩
    | false =>
      -- at the start the first task is runnable
      obtain ⟨hcur, hret⟩ := h.before hs
      have h0 := hnone 0 hpos
      rw [start_candidate hcur] at h0
      have hstate := h.created 0 hpos (by simp [hret])
      rw [← runnable_iff, h0] at hstate
      cases hstate
  · rw [he]
    exact h.promote hidx hrun

theorem SchedInv.start_fields (h : SchedInv t) (hs : t.started = true) : 0 < t.sched.taskCount := by
  obtain ⟨c, hc, -⟩ := h.current hs
  omega

theorem SchedInv.yield (h : SchedInv t) (hs : t.started = true) :
    SchedInv { t with sched := t.sched.schedulerYield } := by
  rw [Scheduler.schedulerYield]
  split
  · exact h
  · have hpick := h.pick (h.start_fields hs)
    rw [← hs] at hpick
    exact hpick

/-- What creation does: it takes the slot behind the last task, or nothing happens. -/
theorem create_cases (s : Scheduler) (entry arg : UInt32) (mode : TaskMode) :
    (s.schedulerCreateTask entry arg mode).2 = s ∨
    s.taskCount < maxTasks ∧ ∃ s', (s.schedulerCreateTask entry arg mode).2 = s' ∧
      s'.taskCount = s.taskCount + 1 ∧ s'.currentIndex = s.currentIndex ∧
      ∀ j, (s'.tasks j).state = if j = s.taskCount then .ready else (s.tasks j).state := by
  simp only [Scheduler.schedulerCreateTask]
  split
  · exact .inl rfl
  · refine .inr ⟨by omega, _, rfl, rfl, rfl, ?_⟩
    intro j
    simp only [Function.update_apply]
    split
    · rfl
    · rfl

theorem SchedInv.create (h : SchedInv t) (entry arg : UInt32) (mode : TaskMode) :
    SchedInv { t with sched := (t.sched.schedulerCreateTask entry arg mode).2 } := by
  rcases create_cases t.sched entry arg mode with he | ⟨hroom, s', he, hcount, hcur, hstate⟩
  · rw [he]
    exact h
  rw [he]
  constructor
  · rw [hcount]
    exact hroom
  · intro j hj
    rw [hcount] at hj
    rw [hstate, if_neg (by omega)]
    exact h.free j (by omega)
  · intro j hj hret
    rw [hcount] at hj
    rw [hstate]
    split
    · exact .inl rfl
    · exact h.created j (by omega) hret
  · intro j hret
    have hend := h.ended j hret
    rw [hstate, if_neg _, hend]
    rintro rfl
    rw [h.free _ (le_refl _)] at hend
    cases hend
  · intro j hj
    rw [hstate] at hj
    rw [hcur]
    split at hj
    · cases hj
    · exact h.single j hj
  · rw [hcur]
    exact h.before
  · intro hs
    obtain ⟨c, hc, hcurc, hst⟩ := h.current hs
    refine ⟨c, (Nat.lt_succ_of_lt hc).trans_eq hcount.symm, by rw [hcur, hcurc], ?_⟩
    rw [hstate, if_neg (by omega)]
    exact hst

theorem SchedInv.taskReturn (h : SchedInv t) (hs : t.started = true) :
    SchedInv { t with
      sched := t.sched.taskReturned
      returned := t.sched.currentIndex.toNat :: t.returned } := by
  obtain ⟨c, hc, hcur, -⟩ := h.current hs
  have hidx : t.sched.currentIndex.toNat = c := by omega
  have hstate : ∀ j, (t.sched.taskReturned.tasks j).state =
      if j = c then .terminated else (t.sched.tasks j).state := by
    intro j
    rw [Scheduler.taskReturned, setState_state, hidx]
  rw [hidx]
  constructor
  · exact h.count
  · intro j hj
    change t.sched.taskCount ≤ j at hj
    rw [hstate, if_neg (by omega)]
    exact h.free j hj
  · intro j hj hret
    obtain ⟨hne, hret⟩ := not_or.mp (mt List.mem_cons.mpr hret)
    rw [hstate, if_neg hne]
    exact h.created j hj hret
  · intro j hret
    rw [hstate]
    split
    · rfl
    · next hne => exact h.ended j ((List.mem_cons.mp hret).resolve_left hne)
  · intro j hj
    rw [hstate] at hj
    split at hj
    · cases hj
    · exact h.single j hj
  · intro hs'
    exact absurd (hs'.symm.trans hs) Bool.false_ne_true
  · intro _
    refine ⟨c, hc, hcur, .inr ⟨?_, List.mem_cons_self⟩⟩
    rw [hstate, if_pos rfl]

theorem SchedInv.step {a : SchedCall} (h : SchedInv t) (hstep : SchedStep t a t') : SchedInv t' := by
  cases hstep with
  | create entry arg mode => exact h.create entry arg mode
  | start hstart =>
    rw [Scheduler.schedulerStart] at hstart
    split at hstart
    · cases hstart
    · next hpos =>
      cases hstart
      exact h.pick (Nat.pos_of_ne_zero hpos)
  | yield hs => exact h.yield hs
  | onTick =>
    simp only [Scheduler.schedulerOnTick]
    split
    · exact ⟨h.count, h.free, h.created, h.ended, h.single, h.before, h.current⟩
    · exact ⟨h.count, h.free, h.created, h.ended, h.single, h.before, h.current⟩
  | maybePreempt hs =>
    simp only [Scheduler.schedulerMaybePreempt]
    split
    · have hclear : SchedInv { t with sched := { t.sched with preemptPending := false } } :=
        ⟨h.count, h.free, h.created, h.ended, h.single, h.before, h.current⟩
      exact hclear.yield hs
    · exact h
  | taskReturn hs => exact h.taskReturn hs

/-- A pick leaves a task that has ended alone. -/
theorem pickNext_terminated (hi : (s.tasks i).state = .terminated) :
    (s.schedulerPickNext.tasks i).state = .terminated ∧
    (s.schedulerPickNext.currentIndex = i → s.schedulerPickNext = s) := by
  rcases pickNext_cases s with ⟨he, -⟩ | ⟨idx, -, hrun, he⟩
  · rw [he]
    exact ⟨hi, fun _ => rfl⟩
  · have hne : i ≠ idx := by
      rintro rfl
      simp [runnable_iff, hi] at hrun
    rw [he]
    constructor
    · rw [promote_state, if_neg hne, if_neg (by simp [hi]), hi]
    · intro hcur
      exact absurd (Int.natCast_inj.mp hcur).symm hne

theorem yield_terminated (hi : (s.tasks i).state = .terminated) :
    (s.schedulerYield.tasks i).state = .terminated := by
  rw [Scheduler.schedulerYield]
  split
  · exact hi
  · exact (pickNext_terminated hi).1

/-- A task that has ended stays so. -/
theorem SchedInv.terminated {a : SchedCall} (h : SchedInv t) (hstep : SchedStep t a t')
    (hi : (t.sched.tasks i).state = .terminated) : (t'.sched.tasks i).state = .terminated := by
  cases hstep with
  | create entry arg mode =>
    rcases create_cases t.sched entry arg mode with he | ⟨-, s', he, -, -, hstate⟩
    · rw [he, hi]
    · rw [he, hstate, if_neg _, hi]
      rintro rfl
      rw [h.free _ (le_refl _)] at hi
      cases hi
  | start hstart =>
    rw [Scheduler.schedulerStart] at hstart
    split at hstart
    · cases hstart
    · cases hstart
      exact (pickNext_terminated hi).1
  | yield hs => exact yield_terminated hi
  | onTick =>
    simp only [Scheduler.schedulerOnTick]
    split
    · exact hi
    · exact hi
  | maybePreempt hs =>
    simp only [Scheduler.schedulerMaybePreempt]
    split
    · exact yield_terminated hi
    · exact hi
  | taskReturn hs =>
    rw [Scheduler.taskReturned, setState_state]
    split
    · rfl
    · exact hi

/-- `scheduler_init` was called. -/
def freshTasking : Tasking := { sched := Scheduler.schedulerInit }

theorem schedInv_fresh : SchedInv freshTasking where
  count := Nat.zero_le _
  free _ _ := rfl
  created i hi := absurd hi (Nat.not_lt_zero i)
  ended i hi := by cases hi
  single i hi := by cases hi
  before _ := ⟨rfl, rfl⟩
  current hs := by cases hs

/-- In every state the table is in order; a task that has ended is never selected and
never runs again. -/
theorem scheduler_one_running (t : Tasking) (cs : List SchedCall)
    (hrun : Run SchedStep freshTasking cs t) : SchedInv t ∧
    ∀ i, (t.sched.tasks i).state = .terminated →
      (t.sched.schedulerPickNext.currentIndex = i → t.sched.schedulerPickNext = t.sched) ∧
      ∀ (cs' : List SchedCall) (t' : Tasking), Run SchedStep t cs' t' →
        (t'.sched.tasks i).state = .terminated := by
  have hinv : SchedInv t := hrun.invariant (fun _ _ _ h hstep => h.step hstep) schedInv_fresh
  refine ⟨hinv, ?_⟩
  intro i hi
  refine ⟨(pickNext_terminated hi).2, ?_⟩
  intro cs' t' hrun'
  have hboth : SchedInv t' ∧ (t'.sched.tasks i).state = .terminated := by
    apply hrun'.invariant (P := fun t => SchedInv t ∧ (t.sched.tasks i).state = .terminated) _ ⟨hinv, hi⟩
    rintro t1 a t2 ⟨h1, h2⟩ hstep
    exact ⟨h1.step hstep, h1.terminated hstep h2⟩
  exact hboth.2

/-- Of two tasks the first returns, and the second runs. -/
theorem scheduler_one_running_second : ∃ t, Run SchedStep freshTasking
    [.create 1 0 .kernel, .create 2 0 .kernel, .start, .taskReturn, .yield] t ∧ SchedInv t ∧
    t.sched.currentIndex = 1 ∧ (t.sched.tasks 0).state = .terminated := by
  have hrun : Run SchedStep freshTasking
      [.create 1 0 .kernel, .create 2 0 .kernel, .start, .taskReturn, .yield] _ :=
    .cons (.create _ 1 0 .kernel) <| .cons (.create _ 2 0 .kernel) <| .cons (.start rfl) <|
      .cons (.taskReturn rfl) <| .cons (.yield rfl) <| .nil _
  exact ⟨_, hrun, (scheduler_one_running _ _ hrun).1, by decide, by decide⟩

end Invariant

end VertexOS
