import VertexOS.Task.RoundRobin
import VertexOS.Task.Threads

namespace VertexOS
open Library.Transitions

/-! Where interrupts are on, and what becomes of a processor that halts. -/

/-- Where a task stands in the loops of `idle_task` and `keyboard_read_key`, and in the handler of
`int 0x80`, which saved the interrupt flag. Elsewhere it is busy. -/
inductive Point where
  | fresh
  | busy
  | reading
  | readPreempt
  | readHalt
  | idlePoll
  | idlePreempt
  | idleHalt
  | sysReturn (saved : Bool)
  | stopped
  deriving DecidableEq, Repr

/-- The tasks, where each of them stands, the interrupt flag, and whether the processor waits in a
`hlt`. -/
structure System where
  tasking : Tasking := freshTasking
  points : Fin 64 → Point := fun _ => .fresh
  interrupts : Bool := true
  halted : Bool := false

/-- Task `i` runs and stands at `p`. -/
def System.At (s : System) (i : Fin 64) (p : Point) : Prop :=
  s.halted = false ∧ s.tasking.Runs i ∧ s.points i = p

def System.goTo (s : System) (i : Fin 64) (p : Point) : System :=
  { s with points := Function.update s.points i p }

/-- Where a task goes on behind `scheduler_maybe_preempt`. -/
def Point.afterPreempt : Point → Option Point
  | .busy => some .busy
  | .readPreempt => some .readHalt
  | .idlePreempt => some .idleHalt
  | _ => none

/-- Where a task goes on behind `interrupts_halt`. -/
def Point.afterHalt : Point → Option Point
  | .readHalt => some .reading
  | .idleHalt => some .idlePoll
  | _ => none

inductive SystemEvent where
  | timer
  | device
  | create (entry arg : UInt32) (mode : TaskMode)
  | start
  | enter
  | read
  | key
  | noKey
  | poll
  | preempt
  | halt
  | yield
  | sysYield
  | sysReturn
  | stop
  deriving DecidableEq, Repr

/-- The steps of the kernel. Only an interrupt wakes a halted processor, and it needs the flag;
`iretd` and `context_switch` differ in that the first restores the flag and the second does not
touch it. `stop` is `panic`, `power_restart` or `power_shutdown`. -/
inductive SystemStep (idleTask : UInt32) : System → SystemEvent → System → Prop
  | timer {s : System} (h : s.interrupts = true) : SystemStep idleTask s .timer
      { s with
        tasking := { s.tasking with sched := s.tasking.sched.schedulerOnTick }, halted := false }
  | device {s : System} (h : s.interrupts = true) :
      SystemStep idleTask s .device { s with halted := false }
  | create {s : System} (h : s.interrupts = true) {t' : Tasking}
      (hcall : SchedStep s.tasking (.create entry arg mode) t') :
      SystemStep idleTask s (.create entry arg mode) { s with tasking := t', halted := false }
  | start {s : System} (h : s.tasking.started = false) {t' : Tasking}
      (hcall : SchedStep s.tasking .start t') :
      SystemStep idleTask s .start { s with tasking := t' }
  | enter {s : System} (h : s.At i .fresh) : SystemStep idleTask s .enter
      (s.goTo i (if (s.tasking.sched.tasks i).entry = idleTask then .idlePoll else .busy))
  | read {s : System} (h : s.At i .busy) : SystemStep idleTask s .read (s.goTo i .reading)
  | key {s : System} (h : s.At i .reading) :
      SystemStep idleTask s .key { s.goTo i .busy with interrupts := true }
  | noKey {s : System} (h : s.At i .reading) :
      SystemStep idleTask s .noKey { s.goTo i .readPreempt with interrupts := true }
  | poll {s : System} (h : s.At i .idlePoll) : SystemStep idleTask s .poll (s.goTo i .idlePreempt)
  | preempt {s : System} (h : s.At i p) (hp : p.afterPreempt = some p') {t' : Tasking}
      (hcall : SchedStep s.tasking .maybePreempt t') :
      SystemStep idleTask s .preempt { s.goTo i p' with tasking := t' }
  | halt {s : System} (h : s.At i p) (hp : p.afterHalt = some p') :
      SystemStep idleTask s .halt { s.goTo i p' with halted := true }
  | yield {s : System} (h : s.At i .busy) {t' : Tasking} (hcall : SchedStep s.tasking .yield t') :
      SystemStep idleTask s .yield { s with tasking := t' }
  | sysYield {s : System} (h : s.At i .busy) {t' : Tasking}
      (hcall : SchedStep s.tasking .yield t') : SystemStep idleTask s .sysYield
        (if t'.Runs i then { s with tasking := t' }
         else { s.goTo i (.sysReturn s.interrupts) with tasking := t', interrupts := false })
  | sysReturn {s : System} (h : s.At i (.sysReturn saved)) :
      SystemStep idleTask s .sysReturn { s.goTo i .busy with interrupts := saved }
  | stop {s : System} (h : s.At i .busy) : SystemStep idleTask s .stop
      { s.goTo i .stopped with interrupts := false, halted := true }

/-- The points at which a task waits while another one runs. -/
def Point.Waits : Point → Prop
  | .fresh | .busy | .readHalt | .idleHalt | .sysReturn _ => True
  | _ => False

structure SystemInv (s : System) : Prop where
  sched : SchedInv s.tasking
  waits : ∀ i : Fin 64, ¬s.tasking.Runs i → (s.points i).Waits

section Steps

variable {idleTask : UInt32} {s s' : System} {t' : Tasking} {e : SystemEvent} {i j : Fin 64}
  {p p' : Point}

@[simp] theorem goTo_self (s : System) (i : Fin 64) (p : Point) : (s.goTo i p).points i = p :=
  Function.update_self ..

theorem goTo_other (s : System) (p : Point) (hji : j ≠ i) :
    (s.goTo i p).points j = s.points j := Function.update_of_ne hji ..

/-- The running task moves within its loop. -/
theorem SystemInv.goTo (h : SystemInv s) (hi : s.tasking.Runs i) (p : Point) :
    SystemInv (s.goTo i p) where
  sched := h.sched
  waits j hj := by
    have hji : j ≠ i := by
      rintro rfl
      exact hj hi
    rw [goTo_other s p hji]
    exact h.waits j hj

/-- The running task may lose the processor where it can wait. -/
theorem SystemInv.yields {c : SchedCall} (h : SystemInv s) (hi : s.tasking.Runs i) (hp : p.Waits)
    (hcall : SchedStep s.tasking c t') : SystemInv { s.goTo i p with tasking := t' } where
  sched := h.sched.step hcall
  waits j _ := by
    by_cases hji : j = i
    · subst hji
      exact (goTo_self s j p).symm ▸ hp
    · exact (goTo_other s p hji).symm ▸ h.waits j fun hr => hji (hr.unique hi)

theorem create_runs {t : Tasking} (hcall : SchedStep t (.create entry arg mode) t') (i : Fin 64) :
    t'.Runs i ↔ t.Runs i := by
  cases hcall
  rcases create_cases t.sched entry arg mode with he | ⟨-, s', he, -, hcur, -⟩
  · simp only [Tasking.Runs, he]
  · simp only [Tasking.Runs, he, hcur]

theorem goTo_same (h : s.points i = p) : s.goTo i p = s := by
  rw [System.goTo, ← h, Function.update_eq_self]

theorem SystemInv.step (h : SystemInv s) (hstep : SystemStep idleTask s e s') : SystemInv s' := by
  cases hstep with
  | timer hon =>
    refine ⟨h.sched.step (.onTick _), fun j hj => h.waits j fun hr => hj ?_⟩
    exact ⟨hr.1, (onTick_fields _).2.trans hr.2⟩
  | device hon => exact ⟨h.sched, h.waits⟩
  | create hon hcall =>
    exact ⟨h.sched.step hcall, fun j hj => h.waits j fun hr => hj ((create_runs hcall j).mpr hr)⟩
  | start hboot hcall =>
    refine ⟨h.sched.step hcall, fun j _ => h.waits j fun hr => ?_⟩
    cases hboot.symm.trans hr.1
  | enter hat => exact h.goTo hat.2.1 _
  | read hat => exact h.goTo hat.2.1 _
  | key hat => exact ⟨h.sched, (h.goTo hat.2.1 _).waits⟩
  | noKey hat => exact ⟨h.sched, (h.goTo hat.2.1 _).waits⟩
  | poll hat => exact h.goTo hat.2.1 _
  | @preempt _ p p' _ hat hp t' hcall =>
    refine h.yields hat.2.1 ?_ hcall
    cases p <;> cases hp <;> trivial
  | halt hat hp => exact ⟨h.sched, (h.goTo hat.2.1 _).waits⟩
  | yield hat hcall =>
    have hnext := h.yields hat.2.1 (p := .busy) trivial hcall
    rwa [goTo_same hat.2.2] at hnext
  | sysYield hat hcall =>
    split
    · have hnext := h.yields hat.2.1 (p := .busy) trivial hcall
      rwa [goTo_same hat.2.2] at hnext
    · have hnext := h.yields hat.2.1 (p := .sysReturn s.interrupts) trivial hcall
      exact ⟨hnext.sched, hnext.waits⟩
  | sysReturn hat => exact ⟨h.sched, (h.goTo hat.2.1 _).waits⟩
  | stop hat => exact ⟨h.sched, (h.goTo hat.2.1 _).waits⟩

theorem systemInv_boot : SystemInv {} := ⟨schedInv_fresh, fun _ _ => trivial⟩

theorem system_inv {es : List SystemEvent} (hrun : Run (SystemStep idleTask) {} es s) :
    SystemInv s :=
  hrun.invariant (P := SystemInv) (fun _ _ _ h hstep => h.step hstep) systemInv_boot

/-- The task at hand is about to halt, or the processor waits, with interrupts off. -/
def Hung (s : System) (j : Fin 64) : Prop :=
  s.tasking.started = true ∧ s.interrupts = false ∧
    (s.halted = true ∨ s.At j .readHalt ∨ s.At j .idleHalt)

theorem System.At.point {s : System} (h : s.At i p) (h' : s.At j p') : p = p' := by
  obtain rfl := h.2.1.unique h'.2.1
  exact h.2.2.symm.trans h'.2.2

/-- Only the `hlt` itself is left to do. -/
theorem Hung.step (h : Hung s j) (hstep : SystemStep idleTask s e s') :
    s.halted = false ∧ s'.halted = true ∧ Hung s' j := by
  obtain ⟨hs, hoff, hpoint⟩ := h
  have hoff' : s.interrupts ≠ true := by
    rw [hoff]
    exact Bool.false_ne_true
  have hat : ∀ {i p}, s.At i p → p = .readHalt ∨ p = .idleHalt := by
    intro i p hi
    rcases hpoint with hh | hr | hr
    · cases hh.symm.trans hi.1
    · exact .inl (hi.point hr)
    · exact .inr (hi.point hr)
  cases hstep with
  | timer hon => exact absurd hon hoff'
  | device hon => exact absurd hon hoff'
  | create hon _ => exact absurd hon hoff'
  | start hboot _ => cases hboot.symm.trans hs
  | halt hi _ => exact ⟨hi.1, rfl, hs, hoff, .inl rfl⟩
  | @preempt _ p p' _ hi hp t' _ => rcases hat hi with rfl | rfl <;> cases hp
  | enter hi => rcases hat hi with he | he <;> cases he
  | read hi => rcases hat hi with he | he <;> cases he
  | key hi => rcases hat hi with he | he <;> cases he
  | noKey hi => rcases hat hi with he | he <;> cases he
  | poll hi => rcases hat hi with he | he <;> cases he
  | yield hi _ => rcases hat hi with he | he <;> cases he
  | sysYield hi _ => rcases hat hi with he | he <;> cases he
  | sysReturn hi => rcases hat hi with he | he <;> cases he
  | stop hi => rcases hat hi with he | he <;> cases he

theorem Hung.run {es : List SystemEvent} (h : Hung s j) (hrun : Run (SystemStep idleTask) s es s') :
    es.length ≤ 1 ∧ s'.interrupts = false := by
  cases hrun with
  | nil => exact ⟨Nat.zero_le _, h.2.1⟩
  | cons head tail =>
    obtain ⟨-, hhalted, hnext⟩ := h.step head
    cases tail with
    | nil => exact ⟨le_refl _, hnext.2.1⟩
    | cons head' _ =>
      have hawake := (hnext.step head').1
      cases hhalted.symm.trans hawake

/-- A task that goes on elsewhere than at a `hlt` can get to the point that turns interrupts on. -/
theorem recovers (hat : s.At j p) (hw : p.Waits)
    (hidle : p = .fresh → (s.tasking.sched.tasks j).entry ≠ idleTask)
    (hread : p ≠ .readHalt) (hhalt : p ≠ .idleHalt) :
    ∃ es s', Run (SystemStep idleTask) s es s' ∧ s'.interrupts = true := by
  -- From the shell or a command the task goes on to read a key.
  have hbusy : ∀ s : System, s.At j .busy →
      ∃ es s', Run (SystemStep idleTask) s es s' ∧ s'.interrupts = true := by
    intro s hs
    have hreading : (s.goTo j .reading).At j .reading := ⟨hs.1, hs.2.1, goTo_self ..⟩
    exact ⟨_, _, .cons (.read hs) <| .cons (.noKey hreading) <| .nil _, rfl⟩
  cases p with
  | fresh =>
    have hstep : SystemStep idleTask s .enter (s.goTo j
        (if (s.tasking.sched.tasks j).entry = idleTask then .idlePoll else .busy)) := .enter hat
    rw [if_neg (hidle rfl)] at hstep
    obtain ⟨es, s', hrun, hon⟩ := hbusy (s.goTo j .busy) ⟨hat.1, hat.2.1, goTo_self s j .busy⟩
    exact ⟨_, s', .cons hstep hrun, hon⟩
  | busy => exact hbusy s hat
  | readHalt => exact absurd rfl hread
  | idleHalt => exact absurd rfl hhalt
  | sysReturn saved =>
    obtain ⟨es, s', hrun, hon⟩ := hbusy { s.goTo j .busy with interrupts := saved }
      ⟨hat.1, hat.2.1, goTo_self s j .busy⟩
    exact ⟨_, s', .cons (.sysReturn hat) hrun, hon⟩
  | reading => exact hw.elim
  | readPreempt => exact hw.elim
  | idlePoll => exact hw.elim
  | idlePreempt => exact hw.elim
  | stopped => exact hw.elim

/-- A yield leaves the processor where it is exactly when no other task can run. -/
theorem yield_stays_iff {t : Tasking} (h : SchedInv t) (hi : t.Runs i)
    (hcall : SchedStep t .yield t') : t'.Runs i ↔
      ∀ j < t.sched.taskCount, t.sched.runnable j = true → j = i := by
  cases hcall with
  | yield hs =>
    have hci := hi.created h
    have hcur : t.sched.currentIndex = (i.val : Int) := hi.2
    rw [Scheduler.schedulerYield]
    split
    · next hone => exact iff_of_true hi fun j hj _ => by omega
    rcases pickNext_cases t.sched with ⟨he, hnone⟩ | ⟨idx, hidx, hrun, he⟩
    · rw [he]
      refine iff_of_true hi fun j hj hrunj => ?_
      have hmem := (mem_roundOrder t.sched j).mpr ⟨hj, hrunj⟩
      rw [roundOrder_candidates (by omega)] at hmem
      obtain ⟨hmem, -⟩ := List.mem_filter.mp hmem
      obtain ⟨m, hm, rfl⟩ := List.mem_map.mp hmem
      cases (hnone m (List.mem_range.mp hm)).symm.trans hrunj
    · have hback : Tasking.Runs { t with sched := t.sched.schedulerPickNext } i ↔ idx = i.val := by
        simp only [Tasking.Runs, he]
        exact ⟨fun hr => Int.natCast_inj.mp hr.2, fun hv => ⟨hs, congrArg Int.ofNat hv⟩⟩
      rw [hback]
      refine ⟨?_, fun hall => hall idx hidx hrun⟩
      -- The scan comes to the current task last.
      intro hv j hj hrunj
      have hne : t.sched.roundOrder ≠ [] :=
        List.ne_nil_of_mem ((mem_roundOrder t.sched j).mpr ⟨hj, hrunj⟩)
      obtain ⟨q, hq, hrunq, hbefore, heq⟩ := pickNext_found hne (by omega)
      have hcand : t.sched.candidate q = i := by
        have hidx' : t.sched.candidate q = idx :=
          Int.natCast_inj.mp (congrArg Scheduler.currentIndex (heq.symm.trans he))
        exact hidx'.trans hv
      have hlast : q + 1 = t.sched.taskCount := by
        rw [candidate_eq (by omega), hcur, show ((i.val : Int) + 1).toNat = i.val + 1 by omega]
          at hcand
        by_cases hlt : i.val + 1 + q < t.sched.taskCount
        · rw [Nat.mod_eq_of_lt hlt] at hcand
          omega
        · rw [Nat.mod_eq_sub_mod (by omega), Nat.mod_eq_of_lt (by omega)] at hcand
          omega
      have hmem := (mem_roundOrder t.sched j).mpr ⟨hj, hrunj⟩
      rw [roundOrder_found (by omega) hq hrunq hbefore, hlast, List.drop_of_length_le (by simp),
        List.filter_nil, List.mem_singleton] at hmem
      rw [hmem, hcand]

/-- No `SYS_YIELD` while another task can run, and no stop. -/
def KeepsInterrupts (s : System) (e : SystemEvent) : Prop :=
  e ≠ .stop ∧ (e = .sysYield → ∀ i, s.tasking.Runs i →
    ∀ j < s.tasking.sched.taskCount, s.tasking.sched.runnable j = true → j = i)

/-- Interrupts are on, and no task waits in the handler of `int 0x80`. -/
structure Awake (s : System) : Prop where
  inv : SystemInv s
  on : s.interrupts = true
  returned : ∀ i saved, s.points i ≠ .sysReturn saved

theorem Awake.keeps_iff (h : Awake s) (hstep : SystemStep idleTask s e s') :
    s'.interrupts = true ↔ KeepsInterrupts s e := by
  cases hstep with
  | timer _ => exact iff_of_true h.on ⟨nofun, nofun⟩
  | device _ => exact iff_of_true h.on ⟨nofun, nofun⟩
  | create _ _ => exact iff_of_true h.on ⟨nofun, nofun⟩
  | start _ _ => exact iff_of_true h.on ⟨nofun, nofun⟩
  | enter _ => exact iff_of_true h.on ⟨nofun, nofun⟩
  | read _ => exact iff_of_true h.on ⟨nofun, nofun⟩
  | key _ => exact iff_of_true rfl ⟨nofun, nofun⟩
  | noKey _ => exact iff_of_true rfl ⟨nofun, nofun⟩
  | poll _ => exact iff_of_true h.on ⟨nofun, nofun⟩
  | preempt _ _ _ => exact iff_of_true h.on ⟨nofun, nofun⟩
  | halt _ _ => exact iff_of_true h.on ⟨nofun, nofun⟩
  | yield _ _ => exact iff_of_true h.on ⟨nofun, nofun⟩
  | sysReturn hat => exact absurd hat.2.2 (h.returned _ _)
  | stop _ => exact iff_of_false Bool.false_ne_true fun hk => hk.1 rfl
  | @sysYield i _ hat t' hcall =>
    have hstays := yield_stays_iff h.inv.sched hat.2.1 hcall
    constructor
    · intro hon
      refine ⟨nofun, fun _ l hl => ?_⟩
      obtain rfl := hl.unique hat.2.1
      refine hstays.mp ?_
      by_contra hstop
      rw [if_neg hstop] at hon
      cases hon
    · intro hk
      rw [if_pos (hstays.mpr (hk.2 rfl i hat.2.1))]
      exact h.on

theorem Awake.step (h : Awake s) (hstep : SystemStep idleTask s e s')
    (hon : s'.interrupts = true) : Awake s' := by
  have hmove : ∀ (i : Fin 64) (p : Point), (∀ saved, p ≠ .sysReturn saved) →
      ∀ j saved, (s.goTo i p).points j ≠ .sysReturn saved := by
    intro i p hp j saved
    by_cases hji : j = i
    · subst hji
      rw [goTo_self]
      exact hp saved
    · rw [goTo_other s p hji]
      exact h.returned j saved
  refine ⟨h.inv.step hstep, hon, ?_⟩
  cases hstep with
  | timer _ => exact h.returned
  | device _ => exact h.returned
  | create _ _ => exact h.returned
  | start _ _ => exact h.returned
  | @enter i hat =>
    refine hmove i _ fun saved => ?_
    split <;> exact nofun
  | read _ => exact hmove _ .reading nofun
  | key _ => exact hmove _ .busy nofun
  | noKey _ => exact hmove _ .readPreempt nofun
  | poll _ => exact hmove _ .idlePreempt nofun
  | @preempt i p p' _ _ hp _ _ =>
    refine hmove i p' ?_
    cases p <;> cases hp <;> exact nofun
  | @halt i p p' _ _ hp =>
    refine hmove i p' ?_
    cases p <;> cases hp <;> exact nofun
  | yield _ _ => exact h.returned
  | sysReturn hat => exact absurd hat.2.2 (h.returned _ _)
  | stop _ => exact hmove _ .stopped nofun
  | sysYield hat hcall =>
    split at hon
    · next hstays =>
      rw [if_pos hstays]
      exact h.returned
    · cases hon

end Steps

/-- In every state of a run interrupts are on, so that a halted processor always wakes, exactly when
no task calls `SYS_YIELD` while another one can run, and the kernel is not stopped. -/
theorem interrupts_on_iff (idleTask : UInt32) (es : List SystemEvent) (s : System) :
    Run (fun s e s' => SystemStep idleTask s e s' ∧ s'.interrupts = true) {} es s ↔
    Run (fun s e s' => SystemStep idleTask s e s' ∧ KeepsInterrupts s e) {} es s := by
  have hawake : Awake {} := ⟨systemInv_boot, rfl, fun _ _ => nofun⟩
  generalize ({} : System) = s0 at hawake
  constructor
  · intro hrun
    induction hrun with
    | nil s => exact .nil s
    | cons head tail ih =>
      exact .cons ⟨head.1, (hawake.keeps_iff head.1).mp head.2⟩ (ih (hawake.step head.1 head.2))
  · intro hrun
    induction hrun with
    | nil s => exact .nil s
    | cons head tail ih =>
      have hon := (hawake.keeps_iff head.1).mpr head.2
      exact .cons ⟨head.1, hon⟩ (ih (hawake.step head.1 hon))

/-- `SYS_YIELD` hands its cleared interrupt flag on with the processor. Where the task that takes
over waits for a key or idles, all that the machine still does is halt for good; everywhere else
it can get its interrupts back. -/
theorem sys_yield_hangs_iff (idleTask : UInt32) (es : List SystemEvent) (s s' : System)
    (i j : Fin 64) (hrun : Run (SystemStep idleTask) {} es s) (hi : s.tasking.Runs i)
    (hstep : SystemStep idleTask s .sysYield s') (hj : s'.tasking.Runs j) (hij : j ≠ i)
    (hidle : s.points j = .fresh → (s'.tasking.sched.tasks j).entry ≠ idleTask) :
    (∀ es' s'', Run (SystemStep idleTask) s' es' s'' →
      es'.length ≤ 1 ∧ s''.interrupts = false) ↔
    s.points j = .readHalt ∨ s.points j = .idleHalt := by
  have hwaits := (system_inv hrun).waits j fun hr => hij (hr.unique hi)
  cases hstep with
  | @sysYield l _ hat t' hcall =>
    obtain rfl := hat.2.1.unique hi
    have hrj : t'.Runs j := by
      split at hj <;> exact hj
    have hstop : ¬t'.Runs l := fun hr => hij (hrj.unique hr)
    simp only [if_neg hstop] at hidle ⊢
    have hpoint : (s.goTo l (.sysReturn s.interrupts)).points j = s.points j := goTo_other s _ hij
    have hatj : ∀ p, s.points j = p → System.At { s.goTo l (.sysReturn s.interrupts) with
        tasking := t', interrupts := false } j p := fun p hp => ⟨hat.1, hrj, hpoint.trans hp⟩
    constructor
    · intro hdead
      by_contra hne
      obtain ⟨hread, hhalt⟩ := not_or.mp hne
      obtain ⟨es', s'', hrun', hon⟩ := recovers (hatj _ rfl) hwaits hidle hread hhalt
      cases (hdead es' s'' hrun').2.symm.trans hon
    · rintro (hp | hp) es' s'' hrun'
      · exact Hung.run ⟨hrj.1, rfl, .inr (.inl (hatj _ hp))⟩ hrun'
      · exact Hung.run ⟨hrj.1, rfl, .inr (.inr (hatj _ hp))⟩ hrun'

/-- The shell runs, and the idle task waits behind its `hlt`. -/
theorem idle_waits : ∃ s, Run (SystemStep 1) {} [.create 2 0 .kernel, .create 1 0 .kernel, .start,
      .enter, .yield, .enter, .poll, .timer, .timer, .timer, .timer, .preempt] s ∧
    s.At (taskSlot 0) .busy ∧ s.points (taskSlot 1) = .idleHalt ∧
      s.tasking.sched.schedulerYield.currentIndex = 1 := by
  refine ⟨_, .cons (.create rfl (.create _ 2 0 .kernel)) <|
    .cons (.create rfl (.create _ 1 0 .kernel)) <| .cons (.start rfl (.start rfl)) <|
    .cons (.enter (i := 0) ⟨rfl, ⟨rfl, rfl⟩, rfl⟩) <|
    .cons (.yield (i := 0) ⟨rfl, ⟨rfl, rfl⟩, rfl⟩ (.yield rfl)) <|
    .cons (.enter (i := 1) ⟨rfl, ⟨rfl, rfl⟩, rfl⟩) <|
    .cons (.poll (i := 1) ⟨rfl, ⟨rfl, rfl⟩, rfl⟩) <| .cons (.timer rfl) <| .cons (.timer rfl) <|
    .cons (.timer rfl) <| .cons (.timer rfl) <|
    .cons (.preempt (i := 1) ⟨rfl, ⟨rfl, rfl⟩, rfl⟩ rfl (.maybePreempt rfl)) <| .nil _, ?_⟩
  exact ⟨⟨rfl, ⟨rfl, rfl⟩, rfl⟩, rfl, rfl⟩

theorem sys_yield_hangs_iff_idle : ∃ s s', SystemStep 1 s .sysYield s' ∧
    ∀ es' s'', Run (SystemStep 1) s' es' s'' → es'.length ≤ 1 ∧ s''.interrupts = false := by
  obtain ⟨s, hrun, hat, hidle, hnext⟩ := idle_waits
  have hstep : SystemStep 1 s .sysYield _ := .sysYield hat (.yield hat.2.1.1)
  have hstop : ¬Tasking.Runs { s.tasking with sched := s.tasking.sched.schedulerYield }
      (taskSlot 0) := by
    intro hr
    cases hr.2.symm.trans hnext
  rw [if_neg hstop] at hstep
  exact ⟨s, _, hstep, (sys_yield_hangs_iff 1 _ s _ (taskSlot 0) (taskSlot 1) hrun hat.2.1 hstep
    ⟨hat.2.1.1, hnext⟩ (by decide) (fun hf => by cases hidle.symm.trans hf)).mpr (.inr hidle)⟩

end VertexOS
