import VertexOS.Library.Assembly
import VertexOS.Task.Scheduler

namespace VertexOS
open Library.Assembly Library.Memory Library.Transitions

/-- `TASK_STACK_SIZE`, and `sizeof(task)`. -/
def taskStackSize : Nat := 4096
def taskSize : Nat := 32

/-- Where the linker puts `tasks`, `task_stacks` and `task_bootstrap`. -/
structure Layout where
  tasks : UInt32
  taskStacks : UInt32
  taskBootstrap : UInt32
  tasks_fit : tasks.toNat + taskSize * maxTasks < 4294967296
  stacks_fit : taskStacks.toNat + taskStackSize * maxTasks < 4294967296
  apart : tasks.toNat + taskSize * maxTasks ≤ taskStacks.toNat ∨
    taskStacks.toNat + taskStackSize * maxTasks ≤ tasks.toNat

namespace Layout

variable (L : Layout)

/-- `&tasks[i].stack_top`. -/
def stackTop (i : Fin 64) : UInt32 := L.tasks + UInt32.ofNat (taskSize * i + 4)

/-- `tasks[i].stack_base`, and the end of the stack. -/
def stackBase (i : Fin 64) : UInt32 := L.taskStacks + UInt32.ofNat (taskStackSize * i)
def stackEnd (i : Fin 64) : UInt32 := L.stackBase i + UInt32.ofNat taskStackSize

theorem stackTop_toNat (i : Fin 64) : (L.stackTop i).toNat = L.tasks.toNat + (32 * i + 4) := by
  have hfit : L.tasks.toNat + 32 * 64 < 4294967296 := L.tasks_fit
  exact toNat_add_small _ _ (by simp only [taskSize]; omega)

theorem stackBase_toNat (i : Fin 64) : (L.stackBase i).toNat = L.taskStacks.toNat + 4096 * i := by
  have hfit : L.taskStacks.toNat + 4096 * 64 < 4294967296 := L.stacks_fit
  exact toNat_add_small _ _ (by simp only [taskStackSize]; omega)

theorem stackEnd_toNat (i : Fin 64) :
    (L.stackEnd i).toNat = L.taskStacks.toNat + 4096 * i + 4096 := by
  have hfit : L.taskStacks.toNat + 4096 * 64 < 4294967296 := L.stacks_fit
  have hbase := L.stackBase_toNat i
  rw [stackEnd, toNat_add_small _ _ (by simp only [taskStackSize]; omega), hbase]
  rfl

/-- The memory that holds the state of task `i`: its saved stack pointer and its stack. -/
def Owns (i : Fin 64) (a : UInt32) : Prop :=
  (L.stackTop i).toNat ≤ a.toNat ∧ a.toNat < (L.stackTop i).toNat + 4 ∨
    (L.stackBase i).toNat ≤ a.toNat ∧ a.toNat < (L.stackEnd i).toNat

/-- The stack of task `i` from `sp` on, as a function on addresses. -/
def stackFrom (i : Fin 64) (mem : Mem) (sp : UInt32) (a : UInt32) : UInt8 :=
  if sp.toNat ≤ a.toNat ∧ a.toNat < (L.stackEnd i).toNat then mem a else 0

end Layout

/-- `context_switch` of `interrupts.asm`. -/
def contextSwitch : List Instr :=
  [.load .eax .esp 4, .load .edx .esp 8,
   .push .ebp, .push .ebx, .push .esi, .push .edi,
   .store .eax 0 .esp, .move .esp .edx,
   .pop .edi, .pop .esi, .pop .ebx, .pop .ebp, .ret]

/-- The scheduler and the processor. -/
structure Kernel where
  tasking : Tasking
  cpu : Machine

/-- The entry of the task table at an index. -/
def taskSlot (n : Nat) : Fin 64 := ⟨n % 64, Nat.mod_lt n (by decide)⟩

/-- A call of `context_switch(old_sp, new_sp)` that returns to `returnTo`. -/
def switchStacks (m : Machine) (oldSp newSp returnTo : UInt32) : Machine :=
  (m.call [oldSp, newSp] returnTo).run contextSwitch

/-- What `scheduler_yield` does behind its pick, which left `s` with task `old` current. -/
def Layout.yieldTo (L : Layout) (m : Machine) (old : Int) (s : Scheduler) (returnTo : UInt32) :
    Machine :=
  if s.currentIndex < 0 ∨ s.currentIndex = old then m
  else
    switchStacks m (L.stackTop (taskSlot old.toNat))
      (load32 m.mem (L.stackTop (taskSlot s.currentIndex.toNat))) returnTo

/-- The stack that `scheduler_create_task` prepares for `context_switch`. -/
def Layout.prepare (L : Layout) (mem : Mem) (idx : Fin 64) : Mem :=
  store32 (pushWords mem (L.stackEnd idx) [L.taskBootstrap, 0, 0, 0, 0]) (L.stackTop idx)
    (L.stackEnd idx - 20)

/-- The processor after a call of the scheduler that leaves `t'`. The call returns to `returnTo`;
`dummySp` is the address of the local variable of `scheduler_start`. -/
def Kernel.after (L : Layout) (k : Kernel) (c : SchedCall) (t' : Tasking)
    (returnTo dummySp : UInt32) : Machine :=
  match c with
  | .create .. =>
    if t'.sched.taskCount = k.tasking.sched.taskCount then k.cpu
    else { k.cpu with mem := L.prepare k.cpu.mem (taskSlot k.tasking.sched.taskCount) }
  | .start =>
    switchStacks k.cpu dummySp
      (load32 k.cpu.mem (L.stackTop (taskSlot t'.sched.currentIndex.toNat))) returnTo
  | .yield | .maybePreempt => L.yieldTo k.cpu k.tasking.sched.currentIndex t'.sched returnTo
  | .onTick | .taskReturn => k.cpu

/-- The task that runs, once the scheduler was started. -/
def Tasking.Runs (t : Tasking) (i : Fin 64) : Prop :=
  t.started = true ∧ t.sched.currentIndex = (i.val : Int)

instance (t : Tasking) (i : Fin 64) : Decidable (t.Runs i) :=
  inferInstanceAs (Decidable (_ ∧ _))

section Spec

variable {m : Machine} {oldSp newSp returnTo : UInt32}

/-- The registers are those stored at `sp` for `context_switch` to take. -/
structure Resumed (m : Machine) (mem : Mem) (sp : UInt32) : Prop where
  written : m.mem = mem
  edi : m.regs .edi = load32 mem sp
  esi : m.regs .esi = load32 mem (sp + 4)
  ebx : m.regs .ebx = load32 mem (sp + 8)
  ebp : m.regs .ebp = load32 mem (sp + 12)
  eip : m.eip = load32 mem (sp + 16)
  esp : m.regs .esp = sp + 20

/-- What `context_switch` does: it saves four registers and the stack pointer, and takes the
others from the new stack. -/
theorem contextSwitch_run (m : Machine) (hold : load32 m.mem (m.regs .esp + 4) = oldSp)
    (hnew : load32 m.mem (m.regs .esp + 8) = newSp) :
    Resumed (m.run contextSwitch)
      (store32 (pushWords m.mem (m.regs .esp) [m.regs .ebp, m.regs .ebx, m.regs .esi, m.regs .edi])
        oldSp (m.regs .esp - 16)) newSp := by
  subst hold hnew
  have hsp : m.regs .esp - 4 - 4 - 4 - 4 = m.regs .esp - 16 := by grind
  constructor <;>
  · simp only [contextSwitch, Machine.run, List.foldl_cons, List.foldl_nil, Machine.step,
      Machine.pushWord, Machine.set, pushWords, Function.update_apply, reduceCtorEq, if_true,
      if_false, hsp]
    simp [UInt32.add_assoc]

/-- The words that a call of `context_switch` leaves below the caller's stack pointer. -/
def switchFrame (m : Machine) (oldSp newSp returnTo : UInt32) : List UInt32 :=
  [newSp, oldSp, returnTo, m.regs .ebp, m.regs .ebx, m.regs .esi, m.regs .edi]

def switchMem (m : Machine) (oldSp newSp returnTo : UInt32) : Mem :=
  store32 (pushWords m.mem (m.regs .esp) (switchFrame m oldSp newSp returnTo)) oldSp
    (m.regs .esp - 28)

/-- The call puts the arguments and the return address where `context_switch` expects them. -/
theorem call_switch (m : Machine) (oldSp newSp returnTo : UInt32) :
    (m.call [oldSp, newSp] returnTo).mem =
        pushWords m.mem (m.regs .esp) [newSp, oldSp, returnTo] ∧
      (m.call [oldSp, newSp] returnTo).regs =
        Function.update m.regs .esp (m.regs .esp - 12) := by
  obtain ⟨hmem, -, hregs⟩ := foldl_pushWord m ([oldSp, newSp].reverse ++ [returnTo])
  exact ⟨hmem, hregs⟩

/-- `context_switch` finds its arguments. -/
theorem call_args (oldSp newSp returnTo : UInt32) (hroom : 12 ≤ (m.regs .esp).toNat) :
    load32 (m.call [oldSp, newSp] returnTo).mem
        ((m.call [oldSp, newSp] returnTo).regs .esp + 4) = oldSp ∧
      load32 (m.call [oldSp, newSp] returnTo).mem
        ((m.call [oldSp, newSp] returnTo).regs .esp + 8) = newSp := by
  obtain ⟨hmem, hregs⟩ := call_switch m oldSp newSp returnTo
  have hload : ∀ k < 3, load32 (pushWords m.mem (m.regs .esp) [newSp, oldSp, returnTo])
      (m.regs .esp - UInt32.ofNat (4 * (k + 1))) = [newSp, oldSp, returnTo].getD k 0 := by
    intro k hk
    exact load32_pushWords _ (by simp only [List.length_cons, List.length_nil]; omega) hk
  have h4 : m.regs .esp - 12 + 8 = m.regs .esp - UInt32.ofNat (4 * (0 + 1)) := by
    change _ = _ - 4
    grind
  have h8 : m.regs .esp - 12 + 4 = m.regs .esp - UInt32.ofNat (4 * (1 + 1)) := by
    change _ = _ - 8
    grind
  rw [hmem, hregs, Function.update_self, h4, h8]
  exact ⟨hload 1 (by decide), hload 0 (by decide)⟩

theorem switchStacks_resumed (hroom : 28 ≤ (m.regs .esp).toNat) :
    Resumed (switchStacks m oldSp newSp returnTo) (switchMem m oldSp newSp returnTo) newSp := by
  obtain ⟨hmem, hregs⟩ := call_switch m oldSp newSp returnTo
  obtain ⟨hold, hnew⟩ := call_args oldSp newSp returnTo (show 12 ≤ (m.regs .esp).toNat by omega)
  have hrun := contextSwitch_run _ hold hnew
  have hsaved : store32 (pushWords (pushWords m.mem (m.regs .esp) [newSp, oldSp, returnTo])
      (m.regs .esp - 12) [m.regs .ebp, m.regs .ebx, m.regs .esi, m.regs .edi]) oldSp
      (m.regs .esp - 12 - 16) = switchMem m oldSp newSp returnTo := by
    have h12 : m.regs .esp - 12 = m.regs .esp - 4 - 4 - 4 := by grind
    have h28 : m.regs .esp - 12 - 16 = m.regs .esp - 28 := by grind
    rw [h28, h12]
    rfl
  rw [hmem, hregs] at hrun
  rw [switchStacks, ← hsaved]
  simpa only [Function.update_self, ne_eq, reduceCtorEq, not_false_eq_true, Function.update_of_ne]
    using hrun

/-- Memory apart from the caller's pushes and the place of the old stack pointer is kept. -/
theorem switchMem_frame (hroom : 28 ≤ (m.regs .esp).toNat) (hold : oldSp.toNat + 4 ≤ 4294967296)
    (a : UInt32) (hpushed : a.toNat < (m.regs .esp).toNat - 28 ∨ (m.regs .esp).toNat ≤ a.toNat)
    (hcell : a.toNat < oldSp.toNat ∨ oldSp.toNat + 4 ≤ a.toNat) :
    switchMem m oldSp newSp returnTo a = m.mem a := by
  have hstore := store32_outside
    (pushWords m.mem (m.regs .esp) (switchFrame m oldSp newSp returnTo)) oldSp (m.regs .esp - 28)
    hold
  have hpush := pushWords_outside m.mem (m.regs .esp) (switchFrame m oldSp newSp returnTo)
    (show 4 * 7 ≤ (m.regs .esp).toNat by omega)
  rw [switchMem, hstore a hcell]
  exact hpush a hpushed

/-- What was pushed is there. -/
theorem switchMem_pushed (newSp returnTo : UInt32) (hroom : 28 ≤ (m.regs .esp).toNat)
    (hold : oldSp.toNat + 4 ≤ 4294967296)
    (hcell : oldSp.toNat + 4 ≤ (m.regs .esp).toNat - 28 ∨ (m.regs .esp).toNat ≤ oldSp.toNat)
    (k : Nat) (hk : k < 7) :
    load32 (switchMem m oldSp newSp returnTo) (m.regs .esp - UInt32.ofNat (4 * (k + 1))) =
      (switchFrame m oldSp newSp returnTo).getD k 0 := by
  have hsp := (m.regs .esp).toNat_lt
  have hat : (m.regs .esp - UInt32.ofNat (4 * (k + 1))).toNat =
      (m.regs .esp).toNat - 4 * (k + 1) := sub_toNat _ (by omega)
  rw [switchMem, load32_frame (store32_outside _ _ _ hold) (by omega) (by omega)]
  exact load32_pushWords _ (show 4 * 7 ≤ (m.regs .esp).toNat by omega) hk

end Spec

end VertexOS
