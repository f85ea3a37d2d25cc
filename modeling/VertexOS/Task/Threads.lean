import VertexOS.Task.Switch

namespace VertexOS
open Library.Assembly Library.Memory Library.Transitions

/-- A task by itself: the registers that a C function keeps, where it goes on, and its stack. -/
@[ext] structure Thread where
  ebx : UInt32
  esi : UInt32
  edi : UInt32
  ebp : UInt32
  esp : UInt32
  eip : UInt32
  stack : UInt32 → UInt8

/-- Tasks that share the processor and nothing else. -/
structure Threads where
  tasking : Tasking
  threads : Fin 64 → Thread

def Thread.unborn : Thread := ⟨0, 0, 0, 0, 0, 0, fun _ => 0⟩

/-- A task that was created and has not run. -/
def Layout.newThread (L : Layout) (i : Fin 64) : Thread :=
  ⟨0, 0, 0, 0, L.stackEnd i, L.taskBootstrap, fun _ => 0⟩

/-- The task left off at a call that returns to `returnTo`: its registers and what was on its
stack are as they were, below them stand the two arguments of the call. -/
def Suspended (returnTo : UInt32) (th th' : Thread) : Prop :=
  th' = { th with eip := returnTo, esp := th.esp - 8, stack := th'.stack } ∧
    ∀ a : UInt32, th.esp.toNat ≤ a.toNat → th'.stack a = th.stack a

/-- What a call of the scheduler does to the threads: it makes the new one, suspends the one that
stops running, and leaves every other one, the one that goes on included, as it was. -/
def ThreadsAfter (L : Layout) (returnTo : UInt32) (t t' : Tasking)
    (threads threads' : Fin 64 → Thread) : Prop :=
  ∀ i : Fin 64,
    if t.sched.taskCount = i ∧ i < t'.sched.taskCount then threads' i = L.newThread i
    else if t.Runs i ∧ ¬t'.Runs i then Suspended returnTo (threads i) (threads' i)
    else threads' i = threads i

inductive KernelAct where
  | work
  | call (c : SchedCall)
  deriving DecidableEq, Repr

/-- The tasks by themselves: a task changes its own thread only. -/
inductive ThreadStep (L : Layout) : Threads → KernelAct → Threads → Prop
  | boot {s : Threads} (h : s.tasking.started = false) : ThreadStep L s .work s
  | work {s : Threads} {i : Fin 64} (h : s.tasking.Runs i) (th : Thread) :
      ThreadStep L s .work { s with threads := Function.update s.threads i th }
  | call {s s' : Threads} {c : SchedCall} (h : SchedStep s.tasking c s'.tasking)
      (returnTo : UInt32)
      (hth : ThreadsAfter L returnTo s.tasking s'.tasking s.threads s'.threads) :
      ThreadStep L s (.call c) s'

namespace Layout

variable (L : Layout)

def runningThread (m : Machine) (i : Fin 64) : Thread where
  ebx := m.regs .ebx
  esi := m.regs .esi
  edi := m.regs .edi
  ebp := m.regs .ebp
  esp := m.regs .esp
  eip := m.eip
  stack := L.stackFrom i m.mem (m.regs .esp)

/-- The thread that `context_switch` finds at the saved stack pointer. -/
def parkedThread (mem : Mem) (i : Fin 64) : Thread :=
  let sp := load32 mem (L.stackTop i)
  { edi := load32 mem sp
    esi := load32 mem (sp + 4)
    ebx := load32 mem (sp + 8)
    ebp := load32 mem (sp + 12)
    eip := load32 mem (sp + 16)
    esp := sp + 20
    stack := L.stackFrom i mem (sp + 20) }

/-- The saved stack pointer lies in the task's stack, with the saved registers above it. -/
def Parked (mem : Mem) (i : Fin 64) : Prop :=
  (L.stackBase i).toNat ≤ (load32 mem (L.stackTop i)).toNat ∧
    (load32 mem (L.stackTop i)).toNat + 20 ≤ (L.stackEnd i).toNat

/-- The stack pointer lies in the task's stack. -/
def InStack (m : Machine) (i : Fin 64) : Prop :=
  (L.stackBase i).toNat ≤ (m.regs .esp).toNat ∧ (m.regs .esp).toNat ≤ (L.stackEnd i).toNat

/-- What a call needs of the stack it is made on: room for the frame of `context_switch`. The boot
stack lies apart from the tasks. -/
def Room (k : Kernel) (c : SchedCall) (dummySp : UInt32) : Prop :=
  match c with
  | .yield | .maybePreempt =>
    ∀ i, k.tasking.Runs i → (L.stackBase i).toNat + 28 ≤ (k.cpu.regs .esp).toNat
  | .start =>
    k.tasking.started = false ∧ 28 ≤ (k.cpu.regs .esp).toNat ∧ dummySp.toNat + 4 ≤ 4294967296 ∧
      ∀ i a, L.Owns i a →
        (a.toNat < (k.cpu.regs .esp).toNat - 28 ∨ (k.cpu.regs .esp).toNat ≤ a.toNat) ∧
        (a.toNat < dummySp.toNat ∨ dummySp.toNat + 4 ≤ a.toNat)
  | .create .. | .onTick | .taskReturn => True

end Layout

/-- What the machine does. A task works on its own stack and leaves the memory that belongs to the
others alone; the code that runs before the start leaves it all alone. -/
inductive KernelStep (L : Layout) : Kernel → KernelAct → Kernel → Prop
  | boot {k : Kernel} (h : k.tasking.started = false) (cpu : Machine)
      (hkeep : ∀ i a, L.Owns i a → cpu.mem a = k.cpu.mem a) :
      KernelStep L k .work { k with cpu }
  | work {k : Kernel} {i : Fin 64} (h : k.tasking.Runs i) (cpu : Machine) (hstack : L.InStack cpu i)
      (hkeep : ∀ j a, j ≠ i → L.Owns j a → cpu.mem a = k.cpu.mem a) :
      KernelStep L k .work { k with cpu }
  | call {k : Kernel} {c : SchedCall} {t' : Tasking} (h : SchedStep k.tasking c t')
      (returnTo dummySp : UInt32) (hroom : L.Room k c dummySp) :
      KernelStep L k (.call c) ⟨t', k.after L c t' returnTo dummySp⟩

/-- The thread of a task, read off the machine. -/
def Kernel.thread (L : Layout) (k : Kernel) (i : Fin 64) : Thread :=
  if k.tasking.sched.taskCount ≤ i then .unborn
  else if k.tasking.Runs i then L.runningThread k.cpu i
  else L.parkedThread k.cpu.mem i

def Kernel.threads (L : Layout) (k : Kernel) : Threads := ⟨k.tasking, k.thread L⟩

/-- What holds between steps: every task that waits is parked on its stack. -/
structure KernelInv (L : Layout) (k : Kernel) : Prop where
  sched : SchedInv k.tasking
  parked : ∀ i : Fin 64, i < k.tasking.sched.taskCount → ¬k.tasking.Runs i → L.Parked k.cpu.mem i
  running : ∀ i : Fin 64, k.tasking.Runs i → L.InStack k.cpu i

section Memory

variable {L : Layout} {mem mem' : Mem} {m : Machine} {i j : Fin 64} {a sp : UInt32}

/-- No two tasks own the same byte. -/
theorem owns_apart (hij : i ≠ j) (hi : L.Owns i a) : ¬L.Owns j a := by
  have hne : i.val ≠ j.val := fun h => hij (Fin.ext h)
  have htasks : L.tasks.toNat + 32 * 64 ≤ L.taskStacks.toNat ∨
    L.taskStacks.toNat + 4096 * 64 ≤ L.tasks.toNat := L.apart
  simp only [Layout.Owns, L.stackTop_toNat, L.stackBase_toNat, L.stackEnd_toNat] at hi ⊢
  omega

/-- The saved stack pointer depends on what the task owns. -/
theorem load_stackTop (hcell : ∀ a : UInt32, (L.stackTop i).toNat ≤ a.toNat →
    a.toNat < (L.stackTop i).toNat + 4 → mem' a = mem a) :
    load32 mem' (L.stackTop i) = load32 mem (L.stackTop i) := by
  have htasks : L.tasks.toNat + 32 * 64 < 4294967296 := L.tasks_fit
  have htop := L.stackTop_toNat i
  exact load32_congr (by omega) hcell

theorem stackFrom_congr (hstack : ∀ a : UInt32, sp.toNat ≤ a.toNat →
    a.toNat < (L.stackEnd i).toNat → mem' a = mem a) :
    L.stackFrom i mem' sp = L.stackFrom i mem sp := by
  funext a
  rw [Layout.stackFrom, Layout.stackFrom]
  split
  · next h => exact hstack a h.1 h.2
  · rfl

/-- A parked thread depends on the saved stack pointer, and on the stack from there on. -/
theorem parkedThread_live (hp : L.Parked mem i)
    (hcell : ∀ a : UInt32, (L.stackTop i).toNat ≤ a.toNat →
      a.toNat < (L.stackTop i).toNat + 4 → mem' a = mem a)
    (hstack : ∀ a : UInt32, (load32 mem (L.stackTop i)).toNat ≤ a.toNat →
      a.toNat < (L.stackEnd i).toNat → mem' a = mem a) :
    L.parkedThread mem' i = L.parkedThread mem i ∧ L.Parked mem' i := by
  have hsp := load_stackTop hcell
  obtain ⟨hlo, hhi⟩ := hp
  have hend := (L.stackEnd i).toNat_lt
  have hat : ∀ k, k ≤ 20 → (load32 mem (L.stackTop i) + UInt32.ofNat k).toNat =
      (load32 mem (L.stackTop i)).toNat + k := fun k hk => toNat_add_small _ _ (by omega)
  have hload : ∀ k, k + 4 ≤ 20 → load32 mem' (load32 mem (L.stackTop i) + UInt32.ofNat k) =
      load32 mem (load32 mem (L.stackTop i) + UInt32.ofNat k) := by
    intro k hk
    have hk' := hat k (by omega)
    exact load32_congr (by omega) fun c hc hc' => hstack c (by omega) (by omega)
  have h0 := hload 0 (by omega)
  have h20 := hat 20 (by omega)
  change load32 mem' (load32 mem (L.stackTop i) + 0) = load32 mem (load32 mem (L.stackTop i) + 0)
    at h0
  rw [UInt32.add_zero] at h0
  refine ⟨?_, ?_⟩
  · rw [Layout.parkedThread, Layout.parkedThread, hsp]
    ext1
    · exact hload 8 (by omega)
    · exact hload 4 (by omega)
    · exact h0
    · exact hload 12 (by omega)
    · rfl
    · exact hload 16 (by omega)
    · exact stackFrom_congr fun a ha => hstack a (by
        change (load32 mem (L.stackTop i) + UInt32.ofNat 20).toNat ≤ a.toNat at ha
        omega)
  · rw [Layout.Parked, hsp]
    exact ⟨hlo, hhi⟩

/-- A parked thread depends on what the task owns. -/
theorem parkedThread_congr (hp : L.Parked mem i) (hown : ∀ a, L.Owns i a → mem' a = mem a) :
    L.parkedThread mem' i = L.parkedThread mem i ∧ L.Parked mem' i :=
  parkedThread_live hp (fun a ha ha' => hown a (.inl ⟨ha, ha'⟩))
    fun a ha ha' => hown a (.inr ⟨hp.1.trans ha, ha'⟩)

/-- The task that `context_switch` takes up goes on as the thread that was parked. -/
theorem Resumed.thread (h : Resumed m mem' (load32 mem (L.stackTop i))) (hp : L.Parked mem i)
    (hown : ∀ a, L.Owns i a → mem' a = mem a) :
    L.runningThread m i = L.parkedThread mem i ∧ L.InStack m i := by
  have hsp := load_stackTop fun a ha ha' => hown a (.inl ⟨ha, ha'⟩)
  rw [← (parkedThread_congr hp hown).1]
  obtain ⟨hlo, hhi⟩ := hp
  have hend := (L.stackEnd i).toNat_lt
  have h20 : (load32 mem (L.stackTop i) + 20).toNat = (load32 mem (L.stackTop i)).toNat + 20 :=
    toNat_add_small _ 20 (by omega)
  refine ⟨?_, ?_⟩
  · rw [Layout.runningThread, Layout.parkedThread, hsp, h.written]
    ext1
    · exact h.ebx
    · exact h.esi
    · exact h.edi
    · exact h.ebp
    · exact h.esp
    · exact h.eip
    · dsimp only
      rw [h.esp]
  · rw [Layout.InStack, h.esp]
    omega

/-- The call of `context_switch` by task `i` changes what task `i` owns. -/
theorem switch_owned {newSp returnTo : UInt32} (hs : L.InStack m i)
    (hroom : (L.stackBase i).toNat + 28 ≤ (m.regs .esp).toNat) (hji : j ≠ i) (ha : L.Owns j a) :
    switchMem m (L.stackTop i) newSp returnTo a = m.mem a := by
  have htasks : L.tasks.toNat + 32 * 64 < 4294967296 := L.tasks_fit
  have htop := L.stackTop_toNat i
  have happ := owns_apart hji ha
  simp only [Layout.Owns, not_or, not_and, not_lt] at happ
  obtain ⟨hlo, hhi⟩ := hs
  refine switchMem_frame (by omega) (by omega) a ?_ ?_
  · by_contra hin
    have := happ.2 (by omega)
    omega
  · by_contra hin
    have := happ.1 (by omega)
    omega

/-- The task that calls is parked, and suspended at the call. -/
theorem switch_parks (newSp returnTo : UInt32) (hs : L.InStack m i)
    (hroom : (L.stackBase i).toNat + 28 ≤ (m.regs .esp).toNat) :
    L.Parked (switchMem m (L.stackTop i) newSp returnTo) i ∧
    Suspended returnTo (L.runningThread m i)
      (L.parkedThread (switchMem m (L.stackTop i) newSp returnTo) i) := by
  have htasks : L.tasks.toNat + 32 * 64 < 4294967296 := L.tasks_fit
  have htop := L.stackTop_toNat i
  have hbase := L.stackBase_toNat i
  have hend := L.stackEnd_toNat i
  have hapart : L.tasks.toNat + 32 * 64 ≤ L.taskStacks.toNat ∨
    L.taskStacks.toNat + 4096 * 64 ≤ L.tasks.toNat := L.apart
  obtain ⟨hlo, hhi⟩ := hs
  have hi := i.isLt
  have hsp : load32 (switchMem m (L.stackTop i) newSp returnTo) (L.stackTop i) = m.regs .esp - 28 :=
    load32_store32 _ _ _
  have hpushed : ∀ k < 7, load32 (switchMem m (L.stackTop i) newSp returnTo)
      (m.regs .esp - UInt32.ofNat (4 * (k + 1))) =
        (switchFrame m (L.stackTop i) newSp returnTo).getD k 0 :=
    fun k hk => switchMem_pushed newSp returnTo (by omega) (by omega) (by omega) k hk
  have h28 : (m.regs .esp - 28).toNat = (m.regs .esp).toNat - 28 := sub_toNat 28 (by omega)
  have h8 : (m.regs .esp - 8).toNat = (m.regs .esp).toNat - 8 := sub_toNat 8 (by omega)
  refine ⟨?_, ?_, ?_⟩
  · rw [Layout.Parked, hsp]
    omega
  · have hedi := hpushed 6 (by decide)
    have hesi := hpushed 5 (by decide)
    have hebx := hpushed 4 (by decide)
    have hebp := hpushed 3 (by decide)
    have hret := hpushed 2 (by decide)
    rw [Layout.parkedThread, hsp, Layout.runningThread]
    ext1
    · rw [show m.regs .esp - 28 + 8 = m.regs .esp - UInt32.ofNat (4 * (4 + 1)) by
        change _ = _ - 20; grind]
      exact hebx
    · rw [show m.regs .esp - 28 + 4 = m.regs .esp - UInt32.ofNat (4 * (5 + 1)) by
        change _ = _ - 24; grind]
      exact hesi
    · exact hedi
    · rw [show m.regs .esp - 28 + 12 = m.regs .esp - UInt32.ofNat (4 * (3 + 1)) by
        change _ = _ - 16; grind]
      exact hebp
    · dsimp only
      grind
    · rw [show m.regs .esp - 28 + 16 = m.regs .esp - UInt32.ofNat (4 * (2 + 1)) by
        change _ = _ - 12; grind]
      exact hret
    · rfl
  · intro a ha
    change (m.regs .esp).toNat ≤ a.toNat at ha
    have h20 : m.regs .esp - 28 + 20 = m.regs .esp - 8 := by grind
    simp only [Layout.parkedThread, Layout.runningThread, Layout.stackFrom, hsp, h20]
    by_cases hin : a.toNat < (L.stackEnd i).toNat
    · rw [if_pos ⟨by omega, hin⟩, if_pos ⟨ha, hin⟩]
      exact switchMem_frame (by omega) (by omega) a (by omega) (by omega)
    · rw [if_neg (by omega), if_neg (by omega)]

/-- A created task is parked as a new thread, and what the others own is kept. -/
theorem prepare_parks (L : Layout) (mem : Mem) (i : Fin 64) :
    L.Parked (L.prepare mem i) i ∧ L.parkedThread (L.prepare mem i) i = L.newThread i ∧
    ∀ j a, j ≠ i → L.Owns j a → L.prepare mem i a = mem a := by
  have htasks : L.tasks.toNat + 32 * 64 < 4294967296 := L.tasks_fit
  have hfit : L.taskStacks.toNat + 4096 * 64 < 4294967296 := L.stacks_fit
  have htop := L.stackTop_toNat i
  have hbase := L.stackBase_toNat i
  have hend := L.stackEnd_toNat i
  have hapart : L.tasks.toNat + 32 * 64 ≤ L.taskStacks.toNat ∨
    L.taskStacks.toNat + 4096 * 64 ≤ L.tasks.toNat := L.apart
  have hi := i.isLt
  have hsp : load32 (L.prepare mem i) (L.stackTop i) = L.stackEnd i - 20 := load32_store32 _ _ _
  have hcell := store32_outside (pushWords mem (L.stackEnd i) [L.taskBootstrap, 0, 0, 0, 0])
    (L.stackTop i) (L.stackEnd i - 20) (by omega)
  have hpush := pushWords_outside mem (L.stackEnd i) [L.taskBootstrap, 0, 0, 0, 0]
    (show 4 * 5 ≤ (L.stackEnd i).toNat by omega)
  have hpushed : ∀ k < 5, load32 (L.prepare mem i) (L.stackEnd i - UInt32.ofNat (4 * (k + 1))) =
      [L.taskBootstrap, 0, 0, 0, 0].getD k 0 := by
    intro k hk
    have hat : (L.stackEnd i - UInt32.ofNat (4 * (k + 1))).toNat =
        (L.stackEnd i).toNat - 4 * (k + 1) := sub_toNat _ (by omega)
    rw [Layout.prepare, load32_frame hcell (by omega) (by omega)]
    exact load32_pushWords _ (show 4 * 5 ≤ (L.stackEnd i).toNat by omega) hk
  have h20 : (L.stackEnd i - 20).toNat = (L.stackEnd i).toNat - 20 := sub_toNat 20 (by omega)
  refine ⟨?_, ?_, ?_⟩
  · rw [Layout.Parked, hsp]
    omega
  · have hesp : L.stackEnd i - 20 + 20 = L.stackEnd i := by grind
    rw [Layout.parkedThread, hsp, Layout.newThread]
    ext1
    · rw [show L.stackEnd i - 20 + 8 = L.stackEnd i - UInt32.ofNat (4 * (2 + 1)) by
        change _ = _ - 12; grind]
      exact hpushed 2 (by decide)
    · rw [show L.stackEnd i - 20 + 4 = L.stackEnd i - UInt32.ofNat (4 * (3 + 1)) by
        change _ = _ - 16; grind]
      exact hpushed 3 (by decide)
    · exact hpushed 4 (by decide)
    · rw [show L.stackEnd i - 20 + 12 = L.stackEnd i - UInt32.ofNat (4 * (1 + 1)) by
        change _ = _ - 8; grind]
      exact hpushed 1 (by decide)
    · exact hesp
    · rw [show L.stackEnd i - 20 + 16 = L.stackEnd i - UInt32.ofNat (4 * (0 + 1)) by
        change _ = _ - 4; grind]
      exact hpushed 0 (by decide)
    · funext a
      simp only [Layout.stackFrom, hesp]
      exact if_neg (by omega)
  · intro j a hji ha
    have happ := owns_apart hji ha
    simp only [Layout.Owns, not_or, not_and, not_lt] at happ
    have hc : a.toNat < (L.stackTop i).toNat ∨ (L.stackTop i).toNat + 4 ≤ a.toNat := by
      by_contra hin
      have := happ.1 (by omega)
      omega
    have hp : a.toNat < (L.stackEnd i).toNat - 4 * 5 ∨ (L.stackEnd i).toNat ≤ a.toNat := by
      by_contra hin
      have := happ.2 (by omega)
      omega
    rw [Layout.prepare, hcell a hc]
    exact hpush a hp

end Memory

section Steps

variable {L : Layout} {k k' : Kernel} {t' : Tasking} {i j : Fin 64} {x : KernelAct}

theorem Tasking.Runs.unique {t : Tasking} (hi : t.Runs i) (hj : t.Runs j) : i = j :=
  Fin.ext (Int.natCast_inj.mp (hi.2.symm.trans hj.2))

theorem Tasking.Runs.created {t : Tasking} (h : SchedInv t) (hi : t.Runs i) :
    i < t.sched.taskCount := by
  obtain ⟨c, hc, hcur, -⟩ := h.current hi.1
  have hci : (c : Int) = i.val := hcur.symm.trans hi.2
  omega

/-- Once the scheduler was started some task runs. -/
theorem SchedInv.runs {t : Tasking} (h : SchedInv t) (hs : t.started = true) : ∃ i, t.Runs i := by
  obtain ⟨c, hc, hcur, -⟩ := h.current hs
  have hmax : t.sched.taskCount ≤ 64 := h.count
  exact ⟨⟨c, by omega⟩, hs, hcur⟩

theorem Kernel.thread_running (h : SchedInv k.tasking) (hi : k.tasking.Runs i) :
    k.thread L i = L.runningThread k.cpu i := by
  have hcreated := hi.created h
  rw [Kernel.thread, if_neg (by omega), if_pos hi]

theorem Kernel.thread_parked (hc : i < k.tasking.sched.taskCount) (hi : ¬k.tasking.Runs i) :
    k.thread L i = L.parkedThread k.cpu.mem i := by
  rw [Kernel.thread, if_neg (by omega), if_neg hi]

theorem Kernel.thread_unborn (hc : k.tasking.sched.taskCount ≤ i) : k.thread L i = .unborn := by
  rw [Kernel.thread, if_pos hc]

/-- A task that waits on both sides of a change that keeps what it owns is the same thread. -/
theorem KernelInv.waits (h : KernelInv L k) (k' : Kernel) (hc : i < k.tasking.sched.taskCount)
    (hi : ¬k.tasking.Runs i) (hown : ∀ a, L.Owns i a → k'.cpu.mem a = k.cpu.mem a)
    (hc' : i < k'.tasking.sched.taskCount) (hi' : ¬k'.tasking.Runs i) :
    k'.thread L i = k.thread L i ∧ L.Parked k'.cpu.mem i := by
  obtain ⟨he, hp⟩ := parkedThread_congr (h.parked i hc hi) hown
  rw [Kernel.thread_parked hc' hi', Kernel.thread_parked hc hi]
  exact ⟨he, hp⟩

/-- A call that moves neither the processor nor the tasks. -/
theorem KernelInv.still (h : KernelInv L k) (ht : SchedInv t')
    (hcount : t'.sched.taskCount = k.tasking.sched.taskCount)
    (hruns : ∀ i, t'.Runs i ↔ k.tasking.Runs i) (returnTo : UInt32) :
    KernelInv L ⟨t', k.cpu⟩ ∧
      ThreadsAfter L returnTo k.tasking t' (k.thread L) (Kernel.thread L ⟨t', k.cpu⟩) := by
  refine ⟨⟨ht, ?_, fun i hi => h.running i ((hruns i).mp hi)⟩, ?_⟩
  · intro i hi hwait
    exact h.parked i (hcount ▸ hi) fun hr => hwait ((hruns i).mpr hr)
  · intro i
    rw [if_neg (by omega), if_neg fun hr => hr.2 ((hruns i).mpr hr.1), Kernel.thread, Kernel.thread]
    simp only [hcount, hruns i]

/-- A call in which task `j` takes over from task `i`. -/
theorem KernelInv.switched (h : KernelInv L k) (ht : SchedInv t')
    (hcount : t'.sched.taskCount = k.tasking.sched.taskCount) (hi : k.tasking.Runs i)
    (hj : t'.Runs j) (hij : j ≠ i) (hroom : (L.stackBase i).toNat + 28 ≤ (k.cpu.regs .esp).toNat)
    (returnTo : UInt32) :
    let cpu := switchStacks k.cpu (L.stackTop i) (load32 k.cpu.mem (L.stackTop j)) returnTo
    KernelInv L ⟨t', cpu⟩ ∧
      ThreadsAfter L returnTo k.tasking t' (k.thread L) (Kernel.thread L ⟨t', cpu⟩) := by
  intro cpu
  have hres : Resumed cpu
      (switchMem k.cpu (L.stackTop i) (load32 k.cpu.mem (L.stackTop j)) returnTo)
      (load32 k.cpu.mem (L.stackTop j)) := switchStacks_resumed (by omega)
  have hwait : ¬k.tasking.Runs j := fun hr => hij (hr.unique hi)
  have hcj : j < k.tasking.sched.taskCount := hcount ▸ hj.created ht
  have hown : ∀ l a, l ≠ i → L.Owns l a → cpu.mem a = k.cpu.mem a := by
    intro l a hl ha
    rw [hres.written]
    exact switch_owned (h.running i hi) hroom hl ha
  have hownj : ∀ a, L.Owns j a →
      switchMem k.cpu (L.stackTop i) (load32 k.cpu.mem (L.stackTop j)) returnTo a = k.cpu.mem a :=
    fun a ha => switch_owned (h.running i hi) hroom hij ha
  obtain ⟨hthread, hstack⟩ := hres.thread (h.parked j hcj hwait) hownj
  obtain ⟨hpark, hsusp⟩ := switch_parks (load32 k.cpu.mem (L.stackTop j)) returnTo
    (h.running i hi) hroom
  rw [← hres.written] at hpark hsusp
  have hstop : ¬t'.Runs i := fun hr => hij (hj.unique hr)
  have hci := hi.created h.sched
  -- The tasks other than these two wait before and after.
  have hothers : ∀ l : Fin 64, l ≠ i → l ≠ j → l < t'.sched.taskCount →
      Kernel.thread L ⟨t', cpu⟩ l = k.thread L l ∧ L.Parked cpu.mem l := by
    intro l hli hlj hl
    exact h.waits ⟨t', cpu⟩ (hcount ▸ hl) (fun hr => hli (hr.unique hi))
      (fun a ha => hown l a hli ha) hl (fun hr => hlj (hr.unique hj))
  refine ⟨⟨ht, ?_, ?_⟩, ?_⟩
  · intro l hl hr
    by_cases hli : l = i
    · subst hli
      exact hpark
    · exact (hothers l hli (fun hlj => hr (hlj ▸ hj)) hl).2
  · intro l hr
    obtain rfl := hr.unique hj
    exact hstack
  · intro l
    rw [if_neg (by omega)]
    by_cases hli : l = i
    · subst hli
      rw [if_pos ⟨hi, hstop⟩, Kernel.thread_running h.sched hi,
        Kernel.thread_parked (hcount.symm ▸ hci) hstop]
      exact hsusp
    · rw [if_neg fun hr => hli (hr.1.unique hi)]
      by_cases hlj : l = j
      · subst hlj
        rw [Kernel.thread_parked hcj hwait, ← hthread]
        exact Kernel.thread_running ht hj
      · by_cases hl : l < t'.sched.taskCount
        · exact (hothers l hli hlj hl).1
        · rw [Kernel.thread_unborn (k := k) (by omega)]
          exact Kernel.thread_unborn (k := ⟨t', cpu⟩) (Nat.le_of_not_lt hl)

theorem slot_eq {n : Int} (hn : n = (i.val : Int)) : taskSlot n.toNat = i := by
  apply Fin.ext
  rw [hn, Int.toNat_natCast, taskSlot]
  exact Nat.mod_eq_of_lt i.isLt

/-- A task is created, or the table is full. -/
theorem KernelInv.create (h : KernelInv L k) (entry arg : UInt32) (mode : TaskMode)
    (returnTo dummySp : UInt32) :
    let t' := { k.tasking with sched := (k.tasking.sched.schedulerCreateTask entry arg mode).2 }
    let cpu := k.after L (.create entry arg mode) t' returnTo dummySp
    KernelInv L ⟨t', cpu⟩ ∧
      ThreadsAfter L returnTo k.tasking t' (k.thread L) (Kernel.thread L ⟨t', cpu⟩) := by
  intro t' cpu
  have ht : SchedInv t' := h.sched.create entry arg mode
  rcases create_cases k.tasking.sched entry arg mode with he | ⟨hfree, s', he, hcount, hcur, -⟩
  · have hcount : t'.sched.taskCount = k.tasking.sched.taskCount := congrArg Scheduler.taskCount he
    have hcpu : cpu = k.cpu := if_pos hcount
    rw [hcpu]
    refine h.still ht hcount (fun i => ?_) returnTo
    simp only [Tasking.Runs, t', he]
  have hcount' : t'.sched.taskCount = k.tasking.sched.taskCount + 1 := by
    simp only [t', he, hcount]
  have hruns : ∀ i, t'.Runs i ↔ k.tasking.Runs i := by
    intro i
    simp only [Tasking.Runs, t', he, hcur]
  have hmax : k.tasking.sched.taskCount < 64 := hfree
  have hslot : (taskSlot k.tasking.sched.taskCount).val = k.tasking.sched.taskCount :=
    Nat.mod_eq_of_lt hmax
  have hcpu : cpu = { k.cpu with
      mem := L.prepare k.cpu.mem (taskSlot k.tasking.sched.taskCount) } := if_neg (by omega)
  generalize taskSlot k.tasking.sched.taskCount = new at hslot hcpu
  obtain ⟨hpark, hthread, hown⟩ := prepare_parks L k.cpu.mem new
  have hnew : ¬t'.Runs new := fun hr => by
    have := ((hruns new).mp hr).created h.sched
    omega
  have hmem : cpu.mem = L.prepare k.cpu.mem new := by rw [hcpu]
  have hregs : cpu.regs = k.cpu.regs := by rw [hcpu]
  have hown' : ∀ l : Fin 64, l < k.tasking.sched.taskCount →
      ∀ a, L.Owns l a → cpu.mem a = k.cpu.mem a := by
    intro l hl a ha
    rw [hmem]
    refine hown l a (fun he => ?_) ha
    rw [he] at hl
    omega
  refine ⟨⟨ht, ?_, ?_⟩, ?_⟩
  · intro l hl hr
    by_cases hln : l = new
    · subst hln
      rw [hmem]
      exact hpark
    · have hold : l.val < k.tasking.sched.taskCount := by
        have hne := fun hv => hln (Fin.ext hv)
        change l.val < t'.sched.taskCount at hl
        omega
      exact (parkedThread_congr (h.parked l hold (fun hr' => hr ((hruns l).mpr hr')))
        (hown' l hold)).2
  · intro l hr
    rw [Layout.InStack, hregs]
    exact h.running l ((hruns l).mp hr)
  · intro l
    split
    · next hl =>
      obtain rfl : l = new := Fin.ext (hl.1.symm.trans hslot.symm)
      rw [← hthread, ← hmem]
      exact Kernel.thread_parked (k := ⟨t', cpu⟩) hl.2 hnew
    · next hl =>
      rw [if_neg fun hr => hr.2 ((hruns l).mpr hr.1)]
      by_cases hold : l.val < k.tasking.sched.taskCount
      · by_cases hr : k.tasking.Runs l
        · rw [Kernel.thread_running h.sched hr]
          refine (Kernel.thread_running (k := ⟨t', cpu⟩) ht ((hruns l).mpr hr)).trans ?_
          have heip : cpu.eip = k.cpu.eip := by rw [hcpu]
          have hstack : L.stackFrom l cpu.mem (k.cpu.regs .esp) =
              L.stackFrom l k.cpu.mem (k.cpu.regs .esp) := stackFrom_congr fun a ha ha' =>
            hown' l hold a (.inr ⟨(h.running l hr).1.trans ha, ha'⟩)
          simp only [Layout.runningThread, hregs, heip, hstack]
        · have hold' : l.val < t'.sched.taskCount := by omega
          exact (h.waits ⟨t', cpu⟩ hold hr (hown' l hold) hold'
            (fun hr' => hr ((hruns l).mp hr'))).1
      · have hold' : t'.sched.taskCount ≤ l.val := by omega
        rw [Kernel.thread_unborn (k := k) (Nat.le_of_not_lt hold)]
        exact Kernel.thread_unborn (k := ⟨t', cpu⟩) hold'

theorem pickNext_count (s : Scheduler) : s.schedulerPickNext.taskCount = s.taskCount := by
  rcases pickNext_cases s with ⟨he, -⟩ | ⟨idx, -, -, he⟩
  · rw [he]
  · rw [he]
    exact (demote_fields s).1

theorem yield_count (s : Scheduler) : s.schedulerYield.taskCount = s.taskCount := by
  rw [Scheduler.schedulerYield]
  split
  · rfl
  · exact pickNext_count s

theorem maybePreempt_count (s : Scheduler) : s.schedulerMaybePreempt.taskCount = s.taskCount := by
  rw [Scheduler.schedulerMaybePreempt]
  split
  · exact yield_count _
  · rfl

theorem onTick_fields (s : Scheduler) : s.schedulerOnTick.taskCount = s.taskCount ∧
    s.schedulerOnTick.currentIndex = s.currentIndex := by
  rw [Scheduler.schedulerOnTick]
  split <;> exact ⟨rfl, rfl⟩

/-- The boot code starts the first task. -/
theorem KernelInv.start (h : KernelInv L k) (ht : SchedInv t') (hs : t'.started = true)
    (hcount : t'.sched.taskCount = k.tasking.sched.taskCount) {returnTo dummySp : UInt32}
    (hroom : L.Room k .start dummySp) :
    KernelInv L ⟨t', k.after L .start t' returnTo dummySp⟩ ∧
      ThreadsAfter L returnTo k.tasking t' (k.thread L)
        (Kernel.thread L ⟨t', k.after L .start t' returnTo dummySp⟩) := by
  obtain ⟨hboot, hroom, hdummy, hclear⟩ := hroom
  obtain ⟨j, hj⟩ := ht.runs hs
  have hwait : ∀ l, ¬k.tasking.Runs l := fun l hr => by
    have := hr.1
    rw [hboot] at this
    cases this
  have hcj : j < k.tasking.sched.taskCount := hcount ▸ hj.created ht
  have hres : Resumed (k.after L .start t' returnTo dummySp)
      (switchMem k.cpu dummySp (load32 k.cpu.mem (L.stackTop j)) returnTo)
      (load32 k.cpu.mem (L.stackTop j)) := by
    simp only [Kernel.after, slot_eq hj.2]
    exact switchStacks_resumed hroom
  generalize k.after L .start t' returnTo dummySp = cpu at hres
  have hown : ∀ l a, L.Owns l a →
      switchMem k.cpu dummySp (load32 k.cpu.mem (L.stackTop j)) returnTo a = k.cpu.mem a := by
    intro l a ha
    obtain ⟨hpushed, hcell⟩ := hclear l a ha
    exact switchMem_frame hroom hdummy a hpushed hcell
  obtain ⟨hthread, hstack⟩ := hres.thread (h.parked j hcj (hwait j)) (hown j)
  rw [← hres.written] at hown
  refine ⟨⟨ht, ?_, ?_⟩, ?_⟩
  · intro l hl hr
    exact (parkedThread_congr (h.parked l (hcount ▸ hl) (hwait l)) (hown l)).2
  · intro l hr
    obtain rfl := hr.unique hj
    exact hstack
  · intro l
    rw [if_neg (by omega), if_neg fun hr => hwait l hr.1]
    by_cases hlj : l = j
    · subst hlj
      rw [Kernel.thread_parked hcj (hwait l), ← hthread]
      exact Kernel.thread_running ht hj
    · by_cases hl : l < k.tasking.sched.taskCount
      · exact (h.waits ⟨t', cpu⟩ hl (hwait l) (hown l) (hcount.symm ▸ hl)
          (fun hr => hlj (hr.unique hj))).1
      · rw [Kernel.thread_unborn (k := k) (Nat.le_of_not_lt hl)]
        exact Kernel.thread_unborn (k := ⟨t', cpu⟩) (hcount.symm ▸ Nat.le_of_not_lt hl)

/-- A call that may yield: the running task goes on, or another one takes over. -/
theorem KernelInv.yield (h : KernelInv L k) (ht : SchedInv t') (hs : t'.started = true)
    (hs' : k.tasking.started = true) (hcount : t'.sched.taskCount = k.tasking.sched.taskCount)
    (hroom : ∀ i, k.tasking.Runs i → (L.stackBase i).toNat + 28 ≤ (k.cpu.regs .esp).toNat)
    (returnTo : UInt32) :
    let cpu := L.yieldTo k.cpu k.tasking.sched.currentIndex t'.sched returnTo
    KernelInv L ⟨t', cpu⟩ ∧
      ThreadsAfter L returnTo k.tasking t' (k.thread L) (Kernel.thread L ⟨t', cpu⟩) := by
  intro cpu
  obtain ⟨i, hi⟩ := h.sched.runs hs'
  obtain ⟨j, hj⟩ := ht.runs hs
  by_cases hij : j = i
  · subst hij
    have hcpu : cpu = k.cpu := if_pos (.inr (hj.2.trans hi.2.symm))
    rw [hcpu]
    exact h.still ht hcount
      (fun l => ⟨fun hr => hr.unique hj ▸ hi, fun hr => hr.unique hi ▸ hj⟩) returnTo
  · have hcpu : cpu =
        switchStacks k.cpu (L.stackTop i) (load32 k.cpu.mem (L.stackTop j)) returnTo := by
      have hne : (j.val : Int) ≠ i.val := fun he => hij (Fin.ext (Int.natCast_inj.mp he))
      simp only [cpu, Layout.yieldTo, slot_eq hi.2, slot_eq hj.2]
      rw [if_neg]
      rw [hi.2, hj.2]
      omega
    rw [hcpu]
    exact h.switched ht hcount hi hj hij (hroom i hi) returnTo

/-- Every call of the scheduler parks and takes up as it should. -/
theorem KernelInv.call {c : SchedCall} (h : KernelInv L k) (hcall : SchedStep k.tasking c t')
    (returnTo : UInt32) {dummySp : UInt32} (hroom : L.Room k c dummySp) :
    KernelInv L ⟨t', k.after L c t' returnTo dummySp⟩ ∧
      ThreadsAfter L returnTo k.tasking t' (k.thread L)
        (Kernel.thread L ⟨t', k.after L c t' returnTo dummySp⟩) := by
  have ht := h.sched.step hcall
  cases hcall with
  | create entry arg mode => exact h.create entry arg mode returnTo dummySp
  | start hstart =>
    rw [Scheduler.schedulerStart] at hstart
    split at hstart
    · cases hstart
    · cases hstart
      exact h.start ht rfl (pickNext_count _) hroom
  | yield hs => exact h.yield ht hs hs (yield_count _) hroom returnTo
  | onTick =>
    obtain ⟨hcount, hcur⟩ := onTick_fields k.tasking.sched
    exact h.still ht hcount (fun i => by simp only [Tasking.Runs, hcur]) returnTo
  | maybePreempt hs => exact h.yield ht hs hs (maybePreempt_count _) hroom returnTo
  | taskReturn hs => exact h.still ht rfl (fun i => Iff.rfl) returnTo

theorem KernelInv.step (h : KernelInv L k) (hstep : KernelStep L k x k') :
    KernelInv L k' ∧ ThreadStep L (k.threads L) x (k'.threads L) := by
  cases hstep with
  | boot hboot cpu hkeep =>
    have hwait : ∀ l, ¬k.tasking.Runs l := fun l hr => by
      have := hr.1
      rw [hboot] at this
      cases this
    have hthreads : Kernel.thread L ⟨k.tasking, cpu⟩ = k.thread L := by
      funext l
      by_cases hl : l < k.tasking.sched.taskCount
      · exact (h.waits ⟨k.tasking, cpu⟩ hl (hwait l) (hkeep l) hl (hwait l)).1
      · rw [Kernel.thread_unborn (k := k) (Nat.le_of_not_lt hl)]
        exact Kernel.thread_unborn (k := ⟨k.tasking, cpu⟩) (Nat.le_of_not_lt hl)
    refine ⟨⟨h.sched, fun l hl hr => ?_, fun l hr => absurd hr (hwait l)⟩, ?_⟩
    · exact (parkedThread_congr (h.parked l hl hr) (hkeep l)).2
    · simp only [Kernel.threads, hthreads]
      exact .boot hboot
  | @work i hi cpu hstack hkeep =>
    have hothers : ∀ l : Fin 64, l ≠ i → l < k.tasking.sched.taskCount →
        Kernel.thread L ⟨k.tasking, cpu⟩ l = k.thread L l ∧ L.Parked cpu.mem l := by
      intro l hli hl
      have hwait : ¬k.tasking.Runs l := fun hr => hli (hr.unique hi)
      exact h.waits ⟨k.tasking, cpu⟩ hl hwait (fun a ha => hkeep l a hli ha) hl hwait
    have hthreads : Kernel.thread L ⟨k.tasking, cpu⟩ =
        Function.update (k.thread L) i (L.runningThread cpu i) := by
      funext l
      by_cases hli : l = i
      · subst hli
        rw [Function.update_self]
        exact Kernel.thread_running h.sched hi
      · rw [Function.update_of_ne hli]
        by_cases hl : l < k.tasking.sched.taskCount
        · exact (hothers l hli hl).1
        · rw [Kernel.thread_unborn (k := k) (Nat.le_of_not_lt hl)]
          exact Kernel.thread_unborn (k := ⟨k.tasking, cpu⟩) (Nat.le_of_not_lt hl)
    refine ⟨⟨h.sched, fun l hl hr => ?_, fun l hr => ?_⟩, ?_⟩
    · exact (hothers l (fun hli => hr (hli ▸ hi)) hl).2
    · obtain rfl := hr.unique hi
      exact hstack
    · simp only [Kernel.threads, hthreads]
      exact ThreadStep.work (s := k.threads L) hi (L.runningThread cpu i)
  | @call c t' hcall returnTo dummySp hroom =>
    obtain ⟨hnext, hthreads⟩ := h.call hcall returnTo hroom
    exact ⟨hnext, .call hcall returnTo hthreads⟩

/-- No task goes away. -/
theorem SchedStep.count_le {t t' : Tasking} {c : SchedCall} (h : SchedStep t c t') :
    t.sched.taskCount ≤ t'.sched.taskCount := by
  cases h with
  | create entry arg mode =>
    rcases create_cases t.sched entry arg mode with he | ⟨-, s', he, hcount, -, -⟩
    · exact (congrArg Scheduler.taskCount he).ge
    · rw [he, hcount]
      exact Nat.le_succ _
  | start hstart =>
    rw [Scheduler.schedulerStart] at hstart
    split at hstart
    · cases hstart
    · cases hstart
      exact (pickNext_count _).ge
  | yield _ => exact (yield_count _).ge
  | onTick => exact (onTick_fields _).1.ge
  | maybePreempt _ => exact (maybePreempt_count _).ge
  | taskReturn _ => exact le_refl _

/-- A task that does not run keeps its thread. -/
theorem ThreadStep.waiting {s s' : Threads} (h : ThreadStep L s x s')
    (hi : i < s.tasking.sched.taskCount) (hwait : ¬s.tasking.Runs i) :
    s'.threads i = s.threads i ∧ i < s'.tasking.sched.taskCount := by
  cases h with
  | boot _ => exact ⟨rfl, hi⟩
  | @work j hj th =>
    have hij : i ≠ j := fun he => hwait (he ▸ hj)
    exact ⟨Function.update_of_ne hij _ _, hi⟩
  | call hcall returnTo hth =>
    have hafter := hth i
    rw [if_neg (by omega), if_neg fun hr => hwait hr.1] at hafter
    exact ⟨hafter, hi.trans_le hcall.count_le⟩

theorem ThreadStep.waiting_run {s s' : Threads} {xs : List KernelAct}
    (h : Run (fun s x s' => ThreadStep L s x s' ∧ ¬s.tasking.Runs i) s xs s')
    (hi : i < s.tasking.sched.taskCount) : s'.threads i = s.threads i := by
  induction h with
  | nil s => rfl
  | cons head tail ih =>
    obtain ⟨hkept, hcreated⟩ := head.1.waiting hi head.2
    rw [ih hcreated, hkept]

theorem SchedStep.count_le_succ {t t' : Tasking} {c : SchedCall} (h : SchedStep t c t') :
    t'.sched.taskCount ≤ t.sched.taskCount + 1 := by
  cases h with
  | create entry arg mode =>
    rcases create_cases t.sched entry arg mode with he | ⟨-, s', he, hcount, -, -⟩
    · exact (congrArg Scheduler.taskCount he).le.trans (Nat.le_succ _)
    · rw [he, hcount]
  | start hstart =>
    rw [Scheduler.schedulerStart] at hstart
    split at hstart
    · cases hstart
    · cases hstart
      exact (pickNext_count _).le.trans (Nat.le_succ _)
  | yield _ => exact (yield_count _).le.trans (Nat.le_succ _)
  | onTick => exact (onTick_fields _).1.le.trans (Nat.le_succ _)
  | maybePreempt _ => exact (maybePreempt_count _).le.trans (Nat.le_succ _)
  | taskReturn _ => exact Nat.le_succ _

/-- The calls in which the running task may stop. -/
theorem SchedStep.stops {t t' : Tasking} {c : SchedCall} (h : SchedStep t c t') (hi : t.Runs i)
    (hstop : ¬t'.Runs i) : c = .yield ∨ c = .maybePreempt ∨ c = .start := by
  cases h with
  | create entry arg mode =>
    refine absurd ⟨hi.1, ?_⟩ hstop
    rcases create_cases t.sched entry arg mode with he | ⟨-, s', he, -, hcur, -⟩
    · exact (congrArg Scheduler.currentIndex he).trans hi.2
    · dsimp only
      rw [he, hcur, hi.2]
  | start _ => exact .inr (.inr rfl)
  | yield _ => exact .inl rfl
  | onTick => exact absurd ⟨hi.1, (onTick_fields _).2.trans hi.2⟩ hstop
  | maybePreempt _ => exact .inr (.inl rfl)
  | taskReturn _ => exact absurd hi hstop

/-- The calls in which the running task stops have the room for the switch. -/
theorem Layout.Room.stops {c : SchedCall} {dummySp : UInt32} (hroom : L.Room k c dummySp)
    (hcall : SchedStep k.tasking c t') (hi : k.tasking.Runs i) (hstop : ¬t'.Runs i) :
    (L.stackBase i).toNat + 28 ≤ (k.cpu.regs .esp).toNat := by
  rcases hcall.stops hi hstop with rfl | rfl | rfl
  · exact hroom i hi
  · exact hroom i hi
  · have hboot := hroom.1.symm.trans hi.1
    cases hboot

/-- Along a run the machine is one of threads, from any state in order. -/
theorem KernelInv.run {P : Tasking → Prop} {xs : List KernelAct} (h : KernelInv L k)
    (hrun : Run (fun k x k' => KernelStep L k x k' ∧ P k.tasking) k xs k') : KernelInv L k' ∧
      Run (fun s x s' => ThreadStep L s x s' ∧ P s.tasking) (k.threads L) xs (k'.threads L) := by
  induction hrun with
  | nil k => exact ⟨h, .nil _⟩
  | cons head tail ih =>
    obtain ⟨hnext, hstep⟩ := h.step head.1
    obtain ⟨hlast, hrest⟩ := ih hnext
    exact ⟨hlast, .cons ⟨hstep, head.2⟩ hrest⟩

end Steps

/-- `scheduler_init` was called, whatever the processor holds. -/
def Kernel.booted (cpu : Machine) : Kernel := ⟨freshTasking, cpu⟩

theorem kernelInv_booted (L : Layout) (cpu : Machine) : KernelInv L (.booted cpu) where
  sched := schedInv_fresh
  parked i hi := absurd hi (Nat.not_lt_zero _)
  running i hi := by cases hi.1

theorem reachable_inv {L : Layout} {cpu : Machine} {xs : List KernelAct} {k : Kernel}
    (hrun : Run (KernelStep L) (.booted cpu) xs k) : KernelInv L k :=
  hrun.invariant (P := KernelInv L) (fun _ _ _ h hstep => (h.step hstep).1)
    (kernelInv_booted L cpu)

/-- The machine, with its saved stack pointers and the stacks in one memory, is a machine of tasks
that have their registers and stacks for themselves. -/
theorem kernel_refines_threads (L : Layout) (cpu : Machine) (xs : List KernelAct) (k : Kernel)
    (hrun : Run (KernelStep L) (.booted cpu) xs k) :
    Run (ThreadStep L) ((Kernel.booted cpu).threads L) xs (k.threads L) := by
  have hall : Run (fun k x k' => KernelStep L k x k' ∧ True) (.booted cpu) xs k :=
    hrun.mono fun _ _ _ h => ⟨h, trivial⟩
  have hthreads := ((kernelInv_booted L cpu).run (P := fun _ => True) hall).2
  exact hthreads.mono fun _ _ _ h => h.1

/-- A task that gave up the processor, by its own call or at a preemption point, goes on behind
that call when it gets the processor back, whatever the others did meanwhile: with the registers
that C code keeps over a call, and with its stack as it was. -/
theorem switch_resumes (L : Layout) (cpu : Machine) (xs ys : List KernelAct) (k k' : Kernel)
    (i : Fin 64) (c : SchedCall) (t' : Tasking) (returnTo dummySp : UInt32)
    (hrun : Run (KernelStep L) (.booted cpu) xs k) (hi : k.tasking.Runs i)
    (hcall : SchedStep k.tasking c t') (hroom : L.Room k c dummySp) (hstop : ¬t'.Runs i)
    (hrest : Run (fun k x k' => KernelStep L k x k' ∧ ¬k.tasking.Runs i)
      ⟨t', k.after L c t' returnTo dummySp⟩ ys k')
    (hback : k'.tasking.Runs i) :
    k'.cpu.eip = returnTo ∧ k'.cpu.regs .esp = k.cpu.regs .esp - 8 ∧
    (∀ r ∈ [Reg.ebx, .esi, .edi, .ebp], k'.cpu.regs r = k.cpu.regs r) ∧
    ∀ a : UInt32, (k.cpu.regs .esp).toNat ≤ a.toNat → a.toNat < (L.stackEnd i).toNat →
      k'.cpu.mem a = k.cpu.mem a := by
  have hinv := reachable_inv hrun
  have hlow := hroom.stops hcall hi hstop
  obtain ⟨hnext, hafter⟩ := hinv.call hcall returnTo hroom
  obtain ⟨hlast, hthreads⟩ := hnext.run (P := fun t => ¬t.Runs i) hrest
  have hci := hi.created hinv.sched
  have hkept := ThreadStep.waiting_run hthreads (hci.trans_le hcall.count_le)
  -- The thread that was suspended is the one that runs at the end.
  have hsusp := hafter i
  rw [if_neg (by omega), if_pos ⟨hi, hstop⟩] at hsusp
  change k'.thread L i = _ at hkept
  change Suspended returnTo (k.thread L i) ((Kernel.threads L _).threads i) at hsusp
  rw [← hkept, Kernel.thread_running hinv.sched hi, Kernel.thread_running hlast.sched hback]
    at hsusp
  obtain ⟨hregs, hstack⟩ := hsusp
  have hesp : k'.cpu.regs .esp = k.cpu.regs .esp - 8 := congrArg Thread.esp hregs
  have h8 : (k.cpu.regs .esp - 8).toNat = (k.cpu.regs .esp).toNat - 8 := sub_toNat 8 (by omega)
  refine ⟨congrArg Thread.eip hregs, hesp, ?_, ?_⟩
  · intro r hr
    simp only [List.mem_cons, List.not_mem_nil, or_false] at hr
    rcases hr with rfl | rfl | rfl | rfl
    · exact congrArg Thread.ebx hregs
    · exact congrArg Thread.esi hregs
    · exact congrArg Thread.edi hregs
    · exact congrArg Thread.ebp hregs
  · intro a ha hend
    have hbyte := hstack a ha
    simp only [Layout.runningThread, Layout.stackFrom, hesp, h8] at hbyte
    rwa [if_pos ⟨by omega, hend⟩, if_pos ⟨ha, hend⟩] at hbyte

section TwoTasks

def lowLayout : Layout where
  tasks := 4096
  taskStacks := 8192
  taskBootstrap := 1048576
  tasks_fit := by decide
  stacks_fit := by decide
  apart := by decide

def Kernel.next (k : Kernel) (c : SchedCall) (t' : Tasking) : Kernel :=
  ⟨t', k.after lowLayout c t' 77 700000⟩

def twoCreated : Kernel :=
  let k := Kernel.booted ⟨fun _ => 654336, 0, fun _ => 0⟩
  let t := { k.tasking with sched := (k.tasking.sched.schedulerCreateTask 1 0 .kernel).2 }
  let k := k.next (.create 1 0 .kernel) t
  k.next (.create 2 0 .kernel)
    { t with sched := (t.sched.schedulerCreateTask 2 0 .kernel).2 }

/-- The first of two tasks runs. -/
def twoStarted : Kernel :=
  twoCreated.next .start
    { twoCreated.tasking with sched := twoCreated.tasking.sched.schedulerPickNext, started := true }

def Kernel.yielded (k : Kernel) : Kernel :=
  k.next .yield { k.tasking with sched := k.tasking.sched.schedulerYield }

theorem twoCreated_clear : lowLayout.Room twoCreated .start 700000 := by
  refine ⟨rfl, by decide, by decide, fun i a ha => ?_⟩
  have hesp : (twoCreated.cpu.regs .esp).toNat = 654336 := rfl
  have hdummy : (700000 : UInt32).toNat = 700000 := rfl
  have htasks : lowLayout.tasks.toNat = 4096 := rfl
  have hstacks : lowLayout.taskStacks.toNat = 8192 := rfl
  simp only [Layout.Owns, Layout.stackTop_toNat, Layout.stackBase_toNat, Layout.stackEnd_toNat]
    at ha
  omega

theorem twoStarted_run : Run (KernelStep lowLayout) (.booted ⟨fun _ => 654336, 0, fun _ => 0⟩)
    [.call (.create 1 0 .kernel), .call (.create 2 0 .kernel), .call .start] twoStarted :=
  .cons (.call (.create _ 1 0 .kernel) 77 700000 trivial) <|
    .cons (.call (.create _ 2 0 .kernel) 77 700000 trivial) <|
      .cons (.call (.start rfl) 77 700000 twoCreated_clear) <| .nil _

theorem kernel_refines_threads_two :
    Run (ThreadStep lowLayout)
      ((Kernel.booted ⟨fun _ => 654336, 0, fun _ => 0⟩).threads lowLayout)
      [.call (.create 1 0 .kernel), .call (.create 2 0 .kernel), .call .start]
      (twoStarted.threads lowLayout) :=
  kernel_refines_threads _ _ _ _ twoStarted_run

/-- The first task yields, the second one yields back. -/
theorem switch_resumes_two :
    twoStarted.yielded.yielded.cpu.eip = 77 ∧
    twoStarted.yielded.yielded.cpu.regs .esp = twoStarted.cpu.regs .esp - 8 := by
  have hroom : ∀ k : Kernel, (k.cpu.regs .esp = 12288 ∧ k.tasking.sched.currentIndex = 0 ∨
      k.cpu.regs .esp = 16384 ∧ k.tasking.sched.currentIndex = 1) →
      lowLayout.Room k .yield 700000 := by
    intro k hk i hi
    have hstacks : lowLayout.taskStacks.toNat = 8192 := rfl
    rw [Layout.stackBase_toNat]
    rcases hk with ⟨hesp, hcur⟩ | ⟨hesp, hcur⟩
    · have hv := hcur.symm.trans hi.2
      rw [hesp, show (12288 : UInt32).toNat = 12288 from rfl]
      omega
    · have hv := hcur.symm.trans hi.2
      rw [hesp, show (16384 : UInt32).toNat = 16384 from rfl]
      omega
  have hfirst := hroom twoStarted (.inl ⟨by decide +kernel, by decide +kernel⟩)
  have hsecond := hroom twoStarted.yielded (.inr ⟨by decide +kernel, by decide +kernel⟩)
  have hstop : ¬twoStarted.yielded.tasking.Runs 0 := by decide +kernel
  obtain ⟨heip, hesp, -, -⟩ := switch_resumes lowLayout _ _ [.call .yield] twoStarted
    twoStarted.yielded.yielded 0 .yield _ 77 700000 twoStarted_run (by decide +kernel) (.yield rfl)
    hfirst hstop (.cons ⟨.call (.yield rfl) 77 700000 hsecond, hstop⟩ (.nil _)) (by decide +kernel)
  exact ⟨heip, hesp⟩

end TwoTasks

end VertexOS
