import VertexOS.Task.Interrupted

namespace VertexOS
open Library.Assembly Library.Interruptions Library.Memory Library.Transitions

/-! The kernel with interrupts in the middle of `context_switch`, which does not mask them. -/

/-- The interrupt handlers: what belongs to a task they leave alone, and a fresh stack has room for
them. -/
structure Handlers (L : Layout) extends Scratch where
  apart : ∀ i a, L.Owns i a → ¬own a
  shallow : depth + 20 ≤ taskStackSize

variable {L : Layout}

/-- The arguments with which a call of the scheduler calls `context_switch`. -/
def Layout.switchArgs (L : Layout) (k : Kernel) (c : SchedCall) (t' : Tasking)
    (dummySp : UInt32) : Option (UInt32 × UInt32) :=
  let newSp := load32 k.cpu.mem (L.stackTop (taskSlot t'.sched.currentIndex.toNat))
  match c with
  | .start => some (dummySp, newSp)
  | .yield | .maybePreempt =>
    if t'.sched.currentIndex < 0 ∨ t'.sched.currentIndex = k.tasking.sched.currentIndex then none
    else some (L.stackTop (taskSlot k.tasking.sched.currentIndex.toNat), newSp)
  | .create .. | .onTick | .taskReturn => none

/-- The processor after a call of the scheduler, with handlers in its `context_switch`. -/
def Handlers.After (H : Handlers L) (k : Kernel) (c : SchedCall) (t' : Tasking)
    (returnTo dummySp : UInt32) (cpu : Machine) : Prop :=
  match L.switchArgs k c t' dummySp with
  | some (oldSp, newSp) => Interrupted H.toScratch (callSwitch oldSp newSp returnTo) k.cpu cpu
  | none => cpu = k.after L c t' returnTo dummySp

/-- What a call needs of the stack it is made on: room for the frame of `context_switch`, and for
the handlers below it. -/
def Handlers.Room (H : Handlers L) (k : Kernel) (c : SchedCall) (dummySp : UInt32) : Prop :=
  match c with
  | .yield | .maybePreempt =>
    ∀ i, k.tasking.Runs i → (L.stackBase i).toNat + (28 + H.depth) ≤ (k.cpu.regs .esp).toNat
  | .start =>
    k.tasking.started = false ∧ 28 + H.depth ≤ (k.cpu.regs .esp).toNat ∧
    dummySp.toNat + 4 ≤ 4294967296 ∧
    (∀ a, H.own a → a.toNat < (k.cpu.regs .esp).toNat - 12 ∨ (k.cpu.regs .esp).toNat ≤ a.toNat) ∧
    ∀ i a, L.Owns i a →
      (a.toNat < (k.cpu.regs .esp).toNat - 28 - H.depth ∨ (k.cpu.regs .esp).toNat ≤ a.toNat) ∧
      (a.toNat < dummySp.toNat ∨ dummySp.toNat + 4 ≤ a.toNat)
  | .create .. | .onTick | .taskReturn => True

/-- What the machine does with interrupts: timer interrupts that come while stacks are changed
count behind the call. -/
inductive InterruptedStep (H : Handlers L) : Kernel → List KernelAct → Kernel → Prop
  | work {k k' : Kernel} (h : KernelStep L k .work k') : InterruptedStep H k [.work] k'
  | call {k : Kernel} {c : SchedCall} {t' t'' : Tasking} {cpu : Machine}
      (h : SchedStep k.tasking c t') (returnTo dummySp : UInt32) (hroom : H.Room k c dummySp)
      (hcpu : H.After k c t' returnTo dummySp cpu) (ticks : Nat)
      (hticks : Run SchedStep t' (List.replicate ticks .onTick) t'') :
      InterruptedStep H k (.call c :: List.replicate ticks (.call .onTick)) ⟨t'', cpu⟩

/-- The bytes that the thread of a task is read off. -/
def Kernel.Live (L : Layout) (k : Kernel) (i : Fin 64) (a : UInt32) : Prop :=
  if k.tasking.Runs i then
    (k.cpu.regs .esp).toNat ≤ a.toNat ∧ a.toNat < (L.stackEnd i).toNat
  else
    InWord (L.stackTop i) a ∨
      (load32 k.cpu.mem (L.stackTop i)).toNat ≤ a.toNat ∧ a.toNat < (L.stackEnd i).toNat

section Disturbances

variable {H : Handlers L} {k k' : Kernel} {t' : Tasking} {cpu m : Machine} {c : SchedCall}
  {D : UInt32 → Prop} {i j : Fin 64} {a returnTo dummySp : UInt32}

theorem KernelInv.live_owned (h : KernelInv L k) (hi : i < k.tasking.sched.taskCount)
    (ha : k.Live L i a) : L.Owns i a := by
  unfold Kernel.Live at ha
  split at ha
  · next hr => exact .inr ⟨(h.running i hr).1.trans ha.1, ha.2⟩
  · next hr => exact ha.imp id fun hs => ⟨(h.parked i hi hr).1.trans hs.1, hs.2⟩

/-- A change of dead bytes is no change of any thread. -/
theorem KernelInv.disturb (h : KernelInv L k) (hagree : Agree D k.cpu cpu)
    (hlive : ∀ i : Fin 64, i < k.tasking.sched.taskCount → ∀ a, k.Live L i a → ¬D a) :
    KernelInv L ⟨k.tasking, cpu⟩ ∧ Kernel.thread L ⟨k.tasking, cpu⟩ = k.thread L := by
  have hparked : ∀ l : Fin 64, l < k.tasking.sched.taskCount → ¬k.tasking.Runs l →
      L.parkedThread cpu.mem l = L.parkedThread k.cpu.mem l ∧ L.Parked cpu.mem l := by
    intro l hl hr
    have hat : ∀ a, InWord (L.stackTop l) a ∨ (load32 k.cpu.mem (L.stackTop l)).toNat ≤ a.toNat ∧
        a.toNat < (L.stackEnd l).toNat → cpu.mem a = k.cpu.mem a :=
      fun a ha => hagree.mem a (hlive l hl a ((if_neg hr).mpr ha))
    exact parkedThread_live (h.parked l hl hr) (fun a ha ha' => hat a (.inl ⟨ha, ha'⟩))
      fun a ha ha' => hat a (.inr ⟨ha, ha'⟩)
  have hesp : cpu.regs .esp = k.cpu.regs .esp := congrFun hagree.regs _
  refine ⟨⟨h.sched, fun l hl hr => (hparked l hl hr).2, fun l hr => ?_⟩, funext fun l => ?_⟩
  · rw [Layout.InStack, hesp]
    exact h.running l hr
  · by_cases hl : l < k.tasking.sched.taskCount
    · by_cases hr : k.tasking.Runs l
      · have hstack : L.stackFrom l cpu.mem (k.cpu.regs .esp) =
            L.stackFrom l k.cpu.mem (k.cpu.regs .esp) := stackFrom_congr fun a ha ha' =>
          hagree.mem a (hlive l hl a ((if_pos hr).mpr ⟨ha, ha'⟩))
        rw [Kernel.thread_running h.sched hr]
        refine (Kernel.thread_running (k := ⟨k.tasking, cpu⟩) h.sched hr).trans ?_
        simp only [Layout.runningThread, hagree.regs, hagree.eip, hstack]
      · rw [Kernel.thread_parked hl hr, ← (hparked l hl hr).1]
        exact Kernel.thread_parked (k := ⟨k.tasking, cpu⟩) hl hr
    · rw [Kernel.thread_unborn (k := k) (Nat.le_of_not_lt hl)]
      exact Kernel.thread_unborn (k := ⟨k.tasking, cpu⟩) (Nat.le_of_not_lt hl)

/-- On the stack that is taken up, handlers write below what was popped. -/
theorem KernelInv.takenUp (h : KernelInv L k) (hj : k.tasking.Runs j) {newSp : UInt32}
    (hesp : k.cpu.regs .esp = newSp + 20) (hfit : newSp.toNat + 20 ≤ (L.stackEnd j).toNat)
    {depth : Nat} (hdeep : (L.stackBase j).toNat + depth ≤ newSp.toNat)
    (hleft : ∀ i : Fin 64, i < k.tasking.sched.taskCount → ∀ a, k.Live L i a → ¬D a) :
    ∀ i : Fin 64, i < k.tasking.sched.taskCount → ∀ a, k.Live L i a →
      ¬Dead D (newSp.toNat - depth) (newSp.toNat + 20) a := by
  have hend := (L.stackEnd j).toNat_lt
  have h20 : (newSp + 20).toNat = newSp.toNat + 20 := toNat_add_small _ 20 (by omega)
  rintro i hi a ha (hd | ⟨hlo, hhi⟩)
  · exact hleft i hi a ha hd
  · by_cases hij : i = j
    · subst hij
      have hlive := ((if_pos hj).mp ha).1
      rw [hesp] at hlive
      omega
    · exact owns_apart hij (h.live_owned hi ha) (.inr ⟨by omega, by omega⟩)

/-- On the stack that is left, handlers write below the saved registers. -/
theorem KernelInv.leftBehind (h : KernelInv L k') (H : Handlers L) (hstop : ¬k'.tasking.Runs i)
    (hstack : L.InStack m i)
    (hroom : (L.stackBase i).toNat + (28 + H.depth) ≤ (m.regs .esp).toNat)
    (hsaved : load32 k'.cpu.mem (L.stackTop i) = m.regs .esp - 28) :
    ∀ l : Fin 64, l < k'.tasking.sched.taskCount → ∀ a, k'.Live L l a →
      ¬Dead H.own ((m.regs .esp).toNat - 28 - H.depth) ((m.regs .esp).toNat - 28) a := by
  have h28 : (m.regs .esp - 28).toNat = (m.regs .esp).toNat - 28 := sub_toNat 28 (by omega)
  have hend := hstack.2
  rintro l hl a ha (hd | ⟨hlo, hhi⟩)
  · exact H.apart l a (h.live_owned hl ha) hd
  · by_cases hli : l = i
    · subst hli
      rcases (if_neg hstop).mp ha with ⟨hc, hc'⟩ | ⟨hs, -⟩
      · have htasks : L.tasks.toNat + 32 * 64 ≤ L.taskStacks.toNat ∨
          L.taskStacks.toNat + 4096 * 64 ≤ L.tasks.toNat := L.apart
        have htop := L.stackTop_toNat l
        have hbase := L.stackBase_toNat l
        have hstackEnd := L.stackEnd_toNat l
        have hlt := l.isLt
        omega
      · rw [hsaved] at hs
        omega
    · exact owns_apart hli (h.live_owned hl ha) (.inr ⟨by omega, by omega⟩)

theorem after_switch {oldSp newSp : UInt32}
    (hargs : L.switchArgs k c t' dummySp = some (oldSp, newSp)) (returnTo : UInt32) :
    k.after L c t' returnTo dummySp = switchStacks k.cpu oldSp newSp returnTo := by
  cases c with
  | create entry arg mode => cases hargs
  | onTick => cases hargs
  | taskReturn => cases hargs
  | start =>
    cases hargs
    rfl
  | yield =>
    simp only [Layout.switchArgs] at hargs
    split at hargs
    · cases hargs
    · next hne =>
      cases hargs
      exact if_neg hne
  | maybePreempt =>
    simp only [Layout.switchArgs] at hargs
    split at hargs
    · cases hargs
    · next hne =>
      cases hargs
      exact if_neg hne

/-- A call that switches stacks takes up a task that waits, and leaves the stack of the running one
or the boot stack. -/
theorem KernelInv.switchArgs {oldSp newSp : UInt32} (h : KernelInv L k)
    (hcall : SchedStep k.tasking c t') (hroom : H.Room k c dummySp)
    (hargs : L.switchArgs k c t' dummySp = some (oldSp, newSp)) :
    ∃ j, t'.Runs j ∧ ¬k.tasking.Runs j ∧ j < k.tasking.sched.taskCount ∧
      newSp = load32 k.cpu.mem (L.stackTop j) ∧
      ((∃ i, k.tasking.Runs i ∧ ¬t'.Runs i ∧ oldSp = L.stackTop i ∧
        (L.stackBase i).toNat + (28 + H.depth) ≤ (k.cpu.regs .esp).toNat) ∨
      c = .start ∧ oldSp = dummySp) := by
  have ht := h.sched.step hcall
  have hyield : ∀ (hs : k.tasking.started = true) (hs' : t'.started = true)
      (hcount : t'.sched.taskCount = k.tasking.sched.taskCount)
      (hlow : ∀ i, k.tasking.Runs i →
        (L.stackBase i).toNat + (28 + H.depth) ≤ (k.cpu.regs .esp).toNat)
      (hargs : L.switchArgs k .yield t' dummySp = some (oldSp, newSp)),
      ∃ j, t'.Runs j ∧ ¬k.tasking.Runs j ∧ j < k.tasking.sched.taskCount ∧
        newSp = load32 k.cpu.mem (L.stackTop j) ∧
        ∃ i, k.tasking.Runs i ∧ ¬t'.Runs i ∧ oldSp = L.stackTop i ∧
          (L.stackBase i).toNat + (28 + H.depth) ≤ (k.cpu.regs .esp).toNat := by
    intro hs hs' hcount hlow hargs
    obtain ⟨i, hi⟩ := h.sched.runs hs
    obtain ⟨j, hj⟩ := ht.runs hs'
    simp only [Layout.switchArgs] at hargs
    split at hargs
    · cases hargs
    · next hne =>
      have hij : i ≠ j := fun he => hne (.inr (by rw [hj.2, hi.2, he]))
      rw [slot_eq hi.2, slot_eq hj.2] at hargs
      cases hargs
      exact ⟨j, hj, fun hr => hij (hi.unique hr), hcount ▸ hj.created ht, rfl, i, hi,
        fun hr => hij (hr.unique hj), rfl, hlow i hi⟩
  cases hcall with
  | create entry arg mode => cases hargs
  | onTick => cases hargs
  | taskReturn _ => cases hargs
  | yield hs =>
    obtain ⟨j, hj, hwait, hcj, hnew, hleft⟩ := hyield hs hs (yield_count _) hroom hargs
    exact ⟨j, hj, hwait, hcj, hnew, .inl hleft⟩
  | maybePreempt hs =>
    obtain ⟨j, hj, hwait, hcj, hnew, hleft⟩ := hyield hs hs (maybePreempt_count _) hroom hargs
    exact ⟨j, hj, hwait, hcj, hnew, .inl hleft⟩
  | start hstart =>
    rw [Scheduler.schedulerStart] at hstart
    split at hstart
    · cases hstart
    · cases hstart
      obtain ⟨j, hj⟩ := ht.runs rfl
      have hnext : load32 k.cpu.mem (L.stackTop (taskSlot
          k.tasking.sched.schedulerPickNext.currentIndex.toNat)) =
          load32 k.cpu.mem (L.stackTop j) := by rw [slot_eq hj.2]
      cases hargs
      refine ⟨j, hj, fun hr => ?_, pickNext_count _ ▸ hj.created ht, hnext, .inr ⟨rfl, rfl⟩⟩
      have hboot := hroom.1.symm.trans hr.1
      cases hboot

/-- Every task that waits has room for the handlers below its saved registers. -/
def Threads.Deep (L : Layout) (depth : Nat) (s : Threads) : Prop :=
  ∀ i : Fin 64, i < s.tasking.sched.taskCount → ¬s.tasking.Runs i →
    (L.stackBase i).toNat + (depth + 20) ≤ (s.threads i).esp.toNat

/-- What holds between steps. -/
structure InterruptedInv (H : Handlers L) (k : Kernel) : Prop where
  kernel : KernelInv L k
  deep : (k.threads L).Deep L H.depth

theorem Handlers.Room.room (hroom : H.Room k c dummySp) : L.Room k c dummySp := by
  cases c with
  | create entry arg mode => trivial
  | onTick => trivial
  | taskReturn => trivial
  | yield =>
    intro i hi
    have := hroom i hi
    omega
  | maybePreempt =>
    intro i hi
    have := hroom i hi
    omega
  | start =>
    obtain ⟨hboot, hlow, hdummy, -, hclear⟩ := hroom
    refine ⟨hboot, by omega, hdummy, fun i a ha => ?_⟩
    have := hclear i a ha
    omega

theorem Handlers.Room.stops (hroom : H.Room k c dummySp) (hcall : SchedStep k.tasking c t')
    (hi : k.tasking.Runs i) (hstop : ¬t'.Runs i) :
    (L.stackBase i).toNat + (28 + H.depth) ≤ (k.cpu.regs .esp).toNat := by
  rcases hcall.stops hi hstop with rfl | rfl | rfl
  · exact hroom i hi
  · exact hroom i hi
  · have hboot := hroom.1.symm.trans hi.1
    cases hboot

/-- A call leaves the tasks that wait with the room they had, the one that stops and the new one
included. -/
theorem Threads.Deep.call {threads' : Fin 64 → Thread} (h : InterruptedInv H k)
    (hcall : SchedStep k.tasking c t') (hroom : H.Room k c dummySp)
    (hafter : ThreadsAfter L returnTo k.tasking t' (k.thread L) threads') :
    Threads.Deep L H.depth ⟨t', threads'⟩ := by
  intro i hi hwait
  have hbase := L.stackBase_toNat i
  have hend := L.stackEnd_toNat i
  have hshallow : H.depth + 20 ≤ 4096 := H.shallow
  have hsucc := hcall.count_le_succ
  have hi' := hafter i
  change i.val < t'.sched.taskCount at hi
  change (L.stackBase i).toNat + (H.depth + 20) ≤ (threads' i).esp.toNat
  split at hi'
  · -- the new task
    have hesp : (threads' i).esp = L.stackEnd i := by rw [hi', Layout.newThread]
    rw [hesp]
    omega
  · next hold =>
    split at hi'
    · -- the task that stops
      next hruns =>
      have hlow := hroom.stops hcall hruns.1 hruns.2
      have hesp : (threads' i).esp = k.cpu.regs .esp - 8 := by
        rw [hi'.1, Kernel.thread_running h.kernel.sched hruns.1]
        rfl
      have h8 : (k.cpu.regs .esp - 8).toNat = (k.cpu.regs .esp).toNat - 8 := sub_toNat 8 (by omega)
      rw [hesp, h8]
      omega
    · next hruns =>
      rw [hi']
      exact h.deep i (by change i.val < k.tasking.sched.taskCount; omega)
        fun hr => hruns ⟨hr, hwait⟩

/-- The stack that is left, and what handlers may change on it. -/
structure Handlers.Leaves (H : Handlers L) (m : Machine) (oldSp : UInt32) (k' : Kernel) : Prop where
  room : 28 + H.depth ≤ (m.regs .esp).toNat
  cell : oldSp.toNat + 4 ≤ 4294967296
  args : ∀ a, H.own a → a.toNat < (m.regs .esp).toNat - 12 ∨ (m.regs .esp).toNat ≤ a.toNat
  apart : ∀ j a, k'.tasking.Runs j → L.Owns j a →
    ¬((m.regs .esp).toNat - 28 - H.depth ≤ a.toNat ∧ a.toNat < (m.regs .esp).toNat - 28)
  dead : ∀ l : Fin 64, l < k'.tasking.sched.taskCount → ∀ a, k'.Live L l a →
    ¬Dead H.own ((m.regs .esp).toNat - 28 - H.depth) ((m.regs .esp).toNat - 28) a

theorem KernelInv.leaves_task {newSp : UInt32} (h : KernelInv L k) (hi : k.tasking.Runs i)
    (hstop : ¬t'.Runs i)
    (hroom : (L.stackBase i).toNat + (28 + H.depth) ≤ (k.cpu.regs .esp).toNat)
    (h' : KernelInv L ⟨t', switchStacks k.cpu (L.stackTop i) newSp returnTo⟩) :
    H.Leaves k.cpu (L.stackTop i) ⟨t', switchStacks k.cpu (L.stackTop i) newSp returnTo⟩ := by
  have hstack := h.running i hi
  have hend := hstack.2
  have htasks : L.tasks.toNat + 32 * 64 < 4294967296 := L.tasks_fit
  have htop := L.stackTop_toNat i
  have hsaved : load32 (switchStacks k.cpu (L.stackTop i) newSp returnTo).mem (L.stackTop i) =
      k.cpu.regs .esp - 28 := by
    rw [(switchStacks_resumed (by omega)).written]
    exact load32_store32 _ _ _
  refine ⟨by omega, by omega, fun a ha => ?_, fun j a hj ha hin => ?_,
    h'.leftBehind H hstop hstack hroom hsaved⟩
  · by_contra hin
    exact H.apart i a (.inr ⟨by omega, by omega⟩) ha
  · have hji : j ≠ i := fun he => hstop (he ▸ hj)
    have hnot : ¬L.Owns i a := owns_apart hji ha
    exact hnot (.inr ⟨by omega, by omega⟩)

theorem KernelInv.leaves_boot {newSp : UInt32} (hroom : H.Room k .start dummySp)
    (h' : KernelInv L ⟨t', switchStacks k.cpu dummySp newSp returnTo⟩) :
    H.Leaves k.cpu dummySp ⟨t', switchStacks k.cpu dummySp newSp returnTo⟩ := by
  obtain ⟨-, hlow, hdummy, hargs, hclear⟩ := hroom
  refine ⟨hlow, hdummy, hargs, fun j a _ ha hin => ?_, fun l hl a ha hdead => ?_⟩
  · have := hclear j a ha
    omega
  · have hown := h'.live_owned hl ha
    have hout := (hclear l a hown).1
    rcases hdead with hd | hd
    · exact H.apart l a hown hd
    · omega

/-- The call of `context_switch`, with handlers, leaves the threads that it leaves without. -/
theorem InterruptedInv.switched {oldSp newSp : UInt32} (h : InterruptedInv H k)
    (hcall : SchedStep k.tasking c t') (hroom : H.Room k c dummySp)
    (hargs : L.switchArgs k c t' dummySp = some (oldSp, newSp))
    (h' : KernelInv L ⟨t', switchStacks k.cpu oldSp newSp returnTo⟩)
    (hI : Interrupted H.toScratch (callSwitch oldSp newSp returnTo) k.cpu cpu) :
    KernelInv L ⟨t', cpu⟩ ∧ Kernel.thread L ⟨t', cpu⟩ =
      Kernel.thread L ⟨t', switchStacks k.cpu oldSp newSp returnTo⟩ := by
  obtain ⟨j, hj, hwait, hcj, rfl, hleft⟩ := h.kernel.switchArgs hcall hroom hargs
  have hdeep := h.deep j hcj hwait
  change (L.stackBase j).toNat + (H.depth + 20) ≤ (k.thread L j).esp.toNat at hdeep
  rw [Kernel.thread_parked hcj hwait] at hdeep
  have hpark := h.kernel.parked j hcj hwait
  obtain ⟨hlow, hhigh⟩ := hpark
  have hend := (L.stackEnd j).toNat_lt
  have h20 : (load32 k.cpu.mem (L.stackTop j) + 20).toNat =
      (load32 k.cpu.mem (L.stackTop j)).toNat + 20 := toNat_add_small _ 20 (by omega)
  change _ ≤ (load32 k.cpu.mem (L.stackTop j) + 20).toNat at hdeep
  generalize hnew : load32 k.cpu.mem (L.stackTop j) = newSp at *
  have hl : H.Leaves k.cpu oldSp ⟨t', switchStacks k.cpu oldSp newSp returnTo⟩ := by
    rcases hleft with ⟨i, hi, hstop, rfl, hlo⟩ | ⟨rfl, rfl⟩
    · exact h.kernel.leaves_task hi hstop hlo h'
    · exact KernelInv.leaves_boot hroom h'
  have hagree := callSwitch_agree hI rfl hl.room hl.cell rfl (show H.depth ≤ newSp.toNat by omega)
    (by omega) hl.args (by
      rintro a (ha | ha)
      · by_contra hin
        exact H.apart j a (.inr ⟨by omega, by omega⟩) ha
      · by_contra hin
        exact hl.apart j a hj (.inr ⟨by omega, by omega⟩) ha)
  have hroom := hl.room
  have hesp : (switchStacks k.cpu oldSp newSp returnTo).regs .esp = newSp + 20 :=
    (switchStacks_resumed (by omega)).esp
  exact h'.disturb hagree (h'.takenUp hj hesp (by omega) (by omega) hl.dead)

theorem InterruptedInv.call (h : InterruptedInv H k) (hcall : SchedStep k.tasking c t')
    (hroom : H.Room k c dummySp) (hafter : H.After k c t' returnTo dummySp cpu) :
    InterruptedInv H ⟨t', cpu⟩ ∧
      ThreadStep L (k.threads L) (.call c) (Kernel.threads L ⟨t', cpu⟩) := by
  obtain ⟨h', hthreads⟩ := h.kernel.call hcall returnTo hroom.room
  -- with handlers there are the same threads as without
  have hsame : KernelInv L ⟨t', cpu⟩ ∧
      Kernel.thread L ⟨t', cpu⟩ = Kernel.thread L ⟨t', k.after L c t' returnTo dummySp⟩ := by
    unfold Handlers.After at hafter
    split at hafter
    · next oldSp newSp hargs =>
      rw [after_switch hargs] at h' ⊢
      exact h.switched hcall hroom hargs h' hafter
    · subst hafter
      exact ⟨h', rfl⟩
  rw [← hsame.2] at hthreads
  exact ⟨⟨hsame.1, Threads.Deep.call h hcall hroom hthreads⟩, .call hcall returnTo hthreads⟩

/-- Timer interrupts do not move the processor. -/
theorem InterruptedInv.tick (h : InterruptedInv H k) (hcall : SchedStep k.tasking .onTick t') :
    InterruptedInv H ⟨t', k.cpu⟩ ∧
      ThreadStep L (k.threads L) (.call .onTick) (Kernel.threads L ⟨t', k.cpu⟩) := by
  have hroom : H.Room k .onTick 0 := trivial
  have hafter : H.After k .onTick t' 0 0 k.cpu := rfl
  exact h.call hcall hroom hafter

theorem InterruptedInv.ticks {n : Nat} (h : InterruptedInv H k)
    (hrun : Run SchedStep k.tasking (List.replicate n .onTick) t') :
    InterruptedInv H ⟨t', k.cpu⟩ ∧
      Run (ThreadStep L) (k.threads L) (List.replicate n (.call .onTick))
        (Kernel.threads L ⟨t', k.cpu⟩) := by
  induction n generalizing k with
  | zero =>
    cases hrun
    exact ⟨h, .nil _⟩
  | succ n ih =>
    cases hrun with
    | cons head tail =>
      obtain ⟨hnext, hstep⟩ := h.tick head
      obtain ⟨hlast, hrest⟩ := ih hnext tail
      exact ⟨hlast, .cons hstep hrest⟩

theorem InterruptedInv.step {xs : List KernelAct} (h : InterruptedInv H k)
    (hstep : InterruptedStep H k xs k') :
    InterruptedInv H k' ∧ Run (ThreadStep L) (k.threads L) xs (k'.threads L) := by
  cases hstep with
  | work hwork =>
    obtain ⟨hnext, hthreads⟩ := h.kernel.step hwork
    refine ⟨⟨hnext, fun i hi hwait => ?_⟩, .cons hthreads (.nil _)⟩
    have htasking : k'.tasking = k.tasking := by
      cases hwork with
      | boot hboot cpu hkeep => rfl
      | work hruns cpu hstack hkeep => rfl
    change i.val < k'.tasking.sched.taskCount at hi
    change ¬k'.tasking.Runs i at hwait
    rw [htasking] at hi hwait
    rw [(hthreads.waiting hi hwait).1]
    exact h.deep i hi hwait
  | call hcall returnTo dummySp hroom hcpu ticks hticks =>
    obtain ⟨hnext, hthreads⟩ := h.call hcall hroom hcpu
    obtain ⟨hlast, hrest⟩ := hnext.ticks hticks
    exact ⟨hlast, .cons hthreads hrest⟩

theorem InterruptedInv.run {acts : List (List KernelAct)} (h : InterruptedInv H k)
    (hrun : Run (InterruptedStep H) k acts k') :
    Run (ThreadStep L) (k.threads L) acts.flatten (k'.threads L) := by
  induction hrun with
  | nil k => exact .nil _
  | cons head tail ih =>
    obtain ⟨hnext, hstep⟩ := h.step head
    rw [List.flatten_cons]
    exact hstep.append (ih hnext)

end Disturbances

theorem interruptedInv_booted (H : Handlers L) (cpu : Machine) :
    InterruptedInv H (.booted cpu) where
  kernel := kernelInv_booted L cpu
  deep _ hi := absurd hi (Nat.not_lt_zero _)

/-- Interrupts may come between any two instructions of `context_switch`, on the stack that is
left or on the one that is taken up: the machine is still one of tasks that have their registers
and stacks for themselves, and a timer interrupt in the middle counts as one behind the call. -/
theorem interrupted_kernel_refines_threads (H : Handlers L) (cpu : Machine)
    (acts : List (List KernelAct)) (k : Kernel)
    (hrun : Run (InterruptedStep H) (.booted cpu) acts k) :
    Run (ThreadStep L) ((Kernel.booted cpu).threads L) acts.flatten (k.threads L) :=
  (interruptedInv_booted H cpu).run hrun

section TwoTasks

def lowScratch : Scratch := ⟨fun a => a = 800000, 64⟩

theorem lowScratch_apart (i : Fin 64) (a : UInt32) (ha : lowLayout.Owns i a) :
    ¬lowScratch.own a := by
  intro hown
  have htasks : lowLayout.tasks.toNat = 4096 := rfl
  have hstacks : lowLayout.taskStacks.toNat = 8192 := rfl
  have ha' : a.toNat = 800000 := congrArg UInt32.toNat hown
  simp only [Layout.Owns, Layout.stackTop_toNat, Layout.stackBase_toNat, Layout.stackEnd_toNat]
    at ha
  omega

theorem lowScratch_shallow : lowScratch.depth + 20 ≤ taskStackSize := by decide

def lowHandlers : Handlers lowLayout := ⟨lowScratch, lowScratch_apart, lowScratch_shallow⟩

/-- The boot code behind a handler that counted, and wrote below the stack pointer. -/
def twoHit : Machine :=
  { twoCreated.cpu with
    mem := Function.update (Function.update twoCreated.cpu.mem 800000 1) 654300 7 }

def twoSwitched : Machine :=
  twoHit.run (callSwitch 700000 (load32 twoCreated.cpu.mem (lowLayout.stackTop (taskSlot 0))) 77)

theorem twoHit_hit : lowHandlers.Hit twoCreated.cpu twoHit := by
  refine ⟨rfl, rfl, fun a ha => ?_⟩
  have hsp : (twoCreated.cpu.regs .esp).toNat = 654336 := rfl
  have hown : a ≠ 800000 := fun he => ha (.inl he)
  have hlow : a ≠ 654300 := by
    rintro rfl
    refine ha (.inr ?_)
    rw [hsp]
    decide
  simp only [twoHit, Function.update_of_ne hlow, Function.update_of_ne hown]

theorem twoCreated_room : lowHandlers.Room twoCreated .start 700000 := by
  have hsp : (twoCreated.cpu.regs .esp).toNat = 654336 := rfl
  have hdummy : (700000 : UInt32).toNat = 700000 := rfl
  have hdepth : lowHandlers.depth = 64 := rfl
  have htasks : lowLayout.tasks.toNat = 4096 := rfl
  have hstacks : lowLayout.taskStacks.toNat = 8192 := rfl
  refine ⟨rfl, by decide, by decide, fun a ha => ?_, fun i a ha => ?_⟩
  · have ha' : a.toNat = 800000 := congrArg UInt32.toNat ha
    omega
  · simp only [Layout.Owns, Layout.stackTop_toNat, Layout.stackBase_toNat, Layout.stackEnd_toNat]
      at ha
    omega

def twoTicked : Kernel :=
  ⟨{ twoStarted.tasking with sched := twoStarted.tasking.sched.schedulerOnTick }, twoSwitched⟩

/-- The timer interrupts the start. -/
theorem interrupted_kernel_refines_threads_two :
    Run (ThreadStep lowLayout)
      ((Kernel.booted ⟨fun _ => 654336, 0, fun _ => 0⟩).threads lowLayout)
      [.call (.create 1 0 .kernel), .call (.create 2 0 .kernel), .call .start, .call .onTick]
      (twoTicked.threads lowLayout) :=
  interrupted_kernel_refines_threads lowHandlers ⟨fun _ => 654336, 0, fun _ => 0⟩
    [[.call (.create 1 0 .kernel)], [.call (.create 2 0 .kernel)], [.call .start, .call .onTick]]
    twoTicked <|
    .cons (.call (.create _ 1 0 .kernel) 77 700000 trivial rfl 0 (.nil _)) <|
      .cons (.call (.create _ 2 0 .kernel) 77 700000 trivial rfl 0 (.nil _)) <|
        .cons (.call (.start rfl) 77 700000 twoCreated_room
          (.hit twoHit_hit (interrupted_run _ _ _)) 1 (.cons (.onTick _) (.nil _))) <| .nil _

end TwoTasks

end VertexOS
