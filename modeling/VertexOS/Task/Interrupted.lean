import VertexOS.Library.Interruptions
import VertexOS.Task.Threads

namespace VertexOS
open Library.Assembly Library.Interruptions Library.Memory Library.Transitions

/-! Interrupts and system calls, which come between any two instructions of the tasks, and of
`context_switch`. -/

/-- `irq0_stub`, `irq1_stub` and `irq12_stub`, with a C handler: the machine behind the return, the
code segment and the flags. -/
def IrqStub (S : Scratch) (eflags cs returnTo : UInt32) (m : Machine)
    (r : Machine × UInt32 × UInt32) : Prop :=
  ∃ h, Returns S 0 ((pusha (interrupt m eflags cs)).call [] returnTo) h ∧ r = iretd (popa h)

/-- `syscall_regs`. -/
structure SyscallRegs where
  edi : UInt32
  esi : UInt32
  ebp : UInt32
  esp : UInt32
  ebx : UInt32
  edx : UInt32
  ecx : UInt32
  eax : UInt32

/-- The structure at an address. -/
def SyscallRegs.load (mem : Mem) (p : UInt32) : SyscallRegs where
  edi := load32 mem p
  esi := load32 mem (p + 4)
  ebp := load32 mem (p + 8)
  esp := load32 mem (p + 12)
  ebx := load32 mem (p + 16)
  edx := load32 mem (p + 20)
  ecx := load32 mem (p + 24)
  eax := load32 mem (p + 28)

def sysYield : UInt32 := 0
def sysGetTicks : UInt32 := 1
def sysGetTid : UInt32 := 2

/-- What `syscall_handler` returns, given `pit_get_ticks` and `scheduler_current_tid`, for
`SYS_YIELD` when the task has the processor back. The stub passes no null pointer. -/
def syscallHandler (regs : SyscallRegs) (ticks tid : UInt32) : UInt32 :=
  if regs.eax = sysYield then 0
  else if regs.eax = sysGetTicks then ticks
  else if regs.eax = sysGetTid then tid
  else 0xFFFFFFFF

/-- `isr128_stub`. -/
def Isr128Stub (S : Scratch) (eflags cs returnTo ticks tid : UInt32) (m : Machine)
    (r : Machine × UInt32 × UInt32) : Prop :=
  let p := pusha (interrupt m eflags cs)
  ∃ h, Returns S 1 (p.call [p.regs .esp] returnTo) h ∧
    h.regs .eax = syscallHandler (.load p.mem (p.regs .esp)) ticks tid ∧
    r = iretd (popa ((h.set .esp (h.regs .esp + 4)).step (.store .esp 28 .eax)))

section Stubs

variable {S : Scratch} {m : Machine} {r : Machine × UInt32 × UInt32}
  {eflags cs returnTo ticks tid : UInt32}

/-- The interrupted code notices nothing but time. -/
theorem irqStub_hit (hroom : 48 ≤ (m.regs .esp).toNat) (hdepth : 4 ≤ S.depth)
    (hown : ∀ a, S.own a → a.toNat < (m.regs .esp).toNat - 44 ∨ (m.regs .esp).toNat ≤ a.toNat)
    (h : IrqStub S eflags cs returnTo m r) :
    (Scratch.mk S.own (S.depth + 44)).Hit m r.1 ∧ r.2 = (cs, eflags) := by
  obtain ⟨h, hcall, rfl⟩ := h
  obtain ⟨hframe, hesp, hmem⟩ := hcall.frame [] hroom hdepth hown
  have hsp : h.regs .esp = m.regs .esp - 44 := by
    rw [hesp]
    exact UInt32.sub_zero _
  obtain ⟨hregs, heip, hkept, hflags⟩ := popa_iretd hsp _ hframe
  refine ⟨⟨funext fun r => ?_, heip, ?_⟩, hflags⟩
  · rw [hregs]
    cases r <;> rfl
  · intro a ha
    rw [hkept, hmem a ha]

/-- The registers that the caller of `int 0x80` passes. -/
def SyscallRegs.of (m : Machine) : SyscallRegs where
  edi := m.regs .edi
  esi := m.regs .esi
  ebp := m.regs .ebp
  esp := m.regs .esp - 12
  ebx := m.regs .ebx
  edx := m.regs .edx
  ecx := m.regs .ecx
  eax := m.regs .eax

/-- The handler is passed what `pusha` pushed. -/
theorem load_syscallRegs (hroom : 44 ≤ (m.regs .esp).toNat) :
    SyscallRegs.load (pusha (interrupt m eflags cs)).mem
      ((pusha (interrupt m eflags cs)).regs .esp) = .of m := by
  obtain ⟨hmem, hesp, -⟩ := interrupt_pusha m eflags cs
  have hat : ∀ d k, k < 11 → m.regs .esp - 44 + d = m.regs .esp - UInt32.ofNat (4 * (k + 1)) →
      load32 (pushWords m.mem (m.regs .esp) (interruptFrame m eflags cs)) (m.regs .esp - 44 + d) =
        (interruptFrame m eflags cs).getD k 0 := by
    intro d k hk he
    rw [he]
    exact load32_pushWords _ (show 4 * 11 ≤ (m.regs .esp).toNat by omega) hk
  have h0 := hat 0 10 (by decide) (by change _ = _ - 44; grind)
  have h4 := hat 4 9 (by decide) (by change _ = _ - 40; grind)
  have h8 := hat 8 8 (by decide) (by change _ = _ - 36; grind)
  have h12 := hat 12 7 (by decide) (by change _ = _ - 32; grind)
  have h16 := hat 16 6 (by decide) (by change _ = _ - 28; grind)
  have h20 := hat 20 5 (by decide) (by change _ = _ - 24; grind)
  have h24 := hat 24 4 (by decide) (by change _ = _ - 20; grind)
  have h28 := hat 28 3 (by decide) (by change _ = _ - 16; grind)
  rw [UInt32.add_zero] at h0
  rw [SyscallRegs.load, hmem, hesp, h0, h4, h8, h12, h16, h20, h24, h28]
  rfl

/-- A system call changes `eax` only, into what the handler makes of the caller's registers. -/
theorem isr128Stub_returns (hroom : 52 ≤ (m.regs .esp).toNat) (hdepth : 8 ≤ S.depth)
    (hown : ∀ a, S.own a → a.toNat < (m.regs .esp).toNat - 44 ∨ (m.regs .esp).toNat ≤ a.toNat)
    (h : Isr128Stub S eflags cs returnTo ticks tid m r) :
    r.1.regs = Function.update m.regs .eax (syscallHandler (.of m) ticks tid) ∧
    r.1.eip = m.eip ∧ r.2 = (cs, eflags) ∧
    ∀ a, ¬(Scratch.mk S.own (S.depth + 44)).Trashes (m.regs .esp) a → r.1.mem a = m.mem a := by
  obtain ⟨h, hcall, hresult, rfl⟩ := h
  rw [load_syscallRegs (by omega)] at hresult
  obtain ⟨hframe, hesp, hmem⟩ := hcall.frame [_] hroom hdepth hown
  have hmax := (m.regs .esp).toNat_lt
  have hsp : h.regs .esp + 4 = m.regs .esp - 44 := by
    rw [hesp]
    change _ - 44 - 4 + 4 = _
    grind
  have hslot : h.regs .esp + 4 + 28 = m.regs .esp - 16 := by
    rw [hsp]
    grind
  have h16 : (m.regs .esp - 16).toNat = (m.regs .esp).toNat - 16 := sub_toNat 16 (by omega)
  have hout := store32_outside h.mem (m.regs .esp - 16) (h.regs .eax) (by omega)
  generalize hg : (h.set .esp (h.regs .esp + 4)).step (.store .esp 28 .eax) = g
  have hgsp : g.regs .esp = m.regs .esp - 44 := by
    rw [← hg, ← hsp]
    simp [Machine.step, Machine.set]
  have hgmem : g.mem = store32 h.mem (m.regs .esp - 16) (h.regs .eax) := by
    rw [← hg, ← hslot]
    simp [Machine.step, Machine.set]
  -- the slot of `eax` holds the result, the others are as they were
  have hwords : ∀ k < 11, load32 g.mem (m.regs .esp - UInt32.ofNat (4 * (k + 1))) =
      if k = 3 then h.regs .eax else (interruptFrame m eflags cs).getD k 0 := by
    intro k hk
    have hat : (m.regs .esp - UInt32.ofNat (4 * (k + 1))).toNat =
        (m.regs .esp).toNat - 4 * (k + 1) := sub_toNat _ (by omega)
    rw [hgmem]
    by_cases h3 : k = 3
    · subst h3
      rw [if_pos rfl]
      exact load32_store32 _ _ _
    · rw [if_neg h3, load32_frame hout (by omega) (by omega), hframe k hk]
  obtain ⟨hregs, heip, hkept, hflags⟩ := popa_iretd hgsp _ hwords
  refine ⟨funext fun r => ?_, heip, hflags, ?_⟩
  · rw [hregs, ← hresult]
    cases r <;> rfl
  · intro a ha
    have hclear : a.toNat < (m.regs .esp - 16).toNat ∨ (m.regs .esp - 16).toNat + 4 ≤ a.toNat := by
      by_contra hin
      exact ha (.inr ⟨by omega, by dsimp only; omega⟩)
    rw [hkept, hgmem, hout a hclear, hmem a ha]

end Stubs

/-- The stubs around the C handlers: a device's interrupt is not noticed by the code it comes into,
and `int 0x80` changes `eax` only, into what `syscall_handler` makes of the caller's registers. -/
theorem interrupt_stubs_return (S : Scratch) (m : Machine) (eflags cs returnTo ticks tid : UInt32)
    (r : Machine × UInt32 × UInt32) (hroom : 52 ≤ (m.regs .esp).toNat) (hdepth : 8 ≤ S.depth)
    (hown : ∀ a, S.own a →
      a.toNat < (m.regs .esp).toNat - 44 ∨ (m.regs .esp).toNat ≤ a.toNat) :
    (IrqStub S eflags cs returnTo m r →
      (Scratch.mk S.own (S.depth + 44)).Hit m r.1 ∧ r.2 = (cs, eflags)) ∧
    (Isr128Stub S eflags cs returnTo ticks tid m r →
      r.1.regs = Function.update m.regs .eax (syscallHandler (.of m) ticks tid) ∧
      r.1.eip = m.eip ∧ r.2 = (cs, eflags) ∧
      ∀ a, ¬(Scratch.mk S.own (S.depth + 44)).Trashes (m.regs .esp) a → r.1.mem a = m.mem a) :=
  ⟨irqStub_hit (by omega) (by omega) hown, isr128Stub_returns hroom hdepth hown⟩

/-- `sys_get_ticks`, by a program that had 42 in no register. -/
theorem interrupt_stubs_return_ticks :
    ∃ r, Isr128Stub ⟨fun _ => False, 8⟩ 514 8 77 42 0
        ⟨fun r => if r = .esp then 4096 else 1, 5, fun _ => 0⟩ r ∧
      r.1.regs .eax = 42 ∧ r.1.regs .ecx = 1 ∧ r.1.eip = 5 := by
  let m : Machine := ⟨fun r => if r = .esp then 4096 else 1, 5, fun _ => 0⟩
  let p := pusha (interrupt m 514 8)
  let h := ((p.call [p.regs .esp] 77).step .ret).set .eax 42
  have hload : SyscallRegs.load p.mem (p.regs .esp) = .of m := load_syscallRegs (by decide)
  have hret : Returns ⟨fun _ => False, 8⟩ 1 (p.call [p.regs .esp] 77) h :=
    ⟨rfl, rfl, by simp [h, Machine.step, Machine.set], fun _ _ => rfl⟩
  have hresult : h.regs .eax = syscallHandler (.load p.mem (p.regs .esp)) 42 0 := by
    rw [hload]
    rfl
  have hrun : Isr128Stub ⟨fun _ => False, 8⟩ 514 8 77 42 0 m
    (iretd (popa ((h.set .esp (h.regs .esp + 4)).step (.store .esp 28 .eax)))) :=
    ⟨h, hret, hresult, rfl⟩
  obtain ⟨hregs, heip, -, -⟩ := (interrupt_stubs_return ⟨fun _ => False, 8⟩ m 514 8 77 42 0 _
    (by decide) (by decide) fun _ ha => ha.elim).2 hrun
  refine ⟨_, hrun, ?_, ?_, heip⟩
  · rw [hregs]
    rfl
  · rw [hregs]
    rfl

/-- The call of `context_switch`, with the pushes of its arguments and of the return address. -/
def callSwitch (oldSp newSp returnTo : UInt32) : List Instr :=
  [.imm newSp, .imm oldSp, .imm returnTo] ++ contextSwitch

/-- The two halves of `context_switch`, up to the change of the stack and behind it. -/
def saveHalf : List Instr :=
  [.load .eax .esp 4, .load .edx .esp 8,
   .push .ebp, .push .ebx, .push .esi, .push .edi,
   .store .eax 0 .esp, .move .esp .edx]

def takeHalf : List Instr := [.edi, .esi, .ebx, .ebp].map .pop ++ [.ret]

theorem contextSwitch_halves : contextSwitch = saveHalf ++ takeHalf := rfl

section Switch

variable {S : Scratch} {E : UInt32 → Prop} {m m' cpu : Machine} {lo : Nat}
  {oldSp newSp returnTo : UInt32}

/-- What handlers change in the first half lies below the saved stack pointer. `sp` is the stack
pointer behind the call. -/
theorem saveHalf_agree {sp : Nat} {code : List Instr} (h : Agree (Dead E lo sp) m m')
    (hI : Interrupted S (saveHalf ++ code) m' cpu) (hE : ∀ a, S.own a → E a)
    (hsp : (m.regs .esp).toNat = sp) (hlo : lo + 16 + S.depth ≤ sp) (hroom : sp + 12 ≤ 4294967296)
    (hold : load32 m.mem (m.regs .esp + 4) = oldSp) (hnew : load32 m.mem (m.regs .esp + 8) = newSp)
    (hcell : oldSp.toNat + 4 ≤ 4294967296) (hargs : ∀ a, E a → a.toNat < sp ∨ sp + 12 ≤ a.toNat) :
    (m.run saveHalf).regs .esp = newSp ∧
    ∃ m1, Agree (Dead E lo (sp - 16)) (m.run saveHalf) m1 ∧ Interrupted S code m1 cpu := by
  have h4 : (m.regs .esp + 4).toNat = sp + 4 := by
    rw [← hsp]
    exact toNat_add_small _ 4 (by omega)
  have h8 : (m.regs .esp + 8).toNat = sp + 8 := by
    rw [← hsp]
    exact toNat_add_small _ 8 (by omega)
  have hlive : ∀ b c : UInt32, sp ≤ b.toNat → b.toNat ≤ sp + 8 → InWord b c → ¬Dead E lo sp c := by
    rintro b c hge hle ⟨hc1, hc2⟩ (hc | hc)
    · have := hargs c hc
      omega
    · omega
  -- the arguments
  obtain ⟨m1, hit1, hI⟩ := hI.cons_inv
  have a1 := h.loaded hit1 hE hsp (by omega) .eax .esp 4 (by omega)
    fun c hc => hlive _ c (by omega) (by omega) hc
  obtain ⟨m2, hit2, hI⟩ := hI.cons_inv
  have a2 := a1.loaded hit2 hE hsp (by omega) .edx .esp 8
    (by change (m.regs .esp + 8).toNat + 4 ≤ _; omega)
    fun c hc => hlive (m.regs .esp + 8) c (by omega) (by omega) hc
  -- the registers
  have hall : ∀ i ∈ [Instr.push .ebp, .push .ebx, .push .esi, .push .edi], Pushes i := by
    simp [pushes_push]
  obtain ⟨hsp2, m3, a3, hI⟩ := a2.pushedAll hall hI hE hsp (by simpa using by omega)
  generalize hM : Machine.run _ _ = M at a3 hsp2
  have heax : M.regs .eax + 0 = oldSp := by
    rw [← hM, ← hold]
    simp [Machine.run, Machine.step, Machine.pushWord, Machine.set]
  have hedx : M.regs .edx = newSp := by
    rw [← hM, ← hnew]
    simp [Machine.run, Machine.step, Machine.pushWord, Machine.set]
  -- the stack pointers
  obtain ⟨m4, hit4, hI⟩ := hI.cons_inv
  have a4 := ((a3.hit hit4 (trashes_dead hE hsp2 (by simpa using by omega))).store .eax 0 .esp
    (by rw [heax]; exact hcell)).mono fun a ha => ha.1
  obtain ⟨m5, hit5, hI⟩ := hI.cons_inv
  have a5 := (a4.hit hit5 (trashes_dead hE hsp2 (by simpa using by omega))).move .esp .edx
  have hrun : m.run saveHalf = (M.step (.store .eax 0 .esp)).step (.move .esp .edx) := by
    rw [← hM]
    rfl
  rw [hrun]
  exact ⟨hedx, _, a5, hI⟩

/-- The second half of `context_switch`, on the stack that `newSp` points into. -/
theorem takeHalf_agree {sp : Nat} (h : Agree E m m')
    (hI : Interrupted S takeHalf m' cpu)
    (hE : ∀ a, S.own a → E a) (hsp : (m.regs .esp).toNat = sp) (hdeep : S.depth ≤ sp)
    (hroom : sp + 20 < 4294967296) (hclear : ∀ a, E a → a.toNat < sp ∨ sp + 20 ≤ a.toNat) :
    Agree (Dead E (sp - S.depth) (sp + 20)) (m.run takeHalf) cpu := by
  have h0 : Agree (Dead E (sp - S.depth) sp) m m' := h.mono fun a ha => .inl ha
  obtain ⟨hsp1, m1, a1, hI⟩ := h0.poppedAll (by simp) hI hE hsp (by omega)
    (by simpa using by omega) (fun a ha => by have := hclear a ha; simpa using by omega)
  change _ = sp + 16 at hsp1
  change Agree (Dead E (sp - S.depth) (sp + 16)) _ _ at a1
  generalize hP : m.run ([.edi, .esi, .ebx, .ebp].map .pop) = P at a1 hsp1
  have hrun : m.run takeHalf = P.step .ret := by
    rw [← hP, takeHalf, Machine.run_append]
    rfl
  -- the return
  obtain ⟨m2, hit2, hI⟩ := hI.cons_inv
  have hlive : ∀ c, InWord (P.regs .esp) c → ¬Dead E (sp - S.depth) (sp + 16) c := by
    rintro c ⟨hge, hlt⟩ (hc | hc)
    · have := hclear c hc
      omega
    · omega
  have a2 := ((a1.hit hit2 (trashes_dead hE hsp1 (by omega))).ret (by omega) hlive).mono
    fun a ha => ha.imp_right fun hin => (⟨hin.1, by omega⟩ : sp - S.depth ≤ a.toNat ∧
      a.toNat < sp + 20)
  have hsp2 : ((P.step .ret).regs .esp).toNat = sp + 20 := by
    have hadd : (P.regs .esp + 4).toNat = (P.regs .esp).toNat + 4 :=
      toNat_add_small _ 4 (by omega)
    simp only [Machine.step, Machine.set, Function.update_self, hadd, hsp1]
  rw [hrun]
  exact a2.hit hI.nil_inv (trashes_dead hE hsp2 (by omega))

/-- A call of `context_switch` with handlers between its instructions: what comes out differently
is dead on the stack that was left, or dead on the stack that was taken up. -/
theorem callSwitch_agree {sp sp' : Nat}
    (hI : Interrupted S (callSwitch oldSp newSp returnTo) m cpu)
    (hsp : (m.regs .esp).toNat = sp) (hlo : 28 + S.depth ≤ sp)
    (hcell : oldSp.toNat + 4 ≤ 4294967296)
    (hsp' : newSp.toNat = sp') (hdeep : S.depth ≤ sp') (hroom' : sp' + 20 < 4294967296)
    (hargs : ∀ a, S.own a → a.toNat < sp - 12 ∨ sp ≤ a.toNat)
    (hclear : ∀ a, Dead S.own (sp - 28 - S.depth) (sp - 28) a →
      a.toNat < sp' ∨ sp' + 20 ≤ a.toNat) :
    Agree (Dead (Dead S.own (sp - 28 - S.depth) (sp - 28)) (sp' - S.depth) (sp' + 20))
      (switchStacks m oldSp newSp returnTo) cpu := by
  have hmax := (m.regs .esp).toNat_lt
  -- the call
  have h0 : Agree (Dead S.own (sp - 28 - S.depth) sp) m m := .refl _ _
  have hall : ∀ i ∈ [Instr.imm newSp, .imm oldSp, .imm returnTo], Pushes i := by
    simp [pushes_imm]
  obtain ⟨hsp1, m1, a1, hI⟩ := h0.pushedAll hall hI (fun a ha => ha) hsp (by simpa using by omega)
  rw [show m.run [.imm newSp, .imm oldSp, .imm returnTo] = m.call [oldSp, newSp] returnTo from rfl]
    at hsp1 a1
  rw [show sp - 4 * [Instr.imm newSp, .imm oldSp, .imm returnTo].length = sp - 12 from rfl]
    at hsp1 a1
  obtain ⟨hold, hnew⟩ := call_args oldSp newSp returnTo (show 12 ≤ (m.regs .esp).toNat by omega)
  -- its two halves
  obtain ⟨hesp, m2, a2, hI⟩ := saveHalf_agree a1 hI (fun a ha => ha) hsp1
    (by omega) (by omega) hold hnew hcell
    (fun a ha => by have := hargs a ha; omega)
  rw [show sp - 12 - 16 = sp - 28 by omega] at a2
  rw [switchStacks, contextSwitch_halves, Machine.run_append]
  exact takeHalf_agree a2 hI (fun a ha => .inl ha) (by rw [hesp]; exact hsp') hdeep hroom' hclear

end Switch

end VertexOS
