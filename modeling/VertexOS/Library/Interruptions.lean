import VertexOS.Library.Assembly

namespace Library.Interruptions
open Library.Assembly Library.Memory

/-! Code that is interrupted between its instructions. -/

/-- What a handler may write: variables of its own, and so many bytes below the stack pointer. -/
structure Scratch where
  own : UInt32 → Prop
  depth : Nat

def Scratch.Trashes (S : Scratch) (esp a : UInt32) : Prop :=
  S.own a ∨ a.toNat < esp.toNat ∧ esp.toNat ≤ a.toNat + S.depth

/-- A handler ran, from the machine `m` on, and came back. -/
structure Scratch.Hit (S : Scratch) (m m' : Machine) : Prop where
  regs : m'.regs = m.regs
  eip : m'.eip = m.eip
  mem : ∀ a, ¬S.Trashes (m.regs .esp) a → m'.mem a = m.mem a

/-- A run of the code with handlers between its instructions. -/
inductive Interrupted (S : Scratch) : List Instr → Machine → Machine → Prop
  | done (m : Machine) : Interrupted S [] m m
  | step {i : Instr} {code : List Instr} {m m' : Machine} (h : Interrupted S code (m.step i) m') :
      Interrupted S (i :: code) m m'
  | hit {code : List Instr} {m m1 m' : Machine} (h : S.Hit m m1)
      (hrest : Interrupted S code m1 m') : Interrupted S code m m'

/-- The machines differ in the bytes of `D` at most. -/
structure Agree (D : UInt32 → Prop) (m m' : Machine) : Prop where
  regs : m'.regs = m.regs
  eip : m'.eip = m.eip
  mem : ∀ a, ¬D a → m'.mem a = m.mem a

/-- The bytes of the word at `a`. -/
def InWord (a c : UInt32) : Prop := a.toNat ≤ c.toNat ∧ c.toNat < a.toNat + 4

section Runs

variable {S : Scratch} {D D' : UInt32 → Prop} {m m' m'' : Machine} {i : Instr} {code : List Instr}

theorem Scratch.Hit.refl (S : Scratch) (m : Machine) : S.Hit m m := ⟨rfl, rfl, fun _ _ => rfl⟩

theorem Scratch.Hit.trans (h : S.Hit m m') (h' : S.Hit m' m'') : S.Hit m m'' := by
  refine ⟨h'.regs.trans h.regs, h'.eip.trans h.eip, fun a ha => ?_⟩
  rw [h'.mem a (by rw [h.regs]; exact ha), h.mem a ha]

/-- Handlers may stay away. -/
theorem interrupted_run (S : Scratch) (code : List Instr) (m : Machine) :
    Interrupted S code m (m.run code) := by
  induction code generalizing m with
  | nil => exact .done m
  | cons i code ih => exact .step (ih (m.step i))

/-- Behind some handlers comes the first instruction. -/
theorem Interrupted.cons_inv (h : Interrupted S (i :: code) m m') :
    ∃ m1, S.Hit m m1 ∧ Interrupted S code (m1.step i) m' := by
  generalize hc : i :: code = c at h
  induction h with
  | done => cases hc
  | step h =>
    cases hc
    exact ⟨_, .refl S _, h⟩
  | hit hhit _ ih =>
    obtain ⟨m1, h1, hrest⟩ := ih hc
    exact ⟨m1, hhit.trans h1, hrest⟩

theorem Interrupted.nil_inv (h : Interrupted S [] m m') : S.Hit m m' := by
  generalize hc : ([] : List Instr) = c at h
  induction h with
  | done => exact .refl S _
  | step _ => cases hc
  | hit hhit _ ih => exact hhit.trans (ih hc)

theorem Agree.refl (D : UInt32 → Prop) (m : Machine) : Agree D m m := ⟨rfl, rfl, fun _ _ => rfl⟩

theorem Agree.mono (h : Agree D m m') (hd : ∀ a, D a → D' a) : Agree D' m m' :=
  ⟨h.regs, h.eip, fun a ha => h.mem a (mt (hd a) ha)⟩

/-- Handlers disturb nothing but what they may write. -/
theorem Agree.hit (h : Agree D m m') (hhit : S.Hit m' m'')
    (hd : ∀ a, S.Trashes (m.regs .esp) a → D a) : Agree D m m'' := by
  refine ⟨hhit.regs.trans h.regs, hhit.eip.trans h.eip, fun a ha => ?_⟩
  rw [hhit.mem a (by rw [h.regs]; exact mt (hd a) ha), h.mem a ha]

theorem Agree.load32 (h : Agree D m m') {a : UInt32} (ha : a.toNat + 4 ≤ 4294967296)
    (hd : ∀ c, InWord a c → ¬D c) : load32 m'.mem a = load32 m.mem a :=
  load32_congr ha fun c hlo hhi => h.mem c (hd c ⟨hlo, hhi⟩)

/-- A stored word is the same in both memories. -/
theorem store32_agree {mem mem' : Mem} {a c : UInt32} (w : UInt32) (ha : a.toNat + 4 ≤ 4294967296)
    (h : ¬InWord a c → mem' c = mem c) : store32 mem' a w c = store32 mem a w c := by
  by_cases hin : InWord a c
  · have h1 : (a + 1).toNat = a.toNat + 1 := toNat_add_small a 1 (by omega)
    have h2 : (a + 2).toNat = a.toNat + 2 := toNat_add_small a 2 (by omega)
    have h3 : (a + 3).toNat = a.toNat + 3 := toNat_add_small a 3 (by omega)
    have hcases : c = a ∨ c = a + 1 ∨ c = a + 2 ∨ c = a + 3 := by
      simp only [← UInt32.toNat_inj, h1, h2, h3]
      obtain ⟨hlo, hhi⟩ := hin
      omega
    rcases hcases with rfl | rfl | rfl | rfl <;> simp [store32, store8]
  · have hout : c.toNat < a.toNat ∨ a.toNat + 4 ≤ c.toNat := by
      unfold InWord at hin
      omega
    rw [store32_outside mem' a w ha c hout, store32_outside mem a w ha c hout, h hin]

theorem Agree.store32 (h : Agree D m m') {a : UInt32} (w : UInt32)
    (ha : a.toNat + 4 ≤ 4294967296) (c : UInt32) (hc : ¬(D c ∧ ¬InWord a c)) :
    store32 m'.mem a w c = store32 m.mem a w c :=
  store32_agree w ha fun hin => h.mem c fun hd => hc ⟨hd, hin⟩

theorem Agree.pushWord (h : Agree D m m') (w : UInt32) (hsp : 4 ≤ (m.regs .esp).toNat) :
    Agree (fun c => D c ∧ ¬InWord (m.regs .esp - 4) c) (m.pushWord w) (m'.pushWord w) := by
  have hsub : (m.regs .esp - 4).toNat = (m.regs .esp).toNat - 4 := sub_toNat 4 hsp
  have hmax := (m.regs .esp).toNat_lt
  refine ⟨?_, h.eip, fun c hc => ?_⟩
  · simp only [Machine.pushWord, Machine.set, h.regs]
  · simp only [Machine.pushWord, h.regs]
    exact h.store32 w (by omega) c hc

theorem Agree.pop (h : Agree D m m') (dst : Reg) (ha : (m.regs .esp).toNat + 4 ≤ 4294967296)
    (hd : ∀ c, InWord (m.regs .esp) c → ¬D c) :
    Agree D (m.step (.pop dst)) (m'.step (.pop dst)) := by
  have hload := h.load32 ha hd
  refine ⟨?_, h.eip, h.mem⟩
  simp only [Machine.step, Machine.set, h.regs, hload]

theorem Agree.ret (h : Agree D m m') (ha : (m.regs .esp).toNat + 4 ≤ 4294967296)
    (hd : ∀ c, InWord (m.regs .esp) c → ¬D c) : Agree D (m.step .ret) (m'.step .ret) := by
  have hload := h.load32 ha hd
  refine ⟨?_, ?_, h.mem⟩
  · simp only [Machine.step, Machine.set, h.regs]
  · simp only [Machine.step, h.regs, hload]

theorem Agree.load (h : Agree D m m') (dst base : Reg) (disp : UInt32)
    (ha : (m.regs base + disp).toNat + 4 ≤ 4294967296)
    (hd : ∀ c, InWord (m.regs base + disp) c → ¬D c) :
    Agree D (m.step (.load dst base disp)) (m'.step (.load dst base disp)) := by
  have hload := h.load32 ha hd
  refine ⟨?_, h.eip, h.mem⟩
  simp only [Machine.step, Machine.set, h.regs, hload]

theorem Agree.store (h : Agree D m m') (base : Reg) (disp : UInt32) (src : Reg)
    (ha : (m.regs base + disp).toNat + 4 ≤ 4294967296) :
    Agree (fun c => D c ∧ ¬InWord (m.regs base + disp) c)
      (m.step (.store base disp src)) (m'.step (.store base disp src)) := by
  refine ⟨h.regs, h.eip, fun c hc => ?_⟩
  simp only [Machine.step, h.regs]
  exact h.store32 _ ha c hc

theorem Agree.move (h : Agree D m m') (dst src : Reg) :
    Agree D (m.step (.move dst src)) (m'.step (.move dst src)) := by
  refine ⟨?_, h.eip, h.mem⟩
  simp only [Machine.step, Machine.set, h.regs]

end Runs

/-- The bytes that handlers may have written: those of `E`, and the dead stack `[lo, hi)`. -/
def Dead (E : UInt32 → Prop) (lo hi : Nat) (a : UInt32) : Prop := E a ∨ lo ≤ a.toNat ∧ a.toNat < hi

section Disturbed

variable {S : Scratch} {E : UInt32 → Prop} {m m' m1 cpu : Machine} {lo hi : Nat}

theorem trashes_dead (hE : ∀ a, S.own a → E a) {esp : UInt32} (hsp : esp.toNat = hi)
    (hlo : lo + S.depth ≤ hi) (a : UInt32) (ha : S.Trashes esp a) : Dead E lo hi a := by
  rcases ha with ha | ha
  · exact .inl (hE a ha)
  · exact .inr ⟨by omega, by omega⟩

/-- A push behind a handler makes the pushed word live again. -/
theorem Agree.pushed (h : Agree (Dead E lo hi) m m') (hhit : S.Hit m' m1)
    (hE : ∀ a, S.own a → E a) (hsp : (m.regs .esp).toNat = hi) (hlo : lo + S.depth ≤ hi)
    (hroom : 4 ≤ hi) (w : UInt32) :
    Agree (Dead E lo (hi - 4)) (m.pushWord w) (m1.pushWord w) := by
  have hsub : (m.regs .esp - 4).toNat = (m.regs .esp).toNat - 4 := sub_toNat 4 (by omega)
  refine ((h.hit hhit (trashes_dead hE hsp hlo)).pushWord w (by omega)).mono ?_
  rintro a ⟨ha | ha, hnot⟩
  · exact .inl ha
  · refine .inr ⟨ha.1, ?_⟩
    unfold InWord at hnot
    omega

/-- A pop behind a handler leaves the popped word dead. -/
theorem Agree.popped (h : Agree (Dead E lo hi) m m') (hhit : S.Hit m' m1)
    (hE : ∀ a, S.own a → E a) (hsp : (m.regs .esp).toNat = hi) (hlo : lo + S.depth ≤ hi)
    (hmax : hi + 4 ≤ 4294967296) (hclear : ∀ a, E a → a.toNat < hi ∨ hi + 4 ≤ a.toNat)
    (dst : Reg) : Agree (Dead E lo (hi + 4)) (m.step (.pop dst)) (m1.step (.pop dst)) := by
  refine ((h.hit hhit (trashes_dead hE hsp hlo)).pop dst (by omega) ?_).mono ?_
  · rintro c ⟨hge, hlt⟩ (hc | hc)
    · have := hclear c hc
      omega
    · omega
  · rintro a (ha | ha)
    · exact .inl ha
    · exact .inr ⟨ha.1, by omega⟩

/-- Instructions that leave memory and the stack pointer alone, loading from live bytes. -/
theorem Agree.loaded (h : Agree (Dead E lo hi) m m') (hhit : S.Hit m' m1)
    (hE : ∀ a, S.own a → E a) (hsp : (m.regs .esp).toNat = hi) (hlo : lo + S.depth ≤ hi)
    (dst base : Reg) (disp : UInt32) (hmax : (m.regs base + disp).toNat + 4 ≤ 4294967296)
    (hclear : ∀ c, InWord (m.regs base + disp) c → ¬Dead E lo hi c) :
    Agree (Dead E lo hi) (m.step (.load dst base disp)) (m1.step (.load dst base disp)) :=
  (h.hit hhit (trashes_dead hE hsp hlo)).load dst base disp hmax hclear

theorem pushWord_esp (m : Machine) (w : UInt32) : (m.pushWord w).regs .esp = m.regs .esp - 4 := by
  simp [Machine.pushWord, Machine.set]

/-- The instructions that push a word. -/
def Pushes (i : Instr) : Prop := ∀ m : Machine, ∃ w, ∀ m' : Machine,
  m'.regs = m.regs → m'.step i = m'.pushWord w

theorem pushes_imm (w : UInt32) : Pushes (.imm w) := fun _ => ⟨w, fun _ _ => rfl⟩

theorem pushes_push (r : Reg) : Pushes (.push r) :=
  fun m => ⟨m.regs r, fun m' h => by rw [Machine.step, h]⟩

/-- The pushes of some code, and what comes behind them. -/
theorem Agree.pushedAll {pushes code : List Instr} (hall : ∀ i ∈ pushes, Pushes i)
    (h : Agree (Dead E lo hi) m m') (hI : Interrupted S (pushes ++ code) m' cpu)
    (hE : ∀ a, S.own a → E a) (hsp : (m.regs .esp).toNat = hi)
    (hlo : lo + 4 * pushes.length + S.depth ≤ hi) :
    ((m.run pushes).regs .esp).toNat = hi - 4 * pushes.length ∧
    ∃ m1, Agree (Dead E lo (hi - 4 * pushes.length)) (m.run pushes) m1 ∧
      Interrupted S code m1 cpu := by
  induction pushes generalizing m m' hi with
  | nil => exact ⟨hsp, m', h, hI⟩
  | cons i pushes ih =>
    rw [List.length_cons] at hlo ⊢
    obtain ⟨m1, hhit, hrest⟩ := hI.cons_inv
    obtain ⟨w, hw⟩ := hall i List.mem_cons_self m
    have hnext := h.pushed hhit hE hsp (by omega) (by omega) w
    rw [← hw m rfl, ← hw m1 (hhit.regs.trans h.regs)] at hnext
    have hsub : (m.regs .esp - 4).toNat = (m.regs .esp).toNat - 4 := sub_toNat 4 (by omega)
    have hsp' : ((m.step i).regs .esp).toNat = hi - 4 := by
      rw [hw m rfl, pushWord_esp, hsub, hsp]
    obtain ⟨hesp, m2, hagree, hcode⟩ := ih (fun j hj => hall j (List.mem_cons_of_mem i hj)) hnext
      hrest hsp' (by omega)
    have hlen : hi - 4 - 4 * pushes.length = hi - 4 * (pushes.length + 1) := by omega
    rw [hlen] at hesp hagree
    exact ⟨hesp, m2, hagree, hcode⟩

/-- The pops of some code, and what comes behind them. -/
theorem Agree.poppedAll {dsts : List Reg} {code : List Instr} (hall : ∀ r ∈ dsts, r ≠ .esp)
    (h : Agree (Dead E lo hi) m m') (hI : Interrupted S (dsts.map .pop ++ code) m' cpu)
    (hE : ∀ a, S.own a → E a) (hsp : (m.regs .esp).toNat = hi) (hlo : lo + S.depth ≤ hi)
    (hmax : hi + 4 * dsts.length ≤ 4294967292)
    (hclear : ∀ a, E a → a.toNat < hi ∨ hi + 4 * dsts.length ≤ a.toNat) :
    ((m.run (dsts.map .pop)).regs .esp).toNat = hi + 4 * dsts.length ∧
    ∃ m1, Agree (Dead E lo (hi + 4 * dsts.length)) (m.run (dsts.map .pop)) m1 ∧
      Interrupted S code m1 cpu := by
  induction dsts generalizing m m' hi with
  | nil => exact ⟨hsp, m', h, hI⟩
  | cons r dsts ih =>
    rw [List.length_cons] at hmax hclear ⊢
    obtain ⟨m1, hhit, hrest⟩ := hI.cons_inv
    have hnext := h.popped hhit hE hsp hlo (by omega)
      (fun a ha => by have := hclear a ha; omega) r
    have hne := hall r List.mem_cons_self
    have hadd : (m.regs .esp + 4).toNat = (m.regs .esp).toNat + 4 :=
      toNat_add_small _ 4 (by omega)
    have hsp' : ((m.step (.pop r)).regs .esp).toNat = hi + 4 := by
      rw [← hsp, ← hadd]
      simp [Machine.step, Machine.set, hne.symm]
    obtain ⟨hesp, m2, hagree, hcode⟩ := ih (fun j hj => hall j (List.mem_cons_of_mem r hj)) hnext
      hrest hsp' (by omega) (by omega) (fun a ha => by have := hclear a ha; omega)
    have hlen : hi + 4 + 4 * dsts.length = hi + 4 * (dsts.length + 1) := by omega
    rw [hlen] at hesp hagree
    exact ⟨hesp, m2, hagree, hcode⟩

end Disturbed

/-- The processor accepts an interrupt: the flags, the code segment and the place are pushed. -/
def interrupt (m : Machine) (eflags cs : UInt32) : Machine :=
  [eflags, cs, m.eip].foldl Machine.pushWord m

def pusha (m : Machine) : Machine :=
  [m.regs .eax, m.regs .ecx, m.regs .edx, m.regs .ebx, m.regs .esp, m.regs .ebp, m.regs .esi,
    m.regs .edi].foldl Machine.pushWord m

/-- The pushed stack pointer is passed over. -/
def popa (m : Machine) : Machine :=
  let sp := m.regs .esp
  { m with regs := fun
      | .edi => load32 m.mem sp
      | .esi => load32 m.mem (sp + 4)
      | .ebp => load32 m.mem (sp + 8)
      | .ebx => load32 m.mem (sp + 16)
      | .edx => load32 m.mem (sp + 20)
      | .ecx => load32 m.mem (sp + 24)
      | .eax => load32 m.mem (sp + 28)
      | .esp => sp + 32 }

/-- The machine behind the return, with the code segment and the flags that come back. -/
def iretd (m : Machine) : Machine × UInt32 × UInt32 :=
  let sp := m.regs .esp
  ({ m.set .esp (sp + 12) with eip := load32 m.mem sp }, load32 m.mem (sp + 4),
    load32 m.mem (sp + 8))

/-- A C function that was called with the stack pointer at its return address comes back: it keeps
the registers that C functions keep and writes nothing above its arguments but variables. -/
structure Returns (S : Scratch) (args : Nat) (m m' : Machine) : Prop where
  eip : m'.eip = load32 m.mem (m.regs .esp)
  esp : m'.regs .esp = m.regs .esp + 4
  kept : ∀ r ∈ [Reg.ebx, .esi, .edi, .ebp], m'.regs r = m.regs r
  mem : ∀ a, ¬S.Trashes (m.regs .esp + UInt32.ofNat (4 + 4 * args)) a → m'.mem a = m.mem a

/-- The words on the stack of a handler: the interrupted place, and the registers as `pusha`
pushes them. -/
def interruptFrame (m : Machine) (eflags cs : UInt32) : List UInt32 :=
  [eflags, cs, m.eip, m.regs .eax, m.regs .ecx, m.regs .edx, m.regs .ebx, m.regs .esp - 12,
    m.regs .ebp, m.regs .esi, m.regs .edi]

section Stubs

variable {S : Scratch} {m h : Machine} {eflags cs returnTo : UInt32}

theorem interrupt_pusha (m : Machine) (eflags cs : UInt32) :
    (pusha (interrupt m eflags cs)).mem =
        pushWords m.mem (m.regs .esp) (interruptFrame m eflags cs) ∧
      (pusha (interrupt m eflags cs)).regs .esp = m.regs .esp - 44 ∧
      (∀ r, r ≠ .esp → (pusha (interrupt m eflags cs)).regs r = m.regs r) := by
  have h12 : m.regs .esp - 12 = m.regs .esp - 4 - 4 - 4 := by grind
  refine ⟨?_, ?_, fun r hr => ?_⟩
  · simp [pusha, interrupt, Machine.pushWord, Machine.set, pushWords, interruptFrame, h12]
  · simp [pusha, interrupt, Machine.pushWord, Machine.set]
    grind
  · simp [pusha, interrupt, Machine.pushWord, Machine.set, hr]

/-- The end of a stub takes the registers and the interrupted place from the words of the frame. -/
theorem popa_iretd {sp : UInt32} (hsp : h.regs .esp = sp - 44) (w : Nat → UInt32)
    (hw : ∀ k < 11, load32 h.mem (sp - UInt32.ofNat (4 * (k + 1))) = w k) :
    (∀ r, (iretd (popa h)).1.regs r = match r with
      | .eax => w 3 | .ecx => w 4 | .edx => w 5 | .ebx => w 6 | .esp => sp | .ebp => w 8
      | .esi => w 9 | .edi => w 10) ∧
    (iretd (popa h)).1.eip = w 2 ∧ (iretd (popa h)).1.mem = h.mem ∧
    (iretd (popa h)).2 = (w 1, w 0) := by
  have hat : ∀ d k, k < 11 → sp - 44 + d = sp - UInt32.ofNat (4 * (k + 1)) →
      load32 h.mem (sp - 44 + d) = w k := by
    intro d k hk he
    rw [he, hw k hk]
  have h0 := hw 10 (by decide)
  have h4 := hat 4 9 (by decide) (by change _ = _ - 40; grind)
  have h8 := hat 8 8 (by decide) (by change _ = _ - 36; grind)
  have h16 := hat 16 6 (by decide) (by change _ = _ - 28; grind)
  have h20 := hat 20 5 (by decide) (by change _ = _ - 24; grind)
  have h24 := hat 24 4 (by decide) (by change _ = _ - 20; grind)
  have h28 := hat 28 3 (by decide) (by change _ = _ - 16; grind)
  have h32 := hat 32 2 (by decide) (by change _ = _ - 12; grind)
  have h36 := hat (32 + 4) 1 (by decide) (by change _ = _ - 8; grind)
  have h40 := hat (32 + 8) 0 (by decide) (by change _ = _ - 4; grind)
  rw [← UInt32.add_assoc] at h36 h40
  have htop : sp - 44 + 32 + 12 = sp := by grind
  refine ⟨fun r => ?_, ?_, rfl, ?_⟩
  · cases r <;> simp [iretd, popa, Machine.set, hsp, h4, h8, h16, h20, h24, h28, htop]
    exact h0
  · simp only [iretd, popa, Machine.set, hsp, h32]
  · simp only [iretd, popa, hsp, h36, h40]

/-- A handler that was called from a stub leaves the frame in place, and writes no further than it
may. -/
theorem Returns.frame (args : List UInt32)
    (hroom : 44 + (4 * args.length + 4) ≤ (m.regs .esp).toNat)
    (hdepth : 4 * args.length + 4 ≤ S.depth)
    (hown : ∀ a, S.own a → a.toNat < (m.regs .esp).toNat - 44 ∨ (m.regs .esp).toNat ≤ a.toNat)
    (hcall : Returns S args.length ((pusha (interrupt m eflags cs)).call args returnTo) h) :
    (∀ k < 11, load32 h.mem (m.regs .esp - UInt32.ofNat (4 * (k + 1))) =
      (interruptFrame m eflags cs).getD k 0) ∧
    h.regs .esp = m.regs .esp - 44 - UInt32.ofNat (4 * args.length) ∧
    ∀ a, ¬(Scratch.mk S.own (S.depth + 44)).Trashes (m.regs .esp) a → h.mem a = m.mem a := by
  have hmax := (m.regs .esp).toNat_lt
  obtain ⟨hmem, hesp, -⟩ := interrupt_pusha m eflags cs
  obtain ⟨hcallmem, -, hcallregs⟩ := foldl_pushWord (pusha (interrupt m eflags cs))
    (args.reverse ++ [returnTo])
  have h44 : (m.regs .esp - 44).toNat = (m.regs .esp).toNat - 44 := sub_toNat 44 (by omega)
  have hlen : (args.reverse ++ [returnTo]).length = args.length + 1 := by simp
  rw [hmem, hesp] at hcallmem
  have hentry : ((pusha (interrupt m eflags cs)).call args returnTo).regs .esp =
      m.regs .esp - 44 - UInt32.ofNat (4 * args.length + 4) := by
    rw [Machine.call, hcallregs, Function.update_self, hesp, hlen]
    congr 1
    simp [UInt32.ofNat_add, UInt32.ofNat_mul]
    grind
  have htop : ((pusha (interrupt m eflags cs)).call args returnTo).regs .esp +
      UInt32.ofNat (4 + 4 * args.length) = m.regs .esp - 44 := by
    rw [hentry, Nat.add_comm]
    grind
  have hframe := pushWords_outside m.mem (m.regs .esp) (interruptFrame m eflags cs)
    (show 4 * 11 ≤ (m.regs .esp).toNat by omega)
  have hargs := pushWords_outside (pushWords m.mem (m.regs .esp) (interruptFrame m eflags cs))
    (m.regs .esp - 44) (args.reverse ++ [returnTo]) (by omega)
  rw [hlen, h44] at hargs
  change SameOutside ((m.regs .esp).toNat - 4 * 11) (m.regs .esp).toNat _ _ at hframe
  -- what the handler leaves at an address that it does not write
  have hkept : ∀ a, ¬S.Trashes (m.regs .esp - 44) a →
      h.mem a = pushWords (pushWords m.mem (m.regs .esp) (interruptFrame m eflags cs))
        (m.regs .esp - 44) (args.reverse ++ [returnTo]) a := by
    intro a ha
    rw [hcall.mem a (by rw [htop]; exact ha), Machine.call, hcallmem]
  refine ⟨fun k hk => ?_, ?_, fun a ha => ?_⟩
  · have hat : (m.regs .esp - UInt32.ofNat (4 * (k + 1))).toNat =
        (m.regs .esp).toNat - 4 * (k + 1) := sub_toNat _ (by omega)
    rw [← load32_pushWords (m := m.mem) (interruptFrame m eflags cs)
      (show 4 * 11 ≤ (m.regs .esp).toNat by omega) hk]
    refine load32_congr (by omega) fun c hlo hhi => ?_
    have hclear : ¬S.Trashes (m.regs .esp - 44) c := by
      rintro (hc | hc)
      · have := hown c hc
        omega
      · omega
    rw [hkept c hclear, hargs c (by omega)]
  · rw [hcall.esp, hentry]
    simp [UInt32.ofNat_add]
    grind
  · simp only [Scratch.Trashes, not_or, not_and] at ha
    have hclear : ¬S.Trashes (m.regs .esp - 44) a := by
      rintro (hc | hc)
      · exact ha.1 hc
      · have := ha.2 (by omega)
        omega
    rw [hkept a hclear, hargs a (by omega), hframe a (by omega)]

end Stubs

end Library.Interruptions
