import VertexOS.Library.Memory

namespace Library.Assembly
open Library.Memory

/-- The general registers of the 32-bit processor. -/
inductive Reg where
  | eax | ecx | edx | ebx | esp | ebp | esi | edi
  deriving DecidableEq, Repr

/-- A processor and the memory it works on. -/
structure Machine where
  regs : Reg → UInt32
  eip : UInt32
  mem : Mem

/-- The instructions of straight-line stubs; `load` and `store` take `[base + disp]`, and `imm`
pushes a constant. -/
inductive Instr where
  | load (dst base : Reg) (disp : UInt32)
  | store (base : Reg) (disp : UInt32) (src : Reg)
  | move (dst src : Reg)
  | imm (w : UInt32)
  | push (src : Reg)
  | pop (dst : Reg)
  | ret
  deriving DecidableEq, Repr

def Machine.set (m : Machine) (r : Reg) (w : UInt32) : Machine :=
  { m with regs := Function.update m.regs r w }

def Machine.pushWord (m : Machine) (w : UInt32) : Machine :=
  { m.set .esp (m.regs .esp - 4) with mem := store32 m.mem (m.regs .esp - 4) w }

def Machine.step (m : Machine) : Instr → Machine
  | .load dst base disp => m.set dst (load32 m.mem (m.regs base + disp))
  | .store base disp src => { m with mem := store32 m.mem (m.regs base + disp) (m.regs src) }
  | .move dst src => m.set dst (m.regs src)
  | .imm w => m.pushWord w
  | .push src => m.pushWord (m.regs src)
  | .pop dst => (m.set .esp (m.regs .esp + 4)).set dst (load32 m.mem (m.regs .esp))
  | .ret => { m.set .esp (m.regs .esp + 4) with eip := load32 m.mem (m.regs .esp) }

/-- The instructions one after the other. -/
def Machine.run (m : Machine) (code : List Instr) : Machine := code.foldl Machine.step m

theorem Machine.run_append (m : Machine) (code code' : List Instr) :
    m.run (code ++ code') = (m.run code).run code' := List.foldl_append

/-- A call under the C convention, up to the callee's first instruction: the arguments, the last
one first, and the return address. -/
def Machine.call (m : Machine) (args : List UInt32) (returnTo : UInt32) : Machine :=
  (args.reverse ++ [returnTo]).foldl Machine.pushWord m

/-- Memory after the words were pushed from the stack pointer `sp` down. -/
def pushWords (m : Mem) (sp : UInt32) : List UInt32 → Mem
  | [] => m
  | w :: ws => pushWords (store32 m (sp - 4) w) (sp - 4) ws

theorem foldl_pushWord (m : Machine) (ws : List UInt32) :
    (ws.foldl Machine.pushWord m).mem = pushWords m.mem (m.regs .esp) ws ∧
    (ws.foldl Machine.pushWord m).eip = m.eip ∧
    (ws.foldl Machine.pushWord m).regs =
      Function.update m.regs .esp (m.regs .esp - 4 * UInt32.ofNat ws.length) := by
  induction ws generalizing m with
  | nil => simp [pushWords]
  | cons w ws ih =>
    obtain ⟨hmem, heip, hregs⟩ := ih (m.pushWord w)
    rw [List.foldl_cons]
    refine ⟨?_, heip, ?_⟩
    · rw [hmem]
      simp [Machine.pushWord, Machine.set, pushWords]
    · rw [hregs]
      have hsum : m.regs .esp - 4 - 4 * UInt32.ofNat ws.length =
          m.regs .esp - 4 * UInt32.ofNat (w :: ws).length := by
        rw [List.length_cons, UInt32.ofNat_add]
        change _ = _ - 4 * (UInt32.ofNat ws.length + 1)
        grind
      simp [Machine.pushWord, Machine.set, hsum]

/-- A word is loaded from its own four bytes. -/
theorem load32_congr {m m' : Mem} {a : UInt32} (ha : a.toNat + 4 ≤ 4294967296)
    (h : ∀ c : UInt32, a.toNat ≤ c.toNat → c.toNat < a.toNat + 4 → m' c = m c) :
    load32 m' a = load32 m a := by
  have h1 : (a + 1).toNat = a.toNat + 1 := toNat_add_small a 1 (by omega)
  have h2 : (a + 2).toNat = a.toNat + 2 := toNat_add_small a 2 (by omega)
  have h3 : (a + 3).toNat = a.toNat + 3 := toNat_add_small a 3 (by omega)
  unfold load32
  rw [h a (by omega) (by omega), h (a + 1) (by omega) (by omega), h (a + 2) (by omega) (by omega),
    h (a + 3) (by omega) (by omega)]

section Pushes

variable {m : Mem} {sp : UInt32}

theorem sub_toNat (k : Nat) (hk : k ≤ sp.toNat) : (sp - UInt32.ofNat k).toNat = sp.toNat - k := by
  have hsp := sp.toNat_lt
  have hof : (UInt32.ofNat k).toNat = k := by
    rw [UInt32.toNat_ofNat']
    omega
  rw [UInt32.toNat_sub_of_le _ _ (UInt32.le_iff_toNat_le.mpr (by omega)), hof]

/-- Pushes write below the stack pointer, and no lower than they need. -/
theorem pushWords_outside (m : Mem) (sp : UInt32) (ws : List UInt32)
    (hroom : 4 * ws.length ≤ sp.toNat) :
    SameOutside (sp.toNat - 4 * ws.length) sp.toNat m (pushWords m sp ws) := by
  induction ws generalizing m sp with
  | nil => exact SameOutside.refl _ _ _
  | cons w ws ih =>
    rw [List.length_cons] at hroom ⊢
    have hsub : (sp - 4).toNat = sp.toNat - 4 := sub_toNat 4 (by omega)
    have hsp := sp.toNat_lt
    have hstore := (store32_outside m (sp - 4) w (by omega)).mono
      (show sp.toNat - 4 * (ws.length + 1) ≤ (sp - 4).toNat by omega)
      (show (sp - 4).toNat + 4 ≤ sp.toNat by omega)
    have hrest := (ih (store32 m (sp - 4) w) (sp - 4) (by omega)).mono
      (show sp.toNat - 4 * (ws.length + 1) ≤ (sp - 4).toNat - 4 * ws.length by omega)
      (show (sp - 4).toNat ≤ sp.toNat by omega)
    exact hstore.trans hrest

/-- A pushed word is found where it was pushed. -/
theorem load32_pushWords (ws : List UInt32) (hroom : 4 * ws.length ≤ sp.toNat)
    (hk : k < ws.length) :
    load32 (pushWords m sp ws) (sp - UInt32.ofNat (4 * (k + 1))) = ws.getD k 0 := by
  induction ws generalizing m sp k with
  | nil => exact absurd hk (Nat.not_lt_zero k)
  | cons w ws ih =>
    rw [List.length_cons] at hroom hk
    have hsub : (sp - 4).toNat = sp.toNat - 4 := sub_toNat 4 (by omega)
    have hsp := sp.toNat_lt
    cases k with
    | zero =>
      have hframe := pushWords_outside (store32 m (sp - 4) w) (sp - 4) ws (by omega)
      have hload := load32_frame hframe (a := sp - 4) (by omega) (by omega)
      exact hload.trans (load32_store32 m (sp - 4) w)
    | succ k =>
      have hsum : sp - UInt32.ofNat (4 * (k + 1 + 1)) = sp - 4 - UInt32.ofNat (4 * (k + 1)) := by
        rw [Nat.mul_add 4 (k + 1) 1, UInt32.ofNat_add]
        change sp - (_ + 4) = _
        grind
      rw [pushWords, hsum]
      exact ih (by omega) (by omega)

end Pushes

end Library.Assembly
