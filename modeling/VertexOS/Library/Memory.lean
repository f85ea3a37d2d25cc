import VertexOS.Library.Words

namespace Library.Memory
open Library.Words

/-- A byte-addressed memory of 2^32 bytes. -/
abbrev Mem := UInt32 → UInt8

def store8 (m : Mem) (a : UInt32) (b : UInt8) : Mem := Function.update m a b

def load32 (m : Mem) (a : UInt32) : UInt32 := wordOf (m a) (m (a + 1)) (m (a + 2)) (m (a + 3))

def store32 (m : Mem) (a w : UInt32) : Mem :=
  store8 (store8 (store8 (store8 m a (byteOf w 0)) (a + 1) (byteOf w 1)) (a + 2) (byteOf w 2))
    (a + 3) (byteOf w 3)

theorem load32_store32 (m : Mem) (a w : UInt32) : load32 (store32 m a w) a = w := by
  simp [load32, store32, store8]

/-- The two memories differ at most in the bytes of `[lo, hi)`. -/
def SameOutside (lo hi : Nat) (m m' : Mem) : Prop :=
  ∀ a : UInt32, a.toNat < lo ∨ hi ≤ a.toNat → m' a = m a

theorem SameOutside.refl (lo hi : Nat) (m : Mem) : SameOutside lo hi m m := fun _ _ => rfl

theorem SameOutside.trans (h : SameOutside lo hi m m') (h' : SameOutside lo hi m' m'') :
    SameOutside lo hi m m'' := fun a ha => (h' a ha).trans (h a ha)

theorem SameOutside.mono (h : SameOutside lo hi m m') (hlo : lo' ≤ lo) (hhi : hi ≤ hi') :
    SameOutside lo' hi' m m' := fun a ha => h a (by omega)

theorem store8_outside (m : Mem) (a : UInt32) (b : UInt8) :
    SameOutside a.toNat (a.toNat + 1) m (store8 m a b) := by
  intro c hc
  refine Function.update_of_ne (fun he => ?_) _ _
  rw [he] at hc
  omega

theorem toNat_add_small (a : UInt32) (k : Nat) (hk : a.toNat + k < 4294967296) :
    (a + UInt32.ofNat k).toNat = a.toNat + k := by
  rw [UInt32.toNat_add, UInt32.toNat_ofNat']
  omega

theorem store32_outside (m : Mem) (a w : UInt32) (ha : a.toNat + 4 ≤ 4294967296) :
    SameOutside a.toNat (a.toNat + 4) m (store32 m a w) := by
  have h1 : (a + 1).toNat = a.toNat + 1 := toNat_add_small a 1 (by omega)
  have h2 : (a + 2).toNat = a.toNat + 2 := toNat_add_small a 2 (by omega)
  have h3 : (a + 3).toNat = a.toNat + 3 := toNat_add_small a 3 (by omega)
  have hbyte : ∀ m' c b, SameOutside a.toNat (a.toNat + 4) m m' → a.toNat ≤ c.toNat →
      c.toNat < a.toNat + 4 → SameOutside a.toNat (a.toNat + 4) m (store8 m' c b) :=
    fun m' c b h hlo hhi => h.trans ((store8_outside m' c b).mono hlo hhi)
  have s0 := hbyte m a (byteOf w 0) (SameOutside.refl _ _ _) (by omega) (by omega)
  have s1 := hbyte _ (a + 1) (byteOf w 1) s0 (by omega) (by omega)
  have s2 := hbyte _ (a + 2) (byteOf w 2) s1 (by omega) (by omega)
  exact hbyte _ (a + 3) (byteOf w 3) s2 (by omega) (by omega)

/-- Bytes written one after the other. -/
def storeBytes (m : Mem) (a : UInt32) : List UInt8 → Mem
  | [] => m
  | b :: bs => storeBytes (store8 m a b) (a + 1) bs

theorem storeBytes_outside (m : Mem) (a : UInt32) (bs : List UInt8)
    (ha : a.toNat + bs.length ≤ 4294967296) :
    SameOutside a.toNat (a.toNat + bs.length) m (storeBytes m a bs) := by
  induction bs generalizing m a with
  | nil => exact SameOutside.refl _ _ _
  | cons b bs ih =>
    rw [List.length_cons] at ha ⊢
    have hs := (store8_outside m a b).mono (Nat.le_refl _)
      (show a.toNat + 1 ≤ a.toNat + (bs.length + 1) by omega)
    cases bs with
    | nil => exact hs
    | cons b' bs' =>
      have hl : (b' :: bs').length = bs'.length + 1 := rfl
      have h1 : (a + 1).toNat = a.toNat + 1 := toNat_add_small a 1 (by omega)
      exact hs.trans ((ih (store8 m a b) (a + 1) (by omega)).mono (by omega) (by omega))

/-- What was written is read back. -/
theorem storeBytes_get (m : Mem) (a : UInt32) (bs : List UInt8)
    (ha : a.toNat + bs.length ≤ 4294967296) (hk : k < bs.length) :
    storeBytes m a bs (a + UInt32.ofNat k) = bs.getD k 0 := by
  induction bs generalizing m a k with
  | nil => exact absurd hk (Nat.not_lt_zero k)
  | cons b bs ih =>
    rw [List.length_cons] at ha hk
    cases k with
    | zero =>
      cases bs with
      | nil => simp [storeBytes, store8]
      | cons b' bs' =>
        rw [List.length_cons] at ha
        have h1 : (a + 1).toNat = a.toNat + 1 := toNat_add_small a 1 (by omega)
        have hs := storeBytes_outside (store8 m a b) (a + 1) (b' :: bs')
          (by rw [List.length_cons]; omega)
        rw [storeBytes, show a + UInt32.ofNat 0 = a from UInt32.add_zero a,
          hs a (by omega), store8, Function.update_self]
        rfl
    | succ k =>
      have h1 : (a + 1).toNat = a.toNat + 1 := toNat_add_small a 1 (by omega)
      have hadd : a + UInt32.ofNat (k + 1) = a + 1 + UInt32.ofNat k := by
        rw [UInt32.ofNat_add, UInt32.add_comm (UInt32.ofNat k), ← UInt32.add_assoc]
        rfl
      rw [storeBytes, hadd, ih (store8 m a b) (a + 1) (by omega) (by omega)]
      rfl

/-- A word clear of the changed bytes loads as before. -/
theorem load32_frame (h : SameOutside lo hi m m') (ha : a.toNat + 4 ≤ 4294967296)
    (hout : a.toNat + 4 ≤ lo ∨ hi ≤ a.toNat) : load32 m' a = load32 m a := by
  have h1 : (a + 1).toNat = a.toNat + 1 := toNat_add_small a 1 (by omega)
  have h2 : (a + 2).toNat = a.toNat + 2 := toNat_add_small a 2 (by omega)
  have h3 : (a + 3).toNat = a.toNat + 3 := toNat_add_small a 3 (by omega)
  unfold load32
  rw [h a (by omega), h (a + 1) (by omega), h (a + 2) (by omega), h (a + 3) (by omega)]

end Library.Memory
