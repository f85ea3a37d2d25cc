import VertexOS.Library.Loops

namespace VertexOS
open Library.Loops

/-! The scan of the PCI bus, over the registers of configuration mechanism 1. -/

/-- What a function of the bus holds at an offset; where there is none, all bits are set. -/
abbrev PciSpace := (bus slot func offset : Nat) → UInt32

/-- The host bridge: the address register, and the space behind the data register. -/
structure PciBridge where
  space : PciSpace
  address : UInt32

def pciMakeAddress (bus slot func offset : UInt8) : UInt32 :=
  ((1 : UInt32) <<< 31) ||| (bus.toUInt32 <<< 16) ||| (slot.toUInt32 <<< 11) |||
    (func.toUInt32 <<< 8) ||| (offset.toUInt32 &&& 0xFC)

/-- `io_outl(PCI_CONFIG_ADDRESS, …)`. -/
def PciBridge.outAddress (p : PciBridge) (a : UInt32) : PciBridge := { p with address := a }

/-- `io_inl(PCI_CONFIG_DATA)`: the bridge takes the fields of the address apart. -/
def PciBridge.inData (p : PciBridge) : UInt32 :=
  let a := p.address.toNat
  if a / 2 ^ 31 = 1 then
    p.space (a / 2 ^ 16 % 256) (a / 2 ^ 11 % 32) (a / 2 ^ 8 % 8) (a % 256 / 4 * 4)
  else 0xFFFFFFFF

def pciConfigRead32 (p : PciBridge) (bus slot func offset : UInt8) : UInt32 :=
  (p.outAddress (pciMakeAddress bus slot func offset)).inData

/-- The loop over the functions of a slot; the functions still to be asked. -/
def scanFuncs (p : PciBridge) (vendorId deviceId : UInt16) (bus slot : UInt8) :
    List UInt8 → Option UInt8
  | [] => none
  | func :: funcs =>
    let id := pciConfigRead32 p bus slot func 0x00
    let vendor := (id &&& 0xFFFF).toUInt16
    if vendor = 0xFFFF then
      -- a slot without a function 0 is left at once
      if func = 0 then none else scanFuncs p vendorId deviceId bus slot funcs
    else
      let device := ((id >>> 16) &&& 0xFFFF).toUInt16
      if vendor = vendorId ∧ device = deviceId then some func
      else scanFuncs p vendorId deviceId bus slot funcs

def scanSlots (p : PciBridge) (vendorId deviceId : UInt16) (bus : UInt8) :
    List UInt8 → Option (UInt8 × UInt8)
  | [] => none
  | slot :: slots =>
    match scanFuncs p vendorId deviceId bus slot ((List.range 8).map UInt8.ofNat) with
    | some func => some (slot, func)
    | none => scanSlots p vendorId deviceId bus slots

def scanBuses (p : PciBridge) (vendorId deviceId : UInt16) :
    List UInt8 → Option (UInt8 × UInt8 × UInt8)
  | [] => none
  | bus :: buses =>
    match scanSlots p vendorId deviceId bus ((List.range 32).map UInt8.ofNat) with
    | some (slot, func) => some (bus, slot, func)
    | none => scanBuses p vendorId deviceId buses

/-- `pci_find_device`; what is stored through the pointers when 1 is returned. -/
def pciFindDevice (p : PciBridge) (vendorId deviceId : UInt16) : Option (UInt8 × UInt8 × UInt8) :=
  scanBuses p vendorId deviceId ((List.range 256).map UInt8.ofNat)

/-- The dword that names vendor and device. -/
def PciBridge.id (p : PciBridge) (bus slot func : Nat) : UInt32 := p.space bus slot func 0

def PciBridge.vendor (p : PciBridge) (bus slot func : Nat) : Nat :=
  (p.id bus slot func).toNat % 65536

def PciBridge.device (p : PciBridge) (bus slot func : Nat) : Nat :=
  (p.id bus slot func).toNat / 65536

/-- A function with these ids, in a slot that has a function 0. -/
def PciBridge.Has (p : PciBridge) (vendorId deviceId : UInt16) (bus slot func : Nat) : Prop :=
  p.vendor bus slot 0 ≠ 65535 ∧ p.vendor bus slot func ≠ 65535 ∧
    p.vendor bus slot func = vendorId.toNat ∧ p.device bus slot func = deviceId.toNat

instance (p : PciBridge) (vendorId deviceId : UInt16) (bus slot func : Nat) :
    Decidable (p.Has vendorId deviceId bus slot func) := inferInstanceAs (Decidable (_ ∧ _))

section Addresses

variable {bus slot func : Nat}

theorem shifted_toNat (b : Nat) (k : UInt32) (hk : k.toNat < 32) (hb : b < 256)
    (hfit : b * 2 ^ k.toNat < 4294967296) :
    ((UInt8.ofNat b).toUInt32 <<< k).toNat = b * 2 ^ k.toNat := by
  have hbyte : (UInt8.ofNat b).toUInt32.toNat = b := by
    rw [UInt8.toNat_toUInt32, UInt8.toNat_ofNat']
    omega
  rw [UInt32.toNat_shiftLeft, hbyte, Nat.mod_eq_of_lt hk, Nat.shiftLeft_eq]
  exact Nat.mod_eq_of_lt hfit

/-- The fields of an address do not overlap. -/
theorem pciMakeAddress_toNat (hb : bus < 256) (hs : slot < 32) (hf : func < 8) :
    (pciMakeAddress (UInt8.ofNat bus) (UInt8.ofNat slot) (UInt8.ofNat func) 0).toNat =
      2 ^ 31 + bus * 2 ^ 16 + slot * 2 ^ 11 + func * 2 ^ 8 := by
  have h16 := shifted_toNat bus 16 (by decide) hb (by change bus * 65536 < _; omega)
  have h11 := shifted_toNat slot 11 (by decide) (by omega) (by change slot * 2048 < _; omega)
  have h8 := shifted_toNat func 8 (by decide) (by omega) (by change func * 256 < _; omega)
  change _ = bus * 2 ^ 16 at h16
  change _ = slot * 2 ^ 11 at h11
  change _ = func * 2 ^ 8 at h8
  have hoff : ((0 : UInt8).toUInt32 &&& 0xFC).toNat = 0 := rfl
  have htop : ((1 : UInt32) <<< 31).toNat = 2 ^ 31 * 1 := rfl
  rw [pciMakeAddress, UInt32.toNat_or, UInt32.toNat_or, UInt32.toNat_or, UInt32.toNat_or, h16, h11,
    h8, hoff, htop, Nat.or_zero,
    ← Nat.two_pow_add_eq_or_of_lt (show bus * 2 ^ 16 < 2 ^ 31 by omega)]
  have h1 : 2 ^ 31 * 1 + bus * 2 ^ 16 = 2 ^ 16 * (2 ^ 15 + bus) := by omega
  rw [h1, ← Nat.two_pow_add_eq_or_of_lt (show slot * 2 ^ 11 < 2 ^ 16 by omega)]
  have h2 : 2 ^ 16 * (2 ^ 15 + bus) + slot * 2 ^ 11 = 2 ^ 11 * (2 ^ 5 * (2 ^ 15 + bus) + slot) := by
    omega
  rw [h2, ← Nat.two_pow_add_eq_or_of_lt (show func * 2 ^ 8 < 2 ^ 11 by omega)]
  omega

/-- The bridge finds the function that the address was made for. -/
theorem pciConfigRead32_id (p : PciBridge) (hb : bus < 256) (hs : slot < 32) (hf : func < 8) :
    pciConfigRead32 p (UInt8.ofNat bus) (UInt8.ofNat slot) (UInt8.ofNat func) 0x00 =
      p.id bus slot func := by
  have ha := pciMakeAddress_toNat hb hs hf
  rw [pciConfigRead32, PciBridge.inData, PciBridge.outAddress]
  dsimp only
  rw [ha, if_pos (by omega), PciBridge.id]
  congr 1 <;> omega

end Addresses

section Scan

variable {p : PciBridge} {vendorId deviceId : UInt16} {bus slot func : Nat}

/-- The ids as the scan takes them from the dword. -/
theorem vendor_eq (hb : bus < 256) (hs : slot < 32) (hf : func < 8) :
    (pciConfigRead32 p (UInt8.ofNat bus) (UInt8.ofNat slot) (UInt8.ofNat func) 0x00 &&&
      0xFFFF).toUInt16.toNat = p.vendor bus slot func := by
  rw [pciConfigRead32_id p hb hs hf, UInt32.toNat_toUInt16, UInt32.toNat_and, PciBridge.vendor]
  change ((p.id bus slot func).toNat &&& 2 ^ 16 - 1) % 65536 = _
  rw [Nat.and_two_pow_sub_one_eq_mod, Nat.mod_mod]

theorem device_eq (hb : bus < 256) (hs : slot < 32) (hf : func < 8) :
    ((pciConfigRead32 p (UInt8.ofNat bus) (UInt8.ofNat slot) (UInt8.ofNat func) 0x00 >>> 16) &&&
      0xFFFF).toUInt16.toNat = p.device bus slot func := by
  have hid := (p.id bus slot func).toNat_lt
  rw [pciConfigRead32_id p hb hs hf, UInt32.toNat_toUInt16, UInt32.toNat_and,
    UInt32.toNat_shiftRight, PciBridge.device, Nat.shiftRight_eq_div_pow]
  change ((p.id bus slot func).toNat / 65536 &&& 2 ^ 16 - 1) % 65536 = _
  rw [Nat.and_two_pow_sub_one_eq_mod]
  omega

theorem absent_iff (hb : bus < 256) (hs : slot < 32) (hf : func < 8) :
    (pciConfigRead32 p (UInt8.ofNat bus) (UInt8.ofNat slot) (UInt8.ofNat func) 0x00 &&&
      0xFFFF).toUInt16 = 0xFFFF ↔ p.vendor bus slot func = 65535 := by
  rw [← UInt16.toNat_inj, vendor_eq hb hs hf]
  rfl

theorem match_iff (hb : bus < 256) (hs : slot < 32) (hf : func < 8) :
    (pciConfigRead32 p (UInt8.ofNat bus) (UInt8.ofNat slot) (UInt8.ofNat func) 0x00 &&&
        0xFFFF).toUInt16 = vendorId ∧
      ((pciConfigRead32 p (UInt8.ofNat bus) (UInt8.ofNat slot) (UInt8.ofNat func) 0x00 >>> 16) &&&
        0xFFFF).toUInt16 = deviceId ↔
    p.vendor bus slot func = vendorId.toNat ∧ p.device bus slot func = deviceId.toNat := by
  rw [← UInt16.toNat_inj, ← UInt16.toNat_inj, vendor_eq hb hs hf, device_eq hb hs hf]

/-- A scan of functions, none of them function 0, in a slot that has one. -/
theorem scanFuncs_behind (vendorId deviceId : UInt16) (hb : bus < 256) (hs : slot < 32) (h0 : p.vendor bus slot 0 ≠ 65535)
    (fs : List Nat) (hfs : ∀ f ∈ fs, f < 8 ∧ f ≠ 0) :
    scanFuncs p vendorId deviceId (UInt8.ofNat bus) (UInt8.ofNat slot) (fs.map UInt8.ofNat) =
      fs.findSome? fun f =>
        if p.Has vendorId deviceId bus slot f then some (UInt8.ofNat f) else none := by
  induction fs with
  | nil => rfl
  | cons f fs ih =>
    obtain ⟨hf, hne⟩ := hfs f List.mem_cons_self
    have hrest := ih fun g hg => hfs g (List.mem_cons_of_mem f hg)
    have hzero : ¬UInt8.ofNat f = 0 := by
      intro h
      have h8 := congrArg UInt8.toNat h
      rw [UInt8.toNat_ofNat'] at h8
      change f % 256 = 0 at h8
      omega
    rw [List.map_cons, scanFuncs, List.findSome?_cons]
    dsimp only
    by_cases hv : p.vendor bus slot f = 65535
    · have hno : ¬p.Has vendorId deviceId bus slot f := fun h => h.2.1 hv
      rw [if_pos ((absent_iff hb hs hf).mpr hv), if_neg hzero, if_neg hno]
      exact hrest
    · rw [if_neg (mt (absent_iff hb hs hf).mp hv)]
      by_cases hm : p.vendor bus slot f = vendorId.toNat ∧ p.device bus slot f = deviceId.toNat
      · rw [if_pos ((match_iff hb hs hf).mpr hm), if_pos ⟨h0, hv, hm⟩]
      · have hno : ¬p.Has vendorId deviceId bus slot f := fun h => hm h.2.2
        rw [if_neg (mt (match_iff hb hs hf).mp hm), if_neg hno]
        exact hrest

/-- The scan of a slot finds the first function with these ids. -/
theorem scanFuncs_slot (p : PciBridge) (vendorId deviceId : UInt16) (hb : bus < 256)
    (hs : slot < 32) :
    scanFuncs p vendorId deviceId (UInt8.ofNat bus) (UInt8.ofNat slot)
        ((List.range 8).map UInt8.ofNat) =
      (List.range 8).findSome? fun f =>
        if p.Has vendorId deviceId bus slot f then some (UInt8.ofNat f) else none := by
  have hrange : List.range 8 = 0 :: [1, 2, 3, 4, 5, 6, 7] := rfl
  by_cases h0 : p.vendor bus slot 0 = 65535
  · have hno (f : Nat) : ¬p.Has vendorId deviceId bus slot f := fun h => h.1 h0
    have hnone : ((List.range 8).findSome? fun f =>
        if p.Has vendorId deviceId bus slot f then some (UInt8.ofNat f) else none) = none :=
      List.findSome?_eq_none_iff.mpr fun f _ => if_neg (hno f)
    rw [hnone, hrange, List.map_cons, scanFuncs]
    exact (if_pos ((absent_iff hb hs (by decide)).mpr h0)).trans (if_pos rfl)
  · have hbehind := scanFuncs_behind vendorId deviceId hb hs h0
      [1, 2, 3, 4, 5, 6, 7] (by decide)
    rw [hrange, List.map_cons, scanFuncs, List.findSome?_cons]
    dsimp only
    rw [if_neg (mt (absent_iff hb hs (by decide)).mp h0)]
    by_cases hm : p.vendor bus slot 0 = vendorId.toNat ∧ p.device bus slot 0 = deviceId.toNat
    · rw [if_pos ((match_iff hb hs (by decide)).mpr hm), if_pos ⟨h0, h0, hm⟩]
    · have hno : ¬p.Has vendorId deviceId bus slot 0 := fun h => hm h.2.2
      rw [if_neg (mt (match_iff hb hs (by decide)).mp hm), if_neg hno]
      exact hbehind

/-- What the scan meets at place `k` of its order. -/
def scanned (p : PciBridge) (vendorId deviceId : UInt16) (k : Nat) :
    Option (UInt8 × UInt8 × UInt8) :=
  if p.Has vendorId deviceId (k / 8 / 32) (k / 8 % 32) (k % 8) then
    some (UInt8.ofNat (k / 8 / 32), UInt8.ofNat (k / 8 % 32), UInt8.ofNat (k % 8))
  else none

theorem scanned_eq (p : PciBridge) (vendorId deviceId : UInt16) (hs : slot < 32) (hf : func < 8) :
    scanned p vendorId deviceId ((bus * 32 + slot) * 8 + func) =
      if p.Has vendorId deviceId bus slot func then
        some (UInt8.ofNat bus, UInt8.ofNat slot, UInt8.ofNat func)
      else none := by
  have h1 : ((bus * 32 + slot) * 8 + func) / 8 / 32 = bus := by omega
  have h2 : ((bus * 32 + slot) * 8 + func) / 8 % 32 = slot := by omega
  have h3 : ((bus * 32 + slot) * 8 + func) % 8 = func := by omega
  rw [scanned, h1, h2, h3]

theorem scanSlots_range (p : PciBridge) (vendorId deviceId : UInt16) (hb : bus < 256)
    (slots : List Nat) (hs : ∀ s ∈ slots, s < 32) :
    (scanSlots p vendorId deviceId (UInt8.ofNat bus) (slots.map UInt8.ofNat)).map
        (fun r => (UInt8.ofNat bus, r.1, r.2)) =
      slots.findSome? fun s => (List.range 8).findSome? fun f =>
        scanned p vendorId deviceId ((bus * 32 + s) * 8 + f) := by
  induction slots with
  | nil => rfl
  | cons s slots ih =>
    have hslot := hs s List.mem_cons_self
    have hfuncs : ((List.range 8).findSome? fun f =>
        scanned p vendorId deviceId ((bus * 32 + s) * 8 + f)) =
        (scanFuncs p vendorId deviceId (UInt8.ofNat bus) (UInt8.ofNat s)
          ((List.range 8).map UInt8.ofNat)).map fun f =>
            (UInt8.ofNat bus, UInt8.ofNat s, f) := by
      rw [scanFuncs_slot p vendorId deviceId hb hslot, List.map_findSome?]
      refine findSome?_congr fun f hf => ?_
      rw [scanned_eq p vendorId deviceId hslot (List.mem_range.mp hf)]
      simp only [Function.comp_apply]
      split <;> rfl
    rw [List.map_cons, scanSlots, List.findSome?_cons, hfuncs]
    cases scanFuncs p vendorId deviceId (UInt8.ofNat bus) (UInt8.ofNat s)
        ((List.range 8).map UInt8.ofNat) with
    | some f => rfl
    | none => exact ih fun t ht => hs t (List.mem_cons_of_mem s ht)

theorem scanBuses_range (p : PciBridge) (vendorId deviceId : UInt16) (buses : List Nat)
    (hb : ∀ b ∈ buses, b < 256) :
    scanBuses p vendorId deviceId (buses.map UInt8.ofNat) =
      buses.findSome? fun b => (List.range 32).findSome? fun s => (List.range 8).findSome? fun f =>
        scanned p vendorId deviceId ((b * 32 + s) * 8 + f) := by
  induction buses with
  | nil => rfl
  | cons b buses ih =>
    have hslots := scanSlots_range p vendorId deviceId (hb b List.mem_cons_self) (List.range 32)
      fun s hs => List.mem_range.mp hs
    rw [List.map_cons, scanBuses, List.findSome?_cons, ← hslots]
    cases scanSlots p vendorId deviceId (UInt8.ofNat b) ((List.range 32).map UInt8.ofNat) with
    | some r => rfl
    | none => exact ih fun t ht => hb t (List.mem_cons_of_mem b ht)

/-- The three loops are one search in the order of bus, slot and function. -/
theorem pciFindDevice_range (p : PciBridge) (vendorId deviceId : UInt16) :
    pciFindDevice p vendorId deviceId =
      (List.range (256 * 32 * 8)).findSome? (scanned p vendorId deviceId) := by
  rw [pciFindDevice, scanBuses_range p vendorId deviceId _ fun b hb => List.mem_range.mp hb,
    ← findSome?_nested (256 * 32) 8, ← findSome?_nested 256 32]

end Scan

theorem ofNat_byte {n : Nat} (h : n < 256) : (UInt8.ofNat n).toNat = n := by
  rw [UInt8.toNat_ofNat']
  exact Nat.mod_eq_of_lt h

/-- The place of a function in the order of the scan. -/
def pciPlace (bus slot func : Nat) : Nat := (bus * 32 + slot) * 8 + func

/-- The scan finds the first function with these ids in the order of bus, slot and function, among
the slots that have a function 0, and nothing exactly where there is none. -/
theorem pci_find_device_first (p : PciBridge) (vendorId deviceId : UInt16) :
    (∀ bus slot func : UInt8, pciFindDevice p vendorId deviceId = some (bus, slot, func) ↔
      slot.toNat < 32 ∧ func.toNat < 8 ∧
        p.Has vendorId deviceId bus.toNat slot.toNat func.toNat ∧
        ∀ b s f, s < 32 → f < 8 → p.Has vendorId deviceId b s f → b < 256 →
          pciPlace bus.toNat slot.toNat func.toNat ≤ pciPlace b s f) ∧
    (pciFindDevice p vendorId deviceId = none ↔
      ∀ b s f, b < 256 → s < 32 → f < 8 → ¬p.Has vendorId deviceId b s f) := by
  rw [pciFindDevice_range]
  constructor
  · intro bus slot func
    rw [findSome?_range_some]
    constructor
    · rintro ⟨k, hk, hit, hbefore⟩
      unfold scanned at hit
      split at hit
      · next hhas =>
        obtain ⟨rfl, rfl, rfl⟩ : UInt8.ofNat (k / 8 / 32) = bus ∧ UInt8.ofNat (k / 8 % 32) = slot ∧
            UInt8.ofNat (k % 8) = func := by
          simpa using hit
        rw [ofNat_byte (by omega), ofNat_byte (by omega), ofNat_byte (by omega)]
        refine ⟨by omega, by omega, hhas, fun b s f hs hf hother hb => ?_⟩
        by_contra hlt
        have hmiss := hbefore (pciPlace b s f) (by unfold pciPlace at hlt ⊢; omega)
        rw [pciPlace, scanned_eq p vendorId deviceId hs hf, if_pos hother] at hmiss
        cases hmiss
      · cases hit
    · rintro ⟨hs, hf, hhas, hfirst⟩
      have hb := bus.toNat_lt
      refine ⟨pciPlace bus.toNat slot.toNat func.toNat, by unfold pciPlace; omega, ?_, ?_⟩
      · rw [pciPlace, scanned_eq p vendorId deviceId hs hf, if_pos hhas, UInt8.ofNat_toNat,
          UInt8.ofNat_toNat, UInt8.ofNat_toNat]
      · intro k hk
        refine if_neg fun hother => ?_
        unfold pciPlace at hk hfirst
        have hle := hfirst _ _ _ (by omega) (by omega) hother (by omega)
        omega
  · rw [findSome?_range_none]
    constructor
    · intro hnone b s f hb hs hf hhas
      have h := hnone ((b * 32 + s) * 8 + f) (by omega)
      rw [scanned_eq p vendorId deviceId hs hf, if_pos hhas] at h
      cases h
    · intro hno k hk
      exact if_neg (hno _ _ _ (by omega) (by omega) (by omega))

end VertexOS
