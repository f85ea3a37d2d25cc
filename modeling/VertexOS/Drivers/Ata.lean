import VertexOS.Library.Programs
import VertexOS.Library.Transitions
import VertexOS.Library.Words
import VertexOS.Fs.Device

namespace VertexOS.Ata
open Library.BlockStore Library.Programs Library.Transitions Library.Words

/-! The programmed transfers of the disk driver, over a drive with registers. -/

/-- What becomes of a command: the drive serves it, refuses it before any data move, or takes the
data of a write and does not store them. A read that would be lost is refused. -/
inductive Fate where
  | served
  | refused
  | lost
  deriving DecidableEq, Repr

/-- The transfer at hand and the word it goes on with. -/
inductive Phase where
  | idle
  | reading (data : Sector) (next : Nat)
  | writing (lba : Nat) (data : Sector) (next : Nat)

/-- An ATA drive. `busy` counts the reads of the status register that still show it busy;
`busyFor k` and `busyAfter k` are those before and after the data of its `k`-th command. -/
structure Device where
  sectors : Store 512
  secCount0 : UInt8
  lba0 : UInt8
  lba1 : UInt8
  lba2 : UInt8
  hdDevSel : UInt8
  phase : Phase
  busy : Nat
  err : Bool
  commands : Nat
  fate : Nat → Fate
  busyFor : Nat → Nat
  busyAfter : Nat → Nat

inductive Register where
  | secCount0
  | lba0
  | lba1
  | lba2
  | hdDevSel
  | command
  deriving DecidableEq, Repr

def ataCmdReadPio : UInt8 := 0x20
def ataCmdWritePio : UInt8 := 0x30
def ataSrBsy : UInt8 := 0x80
def ataSrDrq : UInt8 := 0x08
def ataSrErr : UInt8 := 0x01

def wordAt (data : Sector) (i : Nat) : UInt16 :=
  halfOf (data (Fin.ofNat 512 (2 * i))) (data (Fin.ofNat 512 (2 * i + 1)))

def setWord (data : Sector) (i : Nat) (w : UInt16) : Sector := fun j =>
  if j.val / 2 = i then (if j.val % 2 = 0 then w.toUInt8 else (w >>> 8).toUInt8) else data j

/-- The data request bit of the status register. -/
def Phase.drq : Phase → UInt8
  | .idle => 0
  | _ => ataSrDrq

/-- The sector that the address registers name. -/
def Device.target (d : Device) : Nat :=
  d.lba0.toNat + 256 * d.lba1.toNat + 65536 * d.lba2.toNat + 16777216 * (d.hdDevSel.toNat % 16)

/-- A busy drive shows nothing but that it is busy. -/
def Device.status (d : Device) : UInt8 :=
  if d.busy = 0 then
    d.phase.drq ||| (if d.err then ataSrErr else 0)
  else ataSrBsy

/-- The drive serves commands to drive 0 in LBA mode that move one sector. -/
def Device.addressed (d : Device) : Bool := d.secCount0 = 1 ∧ d.hdDevSel >>> 4 = 0xE

/-- A new command clears the error of the one before it. -/
def Device.execute (d : Device) (cmd : UInt8) : Device :=
  let d' := { d with err := false, commands := d.commands + 1, busy := d.busyFor d.commands }
  if d.addressed = false then { d' with err := true }
  else if cmd = ataCmdReadPio then
    if d.fate d.commands = .served then { d' with phase := .reading (d.sectors d.target) 0 }
    else { d' with err := true }
  else if cmd = ataCmdWritePio then
    if d.fate d.commands = .refused then { d' with err := true }
    else { d' with phase := .writing d.target (fun _ => 0) 0 }
  else { d' with err := true }

/-- A busy drive ignores its registers. -/
def Device.out (d : Device) (r : Register) (value : UInt8) : Device :=
  if d.busy = 0 then
    match r with
    | .secCount0 => { d with secCount0 := value }
    | .lba0 => { d with lba0 := value }
    | .lba1 => { d with lba1 := value }
    | .lba2 => { d with lba2 := value }
    | .hdDevSel => { d with hdDevSel := value }
    | .command => d.execute value
  else d

/-- The end of a transfer belongs to the command issued last. -/
def Device.finish (d : Device) : Device :=
  { d with phase := .idle, busy := d.busyAfter (d.commands - 1) }

def Device.inData (d : Device) : UInt16 × Device :=
  match d.phase with
  | .reading data next =>
    if d.busy = 0 then
      (wordAt data next,
        if next + 1 = 256 then d.finish else { d with phase := .reading data (next + 1) })
    else (0, d)
  | _ => (0, d)

/-- The last word of a sector stores it, or loses it. -/
def Device.outData (d : Device) (w : UInt16) : Device :=
  match d.phase with
  | .writing lba data next =>
    if d.busy = 0 then
      if next + 1 = 256 then
        if d.fate (d.commands - 1) = .lost then { d.finish with err := true }
        else { d.finish with sectors := perform d.sectors ⟨lba, setWord data next w⟩ }
      else { d with phase := .writing lba (setWord data next w) (next + 1) }
    else d
  | _ => d

/-- The reading and writing of the ports. -/
abbrev Io := Prog Device

def ioInb : Io UInt8 := do
  let d ← get
  set { d with busy := d.busy - 1 }
  return d.status

def ioOutb (r : Register) (value : UInt8) : Io Unit := modify fun d => d.out r value

def inw : Io UInt16 := do
  let d ← get
  set d.inData.2
  return d.inData.1

def outw (w : UInt16) : Io Unit := modify fun d => d.outData w

def ataIoWait : Io Unit := do
  let _ ← ioInb
  let _ ← ioInb
  let _ ← ioInb
  let _ ← ioInb

def ataWaitReady : Nat → Io Bool
  | 0 => fun _ => none
  | fuel + 1 => do
    let status ← ioInb
    if status &&& ataSrBsy = 0 then
      if status &&& ataSrErr ≠ 0 then return false else return true
    else ataWaitReady fuel

def ataWaitDrq : Nat → Io Bool
  | 0 => fun _ => none
  | fuel + 1 => do
    let status ← ioInb
    if status &&& ataSrBsy = 0 ∧ status &&& ataSrDrq ≠ 0 then return true
    else if status &&& ataSrErr ≠ 0 then return false
    else ataWaitDrq fuel

/-- The writes that name a sector, as both transfers begin. -/
def selectSector (lba : UInt32) : Io Unit := do
  ioOutb .hdDevSel ((0xE0 : UInt32) ||| ((lba >>> 24) &&& 0x0F)).toUInt8
  ioOutb .secCount0 1
  ioOutb .lba0 (lba &&& 0xFF).toUInt8
  ioOutb .lba1 ((lba >>> 8) &&& 0xFF).toUInt8
  ioOutb .lba2 ((lba >>> 16) &&& 0xFF).toUInt8

/-- The words from number `i` on, `n` of them, into the caller's buffer. -/
def readWords : (n i : Nat) → Sector → Io Sector
  | 0, _, out => pure out
  | n + 1, i, out => do
    let w ← inw
    readWords n (i + 1) (setWord out i w)

def writeWords : (n i : Nat) → Sector → Io Unit
  | 0, _, _ => pure ()
  | n + 1, i, data => do
    outw (wordAt data i)
    writeWords n (i + 1) data

def ataReadSector (fuel : Nat) (lba : UInt32) (buffer : Sector) : Io (Option Sector) := do
  if !(← ataWaitReady fuel) then return none
  selectSector lba
  ioOutb .command ataCmdReadPio
  if !(← ataWaitDrq fuel) then return none
  let out ← readWords 256 0 buffer
  ataIoWait
  return some out

def ataWriteSector (fuel : Nat) (lba : UInt32) (buffer : Sector) : Io Bool := do
  if !(← ataWaitReady fuel) then return false
  selectSector lba
  ioOutb .command ataCmdWritePio
  if !(← ataWaitDrq fuel) then return false
  writeWords 256 0 buffer
  ataIoWait
  ataWaitReady fuel

def blockdevRead (fuel : Nat) (lba : UInt32) (buffer : Sector) : Io (Option Sector) :=
  if lba ≥ sectorCount then return none else ataReadSector fuel lba buffer

def blockdevWrite (fuel : Nat) (lba : UInt32) (buffer : Sector) : Io Bool :=
  if lba ≥ sectorCount then return false else ataWriteSector fuel lba buffer

section Waiting

variable {d : Device} {fuel : Nat}

theorem status_busy (h : d.busy ≠ 0) : d.status = ataSrBsy := if_neg h

theorem Phase.drq_cases (p : Phase) : p.drq = 0 ∨ p.drq = ataSrDrq := by
  cases p
  · exact Or.inl rfl
  · exact Or.inr rfl
  · exact Or.inr rfl

theorem status_bsy (h : d.busy = 0) : d.status &&& ataSrBsy = 0 := by
  rw [Device.status, if_pos h]
  rcases d.phase.drq_cases with hq | hq <;> rw [hq] <;> cases d.err <;> decide

theorem status_err (h : d.busy = 0) : d.status &&& ataSrErr ≠ 0 ↔ d.err = true := by
  rw [Device.status, if_pos h]
  rcases d.phase.drq_cases with hq | hq <;> rw [hq] <;> cases d.err <;> decide

theorem status_drq (h : d.busy = 0) : d.status &&& ataSrDrq ≠ 0 ↔ d.phase.drq ≠ 0 := by
  rw [Device.status, if_pos h]
  rcases d.phase.drq_cases with hq | hq <;> rw [hq] <;> cases d.err <;> decide

theorem ioInb_bind_run {f : UInt8 → Io α} (d : Device) :
    (ioInb >>= f) d = f d.status { d with busy := d.busy - 1 } := rfl

/-- The drive when its wait is over. -/
def Device.rest (d : Device) : Device := { d with busy := 0 }

/-- The wait for the drive ends when the drive is no longer busy, and tells its error bit. -/
theorem waitReady_run (h : d.busy < fuel) :
    ataWaitReady fuel d = some (!d.err, d.rest) := by
  induction fuel generalizing d with
  | zero => exact absurd h (Nat.not_lt_zero _)
  | succ fuel ih =>
    rw [ataWaitReady, ioInb_bind_run]
    by_cases hb : d.busy = 0
    · have hd : { d with busy := d.busy - 1 } = d.rest := by rw [hb, Device.rest]
      rw [hd, if_pos (status_bsy hb)]
      by_cases he : d.err = true
      · rw [if_pos ((status_err hb).mpr he), he]
        rfl
      · rw [if_neg (mt (status_err hb).mp he), Bool.eq_false_iff.mpr he]
        rfl
    · have hlt : d.busy - 1 < fuel := by omega
      rw [status_busy hb, if_neg (by decide)]
      exact ih (d := { d with busy := d.busy - 1 }) hlt

/-- The wait for the data ends likewise. -/
theorem waitDrq_run (h : d.busy < fuel) (hdone : d.phase.drq ≠ 0 ∨ d.err = true) :
    ataWaitDrq fuel d = some (decide (d.phase.drq ≠ 0), d.rest) := by
  induction fuel generalizing d with
  | zero => exact absurd h (Nat.not_lt_zero _)
  | succ fuel ih =>
    rw [ataWaitDrq, ioInb_bind_run]
    by_cases hb : d.busy = 0
    · have hd : { d with busy := d.busy - 1 } = d.rest := by rw [hb, Device.rest]
      rw [hd]
      by_cases hq : d.phase.drq ≠ 0
      · rw [if_pos ⟨status_bsy hb, (status_drq hb).mpr hq⟩, decide_eq_true hq]
        rfl
      · rw [if_neg fun hc => hq ((status_drq hb).mp hc.2), decide_eq_false hq,
          if_pos ((status_err hb).mpr (hdone.resolve_left hq))]
        rfl
    · have hlt : d.busy - 1 < fuel := by omega
      rw [status_busy hb, if_neg (by decide), if_neg (by decide)]
      exact ih (d := { d with busy := d.busy - 1 }) hlt hdone

end Waiting

section Words

theorem halfOf_low (a b : UInt8) : (halfOf a b).toUInt8 = a := by
  apply UInt8.toNat_inj.mp
  have ha := a.toNat_lt
  have hb := b.toNat_lt
  simp only [halfOf, UInt16.toNat_toUInt8, UInt16.toNat_ofNat']
  omega

theorem halfOf_high (a b : UInt8) : (halfOf a b >>> 8).toUInt8 = b := by
  apply UInt8.toNat_inj.mp
  have ha := a.toNat_lt
  have hb := b.toNat_lt
  simp only [halfOf, UInt16.toNat_toUInt8, UInt16.toNat_shiftRight, UInt16.toNat_ofNat',
    Nat.shiftRight_eq_div_pow]
  change _ / 256 % 256 = _
  omega

/-- A buffer whose first `k` words come from `data`. -/
def blend (data out : Sector) (k : Nat) : Sector := fun j =>
  if j.val / 2 < k then data j else out j

theorem blend_zero (data out : Sector) : blend data out 0 = out := by
  funext j
  rw [blend, if_neg (Nat.not_lt_zero _)]

theorem blend_all (data out : Sector) : blend data out 256 = data := by
  funext j
  have hj := j.isLt
  rw [blend, if_pos (by omega)]

/-- A word that is carried over extends what was carried over. -/
theorem setWord_wordAt (data out : Sector) (k : Nat) (hk : k < 256) :
    setWord (blend data out k) k (wordAt data k) = blend data out (k + 1) := by
  funext j
  have hj := j.isLt
  unfold setWord blend
  by_cases hw : j.val / 2 = k
  · have hlt : j.val / 2 < k + 1 := by omega
    rw [if_pos hw, if_pos hlt, wordAt, halfOf_low, halfOf_high]
    split
    · next h => exact congrArg data (Fin.ext (by simp only [Fin.ofNat]; omega))
    · next h => exact congrArg data (Fin.ext (by simp only [Fin.ofNat]; omega))
  · rw [if_neg hw]
    by_cases hlt : j.val / 2 < k
    · rw [if_pos hlt, if_pos (by omega)]
    · rw [if_neg hlt, if_neg (by omega)]

end Words

section Transfers

variable {d : Device} {data out : Sector} {lba n i : Nat}

/-- The data of a read, word by word. -/
theorem readWords_run (hp : d.phase = .reading data i) (hb : d.busy = 0) (hn : n + 1 + i = 256) :
    readWords (n + 1) i (blend data out i) d = some (data, d.finish) := by
  induction n generalizing d i with
  | zero =>
    have hi : i + 1 = 256 := by omega
    have hin : d.inData = (wordAt data i, d.finish) := by
      simp only [Device.inData, hp, hb, hi, ↓reduceIte]
    change readWords 0 (i + 1) (setWord (blend data out i) i d.inData.1) d.inData.2 = _
    rw [hin, setWord_wordAt data out i (by omega), hi, blend_all]
    rfl
  | succ n ih =>
    have hi : ¬i + 1 = 256 := by omega
    have hin : d.inData = (wordAt data i, { d with phase := .reading data (i + 1) }) := by
      simp only [Device.inData, hp, hb, hi, ↓reduceIte]
    change readWords (n + 1) (i + 1) (setWord (blend data out i) i d.inData.1) d.inData.2 = _
    rw [hin, setWord_wordAt data out i (by omega)]
    exact ih (d := { d with phase := .reading data (i + 1) }) rfl hb (by omega)

/-- The drive at the end of a write that moved `data`. -/
def Device.store (d : Device) (lba : Nat) (data : Sector) : Device :=
  if d.fate (d.commands - 1) = .lost then { d.finish with err := true }
  else { d.finish with sectors := perform d.sectors ⟨lba, data⟩ }

theorem store_idle (d : Device) (lba : Nat) (data : Sector) :
    (d.store lba data).phase = .idle ∧ (d.store lba data).busy = d.busyAfter (d.commands - 1) ∧
      (d.store lba data).commands = d.commands := by
  unfold Device.store
  split <;> exact ⟨rfl, rfl, rfl⟩

theorem store_schedule (d : Device) (lba : Nat) (data : Sector) :
    (d.store lba data).fate = d.fate ∧ (d.store lba data).busyFor = d.busyFor ∧
      (d.store lba data).busyAfter = d.busyAfter := by
  unfold Device.store
  split <;> exact ⟨rfl, rfl, rfl⟩

theorem store_lost (h : d.fate (d.commands - 1) = .lost) (lba : Nat) (data : Sector) :
    (d.store lba data).err = true ∧ (d.store lba data).sectors = d.sectors := by
  rw [Device.store, if_pos h]
  exact ⟨rfl, rfl⟩

theorem store_stored (h : d.fate (d.commands - 1) ≠ .lost) (lba : Nat) (data : Sector) :
    (d.store lba data).err = d.err ∧
      (d.store lba data).sectors = perform d.sectors ⟨lba, data⟩ := by
  rw [Device.store, if_neg h]
  exact ⟨rfl, rfl⟩

/-- The data of a write, word by word. -/
theorem writeWords_run (hp : d.phase = .writing lba (blend data out i) i) (hb : d.busy = 0)
    (hn : n + 1 + i = 256) : writeWords (n + 1) i data d = some ((), d.store lba data) := by
  induction n generalizing d i with
  | zero =>
    have hi : i + 1 = 256 := by omega
    change some ((), d.outData (wordAt data i)) = _
    simp only [Device.outData, hp, hb, hi, setWord_wordAt data out i (by omega), blend_all,
      ↓reduceIte, Device.store]
  | succ n ih =>
    have hi : ¬i + 1 = 256 := by omega
    have hout : d.outData (wordAt data i) =
        { d with phase := .writing lba (blend data out (i + 1)) (i + 1) } := by
      simp only [Device.outData, hp, hb, hi, setWord_wordAt data out i (by omega), ↓reduceIte]
    change writeWords (n + 1) (i + 1) data (d.outData (wordAt data i)) = _
    rw [hout]
    exact ih (d := { d with phase := .writing lba (blend data out (i + 1)) (i + 1) }) rfl hb
      (by omega)

theorem readSector_run (hp : d.phase = .reading data 0) (hb : d.busy = 0) (out : Sector) :
    readWords 256 0 out d = some (data, d.finish) := by
  have h : readWords (255 + 1) 0 (blend data out 0) d = some (data, d.finish) :=
    readWords_run hp hb rfl
  rwa [blend_zero] at h

theorem writeSector_run (hp : d.phase = .writing lba out 0) (hb : d.busy = 0) (data : Sector) :
    writeWords 256 0 data d = some ((), d.store lba data) := by
  rw [← blend_zero data out] at hp
  exact writeWords_run (n := 255) hp hb rfl

end Transfers

section Addresses

variable {d : Device} {lba : UInt32}

/-- The registers as `selectSector` leaves them. -/
def Device.select (d : Device) (lba : UInt32) : Device :=
  { d with
    hdDevSel := ((0xE0 : UInt32) ||| ((lba >>> 24) &&& 0x0F)).toUInt8, secCount0 := 1,
    lba0 := (lba &&& 0xFF).toUInt8, lba1 := ((lba >>> 8) &&& 0xFF).toUInt8,
    lba2 := ((lba >>> 16) &&& 0xFF).toUInt8 }

theorem selectSector_run (hb : d.busy = 0) :
    selectSector lba d = some ((), d.select lba) := by
  simp only [selectSector, ioOutb, modify_bind_run, modify_run, Device.out, hb, ↓reduceIte,
    Device.select]

theorem hdDevSel_cases (n : Nat) (hn : n < 16) :
    ((0xE0 : UInt32) ||| UInt32.ofNat n).toUInt8 >>> 4 = 0xE ∧
      ((0xE0 : UInt32) ||| UInt32.ofNat n).toUInt8.toNat % 16 = n := by
  revert n
  decide

theorem topBits_toNat (lba : UInt32) :
    ((lba >>> 24) &&& 0x0F).toNat = lba.toNat / 2 ^ 24 % 2 ^ 4 := by
  rw [UInt32.toNat_and, UInt32.toNat_shiftRight, Nat.shiftRight_eq_div_pow]
  exact Nat.and_two_pow_sub_one_eq_mod _ 4

theorem byte_toNat (w : UInt32) : (w &&& 0xFF).toUInt8.toNat = w.toNat % 2 ^ 8 := by
  rw [UInt32.toNat_toUInt8, UInt32.toNat_and]
  change (w.toNat &&& 2 ^ 8 - 1) % 2 ^ 8 = _
  rw [Nat.and_two_pow_sub_one_eq_mod, Nat.mod_mod]

theorem hdDevSel_select :
    (d.select lba).hdDevSel >>> 4 = 0xE ∧
      (d.select lba).hdDevSel.toNat % 16 = lba.toNat / 2 ^ 24 % 2 ^ 4 := by
  have hlt : ((lba >>> 24) &&& 0x0F).toNat < 16 := by
    rw [topBits_toNat]
    omega
  have h := hdDevSel_cases _ hlt
  rw [UInt32.ofNat_toNat, topBits_toNat] at h
  exact h

theorem addressed_select : (d.select lba).addressed = true :=
  decide_eq_true ⟨rfl, hdDevSel_select.1⟩

/-- The registers have room for 28 bits. -/
theorem target_select (hl : lba.toNat < 2 ^ 28) : (d.select lba).target = lba.toNat := by
  have h8 : (lba >>> 8).toNat = lba.toNat / 2 ^ 8 := by
    rw [UInt32.toNat_shiftRight, Nat.shiftRight_eq_div_pow]
    rfl
  have h16 : (lba >>> 16).toNat = lba.toNat / 2 ^ 16 := by
    rw [UInt32.toNat_shiftRight, Nat.shiftRight_eq_div_pow]
    rfl
  rw [Device.target, hdDevSel_select.2]
  change (lba &&& 0xFF).toUInt8.toNat + 256 * ((lba >>> 8) &&& 0xFF).toUInt8.toNat +
    65536 * ((lba >>> 16) &&& 0xFF).toUInt8.toNat + _ = _
  rw [byte_toNat, byte_toNat, byte_toNat, h8, h16]
  omega

end Addresses

section Accesses

variable {d b : Device} {lba : UInt32} {fuel : Nat}

/-- Whether the next access is answered. -/
def Device.serves (d : Device) : Bool := !d.err && d.fate d.commands = .served

/-- What one access leaves: a drive at rest, whose error bit tells how the access went. -/
structure Device.Answered (d d' : Device) (sectors : Store 512) : Prop where
  idle : d'.phase = .idle
  busy : d'.busy ≤ d.busyAfter d.commands
  sectors : d'.sectors = sectors
  err : d'.err = !d.serves
  commands : d'.commands = if d.err then d.commands else d.commands + 1
  fate : d'.fate = d.fate
  busyFor : d'.busyFor = d.busyFor
  busyAfter : d'.busyAfter = d.busyAfter

/-- The drive is patient enough for the next access. -/
structure Device.Patient (d : Device) (fuel : Nat) : Prop where
  before : d.busy < fuel
  data : d.busyFor d.commands < fuel
  after : d.busyAfter d.commands < fuel

/-- The drive when the command has been issued. -/
def Device.issue (d : Device) (lba : UInt32) (cmd : UInt8) : Device :=
  (d.rest.select lba).execute cmd

theorem serves_of (he : d.err = false) : d.serves = decide (d.fate d.commands = .served) := by
  rw [Device.serves, he]
  rfl

/-- The drive has begun a transfer. -/
def Device.begin (d : Device) (lba : UInt32) (p : Phase) : Device :=
  { d.select lba with
    err := false, commands := d.commands + 1, busy := d.busyFor d.commands, phase := p }

/-- The drive has refused a command. -/
def Device.refuse (d : Device) (lba : UInt32) : Device :=
  { d.select lba with err := true, commands := d.commands + 1, busy := d.busyFor d.commands }

theorem issue_read (hl : lba.toNat < 2 ^ 28) : d.issue lba ataCmdReadPio =
    if d.fate d.commands = .served then d.begin lba (.reading (d.sectors lba.toNat) 0)
    else d.refuse lba := by
  rw [Device.issue, Device.execute, addressed_select, if_neg (by decide), if_pos rfl,
    target_select hl]
  rfl

theorem issue_write (hl : lba.toNat < 2 ^ 28) : d.issue lba ataCmdWritePio =
    if d.fate d.commands = .refused then d.refuse lba
    else d.begin lba (.writing lba.toNat (fun _ => 0) 0) := by
  rw [Device.issue, Device.execute, addressed_select, if_neg (by decide), if_neg (by decide),
    if_pos rfl, target_select hl]
  rfl

/-- A drive that has refused the command is at rest again. -/
theorem answered_refuse (hidle : d.phase = .idle) (hs : d.serves = false) (he : d.err = false)
    (lba : UInt32) : d.Answered (d.refuse lba).rest d.sectors := by
  refine ⟨hidle, Nat.zero_le _, rfl, ?_, ?_, rfl, rfl, rfl⟩
  · rw [hs]
    rfl
  · rw [he]
    rfl

theorem ataIoWait_bind_run {f : Unit → Io α} (d : Device) :
    (ataIoWait >>= f) d = f () { d with busy := d.busy - 1 - 1 - 1 - 1 } := rfl

theorem serves_latched (he : d.err = true) : d.serves = false := by
  rw [Device.serves, he]
  rfl

/-- A drive with its error bit set is not sent a command. -/
theorem answered_latched (hidle : d.phase = .idle) (he : d.err = true) :
    d.Answered d.rest d.sectors := by
  refine ⟨hidle, Nat.zero_le _, rfl, ?_, (if_pos he).symm, rfl, rfl, rfl⟩
  rw [serves_latched he]
  exact he

/-- What the driver has done once the command is out. -/
theorem read_issued (hp : d.Patient fuel) (he : d.err = false) (buffer : Sector) :
    ataReadSector fuel lba buffer d = (do
      if !(← ataWaitDrq fuel) then return none
      let out ← readWords 256 0 buffer
      ataIoWait
      return some out : Io (Option Sector)) (d.issue lba ataCmdReadPio) := by
  rw [ataReadSector, bind_run (waitReady_run hp.before), he]
  change (selectSector lba >>= _) _ = _
  rw [bind_run (selectSector_run rfl)]
  rfl

theorem write_issued (hp : d.Patient fuel) (he : d.err = false) (buffer : Sector) :
    ataWriteSector fuel lba buffer d = (do
      if !(← ataWaitDrq fuel) then return false
      writeWords 256 0 buffer
      ataIoWait
      ataWaitReady fuel : Io Bool) (d.issue lba ataCmdWritePio) := by
  rw [ataWriteSector, bind_run (waitReady_run hp.before), he]
  change (selectSector lba >>= _) _ = _
  rw [bind_run (selectSector_run rfl)]
  rfl

/-- The drive behind a read. -/
def Device.afterRead (d : Device) (lba : UInt32) : Device :=
  if d.err then d.rest
  else if d.fate d.commands = .served then
    let e := (d.begin lba (.reading (d.sectors lba.toNat) 0)).rest.finish
    { e with busy := e.busy - 1 - 1 - 1 - 1 }
  else (d.refuse lba).rest

/-- The drive behind a write. -/
def Device.afterWrite (d : Device) (lba : UInt32) (buffer : Sector) : Device :=
  if d.err then d.rest
  else if d.fate d.commands = .refused then (d.refuse lba).rest
  else ((d.begin lba (.writing lba.toNat (fun _ => 0) 0)).rest.store lba.toNat buffer).rest

theorem afterRead_answered (hidle : d.phase = .idle) (lba : UInt32) :
    d.Answered (d.afterRead lba) d.sectors := by
  unfold Device.afterRead
  cases he : d.err with
  | true => exact answered_latched hidle he
  | false =>
    have hs := serves_of he
    by_cases hf : d.fate d.commands = .served
    · rw [decide_eq_true hf] at hs
      rw [if_neg Bool.false_ne_true, if_pos hf]
      refine ⟨rfl, ?_, rfl, ?_, ?_, rfl, rfl, rfl⟩
      · change d.busyAfter d.commands - 1 - 1 - 1 - 1 ≤ _
        omega
      · rw [hs]
        rfl
      · rw [he]
        rfl
    · rw [decide_eq_false hf] at hs
      rw [if_neg Bool.false_ne_true, if_neg hf]
      exact answered_refuse hidle hs he lba

/-- A read moves the sector the drive holds, or fails where the drive refuses it. -/
theorem ataReadSector_run (hidle : d.phase = .idle) (hp : d.Patient fuel)
    (hl : lba.toNat < 2 ^ 28) (buffer : Sector) :
    ataReadSector fuel lba buffer d =
      some (if d.serves then some (d.sectors lba.toNat) else none, d.afterRead lba) := by
  unfold Device.afterRead
  cases he : d.err with
  | true =>
    rw [ataReadSector, bind_run (waitReady_run hp.before), he, serves_latched he]
    rfl
  | false =>
    rw [read_issued hp he, issue_read hl, serves_of he]
    by_cases hf : d.fate d.commands = .served
    · have hdrq : (d.begin lba (.reading (d.sectors lba.toNat) 0)).phase.drq ≠ 0 := by
        change ataSrDrq ≠ 0
        decide
      rw [if_pos hf, bind_run (waitDrq_run hp.data (Or.inl hdrq)), decide_eq_true hdrq,
        decide_eq_true hf, if_neg Bool.false_ne_true, if_pos hf]
      change (readWords 256 0 buffer >>= _) _ = _
      rw [bind_run (readSector_run rfl rfl buffer)]
      rfl
    · have hdrq : ¬(d.refuse lba).phase.drq ≠ 0 := by
        change ¬d.phase.drq ≠ 0
        rw [hidle]
        decide
      rw [if_neg hf, bind_run (waitDrq_run hp.data (Or.inr rfl)), decide_eq_false hdrq,
        decide_eq_false hf, if_neg Bool.false_ne_true, if_neg hf]
      rfl

/-- What a write that was not refused leaves. -/
theorem stored_answered (he : d.err = false) (hf : d.fate d.commands ≠ .refused)
    (hb : (d.begin lba (.writing lba.toNat (fun _ => 0) 0)).rest = b) (buffer : Sector) :
    d.Answered (b.store lba.toNat buffer).rest
      (if d.serves then perform d.sectors ⟨lba.toNat, buffer⟩ else d.sectors) := by
  have hs := serves_of he
  have hcommands : b.commands = d.commands + 1 := by rw [← hb]; rfl
  have hfate : b.fate = d.fate ∧ b.busyFor = d.busyFor ∧ b.busyAfter = d.busyAfter := by
    rw [← hb]
    exact ⟨rfl, rfl, rfl⟩
  have hlast : b.fate (b.commands - 1) = d.fate d.commands := by
    rw [hfate.1, hcommands, Nat.add_sub_cancel]
  obtain ⟨hphase, -, hcount⟩ := store_idle b lba.toNat buffer
  obtain ⟨h1, h2, h3⟩ := store_schedule b lba.toNat buffer
  have hanswer : (b.store lba.toNat buffer).err = !d.serves ∧
      (b.store lba.toNat buffer).sectors =
        if d.serves then perform d.sectors ⟨lba.toNat, buffer⟩ else d.sectors := by
    by_cases hlost : d.fate d.commands = .lost
    · obtain ⟨herr, hsectors⟩ := store_lost (hlast.trans hlost) lba.toNat buffer
      have hn : ¬d.fate d.commands = .served := by rw [hlost]; decide
      rw [hs, decide_eq_false hn, herr, hsectors, ← hb]
      exact ⟨rfl, rfl⟩
    · have hserved : d.fate d.commands = .served := by
        cases hx : d.fate d.commands with
        | served => rfl
        | refused => exact absurd hx hf
        | lost => exact absurd hx hlost
      obtain ⟨herr, hsectors⟩ := store_stored (hlast ▸ hlost) lba.toNat buffer
      rw [hs, decide_eq_true hserved, herr, hsectors, ← hb]
      exact ⟨rfl, rfl⟩
  refine ⟨hphase, Nat.zero_le _, hanswer.2, hanswer.1, ?_, h1.trans hfate.1, h2.trans hfate.2.1,
    h3.trans hfate.2.2⟩
  rw [he]
  exact hcount.trans hcommands

theorem afterWrite_answered (hidle : d.phase = .idle) (lba : UInt32) (buffer : Sector) :
    d.Answered (d.afterWrite lba buffer)
      (if d.serves then perform d.sectors ⟨lba.toNat, buffer⟩ else d.sectors) := by
  unfold Device.afterWrite
  cases he : d.err with
  | true =>
    rw [serves_latched he]
    exact answered_latched hidle he
  | false =>
    by_cases hf : d.fate d.commands = .refused
    · have hn : ¬d.fate d.commands = .served := by rw [hf]; decide
      have hs : d.serves = false := (serves_of he).trans (decide_eq_false hn)
      rw [if_neg Bool.false_ne_true, if_pos hf, hs]
      exact answered_refuse hidle hs he lba
    · rw [if_neg Bool.false_ne_true, if_neg hf]
      exact stored_answered he hf rfl buffer

/-- A write stores its sector, or fails and leaves the drive's sectors as they were. -/
theorem ataWriteSector_run (hidle : d.phase = .idle) (hp : d.Patient fuel)
    (hl : lba.toNat < 2 ^ 28) (buffer : Sector) :
    ataWriteSector fuel lba buffer d = some (d.serves, d.afterWrite lba buffer) := by
  have hafter := afterWrite_answered hidle lba buffer
  unfold Device.afterWrite at hafter ⊢
  cases he : d.err with
  | true =>
    rw [ataWriteSector, bind_run (waitReady_run hp.before), he, serves_latched he]
    rfl
  | false =>
    rw [he, if_neg Bool.false_ne_true] at hafter
    rw [write_issued hp he, issue_write hl]
    by_cases hf : d.fate d.commands = .refused
    · have hn : ¬d.fate d.commands = .served := by rw [hf]; decide
      have hdrq : ¬(d.refuse lba).phase.drq ≠ 0 := by
        change ¬d.phase.drq ≠ 0
        rw [hidle]
        decide
      rw [if_pos hf, bind_run (waitDrq_run hp.data (Or.inr rfl)), decide_eq_false hdrq,
        serves_of he, decide_eq_false hn, if_neg Bool.false_ne_true, if_pos hf]
      rfl
    · have hdrq : (d.begin lba (.writing lba.toNat (fun _ => 0) 0)).phase.drq ≠ 0 := by
        change ataSrDrq ≠ 0
        decide
      rw [if_neg hf] at hafter
      rw [if_neg hf, bind_run (waitDrq_run hp.data (Or.inl hdrq)), decide_eq_true hdrq,
        if_neg Bool.false_ne_true, if_neg hf]
      change (writeWords 256 0 buffer >>= _) _ = _
      rw [bind_run (writeSector_run rfl rfl buffer)]
      generalize hb : (d.begin lba (.writing lba.toNat (fun _ => 0) 0)).rest = b at hafter ⊢
      have hbusy : (b.store lba.toNat buffer).busy - 1 - 1 - 1 - 1 < fuel := by
        rw [(store_idle b lba.toNat buffer).2.1, ← hb]
        change d.busyAfter d.commands - 1 - 1 - 1 - 1 < fuel
        have := hp.after
        omega
      have herr : (b.store lba.toNat buffer).err = !d.serves := hafter.err
      rw [ataIoWait_bind_run, waitReady_run hbusy]
      change some (!(b.store lba.toNat buffer).err, (b.store lba.toNat buffer).rest) = _
      rw [herr, Bool.not_not]

end Accesses

end VertexOS.Ata
