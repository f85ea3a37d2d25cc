import VertexOS.Drivers.Ata

namespace VertexOS.Ata
open Library.BlockStore Library.Programs Library.Transitions

/-! Every use of the disk driver, against the drive that the file system is written over. -/

/-- A call of the block layer. -/
inductive Access where
  | read (lba : UInt32) (buffer : Sector)
  | write (lba : UInt32) (data : Sector)

inductive Answer where
  | read (sector : Option Sector)
  | write (done : Bool)

def Access.lba : Access → UInt32
  | .read lba _ => lba
  | .write lba _ => lba

/-- The block layer passes the access on. -/
def Access.InRange (a : Access) : Prop := ¬a.lba ≥ sectorCount

def Answer.refused : Answer → Bool
  | .read sector => sector.isNone
  | .write done => !done

def access (fuel : Nat) : Access → Io Answer
  | .read lba buffer => do return .read (← blockdevRead fuel lba buffer)
  | .write lba data => do return .write (← blockdevWrite fuel lba data)

/-- The same over the drive without registers. -/
def driveAccess (v : Drive) : Access → Answer × Drive
  | .read lba _ =>
    let (v', r) := VertexOS.blockdevRead v lba
    (.read r, v')
  | .write lba data =>
    let (v', done) := VertexOS.blockdevWrite v lba data
    (.write done, v')

/-- A client that chooses its next access by the answers it has seen. -/
abbrev Client := List Answer → Access

def session (fuel : Nat) (next : Client) : Nat → List Answer → Io (List Answer)
  | 0, seen => pure seen
  | n + 1, seen => do
    let r ← access fuel (next seen)
    session fuel next n (seen ++ [r])

def driveSession (next : Client) : Nat → List Answer → Drive → List Answer × Drive
  | 0, seen, v => (seen, v)
  | n + 1, seen, v =>
    let (r, v') := driveAccess v (next seen)
    driveSession next n (seen ++ [r]) v'

/-- From now on the access number `k` fails: the drive reports an error already, or one of the
commands up to then is not served. -/
def Device.latched (d : Device) (k : Nat) : Bool :=
  d.err || (List.range (k + 1)).any fun j => d.fate (d.commands + j) ≠ .served

/-- The drive as the file system sees it. -/
def Device.drive (d : Device) : Drive := ⟨d.sectors, d.latched, 0, []⟩

/-- `v` stands for `d` in every access to come. -/
structure Device.StandsFor (d : Device) (v : Drive) : Prop where
  idle : d.phase = .idle
  sectors : v.sectors = d.sectors
  faults : ∀ k, v.faults (v.accesses + k) = d.latched k

/-- The fuel suffices for `n` accesses. -/
structure Device.PatientFor (d : Device) (fuel n : Nat) : Prop where
  busy : d.busy < fuel
  commands : ∀ k < d.commands + n, d.busyFor k < fuel ∧ d.busyAfter k < fuel

section Steps

variable {d d' : Device} {v : Drive} {fuel n : Nat} {s : Store 512}

theorem latched_zero (d : Device) : d.latched 0 = !d.serves := by
  simp only [Device.latched, Device.serves, zero_add, List.range_one, List.any_cons, List.any_nil,
    Bool.or_false, Nat.add_zero, Bool.not_and, Bool.not_not, ne_eq, decide_not]

/-- The errors ahead of a drive are those that were ahead of it one access before. -/
theorem latched_succ (h : d.Answered d' s) (k : Nat) : d'.latched k = d.latched (k + 1) := by
  unfold Device.latched
  rw [h.err, h.fate, h.commands]
  cases he : d.err with
  | true =>
    rw [serves_latched he]
    rfl
  | false =>
    rw [serves_of he, List.range_succ_eq_map (n := k + 1), List.any_cons, List.any_map]
    simp only [Bool.false_eq_true, ↓reduceIte, Bool.false_or, Nat.add_zero, ne_eq, decide_not,
      Function.comp_def, Nat.succ_eq_add_one, Nat.add_assoc, Nat.add_comm 1]

theorem Device.PatientFor.now (h : d.PatientFor fuel (n + 1)) : d.Patient fuel :=
  have hk := h.commands d.commands (by omega)
  ⟨h.busy, hk.1, hk.2⟩

theorem Device.PatientFor.next (h : d.PatientFor fuel (n + 1)) (ha : d.Answered d' s) :
    d'.PatientFor fuel n := by
  refine ⟨ha.busy.trans_lt h.now.after, fun k hk => ?_⟩
  rw [ha.busyFor, ha.busyAfter]
  apply h.commands k
  have hle : d'.commands ≤ d.commands + 1 := by
    rw [ha.commands]
    split <;> omega
  omega

theorem inRange_toNat (a : Access) : a.InRange ↔ a.lba.toNat < 65536 := by
  rw [Access.InRange, ge_iff_le, UInt32.le_iff_toNat_le, sectorCount_toNat, not_le]

theorem Access.fits (a : Access) (h : a.InRange) : a.lba.toNat < 2 ^ 28 :=
  lt_trans ((inRange_toNat a).mp h) (by decide)

/-- An access beyond the last sector reaches neither drive. -/
theorem access_outOfRange (fuel : Nat) (a : Access) (h : ¬a.InRange) (d : Device) (v : Drive) :
    ∃ r, r.refused = true ∧ access fuel a d = some (r, d) ∧ (driveAccess v a).1 = r ∧
      (driveAccess v a).2.sectors = v.sectors ∧ (driveAccess v a).2.faults = v.faults ∧
      (driveAccess v a).2.accesses = v.accesses := by
  cases a with
  | read lba buffer =>
    have hge : lba ≥ sectorCount := not_not.mp h
    refine ⟨.read none, rfl, ?_, ?_⟩
    · simp only [access, blockdevRead, if_pos hge]
      rfl
    · simp only [driveAccess, VertexOS.blockdevRead, if_pos hge, and_self]
  | write lba data =>
    have hge : lba ≥ sectorCount := not_not.mp h
    refine ⟨.write false, rfl, ?_, ?_⟩
    · simp only [access, blockdevWrite, if_pos hge]
      rfl
    · simp only [driveAccess, VertexOS.blockdevWrite, if_pos hge, and_self]

/-- What an access within the disk does to the sectors. -/
def Access.effect (a : Access) (f : Store 512) : Store 512 :=
  match a with
  | .read _ _ => f
  | .write lba data => perform f ⟨lba.toNat, data⟩

def Access.answer (a : Access) (f : Store 512) : Answer :=
  match a with
  | .read lba _ => .read (some (f lba.toNat))
  | .write _ _ => .write true

def Access.refusal : Access → Answer
  | .read _ _ => .read none
  | .write _ _ => .write false

def Device.after (d : Device) : Access → Device
  | .read lba _ => d.afterRead lba
  | .write lba data => d.afterWrite lba data

theorem after_answered (hidle : d.phase = .idle) (a : Access) :
    d.Answered (d.after a) (if d.serves then a.effect d.sectors else d.sectors) := by
  cases a with
  | read lba buffer =>
    have h := afterRead_answered hidle lba
    cases hs : d.serves <;> exact h
  | write lba data =>
    have h := afterWrite_answered hidle lba data
    cases hs : d.serves <;> rw [hs] at h <;> exact h

/-- An access within the disk, over the drive with registers. -/
theorem access_run (a : Access) (h : a.InRange) (hidle : d.phase = .idle) (hp : d.Patient fuel) :
    access fuel a d =
      some (if d.serves then a.answer d.sectors else a.refusal, d.after a) := by
  cases a with
  | read lba buffer =>
    have hn : ¬lba ≥ sectorCount := h
    have hl : lba.toNat < 2 ^ 28 := Access.fits _ h
    rw [access, blockdevRead, if_neg hn, bind_run (ataReadSector_run hidle hp hl buffer)]
    cases d.serves <;> rfl
  | write lba data =>
    have hn : ¬lba ≥ sectorCount := h
    have hl : lba.toNat < 2 ^ 28 := Access.fits _ h
    rw [access, blockdevWrite, if_neg hn, bind_run (ataWriteSector_run hidle hp hl data)]
    cases d.serves <;> rfl

/-- The same over the drive without. -/
theorem driveAccess_eq (a : Access) (h : a.InRange) (v : Drive) :
    (driveAccess v a).1 = (if v.faults v.accesses then a.refusal else a.answer v.sectors) ∧
      (driveAccess v a).2.sectors =
        (if v.faults v.accesses then v.sectors else a.effect v.sectors) ∧
      (driveAccess v a).2.faults = v.faults ∧
      (driveAccess v a).2.accesses = v.accesses + 1 := by
  cases a with
  | read lba buffer =>
    have hn : ¬lba ≥ sectorCount := h
    simp only [driveAccess, VertexOS.blockdevRead, if_neg hn, VertexOS.ataReadSector]
    cases v.faults v.accesses <;> exact ⟨rfl, rfl, rfl, rfl⟩
  | write lba data =>
    have hn : ¬lba ≥ sectorCount := h
    simp only [driveAccess, VertexOS.blockdevWrite, if_neg hn, VertexOS.ataWriteSector]
    cases v.faults v.accesses <;> exact ⟨rfl, rfl, rfl, rfl⟩

/-- One access, over both. -/
theorem Device.StandsFor.access (hv : d.StandsFor v) (hp : d.PatientFor fuel (n + 1))
    (a : Access) :
    ∃ d', Ata.access fuel a d = some ((driveAccess v a).1, d') ∧
      d'.StandsFor (driveAccess v a).2 ∧ d'.PatientFor fuel n := by
  by_cases h : a.InRange
  · have hd := after_answered hv.idle a
    obtain ⟨hanswer, hsectors, hfaults, haccesses⟩ := driveAccess_eq a h v
    have hnow : v.faults v.accesses = !d.serves := (hv.faults 0).trans (latched_zero d)
    refine ⟨d.after a, ?_, ⟨hd.idle, ?_, ?_⟩, hp.next hd⟩
    · rw [access_run a h hv.idle hp.now, hanswer, hnow, hv.sectors]
      cases d.serves <;> rfl
    · rw [hd.sectors, hsectors, hnow, hv.sectors]
      cases d.serves <;> rfl
    · intro k
      rw [hfaults, haccesses, latched_succ hd, ← hv.faults, Nat.add_assoc, Nat.add_comm 1]
  · obtain ⟨r, -, hrun, hanswer, hsectors, hfaults, haccesses⟩ := access_outOfRange fuel a h d v
    refine ⟨d, by rw [hrun, hanswer], ⟨hv.idle, hsectors.trans hv.sectors, ?_⟩, hp.busy, ?_⟩
    · rw [hfaults, haccesses]
      exact hv.faults
    · exact fun k hk => hp.commands k (by omega)

end Steps

theorem standsFor_drive (hidle : d.phase = .idle) : Device.StandsFor d d.drive :=
  ⟨hidle, rfl, fun k => congrArg d.latched (Nat.zero_add k)⟩

/-- Every session, over both. -/
theorem session_run {d : Device} {v : Drive} {fuel n : Nat} (hv : d.StandsFor v)
    (hp : d.PatientFor fuel n) (next : Client) (seen : List Answer) :
    ∃ d', session fuel next n seen d = some ((driveSession next n seen v).1, d') ∧
      d'.StandsFor (driveSession next n seen v).2 := by
  induction n generalizing d v seen with
  | zero => exact ⟨d, rfl, hv⟩
  | succ n ih =>
    obtain ⟨d', hrun, hv', hp'⟩ := hv.access hp (next seen)
    rw [session, bind_run hrun]
    exact ih hv' hp' (seen ++ [(driveAccess v (next seen)).1])

/-- Some fuel suffices for any number of accesses. -/
theorem patientFor_enough (d : Device) (n : Nat) :
    ∃ enough, ∀ fuel ≥ enough, d.PatientFor fuel n := by
  refine ⟨d.busy + (∑ k ∈ Finset.range (d.commands + n), (d.busyFor k + d.busyAfter k)) + 1,
    fun fuel hf => ⟨by omega, fun k hk => ?_⟩⟩
  have hle := Finset.single_le_sum (f := fun k => d.busyFor k + d.busyAfter k)
    (fun k _ => Nat.zero_le _) (Finset.mem_range.mpr hk)
  omega

/-- Whatever accesses a client makes, and however long the drive is busy, the driver answers them
all, and as the drive that the file system is written over, with the faults that the drive's first
unserved command sets off. -/
theorem ata_refines_drive (d : Device) (hidle : d.phase = .idle) (next : Client) (n : Nat) :
    ∃ enough, ∀ fuel ≥ enough, ∃ d',
      session fuel next n [] d = some ((driveSession next n [] d.drive).1, d') ∧
      d'.sectors = (driveSession next n [] d.drive).2.sectors := by
  obtain ⟨enough, henough⟩ := patientFor_enough d n
  refine ⟨enough, fun fuel hf => ?_⟩
  obtain ⟨d', hrun, hv⟩ := session_run (standsFor_drive hidle) (henough fuel hf) next []
  exact ⟨d', hrun, hv.sectors.symm⟩

/-- A drive of zeroed sectors that loses the data of its second command. -/
def flakyDevice : Device where
  sectors := fun _ _ => 0
  secCount0 := 0
  lba0 := 0
  lba1 := 0
  lba2 := 0
  hdDevSel := 0
  phase := .idle
  busy := 2
  err := false
  commands := 0
  fate := fun k => if k = 1 then .lost else .served
  busyFor := fun _ => 3
  busyAfter := fun _ => 5

/-- The client reads a sector, writes it and reads it again. -/
theorem ata_refines_drive_flaky : ∃ enough, ∀ fuel ≥ enough, ∃ d',
    session fuel (fun seen => if seen.length = 1 then .write 7 fun _ => 1 else .read 7 fun _ => 0)
        3 [] flakyDevice =
      some ([.read (some fun _ => 0), .write false, .read none], d') ∧
      d'.sectors = fun _ _ => 0 :=
  ata_refines_drive flakyDevice rfl
    (fun seen => if seen.length = 1 then .write 7 fun _ => 1 else .read 7 fun _ => 0) 3

/-- With enough fuel the access is answered so. -/
def Accessed (d : Device) (x : Access × Answer) (d' : Device) : Prop :=
  ∃ enough, ∀ fuel ≥ enough, access fuel x.1 d = some (x.2, d')

section Latched

variable {d d' mid : Device} {x : Access × Answer} {a : Access} {r : Answer}
  {before after : List (Access × Answer)}

theorem refusal_refused (a : Access) : a.refusal.refused = true := by
  cases a <;> rfl

theorem answer_refused (a : Access) (f : Store 512) : (a.answer f).refused = false := by
  cases a <;> rfl

/-- An access that is answered is answered as `access_run` says. -/
theorem accessed_inRange (hidle : d.phase = .idle) (h : Accessed d x d') (hin : x.1.InRange) :
    x.2 = (if d.serves then x.1.answer d.sectors else x.1.refusal) ∧
      d.Answered d' (if d.serves then x.1.effect d.sectors else d.sectors) := by
  obtain ⟨m, hm⟩ := h
  obtain ⟨m', hm'⟩ := patientFor_enough d 1
  have hrun := access_run x.1 hin hidle (hm' (max m m') (le_max_right m m')).now
  have heq := (hm _ (le_max_left m m')).symm.trans hrun
  obtain ⟨hr, rfl⟩ := Prod.mk.inj (Option.some.inj heq)
  exact ⟨hr, after_answered hidle x.1⟩

/-- Every access within the disk is answered. -/
theorem accessed_after (hidle : d.phase = .idle) (a : Access) (hin : a.InRange) :
    Accessed d (a, if d.serves then a.answer d.sectors else a.refusal) (d.after a) := by
  obtain ⟨m, hm⟩ := patientFor_enough d 1
  exact ⟨m, fun fuel hf => access_run a hin hidle (hm fuel hf).now⟩

theorem accessed_outOfRange (h : Accessed d x d') (hout : ¬x.1.InRange) :
    x.2.refused = true ∧ d' = d := by
  obtain ⟨m, hm⟩ := h
  obtain ⟨r, hr, hrun, -⟩ := access_outOfRange m x.1 hout d blankDrive
  have heq := (hm m le_rfl).symm.trans hrun
  obtain ⟨rfl, rfl⟩ := Prod.mk.inj (Option.some.inj heq)
  exact ⟨hr, rfl⟩

theorem accessed_idle (hidle : d.phase = .idle) (h : Accessed d x d') : d'.phase = .idle := by
  by_cases hin : x.1.InRange
  · exact (accessed_inRange hidle h hin).2.idle
  · rw [(accessed_outOfRange h hin).2]
    exact hidle

/-- A drive that reports an error, and that was sent no command. -/
structure Latched (d d' : Device) : Prop where
  idle : d'.phase = .idle
  err : d'.err = true
  sectors : d'.sectors = d.sectors
  commands : d'.commands = d.commands

/-- With the error bit set, every access is refused and the drive stays as it is. -/
theorem Latched.step (hd : Latched d mid) (h : Accessed mid x d') :
    x.2.refused = true ∧ Latched d d' := by
  by_cases hin : x.1.InRange
  · obtain ⟨hr, ha⟩ := accessed_inRange hd.idle h hin
    rw [serves_latched hd.err] at hr ha
    refine ⟨hr ▸ refusal_refused x.1, ha.idle, ?_, ha.sectors.trans hd.sectors, ?_⟩
    · rw [ha.err, serves_latched hd.err]
      rfl
    · rw [ha.commands, if_pos hd.err, hd.commands]
  · obtain ⟨hr, rfl⟩ := accessed_outOfRange h hin
    exact ⟨hr, hd⟩

theorem Latched.run (hd : Latched d mid) (h : Run Accessed mid after d') :
    (∀ x ∈ after, x.2.refused = true) ∧ Latched d d' := by
  induction h with
  | nil => exact ⟨fun x hx => absurd hx List.not_mem_nil, hd⟩
  | cons head tail ih =>
    obtain ⟨hr, hd'⟩ := hd.step head
    obtain ⟨hall, hlast⟩ := ih hd'
    exact ⟨List.forall_mem_cons.mpr ⟨hr, hall⟩, hlast⟩

/-- A refused access within the disk leaves the error bit set. -/
theorem latched_of_refused (hidle : d.phase = .idle) (h : Accessed d x d') (hin : x.1.InRange)
    (hr : x.2.refused = true) : Latched d' d' := by
  obtain ⟨hx, ha⟩ := accessed_inRange hidle h hin
  have hs : d.serves = false := by
    cases hs : d.serves with
    | false => rfl
    | true =>
      rw [hs] at hx
      have hanswer := (congrArg Answer.refused hx).trans (answer_refused x.1 d.sectors)
      cases hr.symm.trans hanswer
  refine ⟨ha.idle, ?_, rfl, rfl⟩
  rw [ha.err, hs]
  rfl

/-- The driver looks at the error bit before it sends the command that would clear it: once an
access within the disk was refused, every later one is refused, and no command reaches the drive. -/
theorem ata_error_latches (hidle : d.phase = .idle)
    (hbefore : Run Accessed d (before ++ [(a, r)]) mid) (hin : a.InRange)
    (hr : r.refused = true) (hafter : Run Accessed mid after d') :
    (∀ x ∈ after, x.2.refused = true) ∧ d'.commands = mid.commands ∧
      d'.sectors = mid.sectors := by
  obtain ⟨e, he, hlast⟩ := hbefore.snoc_inv
  have hidle' : e.phase = .idle :=
    he.invariant (P := fun d => d.phase = .idle) (fun _ _ _ h hs => accessed_idle h hs) hidle
  have hmid : Latched mid mid := latched_of_refused hidle' hlast hin hr
  obtain ⟨hall, hd⟩ := hmid.run hafter
  exact ⟨hall, hd.commands, hd.sectors⟩

end Latched

/-- The drive refuses the write, and then the read that it would have served. -/
theorem ata_error_latches_flaky :
    let start : Device := { flakyDevice with commands := 1 }
    let mid := start.after (.write 7 fun _ => 1)
    Accessed mid (.read 7 fun _ => 0, .read none) (mid.after (.read 7 fun _ => 0)) ∧
      (∀ x ∈ [((.read 7 fun _ => 0, .read none) : Access × Answer)], x.2.refused = true) := by
  intro start mid
  have hin (lba : UInt32) (h : lba.toNat < 65536) (a : Access) (ha : a.lba = lba) : a.InRange :=
    (inRange_toNat a).mpr (ha ▸ h)
  have hwrite : Accessed start (.write 7 fun _ => 1, .write false) mid :=
    accessed_after (d := start) rfl (.write 7 fun _ => 1) (hin 7 (by decide) _ rfl)
  have hidle : mid.phase = .idle := (after_answered (d := start) rfl (.write 7 fun _ => 1)).idle
  have hserves : mid.serves = false :=
    serves_latched (after_answered (d := start) rfl (.write 7 fun _ => 1)).err
  have hread := accessed_after hidle (.read 7 fun _ => 0) (hin 7 (by decide) _ rfl)
  rw [hserves] at hread
  have hbefore : Run Accessed start ([] ++ [(.write 7 fun _ => 1, .write false)]) mid :=
    .cons hwrite (.nil mid)
  have hlatch := ata_error_latches rfl hbefore (hin 7 (by decide) _ rfl) rfl
    (.cons hread (.nil _))
  exact ⟨hread, hlatch.1⟩

end VertexOS.Ata
