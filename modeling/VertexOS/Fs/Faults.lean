import VertexOS.Fs.BootImage

namespace VertexOS
open Library.BlockStore

/-- The drive answers the next `n` accesses. -/
def Drive.Answers (d : Drive) (n : Nat) : Prop := ∀ k, k < n → d.faults (d.accesses + k) = false

theorem Drive.answers_succ {d d' : Drive} (hf : d'.faults = d.faults)
    (ha : d'.accesses = d.accesses + 1) (n : Nat) :
    d.Answers (n + 1) ↔ d.faults d.accesses = false ∧ d'.Answers n := by
  have hshift : ∀ k, d.accesses + (k + 1) = d'.accesses + k := by
    intro k
    rw [ha, Nat.add_assoc, Nat.add_comm 1]
  rw [Drive.Answers, Nat.forall_lt_succ_left]
  simp only [Drive.Answers, hshift, hf]
  rfl

/-- A write below the sector count takes effect exactly when the drive answers. -/
theorem blockdevWrite_answered (d : Drive) (hl : lba.toNat < 65536) (b : Sector) :
    ∃ d', blockdevWrite d lba b = (d', !d.faults d.accesses) ∧ d'.faults = d.faults ∧
      d'.accesses = d.accesses + 1 := by
  have hn : ¬lba ≥ sectorCount := by
    simp only [ge_iff_le, UInt32.le_iff_toNat_le, sectorCount_toNat]
    omega
  unfold blockdevWrite ataWriteSector
  rw [if_neg hn]
  cases hf : d.faults d.accesses with
  | true => exact ⟨_, rfl, rfl, rfl⟩
  | false => exact ⟨_, rfl, rfl, rfl⟩

theorem flushTable_answered (es : Table) (d : Drive) (is : List (Fin 8)) :
    (flushTable es d is).2 = true ↔ d.Answers is.length := by
  induction is generalizing d with
  | nil => simp [flushTable, Drive.Answers]
  | cons i is ih =>
    have hl : (sfsTableLba + UInt32.ofNat i).toNat < 65536 := by
      rw [tableLba_toNat]
      omega
    obtain ⟨d', hw, hf, ha⟩ := blockdevWrite_answered d hl (tableSector es i)
    rw [flushTable, hw, List.length_cons, Drive.answers_succ hf ha]
    cases hfault : d.faults d.accesses with
    | true => simp
    | false => simpa using ih d'

/-- A flush succeeds exactly when the drive answers its nine writes. -/
theorem sfsFlush_answered (s : SimpleFs) : (sfsFlush s).2 = true ↔ s.dev.Answers 9 := by
  obtain ⟨d', hw, hf, ha⟩ := blockdevWrite_answered s.dev
    (show sfsSuperLba.toNat < 65536 by decide) s.super.bytes
  rw [sfsFlush, hw, Drive.answers_succ hf ha]
  cases hfault : s.dev.faults s.dev.accesses with
  | true => simp
  | false => simpa using flushTable_answered s.entries d' (List.finRange 8)

theorem blockdevWrite_accesses (d : Drive) (hl : lba.toNat < 65536) (b : Sector) :
    (blockdevWrite d lba b).1.accesses = d.accesses + 1 := by
  obtain ⟨d', h, -, hacc⟩ := blockdevWrite_answered d hl b
  rw [h, hacc]

theorem flushTable_accesses (es : Table) {d : Drive} (is : List (Fin 8))
    (h : flushTable es d is = (d', true)) : d'.accesses = d.accesses + is.length := by
  induction is generalizing d with
  | nil =>
    cases h
    rfl
  | cons i is ih =>
    have hl : (sfsTableLba + UInt32.ofNat i).toNat < 65536 := by
      rw [tableLba_toNat]
      omega
    have hacc := blockdevWrite_accesses d hl (tableSector es i)
    rw [flushTable] at h
    cases hw : blockdevWrite d (sfsTableLba + UInt32.ofNat i) (tableSector es i) with
    | mk d1 done =>
      rw [hw] at h hacc
      cases done with
      | false => cases h
      | true =>
        rw [ih h, hacc, List.length_cons]
        omega

/-- It then has used nine accesses. -/
theorem sfsFlush_accesses (h : sfsFlush s = (s', true)) :
    s'.dev.accesses = s.dev.accesses + 9 := by
  have hacc := blockdevWrite_accesses s.dev (show sfsSuperLba.toNat < 65536 by decide)
    s.super.bytes
  rw [sfsFlush] at h
  cases hw : blockdevWrite s.dev sfsSuperLba s.super.bytes with
  | mk d1 done =>
    rw [hw] at h hacc
    cases done with
    | false => cases h
    | true =>
      dsimp only at h
      cases ht : flushTable s.entries d1 (List.finRange 8) with
      | mk d2 ok =>
        rw [ht] at h
        cases h
        have htable := flushTable_accesses s.entries (List.finRange 8) ht
        rw [hacc, List.length_finRange] at htable
        exact htable

/-- A call that edits the table in memory and then flushes it, without a data sector. -/
def SfsCall.Metadata : SfsCall → Prop
  | .write .. => False
  | _ => True

/-- The table that a metadata call makes before it flushes. -/
inductive Edits (s : SimpleFs) : SfsCall → Table → Prop
  | create (h : sfsCreateEntry s path cwdId type perm = .ok (some (idx, e))) :
      Edits s (.create path cwdId type perm) (Function.update s.entries idx e)
  | remove (h : sfsRemoveTarget s path cwdId = .ok (some n)) :
      Edits s (.remove path cwdId) (Function.update s.entries n Entry.zero)
  | truncate (h : fileWith s.entries nodeId sfsPermWrite = some n) :
      Edits s (.truncate nodeId) (Function.update s.entries n { s.entries n with size := 0 })

section Metadata

variable {s s' : SimpleFs} {c : SfsCall} {es : Table} {ok : Bool}

theorem Edits.step (h : Edits s c es) : sfsStep s c = .ok (sfsFlush { s with entries := es }) := by
  cases h with
  | @create path cwdId type perm idx e h =>
    have hcreate : sfsCreate s path cwdId type perm =
        .ok ((sfsFlush { s with entries := Function.update s.entries idx e }).1,
          if (sfsFlush { s with entries := Function.update s.entries idx e }).2 then
            some (slotId idx) else none) := by
      rw [sfsCreate, h]
      dsimp only [bind, Except.bind]
      cases sfsFlush { s with entries := Function.update s.entries idx e } with
      | mk t done => cases done <;> rfl
    rw [sfsStep, hcreate]
    cases sfsFlush { s with entries := Function.update s.entries idx e } with
    | mk t done => cases done <;> rfl
  | remove h =>
    rw [sfsStep, sfsRemove, h]
    rfl
  | truncate h =>
    rw [sfsStep, sfsTruncate, h]

/-- A metadata call without an edit leaves the volume as it is. -/
theorem no_edit_step (hc : c.Metadata) (hno : ∀ es, ¬Edits s c es)
    (h : sfsStep s c = .ok (s', ok)) : s' = s := by
  cases c with
  | create path cwdId type perm =>
    obtain ⟨⟨t, nodeId⟩, hcreate, h⟩ := bind_ok h
    cases h
    rcases sfsCreate_cases hcreate with ⟨-, rfl, -⟩ | ⟨idx, e, hentry, -⟩
    · rfl
    · exact absurd (.create hentry) (hno _)
  | remove path cwdId =>
    rcases sfsRemove_cases h with ⟨-, rfl, -⟩ | ⟨n, htarget, -⟩
    · rfl
    · exact absurd (.remove htarget) (hno _)
  | write => exact absurd hc id
  | truncate nodeId =>
    rcases sfsTruncate_cases s nodeId with ⟨-, hs⟩ | ⟨n, hfile, -⟩
    · rw [sfsStep, hs] at h
      cases h
      rfl
    · exact absurd (.truncate hfile) (hno _)

end Metadata

/-- A failed metadata call leaves superblock and table alone exactly when the drive answers its
flush, or there is nothing to undo. -/
theorem sfs_failed_call_undone_iff (s : SimpleFs) (c : SfsCall) (hc : c.Metadata) :
    (∀ s', sfsStep s c = .ok (s', false) → s'.super = s.super ∧ s'.entries = s.entries) ↔
      ∀ es, Edits s c es → es = s.entries ∨ s.dev.Answers 9 := by
  constructor
  · intro h es hes
    by_cases hans : s.dev.Answers 9
    · exact .inr hans
    · have hfail : (sfsFlush { s with entries := es }).2 = false := by
        rw [← Bool.not_eq_true, sfsFlush_answered]
        exact hans
      have hstep := hes.step
      rw [← Prod.eta (sfsFlush { s with entries := es }), hfail] at hstep
      obtain ⟨-, hent⟩ := h _ hstep
      rw [sfsFlush_entries] at hent
      exact .inl hent
  · intro h s' hstep
    by_cases hex : ∃ es, Edits s c es
    · obtain ⟨es, hes⟩ := hex
      have hflush := Except.ok.inj (hes.step.symm.trans hstep)
      have hsuper := sfsFlush_super { s with entries := es }
      have hent := sfsFlush_entries { s with entries := es }
      rw [hflush] at hsuper hent
      rcases h es hes with he | hans
      · exact ⟨hsuper, hent.trans he⟩
      · have hdone := (sfsFlush_answered { s with entries := es }).mpr hans
        rw [hflush] at hdone
        cases hdone
    · rw [no_edit_step hc (fun es hes => hex ⟨es, hes⟩) hstep]
      exact ⟨rfl, rfl⟩

/-- A drive that stops answering after the volume is formatted. -/
def failingDrive : Drive := { blankDrive with faults := fun k => 18 ≤ k }

theorem sfs_failed_call_undone_refused :
    ∃ s', sfsStep (powerOn failingDrive) (.truncate 5) = .ok (s', false) ∧
      s'.super = Superblock.zero ∧ s'.entries = fun _ => Entry.zero := by
  refine ⟨_, rfl, (sfs_failed_call_undone_iff (powerOn failingDrive) (.truncate 5) trivial).mpr
    ?_ _ rfl⟩
  intro es hes
  cases hes with
  | truncate h =>
    have hnone : fileWith (powerOn failingDrive).entries 5 sfsPermWrite = none := by
      decide +kernel
    rw [hnone] at h
    cases h

/-- A file that `sfs_create` could not put on the disk is in the table all the same. -/
theorem sfs_failed_create_stays : ∃ s s', sfsInit (powerOn failingDrive) = (s, true) ∧
    sfsStep s (.create [97] 0 sfsTypeFile 3) = .ok (s', false) ∧
    (s.entries 1).used = 0 ∧ (s'.entries 1).used = 1 ∧ (s'.entries 1).nameString = [97] := by
  have hinit : (sfsInit (powerOn failingDrive)).2 = true ∧
      (((sfsInit (powerOn failingDrive)).1).entries 1).used = 0 := by
    decide +kernel
  have heval : (sfsStep (sfsInit (powerOn failingDrive)).1
      (.create [97] 0 sfsTypeFile 3)).toOption.map
      (fun p => (p.2, (p.1.entries 1).used, (p.1.entries 1).nameString)) =
      some (false, 1, [97]) := by
    decide +kernel
  cases hstep : sfsStep (sfsInit (powerOn failingDrive)).1 (.create [97] 0 sfsTypeFile 3) with
  | error e =>
    rw [hstep] at heval
    cases heval
  | ok p =>
    obtain ⟨s', ok⟩ := p
    rw [hstep] at heval
    obtain ⟨rfl, hused, hname⟩ : ok = false ∧ (s'.entries 1).used = 1 ∧
        (s'.entries 1).nameString = [97] := by
      simpa using Option.some.inj heval
    exact ⟨_, s', Prod.ext rfl hinit.1, hstep, hinit.2, hused, hname⟩

/-- A mount whose nine reads succeed on a signed disk takes the disk over and writes nothing. -/
theorem sfsInit_mounted {s : SimpleFs} (h : Mountable s) :
    (sfsInit s).2 = true ∧ (sfsInit s).1.super = diskSuper s.dev.sectors ∧
      (sfsInit s).1.entries = diskTable s.dev.sectors ∧ (sfsInit s).1.dev.calls = s.dev.calls := by
  have hok := (sfsLoad_answered s).mpr h.1
  obtain ⟨-, hcalls, -⟩ := sfsLoad_frame s
  have hload : sfsLoad s = ((sfsLoad s).1, true) := Prod.ext rfl hok
  obtain ⟨hsuper, hent⟩ := sfsLoad_done hload
  have hinit : sfsInit s = ((sfsLoad s).1, true) := by
    rw [sfsInit, hload]
    dsimp only
    rw [if_neg]
    rw [hsuper]
    exact not_or.mpr ⟨by decide, not_or.mpr ⟨not_not.mpr h.2.1, not_not.mpr h.2.2⟩⟩
  rw [hinit]
  exact ⟨rfl, hsuper, hent, hcalls⟩

/-- Any other mount writes. -/
theorem sfsInit_writes {s : SimpleFs} (h : ¬Mountable s) :
    (sfsInit s).1.dev.calls ≠ s.dev.calls := by
  obtain ⟨xs, hx, habove⟩ := sfsInit_spares (b := 129) (by decide) s
  have hne : xs ≠ [] := by
    rintro rfl
    exact h (habove.mp above_nil)
  rw [hx.calls]
  intro he
  exact hne (by simpa using he)

/-- `sfs_init` spares a signed disk, and formats only what it has read to be unsigned, exactly
when the read of the superblock succeeds and on a signed disk the reads of the table do too. -/
theorem sfs_init_keeps_disk_iff (s : SimpleFs) :
    ((Signed (diskSuper s.dev.sectors) → (sfsInit s).1.dev.calls = s.dev.calls ∧
        ((sfsInit s).2 = true → (sfsInit s).1.super = diskSuper s.dev.sectors ∧
          (sfsInit s).1.entries = diskTable s.dev.sectors)) ∧
      ((sfsInit s).1.dev.calls ≠ s.dev.calls →
        s.dev.faults s.dev.accesses = false ∧ ¬Signed (diskSuper s.dev.sectors))) ↔
    s.dev.faults s.dev.accesses = false ∧
      (Signed (diskSuper s.dev.sectors) → s.dev.Answers 9) := by
  constructor
  · rintro ⟨hspare, hformat⟩
    have hread : s.dev.faults s.dev.accesses = false := by
      by_contra hfault
      have hwrites := sfsInit_writes (s := s) fun hm => hfault (hm.1 0 (by decide))
      exact hfault (hformat hwrites).1
    refine ⟨hread, fun hs => ?_⟩
    by_contra hans
    exact sfsInit_writes (fun hm => hans hm.1) (hspare hs).1
  · rintro ⟨hread, hsigned⟩
    constructor
    · intro hs
      obtain ⟨-, hsuper, hent, hcalls⟩ := sfsInit_mounted ⟨hsigned hs, hs⟩
      exact ⟨hcalls, fun _ => ⟨hsuper, hent⟩⟩
    · intro hwrote
      refine ⟨hread, fun hs => hwrote ?_⟩
      exact (sfsInit_mounted ⟨hsigned hs, hs⟩).2.2.2

/-- A drive with one file on it whose access 27, the first of the next mount, fails. -/
def flakyDrive : Drive :=
  ((sfsStep (sfsInit (powerOn { blankDrive with faults := fun k => k == 27 })).1
    (.create [97] 0 sfsTypeFile 3)).toOption.map (fun p => p.1.dev)).getD blankDrive

/-- One read error at the mount, and the disk is formatted. -/
theorem sfs_init_formats_signed : Signed (diskSuper (powerOn flakyDrive).dev.sectors) ∧
    (diskTable (powerOn flakyDrive).dev.sectors 1).nameString = [97] ∧
    (sfsInit (powerOn flakyDrive)).1.dev.calls ≠ (powerOn flakyDrive).dev.calls ∧
    (sfsInit (powerOn flakyDrive)).2 = true ∧
    (diskTable (sfsInit (powerOn flakyDrive)).1.dev.sectors 1).used = 0 := by
  have hname : (diskTable (powerOn flakyDrive).dev.sectors 1).nameString = [97] := by
    decide +kernel
  have hused : (diskTable (sfsInit (powerOn flakyDrive)).1.dev.sectors 1).used = 0 := by
    decide +kernel
  have hlen : (sfsInit (powerOn flakyDrive)).1.dev.calls.length ≠
      (powerOn flakyDrive).dev.calls.length := by
    decide +kernel
  exact ⟨⟨by decide +kernel, by decide +kernel⟩, hname, fun he => hlen (congrArg _ he),
    by decide +kernel, hused⟩

end VertexOS
