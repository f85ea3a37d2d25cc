import VertexOS.Fs.Issued

namespace VertexOS
open Library.BlockStore Library.Transitions

/-- Superblock and table in memory are the ones on disk. -/
structure Synced (s : SimpleFs) : Prop where
  super : diskSuper s.dev.sectors = s.super
  entries : diskTable s.dev.sectors = s.entries

theorem sfsFlush_synced (h : sfsFlush s = (s', true)) : Synced s' := by
  obtain ⟨hsup, hent, hw⟩ := sfsFlush_done h
  refine ⟨?_, ?_⟩
  · rw [hw.sectors, diskSuper_flushed, hsup]
  · rw [hw.sectors, diskTable_flushed, hent]

theorem sfsWrite_synced (h : sfsWrite s nodeId offset data len = (s', some written)) :
    Synced s' := by
  unfold sfsWrite at h
  split at h
  · cases h
  · split at h
    · cases h
    · split at h
      · cases h
      · split at h
        · cases h
        · rename_i hf
          cases h
          exact sfsFlush_synced hf

/-- A call that returns 1 has flushed. -/
theorem sfsStep_synced (h : sfsStep s c = .ok (s', true)) : Synced s' := by
  cases c with
  | create path cwd type perm =>
    simp only [sfsStep, bind, Except.bind] at h
    cases hc : sfsCreate s path cwd type perm with
    | error => rw [hc] at h; cases h
    | ok p =>
      obtain ⟨s2, nodeId⟩ := p
      rw [hc] at h
      obtain ⟨rfl, hsome⟩ := Prod.mk.inj (Except.ok.inj h)
      rcases sfsCreate_cases hc with ⟨-, -, rfl⟩ | ⟨idx, e, -, hf, -⟩
      · cases hsome
      · rw [hsome] at hf
        exact sfsFlush_synced hf
  | remove path cwd =>
    rcases sfsRemove_cases h with ⟨-, -, hfalse⟩ | ⟨n, -, hf⟩
    · cases hfalse
    · exact sfsFlush_synced hf
  | write nodeId offset data len =>
    obtain ⟨rfl, hsome⟩ := Prod.mk.inj (Except.ok.inj h)
    obtain ⟨written, hw⟩ := Option.isSome_iff_exists.mp hsome
    exact sfsWrite_synced (Prod.ext rfl hw)
  | truncate nodeId =>
    have h := Except.ok.inj h
    rcases sfsTruncate_cases s nodeId with ⟨-, ht⟩ | ⟨n, -, ht⟩
    · rw [ht] at h
      cases h
    · rw [ht] at h
      exact sfsFlush_synced h

/-- No call touches the superblock beyond its free end. -/
theorem sfsStep_super (h : sfsStep s c = .ok (s', ok)) : SuperFrame s.super s'.super := by
  cases c with
  | create path cwd type perm =>
    simp only [sfsStep, bind, Except.bind] at h
    cases hc : sfsCreate s path cwd type perm with
    | error => rw [hc] at h; cases h
    | ok p =>
      obtain ⟨s2, nodeId⟩ := p
      rw [hc] at h
      cases h
      rcases sfsCreate_cases hc with ⟨-, rfl, -⟩ | ⟨idx, e, -, hf, -⟩
      · exact SuperFrame.refl _
      · have hsup := sfsFlush_super { s with entries := Function.update s.entries idx e }
        rw [hf] at hsup
        rw [hsup]
        exact SuperFrame.refl _
  | remove path cwd =>
    rcases sfsRemove_cases h with ⟨-, rfl, -⟩ | ⟨n, -, hf⟩
    · exact SuperFrame.refl _
    · have hsup := sfsFlush_super
        { s with entries := Function.update s.entries n Entry.zero }
      rw [hf] at hsup
      rw [hsup]
      exact SuperFrame.refl _
  | write nodeId offset data len =>
    cases h
    exact (sfsWrite_shape s nodeId offset data len).2
  | truncate nodeId =>
    have hsup := (sfsTruncate_shape s nodeId).2
    rw [Except.ok.inj h] at hsup
    rw [hsup]
    exact SuperFrame.refl _

/-- A step of a run of calls, with any arguments and any result. -/
def callStep (s : SimpleFs) (c : SfsCall) (s' : SimpleFs) : Prop :=
  ∃ ok, sfsStep s c = .ok (s', ok)

/-- What a reboot relies on. -/
structure Rebootable (s : SimpleFs) : Prop where
  reliable : s.dev.Reliable
  signed : Signed s.super

theorem Rebootable.step (hs : Rebootable s) (h : callStep s c s') : Rebootable s' := by
  obtain ⟨ok, hok⟩ := h
  obtain ⟨xs, hx⟩ := sfsStep_issued hok
  exact ⟨hx.reliable hs.reliable, (sfsStep_super hok).signed hs.signed⟩

theorem Rebootable.run (hs : Rebootable s) (h : Run callStep s cs s') : Rebootable s' :=
  h.invariant (fun _ _ _ hs hstep => Rebootable.step hs hstep) hs

theorem sfsInit_formats (hn : ¬ Signed (diskSuper s.dev.sectors)) :
    ∃ dev, sfsInit s = sfsFlush (formatted 0 dev) ∧ dev.faults = s.dev.faults := by
  have hf := (sfsLoad_frame s).2.2
  cases hl : sfsLoad s with
  | mk t ok =>
    rw [hl] at hf
    refine ⟨t.dev, ?_, hf⟩
    have hcond : ok = false ∨ t.super.magic ≠ sfsMagic ∨ t.super.version ≠ sfsVersion := by
      cases ok with
      | false => exact Or.inl rfl
      | true =>
        have hsup := (sfsLoad_done hl).1
        rw [← hsup] at hn
        refine Or.inr ?_
        by_contra hc
        push Not at hc
        exact hn hc
    have hfree : sfsFindFreeEntry (fun _ => Entry.zero) = some 0 := by decide
    simp only [sfsInit, hl, if_pos hcond, hfree]

/-- A disk that carries no signature is formatted at its first mount. -/
theorem sfsInit_fresh (hr : s.dev.Reliable) (hn : ¬ Signed (diskSuper s.dev.sectors)) :
    ∃ s', sfsInit s = (s', true) ∧ Rebootable s' ∧ Synced s' ∧
      s'.super = (formatted 0 s.dev).super ∧ s'.entries = (formatted 0 s.dev).entries := by
  obtain ⟨dev, hinit, hfaults⟩ := sfsInit_formats hn
  have hdev : dev.Reliable := fun k => by rw [hfaults]; exact hr k
  obtain ⟨dev', hf⟩ := sfsFlush_reliable (s := formatted 0 dev) hdev
  obtain ⟨-, -, hw⟩ := sfsFlush_done hf
  exact ⟨_, hinit.trans hf, ⟨hw.reliable hdev, rfl, rfl⟩, sfsFlush_synced hf, rfl, rfl⟩

/-- What a read delivers depends on the stored sectors alone. -/
theorem readLoop_congr (hr : d.Reliable) (hr' : d'.Reliable) (hs : d'.sectors = d.sectors)
    (start offset len copied : UInt32) (out : List UInt8) :
    (readLoop start offset len d' copied out).2 = (readLoop start offset len d copied out).2 := by
  induction hm : len.toNat - copied.toNat using Nat.strongRecOn generalizing d d' copied out with
  | ind m ih =>
    rw [readLoop, readLoop.eq_def start offset len d]
    by_cases hlt : copied < len
    · simp only [dif_pos hlt]
      by_cases hl : (start + (offset + copied) / 512).toNat < 65536
      · obtain ⟨e, he, hw⟩ := blockdevRead_reliable hr hl
        obtain ⟨e', he', hw'⟩ := blockdevRead_reliable hr' hl
        obtain ⟨hnext, hprog⟩ := chunk_step hlt (offset + copied)
        have hltn := UInt32.lt_iff_toNat_lt.mp hlt
        simp only [he, he', hs]
        refine ih _ (by omega) (hw.reliable hr) (hw'.reliable hr') ?_ _ _ rfl
        rw [hw.sectors, hw'.sectors, hs]
      · have hge : start + (offset + copied) / 512 ≥ sectorCount := by
          rw [ge_iff_le, UInt32.le_iff_toNat_le, sectorCount_toNat]
          omega
        simp only [blockdevRead, if_pos hge]
    · simp only [dif_neg hlt]

theorem sfsRead_congr (hr : s.dev.Reliable) (hr' : s'.dev.Reliable)
    (hs : s'.dev.sectors = s.dev.sectors) (he : s'.entries = s.entries)
    (nodeId offset len : UInt32) :
    (sfsRead s' nodeId offset len).2 = (sfsRead s nodeId offset len).2 := by
  simp only [sfsRead, he]
  cases fileWith s.entries nodeId sfsPermRead with
  | none => rfl
  | some n =>
    by_cases hge : offset ≥ (s.entries n).size
    · simp only [if_pos hge]
    · simp only [if_neg hge]
      exact readLoop_congr hr hr' hs _ _ _ _ _

/-- Mounting again after a call that returned 1 reproduces superblock and table,
whatever memory `m` held, and with them every answer. -/
theorem sfs_reboot_transparent (s0 : SimpleFs) (hr : s0.dev.Reliable)
    (hfresh : ¬ Signed (diskSuper s0.dev.sectors)) (cs : List SfsCall) (c : SfsCall)
    (s s' : SimpleFs) (hrun : Run callStep (sfsInit s0).1 cs s) (hc : sfsStep s c = .ok (s', true))
    (m : SimpleFs) (hm : m.dev.Reliable) (hdisk : m.dev.sectors = s'.dev.sectors) :
    ∃ t, sfsInit m = (t, true) ∧ t.super = s'.super ∧ t.entries = s'.entries ∧
      (∀ path cwd, sfsResolve t path cwd = sfsResolve s' path cwd) ∧
      (∀ dir most, sfsList t dir most = sfsList s' dir most) ∧
      (∀ nodeId, sfsStat t nodeId = sfsStat s' nodeId) ∧
      ∀ nodeId offset len, (sfsRead t nodeId offset len).2 = (sfsRead s' nodeId offset len).2 := by
  obtain ⟨s1, hinit, hboot, -⟩ := sfsInit_fresh hr hfresh
  rw [hinit] at hrun
  have hs' : Rebootable s' := (hboot.run hrun).step ⟨true, hc⟩
  have hsync := sfsStep_synced hc
  have hsigned : Signed (diskSuper m.dev.sectors) := by
    rw [hdisk, hsync.super]
    exact hs'.signed
  obtain ⟨t, ht, hsup, hent, hsec, -, hfaults⟩ := sfsInit_mounts hm hsigned
  rw [hdisk, hsync.super] at hsup
  rw [hdisk, hsync.entries] at hent
  have htr : t.dev.Reliable := fun k => by rw [hfaults]; exact hm k
  refine ⟨t, ht, hsup, hent, ?_, ?_, ?_, ?_⟩
  · intro path cwd
    rw [sfsResolve, sfsResolve, hsup, hent]
  · intro dir most
    rw [sfsList, sfsList, hent]
  · intro nodeId
    rw [sfsStat, sfsStat, hent]
  · exact sfsRead_congr hs'.reliable htr (hsec.trans hdisk) hent

/-- Memory as the loader leaves it: all zeros. -/
def powerOn (dev : Drive) : SimpleFs := ⟨Superblock.zero, fun _ => Entry.zero, dev⟩

theorem powerOn_blank_fresh : ¬ Signed (diskSuper (powerOn blankDrive).dev.sectors) := by
  intro h
  exact absurd h.1 (by decide)

theorem sfs_reboot_transparent_create : ∃ s' t,
    sfsStep (sfsInit (powerOn blankDrive)).1 (.create [97] 0 sfsTypeFile 3) = .ok (s', true) ∧
    sfsInit (powerOn s'.dev) = (t, true) ∧ (t.entries 1).nameString = [97] := by
  have heval : (sfsStep (sfsInit (powerOn blankDrive)).1
      (.create [97] 0 sfsTypeFile 3)).toOption.map
      (fun p => (p.2, (p.1.entries 1).nameString)) = some (true, [97]) := by decide +kernel
  cases hc : sfsStep (sfsInit (powerOn blankDrive)).1 (.create [97] 0 sfsTypeFile 3) with
  | error => rw [hc] at heval; cases heval
  | ok p =>
    obtain ⟨s', ok⟩ := p
    rw [hc] at heval
    obtain ⟨rfl, hname⟩ := Prod.mk.inj (Option.some.inj heval)
    obtain ⟨s1, hinit, hboot, -⟩ := sfsInit_fresh (s := powerOn blankDrive) (fun _ => rfl)
      powerOn_blank_fresh
    obtain ⟨xs, hx⟩ := sfsStep_issued hc
    have hdev : s'.dev.Reliable := hx.reliable (by rw [hinit]; exact hboot.reliable)
    obtain ⟨t, ht, -, hent, -⟩ := sfs_reboot_transparent (powerOn blankDrive) (fun _ => rfl)
      powerOn_blank_fresh [] (.create [97] 0 sfsTypeFile 3) _ s' (.nil _) hc (powerOn s'.dev)
      hdev rfl
    exact ⟨s', t, rfl, ht, by rw [hent]; exact hname⟩

end VertexOS
