import VertexOS.Vfs.OpenFile

namespace VertexOS
open Library.BlockStore Library.Transitions

/-- No byte of the file lies in a metadata sector. -/
def Entry.OffMetadata (e : Entry) : Prop :=
  ∀ k, k < e.size.toNat → (512 * e.startLba.toNat + k) / 512 ∉ Set.Ico 128 137

/-- What a failed open has to leave alone. -/
structure Unopened (v v' : Vfs) : Prop where
  super : v'.fs.super = v.fs.super
  entries : v'.fs.entries = v.fs.entries
  fds : v'.fds = v.fds
  content : ∀ n, (v.fs.entries n).OffMetadata →
    content v'.fs.entries v'.fs.dev.sectors n = VertexOS.content v.fs.entries v.fs.dev.sectors n

theorem Unopened.of_fs (h : fs = v.fs) : Unopened v { v with fs } := by
  subst h
  exact ⟨rfl, rfl, rfl, fun _ _ => rfl⟩

/-- A descriptor is free, or the open has nothing to do before it looks for one: it empties no
file that holds bytes, and creates none. -/
def OpenHarmless (v : Vfs) (session : Int) (path : List UInt8) (flags : UInt32) : Prop :=
  (∃ i, (v.fds i).used = 0) ∨
    (∀ id n, sfsResolve v.fs path (v.cwd session) = .ok (some id) → flags &&& vfsOTrunc ≠ 0 →
      fileWith v.fs.entries id sfsPermWrite = some n → (v.fs.entries n).size = 0) ∧
    (sfsResolve v.fs path (v.cwd session) = .ok none → flags &&& vfsOCreate ≠ 0 →
      ∀ idx e, sfsCreateEntry v.fs path (v.cwd session) sfsTypeFile
        (sfsPermRead ||| sfsPermWrite) ≠ .ok (some (idx, e)))

theorem sfsCreateEntry_some {s : SimpleFs}
    (h : sfsCreateEntry s path cwd type perm = .ok (some (idx, e))) :
    (s.entries idx).used = 0 ∧ e.used = 1 ∧ e.type = type ∧ e.perm = perm ∧ e.startLba = 0 ∧
      e.size = 0 := by
  unfold sfsCreateEntry at h
  split at h
  · cases h
  · obtain ⟨r, -, h⟩ := bind_ok h
    cases r with
    | none => cases h
    | some p =>
      obtain ⟨current, last⟩ := p
      dsimp only at h
      split at h
      · cases h
      · obtain ⟨child, -, h⟩ := bind_ok h
        cases child with
        | some i => cases h
        | none =>
          dsimp only at h
          cases hfree : sfsFindFreeEntry s.entries with
          | none =>
            rw [hfree] at h
            cases h
          | some i =>
            rw [hfree] at h
            cases h
            have hused := List.find?_some hfree
            exact ⟨by simpa using hused, rfl, rfl, rfl, rfl, rfl⟩

theorem freeFd_none : freeFd fds = none ↔ ∀ i, (fds i).used ≠ 0 := by
  simp [freeFd]

section Opens

variable {v v' : Vfs} {session : Int} {path : List UInt8} {flags : UInt32} {fs : SimpleFs}
  {id : UInt32}

/-- Without a free descriptor an open fails, whatever it has done before. -/
theorem vfsOpen_full (hfull : freeFd v.fds = none)
    (hnode : openNode v.fs path (v.cwd session) flags = .ok (fs, some id)) :
    vfsOpen v session path flags = .ok ({ v with fs := (openTruncate fs id flags).1 }, none) := by
  rw [vfsOpen, hnode]
  dsimp only [bind, Except.bind]
  cases openTruncate fs id flags with
  | mk fs' ok =>
    cases ok with
    | false => rfl
    | true =>
      dsimp only
      rw [hfull]

/-- The ways in which an open fails. -/
theorem vfsOpen_none (h : vfsOpen v session path flags = .ok (v', none)) :
    (∃ fs, openNode v.fs path (v.cwd session) flags = .ok (fs, none) ∧ v' = { v with fs }) ∨
    ∃ fs id, openNode v.fs path (v.cwd session) flags = .ok (fs, some id) ∧
      v' = { v with fs := (openTruncate fs id flags).1 } ∧
      ((openTruncate fs id flags).2 = true → freeFd v.fds = none) := by
  obtain ⟨⟨fs, r⟩, hnode, h⟩ := bind_ok h
  cases r with
  | none =>
    cases h
    exact .inl ⟨fs, hnode, rfl⟩
  | some id =>
    refine .inr ⟨fs, id, hnode, ?_⟩
    dsimp only at h
    cases ht : openTruncate fs id flags with
    | mk fs' ok =>
      rw [ht] at h
      cases ok with
      | false =>
        cases h
        exact ⟨rfl, fun h => by cases h⟩
      | true =>
        dsimp only at h
        cases hfree : freeFd v.fds with
        | none =>
          rw [hfree] at h
          cases h
          exact ⟨rfl, fun _ => rfl⟩
        | some j =>
          rw [hfree] at h
          cases h

theorem sfsFlush_ok (fs : SimpleFs) (hr : fs.dev.Reliable) : (sfsFlush fs).2 = true := by
  obtain ⟨dev, h⟩ := sfsFlush_reliable hr
  rw [h]

/-- On a reliable drive a create that fails has done nothing. -/
theorem sfsCreate_none (hr : v.fs.dev.Reliable)
    (h : sfsCreate v.fs path cwd type perm = .ok (fs, none)) : fs = v.fs := by
  rcases sfsCreate_cases h with ⟨-, hfs, -⟩ | ⟨idx, e, -, hflush, -⟩
  · exact hfs
  · have hok := sfsFlush_ok { v.fs with entries := Function.update v.fs.entries idx e } hr
    rw [hflush] at hok
    cases hok

/-- Emptying an empty file changes nothing. -/
theorem Updated.unopened (h : Updated v.fs n { v.fs.entries n with size := 0 } fs)
    (hz : (v.fs.entries n).size = 0) : Unopened v { v with fs } := by
  have hsame : { v.fs.entries n with size := 0 } = v.fs.entries n := by
    rw [← hz]
  have hent : fs.entries = v.fs.entries := by
    rw [h.entries, hsame, Function.update_eq_self]
  refine ⟨h.super, hent, rfl, fun m hm => ?_⟩
  dsimp only
  rw [hent]
  apply List.map_congr_left
  intro k hk
  unfold byte
  rw [h.dev.sectors _ (hm k (List.mem_range.mp hk))]

theorem openTruncate_unopened (hr : v.fs.dev.Reliable)
    (hz : ∀ n, flags &&& vfsOTrunc ≠ 0 → fileWith v.fs.entries id sfsPermWrite = some n →
      (openTruncate v.fs id flags).2 = true → (v.fs.entries n).size = 0) :
    Unopened v { v with fs := (openTruncate v.fs id flags).1 } := by
  by_cases htrunc : flags &&& vfsOTrunc ≠ 0
  · rw [openTruncate, if_pos htrunc] at hz ⊢
    rcases sfsTruncate_cases v.fs id with ⟨-, hs⟩ | ⟨n, hfile, hs⟩
    · rw [hs]
      exact .of_fs rfl
    · have hok : (sfsTruncate v.fs id).2 = true := by
        rw [hs]
        exact sfsFlush_ok _ hr
      have hup := sfsFlush_updated (Prod.eta (sfsFlush { v.fs with
        entries := Function.update v.fs.entries n { v.fs.entries n with size := 0 } })).symm
      rw [hs]
      exact hup.unopened (hz n htrunc hfile hok)
  · rw [openTruncate, if_neg htrunc]
    exact .of_fs rfl

/-- A created file can be emptied at once. -/
theorem openTruncate_created (flags : UInt32) (hr : fs.dev.Reliable) (hu : (fs.entries n).used = 1)
    (ht : (fs.entries n).type = sfsTypeFile)
    (hp : (fs.entries n).perm = sfsPermRead ||| sfsPermWrite) :
    (openTruncate fs (slotId n) flags).2 = true ∧
      ((openTruncate fs (slotId n) flags).1.entries n).used = 1 := by
  rw [openTruncate]
  split
  · have hfile : fileWith fs.entries (slotId n) sfsPermWrite = some n := by
      refine fileWith_slot fs.entries n sfsPermWrite ⟨?_, ht⟩ ?_
      · rw [hu]
        decide
      · rw [hp]
        decide
    rw [sfsTruncate, hfile]
    dsimp only
    refine ⟨sfsFlush_ok _ hr, ?_⟩
    rw [sfsFlush_entries]
    dsimp only
    rw [Function.update_self]
    exact hu
  · exact ⟨rfl, hu⟩

end Opens

/-- On a reliable drive a failed open leaves everything as it was exactly when it is harmless. -/
theorem vfs_failed_open_undone_iff (v : Vfs) (session : Int) (path : List UInt8) (flags : UInt32)
    (hr : v.fs.dev.Reliable) :
    (∀ v', vfsOpen v session path flags = .ok (v', none) → Unopened v v') ↔
      OpenHarmless v session path flags := by
  constructor
  · intro h
    by_cases hfree : ∃ i, (v.fds i).used = 0
    · exact .inl hfree
    · have hfull : freeFd v.fds = none := freeFd_none.mpr fun i hi => hfree ⟨i, hi⟩
      refine .inr ⟨?_, ?_⟩
      · intro id n hres htrunc hfile
        have hnode : openNode v.fs path (v.cwd session) flags = .ok (v.fs, some id) := by
          rw [openNode, hres]
          rfl
        have hent := (h _ (vfsOpen_full hfull hnode)).entries
        dsimp only at hent
        rw [openTruncate, if_pos htrunc, sfsTruncate, hfile] at hent
        dsimp only at hent
        rw [sfsFlush_entries] at hent
        have hn := congrFun hent n
        dsimp only at hn
        rw [Function.update_self] at hn
        exact (congrArg Entry.size hn).symm
      · intro hres hflag idx e hentry
        obtain ⟨hunused, hused, htype, hperm, -⟩ := sfsCreateEntry_some hentry
        obtain ⟨fs, nodeId, hcreate, -, hfs, hent, hid⟩ := sfsCreate_effect hentry
        rw [sfsFlush_ok { v.fs with entries := Function.update v.fs.entries idx e } hr,
          if_pos rfl] at hid
        have hnode : openNode v.fs path (v.cwd session) flags = .ok (fs, some (slotId idx)) := by
          rw [openNode, hres]
          dsimp only [bind, Except.bind]
          rw [if_pos hflag, hcreate, hid]
        have hfsr : fs.dev.Reliable := by
          intro k
          rw [hfs, (sfsFlush_frame _).2.2]
          exact hr k
        have hself : fs.entries idx = e := by
          rw [hent, Function.update_self]
        have hkept := (openTruncate_created flags hfsr (by rw [hself, hused])
          (by rw [hself, htype]) (by rw [hself, hperm])).2
        have hopen := (h _ (vfsOpen_full hfull hnode)).entries
        dsimp only at hopen
        rw [congrFun hopen idx, hunused] at hkept
        cases hkept
  · intro h v' hopen
    rcases vfsOpen_none hopen with ⟨fs, hnode, rfl⟩ | ⟨fs, id, hnode, rfl, hfull⟩
    · rcases openNode_cases hnode with ⟨-, rfl⟩ | ⟨-, -, hcreate⟩
      · exact .of_fs rfl
      · exact .of_fs (sfsCreate_none hr hcreate)
    · rcases openNode_cases hnode with ⟨hres, rfl⟩ | ⟨hres, hflag, hcreate⟩
      · apply openTruncate_unopened hr
        intro n htrunc hfile hok
        rcases h with ⟨i, hi⟩ | ⟨hempty, -⟩
        · exact absurd hi (freeFd_none.mp (hfull hok) i)
        · exact hempty id n hres htrunc hfile
      · rcases sfsCreate_cases hcreate with ⟨-, -, hnone⟩ | ⟨idx, e, hentry, hflush, hid⟩
        · cases hnone
        · rcases h with ⟨i, hi⟩ | ⟨-, hnew⟩
          · obtain ⟨-, hused, htype, hperm, -⟩ := sfsCreateEntry_some hentry
            have hup := sfsFlush_updated hflush
            obtain rfl := hid id rfl
            have hok := (openTruncate_created flags (hup.dev.reliable hr)
              (by rw [hup.self, hused]) (by rw [hup.self, htype]) (by rw [hup.self, hperm])).1
            exact absurd hi (freeFd_none.mp (hfull hok) i)
          · exact absurd hentry (hnew hres hflag idx e)

/-- A fresh volume with a file `a` of three bytes, on which every descriptor is in use. -/
def fullVfs : Vfs where
  fs := { formatted 0 blankDrive with
    super := { (formatted 0 blankDrive).super with nextFreeLba := 138 }
    entries := Function.update (formatted 0 blankDrive).entries 1 { Entry.zero with
      used := 1, type := sfsTypeFile, perm := 3, startLba := 137, size := 3,
      capacitySectors := 1, name := sCopy Entry.zero.name [97] } }
  fds := fun _ => ⟨1, 1, 0, vfsORead⟩
  ctx := fun _ => ⟨0, [slash], fun _ => 0, fun _ _ => 0, fun _ _ => 0⟩

theorem vfs_failed_open_undone_missing : ∃ v',
    vfsOpen fullVfs 0 [98] vfsORead = .ok (v', none) ∧ Unopened fullVfs v' := by
  have hres : sfsResolve fullVfs.fs [98] (fullVfs.cwd 0) = .ok none := by
    decide +kernel
  have hopen : vfsOpen fullVfs 0 [98] vfsORead = .ok (fullVfs, none) := by
    rw [vfsOpen, openNode, hres]
    rfl
  refine ⟨fullVfs, hopen,
    (vfs_failed_open_undone_iff fullVfs 0 [98] vfsORead fun _ => rfl).mpr ?_ fullVfs hopen⟩
  refine .inr ⟨fun id n hsome => ?_, fun _ hflag => absurd hflag (by decide)⟩
  rw [hres] at hsome
  cases hsome

/-- The open fails for want of a descriptor, and the file has lost its three bytes. -/
theorem vfs_failed_open_empties : ∃ v', fullVfs.fs.dev.Reliable ∧
    vfsOpen fullVfs 0 [97] (vfsOWrite ||| vfsOTrunc) = .ok (v', none) ∧
    (fullVfs.fs.entries 1).size = 3 ∧ (v'.fs.entries 1).size = 0 := by
  have heval : (vfsOpen fullVfs 0 [97] (vfsOWrite ||| vfsOTrunc)).toOption.map
      (fun p => (p.2, (p.1.fs.entries 1).size)) = some (none, 0) := by
    decide +kernel
  cases hopen : vfsOpen fullVfs 0 [97] (vfsOWrite ||| vfsOTrunc) with
  | error e =>
    rw [hopen] at heval
    cases heval
  | ok p =>
    obtain ⟨v', fd⟩ := p
    rw [hopen] at heval
    obtain ⟨rfl, hsize⟩ : fd = none ∧ (v'.fs.entries 1).size = 0 := by
      simpa using Option.some.inj heval
    exact ⟨v', fun _ => rfl, rfl, rfl, hsize⟩

end VertexOS
