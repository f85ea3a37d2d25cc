import VertexOS.Fs.Paths
import VertexOS.Fs.Refusals
import VertexOS.Vfs.Effects

namespace VertexOS
open Library.BlockStore

theorem freeFd_some (h : freeFd fds = some i) : (fds i).used = 0 := by
  simpa using List.find?_some h

theorem vfsOpen_some (h : vfsOpen v session path flags = .ok (v', some i)) :
    ∃ fs nodeId, openNode v.fs path (v.cwd session) flags = .ok (fs, some nodeId) ∧
      openTruncate fs nodeId flags = (v'.fs, true) ∧ freeFd v.fds = some i ∧
      v' = { v with fs := v'.fs, fds := Function.update v.fds i ⟨1, nodeId, 0, flags⟩ } := by
  obtain ⟨⟨fs, r⟩, hnode, h⟩ := bind_ok h
  cases r with
  | none => cases h
  | some nodeId =>
    dsimp only at h
    cases ht : openTruncate fs nodeId flags with
    | mk fs' ok =>
      rw [ht] at h
      cases ok with
      | false => cases h
      | true =>
        dsimp only at h
        cases hfree : freeFd v.fds with
        | none =>
          rw [hfree] at h
          cases h
        | some j =>
          rw [hfree] at h
          cases h
          exact ⟨fs, nodeId, hnode, ht, rfl, rfl⟩

/-- Opening for reading takes a descriptor for a node that is there. -/
theorem vfsOpen_reads (h : vfsOpen v session path vfsORead = .ok (v', some i)) :
    ∃ nodeId, sfsResolve v.fs path (v.cwd session) = .ok (some nodeId) ∧
      freeFd v.fds = some i ∧
      v' = { v with fds := Function.update v.fds i ⟨1, nodeId, 0, vfsORead⟩ } := by
  obtain ⟨fs, nodeId, hnode, htrunc, hfree, hv⟩ := vfsOpen_some h
  rcases openNode_cases hnode with ⟨hres, rfl⟩ | ⟨-, hflag, -⟩
  · have hfs : openTruncate v.fs nodeId vfsORead = (v.fs, true) := if_neg (by decide)
    have hsame : v'.fs = v.fs := congrArg Prod.fst (htrunc.symm.trans hfs)
    refine ⟨nodeId, hres, hfree, ?_⟩
    rw [hv, hsame]
  · exact absurd hflag (by decide)

/-- Without the flags to create or empty a file, a failed open leaves the volume alone. -/
theorem vfsOpen_none_reads (h : vfsOpen v session path vfsORead = .ok (v', none)) :
    v'.fs = v.fs := by
  obtain ⟨⟨fs, r⟩, hnode, h⟩ := bind_ok h
  obtain rfl : fs = v.fs := by
    rcases openNode_cases hnode with ⟨-, rfl⟩ | ⟨-, hflag, -⟩
    · rfl
    · exact absurd hflag (by decide)
  cases r with
  | none =>
    cases h
    rfl
  | some nodeId =>
    have hfs : openTruncate v.fs nodeId vfsORead = (v.fs, true) := if_neg (by decide)
    dsimp only at h
    rw [hfs] at h
    dsimp only at h
    split at h
    · cases h
      rfl
    · cases h

/-- Opening a path never faults. -/
theorem vfsOpen_returns (ht : DirectoryTree v.fs.super v.fs.entries)
    (hc : DirId v.fs.entries (v.cwd session)) (path : List UInt8) (flags : UInt32) :
    ∃ r, vfsOpen v session path flags = .ok r := by
  have hnode : ∃ r, openNode v.fs path (v.cwd session) flags = .ok r := by
    obtain ⟨r, hr, -⟩ := ht.resolve (ht.start hc path).used path
    unfold openNode
    rw [sfsResolve, hr]
    cases r with
    | some nodeId => exact ⟨_, rfl⟩
    | none =>
      obtain ⟨r, hr, -⟩ := sfsCreateEntry_new ht hc path sfsTypeFile (sfsPermRead ||| sfsPermWrite)
      obtain ⟨fs, nodeId, hcreate, -⟩ := sfsCreate_effect hr
      by_cases hflag : flags &&& vfsOCreate ≠ 0
      · exact ⟨_, (if_pos hflag).trans hcreate⟩
      · exact ⟨_, if_neg hflag⟩
  obtain ⟨⟨fs, r⟩, hnode⟩ := hnode
  unfold vfsOpen
  rw [hnode]
  cases r with
  | none => exact ⟨_, rfl⟩
  | some nodeId =>
    simp only [bind, Except.bind]
    split
    · exact ⟨_, rfl⟩
    · split
      · exact ⟨_, rfl⟩
      · exact ⟨_, rfl⟩

theorem sfsTruncate_done (h : sfsTruncate s nodeId = (s', true)) :
    ∃ n, nodeId = slotId n ∧ (s.entries n).IsFile ∧ (s.entries n).perm &&& sfsPermWrite ≠ 0 ∧
      sfsFlush { s with
        entries := Function.update s.entries n { s.entries n with size := 0 } } = (s', true) := by
  rcases sfsTruncate_cases s nodeId with ⟨-, hs⟩ | ⟨n, hw, hs⟩
  · rw [hs] at h
    cases h
  · obtain ⟨hf, hp, hid⟩ := fileWith_some hw
    refine ⟨n, ?_, hf, hp, by rw [← hs, h]⟩
    apply UInt32.toNat_inj.mp
    rw [hid, slotId_toNat]

/-- What a flush of a changed entry leaves: the metadata as given, and the bytes
of every file. -/
structure Updated (s : SimpleFs) (n : Fin 64) (e : Entry) (s' : SimpleFs) : Prop where
  super : s'.super = s.super
  entries : s'.entries = Function.update s.entries n e
  dev : Confined (Set.Ico 128 137) s.dev s'.dev

theorem sfsFlush_updated
    (h : sfsFlush { s with entries := Function.update s.entries n e } = (s', ok)) :
    Updated s n e s' := by
  obtain ⟨hsup, hent, -⟩ := sfsFlush_frame { s with entries := Function.update s.entries n e }
  have hdev := sfsFlush_confined { s with entries := Function.update s.entries n e }
  rw [h] at hsup hent hdev
  exact ⟨hsup, hent, hdev⟩

section Updated

variable {s s' : SimpleFs} {n : Fin 64} {e : Entry} (h : Updated s n e s')

include h

theorem Updated.self : s'.entries n = e := by
  rw [h.entries, Function.update_self]

theorem Updated.other (hm : m ≠ n) : s'.entries m = s.entries m := by
  rw [h.entries, Function.update_of_ne hm]

theorem Updated.content (hx : Allocation s.super s.entries) (hm : m ≠ n)
    (hf : (s.entries m).IsFile) :
    content s'.entries s'.dev.sectors m = content s.entries s.dev.sectors m := by
  rw [← h.dev.content hx hf (hx.outside_metadata m)]
  unfold VertexOS.content
  rw [h.other hm]

end Updated

/-- An opened and emptied file, and what that left of the volume: other files
as they were, and every path that led somewhere. -/
structure Emptied (fs : SimpleFs) (path : List UInt8) (cwd : UInt32) (m : Fin 64)
    (fs' : SimpleFs) : Prop where
  tree : DirectoryTree fs'.super fs'.entries
  allocation : Allocation fs'.super fs'.entries
  faults : fs'.dev.faults = fs.dev.faults
  super : fs'.super = fs.super
  file : (fs'.entries m).IsFile
  writable : (fs'.entries m).perm &&& sfsPermWrite ≠ 0
  size : (fs'.entries m).size = 0
  before : sfsResolve fs path cwd = .ok (some (slotId m)) ∧
      fs'.entries m = { fs.entries m with size := 0 } ∨
    sfsResolve fs path cwd = .ok none ∧ (fs.entries m).used = 0 ∧ (fs'.entries m).startLba = 0
  after : sfsResolve fs' path cwd = .ok (some (slotId m))
  others : ∀ path' cwd' nodeId, UsedId fs.entries cwd' →
    sfsResolve fs path' cwd' = .ok (some nodeId) → sfsResolve fs' path' cwd' = .ok (some nodeId)
  entry : ∀ k, k ≠ m → fs'.entries k = fs.entries k
  content : ∀ k, k ≠ m → (fs.entries k).IsFile →
    content fs'.entries fs'.dev.sectors k = VertexOS.content fs.entries fs.dev.sectors k

/-- Emptying a file that is there. -/
theorem Updated.emptied (h : Updated fs m { fs.entries m with size := 0 } fs')
    (ht : DirectoryTree fs.super fs.entries) (hx : Allocation fs.super fs.entries)
    (hf : (fs.entries m).IsFile) (hp : (fs.entries m).perm &&& sfsPermWrite ≠ 0)
    (hres : sfsResolve fs path cwd = .ok (some (slotId m))) : Emptied fs path cwd m fs' := by
  have hshape : SameShape fs.entries fs'.entries := by
    rw [h.entries]
    exact SameShape.update fs.entries m (fs.entries m).startLba 0 (fs.entries m).capacitySectors
  have hroot : fs'.super.rootId = fs.super.rootId := by rw [h.super]
  constructor
  · exact ht.reshape hshape hroot
  · rw [h.super, h.entries]
    exact hx.empty m
  · exact h.dev.faults
  · exact h.super
  · rw [h.self]
    exact hf
  · rw [h.self]
    exact hp
  · rw [h.self]
  · exact Or.inl ⟨hres, h.self⟩
  · rw [hshape.resolve hroot, hres]
  · intro path' cwd' nodeId _ hres'
    rw [hshape.resolve hroot, hres']
  · intro k hk
    exact h.other hk
  · intro k hk hfk
    exact h.content hx hk hfk

/-- Emptying a file just created. -/
theorem Emptied.created (h : Emptied fs path cwd m fs') (hn : Updated fs₀ m e fs)
    (hnew : NewEntry fs₀.entries m e type) (hx : Allocation fs₀.super fs₀.entries)
    (hres : sfsResolve fs₀ path cwd = .ok none)
    (hothers : ∀ path' cwd' nodeId, UsedId fs₀.entries cwd' →
      sfsResolve fs₀ path' cwd' = .ok (some nodeId) → sfsResolve fs path' cwd' = .ok (some nodeId)) :
    Emptied fs₀ path cwd m fs' := by
  have hkeep : ∀ k, (fs₀.entries k).used ≠ 0 → k ≠ m := fun k hk he => hk (he ▸ hnew.free)
  have hstart : (fs'.entries m).startLba = 0 := by
    rcases h.before with ⟨-, he⟩ | ⟨-, -, h0⟩
    · rw [he, hn.self]
      exact hnew.fresh.1
    · exact h0
  refine ⟨h.tree, h.allocation, h.faults.trans hn.dev.faults, h.super.trans hn.super, h.file,
    h.writable, h.size, Or.inr ⟨hres, hnew.free, hstart⟩, h.after, ?_, ?_, ?_⟩
  · intro path' cwd' nodeId hused hres'
    apply h.others path' cwd' nodeId _ (hothers path' cwd' nodeId hused hres')
    obtain ⟨k, rfl, hk⟩ := hused
    refine ⟨k, rfl, ?_⟩
    rw [hn.other (hkeep k hk)]
    exact hk
  · intro k hk
    rw [h.entry k hk, hn.other hk]
  · intro k hk hf
    rw [h.content k hk (by rwa [hn.other hk]), hn.content hx hk hf]

theorem vfsOpen_emptied (ht : DirectoryTree v.fs.super v.fs.entries)
    (hc : DirId v.fs.entries (v.cwd session)) (hx : Allocation v.fs.super v.fs.entries)
    (htrunc : flags &&& vfsOTrunc ≠ 0)
    (h : vfsOpen v session path flags = .ok (v', some i)) :
    ∃ m, Emptied v.fs path (v.cwd session) m v'.fs ∧ freeFd v.fds = some i ∧
      v' = { v with fs := v'.fs, fds := Function.update v.fds i ⟨1, slotId m, 0, flags⟩ } := by
  obtain ⟨fs, nodeId, hnode, hempty, hfree, hv⟩ := vfsOpen_some h
  unfold openTruncate at hempty
  rw [if_pos htrunc] at hempty
  obtain ⟨m, rfl, hf, hp, hflush⟩ := sfsTruncate_done hempty
  refine ⟨m, ?_, hfree, hv⟩
  have hup := sfsFlush_updated hflush
  rcases openNode_cases hnode with ⟨hres, rfl⟩ | ⟨hres, -, hcr⟩
  · exact hup.emptied ht hx hf hp hres
  · obtain ⟨idx, e, hnew, hid, hflush', hgood, hbad⟩ := sfsCreate_found ht hc hcr
    obtain rfl := slotId_inj hid
    have hn := sfsFlush_updated hflush'
    have hend : EndsInName path := by
      by_contra hend
      exact hbad hend hres
    have hfound := hgood hend
    have ht' : DirectoryTree fs.super fs.entries := by
      rw [hn.super, hn.entries]
      exact ht.add hnew
    have hx' : Allocation fs.super fs.entries := by
      rw [hn.super, hn.entries]
      exact hx.add hnew
    exact (hup.emptied ht' hx' hf hp hfound.after).created hn hnew hx hres hfound.others

end VertexOS
