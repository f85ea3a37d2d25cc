import VertexOS.Library.Transitions
import VertexOS.Fs.Tree

namespace VertexOS
open Library.Transitions Library.BlockStore

/-- The calls that change a mounted volume. -/
inductive SfsCall where
  | create (path : List UInt8) (cwdId : UInt32) (type perm : UInt8)
  | remove (path : List UInt8) (cwdId : UInt32)
  | write (nodeId offset : UInt32) (data : Nat → UInt8) (len : UInt32)
  | truncate (nodeId : UInt32)

/-- One call: the volume it leaves and whether it returned 1. -/
def sfsStep (s : SimpleFs) : SfsCall → Except Fault (SimpleFs × Bool)
  | .create path cwdId type perm => do
    let (s, nodeId) ← sfsCreate s path cwdId type perm
    .ok (s, nodeId.isSome)
  | .remove path cwdId => sfsRemove s path cwdId
  | .write nodeId offset data len =>
    let (s, written) := sfsWrite s nodeId offset data len
    .ok (s, written.isSome)
  | .truncate nodeId => .ok (sfsTruncate s nodeId)

/-- The superblock after a call differs at most in its free end. -/
def SuperFrame (sb sb' : Superblock) : Prop := sb' = { sb with nextFreeLba := sb'.nextFreeLba }

theorem SuperFrame.refl (sb : Superblock) : SuperFrame sb sb := rfl

theorem SuperFrame.trans (h : SuperFrame sb sb') (h' : SuperFrame sb' sb'') :
    SuperFrame sb sb'' := by
  unfold SuperFrame at *
  rw [h', h]

theorem SuperFrame.rootId (h : SuperFrame sb sb') : sb'.rootId = sb.rootId := by rw [h]

theorem SuperFrame.signed (h : SuperFrame sb sb') (hs : Signed sb) : Signed sb' := by
  rw [h]
  exact hs

theorem sfsFlush_super (s : SimpleFs) : (sfsFlush s).1.super = s.super := (sfsFlush_frame s).1

theorem sfsFlush_entries (s : SimpleFs) : (sfsFlush s).1.entries = s.entries :=
  (sfsFlush_frame s).2.1

theorem grow_shape (s : SimpleFs) (n : Fin 64) (need : UInt32) :
    SameShape s.entries (grow s n need).entries :=
  SameShape.update s.entries n s.super.nextFreeLba (s.entries n).size need

theorem sfsReserve_shape (s : SimpleFs) (n : Fin 64) (need : UInt32) :
    SameShape s.entries (sfsReserve s n need).1.entries ∧
      SuperFrame s.super (sfsReserve s n need).1.super := by
  unfold sfsReserve
  by_cases h0 : (s.entries n).startLba = 0
  · simp only [if_pos h0]
    exact ⟨grow_shape s n need, rfl⟩
  · by_cases hc : need > (s.entries n).capacitySectors
    · simp only [if_neg h0, if_pos hc]
      cases relocateLoop (s.entries n).startLba s.super.nextFreeLba
          (s.entries n).capacitySectors.toNat s.dev 0 with
      | mk dev ok =>
        cases ok with
        | false => exact ⟨SameShape.refl _, rfl⟩
        | true => exact ⟨grow_shape { s with dev } n need, rfl⟩
    · simp only [if_neg h0, if_neg hc]
      exact ⟨SameShape.refl _, rfl⟩

theorem extendSize_shape (es : Table) (n : Fin 64) (endPos : UInt32) :
    SameShape es (extendSize es n endPos) := by
  unfold extendSize
  split
  · exact SameShape.update es n (es n).startLba endPos (es n).capacitySectors
  · exact SameShape.refl es

/-- Whatever the device does, a write moves and resizes its file and no more. -/
theorem sfsWrite_shape (s : SimpleFs) (nodeId offset : UInt32) (data : Nat → UInt8)
    (len : UInt32) : SameShape s.entries (sfsWrite s nodeId offset data len).1.entries ∧
      SuperFrame s.super (sfsWrite s nodeId offset data len).1.super := by
  unfold sfsWrite
  cases fileWith s.entries nodeId sfsPermWrite with
  | none => exact ⟨SameShape.refl _, rfl⟩
  | some n =>
    dsimp only
    obtain ⟨hshape, hsup⟩ := sfsReserve_shape s n (needSectors offset len)
    cases hres : sfsReserve s n (needSectors offset len) with
    | mk s1 ok =>
      rw [hres] at hshape hsup
      cases ok with
      | false => exact ⟨hshape, hsup⟩
      | true =>
        dsimp only at hshape hsup ⊢
        cases writeLoop (s1.entries n).startLba offset data len s1.dev 0 with
        | mk dev written =>
          cases written with
          | none => exact ⟨hshape, hsup⟩
          | some copied =>
            dsimp only
            have hsuper := sfsFlush_super
              { s1 with dev, entries := extendSize s1.entries n (offset + len) }
            have hent := sfsFlush_entries
              { s1 with dev, entries := extendSize s1.entries n (offset + len) }
            cases hfl : sfsFlush
                { s1 with dev, entries := extendSize s1.entries n (offset + len) } with
            | mk s2 done =>
              rw [hfl] at hsuper hent
              dsimp only at hsuper hent
              have hresult : SameShape s.entries s2.entries ∧ SuperFrame s.super s2.super := by
                rw [hsuper, hent]
                exact ⟨hshape.trans (extendSize_shape _ _ _), hsup⟩
              cases done <;> exact hresult

theorem sfsTruncate_shape (s : SimpleFs) (nodeId : UInt32) :
    SameShape s.entries (sfsTruncate s nodeId).1.entries ∧
      (sfsTruncate s nodeId).1.super = s.super := by
  unfold sfsTruncate
  cases fileWith s.entries nodeId sfsPermWrite with
  | none => exact ⟨SameShape.refl _, rfl⟩
  | some n =>
    dsimp only
    rw [sfsFlush_super, sfsFlush_entries]
    exact ⟨SameShape.update s.entries n (s.entries n).startLba 0 (s.entries n).capacitySectors, rfl⟩

/-- A create either leaves superblock and table alone or puts the new entry into
the table, whatever the flush reports. -/
theorem sfsCreate_effect (h : sfsCreateEntry s path cwd type perm = .ok r) :
    ∃ s' nodeId, sfsCreate s path cwd type perm = .ok (s', nodeId) ∧ s'.super = s.super ∧
      match r with
      | none => s' = s ∧ nodeId = none
      | some (idx, e) => s' = (sfsFlush { s with entries := Function.update s.entries idx e }).1 ∧
          s'.entries = Function.update s.entries idx e ∧
          nodeId = if (sfsFlush { s with entries := Function.update s.entries idx e }).2
            then some (slotId idx) else none := by
  simp only [sfsCreate, h, bind, Except.bind]
  cases r with
  | none => exact ⟨s, none, rfl, rfl, rfl, rfl⟩
  | some p =>
    obtain ⟨idx, e⟩ := p
    have hsuper := sfsFlush_super { s with entries := Function.update s.entries idx e }
    have hent := sfsFlush_entries { s with entries := Function.update s.entries idx e }
    cases hfl : sfsFlush { s with entries := Function.update s.entries idx e } with
    | mk s2 done =>
      rw [hfl] at hsuper hent
      cases done with
      | false => exact ⟨s2, none, by simp [hfl], hsuper, by simp [hfl], hent, by simp [hfl]⟩
      | true =>
        exact ⟨s2, some (slotId idx), by simp [hfl], hsuper, by simp [hfl], hent, by simp [hfl]⟩

/-- A remove either leaves the volume alone or clears its target. -/
theorem sfsRemove_effect (h : sfsRemoveTarget s path cwd = .ok r) :
    ∃ s' ok, sfsRemove s path cwd = .ok (s', ok) ∧ s'.super = s.super ∧
      match r with
      | none => s' = s ∧ ok = false
      | some n => (s', ok) = sfsFlush { s with entries := Function.update s.entries n Entry.zero } ∧
          s'.entries = Function.update s.entries n Entry.zero := by
  simp only [sfsRemove, h, bind, Except.bind]
  cases r with
  | none => exact ⟨s, false, rfl, rfl, rfl, rfl⟩
  | some n =>
    exact ⟨_, _, rfl, sfsFlush_super _, rfl, sfsFlush_entries _⟩

/-- The calls are given what their callers promise: a used directory to start
from, and one of the two node types. -/
def SfsCall.Valid (s : SimpleFs) : SfsCall → Prop
  | .create _ cwdId type _ => DirId s.entries cwdId ∧ (type = sfsTypeFile ∨ type = sfsTypeDir)
  | .remove _ cwdId => DirId s.entries cwdId
  | .write .. => True
  | .truncate _ => True

/-- Every valid call on a tree returns, and leaves a tree. -/
theorem sfsStep_tree (ht : DirectoryTree s.super s.entries) (hv : c.Valid s) :
    ∃ s' ok, sfsStep s c = .ok (s', ok) ∧ DirectoryTree s'.super s'.entries := by
  cases c with
  | create path cwd type perm =>
    obtain ⟨r, hr, hnew⟩ := sfsCreateEntry_new ht hv.1 path type perm
    obtain ⟨s', nodeId, hc, hsup, hcase⟩ := sfsCreate_effect hr
    refine ⟨s', nodeId.isSome, by simp [sfsStep, hc, bind, Except.bind], ?_⟩
    cases r with
    | none =>
      rw [hcase.1]
      exact ht
    | some p =>
      rw [hsup, hcase.2.1]
      exact ht.add (hnew p.1 p.2 rfl)
  | remove path cwd =>
    obtain ⟨r, hr, hrem⟩ := sfsRemoveTarget_removable ht hv path
    obtain ⟨s', ok, hc, hsup, hcase⟩ := sfsRemove_effect hr
    refine ⟨s', ok, hc, ?_⟩
    cases r with
    | none =>
      rw [hcase.1]
      exact ht
    | some n =>
      rw [hsup, hcase.2]
      exact ht.remove (hrem n rfl)
  | write nodeId offset data len =>
    obtain ⟨hshape, hsup⟩ := sfsWrite_shape s nodeId offset data len
    exact ⟨_, _, rfl, ht.reshape hshape hsup.rootId⟩
  | truncate nodeId =>
    obtain ⟨hshape, hsup⟩ := sfsTruncate_shape s nodeId
    exact ⟨_, _, rfl, ht.reshape hshape (congrArg Superblock.rootId hsup)⟩

/-- A step of a run of valid calls. -/
def validStep (s : SimpleFs) (c : SfsCall) (s' : SimpleFs) : Prop :=
  c.Valid s ∧ ∃ ok, sfsStep s c = .ok (s', ok)

theorem formatted_root (dev : Drive) : (formatted 0 dev).entries 0 = rootEntry 0 := by
  simp [formatted]

theorem formatted_used (hi : ((formatted 0 dev).entries i).used ≠ 0) : i = 0 := by
  by_contra h0
  simp [formatted, h0, Entry.zero] at hi

theorem formatted_tree (dev : Drive) :
    DirectoryTree (formatted 0 dev).super (formatted 0 dev).entries := by
  have hslot : parentSlot (formatted 0 dev).entries 0 = 0 :=
    parentSlot_of_eq (by rw [formatted_root]; rfl)
  refine ⟨rfl, ⟨?_, hslot, ?_, fun _ => 0, ?_⟩, ?_, ?_, ?_, ?_, ?_, ?_⟩
  · rw [formatted_root]
    decide
  · intro i hi
    rw [formatted_used hi, hslot, formatted_root]
    decide
  · intro i hi h0
    exact absurd (formatted_used hi) h0
  · intro i hi
    rw [formatted_used hi, hslot, formatted_root]
    rfl
  · intro i hi
    rw [formatted_used hi, hslot, formatted_root]
    exact ⟨by decide, rfl⟩
  · intro i hi
    rw [formatted_used hi, formatted_root]
    decide +kernel
  · intro i hi h0
    exact absurd (formatted_used hi) h0
  · rw [formatted_root]
    decide +kernel
  · intro i j hi _ h0
    exact absurd (formatted_used hi) h0

theorem run_tree (h : Run validStep (formatted 0 dev) cs s) :
    DirectoryTree s.super s.entries := by
  refine h.invariant (P := fun s => DirectoryTree s.super s.entries) ?_ (formatted_tree dev)
  intro s c s' ht hstep
  obtain ⟨hv, ok, hok⟩ := hstep
  obtain ⟨t, ok', hok', ht'⟩ := sfsStep_tree ht hv
  rw [hok] at hok'
  obtain ⟨rfl, rfl⟩ := Prod.mk.inj (Except.ok.inj hok')
  exact ht'

/-- The entry table is always a tree: after any run of valid calls on any device,
and no valid call can then fault. -/
theorem sfs_table_is_tree (dev : Drive) (cs : List SfsCall) (s : SimpleFs)
    (h : Run validStep (formatted 0 dev) cs s) :
    (∀ c, c.Valid s → ∃ s' ok, sfsStep s c = .ok (s', ok)) ∧
    s.super.rootId = slotId 0 ∧ (s.entries 0).IsDir ∧ (s.entries 0).parent = slotId 0 ∧
    (∀ i, i ≠ 0 → (s.entries i).used ≠ 0 →
      ∃ p : Fin 64, (s.entries i).parent = slotId p ∧ (s.entries p).IsDir) ∧
    (∀ i, (s.entries i).used ≠ 0 → ∃ k, k < 64 ∧ (parentSlot s.entries)^[k] i = 0) ∧
    (∀ i j, i ≠ 0 → j ≠ 0 → (s.entries i).used ≠ 0 → (s.entries j).used ≠ 0 →
      (s.entries i).parent = (s.entries j).parent →
      (s.entries i).nameString = (s.entries j).nameString → i = j) ∧
    (∀ i, i ≠ 0 → (s.entries i).used ≠ 0 → (s.entries i).nameString ≠ [] ∧
      slash ∉ (s.entries i).nameString ∧ 0 ∈ (s.entries i).nameBytes) := by
  have ht := run_tree h
  refine ⟨?_, ht.root, ht.root_dir, ?_, ?_, ?_, ?_, ?_⟩
  · intro c hv
    obtain ⟨s', ok, hok, -⟩ := sfsStep_tree ht hv
    exact ⟨s', ok, hok⟩
  · have hp := ht.parent 0 ht.tree.root_used
    rwa [ht.tree.root_parent] at hp
  · intro i _ hi
    exact ⟨parentSlot s.entries i, ht.parent i hi, ht.dirs i hi⟩
  · intro i hi
    obtain ⟨k, hk, hroot⟩ := ht.tree.depth_lt hi
    exact ⟨k, by simpa using hk, hroot⟩
  · intro i j hi0 hj0 hi hj hp he
    exact ht.unique i j hi hj hi0 hj0 hp he
  · intro i hi0 hi
    exact ⟨(ht.names i hi hi0).1, (ht.names i hi hi0).2, ht.terminated i hi⟩

theorem sfs_table_is_tree_mkdir : ∃ s,
    Run validStep (formatted 0 blankDrive) [.create [97] 0 sfsTypeDir 7] s ∧
    (s.entries 1).used = 1 ∧ (s.entries 1).nameString = [97] ∧
    ∃ k, k < 64 ∧ (parentSlot s.entries)^[k] 1 = 0 := by
  have hv : (SfsCall.create [97] 0 sfsTypeDir 7).Valid (formatted 0 blankDrive) :=
    ⟨⟨0, rfl, by decide, by decide⟩, Or.inr rfl⟩
  obtain ⟨s, ok, hok, -⟩ := sfsStep_tree (formatted_tree blankDrive) hv
  have hrun : Run validStep (formatted 0 blankDrive) [.create [97] 0 sfsTypeDir 7] s :=
    .cons ⟨hv, ok, hok⟩ (.nil s)
  have heval : (sfsStep (formatted 0 blankDrive) (.create [97] 0 sfsTypeDir 7)).toOption.map
      (fun p => ((p.1.entries 1).used, (p.1.entries 1).nameString)) = some (1, [97]) := by
    decide +kernel
  rw [hok] at heval
  obtain ⟨hused, hname⟩ := Prod.mk.inj (Option.some.inj heval)
  obtain ⟨-, -, -, -, -, hroot, -⟩ := sfs_table_is_tree blankDrive _ s hrun
  exact ⟨s, hrun, hused, hname, hroot 1 (by rw [hused]; decide)⟩

end VertexOS
