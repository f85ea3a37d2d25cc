import VertexOS.Core.CopyFile
import VertexOS.Fs.FileTree
import VertexOS.Vfs.Cwd

namespace VertexOS
open Library.BlockStore Library.FileTree Library.Transitions

/-! What sessions see of the files: a tree, handles into it, and a directory for each session. -/

/-- An open file. It stands for whatever is at its node later. -/
structure Handle where
  node : Fin 64
  offset : Nat
  flags : UInt32

structure Files where
  tree : Nodes
  handles : Fin 16 → Option Handle
  cwd : Fin 16 → Fin 64

/-- Only the root is there. -/
def Files.blank : Files where
  tree := fun i =>
    if i = 0 then some ⟨0, [slash], sfsPermRead ||| sfsPermWrite ||| sfsPermExec, none⟩ else none
  handles := fun _ => none
  cwd := fun _ => 0

def Files.start (t : Files) (session : Int) (path : List UInt8) : Fin 64 :=
  startSlot 0 (t.cwd (sessionSlot session)) path

/-- The node that an open works on, and the tree with it. -/
inductive Files.Finds (t : Files) (session : Int) (path : List UInt8) (flags : UInt32) :
    Nodes → Option (Fin 64) → Prop
  | found {i : Fin 64} (h : Run t.tree.Leads (t.start session path) (movesOf path) i) :
      Finds t session path flags t.tree (some i)
  | missing (h : ∀ i, ¬Run t.tree.Leads (t.start session path) (movesOf path) i)
      (hflag : flags &&& vfsOCreate = 0) : Finds t session path flags t.tree none
  | made {t' : Nodes} {r : Option (Fin 64)}
      (h : ∀ i, ¬Run t.tree.Leads (t.start session path) (movesOf path) i)
      (hflag : flags &&& vfsOCreate ≠ 0)
      (hm : Makes t.tree (t.start session path) path (sfsPermRead ||| sfsPermWrite) (some [])
        t' r) :
      Finds t session path flags t' r

/-- The file may be used in the way that the right says. -/
def Grants (t : Nodes) (right : UInt8) (i : Fin 64) : Prop :=
  ∃ n b, t i = some n ∧ n.bytes = some b ∧ n.rights &&& right ≠ 0

/-- An open empties the file where it is asked to, and fails where the file refuses. -/
inductive Empties (t : Nodes) (i : Fin 64) (flags : UInt32) : Nodes → Bool → Prop
  | kept (h : flags &&& vfsOTrunc = 0) : Empties t i flags t true
  | emptied {n : Node (Fin 64) (List UInt8) UInt8 UInt8} (h : flags &&& vfsOTrunc ≠ 0)
      (hg : Grants t sfsPermWrite i) (hn : t i = some n) :
      Empties t i flags (Function.update t i (some { n with bytes := some [] })) true
  | refused (h : flags &&& vfsOTrunc ≠ 0) (hg : ¬Grants t sfsPermWrite i) :
      Empties t i flags t false

/-- A descriptor that was opened for the use, on a file that grants it. -/
structure Files.Reaches (t : Files) (fd : Int) (flag : UInt32) (right : UInt8) (i : Fin 16)
    (hd : Handle) (n : Node (Fin 64) (List UInt8) UInt8 UInt8) (b : List UInt8) : Prop where
  fd : fd = (i.val : Int)
  held : t.handles i = some hd
  flag : hd.flags &&& flag ≠ 0
  node : t.tree hd.node = some n
  bytes : n.bytes = some b
  right : n.rights &&& right ≠ 0

def Files.moved (t : Files) (i : Fin 16) (hd : Handle) (count : Nat) : Files :=
  { t with handles :=
      Function.update t.handles i (some { hd with offset := hd.offset + count }) }

/-- The calls and their replies. -/
inductive FileStep (t : Files) : VfsCall × VfsReply → Files → Prop
  | opened {session : Int} {path : List UInt8} {flags : UInt32} {t' t'' : Nodes} {i : Fin 64}
      {j : Fin 16} (find : t.Finds session path flags t' (some i))
      (empty : Empties t' i flags t'' true) (free : t.handles j = none)
      (least : ∀ k, k < j → t.handles k ≠ none) :
      FileStep t (.open session path flags, .fd (some j))
        { t with tree := t'', handles := Function.update t.handles j (some ⟨i, 0, flags⟩) }
  | unfound {session : Int} {path : List UInt8} {flags : UInt32} {t' : Nodes}
      (find : t.Finds session path flags t' none) :
      FileStep t (.open session path flags, .fd none) { t with tree := t' }
  | refused {session : Int} {path : List UInt8} {flags : UInt32} {t' t'' : Nodes} {i : Fin 64}
      (find : t.Finds session path flags t' (some i)) (empty : Empties t' i flags t'' false) :
      FileStep t (.open session path flags, .fd none) { t with tree := t'' }
  | crowded {session : Int} {path : List UInt8} {flags : UInt32} {t' t'' : Nodes} {i : Fin 64}
      (find : t.Finds session path flags t' (some i)) (empty : Empties t' i flags t'' true)
      (full : ∀ k, t.handles k ≠ none) :
      FileStep t (.open session path flags, .fd none) { t with tree := t'' }
  | read {fd : Int} {len : UInt32} {i : Fin 16} {hd : Handle}
      {n : Node (Fin 64) (List UInt8) UInt8 UInt8} {b : List UInt8}
      (h : t.Reaches fd vfsORead sfsPermRead i hd n b) :
      FileStep t (.read fd len, .bytes ((b.drop hd.offset).take len.toNat))
        (t.moved i hd ((b.drop hd.offset).take len.toNat).length)
  | unread {fd : Int} {len : UInt32}
      (h : ∀ i hd n b, ¬t.Reaches fd vfsORead sfsPermRead i hd n b) :
      FileStep t (.read fd len, .bytes []) t
  | wrote {fd : Int} {data : Nat → UInt8} {len : UInt32} {i : Fin 16} {hd : Handle}
      {n : Node (Fin 64) (List UInt8) UInt8 UInt8} {b gap : List UInt8}
      (h : t.Reaches fd vfsOWrite sfsPermWrite i hd n b)
      (hgap : gap.length = hd.offset - b.length) :
      FileStep t (.write fd data len, .count len)
        { t.moved i hd len.toNat with
          tree := Function.update t.tree hd.node
            (some { n with bytes := some (overwrite b gap (dataBytes data len) hd.offset) }) }
  | unwritten {fd : Int} {data : Nat → UInt8} {len : UInt32}
      (h : ∀ i hd n b, ¬t.Reaches fd vfsOWrite sfsPermWrite i hd n b) :
      FileStep t (.write fd data len, .count 0) t
  | closed (fd : Int) :
      FileStep t (.close fd, .done true)
        { t with handles := fun i => if fd = (i.val : Int) then none else t.handles i }
  | mkdir {session : Int} {path : List UInt8} {t' : Nodes} {r : Option (Fin 64)}
      (h : Makes t.tree (t.start session path) path
        (sfsPermRead ||| sfsPermWrite ||| sfsPermExec) none t' r) :
      FileStep t (.mkdir session path, .done r.isSome) { t with tree := t' }
  | removed {session : Int} {path : List UInt8} {t' : Nodes} {ok : Bool}
      (h : t.tree.Removes 0 (t.start session path) (movesOf path) t' ok) :
      FileStep t (.remove session path, .done ok) { t with tree := t' }
  | entered {session : Int} {path : List UInt8} {i : Fin 64}
      (h : Run t.tree.Leads (t.start session path) (movesOf path) i) (hdir : t.tree.IsDir i) :
      FileStep t (.chdir session path, .done true)
        { t with cwd := Function.update t.cwd (sessionSlot session) i }
  | stayed {session : Int} {path : List UInt8}
      (h : ∀ i, Run t.tree.Leads (t.start session path) (movesOf path) i → ¬t.tree.IsDir i) :
      FileStep t (.chdir session path, .done false) t

def nodeSlot (id : UInt32) : Fin 64 := Fin.ofNat 64 id.toNat

@[simp] theorem nodeSlot_slotId (n : Fin 64) : nodeSlot (slotId n) = n := by
  rw [nodeSlot, slotId_toNat]
  exact Fin.ext (Nat.mod_eq_of_lt n.isLt)

def VfsFd.handle (f : VfsFd) : Option Handle :=
  if f.used = 0 then none else some ⟨nodeSlot f.nodeId, f.offset.toNat, f.flags⟩

def Vfs.files (v : Vfs) : Files where
  tree := v.fs.nodes
  handles := fun i => (v.fds i).handle
  cwd := fun s => nodeSlot (v.ctx s).cwd

/-- What the calls keep of the file system. -/
structure Ready (v : Vfs) : Prop where
  home : Homed v
  settled : Settled v.fs
  fds : ∀ i, (v.fds i).used ≠ 0 → ∃ n, (v.fds i).nodeId = slotId n

section Ready

variable {v v' : Vfs} {session : Int} {path : List UInt8} {flags : UInt32}

theorem handle_none {f : VfsFd} : f.handle = none ↔ f.used = 0 := by
  simp [VfsFd.handle]

theorem handle_used {f : VfsFd} (h : f.used ≠ 0) :
    f.handle = some ⟨nodeSlot f.nodeId, f.offset.toNat, f.flags⟩ := if_neg h

/-- A session's directory. -/
theorem Ready.cwd (h : Ready v) (session : Int) : ∃ n, v.cwd session = slotId n ∧
    v.files.cwd (sessionSlot session) = n ∧ (v.fs.entries n).IsDir := by
  obtain ⟨n, hn, hd⟩ := h.home.cwd (sessionSlot session)
  refine ⟨n, hn, ?_, hd⟩
  change nodeSlot (v.ctx (sessionSlot session)).cwd = n
  rw [hn, nodeSlot_slotId]

theorem grants_iff {s : SimpleFs} (h : Settled s) {right : UInt8} {i : Fin 64} :
    fileWith s.entries (slotId i) right = some i ↔ Grants s.nodes right i := by
  constructor
  · intro hw
    obtain ⟨-, hf, hp⟩ := nodes_granted hw
    exact ⟨_, _, nodes_file hf, rfl, hp⟩
  · rintro ⟨n, b, hn, hb, hp⟩
    obtain ⟨hu, -, -, hrights, hbytes⟩ := nodes_some hn
    rw [hrights] at hp
    refine fileWith_slot _ _ _ ⟨hu, (h.typed i hu).resolve_right fun hd => ?_⟩ hp
    rw [hbytes, if_pos hd] at hb
    cases hb

theorem fileWith_cases {s : SimpleFs} (h : Settled s) (right : UInt8) (i : Fin 64) :
    fileWith s.entries (slotId i) right = some i ∧ Grants s.nodes right i ∨
      fileWith s.entries (slotId i) right = none ∧ ¬Grants s.nodes right i := by
  by_cases hg : Grants s.nodes right i
  · exact .inl ⟨(grants_iff h).mpr hg, hg⟩
  · refine .inr ⟨?_, hg⟩
    cases hw : fileWith s.entries (slotId i) right with
    | none => rfl
    | some j =>
      obtain ⟨hij, -⟩ := nodes_granted hw
      obtain rfl := slotId_inj hij
      exact absurd ((grants_iff h).mp hw) hg

/-- `vfs_open` finds or makes its node. -/
theorem Ready.finds (h : Ready v) (session : Int) (path : List UInt8) (flags : UInt32) :
    ∃ fs r, openNode v.fs path (v.cwd session) flags = .ok (fs, r.map slotId) ∧ Settled fs ∧
      v.files.Finds session path flags fs.nodes r := by
  obtain ⟨n, hcwd, hslot, hdir⟩ := h.cwd session
  rw [hcwd]
  have hstart : v.files.start session path = startSlot 0 n path := by
    rw [Files.start, hslot]
  rcases h.settled.resolve hdir.1 path with ⟨i, hres, -, hrun, -⟩ | ⟨hres, hno⟩
  · refine ⟨v.fs, some i, ?_, h.settled, .found (hstart ▸ hrun)⟩
    rw [openNode, hres]
    rfl
  · rw [openNode, hres]
    dsimp only [bind, Except.bind]
    by_cases hflag : flags &&& vfsOCreate = 0
    · rw [if_neg fun hne => hne hflag]
      exact ⟨v.fs, none, rfl, h.settled, .missing (hstart ▸ hno) hflag⟩
    · rw [if_pos hflag]
      obtain ⟨fs, r, hcreate, hfs, hmakes⟩ := h.settled.create hdir path sfsTypeFile
        (sfsPermRead ||| sfsPermWrite) (.inl rfl)
      rw [if_neg (by decide)] at hmakes
      exact ⟨fs, r, hcreate, hfs, .made (hstart ▸ hno) hflag (hstart ▸ hmakes)⟩

theorem Settled.empties {s : SimpleFs} (h : Settled s) (i : Fin 64) (flags : UInt32) :
    ∃ s' ok, openTruncate s (slotId i) flags = (s', ok) ∧ Settled s' ∧
      Empties s.nodes i flags s'.nodes ok := by
  rw [openTruncate]
  by_cases hflag : flags &&& vfsOTrunc = 0
  · rw [if_neg fun hne => hne hflag]
    exact ⟨s, true, rfl, h, .kept hflag⟩
  · rw [if_pos hflag]
    rcases fileWith_cases h sfsPermWrite i with ⟨hw, hg⟩ | ⟨hw, hg⟩
    · obtain ⟨s', htrunc, hs', hnodes⟩ := h.truncate hw
      obtain ⟨-, hf, -⟩ := nodes_granted hw
      refine ⟨s', true, htrunc, hs', ?_⟩
      rw [hnodes]
      exact .emptied hflag hg (nodes_file hf)
    · rw [sfsTruncate, hw]
      exact ⟨s, false, rfl, h, .refused hflag hg⟩

theorem freeFd_least {fds : Fin 16 → VfsFd} {j k : Fin 16} (h : freeFd fds = some j)
    (hk : k < j) : (fds k).used ≠ 0 := by
  obtain ⟨-, i, hi, hij, hbefore⟩ := List.find?_eq_some_iff_getElem.mp h
  have hkj : k.val < i := by
    rw [← hij, Fin.lt_def] at hk
    simpa using hk
  simpa using hbefore k.val hkj

/-- The handles after a descriptor is set. -/
theorem handles_update (v : Vfs) (j : Fin 16) (f : VfsFd) :
    (fun i => (Function.update v.fds j f i).handle) =
      Function.update v.files.handles j f.handle := by
  funext i
  by_cases hij : i = j
  · subst hij
    rw [Function.update_self, Function.update_self]
  · rw [Function.update_of_ne hij, Function.update_of_ne hij]
    rfl

/-- `vfs_open` -/
theorem Ready.open (h : Ready v) (session : Int) (path : List UInt8) (flags : UInt32) :
    ∃ v' fd, vfsOpen v session path flags = .ok (v', fd) ∧ Settled v'.fs ∧
      (∀ i, (v'.fds i).used ≠ 0 → ∃ n, (v'.fds i).nodeId = slotId n) ∧
      FileStep v.files (.open session path flags, .fd fd) v'.files := by
  obtain ⟨fs, r, hnode, hfs, hfinds⟩ := h.finds session path flags
  rw [vfsOpen, hnode]
  dsimp only [bind, Except.bind]
  cases r with
  | none => exact ⟨{ v with fs }, none, rfl, hfs, h.fds, .unfound hfinds⟩
  | some i =>
    obtain ⟨fs', ok, htrunc, hfs', hempty⟩ := hfs.empties i flags
    simp only [Option.map_some, htrunc]
    cases ok with
    | false => exact ⟨{ v with fs := fs' }, none, rfl, hfs', h.fds, .refused hfinds hempty⟩
    | true =>
      cases hfree : freeFd v.fds with
      | none =>
        refine ⟨{ v with fs := fs' }, none, rfl, hfs', h.fds, .crowded hfinds hempty fun k hk => ?_⟩
        exact freeFd_none.mp hfree k (handle_none.mp hk)
      | some j =>
        refine ⟨_, some j, rfl, hfs', fun k hk => ?_, ?_⟩
        · dsimp only at hk ⊢
          by_cases hkj : k = j
          · subst hkj
            rw [Function.update_self]
            exact ⟨i, rfl⟩
          · rw [Function.update_of_ne hkj] at hk ⊢
            exact h.fds k hk
        · have hstep := FileStep.opened hfinds hempty (j := j) (handle_none.mpr (freeFd_some hfree))
            fun k hk => handle_none.not.mpr (freeFd_least hfree hk)
          have hhandle : (VfsFd.mk 1 (slotId i) 0 flags).handle = some ⟨i, 0, flags⟩ := by
            rw [handle_used (by decide : (1 : UInt8) ≠ 0), nodeSlot_slotId]
            rfl
          rw [← hhandle, ← handles_update] at hstep
          exact hstep

/-- A descriptor that passes both checks. -/
theorem files_reaches {fd : Int} {flag : UInt32} {right : UInt8} {i : Fin 16}
    {n : Fin 64} (hopen : openFd v fd flag = some i)
    (hw : fileWith v.fs.entries (v.fds i).nodeId right = some n) :
    v.files.Reaches fd flag right i ⟨n, (v.fds i).offset.toNat, (v.fds i).flags⟩
      ⟨parentSlot v.fs.entries n, (v.fs.entries n).nameString, (v.fs.entries n).perm,
        some (content v.fs.entries v.fs.dev.sectors n)⟩
      (content v.fs.entries v.fs.dev.sectors n) := by
  obtain ⟨hid, hf, hp⟩ := nodes_granted hw
  rw [openFd] at hopen
  by_cases hfd : 0 ≤ fd ∧ fd < 16
  · rw [if_pos hfd] at hopen
    dsimp only at hopen
    by_cases hbad : (v.fds (Fin.ofNat 16 fd.toNat)).used = 0 ∨
        (v.fds (Fin.ofNat 16 fd.toNat)).flags &&& flag = 0
    · rw [if_pos hbad] at hopen
      cases hopen
    · rw [if_neg hbad] at hopen
      obtain rfl := Option.some.inj hopen
      rw [not_or] at hbad
      refine ⟨?_, ?_, hbad.2, nodes_file hf, rfl, hp⟩
      · change fd = ((fd.toNat % 16 : Nat) : Int)
        omega
      · change (v.fds (Fin.ofNat 16 fd.toNat)).handle = _
        rw [handle_used hbad.1, hid, nodeSlot_slotId]
  · rw [if_neg hfd] at hopen
    cases hopen

theorem Files.Reaches.used {fd : Int} {flag : UInt32} {right : UInt8} {i : Fin 16} {hd : Handle}
    {n : Node (Fin 64) (List UInt8) UInt8 UInt8} {b : List UInt8}
    (hr : v.files.Reaches fd flag right i hd n b) : (v.fds i).used ≠ 0 := by
  intro h0
  have hnone : v.files.handles i = none := handle_none.mpr h0
  rw [hr.held] at hnone
  cases hnone

theorem Ready.reached (h : Ready v) {fd : Int} {flag : UInt32} {right : UInt8} {i : Fin 16}
    {hd : Handle} {n : Node (Fin 64) (List UInt8) UInt8 UInt8} {b : List UInt8}
    (hr : v.files.Reaches fd flag right i hd n b) :
    openFd v fd flag = some i ∧ ∃ m, fileWith v.fs.entries (v.fds i).nodeId right = some m := by
  have hu := hr.used
  obtain ⟨rfl, hheld, hflag, hnode, hbytes, hright⟩ := hr
  have hi := i.isLt
  have hslot : Fin.ofNat 16 (i.val : Int).toNat = i := Fin.ext (Nat.mod_eq_of_lt hi)
  obtain ⟨m, hm⟩ := h.fds i hu
  have hhandle : v.files.handles i = some ⟨m, (v.fds i).offset.toNat, (v.fds i).flags⟩ := by
    change (v.fds i).handle = _
    rw [handle_used hu, hm, nodeSlot_slotId]
  rw [hheld] at hhandle
  cases hhandle
  refine ⟨?_, m, ?_⟩
  · rw [openFd, if_pos (by omega), hslot]
    exact if_neg (not_or.mpr ⟨hu, hflag⟩)
  · rw [hm]
    exact (grants_iff h.settled).mpr ⟨n, b, hnode, hbytes, hright⟩

/-- A read or write that no file answers. -/
theorem Ready.unreached (h : Ready v) {fd : Int} {flag : UInt32} {right : UInt8}
    (hno : ∀ i, openFd v fd flag = some i →
      fileWith v.fs.entries (v.fds i).nodeId right = none) (i : Fin 16) (hd : Handle)
    (n : Node (Fin 64) (List UInt8) UInt8 UInt8) (b : List UInt8) :
    ¬v.files.Reaches fd flag right i hd n b := by
  intro hr
  obtain ⟨hopen, m, hm⟩ := h.reached hr
  rw [hno i hopen] at hm
  cases hm

theorem files_advance {fs : SimpleFs} {i : Fin 16} {count : UInt32} {n : Fin 64}
    (hu : (v.fds i).used ≠ 0) (hid : (v.fds i).nodeId = slotId n)
    (hfit : (v.fds i).offset.toNat + count.toNat < 4294967296) :
    (v.advance fs i count).files =
      { v.files.moved i ⟨n, (v.fds i).offset.toNat, (v.fds i).flags⟩ count.toNat with
        tree := fs.nodes } := by
  have hsum : ((v.fds i).offset + count).toNat = (v.fds i).offset.toNat + count.toNat := by
    rw [UInt32.toNat_add]
    omega
  have hhandle : ({ v.fds i with offset := (v.fds i).offset + count } : VfsFd).handle =
      some ⟨n, (v.fds i).offset.toNat + count.toNat, (v.fds i).flags⟩ := by
    rw [handle_used (f := { v.fds i with offset := (v.fds i).offset + count }) hu]
    simp only [hid, nodeSlot_slotId, hsum]
  have hall := handles_update v i { v.fds i with offset := (v.fds i).offset + count }
  rw [hhandle] at hall
  simp only [Vfs.files, Vfs.advance, Files.moved, hall]

/-- `vfs_read` -/
theorem Ready.read (h : Ready v) (fd : Int) (len : UInt32) :
    Settled (vfsRead v fd len).1.fs ∧
      FileStep v.files (.read fd len, .bytes (vfsRead v fd len).2) (vfsRead v fd len).1.files := by
  unfold vfsRead
  cases hopen : openFd v fd vfsORead with
  | none =>
    refine ⟨h.settled, .unread (h.unreached fun i hi => ?_)⟩
    rw [hopen] at hi
    cases hi
  | some i =>
    obtain ⟨hs, hnodes⟩ := h.settled.read (v.fds i).nodeId (v.fds i).offset len
    cases hw : fileWith v.fs.entries (v.fds i).nodeId sfsPermRead with
    | none =>
      simp only [sfsRead, hw]
      refine ⟨h.settled, .unread (h.unreached fun j hj => ?_)⟩
      rw [hopen] at hj
      cases hj
      exact hw
    | some n =>
      have hr := files_reaches hopen hw
      obtain ⟨hid, hf, hp⟩ := nodes_granted hw
      have hread := sfsRead_content h.settled.reliable h.settled.allocation hf hp h.settled.free
        (v.fds i).offset len
      dsimp only
      rw [hid] at hs hnodes ⊢
      cases hrun : sfsRead v.fs (slotId n) (v.fds i).offset len with
      | mk fs out =>
        rw [hrun] at hs hnodes hread
        dsimp only at hs hnodes hread ⊢
        subst hread
        refine ⟨hs, ?_⟩
        have hlen := content_length v.fs.entries v.fs.dev.sectors n
        have hsize := (v.fs.entries n).size.toNat_lt
        have hoffset := (v.fds i).offset.toNat_lt
        have hcount : (UInt32.ofNat (((content v.fs.entries v.fs.dev.sectors n).drop
            (v.fds i).offset.toNat).take len.toNat).length).toNat =
            (((content v.fs.entries v.fs.dev.sectors n).drop
              (v.fds i).offset.toNat).take len.toNat).length := by
          rw [UInt32.toNat_ofNat', List.length_take, List.length_drop, hlen]
          omega
        rw [files_advance (hr.used) hid (by
          rw [hcount, List.length_take, List.length_drop, hlen]
          omega), hcount, hnodes]
        exact .read hr

/-- `vfs_write` -/
theorem Ready.write (h : Ready v) (fd : Int) (data : Nat → UInt8) (len : UInt32)
    (hroom : (VfsCall.write fd data len).HasRoom v) :
    Settled (vfsWrite v fd data len).1.fs ∧
      FileStep v.files (.write fd data len, .count (vfsWrite v fd data len).2)
        (vfsWrite v fd data len).1.files := by
  unfold vfsWrite
  cases hopen : openFd v fd vfsOWrite with
  | none =>
    refine ⟨h.settled, .unwritten (h.unreached fun i hi => ?_)⟩
    rw [hopen] at hi
    cases hi
  | some i =>
    cases hw : fileWith v.fs.entries (v.fds i).nodeId sfsPermWrite with
    | none =>
      simp only [sfsWrite, hw]
      refine ⟨h.settled, .unwritten (h.unreached fun j hj => ?_)⟩
      rw [hopen] at hj
      cases hj
      exact hw
    | some n =>
      have hr := files_reaches hopen hw
      obtain ⟨hid, -⟩ := nodes_granted hw
      obtain ⟨hwrap, hspace⟩ := hroom i n hopen hw
      rw [hid] at hw
      obtain ⟨fs, gap, hrun, hfs, hgap, hnodes⟩ := h.settled.write hw hwrap hspace data
      simp only [hid, hrun]
      refine ⟨hfs, ?_⟩
      rw [files_advance hr.used hid (by omega), hnodes]
      exact .wrote hr (by rw [content_length]; exact hgap)

/-- `vfs_close` -/
theorem close_files (v : Vfs) (fd : Int) :
    FileStep v.files (.close fd, .done true) (vfsClose v fd).files := by
  have hfiles : (vfsClose v fd).files =
      { v.files with
        handles := fun i => if fd = (i.val : Int) then none else v.files.handles i } := by
    have hhandle : (fun i => ((vfsClose v fd).fds i).handle) =
        fun i => if fd = (i.val : Int) then none else v.files.handles i := by
      funext i
      have hi := i.isLt
      unfold vfsClose
      by_cases hfd : 0 ≤ fd ∧ fd < 16
      · rw [if_pos hfd]
        by_cases hif : fd = (i.val : Int)
        · have hslot : Fin.ofNat 16 fd.toNat = i := by
            subst hif
            exact Fin.ext (Nat.mod_eq_of_lt hi)
          rw [if_pos hif]
          dsimp only
          rw [hslot, Function.update_self]
          exact handle_none.mpr rfl
        · have hslot : i ≠ Fin.ofNat 16 fd.toNat := by
            intro he
            have hval : i.val = fd.toNat % 16 := congrArg Fin.val he
            omega
          rw [if_neg hif]
          dsimp only
          rw [Function.update_of_ne hslot]
          rfl
      · rw [if_neg hfd, if_neg (by omega)]
        rfl
    rw [Vfs.files, hhandle, vfsClose_fs, vfsClose_ctx]
    rfl
  rw [hfiles]
  exact .closed fd

/-- `vfs_mkdir` -/
theorem Ready.mkdir (h : Ready v) (session : Int) (path : List UInt8) :
    ∃ v' ok, vfsMkdir v session path = .ok (v', ok) ∧ Settled v'.fs ∧
      FileStep v.files (.mkdir session path, .done ok) v'.files := by
  obtain ⟨n, hcwd, hslot, hdir⟩ := h.cwd session
  obtain ⟨fs, r, hcreate, hfs, hmakes⟩ := h.settled.create hdir path sfsTypeDir
    (sfsPermRead ||| sfsPermWrite ||| sfsPermExec) (.inr rfl)
  rw [if_pos rfl] at hmakes
  rw [vfsMkdir, hcwd, hcreate]
  refine ⟨{ v with fs }, r.isSome, ?_, hfs, ?_⟩
  · cases r <;> rfl
  · have hstart : v.files.start session path = startSlot 0 n path := by
      rw [Files.start, hslot]
    exact .mkdir (hstart ▸ hmakes)

/-- `vfs_remove` -/
theorem Ready.remove (h : Ready v) (session : Int) (path : List UInt8) :
    ∃ v' ok, vfsRemove v session path = .ok (v', ok) ∧ Settled v'.fs ∧
      FileStep v.files (.remove session path, .done ok) v'.files := by
  obtain ⟨n, hcwd, hslot, hdir⟩ := h.cwd session
  obtain ⟨fs, ok, hremove, hfs, hremoves⟩ := h.settled.remove hdir path
  rw [vfsRemove, hcwd, hremove]
  refine ⟨{ v with fs }, ok, rfl, hfs, ?_⟩
  have hstart : v.files.start session path = startSlot 0 n path := by
    rw [Files.start, hslot]
  exact .removed (hstart ▸ hremoves)

/-- `vfs_chdir` -/
theorem Ready.chdir (h : Ready v) (session : Int) (path : List UInt8) :
    ∃ v' ok, vfsChdir v session path = .ok (v', ok) ∧ v'.fs = v.fs ∧
      FileStep v.files (.chdir session path, .done ok) v'.files := by
  obtain ⟨n, hcwd, hslot, hdir⟩ := h.cwd session
  have hstart : v.files.start session path = startSlot 0 n path := by
    rw [Files.start, hslot]
  rw [vfsChdir, hcwd]
  rcases h.settled.resolve hdir.1 path with ⟨i, hres, hu, hrun, hone⟩ | ⟨hres, hno⟩
  · have hlt : (slotId i).toNat < 64 := by
      rw [slotId_toNat]
      exact i.isLt
    have hidx : (⟨(slotId i).toNat, hlt⟩ : Fin 64) = i := Fin.ext (slotId_toNat i)
    have hstat : sfsStat v.fs (slotId i) = some ((v.fs.entries i).info (slotId i)) := by
      simp only [sfsStat, dif_pos hlt, hidx, if_neg hu]
    rw [hres]
    dsimp only [bind, Except.bind]
    rw [hstat]
    dsimp only [Entry.info]
    by_cases htype : (v.fs.entries i).type = sfsTypeDir
    · rw [if_neg fun hne => hne htype]
      refine ⟨_, true, rfl, rfl, ?_⟩
      have hstep : FileStep v.files (.chdir session path, .done true)
          { v.files with cwd := Function.update v.files.cwd (sessionSlot session) i } :=
        .entered (hstart ▸ hrun) (nodes_isDir.mpr ⟨hu, htype⟩)
      have hcwds : (fun s => nodeSlot (Function.update v.ctx (sessionSlot session)
          { v.ctx (sessionSlot session) with
            cwd := slotId i
            cwdPath := cwdAfter (v.ctx (sessionSlot session)).cwdPath path } s).cwd) =
          Function.update v.files.cwd (sessionSlot session) i := by
        funext s
        by_cases hs : s = sessionSlot session
        · subst hs
          rw [Function.update_self, Function.update_self, nodeSlot_slotId]
        · rw [Function.update_of_ne hs, Function.update_of_ne hs]
          rfl
      rw [← hcwds] at hstep
      exact hstep
    · rw [if_pos htype]
      refine ⟨v, false, rfl, rfl, .stayed fun j hj hd => ?_⟩
      obtain rfl := hone j (hstart ▸ hj)
      exact htype (nodes_isDir.mp hd).2
  · rw [hres]
    exact ⟨v, false, rfl, rfl, .stayed fun i hi => absurd (hstart ▸ hi) (hno i)⟩

/-- A call does not fault, and takes the files one step. -/
theorem Ready.step (h : Ready v) {c : VfsCall} (hs : SparesCwd v c) (hroom : c.HasRoom v) :
    ∃ v' r, vfsStep v c = .ok (v', r) ∧ Ready v' ∧ FileStep v.files (c, r) v'.files := by
  have hready : ∀ v' r, vfsStep v c = .ok (v', r) → Settled v'.fs → (∀ i, r ≠ .fd (some i)) →
      Ready v' := by
    intro v' r hstep hsettled hr
    refine ⟨h.home.step hs ⟨r, hstep⟩, hsettled, fun i hu => ?_⟩
    rcases vfsStep_fds hstep with ⟨j, hj, -⟩ | ⟨-, hkept⟩
    · exact absurd hj (hr j)
    · obtain ⟨hused, hsame⟩ := hkept i hu
      rw [hsame]
      exact h.fds i hused
  cases c with
  | «open» session path flags =>
    obtain ⟨v', fd, hopen, hsettled, hfds, hstep⟩ := h.open session path flags
    have hrun : vfsStep v (.open session path flags) = .ok (v', .fd fd) := by
      rw [vfsStep, hopen]
      rfl
    exact ⟨v', _, hrun, ⟨h.home.step hs ⟨_, hrun⟩, hsettled, hfds⟩, hstep⟩
  | read fd len =>
    obtain ⟨hsettled, hstep⟩ := h.read fd len
    exact ⟨_, _, rfl, hready _ _ rfl hsettled (fun i hi => nomatch hi), hstep⟩
  | write fd data len =>
    obtain ⟨hsettled, hstep⟩ := h.write fd data len hroom
    exact ⟨_, _, rfl, hready _ _ rfl hsettled (fun i hi => nomatch hi), hstep⟩
  | close fd =>
    have hsettled : Settled (vfsClose v fd).fs := by
      rw [vfsClose_fs]
      exact h.settled
    exact ⟨_, _, rfl, hready _ _ rfl hsettled (fun i hi => nomatch hi), close_files v fd⟩
  | mkdir session path =>
    obtain ⟨v', ok, hmk, hsettled, hstep⟩ := h.mkdir session path
    have hrun : vfsStep v (.mkdir session path) = .ok (v', .done ok) := by
      rw [vfsStep, hmk]
      rfl
    exact ⟨v', _, hrun, hready _ _ hrun hsettled (fun i hi => nomatch hi), hstep⟩
  | remove session path =>
    obtain ⟨v', ok, hrm, hsettled, hstep⟩ := h.remove session path
    have hrun : vfsStep v (.remove session path) = .ok (v', .done ok) := by
      rw [vfsStep, hrm]
      rfl
    exact ⟨v', _, hrun, hready _ _ hrun hsettled (fun i hi => nomatch hi), hstep⟩
  | chdir session path =>
    obtain ⟨v', ok, hcd, hfs, hstep⟩ := h.chdir session path
    have hrun : vfsStep v (.chdir session path) = .ok (v', .done ok) := by
      rw [vfsStep, hcd]
      rfl
    exact ⟨v', _, hrun, hready _ _ hrun (hfs ▸ h.settled) (fun i hi => nomatch hi), hstep⟩

/-- A freshly formatted disk. -/
theorem formatted_settled {fs : SimpleFs} {dev : Drive} (hr : fs.dev.Reliable)
    (hsup : fs.super = (formatted 0 dev).super) (hent : fs.entries = (formatted 0 dev).entries) :
    Settled fs ∧ fs.nodes = Files.blank.tree := by
  refine ⟨⟨?_, hr, ?_, ?_, fun i hi => ?_⟩, funext fun i => ?_⟩
  · rw [hsup, hent]
    exact formatted_tree dev
  · rw [hsup, hent]
    exact formatted_allocation dev
  · rw [hsup]
    change sfsDataLba.toNat ≤ 65536
    decide
  · rw [hent] at hi ⊢
    rw [formatted_used hi, formatted_root]
    exact .inr rfl
  · by_cases hi : i = 0
    · subst hi
      have hroot : fs.entries 0 = rootEntry 0 := by rw [hent, formatted_root]
      have hname : (rootEntry 0).nameString = [slash] := by decide +kernel
      rw [SimpleFs.nodes, hroot, node_used (by decide), hname]
      rfl
    · have hnone : fs.nodes i = none := by
        rw [nodes_none, hent]
        by_contra hu
        exact hi (formatted_used hu)
      rw [hnone]
      exact (if_neg hi).symm

/-- `vfs_init` on a disk without a signature. -/
theorem vfsInit_blank {v₀ : Vfs} (hr : v.fs.dev.Reliable)
    (hn : ¬Signed (diskSuper v.fs.dev.sectors)) (hinit : vfsInit v = (v₀, true)) : Ready v₀ ∧ v₀.files = Files.blank := by
  obtain ⟨fs, hfs, hboot, -, hsup, hent⟩ := sfsInit_fresh hr hn
  have hv : vfsInit v = (⟨fs, fun i => { v.fds i with used := 0 },
      fun s => (v.ctx s).reset fs.super.rootId⟩, true) := by
    simp only [vfsInit, hfs]
  rw [hv] at hinit
  obtain rfl := congrArg Prod.fst hinit
  obtain ⟨hsettled, hnodes⟩ := formatted_settled hboot.reliable hsup hent
  have htree := hsettled.tree
  refine ⟨⟨⟨htree, fun s => ⟨0, htree.root, htree.root_dir⟩⟩, hsettled,
    fun i hi => absurd rfl hi⟩, ?_⟩
  have hcwd : nodeSlot fs.super.rootId = 0 := by
    rw [htree.root, nodeSlot_slotId]
  simp only [Vfs.files, Files.blank, VfsContext.reset, hcwd, hnodes]
  rfl

end Ready

/-- A call and its reply, where the call takes no session's directory away and has room to write. -/
def CarefulStep (v : Vfs) (p : VfsCall × VfsReply) (v' : Vfs) : Prop :=
  vfsStep v p.1 = .ok (v', p.2) ∧ SparesCwd v p.1 ∧ p.1.HasRoom v

/-- From a formatted disk on, the calls and their replies are those of a tree of files with handles
into it, as long as no call removes a working directory or writes past the end of the disk. -/
theorem vfs_refines_files (v v₀ v' : Vfs) (ps : List (VfsCall × VfsReply))
    (hr : v.fs.dev.Reliable) (hn : ¬Signed (diskSuper v.fs.dev.sectors))
    (hinit : vfsInit v = (v₀, true))
    (h : Run CarefulStep v₀ ps v') :
    Run FileStep Files.blank ps v'.files ∧
      ∀ c, SparesCwd v' c → c.HasRoom v' → ∃ v'' r, vfsStep v' c = .ok (v'', r) := by
  obtain ⟨hready, hblank⟩ := vfsInit_blank hr hn hinit
  have hrun : Ready v' ∧ Run FileStep v₀.files ps v'.files := by
    clear hinit hblank
    induction h with
    | nil v => exact ⟨hready, .nil _⟩
    | cons head tail ih =>
      obtain ⟨hstep, hspares, hroom⟩ := head
      obtain ⟨w, r, hw, hnext, hfile⟩ := hready.step hspares hroom
      rw [hstep] at hw
      obtain ⟨rfl, rfl⟩ := Prod.mk.inj (Except.ok.inj hw)
      obtain ⟨hend, hfiles⟩ := ih hnext
      exact ⟨hend, .cons hfile hfiles⟩
  refine ⟨hblank ▸ hrun.2, fun c hs hroom => ?_⟩
  obtain ⟨v'', r, hstep, -⟩ := hrun.1.step hs hroom
  exact ⟨v'', r, hstep⟩

def replyStep (v : Vfs) (p : VfsCall × VfsReply) : Except Fault Vfs := do
  let (v', r) ← vfsStep v p.1
  if r = p.2 then .ok v' else .error .outOfBounds

theorem replyStep_ok {v v' : Vfs} {p : VfsCall × VfsReply} (h : replyStep v p = .ok v') :
    vfsStep v p.1 = .ok (v', p.2) := by
  obtain ⟨⟨w, r⟩, hstep, h⟩ := bind_ok h
  dsimp only at h
  by_cases hr : r = p.2
  · rw [if_pos hr] at h
    cases h
    rw [hstep, hr]
  · rw [if_neg hr] at h
    cases h

/-- A directory, and a file of three bytes in it. -/
theorem vfs_refines_files_write : ∃ v' : Vfs, Run FileStep Files.blank
      [(.mkdir 0 [100], .done true), (.open 0 [100, 47, 97] 7, .fd (some 0)),
        (.write 0 (fun _ => 65) 3, .count 3)] v'.files ∧
    v'.fs.nodes 2 = some ⟨1, [97], sfsPermRead ||| sfsPermWrite, some [65, 65, 65]⟩ := by
  have hopened : (exec replyStep blankVfs
      [(.mkdir 0 [100], .done true), (.open 0 [100, 47, 97] 7, .fd (some 0))]).toOption.map
      (fun v => (openFd v 0 vfsOWrite, (v.fds 0).offset, v.fs.super.nextFreeLba)) =
      some (some 0, 0, 137) := by decide +kernel
  have hwritten : (exec replyStep blankVfs
      [(.mkdir 0 [100], .done true), (.open 0 [100, 47, 97] 7, .fd (some 0)),
        (.write 0 (fun _ => 65) 3, .count 3)]).toOption.map
      (fun v => ((v.fs.entries 2).used, parentSlot v.fs.entries 2, (v.fs.entries 2).nameString,
        (v.fs.entries 2).perm, (v.fs.entries 2).type, content v.fs.entries v.fs.dev.sectors 2)) =
      some (1, 1, [97], sfsPermRead ||| sfsPermWrite, sfsTypeFile, [65, 65, 65]) := by
    decide +kernel
  obtain ⟨v₂, hrun₂, hobserved₂⟩ := exec_observed _ hopened
  obtain ⟨v₃, hrun₃, hobserved₃⟩ := exec_observed _ hwritten
  obtain ⟨hfd, hoffset, hnext⟩ : openFd v₂ 0 vfsOWrite = some 0 ∧ (v₂.fds 0).offset = 0 ∧
      v₂.fs.super.nextFreeLba = 137 := by simpa using hobserved₂
  simp only [Prod.mk.injEq] at hobserved₃
  obtain ⟨hused, hparent, hname, hperm, htype, hbytes⟩ := hobserved₃
  have hnode := nodes_used (s := v₃.fs) (i := 2) (by rw [hused]; decide)
  rw [hparent, hname, hperm, htype, hbytes, if_neg (by decide)] at hnode
  cases hrun₂ with
  | cons hmk tail =>
    cases tail with
    | cons hopen tail =>
      cases tail
      cases hrun₃ with
      | cons hmk' tail =>
        cases hmk.symm.trans hmk'
        cases tail with
        | cons hopen' tail =>
          cases hopen.symm.trans hopen'
          cases tail with
          | cons hwrite tail =>
            cases tail
            have hroom : (VfsCall.write 0 (fun _ => 65) 3).HasRoom v₂ := by
              intro i n hi hn
              rw [hfd] at hi
              cases hi
              rw [hoffset, hnext]
              exact ⟨by decide, fun _ => by decide⟩
            obtain ⟨w, hinit, -⟩ := vfsInit_home (v := ⟨powerOn blankDrive,
              fun _ => ⟨0, 0, 0, 0⟩, fun _ => ⟨0, [], fun _ => 0, fun _ _ => 0, fun _ _ => 0⟩⟩)
              (fun _ => rfl) powerOn_blank_fresh
            obtain rfl : blankVfs = w := congrArg Prod.fst hinit
            have hrun : Run CarefulStep blankVfs [(.mkdir 0 [100], .done true),
                (.open 0 [100, 47, 97] 7, .fd (some 0)), (.write 0 (fun _ => 65) 3, .count 3)]
                v₃ := by
              refine .cons ⟨replyStep_ok hmk, ?_, trivial⟩
                (.cons ⟨replyStep_ok hopen, ?_, trivial⟩
                  (.cons ⟨replyStep_ok hwrite, ?_, hroom⟩ (.nil _))) <;>
              · intro _ _ _ hc
                cases hc
            have hfiles := vfs_refines_files ⟨powerOn blankDrive, fun _ => ⟨0, 0, 0, 0⟩,
              fun _ => ⟨0, [], fun _ => 0, fun _ _ => 0, fun _ _ => 0⟩⟩ blankVfs v₃ _
              (fun _ => rfl) powerOn_blank_fresh hinit hrun
            exact ⟨v₃, hfiles.1, hnode⟩

end VertexOS
