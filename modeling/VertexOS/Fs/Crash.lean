import VertexOS.Fs.Commit

namespace VertexOS
open Library.BlockStore

/-- What a disk cut short inside a call still holds. Up to the end of the data
writes the metadata are the old ones; after that the data are complete, and the
superblock is the new one before any entry is. -/
theorem Commit.cut (h : Commit s n data s') (hs : Synced s) (k : Nat) (f : Store 512)
    (hf : f = replay s.dev.sectors ((data ++ metadataWrites s'.super s'.entries).take k)) :
    (diskSuper f = s.super ∧ diskTable f = s.entries ∧ f = replay s.dev.sectors (data.take k)) ∨
    (diskSuper f = s'.super ∧ (diskTable f = s.entries ∨ diskTable f = s'.entries) ∧
      ∀ a, 137 ≤ a / 512 → byte f a = byte s'.dev.sectors a ∧
        byte f a = byte (replay s.dev.sectors data) a) := by
  have hmeta : ∀ j b, b < 137 → replay s.dev.sectors (data.take j) b = s.dev.sectors b := by
    intro j b hb
    apply (h.touches.take j).block
    intro i hi
    have := hi.1
    omega
  have hsuper : ∀ j, diskSuper (replay s.dev.sectors (data.take j)) = s.super := by
    intro j
    rw [diskSuper, hmeta j 128 (by omega)]
    exact hs.super
  have htable : ∀ j, diskTable (replay s.dev.sectors (data.take j)) = s.entries := by
    intro j
    rw [← hs.entries]
    unfold diskTable
    congr 1
    funext i
    exact hmeta j _ (by omega)
  by_cases hk : k ≤ data.length
  · left
    rw [List.take_append_of_le_length hk] at hf
    rw [hf]
    exact ⟨hsuper k, htable k, rfl⟩
  · right
    obtain ⟨j, hj⟩ : ∃ j, k - data.length = j + 1 := ⟨k - data.length - 1, by omega⟩
    have hdata := hsuper data.length
    have hent := htable data.length
    rw [List.take_length] at hdata hent
    rw [List.take_append, List.take_of_length_le (by omega), hj, replay_append] at hf
    refine ⟨?_, ?_, ?_⟩
    · -- the superblock is the first write of the flush, and no later one names its sector
      have hfirst : (metadataWrites s'.super s'.entries).take (j + 1) =
          ⟨128, s'.super.bytes⟩ :: ((List.finRange 8).map fun i =>
            (⟨129 + i.val, tableSector s'.entries i⟩ : Write 512)).take j := rfl
      rw [hf, hfirst, replay_cons, diskSuper, replay_other, perform_same, Superblock.ofBytes_bytes]
      intro w hw
      obtain ⟨i, -, rfl⟩ := List.mem_map.mp (List.mem_of_mem_take hw)
      dsimp only
      omega
    · -- only entry `n` differs between the two tables, so the cut table is one of them
      have hcut := fun m => diskTable_cut (replay s.dev.sectors data) s'.super s'.entries (j + 1) m
      rw [← hf, hent] at hcut
      have hother : ∀ m, m ≠ n → diskTable f m = s.entries m := by
        intro m hm
        rcases hcut m with he | he
        · exact he
        · rw [he, h.other m hm]
      rcases hcut n with hold | hnew
      · left
        funext m
        by_cases hm : m = n
        · rw [hm, hold]
        · exact hother m hm
      · right
        funext m
        by_cases hm : m = n
        · rw [hm, hnew]
        · rw [hother m hm, h.other m hm]
    · intro a ha
      have hdisk : byte f a = byte (replay s.dev.sectors data) a := by
        unfold byte
        rw [hf, metadataWrites_other _ _ _ (Or.inr ha)]
      refine ⟨?_, hdisk⟩
      rw [hdisk, h.wrote.sectors, replay_append]
      have hfull := metadataWrites_other (replay s.dev.sectors data) s'.super s'.entries
        (Or.inr ha) (metadataWrites s'.super s'.entries).length
      rw [List.take_length] at hfull
      unfold byte
      rw [hfull]

/-- A larger free end keeps the allocation sound. -/
theorem Allocation.raise (hx : Allocation sb es) (h : sb.nextFreeLba.toNat ≤ sb'.nextFreeLba.toNat) :
    Allocation sb' es :=
  ⟨⟨⟨hx.packed.disjoint, fun i => (hx.packed.inside i).trans (Set.Ico_subset_Ico_right h)⟩,
    hx.fits⟩, hx.frontier.trans h, hx.unallocated⟩

/-- The bytes of a file are those of its data sectors. -/
theorem content_congr (hx : ExtentCondition sb es) (hf : (es n).IsFile)
    (hs : (es n).size ≠ 0 → (es n).startLba ≠ 0)
    (hb : ∀ a, a / 512 ∈ (es n).extent → byte f a = byte g a) : content es f n = content es g n := by
  apply List.map_congr_left
  intro k hk
  rw [List.mem_range] at hk
  apply hb
  refine hx.mem_extent hf (hs ?_) hk
  intro h0
  rw [h0] at hk
  exact absurd hk (by simp)

/-- At every cut of a call the other files are untouched. -/
theorem Commit.others (h : Commit s n data s') (hs : Synced s)
    (hx : Allocation s.super s.entries) (k : Nat) (f : Store 512)
    (hf : f = replay s.dev.sectors ((data ++ metadataWrites s'.super s'.entries).take k))
    (hm : m ≠ n) (hfm : (s.entries m).IsFile) :
    diskTable f m = s.entries m ∧ pathOf (diskTable f) m = pathOf s.entries m ∧
      content (diskTable f) f m = content s.entries s.dev.sectors m := by
  have hstart : (s.entries m).size ≠ 0 → (s.entries m).startLba ≠ 0 :=
    fun hsize h0 => hsize (hx.unallocated m hfm h0)
  have hdata : ∀ j a, a / 512 ∈ (s.entries m).extent →
      byte (replay s.dev.sectors (data.take j)) a = byte s.dev.sectors a :=
    fun j a ha => (h.touches.take j).outside (fun hr => hr.2 m hm ha)
  rcases h.cut hs k f hf with ⟨-, ht, hd⟩ | ⟨-, ht, hd⟩
  · rw [ht, hd]
    exact ⟨rfl, rfl, content_congr hx.toExtentCondition hfm hstart (hdata k)⟩
  · have hcontent : content s.entries f m = content s.entries s.dev.sectors m := by
      refine content_congr hx.toExtentCondition hfm hstart (fun a ha => ?_)
      rw [(hd a (hx.bounds ha).1).2]
      have := hdata data.length a ha
      rwa [List.take_length] at this
    rcases ht with ht | ht
    · rw [ht]
      exact ⟨rfl, rfl, hcontent⟩
    · rw [ht]
      refine ⟨h.other m hm, h.path m hm hfm.1, ?_⟩
      rw [← hcontent]
      unfold content
      rw [h.other m hm]

/-- At every cut the metadata on disk are sound and signed, and the entry the
call changes is its old or its new self. -/
theorem Commit.metadata (h : Commit s n data s') (hs : Synced s)
    (hx : Allocation s.super s.entries) (hsigned : Signed s.super) (k : Nat) (f : Store 512)
    (hf : f = replay s.dev.sectors ((data ++ metadataWrites s'.super s'.entries).take k)) :
    Signed (diskSuper f) ∧ Allocation (diskSuper f) (diskTable f) ∧
      (diskTable f n = s.entries n ∨ diskTable f n = s'.entries n) := by
  rcases h.cut hs k f hf with ⟨hsup, ht, -⟩ | ⟨hsup, ht | ht, -⟩ <;> rw [hsup, ht]
  · exact ⟨hsigned, hx, Or.inl rfl⟩
  · exact ⟨h.super.signed hsigned, hx.raise h.free, Or.inl rfl⟩
  · exact ⟨h.super.signed hsigned, h.allocation, Or.inr rfl⟩

/-- If the data writes spare the old bytes of the entry's file, every cut shows
either the old content or the complete new one. -/
theorem Commit.content_cut (h : Commit s n data s') (hs : Synced s)
    (hx : Allocation s.super s.entries) (hfn : (s.entries n).IsFile) (hfn' : (s'.entries n).IsFile)
    (hold : Touches {a | ∀ j, j < (s.entries n).size.toNat →
      a ≠ 512 * (s.entries n).startLba.toNat + j} s.dev.sectors data)
    (k : Nat) (f : Store 512)
    (hf : f = replay s.dev.sectors ((data ++ metadataWrites s'.super s'.entries).take k)) :
    content (diskTable f) f n = content s.entries s.dev.sectors n ∨
      content (diskTable f) f n = content s'.entries s'.dev.sectors n := by
  have hbyte : ∀ i j, j < (s.entries n).size.toNat →
      byte (replay s.dev.sectors (data.take i)) (512 * (s.entries n).startLba.toNat + j) =
        byte s.dev.sectors (512 * (s.entries n).startLba.toNat + j) :=
    fun i j hj => (hold.take i).outside (fun ha => ha j hj rfl)
  rcases h.cut hs k f hf with ⟨-, ht, hd⟩ | ⟨-, ht | ht, hd⟩
  · left
    rw [ht, hd]
    exact List.map_congr_left (fun j hj => hbyte k j (List.mem_range.mp hj))
  · left
    rw [ht]
    apply List.map_congr_left
    intro j hj
    rw [List.mem_range] at hj
    have hs0 : (s.entries n).startLba ≠ 0 := by
      intro h0
      rw [hx.unallocated n hfn h0] at hj
      exact absurd hj (by simp)
    have hb := hbyte data.length j hj
    rw [List.take_length] at hb
    rw [(hd _ (hx.bounds (hx.mem_extent hfn hs0 hj)).1).2, hb]
  · right
    rw [ht]
    have hx' := h.allocation
    refine content_congr hx'.toExtentCondition hfn' (fun hsize h0 => hsize ?_) (fun a ha => ?_)
    · exact hx'.unallocated n hfn' h0
    · exact (hd a (hx'.bounds ha).1).1

/-- The entry a call changes, unless it refuses. -/
def SfsCall.target (s : SimpleFs) : SfsCall → Option (Fin 64)
  | .create path cwdId type perm =>
    (sfsCreateEntry s path cwdId type perm).toOption.join.map Prod.fst
  | .remove path cwdId => (sfsRemoveTarget s path cwdId).toOption.join
  | .write nodeId _ _ _ => fileWith s.entries nodeId sfsPermWrite
  | .truncate nodeId => fileWith s.entries nodeId sfsPermWrite

/-- A write neither wraps nor runs out of sectors. -/
def SfsCall.Fits (s : SimpleFs) : SfsCall → Prop
  | .write _ offset _ len => offset.toNat + len.toNat + 511 < 4294967296 ∧
    s.super.nextFreeLba.toNat + (offset.toNat + len.toNat + 511) / 512 ≤ 65536
  | _ => True

/-- A write that first allocates, relocates, or starts at or after the old end. -/
def SfsCall.Appends (s : SimpleFs) (n : Fin 64) : SfsCall → Prop
  | .write _ offset _ len => (s.entries n).startLba = 0 ∨
    (s.entries n).capacitySectors < needSectors offset len ∨ (s.entries n).size ≤ offset
  | _ => False

/-- On a reliable drive a valid call refuses and writes nothing, or commits. -/
theorem sfsStep_commit (hr : s.dev.Reliable) (hx : Allocation s.super s.entries)
    (ht : DirectoryTree s.super s.entries) (hv : c.Valid s) (hfit : c.Fits s) :
    c.target s = none ∧ sfsStep s c = .ok (s, false) ∨
      ∃ n data s', c.target s = some n ∧ sfsStep s c = .ok (s', true) ∧ Commit s n data s' ∧
        (c.Appends s n → (s.entries n).IsFile ∧ (s'.entries n).IsFile ∧
          Touches {a | ∀ j, j < (s.entries n).size.toNat →
            a ≠ 512 * (s.entries n).startLba.toNat + j} s.dev.sectors data) := by
  cases c with
  | create path cwd type perm =>
    obtain ⟨r, hres, hnew⟩ := sfsCreateEntry_new ht hv.1 path type perm
    cases r with
    | none =>
      left
      simp [SfsCall.target, sfsStep, sfsCreate, hres, bind, Except.bind, Except.toOption]
    | some p =>
      obtain ⟨idx, e⟩ := p
      obtain ⟨s', hflush, hcommit⟩ := create_commit hr hx ht (hnew idx e rfl)
      refine Or.inr ⟨idx, [], s', ?_, ?_, hcommit, fun h => h.elim⟩
      · simp [SfsCall.target, hres, Except.toOption]
      · simp [sfsStep, sfsCreate, hres, bind, Except.bind, hflush]
  | remove path cwd =>
    obtain ⟨r, hres, hrem⟩ := sfsRemoveTarget_removable ht hv path
    cases r with
    | none =>
      left
      simp [SfsCall.target, sfsStep, sfsRemove, hres, bind, Except.bind, Except.toOption]
    | some n =>
      obtain ⟨s', hflush, hcommit⟩ := remove_commit hr hx ht (hrem n rfl)
      refine Or.inr ⟨n, [], s', ?_, ?_, hcommit, fun h => h.elim⟩
      · simp [SfsCall.target, hres, Except.toOption]
      · simp [sfsStep, sfsRemove, hres, bind, Except.bind, hflush]
  | write nodeId offset data len =>
    cases hres : fileWith s.entries nodeId sfsPermWrite with
    | none =>
      left
      simp [SfsCall.target, sfsStep, sfsWrite, hres]
    | some n =>
      obtain ⟨hf, hp, hid⟩ := fileWith_some hres
      obtain ⟨hwrap, hroom⟩ := hfit
      obtain ⟨s1, ws1, ws2, s', hwrite, hrun, -⟩ := sfsWrite_run hr hx hf hp hwrap hroom data
      have hnode : slotId n = nodeId := UInt32.toNat_inj.mp ((slotId_toNat n).trans hid.symm)
      rw [hnode] at hwrite
      refine Or.inr ⟨n, ws1 ++ ws2, s', hres, ?_, hrun.commit hx hf hwrap hroom, fun hkeep => ?_⟩
      · simp [sfsStep, hwrite]
      · refine ⟨hf, ?_, hrun.touches_old hx hf hwrap hkeep⟩
        rw [hrun.self]
        exact (hrun.placed.isFile n).mpr hf
  | truncate nodeId =>
    cases hres : fileWith s.entries nodeId sfsPermWrite with
    | none =>
      left
      simp [SfsCall.target, sfsStep, sfsTruncate, hres]
    | some n =>
      obtain ⟨s', hflush, hcommit⟩ := truncate_commit hr hx n
      refine Or.inr ⟨n, [], s', hres, ?_, hcommit, fun h => h.elim⟩
      simp [sfsStep, sfsTruncate, hres, hflush]

/-- A call cut short at any of its sector writes leaves a disk that mounts as it
is, with every file intact but the one the call is about. -/
theorem sfs_crash_consistent (s : SimpleFs) (c : SfsCall) (hr : s.dev.Reliable) (hs : Synced s)
    (hsigned : Signed s.super) (hx : Allocation s.super s.entries)
    (ht : DirectoryTree s.super s.entries) (hv : c.Valid s) (hfit : c.Fits s) :
    ∃ s' ok ws, sfsStep s c = .ok (s', ok) ∧ Wrote s.dev ws s'.dev ∧
      ∀ (k : Nat) (m : SimpleFs), m.dev.Reliable → m.dev.sectors = replay s.dev.sectors (ws.take k) →
        ∃ t, sfsInit m = (t, true) ∧ t.dev.calls = m.dev.calls ∧ t.dev.sectors = m.dev.sectors ∧
          Allocation t.super t.entries ∧
          (∀ n, c.target s ≠ some n → (s.entries n).IsFile →
            pathOf t.entries n = pathOf s.entries n ∧
            (t.entries n).size = (s.entries n).size ∧
            content t.entries t.dev.sectors n = content s.entries s.dev.sectors n) ∧
          ∀ n, c.target s = some n →
            (t.entries n = s.entries n ∨ t.entries n = s'.entries n) ∧
            (c.Appends s n →
              content t.entries t.dev.sectors n = content s.entries s.dev.sectors n ∨
              content t.entries t.dev.sectors n = content s'.entries s'.dev.sectors n) := by
  rcases sfsStep_commit hr hx ht hv hfit with ⟨hnone, hstep⟩ | ⟨n, data, s', hn, hstep, h, hkeep⟩
  · refine ⟨s, false, [], hstep, Wrote.refl _, fun k m hm hdisk => ?_⟩
    rw [List.take_nil, replay_nil] at hdisk
    obtain ⟨t, hinit, hsup, hent, hsec, hcalls, -⟩ := sfsInit_mounts hm (by
      rw [hdisk, hs.super]
      exact hsigned)
    rw [hdisk, hs.super] at hsup
    rw [hdisk, hs.entries] at hent
    refine ⟨t, hinit, hcalls, hsec, ?_, ?_, ?_⟩
    · rw [hsup, hent]
      exact hx
    · intro i _ _
      rw [hent, hsec, hdisk]
      exact ⟨rfl, rfl, rfl⟩
    · intro i hi
      rw [hnone] at hi
      cases hi
  · refine ⟨s', true, _, hstep, h.wrote, fun k m hm hdisk => ?_⟩
    obtain ⟨hsig, halloc, hentry⟩ := h.metadata hs hx hsigned k _ hdisk
    obtain ⟨t, hinit, hsup, hent, hsec, hcalls, -⟩ := sfsInit_mounts hm hsig
    refine ⟨t, hinit, hcalls, hsec, ?_, ?_, ?_⟩
    · rw [hsup, hent]
      exact halloc
    · intro i hi hf
      have hin : i ≠ n := fun he => hi (he ▸ hn)
      obtain ⟨he, hpath, hcontent⟩ := h.others hs hx k _ hdisk hin hf
      rw [hent, hsec]
      exact ⟨hpath, congrArg Entry.size he, hcontent⟩
    · intro i hi
      rw [hn] at hi
      cases hi
      rw [hent, hsec]
      refine ⟨hentry, fun happ => ?_⟩
      obtain ⟨hfn, hfn', hold⟩ := hkeep happ
      exact h.content_cut hs hx hfn hfn' hold k _ hdisk

/-- A volume as a flush to a blank disk leaves it. -/
def flushed (sb : Superblock) (es : Table) : SimpleFs :=
  ⟨sb, es, { blankDrive with sectors := replay (fun _ _ => 0) (metadataWrites sb es) }⟩

theorem flushed_synced (sb : Superblock) (es : Table) : Synced (flushed sb es) :=
  ⟨diskSuper_flushed _ sb es, diskTable_flushed _ sb es⟩

theorem formatted_allocation (dev : Drive) :
    Allocation (formatted 0 dev).super (formatted 0 dev).entries := by
  have hnone : ∀ n, ¬ ((formatted 0 dev).entries n).IsFile := by
    intro n hf
    rw [formatted_used hf.1, formatted_root] at hf
    exact absurd hf.2 (by decide)
  have hext : ∀ n, ((formatted 0 dev).entries n).extent = ∅ := fun n => if_neg (fun h => hnone n h.1)
  refine ⟨⟨⟨?_, ?_⟩, fun n hf => absurd hf (hnone n)⟩, le_refl _, fun n hf => absurd hf (hnone n)⟩
  · intro i j _
    simp only [hext]
    exact disjoint_bot_left
  · intro i
    simp only [hext]
    exact Set.empty_subset _

theorem sfs_crash_consistent_create : ∃ (s' : SimpleFs) (ws : List (Write 512)) (t : SimpleFs),
    sfsStep (flushed (formatted 0 blankDrive).super (formatted 0 blankDrive).entries)
      (.create [97] 0 sfsTypeFile 3) = .ok (s', true) ∧
    sfsInit (powerOn { blankDrive with sectors := replay (flushed (formatted 0 blankDrive).super
      (formatted 0 blankDrive).entries).dev.sectors (ws.take 2) }) = (t, true) ∧
    Allocation t.super t.entries ∧ (t.entries 1 = Entry.zero ∨ t.entries 1 = s'.entries 1) := by
  obtain ⟨s', ok, ws, hstep, -, hcut⟩ := sfs_crash_consistent
    (flushed (formatted 0 blankDrive).super (formatted 0 blankDrive).entries)
    (.create [97] 0 sfsTypeFile 3) (fun _ => rfl) (flushed_synced _ _) ⟨rfl, rfl⟩
    (formatted_allocation _) (formatted_tree _) ⟨⟨0, rfl, by decide, by decide⟩, Or.inl rfl⟩ trivial
  have htarget : (SfsCall.create [97] 0 sfsTypeFile 3).target
      (flushed (formatted 0 blankDrive).super (formatted 0 blankDrive).entries) = some 1 := by
    decide +kernel
  have hok : (sfsStep (flushed (formatted 0 blankDrive).super (formatted 0 blankDrive).entries)
      (.create [97] 0 sfsTypeFile 3)).toOption.map Prod.snd = some true := by decide +kernel
  rw [hstep] at hok
  cases Option.some.inj hok
  obtain ⟨t, hinit, -, -, halloc, -, hentry⟩ := hcut 2 (powerOn { blankDrive with sectors := _ }) (fun _ => rfl) rfl
  exact ⟨s', ws, t, hstep, hinit, halloc, (hentry 1 htarget).1⟩

/-- A file called `name` below `parent`, with no room of its own. -/
def fileAt (parent start size : UInt32) (name : List UInt8) : Entry :=
  { Entry.zero with
    used := 1, type := sfsTypeFile, perm := 3, parent, startLba := start, size,
    name := sCopy Entry.zero.name name }

/-- The root directory, an empty file `a` below it, and `e` in slot 2. -/
def twoFiles (e : Entry) : Table :=
  Function.update (Function.update (formatted 0 blankDrive).entries 1 (fileAt 0 0 0 [97])) 2 e

/-- File extents are disjoint and lie below the free end. -/
def BelowFree (s : SimpleFs) : Prop :=
  (∀ i j, i ≠ j → Disjoint (s.entries i).extent (s.entries j).extent) ∧
    ∀ i, (s.entries i).extent ⊆ Set.Iio s.super.nextFreeLba.toNat

theorem twoFiles_below (sb : Superblock) (parent start size : UInt32) :
    BelowFree (flushed sb (twoFiles (fileAt parent start size [98]))) := by
  have hempty : ∀ n, (twoFiles (fileAt parent start size [98]) n).extent = ∅ := by
    intro n
    have hcap : (twoFiles (fileAt parent start size [98]) n).capacitySectors = 0 := by
      by_cases h2 : n = 2
      · rw [h2]
        rfl
      · by_cases h1 : n = 1
        · rw [h1]
          rfl
        · by_cases h0 : n = 0 <;> simp [twoFiles, formatted, rootEntry, h2, h1, h0, Entry.zero]
    unfold Entry.extent
    rw [hcap]
    simp
  refine ⟨fun i j _ => ?_, fun i => ?_⟩ <;> simp only [flushed, hempty]
  · exact disjoint_bot_left
  · exact Set.empty_subset _

/-- The disk a call leaves when it is cut after `k` sector writes. -/
def cutDisk (s : SimpleFs) (c : SfsCall) (k : Nat) : SimpleFs :=
  let calls := match sfsStep s c with
    | .ok (s', _) => s'.dev.calls
    | .error _ => []
  powerOn { blankDrive with sectors := replay s.dev.sectors ((performed calls).take k) }

theorem content_getElem? (es : Table) (f : Store 512) (n : Fin 64) (hk : k < (es n).size.toNat) :
    (content es f n)[k]? = some (byte f (512 * (es n).startLba.toNat + k)) := by
  simp [content, hk]

/-- Five volumes on which disjoint extents below the free end do not suffice: a
free end on the superblock, a superblock without a signature, a table in which a
file has a child, and files with bytes outside their capacity or without extent. -/
theorem sfs_crash_outside_allocation :
    (∃ s, Synced s ∧ BelowFree s ∧ Signed s.super ∧ (SfsCall.write 1 0 (fun _ => 65) 1).Fits s ∧
      ((sfsInit (cutDisk s (.write 1 0 (fun _ => 65) 1) 1)).1.entries 2).used = 0 ∧
      (s.entries 2).used = 1) ∧
    (∃ s, Synced s ∧ BelowFree s ∧
      (sfsStep s (.truncate 0)).toOption.map Prod.snd = some false ∧
      (sfsInit (cutDisk s (.truncate 0) 0)).1.dev.calls ≠ []) ∧
    (∃ s, Synced s ∧ BelowFree s ∧ Signed s.super ∧
      (SfsCall.remove [97] 0).target s = some 1 ∧ pathOf s.entries 2 = [[97], [98]] ∧
      pathOf (sfsInit (cutDisk s (.remove [97] 0) 9)).1.entries 2 = [[], [98]]) ∧
    ∀ start size k, (start, size, k) = (128, 20, 16) ∨ (start, size, k) = (0, 65556, 65552) →
      ∃ s, Synced s ∧ BelowFree s ∧ Signed s.super ∧
        s.entries 2 = fileAt 0 start size [98] ∧ (SfsCall.write 1 0 (fun _ => 65) 1).Fits s ∧
        content s.entries s.dev.sectors 2 ≠
          content (sfsInit (cutDisk s (.write 1 0 (fun _ => 65) 1) 10)).1.entries
            (cutDisk s (.write 1 0 (fun _ => 65) 1) 10).dev.sectors 2 := by
  refine ⟨⟨flushed { (formatted 0 blankDrive).super with nextFreeLba := 128 }
      (twoFiles (fileAt 0 0 0 [98])), flushed_synced _ _, twoFiles_below _ _ _ _, ?_⟩,
    ⟨flushed Superblock.zero (twoFiles (fileAt 0 0 0 [98])), flushed_synced _ _,
      twoFiles_below _ _ _ _, ?_⟩,
    ⟨flushed (formatted 0 blankDrive).super (twoFiles (fileAt 1 0 0 [98])), flushed_synced _ _,
      twoFiles_below _ _ _ _, ?_⟩, ?_⟩
  · exact ⟨⟨rfl, rfl⟩, ⟨by decide, by decide⟩, by decide +kernel, rfl⟩
  · exact ⟨by decide +kernel, by decide +kernel⟩
  · exact ⟨⟨rfl, rfl⟩, by decide +kernel, by decide +kernel, by decide +kernel⟩
  · intro start size k hcase
    refine ⟨flushed (formatted 0 blankDrive).super (twoFiles (fileAt 0 start size [98])),
      flushed_synced _ _, twoFiles_below _ _ _ _, ⟨rfl, rfl⟩, rfl,
      ⟨by decide, show 137 + (0 + 1 + 511) / 512 ≤ 65536 by decide⟩, ?_⟩
    intro he
    have hk := congrArg (fun l => l[k]?) he
    rcases hcase with hc | hc <;> obtain ⟨rfl, rfl, rfl⟩ := hc
    all_goals
      rw [content_getElem? _ _ _ (by decide +kernel),
        content_getElem? _ _ _ (by decide +kernel)] at hk
      revert hk
      decide +kernel

end VertexOS
