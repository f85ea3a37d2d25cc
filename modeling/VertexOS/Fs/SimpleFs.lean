import VertexOS.Fs.Format

namespace VertexOS
open Library.BlockStore

/-- What C leaves undefined: an index outside the array it is applied to. -/
inductive Fault where
  | outOfBounds
  deriving DecidableEq, Repr

theorem bind_ok {x : Except ε α} {f : α → Except ε β} (h : x >>= f = .ok b) :
    ∃ a, x = .ok a ∧ f a = .ok b := by
  cases x with
  | error e => cases h
  | ok a => exact ⟨a, rfl, h⟩

def sfsTypeFile : UInt8 := 1
def sfsTypeDir : UInt8 := 2
def sfsPermRead : UInt8 := 1
def sfsPermWrite : UInt8 := 2
def sfsPermExec : UInt8 := 4

/-- `g_super`, `g_entries` and the block device below them. -/
structure SimpleFs where
  super : Superblock
  entries : Table
  dev : Drive

/-- A table index as the `u32` node id the code passes around. -/
def slotId (i : Fin 64) : UInt32 := UInt32.ofNat i

/-- `g_entries[id]`. -/
def entryAt (es : Table) (id : UInt32) : Except Fault Entry :=
  if h : id.toNat < 64 then .ok (es ⟨id.toNat, h⟩) else .error .outOfBounds

/-- The string in a buffer: the bytes before its first NUL. -/
def cString (bytes : List UInt8) : List UInt8 := bytes.takeWhile (· ≠ 0)

def Entry.nameBytes (e : Entry) : List UInt8 := List.ofFn e.name

def Entry.nameString (e : Entry) : List UInt8 := cString e.nameBytes

/-- `s_copy` into a buffer of `n` bytes; bytes after the new NUL stay. -/
def sCopy (dst : Block n) (src : List UInt8) : Block n :=
  let str := (cString src).take (n - 1)
  fun i => if h : i.val < str.length then str[i.val] else if i.val = str.length then 0 else dst i

/-- `s_eq` of a stored name with a local string. The stored bytes are read one
by one, so a name without a NUL is read past its end. -/
def sEq : List UInt8 → List UInt8 → Except Fault Bool
  | [], _ => .error .outOfBounds
  | a :: _, [] => .ok (a == 0)
  | a :: as, b :: bs =>
    if a ≠ 0 ∧ b ≠ 0 then if a ≠ b then .ok false else sEq as bs else .ok (a == b)

def Superblock.zero : Superblock := ⟨0, 0, 0, 0, 0, 0, fun _ => 0⟩

def Entry.zero : Entry := ⟨0, 0, 0, 0, 0, 0, 0, 0, fun _ => 0, fun _ => 0⟩

/-- The table loop of `sfs_flush`. -/
def flushTable (es : Table) : Drive → List (Fin 8) → Drive × Bool
  | d, [] => (d, true)
  | d, i :: is =>
    match blockdevWrite d (sfsTableLba + UInt32.ofNat i) (tableSector es i) with
    | (d, false) => (d, false)
    | (d, true) => flushTable es d is

def sfsFlush (s : SimpleFs) : SimpleFs × Bool :=
  match blockdevWrite s.dev sfsSuperLba s.super.bytes with
  | (dev, false) => ({ s with dev }, false)
  | (dev, true) =>
    let (dev, ok) := flushTable s.entries dev (List.finRange 8)
    ({ s with dev }, ok)

/-- Sector `i` of the table read into `g_entries`. -/
def loadSector (es : Table) (i : Fin 8) (b : Sector) : Table := fun n =>
  if n.val / 8 = i.val then Entry.ofBytes fun k => b ⟨64 * (n % 8) + k, tableOffset_lt n k⟩ else es n

/-- The table loop of `sfs_load`. -/
def loadTable : Drive → Table → List (Fin 8) → Drive × Table × Bool
  | d, es, [] => (d, es, true)
  | d, es, i :: is =>
    match blockdevRead d (sfsTableLba + UInt32.ofNat i) with
    | (d, none) => (d, es, false)
    | (d, some b) => loadTable d (loadSector es i b) is

def sfsLoad (s : SimpleFs) : SimpleFs × Bool :=
  match blockdevRead s.dev sfsSuperLba with
  | (dev, none) => ({ s with dev }, false)
  | (dev, some b) =>
    let (dev, entries, ok) := loadTable dev s.entries (List.finRange 8)
    (⟨Superblock.ofBytes b, entries, dev⟩, ok)

def sfsFindFreeEntry (es : Table) : Option (Fin 64) :=
  (List.finRange 64).find? fun i => (es i).used == 0

/-- `sfs_find_child`, over the indices still to be looked at. -/
def findChildFrom (es : Table) (parent : UInt32) (name : List UInt8) :
    List (Fin 64) → Except Fault (Option (Fin 64))
  | [] => .ok none
  | i :: is =>
    if (es i).used ≠ 0 ∧ (es i).parent = parent then do
      if ← sEq (es i).nameBytes name then .ok (some i)
      else findChildFrom es parent name is
    else findChildFrom es parent name is

def sfsFindChild (es : Table) (parent : UInt32) (name : List UInt8) :
    Except Fault (Option (Fin 64)) :=
  findChildFrom es parent name (List.finRange 64)

/-- `'/'`. -/
def slash : UInt8 := 47

def dot : List UInt8 := [46]
def dotdot : List UInt8 := [46, 46]

/-- A byte of a path component: neither the separator nor the final NUL. -/
def inName (c : UInt8) : Bool := c ≠ 0 && c ≠ slash

/-- `path_next` on the part of the path from `*pos` on: the next component, cut
to 31 bytes, and what follows it. A list ends where its string's NUL stands. -/
def pathNext (path : List UInt8) : Option (List UInt8 × List UInt8) :=
  let path := path.dropWhile (· == slash)
  if path.headD 0 = 0 then none
  else some ((path.takeWhile inName).take sfsNameMax, path.dropWhile inName)

theorem pathNext_some (h : pathNext path = some (name, rest)) :
    rest.length < path.length ∧ name ≠ [] ∧ name.length ≤ sfsNameMax ∧
      ∀ c ∈ name, c ≠ 0 ∧ c ≠ slash := by
  unfold pathNext at h
  dsimp only at h
  have hlen := (List.dropWhile_suffix (fun c => c == slash) (l := path)).length_le
  have hslash : ∀ c cs, path.dropWhile (· == slash) = c :: cs → c ≠ slash := by
    intro c cs he
    have := List.head_dropWhile_not (fun c => c == slash) (l := path) (by simp [he])
    simpa [he] using this
  generalize path.dropWhile (· == slash) = p at h hlen hslash
  cases p with
  | nil => simp at h
  | cons c cs =>
    by_cases hc : c = 0
    · simp [hc] at h
    · have hin : inName c = true := by simp [inName, hc, hslash c cs rfl]
      simp only [List.headD_cons, hc, ↓reduceIte, List.takeWhile_cons, hin, List.dropWhile_cons,
        Option.some.injEq, Prod.mk.injEq] at h
      obtain ⟨rfl, rfl⟩ := h
      have hd := (List.dropWhile_suffix inName (l := cs)).length_le
      refine ⟨by simp only [List.length_cons] at hlen; omega, by simp [sfsNameMax], by simp, ?_⟩
      intro b hb
      have hb' : b ∈ (c :: cs).takeWhile inName := by
        rw [List.takeWhile_cons, if_pos hin]
        exact List.mem_of_mem_take hb
      have := List.mem_takeWhile_imp hb'
      simpa [inName] using this

/-- Where a walk of `path` starts. -/
def startNode (sb : Superblock) (path : List UInt8) (cwdId : UInt32) : UInt32 :=
  if path.headD 0 = slash then sb.rootId else cwdId

/-- The loop of `sfs_resolve`. -/
def resolveLoop (es : Table) (path : List UInt8) (current : UInt32) :
    Except Fault (Option UInt32) :=
  match h : pathNext path with
  | none => .ok (some current)
  | some (name, rest) =>
    have : rest.length < path.length := (pathNext_some h).1
    if name = dot then resolveLoop es rest current
    else if name = dotdot then do
      let e ← entryAt es current
      resolveLoop es rest e.parent
    else do
      match ← sfsFindChild es current name with
      | none => .ok none
      | some child => resolveLoop es rest (slotId child)
termination_by path.length

def sfsResolve (s : SimpleFs) (path : List UInt8) (cwdId : UInt32) :
    Except Fault (Option UInt32) :=
  resolveLoop s.entries path (startNode s.super path cwdId)

/-- The loop of `sfs_create`: the directory the walk ends in and `last`. -/
def createLoop (es : Table) (path : List UInt8) (current : UInt32) (last : List UInt8) :
    Except Fault (Option (UInt32 × List UInt8)) :=
  match h : pathNext path with
  | none => .ok (some (current, last))
  | some (name, rest) =>
    have : rest.length < path.length := (pathNext_some h).1
    if name = dot then createLoop es rest current name
    else if name = dotdot then do
      let e ← entryAt es current
      createLoop es rest e.parent name
    else if rest.headD 0 = 0 then .ok (some (current, name))
    else do
      match ← sfsFindChild es current name with
      | none => .ok none
      | some child =>
        if (es child).type ≠ sfsTypeDir then .ok none
        else createLoop es rest (slotId child) name
termination_by path.length

/-- The table index a create may take and the entry it puts there. -/
def sfsCreateEntry (s : SimpleFs) (path : List UInt8) (cwdId : UInt32) (type perm : UInt8) :
    Except Fault (Option (Fin 64 × Entry)) :=
  if path.headD 0 = 0 then .ok none
  else do
    match ← createLoop s.entries path (startNode s.super path cwdId) [] with
    | none => .ok none
    | some (current, last) =>
      if last = [] then .ok none
      else do
        match ← sfsFindChild s.entries current last with
        | some _ => .ok none
        | none =>
          match sfsFindFreeEntry s.entries with
          | none => .ok none
          | some idx =>
            let e := s.entries idx
            .ok (some (idx, { e with
              used := 1, type, perm, parent := current, startLba := 0, size := 0,
              capacitySectors := 0, name := sCopy e.name last }))

/-- `sfs_create`; the id is the one stored in `*out_id` when 1 is returned. -/
def sfsCreate (s : SimpleFs) (path : List UInt8) (cwdId : UInt32) (type perm : UInt8) :
    Except Fault (SimpleFs × Option UInt32) := do
  match ← sfsCreateEntry s path cwdId type perm with
  | none => .ok (s, none)
  | some (idx, e) =>
    match sfsFlush { s with entries := Function.update s.entries idx e } with
    | (s, false) => .ok (s, none)
    | (s, true) => .ok (s, some (slotId idx))

/-- Some used entry names `id` as its parent. -/
def hasChild (es : Table) (id : UInt32) : Bool :=
  (List.finRange 64).any fun i => (es i).used ≠ 0 && (es i).parent == id

/-- The table index `sfs_remove` clears, if it clears one. -/
def sfsRemoveTarget (s : SimpleFs) (path : List UInt8) (cwdId : UInt32) :
    Except Fault (Option (Fin 64)) := do
  match ← sfsResolve s path cwdId with
  | none => .ok none
  | some id =>
    if id = s.super.rootId then .ok none
    else if h : id.toNat < 64 then
      if (s.entries ⟨id.toNat, h⟩).type = sfsTypeDir ∧ hasChild s.entries id then .ok none
      else .ok (some ⟨id.toNat, h⟩)
    else .error .outOfBounds

def sfsRemove (s : SimpleFs) (path : List UInt8) (cwdId : UInt32) :
    Except Fault (SimpleFs × Bool) := do
  match ← sfsRemoveTarget s path cwdId with
  | none => .ok (s, false)
  | some id => .ok (sfsFlush { s with entries := Function.update s.entries id Entry.zero })

/-- The common check of `sfs_read`, `sfs_write` and `sfs_truncate`: a used FILE
entry that grants `perm`. -/
def fileWith (es : Table) (nodeId : UInt32) (perm : UInt8) : Option (Fin 64) :=
  if h : nodeId.toNat < 64 then
    let e := es ⟨nodeId.toNat, h⟩
    if e.used ≠ 0 ∧ e.type = sfsTypeFile ∧ e.perm &&& perm ≠ 0 then some ⟨nodeId.toNat, h⟩
    else none
  else none

/-- How much of the `remaining` bytes lies in the sector of `absOff`. -/
def chunkAt (absOff remaining : UInt32) : UInt32 :=
  let chunk := 512 - absOff % 512
  if chunk > remaining then remaining else chunk

theorem chunkAt_toNat (a r : UInt32) :
    (chunkAt a r).toNat = min r.toNat (512 - a.toNat % 512) := by
  have hm : (a % 512).toNat = a.toNat % 512 := UInt32.toNat_mod a 512
  have hle : a % 512 ≤ 512 := by
    rw [UInt32.le_iff_toNat_le, hm]
    exact (Nat.mod_lt _ (by decide)).le
  have hs : (512 - a % 512 : UInt32).toNat = 512 - a.toNat % 512 := by
    rw [UInt32.toNat_sub_of_le _ _ hle, hm]
    rfl
  simp only [chunkAt, gt_iff_lt, UInt32.lt_iff_toNat_lt, hs]
  split
  · omega
  · rw [hs]; omega

/-- One turn of a copy loop moves `copied` forward and not past `len`. -/
theorem chunk_step (h : copied < len) (a : UInt32) :
    (copied + chunkAt a (len - copied)).toNat =
        copied.toNat + min (len.toNat - copied.toNat) (512 - a.toNat % 512) ∧
      copied.toNat < (copied + chunkAt a (len - copied)).toNat := by
  have hl := UInt32.lt_iff_toNat_lt.mp h
  have hlen := len.toNat_lt
  have hs : (len - copied).toNat = len.toNat - copied.toNat :=
    UInt32.toNat_sub_of_le _ _ (UInt32.le_iff_toNat_le.mpr hl.le)
  have he : (copied + chunkAt a (len - copied)).toNat =
      copied.toNat + min (len.toNat - copied.toNat) (512 - a.toNat % 512) := by
    rw [UInt32.toNat_add, chunkAt_toNat, hs]
    omega
  exact ⟨he, by omega⟩

/-- `chunk` bytes of a sector from `inSector` on. -/
def sectorSlice (b : Sector) (inSector chunk : Nat) : List UInt8 :=
  (List.range chunk).map fun k => b (Fin.ofNat 512 (inSector + k))

/-- The loop of `sfs_read`; `out` holds the bytes delivered so far. -/
def readLoop (start offset len : UInt32) (d : Drive) (copied : UInt32) (out : List UInt8) :
    Drive × Option (List UInt8) :=
  if _h : copied < len then
    let absOff := offset + copied
    let chunk := chunkAt absOff (len - copied)
    match blockdevRead d (start + absOff / 512) with
    | (d, none) => (d, none)
    | (d, some sector) =>
      readLoop start offset len d (copied + chunk)
        (out ++ sectorSlice sector (absOff % 512).toNat chunk.toNat)
  else (d, some out)
termination_by len.toNat - copied.toNat
decreasing_by
  have := chunk_step _h (offset + copied)
  have := UInt32.lt_iff_toNat_lt.mp _h
  omega

/-- `sfs_read`: the bytes stored through `out` when 1 is returned; their number
is what `*out_read` receives. -/
def sfsRead (s : SimpleFs) (nodeId offset len : UInt32) : SimpleFs × Option (List UInt8) :=
  match fileWith s.entries nodeId sfsPermRead with
  | none => (s, none)
  | some n =>
    let e := s.entries n
    if offset ≥ e.size then (s, some [])
    else
      let remaining := e.size - offset
      let len := if len > remaining then remaining else len
      let (dev, r) := readLoop e.startLba offset len s.dev 0 []
      ({ s with dev }, r)

/-- The bytes that the loop of `sfs_read` copies to `out`, also where it ends at a
sector that is not delivered. -/
def readLoopOut (start offset len : UInt32) (d : Drive) (copied : UInt32) : List UInt8 :=
  if _h : copied < len then
    let absOff := offset + copied
    let chunk := chunkAt absOff (len - copied)
    match blockdevRead d (start + absOff / 512) with
    | (_, none) => []
    | (d, some sector) =>
      sectorSlice sector (absOff % 512).toNat chunk.toNat ++
        readLoopOut start offset len d (copied + chunk)
  else []
termination_by len.toNat - copied.toNat
decreasing_by
  have := chunk_step _h (offset + copied)
  have := UInt32.lt_iff_toNat_lt.mp _h
  omega

/-- What `sfs_read` leaves at `out`, whatever it returns. -/
def sfsReadOut (s : SimpleFs) (nodeId offset len : UInt32) : List UInt8 :=
  match fileWith s.entries nodeId sfsPermRead with
  | none => []
  | some n =>
    let e := s.entries n
    if offset ≥ e.size then []
    else
      let remaining := e.size - offset
      let len := if len > remaining then remaining else len
      readLoopOut e.startLba offset len s.dev 0

/-- `mem_copy(sector + in_sector, data + copied, chunk)`. -/
def overlay (b : Sector) (inSector chunk : Nat) (data : Nat → UInt8) (copied : Nat) : Sector :=
  fun i =>
    if inSector ≤ i.val ∧ i.val < inSector + chunk then data (copied + (i.val - inSector)) else b i

/-- The data loop of `sfs_write`. A sector that cannot be read is taken as zeros. -/
def writeLoop (start offset : UInt32) (data : Nat → UInt8) (len : UInt32) (d : Drive)
    (copied : UInt32) : Drive × Option UInt32 :=
  if _h : copied < len then
    let absOff := offset + copied
    let lba := start + absOff / 512
    let chunk := chunkAt absOff (len - copied)
    let (d, r) := blockdevRead d lba
    let sector := r.getD fun _ => 0
    let sector := overlay sector (absOff % 512).toNat chunk.toNat data copied.toNat
    match blockdevWrite d lba sector with
    | (d, false) => (d, none)
    | (d, true) => writeLoop start offset data len d (copied + chunk)
  else (d, some copied)
termination_by len.toNat - copied.toNat
decreasing_by
  have := chunk_step _h (offset + copied)
  have := UInt32.lt_iff_toNat_lt.mp _h
  omega

/-- The relocation loop of `sfs_write`, with `count` sectors still to copy. -/
def relocateLoop (old new : UInt32) : Nat → Drive → UInt32 → Drive × Bool
  | 0, d, _ => (d, true)
  | count + 1, d, i =>
    match blockdevRead d (old + i) with
    | (d, none) => (d, false)
    | (d, some tmp) =>
      match blockdevWrite d (new + i) tmp with
      | (d, false) => (d, false)
      | (d, true) => relocateLoop old new count d (i + 1)

/-- The entry and superblock after giving the file `need` sectors at the free end. -/
def grow (s : SimpleFs) (n : Fin 64) (need : UInt32) : SimpleFs :=
  { s with
    entries := Function.update s.entries n
      { s.entries n with startLba := s.super.nextFreeLba, capacitySectors := need }
    super := { s.super with nextFreeLba := s.super.nextFreeLba + need } }

/-- The allocation part of `sfs_write`: first allocation, relocation, or nothing. -/
def sfsReserve (s : SimpleFs) (n : Fin 64) (need : UInt32) : SimpleFs × Bool :=
  let e := s.entries n
  if e.startLba = 0 then (grow s n need, true)
  else if need > e.capacitySectors then
    match relocateLoop e.startLba s.super.nextFreeLba e.capacitySectors.toNat s.dev 0 with
    | (dev, false) => ({ s with dev }, false)
    | (dev, true) => (grow { s with dev } n need, true)
  else (s, true)

/-- `need_sectors`. -/
def needSectors (offset len : UInt32) : UInt32 := (offset + len + 511) / 512

/-- The size update of `sfs_write`. -/
def extendSize (es : Table) (n : Fin 64) (endPos : UInt32) : Table :=
  if endPos > (es n).size then Function.update es n { es n with size := endPos } else es

/-- `sfs_write`; `data` are the bytes from the data pointer on. The count is the
one stored in `*out_written` when 1 is returned. -/
def sfsWrite (s : SimpleFs) (nodeId offset : UInt32) (data : Nat → UInt8) (len : UInt32) :
    SimpleFs × Option UInt32 :=
  match fileWith s.entries nodeId sfsPermWrite with
  | none => (s, none)
  | some n =>
    match sfsReserve s n (needSectors offset len) with
    | (s, false) => (s, none)
    | (s, true) =>
      match writeLoop (s.entries n).startLba offset data len s.dev 0 with
      | (dev, none) => ({ s with dev }, none)
      | (dev, some copied) =>
        match sfsFlush { s with dev, entries := extendSize s.entries n (offset + len) } with
        | (s, false) => (s, none)
        | (s, true) => (s, some copied)

def sfsTruncate (s : SimpleFs) (nodeId : UInt32) : SimpleFs × Bool :=
  match fileWith s.entries nodeId sfsPermWrite with
  | none => (s, false)
  | some n => sfsFlush { s with entries := Function.update s.entries n { s.entries n with size := 0 } }

/-- The entry `sfs_init` makes for the root directory. -/
def rootEntry (root : Fin 64) : Entry :=
  { Entry.zero with
    used := 1, type := sfsTypeDir, perm := sfsPermRead ||| sfsPermWrite ||| sfsPermExec,
    parent := slotId root, name := sCopy Entry.zero.name [slash] }

/-- `g_super` and `g_entries` of a freshly formatted disk. -/
def formatted (root : Fin 64) (dev : Drive) : SimpleFs where
  super := { Superblock.zero with
    magic := sfsMagic, version := sfsVersion, totalSectors := 65536,
    maxEntries := sfsMaxEntries, nextFreeLba := sfsDataLba, rootId := 0 }
  entries := Function.update (fun _ => Entry.zero) root (rootEntry root)
  dev := dev

def sfsInit (s : SimpleFs) : SimpleFs × Bool :=
  match sfsLoad s with
  | (s, ok) =>
    if ok = false ∨ s.super.magic ≠ sfsMagic ∨ s.super.version ≠ sfsVersion then
      match sfsFindFreeEntry (fun _ => Entry.zero) with
      | none => (s, false)
      | some root => sfsFlush (formatted root s.dev)
    else (s, true)

/-- `sfs_node_info`, its name as a string. -/
structure NodeInfo where
  id : UInt32
  type : UInt8
  perm : UInt8
  parent : UInt32
  size : UInt32
  name : List UInt8
  deriving DecidableEq, Repr

def Entry.info (e : Entry) (id : UInt32) : NodeInfo :=
  ⟨id, e.type, e.perm, e.parent, e.size, e.nameString.take sfsNameMax⟩

def sfsStat (s : SimpleFs) (nodeId : UInt32) : Option NodeInfo :=
  if h : nodeId.toNat < 64 then
    let e := s.entries ⟨nodeId.toNat, h⟩
    if e.used = 0 then none else some (e.info nodeId)
  else none

/-- `sfs_list`: the records stored in `out_entries`, as many as are returned. -/
def sfsList (s : SimpleFs) (dirId maxEntries : UInt32) : List NodeInfo :=
  if h : dirId.toNat < 64 then
    let d := s.entries ⟨dirId.toNat, h⟩
    if d.used = 0 ∨ d.type ≠ sfsTypeDir then []
    else
      let found := (List.finRange 64).filter fun i =>
        (s.entries i).used ≠ 0 && (s.entries i).parent == dirId && slotId i ≠ dirId
      (found.take maxEntries.toNat).map fun i => (s.entries i).info (slotId i)
  else []

end VertexOS
