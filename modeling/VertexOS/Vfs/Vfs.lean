import VertexOS.Fs.Reboot

namespace VertexOS
open Library.BlockStore

def vfsORead : UInt32 := 1
def vfsOWrite : UInt32 := 2
def vfsOCreate : UInt32 := 4
def vfsOTrunc : UInt32 := 8

/-- `vfs_fd`. -/
structure VfsFd where
  used : UInt8
  nodeId : UInt32
  offset : UInt32
  flags : UInt32
  deriving DecidableEq, Repr

instance neZeroContexts : NeZero 16 := ⟨by decide⟩

/-- `vfs_terminal_context`; the path is the string in `cwd_path`. -/
structure VfsContext where
  cwd : UInt32
  cwdPath : List UInt8
  envUsed : Fin 16 → UInt8
  envKeys : Fin 16 → Block 16
  envValues : Fin 16 → Block 64

/-- `g_fds`, `g_vfs_ctx` and the file system below them. -/
structure Vfs where
  fs : SimpleFs
  fds : Fin 16 → VfsFd
  ctx : Fin 16 → VfsContext

/-- `vfs_context_for_session`: sessions that are no terminal share context 0. -/
def sessionSlot (session : Int) : Fin 16 :=
  if 0 ≤ session ∧ session < 16 then Fin.ofNat 16 session.toNat else 0

def Vfs.cwd (v : Vfs) (session : Int) : UInt32 := (v.ctx (sessionSlot session)).cwd

def vfsCwdPathMax : Nat := 128

/-- `cwd_update`: the string that `s_copy` leaves in the buffer. -/
def cwdUpdate (path : List UInt8) : List UInt8 := (cString path).take (vfsCwdPathMax - 1)

/-- What `vfs_init` makes of a context: the bytes behind the emptied strings stay. -/
def VfsContext.reset (c : VfsContext) (root : UInt32) : VfsContext where
  cwd := root
  cwdPath := cwdUpdate [slash]
  envUsed := fun _ => 0
  envKeys := fun e => Function.update (c.envKeys e) 0 0
  envValues := fun e => Function.update (c.envValues e) 0 0

def vfsInit (v : Vfs) : Vfs × Bool :=
  match sfsInit v.fs with
  | (fs, false) => ({ v with fs }, false)
  | (fs, true) =>
    ({ fs, fds := fun i => { v.fds i with used := 0 }, ctx := fun s => (v.ctx s).reset fs.super.rootId },
      true)

/-- The node `vfs_open` works on: the one the path names, else a new file. -/
def openNode (fs : SimpleFs) (path : List UInt8) (cwd flags : UInt32) :
    Except Fault (SimpleFs × Option UInt32) := do
  match ← sfsResolve fs path cwd with
  | some nodeId => .ok (fs, some nodeId)
  | none =>
    if flags &&& vfsOCreate ≠ 0 then
      sfsCreate fs path cwd sfsTypeFile (sfsPermRead ||| sfsPermWrite)
    else .ok (fs, none)

/-- The truncation of `vfs_open`, and whether it let the open go on. -/
def openTruncate (fs : SimpleFs) (nodeId flags : UInt32) : SimpleFs × Bool :=
  if flags &&& vfsOTrunc ≠ 0 then sfsTruncate fs nodeId else (fs, true)

def freeFd (fds : Fin 16 → VfsFd) : Option (Fin 16) :=
  (List.finRange 16).find? fun i => (fds i).used == 0

/-- `vfs_open`; no descriptor stands for -1. -/
def vfsOpen (v : Vfs) (session : Int) (path : List UInt8) (flags : UInt32) :
    Except Fault (Vfs × Option (Fin 16)) := do
  match ← openNode v.fs path (v.cwd session) flags with
  | (fs, none) => .ok ({ v with fs }, none)
  | (fs, some nodeId) =>
    match openTruncate fs nodeId flags with
    | (fs, false) => .ok ({ v with fs }, none)
    | (fs, true) =>
      match freeFd v.fds with
      | none => .ok ({ v with fs }, none)
      | some i => .ok ({ v with fs, fds := Function.update v.fds i ⟨1, nodeId, 0, flags⟩ }, some i)

/-- The common check of `vfs_read` and `vfs_write`. -/
def openFd (v : Vfs) (fd : Int) (flag : UInt32) : Option (Fin 16) :=
  if 0 ≤ fd ∧ fd < 16 then
    let i := Fin.ofNat 16 fd.toNat
    if (v.fds i).used = 0 ∨ (v.fds i).flags &&& flag = 0 then none else some i
  else none

def Vfs.advance (v : Vfs) (fs : SimpleFs) (i : Fin 16) (count : UInt32) : Vfs :=
  { v with fs, fds := Function.update v.fds i { v.fds i with offset := (v.fds i).offset + count } }

/-- `vfs_read`; the bytes delivered, as many as are returned. -/
def vfsRead (v : Vfs) (fd : Int) (len : UInt32) : Vfs × List UInt8 :=
  match openFd v fd vfsORead with
  | none => (v, [])
  | some i =>
    match sfsRead v.fs (v.fds i).nodeId (v.fds i).offset len with
    | (fs, none) => ({ v with fs }, [])
    | (fs, some out) => (v.advance fs i (UInt32.ofNat out.length), out)

/-- What `vfs_read` leaves at `out`, also where it returns 0. -/
def vfsReadOut (v : Vfs) (fd : Int) (len : UInt32) : List UInt8 :=
  match openFd v fd vfsORead with
  | none => []
  | some i => sfsReadOut v.fs (v.fds i).nodeId (v.fds i).offset len

def vfsWrite (v : Vfs) (fd : Int) (data : Nat → UInt8) (len : UInt32) : Vfs × UInt32 :=
  match openFd v fd vfsOWrite with
  | none => (v, 0)
  | some i =>
    match sfsWrite v.fs (v.fds i).nodeId (v.fds i).offset data len with
    | (fs, none) => ({ v with fs }, 0)
    | (fs, some count) => (v.advance fs i count, count)

def vfsClose (v : Vfs) (fd : Int) : Vfs :=
  if 0 ≤ fd ∧ fd < 16 then
    let i := Fin.ofNat 16 fd.toNat
    { v with fds := Function.update v.fds i { v.fds i with used := 0 } }
  else v

def vfsMkdir (v : Vfs) (session : Int) (path : List UInt8) : Except Fault (Vfs × Bool) := do
  let (fs, nodeId) ← sfsCreate v.fs path (v.cwd session) sfsTypeDir
    (sfsPermRead ||| sfsPermWrite ||| sfsPermExec)
  .ok ({ v with fs }, nodeId.isSome)

def vfsRemove (v : Vfs) (session : Int) (path : List UInt8) : Except Fault (Vfs × Bool) := do
  let (fs, ok) ← sfsRemove v.fs path (v.cwd session)
  .ok ({ v with fs }, ok)

/-- The `..` case of `vfs_chdir`: the last component goes, and its separators. -/
def cwdParent (cwdPath : List UInt8) : List UInt8 :=
  match cwdPath with
  | [] => []
  | [c] => [c]
  | c :: cs =>
    match (cs.rdropWhile (· == slash)).rdropWhile (· != slash) with
    | [] => [c]
    | ds => c :: ds.dropLast

/-- The relative case of `vfs_chdir`: what does not fit is not appended. -/
def cwdAppend (cwdPath path : List UInt8) : List UInt8 :=
  let base :=
    if cwdPath.length > 1 ∧ cwdPath.getLast? ≠ some slash ∧ cwdPath.length + 1 < vfsCwdPathMax then
      cwdPath ++ [slash]
    else cwdPath
  if base.length + (cString path).length + 1 < vfsCwdPathMax then base ++ cString path else base

/-- The string `vfs_chdir` leaves in `cwd_path`. -/
def cwdAfter (cwdPath path : List UInt8) : List UInt8 :=
  let next :=
    if path.headD 0 = slash then cwdUpdate path
    else if cString path = dot then cwdPath
    else if cString path = dotdot then cwdParent cwdPath
    else cwdAppend cwdPath path
  if next = [] then cwdUpdate [slash] else next

def vfsChdir (v : Vfs) (session : Int) (path : List UInt8) : Except Fault (Vfs × Bool) := do
  match ← sfsResolve v.fs path (v.cwd session) with
  | none => .ok (v, false)
  | some nodeId =>
    match sfsStat v.fs nodeId with
    | none => .ok (v, false)
    | some st =>
      if st.type ≠ sfsTypeDir then .ok (v, false)
      else
        let c := v.ctx (sessionSlot session)
        let c := { c with cwd := nodeId, cwdPath := cwdAfter c.cwdPath path }
        .ok ({ v with ctx := Function.update v.ctx (sessionSlot session) c }, true)

def vfsStatPath (v : Vfs) (session : Int) (path : List UInt8) : Except Fault (Option NodeInfo) := do
  match ← sfsResolve v.fs path (v.cwd session) with
  | none => .ok none
  | some id => .ok (sfsStat v.fs id)

/-- The calls by which sessions change files, directories and descriptors. -/
inductive VfsCall where
  | open (session : Int) (path : List UInt8) (flags : UInt32)
  | read (fd : Int) (len : UInt32)
  | write (fd : Int) (data : Nat → UInt8) (len : UInt32)
  | close (fd : Int)
  | mkdir (session : Int) (path : List UInt8)
  | remove (session : Int) (path : List UInt8)
  | chdir (session : Int) (path : List UInt8)

inductive VfsReply where
  | fd (fd : Option (Fin 16))
  | bytes (out : List UInt8)
  | count (n : UInt32)
  | done (ok : Bool)
  deriving DecidableEq, Repr

def vfsStep (v : Vfs) : VfsCall → Except Fault (Vfs × VfsReply)
  | .open session path flags => do
    let (v, fd) ← vfsOpen v session path flags
    .ok (v, .fd fd)
  | .read fd len =>
    let (v, out) := vfsRead v fd len
    .ok (v, .bytes out)
  | .write fd data len =>
    let (v, n) := vfsWrite v fd data len
    .ok (v, .count n)
  | .close fd => .ok (vfsClose v fd, .done true)
  | .mkdir session path => do
    let (v, ok) ← vfsMkdir v session path
    .ok (v, .done ok)
  | .remove session path => do
    let (v, ok) ← vfsRemove v session path
    .ok (v, .done ok)
  | .chdir session path => do
    let (v, ok) ← vfsChdir v session path
    .ok (v, .done ok)

end VertexOS
