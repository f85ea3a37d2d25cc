import VertexOS.Vfs.Effects

namespace VertexOS

/-- One turn of the loop of `copy_file`; a turn that ends the loop says what
`copy_file` returns. -/
def copyTurn (inFd outFd : Int) (v : Vfs) : Vfs × Option Bool :=
  match vfsRead v inFd 128 with
  | (v, buf) =>
    let n := UInt32.ofNat buf.length
    if n = 0 then (v, some true)
    else
      match vfsWrite v outFd (fun k => buf.getD k 0) n with
      | (v, written) => (v, if written ≠ n then some false else none)

/-- The loop of `copy_file`, if the fuel lasts. -/
def copyFileLoop (inFd outFd : Int) : Nat → Vfs → Option (Vfs × Bool)
  | 0, _ => none
  | fuel + 1, v =>
    match copyTurn inFd outFd v with
    | (v, some ok) => some (v, ok)
    | (v, none) => copyFileLoop inFd outFd fuel v

/-- How `copy_file` opens its destination. -/
def copyFlags : UInt32 := vfsOWrite ||| vfsOCreate ||| vfsOTrunc

/-- `copy_file`; nothing if the fuel runs out. -/
def copyFile (fuel : Nat) (v : Vfs) (session : Int) (src dst : List UInt8) :
    Except Fault (Option (Vfs × Bool)) := do
  match ← vfsOpen v session src vfsORead with
  | (v, none) => .ok (some (v, false))
  | (v, some inFd) =>
    match ← vfsOpen v session dst copyFlags with
    | (v, none) => .ok (some (vfsClose v inFd.val, false))
    | (v, some outFd) =>
      .ok ((copyFileLoop inFd.val outFd.val fuel v).map fun (v, ok) =>
        (vfsClose (vfsClose v inFd.val) outFd.val, ok))

/-- `cmd_cp` on the arguments it has read, and the text it prints. -/
def cmdCp (fuel : Nat) (v : Vfs) (session : Int) (src dst : List UInt8) :
    Except Fault (Option (Vfs × String)) := do
  if src.headD 0 = 0 ∨ dst.headD 0 = 0 then .ok (some (v, "Usage: cp <src> <dst>\n"))
  else
    match ← copyFile fuel v session src dst with
    | none => .ok none
    | some (v, false) => .ok (some (v, "cp failed\n"))
    | some (v, true) => .ok (some (v, ""))

/-- `cmd_mv` on the arguments it has read, and the text it prints. -/
def cmdMv (fuel : Nat) (v : Vfs) (session : Int) (src dst : List UInt8) :
    Except Fault (Option (Vfs × String)) := do
  if src.headD 0 = 0 ∨ dst.headD 0 = 0 then .ok (some (v, "Usage: mv <src> <dst>\n"))
  else
    match ← copyFile fuel v session src dst with
    | none => .ok none
    | some (v, false) => .ok (some (v, "mv failed\n"))
    | some (v, true) =>
      match ← vfsRemove v session src with
      | (v, false) => .ok (some (v, "mv warning: remove source failed\n"))
      | (v, true) => .ok (some (v, ""))

end VertexOS
