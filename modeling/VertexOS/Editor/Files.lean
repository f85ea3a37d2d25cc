import VertexOS.Core.Commands
import VertexOS.Editor.Buffer

namespace VertexOS

/-- `save_to_path`: the editor, and whether 1 is returned. -/
def saveToPath (v : Vfs) (session : Int) (e : EditorState) (path : List UInt8) :
    Except Fault (Vfs × EditorState × Bool) := do
  match ← vfsOpen v session path copyFlags with
  | (v, none) => .ok (v, e.statusSet "save failed: open error", false)
  | (v, some fd) =>
    match vfsWrite v fd.val e.buf (UInt32.ofNat e.len) with
    | (v, written) =>
      let v := vfsClose v fd.val
      if written ≠ UInt32.ofNat e.len then
        .ok (v, e.statusSet "save failed: short write", false)
      else .ok (v, { e with dirty := false }.statusSet "saved", true)

namespace EditorState

/-- The editor as `load_file` clears it. -/
def clear (e : EditorState) : EditorState :=
  { e with
    len := 0
    cursor := 0
    topLine := 0
    preferredCol := 0
    keepPreferredCol := false
    dirty := false
    buf := Function.update e.buf 0 0
    firstDraw := true
    prevCursorLine := 0
    prevTopLine := 0
    prevTotalLines := 0 }

def terminate (e : EditorState) : EditorState := { e with buf := Function.update e.buf e.len 0 }

/-- The bytes of one read are appended; what does not fit ends the loading. -/
def appendRead (e : EditorState) : List UInt8 → EditorState × Bool
  | [] => (e, true)
  | c :: cs =>
    if e.len ≥ editMaxBytes then (e, false)
    else appendRead { e with buf := Function.update e.buf e.len c, len := e.len + 1 } cs

end EditorState

/-- The loop of `load_file` and what follows it, if the fuel lasts. -/
def loadLoop (fd : Int) : Nat → Vfs → EditorState → Option (Vfs × EditorState)
  | 0, _, _ => none
  | fuel + 1, v, e =>
    match vfsRead v fd 256 with
    | (v, tmp) =>
      if tmp.length = 0 then some (vfsClose v fd, e.terminate.statusSet "loaded")
      else
        match e.appendRead tmp with
        | (e, true) => loadLoop fd fuel v e
        | (e, false) =>
          some (vfsClose v fd, e.terminate.statusSet "loaded (truncated to 8 KiB)")

/-- `load_file`; nothing if the fuel runs out. -/
def loadFile (fuel : Nat) (v : Vfs) (session : Int) (e : EditorState) (path : List UInt8) :
    Except Fault (Option (Vfs × EditorState)) := do
  let e := e.clear
  match ← vfsStatPath v session path with
  | none => .ok (some (v, e.statusSet "new file"))
  | some st =>
    if st.type ≠ sfsTypeFile then .ok (some (v, e.statusSet "open failed: not a file"))
    else
      match ← vfsOpen v session path vfsORead with
      | (v, none) => .ok (some (v, e.statusSet "open failed"))
      | (v, some fd) => .ok (loadLoop fd.val fuel v e)

end VertexOS
