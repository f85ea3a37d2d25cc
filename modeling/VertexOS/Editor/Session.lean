import VertexOS.Drivers.Keyboard
import VertexOS.Editor.Files
import VertexOS.Editor.Screen

namespace VertexOS

namespace EditorState

def deleteBackspace (e : EditorState) : EditorState :=
  if e.cursor = 0 ∨ e.len = 0 then e
  else
    { e with
      buf := Function.update (closeGap e.buf (e.cursor - 1) (e.len - e.cursor)) (e.len - 1) 0
      cursor := e.cursor - 1
      len := e.len - 1
      dirty := true }

def deleteForward (e : EditorState) : EditorState :=
  if e.cursor ≥ e.len ∨ e.len = 0 then e
  else
    { e with
      buf := Function.update (closeGap e.buf e.cursor (e.len - 1 - e.cursor)) (e.len - 1) 0
      len := e.len - 1
      dirty := true }

/-- The preferred column of a movement up or down. -/
def keepColumn (e : EditorState) : EditorState :=
  if e.keepPreferredCol then e
  else
    { e with
      preferredCol := (e.lineColForPos e.cursor).2
      keepPreferredCol := true }

def moveUp (e : EditorState) : EditorState :=
  let line := (e.lineColForPos e.cursor).1
  let e := e.keepColumn
  if line > 0 then { e with cursor := e.posForLineCol (line - 1) e.preferredCol } else e

def moveDown (e : EditorState) : EditorState :=
  let line := (e.lineColForPos e.cursor).1
  let e := e.keepColumn
  if line + 1 < e.totalLines then
    { e with cursor := e.posForLineCol (line + 1) e.preferredCol }
  else e

/-- `keep_preferred_col = 0`. -/
def dropColumn (e : EditorState) : EditorState := { e with keepPreferredCol := false }

/-- What `editor_open` does for a key that moves the cursor or changes the text. -/
def editKey (fuel : Nat) (e : EditorState) (key : Int) : Option EditorState :=
  if key = keyLeft then
    some (if e.cursor > 0 then { e with cursor := e.cursor - 1 } else e).dropColumn
  else if key = keyRight then
    some (if e.cursor < e.len then { e with cursor := e.cursor + 1 } else e).dropColumn
  else if key = keyUp then some e.moveUp
  else if key = keyDown then some e.moveDown
  else if key = keyDelete then some e.deleteForward.dropColumn
  else if key = 8 then some e.deleteBackspace.dropColumn
  else if key = 9 then some (e.insertSpaces editTabSpaces).dropColumn
  else if key = 10 then (e.insertNewlineWithIndent fuel).map dropColumn
  else if 32 ≤ key ∧ key ≤ 126 then some (e.insertAtCursor (UInt8.ofNat key.toNat)).2.dropColumn
  else some e

end EditorState

/-- Where the editor waits for a key: in its loop, after the question of F10, in the menu, in
`prompt_path` with its variables, or no more. -/
inductive EditorWait where
  | edit
  | unsaved
  | menu
  | saveAs (input : Buf) (len cursor : Nat)
  | closed

/-- What `editor_open` has written on the screen ahead of the key it waits for. -/
structure EditorRun where
  vfs : Vfs
  editor : EditorState
  screen : TerminalState
  wait : EditorWait

namespace EditorRun
open EditorScreen

def draw (x : EditorRun) (e : EditorState) (wait : EditorWait) : EditorRun :=
  let r := drawEditor e x.screen
  { x with editor := r.1, screen := r.2, wait }

/-- `display_clear` and the message. -/
def close (x : EditorRun) (e : EditorState) (msg : String) : EditorRun :=
  let ts := TerminalState.clampCursor vgaHeight vgaWidth
    (TerminalState.displayClear vgaHeight vgaWidth x.screen)
  { x with
    editor := e
    screen := TerminalState.displayPrint vgaHeight vgaWidth false ts (ascii msg)
    wait := .closed }

/-- The frame of `prompt_path`. -/
def prompt (x : EditorRun) (input : Buf) (len cursor : Nat) : EditorRun :=
  let ts := rowClear x.screen (vgaHeight - 1)
  let ts := rowWriteText ts (vgaHeight - 1) 0 (ascii "save as: ") vgaWidth
  let ts := rowWriteText ts (vgaHeight - 1) 9 (textIn input editPathMax) (vgaWidth - 9)
  { x with
    screen := setCursor ts (vgaHeight - 1) (9 + cursor)
    wait := .saveAs input len cursor }

variable (session : Int)

/-- A key in the loop of `editor_open`. -/
def keyInLoop (fuel : Nat) (x : EditorRun) (key : Int) : Except Fault (Option EditorRun) := do
  if key = keyF2 then
    let (v, e, _) ← saveToPath x.vfs session x.editor x.editor.path
    return some ({ x with vfs := v }.draw e .edit)
  else if key = keyF10 then
    if x.editor.dirty then
      return some (x.draw (x.editor.statusSet "unsaved: F10 discard, F2 save+quit, ESC cancel")
        .unsaved)
    else return some (x.close x.editor "editor closed\n")
  else if key = 27 then
    return some (x.draw (x.editor.statusSet "menu: s save, a save-as, q quit, c continue") .menu)
  else return (x.editor.editKey fuel key).map fun e => x.draw e .edit

/-- The answer to the question of F10. -/
def keyUnsaved (x : EditorRun) (key : Int) : Except Fault EditorRun := do
  if key = keyF10 then return x.close x.editor "editor closed (discarded)\n"
  else if key = keyF2 then
    let (v, e, ok) ← saveToPath x.vfs session x.editor x.editor.path
    let x := { x with vfs := v }
    if ok then return x.close e "editor closed (saved)\n"
    else return x.draw (e.statusSet "quit canceled") .edit
  else return x.draw (x.editor.statusSet "quit canceled") .edit

/-- The choice from the menu. -/
def keyInMenu (x : EditorRun) (key : Int) : Except Fault EditorRun := do
  if key = 115 then
    let (v, e, _) ← saveToPath x.vfs session x.editor x.editor.path
    return { x with vfs := v }.draw e .edit
  else if key = 97 then return x.prompt (fun _ => 0) 0 0
  else if key = 113 then
    if x.editor.dirty then
      return x.draw (x.editor.statusSet "use F10 quit flow for unsaved buffer") .edit
    else return x.close x.editor "editor closed\n"
  else return x.draw (x.editor.statusSet "continue editing") .edit

/-- A key in `prompt_path`, and what `editor_open` does with the path it returns. -/
def keyInPrompt (x : EditorRun) (input : Buf) (len cursor : Nat) (key : Int) :
    Except Fault EditorRun := do
  if key = 27 then return x.draw (x.editor.statusSet "save as canceled") .edit
  else if key = 10 then
    if len = 0 then return x.draw (x.editor.statusSet "save as: path required") .edit
    else
      let path := strCopy (textIn input editPathMax) editPathMax
      let (v, e, ok) ← saveToPath x.vfs session x.editor path
      let x := { x with vfs := v }
      if ok then return x.draw ({ e with path }.statusSet "saved as new path") .edit
      else return x.draw e .edit
  else if key = keyLeft then
    return x.prompt input len (if cursor > 0 then cursor - 1 else cursor)
  else if key = keyRight then
    return x.prompt input len (if cursor < len then cursor + 1 else cursor)
  else if key = keyDelete then
    if cursor < len then
      return x.prompt (Function.update (closeGap input cursor (len - 1 - cursor)) (len - 1) 0)
        (len - 1) cursor
    else return x.prompt input len cursor
  else if key = 8 then
    if cursor > 0 then
      return x.prompt (Function.update (closeGap input (cursor - 1) (len - cursor)) (len - 1) 0)
        (len - 1) (cursor - 1)
    else return x.prompt input len cursor
  else if 32 ≤ key ∧ key ≤ 126 ∧ len + 1 < editPathMax then
    return x.prompt (Function.update (Function.update (openGap input cursor (len - cursor)) cursor
      (UInt8.ofNat key.toNat)) (len + 1) 0) (len + 1) (cursor + 1)
  else return x.prompt input len cursor

/-- The editor up to where it waits for the next key. -/
def key (fuel : Nat) (x : EditorRun) (key : Int) : Except Fault (Option EditorRun) :=
  match x.wait with
  | .edit => x.keyInLoop session fuel key
  | .unsaved => (x.keyUnsaved session key).map some
  | .menu => (x.keyInMenu session key).map some
  | .saveAs input len cursor => (x.keyInPrompt session input len cursor key).map some
  | .closed => .ok (some x)

end EditorRun
end VertexOS
