import VertexOS.Core.Completion
import VertexOS.Editor.Drawing
import VertexOS.Editor.FailedSaves
import VertexOS.Editor.Session

namespace VertexOS
open EditorScreen

/-- The lines of the buffer. -/
def EditorState.lines (e : EditorState) : List (List UInt8) :=
  (bytesAt e.buf 0 e.len).splitOn 10

/-- A line as it is to be seen: a tab is four spaces, and so is one what cannot be shown. -/
def shownLine (line : List UInt8) : List UInt8 :=
  line.flatMap fun c => if c = 9 then List.replicate editTabSpaces 32 else [shownChar c]

/-- The cells that a full rendering of the editor has. -/
def fullCell (e : EditorState) (row col : Nat) : UInt8 :=
  if row = 0 then
    if col < 56 then (ascii "edit " ++ e.path ++ if e.dirty then ascii " *" else []).getD col 32
    else (ascii "F2 save  F10 quit  ESC menu").getD (col - 56) 32
  else if row < vgaHeight - 1 then
    match e.lines[e.topLine + (row - 1)]? with
    | some line =>
      let number := (ascii (toString (e.topLine + row))).leftpad 4 32
      (number ++ ascii " | " ++ shownLine line).getD col 32
    | none => 32
  else e.status.getD col 32

/-- The cell that the cursor of the buffer is shown in. -/
def fullCursor (e : EditorState) : Nat × Nat :=
  let before := bytesAt e.buf 0 e.cursor
  (1 + (before.count 10 - e.topLine),
    min (editGutterCols + (shownLine (lastLine before)).length) (vgaWidth - 1))

/-- The screen is the full rendering of the editor. -/
structure ShowsBuffer (e : EditorState) (ts : TerminalState) : Prop where
  cells : ∀ row < vgaHeight, ∀ col < vgaWidth, screenCell ts row col = fullCell e row col
  cursor : (ts.cursorRow, ts.cursorCol) = fullCursor e

/-- `editor_open` up to the first key. -/
def editorOpen (fuel : Nat) (v : Vfs) (session : Int) (e : EditorState) (ts : TerminalState)
    (path : List UInt8) : Except Fault (Option EditorRun) := do
  let e := { e with path := strCopy path editPathMax }
  match ← loadFile fuel v session e e.path with
  | some (v, e) => .ok (some (EditorRun.draw ⟨v, e, ts, .edit⟩ e .edit))
  | none => .ok none

/-- The keys are read one after another. -/
def EditorRun.keys (session : Int) (fuel : Nat) (x : EditorRun) :
    List Int → Except Fault (Option EditorRun)
  | [] => .ok (some x)
  | key :: rest => do
    match ← x.key session fuel key with
    | some x => x.keys session fuel rest
    | none => .ok none

/-- The editor after the keys, from any state of its variables and of the screen. -/
def editorRun (fuel : Nat) (v : Vfs) (session : Int) (e : EditorState) (ts : TerminalState)
    (path : List UInt8) (keys : List Int) : Except Fault (Option EditorRun) := do
  match ← editorOpen fuel v session e ts path with
  | some x => x.keys session fuel keys
  | none => .ok none

/-- The last thing on the screen is what `draw_editor` has drawn. -/
def EditorRun.Drawn (x : EditorRun) : Prop :=
  match x.wait with
  | .edit | .unsaved | .menu => True
  | .saveAs _ _ _ | .closed => False

section Editing

variable {e e' : EditorState} {v v' : Vfs} {session : Int} {path : List UInt8}

theorem status_plain (e : EditorState) {msg : String} (h : ∀ c ∈ ascii msg, PlainChar c) :
    PlainText (e.statusSet msg).status := by
  constructor
  · intro c hc
    exact h c (List.takeWhile_subset _ (List.mem_of_mem_take hc))
  · exact Nat.lt_of_le_of_lt (List.length_take_le _ _) (by decide)

theorem insert_status (h : PlainText e.status) (c : UInt8) :
    PlainText (e.insertAtCursor c).2.status := by
  rw [EditorState.insertAtCursor]
  split
  · exact status_plain e (ascii_plain rfl)
  · exact h

theorem insertSpaces_status (h : PlainText e.status) (n : Nat) :
    PlainText (e.insertSpaces n).status := by
  induction n generalizing e with
  | zero => exact h
  | succ n ih =>
    rw [EditorState.insertSpaces]
    split
    · exact ih (insert_status h 32)
    · exact insert_status h 32

theorem indentLoop_status (h : PlainText e.status) {fuel i : Nat}
    (hrun : EditorState.indentLoop fuel e i = some e') : PlainText e'.status := by
  induction fuel generalizing e i with
  | zero => cases hrun
  | succ fuel ih =>
    rw [EditorState.indentLoop] at hrun
    dsimp only at hrun
    split at hrun
    · split at hrun
      · split at hrun
        · exact ih (insert_status h 32) hrun
        · cases hrun
          exact insert_status h 32
      · split at hrun
        · exact ih (insertSpaces_status h _) hrun
        · cases hrun
          exact h
    · cases hrun
      exact h

theorem newline_status (h : PlainText e.status) {fuel : Nat}
    (hrun : e.insertNewlineWithIndent fuel = some e') : PlainText e'.status := by
  rw [EditorState.insertNewlineWithIndent] at hrun
  split at hrun
  · exact indentLoop_status (insert_status h 10) hrun
  · cases hrun
    exact insert_status h 10

theorem keepColumn_status (e : EditorState) : e.keepColumn.status = e.status := by
  rw [EditorState.keepColumn]
  split
  · rfl
  · rfl

theorem moveUp_status (e : EditorState) : e.moveUp.status = e.status := by
  simp only [EditorState.moveUp]
  split
  · exact keepColumn_status e
  · exact keepColumn_status e

theorem moveDown_status (e : EditorState) : e.moveDown.status = e.status := by
  simp only [EditorState.moveDown]
  split
  · exact keepColumn_status e
  · exact keepColumn_status e

theorem deleteForward_status (e : EditorState) : e.deleteForward.status = e.status := by
  rw [EditorState.deleteForward]
  split
  · rfl
  · rfl

theorem deleteBackspace_status (e : EditorState) : e.deleteBackspace.status = e.status := by
  rw [EditorState.deleteBackspace]
  split
  · rfl
  · rfl

theorem editKey_status (h : PlainText e.status) {fuel : Nat} {key : Int}
    (hrun : e.editKey fuel key = some e') : PlainText e'.status := by
  have hsame : ∀ {e₁ : EditorState}, e₁.status = e.status → PlainText e₁.dropColumn.status := by
    intro e₁ he
    rw [EditorState.dropColumn, he]
    exact h
  simp only [EditorState.editKey] at hrun
  split at hrun
  · cases hrun
    exact hsame (by split <;> rfl)
  split at hrun
  · cases hrun
    exact hsame (by split <;> rfl)
  split at hrun
  · cases hrun
    rw [moveUp_status]
    exact h
  split at hrun
  · cases hrun
    rw [moveDown_status]
    exact h
  split at hrun
  · cases hrun
    exact hsame (deleteForward_status e)
  split at hrun
  · cases hrun
    exact hsame (deleteBackspace_status e)
  split at hrun
  · cases hrun
    exact insertSpaces_status h _
  split at hrun
  · obtain ⟨e₁, hnew, rfl⟩ := Option.map_eq_some_iff.mp hrun
    have hplain := newline_status h hnew
    exact hplain
  split at hrun
  · cases hrun
    exact insert_status h _
  · cases hrun
    exact h

theorem save_status {ok : Bool} (h : saveToPath v session e path = .ok (v', e', ok)) :
    PlainText e'.status := by
  rw [saveToPath] at h
  obtain ⟨r, -, h⟩ := bind_ok h
  split at h
  · cases h
    exact status_plain e (ascii_plain rfl)
  · dsimp only at h
    split at h
    · cases h
      exact status_plain e (ascii_plain rfl)
    · cases h
      exact status_plain { e with dirty := false } (ascii_plain rfl)

theorem appendRead_firstDraw (bytes : List UInt8) (e : EditorState) :
    (e.appendRead bytes).1.firstDraw = e.firstDraw := by
  induction bytes generalizing e with
  | nil => rfl
  | cons c bytes ih =>
    rw [EditorState.appendRead]
    split
    · rfl
    · exact ih _

theorem loadLoop_loaded {fd : Int} {fuel : Nat}
    (h : loadLoop fd fuel v e = some (v', e')) :
    e'.firstDraw = e.firstDraw ∧ PlainText e'.status := by
  induction fuel generalizing v e with
  | zero => cases h
  | succ fuel ih =>
    rw [loadLoop] at h
    dsimp only at h
    split at h
    · cases h
      exact ⟨rfl, status_plain e.terminate (ascii_plain rfl)⟩
    · have hfirst := appendRead_firstDraw (vfsRead v fd 256).2 e
      split at h
      · next e₁ happ =>
        rw [happ] at hfirst
        obtain ⟨hdraw, hstatus⟩ := ih h
        exact ⟨hdraw.trans hfirst, hstatus⟩
      · next e₁ happ =>
        rw [happ] at hfirst
        cases h
        exact ⟨hfirst, status_plain e₁.terminate (ascii_plain rfl)⟩

/-- A loaded file is drawn in full. -/
theorem loadFile_loaded {fuel : Nat}
    (h : loadFile fuel v session e path = .ok (some (v', e'))) :
    e'.firstDraw = true ∧ PlainText e'.status := by
  rw [loadFile] at h
  obtain ⟨st, -, h⟩ := bind_ok h
  split at h
  · cases h
    exact ⟨rfl, status_plain e.clear (ascii_plain rfl)⟩
  · split at h
    · cases h
      exact ⟨rfl, status_plain e.clear (ascii_plain rfl)⟩
    · obtain ⟨r, -, h⟩ := bind_ok h
      split at h
      · cases h
        exact ⟨rfl, status_plain e.clear (ascii_plain rfl)⟩
      · exact loadLoop_loaded (Except.ok.inj h)

end Editing

/-- What is typed in `prompt_path` stays in its row. -/
structure PlainInput (input : Buf) (len cursor : Nat) : Prop where
  plain : ∀ i < len, PlainChar (input i)
  ended : input len = 0
  cursor : cursor ≤ len
  room : len < editPathMax

/-- Between two keys the screen above the status has no more than digits and blanks in its first
column. -/
def EditorRun.Clean (x : EditorRun) : Prop :=
  match x.wait with
  | .closed => True
  | .saveAs input len cursor =>
    GutterClean x.screen ∧ PlainText x.editor.status ∧ PlainInput input len cursor
  | _ => GutterClean x.screen ∧ PlainText x.editor.status

section Prompt

variable {input : Buf} {len cursor : Nat}

theorem PlainInput.empty : PlainInput (fun _ => 0) 0 0 :=
  ⟨fun i hi => absurd hi (Nat.not_lt_zero i), rfl, Nat.le_refl 0, by decide⟩

theorem PlainInput.text (h : PlainInput input len cursor) :
    (∀ c ∈ textIn input editPathMax, PlainChar c) ∧ (textIn input editPathMax).length ≤ len := by
  have hchars : ∀ c ∈ bytesAt input 0 len, PlainChar c := by
    intro c hc
    simp only [bytesAt, Nat.zero_add, List.mem_map, List.mem_range] at hc
    obtain ⟨i, hi, rfl⟩ := hc
    exact h.plain i hi
  have hzero : 0 ∉ bytesAt input 0 len := fun h0 => absurd (hchars 0 h0) (by decide)
  obtain ⟨k, hk⟩ := Nat.exists_eq_add_of_lt h.room
  have htext : textIn input editPathMax = bytesAt input 0 len := by
    rw [hk, Nat.add_assoc, textIn_append input len (k + 1) hzero, textIn_succ,
      Nat.add_zero, if_pos h.ended, List.append_nil]
  rw [htext, bytesAt_length]
  exact ⟨hchars, Nat.le_refl len⟩

theorem PlainInput.move (h : PlainInput input len cursor) {cursor' : Nat} (hc : cursor' ≤ len) :
    PlainInput input len cursor' := ⟨h.plain, h.ended, hc, h.room⟩

theorem PlainInput.shorter (h : PlainInput input len cursor) {i cursor' : Nat} (hi : i < len)
    (hc : cursor' ≤ len - 1) :
    PlainInput (Function.update (closeGap input i (len - 1 - i)) (len - 1) 0) (len - 1)
      cursor' where
  plain j hj := by
    rw [Function.update_of_ne (by omega), closeGap_apply]
    split
    · exact h.plain (j + 1) (by omega)
    · exact h.plain j (by omega)
  ended := Function.update_self ..
  cursor := hc
  room := Nat.lt_of_le_of_lt (Nat.sub_le len 1) h.room

theorem PlainInput.typed (h : PlainInput input len cursor) {c : UInt8} (hp : PlainChar c)
    (hroom : len + 1 < editPathMax) :
    PlainInput (Function.update (Function.update (openGap input cursor (len - cursor)) cursor c)
      (len + 1) 0) (len + 1) (cursor + 1) where
  plain j hj := by
    rw [Function.update_of_ne (by omega)]
    by_cases hat : j = cursor
    · rw [hat, Function.update_self]
      exact hp
    · rw [Function.update_of_ne hat, openGap_apply]
      have hcursor := h.cursor
      split
      · exact h.plain (j - 1) (by omega)
      · exact h.plain j (by omega)
  ended := Function.update_self ..
  cursor := Nat.succ_le_succ h.cursor
  room := hroom

end Prompt

section Run

variable {x y : EditorRun} {e : EditorState} {session : Int} {fuel : Nat} {key : Int}

theorem typed_plain (hlow : 32 ≤ key) (hhigh : key ≤ 126) : PlainChar (UInt8.ofNat key.toNat) := by
  have hnat : (UInt8.ofNat key.toNat).toNat = key.toNat := by
    rw [UInt8.toNat_ofNat', Nat.mod_eq_of_lt (by omega)]
  constructor
  · rw [UInt8.le_iff_toNat_le, hnat]
    change 32 ≤ key.toNat
    omega
  · rw [UInt8.le_iff_toNat_le, hnat]
    change key.toNat ≤ 126
    omega

theorem draw_clean (hs : PlainText e.status) (h : e.firstDraw = true ∨ GutterClean x.screen)
    {wait : EditorWait} (hw : wait = .edit ∨ wait = .unsaved ∨ wait = .menu) :
    (x.draw e wait).Clean := by
  have hstatus : PlainText (drawEditor e x.screen).1.status := by
    rw [← (ensureVisible_kept e).2] at hs
    exact hs
  have hclean := drawEditor_clean hs h
  rcases hw with rfl | rfl | rfl
  · exact ⟨hclean, hstatus⟩
  · exact ⟨hclean, hstatus⟩
  · exact ⟨hclean, hstatus⟩

theorem prompt_clean (h : GutterClean x.screen) (hs : PlainText x.editor.status) {input : Buf}
    {len cursor : Nat} (hin : PlainInput input len cursor) : (x.prompt input len cursor).Clean := by
  obtain ⟨hplain, hlength⟩ := hin.text
  have hroom := hin.room
  have hcursor := hin.cursor
  have hwidth : editPathMax + 9 < vgaWidth := by decide
  have hlabel := @GutterClean.writeLast _ (ascii "save as: ") h.content.scrolled 0 vgaWidth
    (by decide) (ascii_plain rfl)
  have hframe := @GutterClean.writeLast _ (textIn input editPathMax) hlabel 9 (vgaWidth - 9)
    (by omega) hplain
  exact ⟨hframe.setCursor (by decide) (by omega), hs, hin⟩

theorem keyInLoop_clean (h : GutterClean x.screen) (hs : PlainText x.editor.status)
    (hrun : x.keyInLoop session fuel key = .ok (some y)) : y.Clean := by
  rw [EditorRun.keyInLoop] at hrun
  split at hrun
  · obtain ⟨r, hsave, hrun⟩ := bind_ok hrun
    cases hrun
    exact draw_clean (save_status hsave) (.inr h) (.inl rfl)
  split at hrun
  · split at hrun
    · cases hrun
      exact draw_clean (status_plain _ (ascii_plain rfl)) (.inr h) (.inr (.inl rfl))
    · cases hrun
      trivial
  split at hrun
  · cases hrun
    exact draw_clean (status_plain _ (ascii_plain rfl)) (.inr h) (.inr (.inr rfl))
  · obtain ⟨e, hedit, rfl⟩ := Option.map_eq_some_iff.mp (Except.ok.inj hrun)
    exact draw_clean (editKey_status hs hedit) (.inr h) (.inl rfl)

theorem keyUnsaved_clean (h : GutterClean x.screen)
    (hrun : x.keyUnsaved session key = .ok y) : y.Clean := by
  rw [EditorRun.keyUnsaved] at hrun
  split at hrun
  · cases hrun
    trivial
  split at hrun
  · obtain ⟨r, -, hrun⟩ := bind_ok hrun
    dsimp only at hrun
    split at hrun
    · cases hrun
      trivial
    · cases hrun
      exact draw_clean (status_plain _ (ascii_plain rfl)) (.inr h) (.inl rfl)
  · cases hrun
    exact draw_clean (status_plain _ (ascii_plain rfl)) (.inr h) (.inl rfl)

theorem keyInMenu_clean (h : GutterClean x.screen) (hs : PlainText x.editor.status)
    (hrun : x.keyInMenu session key = .ok y) : y.Clean := by
  rw [EditorRun.keyInMenu] at hrun
  split at hrun
  · obtain ⟨r, hsave, hrun⟩ := bind_ok hrun
    cases hrun
    exact draw_clean (save_status hsave) (.inr h) (.inl rfl)
  split at hrun
  · cases hrun
    exact prompt_clean h hs .empty
  split at hrun
  · split at hrun
    · cases hrun
      exact draw_clean (status_plain _ (ascii_plain rfl)) (.inr h) (.inl rfl)
    · cases hrun
      trivial
  · cases hrun
    exact draw_clean (status_plain _ (ascii_plain rfl)) (.inr h) (.inl rfl)

theorem keyInPrompt_clean (h : GutterClean x.screen) (hs : PlainText x.editor.status)
    {input : Buf} {len cursor : Nat} (hin : PlainInput input len cursor)
    (hrun : x.keyInPrompt session input len cursor key = .ok y) : y.Clean := by
  have hcursor := hin.cursor
  rw [EditorRun.keyInPrompt] at hrun
  split at hrun
  · cases hrun
    exact draw_clean (status_plain _ (ascii_plain rfl)) (.inr h) (.inl rfl)
  split at hrun
  · split at hrun
    · cases hrun
      exact draw_clean (status_plain _ (ascii_plain rfl)) (.inr h) (.inl rfl)
    · obtain ⟨r, hsave, hrun⟩ := bind_ok hrun
      dsimp only at hrun
      split at hrun
      · cases hrun
        exact draw_clean (status_plain _ (ascii_plain rfl)) (.inr h) (.inl rfl)
      · cases hrun
        exact draw_clean (save_status hsave) (.inr h) (.inl rfl)
  split at hrun
  · cases hrun
    exact prompt_clean h hs (hin.move (by split <;> omega))
  split at hrun
  · cases hrun
    exact prompt_clean h hs (hin.move (by split <;> omega))
  split at hrun
  · split at hrun
    · next hlt =>
      cases hrun
      exact prompt_clean h hs (hin.shorter hlt (by omega))
    · cases hrun
      exact prompt_clean h hs hin
  split at hrun
  · split at hrun
    · next hpos =>
      cases hrun
      have hgap : len - cursor = len - 1 - (cursor - 1) := by omega
      rw [hgap]
      exact prompt_clean h hs (hin.shorter (by omega) (by omega))
    · cases hrun
      exact prompt_clean h hs hin
  split at hrun
  · next hkey =>
    cases hrun
    exact prompt_clean h hs (hin.typed (typed_plain hkey.1 hkey.2.1) hkey.2.2)
  · cases hrun
    exact prompt_clean h hs hin

theorem EditorRun.Clean.next (h : x.Clean) (hrun : x.key session fuel key = .ok (some y)) :
    y.Clean := by
  have hmap : ∀ {r : Except Fault EditorRun}, r.map some = .ok (some y) → r = .ok y := by
    intro r hr
    cases r with
    | error fault => cases hr
    | ok z => cases hr; rfl
  rw [EditorRun.key] at hrun
  rw [EditorRun.Clean] at h
  split at hrun
  · next hw =>
    rw [hw] at h
    exact keyInLoop_clean h.1 h.2 hrun
  · next hw =>
    rw [hw] at h
    exact keyUnsaved_clean h.1 (hmap hrun)
  · next hw =>
    rw [hw] at h
    exact keyInMenu_clean h.1 h.2 (hmap hrun)
  · next hw =>
    rw [hw] at h
    exact keyInPrompt_clean h.1 h.2.1 h.2.2 (hmap hrun)
  · next hw =>
    cases hrun
    rw [EditorRun.Clean, hw]
    trivial

theorem EditorRun.Clean.keys (h : x.Clean) {keys : List Int}
    (hrun : x.keys session fuel keys = .ok (some y)) : y.Clean := by
  induction keys generalizing x with
  | nil =>
    cases hrun
    exact h
  | cons key keys ih =>
    obtain ⟨r, hkey, hrun⟩ := bind_ok hrun
    cases r with
    | none => cases hrun
    | some z => exact ih (h.next hkey) hrun

theorem editorRun_clean {v : Vfs} {ts : TerminalState} {path : List UInt8} {keys : List Int}
    (h : editorRun fuel v session e ts path keys = .ok (some x)) : x.Clean := by
  obtain ⟨r, hopen, h⟩ := bind_ok h
  obtain ⟨loaded, hload, hopen⟩ := bind_ok hopen
  cases loaded with
  | none =>
    cases hopen
    cases h
  | some l =>
    cases hopen
    obtain ⟨hfirst, hstatus⟩ := loadFile_loaded hload
    exact EditorRun.Clean.keys (draw_clean hstatus (.inl hfirst) (.inl rfl)) h

/-- What `draw_editor` has drawn has no header. -/
theorem EditorRun.Drawn.gutter (hd : x.Drawn) (h : x.Clean) : GutterClean x.screen := by
  rw [EditorRun.Drawn] at hd
  rw [EditorRun.Clean] at h
  split at hd
  · next hw =>
    rw [hw] at h
    exact h.1
  · next hw =>
    rw [hw] at h
    exact h.1
  · next hw =>
    rw [hw] at h
    exact h.1
  · exact hd.elim
  · exact hd.elim

theorem header_cell (e : EditorState) : fullCell e 0 0 = 101 := by
  have hedit : ascii "edit " = [101, 100, 105, 116, 32] := by decide +kernel
  simp [fullCell, hedit]

theorem GutterClean.not_shows {ts : TerminalState} (h : GutterClean ts) : ¬ShowsBuffer e ts := by
  intro hs
  have hgutter := h 0 (by decide)
  rw [hs.cells 0 (by decide) 0 (by decide), header_cell] at hgutter
  rcases hgutter with h0 | hdigit
  · exact absurd h0 (by decide)
  · exact absurd hdigit (by decide)

end Run

/-- The screen is never the full rendering of the editor, whatever keys have been read. -/
theorem editor_never_shows (fuel : Nat) (v : Vfs) (session : Int) (e : EditorState)
    (ts : TerminalState) (path : List UInt8) (keys : List Int) (x : EditorRun)
    (h : editorRun fuel v session e ts path keys = .ok (some x)) (hd : x.Drawn) :
    ¬ShowsBuffer x.editor x.screen :=
  (hd.gutter (editorRun_clean h)).not_shows

section Runs

theorem other_loads (fuel : Nat) (e : EditorState) : loadFile fuel letterVfs 0 e [98] =
    .ok (some (letterVfs, e.clear.statusSet "new file")) := by
  have hstat : vfsStatPath letterVfs 0 [98] = .ok none := by
    have hres : sfsResolve letterVfs.fs [98] (letterVfs.cwd 0) = .ok none := by decide +kernel
    rw [vfsStatPath, hres]
    rfl
  rw [loadFile, hstat]
  rfl

/-- The editor on a file that does not exist. -/
theorem other_opens (fuel : Nat) (e : EditorState) :
    ∃ x, editorOpen fuel letterVfs 0 e .zero [98] = .ok (some x) ∧ x.wait = .edit := by
  have hpath : strCopy [98] editPathMax = [98] := by decide
  rw [editorOpen, hpath]
  dsimp only
  rw [other_loads]
  exact ⟨_, rfl, rfl⟩

theorem left_moves {x : EditorRun} (hw : x.wait = .edit) :
    ∃ y, x.keys 0 1 [keyLeft] = .ok (some y) ∧ y.wait = .edit := by
  have hkey : x.key 0 1 keyLeft =
      .ok ((x.editor.editKey 1 keyLeft).map fun e => x.draw e .edit) := by
    rw [EditorRun.key, hw]
    rfl
  rw [EditorRun.keys, hkey]
  exact ⟨_, rfl, rfl⟩

end Runs

/-- The first screen of a new file has no header. -/
theorem editor_header_gone : ∃ x, editorRun 1 letterVfs 0 (editorOn []) .zero [98] [] =
    .ok (some x) ∧ x.Drawn ∧ ¬ShowsBuffer x.editor x.screen := by
  obtain ⟨x, hopen, hw⟩ := other_opens 1 (editorOn [])
  have hrun : editorRun 1 letterVfs 0 (editorOn []) .zero [98] [] = .ok (some x) := by
    rw [editorRun, hopen]
    rfl
  have hd : x.Drawn := by
    rw [EditorRun.Drawn, hw]
    trivial
  exact ⟨x, hrun, hd, (hd.gutter (editorRun_clean hrun)).not_shows⟩

/-- Nor has the one after a key. -/
theorem editor_never_shows_left : ∃ x, editorRun 1 letterVfs 0 (editorOn []) .zero [98] [keyLeft] =
    .ok (some x) ∧ ¬ShowsBuffer x.editor x.screen := by
  obtain ⟨x, hopen, hw⟩ := other_opens 1 (editorOn [])
  obtain ⟨y, hkeys, hwait⟩ := left_moves hw
  have hrun : editorRun 1 letterVfs 0 (editorOn []) .zero [98] [keyLeft] = .ok (some y) := by
    rw [editorRun, hopen]
    exact hkeys
  have hd : y.Drawn := by
    rw [EditorRun.Drawn, hwait]
    trivial
  exact ⟨y, hrun, editor_never_shows 1 letterVfs 0 (editorOn []) .zero [98] [keyLeft] y hrun hd⟩

end VertexOS
