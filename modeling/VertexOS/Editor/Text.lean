import VertexOS.Editor.ScreenRuns

namespace VertexOS

/-- `g_ed` in zeroed memory. -/
def EditorState.zero : EditorState := ⟨[], fun _ => 0, 0, 0, 0, 0, false, false, [], false, 0, 0, 0⟩

/-- What a task does to the editor's variables between two waits. All tasks share them: whatever
an editor waits for, another task may have changed them since. -/
inductive EditorStep : EditorState → EditorState → Prop
  | opened {fuel : Nat} {v : Vfs} {session : Int} {e : EditorState} {ts : TerminalState}
      {path : List UInt8} {x : EditorRun}
      (h : editorOpen fuel v session e ts path = .ok (some x)) : EditorStep e x.editor
  | key {session : Int} {fuel : Nat} {x y : EditorRun} {key : Int}
      (h : x.key session fuel key = .ok (some y)) : EditorStep x.editor y.editor

/-- The variables whenever all editors wait, after any files, keys and interleavings. -/
def EditorReached (e : EditorState) : Prop := Relation.ReflTransGen EditorStep .zero e

namespace EditorState

/-- The text in front of the cursor, and behind it. -/
def before (e : EditorState) : List UInt8 := bytesAt e.buf 0 e.cursor
def after (e : EditorState) : List UInt8 := bytesAt e.buf e.cursor (e.len - e.cursor)

/-- The bounds and the terminator. -/
structure Sound (e : EditorState) : Prop where
  fits : e.len ≤ editMaxBytes
  cursor : e.cursor ≤ e.len
  ended : e.buf e.len = 0

/-- What all keys but those that edit leave alone. -/
structure SameText (e e' : EditorState) : Prop where
  buf : e'.buf = e.buf
  len : e'.len = e.len
  cursor : e'.cursor = e.cursor
  preferredCol : e'.preferredCol = e.preferredCol
  keepPreferredCol : e'.keepPreferredCol = e.keepPreferredCol

/-- An operation has made the text of the two parts; `dirty` is set exactly if that is another
text. -/
structure Edited (e e' : EditorState) (before after : List UInt8) : Prop where
  holds : EditorHolds e' before after
  dirty : e'.dirty = (e.dirty || decide (before ++ after ≠ e.before ++ e.after))

section SameText

variable {e e' e'' : EditorState}

theorem SameText.refl (e : EditorState) : SameText e e := ⟨rfl, rfl, rfl, rfl, rfl⟩

theorem SameText.trans (h : SameText e e') (h' : SameText e' e'') : SameText e e'' :=
  ⟨h'.buf.trans h.buf, h'.len.trans h.len, h'.cursor.trans h.cursor,
    h'.preferredCol.trans h.preferredCol, h'.keepPreferredCol.trans h.keepPreferredCol⟩

theorem statusSet_same (e : EditorState) (msg : String) : SameText e (e.statusSet msg) :=
  ⟨rfl, rfl, rfl, rfl, rfl⟩

theorem ensureVisible_same (e : EditorState) : SameText e e.ensureCursorVisible := by
  simp only [ensureCursorVisible]
  split
  · exact ⟨rfl, rfl, rfl, rfl, rfl⟩
  · split <;> exact ⟨rfl, rfl, rfl, rfl, rfl⟩

theorem draw_same (x : EditorRun) (e : EditorState) (wait : EditorWait) :
    SameText e (x.draw e wait).editor :=
  (ensureVisible_same e).trans ⟨rfl, rfl, rfl, rfl, rfl⟩

theorem close_same (x : EditorRun) (e : EditorState) (msg : String) :
    SameText e (x.close e msg).editor := .refl e

theorem save_same {v v' : Vfs} {session : Int} {path : List UInt8} {ok : Bool}
    (h : saveToPath v session e path = .ok (v', e', ok)) : SameText e e' := by
  rw [saveToPath] at h
  obtain ⟨r, -, h⟩ := bind_ok h
  split at h
  · cases h
    exact statusSet_same e _
  · dsimp only at h
    split at h
    · cases h
      exact statusSet_same e _
    · cases h
      exact ⟨rfl, rfl, rfl, rfl, rfl⟩

theorem Sound.same (h : Sound e) (hs : SameText e e') : Sound e' := by
  obtain ⟨hfits, hcursor, hended⟩ := h
  exact ⟨hs.len ▸ hfits, hs.cursor ▸ hs.len ▸ hcursor, by rw [hs.buf, hs.len, hended]⟩

end SameText

end EditorState

section Keys
open EditorState

variable {session : Int} {fuel : Nat} {x y : EditorRun} {key : Int}

/-- A key in the loop edits, or leaves the text and the column alone. -/
theorem keyInLoop_cases (h : x.keyInLoop session fuel key = .ok (some y)) :
    SameText x.editor y.editor ∨
      ∃ e, x.editor.editKey fuel key = some e ∧ SameText e y.editor := by
  rw [EditorRun.keyInLoop] at h
  split at h
  · obtain ⟨r, hsave, h⟩ := bind_ok h
    cases h
    exact .inl ((save_same hsave).trans (draw_same _ _ _))
  split at h
  · split at h
    · cases h
      exact .inl ((statusSet_same _ _).trans (draw_same _ _ _))
    · obtain rfl := Option.some.inj (Except.ok.inj h)
      exact .inl (close_same _ _ _)
  split at h
  · cases h
    exact .inl ((statusSet_same _ _).trans (draw_same _ _ _))
  · obtain ⟨e, he, rfl⟩ := Option.map_eq_some_iff.mp (Except.ok.inj h)
    exact .inr ⟨e, he, draw_same x e .edit⟩

theorem keyUnsaved_same (h : x.keyUnsaved session key = .ok y) : SameText x.editor y.editor := by
  rw [EditorRun.keyUnsaved] at h
  split at h
  · obtain rfl := Except.ok.inj h
    exact close_same _ _ _
  split at h
  · obtain ⟨⟨v, e, ok⟩, hsave, h⟩ := bind_ok h
    dsimp only at h
    split at h
    · obtain rfl := Except.ok.inj h
      exact (save_same hsave).trans (close_same _ _ _)
    · cases h
      exact (save_same hsave).trans ((statusSet_same _ _).trans (draw_same _ _ _))
  · cases h
    exact (statusSet_same _ _).trans (draw_same _ _ _)

theorem keyInMenu_same (h : x.keyInMenu session key = .ok y) : SameText x.editor y.editor := by
  rw [EditorRun.keyInMenu] at h
  split at h
  · obtain ⟨r, hsave, h⟩ := bind_ok h
    cases h
    exact (save_same hsave).trans (draw_same _ _ _)
  split at h
  · cases h
    exact .refl _
  split at h
  · split at h
    · cases h
      exact (statusSet_same _ _).trans (draw_same _ _ _)
    · obtain rfl := Except.ok.inj h
      exact close_same _ _ _
  · cases h
    exact (statusSet_same _ _).trans (draw_same _ _ _)

theorem keyInPrompt_same {input : Buf} {len cursor : Nat}
    (h : x.keyInPrompt session input len cursor key = .ok y) : SameText x.editor y.editor := by
  have hprompt : ∀ (input : Buf) (len cursor : Nat),
      SameText x.editor (x.prompt input len cursor).editor := fun _ _ _ => .refl _
  rw [EditorRun.keyInPrompt] at h
  split at h
  · cases h
    exact (statusSet_same _ _).trans (draw_same _ _ _)
  split at h
  · split at h
    · cases h
      exact (statusSet_same _ _).trans (draw_same _ _ _)
    · obtain ⟨⟨v, e, ok⟩, hsave, h⟩ := bind_ok h
      have hpath : ∀ path, SameText e ({ e with path }.statusSet "saved as new path") :=
        fun _ => ⟨rfl, rfl, rfl, rfl, rfl⟩
      dsimp only at h
      split at h
      · cases h
        exact (save_same hsave).trans ((hpath _).trans (draw_same _ _ _))
      · cases h
        exact (save_same hsave).trans (draw_same _ _ _)
  split at h
  · cases h
    exact hprompt _ _ _
  split at h
  · cases h
    exact hprompt _ _ _
  split at h
  · split at h <;> cases h <;> exact hprompt _ _ _
  split at h
  · split at h <;> cases h <;> exact hprompt _ _ _
  split at h
  · cases h
    exact hprompt _ _ _
  · cases h
    exact hprompt _ _ _

/-- Whatever an editor waits for, a key edits as in its loop, or leaves the text alone. -/
theorem key_cases (h : x.key session fuel key = .ok (some y)) :
    SameText x.editor y.editor ∨
      ∃ e, x.editor.editKey fuel key = some e ∧ SameText e y.editor := by
  have hmap : ∀ {r : Except Fault EditorRun}, r.map some = .ok (some y) → r = .ok y := by
    intro r hr
    cases r with
    | error fault => cases hr
    | ok z => cases hr; rfl
  rw [EditorRun.key] at h
  split at h
  · exact keyInLoop_cases h
  · exact .inl (keyUnsaved_same (hmap h))
  · exact .inl (keyInMenu_same (hmap h))
  · exact .inl (keyInPrompt_same (hmap h))
  · cases h
    exact .inl (.refl _)

/-- What holds of every loaded text and survives every edit holds of all that can be reached. -/
theorem EditorReached.invariant {P : EditorState → Prop} (hzero : P .zero)
    (hsame : ∀ {e e'}, P e → SameText e e' → P e')
    (hloaded : ∀ {fuel v session e path v' e'},
      loadFile fuel v session e path = .ok (some (v', e')) → P e')
    (hedit : ∀ {fuel e key e'}, P e → e.editKey fuel key = some e' → P e')
    {e : EditorState} (h : EditorReached e) : P e := by
  induction h with
  | refl => exact hzero
  | tail _ hstep ih =>
    cases hstep with
    | opened hopen =>
      obtain ⟨loaded, hload, hopen⟩ := bind_ok hopen
      cases loaded with
      | none => cases hopen
      | some l =>
        cases hopen
        exact hsame (hloaded hload) (draw_same _ _ _)
    | key hkey =>
      rcases key_cases hkey with hkept | ⟨e', he, hkept⟩
      · exact hsame ih hkept
      · exact hsame (hedit ih he) hkept

end Keys

namespace EditorState

section Sound

variable {e e' : EditorState} {c : UInt8}

theorem Sound.holds (h : Sound e) : EditorHolds e e.before e.after := by
  refine ⟨?_, (bytesAt_length _ _ _).symm, h.fits, h.ended⟩
  have htext : bytesAt e.buf 0 (e.cursor + (e.len - e.cursor)) = e.before ++ e.after := by
    rw [bytesAt_add, Nat.zero_add]
    rfl
  rwa [Nat.add_sub_of_le h.cursor] at htext

theorem sound_of_holds {before after : List UInt8} (h : EditorHolds e before after) : Sound e := by
  refine ⟨h.fits, ?_, h.ended⟩
  rw [h.len, h.cursor]
  exact Nat.le_add_right _ _

theorem before_eq_nil (h : Sound e) : e.before = [] ↔ e.cursor = 0 := by
  rw [← List.length_eq_zero_iff, ← h.holds.cursor]

theorem after_eq_nil : e.after = [] ↔ e.len ≤ e.cursor := by
  rw [← List.length_eq_zero_iff, after, bytesAt_length]
  exact Nat.sub_eq_zero_iff_le

/-- The loop of a deletion takes one character out of the text. -/
theorem Sound.closed (h : Sound e) {i : Nat} (hi : i < e.len) :
    bytesAt (Function.update (closeGap e.buf i (e.len - 1 - i)) (e.len - 1) 0) 0 (e.len - 1) =
      (e.before ++ e.after).eraseIdx i := by
  rw [← h.holds.text, ← bytesAt_closeGap e.buf hi]
  apply bytesAt_congr
  intro j hj
  exact Function.update_of_ne (by omega) _ _

theorem deleteBackspace_edited (h : Sound e) :
    Edited e e.deleteBackspace e.before.dropLast e.after ∧
      (e.before = [] → e.deleteBackspace = e) := by
  have hholds := h.holds
  by_cases hnil : e.before = []
  · have hsame : e.deleteBackspace = e :=
      if_pos (.inl ((before_eq_nil h).mp hnil))
    refine ⟨?_, fun _ => hsame⟩
    rw [hsame]
    constructor
    · simpa [hnil] using hholds
    · simp [hnil]
  · have hpos : 0 < e.cursor := Nat.pos_of_ne_zero fun h0 => hnil ((before_eq_nil h).mpr h0)
    have hcursor := h.cursor
    have hgap : e.len - e.cursor = e.len - 1 - (e.cursor - 1) := by omega
    have herase : (e.before ++ e.after).eraseIdx (e.cursor - 1) = e.before.dropLast ++ e.after := by
      have hlast : e.cursor - 1 < e.before.length := by
        rw [← hholds.cursor]
        omega
      rw [List.eraseIdx_append_of_lt_length hlast, List.eraseIdx_eq_take_drop_succ,
        List.dropLast_eq_take, ← hholds.cursor, Nat.sub_add_cancel hpos, hholds.cursor,
        List.drop_length, List.append_nil]
    have hother : e.before.dropLast ++ e.after ≠ e.before ++ e.after := by
      intro heq
      have hlen := congrArg List.length (List.append_cancel_right heq)
      rw [List.length_dropLast, ← hholds.cursor] at hlen
      omega
    refine ⟨?_, fun h0 => absurd h0 hnil⟩
    rw [deleteBackspace, if_neg (by omega), hgap]
    constructor
    · exact ⟨(h.closed (by omega)).trans herase, by simp [← hholds.cursor],
        Nat.le_trans (Nat.sub_le _ _) h.fits, Function.update_self _ _ _⟩
    · simp [hother]

theorem deleteForward_edited (h : Sound e) :
    Edited e e.deleteForward e.before e.after.tail ∧ (e.after = [] → e.deleteForward = e) := by
  have hholds := h.holds
  by_cases hnil : e.after = []
  · have hsame : e.deleteForward = e := if_pos (.inl (after_eq_nil.mp hnil))
    refine ⟨?_, fun _ => hsame⟩
    rw [hsame]
    constructor
    · simpa [hnil] using hholds
    · simp [hnil]
  · have hlt : e.cursor < e.len := Nat.not_le.mp fun hle => hnil (after_eq_nil.mpr hle)
    have herase : (e.before ++ e.after).eraseIdx e.cursor = e.before ++ e.after.tail := by
      rw [List.eraseIdx_append_of_length_le (Nat.le_of_eq hholds.cursor.symm), hholds.cursor,
        Nat.sub_self, List.eraseIdx_zero]
    have hother : e.before ++ e.after.tail ≠ e.before ++ e.after := by
      intro heq
      have hlen := congrArg List.length (List.append_cancel_left heq)
      have hpos := List.length_pos_of_ne_nil hnil
      rw [List.length_tail] at hlen
      omega
    refine ⟨?_, fun h0 => absurd h0 hnil⟩
    rw [deleteForward, if_neg (by omega)]
    constructor
    · exact ⟨(h.closed hlt).trans herase, hholds.cursor,
        Nat.le_trans (Nat.sub_le _ _) h.fits, Function.update_self _ _ _⟩
    · simp [hother]

theorem insertAtCursor_edited (h : Sound e) (c : UInt8) :
    if e.len < editMaxBytes then
      (e.insertAtCursor c).1 = true ∧ Edited e (e.insertAtCursor c).2 (e.before ++ [c]) e.after
    else e.insertAtCursor c = (false, e.statusSet "editor: file limit reached (8 KiB)") := by
  by_cases hroom : e.len < editMaxBytes
  · obtain ⟨hok, -, hholds⟩ := h.holds.inserted c hroom
    have hdirty : (e.insertAtCursor c).2.dirty = true := by
      rw [insertAtCursor, if_neg (Nat.not_le.mpr hroom)]
    rw [if_pos hroom]
    exact ⟨hok, hholds, by simp [hdirty]⟩
  · rw [if_neg hroom, insertAtCursor, if_pos (Nat.not_lt.mp hroom)]

theorem Sound.insert (h : Sound e) (c : UInt8) : Sound (e.insertAtCursor c).2 := by
  have hinsert := insertAtCursor_edited h c
  split at hinsert
  · exact sound_of_holds hinsert.2.holds
  · rw [hinsert]
    exact h.same (statusSet_same e _)

theorem Sound.spaces (h : Sound e) (n : Nat) : Sound (e.insertSpaces n) := by
  induction n generalizing e with
  | zero => exact h
  | succ n ih =>
    rw [insertSpaces]
    split
    · exact ih (h.insert 32)
    · exact h.insert 32

theorem Sound.indent (h : Sound e) {fuel i : Nat} (hrun : indentLoop fuel e i = some e') :
    Sound e' := by
  induction fuel generalizing e i with
  | zero => cases hrun
  | succ fuel ih =>
    rw [indentLoop] at hrun
    dsimp only at hrun
    split at hrun
    · split at hrun
      · split at hrun
        · exact ih (h.insert 32) hrun
        · cases hrun
          exact h.insert 32
      · split at hrun
        · exact ih (h.spaces _) hrun
        · cases hrun
          exact h
    · cases hrun
      exact h

theorem Sound.newline (h : Sound e) {fuel : Nat}
    (hrun : e.insertNewlineWithIndent fuel = some e') : Sound e' := by
  rw [insertNewlineWithIndent] at hrun
  split at hrun
  · exact (h.insert 10).indent hrun
  · cases hrun
    exact h.insert 10

theorem posFrom_le (b : Buf) (target left i line : Nat) :
    posFrom b target left i line ≤ i + left := by
  induction left generalizing i line with
  | zero => exact Nat.le_refl _
  | succ left ih =>
    rw [posFrom]
    split
    · exact Nat.le_add_right _ _
    · exact Nat.le_trans (ih _ _) (by omega)

theorem stepCols_le (b : Buf) {len pos : Nat} (h : pos ≤ len) (col : Nat) :
    stepCols b len col pos ≤ len := by
  induction col generalizing pos with
  | zero => exact h
  | succ col ih =>
    rw [stepCols]
    split
    · next hstep => exact ih hstep.1
    · exact h

theorem posForLineCol_le (e : EditorState) (line col : Nat) : e.posForLineCol line col ≤ e.len :=
  stepCols_le _ (Nat.le_trans (posFrom_le _ _ _ _ _) (Nat.le_of_eq (Nat.zero_add _))) _

/-- The cursor may be moved to any place in the text. -/
theorem Sound.move (h : Sound e) {cursor : Nat} (hc : cursor ≤ e.len) :
    Sound { e with cursor } := ⟨h.fits, hc, h.ended⟩

theorem Sound.dropColumn (h : Sound e) : Sound e.dropColumn := ⟨h.fits, h.cursor, h.ended⟩

theorem Sound.keepColumn (h : Sound e) : Sound e.keepColumn := by
  rw [EditorState.keepColumn]
  split
  · exact h
  · exact ⟨h.fits, h.cursor, h.ended⟩

theorem Sound.moveUp (h : Sound e) : Sound e.moveUp := by
  rw [EditorState.moveUp]
  split
  · exact h.keepColumn.move (posForLineCol_le _ _ _)
  · exact h.keepColumn

theorem Sound.moveDown (h : Sound e) : Sound e.moveDown := by
  rw [EditorState.moveDown]
  split
  · exact h.keepColumn.move (posForLineCol_le _ _ _)
  · exact h.keepColumn

theorem Sound.backspace (h : Sound e) : Sound e.deleteBackspace :=
  sound_of_holds (deleteBackspace_edited h).1.holds

theorem Sound.forward (h : Sound e) : Sound e.deleteForward :=
  sound_of_holds (deleteForward_edited h).1.holds

theorem Sound.edit (h : Sound e) {fuel : Nat} {key : Int} (hkey : e.editKey fuel key = some e') :
    Sound e' := by
  rw [editKey] at hkey
  split at hkey
  · cases hkey
    split
    · exact (h.move (Nat.le_trans (Nat.sub_le _ _) h.cursor)).dropColumn
    · exact h.dropColumn
  split at hkey
  · cases hkey
    split
    · next hlt => exact (h.move hlt).dropColumn
    · exact h.dropColumn
  split at hkey
  · cases hkey
    exact h.moveUp
  split at hkey
  · cases hkey
    exact h.moveDown
  split at hkey
  · cases hkey
    exact h.forward.dropColumn
  split at hkey
  · cases hkey
    exact h.backspace.dropColumn
  split at hkey
  · cases hkey
    exact (h.spaces _).dropColumn
  split at hkey
  · obtain ⟨e₁, hnewline, rfl⟩ := Option.map_eq_some_iff.mp hkey
    exact (h.newline hnewline).dropColumn
  split at hkey
  · cases hkey
    exact (h.insert _).dropColumn
  · cases hkey
    exact h

end Sound

section Loaded

variable {v v' : Vfs} {e e' : EditorState}

/-- What holds while `load_file` reads: the terminator follows at its end. -/
structure Filling (e : EditorState) : Prop where
  fits : e.len ≤ editMaxBytes
  cursor : e.cursor = 0
  column : e.keepPreferredCol = false

theorem Filling.append (h : Filling e) (bytes : List UInt8) : Filling (e.appendRead bytes).1 := by
  induction bytes generalizing e with
  | nil => exact h
  | cons c bytes ih =>
    rw [appendRead]
    split
    · exact h
    · next hroom =>
      have hlt : e.len < editMaxBytes := Nat.not_le.mp hroom
      exact ih ⟨hlt, h.cursor, h.column⟩

theorem Filling.loaded (h : Filling e) (msg : String) :
    Sound (e.terminate.statusSet msg) ∧ (e.terminate.statusSet msg).keepPreferredCol = false :=
  ⟨⟨h.fits, Nat.le_trans (Nat.le_of_eq h.cursor) (Nat.zero_le _), Function.update_self _ _ _⟩,
    h.column⟩

theorem Filling.loop (h : Filling e) {fd : Int} {fuel : Nat}
    (hrun : loadLoop fd fuel v e = some (v', e')) : Sound e' ∧ e'.keepPreferredCol = false := by
  induction fuel generalizing v e with
  | zero => cases hrun
  | succ fuel ih =>
    rw [loadLoop] at hrun
    dsimp only at hrun
    split at hrun
    · cases hrun
      exact h.loaded _
    · have hmore := h.append (vfsRead v fd 256).2
      split at hrun
      · next e₁ happ =>
        rw [happ] at hmore
        exact ih hmore hrun
      · next e₁ happ =>
        rw [happ] at hmore
        cases hrun
        exact hmore.loaded _

theorem clear_loaded (e : EditorState) (msg : String) :
    Sound (e.clear.statusSet msg) ∧ (e.clear.statusSet msg).keepPreferredCol = false :=
  ⟨⟨Nat.zero_le _, Nat.le_refl _, Function.update_self 0 0 e.buf⟩, rfl⟩

theorem loadFile_sound {fuel : Nat} {session : Int} {path : List UInt8}
    (h : loadFile fuel v session e path = .ok (some (v', e'))) :
    Sound e' ∧ e'.keepPreferredCol = false := by
  rw [loadFile] at h
  obtain ⟨st, -, h⟩ := bind_ok h
  split at h
  · cases h
    exact clear_loaded e _
  · split at h
    · cases h
      exact clear_loaded e _
    · obtain ⟨r, -, h⟩ := bind_ok h
      split at h
      · cases h
        exact clear_loaded e _
      · exact Filling.loop ⟨Nat.zero_le _, rfl, rfl⟩ (Except.ok.inj h)

end Loaded

theorem zero_sound : Sound .zero := ⟨Nat.zero_le _, Nat.le_refl _, rfl⟩

end EditorState

section Reached
open EditorState

variable {e : EditorState}

theorem EditorReached.sound (h : EditorReached e) : Sound e :=
  h.invariant zero_sound Sound.same (fun hload => (loadFile_sound hload).1)
    fun hs hkey => hs.edit hkey

/-- The variables between two operations on the text: the keys that type more than one character
insert one after another. -/
inductive EditorTyping : EditorState → Prop
  | waits {e : EditorState} (h : EditorReached e) : EditorTyping e
  | inserts {e : EditorState} (h : EditorTyping e) (c : UInt8) : EditorTyping (e.insertAtCursor c).2

theorem EditorTyping.sound (h : EditorTyping e) : Sound e := by
  induction h with
  | waits hreached => exact hreached.sound
  | inserts _ c ih => exact ih.insert c

end Reached

/-- The buffer is a text with a cursor, whatever has been typed, loaded and saved. -/
theorem editor_text {e : EditorState} (h : EditorTyping e) :
    e.len ≤ 8192 ∧ e.cursor ≤ e.len ∧ e.buf e.len = 0 ∧ EditorHolds e e.before e.after ∧
      (∀ c, if e.len = 8192 then
          e.insertAtCursor c = (false, e.statusSet "editor: file limit reached (8 KiB)")
        else (e.insertAtCursor c).1 = true ∧
          e.Edited (e.insertAtCursor c).2 (e.before ++ [c]) e.after) ∧
      (e.Edited e.deleteBackspace e.before.dropLast e.after ∧
        (e.before = [] → e.deleteBackspace = e)) ∧
      e.Edited e.deleteForward e.before e.after.tail ∧
        (e.after = [] → e.deleteForward = e) := by
  have hsound := h.sound
  refine ⟨hsound.fits, hsound.cursor, hsound.ended, hsound.holds, ?_,
    EditorState.deleteBackspace_edited hsound, EditorState.deleteForward_edited hsound⟩
  intro c
  have hinsert := EditorState.insertAtCursor_edited hsound c
  by_cases hfull : e.len = 8192
  · have hfits : ¬e.len < editMaxBytes := Nat.not_lt.mpr (Nat.le_of_eq hfull.symm)
    rw [if_pos hfull]
    rwa [if_neg hfits] at hinsert
  · have hroom : e.len < editMaxBytes := Nat.lt_of_le_of_ne hsound.fits hfull
    rw [if_neg hfull]
    rwa [if_pos hroom] at hinsert

/-- A character is typed into a new file, and deleted. -/
theorem editor_text_typed : ∃ x, editorOpen 1 letterVfs 0 .zero .zero [98] = .ok (some x) ∧
    (x.editor.insertAtCursor 97).2.Edited (x.editor.insertAtCursor 97).2.deleteBackspace
      (x.editor.insertAtCursor 97).2.before.dropLast (x.editor.insertAtCursor 97).2.after := by
  obtain ⟨x, hopen, -⟩ := other_opens 1 .zero
  have htyping : EditorTyping (x.editor.insertAtCursor 97).2 :=
    .inserts (.waits (.single (.opened hopen))) 97
  exact ⟨x, hopen, (editor_text htyping).2.2.2.2.2.1.1⟩

end VertexOS
