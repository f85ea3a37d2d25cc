import VertexOS.Core.Cli

namespace VertexOS
open Library.LineEditor

/-- A buffer that holds a text and its terminator. -/
structure IsText (b : Buf) (t : List UInt8) : Prop where
  bytes : bytesAt b 0 t.length = t
  plain : 0 ∉ t
  ended : b t.length = 0

section Buffers

variable {b src dst : Buf} {t l : List UInt8} {size len i : Nat}

theorem textIn_plain (h : bytesAt b 0 t.length = t) (hplain : 0 ∉ t) : textIn b t.length = t := by
  rw [textIn, h]
  refine List.takeWhile_eq_self_iff.mpr ?_
  intro c hc
  simpa using fun h0 : c = 0 => hplain (h0 ▸ hc)

theorem IsText.read (h : IsText b t) (hfits : t.length ≤ size) : textIn b size = t := by
  obtain ⟨k, rfl⟩ := Nat.exists_eq_add_of_le hfits
  have hfront := textIn_plain h.bytes h.plain
  rw [textIn] at hfront ⊢
  rw [bytesAt_add, List.takeWhile_append, hfront, h.bytes, if_pos rfl, Nat.zero_add]
  cases k with
  | zero => simp [bytesAt]
  | succ k =>
    have hend : bytesAt b t.length (k + 1) = 0 :: bytesAt b (t.length + 1) k := by
      rw [Nat.add_comm k 1, bytesAt_add]
      simp [bytesAt, h.ended]
    simp [hend]

/-- The bytes of a line, and the terminator that is put behind them. -/
theorem isText_terminate (h : bytesAt b 0 t.length = t) (hplain : 0 ∉ t) :
    IsText (Function.update b t.length 0) t := by
  refine ⟨?_, hplain, Function.update_self _ _ _⟩
  refine Eq.trans (bytesAt_congr ?_) h
  intro i hi
  exact Function.update_of_ne (by omega) _ _

theorem isText_putBytes (dst : Buf) (hplain : 0 ∉ t) : IsText (putBytes dst 0 (t ++ [0])) t := by
  have hall := bytesAt_putBytes dst 0 (t ++ [0])
  rw [List.length_append, List.length_singleton, bytesAt_add] at hall
  obtain ⟨hbytes, hend⟩ := List.append_inj hall (bytesAt_length _ _ _)
  exact ⟨hbytes, hplain, by simpa [bytesAt] using hend⟩

theorem IsText.copy (h : IsText src t) (dst : Buf) (hfits : t.length < inputMax) :
    IsText (copyStr dst src inputMax) t := by
  have hread : textIn src (inputMax - 1) = t := h.read (by omega)
  rw [copyStr, if_neg (by decide), hread]
  exact isText_putBytes dst h.plain

theorem stringsEqual_iff {a : Buf} {s : List UInt8} (ha : IsText a s) (hb : IsText b t)
    (hs : s.length < inputMax) (ht : t.length < inputMax) : stringsEqual a b = true ↔ s = t := by
  rw [stringsEqual, ha.read (Nat.le_of_lt hs), hb.read (Nat.le_of_lt ht)]
  exact decide_eq_true_iff

theorem closeGap_apply (b : Buf) (i k j : Nat) :
    closeGap b i k j = if i ≤ j ∧ j < i + k then b (j + 1) else b j := by
  induction k generalizing b i with
  | zero =>
    rw [closeGap, if_neg (by omega)]
  | succ k ih =>
    rw [closeGap, ih]
    by_cases hj : j = i
    · subst hj
      rw [if_neg (by omega), if_pos (by omega), Function.update_self]
    · rw [Function.update_of_ne hj]
      by_cases hin : i ≤ j ∧ j < i + (k + 1)
      · rw [if_pos hin, if_pos (by omega), Function.update_of_ne (by omega)]
      · rw [if_neg hin, if_neg (by omega)]

theorem openGap_apply (b : Buf) (i k j : Nat) :
    openGap b i k j = if i < j ∧ j ≤ i + k then b (j - 1) else b j := by
  induction k generalizing b with
  | zero =>
    rw [openGap, if_neg (by omega)]
  | succ k ih =>
    rw [openGap, ih]
    by_cases hj : j = i + k + 1
    · subst hj
      rw [if_neg (by omega), if_pos (by omega), Function.update_self]
      rfl
    · rw [Function.update_of_ne hj]
      by_cases hin : i < j ∧ j ≤ i + k
      · rw [if_pos hin, if_pos (by omega), Function.update_of_ne (by omega)]
      · rw [if_neg hin, if_neg (by omega)]

theorem bytesAt_getElem (b : Buf) (len i : Nat) (h : i < (bytesAt b 0 len).length) :
    (bytesAt b 0 len)[i] = b i := by
  simp [bytesAt]

/-- A character is shifted out of the line. -/
theorem bytesAt_closeGap (b : Buf) (h : i < len) :
    bytesAt (closeGap b i (len - 1 - i)) 0 (len - 1) = (bytesAt b 0 len).eraseIdx i := by
  have hlen : ((bytesAt b 0 len).eraseIdx i).length = len - 1 := by
    rw [List.length_eraseIdx_of_lt (by rwa [bytesAt_length]), bytesAt_length]
  refine List.ext_getElem (by rw [bytesAt_length, hlen]) ?_
  intro j hj hj'
  rw [hlen] at hj'
  rw [bytesAt_getElem, closeGap_apply, List.getElem_eraseIdx]
  split
  · next hin => rw [dif_neg (by omega), bytesAt_getElem]
  · next hout => rw [dif_pos (by omega), bytesAt_getElem]

/-- A character is put into the line. -/
theorem bytesAt_openGap (b : Buf) (c : UInt8) (h : i ≤ len) :
    bytesAt (Function.update (openGap b i (len - i)) i c) 0 (len + 1) =
      (bytesAt b 0 len).insertIdx i c := by
  have hlen : ((bytesAt b 0 len).insertIdx i c).length = len + 1 := by
    rw [List.length_insertIdx_of_le_length (by rwa [bytesAt_length]), bytesAt_length]
  refine List.ext_getElem (by rw [bytesAt_length, hlen]) ?_
  intro j hj hj'
  rw [hlen] at hj'
  rw [bytesAt_getElem, List.getElem_insertIdx]
  by_cases hat : j = i
  · subst hat
    simp
  · rw [Function.update_of_ne hat, openGap_apply]
    by_cases hlow : j < i
    · rw [if_neg (by omega), dif_pos hlow, bytesAt_getElem]
    · rw [if_pos (by omega), dif_neg hlow, dif_neg hat, bytesAt_getElem]

end Buffers

/-- What the reference editor makes of a key. -/
def editKey (key : Int) : Option (Key UInt8) :=
  if key = keyLeft then some .left
  else if key = keyRight then some .right
  else if key = keyDelete then some .delete
  else if key = 8 then some .backspace
  else if key = keyUp then some .up
  else if key = keyDown then some .down
  else if key = 10 then some .enter
  else if 32 ≤ key ∧ key ≤ 126 then some (.char (UInt8.ofNat key.toNat))
  else none

/-- A line of at most 127 characters, and a history of 16. -/
abbrev LineEditor := Editor UInt8 (inputMax - 1) historyMax

def lineEditor : LineEditor where
  enteredFit := by simp
  recalledInside := by simp

/-- The shell has the line, the cursor and the history of the editor. -/
structure CliShows (c : Cli) (e : LineEditor) : Prop where
  text : bytesAt c.input 0 c.len = e.line.text
  plain : 0 ∉ e.line.text
  cursor : c.cursor = e.line.cursor
  count : c.historyCount = e.history.length
  history : ∀ i (h : i < e.history.length), IsText (c.history i) e.history[i]
  pos : c.historyPos = e.recalled.elim (-1) Int.ofNat

section Edits

variable {c : Cli} {e : LineEditor} (h : CliShows c e)

include h

theorem CliShows.len : c.len = e.line.text.length := by
  rw [← h.text, bytesAt_length]

/-- Changes that the editor does not see. -/
theorem CliShows.redraw : CliShows (redrawInputLine c).1 e := ⟨h.text, h.plain, h.cursor, h.count, h.history, h.pos⟩

/-- An edit of the line. -/
theorem CliShows.edit {c' : Cli} (f : Line UInt8 (inputMax - 1) → Line UInt8 (inputMax - 1))
    (htext : bytesAt c'.input 0 c'.len = (f e.line).text) (hplain : 0 ∉ (f e.line).text)
    (hcursor : c'.cursor = (f e.line).cursor) (hhistory : c'.history = c.history)
    (hcount : c'.historyCount = c.historyCount) (hpos : c'.historyPos = c.historyPos) :
    CliShows c' (e.edit f) := by
  refine ⟨htext, hplain, hcursor, hcount.trans h.count, ?_, hpos.trans h.pos⟩
  rw [hhistory]
  exact h.history

theorem CliShows.left : CliShows (cliLeft c).1 (e.edit Line.left) := by
  have hcursor := h.cursor
  rw [cliLeft]
  split
  · next hpos =>
    refine h.edit _ h.text h.plain ?_ rfl rfl rfl
    change c.cursor - 1 = e.line.cursor - 1
    rw [hcursor]
  · next hzero =>
    refine h.edit _ h.text h.plain ?_ rfl rfl rfl
    change c.cursor = e.line.cursor - 1
    omega

theorem CliShows.right : CliShows (cliRight c).1 (e.edit Line.right) := by
  have hcursor := h.cursor
  have hlen := h.len
  have hinside := e.line.inside
  rw [cliRight]
  split
  · next hless =>
    refine h.edit _ h.text h.plain ?_ rfl rfl rfl
    change c.cursor + 1 = min (e.line.cursor + 1) e.line.text.length
    omega
  · next hend =>
    refine h.edit _ h.text h.plain ?_ rfl rfl rfl
    change c.cursor = min (e.line.cursor + 1) e.line.text.length
    omega

theorem CliShows.delete : CliShows (cliDelete c).1 (e.edit Line.delete) := by
  have hcursor := h.cursor
  have hlen := h.len
  have hplain : 0 ∉ e.line.text.eraseIdx e.line.cursor :=
    fun hm => h.plain (List.mem_of_mem_eraseIdx hm)
  rw [cliDelete]
  split
  · next hless =>
    refine h.edit _ ?_ hplain hcursor rfl rfl rfl
    refine (bytesAt_closeGap c.input hless).trans ?_
    rw [h.text, hcursor]
    rfl
  · next hend =>
    refine h.edit _ ?_ hplain hcursor rfl rfl rfl
    refine h.text.trans ?_
    exact (List.eraseIdx_of_length_le (by omega)).symm

theorem CliShows.backspace : CliShows (cliBackspace c).1 (e.edit Line.backspace) := by
  have hcursor := h.cursor
  have hlen := h.len
  have hinside := e.line.inside
  rw [cliBackspace]
  split
  · next hpos =>
    have hline : e.line.backspace.text = e.line.text.eraseIdx (e.line.cursor - 1) ∧
        e.line.backspace.cursor = e.line.cursor - 1 := by
      rw [Line.backspace, dif_pos (by omega)]
      exact ⟨rfl, rfl⟩
    refine h.edit _ ?_ ?_ ?_ rfl rfl rfl
    · have hk : c.len - c.cursor = c.len - 1 - (c.cursor - 1) := by omega
      change bytesAt (closeGap c.input (c.cursor - 1) (c.len - c.cursor)) 0 (c.len - 1) = _
      rw [hk, bytesAt_closeGap c.input (by omega), h.text, hline.1, hcursor]
    · rw [hline.1]
      exact fun hm => h.plain (List.mem_of_mem_eraseIdx hm)
    · rw [hline.2, ← hcursor]
      rfl
  · next hzero =>
    have hline : e.line.backspace = e.line := by
      rw [Line.backspace, dif_neg (by omega)]
    refine h.edit _ ?_ ?_ ?_ rfl rfl rfl
    · rw [hline, h.text]
    · rw [hline]
      exact h.plain
    · rw [hline, hcursor]

theorem CliShows.insert (key : UInt8) (hkey : key ≠ 0) (hroom : c.len < inputMax - 1) :
    CliShows (cliInsert c key).1 (e.edit fun l => l.insert key) := by
  have hcursor := h.cursor
  have hlen := h.len
  have hinside := e.line.inside
  have hline : (e.line.insert key).text = e.line.text.insertIdx e.line.cursor key ∧
      (e.line.insert key).cursor = e.line.cursor + 1 := by
    rw [Line.insert, dif_pos (by omega)]
    exact ⟨rfl, rfl⟩
  refine h.edit _ ?_ ?_ ?_ rfl rfl rfl
  · change bytesAt (Function.update (openGap c.input c.cursor (c.len - c.cursor)) c.cursor key) 0
      (c.len + 1) = _
    rw [bytesAt_openGap c.input key (by omega), h.text, hline.1, hcursor]
  · rw [hline.1, List.mem_insertIdx hinside]
    intro hm
    exact hm.elim (fun h0 => hkey h0.symm) h.plain
  · rw [hline.2, ← hcursor]
    rfl

/-- A key that finds no room. -/
theorem CliShows.full (key : UInt8) (hfull : ¬c.len < inputMax - 1) :
    CliShows c (e.edit fun l => l.insert key) := by
  have hline : e.line.insert key = e.line := by
    rw [Line.insert, dif_neg (h.len ▸ hfull)]
  refine h.edit _ ?_ ?_ ?_ rfl rfl rfl
  · rw [hline, h.text]
  · rw [hline]
    exact h.plain
  · rw [hline, h.cursor]

/-- The line is the text that the buffer holds. -/
theorem CliShows.take {pos : Int} {t : List UInt8} {e' : LineEditor} {b : Buf} (hb : IsText b t)
    (ht : t.length < inputMax) (htext : e'.line.text = t) (hcursor : e'.line.cursor = t.length)
    (hentered : e'.entered = e.entered) (hpos : pos = e'.recalled.elim (-1) Int.ofNat) :
    CliShows (takeLine { c with historyPos := pos, input := b }) e' := by
  have hhistory : e'.history = e.history := congrArg (recent historyMax) hentered
  have hread : textIn b inputMax = t := hb.read (Nat.le_of_lt ht)
  refine ⟨?_, ?_, ?_, ?_, ?_, hpos⟩
  · change bytesAt b 0 (textIn b inputMax).length = _
    rw [hread, hb.bytes, htext]
  · rw [htext]
    exact hb.plain
  · change (textIn b inputMax).length = _
    rw [hread, hcursor]
  · rw [hhistory]
    exact h.count
  · intro i hi
    have hi' : i < e.history.length := hhistory ▸ hi
    have hentry : e'.history[i] = e.history[i] := by simp only [hhistory]
    rw [hentry]
    exact h.history i hi'

theorem CliShows.recall {pos : Int} (i : Nat) (hi : i < e.history.length) (hpos : pos = i) :
    CliShows (recallLine c pos) (e.recallEntry i hi) := by
  have hfits : e.history[i].length < inputMax :=
    Nat.lt_succ_of_le (e.history_fits (List.getElem_mem hi))
  have hentry := (h.history i hi).copy c.input hfits
  have hnat : pos.toNat = i := by rw [hpos, Int.toNat_natCast]
  rw [recallLine, hnat]
  exact h.take hentry hfits rfl rfl rfl hpos

theorem CliShows.up : CliShows (cliUp c).1 e.up := by
  have hcount := h.count
  have hpos := h.pos
  rw [cliUp]
  split
  · next hsome =>
    have hi : e.recalled.getD e.history.length - 1 < e.history.length := by
      cases hr : e.recalled with
      | none =>
        rw [Option.getD_none]
        omega
      | some i =>
        have hin : i < e.history.length := e.recalledInside i hr
        rw [Option.getD_some]
        omega
    rw [Editor.up, dif_pos hi]
    refine (h.recall _ hi ?_).redraw
    cases hr : e.recalled with
    | none =>
      rw [hr] at hpos
      rw [hpos, hcount, Option.getD_none]
      simp only [Option.elim_none]
      omega
    | some i =>
      rw [hr] at hpos
      rw [hpos, Option.getD_some]
      simp only [Option.elim_some, Int.ofNat_eq_natCast]
      omega
  · next hnone =>
    have hzero : e.history.length = 0 := by omega
    rw [Editor.up, dif_neg (by omega)]
    exact h

theorem CliShows.down : CliShows (cliDown c).1 e.down := by
  have hcount := h.count
  have hpos := h.pos
  cases hr : e.recalled with
  | none =>
    rw [hr] at hpos
    have hneg : ¬(c.historyCount > 0 ∧ c.historyPos ≥ 0) := by
      simp [hpos]
    simp only [cliDown, if_neg hneg, Editor.down, hr]
    exact h
  | some i =>
    rw [hr] at hpos
    have hpos : c.historyPos = i := hpos
    have hin : i < e.history.length := e.recalledInside i hr
    have hyes : c.historyCount > 0 ∧ c.historyPos ≥ 0 := by omega
    simp only [cliDown, if_pos hyes, Editor.down, hr]
    by_cases hnext : i + 1 < e.history.length
    · rw [if_pos (by omega), dif_pos hnext]
      exact (h.recall (i + 1) hnext (by omega)).redraw
    · rw [if_neg (by omega), dif_neg hnext]
      have hempty : IsText (Function.update c.input 0 0) [] :=
        ⟨by simp [bytesAt], List.not_mem_nil, Function.update_self _ _ _⟩
      have hclear : CliShows _ e.clear := h.take hempty (by decide) rfl rfl rfl rfl
      exact hclear.redraw

end Edits

section Enter

theorem shiftHistory_apply (history : Nat → Buf) (i k j : Nat) :
    shiftHistory history (i + 1) k j =
      if i ≤ j ∧ j < i + k then copyStr (history j) (history (j + 1)) inputMax else history j := by
  induction k generalizing history i with
  | zero =>
    rw [shiftHistory, if_neg (by omega)]
  | succ k ih =>
    rw [shiftHistory, ih, Nat.add_sub_cancel]
    by_cases hj : j = i
    · subst hj
      rw [if_neg (by omega), if_pos (by omega), Function.update_self]
    · rw [Function.update_of_ne hj]
      by_cases hin : i ≤ j ∧ j < i + (k + 1)
      · rw [if_pos hin, if_pos (by omega), Function.update_of_ne (by omega)]
      · rw [if_neg hin, if_neg (by omega)]

variable {c : Cli} {e : LineEditor} {t : List UInt8}

/-- The line is the last entry already. -/
theorem CliShows.repeated_iff (h : CliShows c e) (ht : IsText c.input t)
    (hfits : t.length < inputMax) :
    (c.historyCount = 0 ∨ ¬stringsEqual (c.history (c.historyCount - 1)) c.input) ↔
      e.history.getLast? ≠ some t := by
  have hcount := h.count
  by_cases hnil : e.history = []
  · rw [hnil, List.length_nil] at hcount
    simp [hnil, hcount]
  · have hpos := List.length_pos_iff.mpr hnil
    have hlast : e.history.length - 1 < e.history.length := by omega
    have hentry := h.history _ hlast
    have hshort := Nat.lt_succ_of_le (e.history_fits (List.getElem_mem hlast))
    rw [List.getLast?_eq_getElem?, List.getElem?_eq_getElem hlast, hcount,
      stringsEqual_iff hentry ht hshort hfits]
    simp [hnil]

/-- The history with the line in it. -/
theorem CliShows.remember (h : CliShows c e) (ht : IsText c.input t) (hfits : t.length < inputMax) :
    (remember c).historyCount = (recent historyMax (e.entered ++ [t])).length ∧
    ∀ i (hi : i < (recent historyMax (e.entered ++ [t])).length),
      IsText ((VertexOS.remember c).history i) (recent historyMax (e.entered ++ [t]))[i] := by
  have hcount := h.count
  have hbound : e.history.length ≤ historyMax := recent_length _
  have hrepeated := h.repeated_iff ht hfits
  have hconcat : recent historyMax (e.entered ++ [t]) = _ := recent_concat (by decide) e.entered t
  change _ = if e.history.getLast? = some t then e.history else _ at hconcat
  have hnew : IsText (copyStr (c.history c.historyCount) c.input inputMax) t := ht.copy _ hfits
  by_cases hlast : e.history.getLast? = some t
  · rw [if_pos hlast] at hconcat
    rw [VertexOS.remember, if_neg (mt hrepeated.mp (not_not.mpr hlast))]
    simp only [hconcat]
    exact ⟨hcount, h.history⟩
  rw [if_neg hlast] at hconcat
  replace hconcat := hconcat.trans (rtake_concat hbound t)
  rw [VertexOS.remember, if_pos (hrepeated.mpr hlast)]
  by_cases hroom : c.historyCount < historyMax
  · rw [if_pos (by omega)] at hconcat
    rw [if_pos hroom]
    simp only [hconcat]
    refine ⟨by simp [hcount], ?_⟩
    intro i hi
    rw [List.length_append, List.length_singleton] at hi
    by_cases hold : i < e.history.length
    · rw [Function.update_of_ne (by omega), List.getElem_append_left hold]
      exact h.history i hold
    · have hi : i = c.historyCount := by omega
      subst hi
      rw [Function.update_self, List.getElem_append_right (by omega)]
      simpa using hnew
  · rw [if_neg (by omega)] at hconcat
    rw [if_neg hroom]
    have hfull : e.history.length = historyMax := by omega
    simp only [hconcat]
    refine ⟨by simp [hcount], ?_⟩
    intro i hi
    rw [List.length_tail, List.length_append, List.length_singleton] at hi
    rw [List.getElem_tail]
    by_cases hold : i + 1 < e.history.length
    · have hshort := Nat.lt_succ_of_le (e.history_fits (List.getElem_mem hold))
      have hcopy := (h.history (i + 1) hold).copy (c.history i) hshort
      rw [Function.update_of_ne (by omega), List.getElem_append_left hold, shiftHistory_apply,
        if_pos (by omega)]
      exact hcopy
    · have hi : i = historyMax - 1 := by omega
      subst hi
      rw [Function.update_self, List.getElem_append_right (by omega)]
      simpa using ht.copy _ hfits

/-- What the shell passes to `command_execute`. -/
def executedIn (events : List CliEvent) : List (List UInt8) :=
  events.filterMap fun
    | .execute line => some line
    | _ => none

theorem CliShows.terminated (h : CliShows c e) :
    CliShows { c with input := Function.update c.input c.len 0 } e := by
  refine ⟨?_, h.plain, h.cursor, h.count, h.history, h.pos⟩
  change bytesAt (Function.update c.input c.len 0) 0 c.len = _
  refine Eq.trans (bytesAt_congr ?_) h.text
  intro i hi
  exact Function.update_of_ne (by omega) _ _

/-- The line ends and a new one starts. -/
theorem CliShows.entered {c' : Cli} {e' : LineEditor} (hlen : c'.len = 0) (hcursor : c'.cursor = 0)
    (hpos : c'.historyPos = -1) (hline : e'.line = .empty) (hrecalled : e'.recalled = none)
    (hcount : c'.historyCount = e'.history.length)
    (hhistory : ∀ i (h : i < e'.history.length), IsText (c'.history i) e'.history[i]) :
    CliShows c' e' := by
  refine ⟨?_, ?_, ?_, hcount, hhistory, ?_⟩
  · rw [hlen, hline]
    rfl
  · rw [hline]
    exact List.not_mem_nil
  · rw [hcursor, hline]
    rfl
  · rw [hpos, hrecalled]
    rfl

variable (names : List (List UInt8)) (prompt : UInt32 × UInt32)

theorem CliShows.enter (h : CliShows c e) : CliShows (cliEnter names prompt c).1 e.enter ∧
    executedIn (cliEnter names prompt c).2 = if e.line.text ≠ [] then [e.line.text] else [] := by
  have hlen := h.len
  have htext : IsText (Function.update c.input c.len 0) e.line.text :=
    hlen ▸ isText_terminate (hlen ▸ h.text) h.plain
  have hfits : e.line.text.length < inputMax := Nat.lt_succ_of_le e.line.fits
  by_cases hempty : e.line.text = []
  · have hentered : e.enter.history = e.history := by
      rw [Editor.enter_history, if_pos hempty]
      rfl
    have hzero : ¬c.len > 0 := by
      rw [hlen, hempty]
      exact Nat.lt_irrefl 0
    constructor
    · refine .entered rfl rfl rfl rfl rfl ?_ ?_
      · simp only [cliEnter, enterLine, if_neg hzero, hentered]
        exact h.count
      · simp only [cliEnter, enterLine, if_neg hzero, hentered]
        exact h.history
    · simp [cliEnter, enterLine, hzero, hempty, executedIn]
  · have hentered : e.enter.history = recent historyMax (e.entered ++ [e.line.text]) := by
      rw [Editor.enter_history, if_neg hempty]
    have hpos : c.len > 0 := by
      rw [hlen]
      exact List.length_pos_iff.mpr hempty
    have hread := htext.read (Nat.le_of_lt hfits)
    obtain ⟨hcount, hhistory⟩ := h.terminated.remember htext hfits
    constructor
    · refine .entered rfl rfl rfl rfl rfl ?_ ?_
      · simp only [cliEnter, enterLine, if_pos hpos, hentered]
        exact hcount
      · simp only [cliEnter, enterLine, if_pos hpos, hentered]
        exact hhistory
    · simp only [cliEnter, enterLine, if_pos hpos, hread, executedIn]
      by_cases hfound : commandFound names e.line.text = true <;> simp [hfound, hempty]

end Enter

section Run

variable {c : Cli} {e : LineEditor} {key : Int} (names : List (List UInt8))
  (prompt : UInt32 × UInt32)

@[simp] theorem executedIn_redraw (c : Cli) : executedIn (redrawInputLine c).2 = [] := rfl
@[simp] theorem executedIn_showCursor (c : Cli) : executedIn (showCursor c).2 = [] := rfl
@[simp] theorem executedIn_nil : executedIn [] = [] := rfl

/-- Only the Enter key executes a line. -/
theorem executedIn_cliKey (hkey : key ≠ 10) : executedIn (cliKey names c key prompt).2 = [] := by
  have htab : executedIn (cliTab names prompt c).2 = [] := by
    rw [cliTab]
    split
    · rfl
    · split
      · rfl
      · rfl
      · simp [executedIn, redrawInputLine]
  simp only [cliKey, if_neg hkey, cliLeft, cliRight, cliDelete, cliBackspace, cliUp, cliDown,
    cliInsert]
  repeat' split
  all_goals simp [htab]

/-- The editor takes the key as the shell does. -/
theorem CliShows.turn (h : CliShows c e) (hkey : key ≠ 9) :
    CliShows (cliKey names c key prompt).1 ((editKey key).elim e e.press) := by
  rw [cliKey, editKey]
  by_cases hleft : key = keyLeft
  · rw [if_pos hleft, if_pos hleft]
    exact h.left
  rw [if_neg hleft, if_neg hleft]
  by_cases hright : key = keyRight
  · rw [if_pos hright, if_pos hright]
    exact h.right
  rw [if_neg hright, if_neg hright]
  by_cases hdelete : key = keyDelete
  · rw [if_pos hdelete, if_pos hdelete]
    exact h.delete
  rw [if_neg hdelete, if_neg hdelete]
  by_cases hback : key = 8
  · rw [if_pos hback, if_pos hback]
    exact h.backspace
  rw [if_neg hback, if_neg hback]
  by_cases hup : key = keyUp
  · rw [if_pos hup, if_pos hup]
    exact h.up
  rw [if_neg hup, if_neg hup]
  by_cases hdown : key = keyDown
  · rw [if_pos hdown, if_pos hdown]
    exact h.down
  rw [if_neg hdown, if_neg hdown, if_neg hkey]
  by_cases henter : key = 10
  · rw [if_pos henter, if_pos henter]
    exact (h.enter names prompt).1
  rw [if_neg henter, if_neg henter]
  by_cases hchar : 32 ≤ key ∧ key ≤ 126
  · have hne : UInt8.ofNat key.toNat ≠ 0 := by
      intro h0
      have hzero : (UInt8.ofNat key.toNat).toNat = 0 := congrArg UInt8.toNat h0
      rw [UInt8.toNat_ofNat'] at hzero
      omega
    rw [if_pos hchar]
    by_cases hroom : c.len < inputMax - 1
    · rw [if_pos ⟨hchar.1, hchar.2, hroom⟩]
      exact h.insert _ hne hroom
    · rw [if_neg (fun hall => hroom hall.2.2)]
      exact h.full _ hroom
  · rw [if_neg hchar, if_neg (fun hall => hchar ⟨hall.1, hall.2.1⟩)]
    exact h

theorem executedIn_append (out out' : List CliEvent) :
    executedIn (out ++ out') = executedIn out ++ executedIn out' := List.filterMap_append

/-- A line is executed as the editor has it. -/
theorem CliShows.output (h : CliShows c e) (hkey : key ≠ 9) :
    executedIn (cliKey names c key prompt).2 =
      if editKey key = some .enter ∧ e.line.text ≠ [] then [e.line.text] else [] := by
  by_cases henter : key = 10
  · subst henter
    have hedit : editKey 10 = some .enter := by decide
    have hout := (h.enter names prompt).2
    simp only [hedit, true_and]
    exact hout
  · have hedit : editKey key ≠ some .enter := by
      simp only [editKey, if_neg henter]
      repeat' split
      all_goals simp
    rw [if_neg fun hall => hedit hall.1]
    exact executedIn_cliKey names prompt henter

theorem CliShows.executes (h : CliShows c e) (keys : List (Int × UInt32 × UInt32))
    (hkeys : ∀ k ∈ keys, k.1 ≠ 9) : executedIn (cliRun names c keys).2.flatten =
      e.executed (keys.filterMap fun k => editKey k.1) := by
  induction keys generalizing c e with
  | nil => rfl
  | cons k ks ih =>
    have hk : k.1 ≠ 9 := hkeys k List.mem_cons_self
    have hnext := ih (h.turn names k.2 hk) fun k' hk' => hkeys k' (List.mem_cons_of_mem _ hk')
    rw [cliRun, List.flatten_cons, executedIn_append, hnext, h.output names k.2 hk,
      List.filterMap_cons]
    cases editKey k.1 with
    | none => simp
    | some press => simp [Editor.executed]

theorem cliStart_shows (input : Buf) (history : Nat → Buf) (prompt : UInt32 × UInt32) :
    CliShows (cliStart input history prompt) lineEditor := by
  refine .entered rfl rfl rfl rfl rfl rfl ?_
  intro i hi
  cases hi

/-- The shell runs the lines that the reference editor has at each Enter, whatever its arrays hold
at the start. -/
theorem cli_executes (names : List (List UInt8)) (input : Buf) (history : Nat → Buf)
    (prompt : UInt32 × UInt32) (keys : List (Int × UInt32 × UInt32))
    (hkeys : ∀ k ∈ keys, k.1 ≠ 9) :
    executedIn (cliRun names (cliStart input history prompt) keys).2.flatten =
      lineEditor.executed (keys.filterMap fun k => editKey k.1) :=
  (cliStart_shows input history prompt).executes names keys hkeys

/-- A line that is recalled and edited. -/
theorem cli_executes_recalled :
    executedIn (cliRun commandNames (cliStart (fun _ => 7) (fun _ _ => 7) (0, 2))
      ([108, 115, 10, keyUp, keyLeft, 8, 99, 10].map fun key => (key, 0, 2))).2.flatten =
    lineEditor.executed [.char 108, .char 115, .enter, .up, .left, .backspace, .char 99, .enter] :=
  cli_executes _ _ _ _ _ (by decide)

end Run

end VertexOS
