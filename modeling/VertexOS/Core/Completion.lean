import VertexOS.Core.CliLines

namespace VertexOS
open Library.LineEditor

/-- What is on the line. -/
def Cli.line (c : Cli) : List UInt8 := bytesAt c.input 0 c.len

/-- What the buffer still holds behind the line, up to the next zero. -/
def Cli.behind (c : Cli) : List UInt8 := textIn (fun i => c.input (c.len + i)) (inputMax - c.len)

/-- The commands whose names start with the line. -/
def completions (names : List (List UInt8)) (line : List UInt8) : List (List UInt8) :=
  names.filter fun name => line.isPrefixOf name

/-- Tab completes what is on the line. -/
structure Completes (names : List (List UInt8)) (prompt : UInt32 × UInt32) (c : Cli) : Prop where
  candidates : candidates names c.input = completions names c.line
  one : ∀ name, completions names c.line = [name] →
    (cliTab names prompt c).1.line = name ++ ascii " "
  several : 2 ≤ (completions names c.line).length → ∃ redraw,
    (cliTab names prompt c).2 = .print (ascii "\n") ::
      (completions names c.line).map (fun name => .print (name ++ ascii " ")) ++
      .print (ascii "\n") :: .prompt :: redraw
  none : completions names c.line = [] → cliTab names prompt c = (c, [])

/-- Names that fit the line with a space behind them. -/
def Plain (names : List (List UInt8)) : Prop :=
  ∀ name ∈ names, 0 ∉ name ∧ name.length + 1 < inputMax

section Candidates

variable {b : Buf} {names : List (List UInt8)} {name : List UInt8} {size len i : Nat}

theorem textIn_succ (b : Buf) (size : Nat) : textIn b (size + 1) =
    if b 0 = 0 then [] else b 0 :: textIn (fun i => b (1 + i)) size := by
  have hcons : bytesAt b 0 (size + 1) = b 0 :: bytesAt (fun i => b (1 + i)) 0 size := by
    rw [Nat.add_comm, bytesAt_add]
    simp [bytesAt]
  rw [textIn, hcons]
  by_cases h0 : b 0 = 0 <;> simp [h0, textIn]

/-- `starts_with` compares with the string in the buffer. -/
theorem startsWith_iff (hplain : 0 ∉ name) (hshort : name.length < size) :
    startsWith b i name = true ↔ textIn (fun j => b (i + j)) size <+: name := by
  obtain ⟨k, rfl⟩ := Nat.exists_eq_succ_of_ne_zero (Nat.ne_zero_of_lt hshort)
  induction name generalizing i k with
  | nil =>
    rw [startsWith, textIn_succ]
    by_cases h0 : b i = 0 <;> simp [h0]
  | cons c cs ih =>
    rw [List.length_cons] at hshort
    obtain ⟨m, rfl⟩ := Nat.exists_eq_succ_of_ne_zero (show k ≠ 0 by omega)
    obtain ⟨hc, hcs⟩ := not_or.mp (mt List.mem_cons.mpr hplain)
    have hshift : (fun j => b (i + (1 + j))) = fun j => b (i + 1 + j) := by
      funext j
      rw [Nat.add_assoc]
    have hrest : startsWith b (i + 1) cs = true ↔ _ := ih hcs m (by omega)
    rw [startsWith, textIn_succ, hshift]
    simp only [Nat.add_zero]
    by_cases h0 : b i = 0
    · simp [h0]
    · rw [if_neg h0, List.cons_prefix_cons, ← hrest]
      simp [h0, eq_comm (a := c)]

theorem textIn_append (b : Buf) (len k : Nat) (hplain : 0 ∉ bytesAt b 0 len) :
    textIn b (len + k) = bytesAt b 0 len ++ textIn (fun i => b (len + i)) k := by
  have hshift : bytesAt b (0 + len) k = bytesAt (fun i => b (len + i)) 0 k := by
    simp [bytesAt]
  rw [textIn, bytesAt_add, List.takeWhile_append_of_pos, hshift, textIn]
  intro c hc
  simpa using fun h0 : c = 0 => hplain (h0 ▸ hc)

/-- What is completed is the line with what is behind it. -/
theorem startsWith_line {c : Cli} (hline : 0 ∉ c.line) (hlen : c.len ≤ inputMax)
    (hplain : 0 ∉ name) (hshort : name.length < inputMax) :
    startsWith c.input 0 name = true ↔ c.line ++ c.behind <+: name := by
  have hsplit : textIn c.input inputMax = c.line ++ c.behind := by
    rw [← Nat.add_sub_of_le hlen]
    rw [textIn_append c.input c.len (inputMax - c.len) hline]
    rfl
  rw [startsWith_iff hplain hshort]
  simp only [Nat.zero_add]
  rw [hsplit]

theorem candidates_iff {c : Cli} (hnames : Plain names) (hline : 0 ∉ c.line)
    (hlen : c.len ≤ inputMax) : candidates names c.input = completions names c.line ↔
      ∀ name ∈ names, c.line <+: name → c.line ++ c.behind <+: name := by
  have hstarts : ∀ name ∈ names,
      (startsWith c.input 0 name = true ↔ c.line ++ c.behind <+: name) := by
    intro name hname
    obtain ⟨hplain, hshort⟩ := hnames name hname
    exact startsWith_line hline hlen hplain (by omega)
  constructor
  · intro heq name hname hprefix
    have hmem : name ∈ candidates names c.input := by
      rw [heq, completions, List.mem_filter, List.isPrefixOf_iff_prefix]
      exact ⟨hname, hprefix⟩
    exact (hstarts name hname).mp (List.mem_filter.mp hmem).2
  · intro hcond
    refine List.filter_congr ?_
    intro name hname
    rw [Bool.eq_iff_iff, hstarts name hname, List.isPrefixOf_iff_prefix]
    exact ⟨(List.prefix_append _ _).trans, hcond name hname⟩

end Candidates

section Tab

variable {names : List (List UInt8)} {c : Cli} {e : LineEditor} {prompt : UInt32 × UInt32}

theorem isText_bufOf {t : List UInt8} (hplain : 0 ∉ t) : IsText (bufOf t) t :=
  ⟨bytesAt_bufOf t, hplain, by simp [bufOf]⟩

/-- The candidate with a space behind it. -/
theorem completeLine_eq {name : List UInt8} (hplain : 0 ∉ name)
    (hshort : name.length + 1 < inputMax) :
    ∃ b, bytesAt b 0 (name.length + 1) = name ++ ascii " " ∧
      completeLine c name =
        { c with input := b, len := name.length + 1, cursor := name.length + 1 } := by
  have htext : IsText (copyStr c.input (bufOf name) inputMax) name :=
    (isText_bufOf hplain).copy c.input (by omega)
  have hread : textIn (copyStr c.input (bufOf name) inputMax) inputMax = name :=
    htext.read (by omega)
  refine ⟨Function.update (Function.update (copyStr c.input (bufOf name) inputMax) name.length 32)
      (name.length + 1) 0, ?_, ?_⟩
  · rw [bytesAt_add]
    congr 1
    · refine Eq.trans (bytesAt_congr ?_) htext.bytes
      intro i hi
      rw [Function.update_of_ne (by omega), Function.update_of_ne (by omega)]
    · simp [bytesAt, ascii]
  · simp only [completeLine, takeLine, hread, if_pos hshort]

theorem completeLine_line (hnames : Plain names) {name : List UInt8} (hname : name ∈ names) :
    (completeLine c name).line = name ++ ascii " " := by
  obtain ⟨hplain, hshort⟩ := hnames name hname
  obtain ⟨b, hb, heq⟩ := completeLine_eq (c := c) hplain hshort
  rw [heq]
  exact hb

/-- Tab keeps the line that it completes, or puts another one. -/
theorem CliShows.tab (prompt : UInt32 × UInt32) (hnames : Plain names) (h : CliShows c e) :
    ∃ e', CliShows (cliTab names prompt c).1 e' := by
  rw [cliTab]
  split
  · exact ⟨e, h⟩
  · split
    · exact ⟨e, h⟩
    · next name hone =>
      have hname : name ∈ names := by
        have hmem : name ∈ candidates names c.input := by rw [hone]; exact List.mem_singleton_self _
        exact (List.mem_filter.mp hmem).1
      obtain ⟨hplain, hshort⟩ := hnames name hname
      obtain ⟨b, hb, heq⟩ := completeLine_eq (c := c) hplain hshort
      have hfits : (name ++ ascii " ").length ≤ inputMax - 1 := by
        rw [List.length_append]
        change name.length + 1 ≤ _
        omega
      refine ⟨e.edit fun _ => .ofText (name ++ ascii " ") hfits, ?_⟩
      rw [heq]
      refine h.edit _ hb ?_ ?_ rfl rfl rfl
      · simp [Line.ofText, hplain, ascii]
      · simp [Line.ofText, redrawInputLine, ascii]
    · exact ⟨e, h.text, h.plain, h.cursor, h.count, h.history, h.pos⟩

/-- Whatever the keys are, the shell has a line with a cursor in it. -/
theorem CliShows.run (hnames : Plain names) (h : CliShows c e)
    (keys : List (Int × UInt32 × UInt32)) : ∃ e', CliShows (cliRun names c keys).1 e' := by
  induction keys generalizing c e with
  | nil => exact ⟨e, h⟩
  | cons k ks ih =>
    by_cases htab : k.1 = 9
    · have hkey : cliKey names c k.1 k.2 = cliTab names k.2 c := by
        rw [htab]
        rfl
      obtain ⟨e', he'⟩ := h.tab k.2 hnames
      rw [← hkey] at he'
      exact ih he'
    · exact ih (h.turn names k.2 htab)

@[simp] theorem redrawInputLine_line (c : Cli) : (redrawInputLine c).1.line = c.line := rfl

/-- What Tab does once its candidates are the completions of the line. -/
theorem completes_of_candidates (hnames : Plain names) (hspace : 32 ∉ c.line)
    (hcursor : c.cursor = c.len) (hlen : c.len ≠ 0)
    (hsame : candidates names c.input = completions names c.line) : Completes names prompt c := by
  have htab : ¬(32 ∈ bytesAt c.input 0 c.len ∨ c.cursor ≠ c.len ∨ c.len = 0) := by
    simp only [not_or, not_not]
    exact ⟨hspace, hcursor, hlen⟩
  refine ⟨hsame, ?_, ?_, ?_⟩
  · intro name hone
    have hname : name ∈ completions names c.line := by rw [hone]; exact List.mem_singleton_self _
    rw [cliTab, if_neg htab, hsame, hone]
    exact (redrawInputLine_line _).trans (completeLine_line hnames (List.mem_filter.mp hname).1)
  · intro hmany
    rw [cliTab, if_neg htab, hsame]
    refine ⟨(redrawInputLine { c with promptRow := prompt.1, promptCol := prompt.2 }).2, ?_⟩
    cases hfound : completions names c.line with
    | nil => simp [hfound] at hmany
    | cons name rest =>
      cases rest with
      | nil => simp [hfound] at hmany
      | cons name' rest => simp only [List.append_assoc, List.cons_append, List.nil_append]
  · intro hnone
    rw [cliTab, if_neg htab, hsame, hnone]

theorem plain_commandNames : Plain commandNames := by
  unfold Plain
  decide +kernel

variable {input : Buf} {history : Nat → Buf} {start : UInt32 × UInt32}
  {keys : List (Int × UInt32 × UInt32)}

/-- After any keys, Tab completes the line if, and only if, what the buffer still holds behind the
line continues every command that starts with the line. -/
theorem tab_completes_iff (prompt : UInt32 × UInt32)
    (hc : (cliRun commandNames (cliStart input history start) keys).1 = c) (hlen : c.len ≠ 0)
    (hspace : 32 ∉ c.line) (hcursor : c.cursor = c.len) :
    Completes commandNames prompt c ↔
      ∀ name ∈ commandNames, c.line <+: name → c.line ++ c.behind <+: name := by
  obtain ⟨e, he⟩ := (cliStart_shows input history start).run plain_commandNames keys
  rw [hc] at he
  have hzero : 0 ∉ c.line := by
    rw [Cli.line, he.text]
    exact he.plain
  have hfits : c.len ≤ inputMax := by
    rw [he.len]
    exact Nat.le_trans e.line.fits (Nat.sub_le _ _)
  have hiff := candidates_iff plain_commandNames hzero hfits
  constructor
  · intro h
    exact hiff.mp h.candidates
  · intro h
    exact completes_of_candidates plain_commandNames hspace hcursor hlen (hiff.mpr h)

/-- The shell after some characters, its arrays empty at the start. -/
def cliTyped (keys : List Int) : Cli :=
  (cliRun commandNames (cliStart (fun _ => 0) (fun _ _ => 0) (0, 2))
    (keys.map fun key => (key, 0, 2))).1

/-- A new line is completed. -/
theorem tab_completes_typed : Completes commandNames (0, 2) (cliTyped [104, 101, 108]) :=
  (tab_completes_iff (0, 2) rfl (by decide +kernel) (by decide +kernel) (by decide +kernel)).mpr
    (by decide +kernel)

/-- `hx` and Backspace: the `x` is still compared. -/
theorem tab_completes_erased : ¬Completes commandNames (0, 2) (cliTyped [104, 120, 8]) := by
  intro h
  exact absurd h.candidates (by decide +kernel)

end Tab

end VertexOS
