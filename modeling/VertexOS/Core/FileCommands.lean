import VertexOS.Core.Commands
import VertexOS.Core.Quoting

namespace VertexOS

/-! The commands that change files, from the argument line on. -/

/-- The size of a path buffer of a command. -/
def commandPathMax : Nat := 64

/-- `read_text_arg`: the text, if there is one, and what is left of the line. -/
def readTextArg (args : List UInt8) (outSize : Nat) : Option (List UInt8) × List UInt8 :=
  if outSize = 0 then (none, args)
  else
    match skipSpaces args with
    | [] => (none, [])
    | c :: cs =>
      if c = 34 ∨ c = 39 then readArg args outSize
      else
        let text := (c :: cs).take (outSize - 1)
        (if text.length > 0 then some text else none, (c :: cs).drop text.length)

inductive FileCommand where
  | write | touch | rm | cp | mv
  deriving DecidableEq, Repr

namespace FileCommand

def usage : FileCommand → String
  | write => "Usage: write <path> <text>\n"
  | touch => "Usage: touch <path>\n"
  | rm => "Usage: rm <path>\n"
  | cp => "Usage: cp <src> <dst>\n"
  | mv => "Usage: mv <src> <dst>\n"

/-- What a command reads of its line with `read` for its paths: the paths, and the text of `write`;
nothing where it prints its usage. -/
def arguments (read : List UInt8 → Option (List UInt8) × List UInt8) (c : FileCommand)
    (args : List UInt8) : Option (List (List UInt8) × List UInt8) :=
  match read args with
  | (none, _) | (some [], _) => none
  | (some path, rest) =>
    match c with
    | touch | rm => some ([path], [])
    | write => (readTextArg rest 128).1.map fun text => ([path], text)
    | cp | mv =>
      match (read rest).1 with
      | none | some [] => none
      | some dst => some ([path, dst], [])

/-- What the command reads into its buffers. -/
def read (c : FileCommand) (args : List UInt8) : Option (List (List UInt8) × List UInt8) :=
  c.arguments (fun args => readArg args commandPathMax) args

end FileCommand

/-- `cmd_write` once its arguments are read, and the text it prints. -/
def writeText (v : Vfs) (session : Int) (path text : List UInt8) : Except Fault (Vfs × String) := do
  match ← vfsOpen v session path copyFlags with
  | (v, none) => .ok (v, "write: open failed\n")
  | (v, some fd) =>
    match vfsWrite v fd.val (fun k => text.getD k 0) (UInt32.ofNat text.length) with
    | (v, n) => .ok (vfsClose v fd.val, "wrote " ++ toString n ++ " bytes\n")

/-- `cmd_touch` once its argument is read. -/
def touchFile (v : Vfs) (session : Int) (path : List UInt8) : Except Fault (Vfs × String) := do
  match ← vfsOpen v session path (vfsOWrite ||| vfsOCreate) with
  | (v, none) => .ok (v, "touch failed\n")
  | (v, some fd) => .ok (vfsClose v fd.val, "")

/-- `cmd_rm` once its argument is read. -/
def removeFile (v : Vfs) (session : Int) (path : List UInt8) : Except Fault (Vfs × String) := do
  match ← vfsRemove v session path with
  | (v, false) => .ok (v, "rm failed\n")
  | (v, true) => .ok (v, "")

/-- A file command once its arguments are read, and the text it prints. -/
def FileCommand.act (fuel : Nat) (c : FileCommand) (v : Vfs) (session : Int)
    (read : Option (List (List UInt8) × List UInt8)) : Except Fault (Option (Vfs × String)) :=
  match c, read with
  | .write, some ([path], text) => some <$> writeText v session path text
  | .touch, some ([path], _) => some <$> touchFile v session path
  | .rm, some ([path], _) => some <$> removeFile v session path
  | .cp, some ([src, dst], _) => cmdCp fuel v session src dst
  | .mv, some ([src, dst], _) => cmdMv fuel v session src dst
  | c, _ => .ok (some (v, c.usage))

/-- A file command on its argument line. -/
def runFileCommand (fuel : Nat) (c : FileCommand) (v : Vfs) (session : Int) (args : List UInt8) :
    Except Fault (Option (Vfs × String)) :=
  c.act fuel v session (c.read args)

/-- The rest of the line behind the argument that was typed. -/
def typedRest (args : List UInt8) : List UInt8 := (readArg args (args.length + 1)).2

/-- The arguments that were typed, complete. -/
def FileCommand.typed (c : FileCommand) (args : List UInt8) :
    Option (List (List UInt8) × List UInt8) :=
  c.arguments (fun args => (typedArg args, typedRest args)) args

/-- Every path that the command passes to the file system is the one that was typed. -/
def ActsOnTyped (c : FileCommand) (args : List UInt8) : Prop :=
  ∀ paths text, c.read args = some (paths, text) → ∃ text', c.typed args = some (paths, text')

section Typed

/-- How far the reader goes does not depend on its buffer. -/
theorem readArgLoop_rest (size size' : Nat) (quote : UInt8) (s out out' : List UInt8) :
    (readArgLoop size quote s out).2 = (readArgLoop size' quote s out').2 := by
  fun_induction readArgLoop size quote s out generalizing out' with
  | case1 out => rfl
  | case2 c cs out hend => simp only [readArgLoop.eq_def size' quote (c :: _), if_pos hend]
  | case3 c cs out hend hspace =>
    simp only [readArgLoop.eq_def size' quote (c :: _), if_neg hend, if_pos hspace]
  | case4 c out hend hspace d ds hesc ih =>
    simp only [readArgLoop.eq_def size' quote (c :: _), if_neg hend, if_neg hspace, if_pos hesc]
    exact ih _
  | case5 c out hend hspace d ds hesc ih =>
    simp only [readArgLoop.eq_def size' quote (c :: _), if_neg hend, if_neg hspace, if_neg hesc]
    exact ih _
  | case6 c out hend hspace =>
    simp only [readArgLoop.eq_def size' quote (c :: _), if_neg hend, if_neg hspace]

/-- A reader with a short buffer reads the front of the argument. -/
theorem readArg_typed (args : List UInt8) (k : Nat) :
    readArg args (k + 1) = ((typedArg args).map (·.take k), typedRest args) := by
  refine Prod.ext (readArg_take args k) ?_
  rw [typedRest, readArg, readArg, if_neg (by omega), if_neg (by omega)]
  split
  · rfl
  · split
    · exact readArgLoop_rest _ _ _ _ _ _
    · exact readArgLoop_rest _ _ _ _ _ _

/-- A command reads the fronts of its paths. -/
theorem FileCommand.read_typed (c : FileCommand) (args : List UInt8) : c.read args =
    (c.typed args).map fun r => (r.1.map (·.take (commandPathMax - 1)), r.2) := by
  have hread : ∀ args, readArg args commandPathMax =
      ((typedArg args).map (·.take (commandPathMax - 1)), typedRest args) :=
    fun args => readArg_typed args (commandPathMax - 1)
  rw [FileCommand.read, FileCommand.typed, FileCommand.arguments, FileCommand.arguments]
  simp only [hread]
  cases typedArg args with
  | none => rfl
  | some path =>
    cases path with
    | nil => simp
    | cons p ps =>
      cases c with
      | touch | rm => simp [commandPathMax]
      | write => simp [commandPathMax, Function.comp_def]
      | cp | mv =>
        simp only [Option.map_some, commandPathMax, Nat.add_one_sub_one, List.take_succ_cons]
        cases typedArg (typedRest args) with
        | none => rfl
        | some dst =>
          cases dst with
          | nil => simp
          | cons d ds => simp

theorem map_take_eq_self {l : List (List UInt8)} {k : Nat} :
    l.map (·.take k) = l ↔ ∀ t ∈ l, t.length ≤ k := by
  induction l with
  | nil => simp
  | cons t l ih => simp [ih]

/-- The buffers hold all paths of the line. -/
theorem FileCommand.read_fits_iff (c : FileCommand) (args : List UInt8) :
    c.read args = c.typed args ↔
      ∀ paths text, c.typed args = some (paths, text) → ∀ t ∈ paths, t.length < commandPathMax := by
  rw [c.read_typed]
  cases c.typed args with
  | none => simp
  | some r =>
    obtain ⟨paths, text⟩ := r
    have hfits : paths.map (·.take (commandPathMax - 1)) = paths ↔
        ∀ t ∈ paths, t.length < commandPathMax := map_take_eq_self.trans
      (forall₂_congr fun t _ => Nat.le_sub_one_iff_lt (by decide))
    simp [hfits]

end Typed

/-- The commands act on the paths that were typed if, and only if, these fit their buffers; what
they do is then what they do with the complete arguments. -/
theorem acts_on_typed_iff (c : FileCommand) (args : List UInt8) :
    (ActsOnTyped c args ↔
      ∀ paths text, c.typed args = some (paths, text) → ∀ t ∈ paths, t.length < commandPathMax) ∧
    (ActsOnTyped c args → ∀ fuel v session,
      runFileCommand fuel c v session args = c.act fuel v session (c.typed args)) := by
  have hread : ActsOnTyped c args ↔ c.read args = c.typed args := by
    rw [ActsOnTyped, c.read_typed]
    cases c.typed args with
    | none => simp
    | some r => simp [Prod.ext_iff, eq_comm]
  refine ⟨hread.trans (c.read_fits_iff args), fun h fuel v session => ?_⟩
  rw [runFileCommand, hread.mp h]

/-- A short name is removed as it was typed. -/
theorem acts_on_typed_short : ∀ fuel v session, runFileCommand fuel .rm v session [97] =
    some <$> removeFile v session [97] := by
  have htyped : FileCommand.rm.typed [97] = some ([[97]], []) := by decide +kernel
  obtain ⟨hiff, hact⟩ := acts_on_typed_iff .rm [97]
  intro fuel v session
  rw [hact (hiff.mpr ?_) fuel v session, htyped]
  · rfl
  · intro paths text heq t ht
    rw [htyped] at heq
    cases heq
    rw [List.mem_singleton.mp ht]
    decide

/-- A name of 64 characters: `rm` removes the file with the first 63. -/
theorem rm_acts_on_front : ¬ActsOnTyped .rm (List.replicate 64 97) := by
  intro h
  obtain ⟨text, htyped⟩ := h [List.replicate 63 97] [] (by decide +kernel)
  have hpaths : (FileCommand.rm.typed (List.replicate 64 97)).map (·.1) ≠
      some [List.replicate 63 97] := by
    decide +kernel
  rw [htyped] at hpaths
  exact hpaths rfl

end VertexOS
