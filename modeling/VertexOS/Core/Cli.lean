import VertexOS.Core.NetCommands
import VertexOS.Library.LineEditor

namespace VertexOS

def inputMax : Nat := 128
def historyMax : Nat := 16

/-! The keys that are not characters. -/

def keyLeft : Int := 0x100
def keyRight : Int := 0x101
def keyDelete : Int := 0x102
def keyUp : Int := 0x103
def keyDown : Int := 0x104

/-- `copy_str`. -/
def copyStr (dst src : Buf) (max : Nat) : Buf :=
  if max = 0 then dst else putBytes dst 0 (textIn src (max - 1) ++ [0])

/-- `strings_equal` on two buffers of the shell. -/
def stringsEqual (a b : Buf) : Bool := textIn a inputMax = textIn b inputMax

/-- `starts_with`, from its index `i` on. -/
def startsWith (pre : Buf) (i : Nat) : List UInt8 → Bool
  | [] => pre i = 0
  | c :: cs => pre i = 0 || (c = pre i && startsWith pre (i + 1) cs)

/-- The calls of the shell. -/
inductive CliEvent where
  | beginUpdate
  | endUpdate
  | setCursor (row col : UInt32)
  | print (text : List UInt8)
  /-- `cli_print_prompt`. -/
  | prompt
  | execute (line : List UInt8)
  deriving DecidableEq, Repr

/-- The variables of `cli_run`. -/
structure Cli where
  input : Buf
  history : Nat → Buf
  len : Nat := 0
  cursor : Nat := 0
  prevLen : Nat := 0
  promptRow : UInt32
  promptCol : UInt32
  historyCount : Nat := 0
  historyPos : Int := -1

/-- `cli_run` before its loop, with what its arrays hold and where the prompt ends. -/
def cliStart (input : Buf) (history : Nat → Buf) (prompt : UInt32 × UInt32) : Cli where
  input := Function.update input 0 0
  history i := if i < historyMax then Function.update (history i) 0 0 else history i
  promptRow := prompt.1
  promptCol := prompt.2

def redrawInputLine (c : Cli) : Cli × List CliEvent :=
  ({ c with prevLen := c.len },
    [.beginUpdate, .setCursor c.promptRow c.promptCol, .print (bytesAt c.input 0 c.len),
      .print (List.replicate (c.prevLen - c.len) 32),
      .setCursor c.promptRow (c.promptCol + UInt32.ofNat c.cursor), .endUpdate])

/-- The cursor is shown where it is. -/
def showCursor (c : Cli) : Cli × List CliEvent :=
  (c, [.setCursor c.promptRow (c.promptCol + UInt32.ofNat c.cursor)])

/-- `input[i] = input[i + 1]` for the `k` indices from `i` on. -/
def closeGap (b : Buf) (i : Nat) : Nat → Buf
  | 0 => b
  | k + 1 => closeGap (Function.update b i (b (i + 1))) (i + 1) k

/-- `input[i] = input[i - 1]` for the `k` indices behind `i`, the last one first. -/
def openGap (b : Buf) (i : Nat) : Nat → Buf
  | 0 => b
  | k + 1 => openGap (Function.update b (i + k + 1) (b (i + k))) i k

def cliLeft (c : Cli) : Cli × List CliEvent :=
  if c.cursor > 0 then showCursor { c with cursor := c.cursor - 1 } else (c, [])

def cliRight (c : Cli) : Cli × List CliEvent :=
  if c.cursor < c.len then showCursor { c with cursor := c.cursor + 1 } else (c, [])

def cliDelete (c : Cli) : Cli × List CliEvent :=
  if c.cursor < c.len then
    redrawInputLine { c with
      input := closeGap c.input c.cursor (c.len - 1 - c.cursor)
      len := c.len - 1 }
  else (c, [])

def cliBackspace (c : Cli) : Cli × List CliEvent :=
  if c.cursor > 0 then
    redrawInputLine { c with
      input := closeGap c.input (c.cursor - 1) (c.len - c.cursor)
      cursor := c.cursor - 1
      len := c.len - 1 }
  else (c, [])

/-- The string in `input` is the line. -/
def takeLine (c : Cli) : Cli :=
  { c with len := (textIn c.input inputMax).length, cursor := (textIn c.input inputMax).length }

/-- An entry of the history is copied to `input`. -/
def recallLine (c : Cli) (pos : Int) : Cli :=
  takeLine { c with
    historyPos := pos
    input := copyStr c.input (c.history pos.toNat) inputMax }

def cliUp (c : Cli) : Cli × List CliEvent :=
  if c.historyCount > 0 then
    let pos := if c.historyPos < 0 then (c.historyCount : Int) - 1
      else if c.historyPos > 0 then c.historyPos - 1
      else c.historyPos
    redrawInputLine (recallLine c pos)
  else (c, [])

def cliDown (c : Cli) : Cli × List CliEvent :=
  if c.historyCount > 0 ∧ c.historyPos ≥ 0 then
    if c.historyPos < (c.historyCount : Int) - 1 then
      redrawInputLine (recallLine c (c.historyPos + 1))
    else
      redrawInputLine
        (takeLine { c with historyPos := -1, input := Function.update c.input 0 0 })
  else (c, [])

/-- The commands that complete what is in `input`. -/
def candidates (names : List (List UInt8)) (input : Buf) : List (List UInt8) :=
  names.filter (startsWith input 0)

/-- The only candidate becomes the line. -/
def completeLine (c : Cli) (name : List UInt8) : Cli :=
  let c := takeLine { c with input := copyStr c.input (bufOf name) inputMax }
  if c.len + 1 < inputMax then
    { c with
      input := Function.update (Function.update c.input c.len 32) (c.len + 1) 0
      len := c.len + 1
      cursor := c.len + 1 }
  else c

def cliTab (names : List (List UInt8)) (prompt : UInt32 × UInt32) (c : Cli) :
    Cli × List CliEvent :=
  if 32 ∈ bytesAt c.input 0 c.len ∨ c.cursor ≠ c.len ∨ c.len = 0 then (c, [])
  else
    match candidates names c.input with
    | [] => (c, [])
    | [name] => redrawInputLine (completeLine c name)
    | found =>
      let r := redrawInputLine { c with promptRow := prompt.1, promptCol := prompt.2 }
      (r.1, .print (ascii "\n") :: (found.map fun name => .print (name ++ ascii " ")) ++
        [.print (ascii "\n"), .prompt] ++ r.2)

/-- `copy_str(history[i - 1], history[i])` for the `k` indices from `i` on. -/
def shiftHistory (history : Nat → Buf) (i : Nat) : Nat → Nat → Buf
  | 0 => history
  | k + 1 =>
    shiftHistory (Function.update history (i - 1) (copyStr (history (i - 1)) (history i) inputMax))
      (i + 1) k

/-- The line goes into the history, unless it is there as the last entry. -/
def remember (c : Cli) : Cli :=
  if c.historyCount = 0 ∨ ¬stringsEqual (c.history (c.historyCount - 1)) c.input then
    if c.historyCount < historyMax then
      { c with
        history := Function.update c.history c.historyCount
          (copyStr (c.history c.historyCount) c.input inputMax)
        historyCount := c.historyCount + 1 }
    else
      let history := shiftHistory c.history 1 (historyMax - 1)
      { c with
        history := Function.update history (historyMax - 1)
          (copyStr (history (historyMax - 1)) c.input inputMax) }
  else c

/-- `command_execute` finds the command of a line, or there is none. -/
def commandFound (names : List (List UInt8)) (line : List UInt8) : Bool :=
  match (readArg line 32).1 with
  | some (c :: cs) => names.contains (c :: cs)
  | _ => true

/-- The line is remembered and executed. -/
def enterLine (names : List (List UInt8)) (c : Cli) : Cli × List CliEvent :=
  let line := textIn c.input inputMax
  if c.len > 0 then
    (remember c, .execute line :: if commandFound names line then [] else
      [.print (ascii "Unknown command: "), .print line, .print (ascii "\n")])
  else (c, [])

def cliEnter (names : List (List UInt8)) (prompt : UInt32 × UInt32) (c : Cli) :
    Cli × List CliEvent :=
  let r := enterLine names { c with input := Function.update c.input c.len 0 }
  ({ r.1 with
    len := 0
    cursor := 0
    prevLen := 0
    historyPos := -1
    input := Function.update r.1.input 0 0
    promptRow := prompt.1
    promptCol := prompt.2 },
    .print (ascii "\n") :: r.2 ++ [.prompt])

def cliInsert (c : Cli) (key : UInt8) : Cli × List CliEvent :=
  redrawInputLine { c with
    input := Function.update (openGap c.input c.cursor (c.len - c.cursor)) c.cursor key
    cursor := c.cursor + 1
    len := c.len + 1 }

/-- One turn of the loop of `cli_run`: the key, and where a prompt ends if one is printed. -/
def cliKey (names : List (List UInt8)) (c : Cli) (key : Int) (prompt : UInt32 × UInt32) :
    Cli × List CliEvent :=
  if key = keyLeft then cliLeft c
  else if key = keyRight then cliRight c
  else if key = keyDelete then cliDelete c
  else if key = 8 then cliBackspace c
  else if key = keyUp then cliUp c
  else if key = keyDown then cliDown c
  else if key = 9 then cliTab names prompt c
  else if key = 10 then cliEnter names prompt c
  else if 32 ≤ key ∧ key ≤ 126 ∧ c.len < inputMax - 1 then cliInsert c (UInt8.ofNat key.toNat)
  else (c, [])

/-- `cli_run` on a sequence of keys: its calls, key by key. -/
def cliRun (names : List (List UInt8)) (c : Cli) :
    List (Int × UInt32 × UInt32) → Cli × List (List CliEvent)
  | [] => (c, [])
  | k :: ks =>
    let r := cliKey names c k.1 k.2
    let r' := cliRun names r.1 ks
    (r'.1, r.2 :: r'.2)

def maxCommands : Nat := 48

/-- `command_register_full`, as far as the names of the commands go. -/
def registerCommand (names : List (List UInt8)) (name : List UInt8) : List (List UInt8) :=
  if names.length ≥ maxCommands ∨ name ∈ names then names else names ++ [name]

/-- The names that are registered after `commands_init`. -/
def commandNames : List (List UInt8) :=
  (["help", "clear", "echo", "uptime", "time", "panic", "restart", "shutdown", "meminfo", "alloc",
    "tasks", "yield", "syscall", "ls", "cat", "write", "touch", "mkdir", "rm", "cp", "mv", "cd",
    "pwd", "setenv", "getenv", "unsetenv", "exec", "edit", "ifconfig", "dhcp", "ping", "dns",
    "http"].map ascii).foldl registerCommand []

end VertexOS
