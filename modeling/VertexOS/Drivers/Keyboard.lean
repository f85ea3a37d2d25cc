import VertexOS.Core.Cli

namespace VertexOS

def keyF2 : Int := 0x105
def keyF10 : Int := 0x106

def scancodeMap : List UInt8 :=
  [0, 27] ++ ascii "1234567890-=" ++ [8, 9] ++ ascii "qwertyuiop[]" ++ [10, 0] ++
    ascii "asdfghjkl;" ++ [39, 96, 0, 92] ++ ascii "zxcvbnm,./" ++ [0, 42, 0, 32]

def scancodeShiftMap : List UInt8 :=
  [0, 27] ++ ascii "!@#$%^&*()_+" ++ [8, 9] ++ ascii "QWERTYUIOP\x7b\x7d" ++ [10, 0] ++
    ascii "ASDFGHJKL:" ++ [34, 126, 0, 124] ++ ascii "ZXCVBNM<>?" ++ [0, 42, 0, 32]

/-- Behind the characters that are given, the tables are zero. -/
def scancodeToAscii (scancode : UInt8) (shiftDown : Bool) : UInt8 :=
  if scancode < 128 then
    (if shiftDown then scancodeShiftMap else scancodeMap).getD scancode.toNat 0
  else 0

/-- `kb_extended` and `kb_shift_down`; `keyboard_init` clears both. -/
structure KeyDecoder where
  extended : Bool
  shiftDown : Bool
deriving DecidableEq

def KeyDecoder.init : KeyDecoder := ⟨false, false⟩

/-- The keys that are known behind an `0xE0`. -/
def extendedKey (scancode : UInt8) : Option Int :=
  if scancode = 0x4B then some keyLeft
  else if scancode = 0x4D then some keyRight
  else if scancode = 0x53 then some keyDelete
  else if scancode = 0x48 then some keyUp
  else if scancode = 0x50 then some keyDown
  else none

def isShift (scancode : UInt8) : Bool := scancode = 0x2A ∨ scancode = 0x36

/-- `keyboard_irq_handler` on the byte of the data port: the decoder and the key that is
routed. -/
def keyboardIrqHandler (k : KeyDecoder) (scancode : UInt8) : KeyDecoder × Option Int :=
  if scancode = 0xE0 then ({ k with extended := true }, none)
  else if k.extended then
    ({ k with extended := false }, if scancode &&& 0x80 = 0 then extendedKey scancode else none)
  else if scancode &&& 0x80 ≠ 0 then
    (if isShift (scancode &&& 0x7F) then { k with shiftDown := false } else k, none)
  else if isShift scancode then ({ k with shiftDown := true }, none)
  else if scancode = 0x3C then (k, some keyF2)
  else if scancode = 0x44 then (k, some keyF10)
  else
    let key := scancodeToAscii scancode k.shiftDown
    (k, if key ≠ 0 then some key.toNat else none)

/-- The bytes of the data port, one interrupt each. -/
def keyboardBytes (k : KeyDecoder) : List UInt8 → KeyDecoder × List Int
  | [] => (k, [])
  | scancode :: bytes =>
    let r := keyboardIrqHandler k scancode
    let rest := keyboardBytes r.1 bytes
    (rest.1, r.2.toList ++ rest.2)

theorem keyboardBytes_append (k : KeyDecoder) (bytes more : List UInt8) :
    keyboardBytes k (bytes ++ more) =
      ((keyboardBytes (keyboardBytes k bytes).1 more).1,
        (keyboardBytes k bytes).2 ++ (keyboardBytes (keyboardBytes k bytes).1 more).2) := by
  induction bytes generalizing k with
  | nil => simp [keyboardBytes]
  | cons scancode bytes ih => simp [keyboardBytes, ih]

end VertexOS
