import VertexOS.Drivers.Keyboard

namespace VertexOS

/-- A key goes down, comes up or repeats; the byte of a release is the code with the top bit.
No key has the code `0x60`, whose release would be `0xE0`. -/
structure KeyStroke where
  extended : Bool
  code : UInt8
  press : Bool
  low : code < 128
  real : code ≠ 0x60

def KeyStroke.bytes (e : KeyStroke) : List UInt8 :=
  (if e.extended then [0xE0] else []) ++ [if e.press then e.code else e.code ||| 0x80]

/-- Two keys may share a code, one of them behind a prefix. -/
def KeyStroke.key (e : KeyStroke) : Bool × UInt8 := (e.extended, e.code)

def strokeBytes (es : List KeyStroke) : List UInt8 := es.flatMap KeyStroke.bytes

/-- The last stroke of the key has been a press. -/
def isDown (key : Bool × UInt8) (es : List KeyStroke) : Bool :=
  es.foldl (fun down e => if e.key = key then e.press else down) false

def shiftHeld (es : List KeyStroke) : Bool := isDown (false, 0x2A) es || isDown (false, 0x36) es

/-- Every stroke of the stream is so after the strokes before it. -/
def EachStroke (P : List KeyStroke → KeyStroke → Prop) (es : List KeyStroke) : Prop :=
  ∀ pre e post, es = pre ++ e :: post → P pre e

/-- Only a key that is down comes up. -/
def WellFormedStrokes : List KeyStroke → Prop :=
  EachStroke fun pre e => e.press = false → isDown e.key pre = true

def KeyStroke.shift (e : KeyStroke) : Bool := !e.extended && isShift e.code

/-- The last stroke of a shift key, whichever it is, has been a press. -/
def lastShiftPressed (es : List KeyStroke) : Bool :=
  es.foldl (fun down e => if e.shift then e.press else down) false

def decoderAfter (es : List KeyStroke) : KeyDecoder := (keyboardBytes .init (strokeBytes es)).1

/-- The keys that a stroke routes. -/
def strokeKeys (pre : List KeyStroke) (e : KeyStroke) : List Int :=
  (keyboardBytes (decoderAfter pre) e.bytes).2

def printableKey (code : UInt8) : Prop :=
  32 ≤ scancodeToAscii code false ∧ scancodeToAscii code false < 127

instance (code : UInt8) : Decidable (printableKey code) := inferInstanceAs (Decidable (_ ∧ _))

/-- The stroke delivers what the keys held ask for. -/
structure FollowsShift (pre : List KeyStroke) (e : KeyStroke) : Prop where
  plain : e.extended = false → e.press = true → printableKey e.code →
    strokeKeys pre e = [((scancodeToAscii e.code (shiftHeld pre)).toNat : Int)]
  state : e.extended = true →
    (decoderAfter (pre ++ [e])).shiftDown = (decoderAfter pre).shiftDown
  extended : e.extended = true → ∀ key ∈ strokeKeys pre e, 0xFF < key

/-- A printable key with two characters is pressed. -/
def KeyStroke.cased (e : KeyStroke) : Prop :=
  e.extended = false ∧ e.press = true ∧ printableKey e.code ∧
    scancodeToAscii e.code true ≠ scancodeToAscii e.code false

section Strokes

variable {pre es : List KeyStroke} {e : KeyStroke} {k : KeyDecoder} {key : Int}

@[simp] theorem isDown_snoc (key : Bool × UInt8) :
    isDown key (es ++ [e]) = if e.key = key then e.press else isDown key es := by
  simp [isDown]

@[simp] theorem lastShiftPressed_snoc :
    lastShiftPressed (es ++ [e]) = if e.shift then e.press else lastShiftPressed es := by
  simp [lastShiftPressed]

@[simp] theorem eachStroke_nil (P : List KeyStroke → KeyStroke → Prop) : EachStroke P [] := by
  intro pre e post heq
  simp at heq

@[simp] theorem eachStroke_snoc (P : List KeyStroke → KeyStroke → Prop) :
    EachStroke P (es ++ [e]) ↔ EachStroke P es ∧ P es e := by
  constructor
  · intro h
    refine ⟨?_, h es e [] rfl⟩
    intro pre e' post heq
    exact h pre e' (post ++ [e]) (by simp [heq])
  · intro h pre e' post heq
    cases post using List.reverseRecOn with
    | nil =>
      obtain ⟨rfl, hlast⟩ := List.append_inj' heq rfl
      simp only [List.cons.injEq, and_true] at hlast
      exact hlast ▸ h.2
    | append_singleton post last =>
      rw [← List.cons_append, ← List.append_assoc] at heq
      exact h.1 pre e' post (List.append_inj' heq rfl).1

/-- The top bit of a release, and what is left without it. -/
theorem release_bits : ∀ code : UInt8, code < 128 →
    code &&& 0x80 = 0 ∧ (code ||| 0x80) &&& 0x80 ≠ 0 ∧ (code ||| 0x80) &&& 0x7F = code ∧
      (code ≠ 0x60 → code ||| 0x80 ≠ 0xE0) := by
  decide +kernel

theorem low_ne_prefix (h : e.code < 128) : e.code ≠ 0xE0 := by
  intro he
  simp [he] at h

/-- A printable key is no shift key and none of the function keys. -/
theorem printableKey_plain : ∀ code : UInt8, printableKey code →
    isShift code = false ∧ code ≠ 0x3C ∧ code ≠ 0x44 ∧ ∀ shift, scancodeToAscii code shift ≠ 0 := by
  decide +kernel

theorem extendedKey_large (h : key ∈ extendedKey e.code) : 0xFF < key := by
  simp only [extendedKey] at h
  repeat' split at h
  all_goals simp_all [keyLeft, keyRight, keyDelete, keyUp, keyDown]
  all_goals simp [← h]

/-- What a whole stroke does. -/
theorem keyboardBytes_stroke (hk : k.extended = false) :
    (keyboardBytes k e.bytes).1 = ⟨false, if e.shift then e.press else k.shiftDown⟩ := by
  obtain ⟨extended, code, press, low, real⟩ := e
  obtain ⟨hlow, htop, hcode, hprefix⟩ := release_bits code low
  have hne : code ≠ 0xE0 := low_ne_prefix (e := ⟨extended, code, press, low, real⟩) low
  obtain ⟨kext, kshift⟩ := k
  subst hk
  cases extended <;> cases press <;>
    simp [KeyStroke.bytes, KeyStroke.shift, keyboardBytes, keyboardIrqHandler, hlow, htop, hcode,
      hprefix real, hne]
  all_goals repeat' split
  all_goals simp_all

/-- The decoder keeps the last stroke of the shift keys. -/
theorem decoderAfter_eq (es : List KeyStroke) :
    decoderAfter es = ⟨false, lastShiftPressed es⟩ := by
  induction es using List.reverseRecOn with
  | nil => rfl
  | append_singleton es e ih =>
    have hbytes : strokeBytes (es ++ [e]) = strokeBytes es ++ e.bytes := by simp [strokeBytes]
    rw [decoderAfter, hbytes, keyboardBytes_append]
    change (keyboardBytes (decoderAfter es) e.bytes).1 = _
    rw [keyboardBytes_stroke (by rw [ih]), ih, lastShiftPressed_snoc]

/-- What a whole stroke routes, from a decoder outside a prefix. -/
theorem strokeKeys_extended (h : e.extended = true) (hkey : key ∈ strokeKeys pre e) :
    0xFF < key := by
  obtain ⟨extended, code, press, low, real⟩ := e
  obtain ⟨hlow, htop, -, hprefix⟩ := release_bits code low
  have hne : code ≠ 0xE0 := low_ne_prefix (e := ⟨extended, code, press, low, real⟩) low
  simp only at h
  subst h
  cases press with
  | true =>
    have hmem : key ∈ extendedKey code := by
      simpa [strokeKeys, KeyStroke.bytes, keyboardBytes, keyboardIrqHandler, hlow, hne] using hkey
    exact extendedKey_large (e := ⟨true, code, true, low, real⟩) hmem
  | false =>
    simp [strokeKeys, KeyStroke.bytes, keyboardBytes, keyboardIrqHandler, htop, hprefix real] at hkey

theorem strokeKeys_plain (hext : e.extended = false) (hpress : e.press = true)
    (hprint : printableKey e.code) :
    strokeKeys pre e = [((scancodeToAscii e.code (lastShiftPressed pre)).toNat : Int)] := by
  obtain ⟨hshift, hF2, hF10, hchar⟩ := printableKey_plain e.code hprint
  have hlow := (release_bits e.code e.low).1
  have hne := low_ne_prefix e.low
  rw [strokeKeys, decoderAfter_eq]
  simp [KeyStroke.bytes, hext, hpress, keyboardBytes, keyboardIrqHandler, hne, hlow, hshift, hF2,
    hF10, hchar]

/-- A shift key whose last stroke of all was a press is down. -/
theorem lastShiftPressed_held (h : lastShiftPressed pre = true) : shiftHeld pre = true := by
  induction pre using List.reverseRecOn with
  | nil => simp [lastShiftPressed] at h
  | append_singleton es e ih =>
    obtain ⟨extended, code, press, low, real⟩ := e
    simp only [lastShiftPressed_snoc, KeyStroke.shift, isShift] at h
    simp only [shiftHeld, isDown_snoc, KeyStroke.key] at ih ⊢
    cases extended <;> grind

theorem followsShift_iff :
    FollowsShift pre e ↔ (e.cased → shiftHeld pre = true → lastShiftPressed pre = true) := by
  constructor
  · intro h hcased hheld
    obtain ⟨hext, hpress, hprint, hne⟩ := hcased
    have heq := h.plain hext hpress hprint
    rw [strokeKeys_plain hext hpress hprint, hheld] at heq
    by_contra hlast
    rw [Bool.not_eq_true] at hlast
    rw [hlast] at heq
    simp only [List.cons.injEq, Int.natCast_inj, and_true] at heq
    exact hne (UInt8.toNat_inj.mp heq).symm
  · intro h
    constructor
    case plain =>
      intro hext hpress hprint
      rw [strokeKeys_plain hext hpress hprint]
      by_cases hne : scancodeToAscii e.code true = scancodeToAscii e.code false
      · cases lastShiftPressed pre <;> cases shiftHeld pre <;> simp [hne]
      · have heq : lastShiftPressed pre = shiftHeld pre := by
          rw [Bool.eq_iff_iff]
          exact ⟨lastShiftPressed_held, h ⟨hext, hpress, hprint, hne⟩⟩
        rw [heq]
    case state =>
      intro hext
      simp [decoderAfter_eq, KeyStroke.shift, hext]
    case extended =>
      intro hext key hkey
      exact strokeKeys_extended hext hkey

end Strokes

/-- In a stream of strokes the characters follow the shift keys that are held if and only if no
key with two characters is pressed while one shift key is held and the other has come up
since. -/
theorem shift_followed_iff (es : List KeyStroke) :
    EachStroke FollowsShift es ↔
    EachStroke (fun pre e => e.cased → shiftHeld pre = true → lastShiftPressed pre = true) es := by
  simp only [EachStroke, followsShift_iff]

/-- Both shift keys go down and the right one comes up. -/
def rightShiftReleased : List KeyStroke :=
  [] ++ [⟨false, 0x2A, true, by decide, by decide⟩] ++
    [⟨false, 0x36, true, by decide, by decide⟩] ++ [⟨false, 0x36, false, by decide, by decide⟩]

def pressA : KeyStroke := ⟨false, 0x1E, true, by decide, by decide⟩

/-- The left shift key is still held, and the letter is no capital. -/
theorem shift_released_once :
    WellFormedStrokes (rightShiftReleased ++ [pressA]) ∧
      ¬ EachStroke FollowsShift (rightShiftReleased ++ [pressA]) := by
  constructor
  · simp only [WellFormedStrokes, rightShiftReleased, eachStroke_snoc, eachStroke_nil]
    decide +kernel
  · rw [eachStroke_snoc]
    intro h
    have hkeys := h.2.plain rfl rfl (by decide +kernel)
    exact absurd hkeys (by decide +kernel)

end VertexOS
