import Demangle.Fault
import Demangle.Text.Escape

/-!
# The cursor

A mangled name is read byte by byte, but names inside it are texts. So the input is a list of
`Cell`s: a byte, and on the first byte of each character that character. A `Cursor` is a place in
such a list, held as the cells before it (last one first) and the cells after it; moving it keeps

    cursor.before.reverse ++ cursor.rest

A `Scan` is a step that reads at a cursor. A step that fails leaves the cursor where it was, except
that `readLetter` has read the letter it refuses.
-/

namespace Demangle

/-! ## Cells -/

/-- One byte of the input, and the character whose encoding it begins. -/
structure Cell where
  byte : UInt8
  begins : Option Char
  deriving DecidableEq, Inhabited, Repr

namespace Cell

/-- The cells of one character. -/
def ofChar (c : Char) : List Cell :=
  match String.utf8EncodeChar c with
  | [] => []
  | b :: bs => ⟨b, some c⟩ :: bs.map (⟨·, none⟩)

/-- The cells of a text. -/
def ofString (s : String) : List Cell :=
  s.toList.flatMap ofChar

/-- The text of a list of cells: the characters that begin in it. -/
def text (cs : List Cell) : String :=
  String.ofList (cs.filterMap begins)

/-- The place in front of these cells lies between two characters. -/
def atBoundary : List Cell → Bool
  | [] => true
  | c :: _ => c.begins.isSome

/-- The byte as a character of the first 256. -/
def letter (c : Cell) : Char :=
  Char.ofUInt8 c.byte

/-- The byte is an ASCII digit. -/
def isDigit (c : Cell) : Bool :=
  c.letter.isDigit

/-- The value of an ASCII digit. -/
def digit (c : Cell) : Nat :=
  c.byte.toNat - '0'.toNat

end Cell

/-! ## Places -/

/-- A place in the input. -/
structure Cursor where
  /-- The cells before the place, last one first. -/
  before : List Cell
  /-- The cells after the place. -/
  rest : List Cell
  deriving DecidableEq, Inhabited, Repr

namespace Cursor

/-- The start of a text. -/
def ofString (s : String) : Cursor :=
  ⟨[], Cell.ofString s⟩

/-- The byte offset of the place. -/
def position (c : Cursor) : Nat :=
  c.before.length

/-- The number of bytes of the input. -/
def size (c : Cursor) : Nat :=
  c.before.length + c.rest.length

/-- The place `n` bytes further on, or the end. -/
def advance (c : Cursor) (n : Nat) : Cursor :=
  ⟨(c.rest.take n).reverse ++ c.before, c.rest.drop n⟩

/-- The place `n` bytes back, or the start. -/
def retreat (c : Cursor) (n : Nat) : Cursor :=
  ⟨c.before.drop n, (c.before.take n).reverse ++ c.rest⟩

/-- The start of the input. -/
def rewind (c : Cursor) : Cursor :=
  ⟨[], c.before.reverse ++ c.rest⟩

end Cursor

/-! ## Decimal integers -/

/-- The digits in front, never counting the last byte of the input: an operator that ends the input
stays an operator. -/
def digitRun : List Cell → List Cell
  | d :: c :: r => if d.isDigit then d :: digitRun (c :: r) else []
  | _ => []

/-- The value of a run of digits after the digits already worth `value`. If it reaches 2^64, the
number of digits read before the one that makes it so. -/
def decimal (value : Nat) : List Cell → Except Nat Nat
  | [] => .ok value
  | d :: ds =>
    let value := value * 10 + d.digit
    if value < UInt64.size then
      match decimal value ds with
      | .ok v => .ok v
      | .error i => .error (i + 1)
    else .error 0

/-! ## Steps -/

/-- A step that reads at a cursor. -/
abbrev Scan := EStateM Fault Cursor

namespace Scan

variable {α : Type}

/-- Fails at the cursor. -/
def fail (cause : Cause) : Scan α :=
  fun c => .error ⟨cause, c.position⟩ c

/-- The byte offset of the cursor. -/
def position : Scan Nat :=
  fun c => .ok c.position c

/-- Nothing is left to read. -/
def isAtEnd : Scan Bool :=
  fun c => .ok c.rest.isEmpty c

/-- The number of bytes left to read. -/
def remaining : Scan Nat :=
  fun c => .ok c.rest.length c

/-- Goes to the start of the input. -/
def reset : Scan Unit :=
  fun c => .ok () c.rewind

/-- Goes back `n` bytes, at least one and at most to the start. -/
def back (n : Nat) : Scan Unit :=
  fun c => .ok () (c.retreat (max n 1))

/-- The byte `k` places ahead, 0 beyond the end. -/
def peekAt (k : Nat) : Scan UInt8 :=
  fun c => .ok (c.rest[k]?.elim 0 Cell.byte) c

/-- The next byte as a letter, without reading it. -/
def peek? : Scan (Option Char) :=
  fun c => .ok (c.rest.head?.map Cell.letter) c

/-- Reads one byte. -/
def next : Scan UInt8 :=
  fun c => match c.rest with
  | x :: _ => .ok x.byte (c.advance 1)
  | [] => .error ⟨.ended, c.position⟩ c

/-- Reads the given byte if it is next. -/
def acceptByte (b : UInt8) : Scan Bool :=
  fun c => match c.rest with
  | x :: _ => if x.byte == b then .ok true (c.advance 1) else .ok false c
  | [] => .ok false c

/-- Reads the given ASCII letter if it is next. -/
def accept (letter : Char) : Scan Bool :=
  acceptByte letter.toUInt8

/-- Reads the given text if it is next. The empty text never is. -/
def acceptText (s : String) : Scan Bool :=
  fun c =>
    let bytes := s.toList.flatMap String.utf8EncodeChar
    if !bytes.isEmpty && (c.rest.take bytes.length).map Cell.byte == bytes then
      .ok true (c.advance bytes.length)
    else .ok false c

/-- Reads the given byte or fails. -/
def expectByte (b : UInt8) : Scan Unit := do
  unless ← acceptByte b do
    fail (.expected ("'" ++ String.singleton (Char.ofUInt8 b) ++ "'"))

/-- Reads the given ASCII letter or fails. -/
def expect (letter : Char) : Scan Unit :=
  expectByte letter.toUInt8

/-- Reads the given text or fails. -/
def expectText (s : String) : Scan Unit := do
  unless ← acceptText s do
    fail (.expected (Text.quote s))

/-- Reads a byte with the property `p` or fails, also at the end of the input. -/
def expectWhere (p : UInt8 → Bool) (what : String) : Scan UInt8 :=
  fun c => match c.rest with
  | x :: _ =>
    if p x.byte then .ok x.byte (c.advance 1) else .error ⟨.expected what, c.position⟩ c
  | [] => .error ⟨.expected what, c.position⟩ c

/-- Reads a letter that has a meaning under `f`. A letter without one is not read. -/
def letter (cause : Cause) (f : Char → Option α) : Scan α :=
  fun c => match c.rest with
  | x :: _ =>
    match f x.letter with
    | some a => .ok a (c.advance 1)
    | none => .error ⟨cause, c.position⟩ c
  | [] => .error ⟨.ended, c.position⟩ c

/-- Reads a letter that has a meaning under `f`. A letter without one is read, too, before the step
fails. -/
def readLetter (what : String) (f : Char → Option α) : Scan α := do
  match f (Char.ofUInt8 (← next)) with
  | some a => return a
  | none => fail (.expected what)

/-- Reads a letter if it has a meaning under `f`. -/
def letter? (f : Char → Option α) : Scan (Option α) :=
  fun c => match c.rest.head?.bind (fun x => f x.letter) with
  | some a => .ok (some a) (c.advance 1)
  | none => .ok none c

/-- The meanings of the letters in front, up to the first one without. -/
def letterRun (f : Char → Option α) : List Cell → List α
  | [] => []
  | x :: r =>
    match f x.letter with
    | some a => a :: letterRun f r
    | none => []

/-- Reads letters as long as they have a meaning under `f`. -/
def letters (f : Char → Option α) : Scan (List α) :=
  fun c =>
    let run := letterRun f c.rest
    .ok run (c.advance run.length)

/-- Reads exactly `n` bytes as a text, which has to start and end between two characters. -/
def take (n : Nat) : Scan String :=
  fun c =>
    if c.rest.length < n then .error ⟨.ended, c.position⟩ c
    else if Cell.atBoundary c.rest && Cell.atBoundary (c.rest.drop n) then
      .ok (Cell.text (c.rest.take n)) (c.advance n)
    else .error ⟨.malformed, c.position⟩ c

/-- Reads bytes as long as they have the property `p`. What was read is a text only if it starts and
ends between two characters; otherwise the result is empty. -/
def takeWhile (p : UInt8 → Bool) : Scan String :=
  fun c =>
    let run := c.rest.takeWhile fun x => p x.byte
    let text :=
      if Cell.atBoundary c.rest && Cell.atBoundary (c.rest.drop run.length) then Cell.text run
      else ""
    .ok text (c.advance run.length)

/-- Reads all that is left, as a text if the cursor stands between two characters. -/
def remainder : Scan String :=
  fun c =>
    let text := if Cell.atBoundary c.rest then Cell.text c.rest else ""
    .ok text (c.advance c.rest.length)

/-- Reads a decimal integer if a digit is next. -/
def integer? : Scan (Option UInt64) :=
  fun c => match digitRun c.rest with
  | [] => .ok none c
  | run =>
    match decimal 0 run with
    | .ok v => .ok (some (UInt64.ofNat v)) (c.advance run.length)
    | .error i => .error ⟨.overflow, c.position + i⟩ c

/-- Reads a decimal integer or fails. -/
def integer : Scan UInt64 := do
  match ← integer? with
  | some n => return n
  | none => fail .noInteger

/-- Reads an index: `_` is 0 and `n_` is `n + 1`. -/
def index : Scan UInt64 := do
  if ← accept '_' then return 0
  let n ← integer
  expect '_'
  if n.toNat + 1 < UInt64.size then return n + 1 else fail .overflow

end Scan

end Demangle
