import Demangle.Operand.Basic
import Demangle.Punycode

/-!
# Identifiers

An identifier has three spellings:

* `{n}{text}`, `n` being the number of bytes of the text;
* `0`, then words of earlier identifiers as letters mixed with segments `{n}{text}`, ended by `0`; an
  upper-case letter is the last word, after which one more segment may end the identifier in place
  of `0`;
* `00{n}{text}` or `00{n}_{text}`, the text in Punycode.

Operators as names are identifiers spelled with a code letter per character. Private, local and
related declarations wrap a name.
-/

namespace Demangle.Decode

/-! ## Texts -/

/-- Reads the length of a segment, which is not 0. -/
def segmentLength : Decode Nat := do
  let n ← Scan.integer
  ensure (0 < n)
  return n.toNat

/-- Reads a segment and records its words. -/
def segment : Decode String := do
  let text ← Scan.take (← segmentLength)
  modify fun s => { s with words := s.words.record text }
  return text

/-- Reads a segment in Punycode. -/
def punycodeSegment : Decode String := do
  let n ← segmentLength
  let _ ← Scan.accept '_'
  require (Punycode.decode (← Scan.take n))

/-- A word named by a letter: its place in the word table, and whether it is the last one. -/
def wordLetter? (c : Char) : Option (Nat × Bool) :=
  if c.isLower then some (c.toNat - 'a'.toNat, false)
  else if c.isUpper then some (c.toNat - 'A'.toNat, true)
  else none

/-- Reads words and segments after the text `acc`. Every step reads a byte at least, so the first
argument need not exceed the number of bytes left. -/
def wordsAndSegments : Nat → String → Decode String
  | 0, _ => fail .noInteger
  | fuel + 1, acc => do
    match ← Scan.letter? wordLetter? with
    | some (i, last) => do
      let acc := acc ++ (← require (← get).words[i]?)
      if !last then wordsAndSegments fuel acc
      else if ← Scan.accept '0' then return acc
      else return acc ++ (← segment)
    | none =>
      if ← Scan.accept '0' then return acc
      else wordsAndSegments fuel (acc ++ (← segment))

/-- Reads the text of an identifier. -/
def identifierText : Decode String := do
  match ← Scan.peek? with
  | some '0' => do
    let _ ← Scan.next
    if ← Scan.accept '0' then
      if ← Scan.accept '0' then return "" else punycodeSegment
    else wordsAndSegments (← Scan.remaining) ""
  | some c => if c.isDigit then segment else fail (.expected "an identifier length")
  | none => fail (.expected "an identifier length")

/-- Reads an identifier and makes it available to back-references. -/
def identifier : Decode Symbol := do
  let text ← identifierText
  ensure (!text.isEmpty)
  remember (.ofText .identifier text)

/-! ## Operators as names -/

/-- The characters of operators by their code letters `a` to `z`; a blank marks a letter without. -/
def operatorAlphabet : List Char :=
  "& @/= >    <*!|+?%-~   ^ .".toList

/-- The character that a code letter stands for. Characters outside ASCII stand for themselves. -/
def operatorChar? (c : Char) : Option Char :=
  if 0x80 ≤ c.toNat then some c
  else if c.isLower then operatorAlphabet[c.toNat - 'a'.toNat]?.filter (· != ' ')
  else none

/-- Where an operator stands with respect to its operands. -/
def fixity? : Char → Option Kind
  | 'i' => some .infixOperator
  | 'p' => some .prefixOperator
  | 'P' => some .postfixOperator
  | _ => none

/-- The `o` operator: the identifier below spells an operator. -/
def operatorName : Decode Symbol := do
  let name ← popKind .identifier
  let chars ← require (name.textD.toList.mapM operatorChar?)
  let kind ← Scan.letter (.missing "operator fixity") fixity?
  return .ofText kind (String.ofList chars)

/-! ## Names of private, local and related declarations -/

/-- The letters that tell how a related entity came about. -/
def relatedLetter? (c : Char) : Option Char :=
  if ('a' ≤ c ∧ c ≤ 'j') ∨ ('A' ≤ c ∧ c ≤ 'J') then some c else none

/-- The `L` operator. -/
def localName : Decode Symbol := do
  if ← Scan.accept 'L' then
    let discriminator ← popKind .identifier
    let name ← popDeclName
    return .node .privateDeclName [discriminator, name]
  if ← Scan.accept 'l' then
    return .node .privateDeclName [← popKind .identifier]
  match ← Scan.letter? relatedLetter? with
  | some c =>
    return (Symbol.ofText .relatedEntityDeclName (String.singleton c)).push (← pop)
  | none => do
    let discriminator ← indexNode
    let name ← popDeclName
    return .node .localDeclName [discriminator, name]

end Demangle.Decode
