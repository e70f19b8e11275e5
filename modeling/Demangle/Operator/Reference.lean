import Demangle.Operand.Basic

/-!
# Back-references

`A` names nodes that appeared before: a lower-case letter pushes one and goes on, an upper-case letter
ends the run, and a number in front of either repeats it. `A_` and `An_` name the nodes beyond the
letters. A control byte refers to a node outside the name by four bytes.
-/

namespace Demangle.Decode

/-- The most often that an operand can be repeated. -/
def repeatLimit : UInt64 := 2048

/-- Pushes all but the last copy of a repeated operand. A count of 0 or none means one copy. -/
def pushRepeated (count : Option UInt64) (x : Symbol) : Decode Symbol := do
  let count := count.getD 0
  ensure (count ≤ repeatLimit)
  pushCopies (count.toNat - 1) x
  return x

/-- One step of a run of back-references. -/
inductive ReferenceStep where
  /-- Names a node; the run goes on unless it is the last. -/
  | entry (index : Nat) (last : Bool)
  /-- Names a node beyond the letters. -/
  | beyond
  /-- Begins a number. -/
  | count
  deriving DecidableEq, Repr

/-- The meaning of a letter in a run of back-references. -/
def referenceStep? (c : Char) : Option ReferenceStep :=
  if c.isLower then some (.entry (c.toNat - 'a'.toNat) false)
  else if c.isUpper then some (.entry (c.toNat - 'A'.toNat) true)
  else if c == '_' then some .beyond
  else if c.isDigit then some .count
  else none

/-- Reads a run of back-references. Each step reads a byte at least, so the first argument need not
exceed the number of bytes left. -/
def references : Nat → Option UInt64 → Decode Symbol
  | 0, _ => fail .ended
  | fuel + 1, count => do
    match (← Scan.peek?).bind referenceStep? with
    | some (.entry i last) => do
      let _ ← Scan.next
      let x ← pushRepeated count (← substitution i)
      if last then return x
      push x
      references fuel none
    | some .beyond => do
      let _ ← Scan.next
      match count with
      | none => substitution 26
      | some n =>
        ensure (n.toNat + 27 < UInt64.size)
        substitution (n.toNat + 27)
    | some .count => do
      let n ← Scan.integer?
      ensure n.isSome
      references fuel n
    | none => do
      let _ ← Scan.next
      refuse

/-- The `A` operator. -/
def backReference : Decode Symbol := do
  references (← Scan.remaining) none

/-- A reference to a node outside the name: its offset in four bytes, the lowest first. -/
def symbolicReference : Decode Symbol := do
  let b₀ ← Scan.next
  let b₁ ← Scan.next
  let b₂ ← Scan.next
  let b₃ ← Scan.next
  let offset := b₀.toUInt64 + b₁.toUInt64 * 0x100 + b₂.toUInt64 * 0x10000 +
    b₃.toUInt64 * 0x1000000
  remember (.ofIndex .unresolvedSymbolicReference offset)

end Demangle.Decode
