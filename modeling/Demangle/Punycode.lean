/-!
# Punycode

The variant of Punycode that spells names outside ASCII. It is the bootstring coding with the usual
parameters, except that the delimiter is `_` and that the digits are `a` to `z` and `A` to `J`. A
decoded value in 0xD800 ... 0xD87F stands for the ASCII character 0xD800 below it.

`decodePoints` gives the code points, `decode` the text. The arithmetic is on 32 bits: where an index, a code
point or a count does not fit, there is no result. The length of the list is cut to 32 bits
(`State.count`), so a list of 2^32 code points is taken for an empty one.
-/

namespace Demangle.Punycode

/-! ## Algorithm -/

/-- The number base. -/
def base : Nat := 36

/-- The bound of the arithmetic. -/
def wordSize : Nat := UInt32.size

/-- The value of a digit. -/
def digitValue? (c : Char) : Option Nat :=
  if 'a' ≤ c ∧ c ≤ 'z' then some (c.toNat - 'a'.toNat)
  else if 'A' ≤ c ∧ c ≤ 'J' then some (c.toNat - 'A'.toNat + 26)
  else none

/-- A digit below the threshold of its position ends the number. -/
def threshold (bias k : Nat) : Nat :=
  if k ≤ bias then 1 else if bias + 26 ≤ k then 26 else k - bias

/-- Divides `delta` by 35 until it is at most 455 and returns it with 36 for each division. The first
argument bounds the number of divisions. -/
def adaptLoop : Nat → (delta k : Nat) → Nat × Nat
  | 0, delta, k => (delta, k)
  | n + 1, delta, k => if 455 < delta then adaptLoop n (delta / 35) (k + base) else (delta, k)

/-- The bias after an insertion `delta` places on, `count` code points being there by then. -/
def adapt (delta count : Nat) (first : Bool) : Nat :=
  let delta := if first then delta / 700 else delta / 2
  let delta := delta + delta / count
  let (delta, k) := adaptLoop delta delta 0
  k + base * delta / (delta + 38)

/-- Reads a number with the least significant digit first and adds it to `i`; `w` is the weight of
the next digit and `k` fixes its threshold. -/
def readNumber (bias : Nat) : (i w k : Nat) → List Char → Option (Nat × List Char)
  | _, _, _, [] => none
  | i, w, k, c :: cs =>
    match digitValue? c with
    | none => none
    | some d =>
      if i + d * w < wordSize then
        let t := threshold bias k
        if d < t then some (i + d * w, cs)
        else if w * (base - t) < wordSize then
          readNumber bias (i + d * w) (w * (base - t)) (k + base) cs
        else none
      else none

/-- Where decoding stands: the code points so far, the next code point to insert, the place to insert
it at and the bias. -/
structure State where
  points : List Nat
  n : Nat := 128
  i : Nat := 0
  bias : Nat := 72
  deriving DecidableEq, Inhabited, Repr

/-- One more than the number of code points, which is cut to 32 bits. -/
def State.count (st : State) : Nat :=
  st.points.length % wordSize + 1

/-- Inserts a code point after the state's index has grown to `i`. The code point and the count have to fit
in a word; with 2^32 - 1 code points the count does not, and decoding stops. -/
def State.insert (st : State) (i : Nat) : Option State :=
  let count := st.count
  let n := st.n + i / count
  if count < wordSize ∧ n < wordSize then
    some {
      points := st.points.insertIdx (i % count) n
      n := n
      i := i % count + 1
      bias := adapt (i - st.i) count (st.i == 0) }
  else none

/-- Performs the insertions that the digits spell. Each takes a digit at least, so the first argument
need not exceed their number. -/
def insertions : Nat → State → List Char → Option (List Nat)
  | _, st, [] => some st.points
  | 0, _, _ :: _ => none
  | fuel + 1, st, cs =>
    match readNumber st.bias st.i 1 base cs with
    | none => none
    | some (i, cs) =>
      match st.insert i with
      | none => none
      | some st => insertions fuel st cs

/-- Splits at the last delimiter: the literal characters in front of it and the digits after it.
Without a delimiter all are digits. -/
def split (cs : List Char) : List Char × List Char :=
  let digits := (cs.reverse.takeWhile (· != '_')).reverse
  (cs.take (cs.length - digits.length - 1), digits)

/-- The code points that a Punycode text spells. -/
def decodePoints (s : String) : Option (List Nat) :=
  let (literal, digits) := split s.toList
  if literal.all (·.toNat < 0x80) then
    insertions digits.length { points := literal.map Char.toNat } digits
  else none

/-- The character of a code point. -/
def character? (n : Nat) : Option Char :=
  let n := if 0xD800 ≤ n ∧ n < 0xD880 then n - 0xD800 else n
  if n.isValidChar then some (Char.ofNat n) else none

/-- The text that a Punycode text spells. -/
def decode (s : String) : Option String :=
  (decodePoints s).bind fun points => (points.mapM character?).map String.ofList

end Demangle.Punycode
