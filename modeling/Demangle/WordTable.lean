/-!
# Words of identifiers

Later identifiers of a mangled name may refer to words of earlier ones. The words of a text begin
with anything but a digit, `_` or NUL and run up to `_`, NUL, or an upper-case letter after a
character that is none. A table keeps the first 26 words of at least two bytes.
-/

namespace Demangle

/-! ## Algorithm -/

namespace Word

/-- `_` and NUL stand between words. -/
def isSeparator (c : Char) : Bool :=
  c == '_' || c == '\x00'

/-- A word can begin with this character. -/
def canStart (c : Char) : Bool :=
  !c.isDigit && !isSeparator c

/-- A word that ends with `last` goes on with `c`. -/
def continues (last c : Char) : Bool :=
  !isSeparator c && (last.isUpper || !c.isUpper)

/-- The words in `cs`, where `word` is the one being read, last character first. -/
def splitFrom : (word cs : List Char) → List (List Char)
  | [], [] => []
  | word, [] => [word.reverse]
  | [], c :: cs => splitFrom (if canStart c then [c] else []) cs
  | last :: word, c :: cs =>
    if continues last c then splitFrom (c :: last :: word) cs
    else (last :: word).reverse :: splitFrom (if canStart c then [c] else []) cs

/-- The words of a text that are long enough to be kept. -/
def ofText (s : String) : List String :=
  ((splitFrom [] s.toList).map String.ofList).filter (2 ≤ ·.utf8ByteSize)

end Word

/-- The words seen so far. -/
abbrev WordTable := Array String

namespace WordTable

/-- The number of words a table can hold. -/
def capacity : Nat := 26

/-- Adds a word unless the table is full. -/
def add (t : WordTable) (word : String) : WordTable :=
  if t.size < capacity then t.push word else t

/-- Adds the words of a text. -/
def record (t : WordTable) (s : String) : WordTable :=
  (Word.ofText s).foldl add t

end WordTable

end Demangle
