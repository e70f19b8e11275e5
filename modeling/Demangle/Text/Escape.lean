/-!
# Escaped text

Two written forms of a text, both of which spell `\`, `"`, tab, line feed, carriage return and NUL
with a backslash and one character. They differ in the other control characters (below U+0020, and
U+007F):

* `escape` writes them `\xHH`, with two upper-case hexadecimal digits;
* `quote` writes them `\u`, followed by the lower-case hexadecimal digits in braces, and sets the
  whole text in double quotes.

Characters from U+0080 on stand as they are. For `quote` that is a simplification: the debugging form of
strings, which it follows for all other characters, also writes `\u` and digits for a character there
that is not printable or that extends the grapheme before it, and the tables of these classes are left
out. So `quote` differs from that form for a text with such a character, a combining accent for example.
-/

namespace Demangle.Text

/-! ## Algorithm -/

/-- Control characters have no printed shape of their own. -/
def isControl (c : Char) : Bool :=
  c.toNat < 0x20 || c.toNat == 0x7F

/-- The written form of one character, where `control` spells the control characters that have no
letter of their own. -/
def escapeChar (control : Char → List Char) (c : Char) : List Char :=
  match c with
  | '\\' => ['\\', '\\']
  | '\t' => ['\\', 't']
  | '\n' => ['\\', 'n']
  | '\r' => ['\\', 'r']
  | '"' => ['\\', '"']
  | '\x00' => ['\\', '0']
  | c => if isControl c then control c else [c]

/-- An upper-case hexadecimal digit. -/
def hexDigit (n : Nat) : Char :=
  if n < 10 then Char.ofNat ('0'.toNat + n) else Char.ofNat ('A'.toNat + (n - 10))

/-- `\xHH`. -/
def hexPair (c : Char) : List Char :=
  ['\\', 'x', hexDigit (c.toNat / 16), hexDigit (c.toNat % 16)]

/-- `\u` and the hexadecimal digits in braces. -/
def hexBraces (c : Char) : List Char :=
  ['\\', 'u', '\x7b'] ++ Nat.toDigits 16 c.toNat ++ ['\x7d']

/-- The text with its control characters written `\xHH`. -/
def escape (s : String) : String :=
  String.ofList (s.toList.flatMap (escapeChar hexPair))

/-- The text in double quotes, with its control characters written in braces. It is the debugging form of
a text only if each character of the text from U+0080 on is printable and extends no grapheme. -/
def quote (s : String) : String :=
  "\"" ++ String.ofList (s.toList.flatMap (escapeChar hexBraces)) ++ "\""

end Demangle.Text
