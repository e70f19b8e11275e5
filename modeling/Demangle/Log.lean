import Demangle.Render
import Demangle.Text.Blank
import Demangle.Text.Line

/-!
# Logs

Crash logs mix mangled names with addresses and prose. In a line, every token between single blanks
that is a mangled name, apart from white space around it, is replaced by its rendering; all else stays
as it is. In a line with a `!`, what comes before it names a module and stays, too.
-/

namespace Demangle.Log

open Text

/-! ## Algorithm -/

/-- Replaces a token if it is a mangled name, and keeps the white space around it. -/
def token (o : Options) (cs : List Char) : List Char :=
  match decode (String.ofList (trim cs)) with
  | .ok s => leadingBlanks cs ++ (render o s).toList ++ trailingBlanks cs
  | .error _ => cs

/-- Puts a character in front of the first token. -/
def consToken (c : Char) : List (List Char) → List (List Char)
  | [] => [[c]]
  | t :: ts => (c :: t) :: ts

/-- The tokens between single blanks. -/
def tokens : List Char → List (List Char)
  | [] => [[]]
  | c :: cs => if c = ' ' then [] :: tokens cs else consToken c (tokens cs)

/-- The part of a line up to its first `!`, and the rest of it. -/
def splitModule (cs : List Char) : List Char × List Char :=
  match cs.dropWhile (· != '!') with
  | [] => ([], cs)
  | bang :: rest => (cs.takeWhile (· != '!') ++ [bang], rest)

/-- Replaces the mangled names of a line without its end. -/
def lineChars (o : Options) (cs : List Char) : List Char :=
  let (kept, rest) := splitModule cs
  kept ++ [' '].intercalate ((tokens rest).map (token o))

/-- Replaces the mangled names of a text and keeps its line ends. -/
def textChars (o : Options) (cs : List Char) : List Char :=
  (lines cs).flatMap fun l => lineChars o l.body ++ l.ending.chars

/-- Replaces the mangled names of a line. -/
def line (o : Options) (s : String) : String :=
  String.ofList (lineChars o s.toList)

/-- Replaces the mangled names of a text. -/
def text (o : Options) (s : String) : String :=
  String.ofList (textChars o s.toList)

end Demangle.Log
