import Demangle.Render
import Demangle.Text.Blank
import Demangle.Text.Line

/-!
# Fixtures

A fixture file lists mangled names with the text that is expected of them, one case per line:

    mangled ---> expected

Blank lines and lines that start with `#` are skipped. A name that starts with two underscores loses
one of them, and an expected text loses a remark in braces in front of it.
-/

namespace Demangle.Fixture

open Text

/-! ## Cases -/

/-- A case of a fixture file. -/
structure Case where
  /-- The number of its line, counted from 1. -/
  line : Nat
  input : String
  expected : String
  deriving DecidableEq, Inhabited, Repr

/-- Why a fixture file was refused. -/
inductive Error where
  | missingSeparator (line : Nat)
  | emptyInput (line : Nat)
  | unreadable
  deriving DecidableEq, Inhabited, Repr

/-- The description of an error. -/
def Error.message : Error → String
  | .missingSeparator line => "line " ++ toString line ++ ": missing ` ---> ` separator"
  | .emptyInput line => "line " ++ toString line ++ ": empty mangled name"
  | .unreadable => "failed to read the fixture file"

/-- The parts of a text before and after the first occurrence of another. -/
def splitOnce (separator : List Char) : List Char → Option (List Char × List Char)
  | [] => if separator.isEmpty then some ([], []) else none
  | c :: cs =>
    if separator.isPrefixOf (c :: cs) then some ([], (c :: cs).drop separator.length)
    else (splitOnce separator cs).map fun (a, b) => (c :: a, b)

/-- What stands between a name and the expected text. -/
def separator : List Char :=
  " ---> ".toList

/-- A name without the second of two leading underscores. -/
def normalizeInput : List Char → List Char
  | '_' :: '_' :: cs => '_' :: cs
  | cs => cs

/-- A text without the remark in braces in front of it. -/
def stripRemark (cs : List Char) : List Char :=
  match cs with
  | '\x7b' :: _ => ((splitOnce ['\x7d', ' '] cs).map Prod.snd).getD cs
  | _ => cs

/-- Blank lines and comments hold no case. -/
def isSkipped (cs : List Char) : Bool :=
  (trimStart cs).isEmpty || cs.head? == some '#'

/-- The case that a line holds, the blanks at its end being removed. -/
def parseLine (number : Nat) (cs : List Char) : Except Error (Option Case) :=
  if isSkipped cs then .ok none
  else match splitOnce separator cs with
    | none => .error (.missingSeparator number)
    | some (input, expected) =>
      if (trim input).isEmpty then .error (.emptyInput number)
      else .ok <| some {
        line := number
        input := String.ofList (normalizeInput (trim input))
        expected := String.ofList (stripRemark expected) }

/-- The cases that lines hold, the first having the given number. -/
def parseLines (number : Nat) : List Line → Except Error (List Case)
  | [] => .ok []
  | l :: ls => do
    let case? ← parseLine number (trimEnd l.body)
    let cases ← parseLines (number + 1) ls
    return case?.toList ++ cases

/-- The cases of a fixture file. -/
def parse (content : String) : Except Error (List Case) :=
  parseLines 1 (lines content.toList)

/-- The cases of a fixture file that may be missing. -/
def load (content : Option String) : Except Error (List Case) :=
  match content with
  | some content => parse content
  | none => .error .unreadable

/-! ## Reports -/

/-- A case whose rendering is not the expected one. -/
structure Mismatch where
  case : Case
  actual : String
  deriving DecidableEq, Inhabited, Repr

/-- What came out of the cases. -/
structure Report where
  passed : Nat
  mismatches : List Mismatch
  deriving DecidableEq, Inhabited, Repr

namespace Report

/-- Every case has passed. -/
def isSuccess (r : Report) : Bool :=
  r.mismatches.isEmpty

/-- The number of cases. -/
def total (r : Report) : Nat :=
  r.passed + r.mismatches.length

end Report

/-- The mismatch of a case, if its rendering is not the expected one. -/
def mismatch? (o : Options) (case : Case) : Option Mismatch :=
  let actual := demangle o case.input
  if actual = case.expected then none else some ⟨case, actual⟩

/-- Renders every case and compares. -/
def run (o : Options) : List Case → Report
  | [] => ⟨0, []⟩
  | c :: cs =>
    let report := run o cs
    match mismatch? o c with
    | none => { report with passed := report.passed + 1 }
    | some m => { report with mismatches := m :: report.mismatches }

end Demangle.Fixture
