import Demangle.Render.Options
import Demangle.Symbol.Basic

/-!
# Printing

Printing a node appends to a buffer. The rules for the kinds of nodes are written against a
`Printer`: the options, the way to print another node, and the way to read a name inside a text. A
rule never calls itself, so that the nesting is bounded in one place.

Printing a node gives back the context that the node could not put in front of its own name; its
caller prints it at the end.
-/

namespace Demangle

/-! ## The buffer -/

/-- What printing has produced so far. -/
structure Buffer where
  text : String := ""
  /-- `specialized ` has been written. -/
  specialized : Bool := false
  /-- The number of nodes that are being printed, each inside the one before. -/
  depth : Nat := 0
  deriving DecidableEq, Inhabited, Repr

/-- A step of printing. -/
abbrev Print := StateM Buffer

namespace Print

/-- Appends a text. -/
def write (s : String) : Print Unit :=
  modify fun b => { b with text := b.text ++ s }

/-- The number of bytes in the buffer. -/
def size : Print Nat :=
  return (← get).text.utf8ByteSize

/-- Runs a step and tells whether it appended anything. -/
def wrote {α : Type} (x : Print α) : Print (α × Bool) := do
  let start ← size
  let a ← x
  return (a, (← size) != start)

end Print

/-! ## Printers -/

/-- What the rules need: the options, how to print another node (as the context in front of a name or
on its own) and how to read a mangled name that is part of a text. -/
structure Printer where
  options : Options
  name : Symbol → Bool → Print (Option Symbol)
  embedded : String → String

open Print (write)

namespace Printer

/-- Prints a node on its own. -/
def print (P : Printer) (s : Symbol) : Print Unit := do
  let _ ← P.name s false

/-- Prints the child at position `i`, if there is one. -/
def child (P : Printer) (s : Symbol) (i : Nat) : Print Unit :=
  match s.child? i with
  | some c => P.print c
  | none => pure ()

/-- Prints a text and the child at position `i`, if there is one. -/
def childAfter (P : Printer) (lead : String) (s : Symbol) (i : Nat) : Print Unit :=
  match s.child? i with
  | some c => do
    write lead
    P.print c
  | none => pure ()

/-- Prints nodes, each with a separator in front. -/
def separated (P : Printer) (separator : String) : List Symbol → Print Unit
  | [] => pure ()
  | c :: cs => do
    write separator
    P.print c
    P.separated separator cs

/-- Prints nodes with separators between them. -/
def sequence (P : Printer) (separator : String) : List Symbol → Print Unit
  | [] => pure ()
  | c :: cs => do
    P.print c
    P.separated separator cs

end Printer

/-! ## Pieces -/

/-- A part of the printed form of a node. -/
inductive Piece where
  /-- A fixed text. -/
  | words (s : String)
  /-- The text that the node carries. -/
  | text
  /-- The index that the node carries. -/
  | index
  /-- The child at position `i`. -/
  | child (i : Nat)
  /-- A fixed text and the child at position `i`, or nothing if there is no such child. -/
  | childAfter (lead : String) (i : Nat)
  /-- The text of the child at position `i`. -/
  | childText (i : Nat)
  /-- The children from position `i` on. -/
  | children (i : Nat) (separator : String)
  deriving DecidableEq, Inhabited, Repr

namespace Printer

/-- Prints one part of a node. -/
def piece (P : Printer) (s : Symbol) : Piece → Print Unit
  | .words w => write w
  | .text => write s.textD
  | .index => write (toString s.indexD)
  | .child i => P.child s i
  | .childAfter lead i => P.childAfter lead s i
  | .childText i => write ((s.child? i).elim "" Symbol.textD)
  | .children i separator => P.sequence separator (s.children.drop i)

/-- Prints the parts of a node in order. -/
def pieces (P : Printer) (s : Symbol) : List Piece → Print Unit
  | [] => pure ()
  | p :: ps => do
    P.piece s p
    P.pieces s ps

end Printer

end Demangle
