import Demangle.ParamChange
import Demangle.Render.Printer
import Demangle.Text.Escape

/-!
# Specializations

A specialization is spelled out with what it was made for, or only announced by one `specialized ` for
the whole symbol.
-/

namespace Demangle

open Print (write)

namespace Printer

/-! ## Specializations -/

/-- Prints what a specialization was made for, `separator` first. Parameters that nothing happened to
are left out, and so is the pass. -/
def specializationParts (P : Printer) (lead : String) : String → List Symbol → Print Unit
  | _, [] => pure ()
  | separator, c :: cs =>
    if c.kind == .specializationIsFragile then do
      write separator
      P.print c
      P.specializationParts lead ", " cs
    else if c.kind != .specializationPassId && !c.children.isEmpty then do
      write separator
      write lead
      P.print c
      P.specializationParts lead ", " cs
    else P.specializationParts lead separator cs

/-- Prints a specialization. -/
def specialization (P : Printer) (description lead : String) (s : Symbol) : Print Unit := do
  if P.options.genericSpecializations then
    write description
    write " <"
    P.specializationParts lead "" s.children
    write "> of "
  else unless (← get).specialized do
    write "specialized "
    modify fun b => { b with specialized := true }

/-- Prints a type that a function was specialized for, with the conformances that were used. -/
def specializationParam (P : Printer) (s : Symbol) : Print Unit := do
  P.child s 0
  match s.children.drop 1 with
  | [] => pure ()
  | c :: cs => do
    write " with "
    P.print c
    P.separated " and " cs

/-! ## Changes of parameters -/

/-- The changes that a number stands for. -/
def changeText (value : UInt64) : String :=
  let flags := ParamChange.flags.filter fun f => value &&& f.value != 0
  if flags.isEmpty then (ParamChange.ofValue? value).elim "" ParamChange.description
  else " and ".intercalate (flags.map ParamChange.description)

/-- The text that the first of some nodes carries. -/
def headText (cs : List Symbol) : String :=
  cs.head?.elim "" Symbol.textD

/-- Prints one change and returns the nodes after it. -/
def change (P : Printer) (kindNode : Symbol) (rest : List Symbol) : Print (List Symbol) := do
  let carries (body : Print Unit) : Print Unit := do
    write "["
    P.print kindNode
    write " : "
    body
    write "]"
  match kindNode.index?.bind ParamChange.ofValue? with
  | some .constantFunction | some .constantGlobal =>
    carries (write (P.embedded (headText rest)))
    return rest.drop 1
  | some .constantInteger | some .constantFloat =>
    carries (write (headText rest))
    return rest.drop 1
  | some .constantString =>
    carries do
      write (headText rest)
      write "'"
      write (Text.escape (headText (rest.drop 1)))
      write "'"
    return rest.drop 2
  | some .closure =>
    let types := (rest.drop 1).takeWhile (·.kind == .type)
    carries do
      write (P.embedded (headText rest))
      write ", Argument Types : ["
      P.sequence ", " types
    return (rest.drop 1).drop types.length
  | _ =>
    P.print kindNode
    return rest

/-- Prints changes with ` and ` between them, `separator` first. Each takes a node at least, so the
first argument need not exceed their number. -/
def changes (P : Printer) : Nat → String → List Symbol → Print Unit
  | _, _, [] => pure ()
  | 0, _, _ :: _ => pure ()
  | fuel + 1, separator, c :: cs => do
    write separator
    let rest ← P.change c cs
    P.changes fuel " and " rest

/-- Prints the record of a parameter or of the result. -/
def changeRecord (P : Printer) (lead : String) (s : Symbol) : Print Unit := do
  write lead
  P.changes s.children.length "" s.children

end Printer

end Demangle
