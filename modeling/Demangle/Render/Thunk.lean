import Demangle.Render.Printer
import Demangle.Text.Escape
import Demangle.ValueWitness

/-!
# Names, thunks and witnesses

The remaining rules that are more than a list of pieces: names with a discriminator, the unmangled
end of a symbol, thunks, witnesses and conformances.
-/

namespace Demangle

open Print (write)

namespace Printer

/-! ## Names -/

/-- Prints the unmangled end of a symbol. -/
def suffix (P : Printer) (s : Symbol) : Print Unit :=
  if P.options.unmangledSuffix then
    write (" with unmangled suffix \"" ++ Text.escape s.textD ++ "\"")
  else pure ()

/-- Prints a module. -/
def moduleName (P : Printer) (s : Symbol) : Print Unit :=
  if P.options.moduleNames then write s.textD else pure ()

/-- Prints a local name with its number, counted from 1 on 64 bits: behind the largest index comes 0. -/
def localName (P : Printer) (s : Symbol) : Print Unit := do
  P.child s 1
  write (" #" ++ toString ((s.child? 0).elim 0 Symbol.indexD + 1))

/-- Prints a private name, or only its discriminator. -/
def privateName (P : Printer) (s : Symbol) : Print Unit := do
  let shown := P.options.privateDiscriminators
  let discriminator := (s.child? 0).elim "" Symbol.textD
  if 1 < s.children.length then
    if shown then write "("
    P.child s 1
    if shown then write (" in " ++ discriminator ++ ")")
  else if shown then write ("(in " ++ discriminator ++ ")")

/-! ## Thunks -/

/-- Prints a merged function. -/
def mergedFunction (P : Printer) : Print Unit :=
  if P.options.shortenThunk then pure () else write "merged "

/-- Prints a forwarder of a partial application. -/
def partialApply (P : Printer) (forwarder : String) (s : Symbol) : Print Unit := do
  write "partial apply"
  if !P.options.shortenPartialApply then write forwarder
  if !s.children.isEmpty then
    write " for "
    P.sequence "" s.children

/-- Prints a reabstraction thunk; a signature comes in front of its two types. -/
def reabstractionThunk (P : Printer) (lead : String) (s : Symbol) : Print Unit := do
  let count := s.children.length
  if P.options.shortenThunk then
    write "thunk for "
    P.child s (count - 2)
  else
    write lead
    let first := if count == 3 then 1 else 0
    if count == 3 then
      P.child s 0
      write " "
    P.childAfter "from " s (first + 1)
    P.childAfter " to " s first

/-- Prints an operation on the indices of a key path; a signature stands last among its types. -/
def keyPathIndices (P : Printer) (lead : String) (s : Symbol) : Print Unit := do
  write lead
  let signature := s.children.getLast?.filter (·.kind == .dependentGenericSignature)
  match signature with
  | some signature => P.print signature
  | none => pure ()
  write "("
  P.sequence ", " (if signature.isSome then s.children.dropLast else s.children)
  write ")"

/-! ## Witnesses and conformances -/

/-- Prints a conformance; one of four children is the storage of a property behavior. -/
def conformance (P : Printer) (s : Symbol) : Print Unit := do
  if s.children.length == 4 then
    P.childAfter "property behavior storage of " s 3
    P.childAfter " in " s 0
    P.childAfter " : " s 1
  else
    P.child s 0
    if P.options.protocolConformances then
      P.childAfter " : " s 1
      P.childAfter " in " s 2

/-- Prints a conformance declared in a third module. -/
def retroactive (P : Printer) (s : Symbol) : Print Unit := do
  if s.children.length == 2 then
    write "retroactive @ "
    P.sequence "" s.children

/-- Prints a value witness. -/
def valueWitness (P : Printer) (s : Symbol) : Print Unit := do
  write ((s.index?.bind ValueWitness.ofIndex?).elim "" ValueWitness.name)
  write (if P.options.shortenValueWitness then " for " else " value witness for ")
  P.child s 0

/-- The text of a directness. -/
def directnessText (s : Symbol) : String :=
  (s.index?.bind Directness.ofIndex?).elim "" fun d => d.name ++ " "

end Printer

end Demangle
