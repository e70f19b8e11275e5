import Demangle.GenericParameter
import Demangle.Render.Printer

/-!
# Types

Bound generic types and their sugar, metatypes, protocol compositions, lowered function types,
generic signatures and boxes.
-/

namespace Demangle

open Print (write)

/-! ## Sugar -/

/-- The short forms of generic types of the standard library. -/
inductive Sugar where
  | optional
  | implicitlyUnwrapped
  | array
  | dictionary
  deriving DecidableEq, Inhabited, Repr

/-- The short form that a bound generic type has. -/
def sugar? (s : Symbol) : Option Sugar := do
  let nominal ← (s.child? 0).bind Symbol.first?
  guard ((nominal.child? 0).any Symbol.isStandardModule)
  let name ← nominal.child? 1
  let args := (s.child? 1).elim 0 (·.children.length)
  match s.kind with
  | .boundGenericEnum =>
    if args == 1 && name.isIdentifier "Optional" then some .optional
    else if args == 1 && name.isIdentifier "ImplicitlyUnwrappedOptional" then
      some .implicitlyUnwrapped
    else none
  | .boundGenericStructure =>
    if args == 1 && name.isIdentifier "Array" then some .array
    else if args == 2 && name.isIdentifier "Dictionary" then some .dictionary
    else none
  | _ => none

namespace Printer

/-- Prints a type, in parentheses unless it is simple. -/
def inParens (P : Printer) (type : Symbol) : Print Unit :=
  if type.isSimpleType then P.print type
  else do
    write "("
    P.print type
    write ")"

/-- Prints a bound generic type as `Type<Arguments>`. -/
def plainBound (P : Printer) (s : Symbol) : Print Unit := do
  P.child s 0
  write "<"
  match s.child? 1 with
  | some args => P.sequence ", " args.children
  | none => pure ()
  write ">"

/-- Prints a bound generic type in its short form. -/
def sugared (P : Printer) (args : Symbol) : Sugar → Print Unit
  | .optional => do
    if let some type := args.first? then P.inParens type
    write "?"
  | .implicitlyUnwrapped => do
    if let some type := args.first? then P.inParens type
    write "!"
  | .array => do
    write "["
    P.child args 0
    write "]"
  | .dictionary => do
    write "["
    P.child args 0
    write " : "
    P.child args 1
    write "]"

/-- Prints a bound generic type. -/
def boundGeneric (P : Printer) (s : Symbol) : Print Unit :=
  match s.children with
  | [] | [_] => pure ()
  | [nominal, args] =>
    if !P.options.sugarTypes || s.kind == .boundGenericClass then P.plainBound s
    else if s.kind == .boundGenericProtocol then do
      P.print args
      write " as "
      P.print nominal
    else match sugar? s with
      | some sugar => P.sugared args sugar
      | none => P.plainBound s
  | _ => P.plainBound s

/-! ## Metatypes and existentials -/

/-- Prints the representation of a metatype, if it has one, and returns the position of its type. -/
def metatypeHead (P : Printer) (s : Symbol) : Print Nat := do
  if s.children.length == 2 then
    P.child s 0
    write " "
    return 1
  return 0

/-- Prints a metatype. -/
def metatype (P : Printer) (s : Symbol) : Print Unit := do
  let i ← P.metatypeHead s
  match (s.child? i).bind Symbol.first? with
  | some type => do
    P.inParens type
    write (if type.kind.isExistentialType then ".Protocol" else ".Type")
  | none => pure ()

/-- Prints the metatype of an existential. -/
def existentialMetatype (P : Printer) (s : Symbol) : Print Unit := do
  let i ← P.metatypeHead s
  P.child s i
  write ".Type"

/-- Prints a composition of protocols. -/
def protocolList (P : Printer) (s : Symbol) : Print Unit :=
  match s.first? with
  | none => pure ()
  | some types =>
    if types.children.isEmpty then write "Any" else P.sequence " & " types.children

/-- Prints a composition of a class and protocols. -/
def protocolListWithClass (P : Printer) (s : Symbol) : Print Unit := do
  P.child s 1
  write " & "
  match s.first?.bind Symbol.first? with
  | some types => P.sequence " & " types.children
  | none => pure ()

/-- Prints a composition of protocols for classes only. -/
def protocolListWithAnyObject (P : Printer) (s : Symbol) : Print Unit :=
  match s.first?.bind Symbol.first? with
  | none => pure ()
  | some types => do
    if !types.children.isEmpty then
      P.sequence " & " types.children
      write " & "
    if P.options.qualifyEntities then write "Swift."
    write "AnyObject"

/-! ## Lowered function types -/

/-- How far a lowered function type has been printed. -/
inductive LoweredSection where
  | attributes
  | parameters
  | results
  deriving DecidableEq, Inhabited, Repr

/-- Prints the children of a lowered function type: attributes, `(`parameters`)`, ` -> `,
`(`results`)`. -/
def loweredParts (P : Printer) : LoweredSection → List Symbol → Print Unit
  | .attributes, [] => write "() -> ()"
  | .parameters, [] => write ") -> ()"
  | .results, [] => write ")"
  | part, c :: cs =>
    if c.kind == .implParameter then do
      match part with
      | .attributes => write "("
      | .parameters => write ", "
      | .results => pure ()
      P.print c
      P.loweredParts .parameters cs
    else if c.kind == .implResult || c.kind == .implErrorResult then do
      match part with
      | .attributes => write "() -> ("
      | .parameters => write ") -> ("
      | .results => write ", "
      P.print c
      P.loweredParts .results cs
    else do
      P.print c
      write " "
      P.loweredParts part cs

/-- Prints a lowered function type. -/
def loweredFunction (P : Printer) (s : Symbol) : Print Unit :=
  P.loweredParts .attributes s.children

/-! ## Generic signatures -/

/-- The generic parameters printed for one depth; more of them are elided. -/
def shownParameters : Nat := 128

/-- The generic parameters of one depth. -/
def parameterNames (depth : Nat) (count : UInt64) : String :=
  let shown := (List.range (min count.toNat shownParameters)).map fun i =>
    parameterName (UInt64.ofNat depth) (UInt64.ofNat i)
  ", ".intercalate (shown ++ if shownParameters < count.toNat then ["..."] else [])

/-- The parameter counts at the start of a signature. -/
def signatureCounts (s : Symbol) : List UInt64 :=
  (s.children.takeWhile (·.kind == .dependentGenericParamCount)).map Symbol.indexD

/-- The requirements after the parameter counts. -/
def signatureRequirements (s : Symbol) : List Symbol :=
  s.children.dropWhile (·.kind == .dependentGenericParamCount)

/-- Prints a generic signature. -/
def signature (P : Printer) (s : Symbol) : Print Unit := do
  write "<"
  write ("><".intercalate ((signatureCounts s).mapIdx parameterNames))
  if !(signatureRequirements s).isEmpty && P.options.whereClauses then
    write " where "
    P.sequence ", " (signatureRequirements s)
  write ">"

/-- The layout that a letter names. -/
def layoutName (letter : String) : String :=
  match letter with
  | "U" => "_UnknownLayout"
  | "R" => "_RefCountedObject"
  | "N" => "_NativeRefCountedObject"
  | "C" => "AnyObject"
  | "D" => "_NativeClass"
  | "T" | "E" | "e" => "_Trivial"
  | "M" | "m" => "_TrivialAtMost"
  | _ => ""

/-- Prints a layout requirement. -/
def layoutRequirement (P : Printer) (s : Symbol) : Print Unit := do
  P.child s 0
  write ": "
  write (layoutName ((s.child? 1).elim "" Symbol.textD))
  if 2 < s.children.length then
    write "("
    P.child s 2
    P.childAfter ", " s 3
    write ")"

/-- Prints a type under a signature. -/
def genericType (P : Printer) (s : Symbol) : Print Unit := do
  P.child s 0
  match s.child? 1 with
  | some type => do
    if type.needsSpaceBefore then write " "
    P.print type
  | none => pure ()

/-! ## Boxes, tuples and results -/

/-- Prints a box: its signature, its layout and its arguments. -/
def boxWithLayout (P : Printer) (s : Symbol) : Print Unit := do
  if 2 < s.children.length then
    P.child s 1
    write " "
  P.child s 0
  match s.child? 2 with
  | some args => do
    write " <"
    P.sequence ", " args.children
    write ">"
  | none => pure ()

/-- Prints the fields of a box. -/
def boxLayout (P : Printer) (s : Symbol) : Print Unit := do
  write "\x7b"
  if !s.children.isEmpty then write " "
  P.sequence ", " s.children
  write " \x7d"

/-- Prints an element of a tuple. -/
def tupleElement (P : Printer) (s : Symbol) : Print Unit := do
  match s.find? .tupleElementName with
  | some label => do
    write label.textD
    write ": "
  | none => pure ()
  match s.find? .type with
  | some type => P.print type
  | none => pure ()
  if (s.find? .variadicMarker).isSome then write "..."

/-- Prints the result of a function. -/
def returnType (P : Printer) (s : Symbol) : Print Unit := do
  write " -> "
  if s.children.isEmpty then write s.textD else P.sequence "" s.children

end Printer

end Demangle
