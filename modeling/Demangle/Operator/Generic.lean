import Demangle.GenericParameter
import Demangle.Operand.Basic

/-!
# Generic parameters, signatures and conformances

Members of generic parameters are associated types. A signature has a parameter count for each depth
and a list of requirements.
-/

namespace Demangle

/-! ## Generic parameters -/

/-- The next number, or the same if it is the greatest of 64 bits. -/
def saturatingSucc (n : UInt64) : UInt64 :=
  if n.toNat + 1 < UInt64.size then n + 1 else n

namespace Decode

/-- Reads a generic parameter: `z` is the first, an index one of the others at depth 0, and `d` puts
a depth in front. -/
def genericParameter : Decode Symbol := do
  if ← Scan.accept 'd' then
    let depth ← Scan.index
    let index ← Scan.index
    return parameterType (saturatingSucc depth) index
  if ← Scan.accept 'z' then return parameterType 0 0
  return parameterType 0 (saturatingSucc (← Scan.index))

/-! ## Protocols -/

/-- A type that holds a protocol. -/
def isProtocolType (type : Symbol) : Bool :=
  type.first?.any (·.kind == .protocolType)

/-- Pops a protocol: a type that holds one, or a name in a context. -/
def popProtocol : Decode Symbol := do
  if let some type ← popKind? .type then
    ensure (isProtocolType type)
    return type
  let name ← popDeclName
  let context ← popContext
  return .typed .protocolType [context, name]

/-- Pops a list of protocols. -/
def popProtocolList : Decode Symbol :=
  return .node .protocolList [.node .typeList (← popList popProtocol)]

/-! ## Associated types -/

/-- Pops the name of an associated type, below the protocol that declares it if that is given. -/
def popAssociatedTypeName : Decode Symbol := do
  let declaredIn ← popKind? .type
  ensure (declaredIn.all isProtocolType)
  let name ← popKind .identifier
  return name.renamed .dependentAssociatedTypeRef declaredIn.toList

/-- The member of a base. -/
def memberOf (base name : Symbol) : Symbol :=
  .node .dependentMemberType [.node .type [base], name]

/-- Pops one associated type name and returns the type of that member. -/
def memberType (base : Symbol) : Decode Symbol := do
  return .node .type [memberOf base (← popAssociatedTypeName)]

/-- Pops a path of associated type names and returns the type of that member. -/
def memberPathType (base : Symbol) : Decode Symbol := do
  let names ← popElements popAssociatedTypeName
  return .node .type [names.foldl memberOf base]

/-- Pops a path of declaration names. -/
def popAssociatedTypePath : Decode Symbol :=
  return .node .assocTypePath (← popElements popDeclName)

/-- The member types by the letter after `Q`. -/
def archetype? : Char → Option (Decode Symbol)
  | 'a' => some do
    let name ← popKind .identifier
    let base ← popTypeChild
    return .typed .associatedTypeRef [base, name]
  | 'y' => some do memberType (← genericParameter)
  | 'z' => some (memberType (parameterType 0 0))
  | 'Y' => some do memberPathType (← genericParameter)
  | 'Z' => some (memberPathType (parameterType 0 0))
  | _ => none

/-- The `Q` operator. -/
def archetype : Decode Symbol := do
  let read ← Scan.letter (.expected "an archetype letter") archetype?
  remember (← read)

/-! ## Conformances -/

/-- Pops the conformance of a type to a protocol, declared in a module. The type may stand under a
signature, and below the name of a property behavior. -/
def popConformance : Decode Symbol := do
  let signature ← popSignature?
  let declaredIn ← popModule
  let protocol ← popProtocol
  let (type, behavior) ←
    match ← popKind? .type with
    | some type => pure (type, none)
    | none => do
      let behavior ← popKind? .identifier
      pure (← popType, behavior)
  let type := signature.elim type fun s => .typed .dependentGenericType [s, type]
  return .node .protocolConformance ([type, protocol, declaredIn] ++ behavior.toList)

/-- The `g` operator: a conformance declared in a module of neither the type nor the protocol. -/
def retroactiveConformance : Decode Symbol := do
  let index ← indexNode
  let conformance ← popConformance
  return .node .retroactiveConformance [index, conformance]

/-! ## Signatures -/

/-- The node of a parameter count. -/
def countNode (n : UInt64) : Symbol :=
  .ofIndex .dependentGenericParamCount n

/-- Reads parameter counts up to `l`. Each takes a byte at least, so the first argument need not
exceed the number of bytes left. -/
def parameterCounts : Nat → Decode (List UInt64)
  | 0 => fail .noInteger
  | fuel + 1 => do
    if ← Scan.accept 'l' then return []
    let count ← if ← Scan.accept 'z' then pure 0 else saturatingSucc <$> Scan.index
    return count :: (← parameterCounts fuel)

/-- Pops the requirements of a signature with the given parameter counts. -/
def popSignatureWith (counts : List UInt64) : Decode Symbol := do
  let requirements ← popWhile Kind.isRequirement
  return .node .dependentGenericSignature (counts.map countNode ++ requirements.reverse)

/-- The `r` operator: a signature with its parameter counts spelled out. -/
def countedSignature : Decode Symbol := do
  popSignatureWith (← parameterCounts (← Scan.remaining))

/-- The `l` operator: a signature with one parameter. -/
def singleSignature : Decode Symbol :=
  popSignatureWith [1]

/-- The `u` operator: a type under a signature. -/
def genericType : Decode Symbol := do
  let signature ← popKind .dependentGenericSignature
  let type ← popType
  return .typed .dependentGenericType [signature, type]

/-! ## Requirements -/

/-- What a requirement asks of its subject. -/
inductive Constraint where
  | conformance
  | superclass
  | sameType
  | layout
  deriving DecidableEq, Inhabited, Repr

/-- How a requirement spells its subject. -/
inductive Subject where
  | parameter
  | member
  | memberPath
  | operand
  deriving DecidableEq, Inhabited, Repr

/-- The form of a requirement by the letter after `R`. -/
def requirementForm? : Char → Option (Constraint × Subject)
  | 'c' => some (.superclass, .member)
  | 'C' => some (.superclass, .memberPath)
  | 'b' => some (.superclass, .parameter)
  | 'B' => some (.superclass, .operand)
  | 't' => some (.sameType, .member)
  | 'T' => some (.sameType, .memberPath)
  | 's' => some (.sameType, .parameter)
  | 'S' => some (.sameType, .operand)
  | 'm' => some (.layout, .member)
  | 'M' => some (.layout, .memberPath)
  | 'l' => some (.layout, .parameter)
  | 'L' => some (.layout, .operand)
  | 'p' => some (.conformance, .member)
  | 'P' => some (.conformance, .memberPath)
  | 'Q' => some (.conformance, .operand)
  | _ => none

/-- Reads or pops the subject of a requirement. -/
def Subject.decode : Subject → Decode Symbol
  | .parameter => return .node .type [← genericParameter]
  | .member => do remember (← memberType (← genericParameter))
  | .memberPath => do remember (← memberPathType (← genericParameter))
  | .operand => popType

/-- The numbers that follow a layout letter: none, a size, or a size and an alignment. -/
def layoutNumbers? : Char → Option Nat
  | 'U' | 'R' | 'N' | 'C' | 'D' | 'T' => some 0
  | 'e' | 'm' => some 1
  | 'E' | 'M' => some 2
  | _ => none

/-- Reads `n` indices. -/
def indexNodes : Nat → Decode (List Symbol)
  | 0 => pure []
  | n + 1 => do
    let node ← indexNode
    return node :: (← indexNodes n)

/-- Reads or pops what a requirement asks and returns the requirement. -/
def Constraint.decode (subject : Symbol) : Constraint → Decode Symbol
  | .conformance =>
    return .node .dependentGenericConformanceRequirement [subject, ← popProtocol]
  | .superclass =>
    return .node .dependentGenericConformanceRequirement [subject, ← popType]
  | .sameType =>
    return .node .dependentGenericSameTypeRequirement [subject, ← popType]
  | .layout => do
    let (letter, n) ← Scan.letter (.expected "a layout constraint")
      fun c => (layoutNumbers? c).map (c, ·)
    let numbers ← indexNodes n
    return .node .dependentGenericLayoutRequirement
      ([subject, .ofText .identifier (String.singleton letter)] ++ numbers)

/-- The `R` operator. Without a letter of its own a requirement is the conformance of a parameter. -/
def requirement : Decode Symbol := do
  if (← Scan.peek?).isNone then fail .ended
  let (constraint, subject) := (← Scan.letter? requirementForm?).getD (.conformance, .parameter)
  constraint.decode (← subject.decode)

end Decode

end Demangle
