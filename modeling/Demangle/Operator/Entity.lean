import Demangle.Operator.FunctionType
import Demangle.Operator.Generic

/-!
# Entities

Functions, initializers, closures, variables and subscripts with their accessors, and extensions. An
entity starts with its context and name; function-like ones carry their argument labels beside their
type.
-/

namespace Demangle.Decode

/-- The `E` operator: an extension of a nominal type. -/
def extensionContext : Decode Symbol := do
  let signature ← popSignature?
  let declaredIn ← popModule
  let extended ← popAnyGeneric
  return .node .extension ([declaredIn, extended] ++ signature.toList)

/-- The `F` operator: a named function. -/
def plainFunction : Decode Symbol := do
  let signature ← popSignature?
  let (labels, type) ← popLabels (← popFunctionType .functionType)
  let type := signature.elim type fun s => .typed .dependentGenericType [s, type]
  let name ← popDeclName
  let context ← popContext
  return .node .function ([context, name] ++ labels.toList ++ [type])

/-! ## Function-like entities -/

/-- Pops the type of a function-like entity with its labels, below its private name if it has one. -/
def popLabelledType : Decode (List Symbol) := do
  let privateName ← popKind? .privateDeclName
  let (labels, type) ← popLabels (← popType)
  return labels.toList ++ [type] ++ privateName.toList

/-- A context, a name and a type. -/
def namedEntity (kind : Kind) : Decode Symbol := do
  let type ← popType
  let name ← popDeclName
  let context ← popContext
  return .node kind [context, name, type]

/-- An entity that starts with its context, followed by what `operands` pops. -/
def contextEntity (kind : Kind) (operands : Decode (List Symbol)) : Decode Symbol := do
  let operands ← operands
  let context ← popContext
  return .node kind (context :: operands)

/-- A closure is told apart by an index and has a type. -/
def indexAndType : Decode (List Symbol) := do
  let index ← indexNode
  return [index, ← popType]

/-- The entities by the letter after `f`. -/
def functionEntity? : Char → Option (Decode Symbol)
  | 'D' => some (contextEntity .deallocator (pure []))
  | 'd' => some (contextEntity .destructor (pure []))
  | 'E' => some (contextEntity .ivarDestroyer (pure []))
  | 'e' => some (contextEntity .ivarInitializer (pure []))
  | 'i' => some (contextEntity .initializer (pure []))
  | 'C' => some (contextEntity .allocator popLabelledType)
  | 'c' => some (contextEntity .constructor popLabelledType)
  | 'U' => some (contextEntity .explicitClosure indexAndType)
  | 'u' => some (contextEntity .implicitClosure indexAndType)
  | 'A' => some (contextEntity .defaultArgumentInitializer (return [← indexNode]))
  | 'p' => some (namedEntity .genericTypeParamDecl)
  | _ => none

/-- The `f` operator. -/
def functionEntity : Decode Symbol := do
  let read ← Scan.letter (.expected "a function entity letter") functionEntity?
  read

/-! ## Variables and subscripts -/

/-- The addressors of mutable storage. -/
def mutableAddressor? : Char → Option Kind
  | 'O' => some .owningMutableAddressor
  | 'o' => some .nativeOwningMutableAddressor
  | 'p' => some .nativePinningMutableAddressor
  | 'u' => some .unsafeMutableAddressor
  | _ => none

/-- The addressors of immutable storage. -/
def addressor? : Char → Option Kind
  | 'O' => some .owningAddressor
  | 'o' => some .nativeOwningAddressor
  | 'p' => some .nativePinningAddressor
  | 'u' => some .unsafeAddressor
  | _ => none

/-- The accessors by their letter; `p` is the storage itself. -/
def accessor? : Char → Option (Decode (Option Kind))
  | 'm' => some (return some .materializeForSet)
  | 's' => some (return some .setter)
  | 'g' => some (return some .getter)
  | 'G' => some (return some .globalGetter)
  | 'w' => some (return some .willSet)
  | 'W' => some (return some .didSet)
  | 'r' => some (return some .readAccessor)
  | 'M' => some (return some .modifyAccessor)
  | 'a' => some (return some (← Scan.readLetter "an addressor letter" mutableAddressor?))
  | 'l' => some (return some (← Scan.readLetter "an addressor letter" addressor?))
  | 'p' => some (return none)
  | _ => none

/-- Reads which accessor of a variable or subscript is meant. -/
def accessor (storage : Symbol) : Decode Symbol := do
  let read ← Scan.letter (.expected "an accessor letter") accessor?
  return (← read).elim storage fun kind => .node kind [storage]

/-- The `v` operator: a variable. -/
def variableEntity : Decode Symbol := do
  accessor (← namedEntity .variableDecl)

/-- The `i` operator: a subscript. -/
def subscriptEntity : Decode Symbol := do
  accessor (← contextEntity .subscript popLabelledType)

end Demangle.Decode
