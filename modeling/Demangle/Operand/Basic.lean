import Demangle.Cursor
import Demangle.Symbol.Basic
import Demangle.WordTable

/-!
# Operands

A mangled name is a postfix program: its operators are read from left to right, leaf operators push
nodes on a stack of operands and the others pop operands, check their kinds and push what they build.
`State` is what a run keeps between two operators, `Decode` a step of the run. A failing step keeps
the state it has reached.
-/

namespace Demangle

/-! ## State -/

/-- What decoding keeps between two operators. -/
structure State where
  /-- The place in the input. -/
  cursor : Cursor
  /-- The operands, the top of the stack first. -/
  operands : List Symbol := []
  /-- The nodes that back-references can name, in the order of their first appearance. -/
  substitutions : Array Symbol := #[]
  /-- The words that identifiers can refer to. -/
  words : WordTable := #[]
  /-- Argument labels are part of the tuple type, as in names that start with `_T0`. -/
  legacyLabels : Bool := false
  deriving Inhabited

/-- The state in which decoding of a text starts. -/
def State.ofString (s : String) : State :=
  { cursor := .ofString s }

/-- A step of decoding. -/
abbrev Decode := EStateM Fault State

/-- A scanning step moves the cursor of the state. -/
instance : MonadLift Scan Decode where
  monadLift x := fun s =>
    match x s.cursor with
    | .ok a c => .ok a { s with cursor := c }
    | .error e c => .error e { s with cursor := c }

namespace Decode

variable {α : Type}

/-! ## Checks -/

/-- Fails at the cursor. -/
def fail (cause : Cause) : Decode α :=
  (Scan.fail cause : Scan α)

/-- Refuses the operands or a value that was read. -/
def refuse : Decode α :=
  fail .malformed

/-- Refuses a missing value. -/
def require : Option α → Decode α
  | some a => pure a
  | none => refuse

/-- Refuses what does not hold. -/
def ensure (b : Bool) : Decode Unit :=
  if b then pure () else refuse

/-- Refuses a tree that is nested too deeply. -/
def checkDepth (s : Symbol) : Decode Unit :=
  ensure (s.depth ≤ Symbol.nestingLimit)

/-! ## The stack -/

/-- Pushes an operand. -/
def push (x : Symbol) : Decode Unit :=
  modify fun s => { s with operands := x :: s.operands }

/-- Pushes `n` copies of an operand. -/
def pushCopies (n : Nat) (x : Symbol) : Decode Unit :=
  modify fun s => { s with operands := List.replicate n x ++ s.operands }

/-- Pops the top operand, if there is one. -/
def pop? : Decode (Option Symbol) :=
  fun s => match s.operands with
  | [] => .ok none s
  | x :: xs => .ok (some x) { s with operands := xs }

/-- Pops the top operand. -/
def pop : Decode Symbol := do
  require (← pop?)

/-- Pops the top operand if its kind has the property `p`. -/
def popIf? (p : Kind → Bool) : Decode (Option Symbol) :=
  fun s => match s.operands with
  | [] => .ok none s
  | x :: xs => if p x.kind then .ok (some x) { s with operands := xs } else .ok none s

/-- Pops the top operand, whose kind must have the property `p`. -/
def popIf (p : Kind → Bool) : Decode Symbol := do
  require (← popIf? p)

/-- Pops the top operand if it has the given kind. -/
def popKind? (kind : Kind) : Decode (Option Symbol) :=
  popIf? (· == kind)

/-- Pops the top operand, which must have the given kind. -/
def popKind (kind : Kind) : Decode Symbol :=
  popIf (· == kind)

/-- Pops the operands on top whose kinds have the property `p`, the top one first. -/
def popWhile (p : Kind → Bool) : Decode (List Symbol) :=
  fun s =>
    .ok (s.operands.takeWhile fun x => p x.kind)
      { s with operands := s.operands.dropWhile fun x => p x.kind }

/-- Pops all operands, the top one first. -/
def popAll : Decode (List Symbol) :=
  fun s => .ok s.operands { s with operands := [] }

/-- Pops `n` operands, the top one first. -/
def popCount (n : Nat) : Decode (List Symbol) := do
  let operands := (← get).operands
  ensure (n ≤ operands.length)
  modify fun s => { s with operands := operands.drop n }
  return operands.take n

/-! ## Operands with a role -/

/-- Pops a type. -/
def popType : Decode Symbol :=
  popKind .type

/-- Pops a type and returns what it holds. -/
def popTypeChild : Decode Symbol := do
  require (← popType).first?

/-- Pops a type that holds a nominal type. -/
def popAnyGeneric : Decode Symbol := do
  let nominal ← popTypeChild
  ensure nominal.kind.isAnyGeneric
  return nominal

/-- Pops the name of a declaration. -/
def popDeclName : Decode Symbol :=
  popIf Kind.isDeclName

/-- Pops an entity. -/
def popEntity : Decode Symbol :=
  popIf Kind.isEntity

/-- Pops a generic signature, if there is one on top. -/
def popSignature? : Decode (Option Symbol) :=
  popKind? .dependentGenericSignature

/-- Pops a module; an identifier names one. -/
def popModule? : Decode (Option Symbol) := do
  match ← popKind? .identifier with
  | some name => return some (name.renamed .moduleName [])
  | none => popKind? .moduleName

/-- Pops a module, which must be there. -/
def popModule : Decode Symbol := do
  require (← popModule?)

/-- Pops a context: a module, a type that holds one, or another enclosing entity. -/
def popContext : Decode Symbol := do
  if let some m ← popModule? then return m
  if let some t ← popKind? .type then
    let context ← require t.first?
    ensure context.kind.isContext
    return context
  popIf Kind.isContext

/-! ## Lists of operands

The elements of a list are pushed from front to back with a marker after the first one; an empty list
is a mark of its own. -/

/-- Pops elements by `item` until the marked first one, and puts them in front of `acc`. Each element
takes an operand at least, so the first argument need not exceed the number of operands. -/
def popMarked (item : Decode α) : Nat → List α → Decode (List α)
  | 0, _ => refuse
  | n + 1, acc => do
    let first ← popKind? .firstElementMarker
    let x ← item
    if first.isSome then return x :: acc else popMarked item n (x :: acc)

/-- Pops a list of at least one element, in the order in which they were pushed. -/
def popElements (item : Decode α) : Decode (List α) := do
  popMarked item (← get).operands.length []

/-- Pops a list of elements, in the order in which they were pushed. -/
def popList (item : Decode α) : Decode (List α) := do
  if (← popKind? .emptyList).isSome then return [] else popElements item

/-- Pops a list of types. -/
def popTypeList : Decode Symbol :=
  return .node .typeList (← popList popType)

/-- Pops an element of a tuple: a type, below its label and the mark of a variadic element. -/
def popTupleElement : Decode Symbol := do
  let variadic ← popKind? .variadicMarker
  let label ← popKind? .identifier
  let type ← popType
  let name := label.map fun l => Symbol.ofText .tupleElementName l.textD
  return .node .tupleElement (variadic.toList ++ name.toList ++ [type])

/-- Pops the elements of a tuple and returns its type. -/
def popTuple : Decode Symbol :=
  return .typed .tuple (← popList popTupleElement)

/-! ## Substitutions -/

/-- Makes a node available to back-references. -/
def remember (x : Symbol) : Decode Symbol := do
  modify fun s => { s with substitutions := s.substitutions.push x }
  return x

/-- The node that a back-reference names. -/
def substitution (i : Nat) : Decode Symbol := do
  require (← get).substitutions[i]?

/-- Reads an index and returns it as a node. -/
def indexNode : Decode Symbol :=
  return .ofIndex .number (← Scan.index)

end Decode

end Demangle
