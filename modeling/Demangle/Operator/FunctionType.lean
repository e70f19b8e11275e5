import Demangle.Operand.Basic

/-!
# Function types

A function type is popped from its parameters up to its result (`popFunctionType`). The argument
labels of a function stand below its type among the operands or, in legacy names, inside its
parameter tuple; `popLabels` finds them in either place and returns the type without them. A lowered
function type (`loweredFunctionType`) spells a convention for each of its types.
-/

namespace Demangle.Decode

/-! ## Parameters and results -/

/-- Pops the type of the parameters or of the result; an empty list is the empty tuple. -/
def popFunctionPart : Decode Symbol := do
  if (← popKind? .emptyList).isSome then return .typed .tuple [] else popType

/-- The number of parameters that the type of all parameters stands for. -/
def parameterCount (params : Symbol) : Nat :=
  if params.kind == .tuple then params.children.length else 1

/-- Pops the parameters, with their number. -/
def popArguments : Decode Symbol := do
  let params ← popFunctionPart
  let inner ← require params.first?
  return (Symbol.ofIndex .argumentTuple (UInt64.ofNat (parameterCount inner))).push params

/-- Pops a function type of the given kind. -/
def popFunctionType (kind : Kind) : Decode Symbol := do
  let throws ← popKind? .throwsMark
  let arguments ← popArguments
  let result ← popFunctionPart
  return .typed kind (throws.toList ++ [arguments, .node .returnType [result]])

/-! ## Argument labels -/

/-- Where the parameter tuple of a function type stands: what is inside and how to put another tuple
in its place. -/
structure ParameterSlot where
  /-- The number of parameters recorded beside the tuple. -/
  count : UInt64
  /-- The tuple, unless the function has one parameter that is no tuple. -/
  tuple? : Option Symbol
  /-- The whole type with another tuple. -/
  replace : Symbol → Symbol

/-- Finds the parameters of a function type, also below a generic signature. Types without parameters
and types of other kinds have none. -/
def parameterSlot? (type : Symbol) : Decode (Option ParameterSlot) := do
  if type.kind != .type then return none
  let top ← require type.first?
  let generic := top.kind == .dependentGenericType
  let function ← if generic then require ((top.child? 1).bind Symbol.first?) else pure top
  if function.kind != .functionType && function.kind != .noEscapeFunctionType then return none
  let slot := if function.first?.any (·.kind == .throwsMark) then 1 else 0
  let arguments ← require (function.child? slot)
  ensure (arguments.kind == .argumentTuple)
  if arguments.indexD == 0 then return none
  let params ← require arguments.first?
  return some {
    count := arguments.indexD
    tuple? := params.first?.filter (·.kind == .tuple)
    replace := fun tuple =>
      let function := function.setChild slot (arguments.setChild 0 (params.setChild 0 tuple))
      let top :=
        if generic then top.setChild 1 ((top.child? 1).elim function (·.setChild 0 function))
        else function
      type.setChild 0 top }

/-- The label of a tuple element, and the element without it. -/
def splitLabel (element : Symbol) : Symbol × Symbol :=
  match element.children.findIdx? (·.kind == .tupleElementName) with
  | some i => (.ofText .identifier ((element.child? i).elim "" Symbol.textD), element.removeChild i)
  | none => (.leaf .firstElementMarker, element)

/-- The labels of the first `count` elements of a tuple, and the tuple without them. -/
def stripLabels (count : Nat) (tuple : Symbol) : List Symbol × Symbol :=
  let split := (tuple.children.take count).map splitLabel
  (split.map Prod.fst,
    .make tuple.kind tuple.payload (split.map Prod.snd ++ tuple.children.drop count))

/-- A list of labels; a marker stands for a missing one, and a list of markers is empty. -/
def labelList (labels : List Symbol) : Decode Symbol := do
  ensure (labels.all fun l => l.kind == .identifier || l.kind == .firstElementMarker)
  return .node .labelList (if labels.all (·.kind == .firstElementMarker) then [] else labels)

/-- Pops or strips the argument labels of a function. Returns them, if there is a place for any, and
the type without them. -/
def popLabels (type : Symbol) : Decode (Option Symbol × Symbol) := do
  let legacy := (← get).legacyLabels
  let unlabelled ← if legacy then pure none else popKind? .emptyList
  if unlabelled.isSome then return (some (.leaf .labelList), type)
  match ← parameterSlot? type with
  | none => return (none, type)
  | some slot =>
    match slot.tuple? with
    | none => return (some (.leaf .labelList), type)
    | some tuple =>
      if legacy then
        ensure (slot.count.toNat ≤ tuple.children.length)
        let (labels, tuple) := stripLabels slot.count.toNat tuple
        return (some (← labelList labels), slot.replace tuple)
      else
        let labels ← popCount slot.count.toNat
        return (some (← labelList labels.reverse), type)

/-! ## Lowered function types -/

/-- How the function value itself is held. -/
def calleeConvention? : Char → Option String
  | 'y' => some "@callee_unowned"
  | 'g' => some "@callee_guaranteed"
  | 'x' => some "@callee_owned"
  | 't' => some "@convention(thin)"
  | _ => none

/-- The representation of the function. -/
def representation? : Char → Option String
  | 'B' => some "@convention(block)"
  | 'C' => some "@convention(c)"
  | 'M' => some "@convention(method)"
  | 'O' => some "@convention(objc_method)"
  | 'K' => some "@convention(closure)"
  | 'W' => some "@convention(witness_method)"
  | _ => none

/-- How a parameter is passed. -/
def parameterConvention? : Char → Option String
  | 'i' => some "@in"
  | 'c' => some "@in_constant"
  | 'l' => some "@inout"
  | 'b' => some "@inout_aliasable"
  | 'n' => some "@in_guaranteed"
  | 'x' => some "@owned"
  | 'g' => some "@guaranteed"
  | 'e' => some "@deallocating"
  | 'y' => some "@unowned"
  | _ => none

/-- How a result is returned. -/
def resultConvention? : Char → Option String
  | 'r' => some "@out"
  | 'o' => some "@owned"
  | 'd' => some "@unowned"
  | 'u' => some "@unowned_inner_pointer"
  | 'a' => some "@autoreleased"
  | _ => none

/-- Pops `n` types, in the order in which they were pushed. -/
def popTypes : Nat → List Symbol → Decode (List Symbol)
  | 0, acc => pure acc
  | n + 1, acc => do
    let type ← popType
    popTypes n (type :: acc)

/-- Pops the signature of a lowered function type; `P` marks it as pseudogeneric. -/
def popLoweredSignature? : Decode (Option Symbol) := do
  match ← popSignature? with
  | none => return none
  | some signature =>
    if ← Scan.accept 'P' then
      return some (signature.renamed .dependentPseudogenericSignature [])
    else return some signature

/-- The `I` operator. -/
def loweredFunctionType : Decode Symbol := do
  let signature ← popLoweredSignature?
  let escaping ← Scan.accept 'e'
  let callee ← Scan.letter (.expected "a callee convention") calleeConvention?
  let representation ← Scan.letter? representation?
  let params ← Scan.letters parameterConvention?
  let results ← Scan.letters resultConvention?
  let errors ←
    if ← Scan.accept 'z' then
      pure [← require (← Scan.letter? resultConvention?)]
    else pure []
  Scan.expect '_'
  let slots :=
    params.map (Kind.implParameter, ·) ++ results.map (Kind.implResult, ·) ++
      errors.map (Kind.implErrorResult, ·)
  let types ← popTypes slots.length []
  let head :=
    (if escaping then [Symbol.leaf .implEscaping] else []) ++
      [.ofText .implConvention callee] ++
      (representation.map (Symbol.ofText .implFunctionAttribute)).toList ++ signature.toList
  let tail := slots.zipWith
    (fun slot type => Symbol.node slot.1 [.ofText .implConvention slot.2, type]) types
  return .typed .implFunctionType (head ++ tail)

end Demangle.Decode
