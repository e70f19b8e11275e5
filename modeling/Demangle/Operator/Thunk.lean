import Demangle.Operator.Generic
import Demangle.Operator.Specialization

/-!
# Thunks

The `T` operators: thunks, attributes of whole functions, descriptors of protocol requirements,
outlined code and specializations.
-/

namespace Demangle.Decode

/-! ## Thunks -/

/-- Pops an entity and wraps it. -/
def wrapEntity (kind : Kind) : Decode Symbol :=
  return .node kind [← popEntity]

/-- A thunk between two lowered function types, which may stand under a signature. -/
def reabstractionThunk (kind : Kind) : Decode Symbol := do
  let signature ← popSignature?
  let target ← popType
  let source ← popType
  return .node kind (signature.toList ++ [source, target])

/-- The accessor of a key path: a declaration, perhaps with a signature, and at least one type. -/
def keyPathAccessor (kind : Kind) : Decode Symbol := do
  let last ← popType
  let types ← popWhile (· == .type)
  let top ← pop
  let head ←
    if top.kind == .dependentGenericSignature then do
      let declaration ← pop
      pure [declaration, top]
    else pure [top]
  return .node kind (head ++ (last :: types).reverse)

/-- An operation on the indices of a key path takes all operands: types, perhaps with a signature on
top. -/
def keyPathIndexOperation (kind : Kind) : Decode Symbol := do
  let top ← pop
  ensure (top.kind == .dependentGenericSignature || top.kind == .type)
  let rest ← popAll
  ensure (rest.all (·.kind == .type))
  let types := rest.reverse
  return .node kind (types ++ [top])

/-! ## Requirements of protocols -/

/-- A conformance that a protocol requires of an associated type. -/
def associatedConformance (kind : Kind) : Decode Symbol := do
  let requirement ← popProtocol
  let path ← popAssociatedTypePath
  let declaredIn ← popType
  return .node kind [declaredIn, path, requirement]

/-! ## Outlined code -/

/-- Reads the flags of a bridged method up to `_`. Each takes a byte, so the first argument need not
exceed the number of bytes left. -/
def bridgedFlags : Nat → Decode (List Char)
  | 0 => fail .ended
  | fuel + 1 => do
    if ← Scan.accept '_' then return []
    let c := Char.ofUInt8 (← Scan.next)
    ensure (c == 'n' || c == 'b')
    return c :: (← bridgedFlags fuel)

/-- An outlined call of a bridged method: a letter for its form and flags for its parameters. -/
def bridgedMethod : Decode Symbol := do
  if ← Scan.accept '_' then refuse
  let form := Char.ofUInt8 (← Scan.next)
  ensure (form == 'p' || form == 'a' || form == 'm')
  let flags ← bridgedFlags (← Scan.remaining)
  return .ofText .outlinedBridgedMethod (String.ofList (form :: flags))

/-! ## Dispatch -/

/-- The operators by the letter after `T`. -/
def thunk? : Char → Option (Decode Symbol)
  | 'c' => some (wrapEntity .curryThunk)
  | 'j' => some (wrapEntity .dispatchThunk)
  | 'q' => some (wrapEntity .methodDescriptor)
  | 'o' => some (return .leaf .objcAttribute)
  | 'O' => some (return .leaf .nonObjcAttribute)
  | 'D' => some (return .leaf .dynamicAttribute)
  | 'd' => some (return .leaf .directMethodReferenceAttribute)
  | 'a' => some (return .leaf .partialApplyObjcForwarder)
  | 'A' => some (return .leaf .partialApplyForwarder)
  | 'm' => some (return .leaf .mergedFunction)
  | 'C' => some (return .node .coroutineContinuationPrototype [← popType])
  | 'V' => some do
    let base ← popEntity
    let derived ← popEntity
    return .node .vtableThunk [derived, base]
  | 'W' => some do
    let entity ← popEntity
    let conformance ← popConformance
    return .node .protocolWitness [conformance, entity]
  | 'R' => some (reabstractionThunk .reabstractionThunkHelper)
  | 'r' => some (reabstractionThunk .reabstractionThunk)
  | 'g' => some (genericSpecialization .genericSpecialization)
  | 'G' => some (genericSpecialization .genericSpecializationNotReAbstracted)
  | 'p' => some (partialSpecialization .genericPartialSpecialization)
  | 'P' => some (partialSpecialization .genericPartialSpecializationNotReAbstracted)
  | 'f' => some signatureSpecialization
  | 'K' => some (keyPathAccessor .keyPathGetterThunkHelper)
  | 'k' => some (keyPathAccessor .keyPathSetterThunkHelper)
  | 'H' => some (keyPathIndexOperation .keyPathEqualsThunkHelper)
  | 'h' => some (keyPathIndexOperation .keyPathHashThunkHelper)
  | 'l' => some (return .node .associatedTypeDescriptor [← popAssociatedTypeName])
  | 'L' => some (return .node .protocolRequirementsBaseDescriptor [← popProtocol])
  | 'M' => some (return .node .defaultAssociatedTypeMetadataAccessor [← popAssociatedTypeName])
  | 'n' => some (associatedConformance .associatedConformanceDescriptor)
  | 'N' => some (associatedConformance .defaultAssociatedConformanceAccessor)
  | 'v' => some (return .ofIndex .outlinedVariable (← Scan.index))
  | 'e' => some bridgedMethod
  | _ => none

/-- The `T` operator. -/
def thunk : Decode Symbol := do
  let read ← Scan.letter (.expected "a thunk or specialization code") thunk?
  read

end Demangle.Decode
