import Demangle.Operator.Generic
import Demangle.ValueWitness

/-!
# Witnesses

Value witnesses (`w`), and the `W` operators: witness tables, field offsets and the operations on
values that the compiler outlines.
-/

namespace Demangle.Decode

/-- The `w` operator: a value witness, named by two letters. -/
def valueWitness : Decode Symbol := do
  let witness ← require (ValueWitness.ofCode? (← Scan.take 2))
  let type ← popType
  return .make .valueWitness (.index witness.index) [type]

/-! ## Outlined operations -/

/-- The outlined operations by their letter. -/
def outlinedKind? : Char → Option Kind
  | 'y' => some .outlinedCopy
  | 'e' => some .outlinedConsume
  | 'r' => some .outlinedRetain
  | 's' => some .outlinedRelease
  | 'b' => some .outlinedInitializeWithTake
  | 'c' => some .outlinedInitializeWithCopy
  | 'd' => some .outlinedAssignWithTake
  | 'f' => some .outlinedAssignWithCopy
  | 'h' => some .outlinedDestroy
  | _ => none

/-- An outlined operation on values of a type, which may stand under a signature. -/
def outlinedOperation : Decode Symbol := do
  let signature ← popSignature?
  let type ← popType
  let kind ← Scan.letter (.expected "an outlined operation letter") outlinedKind?
  return .node kind (type :: signature.toList)

/-! ## Witness tables -/

/-- The tables of a conformance by the letter after `W`. -/
def conformanceTable? : Char → Option Kind
  | 'P' => some .protocolWitnessTable
  | 'p' => some .protocolWitnessTablePattern
  | 'G' => some .genericProtocolWitnessTable
  | 'I' => some .genericProtocolWitnessTableInstantiationFunction
  | 'r' => some .resilientProtocolWitnessTable
  | 'a' => some .protocolWitnessTableAccessor
  | _ => none

/-- How a field offset is stored. -/
def directness? : Char → Option Directness
  | 'd' => some .direct
  | 'i' => some .indirect
  | _ => none

/-- The offset of a field. -/
def fieldOffset : Decode Symbol := do
  let directness ← Scan.readLetter "'d' or 'i'" directness?
  let entity ← popEntity
  return .node .fieldOffset [.ofIndex .directness directness.index, entity]

/-- A table that is made when it is first asked for. -/
def lazyTable (kind : Kind) : Decode Symbol := do
  let conformance ← popConformance
  let type ← popType
  return .node kind [type, conformance]

/-- The operators by the letter after `W`. -/
def witness? (c : Char) : Option (Decode Symbol) :=
  match c with
  | 'C' => some (return .node .enumCase [← popEntity])
  | 'V' => some (return .node .valueWitnessTable [← popType])
  | 'v' => some fieldOffset
  | 'l' => some (lazyTable .lazyProtocolWitnessTableAccessor)
  | 'L' => some (lazyTable .lazyProtocolWitnessTableCacheVariable)
  | 't' => some do
    let name ← popDeclName
    let conformance ← popConformance
    return .node .associatedTypeMetadataAccessor [conformance, name]
  | 'T' => some do
    let protocol ← popType
    let path ← popAssociatedTypePath
    let conformance ← popConformance
    return .node .associatedTypeWitnessTableAccessor [conformance, path, protocol]
  | 'O' => some outlinedOperation
  | c => (conformanceTable? c).map fun kind => return .node kind [← popConformance]

/-- The `W` operator. -/
def witness : Decode Symbol := do
  let read ← Scan.letter (.expected "a witness letter") witness?
  read

end Demangle.Decode
