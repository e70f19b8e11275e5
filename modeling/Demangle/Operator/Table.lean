import Demangle.Operator.Entity
import Demangle.Operator.FunctionType
import Demangle.Operator.Generic
import Demangle.Operator.Identifier
import Demangle.Operator.Metadata
import Demangle.Operator.Nominal
import Demangle.Operator.Reference
import Demangle.Operator.SpecialType
import Demangle.Operator.Thunk
import Demangle.Operator.Witness

/-!
# The table of operators

An operator is told by its first byte (`operator?`); a digit starts an identifier, a full stop what
is left unmangled at the end, and a control byte a symbolic reference.
-/

namespace Demangle.Decode

/-- The operators that are told by a letter. -/
def operator? : Char → Option (Decode Symbol)
  | 'A' => some backReference
  | 'B' => some builtinType
  | 'C' => some (nominalType .classType)
  | 'D' => some (return .node .typeMangling [← popType])
  | 'E' => some extensionContext
  | 'F' => some plainFunction
  | 'G' => some boundGenericType
  | 'I' => some loweredFunctionType
  | 'K' => some (return .leaf .throwsMark)
  | 'L' => some localName
  | 'M' => some metadata
  | 'N' => some (return .node .typeMetadata [← popType])
  | 'O' => some (nominalType .enumType)
  | 'P' => some (nominalType .protocolType)
  | 'Q' => some archetype
  | 'R' => some requirement
  | 'S' => some standardSubstitution
  | 'T' => some thunk
  | 'V' => some (nominalType .structType)
  | 'W' => some witness
  | 'X' => some specialType
  | 'Z' => some (return .node .staticEntity [← popEntity])
  | 'a' => some (nominalType .typeAlias)
  | 'c' => some (popFunctionType .functionType)
  | 'd' => some (return .leaf .variadicMarker)
  | 'f' => some functionEntity
  | 'g' => some retroactiveConformance
  | 'h' => some (wrapTypeChild .shared)
  | 'i' => some subscriptEntity
  | 'l' => some singleSignature
  | 'm' => some (wrapType .metatype)
  | 'n' => some (wrapTypeChild .owned)
  | 'o' => some operatorName
  | 'p' => some (return .node .type [← popProtocolList])
  | 'q' => some (return .node .type [← genericParameter])
  | 'r' => some countedSignature
  | 's' => some (return .ofText .moduleName Symbol.standardModule)
  | 't' => some popTuple
  | 'u' => some genericType
  | 'v' => some variableEntity
  | 'w' => some valueWitness
  | 'x' => some (return .node .type [parameterType 0 0])
  | 'y' => some (return .leaf .emptyList)
  | 'z' => some (wrapTypeChild .inOut)
  | '_' => some (return .leaf .firstElementMarker)
  | _ => none

/-- The control bytes that introduce a symbolic reference. -/
def isReferenceByte (c : Char) : Bool :=
  0x01 ≤ c.toNat && c.toNat ≤ 0x0C

/-- A byte as two lower-case hexadecimal digits. -/
def hexByte (c : Char) : String :=
  String.ofList [Nat.digitChar (c.toNat / 16), Nat.digitChar (c.toNat % 16)]

/-- Reads one operator and returns the node it stands for. -/
def operator : Decode Symbol := do
  match ← Scan.peek? with
  | none => fail .ended
  | some c =>
    if c.isDigit then identifier
    else if c == '.' then return .ofText .suffix (← Scan.remainder)
    else if isReferenceByte c then
      let _ ← Scan.next
      symbolicReference
    else match operator? c with
      | some run => do
        let _ ← Scan.next
        run
      | none => fail (.expected ("an opcode, found byte 0x" ++ hexByte c))

end Demangle.Decode
