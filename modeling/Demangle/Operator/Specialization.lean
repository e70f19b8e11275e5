import Demangle.Operand.Basic
import Demangle.ParamChange

/-!
# Specializations

A specialization of a function names the pass that made it and what it was specialized for: generic
arguments (`Tg`, `TG`, `Tp`, `TP`) or changes to its signature (`Tf`). The records of a signature
specialization are spelled after the operator; what some of them carry was pushed before it and is
popped once all records are known, the last record first (`attachAll`).
-/

namespace Demangle.Decode

/-! ## What all specializations have -/

/-- Reads the mark of a fragile function and the pass. -/
def specializationHead : Decode (List Symbol) := do
  let fragile ← Scan.accept 'q'
  let pass ← Scan.expectWhere (Char.ofUInt8 · |>.isDigit) "a specialization pass id"
  let passNode := Symbol.ofIndex .specializationPassId (pass - '0'.toUInt8).toUInt64
  return if fragile then [.leaf .specializationIsFragile, passNode] else [passNode]

/-- A specialization for a list of types. -/
def genericSpecialization (kind : Kind) : Decode Symbol := do
  let head ← specializationHead
  let types := (← popTypeList).children
  return .node kind (head ++ types.map fun t => .node .genericSpecializationParam [t])

/-- A specialization for some of the types. -/
def partialSpecialization (kind : Kind) : Decode Symbol := do
  let head ← specializationHead
  let type ← popType
  return .node kind (head ++ [.node .genericSpecializationParam [type]])

/-! ## Records of changes -/

/-- The node of a number of changes. -/
def changeNode (value : UInt64) : Symbol :=
  .ofIndex .functionSignatureSpecializationParamKind value

/-- The node of what a change carries. -/
def payloadNode (text : String) : Symbol :=
  .ofText .functionSignatureSpecializationParamPayload text

/-- Reads a decimal literal, `n` being its sign. -/
def numberLiteral : Decode String := do
  let negative ← Scan.accept 'n'
  let digits ← Scan.takeWhile (Char.ofUInt8 · |>.isDigit)
  ensure (!digits.isEmpty)
  return (if negative then "-" else "") ++ digits

/-- The encoding of a string constant. -/
def stringEncoding? : Char → Option String
  | 'b' => some "u8"
  | 'w' => some "u16"
  | 'c' => some "objc"
  | _ => none

/-- The constants by the letter after `p`. -/
def constantRecord? : Char → Option (Decode (List Symbol))
  | 'f' => some (return [changeNode ParamChange.constantFunction.value])
  | 'g' => some (return [changeNode ParamChange.constantGlobal.value])
  | 'i' => some (return [changeNode ParamChange.constantInteger.value,
      payloadNode (← numberLiteral)])
  | 'd' => some (return [changeNode ParamChange.constantFloat.value,
      payloadNode (← numberLiteral)])
  | 's' => some do
    let encoding ← Scan.letter (.expected "'b', 'w' or 'c'") stringEncoding?
    return [changeNode ParamChange.constantString.value, payloadNode encoding]
  | _ => none

/-- The flag letters that may follow a flag, with what they mean. -/
def flagLetters : ParamChange → List (Char × ParamChange)
  | .existentialToGeneric =>
    [('D', .dead), ('G', .ownedToGuaranteed), ('O', .guaranteedToOwned), ('X', .exploded)]
  | .dead => [('G', .ownedToGuaranteed), ('O', .guaranteedToOwned), ('X', .exploded)]
  | .ownedToGuaranteed => [('O', .guaranteedToOwned), ('X', .exploded)]
  | .guaranteedToOwned => [('X', .exploded)]
  | _ => []

/-- Reads flag letters in their order, each at most once, and adds them to `value`. -/
def readFlags (value : UInt64) : List (Char × ParamChange) → Decode UInt64
  | [] => pure value
  | (letter, flag) :: flags => do
    let value := if ← Scan.accept letter then value ||| flag.value else value
    readFlags value flags

/-- A flag with the flags that follow it. -/
def flagRecord (flag : ParamChange) : Decode (List Symbol) :=
  return [changeNode (← readFlags flag.value (flagLetters flag))]

/-- The records by their letter. -/
def changeRecord? : Char → Option (Decode (List Symbol))
  | 'n' => some (return [])
  | 'c' => some (return [changeNode ParamChange.closure.value])
  | 'p' => some do
    let read ← Scan.letter (.expected "a constant propagation kind") constantRecord?
    read
  | 'e' => some (flagRecord .existentialToGeneric)
  | 'd' => some (flagRecord .dead)
  | 'g' => some (flagRecord .ownedToGuaranteed)
  | 'o' => some (flagRecord .guaranteedToOwned)
  | 'x' => some (return [changeNode ParamChange.exploded.value])
  | 'i' => some (return [changeNode ParamChange.boxToValue.value])
  | 's' => some (return [changeNode ParamChange.boxToStack.value])
  | _ => none

/-- Reads one record. -/
def changeRecord : Decode (List Symbol) := do
  let read ← Scan.letter (.expected "a parameter specialization code") changeRecord?
  read

/-- Reads the records of parameters up to `_`, the next one being number `i`. Each takes a byte at
least, so the first argument need not exceed the number of bytes left. -/
def paramRecords : Nat → UInt64 → Decode (List Symbol)
  | 0, _ => fail .ended
  | fuel + 1, i => do
    if ← Scan.accept '_' then return []
    let record := Symbol.make .functionSignatureSpecializationParam (.index i) (← changeRecord)
    return record :: (← paramRecords fuel (i + 1))

/-- Reads the record of the result, which is left out as `n`. -/
def returnRecord : Decode (List Symbol) := do
  if ← Scan.accept 'n' then return []
  return [.node .functionSignatureSpecializationReturn (← changeRecord)]

/-! ## What records carry -/

/-- A leading `_` protects a string that starts with a digit or `_`. -/
def unprotect (s : String) : String :=
  match s.toList with
  | '_' :: cs => String.ofList cs
  | _ => s

/-- Pops what a change carries: a name and, for a closure, the types it captures. -/
def popPayload (change : ParamChange) : Decode (List Symbol) := do
  let types ← popWhile (· == .type)
  ensure (types.isEmpty || change == .closure)
  let name ← popKind .identifier
  let text := if change == .constantString then unprotect name.textD else name.textD
  return payloadNode text :: types.reverse

/-- The change of a record, if it is a single one that carries something. -/
def carriedChange? (kindNode : Symbol) : Option ParamChange :=
  (kindNode.index?.bind ParamChange.ofValue?).filter ParamChange.takesPayload

/-- Completes the record of a parameter. -/
def attach (record : Symbol) : Decode Symbol := do
  if record.kind != .functionSignatureSpecializationParam then return record
  match record.first? with
  | none => return record
  | some kindNode =>
    ensure (kindNode.kind == .functionSignatureSpecializationParamKind)
    match carriedChange? kindNode with
    | none => return record
    | some change => return record.append (← popPayload change)

/-- Completes records given last one first, in front of those in `acc`. -/
def attachAll : (records acc : List Symbol) → Decode (List Symbol)
  | [], acc => pure acc
  | r :: rs, acc => do attachAll rs ((← attach r) :: acc)

/-- A specialization of the signature of a function, with an optional number of its own. -/
def signatureSpecialization : Decode Symbol := do
  let head ← specializationHead
  let unique ← Scan.integer?
  let params ← paramRecords (← Scan.remaining) 0
  let result ← returnRecord
  let records ← attachAll (params ++ result).reverse []
  return .make .functionSignatureSpecialization (unique.elim .none .index) (head ++ records)

end Demangle.Decode
