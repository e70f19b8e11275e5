import Demangle.Operator.FunctionType
import Demangle.Operator.Generic
import Demangle.Operator.Nominal

/-!
# Special types

The types whose operator starts with `X`: the flavours of function types, reference storage,
metatypes with a representation, existentials and boxes.
-/

namespace Demangle.Decode

/-- Pops a type and wraps it. -/
def wrapType (kind : Kind) : Decode Symbol :=
  return .typed kind [← popType]

/-- Pops a type and wraps what it holds. -/
def wrapTypeChild (kind : Kind) : Decode Symbol :=
  return .typed kind [← popTypeChild]

/-! ## Metatypes -/

/-- The representation of a metatype. -/
def metatypeRepresentation? : Char → Option String
  | 't' => some "@thin"
  | 'T' => some "@thick"
  | 'o' => some "@objc_metatype"
  | _ => none

/-- A metatype with its representation. -/
def representedMetatype (kind : Kind) : Decode Symbol := do
  let text ← Scan.letter (.expected "a metatype representation") metatypeRepresentation?
  let type ← popType
  return .typed kind [.ofText .metatypeRepresentation text, type]

/-! ## Boxes -/

/-- A field of a box. The type of a mutable field is marked as `inout`. -/
def boxField (type : Symbol) : Decode Symbol := do
  let inner ← require type.first?
  if inner.kind == .inOut then
    let pointee ← require inner.first?
    return .node .silBoxMutableField [.node .type [pointee]]
  return .node .silBoxImmutableField [type]

/-- A box with a layout, generic or not. -/
def boxType (generic : Bool) : Decode Symbol := do
  let generics ←
    if generic then do
      let signature ← popKind .dependentGenericSignature
      let args ← popTypeList
      pure [signature, args]
    else pure []
  let fields ← (← popTypeList).children.mapM boxField
  return .typed .silBoxTypeWithLayout (.node .silBoxLayout fields :: generics)

/-! ## Contexts without a name of their own -/

/-- Pops a context that stands for code outside the name, with its generic arguments. -/
def anonymousContext : Decode Symbol := do
  let types ← popTypeList
  let name ← popKind .identifier
  let parent ← popContext
  return .node .anonymousContext [name, parent, types]

/-! ## Dispatch -/

/-- The special types by the letter after `X`. -/
def specialType? : Char → Option (Decode Symbol)
  | 'E' => some (popFunctionType .noEscapeFunctionType)
  | 'A' => some (popFunctionType .escapingAutoClosureType)
  | 'f' => some (popFunctionType .thinFunctionType)
  | 'K' => some (popFunctionType .autoClosureType)
  | 'U' => some (popFunctionType .uncurriedFunctionType)
  | 'B' => some (popFunctionType .objcBlock)
  | 'C' => some (popFunctionType .cFunctionPointer)
  | 'o' => some (wrapType .unowned)
  | 'u' => some (wrapType .unmanaged)
  | 'w' => some (wrapType .weak)
  | 'b' => some (wrapType .silBoxType)
  | 'D' => some (wrapType .dynamicSelf)
  | 'M' => some (representedMetatype .metatype)
  | 'm' => some (representedMetatype .existentialMetatype)
  | 'p' => some (wrapType .existentialMetatype)
  | 'c' => some do
    let superclass ← popType
    let protocols ← popProtocolList
    return .typed .protocolListWithClass [protocols, superclass]
  | 'l' => some do
    let protocols ← popProtocolList
    return .typed .protocolListWithAnyObject [protocols]
  | 'X' => some (boxType true)
  | 'x' => some (boxType false)
  | 'Y' => some (nominalType .otherNominalType)
  | 'Z' => some anonymousContext
  | 'e' => some (return .typed .errorType [])
  | _ => none

/-- The `X` operator. -/
def specialType : Decode Symbol := do
  let read ← Scan.letter (.expected "a special type letter") specialType?
  read

end Demangle.Decode
