import Demangle.Operator.Reference

/-!
# Nominal types

Types of the standard library and of the compiler have short spellings. Other nominal types are named
in a context (`nominalType`). `G` binds a nominal type to generic arguments, one list for each generic
level; the arguments go to the type and its enclosing contexts, the innermost list first
(`bindArguments`).
-/

namespace Demangle.Decode

/-! ## Types of the standard library -/

/-- The type of the standard library that a letter after `S` names. -/
def standardType? : Char → Option (Kind × String)
  | 'a' => some (.structType, "Array")
  | 'A' => some (.structType, "AutoreleasingUnsafeMutablePointer")
  | 'b' => some (.structType, "Bool")
  | 'c' => some (.structType, "UnicodeScalar")
  | 'D' => some (.structType, "Dictionary")
  | 'd' => some (.structType, "Double")
  | 'f' => some (.structType, "Float")
  | 'h' => some (.structType, "Set")
  | 'I' => some (.structType, "DefaultIndices")
  | 'i' => some (.structType, "Int")
  | 'J' => some (.structType, "Character")
  | 'N' => some (.structType, "ClosedRange")
  | 'n' => some (.structType, "Range")
  | 'O' => some (.structType, "ObjectIdentifier")
  | 'p' => some (.structType, "UnsafeMutablePointer")
  | 'P' => some (.structType, "UnsafePointer")
  | 'R' => some (.structType, "UnsafeBufferPointer")
  | 'r' => some (.structType, "UnsafeMutableBufferPointer")
  | 'S' => some (.structType, "String")
  | 's' => some (.structType, "Substring")
  | 'u' => some (.structType, "UInt")
  | 'v' => some (.structType, "UnsafeMutableRawPointer")
  | 'V' => some (.structType, "UnsafeRawPointer")
  | 'W' => some (.structType, "UnsafeRawBufferPointer")
  | 'w' => some (.structType, "UnsafeMutableRawBufferPointer")
  | 'q' => some (.enumType, "Optional")
  | 'B' => some (.protocolType, "BinaryFloatingPoint")
  | 'E' => some (.protocolType, "Encodable")
  | 'e' => some (.protocolType, "Decodable")
  | 'F' => some (.protocolType, "FloatingPoint")
  | 'G' => some (.protocolType, "RandomNumberGenerator")
  | 'H' => some (.protocolType, "Hashable")
  | 'j' => some (.protocolType, "Numeric")
  | 'K' => some (.protocolType, "BidirectionalCollection")
  | 'k' => some (.protocolType, "RandomAccessCollection")
  | 'L' => some (.protocolType, "Comparable")
  | 'l' => some (.protocolType, "Collection")
  | 'M' => some (.protocolType, "MutableCollection")
  | 'm' => some (.protocolType, "RangeReplaceableCollection")
  | 'Q' => some (.protocolType, "Equatable")
  | 'T' => some (.protocolType, "Sequence")
  | 't' => some (.protocolType, "IteratorProtocol")
  | 'U' => some (.protocolType, "UnsignedInteger")
  | 'X' => some (.protocolType, "RangeExpression")
  | 'x' => some (.protocolType, "Strideable")
  | 'Y' => some (.protocolType, "RawRepresentable")
  | 'y' => some (.protocolType, "StringProtocol")
  | 'Z' => some (.protocolType, "SignedInteger")
  | 'z' => some (.protocolType, "BinaryInteger")
  | _ => none

/-- Wraps the type below into an optional. -/
def optionalType : Decode Symbol := do
  let wrapped ← popType
  remember <| .typed .boundGenericEnum
    [.standardType .enumType "Optional", .node .typeList [wrapped]]

/-- The operators after `S` that are spelled by one letter and take no count. -/
def standardOperator? : Char → Option (Decode Symbol)
  | 'o' => some (return .ofText .moduleName Symbol.objcModule)
  | 'C' => some (return .ofText .moduleName Symbol.cModule)
  | 'g' => some optionalType
  | _ => none

/-- The `S` operator. -/
def standardSubstitution : Decode Symbol := do
  if (← Scan.peek?).isNone then fail .ended
  match ← Scan.letter? standardOperator? with
  | some operator => operator
  | none => do
    let count := (← Scan.integer?).getD 0
    ensure (count ≤ repeatLimit)
    let (kind, name) ← Scan.letter (.expected "a standard substitution letter") standardType?
    pushCopies (count.toNat - 1) (.standardType kind name)
    return .standardType kind name

/-! ## Types of the compiler -/

/-- The greatest size of a builtin type, in bits or in elements. -/
def builtinSizeLimit : UInt64 := 4096

/-- Reads the size of a builtin type. -/
def builtinSize : Decode UInt64 := do
  let n ← Scan.index
  ensure (2 ≤ n && n - 1 ≤ builtinSizeLimit)
  return n - 1

/-- How the names of builtin types begin. -/
def builtinStart : String := "Builtin."

/-- The name of a builtin type without `Builtin.`. -/
def builtinElement? (s : Symbol) : Option String :=
  let chars := s.textD.toList
  let start := builtinStart.toList
  if s.kind == .builtinTypeName && start.isPrefixOf chars then
    some (String.ofList (chars.drop start.length))
  else none

/-- The builtin type that a letter after `B` names. -/
def builtinName? : Char → Option (Decode String)
  | 'b' => some (return "BridgeObject")
  | 'B' => some (return "UnsafeValueBuffer")
  | 'f' => some (return "Float" ++ toString (← builtinSize))
  | 'i' => some (return "Int" ++ toString (← builtinSize))
  | 'v' => some do
    let count ← builtinSize
    let element ← require (builtinElement? (← popTypeChild))
    return "Vec" ++ toString count ++ "x" ++ element
  | 'O' => some (return "UnknownObject")
  | 'o' => some (return "NativeObject")
  | 'p' => some (return "RawPointer")
  | 't' => some (return "SILToken")
  | 'w' => some (return "Word")
  | _ => none

/-- The `B` operator. -/
def builtinType : Decode Symbol := do
  let name ← Scan.letter (.expected "a builtin type letter") builtinName?
  return .node .type [.ofText .builtinTypeName (builtinStart ++ (← name))]

/-! ## Named types -/

/-- A nominal type of the given kind, named in a context. -/
def nominalType (kind : Kind) : Decode Symbol := do
  let name ← popDeclName
  let context ← popContext
  remember (.typed kind [context, name])

/-! ## Generic arguments -/

/-- The kind of a nominal type with arguments. -/
def boundKind? : Kind → Option Kind
  | .classType => some .boundGenericClass
  | .structType => some .boundGenericStructure
  | .enumType => some .boundGenericEnum
  | .protocolType => some .boundGenericProtocol
  | .otherNominalType => some .boundGenericOtherNominalType
  | .typeAlias => some .boundGenericTypeAlias
  | _ => none

/-- References to nodes outside the name, whose generic levels are not known. -/
def isReference (kind : Kind) : Bool :=
  kind == .symbolicReference || kind == .unresolvedSymbolicReference

/-- Entities that have no generic level of their own. -/
def hasNoGenericLevel (kind : Kind) : Bool :=
  kind == .variableDecl || kind == .explicitClosure || kind == .subscript

/-- The node with arguments, unless there are none. -/
def wrapBound (nominal args : Symbol) : Decode Symbol :=
  if args.children.isEmpty then pure nominal
  else if nominal.kind == .function || nominal.kind == .constructor then
    pure (.node .boundGenericFunction [nominal, args])
  else match boundKind? nominal.kind with
    | some kind => pure (.node kind [.node .type [nominal], args])
    | none => fail (.expected "a generic nominal type")

/-- A node outside the name takes all arguments that are left, the outermost first. -/
def bindReference (reference : Symbol) (lists : List Symbol) : Symbol :=
  .node .boundGenericOtherNominalType
    [.node .type [reference], .node .typeList (lists.reverse.flatMap Symbol.children)]

/-- Applies argument lists to a nominal type and its enclosing contexts, the innermost list first.
Arguments for an extension go to the type that it extends. -/
def bindArguments : Symbol → List Symbol → Decode Symbol
  | ⟨kind, payload, [], depth⟩, lists =>
    if isReference kind then pure (bindReference ⟨kind, payload, [], depth⟩ lists) else refuse
  | ⟨kind, payload, context :: others, depth⟩, lists =>
    let nominal : Symbol := ⟨kind, payload, context :: others, depth⟩
    if isReference kind then pure (bindReference nominal lists) else
    match lists with
    | [] => refuse
    | args :: outer => do
      let lists := if hasNoGenericLevel kind then args :: outer else outer
      let nominal ←
        if lists.isEmpty then pure nominal
        else do
          let whole := bindArguments context
          let context ←
            match context with
            | ⟨.extension, _, declaredIn :: extended :: signature, _⟩ => do
              let extended ← bindArguments extended lists
              pure (Symbol.node .extension (declaredIn :: extended :: signature.take 1))
            | ⟨.extension, _, _, _⟩ => refuse
            | _ => whole lists
          pure (Symbol.node kind (context :: others))
      if hasNoGenericLevel kind then pure nominal else wrapBound nominal args

/-- Pops the argument lists of a bound type, the innermost first. Each takes an operand at least, so
the first argument need not exceed the number of operands. -/
def popArgumentLists : Nat → Decode (List Symbol)
  | 0 => refuse
  | fuel + 1 => do
    let types ← popWhile (· == .type)
    let list := Symbol.node .typeList types.reverse
    if (← popKind? .emptyList).isSome then return [list]
    let _ ← popKind .firstElementMarker
    return list :: (← popArgumentLists fuel)

/-- The `G` operator. -/
def boundGenericType : Decode Symbol := do
  let retroactive ← popWhile (· == .retroactiveConformance)
  let lists ← popArgumentLists (← get).operands.length
  let bound ← bindArguments (← popAnyGeneric) lists
  let bound :=
    if retroactive.isEmpty then bound else bound.push (.node .typeList retroactive.reverse)
  remember (.node .type [bound])

end Demangle.Decode
