import Demangle.Operator.Table

/-!
# Decoding

`decode` turns a mangled name into a symbol tree. After one of the five starts of a mangled name, the
operators are run until the input ends and the operands that are left are folded into one root
(`fold`). Names that start with `_Tt` are types in the older form that Objective-C sees.
-/

namespace Demangle

namespace Decode

/-! ## The run -/

/-- Runs the operators up to the end of the input. Each reads a byte at least, so the first argument
need not exceed the number of bytes left. -/
def operators : Nat → Decode Unit
  | 0 => pure ()
  | fuel + 1 => do
    unless ← Scan.isAtEnd do
      let x ← operator
      checkDepth x
      push x
      operators fuel

/-- The starts of a mangled name, and whether argument labels are part of the tuple type. -/
def starts : List (String × Bool) :=
  [("_T0", true), ("$S", false), ("_$S", false), ("$s", false), ("_$s", false)]

/-- Reads the start of a mangled name. -/
def readStart : List (String × Bool) → Decode Unit
  | [] => refuse
  | (text, legacy) :: others => do
    if ← Scan.acceptText text then modify fun s => { s with legacyLabels := legacy }
    else readStart others

/-! ## The fold of the operands -/

/-- The attributes that hold the rest of the symbol instead of standing in front of it. -/
def isForwarder (kind : Kind) : Bool :=
  kind == .partialApplyForwarder || kind == .partialApplyObjcForwarder

/-- Adds an attribute to the levels of a symbol, the innermost first: a forwarder opens a level. -/
def addAttribute (levels : List Symbol) (x : Symbol) : List Symbol :=
  if isForwarder x.kind then x :: levels
  else match levels with
    | level :: outer => level.push x :: outer
    | [] => []

/-- Puts each level into the one around it. -/
def closeLevels : Symbol → List Symbol → Symbol
  | level, [] => level
  | level, outer :: levels => closeLevels (outer.push level) levels

/-- The operands as children of the root: a type is replaced by what it holds. -/
def openType (x : Symbol) : Decode Symbol :=
  if x.kind == .type then require x.first? else pure x

/-- Folds the operands into one root: the attributes on top come first, and a forwarder holds all
that comes after it. -/
def fold : Decode Symbol := do
  let attributes ← popWhile Kind.isFunctionAttribute
  let rest ← (← popAll).reverse.mapM openType
  match attributes.foldl addAttribute [.leaf .global] with
  | [] => refuse
  | level :: outer =>
    let root := closeLevels (rest.foldl Symbol.push level) outer
    ensure (!root.children.isEmpty)
    checkDepth root
    return root

/-! ## Types as Objective-C sees them -/

/-- Reads the module of a bridged type. -/
def bridgedModule : Decode Symbol := do
  if ← Scan.accept 's' then return .ofText .moduleName Symbol.standardModule
  return (← Decode.identifier).renamed .moduleName []

/-- Reads a bridged type after `_Tt`: a class, or a protocol ended by `_`. -/
def bridgedType : Decode Symbol := do
  let isClass ← Scan.accept 'C'
  let isProtocol ← if isClass then pure false else Scan.accept 'P'
  unless isClass || isProtocol do
    fail (.expected "'C' or 'P'")
  let declaredIn ← bridgedModule
  let name ← Decode.identifier
  let type ←
    if isProtocol then do
      Scan.expect '_'
      let protocol := Symbol.typed .protocolType [declaredIn, name]
      pure (Symbol.typed .protocolList [.node .typeList [protocol]])
    else pure (Symbol.typed .classType [declaredIn, name])
  ensure (← Scan.isAtEnd)
  return .node .global [.node .typeMangling [type]]

/-- Reads a whole mangled name. -/
def symbol : Decode Symbol := do
  if ← Scan.acceptText "_Tt" then bridgedType
  else
    readStart starts
    operators (← Scan.remaining)
    fold

end Decode

/-- The symbol tree of a mangled name. -/
def decode (mangled : String) : Except Fault Symbol :=
  match Decode.symbol (.ofString mangled) with
  | .ok s _ => .ok s
  | .error f _ => .error f

end Demangle
