import Demangle.Render.Printer

/-!
# Entities

An entity prints as `Context.name` and its type. A name that reads as several words (a closure, a
default argument, a local declaration) moves its context to the end: `closure #1 in main.foo()`.
-/

namespace Demangle

open Print (write)

/-! ## Styles -/

/-- How an entity shows its type. -/
inductive TypeStyle where
  | hidden
  /-- After a colon. -/
  | colon
  /-- As the parameter list that follows the name. -/
  | signature
  deriving DecidableEq, Inhabited, Repr

/-- How an entity shows its name and type. -/
structure EntityStyle where
  type : TypeStyle
  /-- The entity has a name among its children. -/
  named : Bool
  /-- What the entity is called besides its name. -/
  extra : String := ""
  /-- The number after that. -/
  number : Option UInt64 := none
  /-- What is written in place of the name. -/
  overwrite : String := ""
  deriving DecidableEq, Inhabited, Repr

namespace EntityStyle

/-- The extra name with its number. -/
def extraText (style : EntityStyle) : String :=
  style.extra ++ style.number.elim "" toString

/-- The printed name has several words. -/
def isMultiWord (style : EntityStyle) (entity : Symbol) : Bool :=
  style.extra.toList.contains ' ' ||
    (style.named && (entity.child? 1).any (·.kind == .localDeclName))

end EntityStyle

/-- The index that the child at position `i` carries, 0 if there is none. -/
def Symbol.childIndex (s : Symbol) (i : Nat) : UInt64 :=
  (s.child? i).elim 0 Symbol.indexD

/-- The style of an entity. Closures are counted from 1 on 64 bits, so behind the largest index comes 0. -/
def entityStyle (o : Options) (s : Symbol) : EntityStyle :=
  let closureType := if o.argumentTypes then TypeStyle.signature else .hidden
  let inClass := (s.child? 0).any (·.kind == .classType)
  match s.kind with
  | .variableDecl => { type := .colon, named := true }
  | .function | .boundGenericFunction => { type := .signature, named := true }
  | .subscript => { type := .signature, named := false, overwrite := "subscript" }
  | .explicitClosure =>
    { type := closureType, named := false, extra := "closure #", number := some (s.childIndex 1 + 1) }
  | .implicitClosure =>
    { type := closureType, named := false, extra := "implicit closure #",
      number := some (s.childIndex 1 + 1) }
  | .initializer =>
    { type := .hidden, named := false, extra := "variable initialization expression" }
  | .defaultArgumentInitializer =>
    { type := .hidden, named := false, extra := "default argument ",
      number := some (s.childIndex 1) }
  | .allocator =>
    { type := .signature, named := false, extra := if inClass then "__allocating_init" else "init" }
  | .constructor => { type := .signature, named := 2 < s.children.length, extra := "init" }
  | .destructor => { type := .hidden, named := false, extra := "deinit" }
  | .deallocator =>
    { type := .hidden, named := false, extra := if inClass then "__deallocating_deinit" else "deinit" }
  | .ivarInitializer => { type := .hidden, named := false, extra := "__ivar_initializer" }
  | .ivarDestroyer => { type := .hidden, named := false, extra := "__ivar_destroyer" }
  | _ => { type := .hidden, named := true }

/-! ## Function types -/

namespace Printer

/-- The text of a label; a missing label is `_`. -/
def labelText (label : Option Symbol) : String :=
  match label with
  | some l => if l.kind == .identifier then l.textD else "_"
  | none => "_"

/-- The text of the name that a tuple element carries itself. -/
def elementName (element : Symbol) : String :=
  (element.find? .tupleElementName).elim "_" Symbol.textD

/-- Prints the parameters of a function, with labels from a list or with the names they carry. -/
def parameters (P : Printer) (showTypes : Bool) :
    (first : Bool) → (labels : Option (List Symbol)) → List Symbol → Print Unit
  | _, _, [] => pure ()
  | first, labels, p :: ps => do
    if !first && showTypes then write ", "
    match labels with
    | some ls => do
      write (labelText ls.head?)
      write (if showTypes then ": " else ":")
    | none =>
      if !showTypes then
        write (elementName p)
        write ":"
    if showTypes then P.print p
    P.parameters showTypes false (labels.map List.tail) ps

/-- Prints the parameter list of a function. -/
def parameterList (P : Printer) (labels : Option Symbol) (arguments : Symbol) : Print Unit :=
  let showTypes := P.options.argumentTypes
  if arguments.kind != .argumentTuple then pure ()
  else match arguments.first? with
    | none => pure ()
    | some type =>
      let params := type.first?.getD type
      if params.kind != .tuple then
        if showTypes then do
          write "("
          P.print params
          write ")"
        else write "(_:)"
      else do
        write "("
        P.parameters showTypes true
          ((labels.map Symbol.children).filter (!·.isEmpty)) params.children
        write ")"

/-- Prints a function type: the parameters, then `throws` and the result if types are shown. -/
def functionType (P : Printer) (labels : Option Symbol) (s : Symbol) : Print Unit := do
  if s.children.length == 2 || s.children.length == 3 then
    let throws := (s.child? 0).any (·.kind == .throwsMark)
    let start := if throws then 1 else 0
    match s.child? start with
    | some arguments => P.parameterList labels arguments
    | none => pure ()
    if P.options.argumentTypes then
      if throws then write " throws"
      P.child s (start + 1)

/-- Function types, also below generic signatures. -/
def isFunctionLike : Symbol → Bool
  | ⟨.dependentGenericType, _, _ :: ⟨_, _, inner :: _, _⟩ :: _, _⟩ => isFunctionLike inner
  | ⟨.functionType, _, _, _⟩ => true
  | ⟨.noEscapeFunctionType, _, _, _⟩ => true
  | ⟨.uncurriedFunctionType, _, _, _⟩ => true
  | ⟨.cFunctionPointer, _, _, _⟩ => true
  | ⟨.thinFunctionType, _, _, _⟩ => true
  | _ => false

/-! ## The parts of an entity -/

/-- The context is to be printed. -/
def showsContext (P : Printer) (context : Symbol) : Bool :=
  let ofDebugger := context.kind == .moduleName &&
    context.text?.any fun t => Symbol.debuggerModuleStart.toList.isPrefixOf t.toList
  P.options.qualifyEntities && (!ofDebugger || P.options.debuggerModules)

/-- Prints the context in front of a name, and returns what has to follow the name. -/
def entityContext (P : Printer) (entity : Symbol) (multiWord : Bool) : Print (Option Symbol) :=
  match entity.child? 0 with
  | none => return none
  | some context =>
    if !P.showsContext context then return none
    else if multiWord then return some context
    else do
      let (deferred, wrote) ← Print.wrote (P.name context true)
      if wrote then write "."
      return deferred

/-- Prints the name that stands among the children of an entity. -/
def ownName (P : Printer) (entity : Symbol) : Print Unit := do
  match entity.child? 1 with
  | some name =>
    if name.kind != .privateDeclName && name.kind != .labelList && name.kind != .type then
      P.print name
  | none => pure ()
  match entity.find? .privateDeclName with
  | some name => P.print name
  | none => pure ()

/-- Prints the name of an entity with its extra name: in front of it and ` of ` if the whole has
several words, else after it and a full stop. -/
def entityName (P : Printer) (entity : Symbol) (style : EntityStyle) (multiWord : Bool) :
    Print Unit := do
  let named := style.named || !style.overwrite.isEmpty
  let inFront := named && multiWord && !style.extra.isEmpty
  if inFront then
    write style.extraText
    write " of "
  if named then
    let (_, wrote) ← Print.wrote <|
      if style.overwrite.isEmpty then P.ownName entity else write style.overwrite
    if wrote && !inFront && !style.extra.isEmpty then write "."
  if !inFront && !style.extra.isEmpty then write style.extraText

/-- Prints the type of an entity, with its labels and generic arguments. -/
def typeOf (P : Printer) (entity type : Symbol) (args : Option Symbol) : Print Unit := do
  let labels := entity.find? .labelList
  if labels.isNone && args.isNone then P.print type
  else
    if let some args := args then
      write "<"
      P.sequence ", " args.children
      write ">"
    if type.kind == .dependentGenericType then
      if args.isNone then P.child type 0
      match type.child? 1 with
      | some dependent => do
        if dependent.needsSpaceBefore then write " "
        P.functionType labels (dependent.first?.getD type)
      | none => P.functionType labels type
    else P.functionType labels type

/-- Prints the type of an entity in the given style. -/
def entityType (P : Printer) (entity : Symbol) (args : Option Symbol) (style : EntityStyle)
    (multiWord : Bool) : Print Unit :=
  if style.type == .hidden then pure ()
  else match (entity.find? .type).bind Symbol.first? with
    | none => pure ()
    | some type =>
      if style.type == .colon || !isFunctionLike type then
        if P.options.entityTypes then do
          write " : "
          P.typeOf entity type args
        else pure ()
      else do
        if multiWord || type.needsSpaceBefore then write " "
        P.typeOf entity type args

/-- Prints an entity with the generic arguments bound to it. As the context of another one, an entity
that shows a type or has a name of several words is given back instead. -/
def entityWith (P : Printer) (entity : Symbol) (args : Option Symbol) (asContext : Bool)
    (style : EntityStyle) : Print (Option Symbol) := do
  let multiWord := style.isMultiWord entity
  if asContext && (style.type != .hidden || multiWord) then return some entity
  let deferred ← P.entityContext entity multiWord
  P.entityName entity style multiWord
  P.entityType entity args style multiWord
  match deferred with
  | none => return none
  | some context =>
    if asContext then return some context
    write <|
      if entity.kind == .defaultArgumentInitializer || entity.kind == .initializer then " of "
      else " in "
    P.print context
    return none

/-- Prints an entity in the given style; a bound generic function is its first child. -/
def styledEntity (P : Printer) (s : Symbol) (asContext : Bool) (style : EntityStyle) :
    Print (Option Symbol) :=
  if s.kind == .boundGenericFunction then
    match s.child? 0 with
    | some function => P.entityWith function (s.child? 1) asContext style
    | none => return none
  else P.entityWith s none asContext style

/-- Prints an entity. -/
def entity (P : Printer) (s : Symbol) (asContext : Bool) : Print (Option Symbol) :=
  P.styledEntity s asContext (entityStyle P.options s)

/-- Prints an accessor as its storage with an extra name. -/
def accessor (P : Printer) (s : Symbol) (asContext : Bool) (extra : String) :
    Print (Option Symbol) :=
  match s.child? 0 with
  | none => return none
  | some storage =>
    match storage.kind with
    | .variableDecl => P.styledEntity storage asContext { type := .colon, named := true, extra }
    | .subscript =>
      P.styledEntity storage asContext
        { type := .colon, named := false, extra, overwrite := "subscript" }
    | _ => P.name storage asContext

/-! ## Contexts -/

/-- The contexts of extensions are shown. -/
def showsExtensions (P : Printer) : Bool :=
  P.options.qualifyEntities && P.options.extensionContexts

/-- Prints an extension. -/
def extension (P : Printer) (s : Symbol) : Print Unit := do
  if P.showsExtensions then
    write "(extension in "
    if let some declaredIn := s.child? 0 then
      let _ ← P.name declaredIn true
    write "):"
  P.child s 1
  P.child s 2

/-- Prints a context that stands for code outside the name. -/
def anonymousContext (P : Printer) (s : Symbol) : Print Unit := do
  if P.showsExtensions then
    P.child s 1
    write (".(unknown context at " ++ (s.child? 0).elim "" Symbol.textD ++ ")")
    match s.child? 2 with
    | some args =>
      if !args.children.isEmpty then
        write "<"
        P.print args
        write ">"
    | none => pure ()

end Printer

end Demangle
