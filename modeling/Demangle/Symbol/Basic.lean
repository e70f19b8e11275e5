import Demangle.Kind.Basic
import Demangle.Kind.Role

/-!
# Symbol trees

A mangled name decodes to a tree of `Symbol` nodes: a kind, an optional payload (a 64-bit index or a
text) and a list of children. Every node carries its own depth, so that the nesting of a tree can be
checked without walking it; all constructions of this module keep it up to date.
-/

namespace Demangle

/-- What a node carries besides its children. -/
inductive Payload where
  | none
  | index (n : UInt64)
  | text (s : String)
  deriving DecidableEq, Inhabited, Repr

/-- A node of a symbol tree. -/
structure Symbol where
  kind : Kind
  payload : Payload
  children : List Symbol
  /-- The number of nodes on the longest path down to a leaf. -/
  depth : Nat
  deriving Inhabited

namespace Symbol

/-! ## Names with a fixed spelling -/

/-- The module of the standard library. -/
def standardModule : String := "Swift"

/-- The module of imported Objective-C declarations. -/
def objcModule : String := "__C"

/-- The module of declarations synthesized for C. -/
def cModule : String := "__C_Synthesized"

/-- How the modules that a debugger makes for its expressions begin. -/
def debuggerModuleStart : String := "__lldb_expr_"

/-- The deepest nesting that a decoded tree may have, and that a rendering follows. -/
def nestingLimit : Nat := 1024

/-! ## Constructions -/

/-- The greatest depth in a list of nodes, 0 if there are none. -/
def maxDepth : List Symbol → Nat
  | [] => 0
  | c :: cs => max c.depth (maxDepth cs)

/-- A node with the given children, its depth computed from theirs. -/
def make (kind : Kind) (payload : Payload) (children : List Symbol) : Symbol :=
  ⟨kind, payload, children, 1 + maxDepth children⟩

/-- A node with neither payload nor children. -/
def leaf (kind : Kind) : Symbol :=
  make kind .none []

/-- A leaf that carries a text. -/
def ofText (kind : Kind) (s : String) : Symbol :=
  make kind (.text s) []

/-- A leaf that carries an index. -/
def ofIndex (kind : Kind) (n : UInt64) : Symbol :=
  make kind (.index n) []

/-- A node without payload. -/
def node (kind : Kind) (children : List Symbol) : Symbol :=
  make kind .none children

/-- `Type(kind(children))`, the shape that every type has among the operands. -/
def typed (kind : Kind) (children : List Symbol) : Symbol :=
  node .type [node kind children]

/-- `Type(kind(Swift, name))`, a nominal type of the standard library. -/
def standardType (kind : Kind) (name : String) : Symbol :=
  typed kind [ofText .moduleName standardModule, ofText .identifier name]

/-- The node with one more child at the end. -/
def push (s c : Symbol) : Symbol :=
  { s with children := s.children ++ [c], depth := max s.depth (c.depth + 1) }

/-- The node with more children at the end. -/
def append (s : Symbol) (cs : List Symbol) : Symbol :=
  let children := s.children ++ cs
  { s with children := children, depth := 1 + maxDepth children }

/-- The node with a child inserted in front of position `i`, or at the end if there is no such
position. -/
def insert (s : Symbol) (i : Nat) (c : Symbol) : Symbol :=
  { s with
    children := s.children.insertIdx (min i s.children.length) c
    depth := max s.depth (c.depth + 1) }

/-- The node with the child at position `i`, if there is one, replaced. -/
def setChild (s : Symbol) (i : Nat) (c : Symbol) : Symbol :=
  let children := s.children.set i c
  { s with children := children, depth := 1 + maxDepth children }

/-- The node without the child at position `i`. -/
def removeChild (s : Symbol) (i : Nat) : Symbol :=
  let children := s.children.eraseIdx i
  { s with children := children, depth := 1 + maxDepth children }

/-- The node with its children in the opposite order. -/
def reverseChildren (s : Symbol) : Symbol :=
  { s with children := s.children.reverse }

/-- The node under another kind, with more children at the end. -/
def renamed (s : Symbol) (kind : Kind) (extra : List Symbol) : Symbol :=
  make kind s.payload (s.children ++ extra)

/-! ## Views -/

/-- The text that a node carries. -/
def text? (s : Symbol) : Option String :=
  match s.payload with
  | .text t => some t
  | _ => none

/-- The index that a node carries. -/
def index? (s : Symbol) : Option UInt64 :=
  match s.payload with
  | .index n => some n
  | _ => none

/-- The text that a node carries, empty if it carries none. -/
def textD (s : Symbol) : String :=
  s.text?.getD ""

/-- The index that a node carries, 0 if it carries none. -/
def indexD (s : Symbol) : UInt64 :=
  s.index?.getD 0

/-- The child at position `i`. -/
def child? (s : Symbol) (i : Nat) : Option Symbol :=
  s.children[i]?

/-- The first child. -/
def first? (s : Symbol) : Option Symbol :=
  s.children.head?

/-- The first child of the given kind. -/
def find? (s : Symbol) (kind : Kind) : Option Symbol :=
  s.children.find? (·.kind == kind)

/-- The identifier with the given text. -/
def isIdentifier (s : Symbol) (name : String) : Bool :=
  s.kind == .identifier && s.text? == some name

/-- The module of the standard library. -/
def isStandardModule (s : Symbol) : Bool :=
  s.kind == .moduleName && s.text? == some standardModule

/-- A type that needs no parentheses in front of a trailing mark; a `Type` node is as simple as what
it holds. -/
def isSimpleType : Symbol → Bool
  | ⟨.type, _, c :: _, _⟩ => c.isSimpleType
  | ⟨.type, _, [], _⟩ => false
  | ⟨kind, _, _, _⟩ => kind.isSimpleType

/-- A type is set off by a space from what stands before it, unless it is a function type. -/
def needsSpaceBefore : Symbol → Bool
  | ⟨.type, _, c :: _, _⟩ => c.needsSpaceBefore
  | ⟨.type, _, [], _⟩ => false
  | ⟨.functionType, _, _, _⟩ => false
  | ⟨.noEscapeFunctionType, _, _, _⟩ => false
  | ⟨.uncurriedFunctionType, _, _, _⟩ => false
  | ⟨.dependentGenericType, _, _, _⟩ => false
  | _ => true

/-! ## Lemmas -/

@[simp] theorem depth_make (k : Kind) (p : Payload) (cs : List Symbol) :
    (make k p cs).depth = 1 + maxDepth cs := rfl

@[simp] theorem kind_make (k : Kind) (p : Payload) (cs : List Symbol) : (make k p cs).kind = k := rfl

@[simp] theorem children_make (k : Kind) (p : Payload) (cs : List Symbol) :
    (make k p cs).children = cs := rfl

theorem maxDepth_append (cs ds : List Symbol) :
    maxDepth (cs ++ ds) = max (maxDepth cs) (maxDepth ds) := by
  induction cs with
  | nil => simp [maxDepth]
  | cons c cs ih => simp [maxDepth, ih, Nat.max_assoc]

end Symbol

end Demangle
