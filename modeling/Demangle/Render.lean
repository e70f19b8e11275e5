import Demangle.Decode
import Demangle.Render.Entity
import Demangle.Render.Layout
import Demangle.Render.Specialization
import Demangle.Render.Thunk
import Demangle.Render.Type

/-!
# Rendering

`render` prints a symbol tree with a set of options. A `Guard` keeps count of the nodes that are being
printed and writes `<<too complex>>` in place of one that lies too deep. A text that is itself a mangled
name is demangled with the full options, and so are the names inside it, as far as `embeddingLimit` goes.
-/

namespace Demangle

open Print (write)

/-- Prints a node by the layout of its kind. -/
def Printer.node (P : Printer) (s : Symbol) (asContext : Bool) : Print (Option Symbol) :=
  let alone (x : Print Unit) : Print (Option Symbol) := do
    x
    return none
  match s.kind.layout with
  | .pieces ps => alone (P.pieces s ps)
  | .entity => P.entity s asContext
  | .accessor extra => P.accessor s asContext extra
  | .suffix => alone (P.suffix s)
  | .moduleName => alone (P.moduleName s)
  | .localName => alone (P.localName s)
  | .privateName => alone (P.privateName s)
  | .extension => alone (P.extension s)
  | .anonymousContext => alone (P.anonymousContext s)
  | .functionType lead => alone do
    write lead
    P.functionType none s
  | .argumentTuple => alone (P.parameterList none s)
  | .returnType => alone (P.returnType s)
  | .loweredFunction => alone (P.loweredFunction s)
  | .tupleElement => alone (P.tupleElement s)
  | .boundGeneric => alone (P.boundGeneric s)
  | .metatype => alone (P.metatype s)
  | .existentialMetatype => alone (P.existentialMetatype s)
  | .protocolList => alone (P.protocolList s)
  | .protocolListWithClass => alone (P.protocolListWithClass s)
  | .protocolListWithAnyObject => alone (P.protocolListWithAnyObject s)
  | .boxWithLayout => alone (P.boxWithLayout s)
  | .boxLayout => alone (P.boxLayout s)
  | .signature => alone (P.signature s)
  | .layoutRequirement => alone (P.layoutRequirement s)
  | .genericType => alone (P.genericType s)
  | .mergedFunction => alone P.mergedFunction
  | .partialApply forwarder => alone (P.partialApply forwarder s)
  | .reabstractionThunk lead => alone (P.reabstractionThunk lead s)
  | .keyPathIndices lead => alone (P.keyPathIndices lead s)
  | .specialization description lead => alone (P.specialization description lead s)
  | .specializationParam => alone (P.specializationParam s)
  | .argumentRecord => alone (P.changeRecord ("Arg[" ++ toString s.indexD ++ "] = ") s)
  | .resultRecord => alone (P.changeRecord "Return = " s)
  | .changeKind => alone (write (Printer.changeText s.indexD))
  | .mangledText => alone (write (P.embedded s.textD))
  | .conformance => alone (P.conformance s)
  | .retroactive => alone (P.retroactive s)
  | .valueWitness => alone (P.valueWitness s)
  | .directness => alone (write (Printer.directnessText s))

/-! ## The guard -/

/-- How deep printing follows a tree. -/
structure Guard where
  /-- The number of nodes that can be open at a time, each inside the one before. -/
  limit : Nat
  /-- What is written in place of a node that would be one more. -/
  ellipsis : String
  deriving DecidableEq, Inhabited, Repr

/-- The guard of all renderings: it follows a tree as deep as a decoded tree can be. -/
def Guard.standard : Guard :=
  ⟨Symbol.nestingLimit, "<<too complex>>"⟩

/-- Prints a node unless too many are open already. Each call inside another one opens a node, so the
first argument need not exceed the limit. -/
def printName (g : Guard) (embedded : String → String) (o : Options) :
    Nat → Symbol → Bool → Print (Option Symbol)
  | 0, _, _ => do
    write g.ellipsis
    return none
  | fuel + 1, s, asContext => do
    if g.limit ≤ (← get).depth then
      write g.ellipsis
      return none
    modify fun b => { b with depth := b.depth + 1 }
    let deferred ← Printer.node ⟨o, printName g embedded o fuel, embedded⟩ s asContext
    modify fun b => { b with depth := b.depth - 1 }
    return deferred

/-! ## Whole trees -/

/-- The text of a symbol tree, where `embedded` reads the names inside its texts. -/
def renderWith (g : Guard) (embedded : String → String) (o : Options) (s : Symbol) : String :=
  (printName g embedded o g.limit s false {}).2.text

/-- How many mangled names, each inside the text of the one before, a rendering reads. This is a limit of
the definition and not of the format, in which names may lie inside names to any depth. There are names
that come back inside themselves, so without it the reading of a name need not end. For names that end
before the limit it makes no difference. -/
def embeddingLimit : Nat := 1024

/-- What stands for a name that lies in more names than are read. -/
def embeddingEllipsis : String := "<<too many names>>"

/-- The reading of a text that may be a mangled name, itself with names inside it to the given
depth. -/
def readEmbedded (g : Guard) : Nat → String → String
  | 0, text =>
    match decode text with
    | .ok _ => embeddingEllipsis
    | .error _ => text
  | depth + 1, text =>
    match decode text with
    | .ok s => renderWith g (readEmbedded g depth) .full s
    | .error _ => text

/-- The text of a symbol tree under a guard. -/
def Guard.render (g : Guard) (o : Options) (s : Symbol) : String :=
  renderWith g (readEmbedded g embeddingLimit) o s

/-- The text of a symbol tree. -/
def render (o : Options) (s : Symbol) : String :=
  Guard.standard.render o s

/-- The text of a mangled name, or the name itself if it is malformed. -/
def demangle (o : Options) (mangled : String) : String :=
  match decode mangled with
  | .ok s => render o s
  | .error _ => mangled

end Demangle
