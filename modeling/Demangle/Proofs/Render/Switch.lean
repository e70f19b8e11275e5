import Demangle.Proofs.Render.Alike
import Demangle.Render.Entity
import Demangle.Render.Layout

/-!
# Which nodes a switch governs

Each switch of the options has a say in how a few kinds of nodes are printed (`Switch.kinds`), and two of
them besides in nodes of a certain form (`Switch.governs`): a module of a debugger, a declaration with
labels. The rule that prints the nodes of a kind reads no other switches (`mem_kinds_of_layout`).

Two sets of options are the `SameFor` a tree if they agree on all switches that govern one of its nodes.
-/

namespace Demangle

/-! ## Switches -/

/-- A switch of the options. -/
inductive Switch where
  | sugarTypes
  | debuggerModules
  | qualifyEntities
  | extensionContexts
  | unmangledSuffix
  | moduleNames
  | genericSpecializations
  | protocolConformances
  | whereClauses
  | entityTypes
  | shortenPartialApply
  | shortenThunk
  | shortenValueWitness
  | shortenArchetype
  | privateDiscriminators
  | argumentTypes
  deriving DecidableEq, Repr

namespace Options

/-- The position of a switch. -/
def get (o : Options) : Switch → Bool
  | .sugarTypes => o.sugarTypes
  | .debuggerModules => o.debuggerModules
  | .qualifyEntities => o.qualifyEntities
  | .extensionContexts => o.extensionContexts
  | .unmangledSuffix => o.unmangledSuffix
  | .moduleNames => o.moduleNames
  | .genericSpecializations => o.genericSpecializations
  | .protocolConformances => o.protocolConformances
  | .whereClauses => o.whereClauses
  | .entityTypes => o.entityTypes
  | .shortenPartialApply => o.shortenPartialApply
  | .shortenThunk => o.shortenThunk
  | .shortenValueWitness => o.shortenValueWitness
  | .shortenArchetype => o.shortenArchetype
  | .privateDiscriminators => o.privateDiscriminators
  | .argumentTypes => o.argumentTypes

/-- The options with one switch in another position. -/
def set (o : Options) (b : Switch) (on : Bool) : Options :=
  match b with
  | .sugarTypes => { o with sugarTypes := on }
  | .debuggerModules => { o with debuggerModules := on }
  | .qualifyEntities => { o with qualifyEntities := on }
  | .extensionContexts => { o with extensionContexts := on }
  | .unmangledSuffix => { o with unmangledSuffix := on }
  | .moduleNames => { o with moduleNames := on }
  | .genericSpecializations => { o with genericSpecializations := on }
  | .protocolConformances => { o with protocolConformances := on }
  | .whereClauses => { o with whereClauses := on }
  | .entityTypes => { o with entityTypes := on }
  | .shortenPartialApply => { o with shortenPartialApply := on }
  | .shortenThunk => { o with shortenThunk := on }
  | .shortenValueWitness => { o with shortenValueWitness := on }
  | .shortenArchetype => { o with shortenArchetype := on }
  | .privateDiscriminators => { o with privateDiscriminators := on }
  | .argumentTypes => { o with argumentTypes := on }

theorem get_set (o : Options) (b : Switch) (on : Bool) (b' : Switch) :
    (o.set b on).get b' = if b' = b then on else o.get b' := by
  cases b <;> cases b' <;> rfl

end Options

/-! ## Governed nodes -/

namespace Kind

/-- Kinds whose nodes are printed as a name in its context, with its type. -/
def declarations : List Kind :=
  [.variableDecl, .function, .boundGenericFunction, .subscript, .genericTypeParamDecl, .classType,
   .structType, .enumType, .protocolType, .typeAlias, .otherNominalType, .explicitClosure,
   .implicitClosure, .initializer, .defaultArgumentInitializer, .allocator, .constructor,
   .destructor, .deallocator, .ivarInitializer, .ivarDestroyer]

/-- Kinds of function types. -/
def functionTypes : List Kind :=
  [.functionType, .noEscapeFunctionType, .uncurriedFunctionType, .autoClosureType,
   .escapingAutoClosureType, .thinFunctionType, .cFunctionPointer, .objcBlock]

end Kind

/-- A module that a debugger has made. -/
def Symbol.isDebuggerModule (s : Symbol) : Bool :=
  s.kind == .moduleName &&
    s.text?.any fun t => Symbol.debuggerModuleStart.toList.isPrefixOf t.toList

namespace Switch

/-- The kinds of nodes that a switch governs in any form. -/
def kinds : Switch → List Kind
  | .sugarTypes => [.boundGenericEnum, .boundGenericStructure, .boundGenericProtocol]
  | .debuggerModules => []
  | .qualifyEntities =>
    .extension :: .anonymousContext :: .protocolListWithAnyObject :: Kind.declarations
  | .extensionContexts => [.extension, .anonymousContext]
  | .unmangledSuffix => [.suffix]
  | .moduleNames => [.moduleName]
  | .genericSpecializations =>
    [.genericSpecialization, .genericSpecializationNotReAbstracted, .genericPartialSpecialization,
     .genericPartialSpecializationNotReAbstracted, .functionSignatureSpecialization]
  | .protocolConformances => [.protocolConformance]
  | .whereClauses => [.dependentGenericSignature, .dependentPseudogenericSignature]
  | .entityTypes => Kind.declarations
  | .shortenPartialApply => [.partialApplyForwarder, .partialApplyObjcForwarder]
  | .shortenThunk => [.mergedFunction, .reabstractionThunk, .reabstractionThunkHelper]
  | .shortenValueWitness => [.valueWitness]
  | .shortenArchetype => []
  | .privateDiscriminators => [.privateDeclName]
  | .argumentTypes =>
    .argumentTuple :: .explicitClosure :: .implicitClosure :: .boundGenericFunction ::
      Kind.functionTypes

/-- The switch has a say in how the node is printed. -/
def governs (b : Switch) (n : Symbol) : Bool :=
  b.kinds.contains n.kind ||
    match b with
    | .debuggerModules => n.isDebuggerModule
    | .argumentTypes => Kind.declarations.contains n.kind && (n.find? .labelList).isSome
    | _ => false

end Switch

/-- The switches that the rule of a layout reads at each node. -/
def Layout.switches : Layout → List Switch
  | .entity => [.qualifyEntities, .entityTypes]
  | .suffix => [.unmangledSuffix]
  | .moduleName => [.moduleNames]
  | .privateName => [.privateDiscriminators]
  | .extension | .anonymousContext => [.qualifyEntities, .extensionContexts]
  | .functionType _ | .argumentTuple => [.argumentTypes]
  | .protocolListWithAnyObject => [.qualifyEntities]
  | .signature => [.whereClauses]
  | .mergedFunction | .reabstractionThunk _ => [.shortenThunk]
  | .partialApply _ => [.shortenPartialApply]
  | .specialization _ _ => [.genericSpecializations]
  | .conformance => [.protocolConformances]
  | .valueWitness => [.shortenValueWitness]
  | _ => []

/-- A switch that the rule of a kind reads governs the kind. -/
theorem mem_kinds_of_layout (k : Kind) : ∀ b ∈ k.layout.switches, k ∈ b.kinds := by
  cases k <;> decide

theorem mem_declarations_of_layout (k : Kind) : k.layout = .entity → k ∈ Kind.declarations := by
  cases k <;> decide

/-! ## Options for a tree -/

/-- The options agree on all switches that govern a node of the tree. -/
def Options.SameFor (o o' : Options) (s : Symbol) : Prop :=
  ∀ n ∈ s.nodes, ∀ b : Switch, b.governs n = true → o.get b = o'.get b

namespace Options.SameFor

variable {o o' : Options} {s n : Symbol} {b : Switch}

theorem refl (o : Options) (s : Symbol) : o.SameFor o s :=
  fun _ _ _ _ => rfl

theorem below (h : o.SameFor o' s) (hn : n.Below s) : o.SameFor o' n :=
  fun m hm => h m (Symbol.mem_nodes_iff_below.mpr (.inr (hn.of_mem_nodes hm)))

/-- A switch that governs the kind of the root is the same. -/
theorem of_kind (h : o.SameFor o' s) (hb : s.kind ∈ b.kinds) : o.get b = o'.get b := by
  refine h s (Symbol.self_mem_nodes s) b ?_
  exact Bool.or_eq_true_iff.mpr (.inl (List.contains_iff_mem.mpr hb))

/-- A switch that the rule of the root reads is the same. -/
theorem of_layout (h : o.SameFor o' s) {l : Layout} (hl : s.kind.layout = l)
    (hb : b ∈ l.switches) : o.get b = o'.get b :=
  h.of_kind (mem_kinds_of_layout s.kind b (hl ▸ hb))

end Options.SameFor

end Demangle
