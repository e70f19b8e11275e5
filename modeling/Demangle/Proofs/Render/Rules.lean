import Demangle.Proofs.Render.Switch
import Demangle.Render

/-!
# Every rule prints nothing but nodes below

Under two printers that agree below a node, on the switches that govern it or a node below it and on the
texts there that may be names, the rule of the node does the same (`alike_node`). What an entity gives back for its caller to print is the entity
itself or a node below it (`node_defers`), so it is among the nodes that the caller may print.
-/

namespace Demangle

open Print (write)

section Rules

variable {w : String} {d : Nat} {P Q : Printer} {s : Symbol}

/-! ## Names, thunks and witnesses -/

theorem alike_suffix (h : P.options.unmangledSuffix = Q.options.unmangledSuffix) :
    Alike w d (P.suffix s) (Q.suffix s) := by
  unfold Printer.suffix
  rw [h]
  infer_instance

theorem alike_moduleName (h : P.options.moduleNames = Q.options.moduleNames) :
    Alike w d (P.moduleName s) (Q.moduleName s) := by
  unfold Printer.moduleName
  rw [h]
  infer_instance

theorem alike_mergedFunction (h : P.options.shortenThunk = Q.options.shortenThunk) :
    Alike w d P.mergedFunction Q.mergedFunction := by
  unfold Printer.mergedFunction
  rw [h]
  infer_instance

variable [agree : Agree w d P Q s]

instance alike_localName : Alike w d (P.localName s) (Q.localName s) := by
  unfold Printer.localName
  infer_instance

theorem alike_privateName
    (h : P.options.privateDiscriminators = Q.options.privateDiscriminators) :
    Alike w d (P.privateName s) (Q.privateName s) := by
  unfold Printer.privateName
  rw [h]
  infer_instance

theorem alike_partialApply (h : P.options.shortenPartialApply = Q.options.shortenPartialApply)
    (forwarder : String) : Alike w d (P.partialApply forwarder s) (Q.partialApply forwarder s) := by
  unfold Printer.partialApply
  rw [h]
  infer_instance

theorem alike_reabstractionThunk (h : P.options.shortenThunk = Q.options.shortenThunk)
    (lead : String) : Alike w d (P.reabstractionThunk lead s) (Q.reabstractionThunk lead s) := by
  unfold Printer.reabstractionThunk
  rw [h]
  infer_instance

instance alike_keyPathIndices (lead : String) :
    Alike w d (P.keyPathIndices lead s) (Q.keyPathIndices lead s) := by
  unfold Printer.keyPathIndices
  have types : ∀ hasSignature : Bool, Alike w d
      (P.sequence ", " (if hasSignature then s.children.dropLast else s.children))
      (Q.sequence ", " (if hasSignature then s.children.dropLast else s.children)) := by
    intro hasSignature
    refine alike_sequence ", " (agree.printAll ?_)
    split
    · exact List.dropLast_subset s.children
    · exact List.Subset.refl _
  cases h : s.children.getLast?.filter (·.kind == .dependentGenericSignature) with
  | none => infer_instance
  | some signature =>
    have hlast : s.children.getLast? = some signature := (Option.filter_eq_some_iff.mp h).1
    have := agree.print (Symbol.below_child (List.mem_of_getLast? hlast))
    infer_instance

theorem alike_conformance (h : P.options.protocolConformances = Q.options.protocolConformances) :
    Alike w d (P.conformance s) (Q.conformance s) := by
  unfold Printer.conformance
  rw [h]
  infer_instance

instance alike_retroactive : Alike w d (P.retroactive s) (Q.retroactive s) := by
  unfold Printer.retroactive
  infer_instance

theorem alike_valueWitness (h : P.options.shortenValueWitness = Q.options.shortenValueWitness) :
    Alike w d (P.valueWitness s) (Q.valueWitness s) := by
  unfold Printer.valueWitness
  rw [h]
  infer_instance

/-! ## Specializations -/

theorem alike_specializationParts (lead : String) {cs : List Symbol} :
    (∀ c ∈ cs, Alike w d (P.print c) (Q.print c)) → ∀ separator, Alike w d
      (P.specializationParts lead separator cs) (Q.specializationParts lead separator cs) := by
  induction cs with
  | nil => exact fun _ _ => alike_pure ()
  | cons c cs ih =>
    intro h separator
    have := h c List.mem_cons_self
    have := ih fun c' hc => h c' (List.mem_cons_of_mem c hc)
    unfold Printer.specializationParts
    infer_instance

instance alike_markSpecialized :
    Alike w d (modify fun b => { b with specialized := true } : Print Unit)
      (modify fun b => { b with specialized := true }) where
  run _ _ := rfl
  depth _ h := h

theorem alike_specialization
    (h : P.options.genericSpecializations = Q.options.genericSpecializations)
    (description lead : String) :
    Alike w d (P.specialization description lead s) (Q.specialization description lead s) := by
  unfold Printer.specialization
  rw [h]
  split
  · have := alike_specializationParts lead (agree.printAll (List.Subset.refl _)) ""
    infer_instance
  · refine alike_get fun b _ => ?_
    show Alike w d _ (if b.specialized then _ else _)
    infer_instance

instance alike_specializationParam :
    Alike w d (P.specializationParam s) (Q.specializationParam s) := by
  unfold Printer.specializationParam
  have hrest := agree.printAll (List.drop_subset 1 s.children)
  cases h : s.children.drop 1 with
  | nil => infer_instance
  | cons c cs =>
    rw [h] at hrest
    have := hrest c List.mem_cons_self
    have := alike_separated " and " fun c' hc => hrest c' (List.mem_cons_of_mem c hc)
    infer_instance

/-- A change takes nodes from the front of those after it. -/
theorem change_subset {kindNode : Symbol} {rest : List Symbol} :
    Returns (· ⊆ rest) (P.change kindNode rest) := by
  unfold Printer.change
  cases kindNode.index?.bind ParamChange.ofValue? with
  | none => exact .then fun _ => .pure (List.Subset.refl rest)
  | some change =>
    cases change with
    | constantFunction | constantGlobal | constantInteger | constantFloat =>
      exact .then fun _ => .pure (List.drop_subset 1 rest)
    | constantString => exact .then fun _ => .pure (List.drop_subset 2 rest)
    | closure =>
      exact .then fun _ => .pure (List.Subset.trans (List.drop_subset _ _) (List.drop_subset 1 rest))
    | _ => exact .then fun _ => .pure (List.Subset.refl rest)

theorem alike_change {kindNode : Symbol} {rest : List Symbol}
    (he : P.embedded (Printer.headText rest) = Q.embedded (Printer.headText rest))
    (h : ∀ c ∈ kindNode :: rest, Alike w d (P.print c) (Q.print c)) :
    Alike w d (P.change kindNode rest) (Q.change kindNode rest) := by
  have := h kindNode List.mem_cons_self
  have types : Alike w d (P.sequence ", " ((rest.drop 1).takeWhile (·.kind == .type)))
      (Q.sequence ", " ((rest.drop 1).takeWhile (·.kind == .type))) := by
    refine alike_sequence ", " fun c hc => h c (List.mem_cons_of_mem _ ?_)
    exact List.mem_of_mem_drop (List.takeWhile_subset _ hc)
  have carries (x y : Print Unit) [Alike w d x y] : Alike w d
      (do write "["; P.print kindNode; write " : "; x; write "]")
      (do write "["; Q.print kindNode; write " : "; y; write "]") := inferInstance
  unfold Printer.change
  rw [he]
  dsimp only
  split <;> infer_instance

theorem embedded_headText (he : P.embedded "" = Q.embedded "") {cs : List Symbol}
    (h : ∀ c ∈ cs, P.embedded c.textD = Q.embedded c.textD) :
    P.embedded (Printer.headText cs) = Q.embedded (Printer.headText cs) := by
  cases cs with
  | nil => exact he
  | cons c cs => exact h c List.mem_cons_self

theorem alike_changes (he : P.embedded "" = Q.embedded "") (fuel : Nat) : ∀ {cs : List Symbol},
    (∀ c ∈ cs, P.embedded c.textD = Q.embedded c.textD) →
    (∀ c ∈ cs, Alike w d (P.print c) (Q.print c)) → ∀ separator,
      Alike w d (P.changes fuel separator cs) (Q.changes fuel separator cs) := by
  induction fuel with
  | zero =>
    intro cs _ _ separator
    cases cs <;> exact alike_pure ()
  | succ fuel ih =>
    intro cs htext h separator
    cases cs with
    | nil => exact alike_pure ()
    | cons c cs =>
      have htail : ∀ c' ∈ cs, P.embedded c'.textD = Q.embedded c'.textD :=
        fun c' hc => htext c' (List.mem_cons_of_mem c hc)
      have := alike_change (embedded_headText he htail) h
      refine Alike.then fun _ => Alike.then_of change_subset fun rest hrest => ?_
      exact ih (fun c' hc => htail c' (hrest hc))
        (fun c' hc => h c' (List.mem_cons_of_mem c (hrest hc))) _

theorem alike_changeRecord (he : s.ReadAlike P.embedded Q.embedded) (lead : String) :
    Alike w d (P.changeRecord lead s) (Q.changeRecord lead s) := by
  have := alike_changes he.empty s.children.length (fun c hc => he.child hc)
    (agree.printAll (List.Subset.refl _)) ""
  unfold Printer.changeRecord
  infer_instance

/-! ## Types -/

theorem alike_inParens {type : Symbol} (h : Alike w d (P.print type) (Q.print type)) :
    Alike w d (P.inParens type) (Q.inParens type) := by
  unfold Printer.inParens
  infer_instance

instance alike_plainBound : Alike w d (P.plainBound s) (Q.plainBound s) := by
  unfold Printer.plainBound
  cases h : s.child? 1 with
  | none => infer_instance
  | some args =>
    have := agree.below (Symbol.below_of_child? h)
    infer_instance

instance alike_sugared (sugar : Sugar) : Alike w d (P.sugared s sugar) (Q.sugared s sugar) := by
  have first (type : Symbol) (h : s.first? = some type) :
      Alike w d (P.inParens type) (Q.inParens type) :=
    alike_inParens (agree.print (Symbol.below_of_first? h))
  cases sugar with
  | optional | implicitlyUnwrapped =>
    unfold Printer.sugared
    cases h : s.first? with
    | none => infer_instance
    | some type =>
      have := first type h
      infer_instance
  | array | dictionary =>
    unfold Printer.sugared
    infer_instance

omit agree in
/-- Only enumerations and structures have a short form. -/
theorem kind_of_sugar? {sugar : Sugar} (h : sugar? s = some sugar) :
    s.kind = .boundGenericEnum ∨ s.kind = .boundGenericStructure := by
  unfold sugar? at h
  obtain ⟨nominal, -, h⟩ := Option.bind_eq_some_iff.mp h
  obtain ⟨-, -, h⟩ := Option.bind_eq_some_iff.mp h
  obtain ⟨name, -, h⟩ := Option.bind_eq_some_iff.mp h
  dsimp only at h
  split at h
  · next hk => exact .inl hk
  · next hk => exact .inr hk
  · cases h

omit agree in
/-- A bound generic type that sugar does not govern is printed with its arguments behind it. -/
theorem boundGeneric_eq_plain (h : s.kind ∉ Switch.sugarTypes.kinds) (P : Printer) :
    P.boundGeneric s = if s.children.length < 2 then pure () else P.plainBound s := by
  have hsugar : sugar? s = none := by
    cases hs : sugar? s with
    | none => rfl
    | some sugar => rcases kind_of_sugar? hs with hk | hk <;> exact absurd (hk ▸ by decide) h
  have hprotocol : (s.kind == .boundGenericProtocol) = false := by
    rw [beq_eq_false_iff_ne]
    intro hk
    exact h (hk ▸ by decide)
  unfold Printer.boundGeneric
  rw [hsugar, hprotocol]
  split
  · next hs => simp [hs]
  · next hs => simp [hs]
  · next hs => simp [hs]
  · next h₀ h₁ _ =>
    have hlength : ¬s.children.length < 2 := by
      intro hlt
      match hs : s.children with
      | [] => exact h₀ hs
      | [x] => exact h₁ x hs
      | x :: y :: r =>
        rw [hs, List.length_cons, List.length_cons] at hlt
        omega
    rw [if_neg hlength]

theorem alike_boundGeneric
    (h : s.kind ∈ Switch.sugarTypes.kinds → P.options.sugarTypes = Q.options.sugarTypes) :
    Alike w d (P.boundGeneric s) (Q.boundGeneric s) := by
  by_cases hk : s.kind ∈ Switch.sugarTypes.kinds
  swap
  · rw [boundGeneric_eq_plain hk, boundGeneric_eq_plain hk]
    infer_instance
  unfold Printer.boundGeneric
  rw [h hk]
  split
  · infer_instance
  · infer_instance
  · next nominal args hs =>
    have hargs : args.Below s := Symbol.below_child (by simp [hs])
    have := agree.print hargs
    have := agree.print (Symbol.below_child (c := nominal) (by simp [hs]))
    have := agree.below hargs
    split
    · infer_instance
    split
    · infer_instance
    split <;> infer_instance
  · infer_instance

instance alike_metatypeHead : Alike w d (P.metatypeHead s) (Q.metatypeHead s) := by
  unfold Printer.metatypeHead
  infer_instance

instance alike_metatype : Alike w d (P.metatype s) (Q.metatype s) := by
  refine Alike.then fun i => ?_
  cases h : (s.child? i).bind Symbol.first? with
  | none => infer_instance
  | some type =>
    obtain ⟨c, hc, htype⟩ := Option.bind_eq_some_iff.mp h
    have hbelow := (Symbol.below_of_first? htype).trans (Symbol.below_of_child? hc)
    have := alike_inParens (agree.print hbelow)
    infer_instance

instance alike_existentialMetatype :
    Alike w d (P.existentialMetatype s) (Q.existentialMetatype s) := by
  unfold Printer.existentialMetatype
  infer_instance

instance alike_protocolList : Alike w d (P.protocolList s) (Q.protocolList s) := by
  unfold Printer.protocolList
  cases h : s.first? with
  | none => infer_instance
  | some types =>
    have := agree.below (Symbol.below_of_first? h)
    infer_instance

instance alike_protocolListWithClass :
    Alike w d (P.protocolListWithClass s) (Q.protocolListWithClass s) := by
  unfold Printer.protocolListWithClass
  cases h : s.first?.bind Symbol.first? with
  | none => infer_instance
  | some types =>
    have := agree.first_first h
    infer_instance

theorem alike_protocolListWithAnyObject
    (h : P.options.qualifyEntities = Q.options.qualifyEntities) :
    Alike w d (P.protocolListWithAnyObject s) (Q.protocolListWithAnyObject s) := by
  unfold Printer.protocolListWithAnyObject
  rw [h]
  cases h : s.first?.bind Symbol.first? with
  | none => infer_instance
  | some types =>
    have := agree.first_first h
    infer_instance

theorem alike_loweredParts {cs : List Symbol} : (∀ c ∈ cs, Alike w d (P.print c) (Q.print c)) →
    ∀ part, Alike w d (P.loweredParts part cs) (Q.loweredParts part cs) := by
  induction cs with
  | nil =>
    intro _ part
    cases part <;> exact alike_write _
  | cons c cs ih =>
    intro h part
    have := h c List.mem_cons_self
    have := ih fun c' hc => h c' (List.mem_cons_of_mem c hc)
    unfold Printer.loweredParts
    cases part <;> infer_instance

instance alike_loweredFunction : Alike w d (P.loweredFunction s) (Q.loweredFunction s) :=
  alike_loweredParts (agree.printAll (List.Subset.refl _)) _

theorem alike_signature (h : P.options.whereClauses = Q.options.whereClauses) :
    Alike w d (P.signature s) (Q.signature s) := by
  have requirements : Printer.signatureRequirements s ⊆ s.children := List.dropWhile_subset _
  have := alike_sequence ", " (agree.printAll requirements)
  unfold Printer.signature
  rw [h]
  infer_instance

instance alike_layoutRequirement : Alike w d (P.layoutRequirement s) (Q.layoutRequirement s) := by
  refine Alike.then fun _ => Alike.then fun _ => Alike.then fun _ => ?_
  infer_instance

instance alike_genericType : Alike w d (P.genericType s) (Q.genericType s) := by
  unfold Printer.genericType
  cases h : s.child? 1 with
  | none => infer_instance
  | some type =>
    have := agree.print (Symbol.below_of_child? h)
    infer_instance

instance alike_boxWithLayout : Alike w d (P.boxWithLayout s) (Q.boxWithLayout s) := by
  unfold Printer.boxWithLayout
  cases h : s.child? 2 with
  | none => infer_instance
  | some args =>
    have := agree.below (Symbol.below_of_child? h)
    infer_instance

instance alike_boxLayout : Alike w d (P.boxLayout s) (Q.boxLayout s) := by
  unfold Printer.boxLayout
  infer_instance

instance alike_tupleElement : Alike w d (P.tupleElement s) (Q.tupleElement s) := by
  unfold Printer.tupleElement
  cases s.find? .tupleElementName <;> cases h : s.find? .type with
  | none => infer_instance
  | some type =>
    have := agree.print (Symbol.below_of_find? h)
    infer_instance

instance alike_returnType : Alike w d (P.returnType s) (Q.returnType s) := by
  unfold Printer.returnType
  infer_instance

/-! ## Function types -/

theorem alike_parameters (showTypes : Bool) {ps : List Symbol} :
    (∀ p ∈ ps, Alike w d (P.print p) (Q.print p)) → ∀ first labels,
      Alike w d (P.parameters showTypes first labels ps) (Q.parameters showTypes first labels ps) := by
  induction ps with
  | nil => exact fun _ _ _ => alike_pure ()
  | cons p ps ih =>
    intro h first labels
    have := h p List.mem_cons_self
    have := ih fun p' hp => h p' (List.mem_cons_of_mem p hp)
    unfold Printer.parameters
    cases labels <;> infer_instance

theorem alike_parameterList (h : P.options.argumentTypes = Q.options.argumentTypes)
    (labels : Option Symbol) : Alike w d (P.parameterList labels s) (Q.parameterList labels s) := by
  unfold Printer.parameterList
  rw [h]
  cases hs : s.first? with
  | none => infer_instance
  | some type =>
    have hparams : (type.first?.getD type).Below s := by
      cases ht : type.first? with
      | none => exact Symbol.below_of_first? hs
      | some params => exact (Symbol.below_of_first? ht).trans (Symbol.below_of_first? hs)
    have := agree.print hparams
    have := alike_parameters Q.options.argumentTypes
      ((agree.below hparams).printAll (List.Subset.refl _))
    infer_instance

theorem alike_functionType (h : P.options.argumentTypes = Q.options.argumentTypes)
    (labels : Option Symbol) : Alike w d (P.functionType labels s) (Q.functionType labels s) := by
  unfold Printer.functionType
  dsimp only
  split
  · rw [h]
    cases hs : s.child? (if (s.child? 0).any (·.kind == .throwsMark) then 1 else 0) with
    | none => infer_instance
    | some arguments =>
      have := agree.below (Symbol.below_of_child? hs)
      have : Alike w d (P.parameterList labels arguments) (Q.parameterList labels arguments) :=
        alike_parameterList h labels
      infer_instance
  · infer_instance

/-! ## Entities -/

instance alike_ownName : Alike w d (P.ownName s) (Q.ownName s) := by
  have own (name : Symbol) (h : s.child? 1 = some name) : Alike w d (P.print name) (Q.print name) :=
    agree.print (Symbol.below_of_child? h)
  have discriminated (name : Symbol) (h : s.find? .privateDeclName = some name) :
      Alike w d (P.print name) (Q.print name) :=
    agree.print (Symbol.below_of_find? h)
  unfold Printer.ownName
  cases h₁ : s.child? 1 with
  | none =>
    cases h₂ : s.find? .privateDeclName with
    | none => infer_instance
    | some name => exact discriminated name h₂
  | some name =>
    have := own name h₁
    cases h₂ : s.find? .privateDeclName with
    | none => infer_instance
    | some name' =>
      have := discriminated name' h₂
      infer_instance

instance alike_entityName (style : EntityStyle) (multiWord : Bool) :
    Alike w d (P.entityName s style multiWord) (Q.entityName s style multiWord) := by
  unfold Printer.entityName
  dsimp only
  generalize (style.named || !style.overwrite.isEmpty) = named
  generalize (named && multiWord && !style.extra.isEmpty) = inFront
  cases inFront
  all_goals
    cases named
    all_goals
      simp only [if_true, if_false, Bool.false_eq_true]
      infer_instance

theorem alike_entityContext (hc : ∀ c, s.child? 0 = some c → P.showsContext c = Q.showsContext c)
    (multiWord : Bool) : Alike w d (P.entityContext s multiWord) (Q.entityContext s multiWord) := by
  unfold Printer.entityContext
  cases h : s.child? 0 with
  | none => infer_instance
  | some context =>
    have := agree.name context (Symbol.below_of_child? h) true
    dsimp only
    rw [hc context h]
    infer_instance

/-- How argument types are shown matters only with labels or generic arguments; without them the type is
a node below like any other. -/
theorem alike_typeOf {type : Symbol} (htype : type.Below s) {args : Option Symbol}
    (hargs : ∀ a, args = some a → Agree w d P Q a)
    (h : (s.find? .labelList).isSome || args.isSome → P.options.argumentTypes = Q.options.argumentTypes) :
    Alike w d (P.typeOf s type args) (Q.typeOf s type args) := by
  have := agree.print htype
  by_cases hplain : (s.find? .labelList).isNone && args.isNone
  · unfold Printer.typeOf
    dsimp only
    rw [if_pos hplain, if_pos hplain]
    infer_instance
  replace h := h (by simpa [Option.isNone_iff_eq_none, Option.isSome_iff_ne_none, imp_iff_not_or]
    using hplain)
  have := agree.below htype
  have function (labels : Option Symbol) (n : Symbol) (hn : n.Below s) :
      Alike w d (P.functionType labels n) (Q.functionType labels n) :=
    have := agree.below hn
    alike_functionType h labels
  have := fun labels => function labels type htype
  have dependent (dep : Symbol) (hd : type.child? 1 = some dep) : (dep.first?.getD type).Below s := by
    cases hf : dep.first? with
    | none => exact htype
    | some f =>
      exact ((Symbol.below_of_first? hf).trans (Symbol.below_of_child? hd)).trans htype
  unfold Printer.typeOf
  dsimp only
  rw [if_neg hplain, if_neg hplain]
  cases hd : type.child? 1 with
  | none =>
    cases args with
    | none => infer_instance
    | some a =>
      have := hargs a rfl
      infer_instance
  | some dep =>
    have := function (s.find? .labelList) _ (dependent dep hd)
    cases args with
    | none => infer_instance
    | some a =>
      have := hargs a rfl
      refine Alike.then fun _ => Alike.then fun _ => Alike.then fun _ => ?_
      infer_instance

/-- The printers have the same options for an entity with the given generic arguments. -/
structure SameEntityOptions (P Q : Printer) (entity : Symbol) (args : Option Symbol) : Prop where
  argumentTypes : (entity.find? .labelList).isSome || args.isSome →
    P.options.argumentTypes = Q.options.argumentTypes
  entityTypes : P.options.entityTypes = Q.options.entityTypes
  contexts : ∀ c, entity.child? 0 = some c → P.showsContext c = Q.showsContext c

theorem alike_entityType {args : Option Symbol} (ho : SameEntityOptions P Q s args)
    (hargs : ∀ a, args = some a → Agree w d P Q a) (style : EntityStyle) (multiWord : Bool) :
    Alike w d (P.entityType s args style multiWord) (Q.entityType s args style multiWord) := by
  unfold Printer.entityType
  rw [ho.entityTypes]
  cases h : (s.find? .type).bind Symbol.first? with
  | none => infer_instance
  | some type =>
    obtain ⟨c, hc, htype⟩ := Option.bind_eq_some_iff.mp h
    have hbelow := (Symbol.below_of_first? htype).trans (Symbol.below_of_find? hc)
    have := alike_typeOf hbelow hargs ho.argumentTypes
    infer_instance

/-- What a printer gives back for its caller to print is the node itself or a node below. -/
def Defers (P : Printer) : Prop :=
  ∀ n asContext, Returns (∀ m ∈ ·, m ∈ n.nodes) (P.name n asContext)

omit agree in
theorem entityContext_below (hP : Defers P) (multiWord : Bool) :
    Returns (∀ m ∈ ·, m.Below s) (P.entityContext s multiWord) := by
  unfold Printer.entityContext
  cases h : s.child? 0 with
  | none => exact .pure nofun
  | some context =>
    have hcontext := Symbol.below_of_child? h
    refine .ite (.pure nofun) (.ite (.pure ?_) ((hP context true).wrote.bind fun r hr => ?_))
    · intro m hm
      cases hm
      exact hcontext
    · have hbelow : ∀ m ∈ r.1, m.Below s := fun m hm => hcontext.of_mem_nodes (hr m hm)
      exact .ite (.then fun _ => .pure hbelow) (.pure hbelow)

theorem alike_entityWith (hP : Defers P) {args : Option Symbol} (ho : SameEntityOptions P Q s args)
    (hargs : ∀ a, args = some a → Agree w d P Q a) (asContext : Bool) (style : EntityStyle) :
    Alike w d (P.entityWith s args asContext style) (Q.entityWith s args asContext style) := by
  have context (multiWord : Bool) :
      Alike w d (P.entityContext s multiWord) (Q.entityContext s multiWord) :=
    alike_entityContext ho.contexts multiWord
  have type (multiWord : Bool) :
      Alike w d (P.entityType s args style multiWord) (Q.entityType s args style multiWord) :=
    alike_entityType ho hargs style multiWord
  unfold Printer.entityWith
  dsimp only
  split
  · infer_instance
  -- what the context gives back is printed here
  refine Alike.then_of (entityContext_below hP _) fun deferred hdeferred => ?_
  cases deferred with
  | none => infer_instance
  | some m =>
    have := agree.print (hdeferred m rfl)
    infer_instance

omit agree in
/-- What governs a declaration and the nodes below it decides how it is printed as an entity. -/
theorem sameEntityOptions (ho : P.options.SameFor Q.options s) (hs : s.kind ∈ Kind.declarations)
    {entity : Symbol} (hentity : entity ∈ s.nodes) {args : Option Symbol}
    (hargs : (entity.find? .labelList).isSome || args.isSome → Switch.argumentTypes.governs s) :
    SameEntityOptions P Q entity args where
  argumentTypes h := ho s (Symbol.self_mem_nodes s) .argumentTypes (hargs h)
  entityTypes := ho.of_kind (b := .entityTypes) hs
  contexts c hc := by
    have hcontext : c ∈ s.nodes :=
      Symbol.mem_nodes_trans (Symbol.mem_nodes_iff_below.mpr (.inr (Symbol.below_of_child? hc))) hentity
    have hqualify : P.options.qualifyEntities = Q.options.qualifyEntities :=
      ho.of_kind (b := .qualifyEntities)
        (List.mem_cons_of_mem _ (List.mem_cons_of_mem _ (List.mem_cons_of_mem _ hs)))
    show (P.options.qualifyEntities && (!c.isDebuggerModule || P.options.debuggerModules)) =
      (Q.options.qualifyEntities && (!c.isDebuggerModule || Q.options.debuggerModules))
    rw [hqualify]
    cases hdebugger : c.isDebuggerModule with
    | false => rfl
    | true =>
      have hsame : P.options.debuggerModules = Q.options.debuggerModules :=
        ho c hcontext .debuggerModules hdebugger
      rw [hsame]

theorem alike_styledEntity (hP : Defers P) (ho : P.options.SameFor Q.options s)
    (hs : s.kind ∈ Kind.declarations) (asContext : Bool) (style : EntityStyle) :
    Alike w d (P.styledEntity s asContext style) (Q.styledEntity s asContext style) := by
  unfold Printer.styledEntity
  split
  · next hkind =>
    cases h : s.child? 0 with
    | none => infer_instance
    | some function =>
      have hfunction := Symbol.below_of_child? h
      have := agree.below hfunction
      have bound : Switch.argumentTypes.governs s = true := by
        rw [Switch.governs, beq_iff_eq.mp hkind]
        rfl
      have options : SameEntityOptions P Q function (s.child? 1) :=
        sameEntityOptions ho hs (Symbol.mem_nodes_iff_below.mpr (.inr hfunction)) fun _ => bound
      exact alike_entityWith hP options (fun a ha => agree.below (Symbol.below_of_child? ha)) _ _
  · have labelled (h : (s.find? .labelList).isSome || (none : Option Symbol).isSome) :
        Switch.argumentTypes.governs s = true := by
      rw [Option.isSome_none, Bool.or_false] at h
      rw [Switch.governs, h, List.contains_iff_mem.mpr hs]
      exact Bool.or_true _
    have options : SameEntityOptions P Q s none :=
      sameEntityOptions ho hs (Symbol.self_mem_nodes s) labelled
    refine alike_entityWith hP options (fun a ha => ?_) _ _
    cases ha

omit agree in
/-- The style of an entity depends on no option but whether argument types are shown, and on that only
for closures. -/
theorem entityStyle_congr {o o' : Options} (ho : o.SameFor o' s) :
    entityStyle o s = entityStyle o' s := by
  by_cases hk : s.kind ∈ Switch.argumentTypes.kinds
  · have h : o.argumentTypes = o'.argumentTypes := ho.of_kind hk
    unfold entityStyle
    rw [h]
  · unfold entityStyle
    dsimp only
    split
    all_goals first
      | rfl
      | next h => exact absurd (h ▸ by decide) hk

theorem alike_entity (hP : Defers P) (ho : P.options.SameFor Q.options s)
    (hs : s.kind ∈ Kind.declarations) (asContext : Bool) :
    Alike w d (P.entity s asContext) (Q.entity s asContext) := by
  unfold Printer.entity
  rw [entityStyle_congr ho]
  exact alike_styledEntity hP ho hs asContext _

theorem alike_accessor (hP : Defers P) (ho : P.options.SameFor Q.options s) (asContext : Bool)
    (extra : String) :
    Alike w d (P.accessor s asContext extra) (Q.accessor s asContext extra) := by
  unfold Printer.accessor
  cases h : s.child? 0 with
  | none => infer_instance
  | some storage =>
    have hstorage := Symbol.below_of_child? h
    have := agree.below hstorage
    dsimp only
    split
    · next hk => exact alike_styledEntity hP (ho.below hstorage) (hk ▸ by decide) _ _
    · next hk => exact alike_styledEntity hP (ho.below hstorage) (hk ▸ by decide) _ _
    · exact agree.name storage hstorage asContext

/-! ## Contexts -/

theorem alike_extension (h : P.showsExtensions = Q.showsExtensions) :
    Alike w d (P.extension s) (Q.extension s) := by
  unfold Printer.extension
  rw [h]
  cases hs : s.child? 0 with
  | none => infer_instance
  | some declaredIn =>
    have := agree.name declaredIn (Symbol.below_of_child? hs) true
    infer_instance

theorem alike_anonymousContext (h : P.showsExtensions = Q.showsExtensions) :
    Alike w d (P.anonymousContext s) (Q.anonymousContext s) := by
  unfold Printer.anonymousContext
  rw [h]
  cases hs : s.child? 2 with
  | none => infer_instance
  | some args =>
    have := agree.print (Symbol.below_of_child? hs)
    infer_instance

/-! ## All rules -/

/-- **Under printers that agree below a node, the node is printed alike** if they agree on the switches that
govern its tree and on the texts in it. -/
theorem alike_node (hP : Defers P) (ho : P.options.SameFor Q.options s)
    (he : s.ReadAlike P.embedded Q.embedded) (asContext : Bool) :
    Alike w d (P.node s asContext) (Q.node s asContext) := by
  have extensions {l : Layout} (hl : s.kind.layout = l)
      (hs : l.switches = [.qualifyEntities, .extensionContexts]) :
      P.showsExtensions = Q.showsExtensions := by
    have hqualify : P.options.qualifyEntities = Q.options.qualifyEntities :=
      ho.of_layout (b := .qualifyEntities) hl (by simp [hs])
    have hcontexts : P.options.extensionContexts = Q.options.extensionContexts :=
      ho.of_layout (b := .extensionContexts) hl (by simp [hs])
    rw [Printer.showsExtensions, Printer.showsExtensions, hqualify, hcontexts]
  -- most rules return nothing
  have alone {x y : Print Unit} (_ : Alike w d x y) :
      Alike w d (do x; return (none : Option Symbol)) (do y; return none) := inferInstance
  unfold Printer.node
  dsimp only
  cases hl : s.kind.layout with
  | entity => exact alike_entity hP ho (mem_declarations_of_layout _ hl) asContext
  | accessor extra => exact alike_accessor hP ho asContext extra
  | suffix => exact alone (alike_suffix (ho.of_layout (b := .unmangledSuffix) hl (by decide)))
  | moduleName => exact alone (alike_moduleName (ho.of_layout (b := .moduleNames) hl (by decide)))
  | privateName =>
    exact alone (alike_privateName (ho.of_layout (b := .privateDiscriminators) hl (by decide)))
  | extension => exact alone (alike_extension (extensions hl rfl))
  | anonymousContext => exact alone (alike_anonymousContext (extensions hl rfl))
  | functionType lead =>
    have : Alike w d (P.functionType none s) (Q.functionType none s) :=
      alike_functionType (ho.of_layout (b := .argumentTypes) hl (by simp [Layout.switches])) none
    infer_instance
  | argumentTuple =>
    exact alone (alike_parameterList (ho.of_layout (b := .argumentTypes) hl (by decide)) none)
  | boundGeneric => exact alone (alike_boundGeneric fun hk => ho.of_kind hk)
  | protocolListWithAnyObject =>
    exact alone (alike_protocolListWithAnyObject
      (ho.of_layout (b := .qualifyEntities) hl (by decide)))
  | signature => exact alone (alike_signature (ho.of_layout (b := .whereClauses) hl (by decide)))
  | mergedFunction =>
    exact alone (alike_mergedFunction (ho.of_layout (b := .shortenThunk) hl (by decide)))
  | partialApply forwarder =>
    exact alone (alike_partialApply
      (ho.of_layout (b := .shortenPartialApply) hl (by simp [Layout.switches])) forwarder)
  | reabstractionThunk lead =>
    exact alone (alike_reabstractionThunk
      (ho.of_layout (b := .shortenThunk) hl (by simp [Layout.switches])) lead)
  | specialization description lead =>
    exact alone (alike_specialization
      (ho.of_layout (b := .genericSpecializations) hl (by simp [Layout.switches])) description lead)
  | argumentRecord => exact alone (alike_changeRecord he _)
  | resultRecord => exact alone (alike_changeRecord he _)
  | mangledText =>
    dsimp only
    rw [he.text s (Symbol.self_mem_nodes s)]
    infer_instance
  | conformance =>
    exact alone (alike_conformance (ho.of_layout (b := .protocolConformances) hl (by decide)))
  | valueWitness =>
    exact alone (alike_valueWitness (ho.of_layout (b := .shortenValueWitness) hl (by decide)))
  | _ => infer_instance

end Rules

/-! ## What is given back -/

section Defers

variable {P : Printer} {s : Symbol}

theorem entityWith_defers (hP : Defers P) {args : Option Symbol} (asContext : Bool)
    (style : EntityStyle) : Returns (∀ m ∈ ·, m ∈ s.nodes) (P.entityWith s args asContext style) := by
  refine .ite (.pure fun m hm => ?_) ((entityContext_below hP _).bind fun deferred hdeferred =>
    .then fun _ => .then fun _ => ?_)
  · cases hm
    exact Symbol.self_mem_nodes s
  · cases deferred with
    | none => exact .pure nofun
    | some context =>
      refine .ite (.pure fun m hm => ?_) (.then fun _ => .then fun _ => .pure nofun)
      exact Symbol.mem_nodes_iff_below.mpr (.inr (hdeferred m hm))

/-- What lies among the nodes of a child lies among all nodes. -/
theorem defers_of_child {x : Print (Option Symbol)} {i : Nat} {c : Symbol} (h : s.child? i = some c)
    (hx : Returns (∀ m ∈ ·, m ∈ c.nodes) x) : Returns (∀ m ∈ ·, m ∈ s.nodes) x := by
  refine hx.imp fun r hr m hm => ?_
  exact Symbol.mem_nodes_iff_below.mpr (.inr ((Symbol.below_of_child? h).of_mem_nodes (hr m hm)))

theorem styledEntity_defers (hP : Defers P) (asContext : Bool) (style : EntityStyle) :
    Returns (∀ m ∈ ·, m ∈ s.nodes) (P.styledEntity s asContext style) := by
  refine .ite ?_ (entityWith_defers hP asContext style)
  cases h : s.child? 0 with
  | none => exact .pure nofun
  | some function => exact defers_of_child h (entityWith_defers hP asContext style)

theorem accessor_defers (hP : Defers P) (asContext : Bool) (extra : String) :
    Returns (∀ m ∈ ·, m ∈ s.nodes) (P.accessor s asContext extra) := by
  unfold Printer.accessor
  cases h : s.child? 0 with
  | none => exact .pure nofun
  | some storage =>
    refine defers_of_child h ?_
    dsimp only
    split
    · exact styledEntity_defers hP _ _
    · exact styledEntity_defers hP _ _
    · exact hP storage asContext

/-- **What a node gives back is the node itself or a node below it.** -/
theorem node_defers (hP : Defers P) (asContext : Bool) :
    Returns (∀ m ∈ ·, m ∈ s.nodes) (P.node s asContext) := by
  unfold Printer.node
  dsimp only
  cases s.kind.layout with
  | entity => exact styledEntity_defers hP asContext _
  | accessor extra => exact accessor_defers hP asContext extra
  | _ => exact .then fun _ => .pure nofun

end Defers

end Demangle
