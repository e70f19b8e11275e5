import Demangle.Proofs.Made.Basic
import Demangle.Proofs.Operator.Table

/-!
# Generic types, functions and entities are made

One instance for every operator, from the steps that it is put together from. Most operators pop trees and
put them under a node of a free kind. Those of functions do more: they count the parameters, and strip the
labels of parameters in a type that has been made before. That the tree they take apart there is a function
type is known of a sound state only, so `Forms` assumes one:

    Forms m x  ↔  (s.Sound → s.Made m → x s = .ok a s' → s'.Made m ∧ AllMade m a)
-/

namespace Demangle.Decode

open Symbol

variable {m : String}

/-! ## Generic parameters, signatures and conformances -/

instance makes_parameterType {depth index : UInt64} : AllMade m (parameterType depth index) := by
  unfold parameterType
  infer_instance

instance makes_genericParameter : Makes m genericParameter := by
  unfold genericParameter
  infer_instance

instance makes_popProtocol : Makes m popProtocol := by
  refine Makes.then fun o ho => ?_
  cases o with
  | none => infer_instance
  | some type =>
    have := allMade_option.mp ho type rfl
    infer_instance

instance makes_popProtocolList : Makes m popProtocolList := by
  unfold popProtocolList
  infer_instance

instance makes_popAssociatedTypeName : Makes m popAssociatedTypeName := by
  refine Makes.then fun declaredIn hd => Makes.then fun _ _ => ?_
  refine makes_bind_of popKind_kind fun name hk hn => ?_
  have hlist : AllMade m declaredIn.toList := inferInstance
  have : AllMade m (name.renamed .dependentAssociatedTypeRef declaredIn.toList) := by
    refine allMade_symbol.mpr (Made.renamed (allMade_symbol.mp hn) ?_ rfl (allMade_symbols.mp hlist))
    rw [hk]
    rfl
  infer_instance

instance allMade_memberOf {base name : Symbol} [AllMade m base] [AllMade m name] :
    AllMade m (memberOf base name) := by
  unfold memberOf
  infer_instance

instance makes_memberType {base : Symbol} [AllMade m base] : Makes m (memberType base) := by
  unfold memberType
  infer_instance

theorem allMade_memberPath (names : List Symbol) : ∀ {base : Symbol}, AllMade m base →
    AllMade m names → AllMade m (names.foldl memberOf base) := by
  induction names with
  | nil => exact fun hb _ => hb
  | cons name names ih =>
    intro base hb hnames
    have hall := allMade_list.mp hnames
    have := hall name List.mem_cons_self
    exact ih inferInstance (allMade_list.mpr fun n hn => hall n (List.mem_cons_of_mem _ hn))

instance makes_memberPathType {base : Symbol} [hb : AllMade m base] : Makes m (memberPathType base) := by
  refine Makes.then fun names hn => ?_
  have := allMade_memberPath names hb hn
  infer_instance

instance makes_popAssociatedTypePath : Makes m popAssociatedTypePath := by
  unfold popAssociatedTypePath
  infer_instance

theorem makes_archetype? {c : Char} {read : Decode Symbol} (h : archetype? c = some read) :
    Makes m read := by
  unfold archetype? at h
  split at h <;> cases h <;> infer_instance

instance makes_archetype : Makes m archetype :=
  makes_letter fun h =>
    have := makes_archetype? (m := m) h
    inferInstance

instance allMade_underSignature {signature : Option Symbol} {type : Symbol} [hs : AllMade m signature]
    [AllMade m type] :
    AllMade m (signature.elim type fun s => typed .dependentGenericType [s, type]) := by
  cases signature with
  | none => assumption
  | some s =>
    have := allMade_option.mp hs s rfl
    show AllMade m (typed .dependentGenericType [s, type])
    infer_instance

instance makes_popConformance : Makes m popConformance := by
  refine Makes.then fun signature _ => Makes.then fun declaredIn _ => Makes.then fun protocol _ => ?_
  refine Makes.then fun o ho => ?_
  cases o with
  | none =>
    dsimp only
    infer_instance
  | some type =>
    have := allMade_option.mp ho type rfl
    dsimp only
    infer_instance

instance makes_retroactiveConformance : Makes m retroactiveConformance := by
  unfold retroactiveConformance
  infer_instance

instance makes_popSignatureWith (counts : List UInt64) : Makes m (popSignatureWith counts) := by
  unfold popSignatureWith countNode
  infer_instance

instance makes_countedSignature : Makes m countedSignature := by
  unfold countedSignature
  infer_instance

instance makes_singleSignature : Makes m singleSignature :=
  makes_popSignatureWith [1]

instance makes_genericType : Makes m genericType := by
  unfold genericType
  infer_instance

instance makes_indexNodes (n : Nat) : Makes m (indexNodes n) := by
  induction n with
  | zero => exact makes_pure
  | succ n ih =>
    unfold indexNodes
    infer_instance

instance makes_constraint {subject : Symbol} [AllMade m subject] (constraint : Constraint) :
    Makes m (constraint.decode subject) := by
  cases constraint <;> (unfold Constraint.decode; infer_instance)

instance makes_subject (subject : Subject) : Makes m subject.decode := by
  cases subject <;> (unfold Subject.decode; infer_instance)

instance makes_requirement : Makes m requirement := by
  unfold requirement
  infer_instance

/-! ## Function types -/

instance makes_popFunctionPart : Makes m popFunctionPart := by
  unfold popFunctionPart
  infer_instance

instance makes_popArguments : Makes m popArguments where
  keeps {s a s'} hs h := by
    obtain ⟨params, t, h₁, h⟩ := bind_eq_ok h
    obtain ⟨inner, u, h₂, h⟩ := bind_eq_ok h
    obtain ⟨hinner, rfl⟩ := require_eq_ok h₂
    cases h
    obtain ⟨ht, hparams⟩ := makes_popFunctionPart.keeps hs h₁
    exact ⟨ht, allMade_symbol.mpr (.arguments (allMade_symbol.mp hparams) hinner)⟩

instance makes_popFunctionType {k : Kind} [Holds k.isFree] : Makes m (popFunctionType k) := by
  unfold popFunctionType
  infer_instance

instance makes_popTypes (n : Nat) : ∀ (acc : List Symbol) [AllMade m acc], Makes m (popTypes n acc) := by
  induction n with
  | zero => exact fun acc _ => makes_pure
  | succ n ih =>
    intro acc _
    refine Makes.then fun type _ => ?_
    exact ih (type :: acc)

instance makes_popLoweredSignature? : Makes m popLoweredSignature? := by
  refine makes_bind_of popKind?_kind fun o hk ho => ?_
  cases o with
  | none => infer_instance
  | some signature =>
    have := allMade_option.mp ho signature rfl
    have : AllMade m (signature.renamed .dependentPseudogenericSignature []) := by
      refine allMade_symbol.mpr (Made.renamed (allMade_symbol.mp this) ?_ rfl
        (List.forall_mem_nil _))
      rw [hk signature rfl]
      rfl
    dsimp only
    infer_instance

/-- The parts of a lowered function type, each with its convention. -/
instance allMade_lowered {params results errors : List String} {types : List Symbol}
    [htypes : AllMade m types] :
    AllMade m (List.zipWith (fun slot type => node slot.1 [ofText .implConvention slot.2, type])
      (params.map (Kind.implParameter, ·) ++ results.map (Kind.implResult, ·) ++
        errors.map (Kind.implErrorResult, ·)) types) := by
  refine allMade_symbols.mpr fun x hx => ?_
  rw [← List.map_uncurry_zip_eq_zipWith] at hx
  obtain ⟨⟨slot, type⟩, hz, rfl⟩ := List.mem_map.mp hx
  obtain ⟨hslot, htype⟩ := List.of_mem_zip hz
  have hfree : slot.1.isFree = true := by
    simp only [List.mem_append, List.mem_map] at hslot
    rcases hslot with (⟨_, -, rfl⟩ | ⟨_, -, rfl⟩) | ⟨_, -, rfl⟩
    all_goals rfl
  have := allMade_list.mp htypes type htype
  have hparts : AllMade m [ofText .implConvention slot.2, type] := inferInstance
  exact .node hfree (allMade_symbols.mp hparts)

instance makes_loweredFunctionType : Makes m loweredFunctionType := by
  refine Makes.then fun signature _ => Makes.then fun escaping _ => Makes.then fun callee _ => ?_
  refine Makes.then fun representation _ => Makes.then fun params _ => Makes.then fun results _ => ?_
  refine Makes.then fun throws _ => ?_
  dsimp only
  split
  · refine Makes.then fun letter _ => Makes.then fun error _ => Makes.then fun errors _ => ?_
    refine Makes.then fun _ _ => Makes.then fun types _ => ?_
    infer_instance
  · refine Makes.then fun errors _ => Makes.then fun _ _ => Makes.then fun types _ => ?_
    infer_instance

/-! ## Argument labels -/

/-- The label of an element and the element without it. -/
theorem made_splitLabel {x : Symbol} (hx : Made m x) (hk : x.kind = .tupleElement) :
    Made m (splitLabel x).1 ∧ Made m (splitLabel x).2 := by
  unfold splitLabel
  split
  · next i hi =>
    refine ⟨.node rfl (List.forall_mem_nil _), .node (by rw [hk]) fun c hc => ?_⟩
    exact hx.part (by rw [hk]; rfl) (List.mem_of_mem_eraseIdx hc)
  · exact ⟨.node rfl (List.forall_mem_nil _), hx⟩

/-- The labels that are stripped, and the tuple that is left. -/
theorem made_stripLabels {tuple : Symbol} (ht : Made m tuple) (hwf : tuple.WellFormed .any)
    (hk : tuple.kind = .tuple) (n : Nat) :
    AllMade m (stripLabels n tuple).1 ∧ Made m (stripLabels n tuple).2 ∧
      (stripLabels n tuple).2.children.length = tuple.children.length := by
  have hpart : ∀ c ∈ tuple.children, Made m c := fun c hc => ht.part (by rw [hk]; rfl) hc
  have hsplit : ∀ c ∈ tuple.children.take n, Made m (splitLabel c).1 ∧ Made m (splitLabel c).2 :=
    fun c hc => made_splitLabel (hpart c (List.mem_of_mem_take hc))
      (tuple_elements hwf hk c (List.mem_of_mem_take hc)).2
  refine ⟨allMade_symbols.mpr fun l hl => ?_, .node (by rw [hk]) fun c hc => ?_, ?_⟩
  · obtain ⟨q, hq, rfl⟩ := List.mem_map.mp hl
    obtain ⟨c, hc, rfl⟩ := List.mem_map.mp hq
    exact (hsplit c hc).1
  · rcases List.mem_append.mp hc with hc | hc
    · obtain ⟨q, hq, rfl⟩ := List.mem_map.mp hc
      obtain ⟨d, hd, rfl⟩ := List.mem_map.mp hq
      exact (hsplit d hd).2
    · exact hpart c (List.mem_of_mem_drop hc)
  · simp only [stripLabels, children_make, List.length_append, List.length_map, List.length_take,
      List.length_drop]
    omega

/-- A tuple of as many elements can be put into the place of the one that a slot holds. -/
def ParameterSlot.Keeps (m : String) (slot : ParameterSlot) : Prop :=
  ∀ tuple, slot.tuple? = some tuple → Made m tuple ∧ tuple.WellFormed .any ∧ tuple.kind = .tuple ∧
    ∀ t : Symbol, Made m t → t.kind = .tuple → t.children.length = tuple.children.length →
      Made m (slot.replace t)

/-- The parameters of an argument tuple are a type. -/
theorem parameters_kind {arguments params : Symbol} (hwf : arguments.WellFormed .any)
    (hk : arguments.kind = .argumentTuple) (hp : arguments.first? = some params) :
    params.kind = .type := by
  have h := hwf.admits
  rw [hk] at h
  obtain ⟨c, hc, hck⟩ := List.map_eq_singleton_iff.mp (beq_iff_eq.mp h)
  rw [first?, hc] at hp
  cases hp
  exact hck

/-- The parameters of an argument tuple can be replaced by as many others. -/
theorem made_replaceParameters {arguments params tuple t : Symbol} (ha : Made m arguments)
    (hwf : arguments.WellFormed .any) (hk : arguments.kind = .argumentTuple)
    (hparams : arguments.first? = some params) (htuple : params.first? = some tuple)
    (hkt : tuple.kind = .tuple) (ht : Made m t) (hkind : t.kind = .tuple)
    (hlength : t.children.length = tuple.children.length) :
    Made m (arguments.setChild 0 (params.setChild 0 t)) := by
  have hpk := parameters_kind hwf hk hparams
  have hmade : Made m params := ha.first (by rw [hk]; rfl) hparams
  refine .relabelled ha hk (hmade.setChild (by rw [hpk]) (by rw [hpk]; rfl) ht 0) ?_
  have hfirst : (params.setChild 0 t).first? = some t := by
    obtain ⟨k, p, cs, d⟩ := params
    cases cs with
    | nil => cases htuple
    | cons c cs => rfl
  rw [hfirst, argumentCount?, hparams, Option.bind_some, htuple]
  simp only [Option.map_some, parameterCount, hkt, hkind, hlength]

theorem builds_slotKeeps {type : Symbol} (ht : Made m type) (hwf : type.WellFormed .any) :
    Builds .any (parameterSlot? type) fun o => ∀ slot, o = some slot → slot.Keeps m := by
  unfold parameterSlot?
  refine Builds.ite (fun _ => Builds.pure nofun) fun hkind => ?_
  have hk : type.kind = .type := by simpa using hkind
  have hgeneric : type.kind.isAnyGeneric = false := by rw [hk]; rfl
  refine (builds_require (Q := fun top => type.first? = some top) fun _ h => h).bind
    fun top htop => ?_
  have wtop := hwf.first htop
  have mtop := ht.first hgeneric htop
  dsimp only
  -- a generic function type stands below its signature
  refine Builds.ite_bind (P := fun f => Made m f ∧ f.WellFormed .any ∧ ∀ g : Symbol, Made m g →
      Made m (if (top.kind == .dependentGenericType) = true then
        top.setChild 1 ((top.child? 1).elim g (·.setChild 0 g)) else g))
    (fun h => builds_require fun f hf => ?_) (fun h => Builds.pure ?_) fun f hf => ?_
  · obtain ⟨inner, hinner, hfirst⟩ := Option.bind_eq_some_iff.mp hf
    have htk : top.kind = .dependentGenericType := beq_iff_eq.mp h
    have hik : inner.kind = .type := by
      have hadmits := wtop.admits
      rw [htk] at hadmits
      obtain ⟨a, bs, habs, -, hbs⟩ := List.map_eq_cons_iff.mp (beq_iff_eq.mp hadmits)
      obtain ⟨b, rfl, hb⟩ := List.map_eq_singleton_iff.mp hbs
      rw [Symbol.child?, habs] at hinner
      cases hinner
      exact hb
    have minner : Made m inner := mtop.child? (by rw [htk]; rfl) hinner
    have hopen : inner.kind.isAnyGeneric = false := by rw [hik]; rfl
    refine ⟨minner.first hopen hfirst, (wtop.child? hinner).first hfirst, fun g hg => ?_⟩
    rw [if_pos h, hinner]
    exact mtop.setChild (by rw [htk]) (by rw [htk]; rfl)
      (minner.setChild (by rw [hik]) hopen hg 0) 1
  · refine ⟨mtop, wtop, fun g hg => ?_⟩
    rw [if_neg h]
    exact hg
  obtain ⟨mf, wf, hrebuild⟩ := hf
  refine Builds.ite (fun _ => Builds.pure nofun) fun hfk => ?_
  have hfunction : f.kind = .functionType ∨ f.kind = .noEscapeFunctionType := by
    simpa [Classical.or_iff_not_imp_left] using hfk
  have hopen : f.kind.isAnyGeneric = false := by rcases hfunction with h | h <;> rw [h] <;> rfl
  have hfree : f.kind.isFree = true := by rcases hfunction with h | h <;> rw [h]
  generalize (if f.first?.any (·.kind == .throwsMark) then 1 else 0) = slot
  refine (builds_require (Q := fun a => f.child? slot = some a) fun _ h => h).bind
    fun arguments ha => (builds_ensure _).bind fun _ hak => ?_
  refine Builds.ite (fun _ => Builds.pure nofun) fun _ => ?_
  have marguments : Made m arguments := mf.child? hopen ha
  have warguments := wf.child? ha
  refine (builds_require (Q := fun p => arguments.first? = some p) fun _ h => h).bind
    fun params hp => Builds.pure fun slot' hslot tuple htuple => ?_
  cases hslot
  obtain ⟨hfirst, hkt⟩ := Option.filter_eq_some_iff.mp htuple
  have hak : arguments.kind = .argumentTuple := beq_iff_eq.mp hak
  have hkt : tuple.kind = .tuple := beq_iff_eq.mp hkt
  have hpk := parameters_kind warguments hak hp
  have mparams : Made m params := marguments.first (by rw [hak]; rfl) hp
  have mtuple : Made m tuple := mparams.first (by rw [hpk]; rfl) hfirst
  refine ⟨mtuple, (warguments.first hp).first hfirst, hkt, fun t hmt hk' hlength => ?_⟩
  have marguments' := made_replaceParameters marguments warguments hak hp hfirst hkt hmt hk' hlength
  exact ht.setChild (by rw [hk]) hgeneric (hrebuild _ (mf.setChild hfree hopen marguments' slot)) 0

instance makes_labelList {labels : List Symbol} [AllMade m labels] : Makes m (labelList labels) := by
  unfold labelList
  infer_instance

/-- A step that keeps the trees of a sound state made and returns made trees. -/
structure Forms (m : String) {α : Type} [HasTrees α] (x : Decode α) : Prop where
  keeps : ∀ {s : State} {a : α} {s' : State}, s.Sound .any → s.Made m → x s = .ok a s' →
    s'.Made m ∧ AllMade m a

theorem Makes.forms {α : Type} [HasTrees α] {x : Decode α} [hx : Makes m x] : Forms m x :=
  ⟨fun _ hs h => hx.keeps hs h⟩

/-- What is known of the values of a step in a sound state can be used after it. -/
theorem Forms.bind {α β : Type} [HasTrees α] [HasTrees β] {x : Decode α} {f : α → Decode β}
    {Q : α → Prop} (hx : Forms m x) (hb : Builds .any x Q)
    (hf : ∀ a, Q a → AllMade m a → Forms m (f a)) : Forms m (x >>= f) where
  keeps {s b s'} hs hm h := by
    obtain ⟨a, t, h₁, h₂⟩ := bind_eq_ok h
    obtain ⟨-, hsound, ha⟩ := hb s a t hs h₁
    obtain ⟨hmade, hall⟩ := hx.keeps hs hm h₁
    exact (hf a ha hall).keeps hsound hmade h₂

theorem Forms.ite {α : Type} [HasTrees α] {p : Prop} [Decidable p] {x y : Decode α}
    (hx : p → Forms m x) (hy : ¬p → Forms m y) : Forms m (if p then x else y) := by
  by_cases h : p
  · rw [if_pos h]
    exact hx h
  · rw [if_neg h]
    exact hy h

/-- The labels of a made type, and the type without them. -/
theorem forms_popLabels {type : Symbol} (ht : Made m type) (hwf : type.WellFormed .any) :
    Forms m (popLabels type) := by
  have htype := allMade_symbol.mpr ht
  refine Forms.bind (Makes.forms (x := get)) builds_get fun s _ _ => ?_
  dsimp only
  refine Forms.ite (fun legacy => ?_) fun current => ?_
  -- the two ways to spell labels differ in where an empty list of them is looked for
  all_goals
    refine Forms.bind (Q := fun _ => True) Makes.forms ?_ fun unlabelled _ _ => ?_
    · first
      | exact Builds.pure trivial
      | exact (builds_popKind? _).imp fun _ _ => trivial
    refine Forms.ite (fun _ => Makes.forms) fun _ => ?_
    refine Forms.bind Makes.forms (builds_slotKeeps ht hwf) fun o ho _ => ?_
    cases o with
    | none => exact Makes.forms
    | some slot =>
      dsimp only
      split
      · exact Makes.forms
      · next tuple htuple =>
        obtain ⟨mtuple, wtuple, ktuple, hreplace⟩ := ho slot rfl tuple htuple
        obtain ⟨hlabels, mrest, hlength⟩ := made_stripLabels mtuple wtuple ktuple slot.count.toNat
        have := allMade_symbol.mpr (hreplace _ mrest ktuple hlength)
        exact Makes.forms

/-! ## Entities -/

instance makes_extensionContext : Makes m extensionContext := by
  refine Makes.then fun signature hsignature => makes_bind_of popModule_kind fun declaredIn hk hd => ?_
  refine Makes.then fun extended he => ?_
  have hlist : AllMade m signature.toList := inferInstance
  have : AllMade m (node .extension ([declaredIn, extended] ++ signature.toList)) :=
    allMade_symbol.mpr (.extension hk (allMade_symbol.mp hd) (allMade_symbol.mp he)
      (allMade_symbols.mp hlist))
  infer_instance

theorem forms_plainFunction : Forms m plainFunction := by
  refine Forms.bind Makes.forms builds_popSignature? fun signature _ _ => ?_
  refine Forms.bind Makes.forms (builds_popFunctionType rfl) fun type htype hmade => ?_
  have hlabels := forms_popLabels (allMade_symbol.mp hmade) htype.1
  refine Forms.bind hlabels (builds_popLabels htype.1) fun ⟨labels, type'⟩ _ h => ?_
  obtain ⟨hl, ht⟩ := allMade_pair.mp h
  exact Makes.forms

theorem forms_popLabelledType : Forms m popLabelledType := by
  refine Forms.bind Makes.forms (builds_popKind? .privateDeclName) fun privateName _ _ => ?_
  refine Forms.bind Makes.forms builds_popType fun type htype hmade => ?_
  have hlabels := forms_popLabels (allMade_symbol.mp hmade) htype.1
  refine Forms.bind hlabels (builds_popLabels htype.1) fun ⟨labels, type'⟩ _ h => ?_
  obtain ⟨hl, ht⟩ := allMade_pair.mp h
  exact Makes.forms

instance makes_namedEntity {k : Kind} [Holds k.isFree] : Makes m (namedEntity k) := by
  unfold namedEntity
  infer_instance

instance makes_contextEntity {k : Kind} [Holds k.isFree] {operands : Decode (List Symbol)}
    [Makes m operands] : Makes m (contextEntity k operands) := by
  unfold contextEntity
  infer_instance

theorem forms_labelledEntity {k : Kind} [Holds k.isFree] :
    Forms m (contextEntity k popLabelledType) :=
  Forms.bind forms_popLabelledType builds_popLabelledType fun _ _ _ => Makes.forms

/-- An index in the tree is read from the name. -/
theorem indexNode_eq_ok {s s' : State} {x : Symbol} (hs : s.Made m) (h : indexNode s = .ok x s') :
    ∃ i, IsIndex m i ∧ x = ofIndex .number i := by
  obtain ⟨i, t, hi, h⟩ := bind_eq_ok h
  obtain ⟨c, hc, rfl⟩ := lift_eq_ok hi
  cases h
  exact ⟨i, ⟨_, _, hs.reached, hc⟩, rfl⟩

theorem makes_closure {k : Kind} (hk : k = .explicitClosure ∨ k = .implicitClosure) :
    Makes m (contextEntity k indexAndType) where
  keeps {s x s'} hs h := by
    obtain ⟨operands, t, h₁, h⟩ := bind_eq_ok h
    obtain ⟨context, u, h₂, h⟩ := bind_eq_ok h
    cases h
    obtain ⟨index, v, h₃, h₁⟩ := bind_eq_ok h₁
    obtain ⟨type, w, h₄, h₁⟩ := bind_eq_ok h₁
    cases h₁
    obtain ⟨i, hi, rfl⟩ := indexNode_eq_ok hs h₃
    obtain ⟨hv, -⟩ := makes_indexNode.keeps hs h₃
    obtain ⟨ht, htype⟩ := makes_popType.keeps hv h₄
    obtain ⟨hu, hcontext⟩ := makes_popContext.keeps ht h₂
    exact ⟨hu, allMade_symbol.mpr
      (.closure hk (allMade_symbol.mp hcontext) hi (allMade_symbol.mp htype))⟩

theorem forms_functionEntity? {c : Char} {run : Decode Symbol} (h : functionEntity? c = some run) :
    Forms m run := by
  have explicit := makes_closure (m := m) (.inl rfl)
  have implicit := makes_closure (m := m) (.inr rfl)
  unfold functionEntity? at h
  split at h <;> cases h
  case h_6 => exact forms_labelledEntity
  case h_7 => exact forms_labelledEntity
  all_goals exact Makes.forms

theorem forms_functionEntity : Forms m functionEntity :=
  Forms.bind Makes.forms (builds_letter _ functionEntity?) fun _ ⟨_, hc⟩ _ => forms_functionEntity? hc

/-! ## Variables and subscripts -/

theorem mutableAddressor?_free {c : Char} {k : Kind} (h : mutableAddressor? c = some k) :
    k.isFree = true := by
  unfold mutableAddressor? at h
  split at h <;> cases h <;> rfl

theorem addressor?_free {c : Char} {k : Kind} (h : addressor? c = some k) : k.isFree = true := by
  unfold addressor? at h
  split at h <;> cases h <;> rfl

instance makes_accessor {storage : Symbol} [AllMade m storage] : Makes m (accessor storage) := by
  have fixed : ∀ {k : Kind}, k.isFree = true → Makes m (pure (node k [storage])) := fun hk =>
    have : Holds _ := ⟨hk⟩
    inferInstance
  refine makes_letter fun {c read} hc => ?_
  unfold accessor? at hc
  split at hc <;> cases hc <;> simp only [bind_assoc, pure_bind]
  case h_9 => exact makes_readLetter fun h => fixed (mutableAddressor?_free h)
  case h_10 => exact makes_readLetter fun h => fixed (addressor?_free h)
  case h_11 => exact makes_pure (a := storage)
  all_goals exact fixed rfl

instance makes_variableEntity : Makes m variableEntity := by
  unfold variableEntity
  infer_instance

theorem forms_subscriptEntity : Forms m subscriptEntity :=
  Forms.bind forms_labelledEntity (builds_contextEntity rfl builds_popLabelledType) fun _ _ _ =>
    Makes.forms

end Demangle.Decode
