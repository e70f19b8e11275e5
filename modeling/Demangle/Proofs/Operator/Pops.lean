import Demangle.Operator.Table
import Demangle.Proofs.Operand.Pops

/-!
# Operators pop their operands

One instance for every operator, from the steps that it is put together from: what it does is decided by
what lies ahead of the cursor and by the operands that it pops. The number in `Pops` says how many nodes
it makes available to back-references at most. A loop over operands has their number as its bound and
ends before, so the larger bound that more operands below give makes no difference.
-/

namespace Demangle.Decode

/-! ## Generic parameters, signatures and conformances -/

instance pops_genericParameter : Pops 0 genericParameter := by
  unfold genericParameter
  infer_instance

instance pops_popProtocol : Pops 0 popProtocol := by
  refine Pops.then fun o => ?_
  cases o <;> infer_instance

instance pops_popAssociatedTypeName : Pops 0 popAssociatedTypeName := by
  unfold popAssociatedTypeName
  infer_instance

theorem takesOperand_popProtocol : TakesOperand popProtocol where
  shorter {s a s'} h := by
    obtain ⟨o, t, ho, h⟩ := bind_eq_ok h
    cases o with
    | some type =>
      have h₁ := popIf?_shorter ho
      have h₂ : Pops 0 (do ensure (isProtocolType type); return type) := inferInstance
      exact Nat.lt_of_le_of_lt (h₂.length_le h) h₁
    | none =>
      have h₁ := (pops_popKind? _).length_le ho
      obtain ⟨name, u, hu, h⟩ := bind_eq_ok h
      have h₂ := takesOperand_popDeclName.shorter hu
      obtain ⟨context, v, hv, h⟩ := bind_eq_ok h
      cases h
      have h₃ := pops_popContext.length_le hv
      omega
  refuses hs :=
    (bind_ok (popKind?_nil hs) _).trans (bind_error (takesOperand_popDeclName.refuses hs) _)

theorem takesOperand_popAssociatedTypeName : TakesOperand popAssociatedTypeName where
  shorter {s a s'} h := by
    obtain ⟨declaredIn, t, ht, h⟩ := bind_eq_ok h
    obtain ⟨_, u, hu, h⟩ := bind_eq_ok h
    obtain ⟨name, v, hv, h⟩ := bind_eq_ok h
    cases h
    have h₁ := (pops_popKind? _).length_le ht
    have h₂ := (pops_ensure _).length_le hu
    have h₃ := (takesOperand_popKind _).shorter hv
    omega
  refuses hs :=
    (bind_ok (popKind?_nil hs) _).trans (bind_error ((takesOperand_popKind _).refuses hs) _)

instance pops_memberType (base : Symbol) : Pops 0 (memberType base) := by
  unfold memberType
  infer_instance

instance pops_memberPathType (base : Symbol) : Pops 0 (memberPathType base) := by
  have := pops_popElements takesOperand_popAssociatedTypeName
  unfold memberPathType
  infer_instance

instance pops_popAssociatedTypePath : Pops 0 popAssociatedTypePath := by
  have := pops_popElements takesOperand_popDeclName
  unfold popAssociatedTypePath
  infer_instance

instance pops_popProtocolList : Pops 0 popProtocolList := by
  have := pops_popList takesOperand_popProtocol
  unfold popProtocolList
  infer_instance

theorem pops_archetype? {c : Char} {read : Decode Symbol} (h : archetype? c = some read) :
    Pops 0 read := by
  unfold archetype? at h
  split at h <;> cases h <;> infer_instance

instance pops_archetype : Pops 1 archetype :=
  pops_letter fun h =>
    have := pops_archetype? h
    inferInstance

instance pops_popConformance : Pops 0 popConformance := by
  refine Pops.then fun signature => Pops.then fun m => ?_
  refine Pops.then fun protocol => Pops.then fun o => ?_
  cases o <;> infer_instance

instance pops_retroactiveConformance : Pops 0 retroactiveConformance := by
  unfold retroactiveConformance
  infer_instance

instance pops_parameterCounts (n : Nat) : Pops 0 (parameterCounts n) := by
  induction n with
  | zero => exact pops_fail _
  | succ n ih =>
    unfold parameterCounts
    dsimp only
    infer_instance

instance pops_popSignatureWith (counts : List UInt64) : Pops 0 (popSignatureWith counts) := by
  unfold popSignatureWith
  infer_instance

instance pops_countedSignature : Pops 0 countedSignature := by
  unfold countedSignature
  infer_instance

instance pops_singleSignature : Pops 0 singleSignature :=
  pops_popSignatureWith [1]

instance pops_genericType : Pops 0 genericType := by
  unfold genericType
  infer_instance

instance pops_indexNodes (n : Nat) : Pops 0 (indexNodes n) := by
  induction n with
  | zero => exact pops_pure _
  | succ n ih =>
    unfold indexNodes
    infer_instance

instance pops_constraint (subject : Symbol) (constraint : Constraint) :
    Pops 0 (constraint.decode subject) := by
  cases constraint <;> (unfold Constraint.decode; infer_instance)

/-- The subject of a requirement is the only node that it makes available. -/
instance pops_subject (subject : Subject) : Pops 1 subject.decode := by
  cases subject with
  | parameter =>
    exact Pops.mono (x := do return Symbol.node .type [← genericParameter]) (Nat.zero_le 1)
  | member => exact Pops.then fun _ => inferInstance
  | memberPath => exact Pops.then fun _ => inferInstance
  | operand => exact Pops.mono (x := popType) (Nat.zero_le 1)

instance pops_requirement : Pops 1 requirement := by
  have body (form : Option (Constraint × Subject)) : Pops 1 (do
      let (constraint, subject) := form.getD (.conformance, .parameter)
      constraint.decode (← subject.decode)) :=
    Pops.bind (m := 1) (n := 0)
  refine Pops.then fun c => ?_
  dsimp only
  split <;> infer_instance

/-! ## Function types and labels -/

instance pops_popFunctionPart : Pops 0 popFunctionPart := by
  unfold popFunctionPart
  infer_instance

instance pops_popArguments : Pops 0 popArguments := by
  unfold popArguments
  infer_instance

instance pops_popFunctionType (k : Kind) : Pops 0 (popFunctionType k) := by
  unfold popFunctionType
  infer_instance

instance pops_parameterSlot? (type : Symbol) : Pops 0 (parameterSlot? type) := by
  unfold parameterSlot?
  infer_instance

instance pops_labelList (labels : List Symbol) : Pops 0 (labelList labels) := by
  unfold labelList
  infer_instance

instance pops_popTypes (n : Nat) : ∀ acc, Pops 0 (popTypes n acc) := by
  induction n with
  | zero => exact fun acc => pops_pure acc
  | succ n ih =>
    intro acc
    unfold popTypes
    infer_instance

instance pops_popLoweredSignature? : Pops 0 popLoweredSignature? := by
  refine Pops.then fun o => ?_
  cases o <;> infer_instance

instance pops_loweredFunctionType : Pops 0 loweredFunctionType := by
  refine Pops.then fun signature => Pops.then fun escaping => Pops.then fun callee => ?_
  refine Pops.then fun representation => Pops.then fun params => Pops.then fun results => ?_
  refine Pops.then fun throws => ?_
  dsimp only
  split <;> infer_instance

instance pops_popLabels (type : Symbol) : Pops 0 (popLabels type) := by
  refine pops_get (fun _ _ => rfl) (fun _ _ => rfl) fun s => ?_
  dsimp only
  split
  -- the two ways to spell labels differ only in where an empty list of them is looked for
  all_goals
    refine Pops.then fun unlabelled => ?_
    split
    · infer_instance
    · refine Pops.then fun o => ?_
      cases o with
      | none => infer_instance
      | some slot =>
        dsimp only
        split <;> infer_instance

/-! ## Nominal types and back-references -/

instance pops_symbolicReference : Pops 1 symbolicReference := by
  unfold symbolicReference
  infer_instance

instance pops_optionalType : Pops 1 optionalType := by
  unfold optionalType
  infer_instance

instance pops_builtinSize : Pops 0 builtinSize := by
  unfold builtinSize
  infer_instance

theorem pops_builtinName? {c : Char} {name : Decode String} (h : builtinName? c = some name) :
    Pops 0 name := by
  unfold builtinName? at h
  split at h <;> cases h <;> infer_instance

instance pops_builtinType : Pops 0 builtinType :=
  pops_letter fun h =>
    have := pops_builtinName? h
    inferInstance

instance pops_nominalType (k : Kind) : Pops 1 (nominalType k) := by
  unfold nominalType
  infer_instance

instance pops_wrapBound (nominal args : Symbol) : Pops 0 (wrapBound nominal args) := by
  unfold wrapBound
  split
  · infer_instance
  · split
    · infer_instance
    · split <;> infer_instance

/-- Binding does nothing to the operands. The context of a node is bound as a whole, or inside if it is
an extension, so the induction covers all nodes below. -/
theorem pops_bindArguments_below {x : Symbol}
    (below : ∀ c ∈ x.children, ∀ n ∈ c.nodes, ∀ lists, Pops 0 (bindArguments n lists))
    (lists : List Symbol) : Pops 0 (bindArguments x lists) := by
  obtain ⟨k, p, cs, d⟩ := x
  cases cs with
  | nil =>
    rw [bindArguments]
    infer_instance
  | cons context others =>
    unfold bindArguments
    split
    · infer_instance
    cases lists with
    | nil => exact pops_refuse
    | cons args outer =>
      dsimp only
      generalize (if hasNoGenericLevel k = true then args :: outer else outer) = rest
      split
      · infer_instance
      split
      · next extended signature _ =>
        have := below _ List.mem_cons_self extended
          (Symbol.mem_nodes_of_child (by simp) (Symbol.self_mem_nodes extended)) rest
        infer_instance
      · infer_instance
      · have := below context List.mem_cons_self context (Symbol.self_mem_nodes context) rest
        infer_instance

instance pops_bindArguments (x : Symbol) (lists : List Symbol) : Pops 0 (bindArguments x lists) := by
  have all : ∀ n ∈ x.nodes, ∀ lists, Pops 0 (bindArguments n lists) := by
    induction x using Symbol.treeInduction with
    | step x ih =>
      intro n hn
      rcases Symbol.mem_nodes.mp hn with rfl | ⟨c, hc, hn⟩
      · exact pops_bindArguments_below ih
      · exact ih c hc n hn
  exact all x (Symbol.self_mem_nodes x) lists

instance pops_popArgumentLists (n : Nat) : Pops 0 (popArgumentLists n) := by
  induction n with
  | zero => exact pops_refuse
  | succ n ih =>
    unfold popArgumentLists
    infer_instance

/-- One round of popping argument lists: a list, and the lists of the levels around it unless it is the
outermost one. -/
def argumentRound (again : Decode (List Symbol)) : Decode (List Symbol) := do
  let types ← popWhile (· == .type)
  let list := Symbol.node .typeList types.reverse
  if (← popKind? .emptyList).isSome then return [list]
  let _ ← popKind .firstElementMarker
  return list :: (← again)

/-- **Popping argument lists ends** with the outermost list or with the operands. -/
theorem terminates_popArgumentLists :
    Terminates (fun n (_ : Unit) => popArgumentLists n) (fun again _ => argumentRound (again ()))
      fun _ s => s.operands.length where
  step _ _ _ := rfl
  shrinks {again again' _ s} h := by
    refine bind_congr_at fun types t ht => bind_congr_at fun outermost u hu => ?_
    have h₁ := (pops_popWhile _).length_le ht
    have h₂ := (pops_popKind? _).length_le hu
    cases outermost with
    | some mark => rfl
    | none =>
      refine bind_congr_at fun marker v hv => ?_
      have h₃ := (takesOperand_popKind _).shorter hv
      exact bind_congr_first (h () v (by omega)) _
  last {_ s} hs again := by
    have hnil : s.operands = [] := List.length_eq_zero_iff.mp hs
    have hall : popWhile (· == .type) s = .ok [] s := by
      obtain ⟨c, xs, table, words, legacy⟩ := s
      cases hnil
      rfl
    exact ((bind_ok hall _).trans ((bind_ok (popKind?_nil hnil) _).trans
      (bind_error ((takesOperand_popKind _).refuses hnil) _))).symm

instance pops_boundGenericType : Pops 1 boundGenericType := by
  refine Pops.then fun retroactive => ?_
  have lists : Pops 0 (get >>= fun s => popArgumentLists s.operands.length : Decode (List Symbol)) :=
    pops_rounds popArgumentLists fun hn => terminates_popArgumentLists.stable (a := ()) hn
  exact Pops.then (x := get >>= fun s => popArgumentLists s.operands.length) fun lists => inferInstance

theorem pops_standardOperator? {c : Char} {read : Decode Symbol}
    (h : standardOperator? c = some read) : Pops 1 read := by
  unfold standardOperator? at h
  split at h <;> cases h
  · exact Pops.mono (x := pure _) (Nat.zero_le 1)
  · exact Pops.mono (x := pure _) (Nat.zero_le 1)
  · infer_instance

/-! ## Identifiers -/

instance pops_segmentLength : Pops 0 segmentLength := by
  unfold segmentLength
  infer_instance

instance pops_segment : Pops 0 segment := by
  unfold segment
  infer_instance

instance pops_punycodeSegment : Pops 0 punycodeSegment := by
  unfold punycodeSegment
  infer_instance

instance pops_wordsAndSegments (n : Nat) : ∀ acc, Pops 0 (wordsAndSegments n acc) := by
  induction n with
  | zero => exact fun _ => pops_fail _
  | succ n ih =>
    intro acc
    refine Pops.then fun o => ?_
    cases o with
    | none => infer_instance
    | some word =>
      refine pops_get (fun _ _ => rfl) (fun _ _ => rfl) fun s => ?_
      infer_instance

instance pops_identifierText : Pops 0 identifierText := by
  refine Pops.then fun o => ?_
  split <;> infer_instance

instance pops_identifier : Pops 1 identifier := by
  unfold identifier
  infer_instance

instance pops_operatorName : Pops 0 operatorName := by
  unfold operatorName
  infer_instance

instance pops_localName : Pops 0 localName := by
  refine Pops.then fun isPrivate => ?_
  split
  · infer_instance
  · refine Pops.then fun isFile => ?_
    split
    · infer_instance
    · refine Pops.then fun o => ?_
      cases o <;> infer_instance

/-! ## Entities -/

instance pops_extensionContext : Pops 0 extensionContext := by
  unfold extensionContext
  infer_instance

instance pops_plainFunction : Pops 0 plainFunction := by
  unfold plainFunction
  infer_instance

instance pops_popLabelledType : Pops 0 popLabelledType := by
  unfold popLabelledType
  infer_instance

instance pops_namedEntity (k : Kind) : Pops 0 (namedEntity k) := by
  unfold namedEntity
  infer_instance

instance pops_contextEntity (k : Kind) (x : Decode (List Symbol)) [Pops 0 x] :
    Pops 0 (contextEntity k x) := by
  unfold contextEntity
  infer_instance

instance pops_indexAndType : Pops 0 indexAndType := by
  unfold indexAndType
  infer_instance

theorem pops_functionEntity? {c : Char} {read : Decode Symbol} (h : functionEntity? c = some read) :
    Pops 0 read := by
  unfold functionEntity? at h
  split at h <;> cases h <;> infer_instance

instance pops_functionEntity : Pops 0 functionEntity :=
  pops_letter pops_functionEntity?

theorem pops_accessor? {c : Char} {read : Decode (Option Kind)} (h : accessor? c = some read) :
    Pops 0 read := by
  unfold accessor? at h
  split at h <;> cases h <;> infer_instance

instance pops_accessor (storage : Symbol) : Pops 0 (accessor storage) :=
  pops_letter fun h =>
    have := pops_accessor? h
    inferInstance

instance pops_variableEntity : Pops 0 variableEntity := by
  unfold variableEntity
  infer_instance

instance pops_subscriptEntity : Pops 0 subscriptEntity := by
  unfold subscriptEntity
  infer_instance

/-! ## Special types, metadata and witnesses -/

instance pops_wrapType (k : Kind) : Pops 0 (wrapType k) := by
  unfold wrapType
  infer_instance

instance pops_wrapTypeChild (k : Kind) : Pops 0 (wrapTypeChild k) := by
  unfold wrapTypeChild
  infer_instance

instance pops_representedMetatype (k : Kind) : Pops 0 (representedMetatype k) := by
  unfold representedMetatype
  infer_instance

instance pops_boxField (type : Symbol) : Pops 0 (boxField type) := by
  unfold boxField
  infer_instance

instance pops_boxType (generic : Bool) : Pops 0 (boxType generic) := by
  unfold boxType
  dsimp only
  infer_instance

instance pops_anonymousContext : Pops 0 anonymousContext := by
  unfold anonymousContext
  infer_instance

/-- The special types that are nominal are available to back-references. -/
theorem pops_specialType? {c : Char} {read : Decode Symbol} (h : specialType? c = some read) :
    Pops 1 read := by
  unfold specialType? at h
  split at h <;> cases h
  all_goals first | infer_instance | exact Pops.mono (m := 0) (Nat.zero_le 1)

instance pops_specialType : Pops 1 specialType :=
  pops_letter pops_specialType?

theorem pops_contextDescriptor? {c : Char} {read : Decode Symbol}
    (h : contextDescriptor? c = some read) : Pops 0 read := by
  unfold contextDescriptor? at h
  split at h <;> cases h <;> infer_instance

instance pops_contextDescriptor : Pops 0 contextDescriptor :=
  pops_letter pops_contextDescriptor?

theorem pops_metadata? {c : Char} {read : Decode Symbol} (h : metadata? c = some read) :
    Pops 0 read := by
  unfold metadata? at h
  split at h
  case h_7 =>
    obtain ⟨kind, -, rfl⟩ := Option.map_eq_some_iff.mp h
    infer_instance
  all_goals cases h; infer_instance

instance pops_metadata : Pops 0 metadata :=
  pops_letter pops_metadata?

instance pops_valueWitness : Pops 0 valueWitness := by
  unfold valueWitness
  infer_instance

instance pops_outlinedOperation : Pops 0 outlinedOperation := by
  unfold outlinedOperation
  infer_instance

instance pops_fieldOffset : Pops 0 fieldOffset := by
  unfold fieldOffset
  infer_instance

instance pops_lazyTable (k : Kind) : Pops 0 (lazyTable k) := by
  unfold lazyTable
  infer_instance

theorem pops_witness? {c : Char} {read : Decode Symbol} (h : witness? c = some read) :
    Pops 0 read := by
  unfold witness? at h
  split at h
  case h_9 =>
    obtain ⟨kind, -, rfl⟩ := Option.map_eq_some_iff.mp h
    infer_instance
  all_goals cases h; infer_instance

instance pops_witness : Pops 0 witness :=
  pops_letter pops_witness?

/-! ## Thunks and specializations -/

instance pops_wrapEntity (k : Kind) : Pops 0 (wrapEntity k) := by
  unfold wrapEntity
  infer_instance

instance pops_reabstractionThunk (k : Kind) : Pops 0 (reabstractionThunk k) := by
  unfold reabstractionThunk
  infer_instance

instance pops_keyPathAccessor (k : Kind) : Pops 0 (keyPathAccessor k) := by
  unfold keyPathAccessor
  dsimp only
  infer_instance

instance pops_keyPathIndexOperation (k : Kind) : Pops 0 (keyPathIndexOperation k) := by
  unfold keyPathIndexOperation
  infer_instance

instance pops_associatedConformance (k : Kind) : Pops 0 (associatedConformance k) := by
  unfold associatedConformance
  infer_instance

instance pops_bridgedFlags (n : Nat) : Pops 0 (bridgedFlags n) := by
  induction n with
  | zero => exact pops_fail _
  | succ n ih =>
    unfold bridgedFlags
    infer_instance

instance pops_bridgedMethod : Pops 0 bridgedMethod := by
  refine Pops.then fun _ => ?_
  dsimp only
  split <;> infer_instance

instance pops_specializationHead : Pops 0 specializationHead := by
  unfold specializationHead
  infer_instance

instance pops_genericSpecialization (k : Kind) : Pops 0 (genericSpecialization k) := by
  unfold genericSpecialization
  infer_instance

instance pops_partialSpecialization (k : Kind) : Pops 0 (partialSpecialization k) := by
  unfold partialSpecialization
  infer_instance

instance pops_numberLiteral : Pops 0 numberLiteral := by
  unfold numberLiteral
  infer_instance

instance pops_readFlags (flags : List (Char × ParamChange)) : ∀ value, Pops 0 (readFlags value flags) := by
  induction flags with
  | nil => exact fun value => pops_pure value
  | cons f fs ih =>
    intro value
    unfold readFlags
    infer_instance

instance pops_flagRecord (flag : ParamChange) : Pops 0 (flagRecord flag) := by
  unfold flagRecord
  infer_instance

theorem pops_constantRecord? {c : Char} {read : Decode (List Symbol)}
    (h : constantRecord? c = some read) : Pops 0 read := by
  unfold constantRecord? at h
  split at h <;> cases h <;> infer_instance

theorem pops_changeRecord? {c : Char} {read : Decode (List Symbol)}
    (h : changeRecord? c = some read) : Pops 0 read := by
  unfold changeRecord? at h
  split at h <;> cases h
  case h_3 => exact pops_letter pops_constantRecord?
  all_goals infer_instance

instance pops_changeRecord : Pops 0 changeRecord :=
  pops_letter pops_changeRecord?

instance pops_paramRecords (n : Nat) : ∀ i, Pops 0 (paramRecords n i) := by
  induction n with
  | zero => exact fun _ => pops_fail _
  | succ n ih =>
    intro i
    unfold paramRecords
    infer_instance

instance pops_returnRecord : Pops 0 returnRecord := by
  unfold returnRecord
  infer_instance

instance pops_popPayload (change : ParamChange) : Pops 0 (popPayload change) := by
  unfold popPayload
  infer_instance

instance pops_attach (record : Symbol) : Pops 0 (attach record) := by
  unfold attach
  split
  · infer_instance
  · split
    · infer_instance
    · refine Pops.then fun _ => ?_
      split <;> infer_instance

instance pops_attachAll (records : List Symbol) : ∀ acc, Pops 0 (attachAll records acc) := by
  induction records with
  | nil => exact fun acc => pops_pure acc
  | cons r rs ih =>
    intro acc
    unfold attachAll
    infer_instance

instance pops_signatureSpecialization : Pops 0 signatureSpecialization := by
  unfold signatureSpecialization
  infer_instance

theorem pops_thunk? {c : Char} {read : Decode Symbol} (h : thunk? c = some read) : Pops 0 read := by
  unfold thunk? at h
  split at h <;> cases h <;> infer_instance

instance pops_thunk : Pops 0 thunk :=
  pops_letter pops_thunk?

end Demangle.Decode
