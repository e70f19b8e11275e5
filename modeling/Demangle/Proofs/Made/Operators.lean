import Demangle.Proofs.Made.Entity

/-!
# Operators make trees

One instance for every other operator, as for entities, up to `forms_operator`. Where an operator takes its
kind from a letter, each table of letters has a lemma that all its kinds are free. A local name takes the
index that it reads, and `G` the nominal type, which it rebuilds along its contexts, as it is.
-/

namespace Demangle.Decode

open Symbol

variable {m : String}

/-! ## Nominal types and back-references -/

instance makes_symbolicReference : Makes m symbolicReference := by
  unfold symbolicReference
  infer_instance

instance makes_pushRepeated {count : Option UInt64} {x : Symbol} [AllMade m x] :
    Makes m (pushRepeated count x) := by
  unfold pushRepeated
  infer_instance

instance makes_references (fuel : Nat) : ∀ count, Makes m (references fuel count) := by
  induction fuel with
  | zero => exact fun _ => makes_fail
  | succ fuel ih =>
    intro count
    refine Makes.then fun c _ => ?_
    split
    · infer_instance
    · refine Makes.then fun _ _ => ?_
      cases count <;> infer_instance
    · infer_instance
    · infer_instance

instance makes_backReference : Makes m backReference := by
  unfold backReference
  infer_instance

instance makes_optionalType : Makes m optionalType := by
  unfold optionalType
  infer_instance

theorem makes_standardOperator? {c : Char} {run : Decode Symbol} (h : standardOperator? c = some run) :
    Makes m run := by
  unfold standardOperator? at h
  split at h <;> cases h <;> infer_instance

theorem standardType?_free {c : Char} {k : Kind} {name : String}
    (h : standardType? c = some (k, name)) : k.isFree = true := by
  unfold standardType? at h
  split at h <;> cases h <;> rfl

instance makes_standardSubstitution : Makes m standardSubstitution := by
  refine Makes.then fun c _ => ?_
  split
  · exact ⟨fun _ h => by cases h⟩
  refine makes_bind_of (R := fun o => ∀ run, o = some run → ∃ c, standardOperator? c = some run)
    (fun h => ?_) fun o ho _ => ?_
  · rintro run rfl
    obtain ⟨d, hd, -⟩ := lift_eq_ok h
    exact Scan.meaning_of_letter? hd
  cases o with
  | some run =>
    obtain ⟨c, hc⟩ := ho run rfl
    exact makes_standardOperator? hc
  | none =>
    refine Makes.then fun n _ => Makes.then fun _ _ => makes_letter fun {c type} hc => ?_
    have : Holds type.1.isFree := ⟨standardType?_free hc⟩
    infer_instance

theorem makes_builtinName? {c : Char} {name : Decode String} (h : builtinName? c = some name) :
    Makes m name :=
  have := pops_builtinName? h
  inferInstance

instance makes_builtinType : Makes m builtinType :=
  makes_letter fun h =>
    have := makes_builtinName? (m := m) h
    inferInstance

instance makes_nominalType {k : Kind} [Holds k.isFree] : Makes m (nominalType k) := by
  unfold nominalType
  infer_instance

/-! ## Generic arguments -/

instance makes_popArgumentLists (fuel : Nat) : Makes m (popArgumentLists fuel) := by
  induction fuel with
  | zero => exact makes_refuse
  | succ fuel ih =>
    unfold popArgumentLists
    infer_instance

theorem popArgumentLists_kind {fuel : Nat} {s s' : State} {lists : List Symbol}
    (h : popArgumentLists fuel s = .ok lists s') : ∀ l ∈ lists, l.kind = .typeList := by
  induction fuel generalizing s s' lists with
  | zero => cases h
  | succ fuel ih =>
    obtain ⟨types, t, -, h⟩ := bind_eq_ok h
    obtain ⟨empty, u, -, h⟩ := bind_eq_ok h
    split at h
    · cases h
      exact List.forall_mem_singleton.mpr rfl
    · obtain ⟨mark, v, -, h⟩ := bind_eq_ok h
      obtain ⟨outer, w, houter, h⟩ := bind_eq_ok h
      cases h
      exact List.forall_mem_cons.mpr ⟨rfl, ih houter⟩

theorem popAnyGeneric_kind {s s' : State} {x : Symbol} (h : popAnyGeneric s = .ok x s') :
    x.kind.isAnyGeneric = true := by
  obtain ⟨n, t, -, h⟩ := bind_eq_ok h
  obtain ⟨u, v, hensure, h⟩ := bind_eq_ok h
  cases h
  exact (ensure_eq_ok hensure).1

/-- Binding arguments keeps the kind of a node or puts a bound one around it. -/
theorem bindArguments_kind {x b : Symbol} {lists : List Symbol} {s s' : State}
    (h : bindArguments x lists s = .ok b s') : b.kind = x.kind ∨ b.kind.isBound = true := by
  obtain ⟨k, p, cs, d⟩ := x
  cases cs with
  | nil =>
    rw [bindArguments] at h
    split at h <;> cases h
    exact .inr rfl
  | cons context others =>
    obtain ⟨rfl, -⟩ | ⟨args, outer, rest, n, t, -, -, hn, hb⟩ := bindArguments_cases h
    · exact .inr rfl
    have hkind : n.kind = k := by
      obtain ⟨-, rfl, -⟩ | ⟨c, -, rfl⟩ := hn <;> rfl
    split at hb
    · cases hb
      exact .inl hkind
    · obtain ⟨rfl⟩ | ⟨hbound, -⟩ := (unbind_wrapBound hb).2
      · exact .inl hkind
      · exact .inr hbound

theorem isFree_of_isAnyGeneric {k : Kind} (h : k.isAnyGeneric = true) : k.isFree = true := by
  unfold Kind.isAnyGeneric at h
  split at h
  all_goals first | rfl | cases h

theorem isFree_of_isBound {k : Kind} (h : k.isBound = true) : k.isFree = true := by
  unfold Kind.isFree
  split
  all_goals first | rfl | cases h

theorem makes_bindArguments {x : Symbol} {lists : List Symbol} (hletter : 'G' ∈ m.toList)
    (hx : Made m x) (hgeneric : x.kind.isAnyGeneric = true) (hlists : ∀ l ∈ lists, Made m l)
    (hkinds : ∀ l ∈ lists, l.kind = .typeList) : Makes m (bindArguments x lists) where
  keeps {s b s'} hs h := by
    rw [bindArguments_state h]
    exact ⟨hs, allMade_symbol.mpr (.bound hletter hx hgeneric hlists hkinds h)⟩

theorem makes_boundGenericType (hletter : 'G' ∈ m.toList) : Makes m boundGenericType := by
  refine Makes.then fun retroactive hretroactive => Makes.then fun s _ => ?_
  refine makes_bind_of popArgumentLists_kind fun lists hkinds hlists => ?_
  refine makes_bind_of popAnyGeneric_kind fun nominal hgeneric hnominal => ?_
  have := makes_bindArguments hletter (allMade_symbol.mp hnominal) hgeneric
    (allMade_symbols.mp hlists) hkinds
  refine makes_bind_of bindArguments_kind fun bound hkind hbound => ?_
  have hfree : bound.kind.isFree = true := by
    rcases hkind with hk | hk
    · rw [hk]
      exact isFree_of_isAnyGeneric hgeneric
    · exact isFree_of_isBound hk
  have hlist : AllMade m (node .typeList retroactive.reverse) := inferInstance
  have : AllMade m (bound.push (node .typeList retroactive.reverse)) :=
    allMade_symbol.mpr (.push (allMade_symbol.mp hbound) hfree (allMade_symbol.mp hlist))
  infer_instance

/-! ## Identifiers -/

instance makes_identifier : Makes m identifier := by
  unfold identifier
  infer_instance

theorem fixity?_free {c : Char} {k : Kind} (h : fixity? c = some k) : k.isFree = true := by
  unfold fixity? at h
  split at h <;> cases h <;> rfl

instance makes_operatorName : Makes m operatorName := by
  refine Makes.then fun name _ => Makes.then fun chars _ => makes_letter fun {c k} hc => ?_
  have : Holds k.isFree := ⟨fixity?_free hc⟩
  infer_instance

instance makes_localName : Makes m localName := by
  have numbered : Makes m (do
      let discriminator ← indexNode
      let name ← popDeclName
      return Symbol.node .localDeclName [discriminator, name]) := by
    refine ⟨fun {s x s'} hs h => ?_⟩
    obtain ⟨discriminator, t, h₁, h⟩ := bind_eq_ok h
    obtain ⟨name, u, h₂, h⟩ := bind_eq_ok h
    cases h
    obtain ⟨i, hi, rfl⟩ := indexNode_eq_ok hs h₁
    obtain ⟨ht, -⟩ := makes_indexNode.keeps hs h₁
    obtain ⟨hu, hname⟩ := makes_popDeclName.keeps ht h₂
    exact ⟨hu, allMade_symbol.mpr (.localName hi (allMade_symbol.mp hname))⟩
  have related : ∀ c : Char, Makes m (do
      return (Symbol.ofText .relatedEntityDeclName (String.singleton c)).push (← pop)) := by
    intro c
    refine Makes.then fun x hx => ?_
    have htext : Made m (ofText .relatedEntityDeclName (String.singleton c)) :=
      .node rfl (List.forall_mem_nil _)
    have := allMade_symbol.mpr (htext.push rfl (allMade_symbol.mp hx))
    infer_instance
  refine Makes.then fun _ _ => ?_
  split
  · infer_instance
  refine Makes.then fun _ _ => ?_
  split
  · infer_instance
  refine Makes.then fun o _ => ?_
  cases o with
  | some c => exact related c
  | none => exact numbered

/-! ## Special types -/

instance makes_wrapType {k : Kind} [Holds k.isFree] : Makes m (wrapType k) := by
  unfold wrapType
  infer_instance

instance makes_wrapTypeChild {k : Kind} [Holds k.isFree] : Makes m (wrapTypeChild k) := by
  unfold wrapTypeChild
  infer_instance

instance makes_representedMetatype {k : Kind} [Holds k.isFree] : Makes m (representedMetatype k) := by
  unfold representedMetatype
  infer_instance

theorem makes_boxField {type : Symbol} (htype : Made m type) (hk : type.kind = .type) :
    Makes m (boxField type) := by
  have := allMade_symbol.mpr htype
  have : AllMade m type.first? := allMade_option.mpr fun _ h => first_of_type this hk h
  refine Makes.then fun inner hinner => ?_
  split
  · next hinout =>
    have hopen : inner.kind.isAnyGeneric = false := by
      rw [beq_iff_eq.mp hinout]
      rfl
    have : AllMade m inner.first? := allMade_option.mpr fun _ h =>
      allMade_symbol.mpr ((allMade_symbol.mp hinner).first hopen h)
    infer_instance
  · infer_instance

/-- The types of a list of types. -/
theorem made_types {list : Symbol} (hlist : AllMade m list)
    (h : list.kind = .typeList ∧ ∀ c ∈ list.children, c.kind = .type) :
    ∀ c ∈ list.children, Made m c :=
  fun _ hc => (allMade_symbol.mp hlist).part (by rw [h.1]; rfl) hc

instance makes_boxType (generic : Bool) : Makes m (boxType generic) := by
  have boxed : ∀ generics : List Symbol, AllMade m generics → Makes m (do
      let fields ← (← popTypeList).children.mapM boxField
      return Symbol.typed .silBoxTypeWithLayout (.node .silBoxLayout fields :: generics)) := by
    intro generics _
    refine makes_bind_of popTypeList_types fun list htypes hlist => ?_
    have := makes_mapM list.children fun c hc => makes_boxField (made_types hlist htypes c hc)
      (htypes.2 c hc)
    infer_instance
  unfold boxType
  split
  · refine Makes.then fun signature _ => Makes.then fun args _ => ?_
    exact boxed [signature, args] inferInstance
  · exact boxed [] inferInstance

instance makes_anonymousContext : Makes m anonymousContext := by
  unfold anonymousContext
  infer_instance

theorem makes_specialType? {c : Char} {run : Decode Symbol} (h : specialType? c = some run) :
    Makes m run := by
  unfold specialType? at h
  split at h <;> cases h <;> infer_instance

instance makes_specialType : Makes m specialType :=
  makes_letter makes_specialType?

/-! ## Metadata and witnesses -/

theorem makes_contextDescriptor? {c : Char} {run : Decode Symbol}
    (h : contextDescriptor? c = some run) : Makes m run := by
  unfold contextDescriptor? at h
  split at h <;> cases h <;> infer_instance

instance makes_contextDescriptor : Makes m contextDescriptor :=
  makes_letter makes_contextDescriptor?

theorem typeMetadata?_free {c : Char} {k : Kind} (h : typeMetadata? c = some k) : k.isFree = true := by
  unfold typeMetadata? at h
  split at h <;> cases h <;> rfl

theorem makes_metadata? {c : Char} {run : Decode Symbol} (h : metadata? c = some run) :
    Makes m run := by
  unfold metadata? at h
  split at h
  case h_7 =>
    obtain ⟨k, hk, rfl⟩ := Option.map_eq_some_iff.mp h
    have : Holds k.isFree := ⟨typeMetadata?_free hk⟩
    infer_instance
  all_goals cases h; infer_instance

instance makes_metadata : Makes m metadata :=
  makes_letter makes_metadata?

instance makes_valueWitness : Makes m valueWitness := by
  unfold valueWitness
  infer_instance

theorem outlinedKind?_free {c : Char} {k : Kind} (h : outlinedKind? c = some k) : k.isFree = true := by
  unfold outlinedKind? at h
  split at h <;> cases h <;> rfl

instance makes_outlinedOperation : Makes m outlinedOperation := by
  refine Makes.then fun signature _ => Makes.then fun type _ => makes_letter fun {c k} hc => ?_
  have : Holds k.isFree := ⟨outlinedKind?_free hc⟩
  infer_instance

instance makes_fieldOffset : Makes m fieldOffset := by
  unfold fieldOffset
  infer_instance

instance makes_lazyTable {k : Kind} [Holds k.isFree] : Makes m (lazyTable k) := by
  unfold lazyTable
  infer_instance

theorem conformanceTable?_free {c : Char} {k : Kind} (h : conformanceTable? c = some k) :
    k.isFree = true := by
  unfold conformanceTable? at h
  split at h <;> cases h <;> rfl

theorem makes_witness? {c : Char} {run : Decode Symbol} (h : witness? c = some run) : Makes m run := by
  unfold witness? at h
  split at h
  case h_9 =>
    obtain ⟨k, hk, rfl⟩ := Option.map_eq_some_iff.mp h
    have : Holds k.isFree := ⟨conformanceTable?_free hk⟩
    infer_instance
  all_goals cases h; infer_instance

instance makes_witness : Makes m witness :=
  makes_letter makes_witness?

/-! ## Specializations -/

instance makes_specializationHead : Makes m specializationHead := by
  unfold specializationHead
  infer_instance

instance makes_genericSpecialization {k : Kind} [Holds k.isFree] :
    Makes m (genericSpecialization k) := by
  refine Makes.then fun head _ => makes_bind_of popTypeList_types fun list htypes hlist => ?_
  have := allMade_symbols.mpr (made_types hlist htypes)
  dsimp only
  infer_instance

instance makes_partialSpecialization {k : Kind} [Holds k.isFree] :
    Makes m (partialSpecialization k) := by
  unfold partialSpecialization
  infer_instance

instance allMade_changeNode {value : UInt64} : AllMade m (changeNode value) :=
  allMade_ofIndex

instance allMade_payloadNode {text : String} : AllMade m (payloadNode text) :=
  allMade_ofText

instance makes_flagRecord {flag : ParamChange} : Makes m (flagRecord flag) := by
  unfold flagRecord
  infer_instance

theorem makes_constantRecord? {c : Char} {run : Decode (List Symbol)}
    (h : constantRecord? c = some run) : Makes m run := by
  unfold constantRecord? at h
  split at h <;> cases h <;> infer_instance

theorem makes_changeRecord? {c : Char} {run : Decode (List Symbol)} (h : changeRecord? c = some run) :
    Makes m run := by
  have constant : Makes m (do
      let read ← Scan.letter (.expected "a constant propagation kind") constantRecord?
      read) :=
    makes_letter makes_constantRecord?
  unfold changeRecord? at h
  split at h <;> cases h
  case h_3 => exact constant
  all_goals infer_instance

instance makes_changeRecord : Makes m changeRecord :=
  makes_letter makes_changeRecord?

instance makes_paramRecords (fuel : Nat) : ∀ i, Makes m (paramRecords fuel i) := by
  induction fuel with
  | zero => exact fun _ => makes_fail
  | succ fuel ih =>
    intro i
    unfold paramRecords
    infer_instance

instance makes_returnRecord : Makes m returnRecord := by
  unfold returnRecord
  infer_instance

instance makes_popPayload {change : ParamChange} : Makes m (popPayload change) := by
  unfold popPayload
  infer_instance

instance makes_attach {record : Symbol} [hr : AllMade m record] : Makes m (attach record) := by
  unfold attach
  split
  · infer_instance
  next hkind =>
  have hk : record.kind = .functionSignatureSpecializationParam := by simpa using hkind
  split
  · infer_instance
  refine Makes.then fun _ _ => ?_
  split
  · infer_instance
  refine Makes.then fun payload hpayload => ?_
  have : AllMade m (record.append payload) := by
    refine allMade_symbol.mpr (.node (by rw [hk]) fun c hc => ?_)
    rcases List.mem_append.mp hc with hc | hc
    · exact (allMade_symbol.mp hr).part (by rw [hk]; rfl) hc
    · exact allMade_symbols.mp hpayload c hc
  infer_instance

theorem makes_attachAll (records : List Symbol) : ∀ {acc : List Symbol}, AllMade m records →
    AllMade m acc → Makes m (attachAll records acc) := by
  induction records with
  | nil => exact fun _ _ => makes_pure
  | cons r rs ih =>
    intro acc hrecords hacc
    have hall := allMade_list.mp hrecords
    have := hall r List.mem_cons_self
    refine Makes.then fun x _ => ih ?_ inferInstance
    exact allMade_list.mpr fun x hx => hall x (List.mem_cons_of_mem _ hx)

instance makes_signatureSpecialization : Makes m signatureSpecialization := by
  refine Makes.then fun head _ => Makes.then fun unique _ => Makes.then fun fuel _ => ?_
  refine Makes.then fun params _ => Makes.then fun result _ => ?_
  have := makes_attachAll (m := m) (params ++ result).reverse inferInstance allMade_nil
  infer_instance

/-! ## Thunks -/

instance makes_wrapEntity {k : Kind} [Holds k.isFree] : Makes m (wrapEntity k) := by
  unfold wrapEntity
  infer_instance

instance makes_reabstractionThunk {k : Kind} [Holds k.isFree] : Makes m (reabstractionThunk k) := by
  unfold reabstractionThunk
  infer_instance

instance makes_keyPathAccessor {k : Kind} [Holds k.isFree] : Makes m (keyPathAccessor k) := by
  refine Makes.then fun last _ => Makes.then fun types _ => Makes.then fun top _ => ?_
  dsimp only
  split <;> infer_instance

instance makes_keyPathIndexOperation {k : Kind} [Holds k.isFree] :
    Makes m (keyPathIndexOperation k) := by
  unfold keyPathIndexOperation
  infer_instance

instance makes_associatedConformance {k : Kind} [Holds k.isFree] :
    Makes m (associatedConformance k) := by
  unfold associatedConformance
  infer_instance

instance makes_bridgedMethod : Makes m bridgedMethod := by
  refine Makes.then fun _ _ => ?_
  split
  · exact ⟨fun _ h => by cases h⟩
  infer_instance

theorem makes_thunk? {c : Char} {run : Decode Symbol} (h : thunk? c = some run) : Makes m run := by
  unfold thunk? at h
  split at h <;> cases h <;> infer_instance

instance makes_thunk : Makes m thunk :=
  makes_letter makes_thunk?

/-! ## All operators -/

theorem forms_operator? {c : Char} {run : Decode Symbol} (h : operator? c = some run)
    (hc : c.toNat < 0x80 → c ∈ m.toList) : Forms m run := by
  unfold operator? at h
  split at h <;> cases h
  case h_6 => exact forms_plainFunction
  case h_7 =>
    have := makes_boundGenericType (hc (by decide))
    exact Makes.forms
  case h_26 => exact forms_functionEntity
  case h_29 => exact forms_subscriptEntity
  all_goals exact Makes.forms

/-- **Every operator makes its node of made trees.** -/
theorem forms_operator : Forms m operator where
  keeps {s x s'} hsound hs h := by
    obtain ⟨o, t, hpeek, h⟩ := bind_eq_ok h
    obtain ⟨-, sound, -⟩ := builds_scan _ _ _ _ hsound hpeek
    obtain ⟨ht, -⟩ := makes_of_pops.keeps hs hpeek
    refine Forms.keeps ?_ sound ht h
    cases o with
    | none => exact Makes.forms
    | some c =>
      refine Forms.ite (fun _ => Makes.forms) fun _ => Forms.ite (fun _ => Makes.forms) fun _ => ?_
      refine Forms.ite (fun _ => Makes.forms) fun _ => ?_
      split
      · next run hrun =>
        exact Forms.bind Makes.forms (builds_scan _) fun _ _ _ => forms_operator? hrun (peek_mem hs hpeek)
      · exact Makes.forms

end Demangle.Decode
