import Demangle.Proofs.Symbol.Depth

/-!
# Well-formed trees

Each kind has a contract on the kinds of its children (`Kind.content`, `Content.admits`): a type holds
one node, a function type its arguments and its result, a signature its parameter counts and then its
requirements, the record of a parameter its change and then what that carries. A tree is `WellFormed`
if every node of it keeps the contract of its kind, stores its own depth, and carries a text that a
`TextLaw` allows. A law speaks of the texts of names and of the payloads of specializations;
`TextLaw.any` allows all.

    s.WellFormed L → ∀ n ∈ s.nodes, n.kind.content.admits (n.children.map kind)     (WellFormed.arity)
    s.WellFormed L → s.Exact                                                       (WellFormed.exact)
-/

namespace Demangle

/-! ## The contract of a kind -/

/-- What the children of a node may be. -/
inductive Content where
  /-- There is no contract. -/
  | anything
  /-- One child. -/
  | single
  /-- The mark of a throwing function if there is one, then the arguments and the result. -/
  | function
  /-- One type. -/
  | oneType
  /-- Elements of a tuple. -/
  | elements
  /-- A type, below the mark of a variadic element and a label if there are such. -/
  | element
  /-- Parameter counts, then requirements. -/
  | signature
  /-- A signature and the type under it. -/
  | genericType
  /-- A type and the list of its arguments, perhaps with more behind them. -/
  | boundType
  /-- A base type and the name of one of its associated types. -/
  | member
  /-- Nothing, or a change and perhaps what it carries. -/
  | record
  deriving DecidableEq, Inhabited, Repr

/-- The contract of a kind. -/
def Kind.content : Kind → Content
  | .type => .single
  | .functionType | .noEscapeFunctionType | .escapingAutoClosureType | .autoClosureType
  | .thinFunctionType | .uncurriedFunctionType | .objcBlock | .cFunctionPointer => .function
  | .argumentTuple | .returnType => .oneType
  | .tuple => .elements
  | .tupleElement => .element
  | .dependentGenericSignature | .dependentPseudogenericSignature => .signature
  | .dependentGenericType => .genericType
  | .boundGenericClass | .boundGenericStructure | .boundGenericEnum | .boundGenericProtocol
  | .boundGenericOtherNominalType | .boundGenericTypeAlias => .boundType
  | .dependentMemberType => .member
  | .functionSignatureSpecializationParam => .record
  | _ => .anything

/-- The children, given by their kinds, keep the contract. -/
def Content.admits : Content → List Kind → Bool
  | .anything, _ => true
  | .single, ks => ks.length == 1
  | .function, ks =>
    ks == [.argumentTuple, .returnType] || ks == [.throwsMark, .argumentTuple, .returnType]
  | .oneType, ks => ks == [.type]
  | .elements, ks => ks.all (· == .tupleElement)
  | .element, ks =>
    ks == [.type] || ks == [.tupleElementName, .type] || ks == [.variadicMarker, .type] ||
      ks == [.variadicMarker, .tupleElementName, .type]
  | .signature, ks => (ks.dropWhile (· == .dependentGenericParamCount)).all Kind.isRequirement
  | .genericType, ks => ks == [.dependentGenericSignature, .type]
  | .boundType, ks => [.type, .typeList].isPrefixOf ks
  | .member, ks => ks == [.type, .dependentAssociatedTypeRef]
  | .record, ks =>
    (ks.take 2).isPrefixOf [.functionSignatureSpecializationParamKind,
      .functionSignatureSpecializationParamPayload]

/-! ## Texts -/

/-- Which texts names and payloads of specializations may carry. A text without `_` can always be a
name. -/
structure TextLaw where
  name : String → Prop
  payload : String → Prop
  name_of_plain : ∀ t : String, '_' ∉ t.toList → name t

namespace TextLaw

/-- The law that allows all texts. -/
def any : TextLaw :=
  ⟨fun _ => True, fun _ => True, fun _ _ => trivial⟩

/-- The same law for payloads, and none for names. -/
def payloads (L : TextLaw) : TextLaw :=
  ⟨fun _ => True, L.payload, fun _ _ => trivial⟩

/-- The law under which there are no payloads. -/
def onlyNames : TextLaw :=
  ⟨fun _ => True, fun _ => False, fun _ _ => trivial⟩

/-- What a node of the given kind carries is allowed. Labels of tuple elements are names. -/
def Carries (L : TextLaw) (k : Kind) : Payload → Prop
  | .text t =>
    (k = .identifier ∨ k = .tupleElementName → L.name t) ∧
      (k = .functionSignatureSpecializationParamPayload → L.payload t)
  | _ => True

/-- A law allows no more than another. -/
def Implies (L M : TextLaw) : Prop :=
  (∀ t, L.name t → M.name t) ∧ ∀ t, L.payload t → M.payload t

theorem Carries.implies {L M : TextLaw} (h : L.Implies M) {k : Kind} {p : Payload}
    (hp : L.Carries k p) : M.Carries k p := by
  cases p with
  | none => trivial
  | index n => trivial
  | text t => exact ⟨fun hk => h.1 t (hp.1 hk), fun hk => h.2 t (hp.2 hk)⟩

theorem carries_none (L : TextLaw) (k : Kind) : L.Carries k .none := trivial

theorem carries_index (L : TextLaw) (k : Kind) (n : UInt64) : L.Carries k (.index n) := trivial

/-- A node that is neither a name nor a payload may carry anything. -/
theorem carries_free (L : TextLaw) {k : Kind} (hk : k ≠ .identifier ∧ k ≠ .tupleElementName ∧
    k ≠ .functionSignatureSpecializationParamPayload) (p : Payload) : L.Carries k p := by
  cases p with
  | none => trivial
  | index n => trivial
  | text t =>
    refine ⟨fun h => ?_, fun h => absurd h hk.2.2⟩
    rcases h with h | h
    · exact absurd h hk.1
    · exact absurd h hk.2.1

end TextLaw

namespace Symbol

/-! ## Well-formed trees -/

/-- Every node keeps the contract of its kind and carries an allowed text. -/
inductive WellFormed (L : TextLaw) : Symbol → Prop
  | make {k : Kind} {p : Payload} {cs : List Symbol} (content : k.content.admits (cs.map kind))
      (carries : L.Carries k p) (parts : ∀ c ∈ cs, WellFormed L c) : WellFormed L (make k p cs)

namespace WellFormed

variable {L : TextLaw} {s : Symbol}

theorem admits (h : s.WellFormed L) : s.kind.content.admits (s.children.map Symbol.kind) := by
  cases h with
  | make content _ _ => exact content

theorem carries (h : s.WellFormed L) : L.Carries s.kind s.payload := by
  cases h with
  | make _ carries _ => exact carries

theorem child (h : s.WellFormed L) {c : Symbol} (hc : c ∈ s.children) : c.WellFormed L := by
  cases h with
  | make _ _ parts => exact parts c hc

theorem first (h : s.WellFormed L) {c : Symbol} (hc : s.first? = some c) : c.WellFormed L :=
  h.child (List.mem_of_mem_head? hc)

theorem child? (h : s.WellFormed L) {i : Nat} {c : Symbol} (hc : s.child? i = some c) :
    c.WellFormed L :=
  h.child (List.mem_of_getElem? hc)

theorem depth_eq (h : s.WellFormed L) : s.depth = 1 + maxDepth s.children := by
  cases h with
  | make _ _ _ => rfl

theorem exact (h : s.WellFormed L) : s.Exact := by
  induction h with
  | make _ _ _ ih => exact exact_make ih

theorem node_of_mem (h : s.WellFormed L) {n : Symbol} (hn : n ∈ s.nodes) : n.WellFormed L := by
  induction h with
  | @make k p cs content carries parts ih =>
    rcases mem_nodes.mp hn with rfl | ⟨c, hc, hn⟩
    · exact make content carries parts
    · exact ih c hc hn

/-- **Every node keeps the contract of its kind.** -/
theorem arity (h : s.WellFormed L) :
    ∀ n ∈ s.nodes, n.kind.content.admits (n.children.map Symbol.kind) :=
  fun _ hn => (h.node_of_mem hn).admits

theorem implies {M : TextLaw} (hL : L.Implies M) (h : s.WellFormed L) : s.WellFormed M := by
  induction h with
  | make content carries _ ih => exact make content (carries.implies hL) ih

end WellFormed

/-! ## Constructions -/

section Constructions

variable {L : TextLaw}

theorem wellFormed_node {k : Kind} {cs : List Symbol} (hk : k.content = .anything)
    (parts : ∀ c ∈ cs, c.WellFormed L) : (node k cs).WellFormed L := by
  refine .make ?_ (L.carries_none k) parts
  rw [hk]
  rfl

theorem wellFormed_leaf {k : Kind} (hk : k.content = .anything) : (leaf k).WellFormed L :=
  wellFormed_node hk fun _ hc => absurd hc List.not_mem_nil

theorem wellFormed_ofIndex {k : Kind} (hk : k.content = .anything) (n : UInt64) :
    (ofIndex k n).WellFormed L := by
  refine .make ?_ (L.carries_index k n) fun _ hc => absurd hc List.not_mem_nil
  rw [hk]
  rfl

theorem wellFormed_ofText {k : Kind} {t : String} (hk : k.content = .anything)
    (ht : L.Carries k (.text t)) : (ofText k t).WellFormed L := by
  refine .make ?_ ht fun _ hc => absurd hc List.not_mem_nil
  rw [hk]
  rfl

theorem wellFormed_ofFreeText {k : Kind} (t : String) (hk : k.content = .anything)
    (hn : k ≠ .identifier ∧ k ≠ .tupleElementName ∧
      k ≠ .functionSignatureSpecializationParamPayload) : (ofText k t).WellFormed L :=
  wellFormed_ofText hk (L.carries_free hn _)

theorem wellFormed_identifier {t : String} (ht : L.name t) :
    (ofText .identifier t).WellFormed L :=
  wellFormed_ofText rfl ⟨fun _ => ht, fun h => Kind.noConfusion h⟩

theorem wellFormed_type {c : Symbol} (hc : c.WellFormed L) : (node .type [c]).WellFormed L := by
  refine .make rfl (L.carries_none _) fun d hd => ?_
  rw [List.mem_singleton.mp hd]
  exact hc

theorem wellFormed_typed {k : Kind} {cs : List Symbol} (hk : k.content = .anything)
    (parts : ∀ c ∈ cs, c.WellFormed L) : (typed k cs).WellFormed L :=
  wellFormed_type (wellFormed_node hk parts)

theorem wellFormed_standardType {k : Kind} {name : String} (hk : k.content = .anything)
    (hn : '_' ∉ name.toList) : (standardType k name).WellFormed L := by
  refine wellFormed_typed hk fun c hc => ?_
  rcases List.mem_cons.mp hc with rfl | hc
  · exact wellFormed_ofFreeText _ rfl (by decide)
  · rw [List.mem_singleton.mp hc]
    exact wellFormed_identifier (L.name_of_plain name hn)

/-- A node can take another child if its contract admits it. -/
theorem WellFormed.push {s c : Symbol} (hs : s.WellFormed L) (hc : c.WellFormed L)
    (hk : s.kind.content.admits (s.children.map kind ++ [c.kind])) :
    (s.push c).WellFormed L := by
  rw [push_eq_make hs.depth_eq]
  refine .make ?_ hs.carries fun d hd => ?_
  · simpa using hk
  · rcases List.mem_append.mp hd with hd | hd
    · exact hs.child hd
    · rw [List.mem_singleton.mp hd]
      exact hc

theorem WellFormed.push_free {s c : Symbol} (hs : s.WellFormed L) (hc : c.WellFormed L)
    (hk : s.kind.content = .anything) : (s.push c).WellFormed L := by
  refine hs.push hc ?_
  rw [hk]
  rfl

/-- A child can be replaced by one of the same kind. -/
theorem WellFormed.setChild {s c d : Symbol} {i : Nat} (hs : s.WellFormed L)
    (hd : d.WellFormed L) (hi : s.child? i = some c) (hk : d.kind = c.kind) :
    (s.setChild i d).WellFormed L := by
  refine .make ?_ hs.carries fun e he => ?_
  · have same : (s.children.set i d).map kind = s.children.map kind := by
      rw [List.map_set, hk]
      apply List.ext_getElem?
      intro j
      rw [List.getElem?_set]
      split
      · next h =>
        subst h
        have hj : s.children[i]? = some c := hi
        have hlt : i < (s.children.map kind).length := by
          rw [List.length_map]
          exact (List.getElem?_eq_some_iff.mp hj).1
        rw [if_pos hlt, List.getElem?_map, hj]
        rfl
      · rfl
    rw [same]
    exact hs.admits
  · rcases List.mem_or_eq_of_mem_set he with he | rfl
    · exact hs.child he
    · exact hd

theorem WellFormed.renamed {s : Symbol} {k : Kind} {cs : List Symbol} (hs : s.WellFormed L)
    (hcs : ∀ c ∈ cs, c.WellFormed L) (hc : L.Carries k s.payload)
    (hk : k.content.admits ((s.children ++ cs).map kind)) : (s.renamed k cs).WellFormed L := by
  refine .make hk hc fun d hd => ?_
  rcases List.mem_append.mp hd with hd | hd
  · exact hs.child hd
  · exact hcs d hd

/-- A node can be put under a kind without contract that is neither that of a name nor of a
payload. -/
theorem WellFormed.renamed_free {s : Symbol} {k : Kind} {cs : List Symbol} (hs : s.WellFormed L)
    (hcs : ∀ c ∈ cs, c.WellFormed L) (hk : k.content = .anything)
    (hn : k ≠ .identifier ∧ k ≠ .tupleElementName ∧
      k ≠ .functionSignatureSpecializationParamPayload) : (s.renamed k cs).WellFormed L := by
  refine hs.renamed hcs (L.carries_free hn _) ?_
  rw [hk]
  rfl

end Constructions

end Symbol

end Demangle
