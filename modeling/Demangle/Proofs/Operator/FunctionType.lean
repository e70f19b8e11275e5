import Demangle.Operator.FunctionType
import Demangle.Proofs.Operand.Builds

/-!
# Function types build well-formed trees

A popped function type has the shape that its contract asks for (`builds_popFunctionType`). Taking the
labels out of a parameter tuple rebuilds the type from the tuple up to its root; every node on the way
is replaced by one of its own kind (`builds_popLabels`).
-/

namespace Demangle.Decode

open Symbol

variable {L : TextLaw}

/-! ## Parameters and results -/

theorem wellFormed_emptyTuple : (typed .tuple []).WellFormed L :=
  wellFormed_type (.make rfl (L.carries_none _) nofun)

theorem builds_popFunctionPart :
    Builds L popFunctionPart fun x => x.WellFormed L ∧ x.kind = .type :=
  (builds_popKind? .emptyList).bind fun _ _ =>
    Builds.ite (fun _ => Builds.pure ⟨wellFormed_emptyTuple, rfl⟩) fun _ => builds_popType

/-- The arguments of a function type: a type, beside the number of parameters. -/
theorem wellFormed_arguments (n : UInt64) {params : Symbol} (hp : params.WellFormed L)
    (hk : params.kind = .type) : ((ofIndex .argumentTuple n).push params).WellFormed L := by
  rw [push_eq_make rfl]
  refine .make ?_ (L.carries_index _ n) fun c hc => ?_
  · show Kind.argumentTuple.content.admits [params.kind] = true
    rw [hk]
    rfl
  · have hc' : c = params := by simpa [ofIndex] using hc
    rw [hc']
    exact hp

theorem builds_popArguments :
    Builds L popArguments fun x => x.WellFormed L ∧ x.kind = .argumentTuple :=
  builds_popFunctionPart.bind fun _ hp => (builds_require fun _ _ => trivial).bind fun _ _ =>
    Builds.pure ⟨wellFormed_arguments _ hp.1 hp.2, rfl⟩

theorem wellFormed_result {type : Symbol} (ht : type.WellFormed L) (hk : type.kind = .type) :
    (node .returnType [type]).WellFormed L := by
  refine .make ?_ (L.carries_none _) fun c hc => ?_
  · show Kind.returnType.content.admits [type.kind] = true
    rw [hk]
    rfl
  · rw [List.mem_singleton.mp hc]
    exact ht

theorem builds_popFunctionType {k : Kind} (hk : k.content = .function) :
    Builds L (popFunctionType k) fun x => x.WellFormed L ∧ x.kind = .type := by
  refine (builds_popKind? .throwsMark).bind fun throws hthrows => ?_
  refine builds_popArguments.bind fun arguments ha => ?_
  refine builds_popFunctionPart.bind fun type ht => Builds.pure ⟨wellFormed_type ?_, rfl⟩
  refine .make ?_ (L.carries_none _) fun c hc => ?_
  · rw [hk]
    cases throws with
    | none =>
      show Content.function.admits [arguments.kind, .returnType] = true
      rw [ha.2]
      rfl
    | some x =>
      show Content.function.admits [x.kind, arguments.kind, .returnType] = true
      rw [ha.2, (hthrows x rfl).2]
      rfl
  · have hc' : throws = some c ∨ c = arguments ∨ c = node .returnType [type] := by simpa using hc
    rcases hc' with h | rfl | rfl
    · exact (hthrows c h).1
    · exact ha.1
    · exact wellFormed_result ht.1 ht.2

/-! ## Argument labels -/

/-- Another tuple can be put into the place of the one that a slot holds. -/
def ParameterSlot.Fits (L : TextLaw) (type : Symbol) (slot : ParameterSlot) : Prop :=
  ∀ tuple, slot.tuple? = some tuple →
    tuple.WellFormed L ∧ tuple.kind = .tuple ∧
      ∀ t : Symbol, t.WellFormed L → t.kind = .tuple →
        (slot.replace t).WellFormed L ∧ (slot.replace t).kind = type.kind

theorem child?_zero {s c : Symbol} (h : s.first? = some c) : s.child? 0 = some c := by
  rw [Symbol.child?, ← List.head?_eq_getElem?]
  exact h

theorem builds_parameterSlot? {type : Symbol} (ht : type.WellFormed L) :
    Builds L (parameterSlot? type) fun o => ∀ slot, o = some slot → slot.Fits L type := by
  unfold parameterSlot?
  refine Builds.ite (fun _ => Builds.pure nofun) fun _ => ?_
  refine (builds_require (Q := fun top => type.first? = some top) fun _ h => h).bind
    fun top htop => ?_
  have wtop : top.WellFormed L := ht.first htop
  dsimp only
  -- a generic function type stands below its signature
  refine Builds.ite_bind (P := fun f => f.WellFormed L ∧
    ∀ g : Symbol, g.WellFormed L → g.kind = f.kind →
      ((if (top.kind == .dependentGenericType) = true then
          top.setChild 1 ((top.child? 1).elim g (·.setChild 0 g)) else g).WellFormed L ∧
        (if (top.kind == .dependentGenericType) = true then
          top.setChild 1 ((top.child? 1).elim g (·.setChild 0 g)) else g).kind = top.kind))
    (fun h => builds_require fun f hf => ?_) (fun h => Builds.pure ?_) fun f hf => ?_
  · obtain ⟨inner, hinner, hfirst⟩ := Option.bind_eq_some_iff.mp hf
    have winner : inner.WellFormed L := wtop.child? hinner
    refine ⟨winner.first hfirst, fun g hg hk => ?_⟩
    rw [if_pos h, hinner]
    exact ⟨wtop.setChild (winner.setChild hg (child?_zero hfirst) hk) hinner rfl, rfl⟩
  · refine ⟨wtop, fun g hg hk => ?_⟩
    rw [if_neg h]
    exact ⟨hg, hk⟩
  refine Builds.ite (fun _ => Builds.pure nofun) fun _ => ?_
  generalize (if f.first?.any (·.kind == .throwsMark) then 1 else 0) = slot
  refine (builds_require (Q := fun a => f.child? slot = some a) fun _ h => h).bind
    fun arguments ha => (builds_ensure _).bind fun _ _ => ?_
  refine Builds.ite (fun _ => Builds.pure nofun) fun _ => ?_
  have warguments : arguments.WellFormed L := hf.1.child? ha
  refine (builds_require (Q := fun p => arguments.first? = some p) fun _ h => h).bind
    fun params hp => Builds.pure fun slot' hslot tuple htuple => ?_
  cases hslot
  obtain ⟨hfirst, hkind⟩ := Option.filter_eq_some_iff.mp htuple
  have wparams : params.WellFormed L := warguments.first hp
  refine ⟨wparams.first hfirst, beq_iff_eq.mp hkind, fun t hwt hkt => ?_⟩
  have step₁ : (params.setChild 0 t).WellFormed L :=
    wparams.setChild hwt (child?_zero hfirst) (hkt.trans (beq_iff_eq.mp hkind).symm)
  have step₂ : (arguments.setChild 0 (params.setChild 0 t)).WellFormed L :=
    warguments.setChild step₁ (child?_zero hp) rfl
  have step₃ := hf.2 _ (hf.1.setChild step₂ ha rfl) rfl
  exact ⟨ht.setChild step₃.1 (child?_zero htop) step₃.2, rfl⟩

/-- What an element of a tuple consists of. -/
theorem element_children {x : Symbol} (hx : x.WellFormed L) (hk : x.kind = .tupleElement) :
    ∃ front type, x.children = front ++ [type] ∧ type.kind = .type ∧
      (front = [] ∨ (∃ l, front = [l] ∧ l.kind = .tupleElementName) ∨
        (∃ v, front = [v] ∧ v.kind = .variadicMarker) ∨
        ∃ v l, front = [v, l] ∧ v.kind = .variadicMarker ∧ l.kind = .tupleElementName) := by
  have h := hx.admits
  rw [hk] at h
  simp only [Kind.content, Content.admits, Bool.or_eq_true, beq_iff_eq] at h
  rcases h with ((h | h) | h) | h
  · obtain ⟨t, ht, hk⟩ := List.map_eq_singleton_iff.mp h
    exact ⟨[], t, ht, hk, .inl rfl⟩
  · obtain ⟨l, ts, hcs, hl, hts⟩ := List.map_eq_cons_iff.mp h
    obtain ⟨t, rfl, hk⟩ := List.map_eq_singleton_iff.mp hts
    exact ⟨[l], t, hcs, hk, .inr (.inl ⟨l, rfl, hl⟩)⟩
  · obtain ⟨v, ts, hcs, hv, hts⟩ := List.map_eq_cons_iff.mp h
    obtain ⟨t, rfl, hk⟩ := List.map_eq_singleton_iff.mp hts
    exact ⟨[v], t, hcs, hk, .inr (.inr (.inl ⟨v, rfl, hv⟩))⟩
  · obtain ⟨v, ls, hcs, hv, hls⟩ := List.map_eq_cons_iff.mp h
    obtain ⟨l, ts, rfl, hl, hts⟩ := List.map_eq_cons_iff.mp hls
    obtain ⟨t, rfl, hk⟩ := List.map_eq_singleton_iff.mp hts
    exact ⟨[v, l], t, hcs, hk, .inr (.inr (.inr ⟨v, l, rfl, hv, hl⟩))⟩

theorem wellFormed_splitLabel {x : Symbol} (hx : x.WellFormed L) (hk : x.kind = .tupleElement) :
    (splitLabel x).1.WellFormed L ∧ (splitLabel x).2.WellFormed L ∧
      (splitLabel x).2.kind = .tupleElement := by
  unfold splitLabel
  split
  · next i hi =>
    obtain ⟨hlt, hlabel, -⟩ := List.findIdx?_eq_some_iff_getElem.mp hi
    have hget : x.child? i = some (x.children.get ⟨i, hlt⟩) := List.getElem?_eq_getElem hlt
    have wlabel : (x.children.get ⟨i, hlt⟩).WellFormed L := hx.child? hget
    refine ⟨?_, ?_, hk⟩
    · rw [hget]
      exact wellFormed_identifier (name_textD wlabel (.inr (beq_iff_eq.mp hlabel)))
    · refine .make ?_ hx.carries fun c hc => hx.child (List.mem_of_mem_eraseIdx hc)
      obtain ⟨front, t, hcs, ht, hfront⟩ := element_children hx hk
      rw [hk]
      rw [hcs] at hi ⊢
      rcases hfront with rfl | ⟨l, rfl, hl⟩ | ⟨v, rfl, hv⟩ | ⟨v, l, rfl, hv, hl⟩
      · simp [ht] at hi
      · have hi0 : i = 0 := by simpa [List.findIdx?_cons, hl] using hi.symm
        simp [hi0, ht, Kind.content, Content.admits]
      · simp [List.findIdx?_cons, hv, ht] at hi
      · have hi1 : i = 1 := by simpa [List.findIdx?_cons, hv, hl] using hi.symm
        simp [hi1, hv, ht, Kind.content, Content.admits]
  · exact ⟨wellFormed_leaf rfl, hx, hk⟩

theorem tuple_elements {x : Symbol} (hx : x.WellFormed L) (hk : x.kind = .tuple) :
    ∀ c ∈ x.children, c.WellFormed L ∧ c.kind = .tupleElement := by
  intro c hc
  have h := hx.admits
  rw [hk] at h
  simp only [Kind.content, Content.admits, List.all_map, List.all_eq_true] at h
  exact ⟨hx.child hc, beq_iff_eq.mp (h c hc)⟩

theorem wellFormed_stripLabels {x : Symbol} (n : Nat) (hx : x.WellFormed L)
    (hk : x.kind = .tuple) :
    (∀ l ∈ (stripLabels n x).1, l.WellFormed L) ∧ (stripLabels n x).2.WellFormed L ∧
      (stripLabels n x).2.kind = .tuple := by
  have elements := tuple_elements hx hk
  have split : ∀ c ∈ x.children.take n, (splitLabel c).1.WellFormed L ∧
      (splitLabel c).2.WellFormed L ∧ (splitLabel c).2.kind = .tupleElement := fun c hc =>
    have he := elements c (List.mem_of_mem_take hc)
    wellFormed_splitLabel he.1 he.2
  have parts : ∀ c ∈ ((x.children.take n).map splitLabel).map Prod.snd ++ x.children.drop n,
      c.WellFormed L ∧ c.kind = .tupleElement := by
    intro c hc
    rcases List.mem_append.mp hc with hc | hc
    · obtain ⟨q, hq, rfl⟩ := List.mem_map.mp hc
      obtain ⟨d, hd, rfl⟩ := List.mem_map.mp hq
      exact (split d hd).2
    · exact elements c (List.mem_of_mem_drop hc)
  refine ⟨fun l hl => ?_, .make ?_ hx.carries fun c hc => (parts c hc).1, hk⟩
  · obtain ⟨q, hq, rfl⟩ := List.mem_map.mp hl
    obtain ⟨c, hc, rfl⟩ := List.mem_map.mp hq
    exact (split c hc).1
  · rw [hk]
    simp only [Kind.content, Content.admits, List.all_map, List.all_eq_true]
    intro c hc
    exact beq_iff_eq.mpr (parts c hc).2

theorem builds_labelList {labels : List Symbol} (h : ∀ l ∈ labels, l.WellFormed L) :
    Builds L (labelList labels) fun x => x.WellFormed L := by
  refine (builds_ensure _).bind fun _ _ => Builds.pure (wellFormed_node rfl fun c hc => ?_)
  split at hc
  · cases hc
  · exact h c hc

theorem builds_popLabels {type : Symbol} (ht : type.WellFormed L) :
    Builds L (popLabels type) fun r =>
      (∀ l, r.1 = some l → l.WellFormed L) ∧ r.2.WellFormed L ∧ r.2.kind = type.kind := by
  have hleaf : ∀ l, some (leaf .labelList) = some l → l.WellFormed L := by
    intro l h
    cases h
    exact wellFormed_leaf rfl
  refine builds_get.bind fun s _ => ?_
  refine Builds.ite_bind (P := fun _ => True) (fun _ => Builds.pure trivial)
    (fun _ => (builds_popKind? .emptyList).imp fun _ _ => trivial) fun unlabelled _ => ?_
  refine Builds.ite (fun _ => Builds.pure ⟨hleaf, ht, rfl⟩) fun _ => ?_
  refine (builds_parameterSlot? ht).bind fun o ho => ?_
  cases o with
  | none => exact Builds.pure ⟨nofun, ht, rfl⟩
  | some slot =>
    dsimp only
    split
    · exact Builds.pure ⟨hleaf, ht, rfl⟩
    · next tuple htuple =>
      obtain ⟨wtuple, ktuple, fits⟩ := ho slot rfl tuple htuple
      refine Builds.ite (fun _ => ?_) fun _ => ?_
      · refine (builds_ensure _).bind fun _ _ => ?_
        obtain ⟨wlabels, wstripped, kstripped⟩ :=
          wellFormed_stripLabels slot.count.toNat wtuple ktuple
        refine (builds_labelList wlabels).bind fun l hl =>
          Builds.pure ⟨?_, fits _ wstripped kstripped⟩
        intro l' h
        cases h
        exact hl
      · refine (builds_popCount _).bind fun labels hlabels => ?_
        refine (builds_labelList fun l hl => hlabels l (List.mem_reverse.mp hl)).bind
          fun l hl => Builds.pure ⟨?_, ht, rfl⟩
        intro l' h
        cases h
        exact hl

/-! ## Lowered function types -/

theorem builds_popTypes (n : Nat) : ∀ acc, (∀ t ∈ acc, t.WellFormed L) →
    Builds L (popTypes n acc) fun ts => ∀ t ∈ ts, t.WellFormed L := by
  induction n with
  | zero =>
    intro acc hacc
    exact Builds.pure hacc
  | succ n ih =>
    intro acc hacc
    refine builds_popType.bind fun t ht => ih (t :: acc) fun u hu => ?_
    rcases List.mem_cons.mp hu with rfl | hu
    · exact ht.1
    · exact hacc u hu

/-- A pseudogeneric signature has the contract of a signature. -/
theorem builds_popLoweredSignature? :
    Builds L popLoweredSignature? fun o => ∀ x, o = some x → x.WellFormed L := by
  refine builds_popSignature?.bind fun o ho => ?_
  cases o with
  | none => exact Builds.pure nofun
  | some signature =>
    obtain ⟨hs, hk⟩ := ho signature rfl
    refine (builds_scan (Scan.accept 'P')).bind fun _ _ => Builds.ite (fun _ => ?_) fun _ => ?_
    · refine Builds.pure fun x hx => ?_
      cases hx
      refine hs.renamed nofun (L.carries_free (by decide) _) ?_
      have h := hs.admits
      rw [hk] at h
      rw [List.append_nil]
      exact h
    · refine Builds.pure fun x hx => ?_
      cases hx
      exact hs

/-- The parts of a lowered function type: its head, then a convention and a type for each slot. -/
theorem wellFormed_lowered {head types : List Symbol} {slots : List (Kind × String)}
    (hhead : ∀ c ∈ head, c.WellFormed L) (hslots : ∀ slot ∈ slots, slot.1.content = .anything)
    (htypes : ∀ t ∈ types, t.WellFormed L) :
    (typed .implFunctionType (head ++ slots.zipWith
      (fun slot type => node slot.1 [ofText .implConvention slot.2, type]) types)).WellFormed L := by
  refine wellFormed_typed rfl fun c hc => ?_
  rcases List.mem_append.mp hc with hc | hc
  · exact hhead c hc
  · rw [← List.map_uncurry_zip_eq_zipWith] at hc
    obtain ⟨⟨slot, t⟩, hz, rfl⟩ := List.mem_map.mp hc
    obtain ⟨hslot, ht⟩ := List.of_mem_zip hz
    refine wellFormed_node (hslots slot hslot) fun d hd => ?_
    rcases List.mem_cons.mp hd with rfl | hd
    · exact wellFormed_ofFreeText _ rfl (by decide)
    · rw [List.mem_singleton.mp hd]
      exact htypes t ht

theorem slots_content {params results errors : List String} :
    ∀ slot ∈ params.map (Kind.implParameter, ·) ++ results.map (Kind.implResult, ·) ++
      errors.map (Kind.implErrorResult, ·), slot.1.content = .anything := by
  intro slot h
  simp only [List.mem_append, List.mem_map] at h
  rcases h with (⟨_, -, rfl⟩ | ⟨_, -, rfl⟩) | ⟨_, -, rfl⟩
  all_goals rfl

theorem builds_loweredFunctionType : Builds L loweredFunctionType fun x => x.WellFormed L := by
  refine builds_popLoweredSignature?.bind fun signature hsignature => ?_
  refine (builds_scan _).bind fun escaping _ => (builds_scan _).bind fun callee _ => ?_
  refine (builds_scan _).bind fun representation _ => (builds_scan _).bind fun params _ => ?_
  refine (builds_scan _).bind fun results _ => (builds_scan (Scan.accept 'z')).bind fun b _ => ?_
  have hhead : ∀ c ∈ (if escaping = true then [leaf .implEscaping] else []) ++
      [ofText .implConvention callee] ++
      (representation.map (ofText .implFunctionAttribute)).toList ++ signature.toList,
      c.WellFormed L := by
    intro c hc
    simp only [List.mem_append, List.mem_singleton, Option.mem_toList,
      Option.map_eq_some_iff] at hc
    rcases hc with ((hc | rfl) | ⟨text, -, rfl⟩) | hc
    · split at hc
      · rw [List.mem_singleton.mp hc]
        exact wellFormed_leaf rfl
      · cases hc
    · exact wellFormed_ofFreeText _ rfl (by decide)
    · exact wellFormed_ofFreeText _ rfl (by decide)
    · exact hsignature c hc
  refine Builds.ite (fun _ => ?_) fun _ => ?_
  · refine (builds_scan (Scan.letter? resultConvention?)).bind fun o _ => ?_
    refine (builds_require (Q := fun _ => True) fun _ _ => trivial).bind fun error _ => ?_
    refine (builds_scan (Scan.expect '_')).bind fun _ _ => ?_
    exact (builds_popTypes _ [] nofun).bind fun types htypes =>
      Builds.pure (wellFormed_lowered hhead slots_content htypes)
  · refine (builds_scan (Scan.expect '_')).bind fun _ _ => ?_
    exact (builds_popTypes _ [] nofun).bind fun types htypes =>
      Builds.pure (wellFormed_lowered hhead slots_content htypes)

end Demangle.Decode
