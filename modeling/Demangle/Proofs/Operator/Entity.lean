import Demangle.Operator.Entity
import Demangle.Operator.Identifier
import Demangle.Operator.Metadata
import Demangle.Operator.SpecialType
import Demangle.Operator.Witness
import Demangle.Proofs.Operator.FunctionType
import Demangle.Proofs.Operator.Generic
import Demangle.Proofs.Operator.Nominal

/-!
# Entities, special types, metadata and witnesses build well-formed trees

Most operators of these families put what they pop under a kind without contract. Each table of
letters has one lemma, which says it of all its entries.
-/

namespace Demangle.Decode

open Symbol

variable {L : TextLaw}

/-- A node around one operand. -/
theorem builds_wrap {x : Decode Symbol} {k : Kind} {P : Symbol → Prop} (hk : k.content = .anything)
    (hx : Builds L x P) (hP : ∀ a, P a → a.WellFormed L) :
    Builds L (do return node k [← x]) fun y => y.WellFormed L :=
  hx.bind fun a ha => Builds.pure (wellFormed_node hk (by simp [hP a ha]))

/-! ## Names -/

theorem fixity?_content {c : Char} {k : Kind} (h : fixity? c = some k) :
    k.content = .anything ∧ k ≠ .identifier ∧ k ≠ .tupleElementName ∧
      k ≠ .functionSignatureSpecializationParamPayload := by
  unfold fixity? at h
  split at h <;> cases h <;> decide

theorem builds_operatorName : Builds L operatorName fun x => x.WellFormed L := by
  refine (builds_popKind .identifier).bind fun name _ => ?_
  refine (builds_require (Q := fun _ => True) fun _ _ => trivial).bind fun chars _ => ?_
  refine (builds_letter _ fixity?).bind fun k ⟨c, hc⟩ => Builds.pure ?_
  obtain ⟨hk, hfree⟩ := fixity?_content hc
  exact wellFormed_ofFreeText _ hk hfree

theorem builds_localName : Builds L localName fun x => x.WellFormed L := by
  refine (builds_scan (Scan.accept 'L')).bind fun _ _ => Builds.ite (fun _ => ?_) fun _ => ?_
  · refine (builds_popKind .identifier).bind fun discriminator hd => ?_
    exact builds_popDeclName.bind fun name hn =>
      Builds.pure (wellFormed_node rfl (by simp [hd.1, hn]))
  refine (builds_scan (Scan.accept 'l')).bind fun _ _ => Builds.ite (fun _ => ?_) fun _ => ?_
  · exact builds_wrap rfl (builds_popKind .identifier) fun _ h => h.1
  refine (builds_scan (Scan.letter? relatedLetter?)).bind fun o _ => ?_
  cases o with
  | some c =>
    refine builds_pop.bind fun x hx => Builds.pure ?_
    have htext : (ofText .relatedEntityDeclName (String.singleton c)).WellFormed L :=
      wellFormed_ofFreeText _ rfl (by decide)
    exact htext.push_free hx rfl
  | none =>
    refine builds_indexNode.bind fun discriminator hd => builds_popDeclName.bind fun name hn => ?_
    exact Builds.pure (wellFormed_node rfl (by simp [hd, hn]))

/-! ## Entities -/

theorem builds_extensionContext : Builds L extensionContext fun x => x.WellFormed L := by
  refine builds_popSignature?.bind fun signature hs => builds_popModule.bind fun m hm => ?_
  refine builds_popAnyGeneric.bind fun extended he => Builds.pure (wellFormed_node rfl ?_)
  have hsignature : ∀ s, signature = some s → s.WellFormed L := fun s h => (hs s h).1
  simpa [hm, he.1] using hsignature

theorem builds_plainFunction : Builds L plainFunction fun x => x.WellFormed L := by
  refine builds_popSignature?.bind fun signature hs => ?_
  refine (builds_popFunctionType rfl).bind fun type ht => ?_
  refine (builds_popLabels ht.1).bind fun ⟨labels, type'⟩ ⟨hl, ht', hk⟩ => ?_
  refine builds_popDeclName.bind fun name hn => builds_popContext.bind fun context hc => ?_
  have htype := wellFormed_underSignature hs ⟨ht', hk.trans ht.2⟩
  refine Builds.pure (wellFormed_node rfl ?_)
  simpa [hn, hc, or_imp, forall_and, htype] using hl

theorem builds_popLabelledType :
    Builds L popLabelledType fun xs => ∀ x ∈ xs, x.WellFormed L := by
  refine (builds_popKind? .privateDeclName).bind fun privateName hp => ?_
  refine builds_popType.bind fun type ht => ?_
  refine (builds_popLabels ht.1).bind fun ⟨labels, type'⟩ ⟨hl, ht', _⟩ => Builds.pure ?_
  intro x hx
  simp only [List.mem_append, Option.mem_toList, List.mem_singleton] at hx
  rcases hx with (hx | rfl) | hx
  · exact hl x hx
  · exact ht'
  · exact (hp x hx).1

theorem builds_namedEntity {k : Kind} (hk : k.content = .anything) :
    Builds L (namedEntity k) fun x => x.WellFormed L := by
  refine builds_popType.bind fun type ht => builds_popDeclName.bind fun name hn => ?_
  exact builds_popContext.bind fun context hc =>
    Builds.pure (wellFormed_node hk (by simp [ht.1, hn, hc]))

theorem builds_contextEntity {k : Kind} {operands : Decode (List Symbol)}
    (hk : k.content = .anything) (ho : Builds L operands fun xs => ∀ x ∈ xs, x.WellFormed L) :
    Builds L (contextEntity k operands) fun x => x.WellFormed L := by
  refine ho.bind fun xs hxs => builds_popContext.bind fun context hc => ?_
  exact Builds.pure (wellFormed_node hk (by simpa [hc] using hxs))

theorem builds_indexAndType : Builds L indexAndType fun xs => ∀ x ∈ xs, x.WellFormed L := by
  refine builds_indexNode.bind fun index hi => builds_popType.bind fun type ht => Builds.pure ?_
  simp [hi, ht.1]

theorem builds_functionEntity? {c : Char} {x : Decode Symbol} (h : functionEntity? c = some x) :
    Builds L x fun y => y.WellFormed L := by
  unfold functionEntity? at h
  split at h <;> cases h
  · exact builds_contextEntity rfl (Builds.pure nofun)
  · exact builds_contextEntity rfl (Builds.pure nofun)
  · exact builds_contextEntity rfl (Builds.pure nofun)
  · exact builds_contextEntity rfl (Builds.pure nofun)
  · exact builds_contextEntity rfl (Builds.pure nofun)
  · exact builds_contextEntity rfl builds_popLabelledType
  · exact builds_contextEntity rfl builds_popLabelledType
  · exact builds_contextEntity rfl builds_indexAndType
  · exact builds_contextEntity rfl builds_indexAndType
  · exact builds_contextEntity rfl (builds_indexNode.bind fun i hi => Builds.pure (by simp [hi]))
  · exact builds_namedEntity rfl

theorem builds_functionEntity : Builds L functionEntity fun x => x.WellFormed L :=
  (builds_letter _ functionEntity?).bind fun _ ⟨_, hc⟩ => builds_functionEntity? hc

/-! ## Variables and subscripts -/

theorem mutableAddressor?_content {c : Char} {k : Kind} (h : mutableAddressor? c = some k) :
    k.content = .anything := by
  unfold mutableAddressor? at h
  split at h <;> cases h <;> rfl

theorem addressor?_content {c : Char} {k : Kind} (h : addressor? c = some k) :
    k.content = .anything := by
  unfold addressor? at h
  split at h <;> cases h <;> rfl

theorem builds_readLetter {α : Type} (what : String) (f : Char → Option α) :
    Builds L (liftM (Scan.readLetter what f) : Decode α) fun a => ∃ c, f c = some a :=
  builds_scan_of fun _ _ _ _ h => Scan.meaning_of_readLetter h

theorem builds_accessor? {c : Char} {x : Decode (Option Kind)} (h : accessor? c = some x) :
    Builds L x fun o => ∀ k, o = some k → k.content = .anything := by
  have fixed : ∀ k : Kind, k.content = .anything →
      Builds L (pure (some k)) fun o => ∀ k, o = some k → k.content = .anything := by
    intro k hk
    refine Builds.pure fun k' h => ?_
    cases h
    exact hk
  unfold accessor? at h
  split at h <;> cases h
  · exact fixed _ rfl
  · exact fixed _ rfl
  · exact fixed _ rfl
  · exact fixed _ rfl
  · exact fixed _ rfl
  · exact fixed _ rfl
  · exact fixed _ rfl
  · exact fixed _ rfl
  · exact (builds_readLetter _ _).bind fun k ⟨_, hc⟩ => fixed k (mutableAddressor?_content hc)
  · exact (builds_readLetter _ _).bind fun k ⟨_, hc⟩ => fixed k (addressor?_content hc)
  · exact Builds.pure nofun

theorem builds_accessor {storage : Symbol} (hs : storage.WellFormed L) :
    Builds L (accessor storage) fun x => x.WellFormed L := by
  refine (builds_letter _ accessor?).bind fun read ⟨c, hc⟩ => ?_
  refine (builds_accessor? hc).bind fun o ho => Builds.pure ?_
  cases o with
  | none => exact hs
  | some k => exact wellFormed_node (ho k rfl) (by simp [hs])

theorem builds_variableEntity : Builds L variableEntity fun x => x.WellFormed L :=
  (builds_namedEntity rfl).bind fun _ hs => builds_accessor hs

theorem builds_subscriptEntity : Builds L subscriptEntity fun x => x.WellFormed L :=
  (builds_contextEntity rfl builds_popLabelledType).bind fun _ hs => builds_accessor hs

/-! ## Special types -/

theorem builds_wrapType {k : Kind} (hk : k.content = .anything) :
    Builds L (wrapType k) fun x => x.WellFormed L :=
  builds_popType.bind fun _ ht => Builds.pure (wellFormed_typed hk (by simp [ht.1]))

theorem builds_wrapTypeChild {k : Kind} (hk : k.content = .anything) :
    Builds L (wrapTypeChild k) fun x => x.WellFormed L :=
  builds_popTypeChild.bind fun _ hc => Builds.pure (wellFormed_typed hk (by simp [hc]))

theorem builds_representedMetatype {k : Kind} (hk : k.content = .anything) :
    Builds L (representedMetatype k) fun x => x.WellFormed L := by
  refine (builds_scan _).bind fun text _ => builds_popType.bind fun type ht => ?_
  have htext : (ofText .metatypeRepresentation text).WellFormed L :=
    wellFormed_ofFreeText _ rfl (by decide)
  exact Builds.pure (wellFormed_typed hk (by simp [htext, ht.1]))

theorem builds_boxField {type : Symbol} (ht : type.WellFormed L) :
    Builds L (boxField type) fun x => x.WellFormed L := by
  refine (builds_require fun _ h => ht.first h).bind fun inner hi => Builds.ite (fun _ => ?_) fun _ => ?_
  · refine (builds_require fun _ h => hi.first h).bind fun pointee hp => ?_
    have htype : (node .type [pointee]).WellFormed L := wellFormed_type hp
    exact Builds.pure (wellFormed_node rfl (by simp [htype]))
  · exact Builds.pure (wellFormed_node rfl (by simp [ht]))

theorem builds_mapM {α β : Type} {P : α → Prop} {Q : β → Prop} {f : α → Decode β}
    (hf : ∀ a, P a → Builds L (f a) Q) :
    ∀ xs : List α, (∀ x ∈ xs, P x) → Builds L (xs.mapM f) fun ys => ∀ y ∈ ys, Q y := by
  intro xs
  induction xs with
  | nil =>
    intro _
    rw [List.mapM_nil]
    exact Builds.pure nofun
  | cons x xs ih =>
    intro h
    rw [List.mapM_cons]
    refine (hf x (h x List.mem_cons_self)).bind fun y hy => ?_
    refine (ih fun z hz => h z (List.mem_cons_of_mem _ hz)).bind fun ys hys => Builds.pure ?_
    simpa [hy] using hys

theorem builds_boxType (generic : Bool) : Builds L (boxType generic) fun x => x.WellFormed L := by
  have fields : ∀ generics : List Symbol, (∀ g ∈ generics, g.WellFormed L) →
      Builds L (do
        let types ← popTypeList
        let fields ← types.children.mapM boxField
        pure (typed .silBoxTypeWithLayout (node .silBoxLayout fields :: generics)))
      fun x => x.WellFormed L := by
    intro generics hg
    refine builds_popTypeList.bind fun types htypes => ?_
    refine (builds_mapM (fun _ h => builds_boxField h) _ fun _ h => htypes.1.child h).bind
      fun fields hf => Builds.pure (wellFormed_typed rfl ?_)
    have hlayout : (node .silBoxLayout fields).WellFormed L := wellFormed_node rfl hf
    simpa [hlayout] using hg
  refine Builds.ite (fun _ => ?_) fun _ => fields [] nofun
  refine (builds_popKind .dependentGenericSignature).bind fun signature hs => ?_
  exact builds_popTypeList.bind fun args ha => fields [signature, args] (by simp [hs.1, ha.1])

theorem builds_anonymousContext : Builds L anonymousContext fun x => x.WellFormed L := by
  refine builds_popTypeList.bind fun types ht => (builds_popKind .identifier).bind fun name hn => ?_
  exact builds_popContext.bind fun parent hp =>
    Builds.pure (wellFormed_node rfl (by simp [ht.1, hn.1, hp]))

theorem builds_specialType? {c : Char} {x : Decode Symbol} (h : specialType? c = some x) :
    Builds L x fun y => y.WellFormed L := by
  have function : ∀ k : Kind, k.content = .function →
      Builds L (popFunctionType k) fun y => y.WellFormed L := fun k hk =>
    (builds_popFunctionType hk).imp fun _ h => h.1
  unfold specialType? at h
  split at h <;> cases h
  · exact function _ rfl
  · exact function _ rfl
  · exact function _ rfl
  · exact function _ rfl
  · exact function _ rfl
  · exact function _ rfl
  · exact function _ rfl
  · exact builds_wrapType rfl
  · exact builds_wrapType rfl
  · exact builds_wrapType rfl
  · exact builds_wrapType rfl
  · exact builds_wrapType rfl
  · exact builds_representedMetatype rfl
  · exact builds_representedMetatype rfl
  · exact builds_wrapType rfl
  · refine builds_popType.bind fun superclass hs => builds_popProtocolList.bind fun ps hp => ?_
    exact Builds.pure (wellFormed_typed rfl (by simp [hs.1, hp]))
  · exact builds_popProtocolList.bind fun ps hp =>
      Builds.pure (wellFormed_typed rfl (by simp [hp]))
  · exact builds_boxType true
  · exact builds_boxType false
  · exact builds_nominalType rfl
  · exact builds_anonymousContext
  · exact Builds.pure (wellFormed_typed rfl nofun)

theorem builds_specialType : Builds L specialType fun x => x.WellFormed L :=
  (builds_letter _ specialType?).bind fun _ ⟨_, hc⟩ => builds_specialType? hc

/-! ## Metadata -/

theorem typeMetadata?_content {c : Char} {k : Kind} (h : typeMetadata? c = some k) :
    k.content = .anything := by
  unfold typeMetadata? at h
  split at h <;> cases h <;> rfl

theorem builds_contextDescriptor? {c : Char} {x : Decode Symbol}
    (h : contextDescriptor? c = some x) : Builds L x fun y => y.WellFormed L := by
  unfold contextDescriptor? at h
  split at h <;> cases h
  · exact builds_wrap rfl builds_popContext fun _ h => h
  · exact builds_wrap rfl builds_popModule fun _ h => h
  · refine builds_pop.bind fun discriminator hd => builds_popContext.bind fun context hc => ?_
    exact Builds.pure (wellFormed_node rfl (by simp [hd, hc]))
  · exact builds_wrap rfl builds_popContext fun _ h => h
  · refine builds_popAssociatedTypePath.bind fun path hp => builds_popType.bind fun base hb => ?_
    exact Builds.pure (wellFormed_node rfl (by simp [hp, hb.1]))

theorem builds_metadata? {c : Char} {x : Decode Symbol} (h : metadata? c = some x) :
    Builds L x fun y => y.WellFormed L := by
  unfold metadata? at h
  split at h
  · cases h
    exact builds_wrap rfl builds_popConformance fun _ h => h
  · cases h
    exact builds_wrap rfl builds_popProtocol fun _ h => h.1
  · cases h
    exact builds_wrap rfl builds_popConformance fun _ h => h
  · cases h
    exact builds_wrap rfl builds_popAnyGeneric fun _ h => h.1
  · cases h
    exact builds_wrap rfl builds_popEntity fun _ h => h
  · cases h
    exact (builds_letter _ contextDescriptor?).bind fun _ ⟨_, hc⟩ => builds_contextDescriptor? hc
  · obtain ⟨k, hk, rfl⟩ := Option.map_eq_some_iff.mp h
    exact builds_wrap (typeMetadata?_content hk) builds_popType fun _ h => h.1

theorem builds_metadata : Builds L metadata fun x => x.WellFormed L :=
  (builds_letter _ metadata?).bind fun _ ⟨_, hc⟩ => builds_metadata? hc

/-! ## Witnesses -/

theorem builds_valueWitness : Builds L valueWitness fun x => x.WellFormed L := by
  refine (builds_scan (Scan.take 2)).bind fun code _ => ?_
  refine (builds_require (Q := fun _ => True) fun _ _ => trivial).bind fun w _ => ?_
  refine builds_popType.bind fun type ht => Builds.pure (.make rfl (L.carries_index _ _) ?_)
  simp [ht.1]

theorem outlinedKind?_content {c : Char} {k : Kind} (h : outlinedKind? c = some k) :
    k.content = .anything := by
  unfold outlinedKind? at h
  split at h <;> cases h <;> rfl

theorem builds_outlinedOperation : Builds L outlinedOperation fun x => x.WellFormed L := by
  refine builds_popSignature?.bind fun signature hs => builds_popType.bind fun type ht => ?_
  refine (builds_letter _ outlinedKind?).bind fun k ⟨c, hc⟩ => ?_
  have hsignature : ∀ s, signature = some s → s.WellFormed L := fun s h => (hs s h).1
  refine Builds.pure (wellFormed_node (outlinedKind?_content hc) ?_)
  simpa [ht.1] using hsignature

theorem conformanceTable?_content {c : Char} {k : Kind} (h : conformanceTable? c = some k) :
    k.content = .anything := by
  unfold conformanceTable? at h
  split at h <;> cases h <;> rfl

theorem builds_fieldOffset : Builds L fieldOffset fun x => x.WellFormed L := by
  refine (builds_scan _).bind fun directness _ => builds_popEntity.bind fun entity he => ?_
  have hindex : (ofIndex .directness directness.index).WellFormed L := wellFormed_ofIndex rfl _
  exact Builds.pure (wellFormed_node rfl (by simp [hindex, he]))

theorem builds_lazyTable {k : Kind} (hk : k.content = .anything) :
    Builds L (lazyTable k) fun x => x.WellFormed L := by
  refine builds_popConformance.bind fun conformance hc => builds_popType.bind fun type ht => ?_
  exact Builds.pure (wellFormed_node hk (by simp [hc, ht.1]))

theorem builds_witness? {c : Char} {x : Decode Symbol} (h : witness? c = some x) :
    Builds L x fun y => y.WellFormed L := by
  unfold witness? at h
  split at h
  · cases h
    exact builds_wrap rfl builds_popEntity fun _ h => h
  · cases h
    exact builds_wrap rfl builds_popType fun _ h => h.1
  · cases h
    exact builds_fieldOffset
  · cases h
    exact builds_lazyTable rfl
  · cases h
    exact builds_lazyTable rfl
  · cases h
    refine builds_popDeclName.bind fun name hn => builds_popConformance.bind fun conf hc => ?_
    exact Builds.pure (wellFormed_node rfl (by simp [hn, hc]))
  · cases h
    refine builds_popType.bind fun protocol hp => builds_popAssociatedTypePath.bind fun path hpath => ?_
    exact builds_popConformance.bind fun conf hc =>
      Builds.pure (wellFormed_node rfl (by simp [hp.1, hpath, hc]))
  · cases h
    exact builds_outlinedOperation
  · obtain ⟨k, hk, rfl⟩ := Option.map_eq_some_iff.mp h
    exact builds_wrap (conformanceTable?_content hk) builds_popConformance fun _ h => h

theorem builds_witness : Builds L witness fun x => x.WellFormed L :=
  (builds_letter _ witness?).bind fun _ ⟨_, hc⟩ => builds_witness? hc

end Demangle.Decode
