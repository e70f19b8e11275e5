import Demangle.Operator.Generic
import Demangle.Proofs.Operand.Builds

/-!
# Generic parameters, signatures and conformances build well-formed trees

The contracts at work here are those of a member (`wellFormed_memberOf`), of a signature
(`builds_popSignatureWith`) and of a type under a signature (`wellFormed_genericType`).
-/

namespace Demangle.Decode

open Symbol

variable {L : TextLaw}

theorem wellFormed_parameterType (depth index : UInt64) :
    (parameterType depth index).WellFormed L := by
  refine .make rfl (L.carries_free (by decide) _) fun c hc => ?_
  rcases List.mem_cons.mp hc with rfl | hc
  · exact wellFormed_ofIndex rfl _
  · rw [List.mem_singleton.mp hc]
    exact wellFormed_ofIndex rfl _

theorem builds_genericParameter : Builds L genericParameter fun x => x.WellFormed L := by
  refine (builds_scan (Scan.accept 'd')).bind fun _ _ => Builds.ite (fun _ => ?_) fun _ => ?_
  · refine (builds_scan Scan.index).bind fun depth _ => (builds_scan Scan.index).bind fun i _ => ?_
    exact Builds.pure (wellFormed_parameterType _ i)
  · refine (builds_scan (Scan.accept 'z')).bind fun _ _ => Builds.ite (fun _ => ?_) fun _ => ?_
    · exact Builds.pure (wellFormed_parameterType 0 0)
    · exact (builds_scan Scan.index).bind fun i _ => Builds.pure (wellFormed_parameterType 0 _)

/-! ## Protocols -/

theorem builds_popProtocol :
    Builds L popProtocol fun x => x.WellFormed L ∧ x.kind = .type := by
  refine (builds_popKind? .type).bind fun o ho => ?_
  cases o with
  | some type => exact (builds_ensure _).bind fun _ _ => Builds.pure (ho type rfl)
  | none =>
    refine builds_popDeclName.bind fun name hn => builds_popContext.bind fun context hc => ?_
    exact Builds.pure ⟨wellFormed_typed rfl (by simp [hn, hc]), rfl⟩

theorem builds_popProtocolList : Builds L popProtocolList fun x => x.WellFormed L := by
  refine (builds_popList builds_popProtocol).bind fun ps hps => ?_
  have hlist : (node .typeList ps).WellFormed L := wellFormed_node rfl fun p hp => (hps p hp).1
  exact Builds.pure (wellFormed_node rfl (by simp [hlist]))

/-! ## Associated types -/

theorem builds_popAssociatedTypeName : Builds L popAssociatedTypeName fun x =>
    x.WellFormed L ∧ x.kind = .dependentAssociatedTypeRef := by
  refine (builds_popKind? .type).bind fun declaredIn hd => (builds_ensure _).bind fun _ _ => ?_
  refine (builds_popKind .identifier).bind fun name hn => Builds.pure ⟨?_, rfl⟩
  exact hn.1.renamed_free (fun c hc => (hd c (Option.mem_toList.mp hc)).1) rfl (by decide)

theorem wellFormed_memberOf {base name : Symbol} (hb : base.WellFormed L)
    (hn : name.WellFormed L ∧ name.kind = .dependentAssociatedTypeRef) :
    (memberOf base name).WellFormed L := by
  refine .make ?_ (L.carries_none _) fun c hc => ?_
  · show Content.member.admits [.type, name.kind] = true
    rw [hn.2]
    rfl
  · rcases List.mem_cons.mp hc with rfl | hc
    · exact wellFormed_type hb
    · rw [List.mem_singleton.mp hc]
      exact hn.1

theorem builds_memberType {base : Symbol} (hb : base.WellFormed L) :
    Builds L (memberType base) fun x => x.WellFormed L :=
  builds_popAssociatedTypeName.bind fun _ hn =>
    Builds.pure (wellFormed_type (wellFormed_memberOf hb hn))

theorem wellFormed_memberPath {names : List Symbol}
    (hn : ∀ n ∈ names, n.WellFormed L ∧ n.kind = .dependentAssociatedTypeRef) :
    ∀ {base : Symbol}, base.WellFormed L → (names.foldl memberOf base).WellFormed L := by
  induction names with
  | nil =>
    intro base hb
    exact hb
  | cons name names ih =>
    intro base hb
    rw [List.foldl_cons]
    apply ih fun n h => hn n (List.mem_cons_of_mem _ h)
    exact wellFormed_memberOf hb (hn name List.mem_cons_self)

theorem builds_memberPathType {base : Symbol} (hb : base.WellFormed L) :
    Builds L (memberPathType base) fun x => x.WellFormed L :=
  (builds_popElements builds_popAssociatedTypeName).bind fun _ hn =>
    Builds.pure (wellFormed_type (wellFormed_memberPath hn hb))

theorem builds_popAssociatedTypePath : Builds L popAssociatedTypePath fun x => x.WellFormed L :=
  (builds_popElements builds_popDeclName).bind fun _ hn => Builds.pure (wellFormed_node rfl hn)

theorem builds_archetype? {c : Char} {x : Decode Symbol} (h : archetype? c = some x) :
    Builds L x fun y => y.WellFormed L := by
  unfold archetype? at h
  split at h <;> cases h
  · refine (builds_popKind .identifier).bind fun name hn => ?_
    refine builds_popTypeChild.bind fun base hb => Builds.pure (wellFormed_typed rfl ?_)
    simp [hn.1, hb]
  · exact builds_genericParameter.bind fun _ hp => builds_memberType hp
  · exact builds_memberType (wellFormed_parameterType 0 0)
  · exact builds_genericParameter.bind fun _ hp => builds_memberPathType hp
  · exact builds_memberPathType (wellFormed_parameterType 0 0)

theorem builds_archetype : Builds L archetype fun x => x.WellFormed L := by
  refine (builds_letter _ archetype?).bind fun read ⟨c, hc⟩ => ?_
  exact (builds_archetype? hc).bind fun _ hx => builds_remember hx

/-! ## Conformances -/

theorem wellFormed_genericType {signature type : Symbol}
    (hs : signature.WellFormed L ∧ signature.kind = .dependentGenericSignature)
    (ht : type.WellFormed L ∧ type.kind = .type) :
    (typed .dependentGenericType [signature, type]).WellFormed L := by
  refine wellFormed_type (.make ?_ (L.carries_none _) ?_)
  · show Content.genericType.admits [signature.kind, type.kind] = true
    rw [hs.2, ht.2]
    rfl
  · simp [hs.1, ht.1]

/-- A type stays a type under a signature. -/
theorem wellFormed_underSignature {signature : Option Symbol} {type : Symbol}
    (hs : ∀ s, signature = some s → s.WellFormed L ∧ s.kind = .dependentGenericSignature)
    (ht : type.WellFormed L ∧ type.kind = .type) :
    (signature.elim type fun s => typed .dependentGenericType [s, type]).WellFormed L := by
  cases signature with
  | none => exact ht.1
  | some s => exact wellFormed_genericType (hs s rfl) ht

theorem builds_popConformance : Builds L popConformance fun x => x.WellFormed L := by
  refine builds_popSignature?.bind fun signature hs => builds_popModule.bind fun m hm => ?_
  refine builds_popProtocol.bind fun protocol hp => (builds_popKind? .type).bind fun o ho => ?_
  have whole : ∀ (type : Symbol) (behavior : Option Symbol), type.WellFormed L ∧ type.kind = .type →
      (∀ b, behavior = some b → b.WellFormed L) →
      (node .protocolConformance ([signature.elim type fun s =>
        typed .dependentGenericType [s, type], protocol, m] ++ behavior.toList)).WellFormed L := by
    intro type behavior ht hb
    have htype := wellFormed_underSignature hs ht
    refine wellFormed_node rfl ?_
    simpa [htype, hp.1, hm] using hb
  cases o with
  | some type => exact Builds.pure (whole type none (ho type rfl) nofun)
  | none =>
    refine (builds_popKind? .identifier).bind fun behavior hb => builds_popType.bind fun type ht => ?_
    exact Builds.pure (whole type behavior ht fun b h => (hb b h).1)

theorem builds_retroactiveConformance :
    Builds L retroactiveConformance fun x => x.WellFormed L := by
  refine builds_indexNode.bind fun index hi => builds_popConformance.bind fun conformance hc => ?_
  exact Builds.pure (wellFormed_node rfl (by simp [hi, hc]))

/-! ## Signatures -/

theorem builds_parameterCounts (fuel : Nat) : Builds L (parameterCounts fuel) fun _ => True := by
  induction fuel with
  | zero => exact builds_fail _ _
  | succ fuel ih =>
    refine (builds_scan (Scan.accept 'l')).bind fun _ _ => Builds.ite (fun _ => ?_) fun _ => ?_
    · exact Builds.pure trivial
    · refine (builds_scan (Scan.accept 'z')).bind fun _ _ => ?_
      exact Builds.ite_bind (P := fun _ => True) (fun _ => Builds.pure trivial)
        (fun _ => Builds.map ((builds_scan Scan.index).imp fun _ _ => trivial))
        fun _ _ => ih.bind fun _ _ => Builds.pure trivial

theorem builds_popSignatureWith (counts : List UInt64) :
    Builds L (popSignatureWith counts) fun x => x.WellFormed L := by
  refine (builds_popWhile _).bind fun requirements hr => Builds.pure (.make ?_ (L.carries_none _) ?_)
  · show (((counts.map countNode ++ requirements.reverse).map kind).dropWhile
      (· == .dependentGenericParamCount)).all Kind.isRequirement = true
    have hcounts : ∀ k ∈ (counts.map countNode).map kind,
        (k == Kind.dependentGenericParamCount) = true := by
      intro k hk
      obtain ⟨c, hc, rfl⟩ := List.mem_map.mp hk
      obtain ⟨n, -, rfl⟩ := List.mem_map.mp hc
      rfl
    rw [List.map_append, List.dropWhile_append_of_pos hcounts, List.all_eq_true]
    intro k hk
    obtain ⟨r, hr', rfl⟩ := List.mem_map.mp (List.dropWhile_subset _ hk)
    exact (hr r (List.mem_reverse.mp hr')).2
  · intro c hc
    rcases List.mem_append.mp hc with hc | hc
    · obtain ⟨n, -, rfl⟩ := List.mem_map.mp hc
      exact wellFormed_ofIndex rfl n
    · exact (hr c (List.mem_reverse.mp hc)).1

theorem builds_countedSignature : Builds L countedSignature fun x => x.WellFormed L :=
  (builds_scan Scan.remaining).bind fun n _ =>
    (builds_parameterCounts n).bind fun counts _ => builds_popSignatureWith counts

theorem builds_singleSignature : Builds L singleSignature fun x => x.WellFormed L :=
  builds_popSignatureWith [1]

theorem builds_genericType : Builds L genericType fun x => x.WellFormed L :=
  (builds_popKind .dependentGenericSignature).bind fun _ hs => builds_popType.bind fun _ ht =>
    Builds.pure (wellFormed_genericType hs ht)

/-! ## Requirements -/

theorem builds_subject (subject : Subject) : Builds L subject.decode fun x => x.WellFormed L := by
  cases subject with
  | parameter => exact builds_genericParameter.bind fun _ hp => Builds.pure (wellFormed_type hp)
  | member =>
    exact builds_genericParameter.bind fun _ hp => (builds_memberType hp).bind fun _ hm =>
      builds_remember hm
  | memberPath =>
    exact builds_genericParameter.bind fun _ hp => (builds_memberPathType hp).bind fun _ hm =>
      builds_remember hm
  | operand => exact builds_popType.imp fun _ ht => ht.1

theorem builds_indexNodes (n : Nat) :
    Builds L (indexNodes n) fun xs => ∀ x ∈ xs, x.WellFormed L := by
  induction n with
  | zero => exact Builds.pure nofun
  | succ n ih =>
    refine builds_indexNode.bind fun x hx => ih.bind fun xs hxs => Builds.pure ?_
    simpa [hx] using hxs

theorem layoutNumbers?_plain {c : Char} {n : Nat} (h : layoutNumbers? c = some n) : '_' ≠ c := by
  rintro rfl
  cases h

theorem builds_constraint {subject : Symbol} (hs : subject.WellFormed L) (constraint : Constraint) :
    Builds L (constraint.decode subject) fun x => x.WellFormed L := by
  cases constraint with
  | conformance =>
    exact builds_popProtocol.bind fun _ hp => Builds.pure (wellFormed_node rfl (by simp [hs, hp.1]))
  | superclass =>
    exact builds_popType.bind fun _ ht => Builds.pure (wellFormed_node rfl (by simp [hs, ht.1]))
  | sameType =>
    exact builds_popType.bind fun _ ht => Builds.pure (wellFormed_node rfl (by simp [hs, ht.1]))
  | layout =>
    refine (builds_letter _ _).bind fun ⟨letter, n⟩ ⟨c, hc⟩ => ?_
    refine (builds_indexNodes n).bind fun numbers hn => Builds.pure (wellFormed_node rfl ?_)
    obtain ⟨m, hm, heq⟩ := Option.map_eq_some_iff.mp hc
    have hletter : '_' ≠ letter := by
      cases heq
      exact layoutNumbers?_plain hm
    have hname : (ofText .identifier (String.singleton letter)).WellFormed L :=
      wellFormed_identifier (L.name_of_plain _ (by simpa using hletter))
    simpa [hs, hname] using hn

theorem builds_requirement : Builds L requirement fun x => x.WellFormed L := by
  refine (builds_scan Scan.peek?).bind fun _ _ => ?_
  refine Builds.ite (fun _ => (builds_fail _ fun _ => False).bind nofun) fun _ => ?_
  refine (builds_scan (Scan.letter? requirementForm?)).bind fun form _ => ?_
  exact (builds_subject _).bind fun _ hs => builds_constraint hs _

end Demangle.Decode
