import Demangle.Operator.Thunk
import Demangle.Proofs.Operator.Entity

/-!
# Thunks and specializations build well-formed trees

All `T` operators but one build well-formed trees under any law of texts. A specialization of a
signature makes payloads out of names, so it needs a law under which what can be a name can be a
payload (`builds_signatureSpecialization`).
-/

namespace Demangle.Decode

open Symbol

variable {L : TextLaw}

/-! ## Thunks -/

theorem builds_wrapEntity {k : Kind} (hk : k.content = .anything) :
    Builds L (wrapEntity k) fun x => x.WellFormed L :=
  builds_wrap hk builds_popEntity fun _ h => h

theorem builds_reabstractionThunk {k : Kind} (hk : k.content = .anything) :
    Builds L (reabstractionThunk k) fun x => x.WellFormed L := by
  refine builds_popSignature?.bind fun signature hs => ?_
  refine builds_popType.bind fun target ht => builds_popType.bind fun source hsource => ?_
  refine Builds.pure (wellFormed_node hk fun c hc => ?_)
  simp only [List.mem_append, Option.mem_toList, List.mem_cons, List.not_mem_nil, or_false] at hc
  rcases hc with hc | rfl | rfl
  · exact (hs c hc).1
  · exact hsource.1
  · exact ht.1

theorem builds_keyPathAccessor {k : Kind} (hk : k.content = .anything) :
    Builds L (keyPathAccessor k) fun x => x.WellFormed L := by
  refine builds_popType.bind fun last hl => (builds_popWhile _).bind fun types ht => ?_
  refine builds_pop.bind fun top htop => ?_
  have whole : ∀ head : List Symbol, (∀ h ∈ head, h.WellFormed L) →
      (node k (head ++ (last :: types).reverse)).WellFormed L := by
    intro head hh
    refine wellFormed_node hk fun c hc => ?_
    rcases List.mem_append.mp hc with hc | hc
    · exact hh c hc
    · rcases List.mem_cons.mp (List.mem_reverse.mp hc) with rfl | hc
      · exact hl.1
      · exact (ht c hc).1
  refine Builds.ite (fun _ => ?_) fun _ => Builds.pure (whole [top] (by simp [htop]))
  exact builds_pop.bind fun declaration hd =>
    Builds.pure (whole [declaration, top] (by simp [hd, htop]))

theorem builds_keyPathIndexOperation {k : Kind} (hk : k.content = .anything) :
    Builds L (keyPathIndexOperation k) fun x => x.WellFormed L := by
  refine builds_pop.bind fun top htop => (builds_ensure _).bind fun _ _ => ?_
  refine builds_popAll.bind fun rest hr => (builds_ensure _).bind fun _ _ => ?_
  refine Builds.pure (wellFormed_node hk fun c hc => ?_)
  rcases List.mem_append.mp hc with hc | hc
  · exact hr c (List.mem_reverse.mp hc)
  · rw [List.mem_singleton.mp hc]
    exact htop

theorem builds_associatedConformance {k : Kind} (hk : k.content = .anything) :
    Builds L (associatedConformance k) fun x => x.WellFormed L := by
  refine builds_popProtocol.bind fun p hp => builds_popAssociatedTypePath.bind fun path hpath => ?_
  exact builds_popType.bind fun declaredIn hd =>
    Builds.pure (wellFormed_node hk (by simp [hp.1, hpath, hd.1]))

theorem builds_bridgedFlags (fuel : Nat) : Builds L (bridgedFlags fuel) fun _ => True := by
  induction fuel with
  | zero => exact builds_fail _ _
  | succ fuel ih =>
    refine (builds_scan (Scan.accept '_')).bind fun _ _ =>
      Builds.ite (fun _ => Builds.pure trivial) fun _ => ?_
    refine (builds_scan Scan.next).bind fun _ _ => (builds_ensure _).bind fun _ _ => ?_
    exact ih.bind fun _ _ => Builds.pure trivial

theorem builds_bridgedMethod : Builds L bridgedMethod fun x => x.WellFormed L := by
  refine (builds_scan (Scan.accept '_')).bind fun _ _ => ?_
  refine Builds.ite (fun _ => (builds_refuse fun _ => False).bind nofun) fun _ => ?_
  refine (builds_scan Scan.next).bind fun _ _ => (builds_ensure _).bind fun _ _ => ?_
  refine (builds_scan Scan.remaining).bind fun n _ => (builds_bridgedFlags n).bind fun _ _ => ?_
  exact Builds.pure (wellFormed_ofFreeText _ rfl (by decide))

/-! ## Specializations -/

theorem builds_specializationHead :
    Builds L specializationHead fun xs => ∀ x ∈ xs, x.WellFormed L := by
  refine (builds_scan (Scan.accept 'q')).bind fun fragile _ => (builds_scan _).bind fun pass _ => ?_
  have hpass : (ofIndex .specializationPassId (pass - '0'.toUInt8).toUInt64).WellFormed L :=
    wellFormed_ofIndex rfl _
  have hfragile : (leaf .specializationIsFragile).WellFormed L := wellFormed_leaf rfl
  refine Builds.pure ?_
  split
  · simp only [List.mem_cons, List.not_mem_nil, or_false, forall_eq_or_imp, forall_eq]
    exact ⟨hfragile, hpass⟩
  · simp only [List.mem_singleton, forall_eq]
    exact hpass

theorem builds_genericSpecialization {k : Kind} (hk : k.content = .anything) :
    Builds L (genericSpecialization k) fun x => x.WellFormed L := by
  refine builds_specializationHead.bind fun head hh => builds_popTypeList.bind fun types ht => ?_
  refine Builds.pure (wellFormed_node hk fun c hc => ?_)
  rcases List.mem_append.mp hc with hc | hc
  · exact hh c hc
  · obtain ⟨t, h, rfl⟩ := List.mem_map.mp hc
    exact wellFormed_node rfl (by simp [ht.1.child h])

theorem builds_partialSpecialization {k : Kind} (hk : k.content = .anything) :
    Builds L (partialSpecialization k) fun x => x.WellFormed L := by
  refine builds_specializationHead.bind fun head hh => builds_popType.bind fun type ht => ?_
  refine Builds.pure (wellFormed_node hk fun c hc => ?_)
  rcases List.mem_append.mp hc with hc | hc
  · exact hh c hc
  · rw [List.mem_singleton.mp hc]
    exact wellFormed_node rfl (by simp [ht.1])

/-! ## Specializations of a signature -/

theorem wellFormed_changeNode (n : UInt64) : (changeNode n).WellFormed L :=
  wellFormed_ofIndex rfl n

theorem wellFormed_payloadNode {t : String} (ht : L.payload t) : (payloadNode t).WellFormed L := by
  refine wellFormed_ofText rfl ⟨fun h => ?_, fun _ => ht⟩
  rcases h with h | h <;> cases h

theorem isDigit_ne_mark {c : Char} (h : c.isDigit = true) : c ≠ '_' := by
  rintro rfl
  cases h

/-- The text of a run of digits holds nothing but digits. -/
theorem builds_digits :
    Builds L (liftM (Scan.takeWhile fun b => (Char.ofUInt8 b).isDigit) : Decode String)
      fun t => '_' ∉ t.toList := by
  refine builds_scan_of fun c t d hc h => ?_
  cases h
  split
  · rw [Cell.toList_text]
    intro hmem
    obtain ⟨x, hx, hb⟩ := List.mem_filterMap.mp hmem
    have hdigit : x.isDigit = true := List.mem_takeWhile_imp (p := Cell.isDigit) hx
    rw [hc x (List.takeWhile_subset _ hx) (Cell.low_of_isDigit hdigit)] at hb
    exact isDigit_ne_mark hdigit (Option.some.inj hb)
  · exact List.not_mem_nil

theorem builds_numberLiteral : Builds L numberLiteral fun t => '_' ∉ t.toList := by
  refine (builds_scan (Scan.accept 'n')).bind fun negative _ => builds_digits.bind fun digits hd => ?_
  refine (builds_ensure _).bind fun _ _ => Builds.pure ?_
  cases negative <;> simp [hd]

theorem stringEncoding?_plain {c : Char} {t : String} (h : stringEncoding? c = some t) :
    '_' ∉ t.toList := by
  unfold stringEncoding? at h
  split at h <;> cases h <;> decide

/-- The nodes of a record: a change, perhaps with what it carries. -/
def IsRecord (L : TextLaw) (ys : List Symbol) : Prop :=
  (∀ y ∈ ys, y.WellFormed L) ∧ Content.record.admits (ys.map kind)

theorem isRecord_change (n : UInt64) : IsRecord L [changeNode n] :=
  ⟨by simp [wellFormed_changeNode], rfl⟩

theorem isRecord_payload (n : UInt64) {t : String} (ht : L.payload t) :
    IsRecord L [changeNode n, payloadNode t] :=
  ⟨by simp [wellFormed_changeNode, wellFormed_payloadNode ht], rfl⟩

/-- A record that is not empty can take more, a payload first. -/
theorem IsRecord.append {y z : Symbol} {ys zs : List Symbol} (hy : IsRecord L (y :: ys))
    (hz : ∀ x ∈ z :: zs, x.WellFormed L)
    (hk : z.kind = .functionSignatureSpecializationParamPayload) :
    IsRecord L (y :: ys ++ z :: zs) := by
  refine ⟨fun x hx => ?_, ?_⟩
  · rcases List.mem_append.mp hx with hx | hx
    · exact hy.1 x hx
    · exact hz x hx
  · have hadmits := hy.2
    cases ys with
    | nil => simpa [Content.admits, hk] using hadmits
    | cons y' ys => simpa [Content.admits] using hadmits

section Signature

/-! What can be a name can be a payload, also as the text of a string. -/

variable (hname : ∀ t, L.name t → L.payload t ∧ L.payload (unprotect t))

include hname

theorem payload_of_plain {t : String} (ht : '_' ∉ t.toList) : L.payload t :=
  (hname t (L.name_of_plain t ht)).1

theorem builds_constantRecord? {c : Char} {x : Decode (List Symbol)}
    (h : constantRecord? c = some x) : Builds L x (IsRecord L) := by
  have number : ∀ change : ParamChange, Builds L
      (do return [changeNode change.value, payloadNode (← numberLiteral)]) (IsRecord L) :=
    fun change => builds_numberLiteral.bind fun t ht =>
      Builds.pure (isRecord_payload _ (payload_of_plain hname ht))
  unfold constantRecord? at h
  split at h <;> cases h
  · exact Builds.pure (isRecord_change _)
  · exact Builds.pure (isRecord_change _)
  · exact number .constantInteger
  · exact number .constantFloat
  · refine (builds_letter _ stringEncoding?).bind fun t ⟨c, hc⟩ => Builds.pure ?_
    exact isRecord_payload _ (payload_of_plain hname (stringEncoding?_plain hc))

omit hname in
theorem builds_readFlags (flags : List (Char × ParamChange)) :
    ∀ value, Builds L (readFlags value flags) fun _ => True := by
  induction flags with
  | nil => exact fun _ => Builds.pure trivial
  | cons flag flags ih =>
    intro value
    exact (builds_scan (Scan.accept flag.1)).bind fun _ _ => ih _

omit hname in
theorem builds_flagRecord (flag : ParamChange) : Builds L (flagRecord flag) (IsRecord L) :=
  (builds_readFlags _ _).bind fun _ _ => Builds.pure (isRecord_change _)

theorem builds_changeRecord? {c : Char} {x : Decode (List Symbol)}
    (h : changeRecord? c = some x) : Builds L x (IsRecord L) := by
  unfold changeRecord? at h
  split at h <;> cases h
  · exact Builds.pure ⟨nofun, rfl⟩
  · exact Builds.pure (isRecord_change _)
  · exact (builds_letter _ constantRecord?).bind fun _ ⟨_, hc⟩ => builds_constantRecord? hname hc
  · exact builds_flagRecord _
  · exact builds_flagRecord _
  · exact builds_flagRecord _
  · exact builds_flagRecord _
  · exact Builds.pure (isRecord_change _)
  · exact Builds.pure (isRecord_change _)
  · exact Builds.pure (isRecord_change _)

theorem builds_changeRecord : Builds L changeRecord (IsRecord L) :=
  (builds_letter _ changeRecord?).bind fun _ ⟨_, hc⟩ => builds_changeRecord? hname hc

theorem builds_paramRecords (fuel : Nat) :
    ∀ i, Builds L (paramRecords fuel i) fun ys => ∀ y ∈ ys, y.WellFormed L := by
  induction fuel with
  | zero => exact fun _ => builds_fail _ _
  | succ fuel ih =>
    intro i
    refine (builds_scan (Scan.accept '_')).bind fun _ _ =>
      Builds.ite (fun _ => Builds.pure nofun) fun _ => ?_
    refine (builds_changeRecord hname).bind fun cs hcs => (ih (i + 1)).bind fun ys hys => ?_
    refine Builds.pure fun y hy => ?_
    rcases List.mem_cons.mp hy with rfl | hy
    · exact .make hcs.2 (L.carries_index _ i) hcs.1
    · exact hys y hy

theorem builds_returnRecord : Builds L returnRecord fun ys => ∀ y ∈ ys, y.WellFormed L := by
  refine (builds_scan (Scan.accept 'n')).bind fun _ _ =>
    Builds.ite (fun _ => Builds.pure nofun) fun _ => ?_
  refine (builds_changeRecord hname).bind fun cs hcs => Builds.pure ?_
  simpa using wellFormed_node rfl hcs.1

theorem builds_popPayload (change : ParamChange) :
    Builds L (popPayload change) fun ys => ∃ t types, ys = payloadNode t :: types ∧
      ∀ y ∈ ys, y.WellFormed L := by
  refine (builds_popWhile _).bind fun types ht => (builds_ensure _).bind fun _ _ => ?_
  refine (builds_popKind .identifier).bind fun name hn => Builds.pure ⟨_, _, rfl, fun y hy => ?_⟩
  have htext := hname _ (name_textD hn.1 (.inl hn.2))
  rcases List.mem_cons.mp hy with rfl | hy
  · split
    · exact wellFormed_payloadNode htext.2
    · exact wellFormed_payloadNode htext.1
  · exact (ht y (List.mem_reverse.mp hy)).1

theorem builds_attach {record : Symbol} (hr : record.WellFormed L) :
    Builds L (attach record) fun y => y.WellFormed L := by
  refine Builds.ite (fun _ => Builds.pure hr) fun hk => ?_
  have hkind : record.kind = .functionSignatureSpecializationParam := by simpa using hk
  split
  · exact Builds.pure hr
  · next kindNode hfirst =>
    refine (builds_ensure _).bind fun _ _ => ?_
    split
    · exact Builds.pure hr
    · refine (builds_popPayload hname _).bind fun ys hys => Builds.pure ?_
      obtain ⟨t, types, rfl, hys⟩ := hys
      obtain ⟨cs, hcs⟩ : ∃ cs, record.children = kindNode :: cs := List.head?_eq_some_iff.mp hfirst
      have hrecord : IsRecord L (kindNode :: cs) := by
        rw [← hcs]
        refine ⟨fun c hc => hr.child hc, ?_⟩
        have hadmits := hr.admits
        rwa [hkind] at hadmits
      have hall := hrecord.append hys rfl
      rw [← hcs] at hall
      refine .make ?_ hr.carries hall.1
      rw [hkind]
      exact hall.2

theorem builds_attachAll (records : List Symbol) : (∀ r ∈ records, r.WellFormed L) →
    ∀ acc : List Symbol, (∀ y ∈ acc, y.WellFormed L) →
      Builds L (attachAll records acc) fun ys => ∀ y ∈ ys, y.WellFormed L := by
  induction records with
  | nil => exact fun _ acc hacc => Builds.pure hacc
  | cons r rs ih =>
    intro hrs acc hacc
    refine (builds_attach hname (hrs r List.mem_cons_self)).bind fun y hy => ?_
    refine ih (fun r hr => hrs r (List.mem_cons_of_mem _ hr)) (y :: acc) fun z hz => ?_
    rcases List.mem_cons.mp hz with rfl | hz
    · exact hy
    · exact hacc z hz

theorem builds_signatureSpecialization :
    Builds L signatureSpecialization fun x => x.WellFormed L := by
  refine builds_specializationHead.bind fun head hh => ?_
  refine (builds_scan Scan.integer?).bind fun unique _ => ?_
  refine (builds_scan Scan.remaining).bind fun n _ => ?_
  refine (builds_paramRecords hname n 0).bind fun params hp => ?_
  refine (builds_returnRecord hname).bind fun result hr => ?_
  have hrecords : ∀ r ∈ (params ++ result).reverse, r.WellFormed L := by
    intro r h
    rcases List.mem_append.mp (List.mem_reverse.mp h) with h | h
    · exact hp r h
    · exact hr r h
  refine (builds_attachAll hname _ hrecords [] nofun).bind fun records hrs => ?_
  refine Builds.pure (.make rfl ?_ fun c hc => ?_)
  · exact L.carries_free (by decide) _
  · rcases List.mem_append.mp hc with hc | hc
    · exact hh c hc
    · exact hrs c hc

end Signature

/-! ## All thunks -/

/-- All operators after `T` but `f` build well-formed trees under any law. -/
theorem builds_thunk? {c : Char} {x : Decode Symbol} (h : thunk? c = some x) (hc : c ≠ 'f') :
    Builds L x fun y => y.WellFormed L := by
  unfold thunk? at h
  split at h <;> cases h
  · exact builds_wrapEntity rfl
  · exact builds_wrapEntity rfl
  · exact builds_wrapEntity rfl
  iterate 7 exact Builds.pure (wellFormed_leaf rfl)
  · exact builds_wrap rfl builds_popType fun _ h => h.1
  · refine builds_popEntity.bind fun base hb => builds_popEntity.bind fun derived hd => ?_
    exact Builds.pure (wellFormed_node rfl (by simp [hb, hd]))
  · refine builds_popEntity.bind fun entity he => builds_popConformance.bind fun conformance hc => ?_
    exact Builds.pure (wellFormed_node rfl (by simp [he, hc]))
  · exact builds_reabstractionThunk rfl
  · exact builds_reabstractionThunk rfl
  · exact builds_genericSpecialization rfl
  · exact builds_genericSpecialization rfl
  · exact builds_partialSpecialization rfl
  · exact builds_partialSpecialization rfl
  · exact absurd rfl hc
  · exact builds_keyPathAccessor rfl
  · exact builds_keyPathAccessor rfl
  · exact builds_keyPathIndexOperation rfl
  · exact builds_keyPathIndexOperation rfl
  · exact builds_wrap rfl builds_popAssociatedTypeName fun _ h => h.1
  · exact builds_wrap rfl builds_popProtocol fun _ h => h.1
  · exact builds_wrap rfl builds_popAssociatedTypeName fun _ h => h.1
  · exact builds_associatedConformance rfl
  · exact builds_associatedConformance rfl
  · exact (builds_scan Scan.index).bind fun n _ => Builds.pure (wellFormed_ofIndex rfl n)
  · exact builds_bridgedMethod

end Demangle.Decode
