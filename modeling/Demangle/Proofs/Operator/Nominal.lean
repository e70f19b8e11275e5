import Demangle.Operator.Nominal
import Demangle.Proofs.Operand.Builds

/-!
# Nominal types and back-references build well-formed trees

Binding generic arguments rebuilds finished nodes: the first child of a node on the way to the
outermost context is replaced by its bound form. A bound form has the kind of the node it stands for,
unless that is a kind that can take arguments (`BoundAs`), and no contract asks for such a kind in
front (`admits_boundAs`). So a rebuilt node keeps its contract (`builds_bindArguments`).
-/

namespace Demangle.Decode

open Symbol

variable {L : TextLaw}

/-! ## Back-references -/

theorem builds_pushRepeated (count : Option UInt64) {x : Symbol} (hx : x.WellFormed L) :
    Builds L (pushRepeated count x) fun y => y.WellFormed L :=
  (builds_ensure _).bind fun _ _ => (builds_pushCopies _ hx).bind fun _ _ => Builds.pure hx

theorem builds_references (fuel : Nat) :
    ∀ count, Builds L (references fuel count) fun x => x.WellFormed L := by
  induction fuel with
  | zero =>
    intro count
    exact builds_fail _ _
  | succ fuel ih =>
    intro count
    refine (builds_scan Scan.peek?).bind fun c _ => ?_
    split
    · refine (builds_scan Scan.next).bind fun _ _ => ?_
      refine (builds_substitution _).bind fun x hx => ?_
      refine (builds_pushRepeated count hx).bind fun y hy => ?_
      refine Builds.ite (fun _ => Builds.pure hy) fun _ => ?_
      exact (builds_push hy).bind fun _ _ => ih none
    · refine (builds_scan Scan.next).bind fun _ _ => ?_
      cases count with
      | none => exact builds_substitution _
      | some n => exact (builds_ensure _).bind fun _ _ => builds_substitution _
    · refine (builds_scan Scan.integer?).bind fun n _ => ?_
      exact (builds_ensure _).bind fun _ _ => ih n
    · exact (builds_scan Scan.next).bind fun _ _ => builds_refuse _

theorem builds_backReference : Builds L backReference fun x => x.WellFormed L :=
  (builds_scan Scan.remaining).bind fun n _ => builds_references n none

theorem builds_symbolicReference : Builds L symbolicReference fun x => x.WellFormed L := by
  refine (builds_scan Scan.next).bind fun _ _ => (builds_scan Scan.next).bind fun _ _ => ?_
  refine (builds_scan Scan.next).bind fun _ _ => (builds_scan Scan.next).bind fun _ _ => ?_
  exact builds_remember (wellFormed_ofIndex rfl _)

/-! ## Types of the standard library and of the compiler -/

/-- The types of the standard library are nominal, and their names are free of `_`. -/
theorem standardType?_plain {c : Char} {k : Kind} {name : String}
    (h : standardType? c = some (k, name)) : k.content = .anything ∧ '_' ∉ name.toList := by
  unfold standardType? at h
  split at h <;> cases h <;> exact ⟨rfl, by simp⟩

theorem builds_optionalType : Builds L optionalType fun x => x.WellFormed L := by
  refine builds_popType.bind fun t ht => builds_remember (wellFormed_type ?_)
  have hlist : (node .typeList [t]).WellFormed L := by
    refine wellFormed_node rfl fun c hc => ?_
    rw [List.mem_singleton.mp hc]
    exact ht.1
  have hoptional : (standardType .enumType "Optional").WellFormed L :=
    wellFormed_standardType rfl (by decide)
  refine .make rfl (L.carries_none _) fun c hc => ?_
  rcases List.mem_cons.mp hc with rfl | hc
  · exact hoptional
  · rw [List.mem_singleton.mp hc]
    exact hlist

theorem builds_standardOperator {c : Char} {x : Decode Symbol} (h : standardOperator? c = some x) :
    Builds L x fun y => y.WellFormed L := by
  unfold standardOperator? at h
  split at h <;> cases h
  · exact Builds.pure (wellFormed_ofFreeText _ rfl (by decide))
  · exact Builds.pure (wellFormed_ofFreeText _ rfl (by decide))
  · exact builds_optionalType

theorem builds_standardSubstitution : Builds L standardSubstitution fun x => x.WellFormed L := by
  refine (builds_scan Scan.peek?).bind fun c _ => ?_
  refine Builds.ite (fun _ => (builds_fail _ fun _ => False).bind nofun) fun _ => ?_
  refine (builds_letter? standardOperator?).bind fun o ho => ?_
  cases o with
  | some x =>
    obtain ⟨c, hc⟩ := ho x rfl
    exact builds_standardOperator hc
  | none =>
    refine (builds_scan Scan.integer?).bind fun n _ => (builds_ensure _).bind fun _ _ => ?_
    refine (builds_letter _ standardType?).bind fun ⟨k, name⟩ ⟨c, hc⟩ => ?_
    obtain ⟨hk, hname⟩ := standardType?_plain hc
    have hx : (standardType k name).WellFormed L := wellFormed_standardType hk hname
    exact (builds_pushCopies _ hx).bind fun _ _ => Builds.pure hx

theorem builds_builtinSize : Builds L builtinSize fun _ => True :=
  (builds_scan Scan.index).bind fun _ _ => (builds_ensure _).bind fun _ _ => Builds.pure trivial

theorem builds_builtinName {c : Char} {x : Decode String} (h : builtinName? c = some x) :
    Builds L x fun _ => True := by
  unfold builtinName? at h
  split at h <;> cases h
  · exact Builds.pure trivial
  · exact Builds.pure trivial
  · exact builds_builtinSize.bind fun _ _ => Builds.pure trivial
  · exact builds_builtinSize.bind fun _ _ => Builds.pure trivial
  · refine builds_builtinSize.bind fun _ _ => builds_popTypeChild.bind fun _ _ => ?_
    exact (builds_require fun _ _ => trivial).bind fun _ _ => Builds.pure trivial
  all_goals exact Builds.pure trivial

theorem builds_builtinType : Builds L builtinType fun x => x.WellFormed L := by
  refine (builds_letter _ builtinName?).bind fun name ⟨c, hc⟩ => ?_
  refine (builds_builtinName hc).bind fun t _ => Builds.pure (wellFormed_type ?_)
  exact wellFormed_ofFreeText _ rfl (by decide)

/-! ## Named types -/

theorem builds_nominalType {k : Kind} (hk : k.content = .anything) :
    Builds L (nominalType k) fun x => x.WellFormed L := by
  refine builds_popDeclName.bind fun name hname => builds_popContext.bind fun context hc => ?_
  exact builds_remember (wellFormed_typed hk (by simp [hname, hc]))

/-! ## Generic arguments -/

/-- Kinds that have another kind once they are bound to arguments. -/
def takesArguments (k : Kind) : Bool :=
  isReference k || k == .function || k == .constructor || (boundKind? k).isSome

/-- Contracts that allow for more children behind those they ask for. -/
def isOpen (content : Content) : Bool :=
  content == .anything || content == .boundType

/-- A node of the first kind becomes one of the second by being bound to arguments. -/
def BoundAs (k k' : Kind) : Prop :=
  k' = k ∨ takesArguments k = true ∧ isOpen k'.content = true

theorem takesArguments_requirement {k : Kind} (h : k.isRequirement = true) :
    takesArguments k = false := by
  unfold Kind.isRequirement at h
  split at h
  · rfl
  · rfl
  · rfl
  · cases h

/-- **No contract asks for a kind that takes arguments in front of the children**, so the first child
can be replaced by its bound form. -/
theorem admits_boundAs {content : Content} {k k' : Kind} {ks : List Kind}
    (h : content.admits (k :: ks) = true) (hk : BoundAs k k') :
    content.admits (k' :: ks) = true := by
  rcases hk with rfl | ⟨hk, -⟩
  · exact h
  have front : ∀ k₀, k = k₀ → takesArguments k₀ = false → content.admits (k' :: ks) = true := by
    intro k₀ h₁ h₂
    rw [h₁, h₂] at hk
    cases hk
  cases content with
  | anything => rfl
  | single => simpa [Content.admits] using h
  | function =>
    simp only [Content.admits, Bool.or_eq_true, beq_iff_eq, List.cons.injEq] at h
    rcases h with h | h
    · exact front _ h.1 rfl
    · exact front _ h.1 rfl
  | oneType =>
    simp only [Content.admits, beq_iff_eq, List.cons.injEq] at h
    exact front _ h.1 rfl
  | elements =>
    simp only [Content.admits, List.all_cons, Bool.and_eq_true, beq_iff_eq] at h
    exact front _ h.1 rfl
  | element =>
    simp only [Content.admits, Bool.or_eq_true, beq_iff_eq, List.cons.injEq] at h
    rcases h with ((h | h) | h) | h
    all_goals exact front _ h.1 rfl
  | signature =>
    by_cases hc : k = .dependentGenericParamCount
    · exact front _ hc rfl
    · have hb : (k == Kind.dependentGenericParamCount) = false := by simpa using hc
      simp only [Content.admits, List.dropWhile_cons, hb, Bool.false_eq_true, if_false,
        List.all_cons, Bool.and_eq_true] at h
      exact front k rfl (takesArguments_requirement h.1)
  | genericType =>
    simp only [Content.admits, beq_iff_eq, List.cons.injEq] at h
    exact front _ h.1 rfl
  | boundType =>
    simp only [Content.admits, List.isPrefixOf, Bool.and_eq_true, beq_iff_eq] at h
    exact front _ h.1.symm rfl
  | member =>
    simp only [Content.admits, beq_iff_eq, List.cons.injEq] at h
    exact front _ h.1 rfl
  | record =>
    simp only [Content.admits, List.take_succ_cons, List.isPrefixOf, Bool.and_eq_true,
      beq_iff_eq] at h
    exact front _ h.1 rfl

/-- A node without payload whose first child is replaced by its bound form. -/
theorem wellFormed_rebuilt {k : Kind} {c c' : Symbol} {cs : List Symbol}
    (h : k.content.admits ((c :: cs).map kind)) (hcs : ∀ d ∈ cs, d.WellFormed L)
    (hc : c'.WellFormed L) (hk : BoundAs c.kind c'.kind) : (node k (c' :: cs)).WellFormed L := by
  refine .make (admits_boundAs h hk) (L.carries_none _) fun d hd => ?_
  rcases List.mem_cons.mp hd with rfl | hd
  · exact hc
  · exact hcs d hd

theorem boundKind?_content {k k' : Kind} (h : boundKind? k = some k') :
    k'.content = .boundType ∧ takesArguments k = true := by
  unfold boundKind? at h
  split at h <;> cases h <;> exact ⟨rfl, rfl⟩

/-- A list of types that are the arguments of one generic level. -/
def IsArgumentList (L : TextLaw) (x : Symbol) : Prop :=
  x.WellFormed L ∧ x.kind = .typeList

theorem wellFormed_bound {k : Kind} {nominal args : Symbol} (hk : k.content = .boundType)
    (hn : nominal.WellFormed L) (ha : IsArgumentList L args) :
    (node k [node .type [nominal], args]).WellFormed L := by
  refine .make ?_ (L.carries_none _) fun c hc => ?_
  · rw [hk, List.map_cons, List.map_cons, ha.2]
    rfl
  · rcases List.mem_cons.mp hc with rfl | hc
    · exact wellFormed_type hn
    · rw [List.mem_singleton.mp hc]
      exact ha.1

theorem builds_wrapBound {nominal args : Symbol} (hn : nominal.WellFormed L)
    (ha : IsArgumentList L args) :
    Builds L (wrapBound nominal args) fun x => x.WellFormed L ∧ BoundAs nominal.kind x.kind := by
  unfold wrapBound
  refine Builds.ite (fun _ => Builds.pure ⟨hn, .inl rfl⟩) fun _ => Builds.ite (fun h => ?_) fun _ => ?_
  · have hk : takesArguments nominal.kind = true := by
      simp only [takesArguments, Bool.or_eq_true]
      exact .inl (by simpa [or_assoc] using Or.inr (by simpa using h))
    refine Builds.pure ⟨wellFormed_node rfl ?_, .inr ⟨hk, rfl⟩⟩
    simp [hn, ha.1]
  · split
    · next k hk =>
      obtain ⟨hb, ht⟩ := boundKind?_content hk
      have ho : isOpen k.content = true := by rw [hb]; rfl
      exact Builds.pure ⟨wellFormed_bound hb hn ha, .inr ⟨ht, ho⟩⟩
    · exact builds_fail _ _

theorem wellFormed_bindReference {x : Symbol} {lists : List Symbol} (hx : x.WellFormed L)
    (hl : ∀ l ∈ lists, IsArgumentList L l) : (bindReference x lists).WellFormed L := by
  refine wellFormed_bound rfl hx ⟨wellFormed_node rfl fun c hc => ?_, rfl⟩
  obtain ⟨l, hl', hc⟩ := List.mem_flatMap.mp hc
  exact (hl l (List.mem_reverse.mp hl')).1.child hc

/-- What binding has to do for the nodes below a node, in order to do it for the node itself. -/
def BindsWell (L : TextLaw) (x : Symbol) : Prop :=
  ∀ lists, x.WellFormed L → (∀ l ∈ lists, IsArgumentList L l) →
    Builds L (bindArguments x lists) fun y => y.WellFormed L ∧ BoundAs x.kind y.kind

/-- The context of a node is bound as a whole, or inside if it is an extension. -/
theorem bindsWell_of_below {x : Symbol}
    (below : ∀ c ∈ x.children, ∀ n ∈ c.nodes, BindsWell L n) : BindsWell L x := by
  intro lists hx hl
  obtain ⟨k, p, cs, d⟩ := x
  have href : isReference k = true → BoundAs k .boundGenericOtherNominalType := fun h =>
    .inr ⟨by simp [takesArguments, h], rfl⟩
  cases cs with
  | nil =>
    rw [bindArguments]
    exact Builds.ite (fun h => Builds.pure ⟨wellFormed_bindReference hx hl, href h⟩)
      fun _ => builds_refuse _
  | cons context others =>
    have hcontext : context.WellFormed L := hx.child List.mem_cons_self
    have hothers : ∀ c ∈ others, c.WellFormed L := fun c hc =>
      hx.child (List.mem_cons_of_mem _ hc)
    unfold bindArguments
    refine Builds.ite (fun h => Builds.pure ⟨wellFormed_bindReference hx hl, href h⟩) fun _ => ?_
    cases lists with
    | nil => exact builds_refuse _
    | cons args outer =>
      -- the rebuilt node takes its own list last
      have finish : ∀ n : Symbol, n.WellFormed L → n.kind = k →
          Builds L (if hasNoGenericLevel k = true then pure n else wrapBound n args)
            fun y => y.WellFormed L ∧ BoundAs k y.kind := by
        intro n hn hk
        refine Builds.ite (fun _ => Builds.pure ⟨hn, .inl hk⟩) fun _ => ?_
        exact hk ▸ builds_wrapBound hn (hl args List.mem_cons_self)
      have rebuild : ∀ c : Symbol, c.WellFormed L → BoundAs context.kind c.kind →
          (node k (c :: others)).WellFormed L := fun c hc hb =>
        wellFormed_rebuilt hx.admits hothers hc hb
      have hlists : ∀ l ∈ (if hasNoGenericLevel k = true then args :: outer else outer),
          IsArgumentList L l := by
        intro l h
        split at h
        · exact hl l h
        · exact hl l (List.mem_cons_of_mem _ h)
      dsimp only
      generalize (if hasNoGenericLevel k = true then args :: outer else outer) = rest at hlists ⊢
      refine Builds.ite (fun _ => finish _ hx rfl) fun _ => ?_
      split
      · next payload declaredIn extended signature depth =>
        have hwell : BindsWell L extended :=
          below _ List.mem_cons_self extended
            (mem_nodes_of_child (by simp) (self_mem_nodes extended))
        refine (hwell rest (hcontext.child (by simp)) hlists).bind fun e he => ?_
        refine finish _ (rebuild _ (wellFormed_node rfl fun c hc => ?_) (.inl rfl)) rfl
        have hc' : c = declaredIn ∨ c = e ∨ c ∈ signature.take 1 := by simpa using hc
        rcases hc' with rfl | rfl | hc
        · exact hcontext.child (by simp)
        · exact he.1
        · exact hcontext.child (by simp [List.mem_of_mem_take hc])
      · exact (builds_refuse fun _ => False).bind nofun
      · have hwell : BindsWell L context :=
          below context List.mem_cons_self context (self_mem_nodes context)
        refine (hwell rest hcontext hlists).bind fun c hc => ?_
        exact finish _ (rebuild c hc.1 hc.2) rfl

theorem builds_bindArguments {x : Symbol} {lists : List Symbol} (hx : x.WellFormed L)
    (hl : ∀ l ∈ lists, IsArgumentList L l) :
    Builds L (bindArguments x lists) fun y => y.WellFormed L ∧ BoundAs x.kind y.kind := by
  have all : ∀ n ∈ x.nodes, BindsWell L n := by
    -- an extension is entered two levels down, so the hypothesis covers all nodes below
    induction x using treeInduction with
    | step x ih =>
      have below : ∀ c ∈ x.children, ∀ n ∈ c.nodes, BindsWell L n := fun c hc =>
        ih c hc (hx.child hc)
      intro n hn
      rcases mem_nodes.mp hn with rfl | ⟨c, hc, hn⟩
      · exact bindsWell_of_below below
      · exact below c hc n hn
  exact all x (self_mem_nodes x) lists hx hl

theorem builds_popArgumentLists (fuel : Nat) :
    Builds L (popArgumentLists fuel) fun ls => ∀ l ∈ ls, IsArgumentList L l := by
  induction fuel with
  | zero => exact builds_refuse _
  | succ fuel ih =>
    refine (builds_popWhile _).bind fun types ht => ?_
    have hlist : IsArgumentList L (node .typeList types.reverse) :=
      ⟨wellFormed_node rfl fun c hc => (ht c (List.mem_reverse.mp hc)).1, rfl⟩
    refine (builds_popKind? .emptyList).bind fun _ _ => Builds.ite (fun _ => ?_) fun _ => ?_
    · exact Builds.pure (by simpa using hlist)
    · refine (builds_popKind .firstElementMarker).bind fun _ _ => ih.bind fun ls hls => ?_
      exact Builds.pure (by simpa using ⟨hlist, hls⟩)

theorem content_of_isAnyGeneric {k : Kind} (h : k.isAnyGeneric = true) : k.content = .anything := by
  unfold Kind.isAnyGeneric at h
  split at h
  all_goals first | rfl | cases h

theorem admits_push {content : Content} (ho : isOpen content = true) {ks : List Kind} (k : Kind)
    (h : content.admits ks = true) : content.admits (ks ++ [k]) = true := by
  simp only [isOpen, Bool.or_eq_true, beq_iff_eq] at ho
  rcases ho with rfl | rfl
  · rfl
  · simp only [Content.admits, List.isPrefixOf_iff_prefix] at h ⊢
    exact h.trans (List.prefix_append ks [k])

theorem builds_boundGenericType : Builds L boundGenericType fun x => x.WellFormed L := by
  refine (builds_popWhile _).bind fun retroactive hr => builds_get.bind fun s _ => ?_
  refine (builds_popArgumentLists _).bind fun lists hl => ?_
  refine builds_popAnyGeneric.bind fun nominal hn => ?_
  refine (builds_bindArguments hn.1 hl).bind fun bound hb => ?_
  refine builds_remember (wellFormed_type ?_)
  split
  · exact hb.1
  · refine hb.1.push (wellFormed_node rfl fun c hc => (hr c (List.mem_reverse.mp hc)).1) ?_
    refine admits_push ?_ _ hb.1.admits
    rcases hb.2 with hk | ⟨-, ho⟩
    · rw [hk, content_of_isAnyGeneric hn.2]
      rfl
    · exact ho

end Demangle.Decode
