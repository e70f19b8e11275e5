import Demangle.Operator.Nominal
import Demangle.Proofs.Operator.Pops
import Demangle.Proofs.Symbol.Arity

/-!
# Bound generics keep their arguments

The arguments of a generic type come as one list for each generic level, and `bindArguments` hangs each
list on a wrapper around the node of its level: the node, its context, the context of that and so on,
which is the spine of the node (`Symbol.spine`). `Symbol.unbind` goes along the spine in the other
direction, takes the wrappers off and collects what they held. The two are inverse to each other:

    bindArguments x lists s = .ok b s'  →  b.unbind = (x, lists.reverse.flatMap children)

So no argument is lost, doubled or moved to another place. The lists come from the stack, where the types
among the popped operands are the arguments (`popArgumentLists_eq_ok`).

Other facts about the nodes along a spine follow from what one step of binding keeps (`KeptByBinding`).
-/

namespace Demangle

/-- Nodes of this kind hold another node and its generic arguments. -/
def Kind.isBound (k : Kind) : Bool :=
  k == .boundGenericFunction || k.content == .boundType

namespace Symbol

/-! ## The spine of a node -/

/-- The node, its context, the context of that and so on. A context that is an extension is followed by
the type that it extends. -/
def spine : Symbol → List Symbol
  | ⟨k, p, [], d⟩ => [⟨k, p, [], d⟩]
  | ⟨k, p, context :: others, d⟩ =>
    ⟨k, p, context :: others, d⟩ ::
      match context with
      | ⟨.extension, p', declaredIn :: extended :: signature, d'⟩ =>
        ⟨.extension, p', declaredIn :: extended :: signature, d'⟩ :: extended.spine
      | context => context.spine

/-- Takes the generic arguments off the nodes along the spine: the node without them, and the arguments,
those of the outermost node first. -/
def unbind : Symbol → Symbol × List Symbol
  | ⟨k, p, [], d⟩ => (⟨k, p, [], d⟩, [])
  | ⟨k, p, context :: others, _⟩ =>
    let arguments := others.head?.elim [] children
    if k == .boundGenericFunction then (context.unbind.1, context.unbind.2 ++ arguments)
    else match context with
      | ⟨.extension, p', declaredIn :: extended :: signature, _⟩ =>
        (make k p (make .extension p' (declaredIn :: extended.unbind.1 :: signature) :: others),
          extended.unbind.2)
      | ⟨.type, p', [nominal], d'⟩ =>
        if k.content == .boundType then (nominal.unbind.1, nominal.unbind.2 ++ arguments)
        else
          let type := unbind ⟨.type, p', [nominal], d'⟩
          (make k p (type.1 :: others), type.2)
      | context => (make k p (context.unbind.1 :: others), context.unbind.2)

/-- A node of a spine that has no generic arguments yet and that can be rebuilt from its kind and
children. -/
structure Plain (n : Symbol) : Prop where
  unbound : n.kind.isBound = false
  payload : n.children ≠ [] → n.payload = .none
  extension : n.kind = .extension → n.children.length = 2 ∨ n.children.length = 3

instance (n : Symbol) : Decidable n.Plain :=
  decidable_of_iff (n.kind.isBound = false ∧ (n.children.isEmpty = false → n.payload = .none) ∧
      (n.kind = .extension → n.children.length = 2 ∨ n.children.length = 3))
    ⟨fun ⟨h₁, h₂, h₃⟩ => ⟨h₁, fun h => h₂ (List.isEmpty_eq_false_iff.mpr h), h₃⟩,
      fun ⟨h₁, h₂, h₃⟩ => ⟨h₁, fun h => h₂ (List.isEmpty_eq_false_iff.mp h), h₃⟩⟩

variable {k : Kind} {p : Payload} {context : Symbol} {others : List Symbol} {d : Nat}

theorem self_mem_spine (s : Symbol) : s ∈ s.spine := by
  obtain ⟨k, p, cs, d⟩ := s
  cases cs with
  | nil => exact List.mem_singleton.mpr rfl
  | cons c cs =>
    unfold spine
    exact List.mem_cons_self

/-! ## Taking arguments off -/

theorem unbind_node (hk : k.isBound = false) (hc : context.kind ≠ .extension) :
    (make k p (context :: others)).unbind =
      (make k p (context.unbind.1 :: others), context.unbind.2) := by
  obtain ⟨hf, hb⟩ := Bool.or_eq_false_iff.mp hk
  unfold make
  conv_lhs => unfold unbind
  simp only [hf, Bool.false_eq_true, if_false]
  split
  · exact absurd rfl hc
  · rw [hb]
    rfl
  · rfl

theorem unbind_extension (hk : k.isBound = false) {p' : Payload} {declaredIn extended : Symbol}
    {signature : List Symbol} :
    (make k p (make .extension p' (declaredIn :: extended :: signature) :: others)).unbind =
      (make k p (make .extension p' (declaredIn :: extended.unbind.1 :: signature) :: others),
        extended.unbind.2) := by
  obtain ⟨hf, hb⟩ := Bool.or_eq_false_iff.mp hk
  conv_lhs => unfold make; unfold unbind
  rw [hf]
  rfl

theorem unbind_boundFunction (nominal args : Symbol) :
    (node .boundGenericFunction [nominal, args]).unbind =
      (nominal.unbind.1, nominal.unbind.2 ++ args.children) := by
  conv_lhs => unfold node make; unfold unbind
  rfl

theorem unbind_boundType (hk : k.content = .boundType) (nominal args : Symbol) :
    (node k [node .type [nominal], args]).unbind =
      (nominal.unbind.1, nominal.unbind.2 ++ args.children) := by
  have hf : (k == .boundGenericFunction) = false := by
    rw [beq_eq_false_iff_ne]
    rintro rfl
    cases hk
  conv_lhs => unfold node make; unfold unbind
  simp only [hf, hk, Bool.false_eq_true, if_false]
  rfl

/-- A further child of a bound node, or of a node in a context, is no argument. -/
theorem unbind_push {b : Symbol} (c : Symbol) (hne : b.children ≠ [])
    (hb : b.kind.isBound = true → b.children.length = 2) : (b.push c).unbind.2 = b.unbind.2 := by
  obtain ⟨k, p, cs, d⟩ := b
  cases cs with
  | nil => exact absurd rfl hne
  | cons context others =>
    have hhead : k.isBound = true → (others ++ [c]).head? = others.head? := fun hk => by
      have hlength : others.length + 1 = 2 := hb hk
      cases others with
      | nil => cases hlength
      | cons => rfl
    unfold push
    simp only [List.cons_append]
    conv_lhs => unfold unbind
    conv_rhs => unfold unbind
    split
    · next hk => rw [hhead (by unfold Kind.isBound; rw [hk]; rfl)]
    · split
      · rfl
      · split
        · next hk => rw [hhead (by unfold Kind.isBound; rw [hk]; exact Bool.or_true _)]
        · rfl
      · rfl

/-! ## Along the spine -/

/-- The type that an extension extends. -/
def extended? : Symbol → Option Symbol
  | ⟨.extension, _, _ :: extended :: _, _⟩ => some extended
  | _ => none

/-- A plain extension extends a type. -/
theorem Plain.ne_extension (h : context.Plain) (hc : context.extended? = none) :
    context.kind ≠ .extension := by
  rintro hk
  have hlength := h.extension hk
  obtain ⟨k, p, cs, d⟩ := context
  cases hk
  match cs, hlength with
  | [_, _], _ => cases hc
  | [_, _, _], _ => cases hc

/-- **Induction along the spine** of a node. -/
theorem spineInduction {motive : Symbol → Prop}
    (leaf : ∀ k p d, motive ⟨k, p, [], d⟩)
    (extension : ∀ k p p' declaredIn extended signature d' others d, motive extended →
      motive ⟨k, p, ⟨.extension, p', declaredIn :: extended :: signature, d'⟩ :: others, d⟩)
    (context : ∀ k p context others d, context.extended? = none → motive context →
      motive ⟨k, p, context :: others, d⟩) (s : Symbol) : motive s := by
  induction s using spine.induct with
  | case1 k p d => exact leaf k p d
  | case2 k p c others d ih =>
    split at ih
    · exact extension _ _ _ _ _ _ _ _ _ ih
    · next hc =>
      refine context k p c others d ?_ ih
      unfold extended?
      split
      · next h => exact absurd rfl (hc _ _ _ _ _)
      · rfl

theorem spine_extension {p' : Payload} {declaredIn extended : Symbol} {signature : List Symbol}
    {d' : Nat} :
    (⟨k, p, ⟨.extension, p', declaredIn :: extended :: signature, d'⟩ :: others, d⟩ : Symbol).spine =
      ⟨k, p, ⟨.extension, p', declaredIn :: extended :: signature, d'⟩ :: others, d⟩ ::
        ⟨.extension, p', declaredIn :: extended :: signature, d'⟩ :: extended.spine := by
  conv_lhs => unfold spine

theorem spine_context (hc : context.extended? = none) :
    (⟨k, p, context :: others, d⟩ : Symbol).spine = ⟨k, p, context :: others, d⟩ :: context.spine := by
  conv_lhs => unfold spine
  split
  · cases hc
  · rfl

theorem Exact.eq_make {s : Symbol} (h : s.Exact) : s = make s.kind s.payload s.children := by
  obtain ⟨k, p, cs, d⟩ := s
  exact congrArg (Symbol.mk k p cs) h.depth_eq

/-- What is not bound along its spine stays as it is. -/
theorem unbind_of_plain {s : Symbol} (hs : s.Exact) (h : ∀ n ∈ s.spine, n.Plain) :
    s.unbind = (s, []) := by
  induction s using spineInduction with
  | leaf k p d => rfl
  | extension k p p' declaredIn extended signature d' others d ih =>
    rw [spine_extension] at h
    have ih := ih ((hs.child List.mem_cons_self).child (by simp)) fun n hn => h n (by simp [hn])
    have hk := (h _ List.mem_cons_self).unbound
    have hextension := (hs.child List.mem_cons_self).eq_make
    rw [hs.eq_make, hextension, unbind_extension hk, ih]
  | context k p context others d hc ih =>
    rw [spine_context hc] at h
    have ih := ih (hs.child List.mem_cons_self) fun n hn => h n (List.mem_cons_of_mem _ hn)
    have hplain := h context (List.mem_cons_of_mem _ (self_mem_spine context))
    have hne : context.kind ≠ .extension := hplain.ne_extension hc
    rw [hs.eq_make, unbind_node (h _ List.mem_cons_self).unbound hne, ih]

end Symbol

namespace Decode

open Symbol

/-! ## One level -/

/-- A node is wrapped unless there are no arguments. -/
theorem wrapBound_cases {n args b : Symbol} {s s' : State} (h : wrapBound n args s = .ok b s') :
    s' = s ∧ (args.children = [] ∧ b = n ∨ b = node .boundGenericFunction [n, args] ∨
      ∃ k, k.content = .boundType ∧ b = node k [node .type [n], args]) := by
  unfold wrapBound at h
  split at h
  · next hempty =>
    cases h
    exact ⟨rfl, .inl ⟨List.isEmpty_iff.mp hempty, rfl⟩⟩
  split at h
  · cases h
    exact ⟨rfl, .inr (.inl rfl)⟩
  cases hk : boundKind? n.kind with
  | none =>
    rw [hk] at h
    cases h
  | some k =>
    rw [hk] at h
    cases h
    refine ⟨rfl, .inr (.inr ⟨k, ?_, rfl⟩)⟩
    unfold boundKind? at hk
    split at hk <;> cases hk <;> rfl

theorem unbind_wrapBound {n args b : Symbol} {s s' : State} (h : wrapBound n args s = .ok b s') :
    b.unbind = (n.unbind.1, n.unbind.2 ++ args.children) ∧
      (b = n ∨ b.kind.isBound = true ∧ b.children.length = 2) := by
  obtain ⟨-, ⟨hempty, rfl⟩ | rfl | ⟨k, hk, rfl⟩⟩ := wrapBound_cases h
  · rw [hempty, List.append_nil]
    exact ⟨rfl, .inl rfl⟩
  · exact ⟨unbind_boundFunction n args, .inr ⟨rfl, rfl⟩⟩
  · refine ⟨unbind_boundType hk n args, .inr ⟨?_, rfl⟩⟩
    show (k == .boundGenericFunction || k.content == .boundType) = true
    rw [hk]
    exact Bool.or_true _

theorem unbind_bindReference {x : Symbol} (hx : x.unbind = (x, [])) (lists : List Symbol) :
    (bindReference x lists).unbind = (x, lists.reverse.flatMap children) := by
  unfold bindReference
  rw [unbind_boundType rfl, hx]
  rfl

/-- Applies argument lists to the context of a node, or to the type that it extends. -/
def bindContext : Symbol → List Symbol → Decode Symbol
  | ⟨.extension, _, declaredIn :: extended :: signature, _⟩, lists => do
    let extended ← bindArguments extended lists
    return node .extension (declaredIn :: extended :: signature.take 1)
  | ⟨.extension, _, _, _⟩, _ => refuse
  | context, lists => bindArguments context lists

theorem bindContext_of_ne {context : Symbol} (h : context.kind ≠ .extension) (lists : List Symbol) :
    bindContext context lists = bindArguments context lists := by
  unfold bindContext
  split
  · exact absurd rfl h
  · exact absurd rfl h
  · rfl

theorem bindContext_eq_ok {context c : Symbol} {lists : List Symbol} {s s' : State}
    (hc : context.extended? = none) (h : bindContext context lists s = .ok c s') :
    bindArguments context lists s = .ok c s' := by
  unfold bindContext at h
  split at h
  · cases hc
  · cases h
  · exact h

/-- The node `b` is `x` with the arguments of all lists. -/
structure Binds (x : Symbol) (lists : List Symbol) (b : Symbol) : Prop where
  unbind : b.unbind = (x, lists.reverse.flatMap children)
  shape : b.kind = x.kind ∧ b.children ≠ [] ∨ b.kind.isBound = true ∧ b.children.length = 2

theorem Binds.arity {x b : Symbol} {lists : List Symbol} (h : Binds x lists b)
    (hx : x.kind.isBound = false) :
    b.children ≠ [] ∧ (b.kind.isBound = true → b.children.length = 2) := by
  obtain ⟨hk, hne⟩ | ⟨-, hlength⟩ := h.shape
  · refine ⟨hne, fun hb => ?_⟩
    rw [hk, hx] at hb
    cases hb
  · exact ⟨List.ne_nil_of_length_pos (by omega), fun _ => hlength⟩

section Node

variable {k : Kind} {p : Payload} {context : Symbol} {others : List Symbol} {d : Nat}

/-- A node in a context that is no reference hands the lists that are left to its context, and then takes
its own one if it has a generic level. -/
theorem bindArguments_node (hk : isReference k = false) (args : Symbol) (outer : List Symbol) :
    bindArguments ⟨k, p, context :: others, d⟩ (args :: outer) =
      ((if (if hasNoGenericLevel k then args :: outer else outer).isEmpty then
          pure ⟨k, p, context :: others, d⟩
        else do
          let c ← bindContext context (if hasNoGenericLevel k then args :: outer else outer)
          return node k (c :: others)) >>= fun n =>
        if hasNoGenericLevel k then pure n else wrapBound n args) := by
  conv_lhs => unfold bindArguments
  rw [hk]
  simp only [Bool.false_eq_true, if_false]
  generalize (if hasNoGenericLevel k = true then args :: outer else outer) = rest
  split
  · rfl
  split
  · simp only [bindContext, bind_assoc, pure_bind]
  · next h =>
    rw [bindContext]
    · simp only [bind_assoc, pure_bind]
    · exact h
  · next h =>
    have hne : context.kind ≠ .extension := by
      obtain ⟨k', p', cs, d'⟩ := context
      rintro rfl
      exact h p' cs d' rfl
    rw [bindContext_of_ne hne]
    simp only [bind_assoc, pure_bind]

/-- **How a node in a context takes arguments.** A reference takes all of them. Another node has its
context take the lists of the outer levels, if there are any, and then takes its own list if it has a
generic level. -/
theorem bindArguments_cases {lists : List Symbol} {b : Symbol} {s s' : State}
    (h : bindArguments ⟨k, p, context :: others, d⟩ lists s = .ok b s') :
    (b = bindReference ⟨k, p, context :: others, d⟩ lists ∧ s' = s) ∨
    ∃ args outer rest n t, lists = args :: outer ∧
      rest = (if hasNoGenericLevel k then lists else outer) ∧
      (rest = [] ∧ n = ⟨k, p, context :: others, d⟩ ∧ t = s ∨
        ∃ c, bindContext context rest s = .ok c t ∧ n = node k (c :: others)) ∧
      (if hasNoGenericLevel k then pure n else wrapBound n args) t = .ok b s' := by
  cases href : isReference k with
  | true =>
    unfold bindArguments at h
    rw [href] at h
    cases h
    exact .inl ⟨rfl, rfl⟩
  | false =>
    cases lists with
    | nil =>
      unfold bindArguments at h
      rw [href] at h
      cases h
    | cons args outer =>
      rw [bindArguments_node href] at h
      obtain ⟨n, t, hn, h⟩ := bind_eq_ok h
      refine .inr ⟨args, outer, _, n, t, rfl, rfl, ?_, h⟩
      generalize (if hasNoGenericLevel k = true then args :: outer else outer) = rest at hn ⊢
      split at hn
      · next hempty =>
        cases hn
        exact .inl ⟨List.isEmpty_iff.mp hempty, rfl, rfl⟩
      · obtain ⟨c, u, hc, hn⟩ := bind_eq_ok hn
        cases hn
        exact .inr ⟨c, hc, rfl⟩

/-- Whatever lists the node is bound to, taking them off again gives back the node and all arguments. -/
def KeepsArguments (x : Symbol) : Prop :=
  ∀ (lists : List Symbol) (b : Symbol) (s s' : State), bindArguments x lists s = .ok b s' →
    Binds x lists b

/-- A node keeps all arguments if its context does so. -/
theorem keepsArguments_node
    (hself : unbind ⟨k, p, context :: others, d⟩ = (⟨k, p, context :: others, d⟩, []))
    (hcontext : ∀ {lists : List Symbol} {c : Symbol} {s s' : State},
      bindContext context lists s = .ok c s' → (node k (c :: others)).unbind =
        (⟨k, p, context :: others, d⟩, lists.reverse.flatMap children)) :
    KeepsArguments ⟨k, p, context :: others, d⟩ := by
  intro lists b s s' h
  obtain ⟨rfl, -⟩ | ⟨args, outer, rest, n, t, rfl, hrest, hn, hb⟩ := bindArguments_cases h
  · exact ⟨unbind_bindReference hself lists, .inr ⟨rfl, rfl⟩⟩
  -- before it takes its own list the node has all arguments of the levels around it
  have houter : n.unbind = (⟨k, p, context :: others, d⟩, rest.reverse.flatMap children) ∧
      n.kind = k ∧ n.children ≠ [] := by
    obtain ⟨rfl, rfl, -⟩ | ⟨c, hc, rfl⟩ := hn
    · exact ⟨hself, rfl, nofun⟩
    · exact ⟨hcontext hc, rfl, nofun⟩
  obtain ⟨hunbind, hshape⟩ := houter
  cases hlevel : hasNoGenericLevel k with
  | true =>
    rw [hlevel] at hb hrest
    cases hb
    cases hrest
    exact ⟨hunbind, .inl hshape⟩
  | false =>
    rw [hlevel] at hb hrest
    obtain rfl : rest = outer := hrest
    obtain ⟨hwrap, hbk⟩ := unbind_wrapBound hb
    refine ⟨?_, ?_⟩
    · rw [hwrap, hunbind, List.reverse_cons, List.flatMap_append, List.flatMap_singleton]
    · rcases hbk with rfl | hbk
      · exact .inl hshape
      · exact .inr hbk

/-- A node leaves the state alone if its context does so. -/
theorem bindArguments_node_state
    (hcontext : ∀ {lists : List Symbol} {c : Symbol} {s s' : State},
      bindContext context lists s = .ok c s' → s' = s)
    {lists : List Symbol} {b : Symbol} {s s' : State}
    (h : bindArguments ⟨k, p, context :: others, d⟩ lists s = .ok b s') : s' = s := by
  obtain ⟨-, rfl⟩ | ⟨args, outer, rest, n, t, rfl, hrest, hn, hb⟩ := bindArguments_cases h
  · rfl
  have ht : t = s := by
    obtain ⟨-, -, rfl⟩ | ⟨c, hc, -⟩ := hn
    · rfl
    · exact hcontext hc
  split at hb
  · cases hb
    exact ht
  · exact (wrapBound_cases hb).1.trans ht

end Node

/-! ## All levels -/

/-- Binding arguments leaves the state alone. -/
theorem bindArguments_state {x : Symbol} {lists : List Symbol} {b : Symbol} {s s' : State}
    (h : bindArguments x lists s = .ok b s') : s' = s := by
  induction x using spineInduction generalizing lists b s s' with
  | leaf k p d =>
    rw [bindArguments] at h
    split at h <;> cases h
    rfl
  | extension k p p' declaredIn extended signature d' others d ih =>
    refine bindArguments_node_state (fun hc => ?_) h
    obtain ⟨e, t, he, hc⟩ := bind_eq_ok hc
    cases hc
    exact ih he
  | context k p context others d hc ih =>
    exact bindArguments_node_state (fun h => ih (bindContext_eq_ok hc h)) h

/-- A property of trees, on the spine of a nominal type or not, that the steps of binding keep if the
argument lists have another one. -/
structure KeptByBinding (P : Bool → Symbol → Prop) (A : Symbol → Prop) : Prop where
  reference : ∀ {b n lists}, P b n → (∀ l ∈ lists, A l) → P b (bindReference n lists)
  wrap : ∀ {b n args y s s'}, P b n → A args → wrapBound n args s = .ok y s' → P b y
  context : ∀ {b k p context others d}, P b ⟨k, p, context :: others, d⟩ → P true context
  extended : ∀ {p declaredIn extended signature d},
    P true ⟨.extension, p, declaredIn :: extended :: signature, d⟩ → P true extended
  rebuilt : ∀ {b k p context others d rest c s s'}, (b || k.isAnyGeneric) = true →
    P b ⟨k, p, context :: others, d⟩ → bindContext context rest s = .ok c s' → P true c →
    P b (node k (c :: others))
  extension : ∀ {p declaredIn extended signature d e},
    P true ⟨.extension, p, declaredIn :: extended :: signature, d⟩ → P true e →
    P true (node .extension (declaredIn :: e :: signature.take 1))

namespace KeptByBinding

variable {P : Bool → Symbol → Prop} {A : Symbol → Prop} {b : Bool}

/-- Binding a node keeps the property if binding its context does so. -/
theorem node (hP : KeptByBinding P A) {k : Kind} {p : Payload} {context : Symbol} {others : List Symbol}
    {d : Nat} (hon : (b || k.isAnyGeneric) = true) (hz : P b ⟨k, p, context :: others, d⟩)
    (hcontext : ∀ {lists c s s'}, (∀ l ∈ lists, A l) → P true context →
      bindContext context lists s = .ok c s' → P true c)
    {lists : List Symbol} (hl : ∀ l ∈ lists, A l) {y : Symbol} {s s' : State}
    (h : bindArguments ⟨k, p, context :: others, d⟩ lists s = .ok y s') : P b y := by
  obtain ⟨rfl, -⟩ | ⟨args, outer, rest, n, t, rfl, hrest, hn, hy⟩ := bindArguments_cases h
  · exact hP.reference hz hl
  have hnode : P b n := by
    obtain ⟨-, rfl, -⟩ | ⟨c, hc, rfl⟩ := hn
    · exact hz
    have hlists : ∀ l ∈ rest, A l := by
      rw [hrest]
      split
      · exact hl
      · exact fun l hmem => hl l (List.mem_cons_of_mem _ hmem)
    exact hP.rebuilt hon hz hc (hcontext hlists (hP.context hz) hc)
  split at hy
  · cases hy
    exact hnode
  · exact hP.wrap hnode (hl args List.mem_cons_self) hy

/-- **Binding arguments keeps what its steps keep.** -/
theorem bindArguments (hP : KeptByBinding P A) {z : Symbol} (hon : (b || z.kind.isAnyGeneric) = true)
    (hz : P b z) {lists : List Symbol} (hl : ∀ l ∈ lists, A l) {y : Symbol} {s s' : State}
    (h : Decode.bindArguments z lists s = .ok y s') : P b y := by
  induction z using spineInduction generalizing b lists y s s' with
  | leaf k p d =>
    rw [Decode.bindArguments] at h
    split at h <;> cases h
    exact hP.reference hz hl
  | extension k p p' declaredIn extended signature d' others d ih =>
    refine hP.node hon hz (fun {lists c s s'} hl hc h => ?_) hl h
    obtain ⟨e, t, he, h⟩ := bind_eq_ok h
    cases h
    exact hP.extension hc (ih rfl (hP.extended hc) hl he)
  | context k p context others d hc ih =>
    exact hP.node hon hz (fun hl hfirst h => ih rfl hfirst hl (bindContext_eq_ok hc h)) hl h

end KeptByBinding

/-- **Binding arguments loses, doubles and reorders none of them.** -/
theorem keepsArguments {x : Symbol} (hx : x.Exact) (hplain : ∀ n ∈ x.spine, n.Plain) :
    KeepsArguments x := by
  induction x using spineInduction with
  | leaf k p d =>
    intro lists b s s' h
    rw [bindArguments] at h
    split at h
    · cases h
      exact ⟨unbind_bindReference rfl lists, .inr ⟨rfl, rfl⟩⟩
    · cases h
  | extension k p p' declaredIn extended signature d' others d ih =>
    have hself := unbind_of_plain hx hplain
    rw [spine_extension] at hplain
    have hnode := hplain _ List.mem_cons_self
    have hextension := hplain _ (List.mem_cons_of_mem _ List.mem_cons_self)
    obtain rfl : p = .none := hnode.payload (List.cons_ne_nil _ _)
    obtain rfl : p' = .none := hextension.payload (List.cons_ne_nil _ _)
    have hsignature : signature.take 1 = signature := by
      have hlength := hextension.extension rfl
      refine List.take_of_length_le ?_
      simp only [List.length_cons] at hlength
      omega
    refine keepsArguments_node hself fun {lists c s s'} h => ?_
    obtain ⟨e, t, he, h⟩ := bind_eq_ok h
    cases h
    have ih := (ih ((hx.child List.mem_cons_self).child (by simp))
      (fun n hn => hplain n (by simp [hn])) _ _ _ _ he).unbind
    rw [hsignature]
    refine (unbind_extension hnode.unbound).trans ?_
    rw [ih, hx.eq_make, (hx.child List.mem_cons_self).eq_make]
    rfl
  | context k p context others d hc ih =>
    have hself := unbind_of_plain hx hplain
    rw [spine_context hc] at hplain
    have hnode := hplain _ List.mem_cons_self
    have hne : context.kind ≠ .extension :=
      (hplain context (List.mem_cons_of_mem _ (self_mem_spine context))).ne_extension hc
    obtain rfl : p = .none := hnode.payload (List.cons_ne_nil _ _)
    refine keepsArguments_node hself fun {lists c s s'} h => ?_
    obtain ⟨hunbind, hshape⟩ := ih (hx.child List.mem_cons_self)
      (fun n hn => hplain n (List.mem_cons_of_mem _ hn)) _ _ _ _ (bindContext_eq_ok hc h)
    have hcne : c.kind ≠ .extension := by
      rcases hshape with ⟨hkind, -⟩ | ⟨hbound, -⟩
      · rwa [hkind]
      · intro hk
        rw [hk] at hbound
        cases hbound
    refine (unbind_node hnode.unbound hcne).trans ?_
    rw [hunbind, hx.eq_make]
    rfl

/-! ## The arguments on the stack -/

theorem popIf?_eq_ok {p : Kind → Bool} {s s' : State} {o : Option Symbol}
    (h : popIf? p s = .ok o s') : s.operands = o.toList ++ s'.operands ∧ ∀ x ∈ o, p x.kind = true := by
  unfold popIf? at h
  split at h
  · next hs =>
    cases h
    exact ⟨rfl, nofun⟩
  · next x xs hs =>
    split at h
    · next hp =>
      cases h
      refine ⟨hs, ?_⟩
      rintro y ⟨⟩
      exact hp
    · cases h
      exact ⟨rfl, nofun⟩

theorem popIf_eq_ok {p : Kind → Bool} {s s' : State} {x : Symbol} (h : popIf p s = .ok x s') :
    s.operands = x :: s'.operands ∧ p x.kind = true := by
  obtain ⟨o, t, ho, h⟩ := bind_eq_ok h
  obtain ⟨rfl, rfl⟩ := require_eq_ok h
  exact ⟨(popIf?_eq_ok ho).1, (popIf?_eq_ok ho).2 x rfl⟩

theorem popWhile_eq_ok {p : Kind → Bool} {s s' : State} {xs : List Symbol}
    (h : popWhile p s = .ok xs s') : s.operands = xs ++ s'.operands ∧ ∀ x ∈ xs, p x.kind = true := by
  cases h
  exact ⟨List.takeWhile_append_dropWhile.symm,
    fun x hx => List.mem_takeWhile_imp (p := fun x : Symbol => p x.kind) hx⟩

/-- The types among the operands, in the order in which they were pushed. -/
def typesPushed (popped : List Symbol) : List Symbol :=
  (popped.filter (·.kind == .type)).reverse

theorem typesPushed_append (xs ys : List Symbol) :
    typesPushed (xs ++ ys) = typesPushed ys ++ typesPushed xs := by
  unfold typesPushed
  rw [List.filter_append, List.reverse_append]

theorem typesPushed_types {xs : List Symbol} (h : ∀ x ∈ xs, (x.kind == .type) = true) :
    typesPushed xs = xs.reverse := by
  unfold typesPushed
  rw [List.filter_eq_self.mpr h]

theorem typesPushed_others {xs : List Symbol} {k : Kind} (hk : k ≠ .type)
    (h : ∀ x ∈ xs, (x.kind == k) = true) : typesPushed xs = [] := by
  unfold typesPushed
  rw [List.filter_eq_nil_iff.mpr, List.reverse_nil]
  intro x hx
  rw [beq_iff_eq.mp (h x hx), beq_iff_eq]
  exact hk

/-- All types of all lists are there, in the order in which they were pushed. -/
theorem popArgumentLists_eq_ok {fuel : Nat} {s s' : State} {lists : List Symbol}
    (h : popArgumentLists fuel s = .ok lists s') :
    ∃ popped, s.operands = popped ++ s'.operands ∧
      lists.reverse.flatMap children = typesPushed popped := by
  induction fuel generalizing s s' lists with
  | zero => cases h
  | succ fuel ih =>
    obtain ⟨types, t, htypes, h⟩ := bind_eq_ok h
    obtain ⟨empty, u, hempty, h⟩ := bind_eq_ok h
    obtain ⟨hs, htypes⟩ := popWhile_eq_ok htypes
    obtain ⟨ht, hmarked⟩ := popIf?_eq_ok hempty
    rw [ht] at hs
    split at h
    · cases h
      refine ⟨types ++ empty.toList, by rw [hs, List.append_assoc], ?_⟩
      rw [typesPushed_append, typesPushed_types htypes,
        typesPushed_others (k := .emptyList) nofun fun x hx => hmarked x (Option.mem_toList.mp hx)]
      exact List.append_nil _
    · next hnone =>
      obtain rfl : empty = none := by simpa using hnone
      obtain ⟨mark, v, hmark, h⟩ := bind_eq_ok h
      obtain ⟨outer, w, houter, h⟩ := bind_eq_ok h
      cases h
      obtain ⟨hu, hmark⟩ := popIf_eq_ok hmark
      obtain ⟨popped, hv, ih⟩ := ih houter
      refine ⟨types ++ [mark] ++ popped, ?_, ?_⟩
      · rw [hs, hu, hv]
        simp
      · have hnone : typesPushed [mark] = [] :=
          typesPushed_others (k := .firstElementMarker) nofun (by simpa using hmark)
        rw [typesPushed_append, typesPushed_append, typesPushed_types htypes, hnone, ← ih,
          List.reverse_cons, List.flatMap_append, List.flatMap_singleton]
        rfl

theorem popAnyGeneric_eq_ok {s s' : State} {nominal : Symbol} (h : popAnyGeneric s = .ok nominal s') :
    ∃ type, s.operands = type :: s'.operands ∧ type.kind = .type ∧ type.first? = some nominal := by
  obtain ⟨n, t, hn, h⟩ := bind_eq_ok h
  obtain ⟨⟨⟩, u, hensure, h⟩ := bind_eq_ok h
  obtain ⟨-, rfl⟩ := ensure_eq_ok hensure
  cases h
  obtain ⟨type, u, htype, hn⟩ := bind_eq_ok hn
  obtain ⟨hfirst, rfl⟩ := require_eq_ok hn
  obtain ⟨hs, hkind⟩ := popIf_eq_ok htype
  exact ⟨type, hs, beq_iff_eq.mp hkind, hfirst⟩

/-- **A bound generic type holds the argument types** that are popped for it, once each and in the order
in which they were pushed. -/
theorem boundGenericType_arguments {s s' : State} {n : Symbol} (h : boundGenericType s = .ok n s') :
    ∃ popped type nominal bound, s.operands = popped ++ type :: s'.operands ∧ type.kind = .type ∧
      type.first? = some nominal ∧ n = node .type [bound] ∧
      (nominal.Exact → (∀ m ∈ nominal.spine, m.Plain) → bound.unbind.2 = typesPushed popped) := by
  obtain ⟨conformances, t₁, hconformances, h⟩ := bind_eq_ok h
  obtain ⟨_, t₂, hget, h⟩ := bind_eq_ok h
  cases hget
  obtain ⟨lists, t₃, hlists, h⟩ := bind_eq_ok h
  obtain ⟨nominal, t₄, hnominal, h⟩ := bind_eq_ok h
  obtain ⟨bound, t₅, hbound, h⟩ := bind_eq_ok h
  obtain ⟨hs, hkinds⟩ := popWhile_eq_ok hconformances
  obtain ⟨popped, ht₁, hpopped⟩ := popArgumentLists_eq_ok hlists
  obtain ⟨type, ht₃, htype, hfirst⟩ := popAnyGeneric_eq_ok hnominal
  cases h
  have hstate : t₅ = t₄ := bindArguments_state hbound
  refine ⟨conformances ++ popped, type, nominal, _, ?_, htype, hfirst, rfl, fun hexact hplain => ?_⟩
  · rw [hs, ht₁, ht₃, List.append_assoc, hstate]
  · rw [typesPushed_append, typesPushed_others (k := .retroactiveConformance) nofun hkinds,
      List.append_nil, ← hpopped]
    have hbinds := keepsArguments hexact hplain _ _ _ _ hbound
    split
    · rw [hbinds.unbind]
    · obtain ⟨hne, hlength⟩ := hbinds.arity (hplain _ (self_mem_spine _)).unbound
      rw [unbind_push _ hne hlength, hbinds.unbind]

/-- **Bound generics keep their arguments.** Taking the wrappers off a bound node gives back the node
that was bound, and the arguments of its levels, the outermost first. So a bound generic type holds the
argument types that are popped for it, once each and in the order in which they were pushed. -/
theorem unbind_bindArguments :
    (∀ {x b : Symbol} {lists : List Symbol} {s s' : State}, x.Exact → (∀ n ∈ x.spine, n.Plain) →
      bindArguments x lists s = .ok b s' →
      b.unbind.1 = x ∧ b.unbind.2 = lists.reverse.flatMap children) ∧
    ∀ {s s' : State} {n : Symbol}, boundGenericType s = .ok n s' →
      ∃ popped type nominal bound, s.operands = popped ++ type :: s'.operands ∧ type.kind = .type ∧
        type.first? = some nominal ∧ n = node .type [bound] ∧
        (nominal.Exact → (∀ m ∈ nominal.spine, m.Plain) → bound.unbind.2 = typesPushed popped) := by
  refine ⟨fun hx hplain h => ?_, boundGenericType_arguments⟩
  rw [(keepsArguments hx hplain _ _ _ _ h).unbind]
  exact ⟨rfl, rfl⟩

/-- A generic type that is declared in an extension of a generic type. -/
def extensionMember : Symbol :=
  let declaredIn := ofText .moduleName "Main"
  let extended := node .structType [declaredIn, ofText .identifier "Outer"]
  node .structType [node .extension [declaredIn, extended], ofText .identifier "Inner"]

theorem exact_extensionMember : extensionMember.Exact := by
  unfold Exact
  decide

theorem plain_extensionMember : ∀ n ∈ extensionMember.spine, n.Plain := by
  decide

theorem unbind_bindArguments_extension :
    let int := standardType .structType "Int"
    let string := standardType .structType "String"
    let s : State := { State.ofString "" with
      operands := [int, leaf .firstElementMarker, string, leaf .emptyList, node .type [extensionMember]] }
    (∃ b, bindArguments extensionMember [node .typeList [int], node .typeList [string]] s = .ok b s ∧
      b.unbind.1 = extensionMember ∧ b.unbind.2 = [string, int]) ∧
    ∃ bound s', boundGenericType s = .ok (node .type [bound]) s' ∧ bound.unbind.2 = [string, int] := by
  intro int string s
  obtain ⟨b, hb⟩ : ∃ b, bindArguments extensionMember
      [node .typeList [int], node .typeList [string]] s = .ok b s := ⟨_, rfl⟩
  obtain ⟨n, s', hn, hs'⟩ : ∃ n s', boundGenericType s = .ok n s' ∧ s'.operands = [] :=
    ⟨_, _, rfl, rfl⟩
  refine ⟨⟨b, hb, unbind_bindArguments.1 exact_extensionMember plain_extensionMember hb⟩, ?_⟩
  obtain ⟨popped, type, nominal, bound, hs, -, hfirst, rfl, hbound⟩ := unbind_bindArguments.2 hn
  rw [hs'] at hs
  have hsplit : [int, leaf .firstElementMarker, string, leaf .emptyList] ++
      [node .type [extensionMember]] = popped ++ [type] := hs
  obtain ⟨rfl, htype⟩ := List.append_inj' hsplit rfl
  cases htype
  cases hfirst
  exact ⟨bound, s', hn, hbound exact_extensionMember plain_extensionMember⟩

end Decode
end Demangle
