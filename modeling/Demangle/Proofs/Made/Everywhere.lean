import Demangle.Proofs.Made.Decode

/-!
# Laws of single nodes

A law of single nodes holds everywhere in a decoded tree if it says nothing about kinds whose nodes are made
of any trees, and holds of the others as they are made (`NodeLaw`). Binding generic arguments makes nodes anew
with another context, which the law has to bear.

    NodeLaw m Q → Made m t → ∀ n ∈ t.nodes, Q n                              (NodeLaw.of_made)

One such law is that extensions are declared in modules: a module takes no arguments, so it stays where it
has been put (`decode_extension`).
-/

namespace Demangle

open Symbol Decode

/-! ## Everywhere in a tree -/

/-- All nodes of the tree have the property. -/
def Everywhere (Q : Symbol → Prop) (t : Symbol) : Prop :=
  ∀ n ∈ t.nodes, Q n

/-- A property of nodes that the ways in which trees are made keep. -/
structure NodeLaw (m : String) (Q : Symbol → Prop) : Prop where
  free : ∀ {x : Symbol}, x.kind.isFree = true → Q x
  arguments : ∀ {x : Symbol}, x.kind = .argumentTuple → Q x
  localName : ∀ {i name}, IsIndex m i → Q (node .localDeclName [ofIndex .number i, name])
  closure : ∀ {k context i type}, k = .explicitClosure ∨ k = .implicitClosure → IsIndex m i →
    Q (node k [context, ofIndex .number i, type])
  extension : ∀ {declaredIn extended signature}, declaredIn.kind = .moduleName →
    Q (node .extension (declaredIn :: extended :: signature))
  /-- A node that is bound gets another context. -/
  rebuilt : ∀ {k p context others d rest c s s'}, Q ⟨k, p, context :: others, d⟩ →
    bindContext context rest s = .ok c s' → Q (node k (c :: others))
  /-- An extension whose type is bound stays where it is declared. -/
  extended : ∀ {p declaredIn others others' d}, Q ⟨.extension, p, declaredIn :: others, d⟩ →
    Q (node .extension (declaredIn :: others'))

namespace Everywhere

variable {Q : Symbol → Prop} {t c : Symbol}

theorem intro (own : Q t) (h : ∀ c ∈ t.children, Everywhere Q c) : Everywhere Q t := by
  intro n hn
  rcases mem_nodes.mp hn with rfl | ⟨c, hc, hn⟩
  · exact own
  · exact h c hc n hn

theorem own (h : Everywhere Q t) : Q t :=
  h t (self_mem_nodes t)

theorem part (h : Everywhere Q t) (hc : c ∈ t.children) : Everywhere Q c :=
  fun n hn => h n (mem_nodes_of_child hc hn)

end Everywhere

namespace NodeLaw

variable {m : String} {Q : Symbol → Prop} {t : Symbol}

/-- A node of a free kind. -/
theorem node_free (hQ : NodeLaw m Q) (hk : t.kind.isFree = true)
    (h : ∀ c ∈ t.children, Everywhere Q c) : Everywhere Q t :=
  .intro (hQ.free hk) h

theorem number (hQ : NodeLaw m Q) (i : UInt64) : Everywhere Q (ofIndex .number i) :=
  hQ.node_free rfl (List.forall_mem_nil _)

/-! ## Binding -/

theorem wrapBound (hQ : NodeLaw m Q) {n args y : Symbol} {s s' : State} (hn : Everywhere Q n)
    (hargs : Everywhere Q args) (h : Decode.wrapBound n args s = .ok y s') : Everywhere Q y := by
  have hlist : ∀ c ∈ [args], Everywhere Q c := List.forall_mem_singleton.mpr hargs
  have htype : Everywhere Q (node .type [n]) := hQ.node_free rfl (List.forall_mem_singleton.mpr hn)
  obtain ⟨-, ⟨-, rfl⟩ | rfl | ⟨k, hk, rfl⟩⟩ := wrapBound_cases h
  · exact hn
  · exact hQ.node_free rfl (List.forall_mem_cons.mpr ⟨hn, hlist⟩)
  · refine hQ.node_free (isFree_of_isBound ?_) (List.forall_mem_cons.mpr ⟨htype, hlist⟩)
    show (k == .boundGenericFunction || k.content == .boundType) = true
    rw [hk]
    exact Bool.or_true _

theorem bindReference (hQ : NodeLaw m Q) {n : Symbol} {lists : List Symbol} (hn : Everywhere Q n)
    (hl : ∀ l ∈ lists, Everywhere Q l) : Everywhere Q (Decode.bindReference n lists) := by
  have htype : Everywhere Q (node .type [n]) := hQ.node_free rfl (List.forall_mem_singleton.mpr hn)
  have hlist : Everywhere Q (node .typeList (lists.reverse.flatMap children)) := by
    refine hQ.node_free rfl fun c hc => ?_
    obtain ⟨l, hmem, hc⟩ := List.mem_flatMap.mp hc
    exact (hl l (List.mem_reverse.mp hmem)).part hc
  exact hQ.node_free rfl (List.forall_mem_cons.mpr ⟨htype, List.forall_mem_singleton.mpr hlist⟩)

theorem keptByBinding (hQ : NodeLaw m Q) :
    KeptByBinding (fun _ => Everywhere Q) (Everywhere Q) where
  reference := hQ.bindReference
  wrap := hQ.wrapBound
  context h := h.part List.mem_cons_self
  extended h := h.part (List.mem_cons_of_mem _ List.mem_cons_self)
  rebuilt _ h hbind hc := by
    refine .intro (hQ.rebuilt h.own hbind) (List.forall_mem_cons.mpr ⟨hc, fun x hx => ?_⟩)
    exact h.part (List.mem_cons_of_mem _ hx)
  extension h he := by
    refine .intro (hQ.extended h.own) (List.forall_mem_cons.mpr ⟨h.part List.mem_cons_self, ?_⟩)
    refine List.forall_mem_cons.mpr ⟨he, fun x hx => h.part ?_⟩
    exact List.mem_cons_of_mem _ (List.mem_cons_of_mem _ (List.mem_of_mem_take hx))

/-! ## Made trees -/

/-- **A law of single nodes holds everywhere in a made tree.** -/
theorem of_made (hQ : NodeLaw m Q) (h : Made m t) : Everywhere Q t := by
  induction h with
  | node free parts ih => exact hQ.node_free free ih
  | part whole plain hc ih => exact ih.part hc
  | push whole free last ihx ihc =>
    refine hQ.node_free free (List.forall_mem_append.mpr ⟨fun d hd => ihx.part hd, ?_⟩)
    exact List.forall_mem_singleton.mpr ihc
  | arguments parts hi ih => exact .intro (hQ.arguments rfl) (List.forall_mem_singleton.mpr ih)
  | relabelled whole hk parts count iha ihp =>
    refine .intro (hQ.arguments hk) fun c hc => ?_
    rcases List.mem_or_eq_of_mem_set hc with hc | rfl
    · exact iha.part hc
    · exact ihp
  | localName hi hn ih =>
    refine .intro (hQ.localName hi) (List.forall_mem_cons.mpr ⟨hQ.number _, ?_⟩)
    exact List.forall_mem_singleton.mpr ih
  | closure hk hc hi ht ihc iht =>
    refine .intro (hQ.closure hk hi) (List.forall_mem_cons.mpr ⟨ihc, ?_⟩)
    exact List.forall_mem_cons.mpr ⟨hQ.number _, List.forall_mem_singleton.mpr iht⟩
  | extension hk hd he hs ihd ihe ihs =>
    refine .intro (hQ.extension hk) (List.forall_mem_cons.mpr ⟨ihd, ?_⟩)
    exact List.forall_mem_cons.mpr ⟨ihe, ihs⟩
  | bound letter nominal generic arguments typeLists h ihx ihl =>
    exact hQ.keptByBinding.bindArguments (b := false) generic ihx ihl h

end NodeLaw

/-! ## Extensions -/

/-- An extension is declared in a module. -/
def Symbol.DeclaredInModule (n : Symbol) : Prop :=
  n.kind = .extension → ∃ c, n.child? 0 = some c ∧ c.kind = .moduleName

theorem Decode.wrapBound_module {n args y : Symbol} {s s' : State} (hn : n.kind = .moduleName)
    (h : wrapBound n args s = .ok y s') : y = n := by
  unfold wrapBound at h
  rw [hn] at h
  split at h
  · cases h
    rfl
  · cases h

/-- A module takes no arguments. -/
theorem Decode.bindArguments_module {x y : Symbol} {lists : List Symbol} {s s' : State}
    (hx : x.kind = .moduleName) (h : bindArguments x lists s = .ok y s') : y.kind = .moduleName := by
  obtain ⟨k, p, cs, d⟩ := x
  obtain rfl : k = .moduleName := hx
  cases cs with
  | nil => cases h
  | cons context others =>
    cases lists with
    | nil => cases h
    | cons args outer =>
      rw [bindArguments_node rfl] at h
      obtain ⟨n, t, hn, h⟩ := bind_eq_ok h
      have hk : n.kind = .moduleName := by
        generalize (if hasNoGenericLevel .moduleName = true then args :: outer else outer) = rest at hn
        split at hn
        · cases hn
          rfl
        · obtain ⟨c, u, -, hn⟩ := bind_eq_ok hn
          cases hn
          rfl
      rw [wrapBound_module hk h]
      exact hk

theorem nodeLaw_declaredInModule (m : String) : NodeLaw m DeclaredInModule where
  free hk h := by
    rw [h] at hk
    cases hk
  arguments hk h := by cases hk.symm.trans h
  localName _ h := by cases h
  closure hk _ h := by rcases hk with rfl | rfl <;> cases h
  extension hk _ := ⟨_, rfl, hk⟩
  rebuilt {k p context others d rest c s s'} hQ hbind h := by
    obtain ⟨module, hmodule, hk⟩ := hQ h
    cases hmodule
    have hne : context.kind ≠ .extension := by
      rw [hk]
      decide
    rw [bindContext_of_ne hne] at hbind
    exact ⟨c, rfl, bindArguments_module hk hbind⟩
  extended hQ _ := by
    obtain ⟨module, hmodule, hk⟩ := hQ rfl
    cases hmodule
    exact ⟨_, rfl, hk⟩

/-- **Extensions of a decoded tree are declared in modules.** -/
theorem decode_extension {m : String} {t : Symbol} (h : decode m = .ok t) :
    ∀ n ∈ t.nodes, n.kind = .extension → ∃ c, n.child? 0 = some c ∧ c.kind = .moduleName :=
  (nodeLaw_declaredInModule m).of_made (decode_made h)

end Demangle
