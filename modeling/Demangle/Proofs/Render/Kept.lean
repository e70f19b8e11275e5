import Demangle.Proofs.Made.Everywhere
import Demangle.Proofs.Render.Calls

/-!
# No deferred context is dropped

A context that an entity cannot put in front of its name is given back to the caller of `printName`. A node that
is printed on its own gives back nothing (`printName_alone`), and of the rules that print a node as a context
all but one look at what comes back: they hand it on, or print it behind their own name (`Kept`). The one that
does not is the rule for extensions. In a decoded tree it prints modules only, which give back nothing.

    Called … k q → (P.answer q).1 = some p → p is printed by an entity further out     (Called.printed)
-/

namespace Demangle

open Print (write)

/-! ## The calls of a run -/

section Run

variable (g : Guard) (embedded : String → String) (o : Options)

/-- The buffer while the node of the call is open. -/
def Call.opened (c : Call) : Buffer :=
  { c.buffer with depth := c.buffer.depth + 1 }

/-- The rule for the node of the first call makes the second one, if the node is not cut off. -/
structure Call.Makes (k : Nat) (c q : Call) : Prop where
  opens : c.buffer.depth < g.limit
  asks : Asks (fun P => P.node c.node c.asContext) (g.printer embedded o k) c.opened q

/-- The calls that are made while a tree is printed, each with how many can still be made inside it. -/
inductive Called (n : Nat) (root : Call) : Nat → Call → Prop
  | root : Called n root n root
  | inner {k : Nat} {c q : Call} (hc : Called n root (k + 1) c) (hq : c.Makes g embedded o k q) :
      Called n root k q

end Run

section Run

variable {g : Guard} {embedded : String → String} {o : Options} {n k : Nat} {root c q : Call}

theorem Called.mem_nodes (h : Called g embedded o n root k q) : q.node ∈ root.node.nodes := by
  induction h with
  | root => exact Symbol.self_mem_nodes _
  | inner _ hq ih =>
    refine Symbol.mem_nodes_trans (Symbol.mem_nodes_iff_below.mpr (.inr ?_)) ih
    exact hq.asks.below (printName_defers _)

/-- What the rule for a node returns is what the call returns. -/
theorem Call.Makes.answer (h : c.Makes g embedded o k q) :
    ((g.printer embedded o (k + 1)).answer c).1 =
      ((g.printer embedded o k).node c.node c.asContext c.opened).1 := by
  show (printName g embedded o (k + 1) c.node c.asContext c.buffer).1 = _
  unfold printName
  change ((if g.limit ≤ c.buffer.depth then _ else _ : Print _) c.buffer).1 = _
  rw [if_neg (Nat.not_le.mpr h.opens)]
  rfl

/-- Modules are no entities. -/
theorem printName_module (g : Guard) (embedded : String → String) (o : Options) (n : Nat) {s : Symbol}
    (hs : s.kind = .moduleName) (asContext : Bool) :
    Returns (· = none) (printName g embedded o n s asContext) := by
  intro b
  cases h : printName g embedded o n s asContext b with
  | mk back b' =>
    cases back with
    | none => rfl
    | some p =>
      obtain ⟨k, b₁, -, hnode, -⟩ := printName_eq_some h
      have hnone := node_none (g.printer embedded o k) asContext (s := s) (by simp [hs, Kind.layout])
        (by simp [hs, Kind.layout]) { b with depth := b.depth + 1 }
      rw [hnode] at hnone
      cases hnone

end Run

/-! ## What becomes of a context -/

/-- The node is printed as an entity, whose context `c` gives back the node `p`; the entity prints its name and
its type, and behind them that node. -/
def PrintsBehind (P : Printer) (s : Symbol) (b : Buffer) (c p : Symbol) : Prop :=
  ∃ e args style b₁, PrintsAs P.options s e args style ∧ e.child? 0 = some c ∧
    P.entityContext e false b = (some p, b₁) ∧
    P.node s false b = (do
      P.entityName e style false
      P.entityType e args style false
      write e.joint
      P.print p
      return none) b₁

/-- What the rule for a node does with the node `p` that its call has given back. -/
inductive Kept (P : Printer) (s : Symbol) (asContext : Bool) (b : Buffer) (q : Call) (p : Symbol) : Prop
  /-- An accessor does what its storage does. -/
  | storage {extra : String} (hl : s.kind.layout = .accessor extra) (hc : s.child? 0 = some q.node)
      (hback : P.node s asContext b = (some p, (P.answer q).2))
  /-- An entity that is a context itself returns it to its caller. -/
  | handedOn {e : Symbol} {args : Option Symbol} {style : EntityStyle}
      (h : PrintsAs P.options s e args style) (hc : e.child? 0 = some q.node) (has : asContext = true)
      (hback : (P.node s asContext b).1 = some p)
  /-- An entity that is printed on its own prints it. -/
  | printed (has : asContext = false) (h : PrintsBehind P s b q.node p)

section Kept

variable {P : Printer} {s e p : Symbol} {args : Option Symbol} {style : EntityStyle} {asContext : Bool}
  {q : Call} {b : Buffer}

/-- If the node is an extension, nothing comes back from the module that it is declared in. -/
def Printer.DeclaresAlone (P : Printer) (s : Symbol) : Prop :=
  s.kind.layout = .extension → ∀ c, s.child? 0 = some c → Returns (· = none) (P.name c true)

/-- **A context that is given back is kept.** -/
theorem ContextCall.kept (h : ContextCall P s asContext b q) (hs : P.DeclaresAlone s)
    (hback : (P.answer q).1 = some p) : Kept P s asContext b q p := by
  cases h with
  | @storage c extra hlayout hc h has =>
    subst has
    refine .storage hlayout hc ?_
    rw [h P true]
    exact Prod.ext hback rfl
  | @context e c args style h hc hshow hword hplain =>
    have hnode : P.node s asContext b = _ :=
      (sameBut_self P ⟨c, true, b⟩).node_entity rfl h hc hshow hword hplain
    rw [hback] at hnode
    cases asContext with
    | true =>
      refine .handedOn h hc rfl ?_
      rw [hnode]
      rfl
    | false =>
      refine .printed rfl ⟨e, args, style, b.stopped (P.answer ⟨c, true, b⟩).2, h, hc, ?_, ?_⟩
      · rw [entityContext_asked hc hshow]
        exact Prod.ext hback rfl
      · rw [hnode, Printer.entityRest, Printer.entityEnd, hword]
        rfl
  | declaredIn hl hc => cases (hs hl _ hc _).symm.trans hback

theorem joint_size_pos (e : Symbol) : 0 < e.joint.utf8ByteSize := by
  unfold Symbol.joint
  split <;> decide

/-- An entity does something else if its context gives back nothing. -/
theorem entityRest_some_ne [P.Steady] :
    P.entityRest e args style asContext (some p) b ≠ P.entityRest e args style asContext none b := by
  intro heq
  cases asContext with
  | true => cases congrArg Prod.fst heq
  | false =>
    generalize hb₁ : (P.entityType e args style (style.isMultiWord e)
      (P.entityName e style (style.isMultiWord e) b).2).2 = b₁
    obtain ⟨⟨out, hout⟩, -⟩ := appends_name P p false { b₁ with text := b₁.text ++ e.joint }
    have htext : b₁.text ++ e.joint ++ out = b₁.text := by
      rw [← hout, ← hb₁]
      exact congrArg (fun r => r.2.text) heq
    have hsize := congrArg String.utf8ByteSize htext
    simp only [String.utf8ByteSize_append] at hsize
    have := joint_size_pos e
    omega

/-- What is given back makes a difference to the rule. -/
theorem ContextCall.not_ignores [P.Steady] (h : ContextCall P s asContext b q)
    (hs : P.DeclaresAlone s) (hback : (P.answer q).1 = some p) :
    ¬Ignores (fun P => P.node s asContext) P b q := by
  intro hignores
  have hQ : (P.answering q (none, (P.answer q).2)).node s asContext b = P.node s asContext b :=
    hignores _ sameBut_answering (by rw [answering_answer])
  cases h with
  | @storage c extra hlayout hc h has =>
    subst has
    rw [h P true, h _ true] at hQ
    have hanswer := answering_answer.symm.trans hQ
    rw [show P.name c true b = P.answer ⟨c, true, b⟩ from rfl] at hanswer
    cases (congrArg Prod.fst hanswer).trans hback
  | @context e c args style h hc hshow hword hplain =>
    rw [sameBut_answering.node_entity rfl h hc hshow hword hplain, answering_answer,
      (sameBut_self P ⟨c, true, b⟩).node_entity rfl h hc hshow hword hplain, hback] at hQ
    exact entityRest_some_ne hQ.symm
  | declaredIn hl hc => cases (hs hl _ hc _).symm.trans hback

end Kept

/-! ## Decoded trees -/

theorem kind_of_extension (k : Kind) : k.layout = .extension → k = .extension := by
  cases k <;> intro h <;> first | rfl | cases h

section Decoded

variable {g : Guard} {embedded : String → String} {o : Options} {n k : Nat} {m : String}
  {t p : Symbol} {b : Buffer} {root c q : Call}

/-- Extensions of a decoded tree are declared in modules, which give back nothing. -/
theorem Called.declaresAlone (hc : Called g embedded o n root (k + 1) c)
    (ht : decode m = .ok root.node) : (g.printer embedded o k).DeclaresAlone c.node := by
  intro hl s hs
  obtain ⟨module, hmodule, hk⟩ := decode_extension ht c.node hc.mem_nodes (kind_of_extension _ hl)
  cases hs.symm.trans hmodule
  exact printName_module g embedded o k hk true

/-- A call that gives back a context takes its node for one. -/
theorem Call.Makes.contextCall (hq : c.Makes g embedded o k q)
    (hback : ((g.printer embedded o k).answer q).1 = some p) :
    ContextCall (g.printer embedded o k) c.node c.asContext c.opened q := by
  refine (asks_context_iff ?_).mp hq.asks
  by_contra hown
  have hnone := printName_alone g embedded o k q.node q.buffer
  rw [← Bool.eq_false_iff.mpr hown] at hnone
  cases hback.symm.trans hnone

theorem Called.kept (hc : Called g embedded o n root (k + 1) c) (ht : decode m = .ok root.node)
    (hq : c.Makes g embedded o k q) (hback : ((g.printer embedded o k).answer q).1 = some p) :
    Kept (g.printer embedded o k) c.node c.asContext c.opened q p :=
  (hq.contextCall hback).kept (hc.declaresAlone ht) hback

theorem Called.none_of_ignores (hc : Called g embedded o n root (k + 1) c)
    (ht : decode m = .ok root.node) (hq : c.Makes g embedded o k q)
    (hignores : Ignores (fun P => P.node c.node c.asContext) (g.printer embedded o k) c.opened q) :
    ((g.printer embedded o k).answer q).1 = none := by
  by_contra hsome
  obtain ⟨p, hback⟩ := Option.ne_none_iff_exists'.mp hsome
  exact (hq.contextCall hback).not_ignores (hc.declaresAlone ht) hback hignores

/-- The rule for the node of the call prints the node `p`, which its context has given back. -/
def Call.Prints (g : Guard) (embedded : String → String) (o : Options) (k : Nat) (c : Call) (p : Symbol) :
    Prop :=
  c.asContext = false ∧ ∃ context, PrintsBehind (g.printer embedded o k) c.node c.opened context p

/-- **What is given back is printed further out**: by the rule that asked for it, or by one that this rule has
handed it on to. -/
theorem Called.printed (ht : decode m = .ok root.node) (halone : root.asContext = false)
    (h : Called g embedded o n root k q) : ((g.printer embedded o k).answer q).1 = some p →
      ∃ k' c, Called g embedded o n root (k' + 1) c ∧ c.Prints g embedded o k' p := by
  induction h with
  | root =>
    intro hback
    have hnone := printName_alone g embedded o n root.node root.buffer
    rw [← halone] at hnone
    cases hback.symm.trans hnone
  | @inner k c q hc hq ih =>
    intro hback
    -- what the rule hands on is what its own call gives back
    cases hc.kept ht hq hback with
    | storage _ _ h => exact ih (hq.answer.trans (congrArg Prod.fst h))
    | handedOn _ _ _ h => exact ih (hq.answer.trans h)
    | printed has h => exact ⟨k, c, hc, has, q.node, h⟩

/-- **No deferred context is dropped.** A node that is printed on its own gives back nothing. While a decoded tree
is printed, a call that gives back a context is made by an accessor, which returns it to its caller, or by
an entity, which returns it too or prints it behind its own name; so an entity prints it in the end, and
a rule that ignores what a call returns ignores nothing. -/
theorem deferred_context_kept :
    (∀ (g : Guard) (embedded : String → String) (o : Options) (n : Nat) (s : Symbol) (b : Buffer),
      (printName g embedded o n s false b).1 = none) ∧
    ∀ (m : String) (t : Symbol) (g : Guard) (embedded : String → String) (o : Options) (n : Nat)
      (b : Buffer) (k : Nat) (c q : Call), decode m = .ok t →
      Called g embedded o n ⟨t, false, b⟩ (k + 1) c → c.Makes g embedded o k q →
        (∀ p, ((g.printer embedded o k).answer q).1 = some p →
          Kept (g.printer embedded o k) c.node c.asContext c.opened q p ∧
          ∃ k' c', Called g embedded o n ⟨t, false, b⟩ (k' + 1) c' ∧ c'.Prints g embedded o k' p) ∧
        (Ignores (fun P => P.node c.node c.asContext) (g.printer embedded o k) c.opened q →
          ((g.printer embedded o k).answer q).1 = none) := by
  refine ⟨fun g embedded o n s b => printName_alone g embedded o n s b, ?_⟩
  intro m t g embedded o n b k c q ht hc hq
  have hq' : Called g embedded o n ⟨t, false, b⟩ k q := .inner hc hq
  exact ⟨fun p hback => ⟨hc.kept ht hq hback, hq'.printed ht rfl hback⟩,
    fun hignores => hc.none_of_ignores ht hq hignores⟩

end Decoded

/-! ## A structure in a getter -/

section Sample

variable {t e c : Symbol} {b : Buffer}

/-- The rule for the tree of a name with one node below it. -/
theorem node_global (hk : t.kind = .global) (ht : t.children = [e]) (P : Printer) :
    P.node t false b = (none, (P.answer ⟨e, false, b⟩).2) := by
  unfold Printer.node
  rw [hk]
  show (P.sequence "" (t.children.drop 0) >>= fun _ => pure none : Print (Option Symbol)) b = _
  rw [ht]
  rfl

theorem makes_global (hk : t.kind = .global) (ht : t.children = [e])
    (hb : b.depth < Symbol.nestingLimit) (k : Nat) :
    (⟨t, false, b⟩ : Call).Makes .standard id .full k
      ⟨e, false, { b with depth := b.depth + 1 }⟩ where
  opens := hb
  asks := asks_of_eq (f := fun r => (none, r.2)) (fun Q _ => node_global hk ht Q) (size_lt_lengthened _)

theorem makes_context (he : e.kind.layout = .entity) (hbound : e.kind ≠ .boundGenericFunction)
    (hword : (entityStyle .full e).isMultiWord e = false) (hc : e.child? 0 = some c)
    (hb : b.depth < Symbol.nestingLimit) (k : Nat) :
    (⟨e, false, b⟩ : Call).Makes .standard id .full k
      ⟨c, true, { b with depth := b.depth + 1 }⟩ where
  opens := hb
  asks := by
    have hshow : (Guard.standard.printer id .full k).showsContext c = true := by
      simp [Printer.showsContext, Options.full]
    exact (asks_context_iff rfl).mpr (.context (printsAs_self he hbound) hc hshow hword nofun)

end Sample

/-- In the tree of a name: the kinds of its first three nodes, how many nodes it has below the first one,
whether the second one has a name of several words, and what the third one gives back as its context. -/
def deferredView (k depth : Nat) (t : Symbol) : Option (List Kind × Nat × Bool × Option Kind) := do
  let e ← t.children[0]?
  let c ← e.child? 0
  return ([t.kind, e.kind, c.kind], t.children.length, (entityStyle .full e).isMultiWord e,
    (printName .standard id .full k c true { depth }).1.map Symbol.kind)

/-- The getter gives back its variable, the structure prints it, and the tree ignores nothing. -/
theorem deferred_context_kept_getter :
    ∃ t e c p, decode "$s4main1xSivg3FooV" = .ok t ∧ c.kind = .getter ∧ p.kind = .variableDecl ∧
      Called .standard id .full 1024 ⟨t, false, {}⟩ 1023 ⟨e, false, { depth := 1 }⟩ ∧
      (⟨e, false, { depth := 1 }⟩ : Call).Makes .standard id .full 1022 ⟨c, true, { depth := 2 }⟩ ∧
      (printName .standard id .full 1022 c true { depth := 2 }).1 = some p ∧
      Kept (Guard.standard.printer id .full 1022) e false { depth := 2 } ⟨c, true, { depth := 2 }⟩ p ∧
      Ignores (·.node t false) (Guard.standard.printer id .full 1023) { depth := 1 }
        ⟨e, false, { depth := 1 }⟩ ∧
      (printName .standard id .full 1023 e false { depth := 1 }).1 = none := by
  have hview : (decode "$s4main1xSivg3FooV").toOption.map (deferredView 1022 2) =
      some (some ([.global, .structType, .getter], 1, false, some .variableDecl)) := by decide +kernel
  obtain ⟨t, ht, hview⟩ := exists_decode hview
  obtain ⟨e, he, hview⟩ := Option.bind_eq_some_iff.mp hview
  obtain ⟨c, hc, hview⟩ := Option.bind_eq_some_iff.mp hview
  obtain ⟨⟨hglobal, hstruct, hgetter⟩, hlength, hword, hback⟩ : (_ ∧ _ ∧ _) ∧ _ ∧ _ ∧ _ := by
    simpa only [pure, Option.some.injEq, Prod.mk.injEq, List.cons.injEq, and_true] using hview
  obtain ⟨p, hp, hvariable⟩ := Option.map_eq_some_iff.mp hback
  have hchildren : t.children = [e] := by
    obtain ⟨e', he'⟩ := List.length_eq_one_iff.mp hlength
    rw [he'] at he ⊢
    exact congrArg (fun e => [e]) (Option.some.inj he)
  have hinside := makes_global (b := {}) hglobal hchildren (by decide) 1023
  have hcontext := makes_context (b := { depth := 1 }) (by rw [hstruct]; rfl) (by rw [hstruct]; decide)
    hword hc (by decide) 1022
  have hcalled : Called .standard id .full 1024 ⟨t, false, {}⟩ 1023 ⟨e, false, { depth := 1 }⟩ :=
    .inner .root hinside
  have hignores : Ignores (·.node t false) (Guard.standard.printer id .full 1023) { depth := 1 }
      ⟨e, false, { depth := 1 }⟩ := by
    intro Q _ hbuffer
    dsimp only
    rw [node_global hglobal hchildren, node_global hglobal hchildren, hbuffer]
  have hroot := deferred_context_kept.2 _ t .standard id .full 1024 {} 1023 _ _ ht .root hinside
  have hentity := deferred_context_kept.2 _ t .standard id .full 1024 {} 1022 _ _ ht hcalled hcontext
  exact ⟨t, e, c, p, ht, hgetter, hvariable, hcalled, hcontext, hp, (hentity.1 p hp).1, hignores,
    hroot.2 hignores⟩

end Demangle
