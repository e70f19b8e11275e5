import Demangle.Proofs.Render.Own

/-!
# The calls that a rule makes

The rule for a node calls its printer on other nodes. A step makes a call if it comes out differently under a
printer that differs in nothing but its answer to this call:

    Asks x P b q ↔ ∃ Q, P.SameBut Q q ∧ x Q b ≠ x P b

All calls of a rule are about nodes below (`Asks.below`). The calls that take a node for a context are few:
an entity asks for its context, an accessor for what it accesses, and an extension for the module that it is
declared in (`asks_context_iff`).
-/

namespace Demangle

open Print (write)

/-! ## Calls -/

/-- A call to a printer. -/
structure Call where
  node : Symbol
  /-- The node is printed as the context of another one. -/
  asContext : Bool
  buffer : Buffer

/-- What the call returns, and the buffer that it leaves. -/
def Printer.answer (P : Printer) (q : Call) : Option Symbol × Buffer :=
  P.name q.node q.asContext q.buffer

/-- The second printer does what the first one does in all calls but one. -/
structure Printer.SameBut (P Q : Printer) (q : Call) : Prop where
  options : Q.options = P.options
  embedded : Q.embedded = P.embedded
  answer : ∀ r, r ≠ q → Q.answer r = P.answer r

/-- The step makes the call: what it does depends on the answer. -/
def Asks {α : Type} (x : Printer → Print α) (P : Printer) (b : Buffer) (q : Call) : Prop :=
  ∃ Q, P.SameBut Q q ∧ x Q b ≠ x P b

/-- What the call returns makes no difference to the step. -/
def Ignores {α : Type} (x : Printer → Print α) (P : Printer) (b : Buffer) (q : Call) : Prop :=
  ∀ Q, P.SameBut Q q → (Q.answer q).2 = (P.answer q).2 → x Q b = x P b

open Classical in
/-- The printer, with another answer to one call. -/
noncomputable def Printer.answering (P : Printer) (q : Call) (r : Option Symbol × Buffer) : Printer :=
  { P with name := fun s asContext b => if (⟨s, asContext, b⟩ : Call) = q then r else P.name s asContext b }

section Calls

variable {α : Type} {P Q : Printer} {q : Call} {b : Buffer} {r : Option Symbol × Buffer}

theorem answering_answer : (P.answering q r).answer q = r :=
  if_pos rfl

theorem sameBut_answering : P.SameBut (P.answering q r) q :=
  ⟨rfl, rfl, fun _ hne => if_neg hne⟩

theorem sameBut_self (P : Printer) (q : Call) : P.SameBut P q :=
  ⟨rfl, rfl, fun _ _ => rfl⟩

/-- The answer, with a longer text. -/
def lengthened (r : Option Symbol × Buffer) : Option Symbol × Buffer :=
  (r.1, { r.2 with text := r.2.text ++ "." })

/-- A step that is put together from the answer makes the call if it writes more where the answer does. -/
theorem asks_of_eq {x : Printer → Print α} {f : Option Symbol × Buffer → α × Buffer}
    (h : ∀ Q, P.SameBut Q q → x Q b = f (Q.answer q))
    (hlonger : (f (P.answer q)).2.text.utf8ByteSize <
      (f (lengthened (P.answer q))).2.text.utf8ByteSize) : Asks x P b q := by
  refine ⟨P.answering q (lengthened (P.answer q)), sameBut_answering, fun heq => ?_⟩
  rw [h _ sameBut_answering, h P (sameBut_self P q), answering_answer] at heq
  rw [heq] at hlonger
  exact absurd hlonger (Nat.lt_irrefl _)

/-- A longer text stays longer. -/
theorem size_lt_of_alike {x : Print α} (h : ∀ w d, Alike w d x x) {b : Buffer} {t t' : String}
    (hlt : t.utf8ByteSize < t'.utf8ByteSize) :
    (x { b with text := t }).2.text.utf8ByteSize < (x { b with text := t' }).2.text.utf8ByteSize := by
  rw [alike_behind h b t, alike_behind h b t']
  simp only [Buffer.after, String.utf8ByteSize_append]
  omega

end Calls

/-! ## Nodes below -/

section Below

variable {P Q : Printer} {s : Symbol} {asContext : Bool} {q : Call} {b : Buffer}

/-- Printers that differ in a call elsewhere do the same below a node. -/
theorem Printer.SameBut.agree [hP : P.Steady] (h : P.SameBut Q q) (hq : ¬q.node.Below s) (d : Nat) :
    Agree "" d P Q s where
  name n hn asContext := by
    have hsame : Q.name n asContext = P.name n asContext := by
      funext b
      refine h.answer ⟨n, asContext, b⟩ ?_
      rintro rfl
      exact hq hn
    rw [hsame]
    exact hP.name n asContext "" d

/-- **A rule asks for nodes below its own.** -/
theorem Asks.below [P.Steady] (hP : Defers P) (h : Asks (fun P => P.node s asContext) P b q) :
    q.node.Below s := by
  obtain ⟨Q, hsame, hne⟩ := h
  by_contra hq
  have := hsame.agree hq b.depth
  have ho : P.options.SameFor Q.options s := by
    rw [hsame.options]
    exact .refl _ _
  have he : s.ReadAlike P.embedded Q.embedded := by
    rw [hsame.embedded]
    exact .refl _ _
  have hrun := (alike_node (w := "") (d := b.depth) hP ho he asContext).run b rfl
  rw [Buffer.after_empty, Buffer.after_empty] at hrun
  exact hne hrun

end Below

/-! ## Calls for contexts -/

namespace Printer.SameBut

variable {P Q : Printer} {q : Call}

/-- Printers that differ in a call for a context print all nodes on their own alike. -/
theorem own_eq (h : P.SameBut Q q) (hq : q.asContext = true) : Q.own = P.own := by
  have hname : (fun s (_ : Bool) => Q.name s false) = fun s _ => P.name s false := by
    funext s _ b
    refine h.answer ⟨s, false, b⟩ ?_
    rintro rfl
    cases hq
  unfold Printer.own
  rw [hname, h.options, h.embedded]

/-- So a step that asks for no context comes out alike. -/
theorem eq_of_own {α : Type} (h : P.SameBut Q q) (hq : q.asContext = true) (x : Printer → α)
    (hx : ∀ P, x P.own = x P) : x Q = x P := by
  rw [← hx Q, h.own_eq hq, hx]

theorem showsContext (h : P.SameBut Q q) : Q.showsContext = P.showsContext := by
  unfold Printer.showsContext
  rw [h.options]

theorem showsExtensions (h : P.SameBut Q q) : Q.showsExtensions = P.showsExtensions := by
  unfold Printer.showsExtensions
  rw [h.options]

end Printer.SameBut

section Contexts

variable {P Q : Printer} {s e c : Symbol} {args : Option Symbol} {style : EntityStyle}
  {asContext multiWord : Bool} {q : Call} {b : Buffer}

/-! ## Entities -/

/-- What an entity does behind its context. -/
def Printer.entityRest (P : Printer) (e : Symbol) (args : Option Symbol) (style : EntityStyle)
    (asContext : Bool) (deferred : Option Symbol) : Print (Option Symbol) := do
  P.entityName e style (style.isMultiWord e)
  if asContext then return deferred else P.entityEnd e args style deferred

theorem own_entityRest (P : Printer) :
    P.own.entityRest e args style asContext = P.entityRest e args style asContext := by
  funext deferred
  simp only [Printer.entityRest, own_entityName, own_entityEnd]

theorem alike_entityRest [P.Steady] (deferred : Option Symbol) (w : String) (d : Nat) :
    Alike w d (P.entityRest e args style asContext deferred)
      (P.entityRest e args style asContext deferred) := by
  have : Alike w d (P.entityEnd e args style deferred) (P.entityEnd e args style deferred) :=
    alike_entityEnd deferred w d
  unfold Printer.entityRest
  infer_instance

/-- An entity that is not given back prints its context first. -/
theorem entityWith_eq (h : (asContext && (style.type != .hidden || style.isMultiWord e)) = false) :
    P.entityWith e args asContext style b =
      P.entityRest e args style asContext (P.entityContext e (style.isMultiWord e) b).1
        (P.entityContext e (style.isMultiWord e) b).2 := by
  cases asContext with
  | false => rfl
  | true =>
    rw [Bool.true_and] at h
    rw [entityWith_handed h, Printer.entityRest, (Bool.or_eq_false_iff.mp h).2]
    rfl

/-- A full stop stands behind a context that has written anything. -/
def Buffer.stopped (b b' : Buffer) : Buffer :=
  { b' with text := if b'.text.utf8ByteSize != b.text.utf8ByteSize then b'.text ++ "." else b'.text }

theorem entityContext_asked (hc : e.child? 0 = some c) (hshow : P.showsContext c = true) :
    P.entityContext e false b = ((P.name c true b).1, b.stopped (P.name c true b).2) := by
  rw [entityContext_eq hc hshow, Buffer.stopped]
  split
  · rfl
  · rfl

/-- A context that is not asked for stays as it is, behind the name or nowhere. -/
theorem entityContext_unasked
    (h : ¬∃ c, e.child? 0 = some c ∧ P.showsContext c = true ∧ multiWord = false) :
    P.entityContext e multiWord b = ((e.child? 0).filter P.showsContext, b) := by
  unfold Printer.entityContext
  cases hc : e.child? 0 with
  | none => rfl
  | some c =>
    dsimp only
    cases hshow : P.showsContext c with
    | false =>
      rw [Option.filter_some_neg (by simp [hshow])]
      rfl
    | true =>
      obtain rfl : multiWord = true := by
        by_contra hword
        exact h ⟨c, hc, hshow, Bool.eq_false_iff.mpr hword⟩
      rw [Option.filter_some_pos hshow]
      rfl

namespace Printer.SameBut

/-- An entity whose context comes out alike does. -/
theorem entityWith (h : P.SameBut Q q) (hq : q.asContext = true)
    (hcontext : Q.entityContext e (style.isMultiWord e) b = P.entityContext e (style.isMultiWord e) b) :
    Q.entityWith e args asContext style b = P.entityWith e args asContext style b := by
  cases hmoves : asContext && (style.type != .hidden || style.isMultiWord e) with
  | true =>
    obtain ⟨rfl, hmoves⟩ := Bool.and_eq_true_iff.mp hmoves
    rw [entityWith_back hmoves, entityWith_back hmoves]
  | false =>
    rw [entityWith_eq hmoves, entityWith_eq hmoves, hcontext,
      h.eq_of_own hq (·.entityRest e args style asContext) fun P => own_entityRest P]

/-- The context of an entity comes out alike unless it is asked for. -/
theorem of_entityContext_ne (h : P.SameBut Q q)
    (hne : Q.entityContext e multiWord b ≠ P.entityContext e multiWord b) :
    ∃ c, e.child? 0 = some c ∧ P.showsContext c = true ∧ multiWord = false ∧ q = ⟨c, true, b⟩ := by
  by_cases hasks : ∃ c, e.child? 0 = some c ∧ P.showsContext c = true ∧ multiWord = false
  · obtain ⟨c, hc, hshow, rfl⟩ := hasks
    refine ⟨c, hc, hshow, rfl, ?_⟩
    by_contra hq
    have hanswer : Q.name c true b = P.name c true b := h.answer ⟨c, true, b⟩ (Ne.symm hq)
    refine hne ?_
    rw [entityContext_asked hc (h.showsContext ▸ hshow), entityContext_asked hc hshow, hanswer]
  · refine absurd ?_ hne
    rw [entityContext_unasked (h.showsContext ▸ hasks), entityContext_unasked hasks, h.showsContext]

/-- An entity that asks for its context under printers that print all nodes on their own alike. -/
theorem node_entity (h : P.SameBut Q q) (hq : q.asContext = true)
    (hs : PrintsAs P.options s e args style) (hc : e.child? 0 = some c)
    (hshow : P.showsContext c = true) (hword : style.isMultiWord e = false)
    (hplain : asContext = true → style.type = .hidden) :
    Q.node s asContext b =
      P.entityRest e args style asContext (Q.answer ⟨c, true, b⟩).1
        (b.stopped (Q.answer ⟨c, true, b⟩).2) := by
  have hmoves : (asContext && (style.type != .hidden || style.isMultiWord e)) = false := by
    cases asContext with
    | false => rfl
    | true => simp [hplain rfl, hword]
  rw [hs Q asContext h.options, entityWith_eq hmoves, hword,
    entityContext_asked hc (h.showsContext ▸ hshow),
    h.eq_of_own hq (·.entityRest e args style asContext) fun P => own_entityRest P]
  rfl

end Printer.SameBut

/-! ## Extensions -/

/-- What an extension does behind the module that it is declared in. -/
def Printer.extensionEnd (P : Printer) (s : Symbol) : Print (Option Symbol) := do
  write "):"
  P.child s 1
  P.child s 2
  return none

theorem alike_extensionEnd [P.Steady] (w : String) (d : Nat) :
    Alike w d (P.extensionEnd s) (P.extensionEnd s) := by
  unfold Printer.extensionEnd
  infer_instance

theorem node_extension (hl : s.kind.layout = .extension) :
    P.node s asContext = (do
      P.extension s
      return none) := by
  unfold Printer.node
  rw [hl]

theorem node_extension_unasked (hl : s.kind.layout = .extension)
    (h : ¬∃ c, s.child? 0 = some c ∧ P.showsExtensions = true) :
    P.own.node s asContext = P.node s asContext := by
  rw [node_extension hl, node_extension hl]
  unfold Printer.extension
  have hshows : P.own.showsExtensions = P.showsExtensions := rfl
  rw [hshows]
  cases hshow : P.showsExtensions with
  | false => rfl
  | true =>
    cases hc : s.child? 0 with
    | none => rfl
    | some c => exact absurd ⟨c, hc, hshow⟩ h

namespace Printer.SameBut

/-- An extension under printers that print all nodes on their own alike. -/
theorem node_extension (h : P.SameBut Q q) (hq : q.asContext = true)
    (hl : s.kind.layout = .extension) (hc : s.child? 0 = some c) (hshow : P.showsExtensions = true) :
    Q.node s asContext b =
      P.extensionEnd s (Q.answer ⟨c, true, { b with text := b.text ++ "(extension in " }⟩).2 := by
  rw [← h.eq_of_own hq (·.extensionEnd s) fun _ => rfl, Demangle.node_extension hl]
  unfold Printer.extension
  rw [h.showsExtensions, hshow, hc]
  rfl

theorem of_node_extension_ne (h : P.SameBut Q q) (hq : q.asContext = true)
    (hl : s.kind.layout = .extension) (hne : Q.node s asContext b ≠ P.node s asContext b) :
    ∃ c, s.child? 0 = some c ∧ P.showsExtensions = true ∧
      q = ⟨c, true, { b with text := b.text ++ "(extension in " }⟩ := by
  by_cases hasks : ∃ c, s.child? 0 = some c ∧ P.showsExtensions = true
  · obtain ⟨c, hc, hshow⟩ := hasks
    refine ⟨c, hc, hshow, ?_⟩
    by_contra hr
    refine hne ?_
    rw [h.node_extension hq hl hc hshow, (sameBut_self P q).node_extension hq hl hc hshow,
      h.answer _ (Ne.symm hr)]
  · refine absurd ?_ hne
    rw [← node_extension_unasked hl (h.showsExtensions ▸ hasks), h.own_eq hq,
      node_extension_unasked hl hasks]

end Printer.SameBut

/-! ## Where contexts are asked for -/

/-- The calls for contexts that the rule of a node makes. -/
inductive ContextCall (P : Printer) (s : Symbol) (asContext : Bool) (b : Buffer) : Call → Prop
  /-- An accessor of what is neither a variable nor a subscript is printed as that is. -/
  | storage {c : Symbol} {extra : String} (hl : s.kind.layout = .accessor extra)
      (hc : s.child? 0 = some c)
      (h : ∀ (P : Printer) (asContext : Bool), P.node s asContext = P.name c asContext)
      (has : asContext = true) : ContextCall P s asContext b ⟨c, true, b⟩
  /-- An entity that has a name of one word, and shows no type if it is a context itself. -/
  | context {e c : Symbol} {args : Option Symbol} {style : EntityStyle}
      (h : PrintsAs P.options s e args style) (hc : e.child? 0 = some c)
      (hshow : P.showsContext c = true) (hword : style.isMultiWord e = false)
      (hplain : asContext = true → style.type = .hidden) : ContextCall P s asContext b ⟨c, true, b⟩
  /-- An extension whose context is shown. -/
  | declaredIn {c : Symbol} (hl : s.kind.layout = .extension) (hc : s.child? 0 = some c)
      (hshow : P.showsExtensions = true) :
      ContextCall P s asContext b ⟨c, true, { b with text := b.text ++ "(extension in " }⟩

/-- A rule asks for contexts in the places of `ContextCall` only. -/
theorem contextCall_of_asks (hq : q.asContext = true)
    (h : Asks (fun P => P.node s asContext) P b q) : ContextCall P s asContext b q := by
  obtain ⟨Q, hsame, hne⟩ := h
  dsimp only at hne
  cases nodeRule P.options s with
  | own hown _ =>
    refine absurd ?_ hne
    rw [hsame.eq_of_own hq (·.node s asContext) fun P => hown P asContext]
  | @entity e args style h =>
    rw [h Q asContext hsame.options, h P asContext rfl] at hne
    obtain ⟨c, hc, hshow, hword, rfl⟩ :=
      hsame.of_entityContext_ne fun hcontext => hne (hsame.entityWith hq hcontext)
    refine .context h hc hshow hword fun has => ?_
    by_contra htype
    have hmoves : (style.type != .hidden || style.isMultiWord e) = true := by simp [htype]
    rw [has, entityWith_back hmoves, entityWith_back hmoves] at hne
    exact hne rfl
  | @storage c extra hl hc h =>
    rw [h Q asContext, h P asContext] at hne
    have hcall : q = ⟨c, asContext, b⟩ := by
      by_contra hother
      exact hne (hsame.answer ⟨c, asContext, b⟩ (Ne.symm hother))
    obtain rfl : asContext = true := by
      rw [hcall] at hq
      exact hq
    rw [hcall]
    exact .storage hl hc h rfl
  | extension hl =>
    obtain ⟨c, hc, hshow, rfl⟩ := hsame.of_node_extension_ne hq hl hne
    exact .declaredIn hl hc hshow

theorem size_lt_lengthened (r : Option Symbol × Buffer) :
    r.2.text.utf8ByteSize < (lengthened r).2.text.utf8ByteSize := by
  have hstop : ".".utf8ByteSize = 1 := by decide
  simp only [lengthened, String.utf8ByteSize_append, hstop]
  omega

/-- A longer answer is longer with a full stop as well: it has one if the shorter one has. -/
theorem stopped_size_lt {r : Option Symbol × Buffer}
    (h : b.text.utf8ByteSize ≤ r.2.text.utf8ByteSize) :
    (b.stopped r.2).text.utf8ByteSize < (b.stopped (lengthened r).2).text.utf8ByteSize := by
  have hlt := size_lt_lengthened r
  have hstop : ".".utf8ByteSize = 1 := by decide
  have hlonger : ((lengthened r).2.text.utf8ByteSize != b.text.utf8ByteSize) = true :=
    bne_iff_ne.mpr (by omega)
  unfold Buffer.stopped
  rw [if_pos hlonger]
  split
  · simp only [String.utf8ByteSize_append]
    omega
  · simp only [String.utf8ByteSize_append]
    omega

/-- And in all of these places the context is asked for. -/
theorem asks_of_contextCall [hP : P.Steady] (h : ContextCall P s asContext b q) :
    Asks (fun P => P.node s asContext) P b q := by
  cases h with
  | @storage c extra hl hc h has =>
    subst has
    refine asks_of_eq (f := id) (fun Q _ => ?_) (size_lt_lengthened _)
    rw [h Q true]
    rfl
  | @context e c args style h hc hshow hword hplain =>
    refine asks_of_eq (f := fun r => P.entityRest e args style asContext r.1 (b.stopped r.2))
      (fun Q hsame => hsame.node_entity rfl h hc hshow hword hplain) ?_
    obtain ⟨⟨out, hout⟩, -⟩ := appends_name P c true b
    refine size_lt_of_alike (alike_entityRest _) (stopped_size_lt ?_)
    show _ ≤ (P.name c true b).2.text.utf8ByteSize
    rw [hout, String.utf8ByteSize_append]
    exact Nat.le_add_right _ _
  | @declaredIn c hl hc hshow =>
    refine asks_of_eq (f := fun r => P.extensionEnd s r.2)
      (fun Q hsame => hsame.node_extension rfl hl hc hshow) ?_
    exact size_lt_of_alike alike_extensionEnd (size_lt_lengthened _)

/-- **Where a rule asks for contexts.** -/
theorem asks_context_iff [P.Steady] (hq : q.asContext = true) :
    Asks (fun P => P.node s asContext) P b q ↔ ContextCall P s asContext b q :=
  ⟨contextCall_of_asks hq, asks_of_contextCall⟩

end Contexts

end Demangle
