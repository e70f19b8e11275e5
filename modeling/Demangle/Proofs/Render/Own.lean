import Demangle.Proofs.Render.Deferred

/-!
# Nodes that are printed on their own

Most rules print the nodes below on their own, never as contexts. Such a rule does the same with a printer
that prints a node on its own even where it is asked for a context:

    P.own.node s asContext = P.node s asContext                              (own_node)

Only entities, accessors and extensions ask for contexts. What a node is printed by is thus one of four
rules (`NodeRule`), and no node that is printed on its own gives back anything (`printName_alone`).
-/

namespace Demangle

open Print (write)

/-- The printer, which takes no node for a context. -/
def Printer.own (P : Printer) : Printer :=
  { P with name := fun s _ => P.name s false }

section Own

variable (P : Printer)

/-! ## Lists of nodes -/

@[simp] theorem own_options : P.own.options = P.options := rfl

@[simp] theorem own_print (s : Symbol) : P.own.print s = P.print s := rfl

@[simp] theorem own_child (s : Symbol) (i : Nat) : P.own.child s i = P.child s i := rfl

@[simp] theorem own_separated (separator : String) (cs : List Symbol) :
    P.own.separated separator cs = P.separated separator cs := by
  induction cs with
  | nil => rfl
  | cons c cs ih => simp only [Printer.separated, ih, own_print]

@[simp] theorem own_sequence (separator : String) (cs : List Symbol) :
    P.own.sequence separator cs = P.sequence separator cs := by
  cases cs with
  | nil => rfl
  | cons c cs => simp only [Printer.sequence, own_separated, own_print]

theorem own_piece (s : Symbol) (p : Piece) : P.own.piece s p = P.piece s p := by
  cases p with
  | children i separator => exact own_sequence P separator _
  | _ => rfl

theorem own_pieces (s : Symbol) (ps : List Piece) : P.own.pieces s ps = P.pieces s ps := by
  induction ps with
  | nil => rfl
  | cons p ps ih => simp only [Printer.pieces, own_piece, ih]

theorem own_parameters (showTypes : Bool) (ps : List Symbol) : ∀ first labels,
    P.own.parameters showTypes first labels ps = P.parameters showTypes first labels ps := by
  induction ps with
  | nil => exact fun _ _ => rfl
  | cons p ps ih =>
    intro first labels
    simp only [Printer.parameters, ih, own_print]

theorem own_loweredParts (cs : List Symbol) : ∀ part,
    P.own.loweredParts part cs = P.loweredParts part cs := by
  induction cs with
  | nil =>
    intro part
    cases part <;> rfl
  | cons c cs ih =>
    intro part
    simp only [Printer.loweredParts, ih, own_print]

theorem own_specializationParts (lead : String) (cs : List Symbol) : ∀ separator,
    P.own.specializationParts lead separator cs = P.specializationParts lead separator cs := by
  induction cs with
  | nil => exact fun _ => rfl
  | cons c cs ih =>
    intro separator
    simp only [Printer.specializationParts, ih, own_print]

theorem own_change (kindNode : Symbol) (rest : List Symbol) :
    P.own.change kindNode rest = P.change kindNode rest := by
  unfold Printer.change
  simp only [own_sequence, own_print]
  rfl

theorem own_changes (fuel : Nat) : ∀ separator cs,
    P.own.changes fuel separator cs = P.changes fuel separator cs := by
  induction fuel with
  | zero =>
    intro separator cs
    cases cs <;> rfl
  | succ fuel ih =>
    intro separator cs
    cases cs with
    | nil => rfl
    | cons c cs => simp only [Printer.changes, ih, own_change]

/-! ## Function types and entities -/

@[simp] theorem own_parameterList (labels : Option Symbol) (s : Symbol) :
    P.own.parameterList labels s = P.parameterList labels s := by
  simp only [Printer.parameterList, own_parameters, own_options, own_print]
  rfl

@[simp] theorem own_functionType (labels : Option Symbol) (s : Symbol) :
    P.own.functionType labels s = P.functionType labels s := by
  simp only [Printer.functionType, own_parameterList, own_options, own_child]
  rfl

theorem own_entityName (e : Symbol) (style : EntityStyle) (multiWord : Bool) :
    P.own.entityName e style multiWord = P.entityName e style multiWord := rfl

theorem own_entityType (e : Symbol) (args : Option Symbol) (style : EntityStyle) (multiWord : Bool) :
    P.own.entityType e args style multiWord = P.entityType e args style multiWord := by
  simp only [Printer.entityType, Printer.typeOf, own_functionType, own_sequence, own_options,
    own_print, own_child]

theorem own_entityEnd (e : Symbol) (args : Option Symbol) (style : EntityStyle)
    (deferred : Option Symbol) :
    P.own.entityEnd e args style deferred = P.entityEnd e args style deferred := by
  simp only [Printer.entityEnd, own_entityType, own_print]

/-! ## All rules -/

/-- Nodes of the layout may print others as contexts. -/
def Layout.printsContexts : Layout → Bool
  | .entity | .accessor _ | .extension => true
  | _ => false

/-- **All other rules print nodes on their own.** -/
theorem own_node {s : Symbol} (h : s.kind.layout.printsContexts = false) (asContext : Bool) :
    P.own.node s asContext = P.node s asContext := by
  unfold Printer.node
  cases hl : s.kind.layout with
  | entity | accessor | extension =>
    rw [hl] at h
    cases h
  | pieces ps => simp only [own_pieces]
  | functionType lead => simp only [own_functionType]
  | argumentTuple => simp only [own_parameterList]
  | returnType => simp only [Printer.returnType, own_sequence]
  | loweredFunction => simp only [Printer.loweredFunction, own_loweredParts]
  | boundGeneric =>
    simp only [Printer.boundGeneric, Printer.plainBound, own_sequence, own_options, own_print, own_child]
    rfl
  | protocolList => simp only [Printer.protocolList, own_sequence]
  | protocolListWithClass => simp only [Printer.protocolListWithClass, own_sequence, own_child]
  | protocolListWithAnyObject =>
    simp only [Printer.protocolListWithAnyObject, own_sequence, own_options]
    rfl
  | boxWithLayout => simp only [Printer.boxWithLayout, own_sequence, own_child]
  | boxLayout => simp only [Printer.boxLayout, own_sequence]
  | signature => simp only [Printer.signature, own_sequence, own_options]
  | partialApply forwarder => simp only [Printer.partialApply, own_sequence, own_options]
  | keyPathIndices lead => simp only [Printer.keyPathIndices, own_sequence, own_print]
  | specialization description lead =>
    simp only [Printer.specialization, own_specializationParts, own_options]
  | specializationParam => simp only [Printer.specializationParam, own_separated, own_print, own_child]
  | argumentRecord | resultRecord => simp only [Printer.changeRecord, own_changes]
  | retroactive => simp only [Printer.retroactive, own_sequence]
  | _ => rfl

end Own

/-! ## What a node is printed by -/

/-- The node is printed as an entity, with the given arguments and in the given style. -/
def PrintsAs (o : Options) (s e : Symbol) (args : Option Symbol) (style : EntityStyle) : Prop :=
  ∀ (P : Printer) (asContext : Bool), P.options = o →
    P.node s asContext = P.entityWith e args asContext style

/-- The rules by which a node can be printed. -/
inductive NodeRule (o : Options) (s : Symbol) : Prop
  /-- Other nodes are printed on their own, and nothing is given back. -/
  | own (h : ∀ (P : Printer) (asContext : Bool), P.own.node s asContext = P.node s asContext)
      (hback : ∀ (P : Printer) (asContext : Bool), Returns (· = none) (P.node s asContext))
  | entity {e : Symbol} {args : Option Symbol} {style : EntityStyle} (h : PrintsAs o s e args style)
  /-- An accessor of what is neither a variable nor a subscript is printed as that is. -/
  | storage {c : Symbol} {extra : String} (hl : s.kind.layout = .accessor extra)
      (hc : s.child? 0 = some c) (h : ∀ (P : Printer) (asContext : Bool),
        P.node s asContext = P.name c asContext)
  | extension (hl : s.kind.layout = .extension)

section NodeRule

variable {P : Printer} {o : Options} {s : Symbol}

theorem node_entity (hl : s.kind.layout = .entity) (asContext : Bool) :
    P.node s asContext = P.entity s asContext := by
  unfold Printer.node
  rw [hl]

theorem node_accessor {extra : String} (hl : s.kind.layout = .accessor extra) (asContext : Bool) :
    P.node s asContext = P.accessor s asContext extra := by
  unfold Printer.node
  rw [hl]

/-- A node that is printed as nothing. -/
theorem nodeRule_nothing (h : ∀ (P : Printer) (asContext : Bool), P.node s asContext = pure none) :
    NodeRule o s :=
  .own (fun P asContext => by rw [h, h]) fun P asContext => by
    rw [h]
    exact .pure rfl

theorem printsAs_self (hl : s.kind.layout = .entity) (hbound : s.kind ≠ .boundGenericFunction) :
    PrintsAs o s s none (entityStyle o s) := by
  intro P asContext ho
  rw [node_entity hl, Printer.entity, Printer.styledEntity, if_neg (mt beq_iff_eq.mp hbound), ho]

theorem printsAs_function {f : Symbol} (hl : s.kind.layout = .entity)
    (hbound : s.kind = .boundGenericFunction) (hf : s.child? 0 = some f) :
    PrintsAs o s f (s.child? 1) (entityStyle o s) := by
  intro P asContext ho
  rw [node_entity hl, Printer.entity, Printer.styledEntity, if_pos (beq_iff_eq.mpr hbound), hf, ho]

theorem nodeRule_entity (hl : s.kind.layout = .entity) : NodeRule o s := by
  by_cases hbound : s.kind = .boundGenericFunction
  · cases hf : s.child? 0 with
    | none =>
      refine nodeRule_nothing fun P asContext => ?_
      rw [node_entity hl, Printer.entity, Printer.styledEntity, if_pos (beq_iff_eq.mpr hbound), hf]
    | some f =>
      exact .entity (printsAs_function hl hbound hf)
  · exact .entity (printsAs_self hl hbound)

theorem nodeRule_accessor {extra : String} (hl : s.kind.layout = .accessor extra) : NodeRule o s := by
  cases hs : s.child? 0 with
  | none =>
    refine nodeRule_nothing fun P asContext => ?_
    rw [node_accessor hl, Printer.accessor, hs]
  | some c =>
    by_cases hkind : c.kind = .variableDecl ∨ c.kind = .subscript
    · obtain ⟨style, hstyle⟩ : ∃ style : EntityStyle, ∀ (P : Printer) (asContext : Bool),
          P.accessor s asContext extra = P.entityWith c none asContext style := by
        unfold Printer.accessor Printer.styledEntity
        rw [hs]
        rcases hkind with hkind | hkind
        all_goals
          dsimp only
          rw [hkind]
          exact ⟨_, fun _ _ => rfl⟩
      exact .entity fun P asContext _ => (node_accessor hl asContext).trans (hstyle P asContext)
    · exact .storage hl hs fun P asContext => (node_accessor hl asContext).trans (accessor_other hs hkind)

/-- A node that is neither an entity nor an accessor gives back nothing. -/
theorem node_none (P : Printer) (asContext : Bool) (h : s.kind.layout ≠ .entity)
    (h' : ∀ extra, s.kind.layout ≠ .accessor extra) : Returns (· = none) (P.node s asContext) := by
  unfold Printer.node
  cases hl : s.kind.layout with
  | entity => exact absurd hl h
  | accessor extra => exact absurd hl (h' extra)
  | _ => exact .then fun _ => .pure rfl

/-- **Every node is printed by one of the rules.** -/
theorem nodeRule (o : Options) (s : Symbol) : NodeRule o s := by
  cases hprints : s.kind.layout.printsContexts with
  | false =>
    refine .own (fun P => own_node P hprints) fun P asContext => node_none P asContext ?_ fun extra => ?_
    all_goals
      intro hl
      rw [hl] at hprints
      cases hprints
  | true =>
    cases hl : s.kind.layout with
    | entity => exact nodeRule_entity hl
    | accessor extra => exact nodeRule_accessor hl
    | extension => exact .extension hl
    | _ =>
      rw [hl] at hprints
      cases hprints

end NodeRule

/-! ## What is given back -/

section Alone

variable {P : Printer} {s e : Symbol}

theorem entityWith_alone_none (args : Option Symbol) (style : EntityStyle) :
    Returns (· = none) (P.entityWith e args false style) := by
  rw [entityWith_alone]
  refine .then fun deferred => .then fun _ => .then fun _ => ?_
  cases deferred with
  | none => exact .pure rfl
  | some context => exact .then fun _ => .then fun _ => .pure rfl

theorem node_alone_none (hP : ∀ c, Returns (· = none) (P.name c false)) :
    Returns (· = none) (P.node s false) := by
  cases nodeRule P.options s with
  | own _ hback => exact hback P false
  | entity h =>
    rw [h P false rfl]
    exact entityWith_alone_none _ _
  | @storage c extra hl hc h =>
    rw [h]
    exact hP c
  | extension hl => exact node_none P false (by simp [hl]) (by simp [hl])

/-- **A node that is printed on its own gives back nothing.** -/
theorem printName_alone (g : Guard) (embedded : String → String) (o : Options) (n : Nat) :
    ∀ s, Returns (· = none) (printName g embedded o n s false) := by
  induction n with
  | zero => exact fun _ => .then fun _ => .pure rfl
  | succ n ih =>
    intro s
    refine .then fun b => .ite (.then fun _ => .pure rfl) (.then fun _ => ?_)
    exact (node_alone_none (P := g.printer embedded o n) ih).bind fun _ h => .then fun _ => .pure h

end Alone

end Demangle
