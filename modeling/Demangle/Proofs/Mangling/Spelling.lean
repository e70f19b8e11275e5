import Demangle.Proofs.Mangling.Type

/-!
# What the spellings of types do

One lemma for each way to make a type: if the spellings of the parts push their trees, then the spelling
of the whole pushes its tree, wherever it stands and whatever is below. The parts come first, so the
operator of the whole finds their trees on top, from the last to the first one.
-/

namespace Demangle

open Symbol Decode

/-! ## Types of the standard library -/

theorem standardType?_letter {c : Char} {k : Kind} {name : String}
    (h : standardType? c = some (k, name)) :
    c.toNat < 0x80 ∧ c.isDigit = false ∧ standardOperator? c = none := by
  unfold standardType? at h
  split at h <;> cases h <;> exact ⟨by decide, by decide, rfl⟩

theorem standardSubstitution_type {c : Char} {k : Kind} {name : String}
    (h : standardType? c = some (k, name)) {s : State} {r : List Cell}
    (hs : s.cursor.rest = Cell.ascii c :: r) :
    standardSubstitution s =
      .ok (standardType k name) { s with cursor := s.cursor.advance 1 } := by
  obtain ⟨hlow, hdigit, hnone⟩ := standardType?_letter h
  have hletter := Cell.letter_ascii hlow
  have hpeek := Scan.peek?_ascii hlow hs
  have hoperator := Scan.letter?_miss (f := standardOperator?) hs (by rw [hletter]; exact hnone)
  have hcount := Scan.integer?_none hs (by rw [Cell.isDigit_ascii hlow]; exact hdigit)
  have htype := Scan.letter_hit (f := standardType?) hs (by rw [hletter]; exact h)
    (.expected "a standard substitution letter")
  have hlimit : ensure (decide ((none : Option UInt64).getD 0 ≤ repeatLimit)) s = .ok () s := rfl
  unfold standardSubstitution
  rw [bind_ok (lift_ok hpeek)]
  simp only [Option.isNone_some, Bool.false_eq_true, if_false]
  rw [bind_ok (lift_ok hoperator)]
  dsimp only
  rw [bind_ok (lift_ok hcount), bind_ok hlimit, bind_ok (lift_ok htype)]
  rfl

/-- The letter `S` and another one are read by one operator. -/
theorem spells_standardLetter {c : Char} {before below : List Symbol} {x : Symbol}
    (hc : c.toNat < 0x80) (hx : x.depth ≤ nestingLimit)
    (h : ∀ (s : State) (r : List Cell), s.cursor.rest = Cell.ascii c :: r → s.operands = before →
      ∃ t, standardSubstitution s = .ok x t ∧ t.cursor = s.cursor.advance 1 ∧ t.operands = below) :
    Spells ("S" ++ String.singleton c) before (x :: below) := by
  have hcells : Cell.ofString ("S" ++ String.singleton c) = [Cell.ascii 'S', Cell.ascii c] := by
    rw [Cell.ofString_append, Cell.ofString_singleton hc]
    rfl
  refine spells_operator (by simp) hx fun s rest hs _ hb => ?_
  rw [hcells] at hs ⊢
  have hrest : (s.cursor.advance 1).rest = Cell.ascii c :: rest := by
    rw [Cursor.advance, hs]
    rfl
  obtain ⟨t, hrun, hcursor, hbelow⟩ := h { s with cursor := s.cursor.advance 1 } rest hrest hb
  refine ⟨t, (operator_letter rfl hs).trans hrun, ?_, hbelow⟩
  rw [hcursor, Cursor.advance_advance]
  rfl

theorem spells_standard {c : Char} {k : Kind} {name : String}
    (h : standardType? c = some (k, name)) (below : List Symbol) :
    Spells ("S" ++ String.singleton c) below (standardType k name :: below) := by
  have hdepth : (standardType k name).depth ≤ nestingLimit := by
    show 3 ≤ nestingLimit
    decide
  refine spells_standardLetter (standardType?_letter h).1 hdepth fun s r hs hb => ?_
  exact ⟨_, standardSubstitution_type h hs, rfl, hb⟩

/-- The optional around a type. -/
theorem spells_optional {t : Symbol} (ht : t.kind = .type) (below : List Symbol)
    (hdepth : (typed .boundGenericEnum
      [standardType .enumType "Optional", node .typeList [t]]).depth ≤ nestingLimit) :
    Spells "Sg" (t :: below) (typed .boundGenericEnum
      [standardType .enumType "Optional", node .typeList [t]] :: below) := by
  refine spells_standardLetter (c := 'g') (by decide) hdepth fun s r hs hb => ?_
  have hpeek := Scan.peek?_ascii (a := 'g') (by decide) hs
  have hoperator := Scan.letter?_hit (f := standardOperator?) hs (a := optionalType) rfl
  let u : State := { s with cursor := s.cursor.advance 1 }
  refine ⟨{ u with operands := below, substitutions := u.substitutions.push (typed .boundGenericEnum
    [standardType .enumType "Optional", node .typeList [t]]) }, ?_, rfl, rfl⟩
  unfold standardSubstitution
  rw [bind_ok (lift_ok hpeek)]
  simp only [Option.isNone_some, Bool.false_eq_true, if_false]
  rw [bind_ok (lift_ok hoperator)]
  show optionalType u = _
  unfold optionalType
  rw [bind_ok (popType_hit (s := u) hb ht)]
  rfl

/-! ## Declared types -/

/-- The operand is popped as the given context. -/
def PopsAs (operand context : Symbol) : Prop :=
  ∀ (s : State) (below : List Symbol), s.operands = operand :: below →
    popContext s = .ok context { s with operands := below }

/-- An identifier is popped as the module it names. -/
theorem popsAs_module (text : String) :
    PopsAs (ofText .identifier text) (ofText .moduleName text) := by
  intro s below hs
  have hmodule : popModule? s =
      .ok (some (ofText .moduleName text)) { s with operands := below } := by
    unfold popModule?
    rw [bind_ok (popKind?_hit (k := .identifier) hs rfl)]
    rfl
  unfold popContext
  rw [bind_ok hmodule]
  rfl

theorem popModule?_miss {s : State} {x : Symbol} {xs : List Symbol} (hs : s.operands = x :: xs)
    (hidentifier : x.kind ≠ .identifier) (hmodule : x.kind ≠ .moduleName) :
    popModule? s = .ok none s := by
  unfold popModule?
  rw [bind_ok (popKind?_miss hs hidentifier)]
  exact popKind?_miss hs hmodule

/-- A type is popped as what it holds. -/
theorem popsAs_type {c : Symbol} (hc : c.kind.isContext = true) : PopsAs (node .type [c]) c := by
  intro s below hs
  have hmodule : popModule? s = .ok none s := popModule?_miss hs nofun nofun
  unfold popContext
  rw [bind_ok hmodule]
  dsimp only
  rw [bind_ok (popKind?_hit (k := .type) hs rfl)]
  have hfirst : (require (node .type [c]).first? : Decode Symbol) { s with operands := below } =
      .ok c { s with operands := below } := rfl
  dsimp only
  rw [bind_ok hfirst, hc]
  rfl

theorem operator?_declaration (d : Declaration) :
    operator? d.letter = some (nominalType d.kind) := by
  cases d <;> rfl

theorem isContext_declaration (d : Declaration) : d.kind.isContext = true := by
  cases d <;> rfl

/-- One step of a path: a name and a kind in a context. -/
theorem spells_step {operand context : Symbol} (h : PopsAs operand context) (d : Declaration)
    (n : Name) (below : List Symbol)
    (hdepth : (typed d.kind [context, ofText .identifier n.text]).depth ≤ nestingLimit) :
    Spells (n.mangle ++ String.singleton d.letter) (operand :: below)
      (typed d.kind [context, ofText .identifier n.text] :: below) := by
  refine (spells_identifier n.isName _).append
    (spells_letter (operator?_declaration d) hdepth fun s hs => ?_)
  have hname : popDeclName s =
      .ok (ofText .identifier n.text) { s with operands := operand :: below } :=
    popIf_hit hs rfl
  refine ⟨{ s with
      operands := below
      substitutions := s.substitutions.push (typed d.kind [context, ofText .identifier n.text]) },
    ?_, rfl, rfl⟩
  unfold nominalType
  rw [bind_ok hname, bind_ok (h _ below rfl)]
  rfl

theorem depth_le_pathTree (path : List (Declaration × Name)) : ∀ c : Symbol,
    c.depth ≤ (pathTree c path).depth := by
  induction path with
  | nil => exact fun c => Nat.le_refl _
  | cons p path ih =>
    intro c
    have hstep : c.depth < (node p.1.kind [c, ofText .identifier p.2.text]).depth :=
      depth_lt_node _ List.mem_cons_self
    exact Nat.le_trans (Nat.le_of_lt hstep) (ih _)

/-- The rest of a path, in a context that is a declaration itself. -/
theorem spells_path (path : List (Declaration × Name)) : ∀ (c : Symbol) (below : List Symbol),
    c.kind.isContext = true → (node .type [pathTree c path]).depth ≤ nestingLimit →
    Spells (manglePath path) (node .type [c] :: below)
      (node .type [pathTree c path] :: below) := by
  induction path with
  | nil => exact fun c below _ _ => spells_empty _
  | cons p path ih =>
    intro c below hc hdepth
    have hle : (typed p.1.kind [c, ofText .identifier p.2.text]).depth ≤ nestingLimit := by
      have hpath := depth_le_pathTree path (node p.1.kind [c, ofText .identifier p.2.text])
      simp only [node, depth_make, maxDepth_singleton, typed] at hdepth hpath ⊢
      exact Nat.le_trans (Nat.add_le_add_left hpath 1) hdepth
    exact (spells_step (popsAs_type hc) p.1 p.2 below hle).append
      (ih _ below (isContext_declaration p.1) hdepth)

theorem spells_nominal (n : Nominal) (below : List Symbol)
    (hdepth : (node .type [n.body]).depth ≤ nestingLimit) :
    Spells n.mangle below (node .type [n.body] :: below) := by
  cases n with
  | standard letter kind name known => exact spells_standard known below
  | declared moduleName outer last =>
    obtain ⟨p, path, hpath⟩ : ∃ p path, outer ++ [last] = p :: path :=
      List.exists_cons_of_ne_nil (by simp)
    rw [Nominal.body, hpath] at hdepth ⊢
    rw [Nominal.mangle, hpath]
    have hle : (typed p.1.kind
        [ofText .moduleName moduleName.text, ofText .identifier p.2.text]).depth ≤ nestingLimit := by
      show 3 ≤ nestingLimit
      decide
    refine (spells_identifier moduleName.isName below).append ?_
    exact (spells_step (popsAs_module moduleName.text) p.1 p.2 below hle).append
      (spells_path path _ below (isContext_declaration p.1) hdepth)

/-! ## Tuples -/

/-- A letter that spells a mark. -/
theorem spells_mark {c : Char} {k : Kind} (hc : operator? c = some (pure (leaf k)))
    (below : List Symbol) : Spells (String.singleton c) below (leaf k :: below) := by
  have hdepth : (leaf k).depth ≤ nestingLimit := by
    show 1 ≤ nestingLimit
    decide
  exact spells_letter hc hdepth fun s hs => ⟨s, rfl, rfl, hs⟩

/-- The operands of an element, the top one first. -/
def Element.operands (e : Element Ty) : List Symbol :=
  (if e.variadic then [leaf .variadicMarker] else []) ++
    (e.label.map fun n => ofText .identifier n.text).toList ++ [e.type.tree]

/-- No element starts with a mark of a list. -/
theorem Element.operands_front (e : Element Ty) : ∃ y ys, e.operands = y :: ys ∧
    y.kind ≠ .firstElementMarker ∧ y.kind ≠ .emptyList := by
  obtain ⟨type, label, variadic⟩ := e
  cases variadic with
  | true => exact ⟨_, _, rfl, nofun, nofun⟩
  | false =>
    cases label with
    | none => exact ⟨_, _, rfl, nofun, nofun⟩
    | some n => exact ⟨_, _, rfl, nofun, nofun⟩

theorem spells_element (e : Element Ty) (below : List Symbol)
    (h : Spells e.type.mangle below (e.type.tree :: below)) :
    Spells (e.type.mangle ++ e.mangleRest) below (e.operands ++ below) := by
  obtain ⟨type, label, variadic⟩ := e
  have hlabel : Spells (label.elim "" Name.mangle) (type.tree :: below)
      ((label.map fun n => ofText .identifier n.text).toList ++ type.tree :: below) := by
    cases label with
    | none => exact spells_empty _
    | some n => exact spells_identifier n.isName _
  have hmark : ∀ operands, Spells (if variadic then "d" else "") operands
      ((if variadic then [leaf .variadicMarker] else []) ++ operands) := by
    intro operands
    cases variadic with
    | true => exact spells_mark (c := 'd') rfl _
    | false => exact spells_empty _
  have hall := h.append (hlabel.append (hmark _))
  simpa [Element.mangleRest, Element.operands] using hall

theorem popTupleElement_eval (e : Element Ty) (s : State) (below : List Symbol)
    (hs : s.operands = e.operands ++ below) :
    popTupleElement s = .ok (e.tree e.type.tree) { s with operands := below } := by
  obtain ⟨type, label, variadic⟩ := e
  -- Below the mark, if there is one, come the label, if there is one, and the type.
  have hmark : popKind? .variadicMarker s =
      .ok (if variadic then some (leaf .variadicMarker) else none) { s with operands :=
        (label.map fun n => ofText .identifier n.text).toList ++ type.tree :: below } := by
    cases variadic with
    | true => exact popKind?_hit (hs.trans (by simp [Element.operands])) rfl
    | false =>
      have htop : s.operands =
          (label.map fun n => ofText .identifier n.text).toList ++ type.tree :: below :=
        hs.trans (by simp [Element.operands])
      rw [← htop]
      cases label with
      | none => exact popKind?_miss htop nofun
      | some n => exact popKind?_miss htop nofun
  have hlabel : popKind? .identifier { s with operands :=
      (label.map fun n => ofText .identifier n.text).toList ++ type.tree :: below } =
      .ok (label.map fun n => ofText .identifier n.text)
        { s with operands := type.tree :: below } := by
    cases label with
    | none => exact popKind?_miss (s := { s with operands := type.tree :: below }) rfl nofun
    | some n => exact popKind?_hit rfl rfl
  unfold popTupleElement
  rw [bind_ok hmark, bind_ok hlabel, bind_ok (popType_hit rfl rfl)]
  cases variadic <;> cases label <;> rfl

theorem spells_elements (es : List (Element Ty)) : ∀ below : List Symbol,
    (∀ e ∈ es, ∀ below, Spells e.type.mangle below (e.type.tree :: below)) →
    Spells (mangleElements es) below (es.reverse.flatMap Element.operands ++ below) := by
  induction es with
  | nil => exact fun below _ => spells_empty below
  | cons e es ih =>
    intro below h
    have hfirst := spells_element e below (h e List.mem_cons_self below)
    have hrest := ih (e.operands ++ below) fun d hd => h d (List.mem_cons_of_mem _ hd)
    rw [mangleElements_cons]
    simpa using hfirst.append hrest

/-- The elements of a tuple that is not empty are popped back to the marked first one. -/
theorem popTuple_eval (e : Element Ty) (es : List (Element Ty)) (s : State) (below : List Symbol)
    (hs : s.operands = es.reverse.flatMap Element.operands ++
      leaf .firstElementMarker :: (e.operands ++ below)) :
    popTuple s = .ok (Ty.tuple (e :: es)).tree { s with operands := below } := by
  obtain ⟨y, ys, hy, hk⟩ : ∃ y ys, s.operands = y :: ys ∧ y.kind ≠ .emptyList := by
    cases hr : es.reverse with
    | nil =>
      rw [hr] at hs
      exact ⟨_, _, hs, nofun⟩
    | cons d ds =>
      obtain ⟨y, ys, hy, -, hk⟩ := d.operands_front
      rw [hr, List.flatMap_cons, hy] at hs
      exact ⟨_, _, hs, hk⟩
  have hfront : ∀ e : Element Ty, ∃ y ys, e.operands = y :: ys ∧ y.kind ≠ .firstElementMarker := by
    intro e
    obtain ⟨y, ys, hy, hk, -⟩ := e.operands_front
    exact ⟨y, ys, hy, hk⟩
  have hpop := popElements_eval popTupleElement_eval hfront e below es.reverse s hs
  rw [List.map_reverse, List.reverse_reverse] at hpop
  have hlist : popList popTupleElement s =
      .ok ((e :: es).map fun e => e.tree e.type.tree) { s with operands := below } := by
    unfold popList
    rw [bind_ok (popKind?_miss hy hk)]
    exact hpop
  unfold popTuple
  rw [bind_ok hlist, Ty.tree, Ty.body, elementTrees_eq]
  rfl

theorem spells_tuple (es : List (Element Ty)) (below : List Symbol)
    (h : ∀ e ∈ es, ∀ below, Spells e.type.mangle below (e.type.tree :: below))
    (hdepth : (Ty.tuple es).tree.depth ≤ nestingLimit) :
    Spells (Ty.tuple es).mangle below ((Ty.tuple es).tree :: below) := by
  cases es with
  | nil =>
    show Spells (String.singleton 'y' ++ String.singleton 't') below _
    refine (spells_mark rfl below).append (spells_letter rfl hdepth fun s hs => ?_)
    have hlist : popList popTupleElement s = .ok [] { s with operands := below } := by
      unfold popList
      rw [bind_ok (popKind?_hit (k := .emptyList) hs rfl)]
      rfl
    exact ⟨_, bind_ok hlist _, rfl, rfl⟩
  | cons e es =>
    have hfirst := spells_element e below (h e List.mem_cons_self below)
    have hmark := hfirst.append (spells_mark (c := '_') (k := .firstElementMarker) rfl _)
    have hrest := hmark.append (spells_elements es _ fun d hd => h d (List.mem_cons_of_mem _ hd))
    rw [mangle_tuple]
    refine hrest.append (spells_letter (c := 't') rfl hdepth fun s hs => ?_)
    exact ⟨_, popTuple_eval e es s below hs, rfl, rfl⟩

/-! ## Kinds of types -/

theorem pathTree_append (path : List (Declaration × Name)) (last : Declaration × Name) :
    ∀ c : Symbol, pathTree c (path ++ [last]) =
      node last.1.kind [pathTree c path, ofText .identifier last.2.text] := by
  induction path with
  | nil => exact fun c => rfl
  | cons p path ih => exact fun c => ih _

theorem standardType?_bound {c : Char} {k : Kind} {name : String}
    (h : standardType? c = some (k, name)) : boundKind? k = some (boundOf k) := by
  unfold standardType? at h
  split at h <;> cases h <;> rfl

/-- A nominal type is a declaration of a kind that can take arguments, in some context. -/
theorem Nominal.body_eq (n : Nominal) : ∃ c cs, n.body = node n.kind (c :: cs) ∧
    boundKind? n.kind = some (boundOf n.kind) := by
  cases n with
  | standard letter kind name known => exact ⟨_, _, rfl, standardType?_bound known⟩
  | declared moduleName outer last =>
    refine ⟨_, _, pathTree_append outer last _, ?_⟩
    show boundKind? last.1.kind = some (boundOf last.1.kind)
    cases last.1 <;> rfl

/-- Kinds that can take arguments have nothing else to them. -/
theorem boundKind?_plain {k k' : Kind} (h : boundKind? k = some k') :
    isReference k = false ∧ hasNoGenericLevel k = false ∧ k.isAnyGeneric = true ∧ k ≠ .tuple ∧
      (k == .function || k == .constructor) = false := by
  unfold boundKind? at h
  split at h <;> cases h <;> decide

theorem parameterCount_node {k : Kind} (h : k ≠ .tuple) (cs : List Symbol) :
    parameterCount (node k cs) = 1 :=
  if_neg fun hk => h (beq_iff_eq.mp hk)

theorem parameterCount_body (t : Ty) : parameterCount t.body = t.arity := by
  cases t with
  | nominal n =>
    obtain ⟨c, cs, hbody, hbound⟩ := n.body_eq
    have hne := (boundKind?_plain hbound).2.2.2.1
    rw [Ty.body, hbody, parameterCount_node hne]
    rfl
  | tuple es =>
    rw [Ty.body, elementTrees_eq]
    exact List.length_map _
  | bound n first others =>
    have hne : boundOf n.kind ≠ .tuple := by
      unfold boundOf
      split <;> decide
    rw [Ty.body, parameterCount_node hne]
    rfl
  | optional t => rfl
  | function throws params result => rfl
  | metatype t => rfl
  | inOut t => rfl

/-! ## Functions -/

/-- The operand of the parameters or of the result of a function. -/
def Ty.partOperand (t : Ty) : Symbol :=
  if t.isUnit then leaf .emptyList else t.tree

theorem spells_part (t : Ty) (below : List Symbol) (h : Spells t.mangle below (t.tree :: below)) :
    Spells (if t.isUnit then "y" else t.mangle) below (t.partOperand :: below) := by
  unfold Ty.partOperand
  cases t.isUnit with
  | true => exact spells_mark (c := 'y') rfl below
  | false => exact h

theorem popFunctionPart_eval (t : Ty) {s : State} {below : List Symbol}
    (hs : s.operands = t.partOperand :: below) :
    popFunctionPart s = .ok t.tree { s with operands := below } := by
  unfold Ty.partOperand at hs
  unfold popFunctionPart
  split at hs
  · next hunit =>
    have ht : t = .tuple [] := by
      unfold Ty.isUnit at hunit
      split at hunit
      · rfl
      · cases hunit
    rw [bind_ok (popKind?_hit (k := .emptyList) hs rfl), ht]
    rfl
  · rw [bind_ok (popKind?_miss (k := .emptyList) hs nofun)]
    exact popType_hit hs rfl

theorem popArguments_eval (t : Ty) {s : State} {below : List Symbol}
    (hs : s.operands = t.partOperand :: below) :
    popArguments s = .ok (make .argumentTuple (.index (UInt64.ofNat t.arity)) [t.tree])
      { s with operands := below } := by
  have hfirst : (require t.tree.first? : Decode Symbol) { s with operands := below } =
      .ok t.body { s with operands := below } := rfl
  have hpush : (ofIndex .argumentTuple (UInt64.ofNat t.arity)).push t.tree =
      make .argumentTuple (.index (UInt64.ofNat t.arity)) [t.tree] :=
    push_eq_make (s := ofIndex .argumentTuple (UInt64.ofNat t.arity)) rfl t.tree
  unfold popArguments
  rw [bind_ok (popFunctionPart_eval t hs), bind_ok hfirst, parameterCount_body, hpush]
  rfl

theorem popFunctionType_eval (throws : Bool) (params result : Ty) {s : State} {below : List Symbol}
    (hs : s.operands = (if throws then [leaf .throwsMark] else []) ++
      params.partOperand :: result.partOperand :: below) :
    popFunctionType .functionType s =
      .ok (Ty.function throws params result).tree { s with operands := below } := by
  have hkind : params.partOperand.kind ≠ .throwsMark := by
    unfold Ty.partOperand
    split <;> nofun
  have hthrows : popKind? .throwsMark s =
      .ok (if throws then some (leaf .throwsMark) else none)
        { s with operands := params.partOperand :: result.partOperand :: below } := by
    cases throws with
    | true => exact popKind?_hit hs rfl
    | false =>
      have htop : s.operands = params.partOperand :: result.partOperand :: below := hs
      rw [← htop]
      exact popKind?_miss htop hkind
  unfold popFunctionType
  rw [bind_ok hthrows, bind_ok (popArguments_eval params rfl),
    bind_ok (popFunctionPart_eval result rfl)]
  cases throws <;> rfl

theorem spells_function (throws : Bool) (params result : Ty) (below : List Symbol)
    (hp : ∀ below, Spells params.mangle below (params.tree :: below))
    (hr : Spells result.mangle below (result.tree :: below))
    (hdepth : (Ty.function throws params result).tree.depth ≤ nestingLimit) :
    Spells (Ty.function throws params result).mangle below
      ((Ty.function throws params result).tree :: below) := by
  have hthrows : ∀ operands, Spells (if throws then "K" else "") operands
      ((if throws then [leaf .throwsMark] else []) ++ operands) := by
    intro operands
    cases throws with
    | true => exact spells_mark (c := 'K') rfl _
    | false => exact spells_empty _
  have hparts := (spells_part result below hr).append (spells_part params _ (hp _))
  rw [Ty.mangle]
  refine (hparts.append (hthrows _)).append (spells_letter (c := 'c') rfl hdepth fun s hs => ?_)
  exact ⟨_, popFunctionType_eval throws params result hs, rfl, rfl⟩

/-! ## Generic arguments -/

/-- A nominal type with arguments of its own. -/
theorem wrapBound_eval {k k' : Kind} (hk : boundKind? k = some k') (cs : List Symbol) {args : Symbol}
    (hargs : args.children ≠ []) (s : State) :
    wrapBound (node k cs) args s = .ok (node k' [node .type [node k cs], args]) s := by
  obtain ⟨-, -, -, -, hfunction⟩ := boundKind?_plain hk
  unfold wrapBound
  rw [if_neg (by simpa using hargs)]
  have hkind : (node k cs).kind = k := rfl
  rw [hkind, hfunction, hk]
  rfl

/-- One list of arguments goes to the type itself. -/
theorem bindArguments_single {k k' : Kind} (hk : boundKind? k = some k') (c : Symbol)
    (cs : List Symbol) {args : Symbol} (hargs : args.children ≠ []) (s : State) :
    bindArguments (node k (c :: cs)) [args] s =
      .ok (node k' [node .type [node k (c :: cs)], args]) s := by
  obtain ⟨href, hlevel, -⟩ := boundKind?_plain hk
  have hwrap := wrapBound_eval hk (c :: cs) hargs s
  unfold node make at hwrap ⊢
  unfold bindArguments
  simp only [href, hlevel, Bool.false_eq_true, if_false, List.isEmpty_nil, if_true]
  exact hwrap

theorem spells_all (ts : List Ty) : ∀ below : List Symbol,
    (∀ t ∈ ts, ∀ below, Spells t.mangle below (t.tree :: below)) →
    Spells (mangleAll ts) below ((ts.map Ty.tree).reverse ++ below) := by
  induction ts with
  | nil => exact fun below _ => spells_empty below
  | cons t ts ih =>
    intro below h
    have hfirst := h t List.mem_cons_self below
    have hrest := ih (t.tree :: below) fun u hu => h u (List.mem_cons_of_mem _ hu)
    simpa [mangleAll] using hfirst.append hrest

theorem kind_trees (ts : List Ty) : ∀ x ∈ ts.map Ty.tree, x.kind = .type := by
  intro x hx
  obtain ⟨t, -, rfl⟩ := List.mem_map.mp hx
  rfl

/-- The operands below the innermost list of arguments: the lists around it, the innermost first, each
below a mark. -/
def outerOperands : List (List Symbol) → List Symbol
  | [] => [leaf .emptyList]
  | ts :: outer => leaf .firstElementMarker :: (ts.reverse ++ outerOperands outer)

theorem outerOperands_head (outer : List (List Symbol)) : ∃ y ys, outerOperands outer = y :: ys ∧
    y.kind ≠ .type ∧ y.kind ≠ .retroactiveConformance := by
  cases outer with
  | nil => exact ⟨_, _, rfl, nofun, nofun⟩
  | cons ts outer => exact ⟨_, _, rfl, nofun, nofun⟩

theorem length_lt_outerOperands (outer : List (List Symbol)) :
    outer.length < (outerOperands outer).length := by
  induction outer with
  | nil => exact Nat.one_pos
  | cons ts outer ih =>
    simp only [outerOperands, List.length_cons, List.length_append]
    omega

/-- The types of the innermost list end at the mark of the next one. -/
theorem popWhile_innermost {s : State} {ts : List Symbol} {outer : List (List Symbol)}
    {below : List Symbol} (hts : ∀ t ∈ ts, t.kind = .type)
    (hs : s.operands = ts.reverse ++ (outerOperands outer ++ below)) :
    popWhile (· == .type) s = .ok ts.reverse { s with operands := outerOperands outer ++ below } := by
  obtain ⟨y, ys, hy, hkind, -⟩ := outerOperands_head outer
  refine popWhile_types hs (fun t ht => hts t (List.mem_reverse.mp ht)) fun z hz => ?_
  rw [hy] at hz
  cases hz
  exact hkind

/-- Lists of arguments are popped from the innermost one to the mark of the outermost. -/
theorem popArgumentLists_eval {below : List Symbol} (outer : List (List Symbol)) :
    ∀ (ts : List Symbol) (s : State) (n : Nat), outer.length ≤ n →
    (∀ l ∈ ts :: outer, ∀ t ∈ l, t.kind = .type) →
    s.operands = ts.reverse ++ (outerOperands outer ++ below) →
    popArgumentLists (n + 1) s =
      .ok ((ts :: outer).map (node .typeList)) { s with operands := below } := by
  induction outer with
  | nil =>
    intro ts s n _ hkinds hs
    have htypes := popWhile_innermost (hkinds ts List.mem_cons_self) hs
    unfold popArgumentLists
    rw [bind_ok htypes, bind_ok (popKind?_hit (k := .emptyList) rfl rfl), List.reverse_reverse]
    rfl
  | cons us outer ih =>
    intro ts s n hn hkinds hs
    obtain ⟨m, rfl⟩ : ∃ m, n = m + 1 := Nat.exists_eq_add_of_le' (Nat.le_trans (by simp) hn)
    have htypes := popWhile_innermost (hkinds ts List.mem_cons_self) hs
    let t : State := { s with operands := outerOperands (us :: outer) ++ below }
    let u : State := { s with operands := us.reverse ++ (outerOperands outer ++ below) }
    have hmark : popKind? .emptyList t = .ok none t :=
      popKind?_miss (x := leaf .firstElementMarker) rfl (by decide)
    have hfirst : popKind .firstElementMarker t = .ok (leaf .firstElementMarker) u :=
      popKind_hit (List.append_assoc (leaf .firstElementMarker :: us.reverse) _ _) rfl
    have hrest := ih us u m (Nat.le_of_succ_le_succ hn)
      (fun l hl => hkinds l (List.mem_cons_of_mem _ hl)) rfl
    unfold popArgumentLists
    rw [bind_ok htypes, bind_ok hmark]
    simp only [Option.isSome_none, Bool.false_eq_true, if_false]
    rw [bind_ok hfirst, bind_ok hrest, List.reverse_reverse]
    rfl

/-- The operator `G` pops the lists of arguments and looks at what is below. -/
theorem boundGenericType_lists {s : State} {ts : List Symbol} {outer : List (List Symbol)}
    {below : List Symbol} (hkinds : ∀ l ∈ ts :: outer, ∀ t ∈ l, t.kind = .type)
    (hs : s.operands = ts.reverse ++ (outerOperands outer ++ below)) :
    boundGenericType s = (do
      let bound ← bindArguments (← popAnyGeneric) ((ts :: outer).map (node .typeList))
      remember (node .type [bound]) : Decode Symbol) { s with operands := below } := by
  obtain ⟨y, ys, hy, -, hmark⟩ := outerOperands_head outer
  have hretroactive : popWhile (· == .retroactiveConformance) s = .ok [] s := by
    cases hr : ts.reverse with
    | nil =>
      rw [hr, hy] at hs
      exact popWhile_none hs (beq_eq_false_iff_ne.mpr hmark)
    | cons t rest =>
      have hmem : t ∈ ts := List.mem_reverse.mp (by rw [hr]; exact List.mem_cons_self)
      rw [hr] at hs
      exact popWhile_none hs (by rw [hkinds ts List.mem_cons_self t hmem]; rfl)
  obtain ⟨n, hn, hlength⟩ : ∃ n, outer.length ≤ n ∧ s.operands.length = n + 1 := by
    refine ⟨s.operands.length - 1, ?_, ?_⟩ <;>
      · have hlt := length_lt_outerOperands outer
        rw [hs]
        simp only [List.length_append]
        omega
  have hget : (get : Decode State) s = .ok s s := rfl
  unfold boundGenericType
  rw [bind_ok hretroactive, bind_ok hget, hlength,
    bind_ok (popArgumentLists_eval outer ts s n hn hkinds hs)]
  rfl

/-- A nominal type takes the lists of arguments above it. -/
theorem boundGenericType_bind {s : State} {x bound : Symbol} {ts : List Symbol}
    {outer : List (List Symbol)} {below : List Symbol}
    (hkinds : ∀ l ∈ ts :: outer, ∀ t ∈ l, t.kind = .type) (hx : x.kind.isAnyGeneric = true)
    (hbind : ∀ t : State, bindArguments x ((ts :: outer).map (node .typeList)) t = .ok bound t)
    (hs : s.operands = ts.reverse ++ (outerOperands outer ++ node .type [x] :: below)) :
    boundGenericType s = .ok (node .type [bound]) { s with
      operands := below, substitutions := s.substitutions.push (node .type [bound]) } := by
  have hpop : popAnyGeneric { s with operands := node .type [x] :: below } =
      .ok x { s with operands := below } := by
    unfold popAnyGeneric
    rw [bind_ok (popTypeChild_hit rfl), hx]
    rfl
  rw [boundGenericType_lists hkinds hs, bind_ok hpop, bind_ok (hbind _)]
  rfl

theorem boundGenericType_eval (n : Nominal) (first : Ty) (others : List Ty) {s : State}
    {below : List Symbol} (hs : s.operands =
      ((first :: others).map Ty.tree).reverse ++ leaf .emptyList :: node .type [n.body] :: below) :
    ∃ t, boundGenericType s = .ok (Ty.bound n first others).tree t ∧ t.cursor = s.cursor ∧
      t.operands = below := by
  let args := node .typeList ((first :: others).map Ty.tree)
  obtain ⟨c, cs, hbody, hbound⟩ := n.body_eq
  have hgeneric : n.body.kind.isAnyGeneric = true := by
    rw [hbody]
    exact (boundKind?_plain hbound).2.2.1
  have hbind : ∀ t : State, bindArguments n.body [args] t =
      .ok (node (boundOf n.kind) [node .type [n.body], args]) t := by
    rw [hbody]
    exact bindArguments_single hbound c cs (List.cons_ne_nil _ _)
  have htree : (Ty.bound n first others).tree =
      node .type [node (boundOf n.kind) [node .type [n.body], args]] := by
    rw [Ty.tree, Ty.body, trees_eq]
    rfl
  have hkinds : ∀ l ∈ [(first :: others).map Ty.tree], ∀ t ∈ l, t.kind = .type :=
    List.forall_mem_singleton.mpr (kind_trees (first :: others))
  rw [htree]
  exact ⟨_, boundGenericType_bind hkinds hgeneric hbind hs, rfl, rfl⟩

theorem spells_bound (n : Nominal) (first : Ty) (others : List Ty) (below : List Symbol)
    (h : ∀ t ∈ first :: others, ∀ below, Spells t.mangle below (t.tree :: below))
    (hdepth : (Ty.bound n first others).tree.depth ≤ nestingLimit) :
    Spells (Ty.bound n first others).mangle below ((Ty.bound n first others).tree :: below) := by
  have htree : (Ty.bound n first others).body.depth < (Ty.bound n first others).tree.depth :=
    depth_lt_node _ List.mem_cons_self
  have hbody : (node .type [n.body]).depth < (Ty.bound n first others).body.depth :=
    depth_lt_node _ List.mem_cons_self
  have hn := (spells_nominal n below (by omega)).append (spells_mark (c := 'y') rfl _)
  have hall := hn.append (spells_all (first :: others) _ h)
  rw [mangleAll, ← String.append_assoc] at hall
  rw [Ty.mangle]
  refine hall.append (spells_letter (c := 'G') rfl hdepth fun s hs => ?_)
  exact boundGenericType_eval n first others hs

end Demangle
