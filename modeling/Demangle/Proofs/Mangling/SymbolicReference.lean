import Demangle.Proofs.Mangling.RoundTrip
import Demangle.Proofs.Operator.Bound
import Demangle.Proofs.Starts

/-!
# Symbolic references and generic arguments

A reference to a node outside the name is an operand of its own, not a type. So it cannot be bound to
arguments directly: the operator `G` takes a type below the lists of arguments, and refuses the reference.
As the context of a declared type it does take arguments, all those that the declaration leaves:

    decode ("$s" ++ r.mangle ++ "y" ++ mangleAll ts ++ "GD") = .error ⟨.malformed, …⟩
    r.mangle ++ n.mangle ++ "V" ++ mangleOuter outer ++ mangleAll ts ++ "G"
-/

namespace Demangle

open Symbol Decode

/-! ## Names of types -/

/-- The name of a type. -/
def nameOf (type : Symbol) : Symbol :=
  node .global [node .typeMangling [type]]

theorem depth_lt_nameOf (type : Symbol) : type.depth < (nameOf type).depth := by
  have hmangling : (node .typeMangling [type]).depth < (nameOf type).depth :=
    depth_lt_node _ List.mem_cons_self
  have htype : type.depth < (node .typeMangling [type]).depth := depth_lt_node _ List.mem_cons_self
  omega

/-- A piece that leaves a type spells the name of the type, up to the `D`. -/
theorem decode_typeName {m : String} {type : Symbol} (h : Spells m [] [type])
    (hkind : type.kind = .type) (hdepth : (nameOf type).depth ≤ nestingLimit) :
    decode ("$s" ++ (m ++ String.singleton 'D')) = .ok (nameOf type) := by
  have hmangling : (node .typeMangling [type]).depth < (nameOf type).depth :=
    depth_lt_node _ List.mem_cons_self
  have hletter : Spells (String.singleton 'D') [type] [node .typeMangling [type]] :=
    spells_letter rfl (by omega) fun s hs => ⟨_, bind_ok (popType_hit hs hkind) _, rfl, rfl⟩
  exact decode_of_spells (h.append hletter) rfl nofun hdepth

/-- **A name is refused behind the first operator that refuses its operands.** -/
theorem decode_of_refusal {m : String} {operands : List Symbol} {c : Char} {run : Decode Symbol}
    (h : Spells m [] operands) (hc : operator? c = some run)
    (hrun : ∀ s : State, s.operands = operands →
      ∃ s', run s = .error ⟨.malformed, s.cursor.position⟩ s') (others : String) :
    decode ("$s" ++ (m ++ (String.singleton c ++ others))) =
      .error ⟨.malformed, m.utf8ByteSize + 1 + 2⟩ := by
  let name := m ++ (String.singleton c ++ others)
  let s := State.ofString name
  have hs : s.cursor.rest = Cell.ofString m ++ Cell.ascii c :: Cell.ofString others := by
    show Cell.ofString name = _
    rw [Cell.ofString_append, Cell.ofString_append, Cell.ofString_singleton (operator?_letter hc).1]
    rfl
  obtain ⟨u, hu, hoperands, k, hk, hturns⟩ := h s _ hs rfl rfl
  have hnext : u.cursor.rest = Cell.ascii c :: Cell.ofString others := by
    rw [hu]
    exact Cursor.rest_advance hs
  obtain ⟨s', hfault⟩ := hrun { u with cursor := u.cursor.advance 1 } hoperands
  have hposition : (u.cursor.advance 1).position = m.utf8ByteSize + 1 := by
    have hm : (Cell.ofString m).length ≤ s.cursor.rest.length := by
      rw [hs, List.length_append]
      exact Nat.le_add_right _ _
    rw [Cursor.position_advance (by rw [hnext]; exact Nat.succ_pos _), hu,
      Cursor.position_advance hm, Cell.length_ofString, Nat.add_right_cancel_iff]
    exact Nat.zero_add _
  obtain ⟨n, hn⟩ : ∃ n, s.cursor.rest.length = k + (n + 1) := by
    rw [hs, List.length_append, List.length_cons]
    exact ⟨(Cell.ofString m).length - k + (Cell.ofString others).length, by omega⟩
  have hops : operators s.cursor.rest.length s = .error ⟨.malformed, m.utf8ByteSize + 1⟩ s' := by
    have hne : u.cursor.rest ≠ [] := by
      rw [hnext]
      exact List.cons_ne_nil _ _
    rw [hn, hturns, operators, bind_ok (lift_ok (Scan.isAtEnd_of_ne hne))]
    simp only [Bool.false_eq_true, if_false]
    refine bind_error ?_ _
    rw [operator_letter hc hnext, hfault, hposition]
  have hrest : afterStart s = .error ⟨.malformed, m.utf8ByteSize + 1⟩ s' :=
    bind_error hops _
  rw [decode_start (by decide), hrest]
  rfl

/-! ## Lists of arguments -/

/-- The spelling of the lists of arguments around the innermost one, which come first. -/
def mangleOuter : List (List Ty) → String
  | [] => "y"
  | ts :: outer => mangleOuter outer ++ mangleAll ts ++ "_"

theorem spells_outer (outer : List (List Ty)) (below : List Symbol)
    (h : ∀ ts ∈ outer, ∀ t ∈ ts, t.tree.depth ≤ nestingLimit) :
    Spells (mangleOuter outer) below (outerOperands (outer.map (List.map Ty.tree)) ++ below) := by
  induction outer with
  | nil => exact spells_mark (c := 'y') rfl below
  | cons ts outer ih =>
    obtain ⟨hts, houter⟩ := List.forall_mem_cons.mp h
    have htypes := spells_all ts (outerOperands (outer.map (List.map Ty.tree)) ++ below)
      fun t ht below => spells_type t below (hts t ht)
    have hmark := ((ih houter).append htypes).append
      (spells_mark (c := '_') (k := .firstElementMarker) rfl _)
    simpa [mangleOuter, outerOperands] using hmark

theorem depth_lt_arguments {ts : List Ty} {t : Ty} (ht : t ∈ ts) :
    t.tree.depth < (node .typeList (ts.map Ty.tree)).depth :=
  depth_lt_node _ (List.mem_map_of_mem ht)

theorem exact_arguments (ts : List Ty) : (node .typeList (ts.map Ty.tree)).Exact := by
  refine exact_node fun c hc => ?_
  obtain ⟨t, -, rfl⟩ := List.mem_map.mp hc
  exact t.exact_tree

/-! ## References -/

/-- A reference to a node outside the name, by an offset in four bytes. -/
structure SymbolicReference where
  /-- The control byte, counted from the first one. -/
  control : Fin 12
  b₀ : Fin 128
  b₁ : Fin 128
  b₂ : Fin 128
  b₃ : Fin 128

namespace SymbolicReference

/-- The reference is spelled by the control byte and the bytes of the offset. -/
def letters (r : SymbolicReference) : List Char :=
  [r.control.val + 1, r.b₀, r.b₁, r.b₂, r.b₃].map Char.ofNat

def mangle (r : SymbolicReference) : String :=
  String.ofList r.letters

/-- The lowest byte comes first. -/
def offset (r : SymbolicReference) : Nat :=
  r.b₀ + r.b₁ * 0x100 + r.b₂ * 0x10000 + r.b₃ * 0x1000000

def tree (r : SymbolicReference) : Symbol :=
  ofIndex .unresolvedSymbolicReference (.ofNat r.offset)

/-- The reference with arguments. -/
def bound (r : SymbolicReference) (args : List Symbol) : Symbol :=
  node .boundGenericOtherNominalType [node .type [r.tree], node .typeList args]

theorem control_letter : ∀ i : Fin 12, (Char.ofNat (i.val + 1)).toNat < 0x80 ∧
    (Char.ofNat (i.val + 1)).isDigit = false ∧ (Char.ofNat (i.val + 1) == '.') = false ∧
    isReferenceByte (Char.ofNat (i.val + 1)) = true := by
  decide

theorem byte_letter : ∀ b : Fin 128, (Char.ofNat b).toNat < 0x80 ∧
    (Cell.ascii (Char.ofNat b)).byte.toUInt64 = .ofNat b := by
  decide

theorem ofString_mangle (r : SymbolicReference) :
    Cell.ofString r.mangle = r.letters.map Cell.ascii := by
  refine Cell.ofString_ofList fun c hc => ?_
  simp only [letters, List.map_cons, List.map_nil, List.mem_cons, List.not_mem_nil, or_false] at hc
  rcases hc with rfl | rfl | rfl | rfl | rfl
  · exact (control_letter r.control).1
  all_goals exact (byte_letter _).1

/-- The bytes of the offset are added as they are. -/
theorem offset_eq (r : SymbolicReference) :
    (Cell.ascii (Char.ofNat r.b₀)).byte.toUInt64 +
      (Cell.ascii (Char.ofNat r.b₁)).byte.toUInt64 * 0x100 +
      (Cell.ascii (Char.ofNat r.b₂)).byte.toUInt64 * 0x10000 +
      (Cell.ascii (Char.ofNat r.b₃)).byte.toUInt64 * 0x1000000 = .ofNat r.offset := by
  simp only [byte_letter, offset, UInt64.ofNat_add, UInt64.ofNat_mul]
  rfl

/-- Four bytes are read as the offset. -/
theorem symbolicReference_eval (r : SymbolicReference) {s : State} {rest : List Cell}
    (h : s.cursor.rest = ([r.b₀, r.b₁, r.b₂, r.b₃].map fun b => Cell.ascii (Char.ofNat b)) ++ rest) :
    symbolicReference s = .ok r.tree { s with
      cursor := s.cursor.advance 4, substitutions := s.substitutions.push r.tree } := by
  let byteAt (i : Nat) : State := { s with cursor := s.cursor.advance i }
  have hnext : ∀ (i : Nat) (x : Cell) (xs : List Cell), (s.cursor.advance i).rest = x :: xs →
      (Scan.next : Decode UInt8) (byteAt i) = .ok x.byte (byteAt (i + 1)) := by
    intro i x xs hx
    have hread := lift_ok (s := byteAt i) (Scan.next_cons hx)
    rw [show (byteAt i).cursor = s.cursor.advance i from rfl, Cursor.advance_advance] at hread
    exact hread
  have hrest : ∀ i, (s.cursor.advance i).rest = s.cursor.rest.drop i := fun i => rfl
  have hzero : byteAt 0 = s := by
    simp only [byteAt, Cursor.advance_zero]
  rw [← hzero]
  unfold symbolicReference
  rw [bind_ok (hnext 0 _ _ (by rw [hrest, h]; rfl)), bind_ok (hnext 1 _ _ (by rw [hrest, h]; rfl)),
    bind_ok (hnext 2 _ _ (by rw [hrest, h]; rfl)), bind_ok (hnext 3 _ _ (by rw [hrest, h]; rfl))]
  dsimp only
  rw [offset_eq]
  rfl

theorem spells_reference (r : SymbolicReference) (below : List Symbol) :
    Spells r.mangle below (r.tree :: below) := by
  obtain ⟨hlow, hdigit, hdot, href⟩ := control_letter r.control
  have hdepth : r.tree.depth ≤ nestingLimit := by
    show 1 ≤ nestingLimit
    decide
  refine spells_operator (by simp [mangle, letters]) hdepth fun s rest hs _ hb => ?_
  rw [ofString_mangle] at hs ⊢
  let t : State := { s with cursor := s.cursor.advance 1 }
  have ht : t.cursor.rest = _ := Cursor.rest_advance_one hs
  have hrun := symbolicReference_eval r ht
  rw [show t.cursor = s.cursor.advance 1 from rfl, Cursor.advance_advance] at hrun
  refine ⟨{ s with
    cursor := s.cursor.advance 5, substitutions := s.substitutions.push r.tree }, ?_, rfl, hb⟩
  unfold operator
  rw [bind_ok (lift_ok (Scan.peek?_ascii hlow hs))]
  simp only [hdigit, hdot, href, Bool.false_eq_true, if_false, if_true]
  exact (bind_ok (lift_ok (Scan.next_cons hs)) _).trans hrun

/-! ## A reference below arguments -/

/-- The operator `G` does not take a reference for a type. -/
theorem boundGenericType_reference (r : SymbolicReference) {ts below : List Symbol} {s : State}
    (hts : ∀ t ∈ ts, t.kind = .type)
    (hs : s.operands = ts.reverse ++ leaf .emptyList :: r.tree :: below) :
    ∃ s', boundGenericType s = .error ⟨.malformed, s.cursor.position⟩ s' := by
  let u : State := { s with operands := r.tree :: below }
  have hpop : popAnyGeneric u = .error ⟨.malformed, s.cursor.position⟩ u := by
    have htype : popType u = .error ⟨.malformed, s.cursor.position⟩ u :=
      bind_ok (popKind?_miss (k := .type) (s := u) rfl nofun) _
    exact bind_error (bind_error htype _) _
  have hkinds : ∀ l ∈ [ts], ∀ t ∈ l, t.kind = .type := List.forall_mem_singleton.mpr hts
  rw [boundGenericType_lists hkinds hs]
  exact ⟨u, bind_error hpop _⟩

/-! ## A reference as the context of a declaration -/

/-- A reference is popped as a context. -/
theorem popsAs_reference (r : SymbolicReference) : PopsAs r.tree r.tree := by
  intro s below hs
  unfold popContext
  rw [bind_ok (popModule?_miss hs nofun nofun)]
  dsimp only
  rw [bind_ok (popKind?_miss (k := .type) hs nofun)]
  exact popIf_hit hs rfl

/-- A declaration in a reference. -/
def member (r : SymbolicReference) (d : Declaration) (n : Name) : Symbol :=
  node d.kind [r.tree, ofText .identifier n.text]

/-- The declaration with arguments of its own, and all other arguments at the reference. -/
def boundMember (r : SymbolicReference) (d : Declaration) (n : Name) (outer own : List Symbol) :
    Symbol :=
  typed (boundOf d.kind)
    [typed d.kind [r.bound outer, ofText .identifier n.text], node .typeList own]

theorem boundKind?_declaration (d : Declaration) : boundKind? d.kind = some (boundOf d.kind) := by
  cases d <;> rfl

/-- A reference takes all lists of arguments, the outermost first. -/
theorem bindContext_reference (r : SymbolicReference) (lists : List (List Symbol)) (s : State) :
    bindContext r.tree (lists.map (node .typeList)) s = .ok (r.bound lists.reverse.flatten) s := by
  have hchildren : (lists.map (node .typeList)).reverse.flatMap Symbol.children =
      lists.reverse.flatten := by
    rw [← List.map_reverse, List.flatMap_map]
    exact List.flatMap_id
  have hbind : bindArguments r.tree (lists.map (node .typeList)) s =
      .ok (bindReference r.tree (lists.map (node .typeList))) s := by
    unfold tree ofIndex make bindArguments
    rfl
  have hkind : r.tree.kind ≠ .extension := nofun
  rw [bindContext_of_ne hkind, hbind, bindReference, hchildren]
  rfl

/-- The declaration takes the innermost list of arguments, and the reference all others. -/
theorem bindArguments_member (r : SymbolicReference) (d : Declaration) (n : Name) {own : List Symbol}
    (hown : own ≠ []) {outer : List (List Symbol)} (houter : outer ≠ []) (s : State) :
    bindArguments (r.member d n) ((own :: outer).map (node .typeList)) s =
      .ok (node (boundOf d.kind)
        [typed d.kind [r.bound outer.reverse.flatten, ofText .identifier n.text],
          node .typeList own]) s := by
  have hbound := boundKind?_declaration d
  obtain ⟨href, hlevel, -⟩ := boundKind?_plain hbound
  let bound := node d.kind [r.bound outer.reverse.flatten, ofText .identifier n.text]
  have hwrap : wrapBound bound (node .typeList own) s =
      .ok (node (boundOf d.kind) [node .type [bound], node .typeList own]) s :=
    wrapBound_eval hbound _ hown s
  have hlists : (outer.map (node .typeList)).isEmpty = false := by
    simpa using houter
  have hnode : bindArguments (r.member d n) (node .typeList own :: outer.map (node .typeList)) = _ :=
    bindArguments_node href _ _
  simp only [hlevel, hlists, Bool.false_eq_true, if_false, bind_assoc, pure_bind] at hnode
  rw [List.map_cons, hnode, bind_ok (bindContext_reference r outer s)]
  exact hwrap

theorem boundGenericType_member (r : SymbolicReference) (d : Declaration) (n : Name)
    {outer : List (List Ty)} (houter : outer ≠ []) {own : List Ty} (hown : own ≠ []) {s : State}
    {below : List Symbol} (hs : s.operands = (own.map Ty.tree).reverse ++
      (outerOperands (outer.map (List.map Ty.tree)) ++ node .type [r.member d n] :: below)) :
    ∃ t, boundGenericType s =
        .ok (r.boundMember d n (outer.reverse.flatten.map Ty.tree) (own.map Ty.tree)) t ∧
      t.cursor = s.cursor ∧ t.operands = below := by
  have hkinds : ∀ l ∈ own.map Ty.tree :: outer.map (List.map Ty.tree), ∀ t ∈ l, t.kind = .type := by
    refine List.forall_mem_cons.mpr ⟨kind_trees own, fun l hl => ?_⟩
    obtain ⟨ts, -, rfl⟩ := List.mem_map.mp hl
    exact kind_trees ts
  have hgeneric : (r.member d n).kind.isAnyGeneric = true :=
    (boundKind?_plain (boundKind?_declaration d)).2.2.1
  have hown' : own.map Ty.tree ≠ [] := by simpa using hown
  have houter' : outer.map (List.map Ty.tree) ≠ [] := by simpa using houter
  have hbind := r.bindArguments_member d n hown' houter'
  rw [← List.map_reverse, ← List.map_flatten] at hbind
  exact ⟨_, boundGenericType_bind hkinds hgeneric hbind hs, rfl, rfl⟩

/-! ## Whole names -/

theorem exact_bound (r : SymbolicReference) (ts : List Ty) : (r.bound (ts.map Ty.tree)).Exact := by
  have hreference : (node .type [r.tree]).Exact := exact_single (exact_make nofun)
  exact exact_node (List.forall_mem_cons.mpr
    ⟨hreference, List.forall_mem_singleton.mpr (exact_arguments ts)⟩)

/-- The arguments of a reference are less deep than the name. -/
theorem depth_lt_bound (r : SymbolicReference) {ts : List Ty} {t : Ty} (ht : t ∈ ts) :
    t.tree.depth < (r.bound (ts.map Ty.tree)).depth := by
  have hlist := depth_lt_arguments ht
  have hbound : (node .typeList (ts.map Ty.tree)).depth < (r.bound (ts.map Ty.tree)).depth :=
    depth_lt_node _ (by simp)
  omega

/-- A reference with arguments is refused behind the `G`. -/
theorem decode_bound (r : SymbolicReference) (ts : List Ty)
    (h : (nameOf (node .type [r.bound (ts.map Ty.tree)])).height ≤ nestingLimit) :
    decode ("$s" ++ r.mangle ++ "y" ++ mangleAll ts ++ "GD") =
      .error ⟨.malformed, ("$s" ++ r.mangle ++ "y" ++ mangleAll ts ++ "G").utf8ByteSize⟩ := by
  have hexact : (nameOf (node .type [r.bound (ts.map Ty.tree)])).Exact :=
    exact_single (exact_single (exact_single (r.exact_bound ts)))
  rw [hexact.height_eq_depth] at h
  have hts : ∀ t ∈ ts, ∀ below, Spells t.mangle below (t.tree :: below) := by
    intro t ht below
    refine spells_type t below ?_
    have hname := depth_lt_nameOf (node .type [r.bound (ts.map Ty.tree)])
    have htype : (r.bound (ts.map Ty.tree)).depth < (node .type [r.bound (ts.map Ty.tree)]).depth :=
      depth_lt_node _ List.mem_cons_self
    have hargument := r.depth_lt_bound ht
    omega
  have hspells := ((r.spells_reference []).append (spells_mark (c := 'y') rfl _)).append
    (spells_all ts _ hts)
  have hrefused := decode_of_refusal hspells (c := 'G') rfl
    (fun s hs => r.boundGenericType_reference (kind_trees ts) hs) "D"
  have hsize : ("$s" ++ r.mangle ++ "y" ++ mangleAll ts ++ "G").utf8ByteSize =
      (r.mangle ++ String.singleton 'y' ++ mangleAll ts).utf8ByteSize + 1 + 2 := by
    simp only [String.utf8ByteSize_append]
    show 2 + _ + 1 + _ + 1 = _ + 1 + _ + 1 + 2
    omega
  rw [hsize, ← hrefused]
  simp only [String.append_assoc]
  rfl

theorem exact_boundMember (r : SymbolicReference) (d : Declaration) (n : Name) (outer own : List Ty) :
    (r.boundMember d n (outer.map Ty.tree) (own.map Ty.tree)).Exact := by
  have hmember : (typed d.kind [r.bound (outer.map Ty.tree), ofText .identifier n.text]).Exact :=
    exact_single (exact_node (by simp [r.exact_bound outer, exact_ofText]))
  exact exact_single (exact_node (List.forall_mem_cons.mpr
    ⟨hmember, List.forall_mem_singleton.mpr (exact_arguments own)⟩))

/-- All arguments are less deep than the declaration that they are bound in. -/
theorem depth_lt_boundMember (r : SymbolicReference) (d : Declaration) (n : Name)
    {outer own : List Ty} {t : Ty} (ht : t ∈ outer ∨ t ∈ own) :
    t.tree.depth < (r.boundMember d n (outer.map Ty.tree) (own.map Ty.tree)).depth := by
  let context := r.bound (outer.map Ty.tree)
  let inner := node d.kind [context, ofText .identifier n.text]
  let whole := node (boundOf d.kind) [node .type [inner], node .typeList (own.map Ty.tree)]
  have hwhole : whole.depth < (node .type [whole]).depth := depth_lt_node _ List.mem_cons_self
  rcases ht with ht | ht
  · have hargument : t.tree.depth < context.depth := r.depth_lt_bound ht
    have hcontext : context.depth < inner.depth := depth_lt_node _ List.mem_cons_self
    have hinner : inner.depth < (node .type [inner]).depth := depth_lt_node _ List.mem_cons_self
    have htype : (node .type [inner]).depth < whole.depth := depth_lt_node _ List.mem_cons_self
    show _ < (node .type [whole]).depth
    omega
  · have hargument := depth_lt_arguments ht
    have hlist : (node .typeList (own.map Ty.tree)).depth < whole.depth := depth_lt_node _ (by simp)
    show _ < (node .type [whole]).depth
    omega

/-- A declaration in a reference takes its own arguments, and leaves the others to the reference. -/
theorem decode_boundMember (r : SymbolicReference) (d : Declaration) (n : Name)
    {outer : List (List Ty)} (houter : outer ≠ []) {own : List Ty} (hown : own ≠ [])
    (h : (nameOf (r.boundMember d n (outer.reverse.flatten.map Ty.tree)
      (own.map Ty.tree))).height ≤ nestingLimit) :
    decode ("$s" ++ r.mangle ++ n.mangle ++ String.singleton d.letter ++ mangleOuter outer ++
      mangleAll own ++ "GD") =
      .ok (nameOf (r.boundMember d n (outer.reverse.flatten.map Ty.tree) (own.map Ty.tree))) := by
  let type := r.boundMember d n (outer.reverse.flatten.map Ty.tree) (own.map Ty.tree)
  have hexact : (nameOf type).Exact :=
    exact_single (exact_single (r.exact_boundMember d n outer.reverse.flatten own))
  rw [hexact.height_eq_depth] at h
  have hname : type.depth < (nameOf type).depth := depth_lt_nameOf type
  have harguments : ∀ t, t ∈ outer.reverse.flatten ∨ t ∈ own → t.tree.depth ≤ nestingLimit := by
    intro t ht
    have hlt : t.tree.depth < type.depth := r.depth_lt_boundMember d n ht
    omega
  have houterTypes : ∀ ts ∈ outer, ∀ t ∈ ts, t.tree.depth ≤ nestingLimit := by
    intro ts hts t ht
    refine harguments t (.inl ?_)
    exact List.mem_flatten.mpr ⟨ts, List.mem_reverse.mpr hts, ht⟩
  have hmember : (typed d.kind [r.tree, ofText .identifier n.text]).depth ≤ nestingLimit := by
    show 3 ≤ nestingLimit
    decide
  have hcontext := (r.spells_reference []).append (spells_step r.popsAs_reference d n [] hmember)
  have hlists := (hcontext.append (spells_outer outer _ houterTypes)).append
    (spells_all own _ fun t ht below => spells_type t below (harguments t (.inr ht)))
  have htype : type.depth ≤ nestingLimit := by omega
  have hspells := hlists.append (spells_letter (c := 'G') rfl htype fun s hs =>
    r.boundGenericType_member d n houter hown hs)
  rw [← decode_typeName hspells rfl h]
  simp only [String.append_assoc]
  rfl

end SymbolicReference

open SymbolicReference

/-- **What generic arguments do to a reference.** The reference itself cannot be bound: the name is refused
behind the `G`, whatever the reference and the arguments are. A type that is declared in the reference takes
the innermost list of arguments, and the reference takes all others, in the order in which they are
spelled. -/
theorem reference_arguments (r : SymbolicReference) (own : List Ty) (hown : own ≠ []) :
    ((nameOf (node .type [r.bound (own.map Ty.tree)])).height ≤ nestingLimit →
      decode ("$s" ++ r.mangle ++ "y" ++ mangleAll own ++ "GD") =
        .error ⟨.malformed, ("$s" ++ r.mangle ++ "y" ++ mangleAll own ++ "G").utf8ByteSize⟩) ∧
    ∀ (d : Declaration) (n : Name) (outer : List (List Ty)), outer ≠ [] →
      (nameOf (r.boundMember d n (outer.reverse.flatten.map Ty.tree)
        (own.map Ty.tree))).height ≤ nestingLimit →
      decode ("$s" ++ r.mangle ++ n.mangle ++ String.singleton d.letter ++ mangleOuter outer ++
        mangleAll own ++ "GD") =
        .ok (nameOf (r.boundMember d n (outer.reverse.flatten.map Ty.tree) (own.map Ty.tree))) :=
  ⟨fun h => r.decode_bound own h, fun d n _ houter h => r.decode_boundMember d n houter hown h⟩

/-- The reference that is spelled by the byte 1 and `abcd`. -/
def sampleReference : SymbolicReference :=
  ⟨0, 0x61, 0x62, 0x63, 0x64⟩

theorem reference_arguments_sample :
    let int : Ty := .nominal (.standard 'i' _ _ rfl)
    let string : Ty := .nominal (.standard 'S' _ _ rfl)
    let foo : Name := ⟨"Foo", by decide, by simp, by decide⟩
    sampleReference.offset = 0x64636261 ∧
    decode "$s\x01abcdySiSSGD" = .error ⟨.malformed, 13⟩ ∧
    decode "$s\x01abcd3FooVySi_SSSi_SSGD" = .ok (nameOf (sampleReference.boundMember .structDecl foo
      [int.tree, string.tree, int.tree] [string.tree])) := by
  intro int string foo
  have hbound := (reference_arguments sampleReference [int, string] (by simp)).1 (by decide +kernel)
  have hname : "$s" ++ sampleReference.mangle ++ "y" ++ mangleAll [int, string] ++ "GD" =
      "$s\x01abcdySiSSGD" := by decide +kernel
  have hsize : ("$s" ++ sampleReference.mangle ++ "y" ++ mangleAll [int, string] ++ "G").utf8ByteSize =
      13 := by decide +kernel
  have hmember := (reference_arguments sampleReference [string] (by simp)).2 .structDecl foo
    [[string, int], [int]] (by simp) (by decide +kernel)
  have hmember' : "$s" ++ sampleReference.mangle ++ foo.mangle ++
      String.singleton Declaration.structDecl.letter ++ mangleOuter [[string, int], [int]] ++
      mangleAll [string] ++ "GD" = "$s\x01abcd3FooVySi_SSSi_SSGD" := by decide +kernel
  rw [hname, hsize] at hbound
  rw [hmember'] at hmember
  exact ⟨rfl, hbound, hmember⟩

/-- A reference bound to one argument is no name. -/
theorem reference_not_bound : ¬∀ (r : SymbolicReference) (ts : List Ty), ts ≠ [] →
    (nameOf (node .type [r.bound (ts.map Ty.tree)])).height ≤ nestingLimit →
    ∃ t, decode ("$s" ++ r.mangle ++ "y" ++ mangleAll ts ++ "GD") = .ok t ∧
      r.bound (ts.map Ty.tree) ∈ t.nodes := by
  intro h
  let int : Ty := .nominal (.standard 'i' _ _ rfl)
  obtain ⟨t, ht, -⟩ := h sampleReference [int] (by simp) (by decide +kernel)
  have hname : "$s" ++ sampleReference.mangle ++ "y" ++ mangleAll [int] ++ "GD" =
      "$s\x01abcdySiGD" := by decide +kernel
  have hnone : (decode "$s\x01abcdySiGD").toOption.isNone := by decide +kernel
  rw [← hname, ht] at hnone
  cases hnone

end Demangle
