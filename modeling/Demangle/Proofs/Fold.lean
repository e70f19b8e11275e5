import Demangle.Proofs.Suffix

/-!
# The fold as a recursion

When all operators have run, the operands become one tree. `fold` does it in a loop over the attributes on
top, with a stack of open levels that are closed at the end. Here is what it computes, as a recursion over
the attributes (`levelChildren`): a level takes the attributes in the order in which they are popped, up to
a forwarder, which is the next level and the last child; the innermost level takes the operands that are
left.

    fold s = .ok (nested s.operands) _     if the operands fold
    fold s = .error ⟨.malformed, _⟩ _      otherwise                                     (fold_nested)

Nothing is lost and nothing is used twice: the tree, read from the root down, lists the operands one after
the other (`preorder_nested`).
-/

namespace Demangle

open Symbol

/-! ## Trees as lists -/

/-- What the nodes of a tree carry, the root first. -/
def Symbol.preorder (s : Symbol) : List (Kind × Payload) :=
  s.nodes.map fun n => (n.kind, n.payload)

theorem map_allNodes (cs : List Symbol) :
    (allNodes cs).map (fun n => (n.kind, n.payload)) = cs.flatMap preorder := by
  induction cs with
  | nil => rfl
  | cons c cs ih =>
    rw [allNodes, List.map_append, ih]
    rfl

theorem preorder_eq (s : Symbol) :
    s.preorder = (s.kind, s.payload) :: s.children.flatMap preorder := by
  obtain ⟨kind, payload, children, depth⟩ := s
  rw [preorder, nodes, List.map_cons, map_allNodes]

/-! ## Children that are pushed one after the other -/

theorem foldl_push_eq (cs : List Symbol) : ∀ s : Symbol,
    (cs.foldl Symbol.push s).kind = s.kind ∧ (cs.foldl Symbol.push s).payload = s.payload ∧
      (cs.foldl Symbol.push s).children = s.children ++ cs := by
  induction cs with
  | nil => exact fun s => ⟨rfl, rfl, (List.append_nil _).symm⟩
  | cons c cs ih =>
    intro s
    obtain ⟨hkind, hpayload, hchildren⟩ := ih (s.push c)
    refine ⟨hkind, hpayload, hchildren.trans ?_⟩
    exact List.append_assoc s.children [c] cs

theorem preorder_foldl_push (s : Symbol) (cs : List Symbol) :
    (cs.foldl Symbol.push s).preorder = s.preorder ++ cs.flatMap preorder := by
  obtain ⟨hkind, hpayload, hchildren⟩ := foldl_push_eq cs s
  rw [preorder_eq, preorder_eq s, hkind, hpayload, hchildren, List.flatMap_append]
  rfl

theorem exact_foldl_push (cs : List Symbol) : ∀ {s : Symbol}, s.Exact → (∀ c ∈ cs, c.Exact) →
    (cs.foldl Symbol.push s).Exact := by
  induction cs with
  | nil => exact fun hs _ => hs
  | cons c cs ih =>
    intro s hs hcs
    obtain ⟨hc, hcs⟩ := List.forall_mem_cons.mp hcs
    exact ih (exact_push hs hc) hcs

namespace Decode

/-! ## The recursion -/

/-- The attributes on top of the operands, the top one first. -/
def topAttributes (operands : List Symbol) : List Symbol :=
  operands.takeWhile fun x => x.kind.isFunctionAttribute

/-- The operands below the attributes on top, the top one first. -/
def belowAttributes (operands : List Symbol) : List Symbol :=
  operands.dropWhile fun x => x.kind.isFunctionAttribute

/-- What a level takes: the attributes up to the next forwarder, which is a level itself and takes all that
comes after it. The innermost level takes the rest. -/
def levelChildren (rest : List Symbol) : List Symbol → List Symbol
  | [] => rest
  | x :: attributes =>
    if isForwarder x.kind then [(levelChildren rest attributes).foldl Symbol.push x]
    else x :: levelChildren rest attributes

/-- The tree of a stack of operands: the root is the outermost level, and types among the rest, which comes
in the order in which it was pushed, are replaced by what they hold. -/
def nested (operands : List Symbol) : Symbol :=
  (levelChildren ((belowAttributes operands).reverse.map content)
    (topAttributes operands)).foldl Symbol.push (leaf .global)

/-- The operands make a tree: there are some, no type is empty, and the tree is not nested too deeply. -/
structure Folds (operands : List Symbol) : Prop where
  nonempty : operands ≠ []
  opens : ∀ x ∈ belowAttributes operands, Opens x
  depth : (nested operands).depth ≤ nestingLimit

/-! ## The loop computes the recursion -/

/-- **A stack of open levels, once it is closed, is the recursion** from the level on top. -/
theorem closeLevels_attributes (rest attributes : List Symbol) : ∀ level outer,
    ∃ level' outer', attributes.foldl addAttribute (level :: outer) = level' :: outer' ∧
      closeLevels (rest.foldl Symbol.push level') outer' =
        closeLevels ((levelChildren rest attributes).foldl Symbol.push level) outer := by
  induction attributes with
  | nil => exact fun level outer => ⟨level, outer, rfl, rfl⟩
  | cons x attributes ih =>
    intro level outer
    rw [List.foldl_cons, addAttribute, levelChildren]
    split
    · -- closing the forwarder puts it behind what its parent has by now
      exact ih x (level :: outer)
    · exact ih (level.push x) outer

theorem levelChildren_ne_nil {rest attributes : List Symbol} (h : attributes ++ rest ≠ []) :
    levelChildren rest attributes ≠ [] := by
  cases attributes with
  | nil => exact h
  | cons x attributes =>
    rw [levelChildren]
    split
    · exact List.cons_ne_nil _ _
    · exact List.cons_ne_nil _ _

theorem children_nested_ne_nil {operands : List Symbol} (h : operands ≠ []) :
    (nested operands).children ≠ [] := by
  obtain ⟨-, -, hchildren⟩ := foldl_push_eq
    (levelChildren ((belowAttributes operands).reverse.map content) (topAttributes operands))
    (leaf .global)
  rw [nested, hchildren]
  refine List.append_ne_nil_of_right_ne_nil _ (levelChildren_ne_nil fun hnil => h ?_)
  obtain ⟨htop, hbelow⟩ := List.append_eq_nil_iff.mp hnil
  have hbelow : belowAttributes operands = [] := by simpa using hbelow
  rw [← List.takeWhile_append_dropWhile (p := fun x : Symbol => x.kind.isFunctionAttribute)
    (l := operands)]
  exact List.append_eq_nil_iff.mpr ⟨htop, hbelow⟩

/-! ## Types without content -/

theorem openType_refuses {x : Symbol} (h : ¬Opens x) (s : State) :
    openType x s = .error ⟨.malformed, s.cursor.position⟩ s := by
  obtain ⟨hk, hfirst⟩ := Classical.not_imp.mp h
  have hfirst : x.first? = none := Classical.not_not.mp hfirst
  unfold openType
  rw [if_pos (beq_iff_eq.mpr hk), hfirst]
  rfl

theorem mapM_openType_refuses {xs : List Symbol} (h : ¬∀ x ∈ xs, Opens x) (s : State) :
    xs.mapM openType s = .error ⟨.malformed, s.cursor.position⟩ s := by
  induction xs with
  | nil => exact absurd (fun _ hx => absurd hx List.not_mem_nil) h
  | cons x xs ih =>
    rw [List.mapM_cons]
    by_cases hx : Opens x
    · have hxs : ¬∀ y ∈ xs, Opens y := fun hxs => h (List.forall_mem_cons.mpr ⟨hx, hxs⟩)
      rw [bind_ok (openType_eval hx s)]
      exact bind_error (ih hxs) _
    · exact bind_error (openType_refuses hx s) _

/-! ## What the fold does -/

/-- Once the rest is opened, the root is checked and returned. -/
theorem fold_of_opens {s : State} (h : ∀ x ∈ belowAttributes s.operands, Opens x) :
    fold s = (do
      ensure (!(nested s.operands).children.isEmpty)
      checkDepth (nested s.operands)
      return nested s.operands) { s with operands := [] } := by
  obtain ⟨level, outer, hlevels, hclosed⟩ := closeLevels_attributes
    ((belowAttributes s.operands).reverse.map content) (topAttributes s.operands) (leaf .global) []
  have hmap := mapM_openType_eval (fun x hx => h x (List.mem_reverse.mp hx))
    { s with operands := [] }
  have htop : popWhile Kind.isFunctionAttribute s =
      .ok (topAttributes s.operands) { s with operands := belowAttributes s.operands } := rfl
  have hbelow : popAll { s with operands := belowAttributes s.operands } =
      .ok (belowAttributes s.operands) { s with operands := [] } := rfl
  have hroot : closeLevels (((belowAttributes s.operands).reverse.map content).foldl Symbol.push level)
      outer = nested s.operands := hclosed
  unfold fold
  rw [bind_ok htop, bind_ok hbelow, bind_ok hmap, hlevels]
  dsimp only
  rw [hroot]

theorem fold_of_folds {s : State} (h : Folds s.operands) :
    fold s = .ok (nested s.operands) { s with operands := [] } := by
  have hchildren : (nested s.operands).children.isEmpty = false :=
    List.isEmpty_eq_false_iff.mpr (children_nested_ne_nil h.nonempty)
  rw [fold_of_opens h.opens, checkDepth, hchildren, decide_eq_true h.depth]
  rfl

theorem fold_of_not_folds {s : State} (h : ¬Folds s.operands) :
    fold s = .error ⟨.malformed, s.cursor.position⟩ { s with operands := [] } := by
  by_cases hopens : ∀ x ∈ belowAttributes s.operands, Opens x
  · rw [fold_of_opens hopens]
    by_cases hempty : s.operands = []
    · rw [hempty]
      rfl
    · have hdepth : ¬(nested s.operands).depth ≤ nestingLimit := fun hdepth =>
        h ⟨hempty, hopens, hdepth⟩
      have hchildren : (nested s.operands).children.isEmpty = false :=
        List.isEmpty_eq_false_iff.mpr (children_nested_ne_nil hempty)
      rw [hchildren, checkDepth, decide_eq_false hdepth]
      rfl
  · have hrest : ¬∀ x ∈ (belowAttributes s.operands).reverse, Opens x := fun hall =>
      hopens fun x hx => hall x (List.mem_reverse.mpr hx)
    unfold fold
    exact bind_error (mapM_openType_refuses hrest { s with operands := [] }) _

/-! ## Every operand once -/

theorem flatMap_levelChildren (rest attributes : List Symbol) :
    (levelChildren rest attributes).flatMap preorder = (attributes ++ rest).flatMap preorder := by
  induction attributes with
  | nil => rfl
  | cons x attributes ih =>
    rw [levelChildren, List.cons_append, List.flatMap_cons, ← ih]
    split
    · rw [List.flatMap_singleton, preorder_foldl_push]
    · rfl

/-- **The tree lists the operands**: behind the root come the attributes from the top of the stack down,
and behind them the rest from the bottom of the stack up. -/
theorem preorder_nested (operands : List Symbol) :
    (nested operands).preorder = (Kind.global, Payload.none) ::
      (topAttributes operands ++ (belowAttributes operands).reverse.map content).flatMap preorder := by
  rw [nested, preorder_foldl_push, flatMap_levelChildren]
  rfl

theorem exact_levelChildren {rest attributes : List Symbol} (hrest : ∀ x ∈ rest, x.Exact)
    (hattributes : ∀ x ∈ attributes, x.Exact) : ∀ x ∈ levelChildren rest attributes, x.Exact := by
  induction attributes with
  | nil => exact hrest
  | cons a attributes ih =>
    obtain ⟨ha, hattributes⟩ := List.forall_mem_cons.mp hattributes
    rw [levelChildren]
    split
    · refine List.forall_mem_singleton.mpr (exact_foldl_push _ ha (ih hattributes))
    · exact List.forall_mem_cons.mpr ⟨ha, ih hattributes⟩

theorem exact_content {x : Symbol} (hx : x.Exact) : (content x).Exact := by
  unfold content
  split
  · cases hfirst : x.first? with
    | none => exact hx
    | some c => exact hx.child (List.mem_of_mem_head? hfirst)
  · exact hx

/-- A tree of operands that store their heights stores its heights. -/
theorem exact_nested {operands : List Symbol} (h : ∀ x ∈ operands, x.Exact) :
    (nested operands).Exact := by
  refine exact_foldl_push _ (exact_leaf .global) (exact_levelChildren ?_ ?_)
  · intro y hy
    obtain ⟨x, hx, rfl⟩ := List.mem_map.mp hy
    exact exact_content (h x (List.dropWhile_subset _ (List.mem_reverse.mp hx)))
  · exact fun x hx => h x (List.takeWhile_subset _ hx)

/-- **The fold computes the recursion.** It returns the tree of the operands, or refuses them if there are
none, if a type among the rest is empty, or if the tree is too deep, which is its height for operands that
store theirs. The tree holds each operand once. -/
theorem fold_nested (s : State) :
    (Folds s.operands → fold s = .ok (nested s.operands) { s with operands := [] }) ∧
      (¬Folds s.operands →
        fold s = .error ⟨.malformed, s.cursor.position⟩ { s with operands := [] }) ∧
      (nested s.operands).preorder = (Kind.global, Payload.none) ::
        (topAttributes s.operands ++
          (belowAttributes s.operands).reverse.map content).flatMap preorder ∧
      ((∀ x ∈ s.operands, x.Exact) → (nested s.operands).depth = (nested s.operands).height) := by
  refine ⟨fold_of_folds, fold_of_not_folds, preorder_nested s.operands, fun hexact => ?_⟩
  exact (exact_nested hexact).height_eq_depth.symm

/-- Attributes around two forwarders, and one that is buried below a type. -/
def forwardedOperands : List Symbol :=
  [leaf .objcAttribute, leaf .partialApplyForwarder, leaf .nonObjcAttribute,
    leaf .partialApplyObjcForwarder, typed .tuple [], leaf .mergedFunction, ofText .identifier "f"]

theorem fold_nested_forwarded :
    let s : State := { State.ofString "" with operands := forwardedOperands }
    Folds s.operands ∧
      fold s = .ok (node .global [leaf .objcAttribute, node .partialApplyForwarder
        [leaf .nonObjcAttribute, node .partialApplyObjcForwarder
          [ofText .identifier "f", leaf .mergedFunction, node .tuple []]]]) (State.ofString "") ∧
      ¬Folds [] ∧ fold (State.ofString "") = .error ⟨.malformed, 0⟩ (State.ofString "") := by
  intro s
  have hopens : ∀ x ∈ belowAttributes s.operands, Opens x := by
    show ∀ x ∈ [typed .tuple [], leaf .mergedFunction, ofText .identifier "f"], Opens x
    simp [Opens, typed, node, leaf, ofText, make, first?]
  have hfolds : Folds s.operands := ⟨List.cons_ne_nil _ _, hopens, by decide⟩
  have hempty : ¬Folds [] := fun h => h.nonempty rfl
  exact ⟨hfolds, (fold_nested s).1 hfolds, hempty, (fold_nested (State.ofString "")).2.1 hempty⟩

end Decode

end Demangle
