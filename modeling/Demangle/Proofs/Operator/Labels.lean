import Demangle.Operator.FunctionType
import Demangle.Proofs.Operand.Pops

/-!
# Both spellings of argument labels give the same function

A function type with its argument labels is written in two ways: legacy names keep the labels inside the
parameter tuple, current names push them below the type. `LabelledType` is what both of them spell, a
function type (`LabelledType.type`) and its labels (`LabelledType.labels`). Whichever way is used,
`popLabels` returns the list of the labels and the type without them:

    legacy     popLabels (f.type true)  s                         = .ok (some f.labelList, f.type false) s
    current    popLabels (f.type false) (f.labels above below)    = .ok (some f.labelList, f.type false) below
-/

namespace Demangle.Decode

open Symbol

/-! ## Parameters -/

/-- A parameter of a function. -/
structure Parameter where
  type : Symbol
  label : Option String
  variadic : Bool
  isType : type.kind = .type

namespace Parameter

/-- The element of a parameter tuple, with or without its label. -/
def element (labelled : Bool) (p : Parameter) : Symbol :=
  node .tupleElement ((if p.variadic then [leaf .variadicMarker] else []) ++
    (if labelled then p.label.toList.map (ofText .tupleElementName) else []) ++ [p.type])

/-- What stands for the label in a list of labels. -/
def labelNode (p : Parameter) : Symbol :=
  p.label.elim (leaf .firstElementMarker) (ofText .identifier)

/-- An element is parted from its label, wherever the label stands in it. -/
theorem splitLabel_element (p : Parameter) :
    splitLabel (p.element true) = (p.labelNode, p.element false) := by
  obtain ⟨type, label, variadic, isType⟩ := p
  cases variadic <;> cases label <;>
    simp [splitLabel, element, labelNode, node, leaf, ofText, isType, List.findIdx?_cons, child?,
      removeChild, make, textD, text?]

theorem kind_labelNode (p : Parameter) :
    p.labelNode.kind = if p.label.isNone then .firstElementMarker else .identifier := by
  obtain ⟨type, label, variadic, isType⟩ := p
  cases label <;> rfl

end Parameter

/-! ## Function types with labels -/

/-- A function type, perhaps below a generic signature, and the labels of its parameters. There is a
parameter at least, and no more than can be counted. -/
structure LabelledType where
  kind : Kind
  params : List Parameter
  result : Symbol
  throws : Bool
  signature : Option Symbol
  isFunction : kind = .functionType ∨ kind = .noEscapeFunctionType
  nonempty : params ≠ []
  countable : params.length < UInt64.size

namespace LabelledType

variable (f : LabelledType)

/-- The parameter tuple, with or without the labels. -/
def tuple (labelled : Bool) : Symbol :=
  node .tuple (f.params.map (·.element labelled))

/-- The parameters, with their number. -/
def arguments (labelled : Bool) : Symbol :=
  make .argumentTuple (.index (UInt64.ofNat f.params.length)) [node .type [f.tuple labelled]]

/-- The function type itself. -/
def function (labelled : Bool) : Symbol :=
  node f.kind ((if f.throws then [leaf .throwsMark] else []) ++
    [f.arguments labelled, node .returnType [f.result]])

/-- The whole type, with or without the labels in the parameter tuple. -/
def type (labelled : Bool) : Symbol :=
  node .type [f.signature.elim (f.function labelled) fun signature =>
    node .dependentGenericType [signature, node .type [f.function labelled]]]

/-- The labels, a marker for each one that is missing. -/
def labels : List Symbol :=
  f.params.map Parameter.labelNode

/-- No parameter has a label. -/
def isUnlabelled : Bool :=
  f.params.all (·.label.isNone)

/-- The list of the labels, which is empty if there are none. -/
def labelList : Symbol :=
  node .labelList (if f.isUnlabelled then [] else f.labels)

/-! ## Finding and stripping the labels -/

theorem parameterCount_ne_zero : (UInt64.ofNat f.params.length == 0) = false := by
  have hlength := UInt64.toNat_ofNat_of_lt' f.countable
  have hpos := List.length_pos_iff.mpr f.nonempty
  refine beq_eq_false_iff_ne.mpr fun h => ?_
  rw [h] at hlength
  exact absurd hlength (Nat.ne_of_lt hpos)

/-- The parameter tuple is found wherever it stands, and another one put in its place changes nothing
else. -/
theorem parameterSlot?_type (labelled : Bool) (s : State) :
    ∃ slot : ParameterSlot, parameterSlot? (f.type labelled) s = .ok (some slot) s ∧
      slot.count.toNat = f.params.length ∧ slot.tuple? = some (f.tuple labelled) ∧
      ∀ other, slot.replace (f.tuple other) = f.type other := by
  -- all checks but the one for the number of parameters are settled by the shape of the type
  suffices ∃ slot : ParameterSlot, parameterSlot? (f.type labelled) s =
      (if UInt64.ofNat f.params.length == 0 then pure none else pure (some slot) : Decode _) s ∧
      slot.count.toNat = f.params.length ∧ slot.tuple? = some (f.tuple labelled) ∧
      ∀ other, slot.replace (f.tuple other) = f.type other by
    obtain ⟨slot, hslot, rest⟩ := this
    rw [f.parameterCount_ne_zero] at hslot
    exact ⟨slot, hslot, rest⟩
  obtain ⟨kind, params, result, throws, signature, isFunction, -, countable⟩ := f
  rcases isFunction with rfl | rfl <;> cases throws <;> cases signature <;>
    exact ⟨_, rfl, UInt64.toNat_ofNat_of_lt' countable, rfl, fun _ => rfl⟩

theorem stripLabels_tuple :
    stripLabels f.params.length (f.tuple true) = (f.labels, f.tuple false) := by
  have hlength : (f.tuple true).children.length = f.params.length := List.length_map _
  have hsplit : (f.tuple true).children.map splitLabel =
      f.params.map fun p => (p.labelNode, p.element false) := by
    show (f.params.map _).map splitLabel = _
    rw [List.map_map]
    exact List.map_congr_left fun p _ => p.splitLabel_element
  unfold stripLabels
  rw [List.take_of_length_le hlength.le, List.drop_of_length_le hlength.le, hsplit]
  simp only [List.map_map, List.append_nil]
  rfl

/-- The labels are names and markers, and only markers if there are no labels. -/
theorem labelList_labels (s : State) : Decode.labelList f.labels s = .ok f.labelList s := by
  have hkinds : (f.labels.all fun l => l.kind == .identifier || l.kind == .firstElementMarker) = true := by
    refine List.all_eq_true.mpr fun l hl => ?_
    obtain ⟨p, -, rfl⟩ := List.mem_map.mp hl
    rw [p.kind_labelNode]
    split <;> rfl
  have hmarkers : (f.labels.all fun l => l.kind == .firstElementMarker) = f.isUnlabelled := by
    unfold labels isUnlabelled
    rw [List.all_map]
    congr 1
    funext p
    show (p.labelNode.kind == .firstElementMarker) = p.label.isNone
    rw [p.kind_labelNode]
    cases p.label <;> rfl
  unfold Decode.labelList
  rw [hkinds, hmarkers]
  rfl

/-! ## Both spellings -/

/-- Labels in the parameter tuple are taken out of it. -/
theorem popLabels_legacy {s : State} (hs : s.legacyLabels = true) :
    popLabels (f.type true) s = .ok (some f.labelList, f.type false) s := by
  obtain ⟨slot, hslot, hcount, htuple, hreplace⟩ := f.parameterSlot?_type true s
  have hle : decide (f.params.length ≤ (f.tuple true).children.length) = true :=
    decide_eq_true (List.length_map _).ge
  obtain ⟨cursor, operands, substitutions, words, legacy⟩ := s
  cases hs
  unfold popLabels
  refine (bind_ok hslot _).trans ?_
  simp only [htuple, hcount, hle, f.stripLabels_tuple, hreplace]
  exact bind_ok (f.labelList_labels _) _

/-- Labels among the operands are popped, one for each parameter. -/
theorem popLabels_current {s : State} {below : List Symbol} (hs : s.legacyLabels = false)
    (ho : s.operands = f.labels.reverse ++ below) :
    popLabels (f.type false) s =
      .ok (some f.labelList, f.type false) { s with operands := below } := by
  obtain ⟨slot, hslot, hcount, htuple, -⟩ := f.parameterSlot?_type false s
  have hlength : f.params.length = f.labels.reverse.length := by
    rw [List.length_reverse, labels, List.length_map]
  have hmiss : popKind? .emptyList s = .ok none s := by
    refine popIf?_miss fun x hx => ?_
    have hne : f.labels.reverse ≠ [] := by simpa [labels] using f.nonempty
    rw [ho, List.head?_append_of_ne_nil _ hne] at hx
    obtain ⟨p, -, rfl⟩ := List.mem_map.mp (List.mem_reverse.mp (List.mem_of_mem_head? hx))
    rw [p.kind_labelNode]
    split <;> rfl
  have hpop : popCount f.params.length s = .ok f.labels.reverse { s with operands := below } := by
    rw [popCount_eq, popSplit, ho, hlength, List.take_left, List.drop_left, if_pos (by simp)]
  obtain ⟨cursor, operands, substitutions, words, legacy⟩ := s
  cases hs
  unfold popLabels
  refine (bind_ok hmiss _).trans ((bind_ok hslot _).trans ?_)
  simp only [htuple, hcount]
  refine (bind_ok hpop _).trans ?_
  rw [List.reverse_reverse]
  exact bind_ok (f.labelList_labels _) _

/-- An empty list stands for the labels of a function that has none. -/
theorem popLabels_unlabelled {s : State} {below : List Symbol} (hs : s.legacyLabels = false)
    (ho : s.operands = leaf .emptyList :: below) (hf : f.isUnlabelled = true) :
    popLabels (f.type false) s =
      .ok (some f.labelList, f.type false) { s with operands := below } := by
  have hhit : popKind? .emptyList s = .ok (some (leaf .emptyList)) { s with operands := below } :=
    popKind?_hit ho rfl
  obtain ⟨cursor, operands, substitutions, words, legacy⟩ := s
  cases hs
  unfold popLabels labelList
  rw [hf]
  exact bind_ok hhit _

end LabelledType

/-- **Both spellings of argument labels agree.** Labels in the parameter tuple of a legacy name, labels
below the type of a current name and, for a function without labels, an empty list in their place all give
the same list of labels and the same type. The first takes nothing from the operands and the others take
what spells the labels. -/
theorem popLabels_spellings (f : LabelledType) (s : State) (below : List Symbol) :
    popLabels (f.type true) { s with legacyLabels := true } =
        .ok (some f.labelList, f.type false) { s with legacyLabels := true } ∧
      popLabels (f.type false)
          { s with legacyLabels := false, operands := f.labels.reverse ++ below } =
        .ok (some f.labelList, f.type false)
          { s with legacyLabels := false, operands := below } ∧
      (f.isUnlabelled = true →
        popLabels (f.type false)
            { s with legacyLabels := false, operands := leaf .emptyList :: below } =
          .ok (some f.labelList, f.type false)
            { s with legacyLabels := false, operands := below }) :=
  ⟨f.popLabels_legacy rfl, f.popLabels_current rfl rfl, f.popLabels_unlabelled rfl rfl⟩

/-- A throwing generic function whose first parameter may have a label and whose second one is
variadic. -/
def LabelledType.sample (label : Option String) : LabelledType where
  kind := .functionType
  params := [⟨standardType .structType "Int", label, false, rfl⟩,
    ⟨standardType .structType "Bool", none, true, rfl⟩]
  result := typed .tuple []
  throws := true
  signature := some (node .dependentGenericSignature [])
  isFunction := .inl rfl
  nonempty := nofun
  countable := by
    show 2 < UInt64.size
    decide

theorem popLabels_spellings_sample :
    (LabelledType.sample none).isUnlabelled = true ∧
      popLabels ((LabelledType.sample none).type false)
          { State.ofString "" with operands := [leaf .emptyList, leaf .throwsMark] } =
        .ok (some (leaf .labelList), (LabelledType.sample none).type false)
          { State.ofString "" with operands := [leaf .throwsMark] } ∧
      popLabels ((LabelledType.sample (some "a")).type true)
          { State.ofString "" with legacyLabels := true } =
        .ok (some (node .labelList [ofText .identifier "a", leaf .firstElementMarker]),
            (LabelledType.sample (some "a")).type false)
          { State.ofString "" with legacyLabels := true } :=
  ⟨rfl, (popLabels_spellings (.sample none) (.ofString "") [leaf .throwsMark]).2.2 rfl,
    (popLabels_spellings (.sample (some "a")) (.ofString "") []).1⟩

end Demangle.Decode
