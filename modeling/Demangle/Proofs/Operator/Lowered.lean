import Mathlib.Data.List.Induction
import Demangle.Proofs.Mangling.Record

/-!
# Lowered function types

A lowered function type has a convention for the function itself, for each parameter and for each result.
The types and the signature stand before the operator, the conventions after it, up to a `_`:

    types signature? I P? e? callee representation? parameters results (z result)? _

A `LoweredFunction` holds each convention together with its type. The conventions are read from the front,
the types are popped from the back, and each convention meets its own type again:

    operator s = .ok f.tree { s with cursor behind f.spelling, operands := base }     (operator_lowered)
-/

namespace Demangle

open Symbol Decode

/-! ## Conventions with their types -/

/-- The tables of letters that conventions are taken from. -/
inductive ConventionTable where
  | callee
  | representation
  | parameter
  | result

/-- What a letter of the table means. -/
def ConventionTable.meaning? : ConventionTable → Char → Option String
  | .callee => calleeConvention?
  | .representation => representation?
  | .parameter => parameterConvention?
  | .result => resultConvention?

/-- A letter of a table, with its meaning. -/
structure Convention (table : ConventionTable) where
  letter : Char
  text : String
  known : table.meaning? letter = some text

/-- A convention with the type that it is about. -/
structure Slot (table : ConventionTable) extends Convention table where
  type : Symbol
  isType : type.kind = .type

/-- A convention for a type of the standard library. -/
def Slot.standard {table : ConventionTable} (c : Convention table) (kind : Kind) (name : String) :
    Slot table :=
  ⟨c, standardType kind name, rfl⟩

/-- The node of a slot. -/
def Slot.tree {table : ConventionTable} (kind : Kind) (slot : Slot table) : Symbol :=
  node kind [ofText .implConvention slot.text, slot.type]

/-- The generic signature of a lowered function type. -/
structure LoweredSignature where
  operand : Symbol
  isSignature : operand.kind = .dependentGenericSignature
  pseudogeneric : Bool

namespace LoweredSignature

/-- How the signature is marked after the operator. -/
def letters (g : LoweredSignature) : List Char :=
  if g.pseudogeneric then ['P'] else []

/-- The signature as a part of the type. -/
def tree (g : LoweredSignature) : Symbol :=
  if g.pseudogeneric then g.operand.renamed .dependentPseudogenericSignature [] else g.operand

end LoweredSignature

/-- A lowered function type with all that belongs to it. -/
structure LoweredFunction where
  signature : Option LoweredSignature
  escaping : Bool
  callee : Convention .callee
  representation : Option (Convention .representation)
  params : List (Slot .parameter)
  results : List (Slot .result)
  error : Option (Slot .result)

namespace LoweredFunction

/-- The types, in the order in which they are pushed. -/
def types (f : LoweredFunction) : List Symbol :=
  f.params.map Slot.type ++ f.results.map Slot.type ++ f.error.toList.map Slot.type

/-- What is pushed for the type: its types, then its signature. -/
def operands (f : LoweredFunction) : List Symbol :=
  f.types ++ f.signature.toList.map LoweredSignature.operand

/-- The letters after the last result: the error, if there is one, and the end. -/
def lastLetters (f : LoweredFunction) : List Char :=
  f.error.elim [] (fun slot => ['z', slot.letter]) ++ ['_']

/-- The letters of the parameters and results. -/
def slotLetters (f : LoweredFunction) : List Char :=
  f.params.map (·.letter) ++ (f.results.map (·.letter) ++ f.lastLetters)

/-- The letters of all conventions. -/
def conventionLetters (f : LoweredFunction) : List Char :=
  (if f.escaping then ['e'] else []) ++
    ([f.callee.letter] ++ (f.representation.toList.map (·.letter) ++ f.slotLetters))

/-- All that is spelled after the operator. -/
def letters (f : LoweredFunction) : List Char :=
  f.signature.elim [] LoweredSignature.letters ++ f.conventionLetters

/-- The conventions of the parameters and results, with the kinds of their nodes. -/
def slots (f : LoweredFunction) : List (Kind × String) :=
  f.params.map (fun slot => (.implParameter, slot.text)) ++
    f.results.map (fun slot => (.implResult, slot.text)) ++
    f.error.toList.map (fun slot => (.implErrorResult, slot.text))

/-- How the type is spelled behind its types and its signature. -/
def spelling (f : LoweredFunction) : String :=
  String.ofList ('I' :: f.letters)

/-- The parts of the type that stand before its parameters. -/
def head (f : LoweredFunction) : List Symbol :=
  (if f.escaping then [leaf .implEscaping] else []) ++
    [ofText .implConvention f.callee.text] ++
    (f.representation.map fun c => ofText .implFunctionAttribute c.text).toList ++
    (f.signature.map LoweredSignature.tree).toList

/-- The tree of the type: each slot holds its own convention and its own type. -/
def tree (f : LoweredFunction) : Symbol :=
  typed .implFunctionType (f.head ++ (f.params.map (Slot.tree .implParameter) ++
    f.results.map (Slot.tree .implResult) ++ f.error.toList.map (Slot.tree .implErrorResult)))

end LoweredFunction

namespace Decode

variable {rest : List Cell} {table : ConventionTable} {c : Char} {text : String}

/-! ## Letters of conventions -/

theorem low_meaning (h : table.meaning? c = some text) : c.toNat < 0x80 := by
  cases table
  all_goals
    simp only [ConventionTable.meaning?, calleeConvention?, representation?, parameterConvention?,
      resultConvention?] at h
    split at h <;> cases h <;> decide

/-- The callee is not taken for one of the marks before it. -/
theorem head_callee (callee : Convention .callee) {others : List Char} :
    ∀ x ∈ (([callee.letter] ++ others).map Cell.ascii ++ rest).head?,
      x.letter ≠ 'e' ∧ x.letter ≠ 'P' := by
  obtain ⟨c, text, known⟩ := callee
  intro x hx
  cases hx
  rw [Cell.letter_ascii (low_meaning known)]
  simp only [ConventionTable.meaning?, calleeConvention?] at known
  split at known <;> cases known <;> decide

/-- No letter of a result stands for a parameter or a representation. -/
theorem result_only (h : resultConvention? c = some text) :
    parameterConvention? c = none ∧ representation? c = none := by
  unfold resultConvention? at h
  split at h <;> cases h <;> exact ⟨rfl, rfl⟩

theorem parameter_only (h : parameterConvention? c = some text) : representation? c = none := by
  unfold parameterConvention? at h
  split at h <;> cases h <;> rfl

/-- The letters of some slots start with one of the table, or with what follows. -/
theorem head_slots (p : Char → Prop) (slots : List (Slot table)) {others : List Char}
    (hp : ∀ {c text}, table.meaning? c = some text → p c)
    (hothers : ∀ x ∈ (others.map Cell.ascii ++ rest).head?, p x.letter) :
    ∀ x ∈ ((slots.map (·.letter) ++ others).map Cell.ascii ++ rest).head?, p x.letter := by
  rw [List.map_append, List.append_assoc]
  refine head_letters p ?_ ?_ fun _ => hothers
  · intro c hc
    obtain ⟨slot, -, rfl⟩ := List.mem_map.mp hc
    exact low_meaning slot.known
  · intro c hc
    obtain ⟨slot, -, rfl⟩ := List.mem_map.mp (List.mem_of_mem_head? hc)
    exact hp slot.known

theorem letterRun_slots (slots : List (Slot table))
    (h : ∀ x ∈ rest.head?, table.meaning? x.letter = none) :
    Scan.letterRun table.meaning? ((slots.map (·.letter)).map Cell.ascii ++ rest) =
      slots.map (·.text) := by
  induction slots with
  | nil =>
    cases rest with
    | nil => rfl
    | cons x r =>
      show Scan.letterRun _ (x :: r) = []
      rw [Scan.letterRun, h x rfl]
  | cons slot slots ih =>
    show Scan.letterRun _ (Cell.ascii slot.letter :: _) = _
    rw [Scan.letterRun, Cell.letter_ascii (low_meaning slot.known), slot.known]
    exact congrArg (slot.text :: ·) ih

/-- The letters of some slots are read up to the first one that is not of their table. -/
theorem reads_slots (slots : List (Slot table))
    (h : ∀ x ∈ rest.head?, table.meaning? x.letter = none) :
    Reads (Scan.letters table.meaning?) (slots.map (·.letter)) rest (slots.map (·.text)) := by
  intro s hs
  refine lift_ok ?_
  unfold Scan.letters
  rw [hs, letterRun_slots slots h]
  simp only [List.length_map]

/-- A convention that may be missing is read if it is there. -/
theorem reads_letter? (c : Option (Convention table))
    (h : ∀ x ∈ rest.head?, table.meaning? x.letter = none) :
    Reads (Scan.letter? table.meaning?) (c.toList.map (·.letter)) rest (c.map (·.text)) := by
  intro s hs
  refine lift_ok ?_
  cases c with
  | some c =>
    refine Scan.letter?_hit hs ?_
    rw [Cell.letter_ascii (low_meaning c.known)]
    exact c.known
  | none =>
    rw [Option.toList_none, List.map_nil, List.map_nil, List.nil_append] at hs
    rw [Option.toList_none, List.map_nil, List.length_nil, Cursor.advance_zero]
    cases rest with
    | nil =>
      unfold Scan.letter?
      rw [hs]
      rfl
    | cons x r => exact Scan.letter?_miss hs (h x rfl)

/-! ## Reading the conventions -/

/-- The error of a lowered function type, if it has one. -/
def errorConvention : Decode (List String) := do
  if ← Scan.accept 'z' then
    pure [← require (← Scan.letter? resultConvention?)]
  else pure []

/-- Reads the parameters and results. -/
def slotConventions : Decode (List (Kind × String)) := do
  let params ← Scan.letters parameterConvention?
  let results ← Scan.letters resultConvention?
  let errors ← errorConvention
  Scan.expect '_'
  return params.map (Kind.implParameter, ·) ++ results.map (Kind.implResult, ·) ++
    errors.map (Kind.implErrorResult, ·)

/-- Reads all conventions: whether the function escapes, the callee, the representation, the slots. -/
def conventions : Decode (Bool × String × Option String × List (Kind × String)) := do
  let escaping ← Scan.accept 'e'
  let callee ← Scan.letter (.expected "a callee convention") calleeConvention?
  let representation ← Scan.letter? representation?
  let slots ← slotConventions
  return (escaping, callee, representation, slots)

theorem loweredFunctionType_eq : loweredFunctionType = do
    let signature ← popLoweredSignature?
    let (escaping, callee, representation, slots) ← conventions
    let types ← popTypes slots.length []
    return typed .implFunctionType ((if escaping then [leaf .implEscaping] else []) ++
      [ofText .implConvention callee] ++
      (representation.map (ofText .implFunctionAttribute)).toList ++ signature.toList ++
      slots.zipWith (fun slot type => node slot.1 [ofText .implConvention slot.2, type]) types) := by
  simp only [loweredFunctionType, conventions, slotConventions, errorConvention, bind_assoc, pure_bind]
  -- the two sides differ only in where the error ends
  iterate 7 refine bind_congr fun _ => ?_
  split
  · simp only [bind_assoc, pure_bind]
  · simp only [pure_bind]

theorem reads_errorConvention (e : Option (Slot .result)) :
    Reads errorConvention (e.elim [] fun slot => ['z', slot.letter]) (Cell.ascii '_' :: rest)
      (e.toList.map (·.text)) := by
  cases e with
  | none =>
    refine (reads_accept_miss (c := 'z') (by decide) ?_).bind_nil (.pure [])
    intro x hx
    cases hx
    decide
  | some slot =>
    have hletter : Reads (Scan.letter? resultConvention?) [slot.letter] (Cell.ascii '_' :: rest)
        (some slot.text) := by
      refine reads_letter? (some slot.toConvention) fun x hx => ?_
      cases hx
      rfl
    refine reads_accept.bind ?_
    intro s hs
    simp only [if_true]
    rw [bind_ok (hletter s hs)]
    rfl

/-- The error is read, and the end behind it. -/
theorem reads_lastConvention (f : LoweredFunction) {β : Type} (g : List String → β) :
    Reads (do
        let errors ← errorConvention
        Scan.expect '_'
        return g errors)
      f.lastLetters rest (g (f.error.toList.map (·.text))) :=
  (reads_errorConvention f.error).bind (reads_expect.map fun _ => g (f.error.toList.map (·.text)))

theorem head_lastLetters (f : LoweredFunction) (p : Char → Prop) (hz : p 'z') (hend : p '_') :
    ∀ x ∈ (f.lastLetters.map Cell.ascii ++ rest).head?, p x.letter := by
  unfold LoweredFunction.lastLetters
  cases f.error with
  | none =>
    intro x hx
    cases hx
    exact hend
  | some slot =>
    intro x hx
    cases hx
    exact hz

/-- The slots are read up to the end of the conventions. -/
theorem reads_slotConventions (f : LoweredFunction) :
    Reads slotConventions f.slotLetters rest f.slots := by
  have hslots : f.slots = (f.params.map (·.text)).map (Kind.implParameter, ·) ++
      (f.results.map (·.text)).map (Kind.implResult, ·) ++
      (f.error.toList.map (·.text)).map (Kind.implErrorResult, ·) := by
    simp only [LoweredFunction.slots, List.map_map, Function.comp_def]
  rw [hslots]
  refine Reads.bind (reads_slots f.params ?_) (Reads.bind (reads_slots f.results ?_)
    (reads_lastConvention f _))
  · -- the parameters end at the first result, the results at the error or at the end
    exact head_slots (parameterConvention? · = none) f.results (fun h => (result_only h).1)
      (head_lastLetters f (parameterConvention? · = none) rfl rfl)
  · exact head_lastLetters f (resultConvention? · = none) rfl rfl

/-- All conventions are read. -/
theorem reads_conventions (f : LoweredFunction) :
    Reads conventions f.conventionLetters rest
      (f.escaping, f.callee.text, f.representation.map (·.text), f.slots) := by
  have hslots : Reads slotConventions f.slotLetters rest f.slots := reads_slotConventions f
  have hnone : ∀ x ∈ (f.slotLetters.map Cell.ascii ++ rest).head?, representation? x.letter = none :=
    head_slots (representation? · = none) f.params parameter_only
      (head_slots (representation? · = none) f.results (fun h => (result_only h).2)
        (head_lastLetters f (representation? · = none) rfl rfl))
  refine Reads.bind (reads_flag f.escaping (by decide) fun x hx => (head_callee f.callee x hx).1) ?_
  refine Reads.bind (reads_letter (low_meaning f.callee.known) f.callee.known) ?_
  refine Reads.bind (reads_letter? f.representation hnone) ?_
  exact hslots.map fun slots => (f.escaping, f.callee.text, f.representation.map (·.text), slots)

/-- The conventions do not start with the mark of a signature. -/
theorem head_conventions (f : LoweredFunction) :
    ∀ x ∈ (f.conventionLetters.map Cell.ascii ++ rest).head?, x.letter ≠ 'P' := by
  unfold LoweredFunction.conventionLetters
  cases f.escaping with
  | true =>
    intro x hx
    cases hx
    decide
  | false => exact fun x hx => (head_callee f.callee x hx).2

/-! ## Operands -/

/-- The signature is popped, and its mark read, if there is one. -/
theorem popLoweredSignature?_eval (g : Option LoweredSignature) {s : State} {below : List Symbol}
    (hs : s.cursor.rest = (g.elim [] LoweredSignature.letters).map Cell.ascii ++ rest)
    (hrest : ∀ x ∈ rest.head?, x.letter ≠ 'P')
    (ho : s.operands = g.toList.map LoweredSignature.operand ++ below)
    (hbelow : g = none → ∀ x ∈ below.head?, x.kind ≠ .dependentGenericSignature) :
    popLoweredSignature? s = .ok (g.map LoweredSignature.tree)
      { s with
        cursor := s.cursor.advance (g.elim [] LoweredSignature.letters).length, operands := below } := by
  unfold popLoweredSignature? popSignature?
  cases g with
  | none =>
    have hmiss : popKind? .dependentGenericSignature s = .ok none s := by
      refine popIf?_miss fun x hx => beq_eq_false_iff_ne.mpr ?_
      rw [ho] at hx
      exact hbelow rfl x hx
    rw [bind_ok hmiss]
    rw [show below = s.operands from ho.symm]
    rfl
  | some g =>
    have hpop : popKind? .dependentGenericSignature s =
        .ok (some g.operand) { s with operands := below } := popKind?_hit ho g.isSignature
    have hmark : Reads (Scan.accept 'P') g.letters rest g.pseudogeneric :=
      reads_flag g.pseudogeneric (by decide) hrest
    rw [bind_ok hpop]
    dsimp only
    rw [bind_ok (hmark { s with operands := below } hs)]
    rw [Option.map_some, LoweredSignature.tree]
    cases g.pseudogeneric with
    | true => rfl
    | false => rfl

/-- Types are popped from the back, and come in the order in which they were pushed. -/
theorem popTypes_eval {below : List Symbol} (ts : List Symbol) : ∀ (acc : List Symbol) (s : State),
    (∀ t ∈ ts, t.kind = .type) → s.operands = ts.reverse ++ below →
      popTypes ts.length acc s = .ok (ts ++ acc) { s with operands := below } := by
  induction ts using List.reverseRecOn with
  | nil =>
    intro acc s _ hs
    rw [show below = s.operands from hs.symm]
    rfl
  | append_singleton ts t ih =>
    intro acc s hts hs
    -- the last type is on top
    rw [List.reverse_append, List.reverse_singleton, List.singleton_append, List.cons_append] at hs
    have ht : t.kind = .type := hts t (List.mem_append_right ts List.mem_cons_self)
    rw [List.length_append, List.length_singleton, popTypes, bind_ok (popType_hit hs ht)]
    rw [ih _ _ (fun u hu => hts u (List.mem_append_left [t] hu)) rfl, List.append_assoc]
    rfl

theorem kind_types (f : LoweredFunction) : ∀ t ∈ f.types, t.kind = .type := by
  intro t ht
  simp only [LoweredFunction.types, List.mem_append, List.mem_map] at ht
  rcases ht with (⟨slot, -, rfl⟩ | ⟨slot, -, rfl⟩) | ⟨slot, -, rfl⟩
  all_goals exact slot.isType

/-- Conventions meet the types of their own slots. -/
theorem zipWith_slots (kind : Kind) (slots : List (Slot table)) :
    (slots.map fun slot => (kind, slot.text)).zipWith
      (fun slot type => node slot.1 [ofText .implConvention slot.2, type]) (slots.map Slot.type) =
      slots.map (Slot.tree kind) := by
  rw [List.zipWith_map, List.zipWith_self]
  rfl

theorem zipWith_types (f : LoweredFunction) :
    f.slots.zipWith (fun slot type => node slot.1 [ofText .implConvention slot.2, type]) f.types =
      f.params.map (Slot.tree .implParameter) ++ f.results.map (Slot.tree .implResult) ++
        f.error.toList.map (Slot.tree .implErrorResult) := by
  unfold LoweredFunction.slots LoweredFunction.types
  rw [List.zipWith_append (by simp), List.zipWith_append (by simp), zipWith_slots, zipWith_slots,
    zipWith_slots]

/-- No signature is on top if the type has none of its own. -/
theorem head_types (f : LoweredFunction) {base : List Symbol}
    (hbase : f.operands = [] → ∀ x ∈ base.head?, x.kind ≠ .dependentGenericSignature)
    (hnone : f.signature = none) :
    ∀ x ∈ (f.types.reverse ++ base).head?, x.kind ≠ .dependentGenericSignature := by
  intro x hx
  cases hts : f.types.reverse with
  | nil =>
    have hoperands : f.operands = [] := by
      rw [LoweredFunction.operands, hnone, List.reverse_eq_nil_iff.mp hts]
      rfl
    rw [hts] at hx
    exact hbase hoperands x hx
  | cons t ts =>
    rw [hts] at hx
    cases hx
    have hx : x ∈ f.types.reverse := hts ▸ List.mem_cons_self
    rw [kind_types f x (List.mem_reverse.mp hx)]
    decide

/-! ## The operator -/

/-- What the operator makes of the letters after it and of the operands. -/
theorem loweredFunctionType_eval (f : LoweredFunction) {s : State} {base : List Symbol}
    (hs : s.cursor.rest = f.letters.map Cell.ascii ++ rest) (ho : s.operands = f.operands.reverse ++ base)
    (hbase : f.operands = [] → ∀ x ∈ base.head?, x.kind ≠ .dependentGenericSignature) :
    loweredFunctionType s = .ok f.tree
      { s with cursor := s.cursor.advance f.letters.length, operands := base } := by
  have hoperands : s.operands =
      f.signature.toList.map LoweredSignature.operand ++ (f.types.reverse ++ base) := by
    rw [ho, LoweredFunction.operands, List.reverse_append, List.append_assoc]
    cases f.signature with
    | none => rfl
    | some g => rfl
  unfold LoweredFunction.letters at hs ⊢
  rw [List.map_append, List.append_assoc] at hs
  have hsignature := popLoweredSignature?_eval f.signature hs (head_conventions f) hoperands
    (head_types f hbase)
  have hnext := Cursor.rest_advance hs
  rw [List.length_map] at hnext
  let u : State := { s with
    cursor := s.cursor.advance (f.signature.elim [] LoweredSignature.letters).length
    operands := f.types.reverse ++ base }
  have hread := reads_conventions f u hnext
  have htypes := popTypes_eval f.types []
    { u with cursor := u.cursor.advance f.conventionLetters.length } (kind_types f) rfl
  have hlength : f.slots.length = f.types.length := by
    simp [LoweredFunction.slots, LoweredFunction.types]
  rw [loweredFunctionType_eq, bind_ok hsignature, bind_ok hread]
  dsimp only
  rw [hlength, bind_ok htypes, List.append_nil, zipWith_types, Option.map_map, List.length_append,
    ← Cursor.advance_advance]
  rfl

/-! ## Texts -/

theorem low_signatureMark (g : Option LoweredSignature) :
    ∀ c ∈ g.elim [] LoweredSignature.letters, c.toNat < 0x80 := by
  cases g with
  | none => nofun
  | some g =>
    intro c hc
    simp only [Option.elim_some, LoweredSignature.letters, List.mem_ite_nil_right,
      List.mem_singleton] at hc
    rw [hc.2]
    decide

theorem low_lastLetters (f : LoweredFunction) : ∀ c ∈ f.lastLetters, c.toNat < 0x80 := by
  intro c hc
  rcases List.mem_append.mp hc with herror | hend
  · cases he : f.error with
    | none =>
      rw [he] at herror
      cases herror
    | some slot =>
      rw [he] at herror
      simp only [Option.elim_some, List.mem_cons, List.not_mem_nil, or_false] at herror
      rcases herror with rfl | rfl
      · decide
      · exact low_meaning slot.known
  · rw [List.mem_singleton.mp hend]
    decide

theorem low_loweredLetters (f : LoweredFunction) : ∀ c ∈ f.letters, c.toNat < 0x80 := by
  intro c hc
  simp only [LoweredFunction.letters, LoweredFunction.conventionLetters, LoweredFunction.slotLetters,
    List.mem_append, List.mem_map, List.mem_ite_nil_right, List.mem_singleton] at hc
  rcases hc with hc | ⟨-, rfl⟩ | rfl | ⟨d, -, rfl⟩ | ⟨slot, -, rfl⟩ | ⟨slot, -, rfl⟩ | hc
  · exact low_signatureMark f.signature c hc
  · decide
  · exact low_meaning f.callee.known
  · exact low_meaning d.known
  · exact low_meaning slot.known
  · exact low_meaning slot.known
  · exact low_lastLetters f c hc

/-- **Lowered function types pair every convention with its type**: behind the types and the signature,
the spelling of a lowered function type leaves what is below them, and gives the tree in which each slot
has its own convention and its own type. Without types and signature, no other signature may be on top. -/
theorem operator_lowered (f : LoweredFunction) {s : State} {base : List Symbol}
    (hs : s.cursor.rest = Cell.ofString f.spelling ++ rest) (ho : s.operands = f.operands.reverse ++ base)
    (hbase : f.operands = [] → ∀ x ∈ base.head?, x.kind ≠ .dependentGenericSignature) :
    operator s = .ok f.tree
      { s with cursor := s.cursor.advance (Cell.ofString f.spelling).length, operands := base } := by
  have hcells : Cell.ofString f.spelling = Cell.ascii 'I' :: f.letters.map Cell.ascii :=
    Cell.ofString_ofList (List.forall_mem_cons.mpr ⟨by decide, low_loweredLetters f⟩)
  rw [hcells] at hs ⊢
  have hrest := Cursor.rest_advance_one hs
  have heval := loweredFunctionType_eval f (s := { s with cursor := s.cursor.advance 1 }) hrest ho hbase
  rw [operator_letter (c := 'I') rfl hs, heval, Cursor.advance_advance, List.length_cons, List.length_map,
    Nat.add_comm]

/-- A pseudogeneric, escaping function with two parameters, two results and an error. -/
def sampleLowered : LoweredFunction where
  signature := some ⟨leaf .dependentGenericSignature, rfl, true⟩
  escaping := true
  callee := ⟨'g', "@callee_guaranteed", rfl⟩
  representation := some ⟨'W', "@convention(witness_method)", rfl⟩
  params := [.standard ⟨'n', "@in_guaranteed", rfl⟩ .structType "Int",
    .standard ⟨'x', "@owned", rfl⟩ .structType "String"]
  results := [.standard ⟨'r', "@out", rfl⟩ .structType "Bool",
    .standard ⟨'o', "@owned", rfl⟩ .structType "Array"]
  error := some (.standard ⟨'o', "@owned", rfl⟩ .protocolType "Error")

theorem operator_lowered_sample :
    let type (name : String) : Symbol := standardType .structType name
    let s : State := { State.ofString "IPegWnxrozo_" with operands :=
      [leaf .dependentGenericSignature, standardType .protocolType "Error", type "Array", type "Bool",
        type "String", type "Int", leaf .emptyList] }
    let slot (kind : Kind) (text : String) (type : Symbol) : Symbol :=
      node kind [ofText .implConvention text, type]
    operator s = .ok
      (typed .implFunctionType [leaf .implEscaping, ofText .implConvention "@callee_guaranteed",
        ofText .implFunctionAttribute "@convention(witness_method)", leaf .dependentPseudogenericSignature,
        slot .implParameter "@in_guaranteed" (type "Int"), slot .implParameter "@owned" (type "String"),
        slot .implResult "@out" (type "Bool"), slot .implResult "@owned" (type "Array"),
        slot .implErrorResult "@owned" (standardType .protocolType "Error")])
      { s with cursor := s.cursor.advance 12, operands := [leaf .emptyList] } :=
  operator_lowered sampleLowered rfl rfl fun h => absurd h (List.cons_ne_nil _ _)

end Decode

end Demangle
