import Demangle.Proofs.Operator.Pops

/-!
# Operators do not look below their operands

Back-references and repeated standard types push operands and never look at the stack (`Pushes`). All
other operators pop. So every operator is local: if it leaves the bottom operand in its place, it does the
same with any operands below (`operator_local`), and it makes one node at most available to
back-references (`Operates`).

    operator s = .ok x s' → s'.operands ≠ [] → operator (s.above below) = .ok x (s'.above below)
-/

namespace Demangle.Decode

variable {α β : Type}

/-! ## Pushing -/

/-- A step that does the same on all stacks and leaves the substitutions as they are. -/
class Pushes (x : Decode α) : Prop extends LooksAhead x where
  above : ∀ (s : State) (below : List Symbol),
    x (s.above below) = carry (·.above below) id (x s)
  substitutions : ∀ s : State, (finalState (x s)).substitutions = s.substitutions

instance pushes_pure (a : α) : Pushes (pure a : Decode α) where
  above _ _ := rfl
  substitutions _ := rfl

instance pushes_bind {x : Decode α} {f : α → Decode β} [hx : Pushes x] [hf : ∀ a, Pushes (f a)] :
    Pushes (x >>= f) where
  above s below := bind_carry (hx.above s below) fun a t => (hf a).above t below
  substitutions s := by
    have h := hx.substitutions s
    rcases bind_cases x f s with ⟨e, t, hs, hb⟩ | ⟨a, t, hs, hb⟩
    · rw [hs] at h
      rwa [hb]
    · rw [hs] at h
      rw [hb]
      exact ((hf a).substitutions t).trans h

theorem Pushes.then {x : Decode α} {f : α → Decode β} [Pushes x] (_ : ∀ a, Pushes (f a)) :
    Pushes (x >>= f) :=
  pushes_bind

instance pushes_ite {p : Prop} [Decidable p] {x y : Decode α} [Pushes x] [Pushes y] :
    Pushes (if p then x else y) := by
  split <;> infer_instance

instance pushes_lift (x : Scan α) [Scan.LooksAhead x] : Pushes (liftM x : Decode α) where
  above s below := by
    show (MonadLift.monadLift x : Decode α) (s.above below) =
      carry _ _ ((MonadLift.monadLift x : Decode α) s)
    have h : (s.above below).cursor = s.cursor := rfl
    simp only [MonadLift.monadLift, h]
    cases x s.cursor <;> rfl
  substitutions s := by
    rw [finalState_lift]

instance pushes_refuse : Pushes (refuse : Decode α) :=
  pushes_lift (Scan.fail .malformed)

instance pushes_require (o : Option α) : Pushes (require o) := by
  cases o with
  | none => exact pushes_refuse
  | some a => exact pushes_pure a

instance pushes_ensure (b : Bool) : Pushes (ensure b) := by
  unfold ensure
  infer_instance

instance pushes_substitution (i : Nat) : Pushes (substitution i) where
  above s below := (pushes_require s.substitutions[i]?).above s below
  substitutions s := (pushes_require s.substitutions[i]?).substitutions s

instance pushes_pushCopies (n : Nat) (x : Symbol) : Pushes (pushCopies n x) where
  above s below := congrArg (EStateM.Result.ok ()) (by
    simp [State.above, List.append_assoc])
  substitutions _ := rfl

instance pushes_push (x : Symbol) : Pushes (push x) where
  above _ _ := rfl
  substitutions _ := rfl

instance pushes_pushRepeated (count : Option UInt64) (x : Symbol) :
    Pushes (pushRepeated count x) := by
  unfold pushRepeated
  infer_instance

instance pushes_references (n : Nat) : ∀ count, Pushes (references n count) := by
  induction n with
  | zero => exact fun _ => pushes_lift (Scan.fail .ended)
  | succ n ih =>
    intro count
    refine Pushes.then fun c => ?_
    split
    · infer_instance
    · cases count <;> infer_instance
    · infer_instance
    · infer_instance

instance pushes_backReference : Pushes backReference := by
  unfold backReference
  infer_instance

/-! ## Operating -/

/-- What all operators have in common. -/
class Operates (x : Decode α) : Prop extends LooksAhead x where
  remembers : ∀ s : State, (finalState (x s)).substitutions.size ≤ s.substitutions.size + 1
  above : ∀ {s : State} {a : α} {s' : State}, x s = .ok a s' → s'.operands ≠ [] →
    ∀ below, x (s.above below) = .ok a (s'.above below)

instance operates_of_pops_one {x : Decode α} [hx : Pops 1 x] : Operates x where
  remembers := hx.remembers
  above := hx.above

theorem operates_of_pops {x : Decode α} (hx : Pops 0 x) : Operates x where
  remembers s := Nat.le_succ_of_le (hx.remembers s)
  above := hx.above

theorem operates_of_pushes {x : Decode α} (hx : Pushes x) : Operates x where
  remembers s := by
    rw [hx.substitutions]
    exact Nat.le_succ _
  above {s a s'} h _ below := by
    rw [hx.above, h]
    rfl

/-- What is done first must not touch the operands: a step that pops may empty the stack, and another
one may push again. -/
theorem operates_bind {x : Scan α} [Scan.LooksAhead x] {f : α → Decode β}
    (hf : ∀ a, Operates (f a)) : Operates ((liftM x : Decode α) >>= f) where
  remembers s := by
    have hs := (pushes_lift x).substitutions s
    rcases bind_cases (liftM x : Decode α) f s with ⟨e, t, h, hb⟩ | ⟨a, t, h, hb⟩
    · rw [h] at hs
      rw [hb]
      exact Nat.le_succ_of_le (Nat.le_of_eq (congrArg Array.size hs))
    · rw [h] at hs
      rw [hb, ← hs]
      exact (hf a).remembers t
  above {s b s'} h hne below := by
    obtain ⟨a, t, h₁, h₂⟩ := bind_eq_ok h
    have habove : (liftM x : Decode α) (s.above below) = .ok a (t.above below) := by
      rw [(pushes_lift x).above, h₁]
      rfl
    rw [bind_ok habove]
    exact (hf a).above h₂ hne below

/-- The operators after `S` pop, and repeated types are pushed. -/
instance operates_standardSubstitution : Operates standardSubstitution := by
  refine operates_bind fun c => ?_
  dsimp only
  split
  · show Operates (fail .ended)
    exact operates_of_pops inferInstance
  classical
  rw [bind_eq_restrict (R := fun o => ∀ run, o = some run → Pops 1 run) fun h run => ?_]
  · refine operates_bind fun o => ?_
    split
    · next h =>
      cases o with
      | some run =>
        have := h run rfl
        exact operates_of_pops_one
      | none => exact operates_of_pushes inferInstance
    · exact operates_of_pops inferInstance
  · rintro rfl
    obtain ⟨d, hd, -⟩ := lift_eq_ok h
    obtain ⟨c, hc⟩ := Scan.meaning_of_letter? hd
    exact pops_standardOperator? hc

/-! ## The table of operators -/

theorem operates_operator? {c : Char} {run : Decode Symbol} (h : operator? c = some run) :
    Operates run := by
  unfold operator? at h
  split at h <;> cases h
  all_goals first
    | exact operates_of_pops inferInstance
    | infer_instance
    | exact operates_of_pushes inferInstance

instance operates_operator : Operates operator := by
  refine operates_bind fun o => ?_
  cases o with
  | none => exact operates_of_pops inferInstance
  | some c =>
    dsimp only
    split
    · infer_instance
    split
    · exact operates_of_pops inferInstance
    split
    · infer_instance
    cases h : operator? c with
    | none => exact operates_of_pops inferInstance
    | some run => exact operates_bind fun _ => operates_operator? h

/-- **Operators are local.** An operator that succeeds and leaves the bottom operand in its place returns
the same node, reads the same and fills the tables in the same way with any operands below. -/
theorem operator_local {s s' : State} {x bottom : Symbol} {top top' : List Symbol}
    (hs : s.operands = top ++ [bottom]) (h : operator s = .ok x s')
    (hs' : s'.operands = top' ++ [bottom]) (below : List Symbol) :
    operator { s with operands := top ++ [bottom] ++ below } =
      .ok x { s' with operands := top' ++ [bottom] ++ below } := by
  have hne : s'.operands ≠ [] := by
    rw [hs']
    exact List.append_ne_nil_of_right_ne_nil _ (List.cons_ne_nil _ _)
  rw [← hs, ← hs']
  exact operates_operator.above h hne below

theorem operator_local_bound : ∃ s s' : State,
    s.cursor = .ofString "GD" ∧
    s.operands = [.standardType .structType "Int", .leaf .emptyList,
      .standardType .structType "Array"] ++ [.leaf .throwsMark] ∧
    operator s = .ok (.typed .boundGenericStructure [.standardType .structType "Array",
      .node .typeList [.standardType .structType "Int"]]) s' ∧
    s'.operands = [] ++ [.leaf .throwsMark] ∧
    ∀ below, operator { s with operands := [.standardType .structType "Int", .leaf .emptyList,
        .standardType .structType "Array"] ++ [.leaf .throwsMark] ++ below } =
      .ok (.typed .boundGenericStructure [.standardType .structType "Array",
        .node .typeList [.standardType .structType "Int"]])
        { s' with operands := [] ++ [.leaf .throwsMark] ++ below } :=
  ⟨⟨.ofString "GD", _, #[], #[], false⟩, _, rfl, rfl, rfl, rfl, operator_local rfl rfl rfl⟩

end Demangle.Decode
