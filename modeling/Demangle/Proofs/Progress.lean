import Demangle.Proofs.Decode
import Demangle.Proofs.Operator.Local
import Demangle.Proofs.Operator.Loops

/-!
# A run makes progress and stays small

Every operator reads a byte at least (`readsByte_operator`), so a run has at most one turn per byte. A
byte that is read accounts for `repeatLimit` operands (`Pays`): no operator adds more than it has paid for,
so the stack holds 2048 operands at most for each byte after the start of the name. The tables grow at
their ends, the substitutions by one entry at most in each call, the words up to their capacity.
-/

namespace Demangle

namespace Decode

variable {α β : Type}

/-! ## Every operator reads a byte -/

theorem readsByte_identifierText : ReadsByte identifierText where
  shorter h := by
    obtain ⟨o, t, ht, h⟩ := bind_eq_ok h
    have h₁ := (looksAhead_lift Scan.peek?).rest_le ht
    split at h
    · have h₂ := ((readsByte_lift Scan.next_shorter).then fun _ => inferInstance).shorter h
      exact Nat.lt_of_lt_of_le h₂ h₁
    · split at h
      · exact Nat.lt_of_lt_of_le (readsByte_segment.shorter h) h₁
      · cases h
    · cases h

theorem readsByte_identifier : ReadsByte identifier :=
  readsByte_identifierText.then fun _ => inferInstance

theorem rest_of_peek? {s t : State} {c : Char}
    (h : (liftM Scan.peek? : Decode (Option Char)) s = .ok (some c) t) : t.cursor.rest ≠ [] := by
  obtain ⟨d, hd, rfl⟩ := lift_eq_ok h
  injection hd with hhead hcursor
  subst hcursor
  intro hnil
  rw [hnil] at hhead
  cases hhead

/-- What is left is read as a whole, so it must not be empty. -/
theorem suffixNode_shorter {s s' : State} {x : Symbol} (hne : s.cursor.rest ≠ [])
    (h : (do return .ofText .suffix (← Scan.remainder) : Decode Symbol) s = .ok x s') :
    s'.cursor.rest.length < s.cursor.rest.length := by
  obtain ⟨text, t, ht, h⟩ := bind_eq_ok h
  cases h
  obtain ⟨d, hd, rfl⟩ := lift_eq_ok ht
  cases hd
  exact Cursor.rest_advance_lt hne (List.length_pos_iff.mpr hne)

/-- **Every operator reads a byte.** -/
theorem readsByte_operator : ReadsByte operator where
  shorter {s x s'} h := by
    obtain ⟨o, t, ht, h⟩ := bind_eq_ok h
    obtain rfl : t = s := by
      cases ht
      rfl
    cases o with
    | none => cases h
    | some c =>
      dsimp only at h
      split at h
      · exact readsByte_identifier.shorter h
      split at h
      · exact suffixNode_shorter (rest_of_peek? ht) h
      split at h
      · exact ((readsByte_lift Scan.next_shorter).then fun _ => inferInstance).shorter h
      cases hrun : operator? c with
      | none =>
        rw [hrun] at h
        cases h
      | some run =>
        rw [hrun] at h
        have hlooks := (operates_operator? hrun).toLooksAhead
        exact ((readsByte_lift Scan.next_shorter).then fun _ => hlooks).shorter h

/-! ## Operands are paid for -/

/-- A byte that is read accounts for as many operands as one of them can be repeated. From the first
state to the second one, `k` operands fewer were added than the bytes in between account for. -/
def Pays (k : Nat) (s s' : State) : Prop :=
  s'.operands.length + k + 2048 * s.cursor.position ≤
    s.operands.length + 2048 * s'.cursor.position

theorem Pays.refl (s : State) : Pays 0 s s :=
  Nat.le_refl _

theorem Pays.mono {j k : Nat} {s s' : State} (h : Pays k s s') (hjk : j ≤ k) : Pays j s s' := by
  unfold Pays at h ⊢
  omega

theorem Pays.trans {j k : Nat} {s t u : State} (h₁ : Pays j s t) (h₂ : Pays k t u) :
    Pays (j + k) s u := by
  unfold Pays at h₁ h₂ ⊢
  omega

/-- What a step that was begun with a debt leaves: `k` operands paid for if it succeeds, and no debt if
it fails. -/
def Affords (k : Nat) (s : State) : EStateM.Result Fault State α → Prop
  | .ok _ s' => Pays k s s'
  | .error _ s' => Pays 0 s s'

theorem Affords.mono {j k : Nat} {s : State} {r : EStateM.Result Fault State α}
    (h : Affords k s r) (hjk : j ≤ k) : Affords j s r := by
  cases r with
  | ok a s' => exact Pays.mono h hjk
  | error e s' => exact h

theorem Affords.final {k : Nat} {s : State} {r : EStateM.Result Fault State α}
    (h : Affords k s r) : Pays 0 s (finalState r) := by
  cases r with
  | ok a s' => exact Pays.mono h (Nat.zero_le k)
  | error e s' => exact h

section Affords

variable {s t : State} {j k : Nat}

theorem affords_bind {x : Decode α} {f : α → Decode β} (hx : Affords j s (x t))
    (hf : ∀ a u, x t = .ok a u → Pays j s u → Affords k s (f a u)) :
    Affords k s ((x >>= f) t) := by
  rcases bind_cases x f t with ⟨e, u, h, hb⟩ | ⟨a, u, h, hb⟩
  · rw [h] at hx
    rw [hb]
    exact hx
  · rw [h] at hx
    rw [hb]
    exact hf a u h hx

theorem Pops.affords {n : Nat} {x : Decode α} (hx : Pops n x) (h : Pays j s t) :
    Affords j s (x t) := by
  have hlength := (hx.suffix t).length_le
  have hposition := (hx.keeps t).cursor.position_le
  cases hxt : x t with
  | ok a u =>
    rw [hxt] at hlength hposition
    simp only [Affords, Pays, finalState] at *
    omega
  | error e u =>
    rw [hxt] at hlength hposition
    simp only [Affords, Pays, finalState] at *
    omega

theorem Pops.affords_byte {n : Nat} {x : Decode α} (hx : Pops n x)
    (hread : ∀ {a : α} {u : State}, x t = .ok a u → u.cursor.rest.length < t.cursor.rest.length)
    (h : Pays j s t) : Affords (j + 2048) s (x t) := by
  have hlength := (hx.suffix t).length_le
  have hreach := (hx.keeps t).cursor
  cases hxt : x t with
  | ok a u =>
    rw [hxt] at hlength hreach
    have hshort := hread hxt
    have hsize := hreach.size_eq
    simp only [Affords, Pays, Cursor.size, Cursor.position, finalState] at *
    omega
  | error e u =>
    have hnone := hx.affords h
    rw [hxt] at hnone
    exact hnone

theorem affords_next (h : Pays j s t) : Affords (j + 2048) s ((liftM Scan.next : Decode UInt8) t) :=
  (pops_lift Scan.next).affords_byte (readsByte_lift Scan.next_shorter).shorter h

theorem affords_pushCopies {n : Nat} (x : Symbol) (h : Pays (k + n) s t) :
    Affords k s (pushCopies n x t) := by
  show Pays k s { t with operands := List.replicate n x ++ t.operands }
  simp only [Pays, List.length_append, List.length_replicate] at h ⊢
  omega

theorem affords_push (x : Symbol) (h : Pays (k + 1) s t) : Affords k s (push x t) :=
  affords_pushCopies (n := 1) x h

/-- One byte pays for all copies, the last one included. -/
theorem affords_copies {count : UInt64} (hcount : count ≤ repeatLimit) (x : Symbol)
    (h : Pays 2048 s t) :
    Affords 1 s ((do pushCopies (count.toNat - 1) x; return x : Decode Symbol) t) := by
  have hle : count.toNat ≤ 2048 := hcount
  exact affords_bind (affords_pushCopies x (h.mono (by omega))) fun _ _ _ h => h

theorem affords_pushRepeated (count : Option UInt64) (x : Symbol) (h : Pays 2048 s t) :
    Affords 1 s (pushRepeated count x t) := by
  refine affords_bind ((pops_ensure _).affords h) fun _ t hensure h => ?_
  obtain ⟨hcount, -⟩ := ensure_eq_ok hensure
  exact affords_copies (of_decide_eq_true hcount) x h

theorem affords_references (n : Nat) : ∀ (count : Option UInt64) (t : State), Pays 0 s t →
    Affords 1 s (references n count t) := by
  induction n with
  | zero => exact fun _ t h => h
  | succ n ih =>
    intro count t h
    refine affords_bind ((pops_lift Scan.peek?).affords h) fun c t _ h => ?_
    rcases c.bind referenceStep? with _ | (⟨i, last⟩ | _ | _)
    · refine affords_bind (affords_next h) fun _ t _ h => ?_
      exact pops_refuse.affords (h.mono (by omega))
    · refine affords_bind (affords_next h) fun _ t _ h => ?_
      refine affords_bind ((pops_substitution i).affords h) fun entry t _ h => ?_
      refine affords_bind (affords_pushRepeated count entry h) fun x t _ h => ?_
      cases last with
      | true => exact h
      | false => exact affords_bind (affords_push x h) fun _ t _ h => ih none t h
    · refine affords_bind (affords_next h) fun _ t _ h => ?_
      have h := h.mono (j := 1) (by omega)
      cases count with
      | none => exact (pops_substitution 26).affords h
      | some m =>
        exact affords_bind ((pops_ensure _).affords h) fun _ t _ h => (pops_substitution _).affords h
    · refine affords_bind ((pops_lift Scan.integer?).affords h) fun m t _ h => ?_
      exact affords_bind ((pops_ensure _).affords h) fun _ t _ h => ih m t h

theorem affords_standardSubstitution (h : Pays 2048 s t) : Affords 1 s (standardSubstitution t) := by
  refine affords_bind ((pops_lift Scan.peek?).affords h) fun c t _ h => ?_
  dsimp only
  split
  · exact h.mono (Nat.zero_le _)
  refine affords_bind ((pops_lift (Scan.letter? standardOperator?)).affords h) fun o t ho h => ?_
  cases o with
  | some run =>
    obtain ⟨d, hd, -⟩ := lift_eq_ok ho
    obtain ⟨c, hc⟩ := Scan.meaning_of_letter? hd
    exact (pops_standardOperator? hc).affords (h.mono (by omega))
  | none =>
    refine affords_bind ((pops_lift Scan.integer?).affords h) fun count t _ h => ?_
    refine affords_bind ((pops_ensure _).affords h) fun _ t hensure h => ?_
    obtain ⟨hcount, -⟩ := ensure_eq_ok hensure
    refine affords_bind ((pops_lift _).affords h) fun type t _ h => ?_
    exact affords_copies (of_decide_eq_true hcount) _ h

theorem affords_operator? {c : Char} {run : Decode Symbol} (hrun : operator? c = some run)
    (h : Pays 2048 s t) : Affords 1 s (run t) := by
  have hone : Pays 1 s t := h.mono (by omega)
  unfold operator? at hrun
  split at hrun <;> cases hrun
  case h_1 =>
    refine affords_bind ((pops_lift Scan.remaining).affords h) fun n t _ h => ?_
    exact affords_references n none t (h.mono (by omega))
  case h_17 => exact affords_standardSubstitution h
  all_goals first
    | exact Pops.affords (n := 0) inferInstance hone
    | exact Pops.affords (n := 1) inferInstance hone

/-- **No operator adds more operands than it has paid for**, its own node included. -/
theorem affords_operator (s : State) : Affords 1 s (operator s) := by
  refine affords_bind ((pops_lift Scan.peek?).affords (Pays.refl s)) fun o t ho h => ?_
  cases o with
  | none => exact h
  | some c =>
    dsimp only
    split
    · exact (pops_identifier.affords_byte readsByte_identifier.shorter h).mono (by omega)
    split
    · have hpops : Pops 0 (do return .ofText .suffix (← Scan.remainder) : Decode Symbol) := inferInstance
      exact (hpops.affords_byte (suffixNode_shorter (rest_of_peek? ho)) h).mono (by omega)
    split
    · refine affords_bind (affords_next h) fun _ t _ h => ?_
      exact pops_symbolicReference.affords (h.mono (by omega))
    cases hrun : operator? c with
    | none => exact h
    | some run => exact affords_bind (affords_next h) fun _ t _ h => affords_operator? hrun h

end Affords

/-! ## The run -/

/-- One round of the run. -/
def turnRound (again : Decode Unit) : Decode Unit := do
  unless ← Scan.isAtEnd do
    let x ← operator
    checkDepth x
    push x
    again

/-- **The run ends** with the input. -/
theorem terminates_operators :
    Terminates (fun n (_ : Unit) => operators n) (fun again _ => turnRound (again ()))
      fun _ s => s.cursor.rest.length where
  step _ _ _ := rfl
  shrinks {again again' _ s} h := by
    refine bind_congr_at fun done t ht => ?_
    have h₁ := (looksAhead_lift Scan.isAtEnd).rest_le ht
    cases done with
    | true => rfl
    | false =>
      refine bind_congr_at fun x u hu => bind_congr_at fun _ v hv => bind_congr_at fun _ w hw => ?_
      have h₂ := readsByte_operator.shorter hu
      obtain ⟨-, rfl⟩ := ensure_eq_ok hv
      have h₃ := (looksAhead_push x).rest_le hw
      exact h () w (by omega)
  last {_ s} hs again := by
    obtain ⟨⟨before, rest⟩, operands, substitutions, words, legacy⟩ := s
    obtain rfl : rest = [] := List.length_eq_zero_iff.mp hs
    rfl

/-- So many turns lead from the first state to the second one. -/
inductive Turns : Nat → State → State → Prop
  | none (s : State) : Turns 0 s s
  | more {n : Nat} {s t u : State} : Turns n s t → Turn t u → Turns (n + 1) s u

/-- A run is a number of turns. -/
theorem turns_of_run {s s' : State} (h : Relation.ReflTransGen Turn s s') : ∃ n, Turns n s s' := by
  induction h with
  | refl => exact ⟨0, .none s⟩
  | tail _ hturn ih =>
    obtain ⟨n, hn⟩ := ih
    exact ⟨n + 1, hn.more hturn⟩

theorem operator_advances {s s' : State} {x : Symbol} (h : operator s = .ok x s') :
    s.cursor.position < s'.cursor.position := by
  have hshort := readsByte_operator.shorter h
  have hkeeps := operates_operator.keeps s
  rw [h] at hkeeps
  have hsize := hkeeps.cursor.size_eq
  simp only [Cursor.size, Cursor.position, finalState] at hsize ⊢
  omega

/-- What one turn does: it goes forward, keeps the tables and pays for what it pushes. -/
theorem Turn.progress {s s' : State} (h : Turn s s') :
    s.Extends s' ∧ s.cursor.position < s'.cursor.position ∧ Pays 0 s s' := by
  obtain ⟨-, x, t, hx, -, rfl⟩ := h
  have hkeeps := operates_operator.keeps s
  have hpays := affords_operator s
  have hlt : s.cursor.position < t.cursor.position := operator_advances hx
  rw [hx] at hkeeps hpays
  refine ⟨⟨hkeeps.cursor, hkeeps.substitutions, hkeeps.words, hkeeps.legacyLabels⟩, hlt, ?_⟩
  simp only [Affords, Pays, List.length_cons] at hpays ⊢
  omega

theorem Turns.progress {n : Nat} {s s' : State} (h : Turns n s s') :
    s.Extends s' ∧ n + s.cursor.position ≤ s'.cursor.position ∧ Pays 0 s s' := by
  induction h with
  | none s => exact ⟨.refl s, by omega, .refl s⟩
  | more _ hturn ih =>
    obtain ⟨hextends, hlt, hpays⟩ := hturn.progress
    exact ⟨ih.1.trans hextends, by omega, ih.2.2.trans hpays⟩

theorem readStart_eq_ok {texts : List (String × Bool)} : ∀ {s s' : State} {u : Unit},
    readStart texts s = .ok u s' →
      s.cursor.Reaches s'.cursor ∧
        ∃ legacy, s' = ⟨s'.cursor, s.operands, s.substitutions, s.words, legacy⟩ := by
  induction texts with
  | nil => exact fun h => nomatch h
  | cons text texts ih =>
    intro s s' u h
    obtain ⟨found, t, ht, h⟩ := bind_eq_ok h
    obtain ⟨c, hc, rfl⟩ := lift_eq_ok ht
    have hreach := Scan.LooksAhead.reaches (x := Scan.acceptText text.1) s.cursor
    rw [hc] at hreach
    cases found with
    | true =>
      cases h
      exact ⟨hreach, text.2, rfl⟩
    | false =>
      obtain ⟨hreach', hs'⟩ := ih h
      exact ⟨hreach.trans hreach', hs'⟩

/-! ## Bounds -/

/-- How large a state can be, by the number of bytes that were read since the start. -/
structure Bounded (start s : State) : Prop where
  operands : s.operands.length ≤ 2048 * (s.cursor.position - start.cursor.position)
  words : s.words.size ≤ 26
  wordSize : ∀ w ∈ s.words, 2 ≤ w.utf8ByteSize

/-- The tables of the second state continue those of the first one. -/
structure Appends (s s' : State) : Prop where
  substitutions : s.substitutions.toList <+: s'.substitutions.toList
  words : s.words.toList <+: s'.words.toList

theorem appends_of_extends {s s' : State} (h : s.Extends s') : Appends s s' :=
  ⟨h.substitutions, h.words.prefix⟩

/-- What starts with nothing and pays for all operands is bounded. -/
theorem bounded_of_pays {start s : State} (hoperands : start.operands = [])
    (hwords : start.words = #[]) (h : start.Extends s) (hpays : Pays 0 start s) :
    Bounded start s where
  operands := by
    have hle := h.cursor.position_le
    simp only [Pays, hoperands, List.length_nil] at hpays
    omega
  words := h.words.size_le (by rw [hwords]; exact Nat.zero_le _)
  wordSize := h.words.two_le (by rw [hwords]; exact nofun)

/-- **A run makes progress and stays small.** At every state of a run, after any number of turns:

* an operator that succeeds has read a byte at least, so there were no more turns than bytes after the
  start, and all loops end;
* the state, and the state in which an operator ends there, with a node or with a fault, are bounded;
* an operator makes one node at most available to back-references, and the tables only grow at their
  ends, also if it fails. -/
theorem run_bounded {m : String} {start s : State} {n : Nat}
    (hstart : readStart starts (.ofString m) = .ok () start) (hrun : Turns n start s) :
    ((∀ x s', operator s = .ok x s' → s.cursor.position < s'.cursor.position) ∧
        n + start.cursor.position ≤ s.cursor.position ∧ s.cursor.position ≤ m.utf8ByteSize ∧
        Terminates (fun n (_ : Unit) => operators n) (fun again _ => turnRound (again ()))
          (fun _ s => s.cursor.rest.length) ∧ LoopsEnd) ∧
      (Bounded start s ∧ Bounded start (finalState (operator s))) ∧
      (finalState (operator s)).substitutions.size ≤ s.substitutions.size + 1 ∧
      Appends s (finalState (operator s)) ∧ ∀ k t, Turns k s t → Appends s t := by
  obtain ⟨hreach, legacy, heq⟩ := readStart_eq_ok hstart
  have hoperands : start.operands = [] := by rw [heq]; rfl
  have hwords : start.words = #[] := by rw [heq]; rfl
  obtain ⟨hextends, hturns, hpays⟩ := hrun.progress
  have hcall := operates_operator.keeps s
  have hposition : s.cursor.position ≤ m.utf8ByteSize := by
    have hsize := (hreach.trans hextends.cursor).size_eq
    have hm : (Cursor.ofString m).size = m.utf8ByteSize := by
      simp [Cursor.size, Cursor.ofString, Cell.length_ofString]
    calc s.cursor.position ≤ s.cursor.size := Nat.le_add_right _ _
      _ = (Cursor.ofString m).size := hsize
      _ = m.utf8ByteSize := hm
  have hpays' : Pays 0 start (finalState (operator s)) := hpays.trans (affords_operator s).final
  refine ⟨⟨fun x s' => operator_advances, hturns, hposition, terminates_operators, loopsEnd⟩,
    ⟨bounded_of_pays hoperands hwords hextends hpays,
      bounded_of_pays hoperands hwords (hextends.trans hcall) hpays'⟩,
    operates_operator.remembers s, appends_of_extends hcall,
    fun k t ht => appends_of_extends ht.progress.1⟩

theorem run_bounded_repeated : ∃ (start s : State) (n : Nat),
    readStart starts (.ofString "_$s4abcdA2048A") = .ok () start ∧ Turns n start s ∧
      s.operands.length = 2049 ∧ n + start.cursor.position ≤ s.cursor.position ∧
      Bounded start s ∧ Bounded start (finalState (operator s)) := by
  have key : (match readStart starts (.ofString "_$s4abcdA2048A") with
      | .ok _ start =>
        match operators 20 start with
        | .ok _ s => some s.operands.length
        | .error _ _ => none
      | .error _ _ => none) = some 2049 := by decide +kernel
  cases hstart : readStart starts (.ofString "_$s4abcdA2048A") with
  | error e t =>
    rw [hstart] at key
    cases key
  | ok u start =>
    rw [hstart] at key
    dsimp only at key
    cases hrun : operators 20 start with
    | error e t =>
      rw [hrun] at key
      cases key
    | ok u s =>
      rw [hrun] at key
      obtain ⟨n, hturns⟩ := turns_of_run (operators_run hrun)
      obtain ⟨⟨-, hle, -⟩, hbounded, -⟩ := run_bounded hstart hturns
      exact ⟨start, s, n, rfl, hturns, Option.some.inj key, hle, hbounded⟩

end Decode

end Demangle
