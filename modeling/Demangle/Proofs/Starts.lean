import Demangle.Proofs.Operator.Local
import Demangle.Proofs.Run

/-!
# All starts of current names are alike

Decoding looks ahead only, from the first operator to the fold of the operands. So what follows the start
of a current name decides about the outcome: the tree, or the cause of the fault and where it is counted
from the end of the start.

    decode (start ++ m) = .ok t    or    decode (start ++ m) = .error ⟨cause, start.utf8ByteSize + p⟩
-/

namespace Demangle

namespace Decode

/-! ## A name after its start -/

instance pops_checkDepth (x : Symbol) : Pops 0 (checkDepth x) :=
  pops_ensure _

instance looksAhead_operators (n : Nat) : LooksAhead (operators n) := by
  induction n with
  | zero => exact looksAhead_pure ()
  | succ n ih =>
    unfold operators
    infer_instance

instance pops_openType (x : Symbol) : Pops 0 (openType x) := by
  unfold openType
  infer_instance

instance pops_fold : Pops 0 fold := by
  refine Pops.then fun attributes => Pops.then fun operands => Pops.then fun rest => ?_
  split
  · infer_instance
  · dsimp only
    infer_instance

/-- Reads what comes after the start of a mangled name. -/
def afterStart : Decode Symbol := do
  operators (← Scan.remaining)
  fold

instance looksAhead_afterStart : LooksAhead afterStart := by
  unfold afterStart
  infer_instance

/-! ## Whole names -/

theorem acceptText_bridged {start : String} (h : start ∈ currentStarts) {c : Cursor} {r : List Cell}
    (hc : c.rest = Cell.ofString start ++ r) : Scan.acceptText "_Tt" c = .ok false c := by
  refine Scan.acceptText_differ ?_ hc
  simp only [currentStarts, List.mem_cons, List.not_mem_nil, or_false] at h
  rcases h with rfl | rfl | rfl | rfl <;> decide

/-- Behind its start a name is read as if it started there. -/
theorem symbol_start {start : String} (h : start ∈ currentStarts) (m : String) :
    Decode.symbol (.ofString (start ++ m)) =
      afterStart ((State.ofString m).onto (Cell.ofString start).reverse) := by
  have hs : (State.ofString (start ++ m)).cursor.rest = Cell.ofString start ++ Cell.ofString m :=
    Cell.ofString_append start m
  have hcursor : (Cursor.ofString (start ++ m)).advance (Cell.ofString start).length =
      (Cursor.ofString m).onto (Cell.ofString start).reverse := by
    simp [Cursor.ofString, Cursor.advance, Cursor.onto, Cell.ofString_append]
  have hread : readStart starts (.ofString (start ++ m)) =
      .ok () ((State.ofString m).onto (Cell.ofString start).reverse) := by
    rw [readStart_current h hs]
    show EStateM.Result.ok () (State.mk ((Cursor.ofString (start ++ m)).advance _) [] #[] #[] false) = _
    rw [hcursor]
    rfl
  unfold Decode.symbol
  rw [bind_ok (lift_ok (acceptText_bridged h hs))]
  exact bind_ok hread _

end Decode

open Decode

theorem decode_start {start : String} (h : start ∈ currentStarts) (m : String) :
    decode (start ++ m) =
      match afterStart (.ofString m) with
      | .ok t _ => .ok t
      | .error f _ => .error (f.shift start.utf8ByteSize) := by
  unfold decode
  rw [symbol_start h, looksAhead_afterStart.onto, List.length_reverse, Cell.length_ofString]
  cases afterStart (.ofString m) <;> rfl

/-- **All starts of current names are alike.** What follows the start makes all of these names succeed with
the same tree, or fail for the same cause at the same distance from the end of the start. -/
theorem decode_starts_alike (m : String) :
    (∃ t, ∀ start ∈ ["$s", "$S", "_$s", "_$S"], decode (start ++ m) = .ok t) ∨
      ∃ cause distance, ∀ start ∈ ["$s", "$S", "_$s", "_$S"],
        decode (start ++ m) = .error ⟨cause, start.utf8ByteSize + distance⟩ := by
  cases hm : afterStart (.ofString m) with
  | ok t s =>
    refine .inl ⟨t, fun start h => ?_⟩
    rw [decode_start h, hm]
  | error f s =>
    refine .inr ⟨f.cause, f.position, fun start h => ?_⟩
    rw [decode_start h, hm, Nat.add_comm]
    rfl

theorem decode_starts_alike_unclosed : ∀ start ∈ ["$s", "$S", "_$s", "_$S"],
    decode (start ++ "Siqd1x") = .error ⟨.expected "'_'", start.utf8ByteSize + 5⟩ := by
  have hm : (match decode ("$s" ++ "Siqd1x") with
      | .ok _ => none
      | .error f => some f) = some ⟨.expected "'_'", 7⟩ := by decide +kernel
  rcases decode_starts_alike "Siqd1x" with ⟨t, h⟩ | ⟨cause, distance, h⟩
  · rw [h "$s" (by decide)] at hm
    cases hm
  · rw [h "$s" (by decide)] at hm
    obtain ⟨rfl, hd⟩ := Fault.mk.inj (Option.some.inj hm)
    have hsize : "$s".utf8ByteSize = 2 := by decide
    obtain rfl : distance = 5 := by omega
    exact h

end Demangle
