/-!
# Loops that end

A loop is written with a bound on its rounds, so that it is a recursion on that bound. `Terminates` says
that the bound plays no part: a round goes on only with less left than it started with, so the loop is
over after as many rounds as there is left at the start, and from then on all bounds give the same:

    left a s ≤ n → loop n a s = loop (left a s) a s                                  (Terminates.stable)

So the loop with as many rounds as it needs satisfies the equation of a loop without a bound
(`Terminates.unroll`).
-/

namespace Demangle

variable {A S B : Type}

/-- The loop consists of the given rounds, each of which leaves less to do for those after it. -/
structure Terminates (loop : Nat → A → S → B) (round : (A → S → B) → A → S → B)
    (left : A → S → Nat) : Prop where
  step : ∀ n a s, loop (n + 1) a s = round (loop n) a s
  shrinks : ∀ {again again' : A → S → B} {a : A} {s : S},
    (∀ a' s', left a' s' < left a s → again a' s' = again' a' s') → round again a s = round again' a s
  /-- With nothing left, a round is the last one, and what the bound stops at is what it does. -/
  last : ∀ {a : A} {s : S}, left a s = 0 → ∀ again, loop 0 a s = round again a s

theorem Terminates.eq_of_le {loop : Nat → A → S → B} {round : (A → S → B) → A → S → B}
    {left : A → S → Nat} (h : Terminates loop round left) (n : Nat) :
    ∀ {m : Nat} {a : A} {s : S}, left a s ≤ n → left a s ≤ m → loop n a s = loop m a s := by
  induction n with
  | zero =>
    intro m a s hn _
    cases m with
    | zero => rfl
    | succ m => rw [h.step, h.last (Nat.le_zero.mp hn) (loop m)]
  | succ n ih =>
    intro m a s hn hm
    cases m with
    | zero => rw [h.step, h.last (Nat.le_zero.mp hm) (loop n)]
    | succ m =>
      rw [h.step, h.step]
      exact h.shrinks fun a' s' hlt => ih (by omega) (by omega)

/-- **More rounds than there is left change nothing.** -/
theorem Terminates.stable {loop : Nat → A → S → B} {round : (A → S → B) → A → S → B}
    {left : A → S → Nat} (h : Terminates loop round left) {n : Nat} {a : A} {s : S}
    (hn : left a s ≤ n) : loop n a s = loop (left a s) a s :=
  h.eq_of_le n hn (Nat.le_refl _)

/-- Without its bound, the loop is a round that goes on with the loop. -/
theorem Terminates.unroll {loop : Nat → A → S → B} {round : (A → S → B) → A → S → B}
    {left : A → S → Nat} (h : Terminates loop round left) (a : A) (s : S) :
    loop (left a s) a s = round (fun a' s' => loop (left a' s') a' s') a s := by
  cases hleft : left a s with
  | zero => exact h.last hleft _
  | succ n =>
    rw [h.step]
    refine h.shrinks fun a' s' hlt => ?_
    exact h.stable (by omega)

end Demangle
