import Demangle.Cursor

/-!
# Reading moves forward

A cursor `Reaches` the places after it in the same input. A scanning step goes forward if it ends at such
a place when it succeeds (`Scan.Forward`); only `Scan.reset` and `Scan.back` do not.

    (c.advance m).advance n = c.advance (m + n)      (Cursor.advance_advance)
-/

namespace Demangle

/-! ## Places -/

namespace Cursor

/-- The second place lies after the first one, or is the same. -/
def Reaches (c d : Cursor) : Prop :=
  ∃ n, d = c.advance n

theorem advance_zero (c : Cursor) : c.advance 0 = c := by
  simp [advance]

theorem advance_advance (c : Cursor) (m n : Nat) :
    (c.advance m).advance n = c.advance (m + n) := by
  simp only [advance, List.drop_drop, mk.injEq, and_true]
  rw [← List.append_assoc, ← List.reverse_append, ← List.take_add]

theorem Reaches.refl (c : Cursor) : c.Reaches c :=
  ⟨0, c.advance_zero.symm⟩

theorem Reaches.trans {c d e : Cursor} (h₁ : c.Reaches d) (h₂ : d.Reaches e) : c.Reaches e := by
  obtain ⟨m, rfl⟩ := h₁
  obtain ⟨n, rfl⟩ := h₂
  exact ⟨m + n, c.advance_advance m n⟩

theorem reaches_advance (c : Cursor) (n : Nat) : c.Reaches (c.advance n) :=
  ⟨n, rfl⟩

/-- What lies before a place stays before all places after it. -/
theorem Reaches.before {c d : Cursor} (h : c.Reaches d) :
    ∃ read, d.before = read ++ c.before ∧ c.rest = read.reverse ++ d.rest := by
  obtain ⟨n, rfl⟩ := h
  exact ⟨(c.rest.take n).reverse, rfl, by simp [advance]⟩

end Cursor

/-! ## Steps -/

/-- A step that succeeds hands its result and its state to the next one. -/
theorem bind_ok {ε σ α β : Type} {x : EStateM ε σ α} {s t : σ} {a : α} (h : x s = .ok a t)
    (f : α → EStateM ε σ β) : (x >>= f) s = f a t := by
  show EStateM.bind x f s = f a t
  unfold EStateM.bind
  rw [h]

/-- What a successful sequence of two steps consists of. -/
theorem bind_eq_ok {ε σ α β : Type} {x : EStateM ε σ α} {f : α → EStateM ε σ β} {s s' : σ} {b : β}
    (h : (x >>= f) s = .ok b s') : ∃ a t, x s = .ok a t ∧ f a t = .ok b s' := by
  change EStateM.bind x f s = _ at h
  unfold EStateM.bind at h
  split at h
  · next a t hx => exact ⟨a, t, hx, h⟩
  · cases h

namespace Scan

variable {α : Type}

/-- A step that ends at or after the place where it starts. -/
class Forward (x : Scan α) : Prop where
  reaches : ∀ {c : Cursor} {a : α} {d : Cursor}, x c = .ok a d → c.Reaches d

end Scan

end Demangle
