import Demangle.Proofs.Operand.Builds

/-!
# What the primitives on operands do

Equations for the steps that pop operands, from a state whose operands are known. Each takes what is on
top and leaves the rest of the state alone, so a step made of them is evaluated by rewriting.
-/

namespace Demangle

namespace Decode

variable {s : State} {x : Symbol} {xs : List Symbol}

/-! ## One operand -/

theorem popIf?_hit {p : Kind → Bool} (h : s.operands = x :: xs) (hp : p x.kind = true) :
    popIf? p s = .ok (some x) { s with operands := xs } := by
  unfold popIf?
  rw [h]
  exact if_pos hp

theorem popIf?_miss {p : Kind → Bool} (h : ∀ x ∈ s.operands.head?, p x.kind = false) :
    popIf? p s = .ok none s := by
  unfold popIf?
  cases ho : s.operands with
  | nil => rfl
  | cons x xs =>
    have hp := h x (by rw [ho]; rfl)
    simp [hp]

theorem popKind?_hit {k : Kind} (h : s.operands = x :: xs) (hk : x.kind = k) :
    popKind? k s = .ok (some x) { s with operands := xs } :=
  popIf?_hit h (beq_iff_eq.mpr hk)

theorem popKind?_miss {k : Kind} (h : s.operands = x :: xs) (hk : x.kind ≠ k) :
    popKind? k s = .ok none s := by
  refine popIf?_miss fun y hy => ?_
  rw [h] at hy
  cases hy
  exact beq_eq_false_iff_ne.mpr hk

theorem popIf_hit {p : Kind → Bool} (h : s.operands = x :: xs) (hp : p x.kind = true) :
    popIf p s = .ok x { s with operands := xs } :=
  bind_ok (popIf?_hit h hp) _

theorem popKind_hit {k : Kind} (h : s.operands = x :: xs) (hk : x.kind = k) :
    popKind k s = .ok x { s with operands := xs } :=
  popIf_hit h (beq_iff_eq.mpr hk)

theorem popType_hit (h : s.operands = x :: xs) (hk : x.kind = .type) :
    popType s = .ok x { s with operands := xs } :=
  popKind_hit h hk

/-- A type on top is popped with what it holds. -/
theorem popTypeChild_hit (h : s.operands = Symbol.node .type [x] :: xs) :
    popTypeChild s = .ok x { s with operands := xs } :=
  bind_ok (popType_hit h rfl) _

/-! ## Several operands -/

theorem popWhile_none {p : Kind → Bool} (h : s.operands = x :: xs) (hp : p x.kind = false) :
    popWhile p s = .ok [] s := by
  unfold popWhile
  rw [h]
  simp only [List.takeWhile_cons, List.dropWhile_cons, hp, Bool.false_eq_true, if_false]
  rw [← h]

/-- What has the property is popped, down to the first operand that has not. -/
theorem popWhile_eval {p : Kind → Bool} {ys below : List Symbol} (h : s.operands = ys ++ below)
    (hys : ∀ y ∈ ys, p y.kind = true) (hb : ∀ x ∈ below.head?, p x.kind = false) :
    popWhile p s = .ok ys { s with operands := below } := by
  have hstop : (below.takeWhile fun x => p x.kind) = [] ∧
      (below.dropWhile fun x => p x.kind) = below := by
    cases below with
    | nil => exact ⟨rfl, rfl⟩
    | cons x xs => simp [hb x rfl]
  unfold popWhile
  rw [h, List.takeWhile_append_of_pos hys, List.dropWhile_append_of_pos hys, hstop.1, hstop.2,
    List.append_nil]

theorem popWhile_types {ts below : List Symbol} (h : s.operands = ts ++ below)
    (hts : ∀ t ∈ ts, t.kind = .type) (hb : ∀ x ∈ below.head?, x.kind ≠ .type) :
    popWhile (· == .type) s = .ok ts { s with operands := below } :=
  popWhile_eval h (fun t ht => beq_iff_eq.mpr (hts t ht))
    fun x hx => beq_eq_false_iff_ne.mpr (hb x hx)

/-- Pieces that are not empty are no more than their letters together. -/
theorem length_le_flatMap {α β : Type} {piece : α → List β} (h : ∀ a, piece a ≠ []) (as : List α) :
    as.length ≤ (as.flatMap piece).length := by
  induction as with
  | nil => exact Nat.le_refl 0
  | cons a as ih =>
    have ha : 0 < (piece a).length := List.length_pos_iff.mpr (h a)
    rw [List.flatMap_cons, List.length_append, List.length_cons]
    omega

section Marked

variable {α β : Type} {item : Decode β} {operands : α → List Symbol} {value : α → β}
  (hitem : ∀ a s below, s.operands = operands a ++ below →
    item s = .ok (value a) { s with operands := below })
  (hfront : ∀ a, ∃ y ys, operands a = y :: ys ∧ y.kind ≠ .firstElementMarker)

include hitem hfront

/-- Elements are popped from the last to the marked first one. -/
theorem popMarked_eval (first : α) (below : List Symbol) : ∀ (later : List α) (n : Nat)
    (acc : List β) (s : State), later.length < n →
    s.operands = later.flatMap operands ++
      Symbol.leaf .firstElementMarker :: (operands first ++ below) →
    popMarked item n acc s =
      .ok (value first :: ((later.map value).reverse ++ acc)) { s with operands := below } := by
  intro later
  induction later with
  | nil =>
    intro n acc s hn h
    obtain ⟨n, rfl⟩ : ∃ m, n = m + 1 := ⟨n - 1, by simp at hn; omega⟩
    unfold popMarked
    rw [bind_ok (popKind?_hit (k := .firstElementMarker) h rfl), bind_ok (hitem first _ below rfl)]
    rfl
  | cons a later ih =>
    intro n acc s hn h
    obtain ⟨n, rfl⟩ : ∃ m, n = m + 1 := ⟨n - 1, by simp at hn; omega⟩
    obtain ⟨y, ys, hy, hk⟩ := hfront a
    rw [List.flatMap_cons, List.append_assoc] at h
    have htop := h
    rw [hy, List.cons_append] at htop
    unfold popMarked
    rw [bind_ok (popKind?_miss htop hk), bind_ok (hitem a _ _ h)]
    have hnext := ih n (value a :: acc) { s with operands := _ } (by simp at hn; omega) rfl
    simp only [Option.isSome_none, Bool.false_eq_true, if_false]
    rw [hnext]
    simp

/-- Elements are popped in the order in which they were pushed. -/
theorem popElements_eval (first : α) (below : List Symbol) (later : List α) (s : State)
    (h : s.operands = later.flatMap operands ++
      Symbol.leaf .firstElementMarker :: (operands first ++ below)) :
    popElements item s =
      .ok (value first :: (later.map value).reverse) { s with operands := below } := by
  have hlength : later.length < s.operands.length := by
    have hne : ∀ a, operands a ≠ [] := by
      intro a
      obtain ⟨y, ys, hy, -⟩ := hfront a
      rw [hy]
      exact List.cons_ne_nil y ys
    have hle := length_le_flatMap hne later
    rw [h, List.length_append, List.length_cons]
    omega
  have hpop := popMarked_eval hitem hfront first below later _ [] s hlength h
  rw [List.append_nil] at hpop
  exact hpop

end Marked

end Decode

end Demangle
