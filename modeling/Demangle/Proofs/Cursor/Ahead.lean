import Demangle.Proofs.Cursor.Eval
import Demangle.Proofs.Cursor.Forward

/-!
# Reading looks ahead only

The same place can be in two inputs that differ in how they start (`Cursor.onto`). A step that looks
ahead only does the same at both: it reads the same bytes and returns the same result, or it fails for
the same cause, as much further on as the one start is longer than the other. All scanning steps that
decoding uses are such steps (`Scan.LooksAhead`), they never go back, not even when they fail, and they
fail inside the input.

    x (c.onto start) = (x c).carry (·.onto start) (·.shift start.length)
-/

namespace Demangle

/-! ## Outcomes -/

/-- The fault of the same cause, `n` bytes further on. -/
def Fault.shift (f : Fault) (n : Nat) : Fault :=
  { f with position := f.position + n }

section Outcome

variable {ε δ σ τ α β : Type}

/-- The state in which a step ends, with a result or with a fault. -/
def finalState : EStateM.Result ε σ α → σ
  | .ok _ s => s
  | .error _ s => s

/-- The outcome with another state and another fault. -/
def carry (f : σ → τ) (g : ε → δ) : EStateM.Result ε σ α → EStateM.Result δ τ α
  | .ok a s => .ok a (f s)
  | .error e s => .error (g e) (f s)

/-- A sequence of two steps ends where the first one fails or where the second one ends. -/
theorem bind_cases (x : EStateM ε σ α) (f : α → EStateM ε σ β) (s : σ) :
    (∃ e t, x s = .error e t ∧ (x >>= f) s = .error e t) ∨
      ∃ a t, x s = .ok a t ∧ (x >>= f) s = f a t := by
  show (∃ e t, x s = .error e t ∧ EStateM.bind x f s = .error e t) ∨
    ∃ a t, x s = .ok a t ∧ EStateM.bind x f s = f a t
  unfold EStateM.bind
  cases h : x s with
  | ok a t => exact .inr ⟨a, t, rfl, rfl⟩
  | error e t => exact .inl ⟨e, t, rfl, rfl⟩

theorem bind_error {x : EStateM ε σ α} {s t : σ} {e : ε} (h : x s = .error e t)
    (f : α → EStateM ε σ β) : (x >>= f) s = .error e t := by
  show EStateM.bind x f s = _
  unfold EStateM.bind
  rw [h]

/-- What commutes with a map of states does so in a sequence. -/
theorem bind_carry {x : EStateM ε σ α} {f : α → EStateM ε σ β} {g : σ → σ} {e : ε → ε} {s : σ}
    (hx : x (g s) = carry g e (x s)) (hf : ∀ a t, f a (g t) = carry g e (f a t)) :
    (x >>= f) (g s) = carry g e ((x >>= f) s) := by
  show EStateM.bind x f (g s) = carry g e (EStateM.bind x f s)
  unfold EStateM.bind
  rw [hx]
  cases x s with
  | ok a t => exact hf a t
  | error e' t => rfl

end Outcome

/-! ## Places -/

namespace Cursor

/-- The same place with more in front of it. -/
def onto (c : Cursor) (start : List Cell) : Cursor :=
  ⟨c.before ++ start, c.rest⟩

theorem advance_onto (c : Cursor) (start : List Cell) (n : Nat) :
    (c.onto start).advance n = (c.advance n).onto start := by
  simp [advance, onto]

theorem position_onto (c : Cursor) (start : List Cell) :
    (c.onto start).position = c.position + start.length := by
  simp [position, onto]

/-- A place further on has more before it, by what was read. -/
theorem Reaches.position_le {c d : Cursor} (h : c.Reaches d) : c.position ≤ d.position := by
  obtain ⟨n, rfl⟩ := h
  simp [position, advance]

theorem Reaches.size_eq {c d : Cursor} (h : c.Reaches d) : d.size = c.size := by
  obtain ⟨n, rfl⟩ := h
  simp only [size, advance, List.length_append, List.length_reverse, List.length_take,
    List.length_drop]
  omega

theorem Reaches.rest_length_le {c d : Cursor} (h : c.Reaches d) : d.rest.length ≤ c.rest.length := by
  obtain ⟨n, rfl⟩ := h
  simp [advance]

end Cursor

/-! ## Steps -/

namespace Scan

variable {α β : Type}

/-- A step that looks ahead only, never goes back and fails inside the input. -/
class LooksAhead (x : Scan α) : Prop where
  onto : ∀ (c : Cursor) (start : List Cell),
    x (c.onto start) = carry (·.onto start) (·.shift start.length) (x c)
  reaches : ∀ c : Cursor, c.Reaches (finalState (x c))
  within : ∀ {c : Cursor} {f : Fault} {d : Cursor}, x c = .error f d → f.position ≤ c.size

instance forward_of_looksAhead {x : Scan α} [hx : LooksAhead x] : Forward x where
  reaches {c a d} h := by
    have hreach := hx.reaches c
    rwa [h] at hreach

instance looksAhead_pure (a : α) : LooksAhead (pure a : Scan α) where
  onto _ _ := rfl
  reaches c := .refl c
  within := nofun

instance looksAhead_bind {x : Scan α} {f : α → Scan β} [LooksAhead x] [∀ a, LooksAhead (f a)] :
    LooksAhead (x >>= f) where
  onto c start := bind_carry (LooksAhead.onto c start) fun _ d => LooksAhead.onto d start
  reaches c := by
    have hx : c.Reaches (finalState (x c)) := LooksAhead.reaches c
    rcases bind_cases x f c with ⟨e, d, h, hb⟩ | ⟨a, d, h, hb⟩
    · rw [hb]
      rwa [h] at hx
    · rw [hb]
      rw [h] at hx
      exact hx.trans (LooksAhead.reaches d)
  within {c e d} h := by
    have hx : c.Reaches (finalState (x c)) := LooksAhead.reaches c
    rcases bind_cases x f c with ⟨e', d', hc, hb⟩ | ⟨a, d', hc, hb⟩
    · cases hb.symm.trans h
      exact LooksAhead.within hc
    · rw [hc] at hx
      rw [← hx.size_eq]
      exact LooksAhead.within (hb.symm.trans h)

instance looksAhead_ite {p : Prop} [Decidable p] {x y : Scan α} [LooksAhead x] [LooksAhead y] :
    LooksAhead (if p then x else y) := by
  split <;> infer_instance

/-! ## Primitive steps

Each primitive step, once it is known what lies ahead, is one of three: it returns something, it reads a
number of bytes and returns something, or it fails. -/

/-- Reads `n` bytes and returns `a`. -/
def reading (a : α) (n : Nat) : Scan α :=
  fun c => .ok a (c.advance n)

/-- Fails `n` bytes ahead of the cursor, or at the end. -/
def failingAt (cause : Cause) (n : Nat) : Scan α :=
  fun c => .error ⟨cause, c.position + min n c.rest.length⟩ c

instance looksAhead_reading (a : α) (n : Nat) : LooksAhead (reading a n) where
  onto c start := congrArg (EStateM.Result.ok a) (c.advance_onto start n)
  reaches c := c.reaches_advance n
  within := nofun

instance looksAhead_failingAt (cause : Cause) (n : Nat) :
    LooksAhead (failingAt cause n : Scan α) where
  onto c start := by
    have hrest : (c.onto start).rest = c.rest := rfl
    simp only [failingAt, carry, Fault.shift, Cursor.position_onto, hrest, Nat.add_right_comm]
  reaches c := .refl c
  within {c f d} h := by
    cases h
    exact Nat.add_le_add_left (Nat.min_le_right n _) _

instance looksAhead_fail (cause : Cause) : LooksAhead (fail cause : Scan α) := by
  have h : (fail cause : Scan α) = failingAt cause 0 := by
    funext c
    simp [fail, failingAt]
  rw [h]
  infer_instance

/-- A step looks ahead only if it does so once it is known what lies ahead. -/
theorem looksAhead_of_rest {x : Scan α}
    (h : ∀ r : List Cell, ∃ y, LooksAhead y ∧ ∀ c, c.rest = r → x c = y c) : LooksAhead x where
  onto c start := by
    obtain ⟨y, hy, hxy⟩ := h c.rest
    rw [hxy c rfl, hxy (c.onto start) rfl]
    exact hy.onto c start
  reaches c := by
    obtain ⟨y, hy, hxy⟩ := h c.rest
    rw [hxy c rfl]
    exact hy.reaches c
  within {c f d} hc := by
    obtain ⟨y, hy, hxy⟩ := h c.rest
    exact hy.within ((hxy c rfl).symm.trans hc)

instance looksAhead_isAtEnd : LooksAhead isAtEnd where
  onto _ _ := rfl
  reaches c := .refl c
  within := nofun

instance looksAhead_remaining : LooksAhead remaining where
  onto _ _ := rfl
  reaches c := .refl c
  within := nofun

instance looksAhead_peek? : LooksAhead peek? where
  onto _ _ := rfl
  reaches c := .refl c
  within := nofun

instance looksAhead_next : LooksAhead next := by
  refine looksAhead_of_rest fun r => ?_
  cases r with
  | nil => exact ⟨fail .ended, inferInstance, fun c h => by unfold next; rw [h]; rfl⟩
  | cons b r => exact ⟨reading b.byte 1, inferInstance, fun c h => next_cons h⟩

instance looksAhead_acceptByte (b : UInt8) : LooksAhead (acceptByte b) := by
  refine looksAhead_of_rest fun r => ?_
  cases r with
  | nil => exact ⟨pure false, inferInstance, fun c h => by unfold acceptByte; rw [h]; rfl⟩
  | cons a r =>
    refine ⟨if a.byte == b then reading true 1 else pure false, inferInstance, fun c h => ?_⟩
    unfold acceptByte
    rw [h]
    dsimp only
    split <;> rfl

instance looksAhead_accept (letter : Char) : LooksAhead (accept letter) :=
  looksAhead_acceptByte _

instance looksAhead_acceptText (s : String) : LooksAhead (acceptText s) := by
  refine looksAhead_of_rest fun r => ?_
  let bytes := s.toList.flatMap String.utf8EncodeChar
  refine ⟨if !bytes.isEmpty && (r.take bytes.length).map Cell.byte == bytes then
    reading true bytes.length else pure false, inferInstance, fun c h => ?_⟩
  subst h
  simp only [acceptText, bytes]
  split <;> rfl

instance looksAhead_expectByte (b : UInt8) : LooksAhead (expectByte b) := by
  unfold expectByte
  infer_instance

instance looksAhead_expect (letter : Char) : LooksAhead (expect letter) :=
  looksAhead_expectByte _

instance looksAhead_expectWhere (p : UInt8 → Bool) (what : String) :
    LooksAhead (expectWhere p what) := by
  refine looksAhead_of_rest fun r => ?_
  cases r with
  | nil =>
    exact ⟨fail (.expected what), inferInstance, fun c h => by unfold expectWhere; rw [h]; rfl⟩
  | cons b r =>
    refine ⟨if p b.byte then reading b.byte 1 else fail (.expected what), inferInstance,
      fun c h => ?_⟩
    unfold expectWhere
    rw [h]
    dsimp only
    split <;> rfl

instance looksAhead_letter (cause : Cause) (f : Char → Option α) :
    LooksAhead (letter cause f) := by
  refine looksAhead_of_rest fun r => ?_
  cases r with
  | nil => exact ⟨fail .ended, inferInstance, fun c h => by unfold letter; rw [h]; rfl⟩
  | cons b r =>
    cases hb : f b.letter with
    | none => exact ⟨fail cause, inferInstance, fun c h => by unfold letter; rw [h]; simp [hb, fail]⟩
    | some a => exact ⟨reading a 1, inferInstance, fun c h => letter_hit h hb cause⟩

instance looksAhead_readLetter (what : String) (f : Char → Option α) :
    LooksAhead (readLetter what f) := by
  unfold readLetter
  have (b : UInt8) : LooksAhead (match f (Char.ofUInt8 b) with
      | some a => pure a
      | none => fail (.expected what) : Scan α) := by
    split <;> infer_instance
  infer_instance

theorem meaning_of_readLetter {what : String} {f : Char → Option α} {a : α} {c d : Cursor}
    (h : readLetter what f c = .ok a d) : ∃ l, f l = some a := by
  obtain ⟨b, e, -, h⟩ := bind_eq_ok h
  cases hf : f (Char.ofUInt8 b) with
  | none =>
    rw [hf] at h
    cases h
  | some a' =>
    rw [hf] at h
    cases h
    exact ⟨_, hf⟩

instance looksAhead_letter? (f : Char → Option α) : LooksAhead (letter? f) := by
  refine looksAhead_of_rest fun r => ?_
  cases r with
  | nil => exact ⟨pure none, inferInstance, fun c h => by unfold letter?; rw [h]; rfl⟩
  | cons b r =>
    cases hb : f b.letter with
    | none => exact ⟨pure none, inferInstance, fun c h => letter?_miss h hb⟩
    | some a => exact ⟨reading (some a) 1, inferInstance, fun c h => letter?_hit h hb⟩

instance looksAhead_letters (f : Char → Option α) : LooksAhead (letters f) :=
  looksAhead_of_rest fun r =>
    ⟨reading (letterRun f r) (letterRun f r).length, inferInstance, fun c h => by subst h; rfl⟩

instance looksAhead_take (n : Nat) : LooksAhead (take n) := by
  refine looksAhead_of_rest fun r => ?_
  refine ⟨if r.length < n then fail .ended
    else if Cell.atBoundary r && Cell.atBoundary (r.drop n) then reading (Cell.text (r.take n)) n
    else fail .malformed, inferInstance, fun c h => ?_⟩
  subst h
  unfold take
  split
  · rfl
  · split <;> rfl

instance looksAhead_takeWhile (p : UInt8 → Bool) : LooksAhead (takeWhile p) :=
  looksAhead_of_rest fun r =>
    let run := r.takeWhile fun x => p x.byte
    ⟨reading (if Cell.atBoundary r && Cell.atBoundary (r.drop run.length) then Cell.text run else "")
      run.length, inferInstance, fun c h => by subst h; rfl⟩

instance looksAhead_remainder : LooksAhead remainder :=
  looksAhead_of_rest fun r =>
    ⟨reading (if Cell.atBoundary r then Cell.text r else "") r.length, inferInstance,
      fun c h => by subst h; rfl⟩

instance looksAhead_integer? : LooksAhead integer? := by
  refine looksAhead_of_rest fun r => ?_
  cases hrun : digitRun r with
  | nil => exact ⟨pure none, inferInstance, fun c h => by unfold integer?; rw [h, hrun]; rfl⟩
  | cons d ds =>
    cases hv : decimal 0 (d :: ds) with
    | ok v =>
      refine ⟨reading (some (UInt64.ofNat v)) (d :: ds).length, inferInstance, fun c h => ?_⟩
      unfold integer?
      rw [h, hrun]
      simp only [hv, reading]
    | error i =>
      refine ⟨failingAt .overflow i, inferInstance, fun c h => ?_⟩
      have hlt := digitRun_length_lt (r := r) (hrun ▸ List.cons_ne_nil d ds)
      have hi := decimal_error_lt hv
      have hmin : min i c.rest.length = i := by
        rw [← hrun] at hi
        rw [h]
        omega
      unfold integer?
      rw [h, hrun]
      simp only [hv, failingAt, hmin]

instance looksAhead_integer : LooksAhead integer := by
  unfold integer
  have (n : Option UInt64) : LooksAhead (match n with
      | some n => pure n
      | none => fail .noInteger : Scan UInt64) := by
    split <;> infer_instance
  infer_instance

instance looksAhead_index : LooksAhead index := by
  unfold index
  infer_instance

end Scan

end Demangle
