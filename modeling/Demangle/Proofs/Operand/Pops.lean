import Demangle.Operand.Basic
import Demangle.Proofs.Cursor.Ahead
import Demangle.Proofs.Loop
import Demangle.Proofs.Operand.Eval
import Demangle.Proofs.WordTable

/-!
# What steps of decoding can do to a state

Whatever a step does, and whether it succeeds or fails, the cursor goes forward, the tables of
substitutions and words grow at their ends and the way labels are spelled stays (`State.Extends`); and
what it does depends on what lies ahead of the cursor, not on what lies before (`LooksAhead`). So a fault
lies between the place where the step starts and the end of the input (`LooksAhead.position_le`,
`LooksAhead.within`).

Most steps touch the operands by popping them only. Such a step does not look below its operands: if it
leaves an operand on the stack, it does the same with more operands below (`Pops`).

    x s = .ok a s' → s'.operands ≠ [] → x (s.above below) = .ok a (s'.above below)

Both properties follow the way in which steps are put together, so they are classes.
-/

namespace Demangle

/-! ## States -/

/-- Two ways to go on are alike if they are so with what the first step can hand over. -/
theorem bind_congr_at {ε σ α β : Type} {x : EStateM ε σ α} {f g : α → EStateM ε σ β} {s : σ}
    (h : ∀ a t, x s = .ok a t → f a t = g a t) : (x >>= f) s = (x >>= g) s := by
  cases hx : x s with
  | ok a t => rw [bind_ok hx, bind_ok hx, h a t hx]
  | error e t => rw [bind_error hx, bind_error hx]

theorem bind_congr_first {ε σ α β : Type} {x y : EStateM ε σ α} {s : σ} (h : x s = y s)
    (f : α → EStateM ε σ β) : (x >>= f) s = (y >>= f) s := by
  cases hy : y s with
  | ok a t => rw [bind_ok hy, bind_ok (h.trans hy)]
  | error e t => rw [bind_error hy, bind_error (h.trans hy)]

namespace State

/-- The state in an input with more in front of it. -/
def onto (s : State) (start : List Cell) : State :=
  { s with cursor := s.cursor.onto start }

/-- The state with more operands below. -/
def above (s : State) (below : List Symbol) : State :=
  { s with operands := s.operands ++ below }

/-- A step can lead from the first state to the second one. -/
structure Extends (s s' : State) : Prop where
  cursor : s.cursor.Reaches s'.cursor
  substitutions : s.substitutions.toList <+: s'.substitutions.toList
  words : s.words.Grows s'.words
  legacyLabels : s'.legacyLabels = s.legacyLabels

theorem Extends.refl (s : State) : s.Extends s :=
  ⟨.refl _, List.prefix_refl _, .refl _, rfl⟩

theorem Extends.trans {s t u : State} (h₁ : s.Extends t) (h₂ : t.Extends u) : s.Extends u :=
  ⟨h₁.cursor.trans h₂.cursor, h₁.substitutions.trans h₂.substitutions, h₁.words.trans h₂.words,
    h₂.legacyLabels.trans h₁.legacyLabels⟩

end State

namespace Decode

variable {α β : Type}

/-! ## Looking ahead -/

/-- A step that looks ahead only, keeps what is in the tables and fails inside the input. -/
class LooksAhead (x : Decode α) : Prop where
  onto : ∀ (s : State) (start : List Cell),
    x (s.onto start) = carry (·.onto start) (·.shift start.length) (x s)
  keeps : ∀ s : State, s.Extends (finalState (x s))
  within : ∀ {s : State} {f : Fault} {s' : State}, x s = .error f s' → f.position ≤ s.cursor.size

/-- A step does not fail in front of the place where it starts: there it could as well have been the
start of the input. -/
theorem LooksAhead.position_le {x : Decode α} (hx : LooksAhead x) {s s' : State} {f : Fault}
    (h : x s = .error f s') : s.cursor.position ≤ f.position := by
  let s₀ : State := { s with cursor := ⟨[], s.cursor.rest⟩ }
  have hs : s = s₀.onto s.cursor.before := rfl
  rw [hs, hx.onto] at h
  cases h₀ : x s₀ with
  | ok a t =>
    rw [h₀] at h
    cases h
  | error f₀ t =>
    rw [h₀] at h
    cases h
    exact Nat.le_add_left _ _

instance looksAhead_pure (a : α) : LooksAhead (pure a : Decode α) where
  onto _ _ := rfl
  keeps s := .refl s
  within := nofun

instance looksAhead_bind {x : Decode α} {f : α → Decode β} [LooksAhead x]
    [∀ a, LooksAhead (f a)] : LooksAhead (x >>= f) where
  onto s start := bind_carry (LooksAhead.onto s start) fun _ t => LooksAhead.onto t start
  keeps s := by
    have hx : s.Extends (finalState (x s)) := LooksAhead.keeps s
    rcases bind_cases x f s with ⟨e, t, h, hb⟩ | ⟨a, t, h, hb⟩
    · rw [hb]
      rwa [h] at hx
    · rw [hb]
      rw [h] at hx
      exact hx.trans (LooksAhead.keeps t)
  within {s e s'} h := by
    have hx : s.Extends (finalState (x s)) := LooksAhead.keeps s
    rcases bind_cases x f s with ⟨e', t, hs, hb⟩ | ⟨a, t, hs, hb⟩
    · cases hb.symm.trans h
      exact LooksAhead.within hs
    · rw [hs] at hx
      rw [← hx.cursor.size_eq]
      exact LooksAhead.within (hb.symm.trans h)

theorem LooksAhead.then {x : Decode α} {f : α → Decode β} [LooksAhead x]
    (_ : ∀ a, LooksAhead (f a)) : LooksAhead (x >>= f) :=
  looksAhead_bind

instance looksAhead_ite {p : Prop} [Decidable p] {x y : Decode α} [LooksAhead x] [LooksAhead y] :
    LooksAhead (if p then x else y) := by
  split <;> infer_instance

/-- A step can use what the state holds besides the place. -/
theorem looksAhead_get {f : State → Decode β} (h : ∀ s start, f (s.onto start) = f s)
    [hf : ∀ s, LooksAhead (f s)] : LooksAhead (get >>= f : Decode β) where
  onto s start := by
    show f (s.onto start) (s.onto start) = carry _ _ (f s s)
    rw [h]
    exact (hf s).onto s start
  keeps s := (hf s).keeps s
  within {s _ _} h := (hf s).within h

/-! ## Popping -/

/-- A step that pops operands and makes at most `n` nodes available to back-references. -/
class Pops (n : Nat) (x : Decode α) : Prop extends LooksAhead x where
  remembers : ∀ s : State, (finalState (x s)).substitutions.size ≤ s.substitutions.size + n
  suffix : ∀ s : State, (finalState (x s)).operands <:+ s.operands
  above : ∀ {s : State} {a : α} {s' : State}, x s = .ok a s' → s'.operands ≠ [] →
    ∀ below, x (s.above below) = .ok a (s'.above below)

theorem ne_nil_of_suffix {γ : Type} {xs ys : List γ} (h : xs <:+ ys) (hne : xs ≠ []) : ys ≠ [] := by
  rintro rfl
  exact hne (List.suffix_nil.mp h)

instance pops_pure (a : α) : Pops 0 (pure a : Decode α) where
  remembers _ := Nat.le_refl _
  suffix _ := List.suffix_refl _
  above h _ _ := by
    cases h
    rfl

theorem Pops.bind {m n : Nat} {x : Decode α} {f : α → Decode β} [hx : Pops m x]
    [hf : ∀ a, Pops n (f a)] : Pops (m + n) (x >>= f) where
  remembers s := by
    have hm := hx.remembers s
    rcases bind_cases x f s with ⟨e, t, h, hb⟩ | ⟨a, t, h, hb⟩
    · rw [h] at hm
      rw [hb]
      exact Nat.le_trans hm (by omega)
    · have hn := (hf a).remembers t
      rw [h] at hm
      rw [hb]
      simp only [finalState] at hm
      omega
  suffix s := by
    have hm := hx.suffix s
    rcases bind_cases x f s with ⟨e, t, h, hb⟩ | ⟨a, t, h, hb⟩
    · rw [h] at hm
      rwa [hb]
    · rw [h] at hm
      rw [hb]
      exact ((hf a).suffix t).trans hm
  above {s b s'} h hne below := by
    obtain ⟨a, t, h₁, h₂⟩ := bind_eq_ok h
    have hsuffix := (hf a).suffix t
    rw [h₂] at hsuffix
    rw [bind_ok (hx.above h₁ (ne_nil_of_suffix hsuffix hne) below)]
    exact (hf a).above h₂ hne below

theorem Pops.then {n : Nat} {x : Decode α} {f : α → Decode β} [Pops 0 x]
    (hf : ∀ a, Pops n (f a)) : Pops n (x >>= f) :=
  Nat.zero_add n ▸ Pops.bind

instance pops_bind {n : Nat} {x : Decode α} {f : α → Decode β} [Pops 0 x] [∀ a, Pops n (f a)] :
    Pops n (x >>= f) :=
  Pops.then inferInstance

theorem Pops.mono {m n : Nat} {x : Decode α} [hx : Pops m x] (h : m ≤ n) : Pops n x where
  remembers s := Nat.le_trans (hx.remembers s) (by omega)
  suffix := hx.suffix
  above := hx.above

instance pops_ite {n : Nat} {p : Prop} [Decidable p] {x y : Decode α} [Pops n x] [Pops n y] :
    Pops n (if p then x else y) := by
  split <;> infer_instance

instance pops_map {f : α → β} {x : Decode α} [Pops 0 x] : Pops 0 (f <$> x) := by
  rw [map_eq_pure_bind]
  infer_instance

instance pops_mapM {f : α → Decode β} [∀ a, Pops 0 (f a)] (xs : List α) : Pops 0 (xs.mapM f) := by
  induction xs with
  | nil => exact pops_pure []
  | cons x xs ih =>
    rw [List.mapM_cons]
    infer_instance

/-! ## Scanning and checks -/

instance looksAhead_lift (x : Scan α) [hx : Scan.LooksAhead x] :
    LooksAhead (liftM x : Decode α) where
  onto s start := by
    show (MonadLift.monadLift x : Decode α) (s.onto start) =
      carry _ _ ((MonadLift.monadLift x : Decode α) s)
    have h : x (s.onto start).cursor = _ := hx.onto s.cursor start
    simp only [MonadLift.monadLift, h]
    cases x s.cursor <;> rfl
  keeps s := by
    show s.Extends (finalState ((MonadLift.monadLift x : Decode α) s))
    have h := hx.reaches s.cursor
    simp only [MonadLift.monadLift]
    cases hc : x s.cursor with
    | ok a c =>
      rw [hc] at h
      exact ⟨h, List.prefix_refl _, .refl _, rfl⟩
    | error e c =>
      rw [hc] at h
      exact ⟨h, List.prefix_refl _, .refl _, rfl⟩
  within {s f s'} h := by
    have hs : (MonadLift.monadLift x : Decode α) s = .error f s' := h
    simp only [MonadLift.monadLift] at hs
    cases hc : x s.cursor with
    | ok a c =>
      rw [hc] at hs
      cases hs
    | error e c =>
      rw [hc] at hs
      cases hs
      exact hx.within hc

/-- A scanning step leaves all but the cursor alone. -/
theorem finalState_lift (x : Scan α) (s : State) :
    finalState ((liftM x : Decode α) s) = { s with cursor := finalState (x s.cursor) } := by
  show finalState ((MonadLift.monadLift x : Decode α) s) = _
  simp only [MonadLift.monadLift]
  cases x s.cursor <;> rfl

instance pops_lift (x : Scan α) [Scan.LooksAhead x] : Pops 0 (liftM x : Decode α) where
  remembers s := by
    rw [finalState_lift]
    exact Nat.le_refl _
  suffix s := by
    have h := congrArg State.operands (finalState_lift x s)
    exact h ▸ List.suffix_refl s.operands
  above {s a s'} h _ below := by
    obtain ⟨c, hc, rfl⟩ := lift_eq_ok h
    show (MonadLift.monadLift x : Decode α) (s.above below) = _
    have hc' : x (s.above below).cursor = .ok a c := hc
    simp only [MonadLift.monadLift, hc']
    rfl

instance pops_fail (cause : Cause) : Pops 0 (fail cause : Decode α) :=
  pops_lift (Scan.fail cause)

instance pops_refuse : Pops 0 (refuse : Decode α) :=
  pops_fail _

instance pops_require (o : Option α) : Pops 0 (require o) := by
  cases o with
  | none => exact pops_refuse
  | some a => exact pops_pure a

instance pops_ensure (b : Bool) : Pops 0 (ensure b) := by
  unfold ensure
  infer_instance

/-- What is done with a value that the first step never returns does not matter. -/
theorem bind_eq_restrict {x : Decode α} {f : α → Decode β} {R : α → Prop} [DecidablePred R]
    (hx : ∀ {s a t}, x s = .ok a t → R a) :
    x >>= f = x >>= fun a => if R a then f a else refuse := by
  funext s
  refine bind_congr_at fun a t h => ?_
  rw [if_pos (hx h)]

theorem pops_bind_of {n : Nat} {x : Decode α} {f : α → Decode β} [Pops 0 x] {R : α → Prop}
    (hx : ∀ {s a t}, x s = .ok a t → R a) (hf : ∀ a, R a → Pops n (f a)) : Pops n (x >>= f) := by
  classical
  rw [bind_eq_restrict hx]
  refine Pops.then fun a => ?_
  split
  · next h => exact hf a h
  · exact Pops.mono (Nat.zero_le n)

/-- Each meaning that a letter can have is a step that pops. -/
theorem pops_letter {n : Nat} {γ : Type} {cause : Cause} {meaning : Char → Option γ}
    {f : γ → Decode β} (h : ∀ {c a}, meaning c = some a → Pops n (f a)) :
    Pops n ((liftM (Scan.letter cause meaning) : Decode γ) >>= f) := by
  refine pops_bind_of (R := fun a => ∃ c, meaning c = some a) (fun hs => ?_) fun a ⟨c, hc⟩ => h hc
  obtain ⟨d, hd, -⟩ := lift_eq_ok hs
  exact Scan.meaning_of_letter hd

/-! ## The stack -/

/-- Pops what a split of the operands takes off, or refuses them. -/
def popSplit (split : List Symbol → Option (α × List Symbol)) : Decode α :=
  fun s => match split s.operands with
  | some (a, left) => .ok a { s with operands := left }
  | none => refuse s

/-- A split that does not look below what it takes off pops operands. -/
theorem pops_split (split : List Symbol → Option (α × List Symbol))
    (hsuffix : ∀ {xs a left}, split xs = some (a, left) → left <:+ xs)
    (habove : ∀ {xs a left}, split xs = some (a, left) → left ≠ [] →
      ∀ below, split (xs ++ below) = some (a, left ++ below)) : Pops 0 (popSplit split) where
  onto s start := by
    unfold popSplit
    show (match split s.operands with | some (a, left) => _ | none => _) = _
    cases split s.operands with
    | some r => rfl
    | none => exact LooksAhead.onto (x := (refuse : Decode α)) s start
  keeps s := by
    unfold popSplit
    cases split s.operands with
    | some r => exact ⟨.refl _, List.prefix_refl _, .refl _, rfl⟩
    | none => exact LooksAhead.keeps (x := (refuse : Decode α)) s
  within {s f s'} h := by
    unfold popSplit at h
    cases hs : split s.operands with
    | some r =>
      rw [hs] at h
      cases h
    | none =>
      rw [hs] at h
      exact LooksAhead.within (x := (refuse : Decode α)) h
  remembers s := by
    unfold popSplit
    cases split s.operands with
    | some r => exact Nat.le_refl _
    | none => exact Nat.le_refl _
  suffix s := by
    unfold popSplit
    cases h : split s.operands with
    | some r => exact hsuffix h
    | none => exact List.suffix_refl _
  above {s a s'} hs hne below := by
    unfold popSplit at hs ⊢
    cases h : split s.operands with
    | some r =>
      rw [h] at hs
      cases hs
      show (match split (s.operands ++ below) with | some (a, left) => _ | none => _) = _
      rw [habove h hne below]
      rfl
    | none =>
      rw [h] at hs
      cases hs

theorem pop?_eq : pop? = popSplit fun xs => some (xs.head?, xs.tail) := by
  funext ⟨c, xs, table, words, legacy⟩
  cases xs <;> rfl

instance pops_pop? : Pops 0 pop? := by
  rw [pop?_eq]
  refine pops_split _ (fun h => ?_) fun {xs} _ _ h hne below => ?_
  · cases h
    exact List.tail_suffix _
  · cases h
    cases xs with
    | nil => exact absurd rfl hne
    | cons x xs => rfl

instance pops_pop : Pops 0 pop := by
  unfold pop
  infer_instance

theorem popIf?_eq (p : Kind → Bool) : popIf? p = popSplit fun
    | x :: xs => some (if p x.kind then (some x, xs) else (none, x :: xs))
    | [] => some (none, []) := by
  funext ⟨c, xs, table, words, legacy⟩
  cases xs with
  | nil => rfl
  | cons x xs => by_cases hp : p x.kind <;> simp [popIf?, popSplit, hp]

instance pops_popIf? (p : Kind → Bool) : Pops 0 (popIf? p) := by
  rw [popIf?_eq]
  refine pops_split _ (fun {xs} _ _ h => ?_) fun {xs} _ _ h hne below => ?_
  · cases xs with
    | nil => cases h; exact List.suffix_refl _
    | cons x xs =>
      by_cases hp : p x.kind <;> simp only [hp, if_true, if_false, Bool.false_eq_true] at h <;> cases h
      · exact List.suffix_cons _ _
      · exact List.suffix_refl _
  · cases xs with
    | nil => cases h; exact absurd rfl hne
    | cons x xs =>
      by_cases hp : p x.kind <;> simp only [hp, if_true, if_false, Bool.false_eq_true] at h <;> cases h
      all_goals simp [hp]

instance pops_popIf (p : Kind → Bool) : Pops 0 (popIf p) := by
  unfold popIf
  infer_instance

instance pops_popKind? (k : Kind) : Pops 0 (popKind? k) :=
  pops_popIf? _

instance pops_popKind (k : Kind) : Pops 0 (popKind k) :=
  pops_popIf _

instance pops_popWhile (p : Kind → Bool) : Pops 0 (popWhile p) := by
  refine pops_split (fun xs => some (xs.takeWhile fun x => p x.kind, xs.dropWhile fun x => p x.kind))
    (fun h => ?_) fun {xs} _ _ h hne below => ?_
  · cases h
    exact List.dropWhile_suffix _
  · cases h
    induction xs with
    | nil => exact absurd rfl hne
    | cons x xs ih =>
      by_cases hp : p x.kind
      · simp only [List.dropWhile_cons, hp, if_true] at hne
        simpa [hp] using ih hne
      · simp [hp]

/-- All operands are popped, so nothing is left that this step could not look below. -/
instance pops_popAll : Pops 0 popAll :=
  pops_split (fun xs => some (xs, [])) (fun h => by cases h; exact List.nil_suffix)
    fun h hne => by cases h; exact absurd rfl hne

theorem popCount_eq (n : Nat) : popCount n = popSplit fun xs =>
    if n ≤ xs.length then some (xs.take n, xs.drop n) else none := by
  funext s
  by_cases h : n ≤ s.operands.length
  · show (ensure (decide (n ≤ s.operands.length)) >>= _ : Decode _) s = _
    simp only [popSplit, h, decide_true, if_true]
    rfl
  · show (ensure (decide (n ≤ s.operands.length)) >>= _ : Decode _) s = _
    simp only [popSplit, h, decide_false, if_false]
    rfl

instance pops_popCount (n : Nat) : Pops 0 (popCount n) := by
  rw [popCount_eq]
  refine pops_split _ (fun {xs} _ _ h => ?_) fun {xs} _ _ h hne below => ?_
  · split at h <;> cases h
    exact List.drop_suffix n xs
  · split at h <;> cases h
    next hle =>
    have hle' : n ≤ (xs ++ below).length := by
      rw [List.length_append]
      omega
    rw [if_pos hle', List.take_append_of_le_length hle, List.drop_append_of_le_length hle]

/-! ## Operands with a role -/

instance pops_popType : Pops 0 popType :=
  pops_popKind _

instance pops_popTypeChild : Pops 0 popTypeChild := by
  unfold popTypeChild
  infer_instance

instance pops_popAnyGeneric : Pops 0 popAnyGeneric := by
  unfold popAnyGeneric
  infer_instance

instance pops_popDeclName : Pops 0 popDeclName :=
  pops_popIf _

instance pops_popEntity : Pops 0 popEntity :=
  pops_popIf _

instance pops_popSignature? : Pops 0 popSignature? :=
  pops_popKind? _

instance pops_popModule? : Pops 0 popModule? := by
  refine Pops.then fun o => ?_
  cases o <;> infer_instance

instance pops_popModule : Pops 0 popModule := by
  unfold popModule
  infer_instance

instance pops_popContext : Pops 0 popContext := by
  refine Pops.then fun o => ?_
  cases o with
  | some m => infer_instance
  | none =>
    refine Pops.then fun o => ?_
    cases o <;> infer_instance

/-! ## Lists of operands -/

/-- What can be an element of a list of operands: it takes an operand at least. -/
structure TakesOperand (item : Decode α) : Prop where
  shorter : ∀ {s : State} {a : α} {s' : State}, item s = .ok a s' →
    s'.operands.length < s.operands.length
  refuses : ∀ {s : State}, s.operands = [] → item s = refuse s

/-- One round of popping a list: an element, and the elements below it unless it is the first one. -/
def markedRound (item : Decode α) (again : List α → Decode (List α)) (acc : List α) :
    Decode (List α) := do
  let first ← popKind? .firstElementMarker
  let x ← item
  if first.isSome then return x :: acc else again (x :: acc)

theorem Pops.length_le {n : Nat} {x : Decode α} (hx : Pops n x) {s s' : State} {a : α}
    (h : x s = .ok a s') : s'.operands.length ≤ s.operands.length := by
  have hsuffix := hx.suffix s
  rw [h] at hsuffix
  exact hsuffix.length_le

/-- **Popping a list ends** with its first element or with the operands. -/
theorem terminates_popMarked {item : Decode α} (hitem : TakesOperand item) :
    Terminates (popMarked item) (markedRound item) fun _ s => s.operands.length where
  step _ _ _ := rfl
  shrinks {again again' acc s} h := by
    refine bind_congr_at fun first t ht => bind_congr_at fun x u hu => ?_
    have h₁ := (pops_popKind? _).length_le ht
    have h₂ := hitem.shorter hu
    cases first with
    | some marker => rfl
    | none => exact h _ u (by omega)
  last {acc s} hs again := by
    have hnil : s.operands = [] := List.length_eq_zero_iff.mp hs
    have hfirst : popKind? .firstElementMarker s = .ok none s :=
      popIf?_miss (by rw [hnil]; exact nofun)
    exact ((bind_ok hfirst _).trans (bind_error (hitem.refuses hnil) _)).symm

instance pops_popMarked {item : Decode α} [Pops 0 item] (n : Nat) :
    ∀ acc, Pops 0 (popMarked item n acc) := by
  induction n with
  | zero => exact fun _ => pops_refuse
  | succ n ih =>
    intro acc
    unfold popMarked
    infer_instance

/-- A loop that is given as many rounds as there are operands, and ends with them, pops operands. -/
theorem pops_rounds {k : Nat} (loop : Nat → Decode α) [hloop : ∀ n, Pops k (loop n)]
    (h : ∀ {s : State} {n}, s.operands.length ≤ n → loop n s = loop s.operands.length s) :
    Pops k (get >>= fun s => loop s.operands.length : Decode α) where
  toLooksAhead := looksAhead_get fun _ _ => rfl
  remembers s := (hloop s.operands.length).remembers s
  suffix s := (hloop s.operands.length).suffix s
  above {s a s'} hs hne below := by
    have hle : s.operands.length ≤ (s.above below).operands.length := by
      simp [State.above]
    exact (hloop _).above ((h hle).trans hs) hne below

theorem pops_popElements {item : Decode α} [Pops 0 item] (hitem : TakesOperand item) :
    Pops 0 (popElements item) :=
  pops_rounds (fun n => popMarked item n []) fun hn => (terminates_popMarked hitem).stable hn

theorem pops_popList {item : Decode α} [Pops 0 item] (hitem : TakesOperand item) :
    Pops 0 (popList item) := by
  have := pops_popElements hitem
  unfold popList
  infer_instance

/-- An operand that was popped is gone. -/
theorem popIf?_shorter {p : Kind → Bool} {s s' : State} {x : Symbol}
    (h : popIf? p s = .ok (some x) s') : s'.operands.length < s.operands.length := by
  unfold popIf? at h
  split at h
  · cases h
  · next y ys hy =>
    split at h <;> cases h
    rw [hy]
    exact Nat.lt_succ_self _

theorem takesOperand_popIf (p : Kind → Bool) : TakesOperand (popIf p) where
  shorter {s a s'} h := by
    obtain ⟨o, t, ho, h⟩ := bind_eq_ok h
    obtain ⟨rfl, rfl⟩ := require_eq_ok h
    exact popIf?_shorter ho
  refuses {s} hs := bind_ok (popIf?_miss (by rw [hs]; exact nofun)) _

theorem takesOperand_popKind (k : Kind) : TakesOperand (popKind k) :=
  takesOperand_popIf _

theorem takesOperand_popType : TakesOperand popType :=
  takesOperand_popKind _

theorem takesOperand_popDeclName : TakesOperand popDeclName :=
  takesOperand_popIf _

instance pops_popTypeList : Pops 0 popTypeList := by
  have := pops_popList takesOperand_popType
  unfold popTypeList
  infer_instance

/-- Nothing can be popped where nothing is. -/
theorem popKind?_nil {k : Kind} {s : State} (h : s.operands = []) : popKind? k s = .ok none s :=
  popIf?_miss (by rw [h]; exact nofun)

instance pops_popTupleElement : Pops 0 popTupleElement := by
  unfold popTupleElement
  infer_instance

theorem takesOperand_popTupleElement : TakesOperand popTupleElement where
  shorter {s a s'} h := by
    obtain ⟨variadic, t, ht, h⟩ := bind_eq_ok h
    obtain ⟨label, u, hu, h⟩ := bind_eq_ok h
    obtain ⟨type, v, hv, h⟩ := bind_eq_ok h
    cases h
    have h₁ := (pops_popKind? _).length_le ht
    have h₂ := (pops_popKind? _).length_le hu
    have h₃ := takesOperand_popType.shorter hv
    omega
  refuses {s} hs := by
    refine (bind_ok (popKind?_nil hs) _).trans ((bind_ok (popKind?_nil hs) _).trans ?_)
    exact bind_error (takesOperand_popType.refuses hs) _

instance pops_popTuple : Pops 0 popTuple := by
  have := pops_popList takesOperand_popTupleElement
  unfold popTuple
  infer_instance

/-! ## Tables -/

/-- A step can use what the state holds besides the place and the operands. -/
theorem pops_get {n : Nat} {f : State → Decode β} (honto : ∀ s start, f (s.onto start) = f s)
    (habove : ∀ s below, f (s.above below) = f s) (hf : ∀ s, Pops n (f s)) :
    Pops n (get >>= f : Decode β) where
  toLooksAhead := looksAhead_get honto
  remembers s := (hf s).remembers s
  suffix s := (hf s).suffix s
  above {s b s'} h hne below := by
    show f (s.above below) (s.above below) = _
    rw [habove]
    exact (hf s).above h hne below

instance pops_remember (x : Symbol) : Pops 1 (remember x) where
  onto _ _ := rfl
  keeps s := by
    refine ⟨.refl _, ?_, .refl _, rfl⟩
    show s.substitutions.toList <+: (s.substitutions.push x).toList
    rw [Array.toList_push]
    exact List.prefix_append _ _
  within := nofun
  remembers s := Nat.le_of_eq (Array.size_push x)
  suffix s := List.suffix_refl _
  above h _ _ := by
    cases h
    rfl

instance pops_substitution (i : Nat) : Pops 0 (substitution i) :=
  pops_get (fun _ _ => rfl) (fun _ _ => rfl) fun _ => inferInstance

instance pops_record (text : String) :
    Pops 0 (modify fun s => { s with words := s.words.record text } : Decode Unit) where
  onto _ _ := rfl
  keeps s := ⟨.refl _, List.prefix_refl _, WordTable.grows_record _ _, rfl⟩
  within := nofun
  remembers s := Nat.le_refl _
  suffix s := List.suffix_refl _
  above h _ _ := by
    cases h
    rfl

instance pops_indexNode : Pops 0 indexNode := by
  unfold indexNode
  infer_instance

/-! ## Pushing -/

instance looksAhead_push (x : Symbol) : LooksAhead (push x) where
  onto _ _ := rfl
  keeps _ := ⟨.refl _, List.prefix_refl _, .refl _, rfl⟩
  within := nofun

instance looksAhead_pushCopies (n : Nat) (x : Symbol) : LooksAhead (pushCopies n x) where
  onto _ _ := rfl
  keeps _ := ⟨.refl _, List.prefix_refl _, .refl _, rfl⟩
  within := nofun

end Decode

end Demangle
