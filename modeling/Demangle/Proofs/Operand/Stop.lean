import Demangle.Proofs.Cursor.Stop
import Demangle.Proofs.Operand.Pops

/-!
# Steps of decoding in front of a full stop

A step that ends at the end of the input does the same in front of a full stop (`EndsAlike`), with one
exception. The integer in front of a segment leaves the last byte of the input, so `1` and a digit at the
end are the segment of that digit; in front of a full stop the two digits are the length of a longer
segment, for which there are not enough bytes (`Overreads`).

    x s = .ok a s' → (∀ more, x (s.followed more) = .ok a (s'.followed more)) ∨ Overreads x s s'

As for the other properties of steps, those of a composed step follow from those of its parts.
-/

namespace Demangle

/-- The state in an input that goes on with a full stop and more. -/
def State.followed (s : State) (more : List Cell) : State :=
  { s with cursor := s.cursor.followed more }

theorem EndsInTeen.of_reaches {c d : Cursor} (h : EndsInTeen d.rest) (hreach : c.Reaches d) :
    EndsInTeen c.rest := by
  obtain ⟨read, one, x, hr, hone, hx⟩ := h
  obtain ⟨before, -, hc⟩ := hreach.before
  exact ⟨before.reverse ++ read, one, x, by rw [hc, hr, List.append_assoc], hone, hx⟩

namespace Decode

variable {α β : Type}

/-- The step takes the last two bytes for a segment of one digit, and in front of a full stop for the
length of a segment. -/
structure Overreads (x : Decode α) (s s' : State) : Prop where
  teen : EndsInTeen s.cursor.rest
  atEnd : s'.cursor.rest = []
  ended : ∃ position t, x (s.followed []) = .error ⟨.ended, position⟩ t

/-- A step that does the same at the end of the input and in front of a full stop, unless it reads too
far. -/
class EndsAlike (x : Decode α) : Prop extends LooksAhead x where
  alike : ∀ {s : State} {a : α} {s' : State}, x s = .ok a s' →
    (∀ more, x (s.followed more) = .ok a (s'.followed more)) ∨ Overreads x s s'

/-! ## Sequences -/

instance endsAlike_pure (a : α) : EndsAlike (pure a : Decode α) where
  alike h := by
    cases h
    exact .inl fun _ => rfl

theorem LooksAhead.reaches {x : Decode α} (hx : LooksAhead x) {s s' : State} {a : α}
    (h : x s = .ok a s') : s.cursor.Reaches s'.cursor := by
  have hkeeps := hx.keeps s
  rw [h] at hkeeps
  exact hkeeps.cursor

/-- A first step that does the same leaves the rest to the second one. -/
theorem alike_bind {x : Decode α} {f : α → Decode β} {s t s' : State} {a : α} {b : β}
    (hx : ∀ more, x (s.followed more) = .ok a (t.followed more)) (hreach : s.cursor.Reaches t.cursor)
    (hf : EndsAlike (f a)) (h : f a t = .ok b s') :
    (∀ more, (x >>= f) (s.followed more) = .ok b (s'.followed more)) ∨ Overreads (x >>= f) s s' := by
  rcases hf.alike h with halike | ⟨hteen, hend, position, u, hended⟩
  · exact .inl fun more => (bind_ok (hx more) f).trans (halike more)
  · exact .inr ⟨hteen.of_reaches hreach, hend, position, u, (bind_ok (hx []) f).trans hended⟩

instance endsAlike_bind {x : Decode α} {f : α → Decode β} [hx : EndsAlike x]
    [hf : ∀ a, EndsAlike (f a)] : EndsAlike (x >>= f) where
  alike {s b s'} h := by
    obtain ⟨a, t, h₁, h₂⟩ := bind_eq_ok h
    rcases hx.alike h₁ with halike | ⟨hteen, hend, position, u, hended⟩
    · exact alike_bind halike (hx.toLooksAhead.reaches h₁) (hf a) h₂
    · -- nothing is left for the second step to read
      have hnil : s'.cursor.rest = [] := by
        obtain ⟨read, -, hr⟩ := ((hf a).toLooksAhead.reaches h₂).before
        rw [hend] at hr
        exact (List.append_eq_nil_iff.mp hr.symm).2
      exact .inr ⟨hteen, hnil, position, u, bind_error hended _⟩

theorem EndsAlike.then {x : Decode α} {f : α → Decode β} [EndsAlike x]
    (_ : ∀ a, EndsAlike (f a)) : EndsAlike (x >>= f) :=
  endsAlike_bind

instance endsAlike_map {f : α → β} {x : Decode α} [EndsAlike x] : EndsAlike (f <$> x) := by
  rw [map_eq_pure_bind]
  infer_instance

instance endsAlike_ite {p : Prop} [Decidable p] {x y : Decode α} [EndsAlike x] [EndsAlike y] :
    EndsAlike (if p then x else y) := by
  split <;> infer_instance

instance endsAlike_mapM {f : α → Decode β} [∀ a, EndsAlike (f a)] (xs : List α) :
    EndsAlike (xs.mapM f) := by
  induction xs with
  | nil => exact endsAlike_pure []
  | cons x xs ih =>
    rw [List.mapM_cons]
    infer_instance

/-- A step can use what the state holds besides the place. -/
theorem endsAlike_get {f : State → Decode β} (honto : ∀ s start, f (s.onto start) = f s)
    (hfollowed : ∀ s more, f (s.followed more) = f s) (hf : ∀ s, EndsAlike (f s)) :
    EndsAlike (get >>= f : Decode β) where
  toLooksAhead := looksAhead_get honto
  alike {s b s'} h := by
    have hsame (more : List Cell) :
        (get >>= f : Decode β) (s.followed more) = f s (s.followed more) :=
      congrFun (hfollowed s more) (s.followed more)
    rcases (hf s).alike h with halike | ⟨hteen, hend, position, t, hended⟩
    · exact .inl fun more => (hsame more).trans (halike more)
    · exact .inr ⟨hteen, hend, position, t, (hsame []).trans hended⟩

/-! ## Scanning and checks -/

theorem lift_followed {x : Scan α} {s : State} {a : α} {d : Cursor} {more : List Cell}
    (h : x (s.cursor.followed more) = .ok a (d.followed more)) :
    (liftM x : Decode α) (s.followed more) = .ok a ({ s with cursor := d }.followed more) := by
  show (MonadLift.monadLift x : Decode α) (s.followed more) = _
  have hs : x (s.followed more).cursor = .ok a (d.followed more) := h
  simp only [MonadLift.monadLift, hs]
  rfl

instance endsAlike_lift (x : Scan α) [hx : Scan.EndsAlike x] : EndsAlike (liftM x : Decode α) where
  alike {s a s'} h := by
    obtain ⟨d, hd, rfl⟩ := lift_eq_ok h
    exact .inl fun more => lift_followed (hx.alike hd more)

instance endsAlike_fail (cause : Cause) : EndsAlike (fail cause : Decode α) :=
  endsAlike_lift (Scan.fail cause)

instance endsAlike_refuse : EndsAlike (refuse : Decode α) :=
  endsAlike_fail _

instance endsAlike_require (o : Option α) : EndsAlike (require o) := by
  cases o with
  | none => exact endsAlike_refuse
  | some a => exact endsAlike_pure a

instance endsAlike_ensure (b : Bool) : EndsAlike (ensure b) := by
  unfold ensure
  infer_instance

/-- Each meaning that a letter can have is such a step. -/
theorem endsAlike_meaning {γ : Type} {cause : Cause} {meaning : Char → Option γ} {f : γ → Decode β}
    (h : ∀ {c a}, meaning c = some a → EndsAlike (f a)) :
    EndsAlike ((liftM (Scan.letter cause meaning) : Decode γ) >>= f) := by
  classical
  have hmeaning {s t : State} {a : γ}
      (hs : (liftM (Scan.letter cause meaning) : Decode γ) s = .ok a t) : ∃ c, meaning c = some a := by
    obtain ⟨d, hd, -⟩ := lift_eq_ok hs
    exact Scan.meaning_of_letter hd
  rw [bind_eq_restrict (R := fun a => ∃ c, meaning c = some a) hmeaning]
  refine EndsAlike.then fun a => ?_
  split
  · next hc =>
    obtain ⟨c, hc⟩ := hc
    exact h hc
  · infer_instance

theorem endsAlike_meaning? {γ : Type} {meaning : Char → Option γ} [Scan.Skips meaning]
    {f : Option γ → Decode β} (hnone : EndsAlike (f none))
    (h : ∀ {c a}, meaning c = some a → EndsAlike (f (some a))) :
    EndsAlike ((liftM (Scan.letter? meaning) : Decode (Option γ)) >>= f) := by
  classical
  have hmeaning {s t : State} {o : Option γ}
      (hs : (liftM (Scan.letter? meaning) : Decode (Option γ)) s = .ok o t) :
      ∀ a ∈ o, ∃ c, meaning c = some a := by
    rintro a rfl
    obtain ⟨d, hd, -⟩ := lift_eq_ok hs
    exact Scan.meaning_of_letter? hd
  rw [bind_eq_restrict (R := fun o => ∀ a ∈ o, ∃ c, meaning c = some a) hmeaning]
  refine EndsAlike.then fun o => ?_
  split
  · next ho =>
    cases o with
    | none => exact hnone
    | some a =>
      obtain ⟨c, hc⟩ := ho a rfl
      exact h hc
  · infer_instance

/-! ## The end of the input

A step that looks at the next byte, reads an integer or counts the bytes that are left sees whether the
input ends. What it hands over does so, too, so it is taken together with what comes after it. -/

/-- The next byte is the same, if there is one. -/
theorem alike_peek? {f : Option Char → Decode β} {s : State} {b : β} {s' : State}
    (h : ((liftM Scan.peek? : Decode (Option Char)) >>= f) s = .ok b s')
    (hnone : ∀ {s : State} {b : β} {s' : State}, s.cursor.rest = [] → f none s ≠ .ok b s')
    (hf : ∀ c, s.cursor.rest.head?.map Cell.letter = some c → EndsAlike (f (some c))) :
    (∀ more, ((liftM Scan.peek? : Decode (Option Char)) >>= f) (s.followed more) =
      .ok b (s'.followed more)) ∨ Overreads ((liftM Scan.peek? : Decode (Option Char)) >>= f) s s' := by
  have hpeek : f (s.cursor.rest.head?.map Cell.letter) s = .ok b s' := h
  cases hr : s.cursor.rest with
  | nil =>
    rw [hr] at hpeek
    exact absurd hpeek (hnone hr)
  | cons x r =>
    rw [hr] at hpeek
    refine alike_bind (fun more => lift_followed ?_) (.refl _) (hf x.letter (by rw [hr]; rfl)) hpeek
    unfold Scan.peek?
    rw [s.cursor.rest_followed_cons hr more]
    rfl

/-- Nothing is done without a next byte. -/
theorem endsAlike_peek? {f : Option Char → Decode β}
    (hlooks : LooksAhead ((liftM Scan.peek? : Decode (Option Char)) >>= f))
    (hnone : ∀ {s : State} {b : β} {s' : State}, s.cursor.rest = [] → f none s ≠ .ok b s')
    (hf : ∀ c, EndsAlike (f (some c))) :
    EndsAlike ((liftM Scan.peek? : Decode (Option Char)) >>= f) where
  toLooksAhead := hlooks
  alike h := alike_peek? h hnone fun c _ => hf c

/-- Nothing is done in front of a last digit. -/
theorem endsAlike_integer? {f : Option UInt64 → Decode β} [hf : ∀ n, EndsAlike (f n)]
    (hdigit : ∀ {n : Option UInt64} {s : State} {b : β} {s' : State} {x : Cell},
      s.cursor.rest = [x] → x.isDigit = true → f n s ≠ .ok b s') :
    EndsAlike ((liftM Scan.integer? : Decode (Option UInt64)) >>= f) where
  alike {s b s'} h := by
    obtain ⟨n, t, hn, h⟩ := bind_eq_ok h
    obtain ⟨d, hd, rfl⟩ := lift_eq_ok hn
    have hbyte : ∀ x, d.rest = [x] → x.isDigit = false := fun x hx =>
      Bool.eq_false_iff.mpr fun hx' => hdigit (s := { s with cursor := d }) hx hx' h
    refine alike_bind (fun more => lift_followed (Scan.integer?_followed hd hbyte more)) ?_ (hf n) h
    exact (looksAhead_lift Scan.integer?).reaches hn

/-- A loop that is given as many rounds as there are bytes left, and ends with them, does not depend on
their number. -/
theorem endsAlike_rounds (loop : Nat → Decode α) [hloop : ∀ n, EndsAlike (loop n)]
    (hstable : ∀ {s : State} {n}, s.cursor.rest.length ≤ n → loop n s = loop s.cursor.rest.length s) :
    EndsAlike ((liftM Scan.remaining : Decode Nat) >>= loop) where
  alike {s a s'} h := by
    have hmore (more : List Cell) :
        s.cursor.rest.length ≤ (s.followed more).cursor.rest.length := by
      simp [State.followed, Cursor.followed]
    by_cases hover : Overreads ((liftM Scan.remaining : Decode Nat) >>= loop) s s'
    · exact .inr hover
    refine .inl fun more => ?_
    have hs : loop (s.followed more).cursor.rest.length s = .ok a s' := (hstable (hmore more)).trans h
    rcases (hloop _).alike hs with halike | ⟨hteen, hend, position, t, hended⟩
    · exact halike more
    · refine absurd ⟨hteen, hend, position, t, ?_⟩ hover
      rw [hstable] at hended
      · exact hended
      · simp [State.followed, Cursor.followed]

/-! ## The stack and the tables -/

theorem popSplit_eval {f : List Symbol → Option (α × List Symbol)} {s : State} {a : α}
    {left : List Symbol} (h : f s.operands = some (a, left)) :
    popSplit f s = .ok a { s with operands := left } := by
  unfold popSplit
  rw [h]

theorem popSplit_eq_ok {f : List Symbol → Option (α × List Symbol)} {s s' : State} {a : α}
    (h : popSplit f s = .ok a s') :
    ∃ left, f s.operands = some (a, left) ∧ s' = { s with operands := left } := by
  cases hf : f s.operands with
  | none =>
    unfold popSplit at h
    rw [hf] at h
    cases h
  | some r =>
    cases (popSplit_eval hf).symm.trans h
    exact ⟨r.2, rfl, rfl⟩

/-- What splits the operands does not look at the place. -/
theorem endsAlike_split {x : Decode α} [LooksAhead x] {f : List Symbol → Option (α × List Symbol)}
    (hx : x = popSplit f) : EndsAlike x where
  alike {s a s'} h := by
    refine .inl fun more => ?_
    rw [hx] at h ⊢
    obtain ⟨left, hf, rfl⟩ := popSplit_eq_ok h
    exact popSplit_eval (s := s.followed more) hf

instance endsAlike_pop? : EndsAlike pop? :=
  endsAlike_split pop?_eq

instance endsAlike_popIf? (p : Kind → Bool) : EndsAlike (popIf? p) :=
  endsAlike_split (popIf?_eq p)

instance endsAlike_popWhile (p : Kind → Bool) : EndsAlike (popWhile p) :=
  endsAlike_split (f := fun xs =>
    some (xs.takeWhile fun x => p x.kind, xs.dropWhile fun x => p x.kind)) rfl

instance endsAlike_popAll : EndsAlike popAll :=
  endsAlike_split (f := fun xs => some (xs, [])) rfl

instance endsAlike_popCount (n : Nat) : EndsAlike (popCount n) :=
  endsAlike_split (popCount_eq n)

instance endsAlike_remember (x : Symbol) : EndsAlike (remember x) where
  alike h := by
    cases h
    exact .inl fun _ => rfl

instance endsAlike_record (text : String) :
    EndsAlike (modify fun s => { s with words := s.words.record text } : Decode Unit) where
  alike h := by
    cases h
    exact .inl fun _ => rfl

instance endsAlike_push (x : Symbol) : EndsAlike (push x) where
  alike h := by
    cases h
    exact .inl fun _ => rfl

instance endsAlike_pushCopies (n : Nat) (x : Symbol) : EndsAlike (pushCopies n x) where
  alike h := by
    cases h
    exact .inl fun _ => rfl

instance endsAlike_substitution (i : Nat) : EndsAlike (substitution i) :=
  endsAlike_get (fun _ _ => rfl) (fun _ _ => rfl) fun _ => inferInstance

end Decode

end Demangle
