import Demangle.Proofs.Cursor.Ahead

/-!
# Reading in front of a full stop

Where the input ends, it could also go on with a full stop and more (`Cursor.followed`). No operator is
spelled with a full stop inside. So a step that succeeds in front of the end succeeds in front of a full
stop, too, and reads the same (`Scan.EndsAlike`):

    x c = .ok a d → x (c.followed more) = .ok a (d.followed more)

The exception is a decimal integer. In front of the end its last digit is not read, and in front of a full
stop it is (`integer?_followed`).
-/

namespace Demangle

/-! ## Places -/

/-- A full stop. -/
def Cell.stop : Cell :=
  .ascii '.'

namespace Cursor

/-- The same place in an input that goes on with a full stop and more. -/
def followed (c : Cursor) (more : List Cell) : Cursor :=
  ⟨c.before, c.rest ++ Cell.stop :: more⟩

variable {c : Cursor}

theorem advance_followed {n : Nat} (h : n ≤ c.rest.length) (more : List Cell) :
    (c.followed more).advance n = (c.advance n).followed more := by
  simp only [followed, advance, List.take_append_of_le_length h, List.drop_append_of_le_length h]

theorem rest_followed_cons {x : Cell} {r : List Cell} (h : c.rest = x :: r) (more : List Cell) :
    (c.followed more).rest = x :: (r ++ Cell.stop :: more) := by
  rw [followed, h, List.cons_append]

theorem rest_followed_nil (h : c.rest = []) (more : List Cell) :
    (c.followed more).rest = Cell.stop :: more := by
  rw [followed, h, List.nil_append]

end Cursor

/-- The last two bytes spell a number from 10 to 19. -/
def EndsInTeen (r : List Cell) : Prop :=
  ∃ read one d, r = read ++ [one, d] ∧ one.letter = '1' ∧ d.isDigit = true

namespace Scan

variable {α β : Type}

/-! ## Steps -/

/-- A step that does the same at the end of the input and in front of a full stop. -/
class EndsAlike (x : Scan α) : Prop extends LooksAhead x where
  alike : ∀ {c : Cursor} {a : α} {d : Cursor}, x c = .ok a d →
    ∀ more, x (c.followed more) = .ok a (d.followed more)

instance endsAlike_pure (a : α) : EndsAlike (pure a : Scan α) where
  alike h more := by
    cases h
    rfl

instance endsAlike_fail (cause : Cause) : EndsAlike (fail cause : Scan α) where
  alike := nofun

instance endsAlike_bind {x : Scan α} {f : α → Scan β} [EndsAlike x] [∀ a, EndsAlike (f a)] :
    EndsAlike (x >>= f) where
  alike h more := by
    obtain ⟨a, d, hx, hf⟩ := bind_eq_ok h
    rw [bind_ok (EndsAlike.alike hx more)]
    exact EndsAlike.alike hf more

instance endsAlike_ite {p : Prop} [Decidable p] {x y : Scan α} [EndsAlike x] [EndsAlike y] :
    EndsAlike (if p then x else y) := by
  split <;> infer_instance

/-! ## Primitive steps

A step that reads a byte finds the same byte. One that reads a byte only if it likes it must not like a
full stop. -/

/-- A letter that is no full stop. -/
class IsLetter (letter : Char) : Prop where
  ne_stop : letter.toUInt8 ≠ Cell.stop.byte

instance : IsLetter '_' := ⟨by decide⟩

/-- A full stop has no meaning. -/
class Skips (f : Char → Option α) : Prop where
  stop : f '.' = none

theorem letter_stop : Cell.stop.letter = '.' := by
  decide

/-- A step that reads at most what is left finds the same. -/
theorem advanced {c : Cursor} {n : Nat} (h : n ≤ c.rest.length) (a : α) (more : List Cell) :
    (.ok a ((c.followed more).advance n) : EStateM.Result Fault Cursor α) =
      .ok a ((c.advance n).followed more) :=
  congrArg _ (c.advance_followed h more)

theorem one_le_length {c : Cursor} {x : Cell} {r : List Cell} (h : c.rest = x :: r) :
    1 ≤ c.rest.length := by
  rw [h]
  exact Nat.succ_pos _

instance endsAlike_next : EndsAlike next where
  alike {c a d} h more := by
    unfold next at h
    split at h
    · next x r hr =>
      cases h
      rw [next_cons (c.rest_followed_cons hr more)]
      exact advanced (one_le_length hr) _ more
    · cases h

instance endsAlike_letter (cause : Cause) (f : Char → Option α) : EndsAlike (letter cause f) where
  alike {c a d} h more := by
    unfold letter at h
    split at h
    · next x r hr =>
      split at h
      · next b hb =>
        cases h
        rw [letter_hit (c.rest_followed_cons hr more) hb]
        exact advanced (one_le_length hr) _ more
      · cases h
    · cases h

instance endsAlike_readLetter (what : String) (f : Char → Option α) :
    EndsAlike (readLetter what f) := by
  have (b : UInt8) : EndsAlike (match f (Char.ofUInt8 b) with
      | some a => pure a
      | none => fail (.expected what) : Scan α) := by
    split <;> infer_instance
  unfold readLetter
  infer_instance

instance endsAlike_expectWhere (p : UInt8 → Bool) (what : String) :
    EndsAlike (expectWhere p what) where
  alike {c a d} h more := by
    unfold expectWhere at h
    split at h
    · next x r hr =>
      split at h
      · next hp =>
        cases h
        unfold expectWhere
        rw [c.rest_followed_cons hr more]
        simp only [hp, if_true]
        exact advanced (one_le_length hr) _ more
      · cases h
    · cases h

/-- At the end and in front of a full stop there is nothing to accept. -/
instance endsAlike_accept (letter : Char) [h : IsLetter letter] : EndsAlike (accept letter) where
  alike {c a d} hc more := by
    unfold accept acceptByte at hc ⊢
    split at hc
    · next x r hr =>
      rw [c.rest_followed_cons hr more]
      split at hc
      · next hx =>
        cases hc
        simp only [hx, if_true]
        exact advanced (one_le_length hr) _ more
      · next hx =>
        cases hc
        simp only [hx, Bool.false_eq_true, if_false]
    · next hr =>
      cases hc
      rw [c.rest_followed_nil hr more]
      have hstop : (Cell.stop.byte == letter.toUInt8) = false :=
        beq_eq_false_iff_ne.mpr h.ne_stop.symm
      simp only [hstop, Bool.false_eq_true, if_false]

instance endsAlike_expect (letter : Char) [IsLetter letter] : EndsAlike (expect letter) :=
  inferInstanceAs (EndsAlike (accept letter >>= _))

instance endsAlike_letter? (f : Char → Option α) [hf : Skips f] : EndsAlike (letter? f) where
  alike {c a d} h more := by
    cases hr : c.rest with
    | nil =>
      have hstop : f Cell.stop.letter = none := letter_stop ▸ hf.stop
      unfold letter? at h
      rw [hr] at h
      cases h
      exact letter?_miss (c.rest_followed_nil hr more) hstop
    | cons x r =>
      cases hx : f x.letter with
      | none =>
        rw [letter?_miss hr hx] at h
        cases h
        exact letter?_miss (c.rest_followed_cons hr more) hx
      | some b =>
        rw [letter?_hit hr hx] at h
        cases h
        rw [letter?_hit (c.rest_followed_cons hr more) hx]
        exact advanced (one_le_length hr) _ more

theorem letterRun_followed {f : Char → Option α} (hf : f Cell.stop.letter = none) (r more : List Cell) :
    letterRun f (r ++ Cell.stop :: more) = letterRun f r := by
  induction r with
  | nil => simp only [List.nil_append, letterRun, hf]
  | cons x r ih => simp only [List.cons_append, letterRun, ih]

theorem length_letterRun_le (f : Char → Option α) (r : List Cell) :
    (letterRun f r).length ≤ r.length := by
  induction r with
  | nil => exact Nat.le_refl 0
  | cons x r ih =>
    rw [letterRun]
    split
    · exact Nat.succ_le_succ ih
    · exact Nat.zero_le _

instance endsAlike_letters (f : Char → Option α) [hf : Skips f] : EndsAlike (letters f) where
  alike {c a d} h more := by
    cases h
    have hrun : letterRun f (c.followed more).rest = letterRun f c.rest :=
      letterRun_followed (letter_stop ▸ hf.stop) c.rest more
    unfold letters
    rw [hrun]
    exact advanced (length_letterRun_le f c.rest) _ more

/-- The place in front of the full stop lies between two characters. -/
theorem atBoundary_followed (r more : List Cell) :
    Cell.atBoundary (r ++ Cell.stop :: more) = Cell.atBoundary r := by
  cases r <;> rfl

instance endsAlike_take (n : Nat) : EndsAlike (take n) where
  alike {c a d} h more := by
    unfold take at h
    split at h
    · cases h
    · next hn =>
      have hle : n ≤ c.rest.length := Nat.le_of_not_lt hn
      split at h
      · next hb =>
        cases h
        have hlength : ¬(c.followed more).rest.length < n := by
          simp only [Cursor.followed, List.length_append]
          omega
        unfold take
        rw [if_neg hlength]
        simp only [Cursor.followed, List.drop_append_of_le_length hle,
          List.take_append_of_le_length hle, atBoundary_followed, hb, if_true]
        exact advanced hle _ more
      · cases h

theorem takeWhile_followed {p : Cell → Bool} (hp : p Cell.stop = false) (r more : List Cell) :
    (r ++ Cell.stop :: more).takeWhile p = r.takeWhile p := by
  induction r with
  | nil =>
    simp only [List.nil_append, List.takeWhile_cons, hp, List.takeWhile_nil, Bool.false_eq_true,
      if_false]
  | cons x r ih => simp only [List.cons_append, List.takeWhile_cons, ih]

/-- Bytes are read up to the end, and up to a full stop that does not have their property. -/
theorem endsAlike_takeWhile {p : UInt8 → Bool} (hp : p Cell.stop.byte = false) :
    EndsAlike (takeWhile p) where
  alike {c a d} h more := by
    cases h
    have hrun : ((c.followed more).rest.takeWhile fun x => p x.byte) =
        c.rest.takeWhile fun x => p x.byte := takeWhile_followed hp c.rest more
    have hle : (c.rest.takeWhile fun x => p x.byte).length ≤ c.rest.length :=
      (List.takeWhile_prefix _).length_le
    unfold takeWhile
    simp only [hrun]
    simp only [Cursor.followed, List.drop_append_of_le_length hle, atBoundary_followed]
    exact advanced hle _ more

/-! ## Decimal integers -/

/-- The last byte of the input is not read as a digit. -/
theorem digitRun_cons {r : List Cell} (h : r ≠ []) (x : Cell) :
    digitRun (x :: r) = if x.isDigit then x :: digitRun r else [] := by
  cases r with
  | nil => exact absurd rfl h
  | cons y r => rfl

/-- In front of a full stop a run of digits takes all of them. -/
theorem digitRun_followed (r more : List Cell) :
    digitRun (r ++ Cell.stop :: more) = r.takeWhile Cell.isDigit := by
  induction r with
  | nil => exact digitRun_append (by decide) more [] nofun
  | cons x r ih =>
    rw [List.cons_append, digitRun_cons (by simp), ih, List.takeWhile_cons]

/-- In front of the end it does so, too, unless it leaves one digit. -/
theorem digitRun_eq_takeWhile {r : List Cell}
    (h : ∀ x, r.drop (digitRun r).length = [x] → x.isDigit = false) :
    digitRun r = r.takeWhile Cell.isDigit := by
  fun_induction digitRun r with
  | case1 d c r hd ih => rw [ih h, List.takeWhile_cons_of_pos hd]
  | case2 d c r hd => rw [List.takeWhile_cons_of_neg hd]
  | case3 r hr =>
    rcases r with _ | ⟨x, _ | ⟨y, r⟩⟩
    · rfl
    · have hx := h x rfl
      simp only [List.takeWhile_cons, hx, Bool.false_eq_true, if_false]
    · exact absurd rfl (hr x y r)

theorem length_digitRun_le (r : List Cell) : (digitRun r).length ≤ r.length := by
  by_cases h : digitRun r = []
  · rw [h]
    exact Nat.zero_le _
  · exact Nat.le_of_lt (digitRun_length_lt h)

/-- An integer is as long as its run of digits, and its value depends on nothing else. -/
theorem integer?_eq_ok {c d : Cursor} {n : Option UInt64} (h : integer? c = .ok n d) :
    d = c.advance (digitRun c.rest).length ∧
      ∀ c' : Cursor, digitRun c'.rest = digitRun c.rest →
        integer? c' = .ok n (c'.advance (digitRun c.rest).length) := by
  unfold integer? at h
  split at h
  · next hrun =>
    cases h
    refine ⟨by rw [hrun]; exact c.advance_zero.symm, fun c' hc' => ?_⟩
    unfold integer?
    rw [hc', hrun]
    exact congrArg (EStateM.Result.ok none) c'.advance_zero.symm
  · next hne =>
    split at h
    · next v hv =>
      cases h
      refine ⟨rfl, fun c' hc' => ?_⟩
      unfold integer?
      rw [hc']
      split
      · next hnil => exact absurd hnil hne
      · rw [hv]
    · cases h

/-- An integer is the same unless the last digit of the input was left. -/
theorem integer?_followed {c d : Cursor} {n : Option UInt64} (h : integer? c = .ok n d)
    (hd : ∀ x, d.rest = [x] → x.isDigit = false) (more : List Cell) :
    integer? (c.followed more) = .ok n (d.followed more) := by
  obtain ⟨rfl, hsame⟩ := integer?_eq_ok h
  have hrun : digitRun (c.followed more).rest = digitRun c.rest := by
    rw [digitRun_eq_takeWhile hd]
    exact digitRun_followed c.rest more
  rw [hsame _ hrun]
  exact advanced (length_digitRun_le c.rest) n more

theorem integer_followed {c d : Cursor} {n : UInt64} (h : integer c = .ok n d)
    (hd : ∀ x, d.rest = [x] → x.isDigit = false) (more : List Cell) :
    integer (c.followed more) = .ok n (d.followed more) := by
  obtain ⟨o, e, ho, h⟩ := bind_eq_ok h
  cases o with
  | none => cases h
  | some n' =>
    cases h
    exact bind_ok (integer?_followed ho hd more) _

/-! ## A last digit

The integer 1 in front of a last digit becomes a number from 10 to 19 in front of a full stop. -/

/-- One digit more. -/
theorem decimal_concat (ds : List Cell) (x : Cell) : ∀ v : Nat, decimal v (ds ++ [x]) =
    match decimal v ds with
    | .ok w => if w * 10 + x.digit < UInt64.size then .ok (w * 10 + x.digit) else .error ds.length
    | .error i => .error i := by
  induction ds with
  | nil =>
    intro v
    simp only [List.nil_append, decimal]
    rfl
  | cons d ds ih =>
    intro v
    simp only [List.cons_append, decimal]
    split
    · rw [ih]
      cases decimal (v * 10 + d.digit) ds with
      | error i => rfl
      | ok w => by_cases hw : w * 10 + x.digit < UInt64.size <;> simp [hw]
    · rfl

theorem decimal_lt {ds : List Cell} : ∀ {v w : Nat}, v < UInt64.size → decimal v ds = .ok w →
    w < UInt64.size := by
  induction ds with
  | nil =>
    intro v w hv h
    cases h
    exact hv
  | cons d ds ih =>
    intro v w _ h
    simp only [decimal] at h
    split at h
    · next hfits =>
      split at h
      · next u hu =>
        cases h
        exact ih hfits hu
      · cases h
    · cases h

/-- A run that leaves a digit takes all digits but that one. -/
theorem digitRun_left {r : List Cell} {x : Cell} (h : r.drop (digitRun r).length = [x])
    (hx : x.isDigit = true) : r = digitRun r ++ [x] ∧ r.takeWhile Cell.isDigit = r := by
  fun_induction digitRun r with
  | case1 d c r hd ih =>
    obtain ⟨hr, hall⟩ := ih h
    refine ⟨congrArg (d :: ·) hr, ?_⟩
    rw [List.takeWhile_cons_of_pos hd, hall]
  | case2 d c r hd => cases h
  | case3 r hr =>
    obtain rfl : r = [x] := h
    exact ⟨rfl, List.takeWhile_cons_of_pos hx⟩

/-- The digits of the number 1 end with that digit. -/
theorem last_of_decimal_one {ds : List Cell} (h : decimal 0 ds = .ok 1) :
    ∃ read one, ds = read ++ [one] ∧ one.letter = '1' := by
  rcases List.eq_nil_or_concat ds with rfl | ⟨read, one, rfl⟩
  · cases h
  rw [List.concat_eq_append, decimal_concat] at h
  refine ⟨read, one, List.concat_eq_append, ?_⟩
  cases hv : decimal 0 read with
  | error i =>
    rw [hv] at h
    cases h
  | ok v =>
    rw [hv] at h
    dsimp only at h
    split at h
    · injection h with h
      have hbyte : one.byte.toNat = 49 := by
        rw [Cell.digit] at h
        have hzero : '0'.toNat = 48 := rfl
        omega
      have hone : one.byte = 49 := UInt8.toNat_inj.mp hbyte
      rw [Cell.letter, hone]
      rfl
    · cases h

theorem integer?_of_decimal {c : Cursor} {v : Nat} (hne : digitRun c.rest ≠ [])
    (hv : decimal 0 (digitRun c.rest) = .ok v) :
    integer? c = .ok (some (UInt64.ofNat v)) (c.advance (digitRun c.rest).length) := by
  unfold integer?
  split
  · next hnil => exact absurd hnil hne
  · rw [hv]

/-- The integer 1 in front of a last digit is another one in front of a full stop. -/
theorem integer?_teen {c d : Cursor} {n : UInt64} {x : Cell} (h : integer? c = .ok (some n) d)
    (hr : d.rest = [x]) (hx : x.isDigit = true) (hn : n.toNat = 1) :
    EndsInTeen c.rest ∧ ∃ m e, integer? (c.followed []) = .ok (some m) e ∧ 1 < m.toNat ∧
      e.rest = [Cell.stop] := by
  obtain ⟨rfl, -⟩ := integer?_eq_ok h
  obtain ⟨hrun, hall⟩ := digitRun_left hr hx
  -- the digits that are read are worth 1, so the last one of them is 1
  have hone : decimal 0 (digitRun c.rest) = .ok 1 := by
    unfold integer? at h
    split at h
    · cases h
    · split at h
      · next v hv =>
        cases h
        have hlt := decimal_lt (by decide) hv
        rw [UInt64.toNat_ofNat_of_lt' hlt] at hn
        rw [hv, hn]
      · cases h
  obtain ⟨read, one, hread, hletter⟩ := last_of_decimal_one hone
  refine ⟨⟨read, one, x, ?_, hletter, hx⟩, ?_⟩
  · rw [hrun, hread, List.append_assoc]
    rfl
  -- in front of the full stop the run takes the last digit, too
  have hteen : decimal 0 (digitRun (c.followed []).rest) = .ok (10 + x.digit) := by
    have hsmall : 1 * 10 + x.digit < UInt64.size := by
      have hbyte := x.byte.toNat_lt
      rw [Cell.digit]
      exact Nat.lt_of_le_of_lt (by omega) (show 1 * 10 + 256 < UInt64.size by decide)
    rw [Cursor.followed, digitRun_followed, hall, hrun, decimal_concat, hone]
    exact if_pos hsmall
  have hne : digitRun (c.followed []).rest ≠ [] := by
    intro hnil
    rw [hnil] at hteen
    injection hteen with hzero
    omega
  refine ⟨UInt64.ofNat (10 + x.digit), _, integer?_of_decimal hne hteen, ?_, ?_⟩
  · rw [UInt64.toNat_ofNat_of_lt' (decimal_lt (by decide) hteen)]
    omega
  · have hdigits : digitRun (c.followed []).rest = c.rest := (digitRun_followed c.rest []).trans hall
    rw [hdigits]
    exact Cursor.rest_advance rfl

theorem accept_byte {letter : Char} {c d : Cursor} (h : accept letter c = .ok true d) :
    ∃ x r, c.rest = x :: r ∧ x.byte = letter.toUInt8 := by
  unfold accept acceptByte at h
  split at h
  · next x r hr =>
    split at h
    · next hx => exact ⟨x, r, hr, beq_iff_eq.mp hx⟩
    · cases h
  · cases h

/-- An index ends with a byte that is no digit. -/
instance endsAlike_index : EndsAlike index where
  alike {c a d} h more := by
    obtain ⟨zero, e, hzero, h⟩ := bind_eq_ok h
    unfold index
    rw [bind_ok (EndsAlike.alike hzero more)]
    cases zero with
    | true =>
      cases h
      rfl
    | false =>
      obtain ⟨n, e', hn, h⟩ := bind_eq_ok h
      have hlast : EndsAlike (do
        expect '_'
        if n.toNat + 1 < UInt64.size then return n + 1 else fail .overflow : Scan UInt64) := inferInstance
      have hbyte : ∀ x, e'.rest = [x] → x.isDigit = false := by
        intro x hx
        obtain ⟨⟨⟩, e'', hmark, -⟩ := bind_eq_ok h
        obtain ⟨found, _, hfound, hmark⟩ := bind_eq_ok hmark
        cases found with
        | false => cases hmark
        | true =>
          obtain ⟨y, r, hy, hbyte⟩ := accept_byte hfound
          cases hx.symm.trans hy
          rw [Cell.isDigit, Cell.letter, hbyte]
          decide
      exact (bind_ok (integer_followed hn hbyte more) _).trans (hlast.alike h more)

end Scan

end Demangle
