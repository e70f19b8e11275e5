import Demangle.Proofs.Cursor.Eval

/-!
# Integers are read exactly

A cursor stands in front of `digits`, which never hold the last byte of the input. `valueOfFirst` is what
the first of them are worth, as a decimal number of any size. Reading an integer gives nothing if there
are no digits; the value of all of them if it fits into 64 bits; and otherwise an overflow at the first
digit that makes the value too large (`decimal_cases`).
-/

namespace Demangle

namespace Cursor

/-- The digits in front, but for the last byte of the input. -/
def digits (c : Cursor) : List Cell :=
  c.rest.dropLast.takeWhile Cell.isDigit

/-- The value of the first `k` digits in front. -/
def valueOfFirst (c : Cursor) (k : Nat) : Nat :=
  Nat.ofDigitChars 10 ((c.digits.take k).map Cell.letter) 0

end Cursor

/-! ## Digits -/

theorem digitRun_eq_dropLast (r : List Cell) : digitRun r = r.dropLast.takeWhile Cell.isDigit := by
  fun_induction digitRun r with
  | case1 d c r hd ih => rw [List.dropLast_cons_cons, List.takeWhile_cons_of_pos hd, ih]
  | case2 d c r hd => rw [List.dropLast_cons_cons, List.takeWhile_cons_of_neg hd]
  | case3 r hr =>
    rcases r with _ | ⟨x, _ | ⟨y, r⟩⟩
    · rfl
    · rfl
    · exact absurd rfl (hr x y r)

theorem Cursor.digits_length_le (c : Cursor) : c.digits.length ≤ c.rest.length := by
  have hrun : c.digits.length ≤ c.rest.dropLast.length :=
    (List.takeWhile_sublist Cell.isDigit).length_le
  rw [List.length_dropLast] at hrun
  omega

theorem Cursor.advance_append (before read rest : List Cell) :
    (⟨before, read ++ rest⟩ : Cursor).advance read.length = ⟨read.reverse ++ before, rest⟩ := by
  simp [Cursor.advance]

/-! ## Values -/

theorem ofDigitChars_cell (d : Cell) (ds : List Cell) (v : Nat) :
    Nat.ofDigitChars 10 ((d :: ds).map Cell.letter) v =
      Nat.ofDigitChars 10 (ds.map Cell.letter) (v * 10 + d.digit) := by
  rw [List.map_cons, Nat.ofDigitChars_cons, d.toNat_letter, Nat.mul_comm 10 v]
  rfl

/-- No digit makes a value smaller. -/
theorem ofDigitChars_take_le (ds : List Cell) (v : Nat) {j k : Nat} (h : j ≤ k) :
    Nat.ofDigitChars 10 ((ds.take j).map Cell.letter) v ≤
      Nat.ofDigitChars 10 ((ds.take k).map Cell.letter) v := by
  obtain ⟨more, hmore⟩ := List.take_prefix_take_left h (l := ds)
  rw [← hmore, List.map_append, Nat.ofDigitChars_append]
  exact le_ofDigitChars _ _

/-- **The value of a run of digits, or the first digit that makes it too large.** -/
theorem decimal_cases (ds : List Cell) : ∀ v : Nat, v < UInt64.size →
    (Nat.ofDigitChars 10 (ds.map Cell.letter) v < UInt64.size ∧
      decimal v ds = .ok (Nat.ofDigitChars 10 (ds.map Cell.letter) v)) ∨
    ∃ i < ds.length, Nat.ofDigitChars 10 ((ds.take i).map Cell.letter) v < UInt64.size ∧
      UInt64.size ≤ Nat.ofDigitChars 10 ((ds.take (i + 1)).map Cell.letter) v ∧
      decimal v ds = .error i := by
  induction ds with
  | nil => exact fun v hv => .inl ⟨hv, rfl⟩
  | cons d ds ih =>
    intro v hv
    simp only [decimal]
    by_cases hfits : v * 10 + d.digit < UInt64.size
    · rw [if_pos hfits]
      rcases ih _ hfits with ⟨hlt, hok⟩ | ⟨i, hi, hbefore, hreached, herror⟩
      · rw [hok, ofDigitChars_cell]
        exact .inl ⟨hlt, rfl⟩
      · refine .inr ⟨i + 1, Nat.succ_lt_succ hi, ?_, ?_, ?_⟩
        · rw [List.take_succ_cons, ofDigitChars_cell]
          exact hbefore
        · rw [List.take_succ_cons, ofDigitChars_cell]
          exact hreached
        · rw [herror]
    · rw [if_neg hfits]
      refine .inr ⟨0, Nat.succ_pos _, hv, ?_, rfl⟩
      rw [List.take_succ_cons, ofDigitChars_cell]
      exact Nat.le_of_not_lt hfits

/-! ## Integers -/

namespace Scan

theorem integer?_of_digits {c : Cursor} (h : c.digits ≠ []) :
    integer? c =
      match decimal 0 c.digits with
      | .ok v => .ok (some (UInt64.ofNat v)) (c.advance c.digits.length)
      | .error i => .error ⟨.overflow, c.position + i⟩ c := by
  unfold integer?
  rw [digitRun_eq_dropLast]
  split
  · next hnil => exact absurd hnil h
  · rfl

theorem integer?_of_no_digits {c : Cursor} (h : c.digits = []) : integer? c = .ok none c := by
  have hrun : digitRun c.rest = [] := (digitRun_eq_dropLast c.rest).trans h
  unfold integer?
  rw [hrun]

/-- A value that fits is read. -/
theorem integer?_of_lt {c : Cursor} (hne : c.digits ≠ [])
    (hlt : c.valueOfFirst c.digits.length < UInt64.size) :
    integer? c =
      .ok (some (UInt64.ofNat (c.valueOfFirst c.digits.length))) (c.advance c.digits.length) := by
  rcases decimal_cases c.digits 0 (by decide) with ⟨-, hok⟩ | ⟨i, hi, -, hreached, -⟩
  · rw [integer?_of_digits hne, hok, Cursor.valueOfFirst, List.take_length]
  · have hle := ofDigitChars_take_le c.digits 0 (Nat.succ_le_of_lt hi)
    exact absurd (Nat.le_trans hreached hle) (Nat.not_le_of_lt hlt)

/-- A value that does not fit is refused at the first digit that makes it so. -/
theorem integer?_of_le {c : Cursor} (hle : UInt64.size ≤ c.valueOfFirst c.digits.length) :
    ∃ i < c.digits.length, (∀ j ≤ i, c.valueOfFirst j < UInt64.size) ∧
      UInt64.size ≤ c.valueOfFirst (i + 1) ∧ integer? c = .error ⟨.overflow, c.position + i⟩ c := by
  rcases decimal_cases c.digits 0 (by decide) with ⟨hlt, -⟩ | ⟨i, hi, hbefore, hreached, herror⟩
  · rw [Cursor.valueOfFirst, List.take_length] at hle
    exact absurd hle (Nat.not_le_of_lt hlt)
  · refine ⟨i, hi, fun j hj => ?_, hreached, ?_⟩
    · exact Nat.lt_of_le_of_lt (ofDigitChars_take_le c.digits 0 hj) hbefore
    · have hne : c.digits ≠ [] := List.ne_nil_of_length_pos (Nat.zero_lt_of_lt hi)
      rw [integer?_of_digits hne, herror]

/-- **Integers are read exactly**: nothing without a digit; the value of all digits if it fits into 64 bits,
and the cursor behind them; an overflow at the first digit that makes the value too large if it does not,
and the cursor where it was. So every number of 64 bits is read back from its spelling. -/
theorem integer?_exact (c : Cursor) :
    (c.digits = [] → integer? c = .ok none c) ∧
    (c.digits ≠ [] → c.valueOfFirst c.digits.length < UInt64.size →
      ∃ n : UInt64, n.toNat = c.valueOfFirst c.digits.length ∧
        integer? c = .ok (some n) (c.advance c.digits.length) ∧
        (c.advance c.digits.length).position = c.position + c.digits.length) ∧
    (UInt64.size ≤ c.valueOfFirst c.digits.length →
      ∃ i < c.digits.length, (∀ j ≤ i, c.valueOfFirst j < UInt64.size) ∧
        UInt64.size ≤ c.valueOfFirst (i + 1) ∧ integer? c = .error ⟨.overflow, c.position + i⟩ c) ∧
    ∀ (n : UInt64) (before rest : List Cell), rest ≠ [] → (∀ x ∈ rest.head?, x.isDigit = false) →
      integer? ⟨before, Cell.ofString (toString n) ++ rest⟩ =
        .ok (some n) ⟨(Cell.ofString (toString n)).reverse ++ before, rest⟩ := by
  refine ⟨integer?_of_no_digits, fun hne hlt => ?_, integer?_of_le, fun n before rest hne hhead => ?_⟩
  · refine ⟨_, UInt64.toNat_ofNat_of_lt' hlt, integer?_of_lt hne hlt, ?_⟩
    exact Cursor.position_advance c.digits_length_le
  · obtain ⟨x, r, rfl⟩ := List.exists_cons_of_ne_nil hne
    have hspelling : toString n = toString n.toNat := rfl
    rw [hspelling, integer?_toString n.toNat_lt (hhead x rfl) rfl, UInt64.ofNat_toNat,
      Cursor.advance_append]

/-- Leading zeros do not count, the last byte is left, and 2^64 is refused at its last digit, where 2^64 - 1
is read. -/
theorem integer?_exact_bounds :
    integer? (.ofString "x1") = .ok none (.ofString "x1") ∧
    integer? (.ofString "0078") = .ok (some 7) ((Cursor.ofString "0078").advance 3) ∧
    integer? (.ofString "018446744073709551616x") =
      .error ⟨.overflow, 20⟩ (.ofString "018446744073709551616x") ∧
    integer? (.ofString "18446744073709551615_") =
      .ok (some 18446744073709551615) ((Cursor.ofString "18446744073709551615_").advance 20) := by
  refine ⟨(integer?_exact (.ofString "x1")).1 (by decide +kernel), ?_, ?_, ?_⟩
  · obtain ⟨n, hn, hread, -⟩ :=
      (integer?_exact (.ofString "0078")).2.1 (by decide +kernel) (by decide +kernel)
    have hvalue : n = 7 := UInt64.toNat_inj.mp (hn.trans (by decide +kernel))
    rw [hread, hvalue]
    rfl
  · obtain ⟨i, hi, -, hreached, herror⟩ :=
      (integer?_exact (.ofString "018446744073709551616x")).2.2.1 (by decide +kernel)
    have hlength : (Cursor.ofString "018446744073709551616x").digits.length = 21 := by decide +kernel
    have hsmall : (Cursor.ofString "018446744073709551616x").valueOfFirst 20 < UInt64.size := by
      decide +kernel
    have hlate : 20 ≤ i := by
      refine Nat.le_of_not_lt fun hlt => ?_
      have hle := ofDigitChars_take_le (Cursor.ofString "018446744073709551616x").digits 0 hlt
      exact absurd (Nat.le_trans hreached hle) (Nat.not_le_of_lt hsmall)
    obtain rfl : i = 20 := by omega
    rw [herror]
    rfl
  · have hspelled : Cursor.ofString "18446744073709551615_" =
        ⟨[], Cell.ofString (toString (18446744073709551615 : UInt64)) ++ [Cell.ascii '_']⟩ := by
      decide +kernel
    have hread := (integer?_exact default).2.2.2 18446744073709551615 [] [Cell.ascii '_']
      (by decide) (by decide)
    have hbehind : (Cursor.ofString "18446744073709551615_").advance 20 =
        ⟨(Cell.ofString (toString (18446744073709551615 : UInt64))).reverse ++ [], [Cell.ascii '_']⟩ := by
      decide +kernel
    rw [← hspelled, ← hbehind] at hread
    exact hread

end Scan

end Demangle
