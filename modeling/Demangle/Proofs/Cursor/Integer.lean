import Demangle.Proofs.Cursor.Cell

/-!
# Reading the spelling of a number

A number is read back from its decimal spelling if the byte after it is no digit and the number fits
into 64 bits:

    c.rest = ofString (toString n) ++ x :: r →
      integer? c = .ok (some n) (c.advance (ofString (toString n)).length)       (integer?_toString)
-/

namespace Demangle

namespace Cell

theorem isDigit_ascii {c : Char} (h : c.toNat < 0x80) : (ascii c).isDigit = c.isDigit := by
  rw [isDigit, letter_ascii h]

theorem digit_ascii {c : Char} (h : c.toNat < 0x80) : (ascii c).digit = c.toNat - '0'.toNat := by
  have hbyte : (ascii c).byte.toNat = c.toNat := toNat_toUInt8 h
  rw [digit, hbyte]

/-- The cells of characters of ASCII are one byte each. -/
theorem flatMap_ofChar {cs : List Char} (h : ∀ c ∈ cs, c.toNat < 0x80) :
    cs.flatMap ofChar = cs.map ascii := by
  induction cs with
  | nil => rfl
  | cons c cs ih =>
    rw [List.flatMap_cons, ofChar_ascii (h c List.mem_cons_self),
      ih fun d hd => h d (List.mem_cons_of_mem _ hd)]
    rfl

theorem ofString_ofList {cs : List Char} (h : ∀ c ∈ cs, c.toNat < 0x80) :
    ofString (String.ofList cs) = cs.map ascii := by
  rw [ofString, String.toList_ofList, flatMap_ofChar h]

theorem ofString_toString (n : Nat) : ofString (toString n) = (Nat.toDigits 10 n).map ascii := by
  rw [ofString, Nat.toString_eq_repr, Nat.toList_repr]
  refine flatMap_ofChar fun c hc => low_of_isDigit_char ?_
  exact Nat.isDigit_of_mem_toDigits (by decide) (by decide) hc

end Cell

/-- A run of digits ends in front of a byte that is none. -/
theorem digitRun_append {x : Cell} (hx : x.isDigit = false) (r : List Cell) :
    ∀ ds : List Cell, (∀ d ∈ ds, d.isDigit = true) → digitRun (ds ++ x :: r) = ds := by
  intro ds
  induction ds with
  | nil =>
    intro _
    cases r with
    | nil => rfl
    | cons y r => simp [digitRun, hx]
  | cons d ds ih =>
    intro hds
    have hd := hds d List.mem_cons_self
    have htail := ih fun e he => hds e (List.mem_cons_of_mem _ he)
    obtain ⟨y, ys, hy⟩ : ∃ y ys, ds ++ x :: r = y :: ys := by
      cases ds with
      | nil => exact ⟨x, r, rfl⟩
      | cons e es => exact ⟨e, es ++ x :: r, rfl⟩
    rw [hy] at htail
    rw [List.cons_append, hy, digitRun, if_pos hd, htail]

theorem le_ofDigitChars (cs : List Char) (v : Nat) : v ≤ Nat.ofDigitChars 10 cs v := by
  rw [Nat.ofDigitChars_eq_ofDigitChars_zero]
  have hpos : 1 ≤ 10 ^ cs.length := Nat.one_le_pow _ _ (by decide)
  calc v = 1 * v := (Nat.one_mul v).symm
    _ ≤ 10 ^ cs.length * v := Nat.mul_le_mul_right v hpos
    _ ≤ 10 ^ cs.length * v + Nat.ofDigitChars 10 cs 0 := Nat.le_add_right _ _

/-- No digit makes the value too large if all together do not. -/
theorem decimal_ascii (cs : List Char) : (∀ c ∈ cs, c.isDigit = true) → ∀ v : Nat,
    Nat.ofDigitChars 10 cs v < UInt64.size →
      decimal v (cs.map Cell.ascii) = .ok (Nat.ofDigitChars 10 cs v) := by
  induction cs with
  | nil => exact fun _ v _ => rfl
  | cons c cs ih =>
    intro hcs v hv
    have hdigit := Cell.digit_ascii (Cell.low_of_isDigit_char (hcs c List.mem_cons_self))
    have htail := ih fun d hd => hcs d (List.mem_cons_of_mem _ hd)
    rw [Nat.ofDigitChars_cons] at hv ⊢
    have hfits := Nat.lt_of_le_of_lt (le_ofDigitChars cs _) hv
    rw [Nat.mul_comm 10 v] at hv hfits ⊢
    simp only [List.map_cons, decimal, hdigit]
    rw [if_pos hfits, htail _ hv]

/-- A run of digits leaves a byte at least. -/
theorem digitRun_length_lt {r : List Cell} (h : digitRun r ≠ []) :
    (digitRun r).length < r.length := by
  fun_induction digitRun r with
  | case1 d c r hd ih =>
    rw [List.length_cons, List.length_cons]
    by_cases hr : digitRun (c :: r) = []
    · simp [hr]
    · exact Nat.succ_lt_succ (ih hr)
  | case2 | case3 => exact absurd rfl h

/-- The digit that makes a value too large is one of the digits. -/
theorem decimal_error_lt : ∀ {ds : List Cell} {v i : Nat}, decimal v ds = .error i → i < ds.length := by
  intro ds
  induction ds with
  | nil => exact nofun
  | cons d ds ih =>
    intro v i h
    simp only [decimal] at h
    split at h
    · split at h
      · cases h
      · next j hj =>
        cases h
        exact Nat.succ_lt_succ (ih hj)
    · cases h
      exact Nat.succ_pos _

/-- **A number is read back from its spelling.** -/
theorem integer?_toString {c : Cursor} {n : Nat} {x : Cell} {r : List Cell} (hn : n < UInt64.size)
    (hx : x.isDigit = false) (hc : c.rest = Cell.ofString (toString n) ++ x :: r) :
    Scan.integer? c =
      .ok (some (UInt64.ofNat n)) (c.advance (Cell.ofString (toString n)).length) := by
  have hdigits : ∀ d ∈ Nat.toDigits 10 n, d.isDigit = true := fun d hd =>
    Nat.isDigit_of_mem_toDigits (by decide) (by decide) hd
  have hcells : ∀ d ∈ (Nat.toDigits 10 n).map Cell.ascii, d.isDigit = true := by
    intro d hd
    obtain ⟨e, he, rfl⟩ := List.mem_map.mp hd
    rw [Cell.isDigit_ascii (Cell.low_of_isDigit_char (hdigits e he))]
    exact hdigits e he
  have hvalue := decimal_ascii _ hdigits 0 (by rwa [Nat.ofDigitChars_ten_toDigits])
  rw [Nat.ofDigitChars_ten_toDigits] at hvalue
  rw [Cell.ofString_toString] at hc ⊢
  have hrun := digitRun_append hx r _ hcells
  rw [← hc] at hrun
  unfold Scan.integer?
  rw [hrun]
  split
  · next h => exact absurd (List.map_eq_nil_iff.mp h) Nat.toDigits_ne_nil
  · rw [hvalue]

end Demangle
