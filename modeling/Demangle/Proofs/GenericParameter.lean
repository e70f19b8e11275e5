import Mathlib.Data.List.TakeWhile
import Mathlib.Data.Nat.Digits.Defs
import Demangle.Proofs.Cursor.Cell
import Demangle.Render

/-!
# Names of generic parameters

A name has two parts that can be told apart: capital letters, then digits. The letters are the digits of the
index to the base 26, the least significant first (`letterValues_parameterName`), the digits spell the depth
(`depthPart_parameterName`). So both can be read off the name, and different parameters have different
names.
-/

namespace Demangle

/-! ## The parts of a name -/

/-- The values of the letters that a name begins with. -/
def letterValues (name : String) : List Nat :=
  (name.toList.takeWhile Char.isUpper).map fun c => c.toNat - 'A'.toNat

/-- What follows the letters. -/
def depthPart (name : String) : List Char :=
  name.toList.dropWhile Char.isUpper

/-- The digits of a number to the base 26, the least significant first. Zero has one digit, too. -/
def base26 (n : Nat) : List Nat :=
  if n = 0 then [0] else Nat.digits 26 n

/-- How a depth is spelled. -/
def depthDigits (d : UInt64) : List Char :=
  if d = 0 then [] else Nat.toDigits 10 d.toNat

/-! ## Letters -/

theorem letter_value : ∀ d < 26, (Char.ofNat ('A'.toNat + d)).isUpper = true ∧
    (Char.ofNat ('A'.toNat + d)).toNat - 'A'.toNat = d := by
  decide

theorem base26_eq (n : Nat) : base26 n = n % 26 :: (if n / 26 = 0 then [] else base26 (n / 26)) := by
  unfold base26
  by_cases hn : n = 0
  · subst hn
    rfl
  · rw [if_neg hn, Nat.digits_def' (by decide) (Nat.pos_of_ne_zero hn)]
    by_cases hmore : n / 26 = 0
    · rw [hmore, if_pos rfl, Nat.digits_zero]
    · rw [if_neg hmore, if_neg hmore]

theorem ofDigits_base26 (n : Nat) : Nat.ofDigits 26 (base26 n) = n := by
  unfold base26
  split
  · next h =>
    rw [h]
    rfl
  · exact Nat.ofDigits_digits 26 n

theorem base26_lt (n : Nat) : ∀ d ∈ base26 n, d < 26 := by
  intro d hd
  unfold base26 at hd
  split at hd
  · rw [List.mem_singleton.mp hd]
    decide
  · exact Nat.digits_lt_base (by decide) hd

/-- The letters of an index are its digits. The fuel that the name allows is enough, for there are no more
digits than the index. -/
theorem letterDigits_eq (fuel : Nat) : ∀ n < fuel,
    letterDigits fuel n = (base26 n).map fun d => Char.ofNat ('A'.toNat + d) := by
  induction fuel with
  | zero => exact fun n hn => absurd hn (Nat.not_lt_zero n)
  | succ fuel ih =>
    intro n hn
    rw [letterDigits, base26_eq, List.map_cons]
    by_cases hmore : n / 26 = 0
    · rw [if_pos hmore, if_pos hmore, List.map_nil]
    · have hlt : n / 26 < fuel := by omega
      rw [if_neg hmore, if_neg hmore, ih (n / 26) hlt]

/-! ## Names -/

theorem toList_parameterName (d i : UInt64) : (parameterName d i).toList =
    (base26 i.toNat).map (fun v => Char.ofNat ('A'.toNat + v)) ++ depthDigits d := by
  have hdepth : (if d == 0 then "" else toString d).toList = depthDigits d := by
    unfold depthDigits
    by_cases hd : d = 0
    · subst hd
      rfl
    · rw [if_neg hd, if_neg (by simpa using hd)]
      exact Nat.toList_repr
  rw [parameterName, String.toList_append, String.toList_ofList, hdepth,
    letterDigits_eq _ _ (Nat.lt_succ_self _)]

theorem upper_base26 (n : Nat) :
    ∀ c ∈ (base26 n).map (fun v => Char.ofNat ('A'.toNat + v)), c.isUpper = true := by
  intro c hc
  obtain ⟨v, hv, rfl⟩ := List.mem_map.mp hc
  exact (letter_value v (base26_lt n v hv)).1

theorem not_upper_depthDigits {d : UInt64} {c : Char} (hc : c ∈ depthDigits d) : c.isUpper = false := by
  unfold depthDigits at hc
  split at hc
  · cases hc
  · exact (Cell.not_letter_of_isDigit (Nat.isDigit_of_mem_toDigits (by decide) (by decide) hc)).2

/-- The letters of a name are the digits of the index. -/
theorem letterValues_parameterName (d i : UInt64) :
    letterValues (parameterName d i) = base26 i.toNat := by
  have hdepth : (depthDigits d).takeWhile Char.isUpper = [] := by
    refine List.takeWhile_eq_nil_iff.mpr fun hpos => ?_
    rw [not_upper_depthDigits (List.get_mem _ _)]
    exact Bool.false_ne_true
  rw [letterValues, toList_parameterName, List.takeWhile_append_of_pos (upper_base26 i.toNat), hdepth,
    List.append_nil, List.map_map]
  refine (List.map_congr_left fun v hv => ?_).trans (List.map_id' _)
  exact (letter_value v (base26_lt _ v hv)).2

/-- What follows the letters spells the depth. -/
theorem depthPart_parameterName (d i : UInt64) : depthPart (parameterName d i) = depthDigits d := by
  rw [depthPart, toList_parameterName, List.dropWhile_append_of_pos (upper_base26 i.toNat)]
  refine List.dropWhile_eq_self_iff.mpr fun hpos => ?_
  rw [not_upper_depthDigits (List.getElem_mem hpos)]
  exact Bool.false_ne_true

theorem ofDigitChars_depthDigits (d : UInt64) : Nat.ofDigitChars 10 (depthDigits d) 0 = d.toNat := by
  unfold depthDigits
  split
  · next h =>
    rw [h]
    rfl
  · exact Nat.ofDigitChars_ten_toDigits

theorem parameterName_eq_iff (d₁ i₁ d₂ i₂ : UInt64) :
    parameterName d₁ i₁ = parameterName d₂ i₂ ↔ d₁ = d₂ ∧ i₁ = i₂ := by
  constructor
  · intro h
    have hindex : i₁.toNat = i₂.toNat := by
      rw [← ofDigits_base26 i₁.toNat, ← letterValues_parameterName d₁, h, letterValues_parameterName,
        ofDigits_base26]
    have hdepth : d₁.toNat = d₂.toNat := by
      rw [← ofDigitChars_depthDigits d₁, ← depthPart_parameterName d₁ i₁, h, depthPart_parameterName,
        ofDigitChars_depthDigits]
    exact ⟨UInt64.toNat_inj.mp hdepth, UInt64.toNat_inj.mp hindex⟩
  · rintro ⟨rfl, rfl⟩
    rfl

theorem render_parameterType (o : Options) (d i : UInt64) :
    render o (parameterType d i) = parameterName d i := by
  rfl

/-- **Different generic parameters have different names.** The letters of a name are the digits of the index to
the base 26, the least significant first; the depth follows unless it is 0; and the name is what is printed of
the parameter, whatever the options. -/
theorem parameterName_distinct (d i : UInt64) :
    (∀ d' i' : UInt64, parameterName d i = parameterName d' i' ↔ d = d' ∧ i = i') ∧
    letterValues (parameterName d i) = base26 i.toNat ∧
    depthPart (parameterName d i) = depthDigits d ∧
    ∀ o : Options, render o (parameterType d i) = parameterName d i := by
  refine ⟨parameterName_eq_iff d i, letterValues_parameterName d i, depthPart_parameterName d i, ?_⟩
  exact fun o => render_parameterType o d i

example : parameterName 0 26 = "AB" ∧ parameterName 2 51 = "ZB2" := by decide +kernel

end Demangle
