import Demangle.Punycode

/-!
# Numbers of variable length

A number is written with the least significant digit first. The digit at each place has a threshold of
its own, which depends on the bias: a digit below it is the last one. So every number has one spelling,
and a reader knows where it ends. Reading accepts what writing gives and nothing else:

    readNumber bias i w k (writeNumber bias k q ++ r) = some (i + q * w, r)      (readNumber_writeNumber)
    readNumber bias i w k cs = some (j, r) → ∃ q, cs = writeNumber bias k q ++ r (readNumber_eq_some)
-/

namespace Demangle.Punycode

/-! ## Digits -/

/-- The digit that stands for a value. -/
def digitChar (d : Nat) : Char :=
  if d < 26 then Char.ofNat ('a'.toNat + d) else Char.ofNat ('A'.toNat + (d - 26))

theorem digitValue?_digitChar {d : Nat} (h : d < base) : digitValue? (digitChar d) = some d := by
  have hall : ∀ e < 36, digitValue? (digitChar e) = some e := by decide
  exact hall d h

theorem digitChar_of_digitValue? {c : Char} {d : Nat} (h : digitValue? c = some d) :
    d < base ∧ digitChar d = c := by
  unfold digitValue? at h
  split at h
  · next hc =>
    obtain rfl := Option.some.inj h
    have hlow : 'a'.toNat ≤ c.toNat := hc.1
    have hhigh : c.toNat ≤ 'z'.toNat := hc.2
    have ha : 'a'.toNat = 97 := rfl
    have hz : 'z'.toNat = 122 := rfl
    have hb : base = 36 := rfl
    refine ⟨by omega, ?_⟩
    rw [digitChar, if_pos (by omega), Nat.add_sub_cancel' hlow, Char.ofNat_toNat]
  · split at h
    · next hc =>
      obtain rfl := Option.some.inj h
      have hlow : 'A'.toNat ≤ c.toNat := hc.1
      have hhigh : c.toNat ≤ 'J'.toNat := hc.2
      have ha : 'A'.toNat = 65 := rfl
      have hj : 'J'.toNat = 74 := rfl
      have hb : base = 36 := rfl
      refine ⟨by omega, ?_⟩
      rw [digitChar, if_neg (by omega), Nat.add_sub_cancel, Nat.add_sub_cancel' hlow,
        Char.ofNat_toNat]
    · cases h

theorem digitChar_injective {d e : Nat} (hd : d < base) (he : e < base)
    (h : digitChar d = digitChar e) : d = e := by
  have hvalue := congrArg digitValue? h
  rw [digitValue?_digitChar hd, digitValue?_digitChar he] at hvalue
  exact Option.some.inj hvalue

theorem digitChar_ne_delimiter {d : Nat} (h : d < base) : digitChar d ≠ '_' := by
  have hall : ∀ e < 36, digitChar e ≠ '_' := by decide
  exact hall d h

/-! ## Thresholds -/

theorem threshold_pos (bias k : Nat) : 0 < threshold bias k := by
  unfold threshold
  split
  · omega
  · split <;> omega

theorem threshold_le (bias k : Nat) : threshold bias k ≤ 26 := by
  unfold threshold
  split
  · omega
  · split <;> omega

/-- What is left of a number after a digit is smaller. -/
theorem rest_lt {bias k q : Nat} (h : ¬q < threshold bias k) :
    (q - threshold bias k) / (base - threshold bias k) < q := by
  have hpos := threshold_pos bias k
  calc (q - threshold bias k) / (base - threshold bias k)
      ≤ q - threshold bias k := Nat.div_le_self _ _
    _ < q := by omega

/-! ## Writing -/

/-- Spells a number; `k` fixes the threshold of its first digit. -/
def writeNumber (bias k q : Nat) : List Char :=
  if q < threshold bias k then [digitChar q]
  else
    digitChar (threshold bias k + (q - threshold bias k) % (base - threshold bias k)) ::
      writeNumber bias (k + base) ((q - threshold bias k) / (base - threshold bias k))
termination_by q
decreasing_by exact rest_lt ‹_›

theorem writeNumber_last {bias k q : Nat} (h : q < threshold bias k) :
    writeNumber bias k q = [digitChar q] := by
  rw [writeNumber, if_pos h]

/-- A digit that is not the last one, and the number behind it. -/
theorem writeNumber_more {bias k d q : Nat} (hd : threshold bias k ≤ d) (hbase : d < base) :
    writeNumber bias k (d + q * (base - threshold bias k)) =
      digitChar d :: writeNumber bias (k + base) q := by
  have hle := threshold_le bias k
  have hb : base = 36 := rfl
  generalize ht : threshold bias k = t at hd hle ⊢
  have hsub : d + q * (base - t) - t = (d - t) + q * (base - t) := by omega
  have hmod : (d + q * (base - t) - t) % (base - t) = d - t := by
    rw [hsub, Nat.add_mul_mod_self_right, Nat.mod_eq_of_lt (by omega)]
  have hdiv : (d + q * (base - t) - t) / (base - t) = q := by
    rw [hsub, Nat.add_mul_div_right _ _ (by omega), Nat.div_eq_of_lt (by omega), Nat.zero_add]
  have hmore : ¬d + q * (base - t) < t := by omega
  rw [writeNumber, ht, if_neg hmore, hmod, hdiv, Nat.add_sub_cancel' hd]

/-- Every number has a last digit, or a digit and a smaller number behind it. -/
theorem number_cases (bias k q : Nat) : q < threshold bias k ∨
    ∃ d r, threshold bias k ≤ d ∧ d < base ∧ r < q ∧ q = d + r * (base - threshold bias k) := by
  by_cases h : q < threshold bias k
  · exact .inl h
  · have hle := threshold_le bias k
    have hb : base = 36 := rfl
    have hmod := Nat.mod_lt (q - threshold bias k) (show 0 < base - threshold bias k by omega)
    have hdivmod := Nat.mod_add_div' (q - threshold bias k) (base - threshold bias k)
    exact .inr ⟨threshold bias k + (q - threshold bias k) % (base - threshold bias k), _,
      by omega, by omega, rest_lt h, by omega⟩

theorem delimiter_not_mem_writeNumber (bias : Nat) (q : Nat) :
    ∀ k, '_' ∉ writeNumber bias k q := by
  induction q using Nat.strongRecOn with
  | ind q ih =>
    intro k hmem
    rcases number_cases bias k q with hlast | ⟨d, r, hd, hbase, hr, rfl⟩
    · rw [writeNumber_last hlast, List.mem_singleton] at hmem
      have hle := threshold_le bias k
      have hb : base = 36 := rfl
      exact digitChar_ne_delimiter (by omega) hmem.symm
    · rw [writeNumber_more hd hbase] at hmem
      rcases List.mem_cons.mp hmem with heq | hmem
      · exact digitChar_ne_delimiter hbase heq.symm
      · exact ih r hr _ hmem

theorem writeNumber_ne_nil (bias k q : Nat) : writeNumber bias k q ≠ [] := by
  rw [writeNumber]
  split <;> exact List.cons_ne_nil _ _

/-- **Every number has a spelling of its own.** -/
theorem writeNumber_injective {bias : Nat} (p : Nat) : ∀ {k q : Nat},
    writeNumber bias k p = writeNumber bias k q → p = q := by
  induction p using Nat.strongRecOn with
  | ind p ih =>
    intro k q h
    have hb : base = 36 := rfl
    have hle := threshold_le bias k
    rcases number_cases bias k p with hp | ⟨d, p', hd, hd', hlt, rfl⟩
    · rcases number_cases bias k q with hq | ⟨e, q', he, he', -, rfl⟩
      · rw [writeNumber_last hp, writeNumber_last hq] at h
        exact digitChar_injective (by omega) (by omega) (List.cons.inj h).1
      · rw [writeNumber_last hp, writeNumber_more he he'] at h
        exact absurd (List.cons.inj h).2.symm (writeNumber_ne_nil _ _ _)
    · rcases number_cases bias k q with hq | ⟨e, q', he, he', -, rfl⟩
      · rw [writeNumber_more hd hd', writeNumber_last hq] at h
        exact absurd (List.cons.inj h).2 (writeNumber_ne_nil _ _ _)
      · rw [writeNumber_more hd hd', writeNumber_more he he'] at h
        obtain ⟨hdigit, hrest⟩ := List.cons.inj h
        rw [digitChar_injective hd' he' hdigit, ih p' hlt hrest]

/-! ## Reading -/

/-- **What is read is a number as it is written.** -/
theorem readNumber_eq_some {bias : Nat} {cs r : List Char} : ∀ {i w k j : Nat},
    readNumber bias i w k cs = some (j, r) →
      ∃ q, j = i + q * w ∧ j < wordSize ∧ cs = writeNumber bias k q ++ r := by
  induction cs with
  | nil => exact nofun
  | cons c cs ih =>
    intro i w k j h
    rw [readNumber] at h
    split at h
    · cases h
    next d hd =>
    obtain ⟨hbase, rfl⟩ := digitChar_of_digitValue? hd
    split at h
    next hfits =>
      dsimp only at h
      split at h
      next hlast =>
        obtain ⟨rfl, rfl⟩ := Prod.mk.inj (Option.some.inj h)
        exact ⟨d, rfl, hfits, by rw [writeNumber_last hlast]; rfl⟩
      next hmore =>
        split at h
        · obtain ⟨q, hj, hsize, rfl⟩ := ih h
          refine ⟨d + q * (base - threshold bias k), ?_, hsize, ?_⟩
          · rw [hj, Nat.add_mul, Nat.add_assoc, Nat.mul_assoc, Nat.mul_comm w]
          · rw [writeNumber_more (Nat.le_of_not_lt hmore) hbase]
            rfl
        · cases h
    · cases h

/-- **A number is read back from its spelling**, unless it is too large. A weight is multiplied only where
another digit follows, and that digit is worth one at least. -/
theorem readNumber_writeNumber {bias : Nat} (q : Nat) : ∀ {i w k : Nat} {r : List Char},
    i + q * w < wordSize → 36 * (q * w) < wordSize →
      readNumber bias i w k (writeNumber bias k q ++ r) = some (i + q * w, r) := by
  induction q using Nat.strongRecOn with
  | ind q ih =>
    intro i w k r hsum hweight
    have hpos := threshold_pos bias k
    have hle := threshold_le bias k
    have hb : base = 36 := rfl
    rcases number_cases bias k q with hlast | ⟨d, q', hd, hbase, hq', rfl⟩
    · rw [writeNumber_last hlast, List.singleton_append, readNumber,
        digitValue?_digitChar (by omega)]
      simp only [if_pos hsum, if_pos hlast]
    · rw [writeNumber_more hd hbase, List.cons_append, readNumber, digitValue?_digitChar hbase]
      have hrest := @ih q' hq'
      generalize threshold bias k = t at hpos hle hd hsum hweight ⊢
      have hvalue : (d + q' * (base - t)) * w = d * w + q' * (w * (base - t)) := by
        rw [Nat.add_mul, Nat.mul_assoc, Nat.mul_comm w]
      rw [hvalue] at hsum hweight ⊢
      have hdigit : w ≤ d * w := Nat.le_mul_of_pos_left w (by omega)
      have hnext : w * (base - t) ≤ 36 * (d * w) := by
        rw [Nat.mul_comm 36]
        exact Nat.mul_le_mul hdigit (by omega)
      have hread := @hrest (i + d * w) (w * (base - t)) (k + base) r (by omega) (by omega)
      have hfits : i + d * w < wordSize := by omega
      have hgrown : w * (base - t) < wordSize := by omega
      simp only [if_pos hfits, if_neg (Nat.not_lt_of_le hd), if_pos hgrown]
      rw [hread, Nat.add_assoc]

end Demangle.Punycode
