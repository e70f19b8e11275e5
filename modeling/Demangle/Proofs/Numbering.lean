import Demangle.Proofs.Cursor.Actions
import Demangle.Proofs.Cursor.Stop
import Demangle.Proofs.Made.Everywhere
import Demangle.Render.Entity
import Demangle.Render.Thunk
import Mathlib.Data.List.Induction

/-!
# The numbers of local names and closures

Local names and closures are told apart by an index that the name spells, and are printed with the index
after it. An index is 0, spelled `_`, or is spelled by the number before it (`IsIndex.spelled`), so it is
the greatest one of 64 bits only if the name holds `18446744073709551614_`. In all other names printing
counts exactly:

    decode m = .ok t → n ∈ t.nodes → n.child? pos = some (ofIndex .number i) ∧ i.toNat + 1 < 2 ^ 64
-/

namespace Demangle

open Symbol Decode

/-! ## The spelling of an index -/

/-- The value of a digit and its letter. -/
theorem Cell.digit_spec {x : Cell} (h : x.isDigit = true) :
    x.digit < 10 ∧ Nat.digitChar x.digit = x.letter := by
  have hrange : 48 ≤ x.letter.toNat ∧ x.letter.toNat ≤ 57 := by
    rw [Cell.isDigit, Char.isDigit, Bool.and_eq_true, decide_eq_true_eq, decide_eq_true_eq] at h
    exact h
  have hdigit : x.digit = x.letter.toNat - 48 := by
    rw [x.toNat_letter]
    rfl
  have hlt : x.digit < 10 := by omega
  refine ⟨hlt, Char.toNat_inj.mp ?_⟩
  rw [Nat.toNat_digitChar_of_lt_ten hlt]
  omega

theorem digitRun_spec (r : List Cell) : (∀ x ∈ digitRun r, x.isDigit = true) ∧ digitRun r <+: r := by
  fun_induction digitRun r with
  | case1 d c r hd ih =>
    exact ⟨List.forall_mem_cons.mpr ⟨hd, ih.1⟩, List.cons_prefix_cons.mpr ⟨rfl, ih.2⟩⟩
  | case2 d c r hd => exact ⟨List.forall_mem_nil _, List.nil_prefix⟩
  | case3 r hr => exact ⟨List.forall_mem_nil _, List.nil_prefix⟩

/-- A run of digits ends with the spelling of its value. -/
theorem decimal_spelled (ds : List Cell) : ds ≠ [] → (∀ x ∈ ds, x.isDigit = true) → ∀ {v : Nat},
    decimal 0 ds = .ok v → Nat.toDigits 10 v <:+ ds.map Cell.letter := by
  induction ds using List.reverseRecOn with
  | nil => exact fun hne => absurd rfl hne
  | append_singleton ds x ih =>
    intro _ hdigits v h
    obtain ⟨hds, hx⟩ := List.forall_mem_append.mp hdigits
    obtain ⟨hlt, hletter⟩ := Cell.digit_spec (hx x List.mem_cons_self)
    have hlast : Nat.toDigits 10 x.digit = [x.letter] := by
      rw [Nat.toDigits_of_lt_base hlt, hletter]
    rw [List.map_append, List.map_singleton]
    rw [Scan.decimal_concat] at h
    cases hw : decimal 0 ds with
    | error i =>
      rw [hw] at h
      cases h
    | ok w =>
      rw [hw] at h
      dsimp only at h
      split at h
      · cases h
        rcases Nat.eq_zero_or_pos w with rfl | hpos
        · rw [Nat.zero_mul, Nat.zero_add, hlast]
          exact List.suffix_append _ _
        · have hne : ds ≠ [] := by
            rintro rfl
            cases hw
            cases hpos
          rw [Nat.mul_comm, ← Nat.toDigits_append_toDigits (by decide) hpos hlt, hlast]
          exact (List.suffix_append_self_iff).mpr (ih hne hds hw)
      · cases h

theorem Scan.expect_byte {letter : Char} {c d : Cursor} {u : Unit} (h : Scan.expect letter c = .ok u d) :
    ∃ x r, c.rest = x :: r ∧ x.byte = letter.toUInt8 := by
  obtain ⟨found, e, hfound, h⟩ := bind_eq_ok h
  cases found with
  | true => exact Scan.accept_byte hfound
  | false => cases h

/-- An integer is the value of the digits in front. -/
theorem Scan.integer_eq_ok {c d : Cursor} {n : UInt64} (h : Scan.integer c = .ok n d) :
    ∃ v, digitRun c.rest ≠ [] ∧ decimal 0 (digitRun c.rest) = .ok v ∧ n.toNat = v ∧
      d = c.advance (digitRun c.rest).length := by
  obtain ⟨o, e, ho, h⟩ := bind_eq_ok h
  cases o with
  | none => cases h
  | some k =>
    cases h
    unfold integer? at ho
    split at ho
    · cases ho
    · next hne =>
      split at ho
      · next v hv =>
        cases ho
        exact ⟨v, hne, hv, UInt64.toNat_ofNat_of_lt' (decimal_lt (by decide) hv), rfl⟩
      · cases ho

/-- An index other than 0 is one more than the value of the digits in front, behind which stands `_`. -/
theorem Scan.index_eq_ok {c d : Cursor} {i : UInt64} (h : Scan.index c = .ok i d) (hi : i ≠ 0) :
    ∃ v x r, digitRun c.rest ≠ [] ∧ decimal 0 (digitRun c.rest) = .ok v ∧ i.toNat = v + 1 ∧
      c.rest.drop (digitRun c.rest).length = x :: r ∧ x.byte = '_'.toUInt8 := by
  obtain ⟨zero, c₁, hzero, hrest⟩ := bind_eq_ok h
  cases zero with
  | true =>
    cases hrest
    exact absurd rfl hi
  | false =>
    have hc : c₁ = c := by
      rcases acceptByte_cases '_'.toUInt8 c with hc | hc <;> cases hc.symm.trans hzero
      rfl
    obtain ⟨n, c₂, hinteger, hrest⟩ := bind_eq_ok hrest
    obtain ⟨_, c₃, hmark, hvalue⟩ := bind_eq_ok hrest
    obtain ⟨v, hne, hv, hn, hc₂⟩ := integer_eq_ok hinteger
    obtain ⟨x, r, hx, hbyte⟩ := expect_byte hmark
    rw [hc] at hne hv hc₂
    rw [hc₂] at hx
    refine ⟨v, x, r, hne, hv, ?_, hx, hbyte⟩
    split at hvalue
    · next hfits =>
      cases hvalue
      rw [UInt64.toNat_add, hn]
      exact Nat.mod_eq_of_lt (hn ▸ hfits)
    · cases hvalue

/-- **An index is 0 or spelled by the number before it.** -/
theorem IsIndex.spelled {m : String} {i : UInt64} (h : IsIndex m i) (hi : i ≠ 0) :
    Nat.toDigits 10 (i.toNat - 1) ++ ['_'] <:+: m.toList := by
  obtain ⟨c, d, hreached, hindex⟩ := h
  obtain ⟨v, x, r, hne, hv, hin, hx, hbyte⟩ := Scan.index_eq_ok hindex hi
  obtain ⟨hdigits, hprefix⟩ := digitRun_spec c.rest
  -- what has been read are the digits and the mark behind them
  have hrest : c.rest = (digitRun c.rest ++ [x]) ++ r := by
    rw [List.append_assoc, List.singleton_append, ← hx]
    exact (List.prefix_iff_eq_append.mp hprefix).symm
  have hletter : x.letter = '_' := by
    unfold Cell.letter
    rw [hbyte]
    decide
  have hlow : ∀ y ∈ digitRun c.rest ++ [x], y.byte.toNat < 0x80 := by
    refine List.forall_mem_append.mpr ⟨fun y hy => Cell.low_of_isDigit (hdigits y hy), ?_⟩
    intro y hy
    rw [List.mem_singleton.mp hy, hbyte]
    decide
  have hread := hreached.letters_spelled hrest hlow
  rw [List.map_append, List.map_singleton, hletter] at hread
  have hsuffix := decimal_spelled (digitRun c.rest) hne hdigits hv
  rw [hin, Nat.add_sub_cancel]
  exact (List.suffix_append_self_iff.mpr hsuffix).isInfix.trans hread

/-! ## Numbered nodes -/

/-- The position of the index that printing counts on from. -/
def Kind.numberAt? : Kind → Option Nat
  | .localDeclName => some 0
  | .explicitClosure | .implicitClosure => some 1
  | _ => none

/-- The index of the node, if its kind has one, is read from the name. -/
def Symbol.Numbered (m : String) (n : Symbol) : Prop :=
  ∀ pos, n.kind.numberAt? = some pos → ∃ i, IsIndex m i ∧ n.child? pos = some (ofIndex .number i)

/-- A node of a kind without a number. -/
theorem Symbol.numbered_of_kind {m : String} {n : Symbol} (hk : n.kind.numberAt? = none) :
    n.Numbered m :=
  fun _ hpos => absurd (hk.symm.trans hpos) nofun

/-! ## Decoded trees -/

theorem numberAt?_free {k : Kind} (h : k.isFree = true) : k.numberAt? = none := by
  unfold Kind.numberAt?
  split
  all_goals first | rfl | cases h

/-- Nodes are numbered from the name as they are made. In another context a node has the same number: the
context of a local name is its number, which takes no arguments. -/
theorem nodeLaw_numbered (m : String) : NodeLaw m (Numbered m) where
  free hk := numbered_of_kind (numberAt?_free hk)
  arguments {x} hk := numbered_of_kind (by rw [hk]; rfl)
  localName {i name} hi pos hpos := by
    cases hpos
    exact ⟨i, hi, rfl⟩
  closure {k context i type} hk hi pos hpos := by
    obtain rfl : pos = 1 := by rcases hk with rfl | rfl <;> cases hpos <;> rfl
    exact ⟨i, hi, rfl⟩
  extension _ := numbered_of_kind rfl
  rebuilt h hbind pos hpos := by
    obtain ⟨i, hi, hchild⟩ := h pos hpos
    cases pos with
    | zero =>
      cases hchild
      cases hbind
    | succ pos => exact ⟨i, hi, hchild⟩
  extended _ := numbered_of_kind rfl

/-- **Made trees are numbered from the name.** -/
theorem Made.allNumbered {m : String} {t : Symbol} (h : Made m t) : ∀ n ∈ t.nodes, n.Numbered m :=
  (nodeLaw_numbered m).of_made h

/-- The only index of 64 bits that has none after it, as a name spells it. -/
def lastIndex : String := "18446744073709551614_"

/-- An index that the name spells has one after it, unless it is the last one. -/
theorem IsIndex.has_next {m : String} {i : UInt64} (h : IsIndex m i)
    (hm : ¬lastIndex.toList <:+: m.toList) : i.toNat + 1 < UInt64.size := by
  by_contra hlast
  have hi : i.toNat = 18446744073709551615 := by
    have hlt := i.toNat_lt
    have hsize : UInt64.size = 18446744073709551616 := rfl
    omega
  have hne : i ≠ 0 := by
    rintro rfl
    cases hi
  have hspelled := h.spelled hne
  rw [hi] at hspelled
  exact hm hspelled

/-- **Numbers are counted on exactly.** If a name does not hold `18446744073709551614_`, every index in its
tree that printing counts on from has a next one in 64 bits: the printed number of a local name or of a
closure is one more than its index, whatever the options. -/
theorem numbers_exact {m : String} {t : Symbol} (h : decode m = .ok t)
    (hm : ¬lastIndex.toList <:+: m.toList) : ∀ n ∈ t.nodes,
      (∀ pos, n.kind.numberAt? = some pos →
        ∃ i, n.child? pos = some (ofIndex .number i) ∧ i.toNat + 1 < UInt64.size) ∧
      (n.kind = .localDeclName → ∀ P : Printer, P.localName n = do
        P.child n 1
        Print.write (" #" ++ toString ((n.childIndex 0).toNat + 1))) ∧
      (n.kind = .explicitClosure ∨ n.kind = .implicitClosure → ∀ o : Options,
        (entityStyle o n).number.map UInt64.toNat = some ((n.childIndex 1).toNat + 1)) := by
  intro n hn
  have hnumber : ∀ pos, n.kind.numberAt? = some pos →
      ∃ i, n.child? pos = some (ofIndex .number i) ∧ i.toNat + 1 < UInt64.size := by
    intro pos hpos
    obtain ⟨i, hi, hchild⟩ := (decode_made h).allNumbered n hn pos hpos
    exact ⟨i, hchild, hi.has_next hm⟩
  have hnext : ∀ pos, n.kind.numberAt? = some pos →
      (n.childIndex pos + 1).toNat = (n.childIndex pos).toNat + 1 := by
    intro pos hpos
    obtain ⟨i, hchild, hlt⟩ := hnumber pos hpos
    have hindex : n.childIndex pos = i := by
      unfold childIndex
      rw [hchild]
      rfl
    rw [hindex, UInt64.toNat_add]
    exact Nat.mod_eq_of_lt hlt
  refine ⟨hnumber, fun hk P => ?_, fun hk o => ?_⟩
  · have htext : toString (n.childIndex 0 + 1) = toString ((n.childIndex 0).toNat + 1) :=
      congrArg (fun k : Nat => toString k) (hnext 0 (by rw [hk]; rfl))
    rw [← htext]
    rfl
  · have hat : n.kind.numberAt? = some 1 := by rcases hk with hk | hk <;> rw [hk] <;> rfl
    have hstyle : (entityStyle o n).number = some (n.childIndex 1 + 1) := by
      unfold entityStyle
      rcases hk with hk | hk <;> rw [hk]
    rw [hstyle]
    exact congrArg some (hnext 1 hat)

/-- The indices that printing counts on from in a tree. -/
def countedOn (t : Symbol) : List UInt64 :=
  t.nodes.filterMap fun n => n.kind.numberAt?.map n.childIndex

theorem numbers_exact_closure : ∃ t, decode "$s4main3fooyyFyycfU0_" = .ok t ∧ countedOn t = [1] ∧
    ∀ n ∈ t.nodes, n.kind = .explicitClosure ∨ n.kind = .implicitClosure → ∀ o,
      (entityStyle o n).number.map UInt64.toNat = some ((n.childIndex 1).toNat + 1) := by
  have key : (decode "$s4main3fooyyFyycfU0_").toOption.map countedOn = some [1] := by decide +kernel
  obtain ⟨t, ht, hindices⟩ := exists_decode key
  have height : '8' ∉ "$s4main3fooyyFyycfU0_".toList := by decide
  have hm : ¬lastIndex.toList <:+: "$s4main3fooyyFyycfU0_".toList :=
    fun hspelled => height (hspelled.subset (by decide))
  exact ⟨t, ht, hindices, fun n hn => (numbers_exact ht hm n hn).2.2⟩

/-- The last index of a name has none after it. -/
theorem numbers_exact_last : ¬∀ (m : String) (t : Symbol), decode m = .ok t →
    ∀ n ∈ t.nodes, ∀ pos, n.kind.numberAt? = some pos → (n.childIndex pos).toNat + 1 < UInt64.size := by
  have key : (decode "$s4main3fooyyFyycfU18446744073709551614_").toOption.map countedOn =
      some [18446744073709551615] := by
    decide +kernel
  obtain ⟨t, ht, hview⟩ := exists_decode key
  intro h
  have hmem : 18446744073709551615 ∈ countedOn t := by simp [hview]
  obtain ⟨n, hn, hindex⟩ := List.mem_filterMap.mp hmem
  obtain ⟨pos, hpos, hlast⟩ := Option.map_eq_some_iff.mp hindex
  have hlt := h _ t ht n hn pos hpos
  rw [hlast] at hlt
  exact absurd hlt (by decide)

end Demangle
