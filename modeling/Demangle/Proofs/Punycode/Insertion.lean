import Demangle.Proofs.Punycode
import Demangle.Proofs.Punycode.Number
import Mathlib.Data.List.Induction

/-!
# Insertions and the numbers that spell them

A place for an insertion is a code point `n` and an index `i`. The places come one after the other: the
indices of the list in turn and then the first index of the next code point. A number says how many places
lie between an insertion and the one before it. `State.put` makes the insertion that a number asks for,
without a bound on the arithmetic, and `State.spell` writes the numbers.

As long as the list can be counted in 32 bits (`State.insert_eq_put`), decoding performs the insertions whose
numbers it reads (`insertions_eq_some`, `insertions_spell`). What was
inserted last can be seen in the list: it is the last one of the largest code points (`State.Ordered`). So
the list tells all the numbers:

    (st.putAll ds).points = (st.putAll es).points → ds = es                          (putAll_injective)
-/

namespace Demangle.Punycode

/-! ## Lists -/

theorem insertIdx_append {α : Type} (u v : List α) (a : α) :
    (u ++ v).insertIdx u.length a = u ++ a :: v := by
  induction u with
  | nil => rfl
  | cons b u ih => rw [List.cons_append, List.length_cons, List.insertIdx_succ_cons, ih,
      List.cons_append]

/-- A list is divided in one way only at the last place of a value. -/
theorem divides_at_last {α : Type} {a : α} {u v u' v' : List α} (hv : a ∉ v) (hv' : a ∉ v')
    (h : u ++ a :: v = u' ++ a :: v') : u = u' ∧ v = v' := by
  rcases List.append_eq_append_iff.mp h with ⟨between, rfl, hb⟩ | ⟨between, rfl, hb⟩
  · cases between with
    | nil => exact ⟨(List.append_nil u).symm, (List.cons.inj hb).2⟩
    | cons b between =>
      obtain ⟨rfl, rfl⟩ := List.cons.inj hb
      exact absurd (List.mem_append_right _ List.mem_cons_self) hv
  · cases between with
    | nil => exact ⟨List.append_nil u', (List.cons.inj hb).2.symm⟩
    | cons b between =>
      obtain ⟨rfl, rfl⟩ := List.cons.inj hb
      exact absurd (List.mem_append_right _ List.mem_cons_self) hv'

namespace State

/-! ## Insertions without a bound -/

/-- Inserts a code point `delta` places on. -/
def put (st : State) (delta : Nat) : State where
  points := st.points.insertIdx ((st.i + delta) % (st.points.length + 1))
    (st.n + (st.i + delta) / (st.points.length + 1))
  n := st.n + (st.i + delta) / (st.points.length + 1)
  i := (st.i + delta) % (st.points.length + 1) + 1
  bias := adapt delta (st.points.length + 1) (st.i == 0)

/-- Makes insertions one after the other. -/
def putAll (st : State) (deltas : List Nat) : State :=
  deltas.foldl put st

/-- The digits of the numbers that ask for the insertions. -/
def spell : State → List Nat → List Char
  | _, [] => []
  | st, delta :: deltas => writeNumber st.bias base delta ++ (st.put delta).spell deltas

theorem count_eq {st : State} (h : st.points.length + 1 < wordSize) :
    st.count = st.points.length + 1 := by
  rw [count, Nat.mod_eq_of_lt (by omega)]

/-- As long as the list can be counted in 32 bits, an insertion is one without a bound. -/
theorem insert_eq_put {st : State} (h : st.points.length + 1 < wordSize) (delta : Nat) :
    st.insert (st.i + delta) = if (st.put delta).n < wordSize then some (st.put delta) else none := by
  unfold insert
  rw [Nat.add_sub_cancel_left, count_eq h]
  simp only [h, true_and]
  rfl

/-- An insertion divides the list and stands between the parts. The index goes on behind it. -/
theorem put_eq (st : State) (delta : Nat) : ∃ front back, st.points = front ++ back ∧
    front.length = (st.i + delta) % (st.points.length + 1) ∧
    (st.put delta).points = front ++ (st.put delta).n :: back ∧
    (st.put delta).i = front.length + 1 := by
  have hle : (st.i + delta) % (st.points.length + 1) ≤ st.points.length :=
    Nat.le_of_lt_succ (Nat.mod_lt _ (Nat.succ_pos _))
  have hlength : (st.points.take ((st.i + delta) % (st.points.length + 1))).length =
      (st.i + delta) % (st.points.length + 1) := by
    rw [List.length_take, Nat.min_eq_left hle]
  refine ⟨_, _, (List.take_append_drop _ st.points).symm, hlength, ?_, ?_⟩
  · rw [← insertIdx_append, List.take_append_drop, hlength]
    rfl
  · rw [hlength]
    rfl

/-- What the index of an insertion leaves behind it. -/
theorem drop_put {st : State} {delta : Nat} {front back : List Nat}
    (hput : (st.put delta).points = front ++ (st.put delta).n :: back)
    (hi : (st.put delta).i = front.length + 1) :
    (st.put delta).points.drop (st.put delta).i = back := by
  rw [hput, hi, List.drop_append, List.drop_of_length_le (Nat.le_succ _), List.nil_append,
    Nat.add_sub_cancel_left, List.drop_succ_cons, List.drop_zero]

theorem le_n_put (st : State) (delta : Nat) : st.n ≤ (st.put delta).n :=
  Nat.le_add_right _ _

theorem length_put (st : State) (delta : Nat) :
    (st.put delta).points.length = st.points.length + 1 := by
  obtain ⟨front, back, hpoints, -, hput, -⟩ := st.put_eq delta
  rw [hput, hpoints, List.length_append, List.length_append, List.length_cons, Nat.add_assoc]

theorem putAll_concat (st : State) (deltas : List Nat) (delta : Nat) :
    st.putAll (deltas ++ [delta]) = (st.putAll deltas).put delta :=
  List.foldl_append

theorem le_n_putAll (deltas : List Nat) : ∀ st : State, st.n ≤ (st.putAll deltas).n := by
  induction deltas with
  | nil => exact fun st => Nat.le_refl _
  | cons delta deltas ih => exact fun st => Nat.le_trans (st.le_n_put delta) (ih _)

theorem length_putAll (deltas : List Nat) : ∀ st : State,
    (st.putAll deltas).points.length = st.points.length + deltas.length := by
  induction deltas with
  | nil => exact fun st => rfl
  | cons delta deltas ih =>
    intro st
    rw [putAll, List.foldl_cons]
    refine (ih _).trans ?_
    rw [length_put, List.length_cons]
    omega

theorem n_mem_put (st : State) (delta : Nat) : (st.put delta).n ∈ (st.put delta).points := by
  obtain ⟨front, back, -, -, hput, -⟩ := st.put_eq delta
  rw [hput]
  exact List.mem_append_right _ List.mem_cons_self

/-- Insertions leave the code points of ASCII alone. -/
theorem filter_put {st : State} (h : 0x80 ≤ st.n) (delta : Nat) :
    (st.put delta).points.filter (· < 0x80) = st.points.filter (· < 0x80) := by
  obtain ⟨front, back, hpoints, -, hput, -⟩ := st.put_eq delta
  have hn := st.le_n_put delta
  have hnone : ¬(st.put delta).n < 0x80 := by omega
  rw [hput, hpoints, List.filter_append, List.filter_append,
    List.filter_cons_of_neg (by rwa [decide_eq_true_eq])]

theorem filter_putAll (deltas : List Nat) : ∀ st : State, 0x80 ≤ st.n →
    (st.putAll deltas).points.filter (· < 0x80) = st.points.filter (· < 0x80) := by
  induction deltas with
  | nil => exact fun _ _ => rfl
  | cons delta deltas ih =>
    intro st h
    have hn := st.le_n_put delta
    rw [← filter_put h delta]
    exact ih _ (Nat.le_trans h hn)

/-! ## Spelling and reading -/

theorem spell_concat (deltas : List Nat) (delta : Nat) : ∀ st : State,
    st.spell (deltas ++ [delta]) =
      st.spell deltas ++ writeNumber (st.putAll deltas).bias base delta := by
  induction deltas with
  | nil => exact fun st => List.append_nil _
  | cons d deltas ih =>
    intro st
    rw [List.cons_append, spell, spell, ih, List.append_assoc]
    rfl

theorem delimiter_not_mem_spell (deltas : List Nat) : ∀ st : State, '_' ∉ st.spell deltas := by
  induction deltas with
  | nil => exact fun st => List.not_mem_nil
  | cons delta deltas ih =>
    intro st h
    rcases List.mem_append.mp h with h | h
    · exact delimiter_not_mem_writeNumber _ _ _ h
    · exact ih _ h

end State

theorem insertions_succ {cs : List Char} (h : cs ≠ []) (fuel : Nat) (st : State) :
    insertions (fuel + 1) st cs =
      match readNumber st.bias st.i 1 base cs with
      | none => none
      | some (i, cs) =>
        match st.insert i with
        | none => none
        | some st => insertions fuel st cs := by
  cases cs with
  | nil => exact absurd rfl h
  | cons c cs => rfl

/-- No code point gets lost. -/
theorem length_le_insertions {fuel : Nat} : ∀ {st : State} {cs : List Char} {points : List Nat},
    insertions fuel st cs = some points → st.points.length ≤ points.length := by
  induction fuel with
  | zero =>
    intro st cs points h
    cases cs with
    | nil =>
      cases h
      exact Nat.le_refl _
    | cons c cs => cases h
  | succ fuel ih =>
    intro st cs points h
    by_cases hcs : cs = []
    · subst hcs
      cases h
      exact Nat.le_refl _
    rw [insertions_succ hcs] at h
    split at h
    · cases h
    split at h
    · cases h
    next st' hput =>
    have hlonger := State.insert_length hput
    exact Nat.le_trans (by omega) (ih h)

/-- **What is decoded are insertions**, and the digits spell their numbers, if the list can be counted in 32
bits. -/
theorem insertions_eq_some {fuel : Nat} : ∀ {st : State} {cs : List Char} {points : List Nat},
    points.length < wordSize → insertions fuel st cs = some points →
      ∃ deltas, cs = st.spell deltas ∧ points = (st.putAll deltas).points := by
  induction fuel with
  | zero =>
    intro st cs points _ h
    cases cs with
    | nil =>
      cases h
      exact ⟨[], rfl, rfl⟩
    | cons c cs => cases h
  | succ fuel ih =>
    intro st cs points hlength h
    by_cases hcs : cs = []
    · subst hcs
      cases h
      exact ⟨[], rfl, rfl⟩
    rw [insertions_succ hcs] at h
    split at h
    · cases h
    next i r hread =>
    obtain ⟨delta, rfl, -, rfl⟩ := readNumber_eq_some hread
    rw [Nat.mul_one] at h
    split at h
    · cases h
    next st' hput =>
    have hlonger := State.insert_length hput
    have hrest := length_le_insertions h
    rw [State.insert_eq_put (by omega)] at hput
    split at hput
    · cases hput
      obtain ⟨deltas, rfl, rfl⟩ := ih hlength h
      exact ⟨delta :: deltas, rfl, rfl⟩
    · cases hput

/-- **Insertions are decoded from the digits of their numbers**, if the numbers are small enough for a list
of the given length. -/
theorem insertions_spell (bound : Nat) (deltas : List Nat) : ∀ (fuel : Nat) (st : State),
    (st.spell deltas).length ≤ fuel → st.i ≤ st.points.length →
    st.points.length + deltas.length ≤ bound → (∀ d ∈ deltas, 36 * (d + bound) < wordSize) →
    (st.putAll deltas).n < wordSize →
      insertions fuel st (st.spell deltas) = some (st.putAll deltas).points := by
  induction deltas with
  | nil =>
    intro fuel st _ _ _ _ _
    cases fuel <;> rfl
  | cons delta deltas ih =>
    intro fuel st hfuel hi hlength hsmall hn
    have hdelta := hsmall delta List.mem_cons_self
    have hdigits : 0 < (writeNumber st.bias base delta).length :=
      List.length_pos_iff.mpr (writeNumber_ne_nil _ _ _)
    rw [State.spell, List.length_append] at hfuel
    rw [List.length_cons] at hlength
    obtain ⟨fuel, rfl⟩ : ∃ m, fuel = m + 1 := ⟨fuel - 1, by omega⟩
    have hne : st.spell (delta :: deltas) ≠ [] := by
      intro hnil
      rw [State.spell, List.append_eq_nil_iff] at hnil
      exact writeNumber_ne_nil _ _ _ hnil.1
    have hread : readNumber st.bias st.i 1 base (st.spell (delta :: deltas)) =
        some (st.i + delta * 1, (st.put delta).spell deltas) :=
      readNumber_writeNumber delta (by omega) (by omega)
    have hput : st.insert (st.i + delta) = some (st.put delta) := by
      rw [State.insert_eq_put (by omega),
        if_pos (Nat.lt_of_le_of_lt (State.le_n_putAll deltas _) hn)]
    have hplace : (st.put delta).i ≤ (st.put delta).points.length := by
      obtain ⟨front, back, -, -, hpoints, hi⟩ := st.put_eq delta
      rw [hpoints, hi, List.length_append, List.length_cons]
      omega
    have hrest := ih fuel (st.put delta) (by omega) hplace
      (by rw [State.length_put]; omega) (fun d hd => hsmall d (List.mem_cons_of_mem _ hd)) hn
    rw [insertions_succ hne, hread, Nat.mul_one]
    dsimp only
    rw [hput]
    exact hrest

namespace State

/-! ## The list tells the insertions -/

/-- The place of a state lies behind all that was inserted: no code point is larger than `n`, and `n` itself
does not stand at the index or after it. -/
structure Ordered (st : State) : Prop where
  place : st.i ≤ st.points.length
  upper : ∀ p ∈ st.points, p ≤ st.n
  behind : ∀ p ∈ st.points.drop st.i, p < st.n

/-- Before the first insertion. -/
theorem ordered_literal {points : List Nat} (h : ∀ p ∈ points, p < 0x80) :
    ({ points := points } : State).Ordered where
  place := Nat.zero_le _
  upper p hp := Nat.le_of_lt (h p hp)
  behind p hp := h p hp

theorem Ordered.put {st : State} (h : st.Ordered) (delta : Nat) : (st.put delta).Ordered := by
  obtain ⟨front, back, hpoints, hfront, hput, hi⟩ := st.put_eq delta
  have hn := st.le_n_put delta
  -- Either the code point is a larger one, or the index is not before that of the last insertion.
  have hback : ∀ p ∈ back, p < (st.put delta).n := by
    intro p hp
    by_cases hsame : st.i + delta < st.points.length + 1
    · rw [Nat.mod_eq_of_lt hsame] at hfront
      have hdrop : p ∈ st.points.drop st.i := by
        rw [hpoints, List.drop_append_of_le_length (by omega)]
        exact List.mem_append_right _ hp
      exact Nat.lt_of_lt_of_le (h.behind p hdrop) hn
    · have hlarger : 0 < (st.i + delta) / (st.points.length + 1) :=
        Nat.div_pos (Nat.le_of_not_lt hsame) (Nat.succ_pos _)
      have hle := h.upper p (by rw [hpoints]; exact List.mem_append_right _ hp)
      have heq : (st.put delta).n = st.n + (st.i + delta) / (st.points.length + 1) := rfl
      omega
  refine ⟨?_, fun p hp => ?_, fun p hp => ?_⟩
  · rw [hput, hi, List.length_append, List.length_cons]
    omega
  · rw [hput] at hp
    rcases List.mem_append.mp hp with hp | hp
    · exact Nat.le_trans (h.upper p (by rw [hpoints]; exact List.mem_append_left _ hp)) hn
    · rcases List.mem_cons.mp hp with rfl | hp
      · exact Nat.le_refl _
      · exact Nat.le_of_lt (hback p hp)
  · rw [drop_put hput hi] at hp
    exact hback p hp

theorem Ordered.putAll (deltas : List Nat) : ∀ {st : State}, st.Ordered →
    (st.putAll deltas).Ordered := by
  induction deltas with
  | nil => exact fun h => h
  | cons delta deltas ih => exact fun h => ih (h.put delta)

/-- The last insertion can be seen in the list, and so can the list before it. -/
theorem Ordered.last {st st' : State} (h : st.Ordered) (h' : st'.Ordered) {d e : Nat}
    (heq : (st.put d).points = (st'.put e).points) :
    st.points = st'.points ∧ (st.put d).n = (st'.put e).n ∧ (st.put d).i = (st'.put e).i := by
  obtain ⟨front, back, hpoints, -, hput, hi⟩ := st.put_eq d
  obtain ⟨front', back', hpoints', -, hput', hi'⟩ := st'.put_eq e
  have hn : (st.put d).n = (st'.put e).n := by
    have hle := (h'.put e).upper _ (heq ▸ st.n_mem_put d)
    have hge := (h.put d).upper _ (heq ▸ st'.n_mem_put e)
    omega
  have hback : (st.put d).n ∉ back := by
    intro hmem
    refine Nat.lt_irrefl _ ((h.put d).behind _ ?_)
    rwa [drop_put hput hi]
  have hback' : (st.put d).n ∉ back' := by
    rw [hn]
    intro hmem
    refine Nat.lt_irrefl _ ((h'.put e).behind _ ?_)
    rwa [drop_put hput' hi']
  rw [hput, hput', ← hn] at heq
  obtain ⟨rfl, rfl⟩ := divides_at_last hback hback' heq
  exact ⟨hpoints.trans hpoints'.symm, hn, hi.trans hi'.symm⟩

/-- A place is so many places on from another one in one way only. -/
theorem put_injective {st : State} {d e : Nat} (hn : (st.put d).n = (st.put e).n)
    (hi : (st.put d).i = (st.put e).i) : d = e := by
  have hdiv : (st.i + d) / (st.points.length + 1) = (st.i + e) / (st.points.length + 1) :=
    Nat.add_left_cancel hn
  have hmod : (st.i + d) % (st.points.length + 1) = (st.i + e) % (st.points.length + 1) :=
    Nat.add_right_cancel hi
  have hd := Nat.div_add_mod (st.i + d) (st.points.length + 1)
  rw [hdiv, hmod, Nat.div_add_mod] at hd
  omega

/-- **The list tells the numbers of all insertions.** The induction takes the insertions off from the last
one. -/
theorem putAll_injective {st : State} (h : st.Ordered) (ds : List Nat) : ∀ es : List Nat,
    (st.putAll ds).points = (st.putAll es).points → ds = es := by
  induction ds using List.reverseRecOn with
  | nil =>
    intro es heq
    have hlength := congrArg List.length heq
    rw [length_putAll, length_putAll, List.length_nil] at hlength
    exact (List.length_eq_zero_iff.mp (by omega)).symm
  | append_singleton ds d ih =>
    intro es heq
    cases es using List.reverseRecOn with
    | nil =>
      have hlength := congrArg List.length heq
      rw [length_putAll, length_putAll, List.length_append, List.length_nil] at hlength
      simp at hlength
    | append_singleton es e =>
      rw [putAll_concat, putAll_concat] at heq
      obtain ⟨hpoints, hn, hi⟩ := (h.putAll ds).last (h.putAll es) heq
      obtain rfl := ih es hpoints
      rw [put_injective hn hi]

end State

end Demangle.Punycode
