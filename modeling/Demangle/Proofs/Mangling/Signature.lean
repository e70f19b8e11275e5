import Demangle.Proofs.Mangling.Record

/-!
# Generic signatures

A signature has a parameter count for each depth and a list of requirements. The requirements stand before
the operator, the counts after it, up to an `l`:

    requirements r counts l

A signature with one parameter is also spelled by the `l` alone. The requirements are popped from the last to
the first, and come out in the order in which they were pushed; the counts are the numbers that were spelled,
up to the greatest of 64 bits:

    operator s = .ok g.tree { s with cursor behind a spelling of g, operands := base }  (operator_signature)
-/

namespace Demangle

open Symbol Decode

/-! ## Signatures and their spellings -/

/-- How an index is spelled. -/
def indexLetters (n : UInt64) : List Char :=
  match n.toNat with
  | 0 => ['_']
  | m + 1 => Nat.toDigits 10 m ++ ['_']

/-- How a parameter count is spelled. -/
def countLetters (n : UInt64) : List Char :=
  match n.toNat with
  | 0 => ['z']
  | 1 => ['_']
  | m + 2 => Nat.toDigits 10 m ++ ['_']

/-- A signature: how many parameters there are at each depth, and what is required of them. -/
structure GenericSignature where
  counts : List UInt64
  requirements : List Symbol
  areRequirements : ∀ r ∈ requirements, r.kind.isRequirement = true

namespace GenericSignature

/-- The letters of the counts, up to the end. -/
def letters (g : GenericSignature) : List Char :=
  g.counts.flatMap countLetters ++ ['l']

/-- The spellings of the signature behind its requirements. One parameter needs no count. -/
def spellings (g : GenericSignature) : List String :=
  String.ofList ('r' :: g.letters) :: if g.counts = [1] then ["l"] else []

/-- The tree of the signature: the counts, then the requirements in the order in which they were pushed. -/
def tree (g : GenericSignature) : Symbol :=
  node .dependentGenericSignature
    (g.counts.map (ofIndex .dependentGenericParamCount) ++ g.requirements)

end GenericSignature

namespace Decode

variable {rest : List Cell}

/-! ## Counts -/

theorem lift_bind {α β : Type} (x : Scan α) (f : α → Scan β) :
    (liftM (x >>= f) : Decode β) = liftM x >>= fun a => liftM (f a) := by
  funext s
  show (MonadLift.monadLift (x >>= f) : Decode β) s =
    EStateM.bind (MonadLift.monadLift x) (fun a => MonadLift.monadLift (f a)) s
  simp only [MonadLift.monadLift, Bind.bind, EStateM.bind]
  cases x s.cursor with
  | ok a c => rfl
  | error e c => rfl

theorem reads_integer (n : UInt64) {x : Cell} {r : List Cell} (hx : x.isDigit = false) :
    Reads Scan.integer (Nat.toDigits 10 n.toNat) (x :: r) n := by
  rw [Scan.integer, lift_bind]
  intro s hs
  exact bind_ok (reads_integer? (some n) hx s hs) _

/-- A decimal number starts with no letter other than a digit. -/
theorem head_digits (m : Nat) {c : Char} (hc : c.isDigit = false) (others : List Char) :
    ∀ x ∈ ((Nat.toDigits 10 m ++ others).map Cell.ascii ++ rest).head?, x.letter ≠ c := by
  obtain ⟨d, ds, hd⟩ : ∃ d ds, Nat.toDigits 10 m = d :: ds :=
    List.exists_cons_of_ne_nil Nat.toDigits_ne_nil
  have hdigit : d.isDigit = true :=
    Nat.isDigit_of_mem_toDigits (by decide) (by decide) (hd ▸ List.mem_cons_self)
  intro x hx
  rw [hd] at hx
  obtain rfl : Cell.ascii d = x := Option.some.inj hx
  rw [Cell.letter_ascii (Cell.low_of_isDigit_char hdigit)]
  rintro rfl
  rw [hdigit] at hc
  cases hc

/-- An index is read back from its spelling, the greatest of 64 bits included. -/
theorem reads_index (n : UInt64) : Reads Scan.index (indexLetters n) rest n := by
  rw [Scan.index, lift_bind, indexLetters]
  split
  · next hzero =>
    obtain rfl : 0 = n := UInt64.toNat_inj.mp hzero.symm
    exact reads_accept.bind (.pure 0)
  · next m hm =>
    have hm : n.toNat = m + 1 := hm
    have hsmall : m + 1 < UInt64.size := hm ▸ n.toNat_lt_size
    have hvalue : (UInt64.ofNat m).toNat = m := UInt64.toNat_ofNat_of_lt' (by omega)
    have hnext : UInt64.ofNat m + 1 = n := by
      apply UInt64.toNat_inj.mp
      rw [UInt64.toNat_add, hvalue, hm]
      exact Nat.mod_eq_of_lt hsmall
    have hmiss : Reads (Scan.accept '_') []
        ((Nat.toDigits 10 m ++ ['_']).map Cell.ascii ++ rest) false :=
      reads_accept_miss (by decide) (head_digits m (by decide) ['_'])
    have hinteger : Reads Scan.integer (Nat.toDigits 10 m) (Cell.ascii '_' :: rest) (.ofNat m) := by
      have h := reads_integer (.ofNat m) (x := Cell.ascii '_') (r := rest) (by decide)
      rwa [hvalue] at h
    refine hmiss.bind_nil ?_
    simp only [Bool.false_eq_true, if_false, lift_bind]
    have hlast : Reads (liftM (if (UInt64.ofNat m).toNat + 1 < UInt64.size then
        pure (UInt64.ofNat m + 1) else Scan.fail .overflow : Scan UInt64)) [] rest n := by
      rw [hvalue, if_pos hsmall, hnext]
      exact .pure n
    exact hinteger.bind (reads_expect.bind hlast)

/-- A count other than 0 is spelled as the index before it. -/
theorem countLetters_succ {n : UInt64} (hn : n ≠ 0) :
    countLetters n = indexLetters (n - 1) ∧ saturatingSucc (n - 1) = n := by
  have hpos : n.toNat ≠ 0 := fun h => hn (UInt64.toNat_inj.mp h)
  have hpred : (n - 1).toNat = n.toNat - 1 := by
    rw [UInt64.toNat_sub_of_le]
    · rfl
    · rw [UInt64.le_iff_toNat_le]
      exact Nat.one_le_iff_ne_zero.mpr hpos
  constructor
  · unfold countLetters indexLetters
    rw [hpred]
    split
    · next h => exact absurd h hpos
    · next h => rw [h]; rfl
    · next m h => rw [h]; rfl
  · have hsmall := n.toNat_lt_size
    unfold saturatingSucc
    rw [hpred, if_pos (by omega), UInt64.sub_add_cancel]

/-- One count of a signature. -/
def spelledCount : Decode UInt64 := do
  if ← Scan.accept 'z' then pure 0 else saturatingSucc <$> Scan.index

theorem parameterCounts_succ (fuel : Nat) : parameterCounts (fuel + 1) = do
    if ← Scan.accept 'l' then return []
    let count ← spelledCount
    return count :: (← parameterCounts fuel) := by
  simp only [parameterCounts, spelledCount, bind_assoc]
  refine bind_congr fun last => ?_
  split
  · rfl
  · refine bind_congr fun zero => ?_
    cases zero <;> rfl

/-- A count is read back from its spelling: both steps from an index to a count are exact. -/
theorem reads_spelledCount (n : UInt64) : Reads spelledCount (countLetters n) rest n := by
  by_cases hn : n = 0
  · subst hn
    exact reads_accept.bind (.pure 0)
  · obtain ⟨hletters, hsucc⟩ := countLetters_succ hn
    rw [hletters]
    have hmiss : Reads (Scan.accept 'z') [] ((indexLetters (n - 1)).map Cell.ascii ++ rest) false := by
      refine reads_accept_miss (by decide) ?_
      unfold indexLetters
      split
      · intro x hx
        cases hx
        decide
      · next m _ => exact head_digits m (by decide) ['_']
    refine hmiss.bind_nil ?_
    simp only [Bool.false_eq_true, if_false]
    have hindex : Reads (saturatingSucc <$> liftM Scan.index) (indexLetters (n - 1)) rest
        (saturatingSucc (n - 1)) := (reads_index (n - 1)).map saturatingSucc
    rwa [hsucc] at hindex

theorem head_count (n : UInt64) (others : List Char) :
    ∀ x ∈ ((countLetters n ++ others).map Cell.ascii ++ rest).head?, x.letter ≠ 'l' := by
  unfold countLetters
  split
  · intro x hx
    cases hx
    decide
  · intro x hx
    cases hx
    decide
  · next m _ =>
    rw [List.append_assoc]
    exact head_digits m (by decide) _

/-- Counts are read up to the end. -/
theorem reads_parameterCounts (counts : List UInt64) : ∀ fuel, counts.length < fuel →
    Reads (parameterCounts fuel) (counts.flatMap countLetters ++ ['l']) rest counts := by
  induction counts with
  | nil =>
    intro fuel hfuel
    obtain ⟨fuel, rfl⟩ : ∃ m, fuel = m + 1 := ⟨fuel - 1, by simp at hfuel; omega⟩
    rw [parameterCounts_succ]
    exact reads_accept.bind (.pure [])
  | cons n counts ih =>
    intro fuel hfuel
    obtain ⟨fuel, rfl⟩ : ∃ m, fuel = m + 1 := ⟨fuel - 1, by simp at hfuel; omega⟩
    have hcounts := (ih fuel (by simpa using hfuel)).map (n :: ·)
    rw [parameterCounts_succ, List.flatMap_cons, List.append_assoc]
    refine (reads_accept_miss (c := 'l') (by decide) (head_count n _)).bind_nil ?_
    exact (reads_spelledCount n).bind hcounts

/-! ## The operators -/

theorem length_lt_letters (g : GenericSignature) : g.counts.length < g.letters.length := by
  have hne : ∀ n, countLetters n ≠ [] := by
    intro n
    unfold countLetters
    split <;> simp
  have hle := length_le_flatMap hne g.counts
  rw [GenericSignature.letters, List.length_append, List.length_singleton]
  omega

/-- The requirements are popped, and put behind the counts in the order in which they were pushed. -/
theorem popSignatureWith_eval (g : GenericSignature) {s : State} {base : List Symbol}
    (ho : s.operands = g.requirements.reverse ++ base)
    (hbase : ∀ x ∈ base.head?, x.kind.isRequirement = false) :
    popSignatureWith g.counts s = .ok g.tree { s with operands := base } := by
  have hpop := popWhile_eval ho (fun r hr => g.areRequirements r (List.mem_reverse.mp hr)) hbase
  unfold popSignatureWith
  rw [bind_ok hpop, List.reverse_reverse]
  rfl

theorem countedSignature_eval (g : GenericSignature) {s : State} {base : List Symbol}
    (hs : s.cursor.rest = g.letters.map Cell.ascii ++ rest)
    (ho : s.operands = g.requirements.reverse ++ base)
    (hbase : ∀ x ∈ base.head?, x.kind.isRequirement = false) :
    countedSignature s = .ok g.tree
      { s with cursor := s.cursor.advance g.letters.length, operands := base } := by
  have hfuel : g.counts.length < s.cursor.rest.length := by
    have hlt := length_lt_letters g
    rw [hs, List.length_append, List.length_map]
    omega
  have hremaining : (liftM Scan.remaining : Decode Nat) s = .ok s.cursor.rest.length s := lift_ok rfl
  unfold countedSignature
  rw [bind_ok hremaining, bind_ok (reads_parameterCounts g.counts _ hfuel s hs)]
  exact popSignatureWith_eval g ho hbase

theorem low_countLetters (n : UInt64) : ∀ c ∈ countLetters n, c.toNat < 0x80 := by
  intro c hc
  unfold countLetters at hc
  split at hc
  · rw [List.mem_singleton.mp hc]
    decide
  · rw [List.mem_singleton.mp hc]
    decide
  · rcases List.mem_append.mp hc with hc | hc
    · exact Cell.low_of_isDigit_char (Nat.isDigit_of_mem_toDigits (by decide) (by decide) hc)
    · rw [List.mem_singleton.mp hc]
      decide

theorem low_signatureCounts (g : GenericSignature) : ∀ c ∈ g.letters, c.toNat < 0x80 := by
  intro c hc
  rcases List.mem_append.mp hc with hc | hc
  · obtain ⟨n, -, hn⟩ := List.mem_flatMap.mp hc
    exact low_countLetters n c hn
  · rw [List.mem_singleton.mp hc]
    decide

/-- The operator that spells the counts out. -/
theorem operator_counted (g : GenericSignature) {s : State} {base : List Symbol}
    (hs : s.cursor.rest = Cell.ofString (String.ofList ('r' :: g.letters)) ++ rest)
    (ho : s.operands = g.requirements.reverse ++ base)
    (hbase : ∀ x ∈ base.head?, x.kind.isRequirement = false) :
    operator s = .ok g.tree
      { s with
        cursor := s.cursor.advance (Cell.ofString (String.ofList ('r' :: g.letters))).length
        operands := base } := by
  have hcells : Cell.ofString (String.ofList ('r' :: g.letters)) =
      Cell.ascii 'r' :: g.letters.map Cell.ascii :=
    Cell.ofString_ofList (List.forall_mem_cons.mpr ⟨by decide, low_signatureCounts g⟩)
  rw [hcells] at hs ⊢
  have hrest := Cursor.rest_advance_one hs
  have heval := countedSignature_eval g (s := { s with cursor := s.cursor.advance 1 }) hrest ho hbase
  rw [operator_letter (c := 'r') rfl hs, heval, Cursor.advance_advance, List.length_cons,
    List.length_map, Nat.add_comm]

/-- The operator that stands for one parameter. -/
theorem operator_single (g : GenericSignature) (hone : g.counts = [1]) {s : State} {base : List Symbol}
    (hs : s.cursor.rest = Cell.ofString "l" ++ rest)
    (ho : s.operands = g.requirements.reverse ++ base)
    (hbase : ∀ x ∈ base.head?, x.kind.isRequirement = false) :
    operator s = .ok g.tree
      { s with cursor := s.cursor.advance (Cell.ofString "l").length, operands := base } := by
  have heval := popSignatureWith_eval g (s := { s with cursor := s.cursor.advance 1 }) ho hbase
  rw [hone] at heval
  exact (operator_letter (c := 'l') rfl hs).trans heval

/-- **Signatures keep their counts and requirements in order**: behind the requirements, each spelling of a
signature leaves what is below them, and gives the tree with exactly the counts that are spelled and with
the requirements in the order in which they were pushed. No other requirement may be on top. -/
theorem operator_signature (g : GenericSignature) {spelling : String} {s : State} {base : List Symbol}
    (hspelling : spelling ∈ g.spellings) (hs : s.cursor.rest = Cell.ofString spelling ++ rest)
    (ho : s.operands = g.requirements.reverse ++ base)
    (hbase : ∀ x ∈ base.head?, x.kind.isRequirement = false) :
    operator s = .ok g.tree
      { s with cursor := s.cursor.advance (Cell.ofString spelling).length, operands := base } := by
  unfold GenericSignature.spellings at hspelling
  rcases List.mem_cons.mp hspelling with rfl | hspelling
  · exact operator_counted g hs ho hbase
  · obtain ⟨hone, hspelling⟩ := List.mem_ite_nil_right.mp hspelling
    obtain rfl := List.mem_singleton.mp hspelling
    exact operator_single g hone hs ho hbase

/-- A signature with the given counts and two requirements. -/
def sampleSignature (counts : List UInt64) : GenericSignature where
  counts
  requirements := [node .dependentGenericConformanceRequirement [leaf .type],
    node .dependentGenericSameTypeRequirement [leaf .type]]
  areRequirements := by decide

theorem operator_signature_sample :
    let first := node .dependentGenericConformanceRequirement [leaf .type]
    let second := node .dependentGenericSameTypeRequirement [leaf .type]
    let count := ofIndex .dependentGenericParamCount
    let s : State := { State.ofString "rz_0_18446744073709551613_lF" with
      operands := [second, first, leaf .emptyList] }
    let t : State := { s with cursor := .ofString "lF" }
    operator s = .ok
      (node .dependentGenericSignature
        [count 0, count 1, count 2, count 18446744073709551615, first, second])
      { s with cursor := s.cursor.advance 27, operands := [leaf .emptyList] } ∧
    operator t = .ok (node .dependentGenericSignature [count 1, first, second])
      { t with cursor := t.cursor.advance 1, operands := [leaf .emptyList] } := by
  intro first second count s t
  have hbase : ∀ x ∈ [leaf .emptyList].head?, x.kind.isRequirement = false := by
    intro x hx
    cases hx
    rfl
  have hcounts : "rz_0_18446744073709551613_l" ∈
      (sampleSignature [0, 1, 2, 18446744073709551615]).spellings := by decide +kernel
  have hone : "l" ∈ (sampleSignature [1]).spellings := by decide +kernel
  have hs : s.cursor.rest = Cell.ofString "rz_0_18446744073709551613_l" ++ Cell.ofString "F" := by
    decide +kernel
  have hlength : (Cell.ofString "rz_0_18446744073709551613_l").length = 27 := by decide +kernel
  have ht : t.cursor.rest = Cell.ofString "l" ++ Cell.ofString "F" := by decide +kernel
  have ho : s.operands = [first, second].reverse ++ [leaf .emptyList] := rfl
  have hlong := operator_signature _ hcounts hs ho hbase
  rw [hlength] at hlong
  exact ⟨hlong, operator_signature _ hone ht ho hbase⟩

end Decode

end Demangle
