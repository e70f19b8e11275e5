import Demangle.Proofs.Mangling.Record
import Demangle.Proofs.Operator.Loops

/-!
# Runs of back-references

A run names nodes that appeared before: each entry is a letter, with a number of copies in front of it. The
letter of the last entry is an upper-case one. Reading a run pushes the copies of its entries in order and
returns the last one of all; an entry without a node, or with more copies than are allowed, is refused before
any of its copies is pushed:

    rs.flatMap (·.named s.substitutions) = pushed ++ [x] →
      operator s = .ok x { s with operands := pushed.reverse ++ s.operands, … }     (operator_backReference)

The loop reads one entry after the other (`allReferences_entry`), so it reads all that come before the last
one or before the first one that is refused (`allReferences_run`).
-/

namespace Demangle

open Symbol

/-! ## Entries -/

/-- An entry of a run: the place of a node in the table of substitutions, and how often it is named. -/
structure BackReference where
  count : Option UInt64
  index : Fin 26

namespace BackReference

/-- The letter of the entry, which tells whether it is the last one. -/
def letter (last : Bool) (r : BackReference) : Char :=
  Char.ofNat ((if last then 'A' else 'a').toNat + r.index)

/-- How a count is spelled. -/
def countLetters (count : Option UInt64) : List Char :=
  count.elim [] (Nat.toDigits 10 ·.toNat)

/-- How the entry is spelled. -/
def letters (last : Bool) (r : BackReference) : List Char :=
  countLetters r.count ++ [r.letter last]

/-- The number of copies. No count and a count of 0 mean one. -/
def copies (r : BackReference) : Nat :=
  max 1 (r.count.getD 0).toNat

/-- The entry is refused: its place is not in the table, or it is named too often. -/
def Fails (table : Array Symbol) (r : BackReference) : Prop :=
  table.size ≤ r.index ∨ 2048 < (r.count.getD 0).toNat

instance (table : Array Symbol) (r : BackReference) : Decidable (r.Fails table) :=
  inferInstanceAs (Decidable (_ ∨ _))

/-- What the entry stands for. -/
def named (table : Array Symbol) (r : BackReference) : List Symbol :=
  table[r.index.val]?.elim [] (List.replicate r.copies)

/-- How the entries of a run are spelled. -/
def runLetters : List BackReference → List Char
  | [] => []
  | [r] => r.letters true
  | r :: rs => r.letters false ++ runLetters rs

/-- A run with its operator. -/
def spelling (rs : List BackReference) : String :=
  String.ofList ('A' :: runLetters rs)

/-- The number in front of `_` that names the node at place `i`, where no letter reaches. -/
def beyondCount (i : UInt64) : Option UInt64 :=
  if i = 26 then none else some (i - 27)

/-- The reference to such a node, with its operator. -/
def beyondSpelling (i : UInt64) : String :=
  String.ofList ('A' :: (countLetters (beyondCount i) ++ ['_']))

/-- All entries but the last one are spelled alike. -/
theorem runLetters_append (before : List BackReference) (r : BackReference)
    (after : List BackReference) : runLetters (before ++ r :: after) =
      before.flatMap (letters false) ++ (r.letters after.isEmpty ++ runLetters after) := by
  induction before with
  | nil =>
    cases after with
    | nil => simp [runLetters]
    | cons a as => simp [runLetters]
  | cons b before ih =>
    obtain ⟨c, cs, hc⟩ : ∃ c cs, before ++ r :: after = c :: cs :=
      List.exists_cons_of_ne_nil (by simp)
    rw [List.cons_append, hc, runLetters.eq_3 _ _ (by simp), ← hc, ih, List.flatMap_cons,
      List.append_assoc]

theorem letter_low (last : Bool) (r : BackReference) : (r.letter last).toNat < 0x80 := by
  have hall : ∀ (last : Bool) (i : Fin 26),
      (Char.ofNat ((if last then 'A' else 'a').toNat + i)).toNat < 0x80 := by decide
  exact hall last r.index

theorem low_countLetters (count : Option UInt64) : ∀ c ∈ countLetters count, c.toNat < 0x80 := by
  intro c hc
  cases count with
  | none => cases hc
  | some n =>
    exact Cell.low_of_isDigit_char (Nat.isDigit_of_mem_toDigits (by decide) (by decide) hc)

theorem low_letters (last : Bool) (r : BackReference) : ∀ c ∈ r.letters last, c.toNat < 0x80 := by
  intro c hc
  rcases List.mem_append.mp hc with hc | hc
  · exact low_countLetters r.count c hc
  · rw [List.mem_singleton.mp hc]
    exact r.letter_low last

theorem low_runLetters (rs : List BackReference) : ∀ c ∈ runLetters rs, c.toNat < 0x80 := by
  fun_induction runLetters rs with
  | case1 => simp
  | case2 r => exact r.low_letters true
  | case3 r rs _ ih =>
    intro c hc
    rcases List.mem_append.mp hc with hc | hc
    · exact r.low_letters false c hc
    · exact ih c hc

theorem ofString_spelling (rs : List BackReference) :
    Cell.ofString (spelling rs) = ('A' :: runLetters rs).map Cell.ascii := by
  refine Cell.ofString_ofList fun c hc => ?_
  rcases List.mem_cons.mp hc with rfl | hc
  · decide
  · exact low_runLetters rs c hc

theorem ofString_beyondSpelling (i : UInt64) : Cell.ofString (beyondSpelling i) =
    ('A' :: (countLetters (beyondCount i) ++ ['_'])).map Cell.ascii := by
  refine Cell.ofString_ofList fun c hc => ?_
  rcases List.mem_cons.mp hc with rfl | hc
  · decide
  rcases List.mem_append.mp hc with hc | hc
  · exact low_countLetters _ c hc
  · rw [List.mem_singleton.mp hc]
    decide

/-- The number in front of `_` tells the place. -/
theorem toNat_eq_beyondCount {i : UInt64} (hi : 26 ≤ i.toNat) :
    i.toNat = (beyondCount i).elim 26 (·.toNat + 27) := by
  unfold beyondCount
  split
  · next h => rw [h]; rfl
  · next h =>
    have hne : i.toNat ≠ 26 := fun heq => h (UInt64.toNat_inj.mp heq)
    have hle : (27 : UInt64) ≤ i := by
      rw [UInt64.le_iff_toNat_le]
      show 27 ≤ i.toNat
      omega
    rw [Option.elim_some, UInt64.toNat_sub_of_le _ _ hle]
    show i.toNat = i.toNat - 27 + 27
    omega

end BackReference

namespace Decode

open BackReference

variable {s : State} {rest : List Cell}

/-! ## One entry -/

/-- Reads a run of back-references to its end. -/
def allReferences (count : Option UInt64) : Decode Symbol :=
  fun s => references s.cursor.rest.length count s

theorem allReferences_round (count : Option UInt64) :
    allReferences count s = referenceRound allReferences count s :=
  terminates_references.unroll count s

/-- A number, if there is one, becomes the count of what follows. -/
theorem allReferences_count (count : Option UInt64) {x : Cell} {r : List Cell}
    (hx : x.isDigit = false) (h : s.cursor.rest = (countLetters count).map Cell.ascii ++ x :: r) :
    allReferences none s =
      allReferences count { s with cursor := s.cursor.advance (countLetters count).length } := by
  have hread : (Scan.integer? : Decode (Option UInt64)) s = _ := reads_integer? count hx s h
  cases count with
  | none =>
    simp only [countLetters, Option.elim_none, List.length_nil, Cursor.advance_zero]
  | some n =>
    obtain ⟨d, ds, hd⟩ : ∃ d ds, countLetters (some n) = d :: ds :=
      List.exists_cons_of_ne_nil Nat.toDigits_ne_nil
    have hdigit : d.isDigit = true := by
      have hmem : d ∈ countLetters (some n) := by
        rw [hd]
        exact List.mem_cons_self
      exact Nat.isDigit_of_mem_toDigits (by decide) (by decide) hmem
    have hpeek : Scan.peek? s.cursor = .ok (some d) s.cursor := by
      rw [hd] at h
      exact Scan.peek?_ascii (Cell.low_of_isDigit_char hdigit) h
    rw [allReferences_round]
    unfold referenceRound
    rw [bind_ok (lift_ok hpeek)]
    simp only [Option.bind_some, referenceStep?_digit hdigit]
    rw [bind_ok hread]
    rfl

theorem referenceStep?_letter (last : Bool) (r : BackReference) :
    referenceStep? (r.letter last) = some (.entry r.index last) := by
  have hall : ∀ (last : Bool) (i : Fin 26),
      referenceStep? (Char.ofNat ((if last then 'A' else 'a').toNat + i)) =
        some (.entry i.val last) := by decide
  exact hall last r.index

/-- What is done for an entry after its letter. -/
def nameEntry (last : Bool) (r : BackReference) : Decode Symbol := do
  let x ← pushRepeated r.count (← substitution r.index)
  if last then return x
  push x
  allReferences none

/-- The letter of an entry after its count. -/
theorem allReferences_letter {last : Bool} {r : BackReference}
    (h : s.cursor.rest = Cell.ascii (r.letter last) :: rest) :
    allReferences r.count s = nameEntry last r { s with cursor := s.cursor.advance 1 } := by
  have hpeek := Scan.peek?_ascii (r.letter_low last) h
  rw [allReferences_round]
  unfold referenceRound
  rw [bind_ok (lift_ok hpeek)]
  simp only [Option.bind_some, referenceStep?_letter]
  exact bind_ok (lift_ok (Scan.next_cons h)) _

/-- **An entry is read with its count.** -/
theorem allReferences_entry {last : Bool} {r : BackReference}
    (h : s.cursor.rest = (r.letters last).map Cell.ascii ++ rest) :
    allReferences none s =
      nameEntry last r { s with cursor := s.cursor.advance (r.letters last).length } := by
  have hnondigit : (Cell.ascii (r.letter last)).isDigit = false := by
    have hall : ∀ (last : Bool) (i : Fin 26),
        (Char.ofNat ((if last then 'A' else 'a').toNat + i)).isDigit = false := by decide
    rw [Cell.isDigit_ascii (r.letter_low last)]
    exact hall last r.index
  simp only [letters, List.map_append, List.map_cons, List.map_nil, List.append_assoc,
    List.singleton_append] at h
  have hrest := Cursor.rest_advance h
  rw [List.length_map] at hrest
  rw [allReferences_count r.count hnondigit h, allReferences_letter hrest, Cursor.advance_advance,
    letters, List.length_append]
  rfl

/-! ## What an entry names -/

theorem substitution_eval {i : Nat} {x : Symbol} (hx : s.substitutions[i]? = some x) :
    substitution i s = .ok x s := by
  unfold substitution
  rw [bind_ok (show (get : Decode State) s = .ok s s from rfl), hx]
  rfl

theorem substitution_missing {i : Nat} (hi : s.substitutions.size ≤ i) :
    substitution i s = .error ⟨.malformed, s.cursor.position⟩ s := by
  unfold substitution
  rw [bind_ok (show (get : Decode State) s = .ok s s from rfl), Array.getElem?_eq_none hi]
  rfl

theorem le_repeatLimit {n : UInt64} : n ≤ repeatLimit ↔ n.toNat ≤ 2048 := by
  rw [UInt64.le_iff_toNat_le]
  rfl

/-- An entry that is not refused pushes all its copies but the last one, which it returns. -/
theorem nameEntry_named {r : BackReference} (hr : ¬r.Fails s.substitutions) :
    ∃ x, r.named s.substitutions = List.replicate (r.copies - 1) x ++ [x] ∧ ∀ last : Bool,
      nameEntry last r s =
        (if last then pure x else push x >>= fun _ => allReferences none : Decode Symbol)
          { s with operands := List.replicate (r.copies - 1) x ++ s.operands } := by
  have hindex : r.index < s.substitutions.size := by
    by_contra h
    exact hr (.inl (Nat.le_of_not_lt h))
  have hcount : (r.count.getD 0).toNat ≤ 2048 := by
    by_contra h
    exact hr (.inr (Nat.lt_of_not_le h))
  obtain ⟨x, hx⟩ : ∃ x, s.substitutions[r.index.val]? = some x := ⟨_, Array.getElem?_eq_getElem hindex⟩
  have hcopies : r.copies = (r.copies - 1) + 1 := by
    rw [copies]
    omega
  have hpushed : (r.count.getD 0).toNat - 1 = r.copies - 1 := by
    rw [copies]
    omega
  have hlimit : decide (r.count.getD 0 ≤ repeatLimit) = true := decide_eq_true (le_repeatLimit.mpr hcount)
  have hrepeat : pushRepeated r.count x s =
      .ok x { s with operands := List.replicate (r.copies - 1) x ++ s.operands } := by
    unfold pushRepeated
    rw [hlimit, hpushed]
    rfl
  refine ⟨x, ?_, fun last => ?_⟩
  · rw [named, hx, Option.elim_some, hcopies, List.replicate_succ']
    simp
  · unfold nameEntry
    rw [bind_ok (substitution_eval hx), bind_ok hrepeat]

/-- An entry that is refused pushes nothing. -/
theorem nameEntry_fails {r : BackReference} (hr : r.Fails s.substitutions) (last : Bool) :
    nameEntry last r s = .error ⟨.malformed, s.cursor.position⟩ s := by
  by_cases hindex : s.substitutions.size ≤ r.index
  · exact bind_error (substitution_missing hindex) _
  · have hx := Array.getElem?_eq_getElem (Nat.lt_of_not_le hindex)
    have hcount : ¬(r.count.getD 0).toNat ≤ 2048 := by
      rcases hr with hr | hr
      · exact absurd hr hindex
      · exact Nat.not_le_of_lt hr
    have hlimit : decide (r.count.getD 0 ≤ repeatLimit) = false :=
      decide_eq_false (mt le_repeatLimit.mp hcount)
    unfold nameEntry
    rw [bind_ok (substitution_eval hx)]
    refine bind_error ?_ _
    unfold pushRepeated
    rw [hlimit]
    rfl

/-! ## All entries -/

/-- **Entry after entry pushes what it names**, as long as none is refused. -/
theorem allReferences_run (rs : List BackReference) : ∀ s : State,
    (∀ r ∈ rs, ¬r.Fails s.substitutions) →
    s.cursor.rest = (rs.flatMap (letters false)).map Cell.ascii ++ rest →
    allReferences none s = allReferences none { s with
      cursor := s.cursor.advance (rs.flatMap (letters false)).length
      operands := (rs.flatMap (named s.substitutions)).reverse ++ s.operands } := by
  induction rs with
  | nil =>
    intro s _ _
    rw [List.flatMap_nil, List.length_nil, Cursor.advance_zero]
    rfl
  | cons r rs ih =>
    intro s hrs h
    obtain ⟨hr, hrs⟩ := List.forall_mem_cons.mp hrs
    rw [List.flatMap_cons, List.map_append, List.append_assoc] at h
    have hrest := Cursor.rest_advance h
    rw [List.length_map] at hrest
    let t : State := { s with cursor := s.cursor.advance (r.letters false).length }
    obtain ⟨x, hx, hname⟩ := nameEntry_named (s := t) hr
    -- the copy that the entry returns is pushed on top of the others
    have hstep : nameEntry false r t = allReferences none { t with
        operands := (r.named s.substitutions).reverse ++ s.operands } := by
      rw [hname, show r.named s.substitutions = _ from hx, List.reverse_append,
        List.reverse_singleton, List.reverse_replicate]
      rfl
    have hrun := ih { t with operands := (r.named s.substitutions).reverse ++ s.operands } hrs hrest
    rw [allReferences_entry h, hstep, hrun]
    simp only [t, Cursor.advance_advance, List.flatMap_cons, List.length_append, List.reverse_append,
      List.append_assoc]

/-- The first entry that is refused. -/
theorem exists_first_fails {table : Array Symbol} {rs : List BackReference}
    (h : ∃ r ∈ rs, r.Fails table) : ∃ before r after, rs = before ++ r :: after ∧
      r.Fails table ∧ ∀ b ∈ before, ¬b.Fails table := by
  induction rs with
  | nil => simp at h
  | cons r rs ih =>
    by_cases hr : r.Fails table
    · exact ⟨[], r, rs, rfl, hr, by simp⟩
    · have hrs : ∃ r ∈ rs, r.Fails table := by
        simpa [hr] using h
      obtain ⟨before, f, after, rfl, hf, hbefore⟩ := ih hrs
      exact ⟨r :: before, f, after, rfl, hf, List.forall_mem_cons.mpr ⟨hr, hbefore⟩⟩

/-- Up to an entry of a run, all entries before it have pushed what they name. -/
theorem operator_upTo {before after : List BackReference} {r : BackReference}
    (hbefore : ∀ b ∈ before, ¬b.Fails s.substitutions)
    (h : s.cursor.rest = Cell.ofString (spelling (before ++ r :: after)) ++ rest) :
    operator s = nameEntry after.isEmpty r { s with
      cursor := s.cursor.advance
        (1 + (before.flatMap (letters false) ++ r.letters after.isEmpty).length)
      operands := (before.flatMap (named s.substitutions)).reverse ++ s.operands } := by
  rw [ofString_spelling, runLetters_append, List.map_cons, List.map_append, List.map_append,
    List.cons_append, List.append_assoc, List.append_assoc] at h
  let t : State := { s with cursor := s.cursor.advance 1 }
  have ht : t.cursor.rest = _ := Cursor.rest_advance_one h
  have hrun := allReferences_run before t hbefore ht
  have hrest := Cursor.rest_advance ht
  rw [List.length_map] at hrest
  have hoperator : operator s = allReferences none t := operator_letter (c := 'A') rfl h
  rw [hoperator, hrun, allReferences_entry hrest]
  simp only [t, Cursor.advance_advance, List.length_append, Nat.add_assoc]

/-! ## Nodes that no letter names -/

/-- The `_` after a number, or without one, names a node beyond the letters. -/
theorem allReferences_beyond {count : Option UInt64} {i : Nat} {x : Symbol}
    (hi : i = count.elim 26 (·.toNat + 27)) (hsize : i < UInt64.size)
    (hx : s.substitutions[i]? = some x) (h : s.cursor.rest = Cell.ascii '_' :: rest) :
    allReferences count s = .ok x { s with cursor := s.cursor.advance 1 } := by
  have hpeek := Scan.peek?_ascii (a := '_') (by decide) h
  have hnext : (Scan.next : Decode UInt8) s = _ := lift_ok (Scan.next_cons h)
  have hnode := substitution_eval (s := { s with cursor := s.cursor.advance 1 }) hx
  rw [allReferences_round]
  unfold referenceRound
  rw [bind_ok (lift_ok hpeek)]
  show (Scan.next >>= _ : Decode Symbol) s = _
  rw [bind_ok hnext]
  cases count with
  | none =>
    subst hi
    exact hnode
  | some n =>
    have hfits : decide (n.toNat + 27 < UInt64.size) = true := by
      simpa [hi] using hsize
    dsimp only
    rw [hfits]
    subst hi
    exact hnode

theorem operator_beyond {i : UInt64} {x : Symbol} (hi : 26 ≤ i.toNat)
    (hx : s.substitutions[i.toNat]? = some x)
    (h : s.cursor.rest = Cell.ofString (beyondSpelling i) ++ rest) :
    operator s = .ok x
      { s with cursor := s.cursor.advance (Cell.ofString (beyondSpelling i)).length } := by
  rw [ofString_beyondSpelling] at h ⊢
  rw [List.map_cons, List.map_append, List.cons_append, List.append_assoc] at h
  let t : State := { s with cursor := s.cursor.advance 1 }
  have ht : t.cursor.rest = _ := Cursor.rest_advance_one h
  have hoperator : operator s = allReferences none t := operator_letter (c := 'A') rfl h
  have hrest := Cursor.rest_advance ht
  rw [List.length_map] at hrest
  let u : State := { t with cursor := t.cursor.advance (countLetters (beyondCount i)).length }
  have hnode := allReferences_beyond (s := u) (toNat_eq_beyondCount hi) i.toNat_lt_size hx hrest
  have hlength : (('A' :: (countLetters (beyondCount i) ++ ['_'])).map Cell.ascii).length =
      1 + (countLetters (beyondCount i)).length + 1 := by
    simp
    omega
  rw [hoperator, allReferences_count _ (by decide) ht, hlength, ← Cursor.advance_advance,
    ← Cursor.advance_advance]
  exact hnode

/-! ## The operator -/

/-- **Back-references push exactly what they name.** A run of entries, none of which is refused, pushes
their copies in order, the last one of all being returned. A node that no letter names is returned, and
nothing is pushed. If an entry is refused, the operands are those of the entries before the first such one.
The tables of substitutions and words stay in all cases. -/
theorem operator_backReference (s : State) (rest : List Cell) :
    (∀ rs : List BackReference, rs ≠ [] → (∀ r ∈ rs, ¬r.Fails s.substitutions) →
      s.cursor.rest = Cell.ofString (spelling rs) ++ rest →
      ∃ pushed x, rs.flatMap (·.named s.substitutions) = pushed ++ [x] ∧
        operator s = .ok x { s with
          cursor := s.cursor.advance (Cell.ofString (spelling rs)).length
          operands := pushed.reverse ++ s.operands }) ∧
    (∀ (i : UInt64) (x : Symbol), 26 ≤ i.toNat → s.substitutions[i.toNat]? = some x →
      s.cursor.rest = Cell.ofString (beyondSpelling i) ++ rest →
      operator s = .ok x { s with
        cursor := s.cursor.advance (Cell.ofString (beyondSpelling i)).length }) ∧
    ∀ rs : List BackReference, (∃ r ∈ rs, r.Fails s.substitutions) →
      s.cursor.rest = Cell.ofString (spelling rs) ++ rest →
      ∃ before r after n, rs = before ++ r :: after ∧ r.Fails s.substitutions ∧
        (∀ b ∈ before, ¬b.Fails s.substitutions) ∧
        n = 1 + (before.flatMap (letters false) ++ r.letters after.isEmpty).length ∧
        operator s = .error ⟨.malformed, (s.cursor.advance n).position⟩ { s with
          cursor := s.cursor.advance n
          operands := (before.flatMap (·.named s.substitutions)).reverse ++ s.operands } := by
  refine ⟨fun rs hne hrs h => ?_, fun i x hi hx h => operator_beyond hi hx h, fun rs hrs h => ?_⟩
  · obtain ⟨before, r, rfl⟩ : ∃ before r, rs = before ++ [r] :=
      ⟨rs.dropLast, rs.getLast hne, (List.dropLast_concat_getLast hne).symm⟩
    have hlast : ¬r.Fails s.substitutions := hrs r (by simp)
    have hbefore : ∀ b ∈ before, ¬b.Fails s.substitutions := fun b hb => hrs b (by simp [hb])
    have hlength : (Cell.ofString (spelling (before ++ [r]))).length =
        1 + (before.flatMap (letters false) ++ r.letters true).length := by
      rw [ofString_spelling, runLetters_append]
      simp [runLetters]
      omega
    let t : State := { s with
      cursor := s.cursor.advance (Cell.ofString (spelling (before ++ [r]))).length
      operands := (before.flatMap (·.named s.substitutions)).reverse ++ s.operands }
    obtain ⟨x, hx, hname⟩ := nameEntry_named (s := t) hlast
    refine ⟨before.flatMap (·.named s.substitutions) ++ List.replicate (r.copies - 1) x, x, ?_, ?_⟩
    · rw [List.flatMap_append, List.flatMap_singleton, show r.named s.substitutions = _ from hx,
        List.append_assoc]
    · have hrun := operator_upTo hbefore h
      rw [List.isEmpty_nil, ← hlength] at hrun
      rw [hrun, List.reverse_append, List.reverse_replicate, List.append_assoc]
      exact hname true
  · obtain ⟨before, r, after, rfl, hr, hbefore⟩ := exists_first_fails hrs
    refine ⟨before, r, after, _, rfl, hr, hbefore, rfl, ?_⟩
    let t : State := { s with
      cursor := s.cursor.advance
        (1 + (before.flatMap (letters false) ++ r.letters after.isEmpty).length)
      operands := (before.flatMap (·.named s.substitutions)).reverse ++ s.operands }
    rw [operator_upTo hbefore h]
    exact nameEntry_fails (s := t) hr _

/-- A table of 29 numbers. -/
def sampleTable : Array Symbol :=
  Array.ofFn fun i : Fin 29 => ofIndex .number (.ofNat i)

theorem operator_backReference_sample :
    let s (m : String) : State :=
      { State.ofString m with operands := [leaf .emptyList], substitutions := sampleTable }
    let number (i : Nat) : Symbol := ofIndex .number (.ofNat i)
    spelling [⟨some 3, 0⟩, ⟨none, 25⟩, ⟨some 0, 1⟩] = "A3az0B" ∧
    operator (s "A3az0BD") = .ok (number 1) { s "A3az0BD" with
      cursor := (s "A3az0BD").cursor.advance 6
      operands := [number 25, number 0, number 0, number 0, leaf .emptyList] } ∧
    beyondSpelling 28 = "A1_" ∧
    operator (s "A1_D") = .ok (number 28) { s "A1_D" with
      cursor := (s "A1_D").cursor.advance 3 } ∧
    spelling [⟨some 2, 0⟩, ⟨some 2049, 1⟩, ⟨none, 2⟩] = "A2a2049bC" ∧
    operator (s "A2a2049bC") = .error ⟨.malformed, 8⟩ { s "A2a2049bC" with
      cursor := (s "A2a2049bC").cursor.advance 8
      operands := [number 0, number 0, leaf .emptyList] } := by
  intro s number
  obtain ⟨pushed, x, hnamed, hrun⟩ := (operator_backReference (s "A3az0BD") (Cell.ofString "D")).1
    [⟨some 3, 0⟩, ⟨none, 25⟩, ⟨some 0, 1⟩] (by simp) (by decide +kernel) rfl
  have hcopies : [number 0, number 0, number 0, number 25] ++ [number 1] = pushed ++ [x] := hnamed
  obtain ⟨rfl, hx⟩ := List.append_inj' hcopies rfl
  cases hx
  have hbeyond := (operator_backReference (s "A1_D") (Cell.ofString "D")).2.1 28 (number 28)
    (by decide) rfl rfl
  obtain ⟨before, r, after, n, hsplit, hr, hbefore, rfl, hfails⟩ :=
    (operator_backReference (s "A2a2049bC") []).2.2 [⟨some 2, 0⟩, ⟨some 2049, 1⟩, ⟨none, 2⟩]
      ⟨⟨some 2049, 1⟩, by simp, by decide +kernel⟩ rfl
  -- the first entry is not refused and the second one is, so that is where the run stops
  rcases before with _ | ⟨p, _ | ⟨q, before⟩⟩
  · cases hsplit
    exact absurd hr (by decide +kernel)
  · cases hsplit
    exact ⟨rfl, hrun, rfl, hbeyond, rfl, hfails⟩
  · obtain rfl : ⟨some 2049, 1⟩ = q := by
      simp only [List.cons_append, List.cons.injEq] at hsplit
      exact hsplit.2.1
    exact absurd (hbefore ⟨some 2049, 1⟩ (by simp)) (by decide +kernel)

end Decode

end Demangle
