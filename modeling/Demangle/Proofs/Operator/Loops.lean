import Demangle.Proofs.Operator.Pops
import Demangle.Proofs.Punycode

/-!
# The loops of operators end

Each loop of an operator reads a byte or pops an operand in every round that is not the last one. So it
ends, and the bound on its rounds plays no part (`Terminates`).
-/

namespace Demangle

/-! ## Bytes that are read -/

theorem Cursor.rest_advance_lt {c : Cursor} (h : c.rest ≠ []) {n : Nat} (hn : 0 < n) :
    (c.advance n).rest.length < c.rest.length := by
  have hpos : 0 < c.rest.length := List.length_pos_iff.mpr h
  simp only [Cursor.advance, List.length_drop]
  omega

namespace Scan

variable {α : Type} {c d : Cursor}

theorem next_shorter {b : UInt8} (h : next c = .ok b d) : d.rest.length < c.rest.length := by
  unfold next at h
  split at h
  · next x r hr =>
    cases h
    exact Cursor.rest_advance_lt (by simp [hr]) Nat.one_pos
  · cases h

theorem accept_shorter {letter : Char} (h : accept letter c = .ok true d) :
    d.rest.length < c.rest.length := by
  unfold accept acceptByte at h
  split at h
  · next x r hr =>
    split at h <;> cases h
    exact Cursor.rest_advance_lt (by simp [hr]) Nat.one_pos
  · cases h

theorem letter_shorter {cause : Cause} {f : Char → Option α} {a : α}
    (h : letter cause f c = .ok a d) : d.rest.length < c.rest.length := by
  unfold letter at h
  split at h
  · next x r hr =>
    split at h <;> cases h
    exact Cursor.rest_advance_lt (by simp [hr]) Nat.one_pos
  · cases h

theorem letter?_shorter {f : Char → Option α} {a : α} (h : letter? f c = .ok (some a) d) :
    d.rest.length < c.rest.length := by
  unfold letter? at h
  split at h
  · next b hb =>
    cases h
    refine Cursor.rest_advance_lt (fun hnil => ?_) Nat.one_pos
    rw [hnil] at hb
    cases hb
  · cases h

theorem integer?_shorter {n : UInt64} (h : integer? c = .ok (some n) d) :
    d.rest.length < c.rest.length := by
  unfold integer? at h
  split at h
  · cases h
  · next hne =>
    split at h
    · cases h
      refine Cursor.rest_advance_lt (fun hnil => hne (by rw [hnil]; rfl)) ?_
      exact List.length_pos_iff.mpr hne
    · cases h

theorem integer_shorter {n : UInt64} (h : integer c = .ok n d) : d.rest.length < c.rest.length := by
  obtain ⟨o, e, ho, h⟩ := bind_eq_ok h
  cases o with
  | none => cases h
  | some n' =>
    cases h
    exact integer?_shorter ho

theorem index_shorter {n : UInt64} (h : index c = .ok n d) : d.rest.length < c.rest.length := by
  obtain ⟨zero, e, hzero, h⟩ := bind_eq_ok h
  cases zero with
  | true =>
    cases h
    exact accept_shorter hzero
  | false =>
    obtain ⟨n', e', hn, h⟩ := bind_eq_ok h
    have hrest : LooksAhead (do
      expect '_'
      if n'.toNat + 1 < UInt64.size then return n' + 1 else fail .overflow : Scan UInt64) := inferInstance
    have h₁ := (LooksAhead.reaches (x := accept '_') c).rest_length_le
    have h₂ := integer_shorter hn
    have h₃ := (hrest.reaches e').rest_length_le
    rw [hzero] at h₁
    rw [h] at h₃
    exact Nat.lt_of_le_of_lt h₃ (Nat.lt_of_lt_of_le h₂ h₁)

end Scan

namespace Decode

variable {α β : Type}

theorem LooksAhead.rest_le {x : Decode α} (hx : LooksAhead x) {s s' : State} {a : α}
    (h : x s = .ok a s') : s'.cursor.rest.length ≤ s.cursor.rest.length := by
  have hkeeps := hx.keeps s
  rw [h] at hkeeps
  exact hkeeps.cursor.rest_length_le

/-- A step that reads a byte at least, if it succeeds. -/
structure ReadsByte (x : Decode α) : Prop where
  shorter : ∀ {s : State} {a : α} {s' : State}, x s = .ok a s' →
    s'.cursor.rest.length < s.cursor.rest.length

theorem readsByte_lift {x : Scan α}
    (hx : ∀ {c : Cursor} {a : α} {d : Cursor}, x c = .ok a d → d.rest.length < c.rest.length) :
    ReadsByte (liftM x : Decode α) where
  shorter h := by
    obtain ⟨c, hc, rfl⟩ := lift_eq_ok h
    exact hx hc

theorem ReadsByte.then {x : Decode α} {f : α → Decode β} (hx : ReadsByte x)
    (hf : ∀ a, LooksAhead (f a)) : ReadsByte (x >>= f) where
  shorter h := by
    obtain ⟨a, t, ht, h⟩ := bind_eq_ok h
    exact Nat.lt_of_le_of_lt ((hf a).rest_le h) (hx.shorter ht)

theorem readsByte_segment : ReadsByte segment :=
  (((readsByte_lift Scan.integer_shorter).then fun _ => inferInstance).then fun _ => inferInstance :
    ReadsByte (segmentLength >>= _))

theorem readsByte_changeRecord : ReadsByte changeRecord where
  shorter h := by
    obtain ⟨read, t, ht, h⟩ := bind_eq_ok h
    obtain ⟨c, hc, rfl⟩ := lift_eq_ok ht
    obtain ⟨letter, hletter⟩ := Scan.meaning_of_letter hc
    have hread := pops_changeRecord? hletter
    exact Nat.lt_of_le_of_lt (hread.toLooksAhead.rest_le h) (Scan.letter_shorter hc)

/-! ## Loops that read

With nothing left to read, a round fails as the bound does; so the last round is evaluated at the end of
the input. -/

/-- One round of reading words and segments. -/
def wordRound (again : String → Decode String) (acc : String) : Decode String := do
  match ← Scan.letter? wordLetter? with
  | some (i, last) => do
    let acc := acc ++ (← require (← get).words[i]?)
    if !last then again acc
    else if ← Scan.accept '0' then return acc
    else return acc ++ (← segment)
  | none =>
    if ← Scan.accept '0' then return acc
    else again (acc ++ (← segment))

theorem terminates_wordsAndSegments :
    Terminates wordsAndSegments wordRound fun _ s => s.cursor.rest.length where
  step _ _ _ := rfl
  shrinks {again again' acc s} h := by
    refine bind_congr_at fun o t ht => ?_
    cases o with
    | some word =>
      obtain ⟨c, hc, rfl⟩ := lift_eq_ok ht
      refine bind_congr_at fun st u hu => bind_congr_at fun text v hv => ?_
      cases hu
      obtain ⟨-, rfl⟩ := require_eq_ok hv
      obtain ⟨i, last⟩ := word
      cases last with
      | false => exact h _ _ (Scan.letter?_shorter hc)
      | true => rfl
    | none =>
      refine bind_congr_at fun done u hu => ?_
      cases done with
      | true => rfl
      | false =>
        refine bind_congr_at fun text v hv => ?_
        have h₁ := (looksAhead_lift (Scan.letter? wordLetter?)).rest_le ht
        have h₂ := (looksAhead_lift (Scan.accept '0')).rest_le hu
        have h₃ := readsByte_segment.shorter hv
        exact h _ v (by omega)
  last {acc s} hs again := by
    obtain ⟨⟨before, rest⟩, operands, substitutions, words, legacy⟩ := s
    obtain rfl : rest = [] := List.length_eq_zero_iff.mp hs
    rfl

/-- One round of a run of back-references. -/
def referenceRound (again : Option UInt64 → Decode Symbol) (count : Option UInt64) :
    Decode Symbol := do
  match (← Scan.peek?).bind referenceStep? with
  | some (.entry i last) => do
    let _ ← Scan.next
    let x ← pushRepeated count (← substitution i)
    if last then return x
    push x
    again none
  | some .beyond => do
    let _ ← Scan.next
    match count with
    | none => substitution 26
    | some n =>
      ensure (n.toNat + 27 < UInt64.size)
      substitution (n.toNat + 27)
  | some .count => do
    let n ← Scan.integer?
    ensure n.isSome
    again n
  | none => do
    let _ ← Scan.next
    refuse

theorem referenceStep?_digit {c : Char} (h : c.isDigit = true) : referenceStep? c = some .count := by
  obtain ⟨hlower, hupper⟩ := Cell.not_letter_of_isDigit h
  have hmark : (c == '_') = false := by
    rw [beq_eq_false_iff_ne]
    rintro rfl
    exact absurd h (by decide)
  simp only [referenceStep?, hlower, hupper, hmark, h, Bool.false_eq_true, if_false, if_true]

instance looksAhead_pushRepeated (count : Option UInt64) (x : Symbol) :
    LooksAhead (pushRepeated count x) := by
  unfold pushRepeated
  infer_instance

theorem terminates_references :
    Terminates references referenceRound fun _ s => s.cursor.rest.length where
  step _ _ _ := rfl
  shrinks {again again' count s} h := by
    refine bind_congr_at fun c t ht => ?_
    have h₁ := (looksAhead_lift Scan.peek?).rest_le ht
    rcases hstep : c.bind referenceStep? with _ | (⟨i, last⟩ | _ | _)
    · rfl
    · refine bind_congr_at fun _ u hu => bind_congr_at fun entry v hv => ?_
      refine bind_congr_at fun x w hw => ?_
      have h₂ := (readsByte_lift Scan.next_shorter).shorter hu
      have h₃ := (pops_substitution i).toLooksAhead.rest_le hv
      have h₄ := (looksAhead_pushRepeated count entry).rest_le hw
      cases last with
      | true => rfl
      | false =>
        refine bind_congr_at fun _ w' hw' => ?_
        have h₅ := (looksAhead_push x).rest_le hw'
        exact h _ w' (by omega)
    · rfl
    · refine bind_congr_at fun n u hu => bind_congr_at fun _ v hv => ?_
      obtain ⟨hn, rfl⟩ := ensure_eq_ok hv
      obtain ⟨n, rfl⟩ := Option.isSome_iff_exists.mp hn
      obtain ⟨d, hd, rfl⟩ := lift_eq_ok hu
      exact h _ _ (Nat.lt_of_lt_of_le (Scan.integer?_shorter hd) h₁)
  last {count s} hs again := by
    obtain ⟨⟨before, rest⟩, operands, substitutions, words, legacy⟩ := s
    obtain rfl : rest = [] := List.length_eq_zero_iff.mp hs
    rfl

/-- One round of reading parameter counts. -/
def countRound (again : Decode (List UInt64)) : Decode (List UInt64) := do
  if ← Scan.accept 'l' then return []
  let count ← if ← Scan.accept 'z' then pure 0 else saturatingSucc <$> Scan.index
  return count :: (← again)

theorem terminates_parameterCounts :
    Terminates (fun n (_ : Unit) => parameterCounts n) (fun again _ => countRound (again ()))
      fun _ s => s.cursor.rest.length where
  step _ _ _ := rfl
  shrinks {again again' _ s} h := by
    refine bind_congr_at fun done t ht => ?_
    have h₁ := (looksAhead_lift (Scan.accept 'l')).rest_le ht
    cases done with
    | true => rfl
    | false =>
      refine bind_congr_at fun zero u hu => ?_
      have h₂ := (looksAhead_lift (Scan.accept 'z')).rest_le hu
      cases zero with
      | true =>
        obtain ⟨d, hd, rfl⟩ := lift_eq_ok hu
        have h₃ := Scan.accept_shorter hd
        exact bind_congr_first (h () _ (Nat.lt_of_lt_of_le h₃ h₁)) _
      | false =>
        refine bind_congr_at fun n v hv => ?_
        rw [map_eq_pure_bind] at hv
        have h₃ := ((readsByte_lift Scan.index_shorter).then fun _ => inferInstance).shorter hv
        exact bind_congr_first (h () v (by omega)) _
  last {_ s} hs again := by
    obtain ⟨⟨before, rest⟩, operands, substitutions, words, legacy⟩ := s
    obtain rfl : rest = [] := List.length_eq_zero_iff.mp hs
    rfl

/-- One round of reading the records of parameters. -/
def recordRound (again : UInt64 → Decode (List Symbol)) (i : UInt64) : Decode (List Symbol) := do
  if ← Scan.accept '_' then return []
  let record := Symbol.make .functionSignatureSpecializationParam (.index i) (← changeRecord)
  return record :: (← again (i + 1))

theorem terminates_paramRecords :
    Terminates paramRecords recordRound fun _ s => s.cursor.rest.length where
  step _ _ _ := rfl
  shrinks {again again' i s} h := by
    refine bind_congr_at fun done t ht => ?_
    have h₁ := (looksAhead_lift (Scan.accept '_')).rest_le ht
    cases done with
    | true => rfl
    | false =>
      refine bind_congr_at fun changes u hu => ?_
      have h₂ := readsByte_changeRecord.shorter hu
      exact bind_congr_first (h _ u (by omega)) _
  last {i s} hs again := by
    obtain ⟨⟨before, rest⟩, operands, substitutions, words, legacy⟩ := s
    obtain rfl : rest = [] := List.length_eq_zero_iff.mp hs
    rfl

/-- One round of reading the flags of a bridged method. -/
def flagRound (again : Decode (List Char)) : Decode (List Char) := do
  if ← Scan.accept '_' then return []
  let c := Char.ofUInt8 (← Scan.next)
  ensure (c == 'n' || c == 'b')
  return c :: (← again)

theorem terminates_bridgedFlags :
    Terminates (fun n (_ : Unit) => bridgedFlags n) (fun again _ => flagRound (again ()))
      fun _ s => s.cursor.rest.length where
  step _ _ _ := rfl
  shrinks {again again' _ s} h := by
    refine bind_congr_at fun done t ht => ?_
    have h₁ := (looksAhead_lift (Scan.accept '_')).rest_le ht
    cases done with
    | true => rfl
    | false =>
      refine bind_congr_at fun b u hu => bind_congr_at fun _ v hv => ?_
      have h₂ := (readsByte_lift Scan.next_shorter).shorter hu
      obtain ⟨-, rfl⟩ := ensure_eq_ok hv
      exact bind_congr_first (h () _ (by omega)) _
  last {_ s} hs again := by
    obtain ⟨⟨before, rest⟩, operands, substitutions, words, legacy⟩ := s
    obtain rfl : rest = [] := List.length_eq_zero_iff.mp hs
    rfl

end Decode

/-! ## Loops of Punycode -/

namespace Punycode

/-- One round of making a difference small. -/
def adaptRound (again : Nat → Nat → Nat × Nat) (delta k : Nat) : Nat × Nat :=
  if 455 < delta then again (delta / 35) (k + base) else (delta, k)

theorem terminates_adaptLoop : Terminates adaptLoop adaptRound fun delta _ => delta where
  step _ _ _ := rfl
  shrinks {again again' delta k} h := by
    unfold adaptRound
    split
    · exact h _ _ (Nat.div_lt_self (by omega) (by decide))
    · rfl
  last {delta k} hd again := by
    unfold adaptRound
    rw [if_neg (by omega)]
    rfl

/-- One round of performing insertions. -/
def insertionRound (again : State → List Char → Option (List Nat)) (st : State) (cs : List Char) :
    Option (List Nat) :=
  if cs.isEmpty then some st.points
  else match readNumber st.bias st.i 1 base cs with
    | none => none
    | some (i, cs) =>
      match st.insert i with
      | none => none
      | some st => again st cs

theorem terminates_insertions : Terminates insertions insertionRound fun _ cs => cs.length where
  step n st cs := by
    cases cs with
    | nil => rfl
    | cons c cs => rfl
  shrinks {again again' st cs} h := by
    unfold insertionRound
    split
    · rfl
    split
    · rfl
    · next i r hr =>
      split
      · rfl
      · exact h _ r (readNumber_length_lt hr)
  last {st cs} hs again := by
    obtain rfl : cs = [] := List.length_eq_zero_iff.mp hs
    rfl

end Punycode

/-! ## All loops -/

/-- Every loop inside the operators ends, with as many rounds at most as there are bytes to read,
operands to pop or digits to use up. -/
structure LoopsEnd : Prop where
  words : Terminates Decode.wordsAndSegments Decode.wordRound fun _ s => s.cursor.rest.length
  references : Terminates Decode.references Decode.referenceRound fun _ s => s.cursor.rest.length
  counts : Terminates (fun n (_ : Unit) => Decode.parameterCounts n)
    (fun again _ => Decode.countRound (again ())) fun _ s => s.cursor.rest.length
  records : Terminates Decode.paramRecords Decode.recordRound fun _ s => s.cursor.rest.length
  flags : Terminates (fun n (_ : Unit) => Decode.bridgedFlags n)
    (fun again _ => Decode.flagRound (again ())) fun _ s => s.cursor.rest.length
  elements : ∀ item ∈ [Decode.popType, Decode.popTupleElement, Decode.popDeclName,
      Decode.popProtocol, Decode.popAssociatedTypeName],
    Terminates (Decode.popMarked item) (Decode.markedRound item) fun _ s => s.operands.length
  arguments : Terminates (fun n (_ : Unit) => Decode.popArgumentLists n)
    (fun again _ => Decode.argumentRound (again ())) fun _ s => s.operands.length
  adaptation : Terminates Punycode.adaptLoop Punycode.adaptRound fun delta _ => delta
  insertions : Terminates Punycode.insertions Punycode.insertionRound fun _ cs => cs.length

theorem loopsEnd : LoopsEnd where
  words := Decode.terminates_wordsAndSegments
  references := Decode.terminates_references
  counts := Decode.terminates_parameterCounts
  records := Decode.terminates_paramRecords
  flags := Decode.terminates_bridgedFlags
  elements item hitem := by
    simp only [List.mem_cons, List.not_mem_nil, or_false] at hitem
    rcases hitem with rfl | rfl | rfl | rfl | rfl
    · exact Decode.terminates_popMarked Decode.takesOperand_popType
    · exact Decode.terminates_popMarked Decode.takesOperand_popTupleElement
    · exact Decode.terminates_popMarked Decode.takesOperand_popDeclName
    · exact Decode.terminates_popMarked Decode.takesOperand_popProtocol
    · exact Decode.terminates_popMarked Decode.takesOperand_popAssociatedTypeName
  arguments := Decode.terminates_popArgumentLists
  adaptation := Punycode.terminates_adaptLoop
  insertions := Punycode.terminates_insertions

end Demangle
