import Demangle.Proofs.Run

/-!
# Records of a signature specialization

A signature specialization lists what it did to each parameter. A `ParamRecord` is one entry of that list
with all that belongs to it: the letters that spell it after the operator, and the operands that are pushed
for it before the operator. A record ends in front of the next one, so a list of records is read back from
its letters:

    Reads (paramRecords fuel 0) (letters ++ "_") rest (records before their operands)  (reads_paramRecords)
-/

namespace Demangle

open Symbol

/-! ## Records -/

/-- A decimal literal with a sign. -/
structure Literal where
  negative : Bool
  digits : List Char
  nonempty : digits ≠ []
  decimal : ∀ c ∈ digits, c.isDigit = true

namespace Literal

/-- How the literal is spelled, `n` being its sign. -/
def letters (l : Literal) : List Char :=
  (if l.negative then ['n'] else []) ++ l.digits

/-- How the literal is written. -/
def text (l : Literal) : String :=
  (if l.negative then "-" else "") ++ String.ofList l.digits

end Literal

/-- The encodings of a string constant. -/
inductive Encoding where
  | u8
  | u16
  | objc

namespace Encoding

/-- The letter that stands for the encoding. -/
def letter : Encoding → Char
  | .u8 => 'b'
  | .u16 => 'w'
  | .objc => 'c'

/-- How the encoding is written. -/
def name : Encoding → String
  | .u8 => "u8"
  | .u16 => "u16"
  | .objc => "objc"

end Encoding

/-- The flags that can start a record. -/
inductive LeadingFlag where
  | existentialToGeneric
  | dead
  | ownedToGuaranteed
  | guaranteedToOwned

namespace LeadingFlag

/-- The letter that stands for the flag. -/
def letter : LeadingFlag → Char
  | .existentialToGeneric => 'e'
  | .dead => 'd'
  | .ownedToGuaranteed => 'g'
  | .guaranteedToOwned => 'o'

/-- The change that the flag means. -/
def change : LeadingFlag → ParamChange
  | .existentialToGeneric => .existentialToGeneric
  | .dead => .dead
  | .ownedToGuaranteed => .ownedToGuaranteed
  | .guaranteedToOwned => .guaranteedToOwned

/-- The flags that may follow, in their order. -/
def later (f : LeadingFlag) : List (Char × ParamChange) :=
  Decode.flagLetters f.change

end LeadingFlag

/-- What a specialization did to one parameter, with all that the record of it carries. -/
inductive ParamRecord where
  | unchanged
  | closure (name : String) (captured : List { t : Symbol // t.kind = .type })
  | constantFunction (name : String)
  | constantGlobal (name : String)
  | constantInteger (value : Literal)
  | constantFloat (value : Literal)
  | constantString (encoding : Encoding) (text : String)
  | flags (lead : LeadingFlag) (more : List (Char × ParamChange)) (ordered : more.Sublist lead.later)
  | exploded
  | boxToValue
  | boxToStack

namespace ParamRecord

/-- How the record is spelled after the operator. -/
def letters : ParamRecord → List Char
  | .unchanged => ['n']
  | .closure _ _ => ['c']
  | .constantFunction _ => ['p', 'f']
  | .constantGlobal _ => ['p', 'g']
  | .constantInteger value => 'p' :: 'i' :: value.letters
  | .constantFloat value => 'p' :: 'd' :: value.letters
  | .constantString encoding _ => ['p', 's', encoding.letter]
  | .flags lead more _ => lead.letter :: more.map Prod.fst
  | .exploded => ['x']
  | .boxToValue => ['i']
  | .boxToStack => ['s']

/-- What is pushed for the record, in that order. -/
def operands : ParamRecord → List Symbol
  | .closure name captured => ofText .identifier name :: captured.map Subtype.val
  | .constantFunction name | .constantGlobal name => [ofText .identifier name]
  | .constantString _ text => [ofText .identifier ("_" ++ text)]
  | _ => []

/-- The number of the change, if there is one. -/
def value? : ParamRecord → Option UInt64
  | .unchanged => none
  | .closure _ _ => some ParamChange.closure.value
  | .constantFunction _ => some ParamChange.constantFunction.value
  | .constantGlobal _ => some ParamChange.constantGlobal.value
  | .constantInteger _ => some ParamChange.constantInteger.value
  | .constantFloat _ => some ParamChange.constantFloat.value
  | .constantString _ _ => some ParamChange.constantString.value
  | .flags lead more _ => some (more.foldl (fun v f => v ||| f.2.value) lead.change.value)
  | .exploded => some ParamChange.exploded.value
  | .boxToValue => some ParamChange.boxToValue.value
  | .boxToStack => some ParamChange.boxToStack.value

/-- The texts that the spelling itself gives. -/
def spelledTexts : ParamRecord → List String
  | .constantInteger value | .constantFloat value => [value.text]
  | .constantString encoding _ => [encoding.name]
  | _ => []

/-- The nodes that the spelling gives. -/
def spelled (r : ParamRecord) : List Symbol :=
  r.value?.toList.map Decode.changeNode ++ r.spelledTexts.map Decode.payloadNode

/-- The nodes that the operands give: a name or a string, and the types that a closure captures. -/
def carried : ParamRecord → List Symbol
  | .closure name captured => Decode.payloadNode name :: captured.map Subtype.val
  | .constantFunction name | .constantGlobal name => [Decode.payloadNode name]
  | .constantString _ text => [Decode.payloadNode text]
  | _ => []

/-- The node of the record of parameter `i`. -/
def node (i : Nat) (r : ParamRecord) : Symbol :=
  make .functionSignatureSpecializationParam (.index (.ofNat i)) (r.spelled ++ r.carried)

/-- The node of the record of parameter `i` before its operands are popped. -/
def unfinished (i : Nat) (r : ParamRecord) : Symbol :=
  make .functionSignatureSpecializationParam (.index (.ofNat i)) r.spelled

/-- The record of a result, which pops nothing. An unchanged result has none. -/
def result : ParamRecord → List Symbol
  | .unchanged => []
  | r => [.node .functionSignatureSpecializationReturn r.spelled]

/-- The letter would be read as part of the record if it stood after it. -/
def goesOn : ParamRecord → Char → Bool
  | .constantInteger _, c | .constantFloat _, c => c.isDigit
  | .flags lead more _, c => lead.later.any fun f => f.1 == c && decide ((more ++ [f]).Sublist lead.later)
  | _, _ => false

end ParamRecord

namespace Decode

/-! ## Reading letters -/

/-- In front of `rest`, the step reads the letters and returns `a`. -/
def Reads {α : Type} (x : Decode α) (letters : List Char) (rest : List Cell) (a : α) : Prop :=
  ∀ s : State, s.cursor.rest = letters.map Cell.ascii ++ rest →
    x s = .ok a { s with cursor := s.cursor.advance letters.length }

section Reads

variable {α β : Type} {rest : List Cell}

theorem Reads.pure (a : α) : Reads (Pure.pure a) [] rest a := by
  intro s _
  rw [List.length_nil, Cursor.advance_zero]
  rfl

theorem Reads.bind {x : Decode α} {f : α → Decode β} {as bs : List Char} {a : α} {b : β}
    (hx : Reads x as (bs.map Cell.ascii ++ rest) a) (hf : Reads (f a) bs rest b) :
    Reads (x >>= f) (as ++ bs) rest b := by
  intro s hs
  rw [List.map_append, List.append_assoc] at hs
  have hrest := Cursor.rest_advance hs
  rw [List.length_map] at hrest
  have hnext := hf { s with cursor := s.cursor.advance as.length } hrest
  rw [bind_ok (hx s hs), List.length_append, ← Cursor.advance_advance]
  exact hnext

/-- A step that reads nothing comes first. -/
theorem Reads.bind_nil {x : Decode α} {f : α → Decode β} {bs : List Char} {a : α} {b : β}
    (hx : Reads x [] (bs.map Cell.ascii ++ rest) a) (hf : Reads (f a) bs rest b) :
    Reads (x >>= f) bs rest b :=
  hx.bind hf

theorem Reads.map {x : Decode α} {as : List Char} {a : α} (hx : Reads x as rest a) (f : α → β) :
    Reads (x >>= fun a => Pure.pure (f a)) as rest (f a) := by
  have h : Reads (x >>= fun a => Pure.pure (f a)) (as ++ []) rest (f a) := hx.bind (.pure (f a))
  rwa [List.append_nil] at h

theorem reads_accept {c : Char} : Reads (Scan.accept c) [c] rest true := by
  intro s hs
  exact lift_ok (Scan.acceptByte_hit hs)

theorem reads_expect {c : Char} : Reads (Scan.expect c) [c] rest () := by
  intro s hs
  refine lift_ok ?_
  unfold Scan.expect Scan.expectByte
  exact bind_ok (Scan.acceptByte_hit hs) _

theorem reads_accept_miss {c : Char} (hc : c.toNat < 0x80) (h : ∀ x ∈ rest.head?, x.letter ≠ c) :
    Reads (Scan.accept c) [] rest false := by
  intro s hs
  rw [List.map_nil, List.nil_append] at hs
  rw [List.length_nil, Cursor.advance_zero]
  refine lift_ok ?_
  unfold Scan.accept Scan.acceptByte
  rw [hs]
  cases rest with
  | nil => rfl
  | cons x xs =>
    have hx : (x.byte == c.toUInt8) = false := by
      refine beq_eq_false_iff_ne.mpr fun heq => h x rfl ?_
      rw [Cell.letter, heq]
      exact Cell.letter_ascii hc
    simp [hx]

/-- The letter for a flag is read if it is there; what follows is another one. -/
theorem reads_flag {c : Char} (b : Bool) (hc : c.toNat < 0x80) (h : ∀ x ∈ rest.head?, x.letter ≠ c) :
    Reads (Scan.accept c) (if b then [c] else []) rest b := by
  cases b with
  | true => exact reads_accept
  | false => exact reads_accept_miss hc h

theorem reads_letter {cause : Cause} {f : Char → Option α} {c : Char} {a : α} (hc : c.toNat < 0x80)
    (h : f c = some a) : Reads (Scan.letter cause f) [c] rest a := by
  intro s hs
  refine lift_ok (Scan.letter_hit hs ?_ cause)
  rwa [Cell.letter_ascii hc]

/-- A number that may be missing is read up to a byte that is no digit. -/
theorem reads_integer? (n : Option UInt64) {x : Cell} {r : List Cell} (hx : x.isDigit = false) :
    Reads Scan.integer? (n.elim [] (Nat.toDigits 10 ·.toNat)) (x :: r) n := by
  intro s hs
  refine lift_ok ?_
  cases n with
  | none =>
    rw [Option.elim_none, List.length_nil, Cursor.advance_zero]
    exact Scan.integer?_none hs hx
  | some n =>
    have hcells := Cell.ofString_toString n.toNat
    rw [Option.elim_some, ← hcells] at hs
    have hread := integer?_toString n.toNat_lt_size hx hs
    rw [hcells, List.length_map, UInt64.ofNat_toNat] at hread
    exact hread

/-- The first of some letters of ASCII, or what follows if there are none. -/
theorem head_letters (p : Char → Prop) {ls : List Char} (hls : ∀ c ∈ ls, c.toNat < 0x80)
    (hp : ∀ c ∈ ls.head?, p c) (hrest : ls = [] → ∀ x ∈ rest.head?, p x.letter) :
    ∀ x ∈ (ls.map Cell.ascii ++ rest).head?, p x.letter := by
  cases ls with
  | nil => exact hrest rfl
  | cons c cs =>
    intro x hx
    obtain rfl : Cell.ascii c = x := Option.some.inj hx
    rw [Cell.letter_ascii (hls c List.mem_cons_self)]
    exact hp c rfl

theorem atBoundary_letters (ls : List Char) (h : Cell.atBoundary rest = true) :
    Cell.atBoundary (ls.map Cell.ascii ++ rest) = true := by
  cases ls with
  | nil => exact h
  | cons c cs => rfl

/-! ## One record -/

theorem reads_digits {ds : List Char} (hds : ∀ c ∈ ds, c.isDigit = true)
    (hb : Cell.atBoundary rest = true) (hrest : ∀ x ∈ rest.head?, x.isDigit = false) :
    Reads (Scan.takeWhile (Char.ofUInt8 · |>.isDigit)) ds rest (String.ofList ds) := by
  intro s hs
  have hlow : ∀ c ∈ ds, c.toNat < 0x80 := fun c hc => Cell.low_of_isDigit_char (hds c hc)
  have hdigit : ∀ x ∈ ds.map Cell.ascii, x.isDigit = true := by
    intro x hx
    obtain ⟨c, hc, rfl⟩ := List.mem_map.mp hx
    rw [Cell.isDigit_ascii (hlow c hc)]
    exact hds c hc
  have hstop : (rest.takeWhile Cell.isDigit) = [] := by
    cases rest with
    | nil => rfl
    | cons x xs => rw [List.takeWhile_cons, hrest x rfl]; rfl
  have hrun : s.cursor.rest.takeWhile Cell.isDigit = ds.map Cell.ascii := by
    rw [hs, List.takeWhile_append_of_pos hdigit, hstop, List.append_nil]
  have hdrop : s.cursor.rest.drop (ds.map Cell.ascii).length = rest := by
    rw [hs, List.drop_left]
  have hstart : Cell.atBoundary s.cursor.rest = true := by
    rw [hs]
    exact atBoundary_letters ds hb
  have htext : Cell.text (ds.map Cell.ascii) = String.ofList ds := by
    rw [← Cell.flatMap_ofChar hlow, ← Cell.text_ofString (String.ofList ds), Cell.ofString,
      String.toList_ofList]
  refine lift_ok ?_
  show EStateM.Result.ok _ _ = _
  rw [show (fun x : Cell => (Char.ofUInt8 x.byte).isDigit) = Cell.isDigit from rfl, hrun, hdrop,
    hstart, hb, htext, List.length_map]
  rfl

theorem reads_numberLiteral (l : Literal) (hb : Cell.atBoundary rest = true)
    (hrest : ∀ x ∈ rest.head?, x.isDigit = false) :
    Reads numberLiteral l.letters rest l.text := by
  have hlow : ∀ c ∈ l.digits, c.toNat < 0x80 := fun c hc => Cell.low_of_isDigit_char (l.decimal c hc)
  have hsign : Reads (Scan.accept 'n') (if l.negative then ['n'] else [])
      (l.digits.map Cell.ascii ++ rest) l.negative := by
    refine reads_flag _ (by decide) (head_letters (· ≠ 'n') hlow ?_ fun h => absurd h l.nonempty)
    intro c hc heq
    have hdigit := l.decimal c (List.mem_of_mem_head? hc)
    subst heq
    cases hdigit
  have hempty : (String.ofList l.digits).isEmpty = false := by
    rw [String.isEmpty_eq_false_iff]
    intro h
    exact l.nonempty (String.ofList_eq_empty_iff.mp h)
  refine hsign.bind ?_
  have hdigits := reads_digits l.decimal hb hrest
  intro s hs
  rw [bind_ok (hdigits s hs), hempty]
  rfl

/-- Flags are read up to the first letter that cannot stand next. -/
theorem reads_flags {flags more : List (Char × ParamChange)} (hsub : more.Sublist flags)
    (hlow : ∀ f ∈ flags, f.1.toNat < 0x80) (hnodup : (flags.map Prod.fst).Nodup) :
    ∀ value : UInt64, (∀ x ∈ rest.head?, ∀ f ∈ flags, (more ++ [f]).Sublist flags → f.1 ≠ x.letter) →
      Reads (readFlags value flags) (more.map Prod.fst) rest
        (more.foldl (fun v f => v ||| f.2.value) value) := by
  induction hsub with
  | slnil => exact fun value _ => Reads.pure value
  | @cons more flags f hsub ih =>
    intro value hstop
    rw [List.map_cons, List.nodup_cons] at hnodup
    have hmore : ∀ c ∈ more.map Prod.fst, c.toNat < 0x80 := by
      intro c hc
      obtain ⟨g, hg, rfl⟩ := List.mem_map.mp hc
      exact hlow g (List.mem_cons_of_mem _ (hsub.subset hg))
    have hmiss : Reads (Scan.accept f.1) [] ((more.map Prod.fst).map Cell.ascii ++ rest) false := by
      refine reads_accept_miss (hlow f List.mem_cons_self) (head_letters (· ≠ f.1) hmore ?_ ?_)
      · -- the next flag is a later one, and no letter stands for two
        intro c hc heq
        subst heq
        exact hnodup.1 ((hsub.map _).subset (List.mem_of_mem_head? hc))
      · intro hnil x hx heq
        obtain rfl := List.map_eq_nil_iff.mp hnil
        refine hstop x hx f List.mem_cons_self ?_ heq.symm
        exact List.singleton_sublist.mpr List.mem_cons_self
    have htail := ih (fun g hg => hlow g (List.mem_cons_of_mem _ hg)) hnodup.2 value fun x hx g hg h =>
      hstop x hx g (List.mem_cons_of_mem _ hg) (h.cons f)
    exact hmiss.bind_nil htail
  | @cons_cons more flags f hsub ih =>
    intro value hstop
    rw [List.map_cons, List.nodup_cons] at hnodup
    have htail := ih (fun g hg => hlow g (List.mem_cons_of_mem _ hg)) hnodup.2 (value ||| f.2.value)
      fun x hx g hg h => hstop x hx g (List.mem_cons_of_mem _ hg) (h.cons_cons f)
    exact reads_accept.bind htail

/-- A record that starts with `p`. -/
theorem reads_constant {c : Char} {x : Decode (List Symbol)} {ls : List Char} {ns : List Symbol}
    (hc : constantRecord? c = some x) (hlow : c.toNat < 0x80) (hx : Reads x ls rest ns) :
    Reads changeRecord ('p' :: c :: ls) rest ns := by
  refine (reads_letter (f := changeRecord?) (c := 'p') (by decide) rfl).bind ?_
  exact (reads_letter (f := constantRecord?) hlow hc).bind hx

theorem changeRecord?_lead (f : LeadingFlag) : changeRecord? f.letter = some (flagRecord f.change) := by
  cases f <;> rfl

theorem constantEncoding (e : Encoding) : stringEncoding? e.letter = some e.name := by
  cases e <;> rfl

theorem low_lead (f : LeadingFlag) : f.letter.toNat < 0x80 := by
  cases f <;> decide

theorem low_encoding (e : Encoding) : e.letter.toNat < 0x80 := by
  cases e <;> decide

theorem low_later (f : LeadingFlag) : ∀ g ∈ f.later, g.1.toNat < 0x80 := by
  cases f <;> decide

theorem nodup_later (f : LeadingFlag) : (f.later.map Prod.fst).Nodup := by
  cases f <;> decide

/-- **A record is read from its letters**, if what follows does not go on with it. -/
theorem reads_changeRecord (r : ParamRecord) (hb : Cell.atBoundary rest = true)
    (hrest : ∀ x ∈ rest.head?, r.goesOn x.letter = false) :
    Reads changeRecord r.letters rest r.spelled := by
  -- a record of one letter is a table entry, and reads no further
  have hsingle : ∀ {c : Char} {ns : List Symbol}, c.toNat < 0x80 → changeRecord? c = some (pure ns) →
      Reads changeRecord [c] rest ns := fun hc h => (reads_letter hc h).bind (.pure _)
  cases r with
  | unchanged => exact hsingle (by decide) rfl
  | closure name captured => exact hsingle (by decide) rfl
  | constantFunction name => exact reads_constant rfl (by decide) (.pure _)
  | constantGlobal name => exact reads_constant rfl (by decide) (.pure _)
  | constantInteger value =>
    exact reads_constant rfl (by decide) ((reads_numberLiteral value hb hrest).map _)
  | constantFloat value =>
    exact reads_constant rfl (by decide) ((reads_numberLiteral value hb hrest).map _)
  | constantString encoding text =>
    have hletter : Reads (Scan.letter (.expected "'b', 'w' or 'c'") stringEncoding?) [encoding.letter]
        rest encoding.name := reads_letter (low_encoding encoding) (constantEncoding encoding)
    exact reads_constant rfl (by decide) (hletter.map _)
  | flags lead more ordered =>
    have hstop : ∀ x ∈ rest.head?, ∀ f ∈ lead.later, (more ++ [f]).Sublist lead.later →
        f.1 ≠ x.letter := by
      intro x hx f hf hsub heq
      have hmiss := List.any_eq_false.mp (hrest x hx) f hf
      simp [heq, hsub] at hmiss
    have hflags := reads_flags ordered (low_later lead) (nodup_later lead) lead.change.value hstop
    exact (reads_letter (low_lead lead) (changeRecord?_lead lead)).bind (hflags.map _)
  | exploded => exact hsingle (by decide) rfl
  | boxToValue => exact hsingle (by decide) rfl
  | boxToStack => exact hsingle (by decide) rfl

/-! ## All records -/

theorem low_letters (r : ParamRecord) : ∀ c ∈ r.letters, c.toNat < 0x80 := by
  have hliteral : ∀ l : Literal, ∀ c ∈ l.letters, c.toNat < 0x80 := by
    intro l c hc
    rcases List.mem_append.mp hc with hsign | hdigit
    · split at hsign
      · rw [List.mem_singleton.mp hsign]
        decide
      · cases hsign
    · exact Cell.low_of_isDigit_char (l.decimal c hdigit)
  intro c hc
  cases r with
  | constantInteger value | constantFloat value =>
    simp only [ParamRecord.letters, List.mem_cons] at hc
    rcases hc with rfl | rfl | hc
    · decide
    · decide
    · exact hliteral value c hc
  | constantString encoding text =>
    simp only [ParamRecord.letters, List.mem_cons, List.not_mem_nil, or_false] at hc
    rcases hc with rfl | rfl | rfl
    · decide
    · decide
    · exact low_encoding encoding
  | flags lead more ordered =>
    rcases List.mem_cons.mp hc with rfl | hc
    · exact low_lead lead
    · obtain ⟨f, hf, rfl⟩ := List.mem_map.mp hc
      exact low_later lead f (ordered.subset hf)
  | constantFunction | constantGlobal =>
    simp only [ParamRecord.letters, List.mem_cons, List.not_mem_nil, or_false] at hc
    rcases hc with rfl | rfl
    · decide
    · decide
  | unchanged | closure | exploded | boxToValue | boxToStack =>
    obtain rfl := List.mem_singleton.mp hc
    decide

/-- A record starts with a lower-case letter. -/
theorem head_record (r : ParamRecord) : ∃ c cs, r.letters = c :: cs ∧ c.isLower = true := by
  cases r with
  | flags lead more ordered => exact ⟨lead.letter, _, rfl, by cases lead <;> rfl⟩
  | _ => exact ⟨_, _, rfl, rfl⟩

theorem lower_range {c : Char} (h : c.isLower = true) : 'a'.val ≤ c.val ∧ c.val ≤ 'z'.val := by
  delta Char.isLower at h
  rwa [Bool.and_eq_true, decide_eq_true_eq, decide_eq_true_eq] at h

theorem low_of_isLower {c : Char} (h : c.isLower = true) : c.toNat < 0x80 :=
  Nat.lt_of_le_of_lt (lower_range h).2 (by decide)

/-- A letter that starts a record or ends the list of them. -/
def Divides (c : Char) : Prop :=
  c.isLower = true ∨ c = '_'

theorem Divides.low {c : Char} (h : Divides c) : c.toNat < 0x80 := by
  rcases h with h | rfl
  · exact low_of_isLower h
  · decide

theorem Divides.not_digit {c : Char} (h : Divides c) : c.isDigit = false := by
  rcases h with h | rfl
  · rw [Char.isDigit, Bool.and_eq_false_iff, decide_eq_false_iff_not, decide_eq_false_iff_not]
    exact .inr fun hle => absurd (UInt32.le_trans (lower_range h).1 hle) (by decide)
  · rfl

/-- No record goes on with a letter that divides records. -/
theorem goesOn_divides (r : ParamRecord) {c : Char} (h : Divides c) : r.goesOn c = false := by
  have hflag : ∀ (lead : LeadingFlag), ∀ f ∈ lead.later, (f.1.isLower || f.1 == '_') = false := by
    intro lead
    cases lead <;> decide
  cases r with
  | constantInteger value | constantFloat value => exact h.not_digit
  | flags lead more ordered =>
    refine List.any_eq_false.mpr fun f hf hgo => ?_
    rw [Bool.and_eq_true, beq_iff_eq] at hgo
    obtain ⟨rfl, -⟩ := hgo
    have hneither := hflag lead f hf
    rcases h with h | h <;> simp [h] at hneither
  | _ => rfl

/-- The letters of records and the `_` after them start with one that divides records. -/
theorem head_records (rs : List ParamRecord) (ls : List Char) : ∃ c cs,
    rs.flatMap ParamRecord.letters ++ '_' :: ls = c :: cs ∧ Divides c := by
  cases rs with
  | nil => exact ⟨'_', ls, rfl, .inr rfl⟩
  | cons r rs =>
    obtain ⟨c, cs, hr, hc⟩ := head_record r
    refine ⟨c, cs ++ (rs.flatMap ParamRecord.letters ++ '_' :: ls), ?_, .inl hc⟩
    rw [List.flatMap_cons, hr, List.append_assoc, List.cons_append]

/-- Records are read up to the `_` after them. -/
theorem reads_paramRecords (rs : List ParamRecord) : ∀ fuel i : Nat, rs.length < fuel →
    Reads (paramRecords fuel (.ofNat i)) (rs.flatMap ParamRecord.letters ++ ['_']) rest
      (rs.mapIdx fun k r => r.unfinished (i + k)) := by
  induction rs with
  | nil =>
    intro fuel i hfuel
    obtain ⟨fuel, rfl⟩ : ∃ n, fuel = n + 1 := ⟨fuel - 1, by omega⟩
    exact reads_accept.bind (.pure [])
  | cons r rs ih =>
    intro fuel i hfuel
    obtain ⟨fuel, rfl⟩ : ∃ n, fuel = n + 1 := ⟨fuel - 1, by omega⟩
    have hnext : (UInt64.ofNat i + 1) = .ofNat (i + 1) := (UInt64.ofNat_add i 1).symm
    have hrecords := ih fuel (i + 1) (Nat.lt_of_succ_lt_succ hfuel)
    obtain ⟨c, cs, hcs, hc⟩ := head_records rs []
    have hrecord : Reads changeRecord r.letters ((c :: cs).map Cell.ascii ++ rest) r.spelled := by
      refine reads_changeRecord r rfl fun x hx => ?_
      obtain rfl : Cell.ascii c = x := Option.some.inj hx
      rw [Cell.letter_ascii hc.low]
      exact goesOn_divides r hc
    have hmiss : Reads (Scan.accept '_') []
        ((r.letters ++ (c :: cs)).map Cell.ascii ++ rest) false := by
      obtain ⟨d, ds, hd, hlower⟩ := head_record r
      refine reads_accept_miss (by decide) fun x hx heq => ?_
      rw [hd] at hx
      obtain rfl : Cell.ascii d = x := Option.some.inj hx
      rw [Cell.letter_ascii (low_of_isLower hlower)] at heq
      rw [heq] at hlower
      cases hlower
    rw [List.mapIdx_cons, List.flatMap_cons, List.append_assoc, hcs]
    rw [hcs] at hrecords
    refine hmiss.bind_nil (hrecord.bind ?_)
    rw [hnext]
    have hindex : (fun k (r : ParamRecord) => r.unfinished (i + (k + 1))) =
        fun k r => r.unfinished (i + 1 + k) := by
      funext k r
      rw [Nat.add_assoc, Nat.add_comm 1 k]
    rw [hindex]
    exact hrecords.map _

/-- The record of a result is read from its letters. -/
theorem reads_returnRecord (r : ParamRecord) (hb : Cell.atBoundary rest = true)
    (hrest : ∀ x ∈ rest.head?, r.goesOn x.letter = false) :
    Reads returnRecord r.letters rest r.result := by
  by_cases hr : r = .unchanged
  · subst hr
    exact reads_accept.bind (.pure [])
  · have hresult : r.result = [.node .functionSignatureSpecializationReturn r.spelled] := by
      cases r <;> first | rfl | exact absurd rfl hr
    have hhead : ∀ c ∈ r.letters.head?, c ≠ 'n' := by
      intro c hc
      cases r with
      | unchanged => exact absurd rfl hr
      | flags lead more ordered =>
        cases hc
        cases lead <;> decide
      | _ => cases hc; decide
    have hmiss : Reads (Scan.accept 'n') [] (r.letters.map Cell.ascii ++ rest) false := by
      refine reads_accept_miss (by decide) (head_letters (· ≠ 'n') (low_letters r) hhead fun hnil => ?_)
      obtain ⟨c, cs, hcs, -⟩ := head_record r
      rw [hcs] at hnil
      cases hnil
    rw [hresult]
    exact hmiss.bind_nil ((reads_changeRecord r hb hrest).map _)

end Reads

end Decode

end Demangle
