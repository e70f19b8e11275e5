import Mathlib.Data.List.Sublists
import Demangle.Proofs.Mangling.Record

/-!
# Signature specializations

The records of a signature specialization are read from the first to the last one, what they carry is popped
from the last record to the first, and each record gets its own:

    rest = spelling ++ more → operands = pushed ++ base →
      operator s = .ok tree { s with cursor := after the spelling, operands := base }  (operator_attaches)
-/

namespace Demangle

open Symbol

/-! ## The whole operator -/

/-- What a signature specialization says. -/
structure SignatureChange where
  fragile : Bool
  pass : Fin 10
  unique : Option UInt64
  params : List ParamRecord
  result : ParamRecord

namespace SignatureChange

/-- The letters of what all specializations have. -/
def headLetters (c : SignatureChange) : List Char :=
  (if c.fragile then ['q'] else []) ++ [Nat.digitChar c.pass]

/-- The letters after the operator. -/
def letters (c : SignatureChange) : List Char :=
  c.headLetters ++ (c.unique.elim [] (Nat.toDigits 10 ·.toNat) ++
    (c.params.flatMap ParamRecord.letters ++ '_' :: c.result.letters))

/-- The operator with all its letters. -/
def spelling (c : SignatureChange) : String :=
  String.ofList ('T' :: 'f' :: c.letters)

/-- What is pushed before the operator, in that order. -/
def operands (c : SignatureChange) : List Symbol :=
  c.params.flatMap ParamRecord.operands

/-- The nodes of what all specializations have. -/
def head (c : SignatureChange) : List Symbol :=
  (if c.fragile then [leaf .specializationIsFragile] else []) ++
    [ofIndex .specializationPassId (.ofNat c.pass)]

/-- The node that the operator makes. -/
def tree (c : SignatureChange) : Symbol :=
  make .functionSignatureSpecialization (c.unique.elim .none .index)
    (c.head ++ (c.params.mapIdx ParamRecord.node ++ c.result.result))

end SignatureChange

namespace Decode

section Reads

variable {rest : List Cell}

/-! ## What all specializations have -/

theorem digitChar_pass (pass : Fin 10) : (Nat.digitChar pass).toNat < 0x80 ∧
    (Nat.digitChar pass).isDigit = true ∧ Nat.digitChar pass ≠ 'q' ∧
    ((Nat.digitChar pass).toUInt8 - '0'.toUInt8).toUInt64 = .ofNat pass := by
  revert pass
  decide

theorem reads_pass (pass : Fin 10) (what : String) :
    Reads (Scan.expectWhere (Char.ofUInt8 · |>.isDigit) what) [Nat.digitChar pass] rest
      (Nat.digitChar pass).toUInt8 := by
  obtain ⟨hlow, hdigit, -⟩ := digitChar_pass pass
  intro s hs
  have hp : (Char.ofUInt8 (Cell.ascii (Nat.digitChar pass)).byte).isDigit = true := by
    rw [← hdigit]
    exact congrArg Char.isDigit (Cell.letter_ascii hlow)
  refine lift_ok ?_
  rw [List.map_singleton, List.singleton_append] at hs
  unfold Scan.expectWhere
  rw [hs]
  exact if_pos hp

theorem reads_specializationHead (c : SignatureChange) :
    Reads specializationHead c.headLetters rest c.head := by
  obtain ⟨hlow, -, hq, hvalue⟩ := digitChar_pass c.pass
  have hfragile : Reads (Scan.accept 'q') (if c.fragile then ['q'] else [])
      ([Nat.digitChar c.pass].map Cell.ascii ++ rest) c.fragile := by
    cases c.fragile with
    | true => exact reads_accept
    | false =>
      refine reads_accept_miss (by decide) (head_letters (· ≠ 'q') ?_ ?_ nofun)
      · exact fun d hd => List.mem_singleton.mp hd ▸ hlow
      · rintro d ⟨⟩
        exact hq
  refine hfragile.bind ?_
  have hread : Reads (Scan.expectWhere (Char.ofUInt8 · |>.isDigit) "a specialization pass id")
      [Nat.digitChar c.pass] rest (Nat.digitChar c.pass).toUInt8 := reads_pass c.pass _
  have hpass := hread.map fun pass =>
    if c.fragile then [leaf .specializationIsFragile,
      ofIndex .specializationPassId (pass - '0'.toUInt8).toUInt64]
    else [ofIndex .specializationPassId (pass - '0'.toUInt8).toUInt64]
  have hhead : c.head = if c.fragile then [leaf .specializationIsFragile,
      ofIndex .specializationPassId (.ofNat c.pass)]
    else [ofIndex .specializationPassId (.ofNat c.pass)] := by
    unfold SignatureChange.head
    split <;> rfl
  rw [hvalue] at hpass
  rw [hhead]
  exact hpass

end Reads

/-! ## What records carry -/

section Attach

variable {s : State} {base : List Symbol}

/-- A change pops its name and, above it, the types it captures. -/
theorem popPayload_eval {change : ParamChange} {name : String} {types : List Symbol}
    (htypes : ∀ t ∈ types, t.kind = .type) (hclosure : types = [] ∨ change = .closure)
    (hs : s.operands = types.reverse ++ ofText .identifier name :: base) :
    popPayload change s = .ok (payloadNode
      (if change == .constantString then unprotect name else name) :: types)
      { s with operands := base } := by
  have hpop := popWhile_types hs (fun t ht => htypes t (List.mem_reverse.mp ht))
    (by rintro x ⟨⟩; exact nofun)
  have hallowed : (types.reverse.isEmpty || change == .closure) = true := by
    rcases hclosure with rfl | rfl
    · rfl
    · simp
  have hname := popKind_hit (k := .identifier)
    (s := { s with operands := ofText .identifier name :: base }) rfl rfl
  unfold popPayload
  rw [bind_ok hpop, hallowed]
  have hensure : ensure true { s with operands := ofText .identifier name :: base } =
    .ok () { s with operands := ofText .identifier name :: base } := rfl
  rw [bind_ok hensure, bind_ok hname, List.reverse_reverse]
  rfl

theorem unprotect_protected (text : String) : unprotect ("_" ++ text) = text := by
  unfold unprotect
  rw [String.toList_append]
  exact String.ofList_toList

/-- A combination of flags carries nothing. -/
theorem carriedChange?_flags (lead : LeadingFlag) {more : List (Char × ParamChange)}
    (h : more.Sublist lead.later) :
    carriedChange? (changeNode (more.foldl (fun v f => v ||| f.2.value) lead.change.value)) = none := by
  have hall : ∀ more ∈ lead.later.sublists,
      carriedChange? (changeNode (more.foldl (fun v f => v ||| f.2.value) lead.change.value)) = none := by
    cases lead <;> decide
  exact hall more (List.mem_sublists.mpr h)

/-- The record of a change is completed by what the change carries. -/
theorem attach_record {record : Symbol} {v : UInt64}
    (hk : record.kind = .functionSignatureSpecializationParam)
    (hv : record.first? = some (changeNode v)) :
    attach record = (carriedChange? (changeNode v)).elim (pure record)
      fun change => do return record.append (← popPayload change) := by
  unfold attach
  rw [hk, hv]
  dsimp only
  cases carriedChange? (changeNode v) with
  | none => rfl
  | some change => rfl

theorem attach_plain {i : Nat} {v : UInt64} {more : List Symbol}
    (hv : carriedChange? (changeNode v) = none) :
    attach (make .functionSignatureSpecializationParam (.index (.ofNat i)) (changeNode v :: more)) s =
      .ok (make .functionSignatureSpecializationParam (.index (.ofNat i)) (changeNode v :: more)) s := by
  rw [attach_record rfl rfl, hv]
  rfl

theorem attach_payload {i : Nat} {v : UInt64} {more payload : List Symbol} {change : ParamChange}
    (hv : carriedChange? (changeNode v) = some change)
    (hpop : popPayload change s = .ok payload { s with operands := base }) :
    attach (make .functionSignatureSpecializationParam (.index (.ofNat i)) (changeNode v :: more)) s =
      .ok (make .functionSignatureSpecializationParam (.index (.ofNat i))
        ((changeNode v :: more) ++ payload)) { s with operands := base } := by
  rw [attach_record rfl rfl, hv, Option.elim_some, bind_ok hpop]
  rfl

/-- **A record gets its own operands**, and leaves what is below them. -/
theorem attach_eval (i : Nat) (r : ParamRecord) (hs : s.operands = r.operands.reverse ++ base) :
    attach (r.unfinished i) s = .ok (r.node i) { s with operands := base } := by
  -- what a record without operands finds on the stack stays there
  have hstay : r.operands = [] → { s with operands := base } = s := by
    intro hnone
    rw [hnone] at hs
    rw [show base = s.operands from hs.symm]
  cases r with
  | unchanged =>
    rw [hstay rfl]
    rfl
  | closure name captured =>
    have htypes : ∀ t ∈ captured.map Subtype.val, t.kind = .type := by
      intro t ht
      obtain ⟨u, -, rfl⟩ := List.mem_map.mp ht
      exact u.2
    rw [ParamRecord.operands, List.reverse_cons, List.append_assoc, List.singleton_append] at hs
    exact attach_payload rfl (popPayload_eval htypes (.inr rfl) hs)
  | constantFunction name | constantGlobal name =>
    exact attach_payload rfl (popPayload_eval (List.forall_mem_nil _) (.inl rfl) hs)
  | constantString encoding text =>
    have hpop : popPayload .constantString s = .ok [payloadNode text] { s with operands := base } := by
      have hnone : ∀ t ∈ ([] : List Symbol), t.kind = .type := List.forall_mem_nil _
      refine (popPayload_eval hnone (.inl rfl) hs).trans ?_
      rw [if_pos (beq_self_eq_true _), unprotect_protected]
      rfl
    exact attach_payload rfl hpop
  | flags lead more ordered =>
    rw [hstay rfl]
    exact attach_plain (carriedChange?_flags lead ordered)
  | constantInteger | constantFloat | exploded | boxToValue | boxToStack =>
    rw [hstay rfl]
    exact attach_plain rfl

/-- Records get their operands from the last one to the first. -/
theorem attachAll_eval (rs : List ParamRecord) : ∀ (acc : List Symbol) (s : State),
    s.operands = (rs.flatMap ParamRecord.operands).reverse ++ base →
    attachAll (rs.mapIdx ParamRecord.unfinished).reverse acc s =
      .ok (rs.mapIdx ParamRecord.node ++ acc) { s with operands := base } := by
  induction rs using List.reverseRecOn with
  | nil =>
    intro acc s hs
    rw [show base = s.operands from hs.symm]
    rfl
  | append_singleton rs r ih =>
    intro acc s hs
    rw [List.flatMap_append, List.flatMap_singleton, List.reverse_append, List.append_assoc] at hs
    rw [List.mapIdx_concat, List.mapIdx_concat, List.reverse_append, List.reverse_singleton,
      List.singleton_append]
    unfold attachAll
    rw [bind_ok (attach_eval rs.length r hs), ih _ _ rfl, List.append_assoc]
    rfl

/-- The record of a result pops nothing. -/
theorem attachAll_result (r : ParamRecord) (records : List Symbol) :
    attachAll (r.result.reverse ++ records) [] s = attachAll records r.result s := by
  cases r <;> rfl

end Attach

/-! ## The operator -/

/-- Reads all that is spelled after the operator. -/
def signatureRecords : Decode (List Symbol × Option UInt64 × List Symbol) := do
  let head ← specializationHead
  let unique ← Scan.integer?
  let params ← paramRecords (← Scan.remaining) 0
  let result ← returnRecord
  return (head, unique, params ++ result)

theorem signatureSpecialization_eq : signatureSpecialization = do
    let (head, unique, records) ← signatureRecords
    let records ← attachAll records.reverse []
    return make .functionSignatureSpecialization (unique.elim .none .index) (head ++ records) := by
  simp only [signatureSpecialization, signatureRecords, bind_assoc, pure_bind]

theorem reads_remaining {rest : List Cell} : Reads Scan.remaining [] rest rest.length := by
  intro s hs
  rw [List.map_nil, List.nil_append] at hs
  rw [List.length_nil, Cursor.advance_zero, ← hs]
  exact lift_ok rfl

/-- The records after the number are read; as many of them as bytes are left are enough. -/
theorem reads_records (c : SignatureChange) {rest : List Cell} {β : Type}
    (f : List Symbol → β) (hb : Cell.atBoundary rest = true)
    (hrest : ∀ x ∈ rest.head?, c.result.goesOn x.letter = false) :
    Reads (do
        let params ← paramRecords (← Scan.remaining) 0
        let result ← returnRecord
        return f (params ++ result))
      (c.params.flatMap ParamRecord.letters ++ '_' :: c.result.letters) rest
      (f (c.params.mapIdx ParamRecord.unfinished ++ c.result.result)) := by
  have hfuel : c.params.length < ((c.params.flatMap ParamRecord.letters ++
      '_' :: c.result.letters).map Cell.ascii ++ rest).length := by
    have hne : ∀ r : ParamRecord, r.letters ≠ [] := by
      intro r
      obtain ⟨d, ds, hr, -⟩ := head_record r
      rw [hr]
      exact List.cons_ne_nil d ds
    have hle := length_le_flatMap hne c.params
    simp only [List.length_append, List.length_map, List.length_cons]
    omega
  have hparams : Reads (paramRecords _ (.ofNat 0)) (c.params.flatMap ParamRecord.letters ++ ['_'])
      (c.result.letters.map Cell.ascii ++ rest) _ := reads_paramRecords c.params _ 0 hfuel
  simp only [Nat.zero_add] at hparams
  have hresult := (reads_returnRecord c.result hb hrest).map fun result =>
    f (c.params.mapIdx ParamRecord.unfinished ++ result)
  refine reads_remaining.bind_nil ?_
  have hall := hparams.bind (f := fun params => do return f (params ++ (← returnRecord))) hresult
  rw [List.append_assoc, List.singleton_append] at hall
  exact hall

/-- All that is spelled after the operator is read. -/
theorem reads_signatureRecords (c : SignatureChange) {rest : List Cell}
    (hb : Cell.atBoundary rest = true) (hrest : ∀ x ∈ rest.head?, c.result.goesOn x.letter = false) :
    Reads signatureRecords c.letters rest
      (c.head, c.unique, c.params.mapIdx ParamRecord.unfinished ++ c.result.result) := by
  have hrecords := reads_records c (fun records => (c.head, c.unique, records)) hb hrest
  obtain ⟨d, ds, hds, hd⟩ := head_records c.params c.result.letters
  have hdigit : (Cell.ascii d).isDigit = false := by
    rw [Cell.isDigit_ascii hd.low]
    exact hd.not_digit
  have hunique : Reads Scan.integer? (c.unique.elim [] (Nat.toDigits 10 ·.toNat))
      ((c.params.flatMap ParamRecord.letters ++ '_' :: c.result.letters).map Cell.ascii ++ rest)
      c.unique := by
    rw [hds]
    exact reads_integer? c.unique hdigit
  exact (reads_specializationHead c).bind (hunique.bind hrecords)

/-- What the operator makes of what is spelled after it and of the operands. -/
theorem signatureSpecialization_eval (c : SignatureChange) {rest : List Cell} {base : List Symbol}
    {s : State} (hs : s.cursor.rest = c.letters.map Cell.ascii ++ rest)
    (hb : Cell.atBoundary rest = true) (hrest : ∀ x ∈ rest.head?, c.result.goesOn x.letter = false)
    (ho : s.operands = c.operands.reverse ++ base) :
    signatureSpecialization s = .ok c.tree
      { s with cursor := s.cursor.advance c.letters.length, operands := base } := by
  have hread := reads_signatureRecords c hb hrest s hs
  have hattach := attachAll_eval c.params c.result.result
    { s with cursor := s.cursor.advance c.letters.length } ho
  rw [signatureSpecialization_eq, bind_ok hread]
  dsimp only
  rw [List.reverse_append, bind_ok ((attachAll_result c.result _).trans hattach)]
  rfl

/-! ## Texts -/

theorem low_signatureLetters (c : SignatureChange) : ∀ d ∈ c.letters, d.toNat < 0x80 := by
  intro d hd
  simp only [SignatureChange.letters, SignatureChange.headLetters, List.mem_append, List.mem_cons,
    List.mem_flatMap, List.not_mem_nil, or_false] at hd
  rcases hd with (hd | rfl) | hd | ⟨r, -, hd⟩ | rfl | hd
  · split at hd
    · rw [List.mem_singleton.mp hd]
      decide
    · cases hd
  · exact (digitChar_pass c.pass).1
  · cases hunique : c.unique with
    | none =>
      rw [hunique] at hd
      cases hd
    | some n =>
      rw [hunique] at hd
      exact Cell.low_of_isDigit_char (Nat.isDigit_of_mem_toDigits (by decide) (by decide) hd)
  · exact low_letters r d hd
  · decide
  · exact low_letters c.result d hd

theorem low_of_goesOn (r : ParamRecord) {c : Char} (h : r.goesOn c = true) : c.toNat < 0x80 := by
  cases r with
  | constantInteger value | constantFloat value => exact Cell.low_of_isDigit_char h
  | flags lead more ordered =>
    obtain ⟨f, hf, hgo⟩ := List.any_eq_true.mp h
    rw [Bool.and_eq_true, beq_iff_eq] at hgo
    rw [← hgo.1]
    exact low_later lead f hf
  | _ => cases h

/-- The first byte of a text goes on with a record only if its first character does. -/
theorem goesOn_ofString (r : ParamRecord) {more : String}
    (h : ∀ c ∈ more.toList.head?, r.goesOn c = false) :
    ∀ x ∈ (Cell.ofString more).head?, r.goesOn x.letter = false := by
  intro x hx
  rw [Bool.eq_false_iff]
  intro hgo
  have hmem : x ∈ Cell.ofString more := List.mem_of_mem_head? hx
  have hne : more ≠ "" := by
    rintro rfl
    cases hx
  obtain ⟨y, ys, hy, hbegins, -⟩ := Cell.ofString_head hne
  obtain rfl : y = x := by
    rw [hy] at hx
    exact Option.some.inj hx
  -- a byte of ASCII is the character it stands for
  have hlow : y.byte.toNat < 0x80 := by
    rw [← Cell.toNat_letter]
    exact low_of_goesOn r hgo
  have hletter := Cell.honest_ofString more y hmem hlow
  rw [hbegins] at hletter
  rw [h _ hletter] at hgo
  cases hgo

/-- **Each record of a signature specialization gets its own payload.** If the operands are those of the
records, from the first to the last one, on top of any others, then the operator with its letters makes
the node whose records hold, in order, their position, their change, what their spelling gives and what
was pushed for them; and it leaves the other operands alone. What follows must not start with a letter that
the last record would take for its own. -/
theorem operator_attaches (c : SignatureChange) (s : State) (base : List Symbol) (more : String)
    (hs : s.cursor.rest = Cell.ofString (c.spelling ++ more))
    (hmore : ∀ d ∈ more.toList.head?, c.result.goesOn d = false)
    (ho : s.operands = c.operands.reverse ++ base) :
    operator s = .ok c.tree
      { s with cursor := s.cursor.advance (Cell.ofString c.spelling).length, operands := base } := by
  have hlow : ∀ d ∈ 'T' :: 'f' :: c.letters, d.toNat < 0x80 := by
    intro d hd
    rcases List.mem_cons.mp hd with rfl | hd
    · decide
    rcases List.mem_cons.mp hd with rfl | hd
    · decide
    exact low_signatureLetters c d hd
  have hcells : Cell.ofString c.spelling = ('T' :: 'f' :: c.letters).map Cell.ascii := by
    rw [Cell.ofString, SignatureChange.spelling, String.toList_ofList, Cell.flatMap_ofChar hlow]
  have hlength : (Cell.ofString c.spelling).length = 1 + (1 + c.letters.length) := by
    rw [hcells, List.length_map, List.length_cons, List.length_cons]
    omega
  rw [Cell.ofString_append, hcells, List.map_cons, List.map_cons, List.cons_append,
    List.cons_append] at hs
  let t : State := { s with cursor := s.cursor.advance 1 }
  have ht : t.cursor.rest = Cell.ascii 'f' :: (c.letters.map Cell.ascii ++ Cell.ofString more) :=
    @Cursor.rest_advance _ [Cell.ascii 'T'] _ hs
  let u : State := { t with cursor := t.cursor.advance 1 }
  have hu : u.cursor.rest = c.letters.map Cell.ascii ++ Cell.ofString more :=
    @Cursor.rest_advance _ [Cell.ascii 'f'] _ ht
  have hthunk : thunk t = signatureSpecialization u :=
    bind_ok (lift_ok (Scan.letter_hit (f := thunk?) ht rfl
      (.expected "a thunk or specialization code"))) _
  have hb : Cell.atBoundary (Cell.ofString more) = true := by
    have hempty := Cell.atBoundary_append more (r := []) rfl
    rwa [List.append_nil] at hempty
  have heval := signatureSpecialization_eval c hu hb (goesOn_ofString c.result hmore) ho
  rw [operator_letter (c := 'T') rfl hs, hlength, ← Cursor.advance_advance, ← Cursor.advance_advance]
  exact hthunk.trans heval

/-- Records of all sorts: names, a string that starts with a digit, captured types and literals between
records that carry nothing. -/
def mixedChange : SignatureChange where
  fragile := true
  pass := 3
  unique := some 12
  params := [
    .closure "f" [⟨standardType .structType "Double", rfl⟩, ⟨standardType .structType "UInt", rfl⟩],
    .unchanged,
    .constantString .u8 "9a",
    .flags .existentialToGeneric [('D', .dead), ('X', .exploded)] (by decide),
    .constantInteger ⟨true, ['4', '2'], nofun, List.all_eq_true.mp rfl⟩,
    .constantFunction "g"]
  result := .flags .ownedToGuaranteed [('O', .guaranteedToOwned)] (by decide)

theorem operator_attaches_mixed :
    mixedChange.spelling = "Tfq312cnpsbeDXpin42pf_gO" ∧
      (mixedChange.params.mapIdx ParamRecord.node).map
          (fun r => (r.index?, r.children.map fun n => (n.kind, n.payload))) =
        [(some 0, [(.functionSignatureSpecializationParamKind, .index 5),
            (.functionSignatureSpecializationParamPayload, .text "f"), (.type, .none), (.type, .none)]),
          (some 1, []),
          (some 2, [(.functionSignatureSpecializationParamKind, .index 4),
            (.functionSignatureSpecializationParamPayload, .text "u8"),
            (.functionSignatureSpecializationParamPayload, .text "9a")]),
          (some 3, [(.functionSignatureSpecializationParamKind, .index 1344)]),
          (some 4, [(.functionSignatureSpecializationParamKind, .index 2),
            (.functionSignatureSpecializationParamPayload, .text "-42")]),
          (some 5, [(.functionSignatureSpecializationParamKind, .index 0),
            (.functionSignatureSpecializationParamPayload, .text "g")])] ∧
      operator { State.ofString (mixedChange.spelling ++ "D") with
          operands := mixedChange.operands.reverse ++ [standardType .structType "Float"] } =
        .ok mixedChange.tree
          { cursor := (Cursor.ofString (mixedChange.spelling ++ "D")).advance
              (Cell.ofString mixedChange.spelling).length
            operands := [standardType .structType "Float"] } :=
  ⟨rfl, rfl, operator_attaches mixedChange _ [standardType .structType "Float"] "D" rfl
    (by rintro d ⟨⟩; rfl) rfl⟩

end Decode

end Demangle
