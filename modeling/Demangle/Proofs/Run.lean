import Demangle.Proofs.Cursor.Eval
import Demangle.Proofs.Decode
import Demangle.Proofs.Operand.Eval

/-!
# Pieces of mangled names as programs

A piece of a mangled name is a program for the stack of operands. `Spells m before after` says what the
piece `m` does wherever it stands: with `before` as operands, running its operators leads to `after`,
whatever follows in the name and whatever is in the tables of substitutions and words. Pieces compose:

    Spells m a b → Spells n b c → Spells (m ++ n) a c                      (Spells.append)

A letter spells what its operator does (`spells_letter`), and the length of a text with the text spells
an identifier (`spells_identifier`).
-/

namespace Demangle

namespace Decode

open Symbol

/-! ## Evaluation of a turn -/

theorem lift_ok {α : Type} {x : Scan α} {s : State} {a : α} {c : Cursor} (h : x s.cursor = .ok a c) :
    (liftM x : Decode α) s = .ok a { s with cursor := c } := by
  show (MonadLift.monadLift x : Decode α) s = _
  simp only [MonadLift.monadLift, h]

theorem operators_done {s : State} (h : s.cursor.rest = []) (n : Nat) :
    operators n s = .ok () s := by
  cases n with
  | zero => rfl
  | succ n =>
    unfold operators
    rw [bind_ok (lift_ok (Scan.isAtEnd_nil h))]
    rfl

theorem operators_turn {s s' : State} (h : Turn s s') (n : Nat) :
    operators (n + 1) s = operators n s' := by
  obtain ⟨hne, x, t, hx, hdepth, rfl⟩ := h
  have hcheck : checkDepth x t = .ok () t := by
    unfold checkDepth ensure
    rw [decide_eq_true hdepth]
    rfl
  rw [operators, bind_ok (lift_ok (Scan.isAtEnd_of_ne hne))]
  simp only [Bool.false_eq_true, if_false]
  rw [bind_ok hx, bind_ok hcheck]
  rfl

/-! ## Spelling -/

/-- The piece leads from the operands `before` to the operands `after`. Its operators are no more than
its bytes. -/
def Spells (m : String) (before after : List Symbol) : Prop :=
  ∀ (s : State) (rest : List Cell), s.cursor.rest = Cell.ofString m ++ rest →
    Cell.atBoundary rest = true → s.operands = before →
    ∃ s', s'.cursor = s.cursor.advance (Cell.ofString m).length ∧ s'.operands = after ∧
      ∃ k ≤ (Cell.ofString m).length, ∀ fuel, operators (k + fuel) s = operators fuel s'

theorem spells_empty (operands : List Symbol) : Spells "" operands operands := by
  intro s rest _ _ hs
  refine ⟨s, (s.cursor.advance_zero).symm, hs, 0, Nat.zero_le _, fun fuel => ?_⟩
  rw [Nat.zero_add]

/-- **Pieces compose.** -/
theorem Spells.append {m n : String} {a b c : List Symbol} (hm : Spells m a b) (hn : Spells n b c) :
    Spells (m ++ n) a c := by
  intro s rest hs hrest ha
  rw [Cell.ofString_append, List.append_assoc] at hs
  obtain ⟨t, ht, hb, k, hk, hrun⟩ := hm s _ hs (Cell.atBoundary_append n hrest) ha
  have hrest' : t.cursor.rest = Cell.ofString n ++ rest := by
    rw [ht]
    exact Cursor.rest_advance hs
  obtain ⟨u, hu, hc, l, hl, hrun'⟩ := hn t rest hrest' hrest hb
  refine ⟨u, ?_, hc, k + l, ?_, fun fuel => ?_⟩
  · rw [hu, ht, Cursor.advance_advance, Cell.ofString_append, List.length_append]
  · rw [Cell.ofString_append, List.length_append]
    omega
  · rw [Nat.add_assoc, hrun, hrun']

/-- A piece read by one operator. -/
theorem spells_operator {m : String} {before below : List Symbol} {x : Symbol} (hm : m ≠ "")
    (hx : x.depth ≤ nestingLimit)
    (h : ∀ (s : State) (rest : List Cell), s.cursor.rest = Cell.ofString m ++ rest →
      Cell.atBoundary rest = true → s.operands = before →
      ∃ t, operator s = .ok x t ∧ t.cursor = s.cursor.advance (Cell.ofString m).length ∧
        t.operands = below) :
    Spells m before (x :: below) := by
  intro s rest hs hrest hb
  obtain ⟨t, hop, hcursor, hbelow⟩ := h s rest hs hrest hb
  obtain ⟨y, ys, hy, -⟩ := Cell.ofString_head hm
  have hturn : Turn s { t with operands := x :: t.operands } := by
    refine ⟨?_, x, t, hop, hx, rfl⟩
    rw [hs, hy]
    exact List.cons_ne_nil _ _
  refine ⟨{ t with operands := x :: t.operands }, hcursor, ?_, 1, ?_, fun fuel => ?_⟩
  · rw [hbelow]
  · rw [hy]
    exact Nat.succ_le_succ (Nat.zero_le _)
  · rw [Nat.add_comm]
    exact operators_turn hturn fuel

/-! ## Letters -/

/-- The operators that are told by a letter start with nothing else. -/
theorem operator?_letter {c : Char} {run : Decode Symbol} (h : operator? c = some run) :
    c.toNat < 0x80 ∧ c.isDigit = false ∧ (c == '.') = false ∧ isReferenceByte c = false := by
  unfold operator? at h
  split at h <;> cases h <;> decide

theorem operator_letter {c : Char} {run : Decode Symbol} (h : operator? c = some run) {s : State}
    {r : List Cell} (hs : s.cursor.rest = Cell.ascii c :: r) :
    operator s = run { s with cursor := s.cursor.advance 1 } := by
  obtain ⟨hlow, hdigit, hdot, href⟩ := operator?_letter h
  unfold operator
  rw [bind_ok (lift_ok (Scan.peek?_ascii hlow hs))]
  simp only [hdigit, hdot, href, Bool.false_eq_true, if_false, h]
  exact bind_ok (lift_ok (Scan.next_cons hs)) _

/-- A letter spells what its operator does, if that reads no further. -/
theorem spells_letter {c : Char} {run : Decode Symbol} {before below : List Symbol} {x : Symbol}
    (hc : operator? c = some run) (hx : x.depth ≤ nestingLimit)
    (h : ∀ s : State, s.operands = before →
      ∃ t, run s = .ok x t ∧ t.cursor = s.cursor ∧ t.operands = below) :
    Spells (String.singleton c) before (x :: below) := by
  have hcells := Cell.ofString_singleton (operator?_letter hc).1
  refine spells_operator (by simp) hx fun s rest hs _ hb => ?_
  rw [hcells] at hs ⊢
  obtain ⟨t, hrun, hcursor, hbelow⟩ := h { s with cursor := s.cursor.advance 1 } hb
  exact ⟨t, (operator_letter hc hs).trans hrun, hcursor, hbelow⟩

/-! ## Identifiers -/

/-- A text that can be spelled by its size and itself. Its size fits into a machine word, as that of
every text in memory does. -/
structure IsName (text : String) : Prop where
  nonempty : text ≠ ""
  first : ∀ c ∈ text.toList.head?, c.isDigit = false
  short : text.utf8ByteSize < UInt64.size

theorem toDigits_head (n : Nat) (hn : 0 < n) : ∀ c ∈ (Nat.toDigits 10 n).head?, c ≠ '0' := by
  induction n using Nat.strongRecOn with
  | ind n ih =>
    by_cases hlt : n < 10
    · have hsmall : ∀ m < 10, 0 < m → m.digitChar ≠ '0' := by decide
      rw [Nat.toDigits_of_lt_base hlt]
      intro c hc
      cases hc
      exact hsmall n hlt hn
    · rw [Nat.toDigits_of_base_le (by decide) (by omega),
        List.head?_append_of_ne_nil _ Nat.toDigits_ne_nil]
      exact ih (n / 10) (by omega) (by omega)

/-- The spelling of a number other than 0 begins with a digit other than 0. -/
theorem toString_head {n : Nat} (hn : 0 < n) : ∃ d ds,
    Cell.ofString (toString n) = Cell.ascii d :: ds ∧ d.isDigit = true ∧ d ≠ '0' := by
  obtain ⟨d, ds, hd⟩ : ∃ d ds, Nat.toDigits 10 n = d :: ds :=
    List.exists_cons_of_ne_nil Nat.toDigits_ne_nil
  refine ⟨d, ds.map Cell.ascii, ?_, ?_, toDigits_head n hn d (by rw [hd]; rfl)⟩
  · rw [Cell.ofString_toString, hd]
    rfl
  · exact Nat.isDigit_of_mem_toDigits (b := 10) (by decide) (by decide)
      (by rw [hd]; exact List.mem_cons_self)

/-- The first byte of a name is no digit. -/
theorem IsName.head {text : String} (hn : IsName text) :
    ∃ x r, Cell.ofString text = x :: r ∧ x.isDigit = false ∧ x.begins.isSome = true := by
  obtain ⟨x, r, hx, hbegins, hsome⟩ := Cell.ofString_head hn.nonempty
  refine ⟨x, r, hx, ?_, Option.isSome_iff_ne_none.mpr hsome⟩
  by_contra hdigit
  rw [Bool.not_eq_false] at hdigit
  have honest := Cell.honest_ofString text x (by rw [hx]; exact List.mem_cons_self)
  have hletter := honest (Cell.low_of_isDigit hdigit)
  rw [hbegins] at hletter
  have hfirst := hn.first x.letter hletter
  rw [Cell.isDigit, hfirst] at hdigit
  cases hdigit

theorem IsName.size_pos {text : String} (hn : IsName text) : 0 < text.utf8ByteSize := by
  refine Nat.pos_of_ne_zero fun h => hn.nonempty ?_
  exact String.utf8ByteSize_eq_zero_iff.mp h

theorem segment_name {text : String} (hn : IsName text) {s : State} {r : List Cell}
    (hr : Cell.atBoundary r = true) (hs : s.cursor.rest =
      Cell.ofString (toString text.utf8ByteSize) ++ (Cell.ofString text ++ r)) :
    segment s = .ok text { s with
      cursor := s.cursor.advance (Cell.ofString (toString text.utf8ByteSize ++ text)).length
      words := s.words.record text } := by
  obtain ⟨x, xs, hx, hdigit, hbegins⟩ := hn.head
  have hdigits : s.cursor.rest =
      Cell.ofString (toString text.utf8ByteSize) ++ x :: (xs ++ r) := by
    rw [hs, hx]
    rfl
  have hint := integer?_toString hn.short hdigit hdigits
  have hint' : Scan.integer s.cursor = .ok (UInt64.ofNat text.utf8ByteSize)
      (s.cursor.advance (Cell.ofString (toString text.utf8ByteSize)).length) :=
    bind_ok hint _
  have hsize : (UInt64.ofNat text.utf8ByteSize).toNat = text.utf8ByteSize :=
    UInt64.toNat_ofNat_of_lt' hn.short
  have hpos : (0 : UInt64) < UInt64.ofNat text.utf8ByteSize := by
    rw [UInt64.lt_iff_toNat_lt, hsize]
    exact hn.size_pos
  have hrest := Cursor.rest_advance hs
  have hstart : Cell.atBoundary
      (s.cursor.advance (Cell.ofString (toString text.utf8ByteSize)).length).rest = true := by
    rw [hrest, hx]
    exact hbegins
  have htake := Scan.take_text hr hrest hstart
  have hlength : segmentLength s = .ok text.utf8ByteSize { s with
      cursor := s.cursor.advance (Cell.ofString (toString text.utf8ByteSize)).length } := by
    unfold segmentLength
    rw [bind_ok (lift_ok hint'), decide_eq_true hpos, hsize]
    rfl
  rw [Cursor.advance_advance, ← List.length_append, ← Cell.ofString_append] at htake
  have hlift : (liftM (Scan.take text.utf8ByteSize) : Decode String) { s with
      cursor := s.cursor.advance (Cell.ofString (toString text.utf8ByteSize)).length } =
      .ok text { s with
        cursor := s.cursor.advance (Cell.ofString (toString text.utf8ByteSize ++ text)).length } :=
    lift_ok htake
  unfold segment
  rw [bind_ok hlength, bind_ok hlift]
  rfl

/-- A digit other than 0 begins the size of a text. -/
theorem identifierText_digit {d : Char} (hdigit : d.isDigit = true) (hzero : d ≠ '0') {s : State}
    {r : List Cell} (hs : s.cursor.rest = Cell.ascii d :: r) : identifierText s = segment s := by
  have hpeek := Scan.peek?_ascii (Cell.low_of_isDigit_char hdigit) hs
  obtain ⟨o, ho⟩ : ∃ o, o = some d := ⟨_, rfl⟩
  rw [← ho] at hpeek
  unfold identifierText
  rw [bind_ok (lift_ok hpeek)]
  split
  · exact absurd (Option.some.inj ho).symm hzero
  · cases ho
    rw [if_pos hdigit]
  · cases ho

/-- **The size of a text and the text spell an identifier.** -/
theorem spells_identifier {text : String} (hn : IsName text) (operands : List Symbol) :
    Spells (toString text.utf8ByteSize ++ text) operands (ofText .identifier text :: operands) := by
  have hne : toString text.utf8ByteSize ++ text ≠ "" := by
    rw [Ne, String.append_eq_empty_iff]
    exact fun h => hn.nonempty h.2
  have hdepth : (ofText .identifier text).depth ≤ nestingLimit := by
    show 1 ≤ nestingLimit
    decide
  refine spells_operator hne hdepth fun s rest hs hrest hb => ?_
  rw [Cell.ofString_append, List.append_assoc] at hs
  obtain ⟨d, ds, hd, hdigit, hzero⟩ := toString_head hn.size_pos
  have hhead : s.cursor.rest = Cell.ascii d :: (ds ++ (Cell.ofString text ++ rest)) := by
    rw [hs, hd]
    rfl
  have hpeek := Scan.peek?_ascii (Cell.low_of_isDigit_char hdigit) hhead
  have htext := identifierText_digit hdigit hzero hhead
  have hseg := segment_name hn hrest hs
  have hnotEmpty : (!text.isEmpty) = true := by
    simpa using hn.nonempty
  refine ⟨{ s with
      cursor := s.cursor.advance (Cell.ofString (toString text.utf8ByteSize ++ text)).length
      words := s.words.record text
      substitutions := s.substitutions.push (ofText .identifier text) }, ?_, rfl, hb⟩
  unfold operator
  rw [bind_ok (lift_ok hpeek)]
  dsimp only
  rw [if_pos hdigit]
  unfold identifier
  rw [bind_ok (htext.trans hseg), hnotEmpty]
  rfl

/-! ## Whole names -/

/-- The first start that a name does not differ from is read. -/
theorem readStart_first {start : String} {legacy : Bool} (hne : start ≠ "")
    (others : List (String × Bool)) {s : State} {r : List Cell}
    (hs : s.cursor.rest = Cell.ofString start ++ r) : ∀ earlier : List (String × Bool),
    (∀ e ∈ earlier, ((Cell.ofString e.1).zip (Cell.ofString start)).any
      (fun p => p.1.byte != p.2.byte) = true) →
    readStart (earlier ++ (start, legacy) :: others) s =
      .ok () { s with
        cursor := s.cursor.advance (Cell.ofString start).length, legacyLabels := legacy } := by
  intro earlier
  induction earlier with
  | nil =>
    intro _
    exact bind_ok (lift_ok (Scan.acceptText_hit hne hs)) _
  | cons e earlier ih =>
    intro hd
    have hmiss := Scan.acceptText_differ (hd e List.mem_cons_self) hs
    refine (bind_ok (lift_ok hmiss) _).trans ?_
    exact ih fun e' he' => hd e' (List.mem_cons_of_mem _ he')

/-- The starts of current names, in which labels are not part of the tuple type. -/
def currentStarts : List String :=
  ["$s", "$S", "_$s", "_$S"]

/-- The start of a current name is read as such. -/
theorem readStart_current {start : String} (h : start ∈ currentStarts) {s : State} {r : List Cell}
    (hs : s.cursor.rest = Cell.ofString start ++ r) :
    readStart starts s = .ok () { s with
      cursor := s.cursor.advance (Cell.ofString start).length, legacyLabels := false } := by
  simp only [currentStarts, List.mem_cons, List.not_mem_nil, or_false] at h
  rcases h with rfl | rfl | rfl | rfl
  · exact readStart_first (by decide) [("_$s", false)] hs
      [("_T0", true), ("$S", false), ("_$S", false)] (by decide)
  · exact readStart_first (by decide) [("_$S", false), ("$s", false), ("_$s", false)] hs
      [("_T0", true)] (by decide)
  · exact readStart_first (by decide) [] hs
      [("_T0", true), ("$S", false), ("_$S", false), ("$s", false)] (by decide)
  · exact readStart_first (by decide) [("$s", false), ("_$s", false)] hs
      [("_T0", true), ("$S", false)] (by decide)

/-- One operand that is neither an attribute nor a type becomes the only child of the root. -/
theorem fold_single {s : State} {x : Symbol} (hs : s.operands = [x])
    (hattribute : x.kind.isFunctionAttribute = false) (htype : x.kind ≠ .type)
    (hdepth : (node .global [x]).depth ≤ nestingLimit) :
    fold s = .ok (node .global [x]) { s with operands := [] } := by
  have hwhile : popWhile Kind.isFunctionAttribute s = .ok [] s := by
    unfold popWhile
    rw [hs]
    simp only [List.takeWhile_cons, List.dropWhile_cons, hattribute]
    rw [← hs]
    rfl
  have hopen : openType x { s with operands := [] } = .ok x { s with operands := [] } := by
    unfold openType
    rw [if_neg (by simpa using htype)]
    rfl
  have hall : popAll s = .ok [x] { s with operands := [] } := by
    unfold popAll
    rw [hs]
  have hmap : List.mapM openType [x].reverse { s with operands := [] } =
      .ok [x] { s with operands := [] } := by
    rw [List.reverse_singleton, List.mapM_cons, bind_ok hopen, List.mapM_nil]
    rfl
  have hroot : (leaf .global).push x = node .global [x] := push_eq_make (s := leaf .global) rfl x
  have hcheck : checkDepth (node .global [x]) { s with operands := [] } =
      .ok () { s with operands := [] } := by
    unfold checkDepth ensure
    rw [decide_eq_true hdepth]
    rfl
  unfold fold
  rw [bind_ok hwhile, bind_ok hall, bind_ok hmap]
  show (do
    ensure (!((leaf .global).push x).children.isEmpty)
    checkDepth ((leaf .global).push x)
    return (leaf .global).push x : Decode Symbol) { s with operands := [] } = _
  rw [hroot]
  exact bind_ok hcheck _

/-- **A piece that leaves one operand spells a whole name.** -/
theorem decode_of_spells {m : String} {x : Symbol} (h : Spells m [] [x])
    (hattribute : x.kind.isFunctionAttribute = false) (htype : x.kind ≠ .type)
    (hdepth : (node .global [x]).depth ≤ nestingLimit) :
    decode ("$s" ++ m) = .ok (node .global [x]) := by
  let s := State.ofString ("$s" ++ m)
  let t : State := { s with cursor := s.cursor.advance 2, legacyLabels := false }
  have hs : s.cursor.rest = Cell.ofString "$s" ++ Cell.ofString m := Cell.ofString_append _ _
  have hbridged : Scan.acceptText "_Tt" s.cursor = .ok false s.cursor :=
    Scan.acceptText_differ (by decide) hs
  have hstart : readStart starts s = .ok () t := readStart_current (by decide) hs
  have ht : t.cursor.rest = Cell.ofString m ++ [] := by
    rw [List.append_nil]
    have hadvance : t.cursor.rest = Cell.ofString m := Cursor.rest_advance hs
    exact hadvance
  obtain ⟨u, hu, hx, k, hk, hrun⟩ := h t [] ht rfl rfl
  have hdone : u.cursor.rest = [] := by
    rw [hu]
    exact Cursor.rest_advance ht
  have hremaining : Scan.remaining t.cursor = .ok (k + ((Cell.ofString m).length - k)) t.cursor := by
    unfold Scan.remaining
    rw [ht, List.append_nil, Nat.add_sub_cancel' hk]
  have hops : operators (k + ((Cell.ofString m).length - k)) t = .ok () u := by
    rw [hrun]
    exact operators_done hdone _
  have hsymbol : Decode.symbol s = .ok (node .global [x]) { u with operands := [] } := by
    unfold Decode.symbol
    rw [bind_ok (lift_ok hbridged)]
    simp only [Bool.false_eq_true, if_false]
    rw [bind_ok hstart, bind_ok (lift_ok hremaining), bind_ok hops]
    exact fold_single hx hattribute htype hdepth
  unfold decode
  rw [hsymbol]

end Decode

end Demangle
