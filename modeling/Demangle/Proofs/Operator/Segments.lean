import Mathlib.Algebra.Group.Nat.Defs
import Demangle.Proofs.Cursor.Actions
import Demangle.Proofs.Numbering
import Demangle.Proofs.Suffix

/-!
# Lengths of segments are read greedily

The text of an identifier is made of parts: words of earlier identifiers and segments of the input
(`identifierParts`, which reads the same text as `identifierText`). The digits in front of a segment are all
taken for its length, except that no number takes the last byte of the input.
-/

namespace Demangle

/-! ## Parts -/

/-- A part of the text of an identifier, by the way it is spelled. -/
inductive TextPart where
  | word (text : String)
  | segment (text : String)
  | punycode (text : String)

namespace TextPart

def text : TextPart → String
  | .word t | .segment t | .punycode t => t

/-- The text that the parts make. -/
def join : List TextPart → String
  | [] => ""
  | p :: ps => p.text ++ join ps

end TextPart

namespace Decode

open TextPart

/-- Reads words and segments as parts. -/
def wordParts : Nat → Decode (List TextPart)
  | 0 => fail .noInteger
  | fuel + 1 => do
    match ← Scan.letter? wordLetter? with
    | some (i, last) => do
      let word ← require (← get).words[i]?
      if !last then return .word word :: (← wordParts fuel)
      else if ← Scan.accept '0' then return [.word word]
      else return [.word word, .segment (← segment)]
    | none =>
      if ← Scan.accept '0' then return []
      else do
        let text ← segment
        return .segment text :: (← wordParts fuel)

/-- Reads the parts of an identifier. -/
def identifierParts : Decode (List TextPart) := do
  match ← Scan.peek? with
  | some '0' => do
    let _ ← Scan.next
    if ← Scan.accept '0' then
      if ← Scan.accept '0' then return [] else return [.punycode (← punycodeSegment)]
    else wordParts (← Scan.remaining)
  | some c =>
    if c.isDigit then return [.segment (← segment)] else fail (.expected "an identifier length")
  | none => fail (.expected "an identifier length")

theorem wordsAndSegments_eq (fuel : Nat) : ∀ acc : String,
    wordsAndSegments fuel acc = (acc ++ join ·) <$> wordParts fuel := by
  induction fuel with
  | zero => exact fun acc => rfl
  | succ fuel ih =>
    intro acc
    rw [wordsAndSegments, wordParts, map_bind]
    refine bind_congr fun o => ?_
    cases o with
    | some letter =>
      obtain ⟨i, last⟩ := letter
      simp only [map_bind]
      refine bind_congr fun s => bind_congr fun word => ?_
      cases last with
      | false => simp [ih, join, TextPart.text, String.append_assoc]
      | true =>
        simp only [Bool.not_true, Bool.false_eq_true, if_false, map_bind]
        refine bind_congr fun closed => ?_
        cases closed <;> simp [join, TextPart.text, String.append_assoc]
    | none =>
      simp only [map_bind]
      refine bind_congr fun closed => ?_
      cases closed <;> simp [ih, join, TextPart.text, String.append_assoc]

/-- **The parts of an identifier make its text.** -/
theorem identifierText_eq : identifierText = join <$> identifierParts := by
  rw [identifierText, identifierParts, map_bind]
  refine bind_congr fun o => ?_
  split
  · simp only [map_bind]
    refine bind_congr fun _ => bind_congr fun again => ?_
    cases again with
    | true =>
      simp only [if_true, map_bind]
      refine bind_congr fun empty => ?_
      cases empty <;> simp [join, TextPart.text]
    | false => simp [wordsAndSegments_eq]
  · next c hc =>
    by_cases hdigit : c.isDigit = true
    · simp [hdigit, join, TextPart.text]
    · simp only [hdigit]
      rfl
  · rfl

end Decode

/-! ## Digits in front of a segment -/

namespace Cell

/-- A cell at which a character of ASCII begins is the cell of that character. -/
theorem eq_ascii {m : String} {x : Cell} {c : Char} (hx : x ∈ ofString m) (hbegins : x.begins = some c)
    (hc : c.toNat < 0x80) : x = ascii c := by
  obtain ⟨d, -, hd⟩ := List.mem_flatMap.mp hx
  obtain ⟨b, bs, -, hcells⟩ := ofChar_eq d
  have hmem := hd
  rw [hcells] at hmem
  rcases List.mem_cons.mp hmem with rfl | hmem
  · cases hbegins
    rw [ofChar_ascii hc] at hd
    exact List.mem_singleton.mp hd
  · obtain ⟨b', -, rfl⟩ := List.mem_map.mp hmem
    cases hbegins

theorem eq_ascii_of_letter {m : String} {x : Cell} {c : Char} (hx : x ∈ ofString m)
    (hletter : x.letter = c) (hc : c.toNat < 0x80) : x = ascii c := by
  have hlow : x.byte.toNat < 0x80 := by
    rw [← toNat_letter, hletter]
    exact hc
  have hbegins : x.begins = some x.letter := honest_ofString m x hx hlow
  exact eq_ascii hx (hletter ▸ hbegins) hc

end Cell

/-- A run of digits stops in front of a digit only if that is the last byte. -/
theorem digitRun_stops {r after : List Cell} {x : Cell} (h : r.drop (digitRun r).length = x :: after)
    (hx : x.isDigit = true) : after = [] := by
  fun_induction digitRun r with
  | case1 d c r hd ih => exact ih h
  | case2 d c r hd =>
    cases h
    exact absurd hx hd
  | case3 r hr =>
    obtain rfl : r = x :: after := h
    cases after with
    | nil => rfl
    | cons y after => exact absurd rfl (hr x y after)

/-- Each digit more makes the value ten times as large at least. -/
theorem le_decimal {ds : List Cell} : ∀ {v w : Nat}, decimal v ds = .ok w →
    v * 10 ^ ds.length ≤ w := by
  induction ds with
  | nil =>
    intro v w h
    cases h
    simp
  | cons d ds ih =>
    intro v w h
    simp only [decimal] at h
    split at h
    · split at h
      · next u hu =>
        cases h
        have hle := ih hu
        rw [List.length_cons, Nat.pow_succ, Nat.mul_comm _ 10, ← Nat.mul_assoc]
        exact Nat.le_trans (Nat.mul_le_mul_right _ (Nat.le_add_right _ _)) hle
      · cases h
    · cases h

/-- Digits that are worth 1 and do not begin with 0 are that digit alone. -/
theorem digits_of_one {ds : List Cell} (h : decimal 0 ds = .ok 1) (hds : ∀ x ∈ ds, x.isDigit = true)
    (hfirst : ∀ x ∈ ds.head?, x.letter ≠ '0') : ∃ one, ds = [one] ∧ one.letter = '1' := by
  obtain ⟨read, one, rfl, hone⟩ := Scan.last_of_decimal_one h
  cases read with
  | nil => exact ⟨one, rfl, hone⟩
  | cons d read =>
    obtain ⟨-, hletter⟩ := Cell.digit_spec (hds d List.mem_cons_self)
    have hpos : 0 < d.digit := by
      refine Nat.pos_of_ne_zero fun hzero => hfirst d rfl ?_
      rw [hzero] at hletter
      exact hletter.symm
    have htail : decimal (0 * 10 + d.digit) (read ++ [one]) = .ok 1 := by
      simp only [List.cons_append, decimal] at h
      split at h
      · split at h
        · next w hw =>
          cases h
          exact hw
        · cases h
      · cases h
    have hle := le_decimal htail
    rw [List.length_append, List.length_singleton, Nat.pow_succ] at hle
    have htens : 0 < 10 ^ read.length := Nat.pow_pos (by decide)
    have hten : 1 * (1 * 10) ≤ (0 * 10 + d.digit) * (10 ^ read.length * 10) :=
      Nat.mul_le_mul (by omega) (Nat.mul_le_mul_right 10 htens)
    exact absurd (Nat.le_trans hten hle) (by decide)

/-! ## Segments -/

/-- The text begins with a character that is no digit. -/
def StartsPlain (text : String) : Prop :=
  ∃ c cs, text.toList = c :: cs ∧ c.isDigit = false

namespace Decode

/-- What a segment consists of: the digits of its length, and as many bytes, one at least. -/
structure IsSegment (s s' : State) (text : String) (digits body : List Cell) : Prop where
  run : digits = digitRun s.cursor.rest
  length : decimal 0 digits = .ok body.length
  nonempty : body ≠ []
  boundary : Cell.atBoundary body = true
  text_eq : text = Cell.text body
  cells : s.cursor.rest = digits ++ body ++ s'.cursor.rest
  words : s'.words = s.words.record text

theorem segment_eq_ok {s s' : State} {text : String} (h : segment s = .ok text s') :
    ∃ digits body, IsSegment s s' text digits body := by
  obtain ⟨n, s₁, hlength, h⟩ := bind_eq_ok h
  obtain ⟨v, s₂, hinteger, hlength⟩ := bind_eq_ok hlength
  obtain ⟨_, s₃, hensure, hlength⟩ := bind_eq_ok hlength
  obtain ⟨hpos, rfl⟩ := ensure_eq_ok hensure
  cases hlength
  obtain ⟨c, hc, rfl⟩ := lift_eq_ok hinteger
  obtain ⟨w, -, hdecimal, rfl, rfl⟩ := Scan.integer_eq_ok hc
  obtain ⟨t, s₄, htake, h⟩ := bind_eq_ok h
  cases h
  obtain ⟨d, hd, rfl⟩ := lift_eq_ok htake
  let digits := digitRun s.cursor.rest
  let behind := s.cursor.rest.drop digits.length
  have hdigits : s.cursor.rest = digits ++ behind :=
    (List.prefix_iff_eq_append.mp (digitRun_spec s.cursor.rest).2).symm
  have hpos' : 0 < v.toNat := of_decide_eq_true hpos
  obtain ⟨hle, hstart, -, rfl, rfl⟩ := Scan.take_eq_ok hd
  have hlength : (behind.take v.toNat).length = v.toNat := by
    rw [List.length_take]
    exact Nat.min_eq_left hle
  refine ⟨digits, behind.take v.toNat, rfl, ?_, ?_, ?_, rfl, ?_, rfl⟩
  · rw [hlength]
    exact hdecimal
  · refine List.ne_nil_of_length_pos ?_
    omega
  · obtain ⟨n, hn⟩ := Nat.exists_eq_succ_of_ne_zero (Nat.ne_of_gt hpos')
    rw [hn]
    cases hbehind : behind with
    | nil => rfl
    | cons x r => exact (congrArg Cell.atBoundary hbehind).symm.trans hstart
  · rw [List.append_assoc]
    show _ = digits ++ (behind.take v.toNat ++ behind.drop v.toNat)
    rw [List.take_append_drop]
    exact hdigits

variable {m : String} {s s' : State}

theorem mem_input (hreach : (Cursor.ofString m).Reaches s.cursor) {x : Cell} (hx : x ∈ s.cursor.rest) :
    x ∈ Cell.ofString m := by
  have hcells : s.cursor.cells = Cell.ofString m := hreach.cells_eq
  rw [← hcells]
  exact List.mem_append_right _ hx

/-- **A segment begins with a digit only if that is the last byte of the input**, behind the length 1. -/
theorem segment_start (hreach : (Cursor.ofString m).Reaches s.cursor)
    (hzero : ∀ x ∈ s.cursor.rest.head?, x.letter ≠ '0') {text : String}
    (h : segment s = .ok text s') : StartsPlain text ∨
      ∃ d, d.isDigit = true ∧ text = String.singleton d ∧
        s.cursor.rest = [Cell.ascii '1', Cell.ascii d] ∧ s'.cursor.rest = [] := by
  obtain ⟨digits, body, hsegment⟩ := segment_eq_ok h
  obtain ⟨x, body, rfl⟩ := List.exists_cons_of_ne_nil hsegment.nonempty
  have hcells := hsegment.cells
  have hinput : ∀ y ∈ s.cursor.rest, y ∈ Cell.ofString m := fun y => mem_input hreach
  have hx : x ∈ Cell.ofString m := hinput x (by rw [hcells]; simp)
  obtain ⟨c, hc⟩ : ∃ c, x.begins = some c := Option.isSome_iff_exists.mp hsegment.boundary
  have htext : text.toList = c :: body.filterMap Cell.begins := by
    rw [hsegment.text_eq, Cell.toList_text, List.filterMap_cons_some hc]
  by_cases hdigit : c.isDigit = true
  · have hlow := Cell.low_of_isDigit_char hdigit
    obtain rfl : x = Cell.ascii c := Cell.eq_ascii hx hc hlow
    -- the run of digits has left a digit
    have hdrop : s.cursor.rest.drop digits.length = Cell.ascii c :: (body ++ s'.cursor.rest) := by
      rw [hcells, List.append_assoc, List.drop_left]
      rfl
    have hlast : body ++ s'.cursor.rest = [] := by
      refine digitRun_stops (hsegment.run ▸ hdrop) ?_
      rw [Cell.isDigit_ascii hlow]
      exact hdigit
    obtain ⟨rfl, hend⟩ := List.append_eq_nil_iff.mp hlast
    have hone : ∃ one, digits = [one] ∧ one.letter = '1' := by
      refine digits_of_one hsegment.length ?_ ?_
      · rw [hsegment.run]
        exact (digitRun_spec _).1
      · intro y hy
        refine hzero y ?_
        cases digits with
        | nil => cases hy
        | cons d ds =>
          rw [hcells]
          exact hy
    obtain ⟨one, rfl, hletter⟩ := hone
    have hfirst : one = Cell.ascii '1' :=
      Cell.eq_ascii_of_letter (hinput one (by rw [hcells]; simp)) hletter (by decide)
    refine .inr ⟨c, hdigit, ?_, ?_, hend⟩
    · refine String.toList_inj.mp ?_
      rw [htext, String.toList_singleton]
      rfl
    · rw [hcells, hend, hfirst]
      rfl
  · exact .inl ⟨c, _, htext, Bool.eq_false_iff.mpr hdigit⟩

/-! ## Words and segments -/

/-- No segment among the parts begins with a digit. -/
def Greedy (ps : List TextPart) : Prop :=
  ∀ t, TextPart.segment t ∈ ps → StartsPlain t

theorem greedy_word {w : String} {ps : List TextPart} (h : Greedy ps) : Greedy (.word w :: ps) := by
  intro t ht
  rcases List.mem_cons.mp ht with ht | ht
  · cases ht
  · exact h t ht

theorem greedy_segment {t : String} {ps : List TextPart} (ht : StartsPlain t) (h : Greedy ps) :
    Greedy (.segment t :: ps) := by
  intro u hu
  rcases List.mem_cons.mp hu with hu | hu
  · cases hu
    exact ht
  · exact h u hu

theorem suffix_of_reaches {c d : Cursor} (h : c.Reaches d) : d.rest <:+ c.rest := by
  obtain ⟨n, rfl⟩ := h
  exact List.drop_suffix n c.rest

/-- The last part is a segment of one digit at the end of the input, and the others are as usual. -/
structure LeavesDigit (s s' : State) (ps : List TextPart) (earlier : List TextPart) (d : Char) :
    Prop where
  parts : ps = earlier ++ [.segment (String.singleton d)]
  greedy : Greedy earlier
  digit : d.isDigit = true
  spelled : [Cell.ascii '1', Cell.ascii d] <:+ s.cursor.rest
  atEnd : s'.cursor.rest = []

/-- One part more in front. -/
theorem LeavesDigit.cons {t : State} {ps earlier : List TextPart} {p : TextPart} {d : Char}
    (h : LeavesDigit t s' ps earlier d) (hreach : s.cursor.Reaches t.cursor)
    (hgreedy : Greedy (p :: earlier)) : LeavesDigit s s' (p :: ps) (p :: earlier) d where
  parts := by
    rw [h.parts]
    rfl
  greedy := hgreedy
  digit := h.digit
  spelled := h.spelled.trans (suffix_of_reaches hreach)
  atEnd := h.atEnd

theorem letter_missed {α : Type} {f : Char → Option α} {t : State}
    (h : (liftM (Scan.letter? f) : Decode (Option α)) s = .ok none t) : t = s := by
  obtain ⟨d, hd, rfl⟩ := lift_eq_ok h
  unfold Scan.letter? at hd
  split at hd
  · cases hd
  · cases hd
    rfl

theorem accept_missed {c : Char} (hc : c.toNat < 0x80) {t : State}
    (h : (liftM (Scan.accept c) : Decode Bool) s = .ok false t) :
    t = s ∧ ∀ x ∈ s.cursor.rest.head?, x.letter ≠ c := by
  obtain ⟨d, hd, rfl⟩ := lift_eq_ok h
  unfold Scan.accept Scan.acceptByte at hd
  split at hd
  · next x r hr =>
    split at hd
    · cases hd
    · next hx =>
      cases hd
      refine ⟨rfl, fun y hy hletter => hx ?_⟩
      rw [hr] at hy
      cases hy
      rw [← Cell.letter_ascii hc] at hletter
      have hbyte : x.byte.toNat = c.toUInt8.toNat := by
        rw [← Cell.toNat_letter, hletter, Cell.toNat_letter]
        rfl
      exact beq_iff_eq.mpr (UInt8.toNat_inj.mp hbyte)
  · next hr =>
    cases hd
    refine ⟨rfl, fun y hy => ?_⟩
    rw [hr] at hy
    cases hy

theorem LooksAhead.extends {α : Type} {x : Decode α} (hx : LooksAhead x) {a : α}
    (h : x s = .ok a s') : s.Extends s' := by
  have hkeeps := hx.keeps s
  rw [h] at hkeeps
  exact hkeeps

/-- The ways in which the first part is read: a word before others, the last word, alone or before a
segment, the end of the parts, or a segment before others. -/
theorem wordParts_cases {fuel : Nat} {ps : List TextPart} (h : wordParts (fuel + 1) s = .ok ps s') :
    (∃ w t rest, s.Extends t ∧ w ∈ t.words ∧ wordParts fuel t = .ok rest s' ∧ ps = .word w :: rest) ∨
    (∃ w t, s.Extends t ∧ w ∈ t.words ∧ (ps = [.word w] ∨
      ∃ text, (∀ x ∈ t.cursor.rest.head?, x.letter ≠ '0') ∧ segment t = .ok text s' ∧
        ps = [.word w, .segment text])) ∨
    ps = [] ∨
    ∃ text t rest, (∀ x ∈ s.cursor.rest.head?, x.letter ≠ '0') ∧ segment s = .ok text t ∧
      wordParts fuel t = .ok rest s' ∧ ps = .segment text :: rest := by
  obtain ⟨o, s₁, hletter, hstep⟩ := bind_eq_ok h
  have hextends : s.Extends s₁ := LooksAhead.extends inferInstance hletter
  cases o with
  | some letter =>
    obtain ⟨i, last⟩ := letter
    obtain ⟨_, _, hget, hstep⟩ := bind_eq_ok hstep
    cases hget
    obtain ⟨w, _, hrequire, hrest⟩ := bind_eq_ok hstep
    obtain ⟨hword, rfl⟩ := require_eq_ok hrequire
    have hmem := Array.mem_of_getElem? hword
    cases last with
    | false =>
      obtain ⟨rest, s₂, hparts, hpure⟩ := bind_eq_ok hrest
      cases hpure
      exact .inl ⟨w, s₁, rest, hextends, hmem, hparts, rfl⟩
    | true =>
      obtain ⟨closed, s₂, haccept, hend⟩ := bind_eq_ok hrest
      refine .inr (.inl ⟨w, s₁, hextends, hmem, ?_⟩)
      cases closed with
      | true =>
        cases hend
        exact .inl rfl
      | false =>
        obtain ⟨heq, hzero⟩ := accept_missed (by decide) haccept
        obtain ⟨text, s₃, hsegment, hpure⟩ := bind_eq_ok hend
        cases hpure
        exact .inr ⟨text, hzero, heq ▸ hsegment, rfl⟩
  | none =>
    obtain ⟨closed, s₂, haccept, hend⟩ := bind_eq_ok hstep
    have hsame : s₁ = s := letter_missed hletter
    cases closed with
    | true =>
      cases hend
      exact .inr (.inr (.inl rfl))
    | false =>
      obtain ⟨heq, hzero⟩ := accept_missed (by decide) haccept
      obtain ⟨text, s₃, hsegment, hrest⟩ := bind_eq_ok hend
      obtain ⟨rest, s₄, hparts, hpure⟩ := bind_eq_ok hrest
      cases hpure
      rw [heq, hsame] at hsegment
      rw [hsame] at hzero
      exact .inr (.inr (.inr ⟨text, s₃, rest, hzero, hsegment, hparts, rfl⟩))

theorem segment_nonempty {text : String} (h : segment s = .ok text s') : s.cursor.rest ≠ [] := by
  obtain ⟨digits, body, hsegment⟩ := segment_eq_ok h
  rw [hsegment.cells]
  simp [hsegment.nonempty]

/-- The parts have an end of their own, so they cannot end with the input. -/
theorem wordParts_nonempty {fuel : Nat} {ps : List TextPart} (h : wordParts fuel s = .ok ps s') :
    s.cursor.rest ≠ [] := by
  intro hend
  cases fuel with
  | zero => cases h
  | succ fuel =>
    have hletter : Scan.letter? wordLetter? s.cursor = .ok none s.cursor := by
      unfold Scan.letter?
      rw [hend]
      rfl
    have haccept : Scan.accept '0' s.cursor = .ok false s.cursor := by
      unfold Scan.accept Scan.acceptByte
      rw [hend]
    rw [wordParts, bind_ok (lift_ok hletter)] at h
    dsimp only at h
    rw [bind_ok (lift_ok haccept)] at h
    obtain ⟨text, t, hsegment, -⟩ := bind_eq_ok h
    exact segment_nonempty hsegment hend

/-- **Word after word and segment after segment is as usual**, up to a segment that ends the input. -/
theorem wordParts_greedy (fuel : Nat) : ∀ {s s' : State} {ps : List TextPart},
    (Cursor.ofString m).Reaches s.cursor → wordParts fuel s = .ok ps s' →
    Greedy ps ∨ ∃ earlier w d, LeavesDigit s s' ps (earlier ++ [.word w]) d := by
  induction fuel with
  | zero =>
    intro s s' ps _ h
    cases h
  | succ fuel ih =>
    intro s s' ps hreach h
    rcases wordParts_cases h with ⟨w, t, rest, hextends, -, hrest, rfl⟩ |
      ⟨w, t, hextends, -, rfl | ⟨text, hzero, hsegment, rfl⟩⟩ | rfl |
      ⟨text, t, rest, hzero, hsegment, hrest, rfl⟩
    · -- a word before others
      rcases ih (hreach.trans hextends.cursor) hrest with hgreedy | ⟨earlier, v, d, hdigit⟩
      · exact .inl (greedy_word hgreedy)
      · exact .inr ⟨.word w :: earlier, v, d, hdigit.cons hextends.cursor (greedy_word hdigit.greedy)⟩
    · -- the last word
      exact .inl (greedy_word nofun)
    · -- the last word before a segment
      rcases segment_start (hreach.trans hextends.cursor) hzero hsegment with
        hplain | ⟨d, hd, rfl, hcells, hend⟩
      · exact .inl (greedy_word (greedy_segment hplain nofun))
      · refine .inr ⟨[], w, d, rfl, greedy_word nofun, hd, ?_, hend⟩
        exact hcells ▸ suffix_of_reaches hextends.cursor
    · -- the end of the parts
      exact .inl nofun
    · -- a segment before others
      rcases segment_start hreach hzero hsegment with hplain | ⟨d, hd, rfl, hcells, hend⟩
      · have hextends : s.Extends t := LooksAhead.extends inferInstance hsegment
        rcases ih (hreach.trans hextends.cursor) hrest with hgreedy | ⟨earlier, v, d, hdigit⟩
        · exact .inl (greedy_segment hplain hgreedy)
        · exact .inr ⟨.segment text :: earlier, v, d,
            hdigit.cons hextends.cursor (greedy_segment hplain hdigit.greedy)⟩
      · exact absurd hend (wordParts_nonempty hrest)

/-- A word that was recorded begins with a character that is no digit. -/
theorem startsPlain_word {words : WordTable} (h : WordTable.Grows #[] words) {w : String}
    (hw : w ∈ words) : StartsPlain w := by
  have hsize := h.two_le nofun w hw
  obtain ⟨c, cs, hcs⟩ : ∃ c cs, w.toList = c :: cs := by
    refine List.exists_cons_of_ne_nil fun hnil => ?_
    rw [String.toList_eq_nil_iff.mp hnil] at hsize
    exact absurd hsize (by decide)
  exact ⟨c, cs, hcs, h.start nofun w hw c (by rw [hcs]; rfl)⟩

theorem wordParts_words (fuel : Nat) : ∀ {s s' : State} {ps : List TextPart},
    WordTable.Grows #[] s.words → wordParts fuel s = .ok ps s' →
    ∀ w, TextPart.word w ∈ ps → StartsPlain w := by
  induction fuel with
  | zero =>
    intro s s' ps _ h
    cases h
  | succ fuel ih =>
    intro s s' ps hwords h v hv
    rcases wordParts_cases h with ⟨w, t, rest, hextends, hw, hrest, rfl⟩ |
      ⟨w, t, hextends, hw, rfl | ⟨text, -, -, rfl⟩⟩ | rfl |
      ⟨text, t, rest, hzero, hsegment, hrest, rfl⟩
    · rcases List.mem_cons.mp hv with hv | hv
      · cases hv
        exact startsPlain_word (hwords.trans hextends.words) hw
      · exact ih (hwords.trans hextends.words) hrest v hv
    · cases List.mem_singleton.mp hv
      exact startsPlain_word (hwords.trans hextends.words) hw
    · obtain rfl : v = w := by simpa using hv
      exact startsPlain_word (hwords.trans hextends.words) hw
    · cases hv
    · have hextends : s.Extends t := LooksAhead.extends inferInstance hsegment
      have hmem : TextPart.word v ∈ rest := by simpa using hv
      exact ih (hwords.trans hextends.words) hrest v hmem

/-! ## Identifiers -/

/-- The ways in which the parts of an identifier are read. -/
theorem identifierParts_cases {ps : List TextPart} (h : identifierParts s = .ok ps s') :
    ps = [] ∨ (∃ t, ps = [.punycode t]) ∨
    (∃ fuel t, s.Extends t ∧ wordParts fuel t = .ok ps s') ∨
    ∃ text, (∀ x ∈ s.cursor.rest.head?, x.letter ≠ '0') ∧ segment s = .ok text s' ∧
      ps = [.segment text] := by
  obtain ⟨o, s₁, hpeek, hparts⟩ := bind_eq_ok h
  obtain ⟨d, hd, rfl⟩ := lift_eq_ok hpeek
  injection hd with ho hcursor
  subst hcursor
  split at hparts
  · obtain ⟨_, s₂, hnext, hparts⟩ := bind_eq_ok hparts
    have hfirst : s.Extends s₂ := LooksAhead.extends inferInstance hnext
    obtain ⟨again, s₃, hagain, hparts⟩ := bind_eq_ok hparts
    have hsecond : s.Extends s₃ := hfirst.trans (LooksAhead.extends inferInstance hagain)
    cases again with
    | true =>
      obtain ⟨empty, s₄, hempty, hparts⟩ := bind_eq_ok hparts
      cases empty with
      | true =>
        cases hparts
        exact .inl rfl
      | false =>
        obtain ⟨t, s₅, -, hpure⟩ := bind_eq_ok hparts
        cases hpure
        exact .inr (.inl ⟨t, rfl⟩)
    | false =>
      obtain ⟨fuel, s₄, hremaining, hwords⟩ := bind_eq_ok hparts
      have hthird : s.Extends s₄ := hsecond.trans (LooksAhead.extends inferInstance hremaining)
      exact .inr (.inr (.inl ⟨fuel, s₄, hthird, hwords⟩))
  · next c hc =>
    split at hparts
    · obtain ⟨text, s₂, hsegment, hpure⟩ := bind_eq_ok hparts
      cases hpure
      refine .inr (.inr (.inr ⟨text, fun x hx hletter => ?_, hsegment, rfl⟩))
      rw [Option.mem_def.mp hx] at ho
      exact hc ((Option.some.inj ho).symm.trans hletter)
    · cases hparts
  · cases hparts

/-- **The parts of an identifier are as usual**, up to a segment that ends the input. -/
theorem identifierParts_greedy {ps : List TextPart} (hreach : (Cursor.ofString m).Reaches s.cursor)
    (h : identifierParts s = .ok ps s') :
    Greedy ps ∨ ∃ earlier d, LeavesDigit s s' ps earlier d := by
  rcases identifierParts_cases h with rfl | ⟨t, rfl⟩ | ⟨fuel, t, hextends, hwords⟩ |
    ⟨text, hzero, hsegment, rfl⟩
  · exact .inl nofun
  · refine .inl fun u hu => ?_
    cases List.mem_singleton.mp hu
  · rcases wordParts_greedy fuel (hreach.trans hextends.cursor) hwords with
      hgreedy | ⟨earlier, w, d, hdigit⟩
    · exact .inl hgreedy
    · refine .inr ⟨_, d, hdigit.parts, hdigit.greedy, hdigit.digit, ?_, hdigit.atEnd⟩
      exact hdigit.spelled.trans (suffix_of_reaches hextends.cursor)
  · rcases segment_start hreach hzero hsegment with hplain | ⟨d, hd, rfl, hcells, hend⟩
    · exact .inl (greedy_segment hplain nofun)
    · exact .inr ⟨[], d, rfl, nofun, hd, hcells ▸ List.suffix_refl _, hend⟩

/-- A text begins as its first part. -/
theorem startsPlain_join {p : TextPart} {ps : List TextPart} (h : StartsPlain p.text) :
    StartsPlain (TextPart.join (p :: ps)) := by
  obtain ⟨c, cs, hcs, hc⟩ := h
  refine ⟨c, cs ++ (TextPart.join ps).toList, ?_, hc⟩
  rw [TextPart.join, String.toList_append, hcs, List.cons_append]

/-- Only a segment of one digit makes a text that begins with a digit. -/
theorem join_start {ps : List TextPart} (hreach : (Cursor.ofString m).Reaches s.cursor)
    (hrecorded : WordTable.Grows #[] s.words) (h : identifierParts s = .ok ps s') (hne : ps ≠ [])
    (hplain : ∀ t, TextPart.punycode t ∉ ps) :
    StartsPlain (TextPart.join ps) ∨ ∃ d, d.isDigit = true ∧
      TextPart.join ps = String.singleton d ∧ s.cursor.rest = [Cell.ascii '1', Cell.ascii d] := by
  rcases identifierParts_cases h with rfl | ⟨t, rfl⟩ | ⟨fuel, t, hextends, hwords⟩ |
    ⟨text, hzero, hsegment, rfl⟩
  · exact absurd rfl hne
  · exact absurd List.mem_cons_self (hplain t)
  · refine .inl ?_
    obtain ⟨p, rest, rfl⟩ := List.exists_cons_of_ne_nil hne
    refine startsPlain_join ?_
    have hfirst : ∀ text, p = .segment text → StartsPlain text := by
      rintro text rfl
      rcases wordParts_greedy fuel (hreach.trans hextends.cursor) hwords with
        hgreedy | ⟨earlier, w, d, hdigit⟩
      · exact hgreedy text List.mem_cons_self
      · -- the digit comes behind a word
        refine hdigit.greedy text ?_
        have hparts := hdigit.parts
        cases earlier with
        | nil => cases hparts
        | cons q earlier =>
          cases hparts
          exact List.mem_cons_self
    cases p with
    | word w => exact wordParts_words fuel (hrecorded.trans hextends.words) hwords w List.mem_cons_self
    | segment text => exact hfirst text rfl
    | punycode t => exact absurd List.mem_cons_self (hplain t)
  · rcases segment_start hreach hzero hsegment with hstart | ⟨d, hd, rfl, hcells, -⟩
    · exact .inl (startsPlain_join hstart)
    · exact .inr ⟨d, hd, by simp [TextPart.join, TextPart.text], hcells⟩

/-- What is spelled at the end of what is left is spelled at the end of the input. -/
theorem input_of_suffix (hreach : (Cursor.ofString m).Reaches s.cursor) {d : Char}
    (hd : d.isDigit = true) (h : [Cell.ascii '1', Cell.ascii d] <:+ s.cursor.rest) :
    ∃ start, m = start ++ "1" ++ String.singleton d := by
  have hcells : s.cursor.cells = Cell.ofString m := hreach.cells_eq
  obtain ⟨read, hread⟩ := h
  have hlow := Cell.low_of_isDigit_char hd
  have hinput : Cell.ofString m =
      s.cursor.before.reverse ++ read ++ [Cell.ascii '1'] ++ [Cell.ascii d] := by
    rw [← hcells, Cursor.cells, ← hread]
    simp
  have hbyte : (Cell.ascii d).byte.toNat < 0x80 := by
    rw [← Cell.toNat_letter, Cell.letter_ascii hlow]
    exact hlow
  obtain ⟨t, rfl, ht⟩ := ofString_concat hinput hbyte
  obtain ⟨start, rfl, -⟩ := ofString_concat ht (by decide)
  exact ⟨start, by rw [Cell.letter_ascii hlow]; rfl⟩

/-- **Lengths are read greedily up to the last byte of the input.** No segment of an identifier begins with a
digit, except one that is the last byte of the input: it ends the identifier, and its length 1 stands in
front of it. The text begins with a digit only if such a segment is all there is left to read. -/
theorem identifier_greedy {x : Symbol} (hreach : (Cursor.ofString m).Reaches s.cursor)
    (h : identifier s = .ok x s') :
    ∃ ps t, identifierParts s = .ok ps t ∧ x = .ofText .identifier (TextPart.join ps) ∧
      s' = { t with substitutions := t.substitutions.push x } ∧
      (Greedy ps ∨ ∃ earlier d start, ps = earlier ++ [.segment (String.singleton d)] ∧
        Greedy earlier ∧ d.isDigit = true ∧ m = start ++ "1" ++ String.singleton d ∧
        s'.cursor.rest = []) ∧
      (WordTable.Grows #[] s.words → (∀ u, TextPart.punycode u ∉ ps) →
        StartsPlain (TextPart.join ps) ∨ ∃ d, d.isDigit = true ∧
          TextPart.join ps = String.singleton d ∧
          s.cursor.rest = Cell.ofString ("1" ++ String.singleton d)) := by
  obtain ⟨text, t, htext, hne, hremember⟩ := identifier_eq_ok h
  rw [identifierText_eq] at htext
  obtain ⟨ps, u, hparts, hjoin⟩ := bind_eq_ok htext
  cases hjoin
  cases hremember
  refine ⟨ps, t, hparts, rfl, rfl, ?_, fun hrecorded hplain => ?_⟩
  · refine (identifierParts_greedy hreach hparts).imp_right fun ⟨earlier, d, hdigit⟩ => ?_
    obtain ⟨start, hstart⟩ := input_of_suffix hreach hdigit.digit hdigit.spelled
    exact ⟨earlier, d, start, hdigit.parts, hdigit.greedy, hdigit.digit, hstart, hdigit.atEnd⟩
  · have hsome : ps ≠ [] := by
      rintro rfl
      exact hne rfl
    refine (join_start hreach hrecorded hparts hsome hplain).imp_right fun ⟨d, hd, htext, hcells⟩ => ?_
    refine ⟨d, hd, htext, ?_⟩
    rw [hcells, Cell.ofString_append, Cell.ofString_singleton (Cell.low_of_isDigit_char hd)]
    rfl

/-- The last byte of the input becomes a segment behind the last word. -/
theorem identifier_greedy_last :
    let s : State := { cursor := (Cursor.ofString "2ab0A11").advance 3, words := #["ab"] }
    ∃ s' t, identifier s = .ok (.ofText .identifier "ab1") s' ∧
      identifierParts s = .ok [.word "ab", .segment "1"] t ∧ s'.cursor.rest = [] ∧
      StartsPlain "ab1" := by
  intro s
  have hparts : identifierParts s = .ok [.word "ab", .segment "1"] _ := rfl
  have hidentifier : identifier s = .ok (.ofText .identifier "ab1") _ := rfl
  obtain ⟨ps, t, hps, -, -, hgreedy, htext⟩ :=
    identifier_greedy ((Cursor.ofString "2ab0A11").reaches_advance 3) hidentifier
  cases hparts.symm.trans hps
  refine ⟨_, _, hidentifier, hparts, ?_, ?_⟩
  · rcases hgreedy with hgreedy | ⟨-, -, -, -, -, -, -, hend⟩
    · obtain ⟨c, cs, hcs, hc⟩ := hgreedy "1" (by simp)
      cases hcs
      cases hc
    · exact hend
  · rcases htext ⟨["ab"], rfl⟩ (by simp) with hplain | ⟨d, -, hd, -⟩
    · exact hplain
    · have hlist : ['a', 'b', '1'] = (String.singleton d).toList := congrArg String.toList hd
      rw [String.toList_singleton] at hlist
      cases hlist

/-- An identifier whose only segment is a digit. -/
theorem identifier_last_digit : ¬∀ (m : String) (s s' : State) (x : Symbol),
    (Cursor.ofString m).Reaches s.cursor → WordTable.Grows #[] s.words → identifier s = .ok x s' →
    ∀ ps t, identifierParts s = .ok ps t → (∀ u, TextPart.punycode u ∉ ps) →
      Greedy ps ∧ StartsPlain (TextPart.join ps) := by
  intro h
  have hparts : identifierParts (State.ofString "11") = .ok [.segment "1"] _ := rfl
  obtain ⟨hgreedy, -⟩ := h "11" (State.ofString "11") _ (.ofText .identifier "1") (.refl _) (.refl _) rfl
    _ _ hparts (by simp)
  obtain ⟨c, cs, hcs, hc⟩ := hgreedy "1" (by simp)
  cases hcs
  cases hc

end Decode

end Demangle
