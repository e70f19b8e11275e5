import Demangle.Operator.Identifier
import Demangle.Proofs.Operand.Builds
import Demangle.Proofs.Punycode
import Demangle.Proofs.WordTable

/-!
# What the text of an identifier costs

A literal segment costs its characters. A word of an earlier identifier costs no more than a letter, so
a text can be longer than all that was read before it; but words hold no `_`, so the text has no more of
them than what was read. A text in Punycode can have more `_` than what was read, but not more
characters. So each text of an identifier is *covered* by what was read (`Cursor.Covers`), in one of the
two ways:

    identifierText s = .ok t s' → s'.cursor.Covers t          (identifierText_covers)
-/

namespace Demangle

/-! ## What was read -/

namespace Cursor

/-- The characters before the place, last one first. -/
def seen (c : Cursor) : List Char :=
  c.before.filterMap Cell.begins

/-- The number of `_` before the place. -/
def marks (c : Cursor) : Nat :=
  c.seen.count '_'

/-- As many `_` as in the text stand before the place, or as many characters. -/
def Covers (c : Cursor) (t : String) : Prop :=
  t.toList.count '_' ≤ c.marks ∨ t.toList.length ≤ c.seen.length

theorem Reaches.seen {c d : Cursor} (h : c.Reaches d) : ∃ read, d.seen = read ++ c.seen := by
  obtain ⟨read, hr, -⟩ := h.before
  exact ⟨read.filterMap Cell.begins, by rw [Cursor.seen, hr, List.filterMap_append]; rfl⟩

theorem Reaches.marks_le {c d : Cursor} (h : c.Reaches d) : c.marks ≤ d.marks := by
  obtain ⟨read, hr⟩ := h.seen
  rw [marks, marks, hr, List.count_append]
  exact Nat.le_add_left _ _

theorem Reaches.length_seen_le {c d : Cursor} (h : c.Reaches d) :
    c.seen.length ≤ d.seen.length := by
  obtain ⟨read, hr⟩ := h.seen
  rw [hr, List.length_append]
  exact Nat.le_add_left _ _

theorem Covers.reach {c d : Cursor} {t : String} (ht : c.Covers t) (h : c.Reaches d) :
    d.Covers t := by
  rcases ht with ht | ht
  · exact .inl (Nat.le_trans ht h.marks_le)
  · exact .inr (Nat.le_trans ht h.length_seen_le)

/-- The characters of what is read next come on top of those read before. -/
theorem seen_advance (c : Cursor) (n : Nat) :
    (c.advance n).seen = (Cell.text (c.rest.take n)).toList.reverse ++ c.seen := by
  simp only [seen, advance, List.filterMap_append, List.filterMap_reverse, Cell.toList_text]

theorem marks_advance (c : Cursor) (n : Nat) :
    (c.advance n).marks = (Cell.text (c.rest.take n)).toList.count '_' + c.marks := by
  rw [marks, marks, seen_advance, List.count_append, List.count_reverse]

theorem length_seen_advance (c : Cursor) (n : Nat) :
    (c.advance n).seen.length = (Cell.text (c.rest.take n)).toList.length + c.seen.length := by
  rw [seen_advance, List.length_append, List.length_reverse]

end Cursor

/-! ## Reading a text -/

/-- Reading the text of an identifier moves the cursor forward and adds words; nothing else. -/
structure State.Reads (s s' : State) : Prop where
  reaches : s.cursor.Reaches s'.cursor
  operands : s'.operands = s.operands
  substitutions : s'.substitutions = s.substitutions
  words : (∀ w ∈ s.words, '_' ∉ w.toList) → ∀ w ∈ s'.words, '_' ∉ w.toList

namespace State.Reads

theorem trans {s t u : State} (h₁ : s.Reads t) (h₂ : t.Reads u) : s.Reads u :=
  ⟨h₁.reaches.trans h₂.reaches, h₂.operands.trans h₁.operands,
    h₂.substitutions.trans h₁.substitutions, fun h => h₂.words (h₁.words h)⟩

theorem move {s : State} {c : Cursor} (h : s.cursor.Reaches c) : s.Reads { s with cursor := c } :=
  ⟨h, rfl, rfl, fun h => h⟩

theorem sound {L : TextLaw} {s s' : State} (h : s.Reads s') (hs : s.Sound L) : s'.Sound L := by
  refine ⟨?_, ?_, h.words hs.words, ?_⟩
  · rw [h.operands]
    exact hs.operands
  · rw [h.substitutions]
    exact hs.substitutions
  · exact (hs.reach h.reaches).rest

end State.Reads

namespace Decode

/-- A scanning step only reads. -/
theorem reads_scan {α : Type} {x : Scan α} [Scan.Forward x] {s s' : State} {a : α}
    (h : (liftM x : Decode α) s = .ok a s') : s.Reads s' := by
  obtain ⟨c, hx, rfl⟩ := lift_eq_ok h
  exact .move (Scan.Forward.reaches hx)

theorem take_eq_ok {n : Nat} {s s' : State} {t : String}
    (h : (liftM (Scan.take n) : Decode String) s = .ok t s') :
    t = Cell.text (s.cursor.rest.take n) ∧ s' = { s with cursor := s.cursor.advance n } := by
  obtain ⟨c, hx, rfl⟩ := lift_eq_ok h
  obtain ⟨-, -, -, rfl, rfl⟩ := Scan.take_eq_ok hx
  exact ⟨rfl, rfl⟩

theorem segmentLength_reads {s s' : State} {n : Nat} (h : segmentLength s = .ok n s') :
    s.Reads s' := by
  obtain ⟨m, s₁, h₁, h⟩ := bind_eq_ok h
  obtain ⟨_, s₂, h₂, h⟩ := bind_eq_ok h
  obtain ⟨-, rfl⟩ := ensure_eq_ok h₂
  cases h
  exact reads_scan h₁

/-- A segment has the `_` that were read with it. -/
theorem segment_reads {s s' : State} {t : String} (h : segment s = .ok t s') :
    s.Reads s' ∧ t.toList.count '_' + s.cursor.marks ≤ s'.cursor.marks := by
  obtain ⟨n, s₁, h₁, h⟩ := bind_eq_ok h
  obtain ⟨t', s₂, h₂, h⟩ := bind_eq_ok h
  obtain ⟨rfl, rfl⟩ := take_eq_ok h₂
  cases h
  have hlen := segmentLength_reads h₁
  refine ⟨hlen.trans ⟨s₁.cursor.reaches_advance n, rfl, rfl, fun h => ?_⟩, ?_⟩
  · exact WordTable.plain_record h _
  · have := hlen.reaches.marks_le
    show _ ≤ (s₁.cursor.advance n).marks
    rw [Cursor.marks_advance]
    omega

/-- A text in Punycode has no more characters than were read for it. -/
theorem punycodeSegment_reads {s s' : State} {t : String} (h : punycodeSegment s = .ok t s') :
    s.Reads s' ∧ t.toList.length + s.cursor.seen.length ≤ s'.cursor.seen.length := by
  obtain ⟨n, s₁, h₁, h⟩ := bind_eq_ok h
  obtain ⟨_, s₂, h₂, h⟩ := bind_eq_ok h
  obtain ⟨t', s₃, h₃, h⟩ := bind_eq_ok h
  obtain ⟨rfl, rfl⟩ := take_eq_ok h₃
  obtain ⟨hdecode, rfl⟩ := require_eq_ok h
  have hread := (segmentLength_reads h₁).trans (reads_scan h₂)
  refine ⟨hread.trans (.move (s₂.cursor.reaches_advance n)), ?_⟩
  have := hread.reaches.length_seen_le
  have := Punycode.decode_length_le hdecode
  show _ ≤ (s₂.cursor.advance n).seen.length
  rw [Cursor.length_seen_advance]
  omega

/-- Words add nothing to the `_` that were read. -/
theorem wordsAndSegments_reads {fuel : Nat} : ∀ {acc t : String} {s s' : State},
    (∀ w ∈ s.words, '_' ∉ w.toList) → wordsAndSegments fuel acc s = .ok t s' →
    s.Reads s' ∧ t.toList.count '_' + s.cursor.marks ≤ acc.toList.count '_' + s'.cursor.marks := by
  induction fuel with
  | zero =>
    intro acc t s s' _ h
    cases h
  | succ fuel ih =>
    intro acc t s s' hw h
    obtain ⟨o, s₁, h₁, h⟩ := bind_eq_ok h
    have hread := reads_scan h₁
    have hw₁ := hread.words hw
    have hmarks := hread.reaches.marks_le
    cases o with
    | some letter =>
      obtain ⟨i, last⟩ := letter
      obtain ⟨s₂, s₃, h₂, h⟩ := bind_eq_ok h
      cases h₂
      obtain ⟨w, s₄, h₃, h⟩ := bind_eq_ok h
      obtain ⟨hword, rfl⟩ := require_eq_ok h₃
      have hplain : (acc ++ w).toList.count '_' = acc.toList.count '_' := by
        rw [String.toList_append, List.count_append,
          List.count_eq_zero.mpr (hw₁ w (Array.mem_of_getElem? hword)), Nat.add_zero]
      cases last with
      | false =>
        obtain ⟨hread', hcount⟩ := ih hw₁ h
        exact ⟨hread.trans hread', by omega⟩
      | true =>
        obtain ⟨closed, s₅, h₄, h⟩ := bind_eq_ok h
        have hread' := reads_scan h₄
        have hmarks' := hread'.reaches.marks_le
        cases closed with
        | true =>
          cases h
          exact ⟨hread.trans hread', by omega⟩
        | false =>
          obtain ⟨u, s₆, h₅, h⟩ := bind_eq_ok h
          cases h
          obtain ⟨hread'', hcount⟩ := segment_reads h₅
          refine ⟨(hread.trans hread').trans hread'', ?_⟩
          rw [String.toList_append, List.count_append]
          omega
    | none =>
      obtain ⟨closed, s₂, h₂, h⟩ := bind_eq_ok h
      have hread' := reads_scan h₂
      have hmarks' := hread'.reaches.marks_le
      cases closed with
      | true =>
        cases h
        exact ⟨hread.trans hread', by omega⟩
      | false =>
        obtain ⟨u, s₃, h₃, h⟩ := bind_eq_ok h
        obtain ⟨hread'', hcount⟩ := segment_reads h₃
        obtain ⟨hread₃, hcount'⟩ := ih (hread''.words (hread'.words hw₁)) h
        refine ⟨((hread.trans hread').trans hread'').trans hread₃, ?_⟩
        rw [String.toList_append, List.count_append] at hcount'
        omega

/-- **The text of an identifier is covered by what was read.** -/
theorem identifierText_covers {s s' : State} {t : String} (hw : ∀ w ∈ s.words, '_' ∉ w.toList)
    (h : identifierText s = .ok t s') : s.Reads s' ∧ s'.cursor.Covers t := by
  obtain ⟨o, s₁, h₁, h⟩ := bind_eq_ok h
  have hread := reads_scan h₁
  split at h
  · obtain ⟨_, s₂, h₂, h⟩ := bind_eq_ok h
    have hread₂ := hread.trans (reads_scan h₂)
    obtain ⟨again, s₃, h₃, h⟩ := bind_eq_ok h
    have hread₃ := hread₂.trans (reads_scan h₃)
    cases again with
    | true =>
      obtain ⟨empty, s₄, h₄, h⟩ := bind_eq_ok h
      have hread₄ := hread₃.trans (reads_scan h₄)
      cases empty with
      | true =>
        cases h
        exact ⟨hread₄, .inl (Nat.zero_le _)⟩
      | false =>
        obtain ⟨hread₅, hlen⟩ := punycodeSegment_reads h
        exact ⟨hread₄.trans hread₅, .inr (by omega)⟩
    | false =>
      obtain ⟨n, s₄, h₄, h⟩ := bind_eq_ok h
      have hread₄ := hread₃.trans (reads_scan h₄)
      obtain ⟨hread₅, hcount⟩ := wordsAndSegments_reads (hread₄.words hw) h
      refine ⟨hread₄.trans hread₅, .inl ?_⟩
      have hempty : "".toList.count '_' = 0 := rfl
      omega
  · split at h
    · obtain ⟨hread', hcount⟩ := segment_reads h
      exact ⟨hread.trans hread', .inl (by omega)⟩
    · cases h
  · cases h

/-- What a successful reading of an identifier consists of. -/
theorem identifier_eq_ok {s s' : State} {x : Symbol} (h : identifier s = .ok x s') :
    ∃ t s₁, identifierText s = .ok t s₁ ∧ t ≠ "" ∧ remember (.ofText .identifier t) s₁ = .ok x s' := by
  obtain ⟨t, s₁, h₁, h⟩ := bind_eq_ok h
  obtain ⟨_, s₂, h₂, h⟩ := bind_eq_ok h
  obtain ⟨ht, rfl⟩ := ensure_eq_ok h₂
  refine ⟨t, s₁, h₁, ?_, h⟩
  rintro rfl
  cases ht

theorem builds_identifier {L : TextLaw} (hL : ∀ t, L.name t) :
    Builds L identifier fun x => x.WellFormed L ∧ x.children = [] := by
  intro s x s' hs h
  obtain ⟨t, s₁, h₁, -, h⟩ := identifier_eq_ok h
  have hread := (identifierText_covers hs.words h₁).1
  obtain ⟨reach, sound, hx⟩ :=
    builds_remember (Symbol.wellFormed_identifier (hL t)) _ _ _ (hread.sound hs) h
  cases h
  exact ⟨hread.reaches.trans reach, sound, hx, rfl⟩

end Decode

end Demangle
