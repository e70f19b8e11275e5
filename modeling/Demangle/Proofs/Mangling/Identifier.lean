import Demangle.Proofs.Mangling.Record
import Demangle.Proofs.Mangling.Type

/-!
# Spellings of identifiers

The text of an identifier is made of pieces: literals, and words of the table, which the literals before
them have extended. `IdentifierSpelling` has the ways to spell a list of pieces, and `NamePiece.expand?`
is the text that the pieces make. Reading a spelling gives that text, stops right after the spelling and
records the words of every literal:

    NamePiece.expand? s.words spelling.pieces = some text →
      identifier s = .ok (ofText .identifier text) { s with … }                (identifier_spelling)

The reader takes one piece a turn (`wordsAndSegments_piece`), so it takes all of them, each with the table
that the ones before it left (`wordsAndSegments_pieces`).
-/

namespace Demangle

open Symbol

/-! ## Pieces -/

/-- A piece of an identifier. -/
inductive NamePiece where
  | literal (name : Name)
  | word (index : Fin WordTable.capacity)

/-- The letter of a word. -/
def wordLetter (i : Fin WordTable.capacity) : Char :=
  Char.ofNat ('a'.toNat + i)

/-- The letter of a word after which no other word follows. -/
def lastWordLetter (i : Fin WordTable.capacity) : Char :=
  Char.ofNat ('A'.toNat + i)

namespace NamePiece

def mangle : NamePiece → String
  | .literal name => name.mangle
  | .word i => String.singleton (wordLetter i)

/-- The text of the piece, if the table has its word. -/
def text? (t : WordTable) : NamePiece → Option String
  | .literal name => some name.text
  | .word i => t[i.val]?

/-- What the piece adds to the texts whose words are recorded. -/
def literals : NamePiece → List String
  | .literal name => [name.text]
  | .word _ => []

def mangleAll : List NamePiece → String
  | [] => ""
  | p :: ps => p.mangle ++ mangleAll ps

/-- The text that pieces make, each word being looked up in the table as the pieces before it left it. -/
def expand? (t : WordTable) : List NamePiece → Option String
  | [] => some ""
  | p :: ps => do
    let text ← p.text? t
    let more ← expand? (p.literals.foldl WordTable.record t) ps
    return text ++ more

theorem expand?_cons {t : WordTable} {p : NamePiece} {ps : List NamePiece} {text : String} :
    expand? t (p :: ps) = some text ↔ ∃ first more, p.text? t = some first ∧
      expand? (p.literals.foldl WordTable.record t) ps = some more ∧ first ++ more = text := by
  simp [expand?, Option.bind_eq_some_iff]

theorem expand?_append (ps qs : List NamePiece) : ∀ {t : WordTable} {text : String},
    expand? t (ps ++ qs) = some text → ∃ first more, expand? t ps = some first ∧
      expand? ((ps.flatMap literals).foldl WordTable.record t) qs = some more ∧
      first ++ more = text := by
  induction ps with
  | nil =>
    intro t text h
    exact ⟨"", text, rfl, h, String.empty_append⟩
  | cons p ps ih =>
    intro t text h
    rw [List.cons_append] at h
    obtain ⟨first, later, hp, hlater, rfl⟩ := expand?_cons.mp h
    obtain ⟨middle, more, hps, hqs, rfl⟩ := ih hlater
    refine ⟨first ++ middle, more, expand?_cons.mpr ⟨first, middle, hp, hps, rfl⟩, ?_,
      String.append_assoc⟩
    rwa [List.flatMap_cons, List.foldl_append]

end NamePiece

/-! ## Spellings -/

/-- How a spelling in words ends: by `0`, by a last word and `0`, or by a last word and a literal. -/
inductive Ending where
  | close
  | lastWord (index : Fin WordTable.capacity)
  | lastLiteral (index : Fin WordTable.capacity) (name : Name)

namespace Ending

def pieces : Ending → List NamePiece
  | .close => []
  | .lastWord i => [.word i]
  | .lastLiteral i name => [.word i, .literal name]

def mangle : Ending → String
  | .close => "0"
  | .lastWord i => String.singleton (lastWordLetter i) ++ "0"
  | .lastLiteral i name => String.singleton (lastWordLetter i) ++ name.mangle

theorem mangle_pos (e : Ending) : 0 < (Cell.ofString e.mangle).length := by
  have hword := fun i => (lastWordLetter i).utf8Size_pos
  rw [Cell.length_ofString]
  cases e with
  | close => decide
  | lastWord i | lastLiteral i name =>
    rw [mangle, String.utf8ByteSize_append, String.utf8ByteSize_singleton]
    exact Nat.add_pos_left (hword i) _

end Ending

/-- How an identifier is spelled: by its only literal, or in words. -/
inductive IdentifierSpelling where
  | plain (name : Name)
  | words (first : List NamePiece) (ending : Ending) (nonempty : first ++ ending.pieces ≠ [])

namespace IdentifierSpelling

/-- The pieces that are spelled. -/
def pieces : IdentifierSpelling → List NamePiece
  | .plain name => [.literal name]
  | .words first ending _ => first ++ ending.pieces

def mangle : IdentifierSpelling → String
  | .plain name => name.mangle
  | .words first ending _ => "0" ++ (NamePiece.mangleAll first ++ ending.mangle)

theorem pieces_ne_nil (spelling : IdentifierSpelling) : spelling.pieces ≠ [] := by
  cases spelling with
  | plain name => exact List.cons_ne_nil _ _
  | words first ending nonempty => exact nonempty

end IdentifierSpelling

/-! ## What a spelling begins with -/

theorem wordLetter_low : ∀ i, (wordLetter i).toNat < 0x80 := by decide

theorem lastWordLetter_low : ∀ i, (lastWordLetter i).toNat < 0x80 := by decide

/-- A literal begins with a digit that is not 0. -/
theorem Name.mangle_head (name : Name) : ∃ c r, Cell.ofString name.mangle = Cell.ascii c :: r ∧
    c.isDigit = true ∧ c ≠ '0' := by
  obtain ⟨c, r, hr, hdigit, hzero⟩ := Decode.toString_head name.isName.size_pos
  rw [Name.mangle, Cell.ofString_append, hr]
  exact ⟨c, _, rfl, hdigit, hzero⟩

/-- No spelling of a piece begins with 0, which would end the identifier. -/
theorem NamePiece.mangle_head (p : NamePiece) : ∃ c r, Cell.ofString p.mangle = Cell.ascii c :: r ∧
    c.toNat < 0x80 ∧ c ≠ '0' := by
  cases p with
  | literal name =>
    obtain ⟨c, r, hr, hdigit, hzero⟩ := name.mangle_head
    exact ⟨c, r, hr, Cell.low_of_isDigit_char hdigit, hzero⟩
  | word i =>
    have hzero : ∀ i, wordLetter i ≠ '0' := by decide
    exact ⟨wordLetter i, [], Cell.ofString_singleton (wordLetter_low i), wordLetter_low i, hzero i⟩

theorem Ending.mangle_head {e : Ending} (h : e.pieces ≠ []) :
    ∃ c r, Cell.ofString e.mangle = Cell.ascii c :: r ∧ c.toNat < 0x80 ∧ c ≠ '0' := by
  have hzero : ∀ i, lastWordLetter i ≠ '0' := by decide
  have hword : ∀ (i : Fin WordTable.capacity) (m : String),
      Cell.ofString (String.singleton (lastWordLetter i) ++ m) =
        Cell.ascii (lastWordLetter i) :: Cell.ofString m := by
    intro i m
    rw [Cell.ofString_append, Cell.ofString_singleton (lastWordLetter_low i)]
    rfl
  cases e with
  | close => exact absurd rfl h
  | lastWord i => exact ⟨_, _, hword i _, lastWordLetter_low i, hzero i⟩
  | lastLiteral i name => exact ⟨_, _, hword i _, lastWordLetter_low i, hzero i⟩

/-- The 0 that begins a spelling in words has no other one after it. -/
theorem words_head {first : List NamePiece} {ending : Ending} (h : first ++ ending.pieces ≠ []) :
    ∃ c r, Cell.ofString (NamePiece.mangleAll first ++ ending.mangle) = Cell.ascii c :: r ∧
      c.toNat < 0x80 ∧ c ≠ '0' := by
  cases first with
  | nil =>
    rw [NamePiece.mangleAll, String.empty_append]
    exact Ending.mangle_head h
  | cons p ps =>
    obtain ⟨c, r, hr, hc⟩ := p.mangle_head
    rw [NamePiece.mangleAll, String.append_assoc, Cell.ofString_append, hr]
    exact ⟨c, _, rfl, hc⟩

theorem wordLetter?_wordLetter : ∀ i : Fin WordTable.capacity,
    Decode.wordLetter? (wordLetter i) = some (i.val, false) := by decide

theorem wordLetter?_lastWordLetter : ∀ i : Fin WordTable.capacity,
    Decode.wordLetter? (lastWordLetter i) = some (i.val, true) := by decide

theorem wordLetter?_digit {c : Char} (h : c.isDigit = true) : Decode.wordLetter? c = none := by
  obtain ⟨hlower, hupper⟩ := Cell.not_letter_of_isDigit h
  unfold Decode.wordLetter?
  rw [hlower, hupper]
  rfl

/-! ## Reading -/

/-- The state after a spelling with these literals. -/
def State.past (s : State) (m : String) (literals : List String) : State :=
  { s with
    cursor := s.cursor.advance m.utf8ByteSize
    words := literals.foldl WordTable.record s.words }

theorem State.past_past (s : State) (m n : String) (ls ks : List String) :
    (s.past m ls).past n ks = s.past (m ++ n) (ls ++ ks) := by
  simp only [State.past, Cursor.advance_advance, String.utf8ByteSize_append, List.foldl_append]

theorem State.rest_past {s : State} {m : String} {r : List Cell}
    (h : s.cursor.rest = Cell.ofString m ++ r) (ls : List String) :
    (s.past m ls).cursor.rest = r := by
  show (s.cursor.advance m.utf8ByteSize).rest = r
  rw [← Cell.length_ofString]
  exact Cursor.rest_advance h

namespace Decode

variable {s : State} {r : List Cell}

theorem accept_zero_hit (h : s.cursor.rest = Cell.ofString "0" ++ r) :
    (Scan.accept '0' : Decode Bool) s = .ok true (s.past "0" []) :=
  reads_accept s h

theorem accept_zero_miss {c : Char} (hlow : c.toNat < 0x80) (hc : c ≠ '0')
    (h : s.cursor.rest = Cell.ascii c :: r) : (Scan.accept '0' : Decode Bool) s = .ok false s := by
  have hhead : ∀ x ∈ s.cursor.rest.head?, x.letter ≠ '0' := by
    intro x hx
    rw [h] at hx
    cases hx
    rwa [Cell.letter_ascii hlow]
  have hmiss := reads_accept_miss (by decide) hhead s rfl
  rwa [List.length_nil, Cursor.advance_zero] at hmiss

theorem letter?_ascii {α : Type} {f : Char → Option α} {a : α} {c : Char} (hlow : c.toNat < 0x80)
    (hf : f c = some a) (h : s.cursor.rest = Cell.ofString (String.singleton c) ++ r) :
    (Scan.letter? f : Decode (Option α)) s = .ok (some a) (s.past (String.singleton c) []) := by
  have hsize := Cell.length_ofString (String.singleton c)
  rw [Cell.ofString_singleton hlow] at h hsize
  rw [State.past, ← hsize]
  refine lift_ok (Scan.letter?_hit h ?_)
  rwa [Cell.letter_ascii hlow]

theorem segment_literal (name : Name) (hr : Cell.atBoundary r = true)
    (h : s.cursor.rest = Cell.ofString name.mangle ++ r) :
    segment s = .ok name.text (s.past name.mangle [name.text]) := by
  have hread := h
  rw [Name.mangle, Cell.ofString_append, List.append_assoc] at hread
  rw [segment_name name.isName hr hread, Cell.length_ofString]
  rfl

/-! ## One piece -/

/-- A word is looked up in the table as it is. -/
theorem wordsAndSegments_word {i : Fin WordTable.capacity} {text : String}
    (hi : s.words[i.val]? = some text)
    (h : s.cursor.rest = Cell.ofString (String.singleton (wordLetter i)) ++ r) (fuel : Nat) (acc : String) :
    wordsAndSegments (fuel + 1) acc s =
      wordsAndSegments fuel (acc ++ text) (s.past (String.singleton (wordLetter i)) []) := by
  have hletter := letter?_ascii (wordLetter_low i) (wordLetter?_wordLetter i) h
  rw [wordsAndSegments, bind_ok hletter]
  show (require s.words[i.val]? >>= _) _ = _
  rw [hi]
  rfl

theorem wordsAndSegments_literal (name : Name) (hr : Cell.atBoundary r = true)
    (h : s.cursor.rest = Cell.ofString name.mangle ++ r) (fuel : Nat) (acc : String) :
    wordsAndSegments (fuel + 1) acc s =
      wordsAndSegments fuel (acc ++ name.text) (s.past name.mangle [name.text]) := by
  obtain ⟨c, cs, hcs, hdigit, hzero⟩ := name.mangle_head
  have hlow := Cell.low_of_isDigit_char hdigit
  have hhead : s.cursor.rest = Cell.ascii c :: (cs ++ r) := by
    rw [h, hcs]
    rfl
  have hletter : (Scan.letter? wordLetter? : Decode _) s = .ok none s := by
    refine lift_ok (Scan.letter?_miss hhead ?_)
    rw [Cell.letter_ascii hlow]
    exact wordLetter?_digit hdigit
  rw [wordsAndSegments, bind_ok hletter]
  dsimp only
  rw [bind_ok (accept_zero_miss hlow hzero hhead)]
  exact bind_ok (segment_literal name hr h) _

/-- **One turn reads one piece**, whatever its kind, and hands on the table that the piece leaves. -/
theorem wordsAndSegments_piece {p : NamePiece} {text : String} (hp : p.text? s.words = some text)
    (hr : Cell.atBoundary r = true) (h : s.cursor.rest = Cell.ofString p.mangle ++ r) (fuel : Nat)
    (acc : String) :
    wordsAndSegments (fuel + 1) acc s =
      wordsAndSegments fuel (acc ++ text) (s.past p.mangle p.literals) := by
  cases p with
  | literal name =>
    cases hp
    exact wordsAndSegments_literal name hr h fuel acc
  | word i => exact wordsAndSegments_word hp h fuel acc

/-! ## The ending -/

theorem wordsAndSegments_close (h : s.cursor.rest = Cell.ofString "0" ++ r) (fuel : Nat) (acc : String) :
    wordsAndSegments (fuel + 1) acc s = .ok acc (s.past "0" []) := by
  have hletter : (Scan.letter? wordLetter? : Decode _) s = .ok none s :=
    lift_ok (Scan.letter?_miss h rfl)
  rw [wordsAndSegments, bind_ok hletter]
  exact bind_ok (accept_zero_hit h) _

/-- After the last word, `0` ends the identifier, or one more literal does. -/
theorem wordsAndSegments_lastWord {i : Fin WordTable.capacity} {word : String}
    (hi : s.words[i.val]? = some word)
    (h : s.cursor.rest = Cell.ofString (String.singleton (lastWordLetter i)) ++ r) (fuel : Nat)
    (acc : String) :
    wordsAndSegments (fuel + 1) acc s =
      (do if ← Scan.accept '0' then return acc ++ word else return acc ++ word ++ (← segment) :
        Decode String) (s.past (String.singleton (lastWordLetter i)) []) := by
  have hletter := letter?_ascii (lastWordLetter_low i) (wordLetter?_lastWordLetter i) h
  rw [wordsAndSegments, bind_ok hletter]
  show (require s.words[i.val]? >>= _) _ = _
  rw [hi]
  rfl

theorem wordsAndSegments_ending {e : Ending} {text : String}
    (he : NamePiece.expand? s.words e.pieces = some text) (hr : Cell.atBoundary r = true)
    (h : s.cursor.rest = Cell.ofString e.mangle ++ r) (fuel : Nat) (acc : String) :
    wordsAndSegments (fuel + 1) acc s =
      .ok (acc ++ text) (s.past e.mangle (e.pieces.flatMap NamePiece.literals)) := by
  cases e with
  | close =>
    cases he
    rw [String.append_empty]
    exact wordsAndSegments_close h fuel acc
  | lastWord i =>
    obtain ⟨word, more, hword, hmore, rfl⟩ := NamePiece.expand?_cons.mp he
    cases hmore
    rw [Ending.mangle, Cell.ofString_append, List.append_assoc] at h
    have hclose := accept_zero_hit (State.rest_past h [])
    rw [State.past_past] at hclose
    rw [wordsAndSegments_lastWord hword h, bind_ok hclose, String.append_empty]
    rfl
  | lastLiteral i name =>
    obtain ⟨word, more, hword, hmore, rfl⟩ := NamePiece.expand?_cons.mp he
    obtain ⟨_, _, hname, hnil, rfl⟩ := NamePiece.expand?_cons.mp hmore
    cases hname
    cases hnil
    rw [Ending.mangle, Cell.ofString_append, List.append_assoc] at h
    have hrest := State.rest_past h []
    obtain ⟨c, cs, hcs, hdigit, hzero⟩ := name.mangle_head
    have hmiss := accept_zero_miss (Cell.low_of_isDigit_char hdigit) hzero
      (hrest.trans (congrArg (· ++ r) hcs))
    have hsegment := segment_literal name hr hrest
    rw [State.past_past] at hsegment
    rw [wordsAndSegments_lastWord hword h, bind_ok hmiss]
    simp only [Bool.false_eq_true, if_false]
    rw [bind_ok hsegment, String.append_empty, String.append_assoc]
    rfl

/-! ## All pieces -/

/-- **Turn after turn reads piece after piece.** -/
theorem wordsAndSegments_pieces (hr : Cell.atBoundary r = true) (fuel : Nat) : ∀ (ps : List NamePiece)
    (s : State) (text acc : String), NamePiece.expand? s.words ps = some text →
    s.cursor.rest = Cell.ofString (NamePiece.mangleAll ps) ++ r →
    wordsAndSegments (ps.length + fuel) acc s =
      wordsAndSegments fuel (acc ++ text)
        (s.past (NamePiece.mangleAll ps) (ps.flatMap NamePiece.literals)) := by
  intro ps
  induction ps with
  | nil =>
    intro s text acc htext h
    cases htext
    rw [String.append_empty, List.length_nil, Nat.zero_add]
    show wordsAndSegments fuel acc s =
      wordsAndSegments fuel acc { s with cursor := s.cursor.advance 0, words := s.words }
    rw [Cursor.advance_zero]
  | cons p ps ih =>
    intro s text acc htext h
    obtain ⟨first, more, hp, hps, rfl⟩ := NamePiece.expand?_cons.mp htext
    rw [NamePiece.mangleAll, Cell.ofString_append, List.append_assoc] at h
    have hturn := wordsAndSegments_piece hp (Cell.atBoundary_append _ hr) h (ps.length + fuel) acc
    -- The table that the piece leaves is the one in which the other pieces are looked up.
    have hrun := ih (s.past p.mangle p.literals) more (acc ++ first) hps (State.rest_past h _)
    rw [State.past_past, String.append_assoc] at hrun
    rw [List.length_cons, Nat.add_right_comm, hturn, hrun]
    rfl

/-- Every piece takes a byte at least. -/
theorem length_le_mangleAll (ps : List NamePiece) :
    ps.length ≤ (Cell.ofString (NamePiece.mangleAll ps)).length := by
  induction ps with
  | nil => exact Nat.zero_le _
  | cons p ps ih =>
    obtain ⟨c, cs, hcs, -⟩ := p.mangle_head
    rw [NamePiece.mangleAll, Cell.ofString_append, hcs, List.length_append, List.length_cons,
      List.length_cons]
    omega

/-- **Pieces and their ending are read to the end**: the bytes left are enough turns for them. -/
theorem wordsAndSegments_remaining {first : List NamePiece} {ending : Ending} {text : String}
    (htext : NamePiece.expand? s.words (first ++ ending.pieces) = some text)
    (hr : Cell.atBoundary r = true)
    (h : s.cursor.rest = Cell.ofString (NamePiece.mangleAll first ++ ending.mangle) ++ r) :
    (do wordsAndSegments (← Scan.remaining) "" : Decode String) s =
      .ok text (s.past (NamePiece.mangleAll first ++ ending.mangle)
        ((first ++ ending.pieces).flatMap NamePiece.literals)) := by
  obtain ⟨text₁, text₂, hfirst, hending, rfl⟩ := NamePiece.expand?_append first ending.pieces htext
  rw [Cell.ofString_append, List.append_assoc] at h
  obtain ⟨fuel, hfuel⟩ : ∃ fuel, s.cursor.rest.length = first.length + (fuel + 1) := by
    have hpieces := length_le_mangleAll first
    have hlast := ending.mangle_pos
    refine ⟨s.cursor.rest.length - first.length - 1, ?_⟩
    rw [h, List.length_append, List.length_append]
    omega
  have hremaining : (Scan.remaining : Decode Nat) s = .ok (first.length + (fuel + 1)) s := by
    rw [← hfuel]
    rfl
  have hrun := wordsAndSegments_pieces (Cell.atBoundary_append ending.mangle hr) (fuel + 1) first s
    text₁ "" hfirst h
  have hlast := wordsAndSegments_ending hending hr
    (State.rest_past h (first.flatMap NamePiece.literals)) fuel ("" ++ text₁)
  rw [bind_ok hremaining, hrun, hlast, State.past_past, String.empty_append, List.flatMap_append]

/-! ## Identifiers -/

/-- One 0, and no second one, begins a spelling in words. -/
theorem identifierText_zero {c : Char} (hlow : c.toNat < 0x80) (hc : c ≠ '0')
    (h : s.cursor.rest = Cell.ofString "0" ++ Cell.ascii c :: r) :
    identifierText s = (do wordsAndSegments (← Scan.remaining) "" : Decode String) (s.past "0" []) := by
  have hpeek : Scan.peek? s.cursor = .ok (some '0') s.cursor := Scan.peek?_ascii (by decide) h
  have hnext : (Scan.next : Decode UInt8) s = .ok '0'.toUInt8 (s.past "0" []) :=
    lift_ok (Scan.next_cons h)
  unfold identifierText
  rw [bind_ok (lift_ok hpeek)]
  show (Scan.next >>= _ : Decode String) s = _
  rw [bind_ok hnext, bind_ok (accept_zero_miss hlow hc (State.rest_past h []))]
  rfl

/-- **The text of an identifier is what its pieces make**, in whatever way they are spelled. -/
theorem identifierText_spelling (spelling : IdentifierSpelling) {text : String}
    (htext : NamePiece.expand? s.words spelling.pieces = some text) (hr : Cell.atBoundary r = true)
    (h : s.cursor.rest = Cell.ofString spelling.mangle ++ r) :
    identifierText s =
      .ok text (s.past spelling.mangle (spelling.pieces.flatMap NamePiece.literals)) := by
  cases spelling with
  | plain name =>
    obtain ⟨_, _, hname, hnil, rfl⟩ := NamePiece.expand?_cons.mp htext
    cases hname
    cases hnil
    obtain ⟨c, cs, hcs, hdigit, hzero⟩ := name.mangle_head
    rw [identifierText_digit hdigit hzero (h.trans (congrArg (· ++ r) hcs)), String.append_empty]
    exact segment_literal name hr h
  | words first ending hne =>
    obtain ⟨c, cs, hcs, hlow, hzero⟩ := words_head hne
    rw [IdentifierSpelling.mangle, Cell.ofString_append, List.append_assoc] at h
    have hstart := identifierText_zero hlow hzero
      (h.trans (congrArg (Cell.ofString "0" ++ · ++ r) hcs))
    have hwords := wordsAndSegments_remaining (s := s.past "0" []) htext hr (State.rest_past h [])
    rw [State.past_past, List.nil_append] at hwords
    exact hstart.trans hwords

/-- The text is not empty: its first piece is a literal or a word of the table. -/
theorem expand?_ne_empty {t : WordTable} {ps : List NamePiece} {text : String} (ht : ∀ w ∈ t, w ≠ "")
    (hps : ps ≠ []) (htext : NamePiece.expand? t ps = some text) : text ≠ "" := by
  obtain ⟨p, ps, rfl⟩ := List.exists_cons_of_ne_nil hps
  obtain ⟨first, more, hp, -, rfl⟩ := NamePiece.expand?_cons.mp htext
  have hfirst : first ≠ "" := by
    cases p with
    | literal name =>
      cases hp
      exact name.isName.nonempty
    | word i => exact ht first (Array.mem_of_getElem? hp)
  rw [Ne, String.append_eq_empty_iff]
  exact fun h => hfirst h.1

/-- **An identifier is what its spelling spells**, whatever follows the spelling. The words of the table
are not empty, as all that are recorded (`WordTable.Grows.two_le`). -/
theorem identifier_spelling (spelling : IdentifierSpelling) {rest text : String}
    (hwords : ∀ w ∈ s.words, w ≠ "")
    (htext : NamePiece.expand? s.words spelling.pieces = some text)
    (h : s.cursor.rest = Cell.ofString (spelling.mangle ++ rest)) :
    identifier s = .ok (ofText .identifier text) { s with
      cursor := s.cursor.advance spelling.mangle.utf8ByteSize
      words := (spelling.pieces.flatMap NamePiece.literals).foldl WordTable.record s.words
      substitutions := s.substitutions.push (ofText .identifier text) } := by
  have hne : (!text.isEmpty) = true := by
    simpa using expand?_ne_empty hwords spelling.pieces_ne_nil htext
  have hboundary : Cell.atBoundary (Cell.ofString rest) = true := by
    have hempty := Cell.atBoundary_append rest (r := []) rfl
    rwa [List.append_nil] at hempty
  rw [Cell.ofString_append] at h
  unfold identifier
  rw [bind_ok (identifierText_spelling spelling htext hboundary h), hne]
  rfl

/-- A word, a literal, a word of that literal, and one more literal. -/
def sampleSpelling : IdentifierSpelling :=
  .words [.word ⟨1, by decide⟩, .literal ⟨"étéTable", by decide, by simp, by decide⟩]
    (.lastLiteral ⟨3, by decide⟩ ⟨"One", by decide, by simp, by decide⟩) (by simp)

theorem identifier_spelling_sample :
    let s : State := { cursor := .ofString "0b10étéTableD3One0C", words := #["My", "Class"] }
    sampleSpelling.mangle = "0b10étéTableD3One" ∧
    identifier s = .ok (ofText .identifier "ClassétéTableTableOne") { s with
      cursor := s.cursor.advance 19
      words := #["My", "Class", "été", "Table", "One"]
      substitutions := #[ofText .identifier "ClassétéTableTableOne"] } := by
  intro s
  have hmangle : sampleSpelling.mangle = "0b10étéTableD3One" := by
    decide +kernel
  have htext : NamePiece.expand? s.words sampleSpelling.pieces = some "ClassétéTableTableOne" := by
    decide +kernel
  have hwords : (sampleSpelling.pieces.flatMap NamePiece.literals).foldl WordTable.record s.words =
      #["My", "Class", "été", "Table", "One"] := by
    decide +kernel
  have hcells : s.cursor.rest = Cell.ofString (sampleSpelling.mangle ++ "0C") := by
    rw [hmangle]
    rfl
  have hread := identifier_spelling sampleSpelling (by decide) htext hcells
  rw [hmangle, hwords] at hread
  exact ⟨hmangle, hread⟩

end Decode

end Demangle
