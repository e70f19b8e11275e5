import Mathlib.Data.List.SplitBy
import Mathlib.Data.List.TakeWhile
import Demangle.Proofs.Cursor.Actions
import Demangle.Proofs.WordTable

/-!
# The words of a text are its pieces

Words are found in one pass over the characters. They are also what is left if the bytes of the text are cut
first: at every `_` and NUL, which are dropped, and in front of every upper-case letter behind a byte that is
none; and if the digits are then dropped that a piece begins with (`Word.cut`).

The pass keeps the word that is being read. What it has read of the current piece is a `Reading`: bytes without
a cut among them, whose digits in front are not part of the word. Each character goes on with the piece, or it
ends it and begins another one (`splitFrom_eq_cut`).
-/

namespace Demangle

namespace Word

/-! ## Cutting bytes -/

/-- `_` and NUL are cut out. -/
def isMark (x : Cell) : Bool :=
  isSeparator x.letter

/-- Two bytes with no cut between them: the second one is no upper-case letter, or the first one is, too. -/
def joined (x y : Cell) : Bool :=
  x.letter.isUpper || !y.letter.isUpper

/-- The pieces of the bytes without the digits that they begin with. -/
def cut (xs : List Cell) : List (List Cell) :=
  ((xs.splitOnP isMark).flatMap (List.splitBy joined)).map (List.dropWhile Cell.isDigit)

/-- The pieces of a text. -/
def pieces (s : String) : List (List Cell) :=
  cut (Cell.ofString s)

section Cut

variable {as bs : List Cell} {x : Cell}

theorem cut_mark (hx : isMark x = true) (as bs : List Cell) : cut (as ++ x :: bs) = cut as ++ cut bs := by
  unfold cut
  rw [List.splitOnP_append_cons as bs hx, List.flatMap_append, List.map_append]

theorem cut_plain (has : ∀ x ∈ as, isMark x = false) :
    cut as = (as.splitBy joined).map (List.dropWhile Cell.isDigit) := by
  rw [cut, List.splitOnP_eq_singleton has, List.flatMap_singleton]

/-- Bytes without a cut among them are one piece. -/
theorem cut_joined (has : ∀ x ∈ as, isMark x = false) (hchain : as.IsChain fun x y => joined x y)
    (hne : as ≠ []) : cut as = [as.dropWhile Cell.isDigit] := by
  rw [cut_plain has, List.splitBy_of_isChain hne hchain, List.map_singleton]

theorem splitOnP_append_plain (has : ∀ x ∈ as, isMark x = false) (bs : List Cell) :
    (as ++ bs).splitOnP isMark = (bs.splitOnP isMark).modifyHead (as ++ ·) := by
  induction as with
  | nil => exact (List.modifyHead_id).symm ▸ rfl
  | cons a as ih =>
    obtain ⟨ha, has⟩ := List.forall_mem_cons.mp has
    rw [List.cons_append, List.splitOnP_cons_eq_if_modifyHead, if_neg (by simp [ha]), ih has,
      List.modifyHead_modifyHead]
    rfl

/-- A cut in front of a byte. -/
theorem cut_before (has : ∀ x ∈ as, isMark x = false) (hx : isMark x = false)
    (hcut : ∀ z ∈ as.getLast?, joined z x = false) (bs : List Cell) :
    cut (as ++ x :: bs) = cut as ++ cut (x :: bs) := by
  obtain ⟨f, fs, hf⟩ := List.exists_cons_of_ne_nil (List.splitOnP_ne_nil isMark bs)
  have hfields : (x :: bs).splitOnP isMark = (x :: f) :: fs := by
    rw [List.splitOnP_cons_eq_if_modifyHead, if_neg (by simp [hx]), hf]
    rfl
  rw [cut_plain has, cut, cut, splitOnP_append_plain has, hfields]
  simp [List.splitBy_append_cons f hcut]

end Cut

/-! ## The class of a character and of its bytes -/

/-- The bytes of a character are in a class of ASCII if the character is. -/
theorem letter_class {p : Char → Bool} (hp : ∀ d : Char, 0x80 ≤ d.toNat → p d = false) {c : Char}
    {x : Cell} (hx : x ∈ Cell.ofChar c) : p x.letter = p c := by
  by_cases hc : c.toNat < 0x80
  · rw [Cell.ofChar_ascii hc, List.mem_singleton] at hx
    rw [hx, Cell.letter_ascii hc]
  · have hhigh : 0x80 ≤ c.toNat := Nat.le_of_not_lt hc
    have hletter : 0x80 ≤ x.letter.toNat := by
      rw [Cell.toNat_letter]
      exact Cell.high_of_mem_ofChar hhigh hx
    rw [hp _ hletter, hp c hhigh]

theorem isMark_of_mem {c : Char} {x : Cell} (hx : x ∈ Cell.ofChar c) : isMark x = isSeparator c := by
  refine letter_class (p := isSeparator) (fun d hd => ?_) hx
  simp only [isSeparator, Bool.or_eq_false_iff, beq_eq_false_iff_ne]
  constructor <;> rintro rfl <;> exact absurd hd (by decide)

theorem isDigit_of_mem {c : Char} {x : Cell} (hx : x ∈ Cell.ofChar c) : x.isDigit = c.isDigit := by
  refine letter_class (p := Char.isDigit) (fun d hd => ?_) hx
  rw [← Bool.not_eq_true]
  exact fun h => absurd (Cell.low_of_isDigit_char h) (Nat.not_lt_of_le hd)

theorem isUpper_of_mem {c : Char} {x : Cell} (hx : x ∈ Cell.ofChar c) : x.letter.isUpper = c.isUpper := by
  refine letter_class (p := Char.isUpper) (fun d hd => ?_) hx
  rw [← Bool.not_eq_true]
  intro h
  delta Char.isUpper at h
  have hle : d.toNat ≤ 'Z'.toNat := (of_decide_eq_true h).2
  exact absurd hle (Nat.not_le_of_lt (Nat.lt_of_lt_of_le (by decide) hd))

theorem ofChar_ne_nil (c : Char) : Cell.ofChar c ≠ [] := by
  obtain ⟨b, bs, -, h⟩ := Cell.ofChar_eq c
  exact h ▸ List.cons_ne_nil _ _

/-- There is no cut inside a character. -/
theorem isChain_ofChar (c : Char) : (Cell.ofChar c).IsChain fun x y => joined x y := by
  refine List.Pairwise.isChain (List.Pairwise.imp_of_mem ?_ (List.pairwise_of_forall fun _ _ => trivial))
  intro x y hx hy _
  rw [joined, isUpper_of_mem hx, isUpper_of_mem hy, Bool.or_not_self]

/-! ## One piece being read -/

/-- What has been read of a piece, and the word that it is so far, last character first. -/
structure Reading (word : List Char) (read : List Cell) : Prop where
  plain : ∀ x ∈ read, isMark x = false
  chain : read.IsChain fun x y => joined x y
  word : word.reverse.flatMap Cell.ofChar = read.dropWhile Cell.isDigit

namespace Reading

variable {word : List Char} {read : List Cell} {c last : Char}

theorem empty : Reading [] [] :=
  ⟨nofun, .nil, rfl⟩

section Extend

variable (hc : isSeparator c = false) (hjoin : ∀ x ∈ read.getLast?, (x.letter.isUpper || !c.isUpper) = true)

include hc hjoin

/-- A character that is joined to the piece goes on with it. -/
theorem extend (h : Reading word read) {word' : List Char}
    (hword : word'.reverse.flatMap Cell.ofChar = (read ++ Cell.ofChar c).dropWhile Cell.isDigit) :
    Reading word' (read ++ Cell.ofChar c) where
  plain x hx := by
    rcases List.mem_append.mp hx with hx | hx
    · exact h.plain x hx
    · rw [isMark_of_mem hx, hc]
  chain := by
    refine List.isChain_append.mpr ⟨h.chain, isChain_ofChar c, fun x hx y hy => ?_⟩
    rw [joined, isUpper_of_mem (List.mem_of_mem_head? hy)]
    exact hjoin x hx
  word := hword

/-- A piece of digits goes on with a character. -/
theorem extend_nil (h : Reading [] read) :
    Reading (if canStart c then [c] else []) (read ++ Cell.ofChar c) := by
  have hdigits : ∀ x ∈ read, x.isDigit = true := List.dropWhile_eq_nil_iff.mp h.word.symm
  refine h.extend hc hjoin ?_
  rw [List.dropWhile_append_of_pos hdigits]
  cases hd : c.isDigit with
  | true =>
    have hall : ∀ x ∈ Cell.ofChar c, x.isDigit = true := fun x hx => (isDigit_of_mem hx).trans hd
    rw [if_neg (by simp [canStart, hd]), List.dropWhile_eq_nil_iff.mpr hall]
    rfl
  | false =>
    obtain ⟨x, xs, hx⟩ := List.exists_cons_of_ne_nil (ofChar_ne_nil c)
    have hfirst : x.isDigit = false := (isDigit_of_mem (hx ▸ List.mem_cons_self)).trans hd
    rw [if_pos (by simp [canStart, hd, hc]), List.reverse_singleton, List.flatMap_singleton, hx,
      List.dropWhile_cons_of_neg (by simp [hfirst])]

/-- A word goes on with a character. -/
theorem extend_cons (h : Reading (last :: word) read) :
    Reading (c :: last :: word) (read ++ Cell.ofChar c) := by
  refine h.extend hc hjoin ?_
  have hne : read.dropWhile Cell.isDigit ≠ [] := by
    rw [← h.word]
    simp [ofChar_ne_nil]
  rw [List.dropWhile_append, if_neg (by simpa using hne), List.reverse_cons, List.flatMap_append,
    List.flatMap_singleton, h.word]

end Extend

/-- The piece ends with the word. -/
theorem isUpper_getLast (h : Reading (last :: word) read) :
    ∃ x ∈ read.getLast?, x.letter.isUpper = last.isUpper := by
  obtain ⟨y, hy⟩ : ∃ y, (Cell.ofChar last).getLast? = some y :=
    Option.isSome_iff_exists.mp (List.getLast?_isSome.mpr (ofChar_ne_nil last))
  have hlast : (read.dropWhile Cell.isDigit).getLast? = some y := by
    rw [← h.word, List.reverse_cons, List.flatMap_append, List.flatMap_singleton,
      List.getLast?_append, hy]
    rfl
  refine ⟨y, ?_, isUpper_of_mem (List.mem_of_getLast? hy)⟩
  rw [← List.takeWhile_append_dropWhile (p := Cell.isDigit) (l := read), List.getLast?_append, hlast]
  rfl

/-- Behind a byte that is no upper-case letter, no word goes on with one. -/
theorem stops (h : Reading word read) {x : Cell} (hx : x ∈ read.getLast?) (hlow : x.letter.isUpper = false)
    (hc : c.isUpper = true) : ∀ last ∈ word.head?, continues last c = false := by
  intro last hlast
  obtain ⟨word, rfl⟩ : ∃ w, word = last :: w := List.head?_eq_some_iff.mp hlast
  obtain ⟨y, hy, hupper⟩ := h.isUpper_getLast
  obtain rfl := Option.mem_unique hx hy
  rw [continues, ← hupper, hlow, hc, Bool.not_true, Bool.or_false, Bool.and_false]

/-- At the end of the piece the word is what it is without the digits in front. -/
theorem finish (h : Reading word read) :
    (splitFrom word []).map (·.flatMap Cell.ofChar) = (cut read).filter (· ≠ []) := by
  cases word with
  | nil =>
    cases read with
    | nil => rfl
    | cons x read =>
      rw [cut_joined h.plain h.chain (List.cons_ne_nil x read), ← h.word]
      rfl
  | cons last word =>
    have hne : (last :: word).reverse.flatMap Cell.ofChar ≠ [] := by
      simp [ofChar_ne_nil]
    have hread : read ≠ [] := by
      rintro rfl
      exact hne h.word
    rw [cut_joined h.plain h.chain hread, ← h.word, List.filter_singleton, decide_eq_true hne]
    rfl

end Reading

/-! ## The pass -/

/-- A word that does not go on with `c` ends there. -/
theorem splitFrom_stop {word : List Char} {c : Char} (h : ∀ last ∈ word.head?, continues last c = false)
    (cs : List Char) :
    splitFrom word (c :: cs) = splitFrom word [] ++ splitFrom (if canStart c then [c] else []) cs := by
  cases word with
  | nil => rfl
  | cons last word =>
    have hstop : continues last c = false := h last rfl
    rw [splitFrom.eq_4, if_neg (by simp [hstop]), splitFrom.eq_2 _ (List.cons_ne_nil last word)]
    rfl

theorem ofChar_separator {c : Char} (hc : isSeparator c = true) : Cell.ofChar c = [Cell.ascii c] := by
  apply Cell.ofChar_ascii
  rw [isSeparator, Bool.or_eq_true, beq_iff_eq, beq_iff_eq] at hc
  rcases hc with rfl | rfl <;> decide

theorem continues_of_separator {c : Char} (hc : isSeparator c = true) (last : Char) :
    continues last c = false := by
  rw [continues, hc]
  rfl

/-- The pass finds what is left of the current piece and the pieces behind it. -/
theorem splitFrom_eq_cut (cs : List Char) {word : List Char} {read : List Cell} (h : Reading word read) :
    (splitFrom word cs).map (·.flatMap Cell.ofChar) =
      (cut (read ++ cs.flatMap Cell.ofChar)).filter (· ≠ []) := by
  -- a character is dropped with a cut, goes on with the piece, or stands behind a cut
  induction cs generalizing word read with
  | nil => rw [List.flatMap_nil, List.append_nil, h.finish]
  | cons c cs ih =>
    rw [List.flatMap_cons]
    cases hc : isSeparator c with
    | true =>
      have hstart : (if canStart c then [c] else []) = [] := if_neg (by simp [canStart, hc])
      have hcell : Cell.ofChar c = [Cell.ascii c] := ofChar_separator hc
      have hmark : isMark (Cell.ascii c) = true :=
        (isMark_of_mem (hcell ▸ List.mem_cons_self)).trans hc
      rw [splitFrom_stop fun last _ => continues_of_separator hc last, hstart, List.map_append, h.finish,
        ih .empty, hcell, List.singleton_append, cut_mark hmark, List.filter_append, List.nil_append]
    | false =>
      by_cases hjoin : ∀ x ∈ read.getLast?, (x.letter.isUpper || !c.isUpper) = true
      · rw [← List.append_assoc]
        cases word with
        | nil => exact ih (h.extend_nil hc hjoin)
        | cons last word =>
          obtain ⟨x, hx, hupper⟩ := h.isUpper_getLast
          have hgoes : continues last c = true := by
            rw [continues, hc, ← hupper, hjoin x hx]
            rfl
          rw [splitFrom, if_pos hgoes]
          exact ih (h.extend_cons hc hjoin)
      · obtain ⟨x, hx, hlow, hupper⟩ :
            ∃ x ∈ read.getLast?, x.letter.isUpper = false ∧ c.isUpper = true := by
          simpa using hjoin
        have hstop : ∀ last ∈ word.head?, continues last c = false := h.stops hx hlow hupper
        have hnext : Reading (if canStart c then [c] else []) (Cell.ofChar c) :=
          Reading.empty.extend_nil hc (by simp)
        rw [splitFrom_stop hstop, List.map_append, h.finish, ih hnext, ← List.filter_append]
        obtain ⟨y, ys, hy⟩ := List.exists_cons_of_ne_nil (ofChar_ne_nil c)
        have hmem : y ∈ Cell.ofChar c := hy ▸ List.mem_cons_self
        rw [hy, List.cons_append, cut_before h.plain ((isMark_of_mem hmem).trans hc)]
        intro z hz
        obtain rfl := Option.mem_unique hx hz
        rw [joined, hlow, isUpper_of_mem hmem, hupper]
        rfl

/-! ## Pieces of a text -/

variable {s : String} {p : List Cell}

theorem cells_ofList (cs : List Char) : cs.flatMap Cell.ofChar = Cell.ofString (String.ofList cs) := by
  rw [Cell.ofString, String.toList_ofList]

theorem words_eq_pieces (s : String) :
    (splitFrom [] s.toList).map (·.flatMap Cell.ofChar) = (pieces s).filter (· ≠ []) := by
  rw [splitFrom_eq_cut s.toList .empty, List.nil_append]
  rfl

/-- A piece is made of whole characters. -/
theorem ofString_text_piece (hp : p ∈ pieces s) : Cell.ofString (Cell.text p) = p := by
  by_cases hne : p = []
  · rw [hne]
    rfl
  have hmem : p ∈ (splitFrom [] s.toList).map (·.flatMap Cell.ofChar) := by
    rw [words_eq_pieces]
    exact List.mem_filter.mpr ⟨hp, decide_eq_true hne⟩
  obtain ⟨w, -, rfl⟩ := List.mem_map.mp hmem
  rw [cells_ofList, Cell.text_ofString]

/-- **The words of a text are its pieces of two bytes at least.** -/
theorem ofText_eq_pieces (s : String) :
    ofText s = ((pieces s).filter (2 ≤ ·.length)).map Cell.text := by
  have hwords : (splitFrom [] s.toList).map String.ofList =
      ((pieces s).filter (· ≠ [])).map Cell.text := by
    rw [← words_eq_pieces, List.map_map]
    refine List.map_congr_left fun w _ => ?_
    rw [Function.comp_apply, cells_ofList, Cell.text_ofString]
  rw [ofText, hwords, List.filter_map, List.filter_filter]
  congr 1
  refine List.filter_congr fun p hp => ?_
  rw [Function.comp_apply, ← Cell.length_ofString, ofString_text_piece hp]
  cases p <;> simp

/-! ## Where pieces lie -/

/-- The fields of a list lie in it, the first one at its start. -/
theorem infix_of_mem_splitOnP {α : Type} (q : α → Bool) (xs : List α) :
    (∀ f ∈ (xs.splitOnP q).head?, f <+: xs) ∧ ∀ f ∈ xs.splitOnP q, f <:+: xs := by
  induction xs with
  | nil => simp
  | cons x xs ih =>
    obtain ⟨f, fs, hf⟩ := List.exists_cons_of_ne_nil (List.splitOnP_ne_nil q xs)
    rw [hf] at ih
    obtain ⟨hfirst, hfields⟩ := ih
    rw [List.splitOnP_cons_eq_if_modifyHead, hf]
    split
    · refine ⟨fun g hg => ?_, List.forall_mem_cons.mpr ⟨List.nil_infix, fun g hg => ?_⟩⟩
      · cases hg
        exact List.nil_prefix
      · exact List.infix_cons (hfields g hg)
    · have hhead : x :: f <+: x :: xs := List.cons_prefix_cons.mpr ⟨rfl, hfirst f rfl⟩
      refine ⟨fun g hg => ?_, List.forall_mem_cons.mpr ⟨hhead.isInfix, fun g hg => ?_⟩⟩
      · cases hg
        exact hhead
      · exact List.infix_cons (hfields g (List.mem_cons_of_mem f hg))

theorem infix_of_mem_cut {xs p : List Cell} (hp : p ∈ cut xs) : p <:+: xs := by
  obtain ⟨chunk, hchunk, rfl⟩ := List.mem_map.mp hp
  obtain ⟨field, hfield, hmem⟩ := List.mem_flatMap.mp hchunk
  have hin : chunk <:+: field := by
    rw [← List.flatten_splitBy joined field]
    exact List.infix_of_mem_flatten hmem
  exact ((List.dropWhile_suffix Cell.isDigit).isInfix.trans hin).trans
    ((infix_of_mem_splitOnP isMark xs).2 field hfield)

end Word

/-- A text whose bytes stand among those of another text stands in that text. -/
theorem spans_of_cells {s w : String} {before after : List Cell} (hw : w ≠ "")
    (h : Cell.ofString s = before ++ Cell.ofString w ++ after) :
    Spans s w before.length (before.length + (Cell.ofString w).length) := by
  rw [List.append_assoc] at h
  obtain ⟨x, xs, hx, -, hbegins⟩ := Cell.ofString_head hw
  have hstart : Cell.atBoundary (Cell.ofString w ++ after) = true := by
    rw [hx]
    exact Option.isSome_iff_ne_none.mpr hbegins
  obtain ⟨u, v, rfl, rfl, hv⟩ := Cell.split_ofString h.symm hstart
  have hrest : v = w ++ Cell.text after := by
    rw [← Cell.text_ofString v, hv, Cell.text_append, Cell.text_ofString]
  refine ⟨u, Cell.text after, ?_, (Cell.length_ofString u).symm, ?_⟩
  · rw [hrest, String.append_assoc]
  · rw [← Cell.length_ofString, Cell.ofString_append, List.length_append]

namespace WordTable

/-- Words are added in order up to the capacity. -/
theorem toList_foldl_add (words : List String) (t : WordTable) :
    (words.foldl add t).toList = t.toList ++ words.take (capacity - t.size) := by
  induction words generalizing t with
  | nil => simp
  | cons w words ih =>
    rw [List.foldl_cons, ih, add]
    split
    · next hlt =>
      have hroom : capacity - t.size = capacity - (t.push w).size + 1 := by
        rw [Array.size_push]
        omega
      rw [hroom, List.take_succ_cons, Array.toList_push, List.append_assoc, List.singleton_append]
    · next hfull =>
      rw [Nat.sub_eq_zero_of_le (Nat.le_of_not_lt hfull), List.take_zero, List.take_zero]

/-- **A table records the pieces of a text.** The pieces of two bytes at least are added in order as long as the
table has room; and each piece that is not empty stands in the text, between characters wherever its bytes
occur. -/
theorem record_pieces (t : WordTable) (s : String) :
    (t.record s).toList =
        t.toList ++ (((Word.pieces s).filter (2 ≤ ·.length)).map Cell.text).take (capacity - t.size) ∧
      ∀ p ∈ Word.pieces s, p ≠ [] → p <:+: Cell.ofString s ∧
        ∀ before after, Cell.ofString s = before ++ p ++ after →
          Spans s (Cell.text p) before.length (before.length + p.length) := by
  refine ⟨?_, fun p hp hne => ⟨Word.infix_of_mem_cut hp, fun before after h => ?_⟩⟩
  · rw [record, toList_foldl_add, Word.ofText_eq_pieces]
  · have hcells : Cell.ofString (Cell.text p) = p := Word.ofString_text_piece hp
    have hword : Cell.text p ≠ "" := by
      intro hempty
      rw [hempty] at hcells
      exact hne hcells.symm
    have hspans := spans_of_cells (w := Cell.text p) hword (hcells.symm ▸ h)
    rwa [hcells] at hspans

/-- Digits inside a word stay, and a character outside ASCII is no cut. -/
theorem record_pieces_mixed :
    (record #["first"] "a_9b1cDefGHé").toList = ["first", "b1c", "Def", "GHé"] ∧
      Spans "a_9b1cDefGHé" "GHé" 9 13 := by
  obtain ⟨words, places⟩ := record_pieces #["first"] "a_9b1cDefGHé"
  constructor
  · rw [words]
    decide +kernel
  · have hp : Cell.ofString "GHé" ∈ Word.pieces "a_9b1cDefGHé" := by decide +kernel
    have hspans := (places _ hp (by decide +kernel)).2 (Cell.ofString "a_9b1cDef") [] (by decide +kernel)
    rwa [Cell.text_ofString, Cell.length_ofString, Cell.length_ofString] at hspans

end WordTable

end Demangle
