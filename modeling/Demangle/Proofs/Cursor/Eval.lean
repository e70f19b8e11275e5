import Demangle.Proofs.Cursor.Integer

/-!
# What the primitives on a cursor do

Equations for the steps that read at a cursor, from a place where what lies ahead is known. Each says
what is read and how far the cursor goes, so a step made of them is evaluated by rewriting.

    c.rest = ofString text ++ r → take text.utf8ByteSize c = .ok text (c.advance …)      (take_text)
-/

namespace Demangle

/-! ## What lies ahead -/

namespace Cell

theorem ofString_singleton {c : Char} (h : c.toNat < 0x80) :
    ofString (String.singleton c) = [ascii c] := by
  rw [ofString, String.toList_singleton, List.flatMap_singleton, ofChar_ascii h]

/-- A text ends between two characters if what follows it does. -/
theorem atBoundary_append (m : String) {r : List Cell} (hr : atBoundary r = true) :
    atBoundary (ofString m ++ r) = true := by
  by_cases hm : m = ""
  · subst hm
    exact hr
  · obtain ⟨x, xs, hx, -, hb⟩ := ofString_head hm
    rw [hx]
    exact Option.isSome_iff_ne_none.mpr hb

end Cell

theorem Cursor.rest_advance {c : Cursor} {read rest : List Cell} (h : c.rest = read ++ rest) :
    (c.advance read.length).rest = rest := by
  simp [Cursor.advance, h]

theorem Cursor.rest_advance_one {c : Cursor} {x : Cell} {r : List Cell} (h : c.rest = x :: r) :
    (c.advance 1).rest = r := by
  simp [Cursor.advance, h]

theorem Cursor.position_advance {c : Cursor} {n : Nat} (h : n ≤ c.rest.length) :
    (c.advance n).position = c.position + n := by
  simp only [Cursor.position, Cursor.advance, List.length_append, List.length_reverse,
    List.length_take, Nat.min_eq_left h]
  omega

/-! ## Steps -/

namespace Scan

variable {c : Cursor} {x : Cell} {r : List Cell}

theorem isAtEnd_nil (h : c.rest = []) : isAtEnd c = .ok true c := by
  unfold isAtEnd
  rw [h]
  rfl

theorem isAtEnd_of_ne (h : c.rest ≠ []) : isAtEnd c = .ok false c := by
  unfold isAtEnd
  rw [List.isEmpty_eq_false_iff.mpr h]

theorem peek?_ascii {a : Char} (ha : a.toNat < 0x80) (h : c.rest = Cell.ascii a :: r) :
    peek? c = .ok (some a) c := by
  unfold peek?
  rw [h]
  show EStateM.Result.ok (some (Cell.ascii a).letter) c = _
  rw [Cell.letter_ascii ha]

theorem next_cons (h : c.rest = x :: r) : next c = .ok x.byte (c.advance 1) := by
  unfold next
  rw [h]

theorem acceptByte_hit (h : c.rest = x :: r) : acceptByte x.byte c = .ok true (c.advance 1) := by
  unfold acceptByte
  rw [h]
  exact if_pos (beq_self_eq_true _)

theorem letter_hit {α : Type} {f : Char → Option α} {a : α} (h : c.rest = x :: r)
    (hf : f x.letter = some a) (cause : Cause) : letter cause f c = .ok a (c.advance 1) := by
  unfold letter
  rw [h]
  simp only [hf]

/-- A letter that was read has a meaning. -/
theorem meaning_of_letter {α : Type} {cause : Cause} {f : Char → Option α} {a : α} {d : Cursor}
    (h : letter cause f c = .ok a d) : ∃ l, f l = some a := by
  unfold letter at h
  split at h
  · next x _ _ =>
    split at h
    · next b hb =>
      cases h
      exact ⟨x.letter, hb⟩
    · cases h
  · cases h

theorem meaning_of_letter? {α : Type} {f : Char → Option α} {a : α} {d : Cursor}
    (h : letter? f c = .ok (some a) d) : ∃ l, f l = some a := by
  unfold letter? at h
  split at h
  · next b hb =>
    cases h
    obtain ⟨x, -, hx⟩ := Option.bind_eq_some_iff.mp hb
    exact ⟨x.letter, hx⟩
  · cases h

theorem letter?_hit {α : Type} {f : Char → Option α} {a : α} (h : c.rest = x :: r)
    (hf : f x.letter = some a) : letter? f c = .ok (some a) (c.advance 1) := by
  unfold letter?
  rw [h]
  simp only [List.head?_cons, Option.bind_some, hf]

theorem letter?_miss {α : Type} {f : Char → Option α} (h : c.rest = x :: r)
    (hf : f x.letter = none) : letter? f c = .ok none c := by
  unfold letter?
  rw [h]
  simp only [List.head?_cons, Option.bind_some, hf]

theorem integer?_none (h : c.rest = x :: r) (hx : x.isDigit = false) : integer? c = .ok none c := by
  have hrun : digitRun c.rest = [] := by
    rw [h]
    exact digitRun_append hx r [] nofun
  unfold integer?
  rw [hrun]

theorem acceptText_miss {text : String}
    (h : (c.rest.take (text.toList.flatMap String.utf8EncodeChar).length).map Cell.byte ≠
      text.toList.flatMap String.utf8EncodeChar) : acceptText text c = .ok false c := by
  have hmiss := beq_eq_false_iff_ne.mpr h
  simp only [acceptText, hmiss, Bool.and_false, Bool.false_eq_true, if_false]

/-- A text is read if it is next. -/
theorem acceptText_hit {text : String} (hne : text ≠ "") (h : c.rest = Cell.ofString text ++ r) :
    acceptText text c = .ok true (c.advance (Cell.ofString text).length) := by
  have hlen := congrArg List.length (Cell.map_byte_ofString text)
  rw [List.length_map] at hlen
  have hempty : (text.toList.flatMap String.utf8EncodeChar).isEmpty = false := by
    obtain ⟨y, ys, hy, -⟩ := Cell.ofString_head hne
    rw [← Cell.map_byte_ofString, hy]
    rfl
  unfold acceptText
  simp only [hempty, ← hlen, h, List.take_left, Cell.map_byte_ofString]
  simp

/-- A text is not read if it differs from what is next in one of the bytes that are known. -/
theorem acceptText_differ {text start : String}
    (hd : ((Cell.ofString text).zip (Cell.ofString start)).any (fun p => p.1.byte != p.2.byte) = true)
    (h : c.rest = Cell.ofString start ++ r) : acceptText text c = .ok false c := by
  refine acceptText_miss fun heq => ?_
  obtain ⟨p, hp, hne⟩ := List.any_eq_true.mp hd
  obtain ⟨i, hi, rfl⟩ := List.mem_iff_getElem.mp hp
  rw [List.length_zip] at hi
  have hi₁ : i < (Cell.ofString text).length := by omega
  have hi₂ : i < (Cell.ofString start).length := by omega
  rw [← Cell.map_byte_ofString, List.length_map, h] at heq
  have hget := congrArg (·[i]?) heq
  simp only [List.getElem?_map, List.getElem?_take_of_lt hi₁, List.getElem?_append_left hi₂,
    List.getElem?_eq_getElem hi₁, List.getElem?_eq_getElem hi₂, Option.map_some,
    Option.some.injEq] at hget
  simp [hget] at hne

/-- A text is read if there are enough bytes and it starts and ends between two characters. -/
theorem take_eq_ok {n : Nat} {t : String} {d : Cursor} (h : take n c = .ok t d) :
    n ≤ c.rest.length ∧ Cell.atBoundary c.rest = true ∧ Cell.atBoundary (c.rest.drop n) = true ∧
      t = Cell.text (c.rest.take n) ∧ d = c.advance n := by
  unfold take at h
  split at h
  · cases h
  next hlength =>
  split at h
  · next hboundary =>
    cases h
    obtain ⟨hstart, hend⟩ := Bool.and_eq_true_iff.mp hboundary
    exact ⟨Nat.le_of_not_lt hlength, hstart, hend, rfl, rfl⟩
  · cases h

/-- A text is read by its size. -/
theorem take_text {text : String} (hr : Cell.atBoundary r = true)
    (hc : c.rest = Cell.ofString text ++ r) (hstart : Cell.atBoundary c.rest = true) :
    take text.utf8ByteSize c = .ok text (c.advance (Cell.ofString text).length) := by
  rw [← Cell.length_ofString]
  have hlen : ¬c.rest.length < (Cell.ofString text).length := by
    rw [hc, List.length_append]
    omega
  have hdrop : c.rest.drop (Cell.ofString text).length = r := by
    rw [hc, List.drop_left]
  have htake : c.rest.take (Cell.ofString text).length = Cell.ofString text := by
    rw [hc, List.take_left]
  unfold take
  rw [if_neg hlen, hdrop, htake, hstart, hr, Cell.text_ofString]
  rfl

end Scan

end Demangle
