import Demangle.Proofs.Text.Escape

/-!
# Escaped text is unambiguous

`unescape` reads escaped text from the front: a backslash and a letter, a backslash and `x` with two
hexadecimal digits, or a character that stands for itself. What follows a written form does not change how
it is read, also where it looks like a continuation of the form, so

    unescape (escape s) = some s                                         (unescape_escape)

The escaped text holds no control character. A double quote in it is escaped: the written form of each
character is `Closed`, which means that its own quotes stand behind a backslash that begins a form, and that
nothing behind it is escaped. Closed texts in a row are closed.
-/

namespace Demangle.Text

/-! ## Algorithm -/

/-- The value of a hexadecimal digit. -/
def hexDigitValue? (c : Char) : Option Nat :=
  if '0' ≤ c ∧ c ≤ '9' then some (c.toNat - '0'.toNat)
  else if 'A' ≤ c ∧ c ≤ 'F' then some (c.toNat - 'A'.toNat + 10)
  else if 'a' ≤ c ∧ c ≤ 'f' then some (c.toNat - 'a'.toNat + 10)
  else none

/-- The characters of an escaped text. A backslash has to begin a form. -/
def unescapeChars : List Char → Option (List Char)
  | [] => some []
  | '\\' :: 'x' :: high :: low :: rest => do
    let c := Char.ofNat (16 * (← hexDigitValue? high) + (← hexDigitValue? low))
    return c :: (← unescapeChars rest)
  | '\\' :: x :: rest => do
    let c ← ofLetter? x
    return c :: (← unescapeChars rest)
  | ['\\'] => none
  | c :: rest => do
    return c :: (← unescapeChars rest)

/-- Reads an escaped text. -/
def unescape (s : String) : Option String :=
  (unescapeChars s.toList).map String.ofList

/-- What stands behind the text is escaped: its last character is a backslash that is not escaped itself. -/
def escapesNext (s : List Char) : Bool :=
  s.foldl (fun escaped c => c == '\\' && !escaped) false

/-! ## Reading back -/

theorem hexDigitValue?_hexDigit : ∀ n < 16, hexDigitValue? (hexDigit n) = some n := by
  decide

theorem unescapeChars_letter {c x : Char} (h : ofLetter? x = some c) (rest : List Char) :
    unescapeChars ('\\' :: x :: rest) = (unescapeChars rest).map (c :: ·) := by
  rw [unescapeChars, h]
  · exact Option.map_eq_bind.symm
  · -- `x` is no letter
    rintro high low tail rfl
    cases h

theorem unescapeChars_hexPair {c : Char} (h : c.toNat < 0x100) (rest : List Char) :
    unescapeChars (hexPair c ++ rest) = (unescapeChars rest).map (c :: ·) := by
  have hhigh := hexDigitValue?_hexDigit (c.toNat / 16) (by omega)
  have hlow := hexDigitValue?_hexDigit (c.toNat % 16) (by omega)
  have hvalue : 16 * (c.toNat / 16) + c.toNat % 16 = c.toNat := Nat.div_add_mod c.toNat 16
  show unescapeChars ('\\' :: 'x' :: _ :: _ :: rest) = _
  rw [unescapeChars, hhigh, hlow]
  simp only [Option.bind_eq_bind, Option.bind_some, hvalue, Char.ofNat_toNat]
  exact Option.map_eq_bind.symm

theorem unescapeChars_plain {c : Char} (h : c ≠ '\\') (rest : List Char) :
    unescapeChars (c :: rest) = (unescapeChars rest).map (c :: ·) := by
  rw [unescapeChars]
  · exact Option.map_eq_bind.symm
  · exact fun _ _ _ hc => absurd hc h
  · exact fun _ _ hc => absurd hc h
  · exact fun hc => absurd hc h

/-- **The written form of a character is read back, whatever follows.** -/
theorem unescapeChars_escapeChar (c : Char) (rest : List Char) :
    unescapeChars (escapeChar hexPair c ++ rest) = (unescapeChars rest).map (c :: ·) := by
  rcases escapeChar_cases hexPair c with ⟨x, hx, hc⟩ | ⟨hctl, hc⟩ | ⟨hplain, hc⟩ <;> rw [hc]
  · exact unescapeChars_letter (ofLetter?_letterOf? hx) rest
  · have hlow := low_of_isControl hctl
    exact unescapeChars_hexPair (by omega) rest
  · exact unescapeChars_plain (ne_backslash hplain) rest

theorem unescapeChars_flatMap (s : List Char) :
    unescapeChars (s.flatMap (escapeChar hexPair)) = some s := by
  induction s with
  | nil => rfl
  | cons c s ih => rw [List.flatMap_cons, unescapeChars_escapeChar, ih, Option.map_some]

theorem toList_escape (s : String) : (escape s).toList = s.toList.flatMap (escapeChar hexPair) :=
  String.toList_ofList

theorem unescape_escape (s : String) : unescape (escape s) = some s := by
  rw [unescape, toList_escape, unescapeChars_flatMap, Option.map_some, String.ofList_toList]

/-! ## Control characters -/

theorem isControl_letterOf? {c x : Char} (h : letterOf? c = some x) : isControl x = false := by
  unfold letterOf? at h
  split at h
  all_goals cases h
  all_goals rfl

/-- A hexadecimal digit is printed as it is, and is neither a backslash nor a double quote. -/
theorem hexDigit_plain : ∀ n < 16,
    isControl (hexDigit n) = false ∧ hexDigit n ≠ '\\' ∧ hexDigit n ≠ '"' := by
  decide

theorem hexPair_plain {c : Char} (h : c.toNat < 0x100) :
    ∃ high low, hexPair c = ['\\', 'x', high, low] ∧
      ∀ d ∈ [high, low], isControl d = false ∧ d ≠ '\\' ∧ d ≠ '"' := by
  refine ⟨_, _, rfl, ?_⟩
  simp only [List.forall_mem_cons, List.not_mem_nil, false_implies, implies_true, and_true]
  exact ⟨hexDigit_plain (c.toNat / 16) (by omega), hexDigit_plain (c.toNat % 16) (by omega)⟩

/-- The written form of a character holds no control character. -/
theorem isControl_escapeChar {c x : Char} (h : x ∈ escapeChar hexPair c) : isControl x = false := by
  rw [escapeChar_eq] at h
  cases hletter : letterOf? c with
  | some y =>
    rw [hletter] at h
    rcases List.mem_cons.mp h with rfl | h
    · rfl
    · rw [List.mem_singleton.mp h]
      exact isControl_letterOf? hletter
  | none =>
    rw [hletter] at h
    dsimp only at h
    split at h
    · next hctl =>
      have hlow := low_of_isControl hctl
      obtain ⟨high, low, hpair, hdigits⟩ := hexPair_plain (show c.toNat < 0x100 by omega)
      rw [hpair] at h
      rcases List.mem_cons.mp h with rfl | h
      · rfl
      rcases List.mem_cons.mp h with rfl | h
      · rfl
      exact (hdigits x h).1
    · next hctl =>
      rw [List.mem_singleton.mp h]
      exact Bool.eq_false_iff.mpr hctl

/-! ## Quotes -/

/-- Every double quote in the text is escaped, and nothing behind the text is. -/
structure Closed (s : List Char) : Prop where
  quotes : ∀ {front rest : List Char}, s = front ++ '"' :: rest → escapesNext front = true
  ends : escapesNext s = false

theorem escapesNext_append {s : List Char} (h : escapesNext s = false) (t : List Char) :
    escapesNext (s ++ t) = escapesNext t := by
  unfold escapesNext at h ⊢
  rw [List.foldl_append, h]

theorem escapesNext_concat (s : List Char) (c : Char) :
    escapesNext (s ++ [c]) = (c == '\\' && !escapesNext s) := by
  rw [escapesNext, List.foldl_append]
  rfl

/-- What is escaped stands right behind a backslash that is not. -/
theorem exists_backslash {s : List Char} (h : escapesNext s = true) :
    ∃ front, s = front ++ ['\\'] ∧ escapesNext front = false := by
  rcases List.eq_nil_or_concat s with rfl | ⟨front, c, rfl⟩
  · cases h
  · rw [List.concat_eq_append] at h ⊢
    rw [escapesNext_concat, Bool.and_eq_true, beq_iff_eq, Bool.not_eq_true'] at h
    obtain ⟨rfl, hfront⟩ := h
    exact ⟨front, rfl, hfront⟩

namespace Closed

theorem nil : Closed [] where
  quotes h := absurd h.symm (List.append_ne_nil_of_right_ne_nil _ (List.cons_ne_nil _ _))
  ends := rfl

theorem append {s t : List Char} (hs : Closed s) (ht : Closed t) : Closed (s ++ t) where
  quotes {front rest} h := by
    rcases List.append_eq_append_iff.mp h with ⟨behind, rfl, hbehind⟩ | ⟨behind, hbehind, hrest⟩
    · rw [escapesNext_append hs.ends]
      exact ht.quotes hbehind
    · cases behind with
      | nil =>
        have hquote : escapesNext [] = true := ht.quotes hrest.symm
        cases hquote
      | cons c behind =>
        obtain ⟨rfl, -⟩ := List.cons.inj hrest
        exact hs.quotes hbehind
  ends := (escapesNext_append hs.ends t).trans ht.ends

/-- A character that is neither a backslash nor a double quote. -/
theorem plain {c : Char} (hb : c ≠ '\\') (hq : c ≠ '"') : Closed [c] where
  quotes {front rest} h := by
    cases front with
    | nil => exact absurd (List.cons.inj h).1 hq
    | cons d front => exact absurd (List.cons.inj h).2.symm (by simp)
  ends := by
    rw [escapesNext, List.foldl_cons, beq_false_of_ne hb]
    rfl

/-- A backslash and what it escapes. -/
theorem pair (x : Char) : Closed ['\\', x] where
  quotes {front rest} h := by
    rcases front with - | ⟨c, - | ⟨d, front⟩⟩
    · cases (List.cons.inj h).1
    · obtain ⟨rfl, -⟩ := List.cons.inj h
      rfl
    · exact absurd (List.cons.inj (List.cons.inj h).2).2.symm (by simp)
  ends := by
    show (x == '\\' && !('\\' == '\\' && !false)) = false
    simp

theorem escapeChar (c : Char) : Closed (escapeChar hexPair c) := by
  rcases escapeChar_cases hexPair c with ⟨x, -, hc⟩ | ⟨hctl, hc⟩ | ⟨hletter, hc⟩ <;> rw [hc]
  · exact pair x
  · have hlow := low_of_isControl hctl
    obtain ⟨high, low, hpair, hdigits⟩ := hexPair_plain (show c.toNat < 0x100 by omega)
    obtain ⟨⟨-, hhigh⟩, ⟨-, hlow⟩, -⟩ : _ ∧ _ ∧ _ := by simpa only [List.forall_mem_cons] using hdigits
    rw [hpair]
    exact (pair 'x').append ((plain hhigh.1 hhigh.2).append (plain hlow.1 hlow.2))
  · refine plain (ne_backslash hletter) ?_
    rintro rfl
    cases hletter

theorem flatMap (s : List Char) : Closed (s.flatMap (Text.escapeChar hexPair)) := by
  induction s with
  | nil => exact nil
  | cons c s ih => exact (escapeChar c).append ih

end Closed

/-! ## All texts -/

/-- **Escaped text is unambiguous.** It holds no control character, every double quote in it stands right
behind a backslash that is not itself escaped, and the text is read back from it. So different texts are
escaped differently. -/
theorem escape_unambiguous :
    (∀ s : String,
      (∀ c ∈ (escape s).toList, 0x20 ≤ c.toNat ∧ c.toNat ≠ 0x7F) ∧
      (∀ front rest, (escape s).toList = front ++ '"' :: rest →
        ∃ before, front = before ++ ['\\'] ∧ escapesNext before = false) ∧
      unescape (escape s) = some s) ∧
    Function.Injective escape := by
  refine ⟨fun s => ⟨fun c hc => ?_, fun front rest h => ?_, unescape_escape s⟩, fun s t h => ?_⟩
  · rw [toList_escape] at hc
    obtain ⟨d, -, hd⟩ := List.mem_flatMap.mp hc
    have hcontrol := isControl_escapeChar hd
    rw [isControl, Bool.or_eq_false_iff, decide_eq_false_iff_not, beq_eq_false_iff_ne] at hcontrol
    exact ⟨by omega, hcontrol.2⟩
  · rw [toList_escape] at h
    exact exists_backslash ((Closed.flatMap s.toList).quotes h)
  · have hread := congrArg unescape h
    rw [unescape_escape, unescape_escape] at hread
    exact Option.some.inj hread

/-- Digits behind `\x01` and `\0` are not part of the form, and a quote behind an escaped backslash has one of
its own. -/
theorem escape_unambiguous_continued :
    (escape "\\\"\x0141\x000").toList = ['\\', '\\', '\\'] ++ '"' :: "\\x0141\\00".toList ∧
      (∃ before, ['\\', '\\', '\\'] = before ++ ['\\'] ∧ escapesNext before = false) ∧
      unescape (escape "\\\"\x0141\x000") = some "\\\"\x0141\x000" := by
  have h : (escape "\\\"\x0141\x000").toList = ['\\', '\\', '\\'] ++ '"' :: "\\x0141\\00".toList := by
    decide
  obtain ⟨-, hquotes, hread⟩ := escape_unambiguous.1 "\\\"\x0141\x000"
  exact ⟨h, hquotes _ _ h, hread⟩

example : unescape "\\x4142" = some "A42" ∧ unescape "\\x4" = none ∧ unescape "a\\" = none := by decide

end Demangle.Text
