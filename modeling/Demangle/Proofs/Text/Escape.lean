import Demangle.Text.Escape

/-!
# Quoted text is read back

The written forms of the characters can be told apart from the front: whatever follows,

    escapeChar control c ++ s = escapeChar control d ++ t → c = d ∧ s = t      (ControlForm.append_inj)

A form is a backslash and a letter that stands for one character (`letterOf?`, `ofLetter?`), a backslash and a
longer form for the other control characters, or the character itself, which is no backslash then.
So `quote` is injective, and the quoted text has no line feed in it.
-/

namespace Demangle.Text

/-! ## What stands in front of a mark -/

/-- Where two texts agree, so do their parts up to the first mark and behind it. -/
theorem append_mark_inj {α : Type} {m : α} {as bs xs ys : List α} (has : m ∉ as) (hbs : m ∉ bs)
    (h : as ++ m :: xs = bs ++ m :: ys) : as = bs ∧ xs = ys := by
  induction as generalizing bs with
  | nil =>
    cases bs with
    | nil => exact ⟨rfl, (List.cons.inj h).2⟩
    | cons b bs => exact absurd (List.cons.inj h).1 (List.ne_of_not_mem_cons hbs)
  | cons a as ih =>
    cases bs with
    | nil => exact absurd (List.cons.inj h).1.symm (List.ne_of_not_mem_cons has)
    | cons b bs =>
      obtain ⟨rfl, htail⟩ := List.cons.inj h
      obtain ⟨rfl, hrest⟩ := ih (List.not_mem_of_not_mem_cons has) (List.not_mem_of_not_mem_cons hbs) htail
      exact ⟨rfl, hrest⟩

/-! ## Letters behind a backslash -/

/-- The letter that stands for a character behind a backslash. -/
def letterOf? : Char → Option Char
  | '\\' => some '\\'
  | '\t' => some 't'
  | '\n' => some 'n'
  | '\r' => some 'r'
  | '"' => some '"'
  | '\x00' => some '0'
  | _ => none

/-- The character that a letter stands for behind a backslash. -/
def ofLetter? : Char → Option Char
  | '\\' => some '\\'
  | 't' => some '\t'
  | 'n' => some '\n'
  | 'r' => some '\r'
  | '"' => some '"'
  | '0' => some '\x00'
  | _ => none

theorem ofLetter?_letterOf? {c x : Char} (h : letterOf? c = some x) : ofLetter? x = some c := by
  unfold letterOf? at h
  split at h
  all_goals cases h
  all_goals rfl

/-! ## Written forms -/

theorem escapeChar_eq (control : Char → List Char) (c : Char) : escapeChar control c =
    match letterOf? c with
    | some x => ['\\', x]
    | none => if isControl c then control c else [c] := by
  fun_cases escapeChar control c <;> simp_all [letterOf?]

theorem escapeChar_cases (control : Char → List Char) (c : Char) :
    (∃ x, letterOf? c = some x ∧ escapeChar control c = ['\\', x]) ∨
    (isControl c = true ∧ escapeChar control c = control c) ∨
    (letterOf? c = none ∧ escapeChar control c = [c]) := by
  rw [escapeChar_eq]
  cases hx : letterOf? c with
  | some x => exact .inl ⟨x, rfl, rfl⟩
  | none =>
    by_cases hc : isControl c = true
    · exact .inr (.inl ⟨hc, if_pos hc⟩)
    · exact .inr (.inr ⟨rfl, if_neg hc⟩)

/-- A backslash does not stand for itself. -/
theorem ne_backslash {c : Char} (h : letterOf? c = none) : c ≠ '\\' := by
  rintro rfl
  cases h

/-- A form for control characters that can be told apart from the other forms and from each other: a backslash
and a mark that is no letter, then what distinguishes the characters, whatever follows. -/
structure ControlForm (control : Char → List Char) : Prop where
  marked : ∃ mark, ofLetter? mark = none ∧ ∀ c, ∃ r, control c = '\\' :: mark :: r
  separate : ∀ {c d : Char} {s t : List Char}, isControl c = true → isControl d = true →
    control c ++ s = control d ++ t → c = d ∧ s = t
  oneLine : ∀ {c : Char}, isControl c = true → '\n' ∉ control c

namespace ControlForm

variable {control : Char → List Char} {c d x : Char} {s t : List Char}

/-- A letter behind a backslash is not the mark of a control character. -/
theorem letter_ne (hf : ControlForm control) (hx : letterOf? c = some x) :
    ['\\', x] ++ s ≠ control d ++ t := by
  obtain ⟨mark, hmark, hform⟩ := hf.marked
  obtain ⟨r, hr⟩ := hform d
  intro h
  rw [hr] at h
  obtain rfl : x = mark := (List.cons.inj (List.cons.inj h).2).1
  rw [ofLetter?_letterOf? hx] at hmark
  cases hmark

/-- A character that stands for itself is not the start of a control character. -/
theorem plain_ne (hf : ControlForm control) (hc : letterOf? c = none) : [c] ++ s ≠ control d ++ t := by
  obtain ⟨mark, -, hform⟩ := hf.marked
  obtain ⟨r, hr⟩ := hform d
  intro h
  rw [hr] at h
  exact ne_backslash hc (List.cons.inj h).1

/-- **Written forms can be told apart from the front.** -/
theorem append_inj (hf : ControlForm control) (h : escapeChar control c ++ s = escapeChar control d ++ t) :
    c = d ∧ s = t := by
  rcases escapeChar_cases control c with ⟨x, hx, hc⟩ | ⟨hctl, hc⟩ | ⟨hplain, hc⟩ <;>
    rcases escapeChar_cases control d with ⟨y, hy, hd⟩ | ⟨hctl', hd⟩ | ⟨hplain', hd⟩ <;>
    rw [hc, hd] at h
  · obtain ⟨rfl, hrest⟩ := List.cons.inj (List.cons.inj h).2
    have hsame := (ofLetter?_letterOf? hx).symm.trans (ofLetter?_letterOf? hy)
    exact ⟨Option.some.inj hsame, hrest⟩
  · exact absurd h (hf.letter_ne hx)
  · exact absurd (List.cons.inj h).1.symm (ne_backslash hplain')
  · exact absurd h.symm (hf.letter_ne hy)
  · exact hf.separate hctl hctl' h
  · exact absurd h.symm (hf.plain_ne hplain')
  · exact absurd (List.cons.inj h).1 (ne_backslash hplain)
  · exact absurd h (hf.plain_ne hplain)
  · exact List.cons.inj h

theorem escapeChar_ne_nil (hf : ControlForm control) (c : Char) : escapeChar control c ≠ [] := by
  rcases escapeChar_cases control c with ⟨x, -, hc⟩ | ⟨-, hc⟩ | ⟨-, hc⟩ <;> rw [hc]
  · exact List.cons_ne_nil _ _
  · obtain ⟨mark, -, hform⟩ := hf.marked
    obtain ⟨r, hr⟩ := hform c
    rw [hr]
    exact List.cons_ne_nil _ _
  · exact List.cons_ne_nil _ _

/-- **A text is read back from its written form.** -/
theorem flatMap_inj (hf : ControlForm control)
    (h : s.flatMap (escapeChar control) = t.flatMap (escapeChar control)) : s = t := by
  induction s generalizing t with
  | nil =>
    cases t with
    | nil => rfl
    | cons d t => exact absurd (List.append_eq_nil_iff.mp h.symm).1 (hf.escapeChar_ne_nil d)
  | cons c s ih =>
    cases t with
    | nil => exact absurd (List.append_eq_nil_iff.mp h).1 (hf.escapeChar_ne_nil c)
    | cons d t =>
      obtain ⟨rfl, htail⟩ := hf.append_inj h
      rw [ih htail]

theorem newline_not_mem (hf : ControlForm control) (s : List Char) :
    '\n' ∉ s.flatMap (escapeChar control) := by
  intro hmem
  obtain ⟨c, -, hc⟩ := List.mem_flatMap.mp hmem
  rcases escapeChar_cases control c with ⟨x, hx, hform⟩ | ⟨hctl, hform⟩ | ⟨hplain, hform⟩ <;>
    rw [hform] at hc
  · obtain rfl : '\n' = x := by simpa using hc
    cases ofLetter?_letterOf? hx
  · exact hf.oneLine hctl hc
  · obtain rfl : '\n' = c := List.mem_singleton.mp hc
    cases hplain

end ControlForm

/-! ## Hexadecimal digits in braces -/

theorem low_of_isControl {c : Char} (h : isControl c = true) : c.toNat < 0x80 := by
  rw [isControl, Bool.or_eq_true, decide_eq_true_eq, beq_iff_eq] at h
  omega

/-- The value of lower-case hexadecimal digits. -/
def hexValue (ds : List Char) : Nat :=
  ds.foldl (fun v d => 16 * v + (if d.isDigit then d.toNat - '0'.toNat else d.toNat - 'a'.toNat + 10)) 0

theorem hexDigits_checked : ∀ n < 0x80, hexValue (Nat.toDigits 16 n) = n ∧
    '\x7d' ∉ Nat.toDigits 16 n ∧ '\n' ∉ Nat.toDigits 16 n := by
  decide +kernel

theorem controlForm_hexBraces : ControlForm hexBraces where
  marked := ⟨'u', rfl, fun c => ⟨_, rfl⟩⟩
  separate := by
    intro c d s t hc hd h
    obtain ⟨hvalue, hbrace, -⟩ := hexDigits_checked _ (low_of_isControl hc)
    obtain ⟨hvalue', hbrace', -⟩ := hexDigits_checked _ (low_of_isControl hd)
    have hdigits : Nat.toDigits 16 c.toNat ++ '\x7d' :: s = Nat.toDigits 16 d.toNat ++ '\x7d' :: t := by
      simpa [hexBraces] using h
    obtain ⟨hsame, hrest⟩ := append_mark_inj hbrace hbrace' hdigits
    rw [hsame] at hvalue
    exact ⟨Char.toNat_inj.mp (hvalue.symm.trans hvalue'), hrest⟩
  oneLine := by
    intro c hc
    have hdigits := (hexDigits_checked _ (low_of_isControl hc)).2.2
    simpa [hexBraces] using hdigits

/-! ## Quotes -/

theorem toList_quote (s : String) :
    (quote s).toList = '"' :: (s.toList.flatMap (escapeChar hexBraces) ++ ['"']) := by
  simp [quote]

theorem quote_inj {s t : String} (h : quote s = quote t) : s = t := by
  have hlists := congrArg String.toList h
  rw [toList_quote, toList_quote] at hlists
  have hbody := List.append_cancel_right (List.cons.inj hlists).2
  exact String.toList_inj.mp (controlForm_hexBraces.flatMap_inj hbody)

theorem newline_not_mem_quote (s : String) : '\n' ∉ (quote s).toList := by
  have hbody := controlForm_hexBraces.newline_not_mem s.toList
  rw [toList_quote]
  simp [hbody]

end Demangle.Text
