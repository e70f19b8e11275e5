import Demangle.Fixture
import Demangle.Proofs.Text

/-!
# Fixture files

A fixture file is a list of lines: blank ones, comments, and entries of a name and the text expected of it.

* The cases of a file are its entries in order, with the numbers of their lines (`parseLines_fileChars`).
* A file is refused if and only if a line that is not skipped has no separator in front of its last blanks, or
  nothing but blanks in front of the first separator; the error is that of the first such line
  (`parseLines_eq_error_iff`).
* A report lists the cases that do not render as expected, in order, and counts the others
  (`mismatches_run`, `total_run`).
-/

namespace Demangle.Fixture

open Text

/-! ## The first occurrence of a text -/

/-- The text divides into the two parts around the first occurrence of the separator. -/
structure DividesAt (separator text before after : List Char) : Prop where
  parts : text = before ++ separator ++ after
  first : ¬separator <:+: before ++ separator.dropLast

section SplitOnce

variable {sep cs before after : List Char}

theorem splitOnce_cons (sep : List Char) (c : Char) (cs : List Char) :
    splitOnce sep (c :: cs) =
      if sep <+: c :: cs then some ([], (c :: cs).drop sep.length)
      else (splitOnce sep cs).map fun parts => (c :: parts.1, parts.2) := by
  rw [splitOnce]
  by_cases h : sep <+: c :: cs
  · rw [if_pos h, if_pos (List.isPrefixOf_iff_prefix.mpr h)]
  · rw [if_neg h, if_neg fun hp => h (List.isPrefixOf_iff_prefix.mp hp)]

/-- A text that does not divide does not hold the separator. -/
theorem splitOnce_eq_none_iff (hsep : sep ≠ []) : splitOnce sep cs = none ↔ ¬sep <:+: cs := by
  induction cs with
  | nil => simp [splitOnce, hsep]
  | cons c cs ih =>
    rw [splitOnce_cons, List.infix_cons_iff]
    by_cases h : sep <+: c :: cs
    · simp [h]
    · simp [h, ih]

theorem starts_before_end (before sep after : List Char) : before ++ sep.dropLast <+: before ++ sep ++ after := by
  have hsep := List.dropLast_prefix sep
  exact ((List.prefix_append_right_inj before).mpr hsep).trans (List.prefix_append _ after)

theorem DividesAt.not_earlier {c : Char} (h : DividesAt sep cs (c :: before) after) : ¬sep <+: cs := by
  intro hp
  rw [h.parts] at hp
  have hlength : sep.length ≤ ((c :: before) ++ sep.dropLast).length := by
    simp only [List.length_append, List.length_cons, List.length_dropLast]
    omega
  exact h.first (List.prefix_of_prefix_length_le hp (starts_before_end _ _ _) hlength).isInfix

theorem splitOnce_of_dividesAt (hsep : sep ≠ []) : ∀ {cs before : List Char},
    DividesAt sep cs before after → splitOnce sep cs = some (before, after) := by
  intro cs before
  induction before generalizing cs with
  | nil =>
    intro h
    obtain ⟨x, xs, rfl⟩ := List.exists_cons_of_ne_nil hsep
    have hp : x :: xs <+: x :: (xs ++ after) := List.prefix_append (x :: xs) after
    rw [h.parts, List.nil_append, List.cons_append, splitOnce_cons, if_pos hp]
    simp
  | cons c before ih =>
    intro h
    have hrest : DividesAt sep (before ++ sep ++ after) before after :=
      ⟨rfl, fun hi => h.first (List.infix_cons hi)⟩
    have hmiss := h.not_earlier
    rw [h.parts] at hmiss ⊢
    rw [List.cons_append, List.cons_append] at hmiss ⊢
    rw [splitOnce_cons, if_neg hmiss, ih hrest]
    rfl

theorem dividesAt_of_splitOnce (hsep : sep ≠ []) : ∀ {cs before : List Char},
    splitOnce sep cs = some (before, after) → DividesAt sep cs before after := by
  intro cs
  induction cs with
  | nil =>
    intro before h
    simp [splitOnce, hsep] at h
  | cons c cs ih =>
    intro before h
    rw [splitOnce_cons] at h
    split at h
    · next hp =>
      cases h
      refine ⟨(List.prefix_iff_eq_append.mp hp).symm, fun hi => ?_⟩
      have hlength := hi.length_le
      have hpos := List.length_pos_iff.mpr hsep
      simp only [List.nil_append, List.length_dropLast] at hlength
      omega
    · next hp =>
      obtain ⟨⟨before, after⟩, hparts, heq⟩ := Option.map_eq_some_iff.mp h
      cases heq
      obtain ⟨rfl, hfirst⟩ := ih hparts
      refine ⟨rfl, fun hi => ?_⟩
      rcases List.infix_cons_iff.mp hi with hi | hi
      · exact hp (hi.trans (starts_before_end (c :: before) sep after))
      · exact hfirst hi

end SplitOnce

/-! ## Lines that hold no case -/

-- Decided on the text: a search through all characters does not end in reasonable time.
instance decidableBlank (cs : List Char) : Decidable (∀ c ∈ cs, isBlank c = true) :=
  List.decidableBAll _ cs

instance decidableSolid (cs : List Char) : Decidable (∀ c ∈ cs, isBlank c = false) :=
  List.decidableBAll _ cs

/-- Blank lines and comments are skipped. -/
def Skipped (cs : List Char) : Prop :=
  (∀ c ∈ cs, isBlank c = true) ∨ cs.head? = some '#'

instance decidableSkipped (cs : List Char) : Decidable (Skipped cs) :=
  inferInstanceAs (Decidable ((∀ c ∈ cs, isBlank c = true) ∨ cs.head? = some '#'))

/-- What is wrong with a text that should hold a case: the separator is missing, or there are only blanks in
front of the first one. -/
inductive NoCase (text : List Char) : (Nat → Error) → Prop where
  | missing (h : ¬separator <:+: text) : NoCase text .missingSeparator
  | empty {input expected : List Char} (hparts : DividesAt separator text input expected)
    (hblank : ∀ c ∈ input, isBlank c = true) : NoCase text .emptyInput

/-- The line is not skipped and holds no case; blanks at its end do not count. -/
def Faulty (cs : List Char) (fault : Nat → Error) : Prop :=
  ¬Skipped cs ∧ NoCase (trimEnd cs) fault

variable {cs : List Char} {number : Nat} {e : Error}

theorem separator_ne_nil : separator ≠ [] := by decide

theorem head?_trimEnd {c : Char} (hc : isBlank c = false) :
    (trimEnd cs).head? = some c ↔ cs.head? = some c := by
  have hparts := trimEnd_append_trailingBlanks cs
  cases h : trimEnd cs with
  | nil =>
    have hblank := trimEnd_eq_nil_iff.mp h
    refine ⟨nofun, fun hhead => ?_⟩
    rw [hblank c (List.mem_of_mem_head? hhead)] at hc
    cases hc
  | cons d ds =>
    rw [← hparts, h]
    rfl

theorem isSkipped_trimEnd : isSkipped (trimEnd cs) = true ↔ Skipped cs := by
  have hblank : (trimStart (trimEnd cs)).isEmpty = true ↔ ∀ c ∈ cs, isBlank c = true := by
    rw [List.isEmpty_iff, trimStart_eq_nil_iff]
    constructor
    · intro h
      have hidem : trimEnd (trimEnd cs) = trimEnd cs := List.rdropWhile_idempotent isBlank cs
      rw [← trimEnd_eq_nil_iff, ← hidem, trimEnd_eq_nil_iff]
      exact h
    · intro h
      rw [trimEnd_eq_nil_iff.mpr h]
      nofun
  unfold isSkipped Skipped
  rw [Bool.or_eq_true, hblank, beq_iff_eq, head?_trimEnd (by decide)]

theorem noCase_of_none {text : List Char} {fault : Nat → Error} (h : splitOnce separator text = none) :
    NoCase text fault ↔ fault = .missingSeparator := by
  constructor
  · intro hcase
    cases hcase with
    | missing => rfl
    | empty hparts =>
      rw [splitOnce_of_dividesAt separator_ne_nil hparts] at h
      cases h
  · rintro rfl
    exact .missing ((splitOnce_eq_none_iff separator_ne_nil).mp h)

theorem noCase_of_some {text input expected : List Char} {fault : Nat → Error}
    (h : splitOnce separator text = some (input, expected)) :
    NoCase text fault ↔ trim input = [] ∧ fault = .emptyInput := by
  rw [trim_eq_nil_iff]
  constructor
  · intro hcase
    cases hcase with
    | missing hmissing =>
      rw [(splitOnce_eq_none_iff separator_ne_nil).mpr hmissing] at h
      cases h
    | empty hparts hblank =>
      rw [splitOnce_of_dividesAt separator_ne_nil hparts] at h
      cases h
      exact ⟨hblank, rfl⟩
  · rintro ⟨hblank, rfl⟩
    exact .empty (dividesAt_of_splitOnce separator_ne_nil h) hblank

/-- A line is refused if and only if it is faulty, with its own number. -/
theorem parseLine_eq_error_iff :
    parseLine number (trimEnd cs) = .error e ↔ ∃ fault, Faulty cs fault ∧ e = fault number := by
  unfold parseLine Faulty
  by_cases hskip : Skipped cs
  · simp [isSkipped_trimEnd.mpr hskip, hskip]
  · have hopen : isSkipped (trimEnd cs) = false := by
      rwa [← Bool.not_eq_true, isSkipped_trimEnd]
    cases hsplit : splitOnce separator (trimEnd cs) with
    | none => simp [hopen, hskip, noCase_of_none hsplit, eq_comm]
    | some parts =>
      simp only [hopen, hskip, noCase_of_some hsplit]
      by_cases hinput : trim parts.1 = []
      · simp [hinput, eq_comm]
      · simp [hinput]

theorem parseLines_of_error {l : Line} (h : parseLine number (trimEnd l.body) = .error e) (ls : List Line) :
    parseLines number (l :: ls) = .error e := by
  rw [parseLines, h]
  rfl

theorem parseLines_of_ok {l : Line} {case? : Option Case}
    (h : parseLine number (trimEnd l.body) = .ok case?) (ls : List Line) :
    parseLines number (l :: ls) = (parseLines (number + 1) ls).map (case?.toList ++ ·) := by
  rw [parseLines, h]
  show (do return case?.toList ++ (← parseLines (number + 1) ls) : Except Error (List Case)) = _
  cases parseLines (number + 1) ls <;> rfl

/-- Lines are refused for the first faulty one among them. -/
theorem parseLines_eq_error_iff (ls : List Line) : ∀ number : Nat,
    parseLines number ls = .error e ↔ ∃ before l after fault, ls = before ++ l :: after ∧
      (∀ m ∈ before, ∀ f, ¬Faulty m.body f) ∧ Faulty l.body fault ∧
        e = fault (number + before.length) := by
  induction ls with
  | nil =>
    intro number
    simp [parseLines]
  | cons l ls ih =>
    intro number
    cases hline : parseLine number (trimEnd l.body) with
    | error e' =>
      rw [parseLines_of_error hline]
      constructor
      · intro h
        cases h
        obtain ⟨fault, hfaulty, rfl⟩ := parseLine_eq_error_iff.mp hline
        exact ⟨[], l, ls, fault, rfl, nofun, hfaulty, rfl⟩
      · rintro ⟨before, m, after, fault, hls, hbefore, hfaulty, rfl⟩
        cases before with
        | nil =>
          cases hls
          cases hline.symm.trans (parseLine_eq_error_iff.mpr ⟨fault, hfaulty, rfl⟩)
          rfl
        | cons b before =>
          cases hls
          obtain ⟨fault', hfaulty', -⟩ := parseLine_eq_error_iff.mp hline
          exact absurd hfaulty' (hbefore l List.mem_cons_self fault')
    | ok case? =>
      have hsound : ∀ f, ¬Faulty l.body f := by
        intro f hf
        cases hline.symm.trans (parseLine_eq_error_iff.mpr ⟨f, hf, rfl⟩)
      have hrest : parseLines number (l :: ls) = .error e ↔ parseLines (number + 1) ls = .error e := by
        rw [parseLines_of_ok hline]
        cases parseLines (number + 1) ls <;> simp [Except.map]
      rw [hrest, ih]
      constructor
      · rintro ⟨before, m, after, fault, rfl, hbefore, hfaulty, rfl⟩
        refine ⟨l :: before, m, after, fault, rfl, List.forall_mem_cons.mpr ⟨hsound, hbefore⟩, hfaulty, ?_⟩
        rw [List.length_cons]
        congr 1
        omega
      · rintro ⟨before, m, after, fault, hls, hbefore, hfaulty, rfl⟩
        cases before with
        | nil =>
          cases hls
          exact absurd hfaulty (hsound fault)
        | cons b before =>
          cases hls
          refine ⟨before, m, after, fault, rfl, (List.forall_mem_cons.mp hbefore).2, hfaulty, ?_⟩
          rw [List.length_cons]
          congr 1
          omega

/-! ## Files -/

/-- An entry of a fixture file: a name, and the text that is expected of it. -/
structure Entry where
  input : List Char
  expected : List Char
  input_ne_nil : input ≠ [] := by decide +kernel
  input_solid : ∀ c ∈ input, isBlank c = false := by decide +kernel
  not_comment : input.head? ≠ some '#' := by decide +kernel
  not_doubled : ¬['_', '_'] <+: input := by decide +kernel
  expected_ne_nil : expected ≠ [] := by decide +kernel
  expected_line : '\n' ∉ expected := by decide +kernel
  expected_last : ∀ c ∈ expected.getLast?, isBlank c = false := by rintro c ⟨⟩; decide
  no_remark : ¬(expected.head? = some '\x7b' ∧ ['\x7d', ' '] <:+: expected) := by decide +kernel

theorem Entry.not_mem_input (e : Entry) {c : Char} (hc : isBlank c = true) : c ∉ e.input := by
  intro hmem
  rw [e.input_solid c hmem] at hc
  cases hc

/-- A line of a fixture file. -/
inductive FileLine where
  | blank (cs : List Char) (h : ∀ c ∈ cs, isBlank c = true) (hline : '\n' ∉ cs)
  | comment (cs : List Char) (hline : '\n' ∉ cs)
  | entry (e : Entry)

namespace FileLine

/-- How a line is written. -/
def chars : FileLine → List Char
  | .blank cs _ _ => cs
  | .comment cs _ => '#' :: cs
  | .entry e => e.input ++ separator ++ e.expected

/-- The case that a line holds. -/
def case? (number : Nat) : FileLine → Option Case
  | .entry e => some ⟨number, String.ofList e.input, String.ofList e.expected⟩
  | _ => none

end FileLine

/-- The text of a file: its lines, each with its end. -/
def fileChars (ls : List (FileLine × LineEnd)) : List Char :=
  ls.flatMap fun l => l.1.chars ++ l.2.chars

/-- The cases of lines that are numbered from the given number on. -/
def fileCases (number : Nat) (ls : List (FileLine × LineEnd)) : List Case :=
  (ls.zipIdx number).filterMap fun l => l.1.1.case? l.2

theorem newline_not_mem_chars (l : FileLine) : '\n' ∉ l.chars := by
  cases l with
  | blank cs _ hline => exact hline
  | comment cs hline => simpa [FileLine.chars] using hline
  | entry e =>
    have hinput : '\n' ∉ e.input := e.not_mem_input (by decide)
    have hseparator : '\n' ∉ separator := by decide
    simp [FileLine.chars, hinput, hseparator, e.expected_line]

theorem stripRemark_eq_self {expected : List Char}
    (h : ¬(expected.head? = some '\x7b' ∧ ['\x7d', ' '] <:+: expected)) :
    stripRemark expected = expected := by
  unfold stripRemark
  split
  · next rest =>
    have hnone : splitOnce ['\x7d', ' '] ('\x7b' :: rest) = none :=
      (splitOnce_eq_none_iff (List.cons_ne_nil _ _)).mpr fun hi => h ⟨rfl, hi⟩
    rw [hnone]
    rfl
  · rfl

theorem normalizeInput_eq_self {input : List Char} (h : ¬['_', '_'] <+: input) :
    normalizeInput input = input := by
  unfold normalizeInput
  split
  · next rest => exact absurd (List.prefix_append ['_', '_'] rest) h
  · rfl

/-- The first separator of an entry stands behind its name: it has two blanks, and the name has none. -/
theorem Entry.dividesAt (e : Entry) :
    DividesAt separator (e.input ++ separator ++ e.expected) e.input e.expected := by
  refine ⟨rfl, fun hi => ?_⟩
  have hinput : e.input.count ' ' = 0 := List.count_eq_zero.mpr (e.not_mem_input (by decide))
  have hle := hi.sublist.count_le ' '
  rw [List.count_append, hinput] at hle
  revert hle
  decide

theorem Entry.not_skipped (e : Entry) : ¬Skipped (e.input ++ separator ++ e.expected) := by
  obtain ⟨c, cs, hinput⟩ := List.exists_cons_of_ne_nil e.input_ne_nil
  rintro (hblank | hcomment)
  · have hsolid := e.input_solid c (by simp [hinput])
    rw [hblank c (by simp [hinput])] at hsolid
    cases hsolid
  · refine e.not_comment ?_
    rw [hinput] at hcomment ⊢
    exact hcomment

/-- An entry is read back: nothing is trimmed or stripped. -/
theorem parseLine_entry (e : Entry) (number : Nat) :
    parseLine number (trimEnd (e.input ++ separator ++ e.expected)) =
      .ok (some ⟨number, String.ofList e.input, String.ofList e.expected⟩) := by
  have hopen : isSkipped (trimEnd (e.input ++ separator ++ e.expected)) = false := by
    rw [← Bool.not_eq_true, isSkipped_trimEnd]
    exact e.not_skipped
  have htrim : trimEnd (e.input ++ separator ++ e.expected) = e.input ++ separator ++ e.expected := by
    refine trimEnd_eq_self fun c hc => e.expected_last c ?_
    rwa [List.getLast?_append_of_ne_nil _ e.expected_ne_nil] at hc
  have hsolid : trim e.input = e.input :=
    trim_eq_self (fun c hc => e.input_solid c (List.mem_of_mem_head? hc))
      fun c hc => e.input_solid c (List.mem_of_mem_getLast? hc)
  have hinput : e.input.isEmpty = false := List.isEmpty_eq_false_iff.mpr e.input_ne_nil
  unfold parseLine
  rw [hopen, htrim, splitOnce_of_dividesAt separator_ne_nil e.dividesAt]
  simp only [Bool.false_eq_true, if_false, hsolid, hinput, normalizeInput_eq_self e.not_doubled,
    stripRemark_eq_self e.no_remark]

/-- A line of a file is read back. -/
theorem parseLine_chars (l : FileLine) (number : Nat) :
    parseLine number (trimEnd l.chars) = .ok (l.case? number) := by
  cases l with
  | blank cs h _ =>
    have hskip : isSkipped (trimEnd cs) = true := isSkipped_trimEnd.mpr (.inl h)
    exact if_pos hskip
  | comment cs _ =>
    have hskip : isSkipped (trimEnd ('#' :: cs)) = true := isSkipped_trimEnd.mpr (.inr rfl)
    exact if_pos hskip
  | entry e => exact parseLine_entry e number

theorem parseLines_last {as : List Char} (h : '\n' ∉ as) (number : Nat) :
    parseLines number (lines as) = (parseLine number (trimEnd as)).map Option.toList := by
  by_cases hne : as = []
  · subst hne
    rfl
  · rw [lines_of_not_mem h hne]
    cases hline : parseLine number (trimEnd as) with
    | error e => exact parseLines_of_error (l := ⟨as, .none⟩) hline []
    | ok case? =>
      rw [parseLines_of_ok (l := ⟨as, .none⟩) hline]
      exact congrArg Except.ok (List.append_nil _)

theorem parseLines_append {as : List Char} {case? : Option Case} (has : '\n' ∉ as)
    (h : parseLine number (trimEnd as) = .ok case?) (bs : List Char) :
    parseLines number (lines (as ++ '\n' :: bs)) =
      (parseLines (number + 1) (lines bs)).map (case?.toList ++ ·) := by
  rw [← trimEnd_closedLine] at h
  rw [lines_append has, parseLines_of_ok h]

theorem fileCases_cons (number : Nat) (line : FileLine) (ending : LineEnd)
    (ls : List (FileLine × LineEnd)) :
    fileCases number ((line, ending) :: ls) = (line.case? number).toList ++ fileCases (number + 1) ls := by
  unfold fileCases
  rw [List.zipIdx_cons, List.filterMap_cons]
  cases line.case? number <;> rfl

/-- The cases of the lines of a file are its entries. -/
theorem parseLines_fileChars (ls : List (FileLine × LineEnd)) : ∀ number : Nat,
    (∀ l ∈ ls.dropLast, l.2 ≠ .none) →
      parseLines number (lines (fileChars ls)) = .ok (fileCases number ls) := by
  induction ls with
  | nil => exact fun _ _ => rfl
  | cons l ls ih =>
    intro number hends
    obtain ⟨line, ending⟩ := l
    have hline := newline_not_mem_chars line
    have hcase := parseLine_chars line number
    have hrest : parseLines (number + 1) (lines (fileChars ls)) = .ok (fileCases (number + 1) ls) := by
      refine ih (number + 1) fun l hl => hends l ?_
      cases ls with
      | nil => cases hl
      | cons m ms => exact List.mem_cons_of_mem _ hl
    rw [fileCases_cons]
    cases ending with
    | none =>
      -- only the last line has no end
      have hls : ls = [] := by
        cases ls with
        | nil => rfl
        | cons m ms => exact absurd rfl (hends (line, .none) List.mem_cons_self)
      subst hls
      have htext : fileChars [(line, .none)] = line.chars := by simp [fileChars, LineEnd.chars]
      rw [htext, parseLines_last hline, hcase]
      exact congrArg Except.ok (List.append_nil _).symm
    | lf =>
      have htext : fileChars ((line, .lf) :: ls) = line.chars ++ '\n' :: fileChars ls := by
        simp [fileChars, LineEnd.chars]
      rw [htext, parseLines_append hline hcase, hrest]
      rfl
    | crlf =>
      have htext : fileChars ((line, .crlf) :: ls) = (line.chars ++ ['\r']) ++ '\n' :: fileChars ls := by
        simp [fileChars, LineEnd.chars]
      have hreturn : '\n' ∉ line.chars ++ ['\r'] := by simp [hline]
      rw [← trimEnd_concat (b := '\r') (by decide)] at hcase
      rw [htext, parseLines_append hreturn hcase, hrest]
      rfl

/-! ## Reports -/

/-- A case is counted in front of those behind it. -/
theorem run_cons (o : Options) (c : Case) (cases : List Case) :
    run o (c :: cases) = match mismatch? o c with
      | none => { run o cases with passed := (run o cases).passed + 1 }
      | some m => { run o cases with mismatches := m :: (run o cases).mismatches } := by
  exact Eq.refl _

/-- The mismatches are the cases that do not render as expected, in order. -/
theorem mismatches_run (o : Options) (cases : List Case) :
    (run o cases).mismatches =
      (cases.filter fun c => demangle o c.input ≠ c.expected).map fun c => ⟨c, demangle o c.input⟩ := by
  induction cases with
  | nil => rfl
  | cons c cases ih =>
    rw [run_cons, mismatch?]
    by_cases h : demangle o c.input = c.expected
    · simp [h, ih]
    · simp [h, ih]

/-- Every case has passed or is a mismatch. -/
theorem total_run (o : Options) (cases : List Case) : (run o cases).total = cases.length := by
  induction cases with
  | nil => rfl
  | cons c cases ih =>
    unfold Report.total at ih ⊢
    rw [run_cons, List.length_cons]
    cases mismatch? o c with
    | none =>
      dsimp only
      omega
    | some m =>
      dsimp only
      rw [List.length_cons]
      omega

/-! ## Files and reports -/

/-- **Fixture files are read back and all their cases accounted for**: a file gives its entries in order with
the numbers of their lines; a file is refused exactly for its first faulty line; and a report lists, in order,
the cases that do not render as expected, and counts the others. -/
theorem fixtures_accounted :
    (∀ ls : List (FileLine × LineEnd), (∀ l ∈ ls.dropLast, l.2 ≠ .none) →
      parse (String.ofList (fileChars ls)) = .ok (fileCases 1 ls)) ∧
    (∀ (content : String) (e : Error), parse content = .error e ↔
      ∃ before l after fault, lines content.toList = before ++ l :: after ∧
        (∀ m ∈ before, ∀ f, ¬Faulty m.body f) ∧ Faulty l.body fault ∧ e = fault (before.length + 1)) ∧
    (∀ (o : Options) (cases : List Case),
      (run o cases).mismatches = (cases.filter fun c => demangle o c.input ≠ c.expected).map
        (fun c => ⟨c, demangle o c.input⟩) ∧
      (run o cases).passed + (run o cases).mismatches.length = cases.length) := by
  refine ⟨fun ls hends => ?_, fun content e => ?_, fun o cases => ⟨mismatches_run o cases, total_run o cases⟩⟩
  · rw [parse, String.toList_ofList, parseLines_fileChars ls 1 hends]
  · rw [parse, parseLines_eq_error_iff]
    simp only [Nat.add_comm 1]

/-- A file with a comment, a blank line and two entries, the last one with a text that starts with a brace and
holds the separator. -/
def sampleFile : List (FileLine × LineEnd) :=
  [(.comment " cases".toList (by decide), .crlf), (.blank ['\t', ' '] (by decide) (by decide), .lf),
    (.entry { input := "$sSiD".toList, expected := "Swift.Int".toList }, .crlf),
    (.entry { input := "_x".toList, expected := "\x7b ---> \x7d".toList }, .none)]

theorem fixtures_accounted_sample :
    let cases : List Case := [⟨3, "$sSiD", "Swift.Int"⟩, ⟨4, "_x", "\x7b ---> \x7d"⟩]
    parse "# cases\r\n\t \n$sSiD ---> Swift.Int\r\n_x ---> \x7b ---> \x7d" = .ok cases ∧
    parse "#\n\n ---> x" = .error (.emptyInput 3) ∧
    (run .full cases).mismatches = [⟨⟨4, "_x", "\x7b ---> \x7d"⟩, "_x"⟩] ∧
    (run .full cases).passed + (run .full cases).mismatches.length = 2 := by
  intro cases
  obtain ⟨hparse, herror, hrun⟩ := fixtures_accounted
  have htext : String.ofList (fileChars sampleFile) =
      "# cases\r\n\t \n$sSiD ---> Swift.Int\r\n_x ---> \x7b ---> \x7d" := by decide +kernel
  have hcases : fileCases 1 sampleFile = cases := by decide +kernel
  have hfile := hparse sampleFile (by decide +kernel)
  rw [htext, hcases] at hfile
  have hdivides : DividesAt separator (trimEnd " ---> x".toList) [] ['x'] :=
    ⟨by decide +kernel, by decide +kernel⟩
  have hfaulty : Faulty " ---> x".toList .emptyInput := ⟨by decide +kernel, .empty hdivides nofun⟩
  have hskipped : ∀ m ∈ [(⟨['#'], .lf⟩ : Line), ⟨[], .lf⟩], ∀ f, ¬Faulty m.body f := by
    intro m hm f hf
    have hall : ∀ m ∈ [(⟨['#'], .lf⟩ : Line), ⟨[], .lf⟩], Skipped m.body := by decide +kernel
    exact hf.1 (hall m hm)
  have hlines : lines "#\n\n ---> x".toList =
      [⟨['#'], .lf⟩, ⟨[], .lf⟩] ++ ⟨" ---> x".toList, .none⟩ :: [] := by decide +kernel
  have hrefused : parse "#\n\n ---> x" = .error (.emptyInput 3) :=
    (herror _ _).mpr ⟨_, _, _, .emptyInput, hlines, hskipped, hfaulty, rfl⟩
  obtain ⟨hmismatches, hcount⟩ := hrun .full cases
  refine ⟨hfile, hrefused, hmismatches.trans ?_, hcount⟩
  decide +kernel

/-- A line can be refused for want of the separator though it holds it, behind a name: without anything behind
the separator, its last blank is one at the end of the line. -/
theorem separator_at_end_refused :
    ¬∀ content : String, (∃ e, parse content = .error e) ↔
      ∃ l ∈ lines content.toList, ∃ fault, ¬Skipped l.body ∧ NoCase l.body fault := by
  intro h
  have hrefused : parse "$sSiD ---> " = .error (.missingSeparator 1) := by decide +kernel
  obtain ⟨l, hl, fault, -, hcase⟩ := (h "$sSiD ---> ").mp ⟨_, hrefused⟩
  have hlines : lines "$sSiD ---> ".toList = [⟨"$sSiD ---> ".toList, .none⟩] := by decide +kernel
  rw [hlines, List.mem_singleton] at hl
  have hsplit : splitOnce separator "$sSiD ---> ".toList = some ("$sSiD".toList, []) := by
    decide +kernel
  rw [hl, noCase_of_some hsplit] at hcase
  exact absurd hcase.1 (by decide +kernel)

end Demangle.Fixture
