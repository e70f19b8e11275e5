import Demangle.Log
import Demangle.Proofs.Text

/-!
# Logs line by line and token by token

A log is demangled line by line and a line token by token, so demangling commutes with putting lines and
tokens together. Behind the first `!` of a line, each token between single blanks is replaced on its own
(`lineChars_bang`). A carriage return is a blank at the end of the last token and stays there, so it does not
matter whether it belongs to the line end or to the line:

    textChars o cs = mapFields '\n' (lineChars o) cs                              (textChars_eq_mapFields)

What is no mangled name stays as it is, and a token that is one becomes its rendering (`log_piecewise`).
-/

namespace Demangle.Log

open Text

variable {o : Options} {as bs cs : List Char}

/-! ## Tokens -/

theorem tokens_eq_splitOn (cs : List Char) : tokens cs = cs.splitOn ' ' := by
  induction cs with
  | nil => rfl
  | cons c cs ih =>
    obtain ⟨t, ts, hts⟩ := List.exists_cons_of_ne_nil (List.splitOn_ne_nil ' ' cs)
    rw [tokens, List.splitOn_cons_eq_if_modifyHead, ih, hts]
    by_cases hc : c = ' '
    · rw [if_pos hc, if_pos (beq_iff_eq.mpr hc)]
    · rw [if_neg hc, if_neg (by simpa using hc)]
      rfl

theorem isOk_decode_empty : (decode "").isOk = false := by decide +kernel

/-- Only blanks are no mangled name. -/
theorem trimStart_ne_nil {s : Symbol} (h : decode (String.ofList (trim cs)) = .ok s) :
    trimStart cs ≠ [] := by
  intro hnil
  have hempty : decode "" = .ok s := by rwa [trim, hnil] at h
  have hfails := isOk_decode_empty
  rw [hempty] at hfails
  cases hfails

/-- A blank behind a token stays there. -/
theorem token_concat {b : Char} (hb : isBlank b = true) (cs : List Char) :
    token o (cs ++ [b]) = token o cs ++ [b] := by
  unfold token
  rw [trim_concat hb]
  cases h : decode (String.ofList (trim cs)) with
  | error f => rfl
  | ok s =>
    rw [leadingBlanks_concat (trimStart_ne_nil h), trailingBlanks_concat hb]
    simp only [List.append_assoc]

theorem token_of_fails (h : (decode (String.ofList (trim cs))).isOk = false) : token o cs = cs := by
  unfold token
  cases hd : decode (String.ofList (trim cs)) with
  | error f => rfl
  | ok s =>
    rw [hd] at h
    cases h

/-- A token without blanks around it is demangled. -/
theorem token_of_trimmed (hstart : trimStart cs = cs) (hend : trimEnd cs = cs) :
    token o cs = (demangle o (String.ofList cs)).toList := by
  have hlead : leadingBlanks cs = [] := by
    have hsplit := leadingBlanks_append_trimStart cs
    rw [hstart] at hsplit
    exact List.append_left_eq_self.mp hsplit
  have htrail : trailingBlanks cs = [] := by
    have hsplit := trimEnd_append_trailingBlanks cs
    rw [hend] at hsplit
    exact List.append_right_eq_self.mp hsplit
  unfold token demangle
  rw [trim, hstart, hend, hlead, htrail]
  cases decode (String.ofList cs) with
  | ok s => exact List.append_nil _
  | error f => exact String.toList_ofList.symm

/-! ## Lines -/

theorem splitModule_of_not_mem (h : '!' ∉ cs) : splitModule cs = ([], cs) := by
  have hdrop : cs.dropWhile (· != '!') = [] :=
    List.dropWhile_eq_nil_iff.mpr fun c hc => bne_iff_ne.mpr fun heq => h (heq ▸ hc)
  unfold splitModule
  rw [hdrop]

theorem splitModule_append (h : '!' ∉ as) (bs : List Char) :
    splitModule (as ++ '!' :: bs) = (as ++ ['!'], bs) := by
  have has : ∀ c ∈ as, (c != '!') = true := fun c hc => bne_iff_ne.mpr fun heq => h (heq ▸ hc)
  have hdrop : (as ++ '!' :: bs).dropWhile (· != '!') = '!' :: bs := by
    rw [List.dropWhile_append_of_pos has]
    rfl
  have htake : (as ++ '!' :: bs).takeWhile (· != '!') = as := by
    rw [List.takeWhile_append_of_pos has, List.takeWhile_cons_of_neg (by decide), List.append_nil]
  unfold splitModule
  rw [hdrop, htake]

/-- The tokens of the part behind the first `!` are replaced. -/
theorem lineChars_eq (cs : List Char) :
    lineChars o cs = (splitModule cs).1 ++ mapFields ' ' (token o) (splitModule cs).2 := by
  unfold lineChars mapFields
  rw [← tokens_eq_splitOn]

/-- Without a `!`, the tokens of the whole line are replaced. -/
theorem lineChars_of_not_mem (h : '!' ∉ cs) : lineChars o cs = mapFields ' ' (token o) cs := by
  rw [lineChars_eq, splitModule_of_not_mem h, List.nil_append]

/-- What stands before the first `!` is kept, and the tokens behind it are replaced. -/
theorem lineChars_bang (h : '!' ∉ as) (bs : List Char) :
    lineChars o (as ++ '!' :: bs) = as ++ '!' :: mapFields ' ' (token o) bs := by
  rw [lineChars_eq, splitModule_append h, List.append_assoc, List.singleton_append]

/-- The part of a line in which names are looked for: what stands behind its first `!`, or all of it. -/
inductive Searched : List Char → List Char → Prop where
  | behind {kept part : List Char} (h : '!' ∉ kept) : Searched (kept ++ '!' :: part) part
  | all {part : List Char} (h : '!' ∉ part) : Searched part part

theorem exists_searched (cs : List Char) : ∃ part, Searched cs part := by
  by_cases h : '!' ∈ cs
  · obtain ⟨kept, part, rfl, hkept⟩ := List.eq_append_cons_of_mem h
    exact ⟨part, .behind hkept⟩
  · exact ⟨cs, .all h⟩

theorem lineChars_nil : lineChars o [] = [] := by
  rw [lineChars_of_not_mem List.not_mem_nil, mapFields_of_not_mem List.not_mem_nil]
  exact token_of_fails isOk_decode_empty

/-- A line without a mangled name stays as it is. -/
theorem lineChars_of_fails {part : List Char} (hpart : Searched cs part)
    (h : ∀ t ∈ part.splitOn ' ', (decode (String.ofList (trim t))).isOk = false) :
    lineChars o cs = cs := by
  have hkept : mapFields ' ' (token o) part = part :=
    mapFields_of_forall fun t ht => token_of_fails (h t ht)
  cases hpart with
  | behind hbang => rw [lineChars_bang hbang, hkept]
  | all hbang => rw [lineChars_of_not_mem hbang, hkept]

theorem lineChars_append (x : List Char) {y : List Char} (hy : '!' ∉ y) :
    lineChars o (x ++ ' ' :: y) = lineChars o x ++ ' ' :: lineChars o y := by
  rw [lineChars_of_not_mem hy]
  obtain ⟨part, hpart⟩ := exists_searched x
  cases hpart with
  | behind h =>
    rw [List.append_assoc, List.cons_append, lineChars_bang h, mapFields_append, lineChars_bang h]
    simp
  | all h =>
    have hall : '!' ∉ x ++ ' ' :: y := by simp [h, hy]
    rw [lineChars_of_not_mem hall, mapFields_append, lineChars_of_not_mem h]

/-- A blank behind a line that is not a separator stays there. -/
theorem lineChars_concat {b : Char} (hb : isBlank b = true) (hspace : b ≠ ' ') (hbang : b ≠ '!')
    (cs : List Char) : lineChars o (cs ++ [b]) = lineChars o cs ++ [b] := by
  have hmap : ∀ part, mapFields ' ' (token o) (part ++ [b]) = mapFields ' ' (token o) part ++ [b] :=
    mapFields_concat hspace (token_concat hb)
  obtain ⟨part, hpart⟩ := exists_searched cs
  cases hpart with
  | behind h =>
    rw [List.append_assoc, List.cons_append, lineChars_bang h, hmap, lineChars_bang h]
    simp
  | all h =>
    have hall : '!' ∉ cs ++ [b] := by simp [h, hbang.symm]
    rw [lineChars_of_not_mem hall, hmap, lineChars_of_not_mem h]

/-- A carriage return at the end of a line is its last character or part of its end. -/
theorem lineChars_closedLine (cs : List Char) :
    lineChars o (closedLine cs).body ++ (closedLine cs).ending.chars = lineChars o cs ++ ['\n'] := by
  unfold closedLine
  split
  · next h =>
    obtain ⟨ds, rfl⟩ := List.getLast?_eq_some_iff.mp h
    rw [List.dropLast_concat, lineChars_concat (by decide) (by decide) (by decide)]
    simp [LineEnd.chars]
  · rfl

/-! ## Texts -/

/-- **A text is demangled line by line.** -/
theorem textChars_eq_mapFields (cs : List Char) : textChars o cs = mapFields '\n' (lineChars o) cs := by
  induction cs using fieldInduction '\n' with
  | last cs hcs =>
    rw [mapFields_of_not_mem hcs]
    by_cases hne : cs = []
    · subst hne
      exact lineChars_nil.symm
    · unfold textChars
      rw [lines_of_not_mem hcs hne]
      simp [LineEnd.chars]
  | more as bs has ih =>
    have htext : textChars o (as ++ '\n' :: bs) = lineChars o as ++ '\n' :: textChars o bs := by
      unfold textChars
      rw [lines_append has, List.flatMap_cons, lineChars_closedLine]
      simp
    rw [htext, ih, mapFields_append, mapFields_of_not_mem has]

theorem textChars_append (as bs : List Char) :
    textChars o (as ++ '\n' :: bs) = textChars o as ++ '\n' :: textChars o bs := by
  simp only [textChars_eq_mapFields, mapFields_append]

/-- **Demangling a log is piecewise and touches nothing else**: it commutes with putting lines together, also
behind a carriage return, and with putting tokens together; a line without a mangled name where names are
looked for stays as it is; and a line that is one token becomes what the token demangles to. -/
theorem log_piecewise (o : Options) :
    (∀ a b : String, text o (a ++ "\n" ++ b) = text o a ++ "\n" ++ text o b) ∧
    (∀ x y : String, '!' ∉ y.toList → line o (x ++ " " ++ y) = line o x ++ " " ++ line o y) ∧
    (∀ (s : String) (part : List Char), Searched s.toList part →
      (∀ t ∈ part.splitOn ' ', (decode (String.ofList (trim t))).isOk = false) → line o s = s) ∧
    (∀ s : String, ' ' ∉ s.toList → '!' ∉ s.toList → (∀ c ∈ s.toList.head?, isBlank c = false) →
      (∀ c ∈ s.toList.getLast?, isBlank c = false) → line o s = demangle o s) := by
  refine ⟨fun a b => ?_, fun x y hy => ?_, fun s part hpart hfails => ?_,
    fun s hspace hbang hfirst hlast => ?_⟩
  · apply String.toList_inj.mp
    simp only [text, String.toList_append, String.toList_ofList, List.append_assoc,
      show "\n".toList = ['\n'] from rfl, List.singleton_append, textChars_append]
  · apply String.toList_inj.mp
    simp only [line, String.toList_append, String.toList_ofList, List.append_assoc,
      show " ".toList = [' '] from rfl, List.singleton_append, lineChars_append _ hy]
  · apply String.toList_inj.mp
    rw [line, String.toList_ofList, lineChars_of_fails hpart hfails]
  · apply String.toList_inj.mp
    have htoken : token o s.toList = (demangle o s).toList := by
      have h := token_of_trimmed (o := o) (trimStart_eq_self hfirst) (trimEnd_eq_self hlast)
      rwa [String.ofList_toList] at h
    rw [line, String.toList_ofList, lineChars_of_not_mem hbang, mapFields_of_not_mem hspace, htoken]

theorem log_piecewise_crash :
    let o := Options.simplified
    text o ("0 $sSiD\r" ++ "\n" ++ "1 $sSiSgD") = text o "0 $sSiD\r" ++ "\n" ++ text o "1 $sSiSgD" ∧
    line o ("app!$sSiD" ++ " " ++ "\t$sSiSgD") = line o "app!$sSiD" ++ " " ++ line o "\t$sSiSgD" ∧
    line o "$sSiD!no  name " = "$sSiD!no  name " ∧
    line o "$s4main3fooyyF" = "foo()" := by
  obtain ⟨htext, hline, hkept, htoken⟩ := log_piecewise .simplified
  refine ⟨htext _ _, hline _ _ (by decide), ?_, ?_⟩
  · have hpart : Searched ("$sSiD".toList ++ '!' :: "no  name ".toList) "no  name ".toList :=
      .behind (by decide)
    exact hkept _ "no  name ".toList hpart (by decide +kernel)
  · have hfirst : ∀ c ∈ "$s4main3fooyyF".toList.head?, isBlank c = false := by
      rintro c ⟨⟩
      decide
    have hlast : ∀ c ∈ "$s4main3fooyyF".toList.getLast?, isBlank c = false := by
      rintro c ⟨⟩
      decide
    rw [htoken "$s4main3fooyyF" (by decide) (by decide) hfirst hlast]
    decide +kernel

end Demangle.Log
