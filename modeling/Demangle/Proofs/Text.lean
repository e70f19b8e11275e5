import Mathlib.Data.List.DropRight
import Demangle.Text.Blank
import Demangle.Text.Line

/-!
# Fields, blanks and lines

What is done to a text piece by piece commutes with putting pieces together. `mapFields` replaces each field
between separators,

    mapFields sep f (as ++ sep :: bs) = mapFields sep f as ++ sep :: mapFields sep f bs   (mapFields_append)

and a text is either one field or a first field, a separator and a text (`fieldInduction`). The lines of a
text are its fields between line feeds, a carriage return at the end of a field being part of the line end
(`lines_append`).
-/

namespace Demangle.Text

/-! ## Fields -/

/-- Replaces the fields between separators. -/
def mapFields (sep : Char) (f : List Char → List Char) (cs : List Char) : List Char :=
  [sep].intercalate ((cs.splitOn sep).map f)

section Fields

variable {sep : Char} {f : List Char → List Char} {as bs cs : List Char}

/-- A text is one field, or a field, a separator and a text. -/
theorem fieldInduction (sep : Char) {motive : List Char → Prop} (last : ∀ cs, sep ∉ cs → motive cs)
    (more : ∀ as bs, sep ∉ as → motive bs → motive (as ++ sep :: bs)) (cs : List Char) : motive cs := by
  induction h : cs.length using Nat.strongRecOn generalizing cs with
  | ind n ih =>
    by_cases hsep : sep ∈ cs
    · obtain ⟨as, bs, rfl, has⟩ := List.eq_append_cons_of_mem hsep
      refine more as bs has (ih bs.length ?_ bs rfl)
      rw [← h, List.length_append, List.length_cons]
      omega
    · exact last cs hsep

theorem splitOn_append (sep : Char) (as bs : List Char) :
    (as ++ sep :: bs).splitOn sep = as.splitOn sep ++ bs.splitOn sep := by
  simp only [List.splitOn_eq_splitOnP]
  exact List.splitOnP_append_cons as bs (beq_self_eq_true sep)

theorem intercalate_append {xs ys : List (List Char)} (hxs : xs ≠ []) (hys : ys ≠ []) :
    [sep].intercalate (xs ++ ys) = [sep].intercalate xs ++ sep :: [sep].intercalate ys := by
  induction xs with
  | nil => exact absurd rfl hxs
  | cons x xs ih =>
    cases xs with
    | nil =>
      obtain ⟨y, ys, rfl⟩ := List.exists_cons_of_ne_nil hys
      simp
    | cons x' xs =>
      have htail := ih (List.cons_ne_nil _ _)
      simp only [List.cons_append] at htail ⊢
      rw [List.intercalate_cons_cons, htail, List.intercalate_cons_cons]
      simp only [List.append_assoc]

/-- **Replacing fields commutes with putting texts together.** -/
theorem mapFields_append (sep : Char) (f : List Char → List Char) (as bs : List Char) :
    mapFields sep f (as ++ sep :: bs) = mapFields sep f as ++ sep :: mapFields sep f bs := by
  have hne : ∀ cs : List Char, (cs.splitOn sep).map f ≠ [] := by
    intro cs h
    exact List.splitOn_ne_nil sep cs (List.map_eq_nil_iff.mp h)
  unfold mapFields
  rw [splitOn_append, List.map_append, intercalate_append (hne as) (hne bs)]

theorem mapFields_of_not_mem (h : sep ∉ cs) : mapFields sep f cs = f cs := by
  unfold mapFields
  rw [List.splitOn_eq_singleton h]
  simp

/-- Fields that stay as they are leave the text as it is. -/
theorem mapFields_of_forall (h : ∀ t ∈ cs.splitOn sep, f t = t) : mapFields sep f cs = cs := by
  unfold mapFields
  rw [List.map_congr_left h, List.map_id', List.intercalate_splitOn]

/-- A character behind the text is one behind its last field. -/
theorem mapFields_concat {c : Char} (hc : c ≠ sep) (hf : ∀ t, f (t ++ [c]) = f t ++ [c])
    (cs : List Char) : mapFields sep f (cs ++ [c]) = mapFields sep f cs ++ [c] := by
  induction cs using fieldInduction sep with
  | last cs hcs =>
    have hmem : sep ∉ cs ++ [c] := by simp [hcs, hc.symm]
    rw [mapFields_of_not_mem hmem, mapFields_of_not_mem hcs, hf]
  | more as bs _ ih =>
    rw [List.append_assoc, List.cons_append, mapFields_append, ih, mapFields_append]
    simp

end Fields

/-! ## Blanks -/

section Blanks

variable {b : Char} {cs : List Char}

theorem trimStart_eq_nil_iff : trimStart cs = [] ↔ ∀ c ∈ cs, isBlank c = true :=
  List.dropWhile_eq_nil_iff

theorem trimEnd_concat (hb : isBlank b = true) (cs : List Char) : trimEnd (cs ++ [b]) = trimEnd cs :=
  List.rdropWhile_concat_pos isBlank cs b hb

theorem trailingBlanks_concat (hb : isBlank b = true) (cs : List Char) :
    trailingBlanks (cs ++ [b]) = trailingBlanks cs ++ [b] :=
  List.rtakeWhile_concat_pos isBlank cs b hb

/-- What is not blank keeps the blanks in front of it apart from those behind it. -/
theorem trimStart_concat (h : trimStart cs ≠ []) (b : Char) :
    trimStart (cs ++ [b]) = trimStart cs ++ [b] := by
  unfold trimStart at h ⊢
  rw [List.dropWhile_append, if_neg (by simpa using h)]

theorem leadingBlanks_concat (h : trimStart cs ≠ []) (b : Char) :
    leadingBlanks (cs ++ [b]) = leadingBlanks cs := by
  have hsplit := leadingBlanks_append_trimStart (cs ++ [b])
  rw [trimStart_concat h, ← List.append_assoc] at hsplit
  have hcs : leadingBlanks (cs ++ [b]) ++ trimStart cs = cs := List.append_cancel_right hsplit
  exact List.append_cancel_right (hcs.trans (leadingBlanks_append_trimStart cs).symm)

theorem trimEnd_eq_nil_iff : trimEnd cs = [] ↔ ∀ c ∈ cs, isBlank c = true :=
  List.rdropWhile_eq_nil_iff

theorem trim_eq_nil_iff : trim cs = [] ↔ ∀ c ∈ cs, isBlank c = true := by
  have hidem : trimStart (trimStart cs) = trimStart cs := List.dropWhile_idempotent isBlank cs
  rw [trim, trimEnd_eq_nil_iff, ← trimStart_eq_nil_iff, hidem, trimStart_eq_nil_iff]

/-- A blank at the end is trimmed, whatever stands before it. -/
theorem trim_concat (hb : isBlank b = true) (cs : List Char) : trim (cs ++ [b]) = trim cs := by
  unfold trim
  by_cases hcs : trimStart cs = []
  · have hall : ∀ c ∈ cs ++ [b], isBlank c = true := by
      intro c hc
      rcases List.mem_append.mp hc with hc | hc
      · exact trimStart_eq_nil_iff.mp hcs c hc
      · rwa [List.mem_singleton.mp hc]
    rw [hcs, trimStart_eq_nil_iff.mpr hall]
  · rw [trimStart_concat hcs, trimEnd_concat hb]

theorem trimStart_eq_self (h : ∀ c ∈ cs.head?, isBlank c = false) : trimStart cs = cs := by
  cases cs with
  | nil => rfl
  | cons c cs => exact List.dropWhile_cons_of_neg (by simp [h c rfl])

theorem trimEnd_eq_self (h : ∀ c ∈ cs.getLast?, isBlank c = false) : trimEnd cs = cs := by
  refine List.rdropWhile_eq_self_iff.mpr fun hne => ?_
  simp [h _ (List.getLast_mem_getLast? hne)]

/-- A text with no blank at either end is trimmed already. -/
theorem trim_eq_self (hfirst : ∀ c ∈ cs.head?, isBlank c = false)
    (hlast : ∀ c ∈ cs.getLast?, isBlank c = false) : trim cs = cs := by
  rw [trim, trimStart_eq_self hfirst, trimEnd_eq_self hlast]

end Blanks

/-! ## Lines -/

/-- The line of a field in front of a line feed. -/
def closedLine (cs : List Char) : Line :=
  if cs.getLast? = some '\r' then ⟨cs.dropLast, .crlf⟩ else ⟨cs, .lf⟩

theorem lines_of_not_mem {cs : List Char} (h : '\n' ∉ cs) (hne : cs ≠ []) : lines cs = [⟨cs, .none⟩] := by
  fun_induction lines cs with
  | case1 => exact absurd rfl hne
  | case2 cs => simp at h
  | case3 cs => simp at h
  | case4 c cs hlf hcrlf ih =>
    by_cases hcs : cs = []
    · subst hcs
      rfl
    · rw [ih (fun hmem => h (List.mem_cons_of_mem c hmem)) hcs]
      rfl

theorem lines_cons {c : Char} {cs : List Char} (hc : c ≠ '\n')
    (hcr : c = '\r' → cs.head? ≠ some '\n') : lines (c :: cs) = consLine c (lines cs) := by
  refine lines.eq_4 c cs hc ?_
  rintro rest rfl rfl
  exact hcr rfl rfl

theorem closedLine_cons (c : Char) {cs : List Char} (h : cs ≠ []) :
    closedLine (c :: cs) = ⟨c :: (closedLine cs).body, (closedLine cs).ending⟩ := by
  unfold closedLine
  rw [List.getLast?_cons_of_ne_nil h, List.dropLast_cons_of_ne_nil h]
  split <;> rfl

/-- **A field in front of a line feed is a line.** -/
theorem lines_append {as : List Char} (h : '\n' ∉ as) (bs : List Char) :
    lines (as ++ '\n' :: bs) = closedLine as :: lines bs := by
  induction as with
  | nil => rfl
  | cons c as ih =>
    have ih := ih fun hmem => h (List.mem_cons_of_mem c hmem)
    have hc : c ≠ '\n' := fun heq => h (heq ▸ List.mem_cons_self)
    cases as with
    | nil =>
      by_cases hcr : c = '\r'
      · subst hcr
        rfl
      · have hlast : [c].getLast? ≠ some '\r' := by simpa using hcr
        have hline : closedLine [c] = ⟨[c], .lf⟩ := if_neg hlast
        rw [List.cons_append, lines_cons hc fun heq => absurd heq hcr, ih, hline]
        rfl
    | cons d as =>
      have hd : d ≠ '\n' := fun heq => h (heq ▸ List.mem_cons_of_mem c List.mem_cons_self)
      have hhead : (d :: as ++ '\n' :: bs).head? ≠ some '\n' := by simpa using hd
      rw [List.cons_append, lines_cons hc fun _ => hhead, ih, closedLine_cons c (List.cons_ne_nil d as)]
      rfl

theorem lines_ne_nil {cs : List Char} (h : cs ≠ []) : lines cs ≠ [] := by
  intro hnil
  have hunlines := unlines_lines cs
  rw [hnil] at hunlines
  exact h hunlines.symm

/-- A carriage return at the end of a line is a blank behind its body. -/
theorem trimEnd_closedLine (cs : List Char) : trimEnd (closedLine cs).body = trimEnd cs := by
  unfold closedLine
  split
  · next h =>
    obtain ⟨ds, rfl⟩ := List.getLast?_eq_some_iff.mp h
    rw [List.dropLast_concat]
    exact (trimEnd_concat (by decide) ds).symm
  · rfl

/-- No line has a line feed in its body. -/
theorem newline_not_mem_body (cs : List Char) : ∀ l ∈ lines cs, '\n' ∉ l.body := by
  fun_induction lines cs with
  | case1 => exact List.forall_mem_nil _
  | case2 cs ih => exact List.forall_mem_cons.mpr ⟨List.not_mem_nil, ih⟩
  | case3 cs ih => exact List.forall_mem_cons.mpr ⟨List.not_mem_nil, ih⟩
  | case4 c cs hlf hcrlf ih =>
    have hc : '\n' ≠ c := fun heq => hlf heq.symm
    cases hls : lines cs with
    | nil => simpa [consLine] using hc
    | cons l ls =>
      rw [hls, List.forall_mem_cons] at ih
      simpa [consLine, hc] using ih

end Demangle.Text
