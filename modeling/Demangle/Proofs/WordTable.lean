import Demangle.WordTable

/-!
# Words hold no separator

A word ends in front of `_`, and none begins with it. So a table that records the words of texts never
holds a word with `_` in it, whatever the texts are. A table grows at its end (`WordTable.Grows`), up to
its capacity, and by words of two bytes at least that do not begin with a digit.
-/

namespace Demangle

namespace Word

theorem ne_mark_of_continues {last c : Char} (h : continues last c = true) : c ≠ '_' := by
  rintro rfl
  simp [continues, isSeparator] at h

theorem plain_start (c : Char) : '_' ∉ (if canStart c then [c] else []) := by
  split
  · next h =>
    rw [List.mem_singleton]
    rintro rfl
    simp [canStart, isSeparator] at h
  · exact List.not_mem_nil

theorem plain_splitFrom (word cs : List Char) (h : '_' ∉ word) :
    ∀ w ∈ splitFrom word cs, '_' ∉ w := by
  induction word, cs using splitFrom.induct with
  | case1 => exact nofun
  | case2 word hne =>
    intro w hw
    rw [splitFrom.eq_2 _ hne, List.mem_singleton] at hw
    rw [hw, List.mem_reverse]
    exact h
  | case3 c cs ih =>
    rw [splitFrom]
    exact ih (plain_start c)
  | case4 last word c cs hc ih =>
    rw [splitFrom, if_pos hc]
    refine ih fun hmem => ?_
    rcases List.mem_cons.mp hmem with heq | hmem
    · exact ne_mark_of_continues hc heq.symm
    · exact h hmem
  | case5 last word c cs hc ih =>
    rw [splitFrom, if_neg hc]
    intro w hw
    rcases List.mem_cons.mp hw with rfl | hw
    · rw [List.mem_reverse]
      exact h
    · exact ih (plain_start c) w hw

theorem plain_ofText (s : String) : ∀ w ∈ ofText s, '_' ∉ w.toList := by
  intro w hw
  obtain ⟨cs, hcs, rfl⟩ := List.mem_map.mp (List.mem_filter.mp hw).1
  rw [String.toList_ofList]
  exact plain_splitFrom [] s.toList List.not_mem_nil cs hcs

/-- A word begins with a character that can start one. -/
theorem start_splitFrom (word cs : List Char) (h : ∀ c ∈ word.getLast?, canStart c = true) :
    ∀ w ∈ splitFrom word cs, ∀ c ∈ w.head?, canStart c = true := by
  have hstart : ∀ c, ∀ d ∈ (if canStart c then [c] else []).getLast?, canStart d = true := by
    intro c d hd
    split at hd
    · next hc =>
      cases hd
      exact hc
    · cases hd
  induction word, cs using splitFrom.induct with
  | case1 => exact nofun
  | case2 word hne =>
    intro w hw
    rw [splitFrom.eq_2 _ hne, List.mem_singleton] at hw
    rw [hw, List.head?_reverse]
    exact h
  | case3 c cs ih =>
    rw [splitFrom]
    exact ih (hstart c)
  | case4 last word c cs hc ih =>
    rw [splitFrom, if_pos hc]
    exact ih h
  | case5 last word c cs hc ih =>
    rw [splitFrom, if_neg hc]
    refine List.forall_mem_cons.mpr ⟨?_, ih (hstart c)⟩
    rw [List.head?_reverse]
    exact h

theorem start_ofText {s w : String} (hw : w ∈ ofText s) : ∀ c ∈ w.toList.head?, c.isDigit = false := by
  obtain ⟨cs, hcs, rfl⟩ := List.mem_map.mp (List.mem_filter.mp hw).1
  intro c hc
  rw [String.toList_ofList] at hc
  have hstart := start_splitFrom [] s.toList nofun cs hcs c hc
  rw [canStart, Bool.and_eq_true, Bool.not_eq_true'] at hstart
  exact hstart.1

end Word

namespace WordTable

theorem mem_add {t : WordTable} {word w : String} (h : w ∈ t.add word) : w ∈ t ∨ w = word := by
  unfold add at h
  split at h
  · exact Array.mem_push.mp h
  · exact .inl h

/-- Recording a text adds nothing but words of it. -/
theorem mem_record {t : WordTable} {s w : String} (h : w ∈ t.record s) :
    w ∈ t ∨ w ∈ Word.ofText s := by
  unfold record at h
  generalize Word.ofText s = words at h
  induction words generalizing t with
  | nil => exact .inl h
  | cons word words ih =>
    rcases ih h with h | h
    · rcases mem_add h with h | rfl
      · exact .inl h
      · exact .inr List.mem_cons_self
    · exact .inr (List.mem_cons_of_mem _ h)

/-- **A table of words without `_` stays one.** -/
theorem plain_record {t : WordTable} (ht : ∀ w ∈ t, '_' ∉ w.toList) (s : String) :
    ∀ w ∈ t.record s, '_' ∉ w.toList := by
  intro w hw
  rcases mem_record hw with hw | hw
  · exact ht w hw
  · exact Word.plain_ofText s w hw

/-! ## Growth -/

/-- The second table arises from the first one by recording texts. -/
def Grows (t t' : WordTable) : Prop :=
  ∃ texts : List String, t' = texts.foldl record t

theorem Grows.refl (t : WordTable) : t.Grows t :=
  ⟨[], rfl⟩

theorem Grows.trans {t t' t'' : WordTable} (h₁ : t.Grows t') (h₂ : t'.Grows t'') : t.Grows t'' := by
  obtain ⟨texts, rfl⟩ := h₁
  obtain ⟨more, rfl⟩ := h₂
  exact ⟨texts ++ more, by rw [List.foldl_append]⟩

theorem grows_record (t : WordTable) (s : String) : t.Grows (t.record s) :=
  ⟨[s], rfl⟩

/-- What the addition of each word of a text keeps, growth keeps. -/
theorem Grows.keeps {P : WordTable → Prop}
    (hadd : ∀ (t : WordTable) (s w : String), w ∈ Word.ofText s → P t → P (t.add w))
    {t t' : WordTable} (h : t.Grows t') (ht : P t) : P t' := by
  have hrecord : ∀ (t : WordTable) (s : String), P t → P (t.record s) := by
    intro t s ht
    exact List.foldlRecOn (Word.ofText s) add ht fun t ht w hw => hadd t s w hw ht
  obtain ⟨texts, rfl⟩ := h
  exact List.foldlRecOn texts record ht fun t ht s _ => hrecord t s ht

theorem Grows.prefix {t t' : WordTable} (h : t.Grows t') : t.toList <+: t'.toList := by
  refine h.keeps (P := fun u => t.toList <+: u.toList) (fun u s w _ hu => ?_) (List.prefix_refl _)
  unfold add
  split
  · rw [Array.toList_push]
    exact hu.trans (List.prefix_append _ _)
  · exact hu

theorem Grows.size_le {t t' : WordTable} (h : t.Grows t') (ht : t.size ≤ capacity) :
    t'.size ≤ capacity := by
  refine h.keeps (P := fun u => u.size ≤ capacity) (fun u s w _ hu => ?_) ht
  unfold add
  split
  · rw [Array.size_push]
    omega
  · exact hu

theorem Grows.two_le {t t' : WordTable} (h : t.Grows t') (ht : ∀ w ∈ t, 2 ≤ w.utf8ByteSize) :
    ∀ w ∈ t', 2 ≤ w.utf8ByteSize := by
  refine h.keeps (P := fun u => ∀ w ∈ u, 2 ≤ w.utf8ByteSize) (fun u s w hw hu w' hw' => ?_) ht
  rcases mem_add hw' with h | rfl
  · exact hu w' h
  · exact of_decide_eq_true (List.mem_filter.mp hw).2

theorem Grows.start {t t' : WordTable} (h : t.Grows t')
    (ht : ∀ w ∈ t, ∀ c ∈ w.toList.head?, c.isDigit = false) :
    ∀ w ∈ t', ∀ c ∈ w.toList.head?, c.isDigit = false := by
  refine h.keeps (P := fun u => ∀ w ∈ u, ∀ c ∈ w.toList.head?, c.isDigit = false)
    (fun u s w hw hu w' hw' => ?_) ht
  rcases mem_add hw' with h | rfl
  · exact hu w' h
  · exact Word.start_ofText hw

end WordTable

end Demangle
