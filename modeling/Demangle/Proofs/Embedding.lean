import Demangle.ParamChange
import Demangle.Proofs.Decode
import Mathlib.Order.WellFounded

/-!
# Mangled names inside mangled names

What a specialization says about a function or a closure holds a mangled name, which a rendering decodes
and renders in turn, with what is inside that, and so on. `Embeds s t` says that this happens to `t` when
`s` is rendered.

    Embeds s t → marks t < marks s ∨ t.length < s.length           (Embeds.smaller)

Neither number is smaller in every step: words make a text longer, and Punycode brings in `_`. So a
chain of names inside names can go on for ever, but only if it grows in both ways again and again
(`ends_iff`); and there is a name that comes back after two steps (`not_ends_cycle`).
-/

namespace Demangle

open Symbol

/-! ## Embedded names -/

/-- The changes whose payload is a mangled name. -/
def ParamChange.carriesName : ParamChange → Bool
  | .constantFunction | .constantGlobal | .closure => true
  | _ => false

/-- The mangled name in a node, if it is the record of a parameter that carries one. -/
def Symbol.embedded? (n : Symbol) : Option String :=
  if n.kind == .functionSignatureSpecializationParam then
    match n.children with
    | change :: payload :: _ =>
      match change.index?.bind ParamChange.ofValue? with
      | some c => if c.carriesName then payload.text? else none
      | none => none
    | _ => none
  else none

/-- The mangled names in a tree. -/
def Symbol.embedded (t : Symbol) : List String :=
  t.nodes.filterMap embedded?

/-- Rendering the name `s` leads to decoding and rendering the text `t`. -/
def Embeds (s t : String) : Prop :=
  ∃ tree, decode s = .ok tree ∧ t ∈ tree.embedded

/-! ## The law of spent characters -/

namespace Cursor

/-- More `_` than in the text stand before the place, or more characters. -/
def Exceeds (c : Cursor) (t : String) : Prop :=
  t.toList.count '_' < c.marks ∨ t.toList.length < c.seen.length

theorem Exceeds.reach {c d : Cursor} {t : String} (ht : c.Exceeds t) (h : c.Reaches d) :
    d.Exceeds t := by
  rcases ht with ht | ht
  · exact .inl (Nat.lt_of_lt_of_le ht h.marks_le)
  · exact .inr (Nat.lt_of_lt_of_le ht h.length_seen_le)

/-- With one more `_` read, what was covered is exceeded. -/
theorem Covers.exceeds {c d : Cursor} {t : String} (ht : c.Covers t) (h : c.Reaches d)
    (hmarks : c.marks < d.marks) : d.Exceeds t := by
  rcases ht with ht | ht
  · exact .inl (Nat.lt_of_le_of_lt ht hmarks)
  · obtain ⟨read, hread⟩ := h.seen
    have hne : read ≠ [] := by
      rintro rfl
      rw [marks, marks, hread] at hmarks
      exact Nat.lt_irrefl _ hmarks
    have hpos := List.length_pos_of_ne_nil hne
    refine .inr ?_
    rw [hread, List.length_append]
    omega

/-- A text that is no larger than a covered one is covered. -/
theorem Covers.of_sublist {c : Cursor} {t u : String} (ht : c.Covers t)
    (h : u.toList.Sublist t.toList) : c.Covers u := by
  rcases ht with ht | ht
  · exact .inl (Nat.le_trans (h.count_le '_') ht)
  · exact .inr (Nat.le_trans h.length_le ht)

end Cursor

namespace Decode

/-- Names are covered by what was read, payloads exceeded. -/
def spent (c : Cursor) : TextLaw where
  name := c.Covers
  payload := c.Exceeds
  name_of_plain t ht := .inl (by rw [List.count_eq_zero.mpr ht]; exact Nat.zero_le _)

theorem unprotect_sublist (t : String) : (unprotect t).toList.Sublist t.toList := by
  unfold unprotect
  split
  · next cs h =>
    rw [h, String.toList_ofList]
    exact List.sublist_cons_self _ _
  · exact List.Sublist.refl _

/-- Reading `_` is seen. -/
theorem accept_mark {c d : Cursor} (hc : ∀ x ∈ c.rest, x.Honest)
    (h : Scan.accept '_' c = .ok true d) : c.marks < d.marks := by
  unfold Scan.accept Scan.acceptByte at h
  split at h
  · next x r hr =>
    split at h
    · next hx =>
      cases h
      have hbyte : x.byte = '_'.toUInt8 := beq_iff_eq.mp hx
      have hbegins : x.begins = some '_' := by
        have := hc x (by rw [hr]; exact List.mem_cons_self)
        rw [this (by rw [hbyte]; decide), Cell.letter, hbyte]
        rfl
      rw [Cursor.marks_advance, hr, List.take_succ_cons, List.take_zero, Cell.toList_text]
      simp [hbegins]
    · cases h
  · cases h

theorem paramRecords_marks {fuel : Nat} : ∀ {i : UInt64} {s s' : State} {xs : List Symbol},
    s.Sound .any → paramRecords fuel i s = .ok xs s' → s.cursor.marks < s'.cursor.marks := by
  induction fuel with
  | zero =>
    intro i s s' xs _ h
    cases h
  | succ fuel ih =>
    intro i s s' xs hs h
    obtain ⟨closed, s₁, h₁, h⟩ := bind_eq_ok h
    cases closed with
    | true =>
      cases h
      obtain ⟨c, hc, rfl⟩ := lift_eq_ok h₁
      exact accept_mark hs.rest hc
    | false =>
      obtain ⟨reach₁, hs₁, -⟩ := builds_scan _ _ _ _ hs h₁
      obtain ⟨cs, s₂, h₂, h⟩ := bind_eq_ok h
      obtain ⟨reach₂, hs₂, -⟩ :=
        builds_changeRecord (fun _ _ => ⟨trivial, trivial⟩) _ _ _ hs₁ h₂
      obtain ⟨ys, s₃, h₃, h⟩ := bind_eq_ok h
      cases h
      have := ih hs₂ h₃
      have := (reach₁.trans reach₂).marks_le
      omega

/-- A specialization of a signature reads a `_`, the one after the records of the parameters. -/
theorem signatureSpecialization_marks {s s' : State} {x : Symbol} (hs : s.Sound .any)
    (h : signatureSpecialization s = .ok x s') : s.cursor.marks < s'.cursor.marks := by
  have hany : ∀ t, TextLaw.any.name t → TextLaw.any.payload t ∧ TextLaw.any.payload (unprotect t) :=
    fun _ _ => ⟨trivial, trivial⟩
  obtain ⟨head, s₁, h₁, h⟩ := bind_eq_ok h
  obtain ⟨reach₁, hs₁, -⟩ := builds_specializationHead _ _ _ hs h₁
  obtain ⟨unique, s₂, h₂, h⟩ := bind_eq_ok h
  obtain ⟨reach₂, hs₂, -⟩ := builds_scan _ _ _ _ hs₁ h₂
  obtain ⟨n, s₃, h₃, h⟩ := bind_eq_ok h
  obtain ⟨reach₃, hs₃, -⟩ := builds_scan _ _ _ _ hs₂ h₃
  obtain ⟨params, s₄, h₄, h⟩ := bind_eq_ok h
  obtain ⟨reach₄, hs₄, hparams⟩ := builds_paramRecords hany n 0 _ _ _ hs₃ h₄
  obtain ⟨result, s₅, h₅, h⟩ := bind_eq_ok h
  obtain ⟨reach₅, hs₅, hresult⟩ := builds_returnRecord hany _ _ _ hs₄ h₅
  obtain ⟨records, s₆, h₆, h⟩ := bind_eq_ok h
  have hrecords : ∀ r ∈ (params ++ result).reverse, r.WellFormed .any := by
    intro r hr
    rcases List.mem_append.mp (List.mem_reverse.mp hr) with hr | hr
    · exact hparams r hr
    · exact hresult r hr
  obtain ⟨reach₆, -, -⟩ := builds_attachAll hany _ hrecords [] nofun _ _ _ hs₅ h₆
  cases h
  have := paramRecords_marks hs₃ h₄
  have := (reach₁.trans (reach₂.trans reach₃)).marks_le
  have := (reach₅.trans reach₆).marks_le
  omega

theorem tracks_spent : Tracks spent where
  mono h := ⟨fun _ ht => ht.reach h, fun _ ht => ht.reach h⟩
  name hs h := (identifierText_covers hs.words h).2
  payload {s s' x} hs h t ht := by
    have hsound : s.Sound .any := hs.implies ⟨fun _ _ => trivial, fun _ _ => trivial⟩
    have hmarks := signatureSpecialization_marks hsound h
    have reach : s.cursor.Reaches s'.cursor :=
      (builds_signatureSpecialization (fun _ _ => ⟨trivial, trivial⟩) _ _ _ hsound h).1
    have hsub : s.cursor.Covers (unprotect t) := Cursor.Covers.of_sublist ht (unprotect_sublist t)
    exact ⟨Cursor.Covers.exceeds ht reach hmarks, hsub.exceeds reach hmarks⟩

end Decode

/-! ## Each step makes something smaller -/

/-- The number of `_` in a text. -/
def marks (t : String) : Nat :=
  t.toList.count '_'

theorem embedded?_eq_some {n : Symbol} {t : String} (h : n.embedded? = some t) :
    n.kind = .functionSignatureSpecializationParam ∧
      ∃ change payload rest, n.children = change :: payload :: rest ∧ payload.payload = .text t := by
  unfold Symbol.embedded? at h
  split at h
  · next hk =>
    refine ⟨beq_iff_eq.mp hk, ?_⟩
    split at h
    · next change payload rest hc =>
      refine ⟨change, payload, rest, hc, ?_⟩
      split at h
      · split at h
        · unfold Symbol.text? at h
          split at h
          · next u hu =>
            cases h
            exact hu
          · cases h
        · cases h
      · cases h
    · cases h
  · cases h

/-- What a record carries obeys the law of payloads. -/
theorem WellFormed.payload_of_embedded {L : TextLaw} {tree : Symbol} (h : tree.WellFormed L)
    {t : String} (ht : t ∈ tree.embedded) : L.payload t := by
  obtain ⟨n, hn, ht⟩ := List.mem_filterMap.mp ht
  obtain ⟨hk, change, payload, rest, hc, hp⟩ := embedded?_eq_some ht
  have hwf := h.node_of_mem hn
  have hadmits := hwf.admits
  have hpayload : payload.WellFormed L := hwf.child (by rw [hc]; simp)
  have hcarries := hpayload.carries
  rw [hk, hc] at hadmits
  simp only [Kind.content, Content.admits, List.map_cons, List.take_succ_cons, List.take_zero,
    List.isPrefixOf, Bool.and_true, Bool.and_eq_true, beq_iff_eq] at hadmits
  rw [hp] at hcarries
  exact hcarries.2 hadmits.2

/-- What stands before a place in a text is part of the text. -/
theorem seen_sublist {m : String} {c : Cursor} (h : (Cursor.ofString m).Reaches c) :
    c.seen.reverse.Sublist m.toList := by
  obtain ⟨read, hbefore, hrest⟩ := h.before
  have hm : m.toList = (read.reverse ++ c.rest).filterMap Cell.begins := by
    rw [← hrest, ← Cell.toList_text]
    exact (congrArg String.toList (Cell.text_ofString m)).symm
  have hseen : c.seen = read.filterMap Cell.begins := by
    rw [Cursor.seen, hbefore]
    simp [Cursor.ofString]
  rw [hm, hseen, List.filterMap_append, List.filterMap_reverse]
  exact List.sublist_append_left _ _

/-- **A name inside another one has fewer `_` or fewer characters.** -/
theorem Embeds.smaller {s t : String} (h : Embeds s t) :
    marks t < marks s ∨ t.length < s.length := by
  obtain ⟨tree, htree, ht⟩ := h
  obtain ⟨s', hs'⟩ := decode_eq_ok htree
  obtain ⟨reach, hwf, -⟩ := Decode.symbol_sound Decode.tracks_spent hs'
  have hexceeds : s'.cursor.Exceeds t := WellFormed.payload_of_embedded hwf ht
  have hsub := seen_sublist reach
  have hcount := hsub.count_le '_'
  have hlength := hsub.length_le
  rw [List.count_reverse] at hcount
  rw [List.length_reverse] at hlength
  rcases hexceeds with h | h
  · exact .inl (Nat.lt_of_lt_of_le h hcount)
  · refine .inr ?_
    rw [← String.length_toList, ← String.length_toList]
    omega

/-! ## Chains -/

/-- A chain that starts with `s` and does not end, each name being inside the one before. -/
def IsChain (s : String) (f : ℕ → String) : Prop :=
  f 0 = s ∧ ∀ n, Embeds (f n) (f (n + 1))

/-- No chain of names inside names starts with `s` and does not end. -/
def Ends (s : String) : Prop :=
  ¬∃ f, IsChain s f

/-- A number of the names of a chain grows again and again. -/
def GrowsForever (number : String → ℕ) (f : ℕ → String) : Prop :=
  ∀ n, ∃ m, n ≤ m ∧ number (f m) < number (f (m + 1))

/-- If each step makes one of two numbers smaller, each of them grows again and again: from where the
first one stopped growing, the pair of both would go down for ever. -/
theorem growsForever_of_smaller {a b : String → ℕ} {f : ℕ → String}
    (h : ∀ n, a (f (n + 1)) < a (f n) ∨ b (f (n + 1)) < b (f n)) : GrowsForever a f := by
  intro n
  by_contra hstop
  have hle : ∀ m, n ≤ m → a (f (m + 1)) ≤ a (f m) := by
    intro m hm
    by_contra hlt
    exact hstop ⟨m, hm, by omega⟩
  obtain ⟨k, hk⟩ := WellFounded.not_rel_apply_succ (r := Prod.Lex (· < ·) (· < ·))
    fun k => (a (f (n + k)), b (f (n + k)))
  apply hk
  rw [Prod.lex_def]
  have hdown := hle (n + k) (Nat.le_add_right n k)
  have hstep := h (n + k)
  show a (f (n + k + 1)) < a (f (n + k)) ∨
    a (f (n + k + 1)) = a (f (n + k)) ∧ b (f (n + k + 1)) < b (f (n + k))
  omega

/-- **Rendering a name ends unless a chain of names inside it grows for ever, both in length and in
`_`.** -/
theorem ends_iff (s : String) :
    Ends s ↔ ¬∃ f, IsChain s f ∧ GrowsForever String.length f ∧ GrowsForever marks f := by
  refine not_congr ⟨fun ⟨f, hf⟩ => ⟨f, hf, ?_, ?_⟩, fun ⟨f, hf, _⟩ => ⟨f, hf⟩⟩
  · exact growsForever_of_smaller fun n => (hf.2 n).smaller.symm
  · exact growsForever_of_smaller fun n => (hf.2 n).smaller

/-! ## A cycle -/

/-- The name whose payload is spelled with words. -/
def cycleShort : String :=
  "$s47K011$s00108$s47abcdabcd17shAIFboahTf1pfn0Tf1pfnK011$s00108$s47abcdabcd17_shAIFboahTf1pf_n0Tf1pf_n"

/-- The name whose payload is spelled in Punycode. -/
def cycleLong : String :=
  "$s00108$s47K011$s00108$s47abcdabcd17shAIFboahTf1pfn0Tf1pfnK011$s00108$s47abcdabcd17shAIFboahTf1pfn0Tf1pfn_shAIFboahTf1pf_n"

theorem embeds_of_eval {s t : String} (h : (decode s).toOption.map embedded = some [t]) :
    Embeds s t := by
  obtain ⟨tree, htree, he⟩ := exists_decode h
  exact ⟨tree, htree, by rw [he]; exact List.mem_singleton_self t⟩

theorem embeds_short_long : Embeds cycleShort cycleLong :=
  embeds_of_eval (by decide +kernel)

theorem embeds_long_short : Embeds cycleLong cycleShort :=
  embeds_of_eval (by decide +kernel)

/-- **A chain can go on for ever.** -/
theorem not_ends_cycle : ¬Ends cycleShort := by
  intro h
  apply h
  refine ⟨fun n => if n % 2 = 0 then cycleShort else cycleLong, rfl, fun n => ?_⟩
  dsimp only
  by_cases hn : n % 2 = 0
  · have hn' : (n + 1) % 2 ≠ 0 := by omega
    rw [if_pos hn, if_neg hn']
    exact embeds_short_long
  · have hn' : (n + 1) % 2 = 0 := by omega
    rw [if_neg hn, if_pos hn']
    exact embeds_long_short

end Demangle
