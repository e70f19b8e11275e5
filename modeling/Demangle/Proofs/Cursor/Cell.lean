import Demangle.Cursor

/-!
# Cells of a text

The cells of a text hold its characters in order, one byte or more each. A byte of ASCII among them is
a character of its own (`Honest`), so a step that reads such a byte reads that character.

    text (ofString s) = s                              (text_ofString)
    (ofString s).length = s.utf8ByteSize               (length_ofString)
    ∀ c ∈ ofString s, c.Honest                         (honest_ofString)
-/

namespace Demangle.Cell

/-! ## One character -/

/-- A byte of ASCII is the character it stands for. -/
def Honest (c : Cell) : Prop :=
  c.byte.toNat < 0x80 → c.begins = some c.letter

theorem ofChar_eq (c : Char) : ∃ b bs, String.utf8EncodeChar c = b :: bs ∧
    ofChar c = ⟨b, some c⟩ :: bs.map (⟨·, none⟩) := by
  cases h : String.utf8EncodeChar c with
  | nil => exact absurd h String.utf8EncodeChar_ne_nil
  | cons b bs =>
    refine ⟨b, bs, rfl, ?_⟩
    unfold ofChar
    rw [h]

/-- The cell of a character of ASCII. -/
def ascii (c : Char) : Cell :=
  ⟨c.toUInt8, some c⟩

theorem ofChar_ascii {c : Char} (h : c.toNat < 0x80) : ofChar c = [ascii c] := by
  have hle : c.val.toNat ≤ 0x7f := Nat.le_of_lt_succ h
  have he : String.utf8EncodeChar c = [c.toUInt8] := by
    simp only [String.utf8EncodeChar, if_pos hle]
    rfl
  unfold ofChar
  rw [he]
  rfl

theorem toNat_letter (c : Cell) : c.letter.toNat = c.byte.toNat := by
  show c.byte.toUInt32.toNat = c.byte.toNat
  exact UInt8.toNat_toUInt32 c.byte

theorem low_of_isDigit_char {c : Char} (h : c.isDigit = true) : c.toNat < 0x80 := by
  rw [Char.isDigit, Bool.and_eq_true, decide_eq_true_eq, decide_eq_true_eq] at h
  have hle : c.toNat ≤ '9'.toNat := h.2
  exact Nat.lt_of_le_of_lt hle (by decide)

theorem not_letter_of_isDigit {c : Char} (h : c.isDigit = true) :
    c.isLower = false ∧ c.isUpper = false := by
  delta Char.isLower Char.isUpper
  grind [Char.isDigit]

theorem low_of_isDigit {c : Cell} (h : c.isDigit = true) : c.byte.toNat < 0x80 := by
  rw [← toNat_letter]
  exact low_of_isDigit_char h

theorem toNat_toUInt8 {c : Char} (h : c.toNat < 0x80) : c.toUInt8.toNat = c.toNat := by
  show c.val.toNat % 256 = c.val.toNat
  exact Nat.mod_eq_of_lt (Nat.lt_trans h (by decide))

theorem letter_ascii {c : Char} (h : c.toNat < 0x80) : (ascii c).letter = c := by
  apply Char.ext
  apply UInt32.toNat_inj.mp
  exact (toNat_letter (ascii c)).trans (toNat_toUInt8 h)

/-- All bytes of a character outside ASCII are above it. -/
theorem high_of_mem_encode {c : Char} (h : 0x80 ≤ c.toNat) :
    ∀ b ∈ String.utf8EncodeChar c, 0x80 ≤ b.toNat := by
  have hlow : ¬c.val.toNat ≤ 0x7f := Nat.not_le_of_lt h
  intro b hb
  simp only [String.utf8EncodeChar, if_neg hlow] at hb
  split at hb
  · simp only [List.mem_cons, List.not_mem_nil, or_false] at hb
    rcases hb with rfl | rfl <;> simp only [UInt8.toNat_ofNat'] <;> omega
  · split at hb
    · simp only [List.mem_cons, List.not_mem_nil, or_false] at hb
      rcases hb with rfl | rfl | rfl <;> simp only [UInt8.toNat_ofNat'] <;> omega
    · simp only [List.mem_cons, List.not_mem_nil, or_false] at hb
      rcases hb with rfl | rfl | rfl | rfl <;> simp only [UInt8.toNat_ofNat'] <;> omega

theorem map_byte_ofChar (c : Char) : (ofChar c).map byte = String.utf8EncodeChar c := by
  obtain ⟨b, bs, h, -⟩ := ofChar_eq c
  unfold ofChar
  rw [h]
  exact congrArg (b :: ·) ((List.map_map ..).trans (List.map_id bs))

theorem high_of_mem_ofChar {c : Char} (h : 0x80 ≤ c.toNat) {x : Cell} (hx : x ∈ ofChar c) :
    0x80 ≤ x.byte.toNat := by
  have hbyte : x.byte ∈ String.utf8EncodeChar c := by
    rw [← map_byte_ofChar]
    exact List.mem_map_of_mem hx
  exact high_of_mem_encode h x.byte hbyte

theorem honest_ofChar (c : Char) : ∀ x ∈ ofChar c, x.Honest := by
  intro x hx hlow
  by_cases hc : c.toNat < 0x80
  · rw [ofChar_ascii hc, List.mem_singleton] at hx
    subst hx
    rw [letter_ascii hc]
    rfl
  · have hhigh := high_of_mem_ofChar (Nat.le_of_not_lt hc) hx
    omega

/-! ## Texts -/

theorem toList_text (cs : List Cell) : (text cs).toList = cs.filterMap begins := by
  simp [text]

theorem ofString_append (s t : String) : ofString (s ++ t) = ofString s ++ ofString t := by
  simp [ofString]

theorem text_append (xs ys : List Cell) : text (xs ++ ys) = text xs ++ text ys := by
  simp [text]

theorem honest_ofString (s : String) : ∀ c ∈ ofString s, c.Honest := by
  intro x hx
  obtain ⟨c, -, hc⟩ := List.mem_flatMap.mp hx
  exact honest_ofChar c x hc

theorem filterMap_ofChar (c : Char) : (ofChar c).filterMap begins = [c] := by
  obtain ⟨b, bs, -, ho⟩ := ofChar_eq c
  have hnone : (bs.map fun b => (⟨b, none⟩ : Cell)).filterMap begins = [] := by
    rw [List.filterMap_map]
    exact List.filterMap_eq_nil_iff.mpr fun _ _ => rfl
  rw [ho]
  show c :: (bs.map fun b => (⟨b, none⟩ : Cell)).filterMap begins = [c]
  rw [hnone]

theorem text_ofString (s : String) : text (ofString s) = s := by
  apply String.toList_inj.mp
  rw [toList_text, ofString, List.filterMap_flatMap]
  simp [filterMap_ofChar]

theorem length_ofChar (c : Char) : (ofChar c).length = c.utf8Size := by
  obtain ⟨b, bs, he, ho⟩ := ofChar_eq c
  rw [ho, ← String.length_utf8EncodeChar, he]
  simp

theorem length_ofString (s : String) : (ofString s).length = s.utf8ByteSize := by
  have key : ∀ cs : List Char, (cs.flatMap ofChar).length = (String.ofList cs).utf8ByteSize := by
    intro cs
    induction cs with
    | nil => rfl
    | cons c cs ih =>
      rw [List.flatMap_cons, List.length_append, ih, length_ofChar, String.ofList_cons,
        String.utf8ByteSize_append, String.utf8ByteSize_singleton]
  rw [ofString, key, String.ofList_toList]

theorem map_byte_ofString (s : String) :
    (ofString s).map byte = s.toList.flatMap String.utf8EncodeChar := by
  simp only [ofString, List.map_flatMap, map_byte_ofChar]

theorem encode_ascii {c : Char} (h : c.toNat < 0x80) : String.utf8EncodeChar c = [c.toUInt8] := by
  rw [← map_byte_ofChar, ofChar_ascii h]
  rfl

/-- A character of ASCII is not begun by the bytes of another one. -/
theorem eq_of_encode_head {c d : Char} (hc : c.toNat < 0x80) {bs : List UInt8}
    (h : String.utf8EncodeChar d = c.toUInt8 :: bs) : d = c := by
  have hbyte := toNat_toUInt8 hc
  by_cases hd : d.toNat < 0x80
  · rw [encode_ascii hd] at h
    have hcell : (ascii d).letter = (ascii c).letter :=
      congrArg Char.ofUInt8 (List.head_eq_of_cons_eq h)
    rwa [letter_ascii hd, letter_ascii hc] at hcell
  · have hhigh := high_of_mem_encode (Nat.le_of_not_lt hd) c.toUInt8 (h ▸ List.mem_cons_self)
    omega

/-- A text of ASCII whose bytes come first comes first itself. -/
theorem prefix_of_bytes : ∀ {ts ms : List Char}, (∀ c ∈ ts, c.toNat < 0x80) →
    ts.flatMap String.utf8EncodeChar <+: ms.flatMap String.utf8EncodeChar → ts <+: ms := by
  intro ts
  induction ts with
  | nil => exact fun _ _ => List.nil_prefix
  | cons t ts ih =>
    intro ms hts h
    have ht := hts t List.mem_cons_self
    rw [List.flatMap_cons, encode_ascii ht, List.singleton_append] at h
    cases ms with
    | nil => cases List.prefix_nil.mp h
    | cons d ms =>
      obtain ⟨b, bs, hd, -⟩ := ofChar_eq d
      rw [List.flatMap_cons, hd, List.cons_append, List.cons_prefix_cons] at h
      obtain ⟨rfl, h⟩ := h
      obtain rfl := eq_of_encode_head ht hd
      rw [encode_ascii ht] at hd
      obtain rfl : bs = [] := (List.cons.inj hd).2.symm
      exact List.cons_prefix_cons.mpr ⟨rfl, ih (fun c hc => hts c (List.mem_cons_of_mem _ hc)) h⟩

/-- The cells of a text begin with the character that the text begins with. -/
theorem ofString_head {s : String} (h : s ≠ "") :
    ∃ x r, ofString s = x :: r ∧ x.begins = s.toList.head? ∧ x.begins ≠ none := by
  cases hs : s.toList with
  | nil => exact absurd (String.toList_eq_nil_iff.mp hs) h
  | cons c cs =>
    obtain ⟨b, bs, -, ho⟩ := ofChar_eq c
    refine ⟨⟨b, some c⟩, bs.map (⟨·, none⟩) ++ cs.flatMap ofChar, ?_, rfl, nofun⟩
    rw [ofString, hs, List.flatMap_cons, ho]
    rfl

end Demangle.Cell
