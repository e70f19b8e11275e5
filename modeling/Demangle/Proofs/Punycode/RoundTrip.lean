import Demangle.Proofs.Punycode.Encode
import Mathlib.Algebra.Group.Nat.Defs

/-!
# Encoding and decoding undo each other

Decoding gives back the code points from their Punycode, if no number in it is too large for 32 bits, and
encoding gives back every Punycode of fewer than 2^32 code points that is accepted, but for a delimiter with
nothing in front of it:

    decode (encode points) = some text                      (decode_encode)
    decodePoints s = some points → encode points = s        (encode_decodePoints)

Both rest on the insertions that encoding asks for: they make up the list (`putAll_deltas`), and no others do
(`State.putAll_injective`). A longer list is counted modulo 2^32, so its insertions are made in other places
(`encode_decodePoints_cut`).
-/

namespace Demangle.Punycode

/-! ## The delimiter -/

theorem takeWhile_digits (front : List Char) {digits : List Char} (h : '_' ∉ digits) :
    (front ++ digits).reverse.takeWhile (· != '_') =
      digits.reverse ++ front.reverse.takeWhile (· != '_') := by
  have hall : ∀ c ∈ digits.reverse, (c != '_') = true := by
    intro c hc
    rw [bne_iff_ne]
    rintro rfl
    exact h (List.mem_reverse.mp hc)
  rw [List.reverse_append, List.takeWhile_append_of_pos hall]

theorem split_digits {cs : List Char} (h : '_' ∉ cs) : split cs = ([], cs) := by
  have htake : cs.reverse.takeWhile (· != '_') = cs.reverse :=
    (takeWhile_digits [] h).trans (List.append_nil _)
  simp [split, htake]

theorem split_literal (literal : List Char) {digits : List Char} (h : '_' ∉ digits) :
    split (literal ++ '_' :: digits) = (literal, digits) := by
  have htake : (literal ++ '_' :: digits).reverse.takeWhile (· != '_') = digits.reverse := by
    rw [List.append_cons, takeWhile_digits _ h, List.reverse_concat,
      List.takeWhile_cons_of_neg (by simp), List.append_nil]
  have hlength : (literal ++ '_' :: digits).length - digits.length - 1 = literal.length := by
    rw [List.length_append, List.length_cons]
    omega
  simp only [split, htake, List.reverse_reverse, hlength, List.take_left]

/-- A text has no delimiter, or it is divided at the last one. -/
theorem split_cases (cs : List Char) : '_' ∉ cs ∧ split cs = ([], cs) ∨
    ∃ literal digits, cs = literal ++ '_' :: digits ∧ '_' ∉ digits ∧ split cs = (literal, digits) := by
  by_cases h : '_' ∈ cs
  · obtain ⟨digits, literal, hcs, hdigits⟩ := List.eq_append_cons_of_mem (List.mem_reverse.mpr h)
    have heq : cs = literal.reverse ++ '_' :: digits.reverse := by
      rw [← List.reverse_reverse cs, hcs]
      simp
    have hnone : '_' ∉ digits.reverse := fun hmem => hdigits (List.mem_reverse.mp hmem)
    exact .inr ⟨_, _, heq, hnone, heq ▸ split_literal _ hnone⟩
  · exact .inl ⟨h, split_digits h⟩

/-! ## Literal characters -/

theorem toNat_ofNat_ascii {p : Nat} (h : p < 0x80) : (Char.ofNat p).toNat = p := by
  have hall : ∀ q < 0x80, (Char.ofNat q).toNat = q := by decide
  exact hall p h

/-- The characters of ASCII in a list of code points. -/
theorem map_toNat_literal (points : List Nat) :
    ((points.filter (· < 0x80)).map Char.ofNat).map Char.toNat = points.filter (· < 0x80) := by
  rw [List.map_map]
  refine (List.map_congr_left fun p hp => ?_).trans (List.map_id _)
  exact toNat_ofNat_ascii (of_decide_eq_true (List.mem_filter.mp hp).2)

theorem all_literal (points : List Nat) :
    ((points.filter (· < 0x80)).map Char.ofNat).all (·.toNat < 0x80) = true := by
  rw [List.all_eq_true]
  intro c hc
  obtain ⟨p, hp, rfl⟩ := List.mem_map.mp hc
  have hlow : p < 0x80 := of_decide_eq_true (List.mem_filter.mp hp).2
  rw [toNat_ofNat_ascii hlow]
  exact decide_eq_true hlow

theorem filter_literal {literal : List Char} (h : literal.all (·.toNat < 0x80) = true) :
    (literal.map Char.toNat).filter (· < 0x80) = literal.map Char.toNat := by
  refine List.filter_eq_self.mpr fun p hp => ?_
  obtain ⟨c, hc, rfl⟩ := List.mem_map.mp hp
  exact List.all_eq_true.mp h c hc

/-! ## Decoding what was encoded -/

theorem delimiter_not_mem_digits (points : List Nat) : '_' ∉ (Encoder.run points).digits := by
  rw [digits_run]
  exact State.delimiter_not_mem_spell _ _

/-- The Punycode of a list is divided into the literal characters and the digits. -/
theorem split_encode (points : List Nat) : split (encode points).toList =
    ((points.filter (· < 0x80)).map Char.ofNat, (Encoder.run points).digits) := by
  unfold encode
  dsimp only
  rw [String.toList_ofList]
  cases hl : (points.filter (· < 0x80)).map Char.ofNat with
  | nil => exact split_digits (delimiter_not_mem_digits points)
  | cons c literal =>
    rw [List.isEmpty_cons, List.append_assoc]
    exact split_literal _ (delimiter_not_mem_digits points)

/-- The value of the last insertion is in the list. -/
theorem State.n_mem_putAll (st : State) {deltas : List Nat} (h : deltas ≠ []) :
    (st.putAll deltas).n ∈ (st.putAll deltas).points := by
  cases deltas using List.reverseRecOn with
  | nil => exact absurd rfl h
  | append_singleton ds d =>
    rw [State.putAll_concat]
    exact State.n_mem_put _ _

/-- The values of the insertions are bounded by those in the list. -/
theorem n_putAll_lt {points : List Nat} {bound : Nat} (hbound : 0x80 < bound)
    (h : ∀ p ∈ points, p < bound) :
    ((literalState points).putAll (deltas points)).n < bound := by
  by_cases hnil : deltas points = []
  · rw [hnil]
    exact hbound
  · have hmem := (literalState points).n_mem_putAll hnil
    rw [putAll_deltas] at hmem
    exact h _ hmem

/-- The code points are decoded if no number is too large. -/
theorem decodePoints_encode {points : List Nat} (hpoints : ∀ p ∈ points, p < wordSize)
    (hdeltas : ∀ d ∈ deltas points, 36 * (d + points.length) < wordSize) :
    decodePoints (encode points) = some points := by
  have hlength := (literalState points).length_putAll (deltas points)
  rw [putAll_deltas] at hlength
  have hread := insertions_spell points.length (deltas points) _ (literalState points)
    (Nat.le_refl _) (Nat.zero_le _) (Nat.le_of_eq hlength.symm) hdeltas
    (n_putAll_lt (by decide) hpoints)
  unfold decodePoints
  rw [split_encode]
  dsimp only
  rw [if_pos (all_literal points), map_toNat_literal, digits_run]
  rw [putAll_deltas] at hread
  exact hread

/-- The number of an insertion is bounded by the value inserted last and the length of the list. -/
theorem State.delta_lt (deltas : List Nat) : ∀ st : State, 0x80 ≤ st.n → ∀ d ∈ deltas,
    d < ((st.putAll deltas).n - 0x7F) * (st.putAll deltas).points.length := by
  induction deltas with
  | nil => exact fun _ _ d hd => absurd hd List.not_mem_nil
  | cons delta deltas ih =>
    intro st hn d hd
    rcases List.mem_cons.mp hd with rfl | hd
    · have hvalue : (st.put d).n ≤ (st.putAll (d :: deltas)).n := le_n_putAll deltas _
      have hplace : (st.i + d) / (st.points.length + 1) + 1 ≤ (st.putAll (d :: deltas)).n - 0x7F := by
        have heq : (st.put d).n = st.n + (st.i + d) / (st.points.length + 1) := rfl
        omega
      have hlength : st.points.length + 1 ≤ (st.putAll (d :: deltas)).points.length := by
        rw [length_putAll, List.length_cons]
        omega
      calc d ≤ st.i + d := Nat.le_add_left _ _
        _ < ((st.i + d) / (st.points.length + 1) + 1) * (st.points.length + 1) := by
          rw [Nat.add_mul, Nat.one_mul]
          exact Nat.lt_div_mul_add (Nat.succ_pos _)
        _ ≤ _ := Nat.mul_le_mul hplace hlength
    · exact ih _ (Nat.le_trans hn (st.le_n_put delta)) d hd

/-- A short list has no number that is too large. -/
theorem deltas_small {points : List Nat} (hpoints : ∀ p ∈ points, p < 0x110000)
    (hshort : points.length ≤ 100) : ∀ d ∈ deltas points, 36 * (d + points.length) < wordSize := by
  intro d hd
  have hlt := State.delta_lt (deltas points) (literalState points) (Nat.le_refl _) d hd
  rw [putAll_deltas] at hlt
  have hn := n_putAll_lt (by decide) hpoints
  have hle : (((literalState points).putAll (deltas points)).n - 0x7F) * points.length ≤
      (0x10FFFF - 0x7F) * 100 := Nat.mul_le_mul (by omega) hshort
  have hsize : wordSize = 4294967296 := rfl
  omega

/-! ## Characters -/

/-- The value that a code point stands for: those from 0xD800 to 0xD87F stand for ASCII. -/
def plain (p : Nat) : Nat :=
  if 0xD800 ≤ p ∧ p < 0xD880 then p - 0xD800 else p

/-- A code point that stands for a character. -/
def Encodable (p : Nat) : Prop :=
  p.isValidChar ∨ 0xD800 ≤ p ∧ p < 0xD880

theorem Encodable.lt {p : Nat} (h : Encodable p) : p < 0x110000 := by
  unfold Encodable Nat.isValidChar at h
  omega

theorem Encodable.character? {p : Nat} (h : Encodable p) :
    character? p = some (Char.ofNat (plain p)) := by
  have hvalid : (plain p).isValidChar := by
    unfold plain
    split
    · next hp => exact .inl (by omega)
    · next hp => exact h.resolve_right hp
  exact if_pos hvalid

theorem mapM_character? {points : List Nat} (h : ∀ p ∈ points, Encodable p) :
    points.mapM character? = some (points.map fun p => Char.ofNat (plain p)) := by
  induction points with
  | nil => rfl
  | cons p points ih =>
    rw [List.mapM_cons, (h p List.mem_cons_self).character?,
      ih fun q hq => h q (List.mem_cons_of_mem _ hq)]
    rfl

/-- **Decoding undoes encoding**, for all lists whose numbers leave room for one more digit in 32 bits.
Lists of up to 100 code points are of that kind. -/
theorem decode_encode {points : List Nat} (h : ∀ p ∈ points, Encodable p) :
    ((∀ d ∈ deltas points, 36 * (d + points.length) < 2 ^ 32) →
      decode (encode points) = some (String.ofList (points.map fun p => Char.ofNat (plain p)))) ∧
    (points.length ≤ 100 → ∀ d ∈ deltas points, 36 * (d + points.length) < 2 ^ 32) := by
  refine ⟨fun hdeltas => ?_, fun hshort => deltas_small (fun p hp => (h p hp).lt) hshort⟩
  have hfits : ∀ p ∈ points, p < wordSize := fun p hp => Nat.lt_trans (h p hp).lt (by decide)
  unfold decode
  rw [decodePoints_encode hfits hdeltas, Option.bind_some, mapM_character? h]
  rfl

/-- Equal code points, and one that stands for `_`. -/
theorem decode_encode_repeated :
    (∀ p ∈ [0x42, 0xFC, 0xD85F, 0x5E74, 0xFC], Encodable p) ∧
      encode [0x42, 0xFC, 0xD85F, 0x5E74, 0xFC] = "B_ehaaFCIGgynBf" ∧
      decode (encode [0x42, 0xFC, 0xD85F, 0x5E74, 0xFC]) = some "Bü_年ü" := by
  have h : ∀ p ∈ [0x42, 0xFC, 0xD85F, 0x5E74, 0xFC], Encodable p := by
    intro p hp
    simp only [List.mem_cons, List.not_mem_nil, or_false] at hp
    unfold Encodable Nat.isValidChar
    omega
  exact ⟨h, by decide +kernel, (decode_encode h).1 ((decode_encode h).2 (by decide))⟩

/-! ## Encoding what was decoded -/

/-- The last delimiter is the first character. -/
def DelimiterLeads (s : String) : Prop :=
  ∃ digits, s.toList = '_' :: digits ∧ '_' ∉ digits

/-- Otherwise the two parts of a text tell it. -/
theorem toList_of_split {s : String} (hs : ¬DelimiterLeads s) {literal digits : List Char}
    (h : split s.toList = (literal, digits)) :
    s.toList = literal ++ (if literal.isEmpty then [] else ['_']) ++ digits := by
  rcases split_cases s.toList with ⟨-, hsplit⟩ | ⟨literal', digits', hs', hnone, hsplit⟩
  · obtain ⟨rfl, rfl⟩ := Prod.mk.inj (hsplit.symm.trans h)
    rfl
  · obtain ⟨rfl, rfl⟩ := Prod.mk.inj (hsplit.symm.trans h)
    cases literal' with
    | nil => exact absurd ⟨digits', hs', hnone⟩ hs
    | cons c literal =>
      rw [hs', List.isEmpty_cons, List.append_assoc]
      rfl

/-- What is decoded are the literal characters with the insertions that encoding asks for. -/
theorem split_of_decodePoints {s : String} {points : List Nat} (hlength : points.length < wordSize)
    (h : decodePoints s = some points) :
    split s.toList =
      ((points.filter (· < 0x80)).map Char.ofNat, (Encoder.run points).digits) := by
  unfold decodePoints at h
  split at h
  next literal digits hsplit =>
  split at h
  next hascii =>
    obtain ⟨ds, rfl, rfl⟩ := insertions_eq_some hlength h
    have hfilter := State.filter_putAll ds { points := literal.map Char.toNat } (Nat.le_refl _)
    rw [filter_literal hascii] at hfilter
    have hlow : ∀ p ∈ literal.map Char.toNat, p < 0x80 := by
      intro p hp
      rw [← filter_literal hascii] at hp
      exact of_decide_eq_true (List.mem_filter.mp hp).2
    -- The list that was decoded starts from the same literal characters, so its numbers are those read.
    have hstart : literalState (({ points := literal.map Char.toNat } : State).putAll ds).points =
        { points := literal.map Char.toNat } := by
      rw [literalState, hfilter]
    have hmade := putAll_deltas (({ points := literal.map Char.toNat } : State).putAll ds).points
    have hdigits := digits_run (({ points := literal.map Char.toNat } : State).putAll ds).points
    rw [hstart] at hmade hdigits
    rw [State.putAll_injective (State.ordered_literal hlow) _ _ hmade] at hdigits
    have hchars : (literal.map Char.toNat).map Char.ofNat = literal := by
      rw [List.map_map]
      exact (List.map_congr_left fun c _ => Char.ofNat_toNat c).trans (List.map_id _)
    rw [hsplit, hfilter, hdigits, hchars]
  · cases h

/-! ## Where the count is cut -/

/-- A number of letters, and the insertion with the number 1 behind them. -/
def cutText (n : Nat) : String :=
  String.ofList (List.replicate n 'a' ++ '_' :: ['b', 'a'])

theorem split_cutText (n : Nat) : split (cutText n).toList = (List.replicate n 'a', ['b', 'a']) := by
  rw [cutText, String.toList_ofList]
  exact split_literal _ (by decide)

theorem not_delimiterLeads_cutText {n : Nat} (hn : 0 < n) : ¬DelimiterLeads (cutText n) := by
  obtain ⟨m, rfl⟩ := Nat.exists_eq_add_one_of_ne_zero (Nat.ne_of_gt hn)
  rintro ⟨digits, h, -⟩
  rw [cutText, String.toList_ofList, List.replicate_succ] at h
  cases (List.cons.inj h).1

/-- Letters whose number is cut to 0 are taken for none, so the code point is inserted in front of them. -/
theorem decodePoints_cutText {n : Nat} (hn : n % wordSize = 0) :
    decodePoints (cutText n) = some (0x81 :: List.replicate n 0x61) := by
  have hascii : (List.replicate n 'a').all (·.toNat < 0x80) = true :=
    List.all_eq_true.mpr fun c hc => by rw [List.eq_of_mem_replicate hc]; rfl
  have hread : readNumber 72 0 1 base ['b', 'a'] = some (1, []) := by decide
  have hcount : ({ points := List.replicate n 0x61 } : State).count = 1 := by
    rw [State.count, List.length_replicate, hn]
  have hinsert : ({ points := List.replicate n 0x61 } : State).insert 1 =
      some { points := 0x81 :: List.replicate n 0x61, n := 0x81, i := 1, bias := adapt 1 1 true } := by
    unfold State.insert
    rw [hcount]
    rfl
  have hpoints : (List.replicate n 'a').map Char.toNat = List.replicate n 0x61 := List.map_replicate
  unfold decodePoints
  rw [split_cutText]
  dsimp only
  rw [if_pos hascii, hpoints, List.length_cons, insertions_succ (List.cons_ne_nil _ _)]
  dsimp only
  rw [hread]
  dsimp only
  rw [hinsert]
  rfl

theorem literalState_cut (n : Nat) :
    literalState (0x81 :: List.replicate n 0x61) = { points := List.replicate n 0x61 } := by
  have hletters : (List.replicate n 0x61).filter (· < 0x80) = List.replicate n 0x61 :=
    List.filter_eq_self.mpr fun p hp => by rw [List.eq_of_mem_replicate hp]; rfl
  rw [literalState, List.filter_cons_of_neg (by decide), hletters]

/-- The number 1 does not ask for an insertion in front of letters. -/
theorem put_letters {n : Nat} (hn : 0 < n) :
    (({ points := List.replicate n 0x61 } : State).put 1).points ≠ 0x81 :: List.replicate n 0x61 := by
  obtain ⟨m, rfl⟩ := Nat.exists_eq_add_one_of_ne_zero (Nat.ne_of_gt hn)
  have hplace : (0 + 1) % ((List.replicate (m + 1) 0x61).length + 1) = 1 := by
    rw [List.length_replicate]
    exact Nat.mod_eq_of_lt (by omega)
  unfold State.put
  dsimp only
  rw [hplace, List.replicate_succ, List.insertIdx_succ_cons]
  intro h
  cases (List.cons.inj h).1

theorem writeNumber_one : writeNumber 72 base 1 = ['b', 'a'] := by
  have hmore : writeNumber 72 base (1 + 0 * (base - threshold 72 base)) =
      digitChar 1 :: writeNumber 72 (base + base) 0 := writeNumber_more (by decide) (by decide)
  have hlast : writeNumber 72 (base + base) 0 = [digitChar 0] := writeNumber_last (by decide)
  rw [Nat.zero_mul, Nat.add_zero, hlast] at hmore
  exact hmore

/-- Encoding asks for the insertion with another number. -/
theorem encode_ne_cutText {n : Nat} (hn : 0 < n) :
    encode (0x81 :: List.replicate n 0x61) ≠ cutText n := by
  intro heq
  have hmade := putAll_deltas (0x81 :: List.replicate n 0x61)
  have hspell := digits_run (0x81 :: List.replicate n 0x61)
  have hlength := State.length_putAll (deltas (0x81 :: List.replicate n 0x61))
    (literalState (0x81 :: List.replicate n 0x61))
  have hsplit := split_encode (0x81 :: List.replicate n 0x61)
  rw [heq, split_cutText] at hsplit
  rw [hmade, literalState_cut, List.length_cons] at hlength
  rw [← (Prod.mk.inj hsplit).2, literalState_cut] at hspell
  rw [literalState_cut] at hmade
  obtain ⟨d, hd⟩ := List.length_eq_one_iff.mp (Nat.add_left_cancel hlength).symm
  rw [hd] at hmade hspell
  have hnumber : writeNumber 72 base d = writeNumber 72 base 1 := by
    rw [writeNumber_one, hspell]
    exact (List.append_nil _).symm
  obtain rfl := writeNumber_injective d hnumber
  exact put_letters hn hmade

/-! ## All texts -/

/-- **Encoding undoes decoding**, if there are fewer than 2^32 code points; so different texts are decoded to
different code points. -/
theorem encode_decodePoints {s : String} {points : List Nat} (hs : ¬DelimiterLeads s)
    (hlength : points.length < 2 ^ 32) (h : decodePoints s = some points) :
    encode points = s ∧ ∀ t : String, ¬DelimiterLeads t → decodePoints t = some points → t = s := by
  have heq : ∀ t : String, ¬DelimiterLeads t → decodePoints t = some points → encode points = t := by
    intro t ht hdecode
    rw [← String.toList_inj, toList_of_split ht (split_of_decodePoints hlength hdecode), encode,
      String.toList_ofList]
  exact ⟨heq s hs h, fun t ht hdecode => (heq t ht hdecode).symm.trans (heq s hs h)⟩

theorem encode_decodePoints_mixed :
    decodePoints "3B_wwEcFeBIAeFHFaGFlsyCb" =
        some [0x33, 0x5E74, 0x42, 0x7D44, 0x91D1, 0x516B, 0x5148, 0x751F] ∧
      encode [0x33, 0x5E74, 0x42, 0x7D44, 0x91D1, 0x516B, 0x5148, 0x751F] =
        "3B_wwEcFeBIAeFHFaGFlsyCb" := by
  have hs : ¬DelimiterLeads "3B_wwEcFeBIAeFHFaGFlsyCb" := by
    rintro ⟨digits, h, -⟩
    cases h
  have h : decodePoints "3B_wwEcFeBIAeFHFaGFlsyCb" =
      some [0x33, 0x5E74, 0x42, 0x7D44, 0x91D1, 0x516B, 0x5148, 0x751F] := by
    decide +kernel
  exact ⟨h, (encode_decodePoints hs (by decide) h).1⟩

/-- **From 2^32 code points on, encoding need not undo decoding.** -/
theorem encode_decodePoints_cut :
    ¬DelimiterLeads (cutText (2 ^ 32)) ∧
      decodePoints (cutText (2 ^ 32)) = some (0x81 :: List.replicate (2 ^ 32) 0x61) ∧
      encode (0x81 :: List.replicate (2 ^ 32) 0x61) ≠ cutText (2 ^ 32) :=
  ⟨not_delimiterLeads_cutText (by decide), decodePoints_cutText (by decide),
    encode_ne_cutText (by decide)⟩

end Demangle.Punycode
