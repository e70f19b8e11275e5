import Demangle.Proofs.Starts

/-!
# Where names are refused

A name is refused at a place inside it. The six starts of a name are six texts of ASCII, none of them the
beginning of another one, so a name has one start at most. Without one it is refused at its first byte;
behind its start the steps of decoding look ahead only, so it is refused there or further on.

    decode m = .error f,  m = start ++ rest      start.utf8ByteSize ≤ f.position ≤ m.utf8ByteSize
-/

namespace Demangle

open Decode

/-- All starts of a name. -/
def knownStarts : List String :=
  ["_Tt", "_T0", "$S", "_$S", "$s", "_$s"]

/-! ## The start of a name -/

theorem prefix_iff_append {a m : String} : a.toList <+: m.toList ↔ ∃ rest, m = a ++ rest := by
  constructor
  · rintro ⟨rest, hrest⟩
    refine ⟨String.ofList rest, String.toList_inj.mp ?_⟩
    rw [String.toList_append, String.toList_ofList, hrest]
  · rintro ⟨rest, rfl⟩
    rw [String.toList_append]
    exact List.prefix_append _ _

theorem ascii_knownStarts {start : String} (h : start ∈ knownStarts) :
    ∀ c ∈ start.toList, c.toNat < 0x80 := by
  have hall : ∀ start ∈ knownStarts, start.toList.all (·.toNat < 0x80) = true := by decide
  intro c hc
  exact of_decide_eq_true (List.all_eq_true.mp (hall start h) c hc)

theorem known_of_mem_starts : ∀ e ∈ starts, e.1 ∈ knownStarts := by
  decide

theorem mem_starts_of_known :
    ∀ start ∈ knownStarts, start = "_Tt" ∨ ∃ e ∈ starts, e.1 = start := by
  decide

/-- No start begins another one. -/
theorem knownStarts_apart :
    ∀ a ∈ knownStarts, ∀ b ∈ knownStarts, a.toList <+: b.toList → a = b := by
  decide

/-- A name has one start at most. -/
theorem start_unique {m a b : String} (ha : a ∈ knownStarts) (hb : b ∈ knownStarts)
    (hma : a.toList <+: m.toList) (hmb : b.toList <+: m.toList) : a = b := by
  rcases List.prefix_or_prefix_of_prefix hma hmb with h | h
  · exact knownStarts_apart a ha b hb h
  · exact (knownStarts_apart b hb a ha h).symm

/-- A start is read if the name has it. -/
theorem acceptText_start {m start : String} (h : start ∈ knownStarts) :
    (start.toList <+: m.toList ∧ Scan.acceptText start (.ofString m) =
        .ok true ((Cursor.ofString m).advance start.utf8ByteSize)) ∨
      (¬start.toList <+: m.toList ∧
        Scan.acceptText start (.ofString m) = .ok false (.ofString m)) := by
  by_cases hm : start.toList <+: m.toList
  · obtain ⟨rest, rfl⟩ := prefix_iff_append.mp hm
    have hcells : (Cursor.ofString (start ++ rest)).rest = Cell.ofString start ++ Cell.ofString rest :=
      Cell.ofString_append start rest
    have hne : start ≠ "" := by
      rintro rfl
      revert h
      decide
    rw [← Cell.length_ofString]
    exact .inl ⟨hm, Scan.acceptText_hit hne hcells⟩
  · refine .inr ⟨hm, Scan.acceptText_miss fun hbytes => hm ?_⟩
    apply Cell.prefix_of_bytes (ascii_knownStarts h)
    rw [← Cell.map_byte_ofString m, ← hbytes]
    exact (List.take_prefix _ _).map _

/-- The first start that a name has is read, or none of them. -/
theorem readStart_cases {m : String} {texts : List (String × Bool)} :
    (∀ e ∈ texts, e.1 ∈ knownStarts) →
    (∃ e ∈ texts, e.1.toList <+: m.toList ∧ readStart texts (.ofString m) =
        .ok () { State.ofString m with
          cursor := (Cursor.ofString m).advance e.1.utf8ByteSize, legacyLabels := e.2 }) ∨
      ((∀ e ∈ texts, ¬e.1.toList <+: m.toList) ∧
        readStart texts (.ofString m) = .error ⟨.malformed, 0⟩ (.ofString m)) := by
  induction texts with
  | nil => exact fun _ => .inr ⟨nofun, rfl⟩
  | cons e texts ih =>
    intro htexts
    obtain ⟨text, legacy⟩ := e
    rcases acceptText_start (m := m) (htexts _ List.mem_cons_self) with ⟨hm, hread⟩ | ⟨hm, hread⟩
    · exact .inl ⟨_, List.mem_cons_self, hm, bind_ok (lift_ok (s := .ofString m) hread) _⟩
    · have hskip : readStart ((text, legacy) :: texts) (.ofString m) =
          readStart texts (.ofString m) := bind_ok (lift_ok (s := .ofString m) hread) _
      rw [hskip]
      rcases ih fun e' he' => htexts e' (List.mem_cons_of_mem _ he') with
        ⟨e', he', h⟩ | ⟨hnone, h⟩
      · exact .inl ⟨e', List.mem_cons_of_mem _ he', h⟩
      · exact .inr ⟨List.forall_mem_cons.mpr ⟨hm, hnone⟩, h⟩

/-! ## What comes after it -/

instance looksAhead_bridgedModule : LooksAhead bridgedModule := by
  have := pops_identifier.toLooksAhead
  unfold bridgedModule
  infer_instance

instance looksAhead_bridgedType : LooksAhead bridgedType := by
  have := pops_identifier.toLooksAhead
  unfold bridgedType
  refine LooksAhead.then fun isClass => ?_
  dsimp only
  split
  all_goals
    refine LooksAhead.then fun isProtocol => ?_
    split
    · exact LooksAhead.then fun declaredIn => LooksAhead.then fun name => inferInstance
    · exact LooksAhead.then fun _ => LooksAhead.then fun declaredIn => LooksAhead.then fun name =>
        inferInstance

/-- A step behind the start of a name fails there or further on. -/
theorem fault_behind_start {x : Decode Symbol} [hx : LooksAhead x] {m start : String} {legacy : Bool}
    {f : Fault} {s : State} (hm : start.toList <+: m.toList)
    (h : x { State.ofString m with
      cursor := (Cursor.ofString m).advance start.utf8ByteSize, legacyLabels := legacy } =
        .error f s) :
    start.utf8ByteSize ≤ f.position ∧ f.position ≤ m.utf8ByteSize := by
  have hsize : ((Cursor.ofString m).advance start.utf8ByteSize).size = m.utf8ByteSize := by
    rw [(Cursor.reaches_advance _ _).size_eq, ← Cell.length_ofString]
    exact Nat.zero_add _
  have hle : start.utf8ByteSize ≤ m.utf8ByteSize := by
    obtain ⟨rest, rfl⟩ := prefix_iff_append.mp hm
    rw [String.utf8ByteSize_append]
    exact Nat.le_add_right _ _
  have hposition : ((Cursor.ofString m).advance start.utf8ByteSize).position =
      start.utf8ByteSize := by
    rw [← Cell.length_ofString m] at hle
    simp only [Cursor.position, Cursor.advance, Cursor.ofString, List.append_nil,
      List.length_reverse, List.length_take]
    omega
  exact ⟨hposition ▸ hx.position_le h, hsize ▸ hx.within h⟩

/-- A refused name has a start and is refused behind it, or has none and is refused at its first byte. -/
theorem symbol_fault {m : String} {f : Fault} {s : State} (h : symbol (.ofString m) = .error f s) :
    (∃ start ∈ knownStarts, start.toList <+: m.toList ∧
        start.utf8ByteSize ≤ f.position ∧ f.position ≤ m.utf8ByteSize) ∨
      ((∀ start ∈ knownStarts, ¬start.toList <+: m.toList) ∧ f = ⟨.malformed, 0⟩) := by
  have hbridged : "_Tt" ∈ knownStarts := by decide
  unfold symbol at h
  rcases acceptText_start (m := m) hbridged with ⟨hm, hread⟩ | ⟨hm, hread⟩
  · rw [bind_ok (lift_ok (s := .ofString m) hread)] at h
    exact .inl ⟨"_Tt", hbridged, hm, fault_behind_start (x := bridgedType) hm h⟩
  · rw [bind_ok (lift_ok (s := .ofString m) hread)] at h
    rcases readStart_cases (m := m) known_of_mem_starts with ⟨e, he, hm', hstart⟩ | ⟨hnone, hstart⟩
    · have hafter : afterStart _ = .error f s := (bind_ok hstart _).symm.trans h
      exact .inl ⟨e.1, known_of_mem_starts e he, hm', fault_behind_start hm' hafter⟩
    · have hfault : EStateM.Result.error _ _ = .error f s := (bind_error hstart _).symm.trans h
      cases hfault
      refine .inr ⟨fun start hstart => ?_, rfl⟩
      rcases mem_starts_of_known start hstart with rfl | ⟨e, he, rfl⟩
      · exact hm
      · exact hnone e he

/-- **A name is refused inside it, behind its start, and at its first byte if it has none.** -/
theorem decode_fault_position {m : String} {f : Fault} (h : decode m = .error f) :
    f.position ≤ m.utf8ByteSize ∧
      ((∀ start ∈ knownStarts, ∀ rest, m ≠ start ++ rest) → f = ⟨.malformed, 0⟩) ∧
      ∀ start ∈ knownStarts, ∀ rest, m = start ++ rest → start.utf8ByteSize ≤ f.position := by
  obtain ⟨s, hs⟩ : ∃ s, symbol (.ofString m) = .error f s := by
    unfold decode at h
    split at h
    · cases h
    · next f' s hs =>
      cases h
      exact ⟨s, hs⟩
  rcases symbol_fault hs with ⟨start, hstart, hm, hle, hsize⟩ | ⟨hnone, rfl⟩
  · refine ⟨hsize, fun hno => ?_, fun start' hstart' rest hrest => ?_⟩
    · obtain ⟨rest, hrest⟩ := prefix_iff_append.mp hm
      exact absurd hrest (hno start hstart rest)
    · obtain rfl := start_unique hstart' hstart (prefix_iff_append.mpr ⟨rest, hrest⟩) hm
      exact hle
  · refine ⟨Nat.zero_le _, fun _ => rfl, fun start hstart rest hrest => ?_⟩
    exact absurd (prefix_iff_append.mpr ⟨rest, hrest⟩) (hnone start hstart)

/-- An integer that is too large is refused at a digit of it. -/
theorem decode_fault_position_overflow : ∃ f : Fault,
    decode "_$s18446744073709551616x" = .error f ∧ f.cause = .overflow ∧ f.position ≤ 24 ∧
      3 ≤ f.position := by
  have hm : (match decode "_$s18446744073709551616x" with
      | .ok _ => none
      | .error f => some f.cause) = some .overflow := by decide +kernel
  cases h : decode "_$s18446744073709551616x" with
  | ok t =>
    rw [h] at hm
    cases hm
  | error f =>
    rw [h] at hm
    obtain ⟨hsize, -, hstart⟩ := decode_fault_position h
    exact ⟨f, rfl, Option.some.inj hm, hsize,
      hstart "_$s" (by decide) "18446744073709551616x" (by decide)⟩

end Demangle
