import Demangle.Proofs.Cursor.Ahead

/-!
# Scanning in any order

A scanner can be asked for thirteen `Action`s, also after some of them have failed or have left the cursor
inside a character. Whatever they are, the input stays (`Cursor.cells`), so the cursor is always a place
in it, and an action that fails does not move it (`Scan.Settled`). A text that is read stands in the input
between the old and the new place (`Spans`), because a place between two characters divides the input
into two texts:

    before ++ rest = ofString m → atBoundary rest → ∃ u v, m = u ++ v ∧ …        (Cell.split_ofString)
-/

namespace Demangle

/-! ## Actions -/

/-- What a scanner can be asked for. -/
inductive Action where
  | reset
  | next
  | acceptByte (b : UInt8)
  | acceptText (s : String)
  | expectByte (b : UInt8)
  | expectText (s : String)
  | expectWhere (p : UInt8 → Bool) (what : String)
  | take (n : Nat)
  | takeWhile (p : UInt8 → Bool)
  | back (n : Nat)
  | integer?
  | integer
  | remainder

/-- What a scanner answers. -/
inductive Answer where
  | done
  | flag (b : Bool)
  | byte (b : UInt8)
  | text (s : String)
  | number (n : Option UInt64)

/-- The step that an action is. -/
def Action.run : Action → Scan Answer
  | .reset => do
    Scan.reset
    return .done
  | .next => return .byte (← Scan.next)
  | .acceptByte b => return .flag (← Scan.acceptByte b)
  | .acceptText s => return .flag (← Scan.acceptText s)
  | .expectByte b => do
    Scan.expectByte b
    return .done
  | .expectText s => do
    Scan.expectText s
    return .done
  | .expectWhere p what => return .byte (← Scan.expectWhere p what)
  | .take n => return .text (← Scan.take n)
  | .takeWhile p => return .text (← Scan.takeWhile p)
  | .back n => do
    Scan.back n
    return .done
  | .integer? => return .number (← Scan.integer?)
  | .integer => return .number (some (← Scan.integer))
  | .remainder => return .text (← Scan.remainder)

/-! ## Places in an input -/

namespace Cursor

/-- The input that the place is in. -/
def cells (c : Cursor) : List Cell :=
  c.before.reverse ++ c.rest

theorem cells_retreat (c : Cursor) (n : Nat) : (c.retreat n).cells = c.cells := by
  simp only [cells, retreat]
  rw [← List.append_assoc, ← List.reverse_append, List.take_append_drop]

theorem cells_rewind (c : Cursor) : c.rewind.cells = c.cells := rfl

theorem Reaches.cells_eq {c d : Cursor} (h : c.Reaches d) : d.cells = c.cells := by
  obtain ⟨read, hbefore, hrest⟩ := h.before
  rw [cells, cells, hbefore, hrest, List.reverse_append, List.append_assoc]

theorem length_cells (c : Cursor) : c.cells.length = c.size := by
  simp [cells, size]

/-- A place lies in its input. -/
theorem position_le_size (c : Cursor) : c.position ≤ c.size :=
  Nat.le_add_right _ _

/-- The cursor after some actions, whether they succeed or fail. -/
def after (c : Cursor) (actions : List Action) : Cursor :=
  actions.foldl (fun c a => finalState (a.run c)) c

end Cursor

/-! ## Steps that fail in place -/

/-- A fault that a step can report which starts at the cursor: it lies there, or at a digit ahead if an
integer is too large. -/
def Cursor.Faults (c : Cursor) (f : Fault) : Prop :=
  if f.cause = .overflow then c.position ≤ f.position ∧ f.position + 1 < c.size
  else f.position = c.position

namespace Scan

variable {α β : Type}

/-- A step that keeps the input and does not move when it fails. -/
structure Settled (x : Scan α) : Prop where
  cells : ∀ c : Cursor, (finalState (x c)).cells = c.cells
  fault : ∀ {c : Cursor} {f : Fault} {d : Cursor}, x c = .error f d → d = c ∧ c.Faults f

/-- Only the answer is another one. -/
theorem Settled.answer {x : Scan α} (hx : Settled x) (f : α → β) :
    Settled (do return f (← x)) where
  cells c := by
    have h := hx.cells c
    rcases bind_cases x (fun a => pure (f a)) c with ⟨e, d, hc, hb⟩ | ⟨a, d, hc, hb⟩
    · rw [hc] at h
      rw [hb]
      exact h
    · rw [hc] at h
      rw [hb]
      exact h
  fault {c e d} h := by
    rcases bind_cases x (fun a => pure (f a)) c with ⟨e', d', hc, hb⟩ | ⟨a, d', hc, hb⟩
    · cases hb.symm.trans h
      exact hx.fault hc
    · cases hb.symm.trans h

/-- A step that never fails has nothing to say about faults. -/
theorem settled_of_ok {x : Scan α} (h : ∀ c, ∃ a d, x c = .ok a d ∧ d.cells = c.cells) :
    Settled x where
  cells c := by
    obtain ⟨a, d, hc, hd⟩ := h c
    rw [hc]
    exact hd
  fault {c f d} hf := by
    obtain ⟨a, d', hc, -⟩ := h c
    cases hc.symm.trans hf

/-- A step that looks ahead only keeps the input. -/
theorem settled_of_looksAhead {x : Scan α} [hx : LooksAhead x]
    (h : ∀ {c : Cursor} {f : Fault} {d : Cursor}, x c = .error f d → d = c ∧ c.Faults f) :
    Settled x where
  cells c := (hx.reaches c).cells_eq
  fault := h

theorem faults_here (c : Cursor) {cause : Cause} (h : cause ≠ .overflow) :
    c.Faults ⟨cause, c.position⟩ :=
  (if_neg h).mpr rfl

theorem acceptByte_cases (b : UInt8) (c : Cursor) :
    acceptByte b c = .ok true (c.advance 1) ∨ acceptByte b c = .ok false c := by
  unfold acceptByte
  split
  · split
    · exact .inl rfl
    · exact .inr rfl
  · exact .inr rfl

theorem acceptText_cases (s : String) (c : Cursor) :
    acceptText s c = .ok true (c.advance (s.toList.flatMap String.utf8EncodeChar).length) ∨
      acceptText s c = .ok false c := by
  simp only [acceptText]
  split
  · exact .inl rfl
  · exact .inr rfl

/-- What is expected and not there is reported at the cursor. -/
theorem settled_expecting {x : Scan Bool} {n : Nat} {what : String}
    (hx : ∀ c, x c = .ok true (c.advance n) ∨ x c = .ok false c) :
    Settled (do unless ← x do fail (.expected what)) := by
  have run (c : Cursor) : (do unless ← x do fail (.expected what) : Scan Unit) c =
      .ok () (c.advance n) ∨ (do unless ← x do fail (.expected what) : Scan Unit) c =
        .error ⟨.expected what, c.position⟩ c := by
    rcases hx c with h | h
    · exact .inl (bind_ok h _)
    · exact .inr (bind_ok h _)
  constructor
  · intro c
    rcases run c with h | h
    · rw [h]
      exact (c.reaches_advance n).cells_eq
    · rw [h]
      rfl
  · intro c f d hf
    rcases run c with h | h
    · cases h.symm.trans hf
    · cases h.symm.trans hf
      exact ⟨rfl, faults_here c nofun⟩

theorem settled_next : Settled next := by
  refine settled_of_looksAhead fun {c f d} h => ?_
  unfold next at h
  split at h <;> cases h
  exact ⟨rfl, faults_here c nofun⟩

theorem settled_expectWhere (p : UInt8 → Bool) (what : String) : Settled (expectWhere p what) := by
  refine settled_of_looksAhead fun {c f d} h => ?_
  unfold expectWhere at h
  split at h
  · split at h <;> cases h
    exact ⟨rfl, faults_here c nofun⟩
  · cases h
    exact ⟨rfl, faults_here c nofun⟩

theorem settled_take (n : Nat) : Settled (take n) := by
  refine settled_of_looksAhead fun {c f d} h => ?_
  unfold take at h
  split at h
  · cases h
    exact ⟨rfl, faults_here c nofun⟩
  · split at h <;> cases h
    exact ⟨rfl, faults_here c nofun⟩

/-- An integer that is too large is reported at one of its digits, none of which is the last byte. -/
theorem integer?_fault {c d : Cursor} {f : Fault} (h : integer? c = .error f d) :
    d = c ∧ c.Faults f := by
  unfold integer? at h
  cases hrun : digitRun c.rest with
  | nil =>
    rw [hrun] at h
    cases h
  | cons x xs =>
    have hlt := digitRun_length_lt (r := c.rest) (hrun ▸ List.cons_ne_nil x xs)
    rw [hrun] at h hlt
    dsimp only at h
    split at h
    · cases h
    · next i hi =>
      cases h
      have hdigit := decimal_error_lt hi
      refine ⟨rfl, (if_pos rfl).mpr ⟨Nat.le_add_right _ _, ?_⟩⟩
      show c.before.length + i + 1 < c.before.length + c.rest.length
      omega

theorem integer?_none_stays {c d : Cursor} (h : integer? c = .ok none d) : d = c := by
  unfold integer? at h
  split at h
  · cases h
    rfl
  · split at h <;> cases h

theorem settled_integer : Settled integer := by
  refine settled_of_looksAhead fun {c f d} h => ?_
  rcases bind_cases integer? _ c with ⟨e, d', hc, hb⟩ | ⟨n, d', hc, hb⟩
  · cases hb.symm.trans h
    exact integer?_fault hc
  · cases n with
    | some n => cases hb.symm.trans h
    | none =>
      obtain rfl := integer?_none_stays hc
      cases hb.symm.trans h
      exact ⟨rfl, faults_here _ nofun⟩

/-- Every action keeps the input and fails in place. -/
theorem settled_run (a : Action) : Settled a.run := by
  cases a with
  | reset => exact (settled_of_ok fun c => ⟨_, _, rfl, c.cells_rewind⟩).answer _
  | next => exact settled_next.answer _
  | acceptByte b =>
    refine (settled_of_looksAhead fun {c f d} h => ?_).answer _
    rcases acceptByte_cases b c with hc | hc <;> cases hc.symm.trans h
  | acceptText s =>
    refine (settled_of_looksAhead fun {c f d} h => ?_).answer _
    rcases acceptText_cases s c with hc | hc <;> cases hc.symm.trans h
  | expectByte b => exact (settled_expecting (acceptByte_cases b)).answer _
  | expectText s => exact (settled_expecting (acceptText_cases s)).answer _
  | expectWhere p what => exact (settled_expectWhere p what).answer _
  | take n => exact (settled_take n).answer _
  | takeWhile p =>
    exact (settled_of_ok fun c => ⟨_, _, rfl, (c.reaches_advance _).cells_eq⟩).answer _
  | back n => exact (settled_of_ok fun c => ⟨_, _, rfl, c.cells_retreat _⟩).answer _
  | integer? => exact (settled_of_looksAhead integer?_fault).answer _
  | integer => exact settled_integer.answer _
  | remainder =>
    exact (settled_of_ok fun c => ⟨_, _, rfl, (c.reaches_advance _).cells_eq⟩).answer _

/-- Any actions keep the input. -/
theorem cells_after (actions : List Action) (c : Cursor) : (c.after actions).cells = c.cells := by
  induction actions generalizing c with
  | nil => rfl
  | cons a actions ih => exact (ih _).trans ((settled_run a).cells c)

end Scan

/-! ## Texts in an input -/

/-- The text `t` stands in `m` from the byte `i` up to the byte `j`. -/
def Spans (m t : String) (i j : Nat) : Prop :=
  ∃ u v, m = u ++ t ++ v ∧ u.utf8ByteSize = i ∧ (u ++ t).utf8ByteSize = j

/-- In front of the byte `i` lies a whole number of characters. -/
def IsCharBoundary (m : String) (i : Nat) : Prop :=
  ∃ u v, m = u ++ v ∧ u.utf8ByteSize = i

namespace Cell

theorem begins_of_mem_tail {c : Char} {x : Cell} (h : x ∈ (ofChar c).tail) : x.begins = none := by
  obtain ⟨b, bs, -, ho⟩ := ofChar_eq c
  rw [ho, List.tail_cons] at h
  obtain ⟨b', -, rfl⟩ := List.mem_map.mp h
  rfl

/-- A place between two characters divides a list of characters. -/
theorem split_chars {rest : List Cell} (hrest : atBoundary rest = true) :
    ∀ {cs : List Char} {before : List Cell}, before ++ rest = cs.flatMap ofChar →
      ∃ us vs, cs = us ++ vs ∧ us.flatMap ofChar = before ∧ vs.flatMap ofChar = rest := by
  intro cs
  induction cs with
  | nil =>
    intro before h
    obtain ⟨rfl, rfl⟩ := List.append_eq_nil_iff.mp h
    exact ⟨[], [], rfl, rfl, rfl⟩
  | cons c cs ih =>
    intro before h
    rw [List.flatMap_cons] at h
    rcases List.append_eq_append_iff.mp h with ⟨more, hc, hmore⟩ | ⟨before', rfl, hcs⟩
    · -- the place lies in front of the character, inside it or behind it
      cases before with
      | nil => exact ⟨[], c :: cs, rfl, rfl, h.symm⟩
      | cons x before =>
        cases more with
        | nil =>
          rw [List.append_nil] at hc
          exact ⟨[c], cs, rfl, by rw [List.flatMap_singleton, hc], hmore.symm⟩
        | cons y more =>
          have hy : y ∈ (ofChar c).tail := by
            rw [hc]
            simp
          rw [hmore, List.cons_append, atBoundary, begins_of_mem_tail hy] at hrest
          cases hrest
    · obtain ⟨us, vs, rfl, hus, hvs⟩ := ih hcs.symm
      exact ⟨c :: us, vs, rfl, by rw [List.flatMap_cons, hus], hvs⟩

/-- **A place between two characters divides a text.** -/
theorem split_ofString {m : String} {before rest : List Cell} (h : before ++ rest = ofString m)
    (hrest : atBoundary rest = true) :
    ∃ u v, m = u ++ v ∧ ofString u = before ∧ ofString v = rest := by
  obtain ⟨us, vs, hm, hus, hvs⟩ := split_chars hrest h
  refine ⟨String.ofList us, String.ofList vs, ?_, ?_, ?_⟩
  · apply String.toList_inj.mp
    rw [String.toList_append, String.toList_ofList, String.toList_ofList, hm]
  · rw [ofString, String.toList_ofList, hus]
  · rw [ofString, String.toList_ofList, hvs]

theorem atBoundary_ofString (m : String) : atBoundary (ofString m) = true := by
  rw [← List.append_nil (ofString m)]
  exact atBoundary_append m rfl

end Cell

namespace Scan

variable {m : String} {c : Cursor}

theorem position_eq_of_before {u : String} (h : Cell.ofString u = c.before.reverse) :
    u.utf8ByteSize = c.position := by
  rw [← Cell.length_ofString, h, List.length_reverse]
  rfl

/-- What is read by its size stands in the input. -/
theorem take_spans (hc : c.cells = Cell.ofString m) {n : Nat} {t : String} {d : Cursor}
    (h : take n c = .ok t d) : Spans m t c.position d.position := by
  obtain ⟨-, hstart, hend, rfl, rfl⟩ := take_eq_ok h
  obtain ⟨u, w, rfl, hu, hw⟩ := Cell.split_ofString hc hstart
  rw [← List.take_append_drop n c.rest] at hw
  obtain ⟨t, v, rfl, ht, -⟩ := Cell.split_ofString hw.symm hend
  rw [← ht, Cell.text_ofString]
  refine ⟨u, v, (String.append_assoc ..).symm, position_eq_of_before hu, position_eq_of_before ?_⟩
  rw [Cell.ofString_append, hu, ht]
  simp [Cursor.advance]

/-- From a place between two characters all that is left is read. -/
theorem remainder_spans (hc : c.cells = Cell.ofString m) (hb : IsCharBoundary m c.position) :
    ∃ t d, remainder c = .ok t d ∧ Spans m t c.position d.position ∧
      d.position = m.utf8ByteSize := by
  obtain ⟨u, v, rfl, hu⟩ := hb
  have hcells : c.before.reverse ++ c.rest = Cell.ofString u ++ Cell.ofString v :=
    hc.trans (Cell.ofString_append u v)
  have hlength : c.before.reverse.length = (Cell.ofString u).length := by
    rw [Cell.length_ofString, hu, List.length_reverse]
    rfl
  obtain ⟨-, hrest⟩ := List.append_inj hcells hlength
  have hend : (c.advance c.rest.length).position = (u ++ v).utf8ByteSize := by
    rw [← Cell.length_ofString, ← hc, Cursor.cells]
    simp [Cursor.position, Cursor.advance, Nat.add_comm]
  refine ⟨v, c.advance c.rest.length, ?_, ⟨u, "", ?_, hu, hend.symm⟩, hend⟩
  · unfold remainder
    rw [hrest, Cell.atBoundary_ofString, if_pos rfl, Cell.text_ofString]
  · rw [String.append_empty]

end Scan

/-- **Scanning stays in the input and fails in place.** Whatever actions came before, the cursor is a place
in the input; an action that fails does not move it and reports it, or a digit that is not the last byte
if an integer is too large; and a text that was read is what stands between the old and the new place. -/
theorem scanner_in_bounds (m : String) (earlier : List Action) :
    let c := (Cursor.ofString m).after earlier
    c.position ≤ m.utf8ByteSize ∧
      (∀ (a : Action) (f : Fault) (d : Cursor), a.run c = .error f d →
        d = c ∧
          if f.cause = .overflow then c.position ≤ f.position ∧ f.position + 1 < m.utf8ByteSize
          else f.position = c.position) ∧
      (∀ (n : Nat) (text : String) (d : Cursor), (Action.take n).run c = .ok (.text text) d →
        Spans m text c.position d.position) ∧
      (IsCharBoundary m c.position → ∃ (text : String) (d : Cursor),
        Action.remainder.run c = .ok (.text text) d ∧ Spans m text c.position d.position ∧
          d.position = m.utf8ByteSize) := by
  intro c
  have hcells : c.cells = Cell.ofString m := Scan.cells_after earlier (.ofString m)
  have hsize : c.size = m.utf8ByteSize := by
    rw [← c.length_cells, hcells, Cell.length_ofString]
  refine ⟨hsize ▸ c.position_le_size, fun a f d h => ?_, fun n text d h => ?_, fun hb => ?_⟩
  · rw [← hsize]
    exact (Scan.settled_run a).fault h
  · obtain ⟨t, d', ht, h⟩ := bind_eq_ok h
    cases h
    exact Scan.take_spans hcells ht
  · obtain ⟨t, d, h, hspans⟩ := Scan.remainder_spans hcells hb
    exact ⟨t, d, bind_ok h _, hspans⟩

/-- Inside a character no text can be read, and in front of it the character can. -/
theorem scanner_in_bounds_euro :
    (∃ (c d : Cursor) (f : Fault), c = (Cursor.ofString "a€b").after [.next, .acceptByte 0xe2] ∧
      (Action.take 2).run c = .error f d ∧ f.cause = .malformed ∧ d = c ∧ f.position = c.position) ∧
    (∃ (c d : Cursor), c = (Cursor.ofString "a€b").after [.next, .integer] ∧
      (Action.take 3).run c = .ok (.text "€") d ∧ Spans "a€b" "€" c.position d.position) ∧
    ∃ (c d : Cursor) (t : String), c = (Cursor.ofString "a€b").after [.take 4] ∧
      Action.remainder.run c = .ok (.text t) d ∧ Spans "a€b" t c.position d.position := by
  refine ⟨?_, ?_, ?_⟩
  · obtain ⟨-, stays, -⟩ := scanner_in_bounds "a€b" [.next, .acceptByte 0xe2]
    have hcause : (match (Action.take 2).run ((Cursor.ofString "a€b").after
        [.next, .acceptByte 0xe2]) with
      | .ok _ _ => none
      | .error f _ => some f.cause) = some .malformed := by decide +kernel
    cases h : (Action.take 2).run ((Cursor.ofString "a€b").after [.next, .acceptByte 0xe2]) with
    | ok a d =>
      rw [h] at hcause
      cases hcause
    | error f d =>
      rw [h] at hcause
      have hf := Option.some.inj hcause
      obtain ⟨hd, hposition⟩ := stays _ _ _ h
      rw [if_neg (by rw [hf]; nofun)] at hposition
      exact ⟨_, d, f, rfl, h, hf, hd, hposition⟩
  · obtain ⟨-, -, taken, -⟩ := scanner_in_bounds "a€b" [.next, .integer]
    have h : (Action.take 3).run ((Cursor.ofString "a€b").after [.next, .integer]) =
      .ok (.text "€") ((Cursor.ofString "a€b").advance 4) := by rfl
    exact ⟨_, _, rfl, h, taken _ _ _ h⟩
  · obtain ⟨-, -, -, left⟩ := scanner_in_bounds "a€b" [.take 4]
    obtain ⟨t, d, h, hspans, -⟩ := left ⟨"a€", "b", by decide, by decide +kernel⟩
    exact ⟨_, d, t, rfl, h, hspans⟩

end Demangle
