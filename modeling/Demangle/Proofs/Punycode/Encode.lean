import Demangle.Proofs.Punycode.Insertion

/-!
# Encoding

The encoder of the bootstring coding. It copies the code points of ASCII and then handles the others by
their values, from the least one on, and equal ones from left to right. Each round looks for the least value
`m` that is left, goes through the whole list and counts the places that decoding passes on its way: those of
code points below `m`. Where it meets `m`, it writes the number of places passed since the last insertion.

At every step the numbers written so far take decoding to the code points that are handled, at the place
that the encoder has reached (`Follows`). So in the end they make up the list:

    (start.putAll (deltas points)).points = points            (putAll_deltas)
-/

namespace Demangle.Punycode

/-! ## Algorithm -/

/-- Where encoding stands. All numbers are unbounded. -/
structure Encoder where
  /-- The number of code points of ASCII. -/
  basic : Nat
  /-- The number of code points that are handled. -/
  handled : Nat := basic
  /-- The number of places passed since the last insertion. -/
  delta : Nat := 0
  bias : Nat := 72
  /-- The numbers written so far. -/
  deltas : List Nat := []
  /-- The digits of these numbers. -/
  digits : List Char := []

namespace Encoder

/-- Writes the number of places passed and adapts the bias. -/
def write (e : Encoder) : Encoder where
  basic := e.basic
  handled := e.handled + 1
  delta := 0
  bias := adapt e.delta (e.handled + 1) (e.handled == e.basic)
  deltas := e.deltas ++ [e.delta]
  digits := e.digits ++ writeNumber e.bias base e.delta

/-- Goes past a code point of the list while those equal to `n` are handled. -/
def scan (n : Nat) (e : Encoder) (c : Nat) : Encoder :=
  if c < n then { e with delta := e.delta + 1 } else if c = n then e.write else e

/-- Handles all code points equal to `m`, none being left that are at least `n` and below `m`. -/
def round (points : List Nat) (n m : Nat) (e : Encoder) : Encoder :=
  let e := points.foldl (scan m) { e with delta := e.delta + (m - n) * (e.handled + 1) }
  { e with delta := e.delta + 1 }

theorem left_shrinks {points : List Nat} {n m : Nat}
    (h : (points.filter (n ≤ ·)).min? = some m) :
    (points.filter (m + 1 ≤ ·)).length < (points.filter (n ≤ ·)).length := by
  obtain ⟨hmem, -⟩ := List.min?_eq_some_iff.mp h
  obtain ⟨hmem, hle⟩ := List.mem_filter.mp hmem
  have hn : n ≤ m := of_decide_eq_true hle
  have hsub : points.filter (m + 1 ≤ ·) = (points.filter (n ≤ ·)).filter (m + 1 ≤ ·) := by
    rw [List.filter_filter]
    refine List.filter_congr fun p _ => ?_
    rw [eq_comm, Bool.and_eq_left_iff_imp]
    simp only [decide_eq_true_eq]
    omega
  rw [hsub]
  refine List.length_filter_lt_length_iff_exists.mpr ⟨m, List.mem_filter.mpr ⟨hmem, hle⟩, ?_⟩
  simp

/-- Handles all code points that are at least `n`. -/
def rounds (points : List Nat) (n : Nat) (e : Encoder) : Encoder :=
  match h : (points.filter (n ≤ ·)).min? with
  | none => e
  | some m => rounds points (m + 1) (e.round points n m)
termination_by (points.filter (n ≤ ·)).length
decreasing_by exact left_shrinks h

/-- Handles all code points. -/
def run (points : List Nat) : Encoder :=
  rounds points 0x80 { basic := (points.filter (· < 0x80)).length }

end Encoder

/-- The numbers that are written for a list of code points. -/
def deltas (points : List Nat) : List Nat :=
  (Encoder.run points).deltas

/-- The Punycode of a list of code points: those of ASCII with a delimiter behind them, if there are any,
and the digits of the numbers. -/
def encode (points : List Nat) : String :=
  let literal := (points.filter (· < 0x80)).map Char.ofNat
  String.ofList (literal ++ (if literal.isEmpty then [] else ['_']) ++ (Encoder.run points).digits)

/-! ## Decoding follows encoding -/

/-- The insertion at a place that is known. -/
theorem State.put_place {st : State} {delta n : Nat} {front back : List Nat}
    (hpoints : st.points = front ++ back)
    (h : st.n * (st.points.length + 1) + (st.i + delta) =
      n * (st.points.length + 1) + front.length) :
    (st.put delta).points = front ++ n :: back ∧ (st.put delta).n = n ∧
      (st.put delta).i = front.length + 1 := by
  have hfront : front.length < st.points.length + 1 := by
    rw [hpoints, List.length_append]
    omega
  have hle : st.n ≤ n := by
    refine Nat.le_of_lt_succ (Nat.lt_of_mul_lt_mul_right (a := st.points.length + 1) ?_)
    rw [Nat.succ_mul]
    omega
  have hplaces : st.i + delta = front.length + (n - st.n) * (st.points.length + 1) := by
    have hsplit : n * (st.points.length + 1) =
        (n - st.n) * (st.points.length + 1) + st.n * (st.points.length + 1) := by
      rw [← Nat.add_mul, Nat.sub_add_cancel hle]
    omega
  have hdiv : st.n + (st.i + delta) / (st.points.length + 1) = n := by
    rw [hplaces, Nat.add_mul_div_right _ _ (Nat.succ_pos _), Nat.div_eq_of_lt hfront]
    omega
  have hmod : (st.i + delta) % (st.points.length + 1) = front.length := by
    rw [hplaces, Nat.add_mul_mod_self_right, Nat.mod_eq_of_lt hfront]
  refine ⟨?_, hdiv, congrArg (· + 1) hmod⟩
  show st.points.insertIdx _ _ = _
  rw [hmod, hdiv, hpoints, insertIdx_append]

/-- Decoding has followed the encoder to the point where it handles the value `n`, with the code points
`passed` behind it and those `ahead` before it. -/
structure Follows (start : State) (n : Nat) (passed ahead : List Nat) (e : Encoder) : Prop where
  digits : e.digits = start.spell e.deltas
  bias : e.bias = (start.putAll e.deltas).bias
  /-- What is handled are the code points below `n` and those equal to it that were passed. -/
  points : (start.putAll e.deltas).points = passed.filter (· ≤ n) ++ ahead.filter (· < n)
  handled : e.handled = (start.putAll e.deltas).points.length
  /-- The two signs of the first insertion agree: nothing is handled yet, and the index is 0. -/
  first : (e.handled == e.basic) = ((start.putAll e.deltas).i == 0)
  basic : e.basic ≤ e.handled
  /-- The places passed are those from the last insertion to the place that is reached. -/
  places : (start.putAll e.deltas).n * (e.handled + 1) + ((start.putAll e.deltas).i + e.delta) =
    n * (e.handled + 1) + (passed.filter (· ≤ n)).length

namespace Follows

variable {start : State} {n m : Nat} {passed ahead points : List Nat} {e : Encoder}

/-- A code point below `n` is a place to go past. -/
theorem pass {c : Nat} (h : Follows start n passed (c :: ahead) e) (hc : c < n) :
    Follows start n (passed ++ [c]) ahead { e with delta := e.delta + 1 } := by
  have hfilter : (passed ++ [c]).filter (· ≤ n) = passed.filter (· ≤ n) ++ [c] := by
    rw [List.filter_append, List.filter_cons_of_pos (by simpa using Nat.le_of_lt hc)]
    rfl
  refine { h with points := ?_, places := ?_ }
  · rw [hfilter, h.points, List.filter_cons_of_pos (by simpa using hc), List.append_assoc]
    rfl
  · have := h.places
    rw [hfilter, List.length_append, List.length_singleton]
    dsimp only
    omega

/-- At a code point equal to `n`, decoding makes the insertion that is written. -/
theorem hit (h : Follows start n passed (n :: ahead) e) :
    Follows start n (passed ++ [n]) ahead e.write := by
  have hpoints := h.points
  have hplaces := h.places
  rw [List.filter_cons_of_neg (by simp)] at hpoints
  rw [h.handled] at hplaces
  obtain ⟨hput, hn, hi⟩ := State.put_place hpoints hplaces
  have hall : start.putAll e.write.deltas = (start.putAll e.deltas).put e.delta :=
    State.putAll_concat ..
  have hfilter : (passed ++ [n]).filter (· ≤ n) = passed.filter (· ≤ n) ++ [n] := by
    rw [List.filter_append, List.filter_cons_of_pos (by simp)]
    rfl
  have hlength : e.write.handled = (start.putAll e.write.deltas).points.length := by
    rw [hall, State.length_put, ← h.handled]
    rfl
  refine ⟨?_, ?_, ?_, hlength, ?_, Nat.le_succ_of_le h.basic, ?_⟩
  · show e.digits ++ writeNumber e.bias base e.delta = start.spell (e.deltas ++ [e.delta])
    rw [State.spell_concat, h.digits, h.bias]
  · rw [hall]
    show adapt e.delta (e.handled + 1) (e.handled == e.basic) = _
    rw [h.first, h.handled]
    rfl
  · rw [hall, hput, hfilter, List.append_assoc]
    rfl
  · rw [hall, hi]
    have hlater : e.handled + 1 ≠ e.basic := by
      have := h.basic
      omega
    exact (beq_eq_false_iff_ne.mpr hlater).trans (beq_eq_false_iff_ne.mpr (Nat.succ_ne_zero _)).symm
  · rw [hall, hn, hi, hfilter, List.length_append]
    rfl

/-- A code point above `n` is not there yet. -/
theorem skip {c : Nat} (h : Follows start n passed (c :: ahead) e) (hc : n < c) :
    Follows start n (passed ++ [c]) ahead e := by
  have hfilter : (passed ++ [c]).filter (· ≤ n) = passed.filter (· ≤ n) := by
    rw [List.filter_append, List.filter_cons_of_neg (by simpa using hc)]
    exact List.append_nil _
  refine { h with points := ?_, places := ?_ }
  · rw [hfilter, h.points, List.filter_cons_of_neg (by simpa using Nat.le_of_lt hc)]
  · rw [hfilter]
    exact h.places

theorem scan {c : Nat} (h : Follows start n passed (c :: ahead) e) :
    Follows start n (passed ++ [c]) ahead (e.scan n c) := by
  unfold Encoder.scan
  split
  · next hc => exact h.pass hc
  · split
    · next hc =>
      subst hc
      exact h.hit
    · next hlow heq => exact h.skip (by omega)

theorem scanAll : ∀ {passed : List Nat} {e : Encoder}, Follows start n passed ahead e →
    Follows start n (passed ++ ahead) [] (ahead.foldl (Encoder.scan n) e) := by
  induction ahead with
  | nil =>
    intro passed e h
    rwa [List.append_nil]
  | cons c ahead ih =>
    intro passed e h
    have hnext := ih h.scan
    rwa [List.append_assoc] at hnext

/-- The places of values that do not occur are passed all at once. -/
theorem jump (h : Follows start n [] points e) (hn : n ≤ m) (hgap : ∀ p ∈ points, p < m → p < n) :
    Follows start m [] points { e with delta := e.delta + (m - n) * (e.handled + 1) } := by
  refine { h with points := ?_, places := ?_ }
  · rw [h.points]
    refine List.filter_congr fun p hp => decide_eq_decide.mpr ⟨fun hlt => ?_, hgap p hp⟩
    omega
  · have hplaces := h.places
    have hsplit : m * (e.handled + 1) = (m - n) * (e.handled + 1) + n * (e.handled + 1) := by
      rw [← Nat.add_mul, Nat.sub_add_cancel hn]
    dsimp only [List.filter_nil, List.length_nil] at hplaces ⊢
    omega

/-- At the end of the list the next value begins. -/
theorem turn (h : Follows start n points [] e) :
    Follows start (n + 1) [] points { e with delta := e.delta + 1 } := by
  have hpoints := h.points
  rw [List.filter_nil, List.append_nil] at hpoints
  have hlength := h.handled
  rw [hpoints] at hlength
  refine { h with points := ?_, places := ?_ }
  · rw [hpoints]
    exact List.filter_congr fun p _ => decide_eq_decide.mpr Nat.lt_succ_iff.symm
  · have hplaces := h.places
    rw [List.filter_nil, List.length_nil, Nat.succ_mul]
    dsimp only
    omega

theorem round (h : Follows start n [] points e)
    (hm : (points.filter (n ≤ ·)).min? = some m) :
    Follows start (m + 1) [] points (e.round points n m) := by
  obtain ⟨hmem, hleast⟩ := List.min?_eq_some_iff.mp hm
  have hn : n ≤ m := of_decide_eq_true (List.mem_filter.mp hmem).2
  have hgap : ∀ p ∈ points, p < m → p < n := by
    intro p hp hlt
    by_contra hle
    have := hleast p (List.mem_filter.mpr ⟨hp, decide_eq_true (Nat.le_of_not_lt hle)⟩)
    omega
  exact (h.jump hn hgap).scanAll.turn

/-- When no code point is left, decoding has them all. -/
theorem rounds (h : Follows start n [] points e) :
    (e.rounds points n).digits = start.spell (e.rounds points n).deltas ∧
      (start.putAll (e.rounds points n).deltas).points = points := by
  fun_induction Encoder.rounds points n e with
  | case1 n e hnone =>
    have hall : ∀ p ∈ points, decide (p < n) = true := by
      intro p hp
      have hnot := List.filter_eq_nil_iff.mp (List.min?_eq_none_iff.mp hnone) p hp
      simpa using hnot
    refine ⟨h.digits, ?_⟩
    rw [h.points, List.filter_nil, List.nil_append]
    exact List.filter_eq_self.mpr hall
  | case2 n e m hm ih => exact ih (h.round hm)

end Follows

/-- The state in which decoding begins to insert into the code points of ASCII among `points`. -/
def literalState (points : List Nat) : State :=
  { points := points.filter (· < 0x80) }

theorem follows_start (points : List Nat) : Follows (literalState points) 0x80 [] points
    { basic := (points.filter (· < 0x80)).length } where
  digits := rfl
  bias := rfl
  points := rfl
  handled := rfl
  first := by
    show ((points.filter (· < 0x80)).length == (points.filter (· < 0x80)).length) = true
    exact beq_self_eq_true _
  basic := Nat.le_refl _
  places := rfl

/-- The digits that are written spell the numbers. -/
theorem digits_run (points : List Nat) :
    (Encoder.run points).digits = (literalState points).spell (deltas points) :=
  (follows_start points).rounds.1

/-- **The numbers that are written make up the list.** -/
theorem putAll_deltas (points : List Nat) :
    ((literalState points).putAll (deltas points)).points = points :=
  (follows_start points).rounds.2

end Demangle.Punycode
