import Demangle.Punycode

/-!
# Punycode is no shorter than what it spells

Each insertion takes a digit at least, and each literal character is one of the text:

    decode s = some t → t.length ≤ s.length          (decode_length_le)
-/

namespace Demangle.Punycode

theorem readNumber_length_lt {bias : Nat} {cs r : List Char} :
    ∀ {i w k j : Nat}, readNumber bias i w k cs = some (j, r) → r.length < cs.length := by
  induction cs with
  | nil => exact nofun
  | cons c cs ih =>
    intro i w k j h
    unfold readNumber at h
    split at h
    · cases h
    · split at h
      · dsimp only at h
        split at h
        · cases h
          exact Nat.lt_succ_self _
        · split at h
          · exact Nat.lt_succ_of_lt (ih h)
          · cases h
      · cases h

/-- The count is no larger than the length asks for. -/
theorem State.mod_count_le (st : State) (i : Nat) : i % st.count ≤ st.points.length := by
  have hmod : i % st.count < st.count := Nat.mod_lt _ (Nat.succ_pos _)
  have hcut : st.points.length % wordSize ≤ st.points.length := Nat.mod_le _ _
  unfold count at hmod ⊢
  omega

theorem State.insert_length {st st' : State} {i : Nat} (h : st.insert i = some st') :
    st'.points.length = st.points.length + 1 := by
  unfold State.insert at h
  dsimp only at h
  split at h
  · cases h
    rw [List.length_insertIdx, if_pos (st.mod_count_le i)]
  · cases h

theorem insertions_length_le {fuel : Nat} : ∀ {st : State} {cs : List Char} {points : List Nat},
    insertions fuel st cs = some points → points.length ≤ st.points.length + cs.length := by
  induction fuel with
  | zero =>
    intro st cs points h
    cases cs with
    | nil =>
      cases h
      exact Nat.le_add_right _ _
    | cons c cs => cases h
  | succ fuel ih =>
    intro st cs points h
    cases cs with
    | nil =>
      cases h
      exact Nat.le_add_right _ _
    | cons c cs =>
      unfold insertions at h
      split at h
      · cases h
      · next i r hr =>
        split at h
        · cases h
        · next st' hst =>
          have hshorter := readNumber_length_lt hr
          have hlonger := State.insert_length hst
          have := ih h
          omega

theorem split_length_le (cs : List Char) : (split cs).1.length + (split cs).2.length ≤ cs.length := by
  have h : (cs.reverse.takeWhile (· != '_')).length ≤ cs.length := by
    rw [← cs.length_reverse]
    exact (List.takeWhile_sublist _).length_le
  simp only [split, List.length_take, List.length_reverse]
  omega

theorem decodePoints_length_le {s : String} {points : List Nat} (h : decodePoints s = some points) :
    points.length ≤ s.toList.length := by
  unfold decodePoints at h
  have hsplit := split_length_le s.toList
  split at h
  next literal digits hd =>
  rw [hd] at hsplit
  dsimp only at hsplit
  split at h
  · have := insertions_length_le h
    simp only [List.length_map] at this
    omega
  · cases h

theorem length_of_mapM {α β : Type} {f : α → Option β} {xs : List α} :
    ∀ {ys : List β}, xs.mapM f = some ys → ys.length = xs.length := by
  induction xs with
  | nil =>
    intro ys h
    cases h
    rfl
  | cons x xs ih =>
    intro ys h
    rw [List.mapM_cons] at h
    obtain ⟨y, -, h⟩ := Option.bind_eq_some_iff.mp h
    obtain ⟨zs, hz, h⟩ := Option.bind_eq_some_iff.mp h
    cases h
    rw [List.length_cons, List.length_cons, ih hz]

/-- **Punycode spells no more characters than it has.** -/
theorem decode_length_le {s t : String} (h : decode s = some t) :
    t.toList.length ≤ s.toList.length := by
  obtain ⟨points, hp, ht⟩ := Option.bind_eq_some_iff.mp h
  obtain ⟨chars, hc, rfl⟩ := Option.map_eq_some_iff.mp ht
  rw [String.toList_ofList, length_of_mapM hc]
  exact decodePoints_length_le hp

end Demangle.Punycode
