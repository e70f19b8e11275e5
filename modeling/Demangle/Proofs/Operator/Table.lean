import Demangle.Operator.Table
import Demangle.Proofs.Operator.Entity
import Demangle.Proofs.Operator.Identifier
import Demangle.Proofs.Operator.Thunk

/-!
# Every operator builds a well-formed tree

A law of texts may grow with the place that decoding has reached. `Tracks` says that it does so in step
with the decoder: what is allowed stays allowed, the text of each identifier is allowed when it has been
read, and what can be a name when a specialization of a signature starts can be a payload when it ends.
Under such laws every operator keeps a state sound:

    s.Sound (L s.cursor) → operator s = .ok x s' → s'.Sound (L s'.cursor)     (operator_sound)

There are three kinds of operators. Identifiers bring in names, specializations of a signature turn
names into payloads, and all others build under any law.
-/

namespace Demangle.Decode

open Symbol

/-- A law of texts for each place that grows in step with decoding. -/
structure Tracks (L : Cursor → TextLaw) : Prop where
  mono : ∀ {c d : Cursor}, c.Reaches d → (L c).Implies (L d)
  name : ∀ {s s' : State} {t : String}, s.Sound (L s.cursor) → identifierText s = .ok t s' →
    (L s'.cursor).name t
  payload : ∀ {s s' : State} {x : Symbol}, s.Sound (L s.cursor) →
    signatureSpecialization s = .ok x s' →
      ∀ t, (L s.cursor).name t → (L s'.cursor).payload t ∧ (L s'.cursor).payload (unprotect t)

/-- The law that allows all texts is the same everywhere. -/
theorem tracks_any : Tracks fun _ => .any where
  mono _ := ⟨fun _ h => h, fun _ h => h⟩
  name _ _ := trivial
  payload _ _ _ _ := ⟨trivial, trivial⟩

/-! ## Operators told by a letter -/

/-- All operators but the thunks build well-formed trees under any law. -/
theorem builds_operator? {L : TextLaw} {c : Char} {run : Decode Symbol}
    (h : operator? c = some run) (hc : c ≠ 'T') : Builds L run fun x => x.WellFormed L := by
  unfold operator? at h
  split at h <;> cases h
  · exact builds_backReference
  · exact builds_builtinType
  · exact builds_nominalType rfl
  · exact builds_wrap rfl builds_popType fun _ h => h.1
  · exact builds_extensionContext
  · exact builds_plainFunction
  · exact builds_boundGenericType
  · exact builds_loweredFunctionType
  · exact Builds.pure (wellFormed_leaf rfl)
  · exact builds_localName
  · exact builds_metadata
  · exact builds_wrap rfl builds_popType fun _ h => h.1
  · exact builds_nominalType rfl
  · exact builds_nominalType rfl
  · exact builds_archetype
  · exact builds_requirement
  · exact builds_standardSubstitution
  · exact absurd rfl hc
  · exact builds_nominalType rfl
  · exact builds_witness
  · exact builds_specialType
  · exact builds_wrap rfl builds_popEntity fun _ h => h
  · exact builds_nominalType rfl
  · exact (builds_popFunctionType rfl).imp fun _ h => h.1
  · exact Builds.pure (wellFormed_leaf rfl)
  · exact builds_functionEntity
  · exact builds_retroactiveConformance
  · exact builds_wrapTypeChild rfl
  · exact builds_subscriptEntity
  · exact builds_singleSignature
  · exact builds_wrapType rfl
  · exact builds_wrapTypeChild rfl
  · exact builds_operatorName
  · exact builds_popProtocolList.bind fun _ h => Builds.pure (wellFormed_type h)
  · exact builds_genericParameter.bind fun _ h => Builds.pure (wellFormed_type h)
  · exact builds_countedSignature
  · exact Builds.pure (wellFormed_ofFreeText _ rfl (by decide))
  · exact builds_popTuple
  · exact builds_genericType
  · exact builds_variableEntity
  · exact builds_valueWitness
  · exact Builds.pure (wellFormed_type (wellFormed_parameterType 0 0))
  · exact Builds.pure (wellFormed_leaf rfl)
  · exact builds_wrapTypeChild rfl
  · exact Builds.pure (wellFormed_leaf rfl)

/-! ## All operators -/

section Tracks

variable {L : Cursor → TextLaw} {s s' : State} {x : Symbol}

/-- What a step builds under any law, it builds under laws that grow. -/
theorem sound_of_builds (hL : Tracks L) {run : Decode Symbol}
    (hrun : ∀ M, Builds M run fun x => x.WellFormed M) (hs : s.Sound (L s.cursor))
    (h : run s = .ok x s') :
    s.cursor.Reaches s'.cursor ∧ s'.Sound (L s'.cursor) ∧ x.WellFormed (L s'.cursor) := by
  obtain ⟨reach, sound, hx⟩ := hrun _ s x s' hs h
  exact ⟨reach, sound.implies (hL.mono reach), hx.implies (hL.mono reach)⟩

theorem scan_sound (hL : Tracks L) {α : Type} {scan : Scan α} [Scan.Forward scan] {a : α}
    (hs : s.Sound (L s.cursor)) (h : (liftM scan : Decode α) s = .ok a s') :
    s.cursor.Reaches s'.cursor ∧ s'.Sound (L s'.cursor) := by
  obtain ⟨reach, sound, -⟩ := builds_scan scan s a s' hs h
  exact ⟨reach, sound.implies (hL.mono reach)⟩

theorem identifier_sound (hL : Tracks L) (hs : s.Sound (L s.cursor))
    (h : identifier s = .ok x s') :
    s.cursor.Reaches s'.cursor ∧ s'.Sound (L s'.cursor) ∧ x.WellFormed (L s'.cursor) := by
  obtain ⟨t, s₁, h₁, -, h⟩ := identifier_eq_ok h
  have hread := (identifierText_covers hs.words h₁).1
  have hs₁ : s₁.Sound (L s₁.cursor) := (hread.sound hs).implies (hL.mono hread.reaches)
  obtain ⟨reach, sound, hx⟩ :=
    builds_remember (wellFormed_identifier (hL.name hs h₁)) _ _ _ hs₁ h
  exact ⟨hread.reaches.trans reach, sound.implies (hL.mono reach), hx.implies (hL.mono reach)⟩

/-- The payloads of a specialization are judged at its end, the names it takes at its start. -/
theorem signatureSpecialization_sound (hL : Tracks L) (hs : s.Sound (L s.cursor))
    (h : signatureSpecialization s = .ok x s') :
    s.cursor.Reaches s'.cursor ∧ s'.Sound (L s'.cursor) ∧ x.WellFormed (L s'.cursor) := by
  have reach : s.cursor.Reaches s'.cursor :=
    (builds_signatureSpecialization (L := .any) (fun _ _ => ⟨trivial, trivial⟩) s x s'
      (hs.implies ⟨fun _ _ => trivial, fun _ _ => trivial⟩) h).1
  let M : TextLaw := ⟨(L s.cursor).name, (L s'.cursor).payload, (L s.cursor).name_of_plain⟩
  have hM : (L s.cursor).Implies M := ⟨fun _ h => h, (hL.mono reach).2⟩
  have hM' : M.Implies (L s'.cursor) := ⟨(hL.mono reach).1, fun _ h => h⟩
  obtain ⟨-, sound, hx⟩ := builds_signatureSpecialization (L := M) (hL.payload hs h) s x s'
    (hs.implies hM) h
  exact ⟨reach, sound.implies hM', hx.implies hM'⟩

theorem thunk_sound (hL : Tracks L) (hs : s.Sound (L s.cursor)) (h : thunk s = .ok x s') :
    s.cursor.Reaches s'.cursor ∧ s'.Sound (L s'.cursor) ∧ x.WellFormed (L s'.cursor) := by
  obtain ⟨run, s₁, h₁, h⟩ := bind_eq_ok h
  obtain ⟨reach₁, hs₁⟩ := scan_sound hL hs h₁
  obtain ⟨-, -, c, hc⟩ := builds_letter _ thunk? s run s₁ hs h₁
  by_cases hf : c = 'f'
  · subst hf
    cases hc
    obtain ⟨reach, sound, hx⟩ := signatureSpecialization_sound hL hs₁ h
    exact ⟨reach₁.trans reach, sound, hx⟩
  · obtain ⟨reach, sound, hx⟩ := sound_of_builds hL (fun _ => builds_thunk? hc hf) hs₁ h
    exact ⟨reach₁.trans reach, sound, hx⟩

/-- **Every operator keeps a state sound.** -/
theorem operator_sound (hL : Tracks L) (hs : s.Sound (L s.cursor)) (h : operator s = .ok x s') :
    s.cursor.Reaches s'.cursor ∧ s'.Sound (L s'.cursor) ∧ x.WellFormed (L s'.cursor) := by
  obtain ⟨o, s₁, h₁, h⟩ := bind_eq_ok h
  obtain ⟨c, hpeek, rfl⟩ := lift_eq_ok h₁
  cases hpeek
  cases ho : s.cursor.rest.head?.map Cell.letter with
  | none =>
    rw [ho] at h
    cases h
  | some c =>
    rw [ho] at h
    dsimp only at h
    split at h
    · exact identifier_sound hL hs h
    split at h
    · obtain ⟨t, s₂, h₂, h⟩ := bind_eq_ok h
      obtain ⟨reach, sound⟩ := scan_sound hL hs h₂
      cases h
      exact ⟨reach, sound, wellFormed_ofFreeText _ rfl (by decide)⟩
    split at h
    · obtain ⟨_, s₂, h₂, h⟩ := bind_eq_ok h
      obtain ⟨reach₂, hs₂⟩ := scan_sound hL hs h₂
      obtain ⟨reach, sound, hx⟩ :=
        sound_of_builds hL (fun _ => builds_symbolicReference) hs₂ h
      exact ⟨reach₂.trans reach, sound, hx⟩
    cases hrun : operator? c with
    | none =>
      rw [hrun] at h
      cases h
    | some run =>
      rw [hrun] at h
      obtain ⟨_, s₂, h₂, hbody⟩ := bind_eq_ok h
      obtain ⟨reach₂, hs₂⟩ := scan_sound hL hs h₂
      by_cases hT : c = 'T'
      · subst hT
        cases hrun
        obtain ⟨reach, sound, hx⟩ := thunk_sound hL hs₂ hbody
        exact ⟨reach₂.trans reach, sound, hx⟩
      · obtain ⟨reach, sound, hx⟩ :=
          sound_of_builds hL (fun _ => builds_operator? hrun hT) hs₂ hbody
        exact ⟨reach₂.trans reach, sound, hx⟩

end Tracks

end Demangle.Decode
