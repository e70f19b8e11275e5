import Demangle.Proofs.Decode
import Demangle.Proofs.Made.Operators

/-!
# Decoded trees are made

A turn of the run keeps the trees of a state made, so a run does, and the fold puts the operands under
nodes of free kinds:

    decode m = .ok t → Made m t
-/

namespace Demangle

open Symbol

namespace Decode

variable {m : String}

/-! ## The run -/

theorem turn_made {s s' : State} (h : Turn s s') (hsound : s.Sound .any) (hs : s.Made m) :
    s'.Made m := by
  obtain ⟨-, x, t, hx, -, rfl⟩ := h
  obtain ⟨ht, hmade⟩ := forms_operator.keeps hsound hs hx
  exact ((makes_push (x := x)).keeps ht rfl).1

/-- The states of a run are sound, and their trees are made. -/
theorem operators_made {n : Nat} {s s' : State} {u : Unit} (h : operators n s = .ok u s')
    (hsound : s.Sound .any) (hs : s.Made m) : s'.Made m := by
  have hrun := operators_run h
  clear h
  suffices s'.Sound .any ∧ s'.Made m from this.2
  induction hrun with
  | refl => exact ⟨hsound, hs⟩
  | tail _ hturn ih => exact ⟨(turn_sound tracks_any hturn ih.1).2, turn_made hturn ih.1 ih.2⟩

/-! ## The fold -/

/-- Made nodes that can take further children. -/
def Growing (m : String) (levels : List Symbol) : Prop :=
  ∀ x ∈ levels, Made m x ∧ x.kind.isFree = true

theorem Growing.push {level x : Symbol} {outer : List Symbol} (h : Growing m (level :: outer))
    (hx : Made m x) : Growing m (level.push x :: outer) := by
  obtain ⟨⟨hlevel, hfree⟩, houter⟩ := List.forall_mem_cons.mp h
  exact List.forall_mem_cons.mpr ⟨⟨hlevel.push hfree hx, hfree⟩, houter⟩

theorem Growing.addAttribute {levels : List Symbol} (h : Growing m levels) {x : Symbol}
    (hx : Made m x) : Growing m (addAttribute levels x) := by
  unfold Decode.addAttribute
  split
  · next hforwarder =>
    have hfree : x.kind.isFree = true := by
      simp only [isForwarder, Bool.or_eq_true, beq_iff_eq] at hforwarder
      rcases hforwarder with hk | hk <;> rw [hk]
    exact List.forall_mem_cons.mpr ⟨⟨hx, hfree⟩, h⟩
  · cases levels with
    | nil => exact h
    | cons level outer => exact h.push hx

theorem growing_attributes (attributes : List Symbol) : ∀ {levels : List Symbol},
    (∀ x ∈ attributes, Made m x) → Growing m levels →
      Growing m (attributes.foldl addAttribute levels) := by
  induction attributes with
  | nil => exact fun _ h => h
  | cons x xs ih =>
    intro levels hxs h
    obtain ⟨hx, hxs⟩ := List.forall_mem_cons.mp hxs
    exact ih hxs (h.addAttribute hx)

theorem growing_rest {outer : List Symbol} (rest : List Symbol) : ∀ {level : Symbol},
    (∀ x ∈ rest, Made m x) → Growing m (level :: outer) →
      Growing m (rest.foldl Symbol.push level :: outer) := by
  induction rest with
  | nil => exact fun _ h => h
  | cons x xs ih =>
    intro level hxs h
    obtain ⟨hx, hxs⟩ := List.forall_mem_cons.mp hxs
    exact ih hxs (h.push hx)

theorem made_closeLevels (outer : List Symbol) : ∀ {level : Symbol}, Growing m (level :: outer) →
    Made m (closeLevels level outer) := by
  induction outer with
  | nil => exact fun h => (h _ List.mem_cons_self).1
  | cons o os ih =>
    intro level h
    obtain ⟨hlevel, houter⟩ := List.forall_mem_cons.mp h
    exact ih (Growing.push houter hlevel.1)

theorem makes_openType {x : Symbol} (hx : Made m x) : Makes m (openType x) := by
  have := allMade_symbol.mpr hx
  unfold openType
  split
  · next hk =>
    have : AllMade m x.first? := allMade_option.mpr fun _ h => first_of_type this (beq_iff_eq.mp hk) h
    infer_instance
  · infer_instance

instance makes_fold : Makes m fold := by
  refine Makes.then fun attributes hattributes => Makes.then fun operands hoperands => ?_
  have := makes_mapM operands.reverse fun x hx =>
    makes_openType (allMade_symbols.mp hoperands x (List.mem_reverse.mp hx))
  refine Makes.then fun rest hrest => ?_
  have hroot : Growing m [leaf .global] := 
    List.forall_mem_singleton.mpr ⟨.node rfl (List.forall_mem_nil _), rfl⟩
  have hlevels := growing_attributes attributes (allMade_symbols.mp hattributes) hroot
  split
  · infer_instance
  · next level outer heq =>
    rw [heq] at hlevels
    have := allMade_symbol.mpr
      (made_closeLevels outer (growing_rest rest (allMade_symbols.mp hrest) hlevels))
    dsimp only [checkDepth]
    infer_instance

/-! ## Whole names -/

theorem identifier_kind {s s' : State} {x : Symbol} (h : Decode.identifier s = .ok x s') :
    x.kind = .identifier := by
  obtain ⟨text, t, -, -, h⟩ := identifier_eq_ok h
  cases h
  rfl

instance makes_bridgedModule : Makes m bridgedModule := by
  have named : Makes m (do return (← Decode.identifier).renamed .moduleName []) := by
    refine makes_bind_of identifier_kind fun name hk hname => ?_
    have : AllMade m (name.renamed .moduleName []) := by
      refine allMade_symbol.mpr ((allMade_symbol.mp hname).renamed ?_ rfl (List.forall_mem_nil _))
      rw [hk]
      rfl
    infer_instance
  refine Makes.then fun _ _ => ?_
  split
  · infer_instance
  · exact named

instance makes_bridgedType : Makes m bridgedType := by
  -- whether or not it is a class, the kind has been read before the names
  have named : ∀ isClass isProtocol : Bool, Makes m (do
      unless isClass || isProtocol do
        fail (.expected "'C' or 'P'")
      let declaredIn ← bridgedModule
      let name ← Decode.identifier
      let type ←
        if isProtocol then do
          Scan.expect '_'
          let protocol := Symbol.typed .protocolType [declaredIn, name]
          pure (Symbol.typed .protocolList [.node .typeList [protocol]])
        else pure (Symbol.typed .classType [declaredIn, name])
      ensure (← Scan.isAtEnd)
      return Symbol.node .global [.node .typeMangling [type]]) := by
    intro isClass isProtocol
    generalize (isClass || isProtocol) = known
    cases known with
    | false => exact ⟨fun _ h => by cases h⟩
    | true =>
      refine Makes.then fun declaredIn _ => Makes.then fun name _ => ?_
      split <;> infer_instance
  refine Makes.then fun isClass _ => ?_
  split
  · exact Makes.then fun isProtocol _ => named isClass isProtocol
  · exact Makes.then fun isProtocol _ => named isClass isProtocol

theorem makes_readStart (texts : List (String × Bool)) : Makes m (readStart texts) := by
  induction texts with
  | nil => exact makes_refuse
  | cons start texts ih =>
    refine Makes.then fun _ _ => ?_
    split
    · refine ⟨fun hs h => ?_⟩
      cases h
      exact ⟨⟨hs.reached, hs.operands, hs.substitutions⟩, allMade_treeless _⟩
    · exact ih

theorem symbol_made {t : Symbol} {s' : State} (h : Decode.symbol (.ofString m) = .ok t s') :
    Made m t := by
  obtain ⟨bridged, s₁, h₁, h⟩ := bind_eq_ok h
  obtain ⟨-, sound₁, -⟩ := builds_scan _ _ _ _ (sound_ofString .any m) h₁
  obtain ⟨made₁, -⟩ := makes_of_pops.keeps (made_ofString m) h₁
  cases bridged with
  | true => exact allMade_symbol.mp (makes_bridgedType.keeps made₁ h).2
  | false =>
    obtain ⟨_, s₂, h₂, h⟩ := bind_eq_ok h
    obtain ⟨-, sound₂, -⟩ := builds_readStart starts _ _ _ sound₁ h₂
    obtain ⟨made₂, -⟩ := (makes_readStart starts).keeps made₁ h₂
    obtain ⟨n, s₃, h₃, h⟩ := bind_eq_ok h
    obtain ⟨-, sound₃, -⟩ := builds_scan _ _ _ _ sound₂ h₃
    obtain ⟨made₃, -⟩ := makes_of_pops.keeps made₂ h₃
    obtain ⟨_, s₄, h₄, h⟩ := bind_eq_ok h
    exact allMade_symbol.mp (makes_fold.keeps (operators_made h₄ sound₃ made₃) h).2

end Decode

/-- **A decoded tree is made by the operators of its name.** -/
theorem decode_made {m : String} {t : Symbol} (h : decode m = .ok t) : Made m t := by
  obtain ⟨s, hs⟩ := decode_eq_ok h
  exact Decode.symbol_made hs

end Demangle
