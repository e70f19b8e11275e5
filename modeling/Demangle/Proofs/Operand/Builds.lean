import Demangle.Operand.Basic
import Demangle.Proofs.Cursor.Ahead
import Demangle.Proofs.Symbol.Arity
import Mathlib.Data.List.TakeWhile

/-!
# Steps that build well-formed trees

A state is `Sound` under a law of texts if all its operands and all nodes that back-references can
name are well formed, no word holds `_`, and the cells left to read are those of a text. `Builds L x Q`
says of a step `x` from a sound state: if it succeeds, the cursor has moved forward, the state is sound
again and the result satisfies `Q`. The rules below follow the way steps are put together; each
primitive on operands has one lemma.
-/

namespace Demangle

/-- All trees that a state holds are well formed, its words are free of `_` and what is left to read
tells its characters. -/
structure State.Sound (L : TextLaw) (s : State) : Prop where
  operands : ∀ x ∈ s.operands, x.WellFormed L
  substitutions : ∀ x ∈ s.substitutions, x.WellFormed L
  words : ∀ w ∈ s.words, '_' ∉ w.toList
  rest : ∀ c ∈ s.cursor.rest, c.Honest

theorem State.Sound.implies {L M : TextLaw} (h : L.Implies M) {s : State} (hs : s.Sound L) :
    s.Sound M where
  operands x hx := (hs.operands x hx).implies h
  substitutions x hx := (hs.substitutions x hx).implies h
  words := hs.words
  rest := hs.rest

/-- Operands can be taken off a sound state. -/
theorem State.Sound.keep {L : TextLaw} {s : State} (hs : s.Sound L) {xs : List Symbol}
    (h : ∀ x ∈ xs, x ∈ s.operands) : ({ s with operands := xs } : State).Sound L :=
  ⟨fun x hx => hs.operands x (h x hx), hs.substitutions, hs.words, hs.rest⟩

/-- A cursor of a sound state can be moved forward. -/
theorem State.Sound.reach {L : TextLaw} {s : State} (hs : s.Sound L) {c : Cursor}
    (h : s.cursor.Reaches c) : ({ s with cursor := c } : State).Sound L := by
  obtain ⟨n, rfl⟩ := h
  exact ⟨hs.operands, hs.substitutions, hs.words, fun x hx => hs.rest x (List.mem_of_mem_drop hx)⟩

namespace Decode

/-- A step that keeps a state sound and returns something with the property `Q`. -/
def Builds (L : TextLaw) {α : Type} (x : Decode α) (Q : α → Prop) : Prop :=
  ∀ s a s', s.Sound L → x s = .ok a s' → s.cursor.Reaches s'.cursor ∧ s'.Sound L ∧ Q a

variable {L : TextLaw} {α β : Type}

/-! ## Composition -/

theorem Builds.pure {a : α} {Q : α → Prop} (h : Q a) : Builds L (Pure.pure a) Q := by
  intro s b s' hs hr
  cases hr
  exact ⟨.refl _, hs, h⟩

theorem Builds.bind {x : Decode α} {f : α → Decode β} {P : α → Prop} {Q : β → Prop}
    (hx : Builds L x P) (hf : ∀ a, P a → Builds L (f a) Q) : Builds L (x >>= f) Q := by
  intro s b s' hs h
  obtain ⟨a, t, h₁, h₂⟩ := bind_eq_ok h
  obtain ⟨reach₁, sound₁, ha⟩ := hx s a t hs h₁
  obtain ⟨reach₂, sound₂, hb⟩ := hf a ha t b s' sound₁ h₂
  exact ⟨reach₁.trans reach₂, sound₂, hb⟩

theorem Builds.imp {x : Decode α} {P Q : α → Prop} (hx : Builds L x P) (h : ∀ a, P a → Q a) :
    Builds L x Q := by
  intro s a s' hs hr
  obtain ⟨reach, sound, ha⟩ := hx s a s' hs hr
  exact ⟨reach, sound, h a ha⟩

theorem Builds.map {x : Decode α} {f : α → β} {Q : β → Prop} (hx : Builds L x fun a => Q (f a)) :
    Builds L (f <$> x) Q := by
  rw [map_eq_pure_bind]
  exact hx.bind fun _ ha => Builds.pure ha

theorem Builds.ite {p : Prop} [Decidable p] {x y : Decode α} {Q : α → Prop}
    (hx : p → Builds L x Q) (hy : ¬p → Builds L y Q) : Builds L (if p then x else y) Q := by
  by_cases h : p
  · rw [if_pos h]
    exact hx h
  · rw [if_neg h]
    exact hy h

/-- Two ways to go on in the same manner. -/
theorem Builds.ite_bind {p : Prop} [Decidable p] {x y : Decode α} {f : α → Decode β}
    {P : α → Prop} {Q : β → Prop} (hx : p → Builds L x P) (hy : ¬p → Builds L y P)
    (hf : ∀ a, P a → Builds L (f a) Q) : Builds L (if p then x >>= f else y >>= f) Q :=
  Builds.ite (fun h => (hx h).bind hf) fun h => (hy h).bind hf

/-- A scanning step touches nothing but the cursor. -/
theorem lift_eq_ok {x : Scan α} {s s' : State} {a : α} (h : (liftM x : Decode α) s = .ok a s') :
    ∃ c, x s.cursor = .ok a c ∧ s' = { s with cursor := c } := by
  change (MonadLift.monadLift x : Decode α) s = _ at h
  simp only [MonadLift.monadLift] at h
  split at h
  · next hx =>
    cases h
    exact ⟨_, hx, rfl⟩
  · cases h

theorem builds_scan (x : Scan α) [Scan.Forward x] :
    Builds L (liftM x : Decode α) fun _ => True := by
  intro s a s' hs h
  obtain ⟨c, hx, rfl⟩ := lift_eq_ok h
  exact ⟨Scan.Forward.reaches hx, hs.reach (Scan.Forward.reaches hx), trivial⟩

/-- What a scanning step reads can be known from the step and the cells of a text. -/
theorem builds_scan_of {x : Scan α} [Scan.Forward x] {Q : α → Prop}
    (h : ∀ c a d, (∀ y ∈ c.rest, Cell.Honest y) → x c = .ok a d → Q a) :
    Builds L (liftM x : Decode α) Q := by
  intro s a s' hs hr
  obtain ⟨reach, sound, -⟩ := builds_scan x s a s' hs hr
  obtain ⟨c, hx, -⟩ := lift_eq_ok hr
  exact ⟨reach, sound, h _ _ _ hs.rest hx⟩

/-- A letter that was read has a meaning. -/
theorem builds_letter (cause : Cause) (f : Char → Option α) :
    Builds L (liftM (Scan.letter cause f) : Decode α) fun a => ∃ c, f c = some a :=
  builds_scan_of fun _ _ _ _ h => Scan.meaning_of_letter h

theorem builds_letter? (f : Char → Option α) :
    Builds L (liftM (Scan.letter? f) : Decode (Option α)) fun o =>
      ∀ a, o = some a → ∃ c, f c = some a := by
  refine builds_scan_of fun c o d _ h => ?_
  rintro a rfl
  exact Scan.meaning_of_letter? h

/-! ## Checks -/

theorem builds_fail (cause : Cause) (Q : α → Prop) : Builds L (fail cause) Q := by
  intro s a s' _ h
  cases h

theorem builds_refuse (Q : α → Prop) : Builds L (refuse : Decode α) Q :=
  builds_fail _ Q

theorem require_eq_ok {o : Option α} {s s' : State} {a : α} (h : require o s = .ok a s') :
    o = some a ∧ s = s' := by
  cases o with
  | none => cases h
  | some b =>
    cases h
    exact ⟨rfl, rfl⟩

theorem ensure_eq_ok {b : Bool} {s s' : State} {u : Unit} (h : ensure b s = .ok u s') :
    b = true ∧ s = s' := by
  cases b with
  | false => cases h
  | true =>
    cases h
    exact ⟨rfl, rfl⟩

theorem builds_require {o : Option α} {Q : α → Prop} (h : ∀ a, o = some a → Q a) :
    Builds L (require o) Q := by
  intro s a s' hs hr
  obtain ⟨ho, rfl⟩ := require_eq_ok hr
  exact ⟨.refl _, hs, h a ho⟩

theorem builds_ensure (b : Bool) : Builds L (ensure b) fun _ => b = true := by
  intro s a s' hs hr
  obtain ⟨hb, rfl⟩ := ensure_eq_ok hr
  exact ⟨.refl _, hs, hb⟩

theorem builds_get : Builds L (get : Decode State) fun _ => True := by
  intro s a s' hs h
  cases h
  exact ⟨.refl _, hs, trivial⟩

/-! ## The stack -/

theorem builds_push {x : Symbol} (hx : x.WellFormed L) : Builds L (push x) fun _ => True := by
  intro s a s' hs h
  cases h
  refine ⟨.refl _, ⟨fun y hy => ?_, hs.substitutions, hs.words, hs.rest⟩, trivial⟩
  rcases List.mem_cons.mp hy with rfl | hy
  · exact hx
  · exact hs.operands y hy

theorem builds_pushCopies (n : Nat) {x : Symbol} (hx : x.WellFormed L) :
    Builds L (pushCopies n x) fun _ => True := by
  intro s a s' hs h
  cases h
  refine ⟨.refl _, ⟨fun y hy => ?_, hs.substitutions, hs.words, hs.rest⟩, trivial⟩
  rcases List.mem_append.mp hy with hy | hy
  · rw [List.eq_of_mem_replicate hy]
    exact hx
  · exact hs.operands y hy

theorem builds_pop? : Builds L pop? fun o => ∀ x, o = some x → x.WellFormed L := by
  intro s a s' hs h
  unfold pop? at h
  split at h
  · cases h
    exact ⟨.refl _, hs, nofun⟩
  · next x xs hx =>
    cases h
    refine ⟨.refl _, hs.keep fun y hy => hx ▸ List.mem_cons_of_mem _ hy, ?_⟩
    intro y hy
    cases hy
    exact hs.operands x (hx ▸ List.mem_cons_self)

theorem builds_pop : Builds L pop fun x => x.WellFormed L :=
  builds_pop?.bind fun _ ho => builds_require ho

theorem builds_popIf? (p : Kind → Bool) :
    Builds L (popIf? p) fun o => ∀ x, o = some x → x.WellFormed L ∧ p x.kind = true := by
  intro s a s' hs h
  unfold popIf? at h
  split at h
  · cases h
    exact ⟨.refl _, hs, nofun⟩
  · next x xs hx =>
    split at h
    · next hp =>
      cases h
      refine ⟨.refl _, hs.keep fun y hy => hx ▸ List.mem_cons_of_mem _ hy, ?_⟩
      intro y hy
      cases hy
      exact ⟨hs.operands x (hx ▸ List.mem_cons_self), hp⟩
    · cases h
      exact ⟨.refl _, hs, nofun⟩

theorem builds_popIf (p : Kind → Bool) :
    Builds L (popIf p) fun x => x.WellFormed L ∧ p x.kind = true :=
  (builds_popIf? p).bind fun _ ho => builds_require ho

theorem builds_popKind? (k : Kind) :
    Builds L (popKind? k) fun o => ∀ x, o = some x → x.WellFormed L ∧ x.kind = k :=
  (builds_popIf? _).imp fun _ ho x hx => ⟨(ho x hx).1, beq_iff_eq.mp (ho x hx).2⟩

theorem builds_popKind (k : Kind) : Builds L (popKind k) fun x => x.WellFormed L ∧ x.kind = k :=
  (builds_popIf _).imp fun _ hx => ⟨hx.1, beq_iff_eq.mp hx.2⟩

theorem builds_popWhile (p : Kind → Bool) :
    Builds L (popWhile p) fun xs => ∀ x ∈ xs, x.WellFormed L ∧ p x.kind = true := by
  intro s a s' hs h
  cases h
  refine ⟨.refl _, hs.keep fun y hy => List.dropWhile_subset _ hy, fun x hx => ?_⟩
  have hk : p x.kind = true := by simpa using List.mem_takeWhile_imp hx
  exact ⟨hs.operands x (List.takeWhile_subset _ hx), hk⟩

theorem builds_popAll : Builds L popAll fun xs => ∀ x ∈ xs, x.WellFormed L := by
  intro s a s' hs h
  cases h
  exact ⟨.refl _, hs.keep fun y hy => absurd hy List.not_mem_nil, hs.operands⟩

theorem builds_popCount (n : Nat) : Builds L (popCount n) fun xs => ∀ x ∈ xs, x.WellFormed L := by
  intro s a s' hs h
  obtain ⟨t, s₁, hget, h⟩ := bind_eq_ok h
  cases hget
  obtain ⟨_, s₂, hensure, h⟩ := bind_eq_ok h
  obtain ⟨-, rfl⟩ := ensure_eq_ok hensure
  cases h
  refine ⟨.refl _, hs.keep fun y hy => List.mem_of_mem_drop hy, fun x hx => ?_⟩
  exact hs.operands x (List.mem_of_mem_take hx)

/-! ## Operands with a role -/

theorem builds_popType : Builds L popType fun x => x.WellFormed L ∧ x.kind = .type :=
  builds_popKind .type

theorem builds_popTypeChild : Builds L popTypeChild fun x => x.WellFormed L :=
  builds_popType.bind fun _ ht => builds_require fun _ hc => ht.1.first hc

theorem builds_popAnyGeneric :
    Builds L popAnyGeneric fun x => x.WellFormed L ∧ x.kind.isAnyGeneric = true :=
  builds_popTypeChild.bind fun _ hn => (builds_ensure _).bind fun _ hk => Builds.pure ⟨hn, hk⟩

theorem builds_popDeclName : Builds L popDeclName fun x => x.WellFormed L :=
  (builds_popIf _).imp fun _ hx => hx.1

theorem builds_popEntity : Builds L popEntity fun x => x.WellFormed L :=
  (builds_popIf _).imp fun _ hx => hx.1

theorem builds_popSignature? : Builds L popSignature? fun o =>
    ∀ x, o = some x → x.WellFormed L ∧ x.kind = .dependentGenericSignature :=
  builds_popKind? .dependentGenericSignature

theorem builds_popModule? : Builds L popModule? fun o => ∀ x, o = some x → x.WellFormed L := by
  refine (builds_popKind? .identifier).bind fun o ho => ?_
  cases o with
  | some name =>
    refine Builds.pure fun x hx => ?_
    cases hx
    exact Symbol.WellFormed.renamed_free (ho name rfl).1 nofun rfl (by decide)
  | none => exact (builds_popKind? .moduleName).imp fun _ hm x hx => (hm x hx).1

theorem builds_popModule : Builds L popModule fun x => x.WellFormed L :=
  builds_popModule?.bind fun _ ho => builds_require ho

theorem builds_popContext : Builds L popContext fun x => x.WellFormed L := by
  refine builds_popModule?.bind fun o ho => ?_
  cases o with
  | some m => exact Builds.pure (ho m rfl)
  | none =>
    refine (builds_popKind? .type).bind fun o ht => ?_
    cases o with
    | some t =>
      refine (builds_require fun c hc => (ht t rfl).1.first hc).bind fun c hc => ?_
      exact (builds_ensure _).bind fun _ _ => Builds.pure hc
    | none => exact (builds_popIf _).imp fun _ hx => hx.1

/-! ## Lists of operands -/

theorem builds_popMarked {item : Decode α} {Q : α → Prop} (h : Builds L item Q) (n : Nat) :
    ∀ acc : List α, (∀ x ∈ acc, Q x) →
      Builds L (popMarked item n acc) fun xs => ∀ x ∈ xs, Q x := by
  induction n with
  | zero =>
    intro acc _
    exact builds_refuse _
  | succ n ih =>
    intro acc hacc
    refine (builds_popKind? .firstElementMarker).bind fun first _ => h.bind fun x hx => ?_
    have hcons : ∀ y ∈ x :: acc, Q y := by
      intro y hy
      rcases List.mem_cons.mp hy with rfl | hy
      · exact hx
      · exact hacc y hy
    exact Builds.ite (fun _ => Builds.pure hcons) fun _ => ih (x :: acc) hcons

theorem builds_popElements {item : Decode α} {Q : α → Prop} (h : Builds L item Q) :
    Builds L (popElements item) fun xs => ∀ x ∈ xs, Q x :=
  builds_get.bind fun s _ => builds_popMarked h s.operands.length [] nofun

theorem builds_popList {item : Decode α} {Q : α → Prop} (h : Builds L item Q) :
    Builds L (popList item) fun xs => ∀ x ∈ xs, Q x :=
  (builds_popKind? .emptyList).bind fun _ _ =>
    Builds.ite (fun _ => Builds.pure nofun) fun _ => builds_popElements h

theorem builds_popTypeList :
    Builds L popTypeList fun x => x.WellFormed L ∧ x.kind = .typeList :=
  (builds_popList builds_popType).bind fun _ hts =>
    Builds.pure ⟨Symbol.wellFormed_node rfl fun t ht => (hts t ht).1, rfl⟩

/-- The text of a name, also of a node without text, can be a name. -/
theorem name_textD {x : Symbol} (hx : x.WellFormed L)
    (hk : x.kind = .identifier ∨ x.kind = .tupleElementName) : L.name x.textD := by
  have hc := hx.carries
  unfold Symbol.textD Symbol.text?
  cases hp : x.payload with
  | none => exact L.name_of_plain "" (by decide)
  | index n => exact L.name_of_plain "" (by decide)
  | text t =>
    rw [hp] at hc
    exact hc.1 hk

theorem builds_popTupleElement :
    Builds L popTupleElement fun x => x.WellFormed L ∧ x.kind = .tupleElement := by
  refine (builds_popKind? .variadicMarker).bind fun variadic hv => ?_
  refine (builds_popKind? .identifier).bind fun label hl => ?_
  refine builds_popType.bind fun type ht => Builds.pure ⟨?_, rfl⟩
  have hname : ∀ l, label = some l →
      (Symbol.ofText .tupleElementName l.textD).WellFormed L := fun l h =>
    Symbol.wellFormed_ofText rfl
      ⟨fun _ => name_textD (hl l h).1 (.inl (hl l h).2), fun h => Kind.noConfusion h⟩
  refine .make ?_ (L.carries_none _) fun c hc => ?_
  · cases variadic <;> cases label <;> simp_all [Kind.content, Content.admits, Symbol.ofText]
  · simp only [List.mem_append, Option.mem_toList, Option.map_eq_some_iff,
      List.mem_singleton] at hc
    rcases hc with (hc | ⟨l, h, rfl⟩) | rfl
    · exact (hv c hc).1
    · exact hname l h
    · exact ht.1

theorem builds_popTuple : Builds L popTuple fun x => x.WellFormed L :=
  (builds_popList builds_popTupleElement).bind fun elements h => by
    refine Builds.pure (Symbol.wellFormed_type (.make ?_ (L.carries_none _) fun c hc => (h c hc).1))
    rw [show Kind.tuple.content = .elements from rfl]
    simp only [Content.admits, List.all_map, List.all_eq_true]
    intro c hc
    exact beq_iff_eq.mpr (h c hc).2

/-! ## Substitutions -/

theorem builds_remember {x : Symbol} (hx : x.WellFormed L) :
    Builds L (remember x) fun y => y.WellFormed L := by
  intro s a s' hs h
  cases h
  refine ⟨.refl _, ⟨hs.operands, fun y hy => ?_, hs.words, hs.rest⟩, hx⟩
  rcases Array.mem_push.mp hy with hy | rfl
  · exact hs.substitutions y hy
  · exact hx

theorem builds_substitution (i : Nat) : Builds L (substitution i) fun x => x.WellFormed L := by
  intro s a s' hs h
  obtain ⟨t, s₁, hget, h⟩ := bind_eq_ok h
  cases hget
  obtain ⟨hi, rfl⟩ := require_eq_ok h
  exact ⟨.refl _, hs, hs.substitutions a (Array.mem_of_getElem? hi)⟩

theorem builds_indexNode : Builds L indexNode fun x => x.WellFormed L :=
  (builds_scan Scan.index).bind fun n _ => Builds.pure (Symbol.wellFormed_ofIndex rfl n)

end Decode

end Demangle
