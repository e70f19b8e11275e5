import Demangle.Decode
import Demangle.Proofs.Operator.Table
import Mathlib.Logic.Relation

/-!
# What decoding returns

The run over the operators is a sequence of turns (`Turn`), each of which reads an operator and pushes
its node. A turn keeps a state sound (`turn_sound`), so a run does (`operators_sound`), and the fold of
the operands makes one well-formed root out of a sound state:

    decode m = .ok t → t.kind = .global ∧ t.children ≠ [] ∧ t.depth ≤ nestingLimit
    decode m = .ok t → ∀ n ∈ t.nodes, n.kind.content.admits (n.children.map kind)
-/

namespace Demangle

open Symbol

namespace Decode

/-! ## The run -/

/-- One turn of the run: with something left to read, an operator is read and its node, which is not
nested too deeply, becomes the top operand. -/
def Turn (s s' : State) : Prop :=
  s.cursor.rest ≠ [] ∧ ∃ x t, operator s = .ok x t ∧ x.depth ≤ nestingLimit ∧
    s' = { t with operands := x :: t.operands }

theorem operators_cases {n : Nat} {s s' : State} {u : Unit}
    (h : operators (n + 1) s = .ok u s') :
    s.cursor.rest = [] ∧ s' = s ∨ ∃ t, Turn s t ∧ operators n t = .ok u s' := by
  obtain ⟨done, s₁, h₁, h⟩ := bind_eq_ok h
  obtain ⟨c, hc, rfl⟩ := lift_eq_ok h₁
  cases hc
  cases hrest : s.cursor.rest with
  | nil =>
    rw [hrest] at h
    cases h
    exact .inl ⟨rfl, rfl⟩
  | cons b r =>
    rw [hrest] at h
    obtain ⟨x, s₂, hx, h⟩ := bind_eq_ok h
    obtain ⟨_, s₃, hdepth, h⟩ := bind_eq_ok h
    obtain ⟨hle, rfl⟩ := ensure_eq_ok hdepth
    obtain ⟨_, s₄, hpush, h⟩ := bind_eq_ok h
    cases hpush
    exact .inr ⟨_, ⟨by simp [hrest], x, s₂, hx, of_decide_eq_true hle, rfl⟩, h⟩

/-- A run is a sequence of turns. -/
theorem operators_run {n : Nat} : ∀ {s s' : State} {u : Unit}, operators n s = .ok u s' →
    Relation.ReflTransGen Turn s s' := by
  induction n with
  | zero =>
    intro s s' u h
    cases h
    exact .refl
  | succ n ih =>
    intro s s' u h
    rcases operators_cases h with ⟨-, rfl⟩ | ⟨t, hturn, h⟩
    · exact .refl
    · exact .head hturn (ih h)

section Tracks

variable {L : Cursor → TextLaw} {s s' : State}

theorem turn_sound (hL : Tracks L) (h : Turn s s') (hs : s.Sound (L s.cursor)) :
    s.cursor.Reaches s'.cursor ∧ s'.Sound (L s'.cursor) := by
  obtain ⟨-, x, t, hx, -, rfl⟩ := h
  obtain ⟨reach, sound, hwf⟩ := operator_sound hL hs hx
  obtain ⟨-, sound, -⟩ := builds_push hwf t () _ sound rfl
  exact ⟨reach, sound⟩

theorem operators_sound (hL : Tracks L) {n : Nat} {u : Unit} (h : operators n s = .ok u s')
    (hs : s.Sound (L s.cursor)) : s.cursor.Reaches s'.cursor ∧ s'.Sound (L s'.cursor) := by
  have hrun := operators_run h
  clear h
  induction hrun with
  | refl => exact ⟨.refl _, hs⟩
  | tail _ hturn ih =>
    obtain ⟨reach, sound⟩ := turn_sound hL hturn ih.2
    exact ⟨ih.1.trans reach, sound⟩

end Tracks

/-! ## The fold of the operands -/

section Fold

variable {L : TextLaw}

/-- The levels of a symbol under construction: nodes without contract, the outermost one the root. -/
structure Levels (L : TextLaw) (levels : List Symbol) : Prop where
  wellFormed : ∀ x ∈ levels, x.WellFormed L ∧ x.kind.content = .anything
  root : levels.getLast?.map kind = some .global

theorem Levels.head {x : Symbol} {xs : List Symbol} (h : Levels L (x :: xs)) :
    x.WellFormed L ∧ x.kind.content = .anything :=
  h.wellFormed x List.mem_cons_self

/-- The innermost level can take a child. -/
theorem Levels.push {level : Symbol} {outer : List Symbol} (h : Levels L (level :: outer))
    {x : Symbol} (hx : x.WellFormed L) : Levels L (level.push x :: outer) := by
  refine ⟨fun y hy => ?_, ?_⟩
  · rcases List.mem_cons.mp hy with rfl | hy
    · exact ⟨h.head.1.push_free hx h.head.2, h.head.2⟩
    · exact h.wellFormed y (List.mem_cons_of_mem _ hy)
  · have hroot := h.root
    cases outer with
    | nil => exact hroot
    | cons o os => exact hroot

theorem Levels.addAttribute {levels : List Symbol} (h : Levels L levels) {x : Symbol}
    (hx : x.WellFormed L) : Levels L (addAttribute levels x) := by
  unfold Decode.addAttribute
  split
  · next hf =>
    have hk : x.kind.content = .anything := by
      simp only [isForwarder, Bool.or_eq_true, beq_iff_eq] at hf
      rcases hf with hf | hf <;> rw [hf] <;> rfl
    refine ⟨fun y hy => ?_, ?_⟩
    · rcases List.mem_cons.mp hy with rfl | hy
      · exact ⟨hx, hk⟩
      · exact h.wellFormed y hy
    · cases levels with
      | nil => exact nomatch h.root
      | cons l ls => exact h.root
  · cases levels with
    | nil => exact nomatch h.root
    | cons l ls => exact h.push hx

theorem levels_foldl (attributes : List Symbol) : (∀ x ∈ attributes, x.WellFormed L) →
    ∀ levels, Levels L levels → Levels L (attributes.foldl Decode.addAttribute levels) := by
  induction attributes with
  | nil => exact fun _ _ h => h
  | cons x xs ih =>
    intro hxs levels h
    exact ih (fun y hy => hxs y (List.mem_cons_of_mem _ hy)) _
      (h.addAttribute (hxs x List.mem_cons_self))

theorem levels_push_all {outer : List Symbol} (xs : List Symbol) : (∀ x ∈ xs, x.WellFormed L) →
    ∀ level, Levels L (level :: outer) → Levels L (xs.foldl Symbol.push level :: outer) := by
  induction xs with
  | nil => exact fun _ _ h => h
  | cons x xs ih =>
    intro hxs level h
    exact ih (fun y hy => hxs y (List.mem_cons_of_mem _ hy)) _ (h.push (hxs x List.mem_cons_self))

/-- Closing the levels leaves the root. -/
theorem wellFormed_closeLevels (outer : List Symbol) : ∀ level, Levels L (level :: outer) →
    (closeLevels level outer).WellFormed L ∧ (closeLevels level outer).kind = .global := by
  induction outer with
  | nil =>
    intro level h
    exact ⟨h.head.1, Option.some.inj h.root⟩
  | cons o os ih =>
    intro level h
    refine ih _ (Levels.push ⟨fun y hy => h.wellFormed y (List.mem_cons_of_mem _ hy), h.root⟩ h.head.1)

theorem builds_openType {x : Symbol} (hx : x.WellFormed L) :
    Builds L (openType x) fun y => y.WellFormed L :=
  Builds.ite (fun _ => builds_require fun _ hy => hx.first hy) fun _ => Builds.pure hx

/-- A tree that decoding may return. -/
structure IsRoot (t : Symbol) : Prop where
  kind : t.kind = .global
  children : t.children ≠ []
  depth : t.depth ≤ nestingLimit

theorem builds_fold : Builds L fold fun t => t.WellFormed L ∧ IsRoot t := by
  refine (builds_popWhile _).bind fun attributes ha => builds_popAll.bind fun operands ho => ?_
  have hrev : ∀ x ∈ operands.reverse, x.WellFormed L := fun x hx => ho x (List.mem_reverse.mp hx)
  refine (builds_mapM (fun _ h => builds_openType h) _ hrev).bind fun rest hr => ?_
  have hlevels : Levels L [leaf .global] := by
    refine ⟨fun x hx => ?_, rfl⟩
    rw [List.mem_singleton.mp hx]
    exact ⟨wellFormed_leaf rfl, rfl⟩
  have hattributes := levels_foldl attributes (fun x hx => (ha x hx).1) _ hlevels
  split
  · exact builds_refuse _
  · next level outer heq =>
    rw [heq] at hattributes
    obtain ⟨hroot, hkind⟩ :=
      wellFormed_closeLevels outer _ (levels_push_all rest hr level hattributes)
    refine (builds_ensure _).bind fun _ hchildren => (builds_ensure _).bind fun _ hdepth => ?_
    refine Builds.pure ⟨hroot, hkind, ?_, of_decide_eq_true hdepth⟩
    simpa using hchildren

end Fold

/-! ## Types as Objective-C sees them -/

section Bridged

variable {L : TextLaw} (hL : ∀ t, L.name t)

include hL

theorem builds_bridgedModule :
    Builds L bridgedModule fun x => x.WellFormed L ∧ x.children = [] := by
  refine (builds_scan (Scan.accept 's')).bind fun _ _ => Builds.ite (fun _ => ?_) fun _ => ?_
  · exact Builds.pure ⟨wellFormed_ofFreeText _ rfl (by decide), rfl⟩
  · refine (builds_identifier hL).bind fun x hx => Builds.pure ?_
    exact ⟨hx.1.renamed_free nofun rfl (by decide), by simp [renamed, make, hx.2]⟩

/-- A bridged type is nested eight levels deep at most, so its depth need not be checked. -/
theorem builds_bridgedType : Builds L bridgedType fun t => t.WellFormed L ∧ IsRoot t := by
  have whole : ∀ type : Symbol, type.WellFormed L → type.depth ≤ 6 → Builds L (do
      ensure (← Scan.isAtEnd)
      return node .global [node .typeMangling [type]])
      fun t => t.WellFormed L ∧ IsRoot t := by
    intro type ht hd
    refine (builds_scan Scan.isAtEnd).bind fun _ _ => (builds_ensure _).bind fun _ _ => ?_
    refine Builds.pure ⟨?_, rfl, List.cons_ne_nil _ _, ?_⟩
    · exact wellFormed_node rfl (by simp [wellFormed_node (k := .typeMangling) rfl, ht])
    · have : (node .global [node .typeMangling [type]]).depth = type.depth + 2 := by
        simp [node, depth_make, maxDepth, Nat.add_comm]
        omega
      have : nestingLimit = 1024 := rfl
      omega
  refine (builds_scan (Scan.accept 'C')).bind fun isClass _ => ?_
  refine Builds.ite_bind (P := fun _ => True) (fun _ => Builds.pure trivial)
    (fun _ => builds_scan (Scan.accept 'P')) fun isProtocol _ => ?_
  refine Builds.ite (fun _ => ?_) fun _ =>
    (builds_fail _ fun _ => False).bind fun _ h => h.elim
  refine (builds_bridgedModule hL).bind fun m hm => (builds_identifier hL).bind fun name hn => ?_
  have hmd : m.depth = 1 := by rw [hm.1.depth_eq, hm.2]; rfl
  have hnd : name.depth = 1 := by rw [hn.1.depth_eq, hn.2]; rfl
  have parts : ∀ c ∈ [m, name], c.WellFormed L := by simp [hm.1, hn.1]
  refine Builds.ite (fun _ => ?_) fun _ => ?_
  · refine (builds_scan (Scan.expect '_')).bind fun _ _ => whole _ (wellFormed_typed rfl ?_) ?_
    · have hprotocol : (typed .protocolType [m, name]).WellFormed L := wellFormed_typed rfl parts
      have hlist : (node .typeList [typed .protocolType [m, name]]).WellFormed L :=
        wellFormed_node rfl (by simp [hprotocol])
      simp [hlist]
    · simp [typed, node, maxDepth, hmd, hnd]
  · refine whole _ (wellFormed_typed rfl parts) ?_
    simp [typed, node, maxDepth, hmd, hnd]

end Bridged

/-! ## Whole names -/

theorem builds_readStart {L : TextLaw} (texts : List (String × Bool)) :
    Builds L (readStart texts) fun _ => True := by
  induction texts with
  | nil => exact builds_refuse _
  | cons start texts ih =>
    refine (builds_scan (Scan.acceptText start.1)).bind fun _ _ => Builds.ite (fun _ => ?_) fun _ => ih
    intro s u s' hs h
    cases h
    exact ⟨.refl _, ⟨hs.operands, hs.substitutions, hs.words, hs.rest⟩, trivial⟩

/-- Nothing but texts that can be read is in the state in which decoding starts. -/
theorem sound_ofString (L : TextLaw) (m : String) : (State.ofString m).Sound L where
  operands _ hx := absurd hx List.not_mem_nil
  substitutions _ hx := absurd hx (Array.not_mem_empty _)
  words _ hw := absurd hw (Array.not_mem_empty _)
  rest := Cell.honest_ofString m

theorem symbol_sound {L : Cursor → TextLaw} (hL : Tracks L) {m : String} {t : Symbol} {s' : State}
    (h : Decode.symbol (.ofString m) = .ok t s') :
    (Cursor.ofString m).Reaches s'.cursor ∧ t.WellFormed (L s'.cursor).payloads ∧ IsRoot t := by
  obtain ⟨bridged, s₁, h₁, h⟩ := bind_eq_ok h
  cases bridged with
  | true =>
    obtain ⟨reach₁, hs₁, -⟩ := builds_scan _ _ _ _ (sound_ofString .onlyNames m) h₁
    obtain ⟨reach, -, ht, hroot⟩ := builds_bridgedType (fun _ => trivial) _ _ _ hs₁ h
    exact ⟨reach₁.trans reach, ht.implies ⟨fun _ _ => trivial, fun _ h => False.elim h⟩, hroot⟩
  | false =>
    obtain ⟨reach₁, hs₁⟩ := scan_sound hL (sound_ofString _ m) h₁
    obtain ⟨_, s₂, h₂, h⟩ := bind_eq_ok h
    obtain ⟨reach₂, hs₂, -⟩ := builds_readStart starts _ _ _ hs₁ h₂
    have hs₂ := hs₂.implies (hL.mono reach₂)
    obtain ⟨n, s₃, h₃, h⟩ := bind_eq_ok h
    obtain ⟨reach₃, hs₃⟩ := scan_sound hL hs₂ h₃
    obtain ⟨_, s₄, h₄, h⟩ := bind_eq_ok h
    obtain ⟨reach₄, hs₄⟩ := operators_sound hL h₄ hs₃
    obtain ⟨reach₅, -, ht, hroot⟩ := builds_fold _ _ _ hs₄ h
    refine ⟨reach₁.trans (reach₂.trans (reach₃.trans (reach₄.trans reach₅))), ?_, hroot⟩
    exact ht.implies ⟨fun _ _ => trivial, (hL.mono reach₅).2⟩

end Decode

theorem decode_eq_ok {m : String} {t : Symbol} (h : decode m = .ok t) :
    ∃ s, Decode.symbol (.ofString m) = .ok t s := by
  unfold decode at h
  split at h
  · next s hs =>
    cases h
    exact ⟨_, hs⟩
  · cases h

/-- **A decoded tree is a well-formed root.** -/
theorem decode_wellFormed {m : String} {t : Symbol} (h : decode m = .ok t) :
    t.WellFormed .any ∧ Decode.IsRoot t := by
  obtain ⟨s, hs⟩ := decode_eq_ok h
  obtain ⟨-, ht, hroot⟩ := Decode.symbol_sound Decode.tracks_any hs
  exact ⟨ht, hroot⟩

/-! ## The contract of decoded trees -/

/-- A view of a decoded tree that was computed belongs to a tree. -/
theorem exists_decode {α : Type} {m : String} {view : Symbol → α} {a : α}
    (h : (decode m).toOption.map view = some a) : ∃ t, decode m = .ok t ∧ view t = a := by
  cases hd : decode m with
  | error e =>
    rw [hd] at h
    cases h
  | ok t =>
    rw [hd] at h
    exact ⟨t, rfl, Option.some.inj h⟩

/-- **Every node of a decoded tree keeps the contract of its kind.** -/
theorem decode_arity {m : String} {t : Symbol} (h : decode m = .ok t) :
    ∀ n ∈ t.nodes, n.kind.content.admits (n.children.map Symbol.kind) :=
  (decode_wellFormed h).1.arity

theorem decode_arity_function : ∃ t, decode "$sSiSSKcD" = .ok t ∧
    t.nodes.map kind = [.global, .typeMangling, .type, .functionType, .throwsMark, .argumentTuple,
      .type, .structType, .moduleName, .identifier, .returnType, .type, .structType, .moduleName,
      .identifier] ∧
    ∀ n ∈ t.nodes, n.kind.content.admits (n.children.map Symbol.kind) := by
  have key : (decode "$sSiSSKcD").toOption.map (fun t => t.nodes.map kind) = some [.global,
      .typeMangling, .type, .functionType, .throwsMark, .argumentTuple, .type, .structType,
      .moduleName, .identifier, .returnType, .type, .structType, .moduleName, .identifier] := by
    decide +kernel
  obtain ⟨t, ht, hkinds⟩ := exists_decode key
  exact ⟨t, ht, hkinds, decode_arity ht⟩

/-- **Depths are heights and bounded.** Whatever is constructed stores its height in every node, and a
decoded tree is a root with something in it that is not higher than the limit, also when its depth was
not checked. -/
theorem depth_exact_and_bounded :
    (∀ s : Symbol, Constructed s → s.Exact) ∧
      ∀ (m : String) (t : Symbol), decode m = .ok t →
        t.kind = .global ∧ t.children ≠ [] ∧ t.Exact ∧ t.height ≤ nestingLimit := by
  refine ⟨fun s hs => hs.exact, fun m t h => ?_⟩
  obtain ⟨hwf, hroot⟩ := decode_wellFormed h
  refine ⟨hroot.kind, hroot.children, hwf.exact, ?_⟩
  rw [hwf.exact.height_eq_depth]
  exact hroot.depth

theorem depth_exact_and_bounded_bridged :
    (((leaf .tuple).insert 7 (leaf .type)).removeChild 3).reverseChildren.Exact ∧
      ∃ t, decode "_TtC4main3Foo" = .ok t ∧ t.height = 5 ∧ t.kind = .global ∧ t.children ≠ [] ∧
        t.Exact ∧ t.height ≤ nestingLimit := by
  have key : (decode "_TtC4main3Foo").toOption.map height = some 5 := by decide +kernel
  obtain ⟨t, ht, hheight⟩ := exists_decode key
  refine ⟨?_, t, ht, hheight, depth_exact_and_bounded.2 _ t ht⟩
  exact depth_exact_and_bounded.1 _ (.reverseChildren (.removeChild 3 (.insert 7 (.leaf _) (.leaf _))))

end Demangle
