import Demangle.Proofs.Operator.Bound
import Demangle.Proofs.Operator.Pops

/-!
# Where trees come from

Every tree that decoding handles was put together by the operators of the name, and `Made` says in which
ways: most kinds of nodes can be made of any made trees (`Kind.isFree`); an argument tuple is made with the
number of its parameters, or gets them without their labels; a local name and a closure are made with an
index that the name spells; an extension is made in a module; and a nominal type is bound to arguments. A
fact about all decoded trees follows by induction on `Made`.

A step `Makes` trees if it keeps all trees of a state made and returns made ones. That follows the way in
which steps are put together, so it is a class; a value that a step hands over comes with the fact that its
trees are made, as an element of a subtype.
-/

namespace Demangle

open Symbol Decode

/-! ## Trees -/

/-- The kinds whose nodes are made of any trees and carry anything. -/
@[reducible] def Kind.isFree : Kind → Bool
  | .argumentTuple | .localDeclName | .explicitClosure | .implicitClosure | .extension => false
  | _ => true

/-- The index is read at some place of the name. -/
def IsIndex (m : String) (i : UInt64) : Prop :=
  ∃ c d, (Cursor.ofString m).Reaches c ∧ Scan.index c = .ok i d

/-- The number of parameters that the child of an argument tuple stands for. -/
def Symbol.argumentCount? (n : Symbol) : Option Nat :=
  (n.first?.bind first?).map parameterCount

/-- The trees that the operators of a name make. -/
inductive Made (m : String) : Symbol → Prop
  | node {k : Kind} {p : Payload} {cs : List Symbol} {d : Nat} (free : k.isFree = true)
      (parts : ∀ c ∈ cs, Made m c) : Made m ⟨k, p, cs, d⟩
  /-- Nothing is taken out of a nominal type. -/
  | part {x c : Symbol} (whole : Made m x) (plain : x.kind.isAnyGeneric = false)
      (hc : c ∈ x.children) : Made m c
  | push {x c : Symbol} (whole : Made m x) (free : x.kind.isFree = true) (last : Made m c) :
      Made m (x.push c)
  | arguments {params inner : Symbol} (parts : Made m params) (hi : params.first? = some inner) :
      Made m ((ofIndex .argumentTuple (.ofNat (parameterCount inner))).push params)
  /-- The labels of parameters are stripped, the parameters stay. -/
  | relabelled {arguments params : Symbol} (whole : Made m arguments)
      (hk : arguments.kind = .argumentTuple) (parts : Made m params)
      (count : params.first?.map parameterCount = arguments.argumentCount?) :
      Made m (arguments.setChild 0 params)
  | localName {i : UInt64} {name : Symbol} (hi : IsIndex m i) (hn : Made m name) :
      Made m (.node .localDeclName [ofIndex .number i, name])
  | closure {k : Kind} {context type : Symbol} {i : UInt64}
      (hk : k = .explicitClosure ∨ k = .implicitClosure) (hc : Made m context) (hi : IsIndex m i)
      (ht : Made m type) : Made m (.node k [context, ofIndex .number i, type])
  | extension {declaredIn extended : Symbol} {signature : List Symbol}
      (hk : declaredIn.kind = .moduleName) (hd : Made m declaredIn) (he : Made m extended)
      (hs : ∀ x ∈ signature, Made m x) :
      Made m (.node .extension (declaredIn :: extended :: signature))
  | bound {x y : Symbol} {lists : List Symbol} {s s' : State} (letter : 'G' ∈ m.toList)
      (nominal : Made m x) (generic : x.kind.isAnyGeneric = true)
      (arguments : ∀ l ∈ lists, Made m l) (typeLists : ∀ l ∈ lists, l.kind = .typeList)
      (h : bindArguments x lists s = .ok y s') : Made m y

namespace Made

variable {m : String} {x c : Symbol}

theorem first (hx : Made m x) (hk : x.kind.isAnyGeneric = false) (hc : x.first? = some c) : Made m c :=
  hx.part hk (List.mem_of_mem_head? hc)

theorem child? (hx : Made m x) (hk : x.kind.isAnyGeneric = false) {i : Nat}
    (hc : x.child? i = some c) : Made m c :=
  hx.part hk (List.mem_of_getElem? hc)

/-- A child of a free node can be replaced. -/
theorem setChild (hx : Made m x) (hfree : x.kind.isFree = true) (hk : x.kind.isAnyGeneric = false)
    (hc : Made m c) (i : Nat) : Made m (x.setChild i c) := by
  refine .node hfree fun d hd => ?_
  rcases List.mem_or_eq_of_mem_set hd with hd | rfl
  · exact hx.part hk hd
  · exact hc

/-- A node can be put under a free kind. -/
theorem renamed (hx : Made m x) (hk : x.kind.isAnyGeneric = false) {k : Kind} (hfree : k.isFree = true)
    {cs : List Symbol} (hcs : ∀ c ∈ cs, Made m c) : Made m (x.renamed k cs) := by
  refine .node hfree fun d hd => ?_
  rcases List.mem_append.mp hd with hd | hd
  · exact hx.part hk hd
  · exact hcs d hd

end Made

/-! ## Values -/

/-- The trees that a value holds. -/
class HasTrees (α : Type) where
  trees : α → List Symbol

instance : HasTrees Symbol := ⟨fun x => [x]⟩

instance {α : Type} [HasTrees α] : HasTrees (Option α) := ⟨fun o => o.toList.flatMap HasTrees.trees⟩

instance {α : Type} [HasTrees α] : HasTrees (List α) := ⟨fun as => as.flatMap HasTrees.trees⟩

instance {α β : Type} [HasTrees α] [HasTrees β] : HasTrees (α × β) :=
  ⟨fun p => HasTrees.trees p.1 ++ HasTrees.trees p.2⟩

/-- Other values hold no trees. -/
instance (priority := low) holdsNone {α : Type} : HasTrees α := ⟨fun _ => []⟩

/-- All trees of a value are made. -/
class AllMade (m : String) {α : Type} [HasTrees α] (a : α) : Prop where
  made : ∀ t ∈ HasTrees.trees a, Made m t

/-- No value of the type holds a tree. -/
class Treeless (α : Type) [HasTrees α] : Prop where
  none : ∀ a : α, HasTrees.trees a = []

/-- A condition that is true. -/
class Holds (b : Bool) : Prop where
  eq : b = true

instance : Holds true := ⟨rfl⟩

section Values

variable {m : String} {α β : Type} [HasTrees α] [HasTrees β]

instance (priority := low) treeless_default {γ : Type} : Treeless γ := ⟨fun _ => rfl⟩

instance [h : Treeless α] : Treeless (Option α) :=
  ⟨fun _ => List.flatMap_eq_nil_iff.mpr fun a _ => h.none a⟩

instance [h : Treeless α] : Treeless (List α) :=
  ⟨fun _ => List.flatMap_eq_nil_iff.mpr fun a _ => h.none a⟩

theorem allMade_symbol {x : Symbol} : AllMade m x ↔ Made m x :=
  ⟨fun h => h.made x List.mem_cons_self, fun h => ⟨fun _ ht => List.mem_singleton.mp ht ▸ h⟩⟩

theorem allMade_list {as : List α} : AllMade m as ↔ ∀ a ∈ as, AllMade m a := by
  refine ⟨fun h a ha => ⟨fun t ht => h.made t (List.mem_flatMap.mpr ⟨a, ha, ht⟩)⟩, fun h => ⟨?_⟩⟩
  intro t ht
  obtain ⟨a, ha, ht⟩ := List.mem_flatMap.mp ht
  exact (h a ha).made t ht

theorem allMade_option {o : Option α} : AllMade m o ↔ ∀ a, o = some a → AllMade m a := by
  cases o with
  | none => exact ⟨fun _ _ h => (Option.some_ne_none _ h.symm).elim, fun _ => ⟨List.forall_mem_nil _⟩⟩
  | some a =>
    have htrees : HasTrees.trees (some a) = HasTrees.trees a := List.append_nil _
    constructor
    · rintro h _ ⟨⟩
      exact ⟨fun t ht => h.made t (htrees ▸ ht)⟩
    · intro h
      exact ⟨fun t ht => (h a rfl).made t (htrees ▸ ht)⟩

theorem allMade_pair {a : α} {b : β} : AllMade m (a, b) ↔ AllMade m a ∧ AllMade m b := by
  constructor
  · intro h
    exact ⟨⟨fun t ht => h.made t (List.mem_append_left _ ht)⟩,
      ⟨fun t ht => h.made t (List.mem_append_right _ ht)⟩⟩
  · rintro ⟨ha, hb⟩
    refine ⟨fun t ht => ?_⟩
    rcases List.mem_append.mp ht with ht | ht
    · exact ha.made t ht
    · exact hb.made t ht

theorem allMade_symbols {xs : List Symbol} : AllMade m xs ↔ ∀ x ∈ xs, Made m x := by
  simp only [allMade_list, allMade_symbol]

instance (priority := low) allMade_treeless [h : Treeless α] (a : α) : AllMade m a :=
  ⟨fun t ht => by rw [h.none a] at ht; cases ht⟩

/-- What a step has handed over is made. -/
instance allMade_val (a : { a : α // AllMade m a }) : AllMade m a.1 := a.2

instance allMade_mk {a : α} {b : β} [ha : AllMade m a] [hb : AllMade m b] : AllMade m (a, b) :=
  allMade_pair.mpr ⟨ha, hb⟩

instance allMade_fst (p : { p : α × β // AllMade m p }) : AllMade m p.1.1 :=
  (allMade_pair.mp p.2).1

instance allMade_snd (p : { p : α × β // AllMade m p }) : AllMade m p.1.2 :=
  (allMade_pair.mp p.2).2

instance allMade_none : AllMade m (none : Option α) := ⟨List.forall_mem_nil _⟩

instance allMade_some {a : α} [h : AllMade m a] : AllMade m (some a) :=
  allMade_option.mpr fun _ ha => Option.some.inj ha ▸ h

instance allMade_nil : AllMade m ([] : List α) := ⟨List.forall_mem_nil _⟩

instance allMade_cons {a : α} {as : List α} [h : AllMade m a] [hs : AllMade m as] :
    AllMade m (a :: as) := by
  refine allMade_list.mpr fun b hb => ?_
  rcases List.mem_cons.mp hb with rfl | hb
  · exact h
  · exact allMade_list.mp hs b hb

instance allMade_append {as bs : List α} [ha : AllMade m as] [hb : AllMade m bs] :
    AllMade m (as ++ bs) := by
  refine allMade_list.mpr fun c hc => ?_
  rcases List.mem_append.mp hc with hc | hc
  · exact allMade_list.mp ha c hc
  · exact allMade_list.mp hb c hc

instance allMade_reverse {as : List α} [h : AllMade m as] : AllMade m as.reverse :=
  allMade_list.mpr fun a ha => allMade_list.mp h a (List.mem_reverse.mp ha)

instance allMade_toList {o : Option α} [h : AllMade m o] : AllMade m o.toList :=
  allMade_list.mpr fun a ha => allMade_option.mp h a (Option.mem_toList.mp ha)

instance allMade_map {as : List α} {f : α → β} [h : AllMade m as]
    [hf : ∀ a : { a : α // AllMade m a }, AllMade m (f a.1)] : AllMade m (as.map f) := by
  refine allMade_list.mpr fun b hb => ?_
  obtain ⟨a, ha, rfl⟩ := List.mem_map.mp hb
  exact hf ⟨a, allMade_list.mp h a ha⟩

instance allMade_optionMap {o : Option α} {f : α → β} [h : AllMade m o]
    [hf : ∀ a : { a : α // AllMade m a }, AllMade m (f a.1)] : AllMade m (o.map f) := by
  cases o with
  | none => exact allMade_none
  | some a =>
    have : AllMade m (f a) := hf ⟨a, allMade_option.mp h a rfl⟩
    exact allMade_some

instance allMade_ite {p : Prop} [Decidable p] {a b : α} [AllMade m a] [AllMade m b] :
    AllMade m (if p then a else b) := by
  split <;> assumption

/-! ## Nodes -/

section Nodes

variable {k : Kind} [hk : Holds k.isFree]

instance allMade_make {p : Payload} {cs : List Symbol} [h : AllMade m cs] :
    AllMade m (make k p cs) :=
  allMade_symbol.mpr (.node hk.eq (allMade_symbols.mp h))

instance allMade_node {cs : List Symbol} [AllMade m cs] : AllMade m (Symbol.node k cs) :=
  allMade_make

instance allMade_leaf : AllMade m (leaf k) :=
  allMade_make

instance allMade_ofText {t : String} : AllMade m (ofText k t) :=
  allMade_make

instance allMade_ofIndex {n : UInt64} : AllMade m (ofIndex k n) :=
  allMade_make

instance allMade_typed {cs : List Symbol} [AllMade m cs] : AllMade m (typed k cs) := by
  unfold typed
  infer_instance

instance allMade_standardType {name : String} : AllMade m (standardType k name) := by
  unfold standardType
  infer_instance

end Nodes

end Values

/-! ## States -/

/-- All trees of a state are made, and it has read a part of the name. -/
structure State.Made (m : String) (s : State) : Prop where
  reached : (Cursor.ofString m).Reaches s.cursor
  operands : ∀ x ∈ s.operands, Demangle.Made m x
  substitutions : ∀ x ∈ s.substitutions, Demangle.Made m x

/-- Operands can be taken off. -/
theorem State.Made.keep {m : String} {s : State} (hs : s.Made m) {xs : List Symbol}
    (h : ∀ x ∈ xs, x ∈ s.operands) : ({ s with operands := xs } : State).Made m :=
  ⟨hs.reached, fun x hx => hs.operands x (h x hx), hs.substitutions⟩

/-- The state in which decoding starts holds no trees. -/
theorem made_ofString (m : String) : (State.ofString m).Made m where
  reached := .refl _
  operands _ hx := absurd hx List.not_mem_nil
  substitutions _ hx := absurd hx (Array.not_mem_empty _)

/-- ASCII in front of a place of the name is spelled by the name. -/
theorem Cursor.Reaches.letters_spelled {m : String} {c : Cursor} (hc : (Cursor.ofString m).Reaches c)
    {run rest : List Cell} (h : c.rest = run ++ rest) (hlow : ∀ x ∈ run, x.byte.toNat < 0x80) :
    run.map Cell.letter <:+: m.toList := by
  obtain ⟨n, rfl⟩ := hc
  have hcells : run <:+: Cell.ofString m :=
    (List.infix_append' [] run rest).trans (h ▸ (List.drop_suffix n _).isInfix)
  have hmap : run.map Cell.letter = run.filterMap Cell.begins := by
    rw [← List.filterMap_eq_map]
    refine List.filterMap_congr fun x hx => ?_
    exact (Cell.honest_ofString m x (hcells.subset hx) (hlow x hx)).symm
  have htext : m.toList = (Cell.ofString m).filterMap Cell.begins := by
    rw [← Cell.toList_text, Cell.text_ofString]
  rw [hmap, htext]
  exact hcells.filterMap _

namespace Decode

variable {m : String} {α β : Type} [HasTrees α] [HasTrees β]

/-- A step that keeps all trees of a state made and returns made trees. -/
class Makes (m : String) {α : Type} [HasTrees α] (x : Decode α) : Prop where
  keeps : ∀ {s : State} {a : α} {s' : State}, s.Made m → x s = .ok a s' → s'.Made m ∧ AllMade m a

/-! ## Composition -/

instance makes_pure {a : α} [h : AllMade m a] : Makes m (pure a : Decode α) where
  keeps hs hr := by
    cases hr
    exact ⟨hs, h⟩

theorem Makes.then {x : Decode α} {f : α → Decode β} [hx : Makes m x]
    (hf : ∀ a, AllMade m a → Makes m (f a)) : Makes m (x >>= f) where
  keeps hs h := by
    obtain ⟨a, t, h₁, h₂⟩ := bind_eq_ok h
    obtain ⟨ht, ha⟩ := hx.keeps hs h₁
    exact (hf a ha).keeps ht h₂

instance makes_bind {x : Decode α} {f : α → Decode β} [Makes m x]
    [hf : ∀ a : { a : α // AllMade m a }, Makes m (f a.1)] : Makes m (x >>= f) :=
  Makes.then fun a ha => hf ⟨a, ha⟩

instance makes_ite {p : Prop} [Decidable p] {x y : Decode α} [Makes m x] [Makes m y] :
    Makes m (if p then x else y) := by
  split <;> assumption

/-- A step can be followed by what is known of the values it returns. -/
theorem makes_bind_of {x : Decode α} {f : α → Decode β} [hx : Makes m x] {R : α → Prop}
    (hR : ∀ {s a s'}, x s = .ok a s' → R a) (hf : ∀ a, R a → AllMade m a → Makes m (f a)) :
    Makes m (x >>= f) where
  keeps hs h := by
    obtain ⟨a, t, h₁, h₂⟩ := bind_eq_ok h
    obtain ⟨ht, ha⟩ := hx.keeps hs h₁
    exact (hf a (hR h₁) ha).keeps ht h₂

/-! ## Scanning and checks -/

/-- A step that only pops makes no trees. -/
instance (priority := low) makes_of_pops [Treeless α] {x : Decode α} [hx : Pops 0 x] : Makes m x where
  keeps {s a s'} hs h := by
    have hkeeps := hx.keeps s
    have hsize := hx.remembers s
    have hsuffix := hx.suffix s
    rw [h] at hkeeps hsize hsuffix
    have hsubstitutions : s.substitutions.toList = s'.substitutions.toList :=
      hkeeps.substitutions.eq_of_length_le hsize
    refine ⟨⟨hs.reached.trans hkeeps.cursor, fun x hx => hs.operands x (hsuffix.subset hx), ?_⟩,
      allMade_treeless a⟩
    intro x hx
    refine hs.substitutions x ?_
    rwa [← Array.mem_toList_iff, hsubstitutions, Array.mem_toList_iff]

/-- Each meaning that a letter can have is a step that makes trees. -/
theorem makes_letter {γ : Type} {cause : Cause} {meaning : Char → Option γ} {f : γ → Decode β}
    (h : ∀ {c a}, meaning c = some a → Makes m (f a)) :
    Makes m ((liftM (Scan.letter cause meaning) : Decode γ) >>= f) := by
  refine makes_bind_of (R := fun a => ∃ c, meaning c = some a) (fun hr => ?_) fun _ ⟨_, hc⟩ _ => h hc
  obtain ⟨d, hd, -⟩ := lift_eq_ok hr
  exact Scan.meaning_of_letter hd

theorem makes_readLetter {γ : Type} {what : String} {meaning : Char → Option γ} {f : γ → Decode β}
    (h : ∀ {c a}, meaning c = some a → Makes m (f a)) :
    Makes m ((liftM (Scan.readLetter what meaning) : Decode γ) >>= f) := by
  refine makes_bind_of (R := fun a => ∃ c, meaning c = some a) (fun hr => ?_) fun _ ⟨_, hc⟩ _ => h hc
  obtain ⟨d, hd, -⟩ := lift_eq_ok hr
  exact Scan.meaning_of_readLetter hd

/-- A character of ASCII that lies ahead is in the name. -/
theorem peek_mem {s s' : State} (hs : s.Made m) {c : Char}
    (h : (liftM Scan.peek? : Decode (Option Char)) s = .ok (some c) s') (hc : c.toNat < 0x80) :
    c ∈ m.toList := by
  obtain ⟨d, hd, -⟩ := lift_eq_ok h
  cases hrest : s.cursor.rest with
  | nil =>
    rw [Scan.peek?, hrest] at hd
    cases hd
  | cons x r =>
    rw [Scan.peek?, hrest] at hd
    cases hd
    have hspelled := hs.reached.letters_spelled (show s.cursor.rest = [x] ++ r from hrest) <|
      List.forall_mem_singleton.mpr (Cell.toNat_letter x ▸ hc)
    exact hspelled.subset List.mem_cons_self

instance makes_fail {cause : Cause} : Makes m (fail cause : Decode α) where
  keeps _ h := by cases h

instance makes_refuse : Makes m (refuse : Decode α) :=
  makes_fail

instance makes_require {o : Option α} [h : AllMade m o] : Makes m (require o) where
  keeps hs hr := by
    obtain ⟨ho, rfl⟩ := require_eq_ok hr
    exact ⟨hs, allMade_option.mp h _ ho⟩

instance makes_get : Makes m (get : Decode State) where
  keeps hs hr := by
    cases hr
    exact ⟨hs, allMade_treeless _⟩

omit [HasTrees α] in
theorem makes_mapM {f : α → Decode β} :
    ∀ as : List α, (∀ a ∈ as, Makes m (f a)) → Makes m (as.mapM f) := by
  intro as hf
  induction as with
  | nil => exact makes_pure
  | cons a as ih =>
    have := hf a List.mem_cons_self
    have := ih fun b hb => hf b (List.mem_cons_of_mem _ hb)
    rw [List.mapM_cons]
    infer_instance

/-! ## The stack -/

/-- Trees that are taken off the operands are made. -/
theorem makes_split {split : List Symbol → Option (α × List Symbol)}
    (hleft : ∀ {xs a left}, split xs = some (a, left) → ∀ x ∈ left, x ∈ xs)
    (htaken : ∀ {xs a left}, split xs = some (a, left) → ∀ t ∈ HasTrees.trees a, t ∈ xs) :
    Makes m (popSplit split) where
  keeps {s a s'} hs h := by
    unfold popSplit at h
    split at h
    · next hsplit =>
      cases h
      exact ⟨hs.keep (hleft hsplit), ⟨fun t ht => hs.operands t (htaken hsplit t ht)⟩⟩
    · cases h

instance makes_pop? : Makes m pop? := by
  rw [pop?_eq]
  refine makes_split (fun {xs a left} h x hx => ?_) fun {xs a left} h t ht => ?_
  · cases h
    exact List.mem_of_mem_tail hx
  · cases h
    cases xs with
    | nil => cases ht
    | cons y ys =>
      obtain rfl : t = y := by simpa [HasTrees.trees] using ht
      exact List.mem_cons_self

instance makes_pop : Makes m pop := by
  unfold pop
  infer_instance

instance makes_popIf? (p : Kind → Bool) : Makes m (popIf? p) := by
  rw [popIf?_eq]
  refine makes_split (fun {xs a left} h x hx => ?_) fun {xs a left} h t ht => ?_
  · cases xs with
    | nil => cases h; exact hx
    | cons y ys =>
      by_cases hp : p y.kind
      · simp only [hp, if_true] at h
        cases h
        exact List.mem_cons_of_mem _ hx
      · simp only [hp, Bool.false_eq_true, if_false] at h
        cases h
        exact hx
  · cases xs with
    | nil => cases h; cases ht
    | cons y ys =>
      by_cases hp : p y.kind
      · simp only [hp, if_true] at h
        cases h
        obtain rfl : t = y := by simpa [HasTrees.trees] using ht
        exact List.mem_cons_self
      · simp only [hp, Bool.false_eq_true, if_false] at h
        cases h
        cases ht

/-- An operand that was popped by its kind has that kind. -/
theorem popKind?_kind {k : Kind} {s s' : State} {o : Option Symbol} (h : popKind? k s = .ok o s') :
    ∀ x, o = some x → x.kind = k :=
  fun x hx => beq_iff_eq.mp ((popIf?_eq_ok h).2 x hx)

theorem popKind_kind {k : Kind} {s s' : State} {x : Symbol} (h : popKind k s = .ok x s') :
    x.kind = k :=
  beq_iff_eq.mp (popIf_eq_ok h).2

instance makes_popIf (p : Kind → Bool) : Makes m (popIf p) := by
  unfold popIf
  infer_instance

instance makes_popKind? (k : Kind) : Makes m (popKind? k) :=
  makes_popIf? _

instance makes_popKind (k : Kind) : Makes m (popKind k) :=
  makes_popIf _

theorem trees_symbols (xs : List Symbol) : HasTrees.trees xs = xs := by
  show xs.flatMap (fun x => [x]) = xs
  exact List.flatMap_singleton' xs

instance makes_popWhile (p : Kind → Bool) : Makes m (popWhile p) := by
  show Makes m (popSplit fun xs =>
    some (xs.takeWhile fun x => p x.kind, xs.dropWhile fun x => p x.kind))
  refine makes_split (fun {xs a left} h x hx => ?_) fun {xs a left} h t ht => ?_
  · cases h
    exact (List.dropWhile_suffix _).subset hx
  · cases h
    rw [trees_symbols] at ht
    exact (List.takeWhile_prefix _).subset ht

instance makes_popAll : Makes m popAll := by
  show Makes m (popSplit fun xs => some (xs, []))
  refine makes_split (fun {xs a left} h x hx => ?_) fun {xs a left} h t ht => ?_
  · cases h
    cases hx
  · cases h
    rwa [trees_symbols] at ht

instance makes_popCount (n : Nat) : Makes m (popCount n) := by
  rw [popCount_eq]
  refine makes_split (fun {xs a left} h x hx => ?_) fun {xs a left} h t ht => ?_
  · split at h <;> cases h
    exact List.mem_of_mem_drop hx
  · split at h <;> cases h
    rw [trees_symbols] at ht
    exact List.mem_of_mem_take ht

instance makes_push {x : Symbol} [h : AllMade m x] : Makes m (push x) where
  keeps hs hr := by
    cases hr
    refine ⟨⟨hs.reached, fun y hy => ?_, hs.substitutions⟩, allMade_treeless _⟩
    rcases List.mem_cons.mp hy with rfl | hy
    · exact allMade_symbol.mp h
    · exact hs.operands y hy

instance makes_pushCopies {n : Nat} {x : Symbol} [h : AllMade m x] : Makes m (pushCopies n x) where
  keeps hs hr := by
    cases hr
    refine ⟨⟨hs.reached, fun y hy => ?_, hs.substitutions⟩, allMade_treeless _⟩
    rcases List.mem_append.mp hy with hy | hy
    · rw [List.eq_of_mem_replicate hy]
      exact allMade_symbol.mp h
    · exact hs.operands y hy

instance makes_remember {x : Symbol} [h : AllMade m x] : Makes m (remember x) where
  keeps hs hr := by
    cases hr
    refine ⟨⟨hs.reached, hs.operands, fun y hy => ?_⟩, h⟩
    rcases Array.mem_push.mp hy with hy | rfl
    · exact hs.substitutions y hy
    · exact allMade_symbol.mp h

instance makes_substitution (i : Nat) : Makes m (substitution i) where
  keeps {s a s'} hs hr := by
    obtain ⟨t, u, h₁, h₂⟩ := bind_eq_ok hr
    cases h₁
    obtain ⟨ha, rfl⟩ := require_eq_ok h₂
    exact ⟨hs, allMade_symbol.mpr (hs.substitutions a (Array.mem_of_getElem? ha))⟩

instance makes_indexNode : Makes m indexNode := by
  unfold indexNode
  infer_instance

/-! ## Operands with a role -/

/-- A type on top of the operands, and what it holds. -/
theorem first_of_type {x c : Symbol} (hx : AllMade m x) (hk : x.kind = .type)
    (hc : x.first? = some c) : AllMade m c :=
  allMade_symbol.mpr ((allMade_symbol.mp hx).first (by rw [hk]; rfl) hc)

instance makes_popType : Makes m popType :=
  makes_popKind _

instance makes_popTypeChild : Makes m popTypeChild := by
  refine makes_bind_of popKind_kind fun x hk hx => ?_
  have : AllMade m x.first? := allMade_option.mpr fun _ hc => first_of_type hx hk hc
  infer_instance

instance makes_popAnyGeneric : Makes m popAnyGeneric := by
  unfold popAnyGeneric
  infer_instance

instance makes_popDeclName : Makes m popDeclName :=
  makes_popIf _

instance makes_popEntity : Makes m popEntity :=
  makes_popIf _

instance makes_popSignature? : Makes m popSignature? :=
  makes_popKind? _

instance makes_popModule? : Makes m popModule? := by
  refine makes_bind_of popKind?_kind fun o hk ho => ?_
  cases o with
  | none => infer_instance
  | some x =>
    have : AllMade m (x.renamed .moduleName []) := by
      refine allMade_symbol.mpr (Made.renamed ?_ ?_ rfl (List.forall_mem_nil _))
      · exact allMade_symbol.mp (allMade_option.mp ho x rfl)
      · rw [hk x rfl]
        rfl
    infer_instance

instance makes_popModule : Makes m popModule := by
  unfold popModule
  infer_instance

/-- A module that was popped is one, also where it stood as an identifier. -/
theorem popModule_kind {s s' : State} {x : Symbol} (h : popModule s = .ok x s') :
    x.kind = .moduleName := by
  obtain ⟨o, t, ho, h⟩ := bind_eq_ok h
  obtain ⟨rfl, -⟩ := require_eq_ok h
  obtain ⟨name, u, -, ho⟩ := bind_eq_ok ho
  cases name with
  | some name =>
    cases ho
    rfl
  | none => exact popKind?_kind ho x rfl

instance makes_popContext : Makes m popContext := by
  refine Makes.then fun o ho => ?_
  cases o with
  | some x =>
    have := allMade_option.mp ho x rfl
    infer_instance
  | none =>
    refine makes_bind_of popKind?_kind fun o hk ho => ?_
    cases o with
    | none => infer_instance
    | some x =>
      have : AllMade m x.first? := allMade_option.mpr fun _ hc =>
        first_of_type (allMade_option.mp ho x rfl) (hk x rfl) hc
      infer_instance

/-! ## Lists of operands -/

instance makes_popMarked {item : Decode α} [Makes m item] (n : Nat) :
    ∀ (acc : List α) [AllMade m acc], Makes m (popMarked item n acc) := by
  induction n with
  | zero => exact fun _ => makes_refuse
  | succ n ih =>
    intro acc _
    refine Makes.then fun first _ => Makes.then fun x hx => ?_
    have := ih (x :: acc)
    infer_instance

instance makes_popElements {item : Decode α} [Makes m item] : Makes m (popElements item) := by
  unfold popElements
  infer_instance

instance makes_popList {item : Decode α} [Makes m item] : Makes m (popList item) := by
  unfold popList
  infer_instance

omit [HasTrees α] in
/-- What is known of every item holds of all that are popped. -/
theorem popMarked_all {item : Decode α} {R : α → Prop} (hitem : ∀ {s a s'}, item s = .ok a s' → R a)
    (n : Nat) : ∀ {acc as : List α} {s s' : State}, (∀ a ∈ acc, R a) →
      popMarked item n acc s = .ok as s' → ∀ a ∈ as, R a := by
  induction n with
  | zero =>
    intro acc as s s' _ h
    cases h
  | succ n ih =>
    intro acc as s s' hacc h
    obtain ⟨first, t, -, h⟩ := bind_eq_ok h
    obtain ⟨a, u, ha, h⟩ := bind_eq_ok h
    have hall : ∀ b ∈ a :: acc, R b := List.forall_mem_cons.mpr ⟨hitem ha, hacc⟩
    split at h
    · cases h
      exact hall
    · exact ih hall h

omit [HasTrees α] in
theorem popList_all {item : Decode α} {R : α → Prop} (hitem : ∀ {s a s'}, item s = .ok a s' → R a)
    {as : List α} {s s' : State} (h : popList item s = .ok as s') : ∀ a ∈ as, R a := by
  obtain ⟨empty, t, -, h⟩ := bind_eq_ok h
  split at h
  · cases h
    exact List.forall_mem_nil R
  · obtain ⟨u, v, -, h⟩ := bind_eq_ok h
    exact popMarked_all hitem _ (List.forall_mem_nil R) h

/-- A list of types is a list node that holds types. -/
theorem popTypeList_types {s s' : State} {x : Symbol} (h : popTypeList s = .ok x s') :
    x.kind = .typeList ∧ ∀ c ∈ x.children, c.kind = .type := by
  obtain ⟨types, t, h₁, h⟩ := bind_eq_ok h
  cases h
  exact ⟨rfl, popList_all popKind_kind h₁⟩

instance makes_popTypeList : Makes m popTypeList := by
  unfold popTypeList
  infer_instance

instance makes_popTupleElement : Makes m popTupleElement := by
  unfold popTupleElement
  infer_instance

instance makes_popTuple : Makes m popTuple := by
  unfold popTuple
  infer_instance

end Decode

end Demangle
