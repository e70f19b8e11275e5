import Demangle.Proofs.Made.Decode

/-!
# Argument tuples and their counts

`popArguments` records the number of parameters in the argument tuple that it makes. Nothing that happens
to a tree afterwards makes the number a wrong one, and stripping labels keeps it. Binding generic arguments
does not: it makes the nodes along the spine of the nominal type anew from their kinds and children, and
an argument tuple among them loses what it carries. By the ways in which trees are made (`Made`):

    decode m = .ok t → every argument tuple in t carries its count, or none and then
                         stands on the spine of a nominal type, and m has a G
-/

namespace Demangle

open Decode

namespace Symbol

/-- The argument tuple carries the number of its parameters. -/
def Counted (n : Symbol) : Prop :=
  ∃ k, n.argumentCount? = some k ∧ n.payload = .index (.ofNat k)

/-- The child at position `i` is the context of the node, or the type that an extension extends. -/
def leadsOn (n : Symbol) (i : Nat) : Bool :=
  i == 0 || (n.kind == .extension && i == 1)

/-- The node `n` occurs in the tree, on the spine of a nominal type or not. -/
inductive Occurs (t : Symbol) : (onSpine : Bool) → (n : Symbol) → Prop
  | root : Occurs t false t
  | child {b : Bool} {n c : Symbol} {i : Nat} (h : Occurs t b n) (hc : n.children[i]? = some c) :
      Occurs t ((b || n.kind.isAnyGeneric) && n.leadsOn i) c

theorem Occurs.trans {t n c : Symbol} {b : Bool} (h : Occurs t b n) (hc : c ∈ n.nodes) :
    ∃ b', Occurs t b' c := by
  induction n using treeInduction generalizing b with
  | step n ih =>
    rcases mem_nodes.mp hc with rfl | ⟨d, hd, hc⟩
    · exact ⟨b, h⟩
    · obtain ⟨i, hi⟩ := List.mem_iff_getElem?.mp hd
      exact ih d hd (h.child hi) hc

/-- Every node of a tree occurs in it. -/
theorem occurs_of_mem_nodes {t n : Symbol} (h : n ∈ t.nodes) : ∃ b, Occurs t b n :=
  Occurs.root.trans h

end Symbol

open Symbol

/-! ## Trees with their counts -/

/-- The argument tuples of a tree carry their counts. On the spine of a nominal type, where the tree stands
if `onSpine`, a name with a `G` may have lost them. -/
inductive KeepsCounts (m : String) : (onSpine : Bool) → Symbol → Prop
  | node {b : Bool} {t : Symbol}
      (own : t.kind = .argumentTuple → t.Counted ∨ t.payload = .none ∧ b = true ∧ 'G' ∈ m.toList)
      (parts : ∀ i c, t.children[i]? = some c →
        KeepsCounts m ((b || t.kind.isAnyGeneric) && t.leadsOn i) c) : KeepsCounts m b t

namespace KeepsCounts

variable {m : String} {b : Bool} {k : Kind} {t c : Symbol}

theorem own (h : KeepsCounts m b t) (hk : t.kind = .argumentTuple) :
    t.Counted ∨ t.payload = .none ∧ b = true ∧ 'G' ∈ m.toList := by
  cases h with
  | node own => exact own hk

theorem part (h : KeepsCounts m b t) {i : Nat} (hc : t.children[i]? = some c) :
    KeepsCounts m ((b || t.kind.isAnyGeneric) && t.leadsOn i) c := by
  cases h with
  | node own parts => exact parts i c hc

/-- On a spine less is known. -/
theorem mono (h : KeepsCounts m b t) : ∀ {b' : Bool}, (b = true → b' = true) → KeepsCounts m b' t := by
  induction h with
  | @node b t own parts ih =>
    intro b' hb
    refine .node (fun hk => (own hk).imp_right fun ⟨hp, hs, hG⟩ => ⟨hp, hb hs, hG⟩) fun i c hc => ?_
    refine ih i c hc fun h => ?_
    simp only [Bool.and_eq_true, Bool.or_eq_true] at h ⊢
    exact ⟨h.1.imp_left hb, h.2⟩

theorem anywhere (h : KeepsCounts m false t) : KeepsCounts m b t :=
  h.mono nofun

/-- Outside of spines all parts of a node that is no nominal type keep their counts. -/
theorem part_off (h : KeepsCounts m false t) (hk : t.kind.isAnyGeneric = false) (hc : c ∈ t.children) :
    KeepsCounts m false c := by
  obtain ⟨i, hi⟩ := List.mem_iff_getElem?.mp hc
  have hpart := h.part hi
  rwa [hk] at hpart

/-- A node of trees that keep their counts wherever they stand. -/
theorem of_own
    (own : t.kind = .argumentTuple → t.Counted ∨ t.payload = .none ∧ b = true ∧ 'G' ∈ m.toList)
    (h : ∀ c ∈ t.children, KeepsCounts m false c) : KeepsCounts m b t :=
  .node own fun _ c hc => (h c (List.mem_of_getElem? hc)).anywhere

theorem of_parts (hk : t.kind ≠ .argumentTuple) (h : ∀ c ∈ t.children, KeepsCounts m false c) :
    KeepsCounts m b t :=
  of_own (fun hk' => absurd hk' hk) h

theorem of_make {p : Payload} {cs : List Symbol} (hk : k ≠ .argumentTuple)
    (h : ∀ c ∈ cs, KeepsCounts m false c) : KeepsCounts m b (make k p cs) :=
  of_parts hk h

theorem number (i : UInt64) : KeepsCounts m b (ofIndex .number i) :=
  of_make (by decide) (List.forall_mem_nil _)

/-- A node on a spine, with the next one as its first child. -/
theorem of_first {p : Payload} {cs : List Symbol} {d : Nat} (hk : k ≠ .argumentTuple)
    (hc : KeepsCounts m b c) (hcs : ∀ c ∈ cs, KeepsCounts m false c) :
    KeepsCounts m b ⟨k, p, c :: cs, d⟩ := by
  refine .node (fun hk' => absurd hk' hk) fun i x hx => ?_
  cases i with
  | zero =>
    cases hx
    exact hc.mono fun hb => by simp [hb, leadsOn]
  | succ i => exact (hcs x (List.mem_of_getElem? hx)).anywhere

/-! ## Binding -/

section Bind

variable {p : Payload} {context : Symbol} {others : List Symbol} {d : Nat}

/-- An argument list holds types that keep their counts. -/
def ArgumentList (m : String) (l : Symbol) : Prop :=
  l.kind = .typeList ∧ KeepsCounts m false l

theorem wrapBound {n args y : Symbol} {s s' : State} (hn : KeepsCounts m b n)
    (hargs : ArgumentList m args) (h : Decode.wrapBound n args s = .ok y s') : KeepsCounts m b y := by
  have hlist : ∀ c ∈ [args], KeepsCounts m false c := List.forall_mem_singleton.mpr hargs.2
  obtain ⟨-, ⟨-, rfl⟩ | rfl | ⟨k, hk, rfl⟩⟩ := wrapBound_cases h
  · exact hn
  · exact of_first (by decide) hn hlist
  · refine of_first ?_ (of_first (by decide) hn (List.forall_mem_nil _)) hlist
    rintro rfl
    cases hk

theorem bindReference {n : Symbol} {lists : List Symbol} (hn : KeepsCounts m b n)
    (hl : ∀ l ∈ lists, ArgumentList m l) : KeepsCounts m b (Decode.bindReference n lists) := by
  refine of_first (by decide) (of_first (by decide) hn (List.forall_mem_nil _))
    (List.forall_mem_singleton.mpr (of_make (by decide) fun c hc => ?_))
  obtain ⟨l, hmem, hc⟩ := List.mem_flatMap.mp hc
  obtain ⟨hk, hlist⟩ := hl l (List.mem_reverse.mp hmem)
  exact hlist.part_off (by rw [hk]; rfl) hc

/-- A node on a spine that is made anew with another context. Here the count of an argument tuple gets
lost. -/
theorem rebuilt (hG : 'G' ∈ m.toList) (hon : (b || k.isAnyGeneric) = true)
    (h : KeepsCounts m b ⟨k, p, context :: others, d⟩) (hc : KeepsCounts m true c) :
    KeepsCounts m b (Symbol.node k (c :: others)) := by
  refine .node (fun hk => .inr ⟨rfl, ?_, hG⟩) fun i x hx => ?_
  · obtain rfl : k = .argumentTuple := hk
    exact (Bool.or_false b).symm.trans hon
  · cases i with
    | zero =>
      cases hx
      exact hc.mono fun _ => (Bool.and_true _).trans hon
    | succ i => exact h.part (i := i + 1) hx

/-- An extension on a spine with another extended type. -/
theorem extension {declaredIn extended e : Symbol} {signature : List Symbol}
    (h : KeepsCounts m true ⟨.extension, p, declaredIn :: extended :: signature, d⟩)
    (he : KeepsCounts m true e) :
    KeepsCounts m true (Symbol.node .extension (declaredIn :: e :: signature.take 1)) := by
  refine .node (fun hk => by cases hk) fun i x hx => ?_
  match i, hx with
  | 0, hx => exact h.part (i := 0) hx
  | 1, hx =>
    cases hx
    exact he
  | i + 2, hx =>
    have hsignature : (signature.take 1)[i]? = some x := hx
    rw [List.getElem?_take] at hsignature
    split at hsignature
    · exact h.part (i := i + 2) hsignature
    · cases hsignature

/-- Binding arguments keeps all counts off the spine. -/
theorem keptByBinding (hG : 'G' ∈ m.toList) : KeptByBinding (KeepsCounts m) (ArgumentList m) where
  reference := bindReference
  wrap := wrapBound
  context h := (h.part (i := 0) rfl).mono fun _ => rfl
  extended h := h.part (i := 1) rfl
  rebuilt hon h _ hc := h.rebuilt hG hon hc
  extension := extension

end Bind

end KeepsCounts

/-! ## Decoded trees -/

/-- **Trees keep the counts of their argument tuples** off the spines of nominal types. -/
theorem Made.keepsCounts {m : String} {t : Symbol} (h : Made m t) : KeepsCounts m false t := by
  induction h with
  | node free parts ih =>
    refine .of_parts ?_ ih
    rintro rfl
    cases free
  | part whole plain hc ih => exact ih.part_off plain hc
  | @push x c whole free last ihx ihc =>
    refine .node ?_ fun i d hd => ?_
    · rintro (hk : x.kind = .argumentTuple)
      rw [hk] at free
      cases free
    · have hparts : (x.children ++ [c])[i]? = some d := hd
      rw [List.getElem?_append] at hparts
      split at hparts
      · exact ihx.part hparts
      · obtain rfl := List.mem_singleton.mp (List.mem_of_getElem? hparts)
        exact ihc.anywhere
  | @arguments params inner parts hi ih =>
    refine .of_own (fun _ => .inl ⟨parameterCount inner, ?_, rfl⟩) (List.forall_mem_singleton.mpr ih)
    exact congrArg (Option.map parameterCount) hi
  | @relabelled tuple params whole hk parts count iha ihp =>
    obtain ⟨n, hn, hp⟩ | ⟨-, hoff, -⟩ := iha.own hk
    · have hcount : (tuple.setChild 0 params).argumentCount? = tuple.argumentCount? := by
        obtain ⟨k, p, cs, d⟩ := tuple
        cases cs with
        | nil => cases hn
        | cons c cs => exact count
      refine .of_own (fun _ => .inl ⟨n, hcount.trans hn, hp⟩) fun c hc => ?_
      rcases List.mem_or_eq_of_mem_set hc with hc | rfl
      · exact iha.part_off (by rw [hk]; rfl) hc
      · exact ihp
    · cases hoff
  | localName hi hn ih =>
    exact .of_make (by decide) (List.forall_mem_cons.mpr ⟨.number _, List.forall_mem_singleton.mpr ih⟩)
  | closure hk hc hi ht ihc iht =>
    refine .of_make ?_ (by simp [KeepsCounts.number, ihc, iht])
    rcases hk with rfl | rfl <;> decide
  | extension hk hd he hs ihd ihe ihs =>
    exact .of_make (by decide) (List.forall_mem_cons.mpr ⟨ihd, List.forall_mem_cons.mpr ⟨ihe, ihs⟩⟩)
  | bound letter nominal generic arguments typeLists h ihx ihl =>
    exact (KeepsCounts.keptByBinding letter).bindArguments (b := false) generic ihx
      (fun l hl => ⟨typeLists l hl, ihl l hl⟩) h

theorem KeepsCounts.of_occurs {m : String} {t n : Symbol} {b : Bool} (h : KeepsCounts m false t)
    (hn : t.Occurs b n) : KeepsCounts m b n := by
  induction hn with
  | root => exact h
  | child _ hc ih => exact ih.part hc

/-- **Argument tuples carry their counts** unless they are made anew. What an argument tuple of a decoded
tree carries is the number of its parameters or nothing; it is the number wherever the tuple stands on the
spine of no nominal type, and everywhere in names without a `G`. -/
theorem argument_counts {m : String} {t : Symbol} (h : decode m = .ok t) :
    (∀ n ∈ t.nodes, n.kind = .argumentTuple → n.Counted ∨ n.payload = .none) ∧
      (∀ n, t.Occurs false n → n.kind = .argumentTuple → n.Counted) ∧
      ('G' ∉ m.toList → ∀ n ∈ t.nodes, n.kind = .argumentTuple → n.Counted) := by
  have hkeeps := (decode_made h).keepsCounts
  refine ⟨fun n hn hk => ?_, fun n hn hk => ?_, fun hG n hn hk => ?_⟩
  · obtain ⟨b, hn⟩ := occurs_of_mem_nodes hn
    exact ((hkeeps.of_occurs hn).own hk).imp_right And.left
  · obtain hcounted | ⟨-, hoff, -⟩ := (hkeeps.of_occurs hn).own hk
    · exact hcounted
    · cases hoff
  · obtain ⟨b, hn⟩ := occurs_of_mem_nodes hn
    obtain hcounted | ⟨-, -, hG'⟩ := (hkeeps.of_occurs hn).own hk
    · exact hcounted
    · exact absurd hG' hG

/-- The argument tuples of a tree, with what they carry. -/
def argumentPayloads (t : Symbol) : List Payload :=
  (t.nodes.filter (·.kind == .argumentTuple)).map payload

theorem argument_counts_function : ∃ t, decode "$s4main3fooyySi1a_SS1btF" = .ok t ∧
    argumentPayloads t = [.index 2] ∧ ∀ n ∈ t.nodes, n.kind = .argumentTuple → n.Counted := by
  have key : (decode "$s4main3fooyySi1a_SS1btF").toOption.map argumentPayloads = some [.index 2] := by
    decide +kernel
  obtain ⟨t, ht, hpayloads⟩ := exists_decode key
  exact ⟨t, ht, hpayloads, (argument_counts ht).2.2 (by decide)⟩

/-- The six empty lists of a structure whose context holds a function type reach below the argument tuple
of that type, which is made anew. -/
theorem argument_counts_lost : ¬∀ (m : String) (t : Symbol), decode m = .ok t →
    ∀ n ∈ t.nodes, n.kind = .argumentTuple → n.Counted := by
  have key : (decode "$syycZ1AVy_____G").toOption.map argumentPayloads = some [.none] := by
    decide +kernel
  obtain ⟨t, ht, hpayloads⟩ := exists_decode key
  intro h
  have hmem : Payload.none ∈ argumentPayloads t := by simp [hpayloads]
  obtain ⟨n, hn, hnone⟩ := List.mem_map.mp hmem
  obtain ⟨hn, hk⟩ := List.mem_filter.mp hn
  obtain ⟨k, -, hindex⟩ := h _ t ht n hn (beq_iff_eq.mp hk)
  rw [hnone] at hindex
  cases hindex

end Demangle
