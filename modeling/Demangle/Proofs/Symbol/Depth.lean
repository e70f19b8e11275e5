import Demangle.Symbol.Basic
import Mathlib.Data.List.InsertIdx
import Mathlib.Data.List.Perm.Basic

/-!
# Depth and height

Every node stores its depth, and the constructions keep it without walking the tree. `height` is the
walk: the number of nodes on the longest path down to a leaf. A tree is `Exact` if each of its nodes
stores its own height.

    s.Exact ↔ s.depth = 1 + maxDepth s.children ∧ ∀ c ∈ s.children, c.Exact      (exact_iff)

Whatever is made by the constructions of `Demangle.Symbol.Basic`, in any order, is exact
(`Constructed.exact`): `push` and `insert` take a maximum, the others compute the depth anew, and
turning the children around does not change it.
-/

namespace Demangle.Symbol

/-! ## Walks -/

mutual

/-- The number of nodes on the longest path down to a leaf. -/
def height : Symbol → Nat
  | ⟨_, _, children, _⟩ => 1 + maxHeight children

/-- The greatest height in a list of trees, 0 if there are none. -/
def maxHeight : List Symbol → Nat
  | [] => 0
  | c :: cs => max c.height (maxHeight cs)

end

mutual

/-- The nodes of a tree, the root first. -/
def nodes : Symbol → List Symbol
  | ⟨kind, payload, children, depth⟩ => ⟨kind, payload, children, depth⟩ :: allNodes children

/-- The nodes of several trees. -/
def allNodes : List Symbol → List Symbol
  | [] => []
  | c :: cs => c.nodes ++ allNodes cs

end

/-- Every node of the tree stores its own height. -/
def Exact (s : Symbol) : Prop :=
  ∀ n ∈ s.nodes, n.depth = n.height

/-! ## Lemmas -/

/-- **Induction over a tree**, with the hypothesis at every child. -/
theorem treeInduction {motive : Symbol → Prop}
    (step : ∀ s : Symbol, (∀ c ∈ s.children, motive c) → motive s) (s : Symbol) : motive s := by
  refine @Symbol.rec motive (fun cs => ∀ c ∈ cs, motive c) ?_ ?_ ?_ s
  · intro kind payload children depth ih
    exact step ⟨kind, payload, children, depth⟩ ih
  · intro c hc
    cases hc
  · intro c cs hc hcs d hd
    rcases List.mem_cons.mp hd with rfl | hd
    · exact hc
    · exact hcs d hd

theorem height_eq (s : Symbol) : s.height = 1 + maxHeight s.children := by
  cases s
  rw [height]

theorem mem_allNodes {n : Symbol} {cs : List Symbol} :
    n ∈ allNodes cs ↔ ∃ c ∈ cs, n ∈ c.nodes := by
  induction cs with
  | nil => simp [allNodes]
  | cons c cs ih => simp [allNodes, ih]

theorem mem_nodes {n s : Symbol} : n ∈ s.nodes ↔ n = s ∨ ∃ c ∈ s.children, n ∈ c.nodes := by
  obtain ⟨kind, payload, children, depth⟩ := s
  rw [nodes, List.mem_cons, mem_allNodes]

theorem self_mem_nodes (s : Symbol) : s ∈ s.nodes :=
  mem_nodes.mpr (.inl rfl)

theorem mem_nodes_of_child {n c s : Symbol} (hc : c ∈ s.children) (hn : n ∈ c.nodes) :
    n ∈ s.nodes :=
  mem_nodes.mpr (.inr ⟨c, hc, hn⟩)

theorem depth_le_maxDepth {c : Symbol} {cs : List Symbol} (hc : c ∈ cs) :
    c.depth ≤ maxDepth cs := by
  induction cs with
  | nil => cases hc
  | cons d ds ih =>
    unfold maxDepth
    rcases List.mem_cons.mp hc with rfl | hc
    · omega
    · have := ih hc
      omega

theorem maxDepth_perm {cs ds : List Symbol} (h : cs.Perm ds) : maxDepth cs = maxDepth ds := by
  induction h with
  | nil => rfl
  | cons c _ ih => simp only [maxDepth, ih]
  | swap c d cs =>
    simp only [maxDepth]
    omega
  | trans _ _ ih₁ ih₂ => exact ih₁.trans ih₂

theorem maxHeight_eq_maxDepth {cs : List Symbol} (h : ∀ c ∈ cs, c.depth = c.height) :
    maxHeight cs = maxDepth cs := by
  induction cs with
  | nil => rfl
  | cons c cs ih =>
    have hc := h c List.mem_cons_self
    have hcs := ih fun d hd => h d (List.mem_cons_of_mem _ hd)
    rw [maxHeight, maxDepth, hc, hcs]

/-- A tree is exact if its root stores one more than the greatest depth of its children, and these
are exact. -/
theorem exact_iff (s : Symbol) :
    s.Exact ↔ s.depth = 1 + maxDepth s.children ∧ ∀ c ∈ s.children, c.Exact := by
  have roots : (∀ c ∈ s.children, c.Exact) → maxHeight s.children = maxDepth s.children :=
    fun h => maxHeight_eq_maxDepth fun c hc => h c hc c (self_mem_nodes c)
  constructor
  · intro h
    have hcs : ∀ c ∈ s.children, c.Exact := fun c hc n hn => h n (mem_nodes_of_child hc hn)
    have hs := h s (self_mem_nodes s)
    rw [height_eq, roots hcs] at hs
    exact ⟨hs, hcs⟩
  · rintro ⟨hs, hcs⟩ n hn
    rcases mem_nodes.mp hn with rfl | ⟨c, hc, hn⟩
    · rw [hs, height_eq, roots hcs]
    · exact hcs c hc n hn

theorem Exact.depth_eq {s : Symbol} (h : s.Exact) : s.depth = 1 + maxDepth s.children :=
  ((exact_iff s).mp h).1

theorem Exact.child {s c : Symbol} (h : s.Exact) (hc : c ∈ s.children) : c.Exact :=
  ((exact_iff s).mp h).2 c hc

theorem Exact.height_eq_depth {s : Symbol} (h : s.Exact) : s.height = s.depth :=
  (h s (self_mem_nodes s)).symm

theorem maxDepth_singleton (c : Symbol) : maxDepth [c] = c.depth := by
  simp [maxDepth]

theorem depth_lt_make {c : Symbol} {cs : List Symbol} (k : Kind) (p : Payload) (h : c ∈ cs) :
    c.depth < (make k p cs).depth := by
  have := depth_le_maxDepth h
  rw [depth_make]
  omega

theorem depth_lt_node {c : Symbol} {cs : List Symbol} (k : Kind) (h : c ∈ cs) :
    c.depth < (node k cs).depth :=
  depth_lt_make k .none h

/-! ## Constructions -/

theorem exact_make {k : Kind} {p : Payload} {cs : List Symbol} (h : ∀ c ∈ cs, c.Exact) :
    (make k p cs).Exact :=
  (exact_iff _).mpr ⟨rfl, h⟩

/-- On exact trees `push` computes the depth that `make` would. -/
theorem push_eq_make {s : Symbol} (h : s.depth = 1 + maxDepth s.children) (c : Symbol) :
    s.push c = make s.kind s.payload (s.children ++ [c]) := by
  have hd : max s.depth (c.depth + 1) = 1 + maxDepth (s.children ++ [c]) := by
    rw [maxDepth_append, maxDepth_singleton, h]
    omega
  unfold push make
  rw [hd]

theorem insert_eq_make {s : Symbol} (h : s.depth = 1 + maxDepth s.children) (i : Nat)
    (c : Symbol) :
    s.insert i c =
      make s.kind s.payload (s.children.insertIdx (min i s.children.length) c) := by
  have hp : (s.children.insertIdx (min i s.children.length) c).Perm (c :: s.children) :=
    List.perm_insertIdx c s.children (Nat.min_le_right i s.children.length)
  have hd : max s.depth (c.depth + 1) =
      1 + maxDepth (s.children.insertIdx (min i s.children.length) c) := by
    rw [maxDepth_perm hp, maxDepth, h]
    omega
  unfold insert make
  rw [hd]

theorem reverseChildren_eq_make {s : Symbol} (h : s.depth = 1 + maxDepth s.children) :
    s.reverseChildren = make s.kind s.payload s.children.reverse := by
  unfold reverseChildren make
  rw [maxDepth_perm (List.reverse_perm s.children), ← h]

theorem exact_push {s c : Symbol} (hs : s.Exact) (hc : c.Exact) : (s.push c).Exact := by
  rw [push_eq_make hs.depth_eq]
  apply exact_make
  intro d hd
  rcases List.mem_append.mp hd with hd | hd
  · exact hs.child hd
  · rw [List.mem_singleton.mp hd]
    exact hc

theorem exact_append {s : Symbol} {cs : List Symbol} (hs : s.Exact) (hcs : ∀ c ∈ cs, c.Exact) :
    (s.append cs).Exact := by
  refine exact_make fun d hd => ?_
  rcases List.mem_append.mp hd with hd | hd
  · exact hs.child hd
  · exact hcs d hd

theorem exact_insert {s c : Symbol} (i : Nat) (hs : s.Exact) (hc : c.Exact) :
    (s.insert i c).Exact := by
  rw [insert_eq_make hs.depth_eq]
  apply exact_make
  intro d hd
  rcases List.eq_or_mem_of_mem_insertIdx hd with rfl | hd
  · exact hc
  · exact hs.child hd

theorem exact_setChild {s c : Symbol} (i : Nat) (hs : s.Exact) (hc : c.Exact) :
    (s.setChild i c).Exact := by
  refine exact_make fun d hd => ?_
  rcases List.mem_or_eq_of_mem_set hd with hd | rfl
  · exact hs.child hd
  · exact hc

theorem exact_removeChild {s : Symbol} (i : Nat) (hs : s.Exact) : (s.removeChild i).Exact :=
  exact_make fun _ hd => hs.child (List.mem_of_mem_eraseIdx hd)

theorem exact_reverseChildren {s : Symbol} (hs : s.Exact) : s.reverseChildren.Exact := by
  rw [reverseChildren_eq_make hs.depth_eq]
  exact exact_make fun d hd => hs.child (List.mem_reverse.mp hd)

theorem exact_renamed {s : Symbol} {cs : List Symbol} (k : Kind) (hs : s.Exact)
    (hcs : ∀ c ∈ cs, c.Exact) : (s.renamed k cs).Exact := by
  refine exact_make fun d hd => ?_
  rcases List.mem_append.mp hd with hd | hd
  · exact hs.child hd
  · exact hcs d hd

theorem exact_node {k : Kind} {cs : List Symbol} (h : ∀ c ∈ cs, c.Exact) : (node k cs).Exact :=
  exact_make h

theorem exact_leaf (k : Kind) : (leaf k).Exact :=
  exact_node nofun

theorem exact_single {k : Kind} {c : Symbol} (hc : c.Exact) : (node k [c]).Exact :=
  exact_node (List.forall_mem_singleton.mpr hc)

theorem exact_typed {k : Kind} {cs : List Symbol} (h : ∀ c ∈ cs, c.Exact) :
    (typed k cs).Exact :=
  exact_single (exact_node h)

theorem exact_ofText (k : Kind) (t : String) : (ofText k t).Exact :=
  exact_make fun _ hc => absurd hc List.not_mem_nil

/-! ## Construction in any order -/

/-- A tree made by finitely many constructions in any order. Positions may lie outside the list of
children. -/
inductive Constructed : Symbol → Prop
  | leaf (k : Kind) : Constructed (leaf k)
  | ofText (k : Kind) (t : String) : Constructed (ofText k t)
  | ofIndex (k : Kind) (n : UInt64) : Constructed (ofIndex k n)
  | node {cs : List Symbol} (k : Kind) (hcs : ∀ c ∈ cs, Constructed c) : Constructed (node k cs)
  | typed {cs : List Symbol} (k : Kind) (hcs : ∀ c ∈ cs, Constructed c) :
      Constructed (typed k cs)
  | standardType (k : Kind) (name : String) : Constructed (standardType k name)
  | renamed {s : Symbol} {cs : List Symbol} (k : Kind) (hs : Constructed s)
      (hcs : ∀ c ∈ cs, Constructed c) : Constructed (s.renamed k cs)
  | push {s c : Symbol} (hs : Constructed s) (hc : Constructed c) : Constructed (s.push c)
  | insert {s c : Symbol} (i : Nat) (hs : Constructed s) (hc : Constructed c) :
      Constructed (s.insert i c)
  | setChild {s c : Symbol} (i : Nat) (hs : Constructed s) (hc : Constructed c) :
      Constructed (s.setChild i c)
  | removeChild {s : Symbol} (i : Nat) (hs : Constructed s) : Constructed (s.removeChild i)
  | append {s : Symbol} {cs : List Symbol} (hs : Constructed s)
      (hcs : ∀ c ∈ cs, Constructed c) : Constructed (s.append cs)
  | reverseChildren {s : Symbol} (hs : Constructed s) : Constructed s.reverseChildren

/-- **Depths are heights**, whatever the order of the constructions. -/
theorem Constructed.exact {s : Symbol} (h : Constructed s) : s.Exact := by
  induction h with
  | leaf k => exact exact_leaf k
  | ofText k t => exact exact_ofText k t
  | ofIndex k n => exact exact_make fun _ hc => absurd hc List.not_mem_nil
  | node k _ ih => exact exact_node ih
  | typed k _ ih => exact exact_typed ih
  | standardType k name =>
    refine exact_typed fun c hc => ?_
    rcases List.mem_cons.mp hc with rfl | hc
    · exact exact_ofText _ _
    · rw [List.mem_singleton.mp hc]
      exact exact_ofText _ _
  | renamed k _ _ hs hcs => exact exact_renamed k hs hcs
  | push _ _ hs hc => exact exact_push hs hc
  | insert i _ _ hs hc => exact exact_insert i hs hc
  | setChild i _ _ hs hc => exact exact_setChild i hs hc
  | removeChild i _ hs => exact exact_removeChild i hs
  | append _ _ hs hcs => exact exact_append hs hcs
  | reverseChildren _ hs => exact exact_reverseChildren hs

end Demangle.Symbol
