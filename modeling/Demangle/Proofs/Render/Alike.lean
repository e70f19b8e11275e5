import Demangle.Proofs.Symbol.Depth
import Demangle.Render.Printer

/-!
# Steps of printing that do the same

Two steps of printing are `Alike` if the second one, with a text `w` in front of its buffer, does what
the first one does without it: they return the same, append the same and leave the number of open nodes
as it is. Steps put together from such steps are such steps, so it is a class.

    y (b.after w) = ((x b).1, (x b).2.after w)

Printers `Agree` below a node if they print all nodes below it alike. A rule for a node prints nothing but
nodes below, so under two printers that agree it does the same.
-/

namespace Demangle

/-! ## Nodes below a node -/

namespace Symbol

variable {n m s : Symbol}

/-- The first node lies below the second one. -/
def Below (n s : Symbol) : Prop :=
  ∃ c ∈ s.children, n ∈ c.nodes

theorem below_child {c : Symbol} (h : c ∈ s.children) : c.Below s :=
  ⟨c, h, self_mem_nodes c⟩

theorem mem_nodes_iff_below : n ∈ s.nodes ↔ n = s ∨ n.Below s :=
  mem_nodes

theorem mem_nodes_trans (hn : n ∈ m.nodes) (hm : m ∈ s.nodes) : n ∈ s.nodes := by
  induction s using treeInduction with
  | step s ih =>
    rcases mem_nodes.mp hm with rfl | ⟨c, hc, hm⟩
    · exact hn
    · exact mem_nodes_of_child hc (ih c hc hm)

theorem Below.of_mem_nodes (hn : n ∈ m.nodes) (hm : m.Below s) : n.Below s := by
  obtain ⟨c, hc, hm⟩ := hm
  exact ⟨c, hc, mem_nodes_trans hn hm⟩

theorem Below.trans (hn : n.Below m) (hm : m.Below s) : n.Below s :=
  .of_mem_nodes (mem_nodes_iff_below.mpr (.inr hn)) hm

theorem below_of_child? {i : Nat} (h : s.child? i = some n) : n.Below s :=
  below_child (List.mem_of_getElem? h)

theorem below_of_first? (h : s.first? = some n) : n.Below s :=
  below_child (List.mem_of_head? h)

theorem below_of_find? {k : Kind} (h : s.find? k = some n) : n.Below s :=
  below_child (List.mem_of_find?_eq_some h)

theorem height_le_maxHeight {c : Symbol} {cs : List Symbol} (hc : c ∈ cs) :
    c.height ≤ maxHeight cs := by
  induction cs with
  | nil => exact absurd hc List.not_mem_nil
  | cons d ds ih =>
    rw [maxHeight]
    rcases List.mem_cons.mp hc with rfl | hc
    · exact Nat.le_max_left _ _
    · exact Nat.le_trans (ih hc) (Nat.le_max_right _ _)

theorem height_le_of_mem_nodes (hn : n ∈ s.nodes) : n.height ≤ s.height := by
  induction s using treeInduction with
  | step s ih =>
    rcases mem_nodes.mp hn with rfl | ⟨c, hc, hn⟩
    · exact Nat.le_refl _
    · have h₁ := ih c hc hn
      have h₂ := height_le_maxHeight hc
      rw [height_eq s]
      omega

/-- A node below is less high. -/
theorem Below.height_lt (h : n.Below s) : n.height < s.height := by
  obtain ⟨c, hc, hn⟩ := h
  have h₁ := height_le_of_mem_nodes hn
  have h₂ := height_le_maxHeight hc
  rw [height_eq s]
  omega

end Symbol

/-! ## Steps -/

/-- The step returns something with the property, whatever the buffer is. -/
def Returns {α : Type} (R : α → Prop) (x : Print α) : Prop :=
  ∀ b, R (x b).1

section Returns

variable {α β : Type} {R : α → Prop} {S : β → Prop} {x y : Print α}

theorem Returns.pure {a : α} (h : R a) : Returns R (pure a) :=
  fun _ => h

theorem Returns.imp {R' : α → Prop} (hx : Returns R x) (h : ∀ a, R a → R' a) : Returns R' x :=
  fun b => h _ (hx b)

theorem Returns.bind {f : α → Print β} (hx : Returns R x) (hf : ∀ a, R a → Returns S (f a)) :
    Returns S (x >>= f) :=
  fun b => hf _ (hx b) _

theorem Returns.then {f : α → Print β} (hf : ∀ a, Returns S (f a)) : Returns S (x >>= f) :=
  fun _ => hf _ _

theorem Returns.ite {p : Prop} [Decidable p] (hx : Returns R x) (hy : Returns R y) :
    Returns R (if p then x else y) := by
  split
  · exact hx
  · exact hy

theorem Returns.wrote (hx : Returns R x) : Returns (fun r => R r.1) (Print.wrote x) :=
  hx

end Returns

/-- The buffer with a text in front of it. -/
def Buffer.after (b : Buffer) (w : String) : Buffer :=
  { b with text := w ++ b.text }

/-- The two steps do the same while `d` nodes are open, the second one with the text `w` in front. -/
class Alike (w : String) (d : Nat) {α : Type} (x y : Print α) : Prop where
  run : ∀ b : Buffer, b.depth = d → y (b.after w) = ((x b).1, (x b).2.after w)
  depth : ∀ b : Buffer, b.depth = d → (x b).2.depth = d

section Alike

variable {w : String} {d : Nat} {α β : Type} {x y : Print α}

instance alike_pure (a : α) : Alike w d (pure a : Print α) (pure a) where
  run _ _ := rfl
  depth _ h := h

/-- What the first steps return can be known. -/
theorem Alike.then_of {f g : α → Print β} [hx : Alike w d x y] {R : α → Prop}
    (hR : Returns R x) (hf : ∀ a, R a → Alike w d (f a) (g a)) :
    Alike w d (x >>= f) (y >>= g) where
  run b hb := by
    show g (y (b.after w)).1 (y (b.after w)).2 = _
    rw [hx.run b hb]
    exact (hf _ (hR b)).run _ (hx.depth b hb)
  depth b hb := (hf _ (hR b)).depth _ (hx.depth b hb)

theorem Alike.then {f g : α → Print β} [Alike w d x y] (hf : ∀ a, Alike w d (f a) (g a)) :
    Alike w d (x >>= f) (y >>= g) :=
  Alike.then_of (R := fun _ => True) (fun _ => trivial) fun a _ => hf a

instance alike_bind {f g : α → Print β} [Alike w d x y] [∀ a, Alike w d (f a) (g a)] :
    Alike w d (x >>= f) (y >>= g) :=
  Alike.then inferInstance

instance alike_ite {p : Prop} [Decidable p] {x' y' : Print α} [Alike w d x y] [Alike w d x' y'] :
    Alike w d (if p then x else x') (if p then y else y') := by
  split <;> infer_instance

instance alike_write (s : String) : Alike w d (Print.write s) (Print.write s) where
  run b _ := by
    show ((), { b.after w with text := w ++ b.text ++ s }) = _
    rw [String.append_assoc]
    rfl
  depth _ h := h

/-- A text in front does not change whether something was appended. -/
instance alike_wrote [hx : Alike w d x y] : Alike w d (Print.wrote x) (Print.wrote y) where
  run b hb := by
    show (((y (b.after w)).1, (y (b.after w)).2.text.utf8ByteSize != (b.after w).text.utf8ByteSize),
      (y (b.after w)).2) = (((x b).1, (x b).2.text.utf8ByteSize != b.text.utf8ByteSize), (x b).2.after w)
    rw [hx.run b hb]
    have hsize : (((x b).2.after w).text.utf8ByteSize != (b.after w).text.utf8ByteSize) =
        ((x b).2.text.utf8ByteSize != b.text.utf8ByteSize) := by
      simp [Buffer.after, String.utf8ByteSize_append, bne]
    dsimp only
    rw [hsize]
  depth b hb := hx.depth b hb

/-- A step may use the buffer as far as a text in front does not matter. -/
theorem alike_get {f g : Buffer → Print α}
    (h : ∀ b, b.depth = d → Alike w d (f b) (g (b.after w))) :
    Alike w d (get >>= f : Print α) (get >>= g) where
  run b hb := (h b hb).run b hb
  depth b hb := (h b hb).depth b hb

end Alike

/-! ## Readings of nested names -/

/-- The readings are the same for the texts in a tree, and for the empty text, which is read where a
payload is missing. -/
structure Symbol.ReadAlike (s : Symbol) (read read' : String → String) : Prop where
  empty : read "" = read' ""
  text : ∀ n ∈ s.nodes, read n.textD = read' n.textD

namespace Symbol.ReadAlike

variable {s n : Symbol} {read read' : String → String}

theorem refl (s : Symbol) (read : String → String) : s.ReadAlike read read :=
  ⟨rfl, fun _ _ => rfl⟩

theorem below (h : s.ReadAlike read read') (hn : n.Below s) : n.ReadAlike read read' :=
  ⟨h.empty, fun m hm => h.text m (mem_nodes_iff_below.mpr (.inr (hn.of_mem_nodes hm)))⟩

theorem child (h : s.ReadAlike read read') {c : Symbol} (hc : c ∈ s.children) :
    read c.textD = read' c.textD :=
  h.text c (mem_nodes_of_child hc (self_mem_nodes c))

end Symbol.ReadAlike

/-! ## Printers -/

/-- The printers do the same with all nodes below a node. -/
class Agree (w : String) (d : Nat) (P Q : Printer) (s : Symbol) : Prop where
  name : ∀ n : Symbol, n.Below s → ∀ asContext, Alike w d (P.name n asContext) (Q.name n asContext)

section Agree

variable {w : String} {d : Nat} {P Q : Printer} {s : Symbol}

theorem Agree.below (h : Agree w d P Q s) {n : Symbol} (hn : n.Below s) : Agree w d P Q n where
  name m hm := h.name m (hm.trans hn)

theorem Agree.first_first (h : Agree w d P Q s) {n : Symbol}
    (hn : s.first?.bind Symbol.first? = some n) : Agree w d P Q n := by
  obtain ⟨c, hc, hn⟩ := Option.bind_eq_some_iff.mp hn
  exact h.below ((Symbol.below_of_first? hn).trans (Symbol.below_of_first? hc))

theorem Agree.print (h : Agree w d P Q s) {n : Symbol} (hn : n.Below s) :
    Alike w d (P.print n) (Q.print n) := by
  have := h.name n hn false
  unfold Printer.print
  infer_instance

theorem Agree.printAll (h : Agree w d P Q s) {cs : List Symbol} (hcs : cs ⊆ s.children) :
    ∀ c ∈ cs, Alike w d (P.print c) (Q.print c) :=
  fun _ hc => h.print (Symbol.below_child (hcs hc))

instance alike_child [h : Agree w d P Q s] (i : Nat) : Alike w d (P.child s i) (Q.child s i) := by
  unfold Printer.child
  cases hc : s.child? i with
  | none => infer_instance
  | some c => exact h.print (Symbol.below_of_child? hc)

instance alike_childAfter [h : Agree w d P Q s] (lead : String) (i : Nat) :
    Alike w d (P.childAfter lead s i) (Q.childAfter lead s i) := by
  unfold Printer.childAfter
  cases hc : s.child? i with
  | none => infer_instance
  | some c =>
    have := h.print (Symbol.below_of_child? hc)
    infer_instance

theorem alike_separated (separator : String) {cs : List Symbol}
    (h : ∀ c ∈ cs, Alike w d (P.print c) (Q.print c)) :
    Alike w d (P.separated separator cs) (Q.separated separator cs) := by
  induction cs with
  | nil => exact alike_pure ()
  | cons c cs ih =>
    have := h c List.mem_cons_self
    have := ih fun c' hc => h c' (List.mem_cons_of_mem c hc)
    unfold Printer.separated
    infer_instance

theorem alike_sequence (separator : String) {cs : List Symbol}
    (h : ∀ c ∈ cs, Alike w d (P.print c) (Q.print c)) :
    Alike w d (P.sequence separator cs) (Q.sequence separator cs) := by
  cases cs with
  | nil => exact alike_pure ()
  | cons c cs =>
    have := h c List.mem_cons_self
    have := alike_separated separator fun c' hc => h c' (List.mem_cons_of_mem c hc)
    unfold Printer.sequence
    infer_instance

instance alike_sequence_children [h : Agree w d P Q s] (separator : String) :
    Alike w d (P.sequence separator s.children) (Q.sequence separator s.children) :=
  alike_sequence separator (h.printAll (List.Subset.refl _))

instance alike_piece [h : Agree w d P Q s] (p : Piece) : Alike w d (P.piece s p) (Q.piece s p) := by
  cases p with
  | children i separator => exact alike_sequence separator (h.printAll (List.drop_subset i _))
  | _ => unfold Printer.piece; infer_instance

instance alike_pieces [Agree w d P Q s] (ps : List Piece) :
    Alike w d (P.pieces s ps) (Q.pieces s ps) := by
  induction ps with
  | nil => exact alike_pure ()
  | cons p ps ih =>
    unfold Printer.pieces
    infer_instance

end Agree

end Demangle
