import Demangle.Proofs.Decode
import Demangle.Proofs.Render.Rules

/-!
# The guard of printing

A call of `printName` opens a node and closes it again, so at a node on level `l` of a tree no more than
`l` nodes are open, also where an entity is printed by one that lies further up. A tree that is not
higher than the limit of a guard is therefore printed in full, and another guard that is no tighter does
not change anything (`alike_guards`, `renderWith_of_fits`):

    s.height ≤ n,  d + s.height ≤ g.limit     Alike w d (printName g …  n  s c) (printName g' … n' s c)
    s.height ≤ n', d + s.height ≤ g'.limit
-/

namespace Demangle

open Symbol (nestingLimit)
open Print (write)

variable {w : String} {d n n' : Nat} {g g' : Guard} {embedded embedded' : String → String} {o o' : Options}
  {s : Symbol} {asContext : Bool}

/-! ## One call -/

/-- One more node is open during the step. -/
theorem alike_opened {α : Type} {x y : Print α} (h : Alike w (d + 1) x y) :
    Alike w d
      (do
        modify fun b => { b with depth := b.depth + 1 }
        let a ← x
        modify fun b => { b with depth := b.depth - 1 }
        return a)
      (do
        modify fun b => { b with depth := b.depth + 1 }
        let a ← y
        modify fun b => { b with depth := b.depth - 1 }
        return a) where
  run b hb := by
    have hy := h.run { b with depth := b.depth + 1 } (congrArg (· + 1) hb)
    show ((y (Buffer.after { b with depth := b.depth + 1 } w)).1,
      { (y (Buffer.after { b with depth := b.depth + 1 } w)).2 with
        depth := (y (Buffer.after { b with depth := b.depth + 1 } w)).2.depth - 1 }) = _
    rw [hy]
    rfl
  depth b hb := by
    have hx := h.depth { b with depth := b.depth + 1 } (congrArg (· + 1) hb)
    show (x { b with depth := b.depth + 1 }).2.depth - 1 = d
    omega

theorem printName_defers (n : Nat) : Defers ⟨o, printName g embedded o n, embedded⟩ := by
  induction n with
  | zero => exact fun _ _ => .then fun _ => .pure nofun
  | succ n ih =>
    intro s asContext
    refine .then fun b => .ite (.then fun _ => .pure nofun) ?_
    refine .then fun _ => (node_defers ih asContext).bind fun deferred h => ?_
    exact .then fun _ => .pure h

/-- A call does what another one does if their guards let the node pass, their options and their readings
of names are the same for it and the calls for all nodes below do the same. -/
theorem alike_printName_succ (hg : d < g.limit) (hg' : d < g'.limit) (ho : o.SameFor o' s)
    (he : s.ReadAlike embedded embedded')
    (h : ∀ m : Symbol, m.Below s → ∀ c,
      Alike w (d + 1) (printName g embedded o n m c) (printName g' embedded' o' n' m c)) :
    Alike w d (printName g embedded o (n + 1) s asContext)
      (printName g' embedded' o' (n' + 1) s asContext) := by
  have : Agree w (d + 1) ⟨o, printName g embedded o n, embedded⟩
      ⟨o', printName g' embedded' o' n', embedded'⟩ s := ⟨h⟩
  refine alike_get fun b hb => ?_
  rw [if_neg (by omega), if_neg (by show ¬ g'.limit ≤ b.depth; omega)]
  apply alike_opened
  apply alike_node (printName_defers n)
  · exact ho
  · exact he

/-! ## All calls -/

/-- **What a call does does not depend on what is written already, on switches that govern no node of the
tree or on how texts outside of the tree are read, and it closes the nodes that it opens.** -/
theorem alike_printName (n : Nat) : ∀ (d : Nat) (s : Symbol) (asContext : Bool), o.SameFor o' s →
    s.ReadAlike embedded embedded' →
      Alike w d (printName g embedded o n s asContext) (printName g embedded' o' n s asContext) := by
  have cut : ∀ d, Alike w d (do write g.ellipsis; return (none : Option Symbol))
      (do write g.ellipsis; return none) := inferInstance
  induction n with
  | zero => exact fun d _ _ _ _ => cut d
  | succ n ih =>
    intro d s asContext ho he
    by_cases hd : g.limit ≤ d
    · refine alike_get fun b hb => ?_
      rw [if_pos (by omega), if_pos (by show g.limit ≤ b.depth; omega)]
      exact cut d
    · exact alike_printName_succ (by omega) (by omega) ho he fun m hm c =>
        ih (d + 1) m c (ho.below hm) (he.below hm)

/-- **A guard that a tree fits in does not matter.** -/
theorem alike_guards (n : Nat) : ∀ {d n' : Nat} {s : Symbol} (asContext : Bool),
    s.height ≤ n → s.height ≤ n' → d + s.height ≤ g.limit → d + s.height ≤ g'.limit →
      Alike w d (printName g embedded o n s asContext) (printName g' embedded o n' s asContext) := by
  induction n with
  | zero =>
    intro d n' s asContext hn
    rw [Symbol.height_eq s] at hn
    omega
  | succ n ih =>
    intro d n' s asContext hn hn' hg hg'
    have hpos : 0 < s.height := by rw [Symbol.height_eq s]; omega
    obtain ⟨n', rfl⟩ := Nat.exists_eq_add_one_of_ne_zero (show n' ≠ 0 by omega)
    refine alike_printName_succ (by omega) (by omega) (.refl o s) (.refl s embedded) fun m hm c => ?_
    have hlt := hm.height_lt
    exact ih c (by omega) (by omega) (by omega) (by omega)

/-! ## Whole trees -/

@[simp] theorem Buffer.after_empty (b : Buffer) : b.after "" = b := by
  simp [Buffer.after]

theorem printName_depth (n : Nat) (b : Buffer) :
    (printName g embedded o n s asContext b).2.depth = b.depth :=
  (alike_printName (w := "") n b.depth s asContext (.refl o s) (.refl s embedded)).depth b rfl

theorem printName_of_fits (hg : nestingLimit ≤ g.limit) (hs : s.height ≤ nestingLimit) {b : Buffer}
    (hb : b.depth = 0) : printName g embedded o g.limit s asContext b =
      printName .standard embedded o nestingLimit s asContext b := by
  have key : Alike "" 0 (printName .standard embedded o nestingLimit s asContext)
      (printName g embedded o g.limit s asContext) :=
    alike_guards nestingLimit asContext hs (by omega) (by simpa [Guard.standard] using hs) (by omega)
  have hrun := key.run b hb
  rw [Buffer.after_empty, Buffer.after_empty] at hrun
  exact hrun

theorem renderWith_of_fits (hg : nestingLimit ≤ g.limit) (hs : s.height ≤ nestingLimit) :
    renderWith g embedded o s = renderWith .standard embedded o s := by
  unfold renderWith
  rw [printName_of_fits hg hs rfl]
  rfl

theorem decode_height {m : String} (h : decode m = .ok s) : s.height ≤ nestingLimit := by
  obtain ⟨hwf, hroot⟩ := decode_wellFormed h
  rw [hwf.exact.height_eq_depth]
  exact hroot.depth

/-- Names inside texts are decoded, so they fit as well. -/
theorem readEmbedded_of_le (hg : nestingLimit ≤ g.limit) (depth : Nat) :
    readEmbedded g depth = readEmbedded .standard depth := by
  induction depth with
  | zero => rfl
  | succ depth ih =>
    funext text
    unfold readEmbedded
    rw [ih]
    cases h : decode text with
    | error f => rfl
    | ok s => exact renderWith_of_fits hg (decode_height h)

/-- **No guard cuts a tree of admissible height.** The text of a tree that is not higher than a decoded
tree can be is the same for all guards that are no tighter than the usual one, whatever they write in
place of a node, and so is all else that printing it does. Every call closes the nodes that it opens. -/
theorem guard_never_cuts :
    (∀ (g : Guard) (s : Symbol) (o : Options), nestingLimit ≤ g.limit → s.height ≤ nestingLimit →
      g.render o s = render o s ∧
        ∀ (embedded : String → String) (asContext : Bool) (b : Buffer), b.depth = 0 →
          printName g embedded o g.limit s asContext b =
            printName .standard embedded o Guard.standard.limit s asContext b) ∧
      ∀ (g : Guard) (embedded : String → String) (o : Options) (n : Nat) (s : Symbol)
        (asContext : Bool) (b : Buffer),
        (printName g embedded o n s asContext b).2.depth = b.depth := by
  refine ⟨fun g s o hg hs => ⟨?_, fun embedded asContext b hb => printName_of_fits hg hs hb⟩,
    fun g embedded o n s asContext b => printName_depth n b⟩
  unfold render Guard.render
  rw [readEmbedded_of_le hg]
  exact renderWith_of_fits hg hs

/-- A tree as high as can be: a name inside 1023 types. -/
theorem guard_never_cuts_types :
    (Nat.repeat (fun s => .node .type [s]) 1023 (.ofText .identifier "x") : Symbol).height =
        nestingLimit ∧
      (Guard.mk 5000 "…").render .full (Nat.repeat (fun s => .node .type [s]) 1023
          (.ofText .identifier "x")) =
        render .full (Nat.repeat (fun s => .node .type [s]) 1023 (.ofText .identifier "x")) ∧
      (printName .standard id .full 1024 (.leaf .emptyList) true { depth := 7 }).2.depth = 7 := by
  have height : (Nat.repeat (fun s => .node .type [s]) 1023 (.ofText .identifier "x") :
      Symbol).height = nestingLimit := by decide +kernel
  obtain ⟨fits, closes⟩ := guard_never_cuts
  exact ⟨height, (fits ⟨5000, "…"⟩ _ .full (by decide) height.le).1, closes _ _ _ _ _ _ _⟩

-- one node more than the guard lets be open
example : (Guard.mk 3 "…").render .full (Nat.repeat (fun s => .node .type [s]) 3
    (.ofText .identifier "x")) = "…" := by decide +kernel

end Demangle
