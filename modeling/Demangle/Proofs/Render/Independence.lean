import Demangle.Proofs.Render.Guard

/-!
# What a rendering does not depend on

Printing a node appends a text that does not depend on what is written already, although entities look at
the size of the buffer and specializations at a mark that all of them share (`printName_appends`).
And it does not depend on a switch of the options that governs no node of the tree:

    o.SameFor o' s → render o s = render o' s                              (render_of_sameFor)

The same holds for what is read of texts that are not in the tree (`renderWith_congr`).
-/

namespace Demangle

variable {g : Guard} {embedded embedded' : String → String} {o o' : Options} {s : Symbol}

/-! ## What is written already -/

/-- **Printing only appends**, and what it appends, gives back and marks is the same behind every text. -/
theorem printName_appends (g : Guard) (embedded : String → String) (o : Options) (n : Nat)
    (s : Symbol) (asContext specialized : Bool) (depth : Nat) :
    ∃ (out : String) (deferred : Option Symbol) (specialized' : Bool), ∀ w : String,
      printName g embedded o n s asContext ⟨w, specialized, depth⟩ =
        (deferred, ⟨w ++ out, specialized', depth⟩) := by
  let b : Buffer := ⟨"", specialized, depth⟩
  let r := printName g embedded o n s asContext b
  refine ⟨r.2.text, r.1, r.2.specialized, fun w => ?_⟩
  have alike : Alike w depth (printName g embedded o n s asContext)
      (printName g embedded o n s asContext) :=
    alike_printName n depth s asContext (.refl o s) (.refl s embedded)
  have hdepth : r.2.depth = depth := alike.depth b rfl
  have hw : b.after w = ⟨w, specialized, depth⟩ := by
    simp [b, Buffer.after]
  calc printName g embedded o n s asContext ⟨w, specialized, depth⟩
    _ = printName g embedded o n s asContext (b.after w) := by rw [hw]
    _ = (r.1, r.2.after w) := alike.run b rfl
    _ = (r.1, ⟨w ++ r.2.text, r.2.specialized, depth⟩) := by rw [← hdepth]; rfl

/-! ## Switches and texts -/

theorem renderWith_congr (ho : o.SameFor o' s) (he : s.ReadAlike embedded embedded') :
    renderWith g embedded o s = renderWith g embedded' o' s := by
  have alike : Alike "" 0 (printName g embedded o g.limit s false)
      (printName g embedded' o' g.limit s false) := alike_printName g.limit 0 s false ho he
  have hrun := alike.run {} rfl
  rw [Buffer.after_empty, Buffer.after_empty] at hrun
  unfold renderWith
  rw [hrun]

theorem renderWith_of_sameFor (h : o.SameFor o' s) :
    renderWith g embedded o s = renderWith g embedded o' s :=
  renderWith_congr h (.refl s embedded)

/-- A rendering depends on the switches that govern a node of the tree only. Names inside its texts are
rendered with options of their own. -/
theorem render_of_sameFor (h : o.SameFor o' s) : render o s = render o' s :=
  renderWith_of_sameFor h

/-- Two positions of a switch are the same for a tree in which it governs nothing. -/
theorem sameFor_set {b : Switch} (h : ∀ n ∈ s.nodes, b.governs n = false) (on on' : Bool) :
    (o.set b on).SameFor (o.set b on') s := by
  intro n hn b' hb'
  rw [Options.get_set, Options.get_set]
  split
  · next hb =>
    subst hb
    rw [h n hn] at hb'
    cases hb'
  · rfl

/-- A tree that is not rendered alike in both positions of the switch, for all but the one that is kept
for archetypes. -/
def Switch.sample : Switch → Symbol
  | .sugarTypes => .node .boundGenericEnum
      [.standardType .enumType "Optional", .node .typeList [.ofText .builtinTypeName "T"]]
  | .debuggerModules => .node .classType
      [.ofText .moduleName "__lldb_expr_1", .ofText .identifier "C"]
  | .qualifyEntities => .node .classType [.ofText .moduleName "M", .ofText .identifier "C"]
  | .extensionContexts => .node .extension [.ofText .moduleName "M", .ofText .identifier "C"]
  | .unmangledSuffix => .ofText .suffix ".cold"
  | .moduleNames => .ofText .moduleName "M"
  | .genericSpecializations => .leaf .genericSpecialization
  | .protocolConformances => .node .protocolConformance
      [.ofText .identifier "C", .ofText .identifier "P", .ofText .moduleName "M"]
  | .whereClauses => .node .dependentGenericSignature
      [.node .dependentGenericConformanceRequirement
        [.ofText .dependentGenericParamType "A", .ofText .identifier "P"]]
  | .entityTypes => .node .variableDecl
      [.ofText .moduleName "M", .ofText .identifier "x",
       .node .type [.ofText .builtinTypeName "T"]]
  | .shortenPartialApply => .leaf .partialApplyForwarder
  | .shortenThunk => .leaf .mergedFunction
  | .shortenValueWitness => .leaf .valueWitness
  | .shortenArchetype => .leaf .emptyList
  | .privateDiscriminators => .node .privateDeclName
      [.ofText .identifier "D", .ofText .identifier "x"]
  | .argumentTypes => .node .argumentTuple [.ofText .builtinTypeName "T"]

theorem Switch.sample_differs {b : Switch} (h : b ≠ .shortenArchetype) :
    render (Options.full.set b true) b.sample ≠ render (Options.full.set b false) b.sample := by
  cases b with
  | shortenArchetype => exact absurd rfl h
  | _ => decide +kernel

/-- **A switch changes the rendering of the nodes that it governs only.** A tree without such a node is
rendered alike in both positions of the switch, whatever the others are; and each switch but the one that
is kept for archetypes does change something. -/
theorem switch_changes_governed (b : Switch) :
    (∀ (s : Symbol) (o : Options), (∀ n ∈ s.nodes, b.governs n = false) →
      render (o.set b true) s = render (o.set b false) s) ∧
    (b ≠ .shortenArchetype → ∃ (s : Symbol) (o : Options),
      render (o.set b true) s ≠ render (o.set b false) s) :=
  ⟨fun _ _ h => render_of_sameFor (sameFor_set h true false),
    fun h => ⟨b.sample, .full, Switch.sample_differs h⟩⟩

/-- A class has no short form, not even one called `Optional`. -/
theorem switch_changes_governed_class :
    let s : Symbol := .node .boundGenericClass
      [.standardType .classType "Optional", .node .typeList [.ofText .builtinTypeName "T"]]
    (∀ n ∈ s.nodes, Switch.sugarTypes.governs n = false) ∧
      render (Options.full.set .sugarTypes true) s = render (Options.full.set .sugarTypes false) s ∧
      ∃ (s : Symbol) (o : Options),
        render (o.set .sugarTypes true) s ≠ render (o.set .sugarTypes false) s := by
  intro s
  have hfree : ∀ n ∈ s.nodes, Switch.sugarTypes.governs n = false := by decide +kernel
  obtain ⟨alike, differs⟩ := switch_changes_governed .sugarTypes
  exact ⟨hfree, alike s .full hfree, differs nofun⟩

end Demangle
