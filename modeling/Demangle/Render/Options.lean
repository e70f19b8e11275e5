/-!
# Rendering options

Sixteen independent switches. A set of options is also written as a bit mask, the first switch being
bit 0; bits beyond the sixteenth mean nothing.
-/

namespace Demangle

/-- How a symbol tree is rendered. -/
structure Options where
  /-- Write `T?`, `T!`, `[T]` and `[K : V]` for the generic types of the standard library. -/
  sugarTypes : Bool
  /-- Name the modules that a debugger makes. -/
  debuggerModules : Bool
  /-- Write the context of an entity in front of its name. -/
  qualifyEntities : Bool
  /-- Say in which module an extension is declared. -/
  extensionContexts : Bool
  /-- Write the part of the name that is not mangled. -/
  unmangledSuffix : Bool
  /-- Write module names. -/
  moduleNames : Bool
  /-- Spell out each specialization instead of one `specialized `. -/
  genericSpecializations : Bool
  /-- Write the protocol and the module of a conformance. -/
  protocolConformances : Bool
  /-- Write the requirements of generic signatures. -/
  whereClauses : Bool
  /-- Write the types of variables. -/
  entityTypes : Bool
  /-- Write `partial apply` without its kind. -/
  shortenPartialApply : Bool
  /-- Write thunks by their target only. -/
  shortenThunk : Bool
  /-- Write ` for ` in place of ` value witness for `. -/
  shortenValueWitness : Bool
  /-- Kept for archetypes, which have one rendering. -/
  shortenArchetype : Bool
  /-- Write the discriminators of private names. -/
  privateDiscriminators : Bool
  /-- Write the types of the arguments and the result of functions. -/
  argumentTypes : Bool
  deriving DecidableEq, Inhabited, Repr

namespace Options

/-- The switches in the order of their bits. -/
def switches (o : Options) : List Bool :=
  [o.sugarTypes, o.debuggerModules, o.qualifyEntities, o.extensionContexts, o.unmangledSuffix,
   o.moduleNames, o.genericSpecializations, o.protocolConformances, o.whereClauses, o.entityTypes,
   o.shortenPartialApply, o.shortenThunk, o.shortenValueWitness, o.shortenArchetype,
   o.privateDiscriminators, o.argumentTypes]

/-- The number with the given bits, the least significant first. -/
def bitsValue : List Bool → Nat
  | [] => 0
  | b :: bs => b.toNat + 2 * bitsValue bs

/-- The bit mask of a set of options. -/
def toBits (o : Options) : Nat :=
  bitsValue o.switches

/-- The options of a bit mask. -/
def ofBits (n : Nat) : Options where
  sugarTypes := n.testBit 0
  debuggerModules := n.testBit 1
  qualifyEntities := n.testBit 2
  extensionContexts := n.testBit 3
  unmangledSuffix := n.testBit 4
  moduleNames := n.testBit 5
  genericSpecializations := n.testBit 6
  protocolConformances := n.testBit 7
  whereClauses := n.testBit 8
  entityTypes := n.testBit 9
  shortenPartialApply := n.testBit 10
  shortenThunk := n.testBit 11
  shortenValueWitness := n.testBit 12
  shortenArchetype := n.testBit 13
  privateDiscriminators := n.testBit 14
  argumentTypes := n.testBit 15

/-- Everything except the shortenings. -/
def full : Options where
  sugarTypes := true
  debuggerModules := true
  qualifyEntities := true
  extensionContexts := true
  unmangledSuffix := true
  moduleNames := true
  genericSpecializations := true
  protocolConformances := true
  whereClauses := true
  entityTypes := true
  shortenPartialApply := false
  shortenThunk := false
  shortenValueWitness := false
  shortenArchetype := false
  privateDiscriminators := true
  argumentTypes := true

/-- Short names: sugar, qualified entities and the shortenings, nothing else. -/
def simplified : Options where
  sugarTypes := true
  debuggerModules := false
  qualifyEntities := true
  extensionContexts := false
  unmangledSuffix := false
  moduleNames := false
  genericSpecializations := false
  protocolConformances := false
  whereClauses := false
  entityTypes := false
  shortenPartialApply := true
  shortenThunk := true
  shortenValueWitness := true
  shortenArchetype := true
  privateDiscriminators := false
  argumentTypes := false

end Options

end Demangle
