/-!
# Changes to a parameter

A function signature specialization records, for each parameter, what it did to it. The eight
exclusive changes are numbered 0 to 7; the others are flags, which combine by bitwise or.
-/

namespace Demangle

/-- What a specialization did to one parameter of a function. -/
inductive ParamChange where
  | constantFunction
  | constantGlobal
  | constantInteger
  | constantFloat
  | constantString
  | closure
  | boxToValue
  | boxToStack
  | dead
  | ownedToGuaranteed
  | exploded
  | guaranteedToOwned
  | existentialToGeneric
  deriving DecidableEq, Inhabited, Repr

namespace ParamChange

/-- Every change. -/
def all : List ParamChange :=
  [.constantFunction, .constantGlobal, .constantInteger, .constantFloat, .constantString, .closure,
   .boxToValue, .boxToStack, .dead, .ownedToGuaranteed, .exploded, .guaranteedToOwned,
   .existentialToGeneric]

/-- The changes that do not combine with others. -/
def exclusive : List ParamChange :=
  [.constantFunction, .constantGlobal, .constantInteger, .constantFloat, .constantString, .closure,
   .boxToValue, .boxToStack]

/-- The flags, in the order in which a combination lists them. -/
def flags : List ParamChange :=
  [.existentialToGeneric, .dead, .ownedToGuaranteed, .guaranteedToOwned, .exploded]

/-- The number that stands for a change. -/
def value : ParamChange → UInt64
  | .constantFunction => 0
  | .constantGlobal => 1
  | .constantInteger => 2
  | .constantFloat => 3
  | .constantString => 4
  | .closure => 5
  | .boxToValue => 6
  | .boxToStack => 7
  | .dead => 64
  | .ownedToGuaranteed => 128
  | .exploded => 256
  | .guaranteedToOwned => 512
  | .existentialToGeneric => 1024

/-- The change with exactly the given number; a combination of flags has none. -/
def ofValue? (n : UInt64) : Option ParamChange :=
  all.find? (·.value == n)

/-- The changes whose payload is an identifier among the operands. -/
def takesPayload : ParamChange → Bool
  | .constantFunction | .constantGlobal | .constantString | .closure => true
  | _ => false

/-- The change in words. -/
def description : ParamChange → String
  | .constantFunction => "Constant Propagated Function"
  | .constantGlobal => "Constant Propagated Global"
  | .constantInteger => "Constant Propagated Integer"
  | .constantFloat => "Constant Propagated Float"
  | .constantString => "Constant Propagated String"
  | .closure => "Closure Propagated"
  | .boxToValue => "Value Promoted from Box"
  | .boxToStack => "Stack Promoted from Box"
  | .dead => "Dead"
  | .ownedToGuaranteed => "Owned To Guaranteed"
  | .exploded => "Exploded"
  | .guaranteedToOwned => "Guaranteed To Owned"
  | .existentialToGeneric => "Existential To Protocol Constrained Generic"

end ParamChange

end Demangle
