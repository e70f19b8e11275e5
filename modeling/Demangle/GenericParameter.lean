import Demangle.Symbol.Basic

/-!
# Generic parameters

A generic parameter is a pair of a depth and an index. `parameterName` spells it: the index to the
base 26 in letters, the least significant first, then the depth unless it is 0. So the parameters of
depth 0 are `A`, `B`, ..., `Z`, `AB`, `BB`, ... and those of depth 1 are `A1`, `B1`, ...
-/

namespace Demangle

/-- Digits of `n` to the base 26 as letters, the least significant first. The first argument bounds
their number. -/
def letterDigits : Nat → Nat → List Char
  | 0, _ => []
  | fuel + 1, n =>
    Char.ofNat ('A'.toNat + n % 26) :: (if n / 26 = 0 then [] else letterDigits fuel (n / 26))

/-- The name of a generic parameter: its index in letters, then its depth unless that is 0. -/
def parameterName (depth index : UInt64) : String :=
  String.ofList (letterDigits (index.toNat + 1) index.toNat) ++
    (if depth == 0 then "" else toString depth)

/-- The node of a generic parameter. -/
def parameterType (depth index : UInt64) : Symbol :=
  .make .dependentGenericParamType (.text (parameterName depth index))
    [.ofIndex .index depth, .ofIndex .index index]

end Demangle
