/-!
# Faults

Decoding a mangled name is all or nothing: the first fault ends it. A fault is a cause together with
the byte offset at which it was noticed, and `Fault.message` is its one-line description.
-/

namespace Demangle

/-- Why a mangled name was refused. -/
inductive Cause where
  /-- The input stops in the middle of a production. -/
  | ended
  /-- The grammar asks for something else here. -/
  | expected (what : String)
  /-- The operands, or a value that was read, break a structural rule. -/
  | malformed
  /-- A decimal integer is missing. -/
  | noInteger
  /-- The mark that should follow is not there. -/
  | missing (what : String)
  /-- A decimal integer does not fit into 64 bits. -/
  | overflow
  deriving DecidableEq, Inhabited, Repr

/-- A cause and the byte offset at which it was noticed. -/
structure Fault where
  cause : Cause
  position : Nat
  deriving DecidableEq, Inhabited, Repr

/-- The cause in words, without its place. -/
def Cause.phrase : Cause → String
  | .ended => "input ended prematurely"
  | .expected what => "expected " ++ what
  | .malformed => "unexpected structure"
  | .noInteger => "expected an integer"
  | .missing what => "no " ++ what ++ " found"
  | .overflow => "integer overflow"

/-- The description of a fault. -/
def Fault.message (f : Fault) : String :=
  f.cause.phrase ++ " at offset " ++ toString f.position

end Demangle
