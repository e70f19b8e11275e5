import Demangle.Kind.Name
import Demangle.Symbol.Basic
import Demangle.Text.Escape

/-!
# Dumps of a symbol tree

A dump has one line per node in preorder: two blanks per level, the kind, then ` #` and the index or
a blank and the quoted text if the node carries one. The written form of a text is a parameter, `quote`;
`dump` takes `Text.quote` for it.
-/

namespace Demangle

/-- What a dump shows of a payload. -/
def Payload.dump (quote : String → String) : Payload → String
  | .none => ""
  | .index n => " #" ++ toString n
  | .text s => " " ++ quote s

namespace Symbol

/-- The line of one node. -/
def dumpLine (quote : String → String) (level : Nat) (kind : Kind) (payload : Payload) : String :=
  String.ofList (List.replicate (2 * level) ' ') ++ kind.name ++ payload.dump quote ++ "\n"

mutual

/-- The dump of a tree whose root stands at the given level. -/
def dumpAt (quote : String → String) (level : Nat) : Symbol → String
  | ⟨kind, payload, children, _⟩ =>
    dumpLine quote level kind payload ++ dumpAll quote (level + 1) children

/-- The dumps of several trees at one level. -/
def dumpAll (quote : String → String) (level : Nat) : List Symbol → String
  | [] => ""
  | c :: cs => dumpAt quote level c ++ dumpAll quote level cs

end

/-- The dump of a tree with texts in the given written form. -/
def dumpWith (quote : String → String) (s : Symbol) : String :=
  dumpAt quote 0 s

/-- The dump of a tree. -/
def dump (s : Symbol) : String :=
  dumpWith Text.quote s

end Symbol

end Demangle
