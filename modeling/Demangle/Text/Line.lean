/-!
# Lines

A text is a sequence of lines, each with a body and the way it ends: with a line feed, with a
carriage return and a line feed, or (only the last one) with nothing. `lines` splits and `unlines`
joins:

    unlines (lines cs) = cs                                          (unlines_lines)
-/

namespace Demangle.Text

/-! ## Algorithm -/

/-- How a line ends. -/
inductive LineEnd where
  | none
  | lf
  | crlf
  deriving DecidableEq, Inhabited, Repr

/-- The characters of a line end. -/
def LineEnd.chars : LineEnd → List Char
  | .none => []
  | .lf => ['\n']
  | .crlf => ['\r', '\n']

/-- A line: its body and its end. -/
structure Line where
  body : List Char
  ending : LineEnd
  deriving DecidableEq, Inhabited, Repr

/-- Puts a character in front of the first line. -/
def consLine (c : Char) : List Line → List Line
  | [] => [⟨[c], .none⟩]
  | l :: ls => ⟨c :: l.body, l.ending⟩ :: ls

/-- The lines of a text. A carriage return belongs to the end of a line only if a line feed follows
it; an empty last line is not a line. -/
def lines : List Char → List Line
  | [] => []
  | '\n' :: cs => ⟨[], .lf⟩ :: lines cs
  | '\r' :: '\n' :: cs => ⟨[], .crlf⟩ :: lines cs
  | c :: cs => consLine c (lines cs)

/-- The text of a sequence of lines. -/
def unlines (ls : List Line) : List Char :=
  ls.flatMap fun l => l.body ++ l.ending.chars

/-! ## Lemmas -/

theorem unlines_consLine (c : Char) (ls : List Line) : unlines (consLine c ls) = c :: unlines ls := by
  cases ls <;> simp [unlines, consLine, LineEnd.chars]

theorem unlines_lines (cs : List Char) : unlines (lines cs) = cs := by
  fun_induction lines cs with
  | case1 => rfl
  | case2 cs ih => simpa [unlines, LineEnd.chars] using ih
  | case3 cs ih => simpa [unlines, LineEnd.chars] using ih
  | case4 c cs _ _ ih => rw [unlines_consLine, ih]

end Demangle.Text
