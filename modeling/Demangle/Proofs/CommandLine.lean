import Demangle.CommandLine
import Demangle.Proofs.Log

/-!
# The standard input

Without names, a fixture file or `--tree`, the program writes for the standard input what demangling a whole
text gives, once the line ends of the input are made alike (`unifyEnds`). On the one path, line ends are
removed and written anew; on the other, they are kept. The two agree on empty lines, on several carriage
returns in front of a line feed and on a last line without an end:

    s.run fixtures input = ⟨0, Log.text s.options (unifyEnds input)⟩             (run_input_eq_text)
-/

namespace Demangle

open Text

/-! ## Line ends -/

namespace Text

/-- The text without a carriage return in front of each line feed that has one. -/
def dropReturns : List Char → List Char
  | [] => []
  | '\r' :: '\n' :: cs => '\n' :: dropReturns cs
  | c :: cs => c :: dropReturns cs

/-- The text with a line feed behind its last line. -/
def closeText (cs : List Char) : List Char :=
  if cs = [] ∨ cs.getLast? = some '\n' then cs else cs ++ ['\n']

/-- The text with every line ended by a line feed. -/
def unifyEnds (text : String) : String :=
  String.ofList (closeText (dropReturns text.toList))

theorem closeText_cons (c : Char) {cs : List Char} (h : cs ≠ []) :
    closeText (c :: cs) = c :: closeText cs := by
  obtain ⟨d, ds, rfl⟩ := List.exists_cons_of_ne_nil h
  unfold closeText
  simp only [List.getLast?_cons_cons, List.cons_ne_nil, false_or]
  split <;> rfl

theorem closeText_newline (cs : List Char) : closeText ('\n' :: cs) = '\n' :: closeText cs := by
  cases cs with
  | nil => rfl
  | cons c cs => exact closeText_cons '\n' (List.cons_ne_nil c cs)

theorem closeText_single {c : Char} (hc : c ≠ '\n') : closeText [c] = [c, '\n'] := by
  simp [closeText, hc]

theorem dropReturns_ne_nil {cs : List Char} (h : cs ≠ []) : dropReturns cs ≠ [] := by
  unfold dropReturns
  split
  · exact absurd rfl h
  · exact List.cons_ne_nil _ _
  · exact List.cons_ne_nil _ _

/-- With line ends made alike, a text is the bodies of its lines, each with a line feed. -/
theorem closeText_dropReturns (cs : List Char) :
    closeText (dropReturns cs) = (lines cs).flatMap fun l => l.body ++ ['\n'] := by
  fun_induction lines cs with
  | case1 => rfl
  | case2 cs ih =>
    show closeText ('\n' :: dropReturns cs) = _
    rw [closeText_newline, ih]
    rfl
  | case3 cs ih =>
    show closeText ('\n' :: dropReturns cs) = _
    rw [closeText_newline, ih]
    rfl
  | case4 c cs hlf hcrlf ih =>
    have hc : c ≠ '\n' := hlf
    rw [dropReturns.eq_3 c cs hcrlf]
    by_cases hcs : cs = []
    · subst hcs
      exact closeText_single hc
    · obtain ⟨l, ls, hls⟩ := List.exists_cons_of_ne_nil (lines_ne_nil hcs)
      rw [closeText_cons c (dropReturns_ne_nil hcs), ih, hls]
      rfl

end Text

/-! ## The two paths -/

namespace Log

variable {o : Options}

/-- Bodies of lines are demangled one by one. -/
theorem textChars_bodies (ls : List Line) (h : ∀ l ∈ ls, '\n' ∉ l.body) :
    textChars o (ls.flatMap fun l => l.body ++ ['\n']) =
      ls.flatMap fun l => lineChars o l.body ++ ['\n'] := by
  induction ls with
  | nil => rfl
  | cons l ls ih =>
    have hl := h l List.mem_cons_self
    have ih := ih fun m hm => h m (List.mem_cons_of_mem l hm)
    rw [List.flatMap_cons, List.append_assoc, List.singleton_append, textChars_append, ih,
      textChars_eq_mapFields l.body, mapFields_of_not_mem hl]
    simp

end Log

namespace CommandLine

/-- **The standard input is demangled as a text**, with every line ended by a line feed. -/
theorem run_input_eq_text (s : Settings) (fixtures : Option String) (input : String)
    (htree : s.tree = false) (hsymbols : s.symbols = []) (hfixtures : s.fixtures = none) :
    s.run fixtures input = ⟨0, Log.text s.options (unifyEnds input)⟩ := by
  have hrun : s.run fixtures input = ⟨0, s.inputOutput input⟩ := by
    simp [Settings.run, hsymbols, hfixtures]
  have houtput : (s.inputOutput input).toList =
      (lines input.toList).flatMap fun l => Log.lineChars s.options l.body ++ ['\n'] := by
    simp [Settings.inputOutput, Settings.lineOutput, htree, String.toList_join, List.flatMap_map]
  have htext : (Log.text s.options (unifyEnds input)).toList =
      (lines input.toList).flatMap fun l => Log.lineChars s.options l.body ++ ['\n'] := by
    rw [Log.text, unifyEnds, String.toList_ofList, String.toList_ofList, closeText_dropReturns,
      Log.textChars_bodies _ (newline_not_mem_body _)]
  rw [hrun, String.toList_inj.mp (houtput.trans htext.symm)]

theorem run_input_eq_text_switches :
    let input := "0 $sSaySiGD\r\r\n\r\n1 $sSiD\r"
    let s : Settings := { simplified := true, noSugar := true }
    parse ["--simplified", "--no-sugar"] = .proceed s ∧
      unifyEnds input = "0 $sSaySiGD\r\n\n1 $sSiD\r\n" ∧
      s.run none input =
        ⟨0, Log.text { Options.simplified with sugarTypes := false } "0 $sSaySiGD\r\n\n1 $sSiD\r\n"⟩ := by
  intro input s
  have hparse : parse ["--simplified", "--no-sugar"] = .proceed s := by decide +kernel
  have hends : unifyEnds input = "0 $sSaySiGD\r\n\n1 $sSiD\r\n" := by decide +kernel
  have hrun := run_input_eq_text s none input rfl rfl rfl
  rw [hends] at hrun
  exact ⟨hparse, hends, hrun⟩

end CommandLine

end Demangle
