import Demangle.Fixture
import Demangle.Log
import Demangle.Symbol.Dump

/-!
# The command line

`parse` reads the arguments, and `Settings.run` says what the program prints and how it exits, given
the fixture file and the standard input. Names on the command line are rendered one per line; without
any, the lines of the standard input are. `--fixtures` runs a fixture file instead.
-/

namespace Demangle.CommandLine

/-! ## Arguments -/

/-- What the arguments ask for. -/
structure Settings where
  simplified : Bool := false
  noSugar : Bool := false
  tree : Bool := false
  verbose : Bool := false
  /-- The path of a fixture file. -/
  fixtures : Option String := none
  symbols : List String := []
  deriving DecidableEq, Inhabited, Repr

/-- What the arguments amount to. -/
inductive Invocation where
  | proceed (settings : Settings)
  | help
  | version
  | usageError
  deriving DecidableEq, Inhabited, Repr

/-- The switches. -/
inductive Switch where
  | simplified
  | noSugar
  | tree
  | verbose
  | help
  | version
  deriving DecidableEq, Inhabited, Repr

/-- The switch with the given long name. -/
def Switch.ofName? (name : String) : Option Switch :=
  match name with
  | "simplified" => some .simplified
  | "no-sugar" => some .noSugar
  | "tree" => some .tree
  | "verbose" => some .verbose
  | "help" => some .help
  | "version" => some .version
  | _ => none

/-- The switch with the given letter. -/
def Switch.ofLetter? : Char → Option Switch
  | 'v' => some .verbose
  | 'h' => some .help
  | 'V' => some .version
  | _ => none

/-- Turns a switch on. One that is on already is a mistake. -/
def Settings.turnOn (s : Settings) : Switch → Except Invocation Settings
  | .simplified => if s.simplified then .error .usageError else .ok { s with simplified := true }
  | .noSugar => if s.noSugar then .error .usageError else .ok { s with noSugar := true }
  | .tree => if s.tree then .error .usageError else .ok { s with tree := true }
  | .verbose => if s.verbose then .error .usageError else .ok { s with verbose := true }
  | .help => .error .help
  | .version => .error .version

/-- Turns on the switches of a group of letters. -/
def Settings.turnOnAll (s : Settings) : List Char → Except Invocation Settings
  | [] => .ok s
  | c :: cs =>
    match Switch.ofLetter? c with
    | some switch => do (← s.turnOn switch).turnOnAll cs
    | none => .error .usageError

/-- Sets the path of the fixture file, once. -/
def Settings.setFixtures (s : Settings) (path : String) : Except Invocation Settings :=
  if path.isEmpty || s.fixtures.isSome then .error .usageError
  else .ok { s with fixtures := some path }

/-- The forms of an argument. -/
inductive Argument where
  /-- `--`, after which all arguments are names. -/
  | separator
  /-- `--name` or `--name=value`. -/
  | long (name : String) (value : Option String)
  /-- A dash and letters. -/
  | short (letters : List Char)
  | positional (text : String)
  deriving DecidableEq, Inhabited, Repr

/-- The form of an argument. A single dash is a name. -/
def Argument.ofString (arg : String) : Argument :=
  match arg.toList with
  | ['-', '-'] => .separator
  | '-' :: '-' :: cs =>
    let value := match cs.dropWhile (· != '=') with
      | [] => none
      | _ :: value => some (String.ofList value)
    .long (String.ofList (cs.takeWhile (· != '='))) value
  | '-' :: c :: cs => .short (c :: cs)
  | _ => .positional arg

/-- Reads arguments after those that gave the settings so far. -/
def parseFrom (s : Settings) : List String → Except Invocation Settings
  | [] => .ok s
  | arg :: args =>
    match Argument.ofString arg with
    | .separator => .ok { s with symbols := s.symbols ++ args }
    | .positional text => parseFrom { s with symbols := s.symbols ++ [text] } args
    | .short letters => do parseFrom (← s.turnOnAll letters) args
    | .long "fixtures" (some path) => do parseFrom (← s.setFixtures path) args
    | .long "fixtures" none =>
      match args with
      | [] => .error .usageError
      | value :: args =>
        match Argument.ofString value with
        | .positional path => do parseFrom (← s.setFixtures path) args
        | _ => .error .usageError
    | .long name none =>
      match Switch.ofName? name with
      | some switch => do parseFrom (← s.turnOn switch) args
      | none => .error .usageError
    | .long _ (some _) => .error .usageError

/-- Reads the arguments. -/
def parse (args : List String) : Invocation :=
  match parseFrom {} args with
  | .ok settings => .proceed settings
  | .error invocation => invocation

/-! ## Output -/

/-- What the program prints, and how it exits. -/
structure Outcome where
  exitCode : Nat
  output : String
  deriving DecidableEq, Inhabited, Repr

/-- The options that the settings stand for. -/
def Settings.options (s : Settings) : Options :=
  let o := if s.simplified then Options.simplified else Options.full
  if s.noSugar then { o with sugarTypes := false } else o

/-- The dump of a mangled name, or what is wrong with it. -/
def dumpName (mangled : String) : String :=
  match decode mangled with
  | .ok s => s.dump
  | .error f => "<<invalid: " ++ f.message ++ ">>\n"

/-- The output for one name on the command line. -/
def Settings.symbolOutput (s : Settings) (mangled : String) : String :=
  if s.tree then dumpName mangled else demangle s.options mangled ++ "\n"

/-- The output for one line of the standard input. -/
def Settings.lineOutput (s : Settings) (line : List Char) : String :=
  if s.tree then dumpName (String.ofList (Text.trim line))
  else String.ofList (Log.lineChars s.options line) ++ "\n"

/-- The output for the standard input. -/
def Settings.inputOutput (s : Settings) (input : String) : String :=
  String.join ((Text.lines input.toList).map fun l => s.lineOutput l.body)

/-- The output for a mismatch. -/
def mismatchOutput (m : Fixture.Mismatch) : String :=
  "line " ++ toString m.case.line ++ ": " ++ m.case.input ++ "\n" ++
    "  expected: " ++ m.case.expected ++ "\n" ++
    "  actual:   " ++ m.actual ++ "\n"

/-- The output for a report. -/
def reportOutput (r : Fixture.Report) : String :=
  String.join (r.mismatches.map mismatchOutput) ++
    toString r.passed ++ "/" ++ toString r.total ++ " fixtures passed\n"

/-- Runs the fixtures of a file. -/
def Settings.runFixtures (s : Settings) (content : Option String) : Outcome :=
  match Fixture.load content with
  | .error _ => ⟨1, ""⟩
  | .ok cases =>
    let report := Fixture.run s.options cases
    ⟨if report.isSuccess then 0 else 1, reportOutput report⟩

/-- The outcome of the given settings. -/
def Settings.run (s : Settings) (fixtures : Option String) (input : String) : Outcome :=
  if s.fixtures.isSome then s.runFixtures fixtures
  else if s.symbols.isEmpty then ⟨0, s.inputOutput input⟩
  else ⟨0, String.join (s.symbols.map s.symbolOutput)⟩

/-- The version. -/
def versionText : String :=
  "swift-demangle 0.1.0\n"

/-- The help. -/
def helpText : String :=
  "Demangle Swift symbol names

Usage: swift-demangle [OPTIONS] [SYMBOLS]...

Arguments:
  [SYMBOLS]...  Mangled names to demangle; stdin is read when none are given

Options:
      --simplified       Short names without module prefixes, types or specialization details
      --no-sugar         Print Optional<T>, Array<T> and Dictionary<K, V> without sugar
      --tree             Print the decoded node tree instead of text
      --fixtures <FILE>  Run a `mangled ---> expected` fixture file and report mismatches
  -v, --verbose          Log decoder activity at debug level
  -h, --help             Print help
  -V, --version          Print version
"

/-- The outcome of an invocation. -/
def Invocation.run (i : Invocation) (fixtures : Option String) (input : String) : Outcome :=
  match i with
  | .proceed settings => settings.run fixtures input
  | .help => ⟨0, helpText⟩
  | .version => ⟨0, versionText⟩
  | .usageError => ⟨2, ""⟩

end Demangle.CommandLine
