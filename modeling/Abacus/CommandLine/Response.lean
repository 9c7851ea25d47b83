import Abacus.Calculator.Evaluation
import Abacus.CommandLine.Invocation
import Abacus.Text.Lines

/-!
# Responses

What the program answers: an exit code, a text, and messages. The lines of the log come first
and a fault last, and the log has no part in the exit code or in the text.
-/

namespace Abacus.CommandLine

/-- What the program answers. -/
structure Response where
  /-- The exit code. -/
  code : Nat
  /-- The text on standard output. -/
  stdout : String
  /-- The messages on standard error, each followed by a line feed. -/
  stderr : List String
  deriving DecidableEq, Repr

/-- The lines on standard error. -/
def Response.errorLines (r : Response) : List String :=
  r.stderr.flatMap fun message => Text.lines (message ++ "\n")

/-! ### Texts -/

/-- What the program says of itself. -/
def versionText : String := "roman-calc 0.1.0\n"

/-- The form of an invocation. -/
def usageLine : String := "Usage: roman-calc [OPTIONS] [CONTENTS]"

/-- How the program is used. -/
def helpText : String :=
  String.join <| List.map (· ++ "\n")
    ["Evaluates arithmetic expressions written with Roman numerals",
     "",
     usageLine,
     "",
     "Arguments:",
     "  [CONTENTS]  The expression, or a path when `--file` is given",
     "",
     "Options:",
     "  -f, --file     Tells roman-calc to read the expression from a file instead",
     "  -v, --verbose  Logs every evaluation step. `RUST_LOG` takes precedence",
     "  -h, --help     Print help",
     "  -V, --version  Print version"]

/-- What the user is told of arguments that cannot be read. -/
def UsageError.message : UsageError → String
  | unexpected argument => "error: unexpected argument '" ++ argument ++ "' found"
  | repeated option => "error: the argument '" ++ option ++ "' cannot be used multiple times"

/-- What the user is told of a file that cannot be read. -/
def unreadable (path : String) : String :=
  "Failed to read the input file '" ++ path ++ "'. Perhaps this file does not exist?"

/-! ### Answering -/

/-- The level of the log: the one asked for, else more or less as the user wants it. -/
def logLevel (asked : Option LogLevel) (verbose : Bool) : LogLevel :=
  asked.getD (if verbose then .debug else .warn)

/-- The expression of a source, or what the user is told if there is none. -/
def Source.expression (contentOf : String → Option String) : Source → Except String String
  | sample => .ok sampleExpression
  | text expression => .ok expression
  | file path =>
    match contentOf path with
    | some expression => .ok expression
    | none => .error (unreadable path)

/-- The lines of the log for some events. -/
def logLines (threshold : LogLevel) (events : List Event) : List String :=
  (events.filter (threshold.shows ·.level)).map Event.line

/-- The answer to an expression. -/
def answer (threshold : LogLevel) (expression : String) : Response :=
  let t := Abacus.evaluate expression
  let log := logLines threshold t.events
  match t.outcome with
  | .ok numeral => ⟨0, numeral.text ++ "\n", log⟩
  | .error e => ⟨1, "", log ++ [e.message]⟩

/-- The answer to what the user asks for. `asked` is the level asked for in the environment,
and `contentOf` the text of a file that can be read. -/
def respond (asked : Option LogLevel) (contentOf : String → Option String) :
    Invocation → Response
  | .help => ⟨0, helpText, []⟩
  | .version => ⟨0, versionText, []⟩
  | .misuse e => ⟨2, "", [e.message, "", usageLine]⟩
  | .evaluate source verbose =>
    match source.expression contentOf with
    | .ok expression => answer (logLevel asked verbose) expression
    | .error message => ⟨1, "", [message]⟩

/-- The answer to the arguments of the program. -/
def run (asked : Option LogLevel) (contentOf : String → Option String)
    (arguments : List String) : Response :=
  respond asked contentOf (.ofArguments arguments)

end Abacus.CommandLine
