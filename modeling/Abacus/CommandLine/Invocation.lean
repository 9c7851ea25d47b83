/-!
# Invocations

What a user asks for with the arguments of the program. Arguments are read from the left.
Asking for help or for the version, and an argument that cannot be read, end the reading at
once, so what comes first decides.
-/

namespace Abacus.CommandLine

/-- The expression that is evaluated when none is given. -/
def sampleExpression : String := "(MMMDCCXXIV - MMCCXXIX) * II"

/-- Where the expression comes from. -/
inductive Source where
  /-- No expression is given: the sample. -/
  | sample
  /-- The expression is the argument. -/
  | text (expression : String)
  /-- The expression is the content of the file. -/
  | file (path : String)
  deriving DecidableEq, Repr

/-- Why the arguments cannot be read. -/
inductive UsageError where
  /-- The argument is no option, or one expression too many. -/
  | unexpected (argument : String)
  /-- The option was given before. -/
  | repeated (option : String)
  deriving DecidableEq, Repr

/-- What the user asks for. -/
inductive Invocation where
  /-- How the program is used. -/
  | help
  /-- Which version it is. -/
  | version
  /-- The arguments cannot be read. -/
  | misuse (error : UsageError)
  /-- The numeral of an expression. -/
  | evaluate (source : Source) (verbose : Bool)
  deriving DecidableEq, Repr

/-! ### Options -/

/-- What an argument that starts with a dash stands for. -/
inductive Flag where
  /-- The expression is in a file. -/
  | file
  /-- The log says more. -/
  | verbose
  /-- The user wants help. -/
  | help
  /-- The user wants the version. -/
  | version
  deriving DecidableEq, Repr

namespace Flag

/-- The word for a flag, written after two dashes. -/
def ofWord? : List Char → Option Flag
  | ['f', 'i', 'l', 'e'] => some file
  | ['v', 'e', 'r', 'b', 'o', 's', 'e'] => some verbose
  | ['h', 'e', 'l', 'p'] => some help
  | ['v', 'e', 'r', 's', 'i', 'o', 'n'] => some version
  | _ => none

/-- The letter for a flag, written after one dash, alone or with others. -/
def ofLetter? : Char → Option Flag
  | 'f' => some file
  | 'v' => some verbose
  | 'h' => some help
  | 'V' => some version
  | _ => none

end Flag

/-! ### Reading the arguments -/

/-- The arguments read so far. -/
structure Draft where
  /-- The expression is in a file. -/
  file : Bool
  /-- The log says more. -/
  verbose : Bool
  /-- The expression, or the path of the file. -/
  contents : Option String
  deriving DecidableEq, Repr

namespace Draft

/-- No argument read yet. -/
def empty : Draft := ⟨false, false, none⟩

/-- Reads a flag. -/
def takeFlag (d : Draft) : Flag → Except Invocation Draft
  | .help => .error .help
  | .version => .error .version
  | .file => if d.file then .error (.misuse (.repeated "--file")) else .ok { d with file := true }
  | .verbose =>
    if d.verbose then .error (.misuse (.repeated "--verbose")) else .ok { d with verbose := true }

/-- Reads a flag, if the argument has one there. -/
def takeFlag? (d : Draft) (argument : String) : Option Flag → Except Invocation Draft
  | some flag => d.takeFlag flag
  | none => .error (.misuse (.unexpected argument))

/-- Reads flags written as letters after one dash. -/
def takeLetters (d : Draft) (argument : String) : List Char → Except Invocation Draft
  | [] => .ok d
  | c :: cs => (d.takeFlag? argument (Flag.ofLetter? c)).bind fun d => d.takeLetters argument cs

/-- Reads the expression or the path; there can be only one. -/
def takeContents (d : Draft) (argument : String) : Except Invocation Draft :=
  match d.contents with
  | none => .ok { d with contents := some argument }
  | some _ => .error (.misuse (.unexpected argument))

/-- Reads arguments none of which is an option. -/
def takePlain (d : Draft) : List String → Except Invocation Draft
  | [] => .ok d
  | argument :: rest => (d.takeContents argument).bind (·.takePlain rest)

/-- Reads arguments. Two dashes alone end the options, and a dash alone is none. -/
def takeAll (d : Draft) : List String → Except Invocation Draft
  | [] => .ok d
  | argument :: rest =>
    match argument.toList with
    | ['-', '-'] => d.takePlain rest
    | '-' :: '-' :: word => (d.takeFlag? argument (Flag.ofWord? word)).bind (·.takeAll rest)
    | '-' :: c :: cs => (d.takeLetters argument (c :: cs)).bind (·.takeAll rest)
    | _ => (d.takeContents argument).bind (·.takeAll rest)

/-- Where the expression comes from, by the arguments read. -/
def source (d : Draft) : Source :=
  match d.contents with
  | none => .sample
  | some contents => if d.file then .file contents else .text contents

end Draft

namespace Invocation

/-- What the arguments ask for. -/
def ofArguments (arguments : List String) : Invocation :=
  match Draft.empty.takeAll arguments with
  | .ok d => .evaluate d.source d.verbose
  | .error invocation => invocation

/-- The file that has to be read. -/
def path? : Invocation → Option String
  | evaluate (.file path) _ => some path
  | _ => none

end Invocation

/-! ### Arguments that are plain -/

/-- After two dashes an argument is the expression, whatever it looks like. -/
theorem takeAll_plain {d : Draft} (hd : d.contents = none) (argument : String) :
    d.takeAll ["--", argument] = .ok { d with contents := some argument } := by
  have h : "--".toList = ['-', '-'] := by decide
  simp [Draft.takeAll, h, Draft.takePlain, Draft.takeContents, hd, Except.bind]

end Abacus.CommandLine
