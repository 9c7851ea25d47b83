/-!
# Levels

How much the log says. A level stands for itself and all that is more urgent.
-/

namespace Abacus

/-- How much the log says, least first. -/
inductive LogLevel where
  /-- Nothing. -/
  | off
  /-- What went wrong. -/
  | error
  /-- What may go wrong. -/
  | warn
  /-- What goes on. -/
  | info
  /-- What is evaluated. -/
  | debug
  /-- Every application. -/
  | trace
  deriving DecidableEq, Repr

namespace LogLevel

/-- The place of the level among the six. -/
def rank : LogLevel → Nat
  | off => 0 | error => 1 | warn => 2 | info => 3 | debug => 4 | trace => 5

/-- A log at the level `threshold` says what is of the level `level`. -/
def shows (threshold level : LogLevel) : Bool := level.rank ≤ threshold.rank

/-- The level as a log line names it. -/
def name : LogLevel → String
  | off => "OFF"
  | error => "ERROR"
  | warn => "WARN"
  | info => "INFO"
  | debug => "DEBUG"
  | trace => "TRACE"

/-- The level a word asks for. -/
def ofString? : String → Option LogLevel
  | "off" => some off
  | "error" => some error
  | "warn" => some warn
  | "info" => some info
  | "debug" => some debug
  | "trace" => some trace
  | _ => none

end LogLevel

end Abacus
