import Abacus.Expression.Machine
import Abacus.Log.Level
import Abacus.Text.Quoted

/-!
# Events

What a calculator tells of its work: that an expression is taken up, that an operator was
applied, that an expression has a numeral.
-/

namespace Abacus

/-- Something a calculator tells of its work. -/
inductive Event where
  /-- The expression is taken up. -/
  | evaluating (expression : String)
  /-- An operator was applied. -/
  | applied (application : Application)
  /-- The expression has this value and this numeral. -/
  | evaluated (expression : String) (value : Int64) (numeral : String)
  deriving DecidableEq, Repr

/-- An outcome and what was told on the way to it. -/
structure Traced (α : Type) where
  /-- What was told, in order. -/
  events : List Event
  /-- The outcome. -/
  outcome : Except EvaluationError α

namespace Event

/-- How urgent the event is. -/
def level : Event → LogLevel
  | evaluating _ => .debug
  | applied _ => .trace
  | evaluated _ _ _ => .debug

/-- What the event is called. -/
def title : Event → String
  | evaluating _ => "evaluating expression"
  | applied _ => "applied operator"
  | evaluated _ _ _ => "evaluated expression"

/-- What the event is about: names and what they stand for. -/
def fields : Event → List (String × String)
  | evaluating expression => [("expression", Text.quoted expression)]
  | applied a =>
    [("operator", a.symbol.toString), ("left", Text.decimal a.left),
     ("right", Text.decimal a.right), ("result", Text.decimal a.result)]
  | evaluated expression value numeral =>
    [("expression", Text.quoted expression), ("value", Text.decimal value),
     ("numeral", numeral)]

/-- The part of the program that tells the events. -/
def source : String := "roman_calc::calculator::evaluator"

/-- The event as a line of the log. -/
def line (e : Event) : String :=
  e.level.name ++ " " ++ source ++ ": " ++
    " ".intercalate (e.title :: e.fields.map fun (name, value) => name ++ "=" ++ value)

end Event

end Abacus
