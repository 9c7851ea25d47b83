import Abacus.Calculator.Scan
import Abacus.Expression.Machine
import Abacus.Log.Event
import Abacus.Numeral.Basic

/-!
# Evaluation

An expression is scanned, its tokens go through the machine, and what the machine leaves is the
value. A fault of the scan counts at the place where it stands: after the tokens before it, and
before the end.

`Calculator.value` gives the value of an expression, `Calculator.evaluate` its numeral, and
`evaluate` its Roman numeral. Each gives also the events on the way.
-/

namespace Abacus

namespace Calculator

/-- Runs the machine over a text: over the tokens read from it, then into the fault that ended
the scan, or to the end. -/
def compute (c : Calculator) (cs : List Char) : Run :=
  let s := c.scan cs
  .ofEnding <| (Machine.empty.steps (Token.place 0 s.tokens)).bind fun m =>
    match s.fault? with
    | some fault => .error ⟨fault.error (Text.width (Token.textOf s.tokens)), m⟩
    | none => m.finish

/-- The value of an expression. -/
def value (c : Calculator) (expression : String) : Traced Int64 :=
  let run := c.compute expression.toList
  ⟨.evaluating expression :: run.applications.map .applied, run.outcome⟩

/-- The numeral of an expression, which has one if its value can be written. -/
def evaluate (c : Calculator) (expression : String) : Traced String :=
  let t := c.value expression
  match t.outcome with
  | .error e => ⟨t.events, .error e⟩
  | .ok value =>
    match c.numerals.write value with
    | .error reason => ⟨t.events, .error (.unwritable reason)⟩
    | .ok numeral => ⟨t.events ++ [.evaluated expression value numeral], .ok numeral⟩

end Calculator

/-- The Roman numeral of an expression. -/
def evaluate (expression : String) : Traced Numeral :=
  let t := Calculator.roman.value expression
  { t with outcome := t.outcome.bind fun value => (Numeral.ofValue value).mapError .unwritable }

end Abacus
