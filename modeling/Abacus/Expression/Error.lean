import Abacus.Numeral.Error

/-!
# Faults of expressions

Why an expression has no value. A position is the number of bytes before the character it is
about.
-/

namespace Abacus

/-- Why an expression has no value. -/
inductive EvaluationError where
  /-- The bracket at the position has no partner. -/
  | unbalancedBracket (position : Nat)
  /-- The digits from the position on are no numeral. -/
  | invalidNumeral (digits : String) (position : Nat)
  /-- The character at the position means nothing. -/
  | unknownCharacter (character : Char) (position : Nat)
  /-- Fewer than two values were there for the operator at the position. -/
  | missingOperand (operator : Char) (position : Nat)
  /-- Not one value was left at the end, but `count`. -/
  | notOneValue (count : Nat)
  /-- The operator at the position has no value for its operands. -/
  | overflow (operator : Char) (left right : Int64) (position : Nat)
  /-- The value cannot be written. -/
  | unwritable (reason : NumeralError)
  deriving DecidableEq, Repr

namespace EvaluationError

/-- The position the fault is reported at, if it is about a place in the text. -/
def position? : EvaluationError → Option Nat
  | unbalancedBracket p | invalidNumeral _ p | unknownCharacter _ p | missingOperand _ p
  | overflow _ _ _ p => some p
  | notOneValue _ | unwritable _ => none

/-- A message about a place in the text. -/
def located (position : Nat) (text : String) : String :=
  "Error at " ++ toString position ++ ": " ++ text

/-- What the user is told. -/
def message : EvaluationError → String
  | unbalancedBracket p => located p "Expression has an unbalanced bracket."
  | invalidNumeral digits p => located p ("'" ++ digits ++ "' is not a valid Roman numeral.")
  | unknownCharacter c p => located p ("Unknown character '" ++ c.toString ++ "'.")
  | missingOperand op p => located p ("Operator '" ++ op.toString ++ "' is missing an operand.")
  | notOneValue count =>
    "Expression left " ++ toString count ++
      " values instead of one. Check for missing operators or operands."
  | overflow op left right p =>
    located p
      (Text.decimal left ++ " " ++ op.toString ++ " " ++ Text.decimal right ++ " overflows.")
  | unwritable reason => reason.message

end EvaluationError

end Abacus
