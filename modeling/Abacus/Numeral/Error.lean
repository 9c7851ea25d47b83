import Abacus.Arithmetic

/-!
# Faults of numerals

Why a value cannot be written as a numeral, and why a text cannot be read as one.
-/

namespace Abacus

/-- Why there is no numeral. -/
inductive NumeralError where
  /-- The value is not one a numeral is written for. -/
  | outOfRange (value : Int64)
  /-- The text is not a numeral. -/
  | invalid (text : String)
  deriving DecidableEq, Repr

/-- What the user is told. -/
def NumeralError.message : NumeralError → String
  | outOfRange value =>
    Text.decimal value ++ " has no Roman representation; only 1 to 3999 can be written."
  | invalid text => "'" ++ text ++ "' is not a valid Roman numeral."

end Abacus
