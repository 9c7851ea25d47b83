/-!
# Faults of a setup

Why a calculator cannot be set up with the operators it is given.
-/

namespace Abacus

/-- Why operators cannot be used together, or not with the numerals. -/
inductive SetupError where
  /-- There is no operator. -/
  | noOperator
  /-- Two operators have the same symbol. -/
  | repeatedSymbol (symbol : Char)
  /-- The symbol has another meaning. -/
  | reservedSymbol (symbol : Char)
  deriving DecidableEq, Repr

/-- What the user is told. -/
def SetupError.message : SetupError → String
  | noOperator => "Operator set must contain at least one operator."
  | repeatedSymbol symbol =>
    "Operator '" ++ symbol.toString ++ "' is defined more than once."
  | reservedSymbol symbol =>
    "Symbol '" ++ symbol.toString ++ "' is reserved and cannot be used as an operator."

end Abacus
