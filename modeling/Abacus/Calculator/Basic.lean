import Abacus.Numeral.System
import Abacus.Operator.Table

/-!
# Calculators

A calculator is an operator table and a numeral system that do not get in each other's way: no
operator is written as a digit.
-/

namespace Abacus

/-- What expressions are written with. -/
structure Calculator where
  /-- The operators. -/
  operators : OperatorTable
  /-- The numerals. -/
  numerals : NumeralSystem
  /-- No operator is written as a digit. -/
  apart : ∀ op ∈ operators.toList, numerals.isDigit op.symbol = false

namespace Calculator

/-- The calculator with these operators and numerals; it is an error if an operator is written
as a digit. -/
def ofParts (operators : OperatorTable) (numerals : NumeralSystem) :
    Except SetupError Calculator :=
  match h : operators.toList.find? fun op => numerals.isDigit op.symbol with
  | some op => .error (.reservedSymbol op.symbol)
  | none => .ok ⟨operators, numerals, by simpa using List.find?_eq_none.1 h⟩

/-- The calculator for Roman numerals with the standard operators. -/
def roman : Calculator where
  operators := .standard
  numerals := .roman
  apart := by decide

/-- A calculator is made of parts exactly when they do not get in each other's way. -/
theorem ofParts_eq_ok_iff {operators : OperatorTable} {numerals : NumeralSystem}
    {c : Calculator} :
    ofParts operators numerals = .ok c ↔ c.operators = operators ∧ c.numerals = numerals := by
  constructor
  · intro h
    unfold ofParts at h
    split at h
    · cases h
    · cases h
      exact ⟨rfl, rfl⟩
  · rintro ⟨rfl, rfl⟩
    unfold ofParts
    split
    · next op h =>
      have hop := c.apart op (List.mem_of_find?_eq_some h)
      rw [List.find?_some h] at hop
      cases hop
    · rfl

end Calculator

end Abacus
