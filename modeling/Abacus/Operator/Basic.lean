import Abacus.Arithmetic

/-!
# Operators

An operator stands between two operands. It is told by its symbol, binds more tightly the higher
its precedence, and gives the value of two operands, or none.
-/

namespace Abacus

/-- A binary operator. -/
structure Operator where
  /-- The character the operator is written as. -/
  symbol : Char
  /-- How tightly the operator binds. -/
  precedence : Nat
  /-- The value for a left and a right operand; none if they have no value. -/
  apply : Int64 → Int64 → Option Int64

namespace Operator

/-- Addition. -/
def add : Operator := ⟨'+', 1, Arithmetic.add?⟩

/-- Subtraction, which binds as tightly as addition. -/
def sub : Operator := ⟨'-', 1, Arithmetic.sub?⟩

/-- Multiplication, which binds more tightly than addition. -/
def mul : Operator := ⟨'*', 2, Arithmetic.mul?⟩

end Operator

end Abacus
