import Abacus.Text.Blank

/-!
# Brackets

The two characters that group an expression. They and the blanks are reserved: they mean the
same in every expression, whatever operators it is written with.
-/

namespace Abacus

/-- Opens a group. -/
def openingBracket : Char := '('

/-- Closes a group. -/
def closingBracket : Char := ')'

/-- The character has a meaning of its own and is no operator. -/
def isReserved (c : Char) : Bool := Text.isBlank c || c == openingBracket || c == closingBracket

theorem isReserved_iff (c : Char) :
    isReserved c = true ↔ Text.isBlank c = true ∨ c = openingBracket ∨ c = closingBracket := by
  simp [isReserved, or_assoc]

end Abacus
