import Abacus.Numeral.Reading
import Abacus.Numeral.Writing

/-!
# Numeral systems

A calculator needs three things of the numerals it works with: which characters they are
written with, what a text of those characters is worth, and how a value is written.
-/

namespace Abacus

/-- A way to write values as text. -/
structure NumeralSystem where
  /-- The character is one numerals are written with. -/
  isDigit : Char → Bool
  /-- The value of a numeral; none if the text is not one. -/
  read? : String → Option Int64
  /-- The numeral of a value. -/
  write : Int64 → Except NumeralError String

namespace NumeralSystem

/-- Roman numerals, written with the seven letters. -/
def roman : NumeralSystem where
  isDigit c := (Numeral.Letter.ofChar? c).isSome
  read? := Numeral.read?
  write := Numeral.write

end NumeralSystem

end Abacus
