import Abacus.Numeral.Letter
import Abacus.Numeral.Error

/-!
# Writing numerals

A value from 1 to 3999 is written with the largest pieces first: each piece as often as it fits
in what is left, then the next smaller one.
-/

namespace Abacus.Numeral

/-- The least value a numeral is written for. -/
def minValue : Int64 := 1

/-- The greatest value a numeral is written for. -/
def maxValue : Int64 := 3999

/-- The pieces numerals are written with, largest first, each with what it is worth. -/
def pieces : List (Nat × List Letter) :=
  [(1000, [.m]), (900, [.c, .m]), (500, [.d]), (400, [.c, .d]),
   (100, [.c]), (90, [.x, .c]), (50, [.l]), (40, [.x, .l]),
   (10, [.x]), (9, [.i, .x]), (5, [.v]), (4, [.i, .v]), (1, [.i])]

/-- Writes `n` with the pieces, each as often as it fits in what is left. -/
def spell : List (Nat × List Letter) → Nat → List Letter
  | [], _ => []
  | (worth, piece) :: rest, n =>
    (List.replicate (n / worth) piece).flatten ++ spell rest (n % worth)

@[simp] theorem spell_zero (ps : List (Nat × List Letter)) : spell ps 0 = [] := by
  induction ps with
  | nil => rfl
  | cons p ps ih =>
    obtain ⟨worth, piece⟩ := p
    simp [spell, ih]

/-- A numeral is written for the value. -/
def InRange (value : Int64) : Prop := minValue ≤ value ∧ value ≤ maxValue

instance (value : Int64) : Decidable (InRange value) := inferInstanceAs (Decidable (_ ∧ _))

/-- The values a numeral is written for are the integers from 1 to 3999. -/
theorem inRange_iff {value : Int64} : InRange value ↔ 1 ≤ value.toInt ∧ value.toInt ≤ 3999 := by
  simp [InRange, minValue, maxValue, Int64.le_iff_toInt_le]

/-- The letters of the numeral for `n`. -/
def lettersFor (n : Nat) : List Letter := spell pieces n

/-- Writes the numeral for a value. -/
def write (value : Int64) : Except NumeralError String :=
  if InRange value then
    .ok (String.ofList ((lettersFor value.toNatClampNeg).map Letter.char))
  else .error (.outOfRange value)

/-- Writing fails only out of the range, and then says which value it was. -/
theorem write_eq_error_iff {value : Int64} {e : NumeralError} :
    write value = .error e ↔ ¬ InRange value ∧ e = .outOfRange value := by
  unfold write
  split
  · next h => simp [h]
  · next h => simp [h, eq_comm]

end Abacus.Numeral
