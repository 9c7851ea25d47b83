import Abacus.Numeral.Reading
import Abacus.Numeral.Writing

/-!
# Numerals

A numeral is a text together with the value it stands for. There are two ways to one: from its
text, which is read, and from its value, which is written.
-/

namespace Abacus

/-- A numeral: how it is written and what it is worth. -/
structure Numeral where
  /-- How the numeral is written. -/
  text : String
  /-- What the numeral is worth. -/
  value : Int64
  deriving DecidableEq, Repr

namespace Numeral

/-- The numeral with this text. -/
def ofText (text : String) : Except NumeralError Numeral :=
  match read? text with
  | some value => .ok ⟨text, value⟩
  | none => .error (.invalid text)

/-- The numeral with this value. -/
def ofValue (value : Int64) : Except NumeralError Numeral :=
  (write value).map fun text => ⟨text, value⟩

theorem ofText_eq_ok_iff {text : String} {n : Numeral} :
    ofText text = .ok n ↔ n.text = text ∧ read? text = some n.value := by
  unfold ofText
  split
  · next value h =>
    obtain ⟨t, v⟩ := n
    simp only [Except.ok.injEq, Numeral.mk.injEq, h, Option.some.injEq, eq_comm]
  · next h => simp [h]

theorem ofText_eq_error_iff {text : String} {e : NumeralError} :
    ofText text = .error e ↔ read? text = none ∧ e = .invalid text := by
  unfold ofText
  split
  · next value h => simp [h]
  · next h => simp [h, eq_comm]

theorem ofValue_eq_ok_iff {value : Int64} {n : Numeral} :
    ofValue value = .ok n ↔ n.value = value ∧ write value = .ok n.text := by
  unfold ofValue
  obtain ⟨t, v⟩ := n
  cases h : write value with
  | error e => simp [Except.map]
  | ok text => simp only [Except.map, Except.ok.injEq, Numeral.mk.injEq, eq_comm, and_comm]

theorem ofValue_eq_error_iff {value : Int64} {e : NumeralError} :
    ofValue value = .error e ↔ ¬ InRange value ∧ e = .outOfRange value := by
  rw [← write_eq_error_iff, ofValue]
  cases write value with
  | error e => simp [Except.map]
  | ok text => simp [Except.map]

end Numeral

end Abacus
