/-!
# Checked arithmetic

The values computed with are signed 64-bit integers. An operation is done on the integers they
stand for, and has a result only if that integer fits in 64 bits again. A value is shown to the
user in decimal (`Text.decimal`).

`fit?_eq_some_iff` says which integers fit, and so decides every operation below.
-/

namespace Abacus

/-- The value in decimal, with a minus sign in front of a negative one. -/
def Text.decimal (value : Int64) : String := toString value.toInt

namespace Arithmetic

/-- The 64-bit value that stands for `n`, if `n` is in the range of 64-bit values. -/
def fit? (n : Int) : Option Int64 :=
  if Int64.minValue.toInt ≤ n ∧ n ≤ Int64.maxValue.toInt then some (Int64.ofInt n) else none

/-- An integer fits as `v` exactly when `v` stands for it. -/
theorem fit?_eq_some_iff {n : Int} {v : Int64} : fit? n = some v ↔ v.toInt = n := by
  unfold fit?
  constructor
  · intro h
    split at h
    · next hn =>
      rw [← Option.some.inj h]
      exact Int64.toInt_ofInt_of_le hn.1 (Int.lt_of_le_of_lt hn.2 (by decide))
    · cases h
  · rintro rfl
    rw [if_pos ⟨v.minValue_le_toInt, v.toInt_le⟩, Int64.ofInt_toInt]

/-- An integer does not fit exactly when it is out of the range. -/
theorem fit?_eq_none_iff {n : Int} :
    fit? n = none ↔ n < Int64.minValue.toInt ∨ Int64.maxValue.toInt < n := by
  unfold fit?
  split <;> simp only [reduceCtorEq, false_iff, true_iff] <;> omega

/-! ### The operations -/

/-- The sum. -/
def add? (a b : Int64) : Option Int64 := fit? (a.toInt + b.toInt)

/-- The difference. -/
def sub? (a b : Int64) : Option Int64 := fit? (a.toInt - b.toInt)

/-- The product. -/
def mul? (a b : Int64) : Option Int64 := fit? (a.toInt * b.toInt)

/-- The quotient rounded toward zero; none by zero. -/
def quotient? (a b : Int64) : Option Int64 :=
  if b = 0 then none else fit? (a.toInt.tdiv b.toInt)

/-- What the quotient leaves of `a`; none where there is no quotient. -/
def remainder? (a b : Int64) : Option Int64 :=
  if (quotient? a b).isSome then fit? (a.toInt.tmod b.toInt) else none

end Arithmetic

end Abacus
