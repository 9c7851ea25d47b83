import Abacus.Numeral.System
import Abacus.Proofs.Numeral.Digits

/-!
# Reading and writing

Reading undoes writing and writing undoes reading: a text is read as a value exactly when the
value is written as the text (`read?_iff_write`). So every value has one numeral at most, it has
one exactly from 1 to 3999, and writing fails exactly for the values no text is read as.

Both sides come to the same condition, that the text is made of the letters for a number from
1 to 3999 and the value stands for the number: `read?_eq_some_iff`, `write_eq_ok_iff`.
-/

namespace Abacus.Numeral

/-- A text is made of some letters exactly when it is what they are written as. -/
theorem letters?_toList_eq_some_iff {s : String} {as : List Letter} :
    letters? s.toList = some as ↔ s = String.ofList (as.map Letter.char) := by
  rw [letters?_eq_some_iff]
  constructor
  · intro h
    rw [← h, String.ofList_toList]
  · rintro rfl
    rw [String.toList_ofList]

theorem read?_eq_some_iff {s : String} {v : Int64} :
    read? s = some v ↔
      ∃ n, 1 ≤ n ∧ n ≤ 3999 ∧ v = Int64.ofNat n ∧ letters? s.toList = some (lettersFor n) := by
  unfold read?
  constructor
  · intro h
    rw [Option.map_eq_some_iff] at h
    obtain ⟨n, hn, rfl⟩ := h
    obtain ⟨as, has, hn⟩ := Option.bind_eq_some_iff.1 hn
    obtain ⟨rfl, h1, h2⟩ := valueOf?_eq_some_iff.1 hn
    exact ⟨n, h1, h2, rfl, has⟩
  · rintro ⟨n, h1, h2, rfl, has⟩
    rw [has, Option.bind_some, valueOf?_eq_some_iff.2 ⟨rfl, h1, h2⟩, Option.map_some]

theorem write_eq_ok_iff {v : Int64} {s : String} :
    write v = .ok s ↔
      ∃ n, 1 ≤ n ∧ n ≤ 3999 ∧ v = Int64.ofNat n ∧ letters? s.toList = some (lettersFor n) := by
  unfold write
  constructor
  · intro h
    split at h
    · next hv =>
      obtain rfl := Except.ok.inj h
      obtain ⟨h1, h2⟩ := inRange_iff.1 hv
      have hnonneg : 0 ≤ v := by
        rw [Int64.le_iff_toInt_le, Int64.toInt_zero]
        omega
      have hcast := Int64.cast_toNatClampNeg v hnonneg
      exact ⟨v.toNatClampNeg, by omega, by omega, (Int64.ofNat_toNatClampNeg v hnonneg).symm,
        letters?_toList_eq_some_iff.2 rfl⟩
    · cases h
  · rintro ⟨n, h1, h2, rfl, has⟩
    have hv : InRange (Int64.ofNat n) := by
      rw [inRange_iff, Int64.toInt_ofNat_of_lt (by omega)]
      omega
    rw [if_pos hv, Int64.toNatClampNeg_ofNat_of_lt (by omega),
      letters?_toList_eq_some_iff.1 has]

/-- A value is written exactly when it is in the range. -/
theorem exists_write_eq_ok_iff {v : Int64} :
    (∃ s, write v = .ok s) ↔ 1 ≤ v.toInt ∧ v.toInt ≤ 3999 := by
  rw [← inRange_iff]
  unfold write
  by_cases h : InRange v
  · simp [h]
  · simp [h]

/-- A text is read as a value exactly when the value is written as the text. -/
theorem read?_eq_some_iff_write {s : String} {v : Int64} :
    read? s = some v ↔ write v = .ok s :=
  read?_eq_some_iff.trans write_eq_ok_iff.symm

/-- What a text is read as is in the range. -/
theorem inRange_of_read? {s : String} {v : Int64} (h : read? s = some v) :
    1 ≤ v.toInt ∧ v.toInt ≤ 3999 :=
  exists_write_eq_ok_iff.1 ⟨s, read?_eq_some_iff_write.1 h⟩

/-- **Reading and writing are inverse**: a text is read as a value exactly when the value is
written as the text. So the values from 1 to 3999, and no others, are written, each as the only
text that is read as it, and writing another value fails with that value. -/
theorem read?_iff_write :
    (∀ (s : String) (v : Int64),
      NumeralSystem.roman.read? s = some v ↔ NumeralSystem.roman.write v = .ok s) ∧
    (∀ v : Int64,
      (∃ s, NumeralSystem.roman.write v = .ok s ∧
        ∀ t, NumeralSystem.roman.read? t = some v ↔ t = s) ↔
      1 ≤ v.toInt ∧ v.toInt ≤ 3999) ∧
    (∀ (v : Int64) (e : NumeralError),
      NumeralSystem.roman.write v = .error e ↔
        (∀ s, NumeralSystem.roman.read? s ≠ some v) ∧ e = .outOfRange v) := by
  have hiff (s : String) (v : Int64) :
      NumeralSystem.roman.read? s = some v ↔ NumeralSystem.roman.write v = .ok s :=
    read?_eq_some_iff.trans write_eq_ok_iff.symm
  refine ⟨hiff, fun v => ?_, fun v e => ?_⟩
  · rw [← exists_write_eq_ok_iff]
    constructor
    · rintro ⟨s, hs, -⟩
      exact ⟨s, hs⟩
    · rintro ⟨s, hs⟩
      refine ⟨s, hs, fun t => (hiff t v).trans ?_⟩
      constructor
      · intro ht
        exact Except.ok.inj (ht.symm.trans hs)
      · rintro rfl
        exact hs
  · refine write_eq_error_iff.trans (and_congr_left fun _ => ?_)
    rw [inRange_iff, ← exists_write_eq_ok_iff, not_exists]
    exact forall_congr' fun s => not_congr (hiff s v).symm

end Abacus.Numeral
