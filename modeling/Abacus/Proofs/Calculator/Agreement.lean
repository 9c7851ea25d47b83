import Abacus.Proofs.Calculator.Diagnostics
import Abacus.Proofs.Calculator.Frame

/-!
# Ways to a numeral

A numeral keeps a text and a value side by side. It is come by from a text, from a value or from
an expression, and each way is given one of the two and finds the other. All ways lead to the same
numerals (`Numeral.ways_agree`): the text of a numeral is read as its value, and the value is
written as the text (`Coherent`), so two numerals are equal if one of the two is.

An expression has a numeral if its value can be written, and the calculator for Roman numerals
gives the text of that numeral. Taken as an expression the text has the same numeral again.
-/

namespace Abacus

open Calculator (roman)

namespace Numeral

/-! ### Text and value -/

/-- The text and the value of the numeral belong together. -/
structure Coherent (n : Numeral) : Prop where
  /-- The text is read as the value. -/
  read : read? n.text = some n.value
  /-- The value is written as the text. -/
  write : write n.value = .ok n.text

variable {n n' : Numeral}

theorem coherent_of_read? (h : read? n.text = some n.value) : n.Coherent :=
  ⟨h, read?_eq_some_iff_write.1 h⟩

theorem coherent_of_write (h : Numeral.write n.value = .ok n.text) : n.Coherent :=
  ⟨read?_eq_some_iff_write.2 h, h⟩

namespace Coherent

/-- Numerals with the same text are equal. -/
theorem eq_iff_text (h : n.Coherent) (h' : n'.Coherent) : n = n' ↔ n.text = n'.text := by
  refine ⟨congrArg text, fun ht => ?_⟩
  have hread := h.read
  rw [ht, h'.read] at hread
  obtain ⟨t, v⟩ := n
  obtain ⟨t', v'⟩ := n'
  obtain rfl : t = t' := ht
  obtain rfl : v' = v := Option.some.inj hread
  rfl

/-- Numerals with the same value are equal. -/
theorem eq_iff_value (h : n.Coherent) (h' : n'.Coherent) : n = n' ↔ n.value = n'.value := by
  refine ⟨congrArg value, fun hv => (h.eq_iff_text h').2 ?_⟩
  have hwrite := h.write
  rw [hv, h'.write] at hwrite
  exact (Except.ok.inj hwrite).symm

end Coherent

/-- The numeral of a text is the numeral of a value exactly when the text is read as the value. -/
theorem ofText_eq_ofValue_iff {s : String} {v : Int64} :
    ofText s = ofValue v ↔ read? s = some v := by
  constructor
  · intro h
    cases hs : ofText s with
    | ok n =>
      obtain ⟨rfl, hread⟩ := ofText_eq_ok_iff.1 hs
      obtain ⟨rfl, -⟩ := ofValue_eq_ok_iff.1 (h.symm.trans hs)
      exact hread
    | error e =>
      -- the two ways fail with different faults
      obtain ⟨-, rfl⟩ := ofText_eq_error_iff.1 hs
      cases (ofValue_eq_error_iff.1 (h.symm.trans hs)).2
  · intro h
    have hs : ofText s = .ok ⟨s, v⟩ := ofText_eq_ok_iff.2 ⟨rfl, h⟩
    have hv : ofValue v = .ok ⟨s, v⟩ :=
      ofValue_eq_ok_iff.2 ⟨rfl, read?_eq_some_iff_write.1 h⟩
    exact hs.trans hv.symm

end Numeral

/-! ### The numeral of an expression -/

/-- Reporting a fault in another way changes no success. -/
theorem mapError_eq_ok {ε ε' α : Type} {x : Except ε α} {f : ε → ε'} {a : α} :
    x.mapError f = .ok a ↔ x = .ok a := by
  cases x <;> simp [Except.mapError]

theorem mapError_eq_error {ε ε' α : Type} {x : Except ε α} {f : ε → ε'} {e' : ε'} :
    x.mapError f = .error e' ↔ ∃ e, x = .error e ∧ f e = e' := by
  cases x <;> simp [Except.mapError]

/-- What a calculator makes of an expression is its value, written. -/
theorem Calculator.outcome_evaluate (c : Calculator) (x : String) :
    (c.evaluate x).outcome =
      (c.value x).outcome.bind fun v => (c.numerals.write v).mapError .unwritable := by
  unfold evaluate
  simp only
  split
  · next e hv =>
    rw [hv]
    rfl
  · next v hv =>
    rw [hv]
    show _ = (c.numerals.write v).mapError _
    split
    · next reason hw =>
      rw [hw]
      rfl
    · next numeral hw =>
      rw [hw]
      rfl

/-- The text of the numeral of an expression is its value, written. -/
theorem map_text_evaluate (x : String) :
    (evaluate x).outcome.map Numeral.text =
      (roman.value x).outcome.bind fun v => (Numeral.write v).mapError .unwritable := by
  show ((roman.value x).outcome.bind _).map _ = _
  cases (roman.value x).outcome with
  | error e => rfl
  | ok v =>
    show ((Numeral.ofValue v).mapError _).map _ = (Numeral.write v).mapError _
    rw [Numeral.ofValue]
    cases Numeral.write v <;> rfl

theorem evaluate_eq_ok_iff {x : String} {n : Numeral} :
    (evaluate x).outcome = .ok n ↔
      (roman.value x).outcome = .ok n.value ∧ Numeral.write n.value = .ok n.text := by
  show (roman.value x).outcome.bind (fun v => (Numeral.ofValue v).mapError _) = .ok n ↔ _
  simp only [bind_eq_ok, mapError_eq_ok, Numeral.ofValue_eq_ok_iff]
  constructor
  · rintro ⟨v, hv, rfl, hw⟩
    exact ⟨hv, hw⟩
  · rintro ⟨hv, hw⟩
    exact ⟨n.value, hv, rfl, hw⟩

/-- An expression is reported to have no numeral exactly when its value is out of the range. -/
theorem evaluate_eq_unwritable_iff {x : String} {e : NumeralError} :
    (evaluate x).outcome = .error (.unwritable e) ↔
      ∃ v, (roman.value x).outcome = .ok v ∧ ¬ (1 ≤ v.toInt ∧ v.toInt ≤ 3999) ∧
        e = .outOfRange v := by
  show (roman.value x).outcome.bind (fun v => (Numeral.ofValue v).mapError .unwritable) = _ ↔ _
  simp only [← Numeral.inRange_iff, ← Numeral.ofValue_eq_error_iff]
  cases hv : (roman.value x).outcome with
  | error err =>
    -- finding the value never fails for a value that cannot be written
    have hne : err ≠ .unwritable e := by
      rintro rfl
      exact Calculator.truthful_of_error hv
    simpa [Except.bind] using hne
  | ok v =>
    show (Numeral.ofValue v).mapError EvaluationError.unwritable = .error (.unwritable e) ↔ _
    simp [mapError_eq_error]

/-! ### All ways to a numeral -/

namespace Numeral

/-- The numeral can be come by: from a text, from a value, or from an expression. -/
inductive Obtained (n : Numeral) : Prop where
  /-- It is the numeral of a text. -/
  | ofText {s : String} : Numeral.ofText s = .ok n → Obtained n
  /-- It is the numeral of a value. -/
  | ofValue {v : Int64} : Numeral.ofValue v = .ok n → Obtained n
  /-- It is the numeral of an expression. -/
  | evaluate {x : String} : (Abacus.evaluate x).outcome = .ok n → Obtained n

/-- Whatever way a numeral is come by, its text and its value belong together. -/
theorem Obtained.coherent {n : Numeral} (h : n.Obtained) : n.Coherent := by
  cases h with
  | ofText h =>
    obtain ⟨rfl, hread⟩ := ofText_eq_ok_iff.1 h
    exact coherent_of_read? hread
  | ofValue h =>
    obtain ⟨rfl, hwrite⟩ := ofValue_eq_ok_iff.1 h
    exact coherent_of_write hwrite
  | evaluate h => exact coherent_of_write (evaluate_eq_ok_iff.1 h).2

/-- The text of a numeral, taken as an expression, has the numeral. -/
theorem Coherent.evaluate_text {n : Numeral} (h : n.Coherent) :
    (evaluate n.text).outcome = .ok n :=
  evaluate_eq_ok_iff.2 ⟨Calculator.value_numeral NumeralSystem.roman_unreserved
    (Calculator.isRun_of_read? h.read) h.read, h.write⟩

/-- **All ways lead to the same numerals.** Every numeral is worth 1 to 3999, its value is written
as its text and its text is read as its value, so numerals are equal if their texts are, or their
values; a text and a value have the same numeral exactly when the text is read as the value. What
an expression has for a numeral is its value, written, and the calculator gives its text; it is
reported that there is none exactly when the value is out of the range, and the text of the
numeral has the same numeral again. -/
theorem ways_agree :
    (∀ n : Numeral, n.Obtained → (1 ≤ n.value.toInt ∧ n.value.toInt ≤ 3999) ∧
      write n.value = .ok n.text ∧ read? n.text = some n.value) ∧
    (∀ n n' : Numeral, n.Obtained → n'.Obtained →
      (n = n' ↔ n.text = n'.text) ∧ (n = n' ↔ n.value = n'.value)) ∧
    (∀ (s : String) (v : Int64),
      (ofText s = ofValue v ↔ read? s = some v) ∧
      (ofText s = ofValue v → ∃ n, ofText s = .ok n ∧ ofValue v = .ok n)) ∧
    ∀ x : String,
      (evaluate x).outcome.map text = (roman.evaluate x).outcome ∧
      (evaluate x).outcome.map text =
        (roman.value x).outcome.bind (fun v => (write v).mapError .unwritable) ∧
      (∀ e, (evaluate x).outcome = .error (.unwritable e) ↔
        ∃ v, (roman.value x).outcome = .ok v ∧ ¬ (1 ≤ v.toInt ∧ v.toInt ≤ 3999) ∧
          e = .outOfRange v) ∧
      ∀ n, (evaluate x).outcome = .ok n →
        (roman.value x).outcome = .ok n.value ∧ (evaluate n.text).outcome = .ok n := by
  refine ⟨fun n hn => ?_, fun n n' hn hn' => ?_, fun s v => ?_, fun x => ?_⟩
  · have h := hn.coherent
    exact ⟨inRange_of_read? h.read, h.write, h.read⟩
  · exact ⟨hn.coherent.eq_iff_text hn'.coherent, hn.coherent.eq_iff_value hn'.coherent⟩
  · refine ⟨ofText_eq_ofValue_iff, fun h => ?_⟩
    have hs : ofText s = .ok ⟨s, v⟩ := ofText_eq_ok_iff.2 ⟨rfl, ofText_eq_ofValue_iff.1 h⟩
    exact ⟨⟨s, v⟩, hs, h.symm.trans hs⟩
  · refine ⟨?_, map_text_evaluate x, fun e => evaluate_eq_unwritable_iff, fun n hn => ?_⟩
    · rw [map_text_evaluate]
      exact (roman.outcome_evaluate x).symm
    · exact ⟨(evaluate_eq_ok_iff.1 hn).1, (Obtained.evaluate hn).coherent.evaluate_text⟩

/-- `I II +` has the numeral that the text `III` and the value three have, and `I - II` has none,
because its value is minus one. -/
theorem ways_agree_three :
    (evaluate "I II +").outcome = .ok ⟨"III", 3⟩ ∧ (evaluate "III").outcome = .ok ⟨"III", 3⟩ ∧
      ofText "III" = .ok ⟨"III", 3⟩ ∧ ofText "III" = ofValue 3 ∧
      (evaluate "I - II").outcome = .error (.unwritable (.outOfRange (-1))) := by
  have hscan : roman.scan "I II +".toList =
      ⟨[.numeral ['I'] 1, .blank ' ', .numeral ['I', 'I'] 2, .blank ' ', .operator .add], none⟩ := by
    cbv
  have hscan' : roman.scan "I - II".toList =
      ⟨[.numeral ['I'] 1, .blank ' ', .operator .sub, .blank ' ', .numeral ['I', 'I'] 2], none⟩ := by
    cbv
  have hv : (roman.value "I II +").outcome = .ok 3 := Calculator.outcome_of_scan hscan
  have hv' : (roman.value "I - II").outcome = .ok (-1) := Calculator.outcome_of_scan hscan'
  have hwrite : write 3 = .ok "III" := by decide
  have hread : read? "III" = some 3 := read?_eq_some_iff_write.2 hwrite
  have hevaluate : (evaluate "I II +").outcome = .ok ⟨"III", 3⟩ :=
    evaluate_eq_ok_iff.2 ⟨hv, hwrite⟩
  obtain ⟨-, -, hsame, hx⟩ := ways_agree
  obtain ⟨-, -, -, hagain⟩ := hx "I II +"
  obtain ⟨-, -, hunwritable, -⟩ := hx "I - II"
  exact ⟨hevaluate, (hagain _ hevaluate).2, ofText_eq_ok_iff.2 ⟨rfl, hread⟩,
    (hsame "III" 3).1.2 hread, (hunwritable _).2 ⟨-1, hv', by decide, rfl⟩⟩

end Numeral

end Abacus
