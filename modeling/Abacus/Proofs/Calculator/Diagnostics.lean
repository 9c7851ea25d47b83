import Abacus.Proofs.Calculator.Course
import Abacus.Proofs.Calculator.Origin
import Abacus.Proofs.Expression.Placement
import Abacus.Proofs.Text.Slice

/-!
# What faults say

A fault says something about a place in the text, and it is so (`Calculator.Truthful`): the
character or the digits stand there, the operator is one of the table and has no value for the
operands, the digits are no numeral.

There are two ways to it. A fault of the scan is where the scan stops, and the text before it is
scanned without a fault. A fault of the machine is about a token that was read, and a token
stands where its text does.
-/

namespace Abacus

/-- The text goes on as `rest` from the position on. -/
def Text.GoesOn (cs : List Char) (position : Nat) (rest : List Char) : Prop :=
  ∃ before, before ++ rest = cs ∧ Text.width before = position

namespace Calculator

/-- What a fault says of a text is so. -/
def Truthful (c : Calculator) (cs : List Char) : EvaluationError → Prop
  | .unknownCharacter ch p =>
    c.IsUnknown ch ∧ ∃ rest, Text.GoesOn cs p (ch :: rest)
  | .invalidNumeral digits p =>
    c.IsRun digits.toList ∧ (∀ d ∈ digits.toList.head?, isReserved d = false) ∧
      c.numerals.read? digits = none ∧
      ∃ rest, Text.GoesOn cs p (digits.toList ++ rest) ∧ c.Stops rest
  | .missingOperand o p =>
    c.operators.contains o = true ∧ ∃ rest, Text.GoesOn cs p (o :: rest)
  | .overflow o left right p =>
    (∃ op, c.operators.find? o = some op ∧ op.apply left right = none) ∧
      ∃ rest, Text.GoesOn cs p (o :: rest)
  | .unbalancedBracket p =>
    ∃ ch rest, (ch = openingBracket ∨ ch = closingBracket) ∧ Text.GoesOn cs p (ch :: rest)
  | .notOneValue count => count ≠ 1
  | .unwritable _ => False

end Calculator

namespace EvaluationError

/-- The fault is one of the scan. -/
def isLexical : EvaluationError → Bool
  | unknownCharacter _ _ | invalidNumeral _ _ => true
  | _ => false

/-- The fault is one of an operator and its operands. -/
def isOperational : EvaluationError → Bool
  | missingOperand _ _ | overflow _ _ _ _ => true
  | _ => false

end EvaluationError

/-- An application fails with a fault of the operator and its operands. -/
theorem Workings.isOperational_of_apply {w : Workings} {op : Operator} {p : Nat}
    {e : EvaluationError} (h : w.apply op p = .error e) : e.isOperational = true := by
  rcases apply_eq_error_iff.1 h with ⟨-, rfl⟩ | ⟨_, _, _, -, -, rfl⟩
  · rfl
  · rfl

/-- A position where the text goes on is one in the text. -/
theorem Text.GoesOn.lt_width {cs rest : List Char} {p : Nat} (h : Text.GoesOn cs p rest)
    (hrest : rest ≠ []) : p < Text.width cs := by
  obtain ⟨before, rfl, rfl⟩ := h
  rw [width_append]
  exact Nat.lt_add_of_pos_right (width_pos hrest)

/-- A position where the text goes on with a character is one between two of its characters. -/
theorem Text.GoesOn.isValid {s : String} {p : Nat} {ch : Char} {rest : List Char}
    (h : Text.GoesOn s.toList p (ch :: rest)) :
    String.Pos.Raw.IsValid s ⟨p⟩ ∧ p < s.utf8ByteSize := by
  refine ⟨?_, width_toList s ▸ h.lt_width (List.cons_ne_nil _ _)⟩
  obtain ⟨before, htext, rfl⟩ := h
  exact isValid_width htext.symm

namespace Calculator

variable {c : Calculator} {cs : List Char}

/-- A token that was read is admitted and stands at its position. -/
theorem goesOn_of_mem_place {p : Nat} {t : Token}
    (h : (⟨p, t⟩ : PlacedToken) ∈ Token.place 0 (c.scan cs).tokens) :
    c.Admits t ∧ ∃ rest, Text.GoesOn cs p (t.text ++ rest) := by
  obtain ⟨xs, ys, hts, hp⟩ := Token.mem_place_iff.1 h
  obtain ⟨left, htext, -⟩ := c.scan_eq cs
  refine ⟨admits_of_mem_scan (hts ▸ List.mem_append_right _ List.mem_cons_self),
    Token.textOf ys ++ left, Token.textOf xs, ?_, ?_⟩
  · rw [← htext, hts, Token.textOf_append, Token.textOf_cons]
    simp only [List.append_assoc]
  · exact (hp.trans (Nat.zero_add _)).symm

/-- A token that was read stands in the text. -/
theorem position_lt_of_mem_place {t : PlacedToken} (h : t ∈ Token.place 0 (c.scan cs).tokens) :
    t.position < Text.width cs := by
  obtain ⟨hadmits, rest, hrest⟩ := goesOn_of_mem_place h
  exact hrest.lt_width (List.append_ne_nil_of_left_ne_nil (text_ne_nil_of_admits hadmits) _)

/-- A fault about a token that was read is truthful. -/
theorem truthful_of_blames {e : EvaluationError}
    (h : e.Blames (· ∈ Token.place 0 (c.scan cs).tokens)) : c.Truthful cs e := by
  have hoperator {op : Operator} {p : Nat}
      (hop : (⟨p, .operator op⟩ : PlacedToken) ∈ Token.place 0 (c.scan cs).tokens) :
      c.operators.find? op.symbol = some op ∧ ∃ rest, Text.GoesOn cs p (op.symbol :: rest) := by
    obtain ⟨hmem, hrest⟩ := goesOn_of_mem_place hop
    exact ⟨OperatorTable.find?_eq_some_iff.2 ⟨hmem, rfl⟩, hrest⟩
  cases e with
  | unbalancedBracket p =>
    rcases h with h | h
    · obtain ⟨-, rest, hrest⟩ := goesOn_of_mem_place h
      exact ⟨openingBracket, rest, .inl rfl, hrest⟩
    · obtain ⟨-, rest, hrest⟩ := goesOn_of_mem_place h
      exact ⟨closingBracket, rest, .inr rfl, hrest⟩
  | missingOperand o p =>
    obtain ⟨op, hop, rfl⟩ := h
    obtain ⟨hfind, hrest⟩ := hoperator hop
    exact ⟨by rw [OperatorTable.contains, hfind]; rfl, hrest⟩
  | overflow o left right p =>
    obtain ⟨op, hop, rfl, hnone⟩ := h
    obtain ⟨hfind, hrest⟩ := hoperator hop
    exact ⟨⟨op, hfind, hnone⟩, hrest⟩
  | notOneValue count => exact h
  | invalidNumeral | unknownCharacter | unwritable => exact absurd h id

/-- The fault that a text goes on with is one of the scan. -/
theorem isLexical_of_faultOf {e : EvaluationError} (h : c.faultOf cs = some e) :
    e.isLexical = true := by
  obtain ⟨fault, -, rfl⟩ := Option.map_eq_some_iff.1 h
  cases fault <;> rfl

/-- So is the fault that a run comes to when it has read all tokens. -/
theorem isLexical_of_reaches {q : Point} {e : EvaluationError} (h : (c.start cs).Reaches q)
    (hfault : q.fault? = some e) : e.isLexical = true := by
  rw [h.fault?_eq] at hfault
  exact isLexical_of_faultOf hfault

/-- A fault of the scan is truthful, and the text before it is scanned without a fault. -/
theorem truthful_of_faultOf {e : EvaluationError} (h : c.faultOf cs = some e) :
    c.Truthful cs e ∧ ∃ before rest, before ++ rest = cs ∧
      e.position? = some (Text.width before) ∧ (c.scan before).fault? = none := by
  obtain ⟨fault, hfault, rfl⟩ := Option.map_eq_some_iff.1 h
  obtain ⟨rest, htext, hblocks⟩ := blocks_of_scan hfault
  have hbefore : (c.scan (Token.textOf (c.scan cs).tokens)).fault? = none := by
    rw [scan_textOf_scan]
  cases fault with
  | unknownCharacter ch =>
    obtain ⟨hunknown, hhead⟩ := hblocks
    obtain ⟨rest, rfl⟩ := List.head?_eq_some_iff.1 hhead
    exact ⟨⟨hunknown, rest, _, htext, rfl⟩, _, _, htext, rfl, hbefore⟩
  | invalidNumeral ds =>
    obtain ⟨hrun, hhead, hread, rest, rfl, hstops⟩ := hblocks
    refine ⟨?_, _, _, htext, rfl, hbefore⟩
    simp only [ScanFault.error, Truthful, String.toList_ofList]
    exact ⟨hrun, hhead, hread, rest, ⟨_, htext, rfl⟩, hstops⟩

/-- A character of the text stands at the position a truthful fault is reported at. -/
theorem Truthful.goesOn {e : EvaluationError} (h : c.Truthful cs e) :
    ∀ p ∈ e.position?, ∃ ch rest, Text.GoesOn cs p (ch :: rest) := by
  intro p hp
  cases e with
  | unknownCharacter ch q =>
    obtain rfl := Option.some.inj hp
    obtain ⟨-, rest, hrest⟩ := h
    exact ⟨ch, rest, hrest⟩
  | invalidNumeral digits q =>
    obtain rfl := Option.some.inj hp
    obtain ⟨⟨hne, -⟩, -, -, rest, hrest, -⟩ := h
    obtain ⟨d, ds, hds⟩ := List.exists_cons_of_ne_nil hne
    rw [hds] at hrest
    exact ⟨d, ds ++ rest, hrest⟩
  | missingOperand o q =>
    obtain rfl := Option.some.inj hp
    obtain ⟨-, rest, hrest⟩ := h
    exact ⟨o, rest, hrest⟩
  | overflow o left right q =>
    obtain rfl := Option.some.inj hp
    obtain ⟨-, rest, hrest⟩ := h
    exact ⟨o, rest, hrest⟩
  | unbalancedBracket q =>
    obtain rfl := Option.some.inj hp
    obtain ⟨ch, rest, -, hrest⟩ := h
    exact ⟨ch, rest, hrest⟩
  | notOneValue | unwritable => cases hp

/-- If a text has no value, what the fault says is so. -/
theorem truthful_of_error {e : EvaluationError} (h : (c.compute cs).outcome = .error e) :
    c.Truthful cs e := by
  rcases error_cases h with hfault | hblames
  · exact (truthful_of_faultOf hfault).1
  · exact truthful_of_blames hblames

/-- If a text has no value, the fault is reported at a position in the text. -/
theorem position_lt_of_error {e : EvaluationError} (h : (c.compute cs).outcome = .error e) :
    ∀ p ∈ e.position?, p < Text.width cs := by
  intro p hp
  obtain ⟨ch, rest, hrest⟩ := (truthful_of_error h).goesOn p hp
  exact hrest.lt_width (List.cons_ne_nil _ _)

/-- A fault of the scan is the first. -/
theorem first_of_isLexical {e : EvaluationError} (h : (c.compute cs).outcome = .error e)
    (hlexical : e.isLexical = true) :
    ∃ before rest, before ++ rest = cs ∧ e.position? = some (Text.width before) ∧
      (c.scan before).fault? = none := by
  rcases error_cases h with hfault | hblames
  · exact (truthful_of_faultOf hfault).2
  · cases e with
    | unknownCharacter | invalidNumeral => exact absurd hblames id
    | _ => cases hlexical

/-- **Faults are truthful.** If a text has no value, what the fault says is so, the position it is
reported at is one between two characters of the text, and a fault of the scan is the first: the
text before it is scanned without one. -/
theorem error_truthful (c : Calculator) (expression : String) (e : EvaluationError)
    (h : (c.value expression).outcome = .error e) :
    c.Truthful expression.toList e ∧
      (∀ p ∈ e.position?,
        String.Pos.Raw.IsValid expression ⟨p⟩ ∧ p < expression.utf8ByteSize) ∧
      (e.isLexical = true → ∃ before rest, before ++ rest = expression.toList ∧
        e.position? = some (Text.width before) ∧ (c.scan before).fault? = none) := by
  have herror : (c.compute expression.toList).outcome = .error e := h
  refine ⟨truthful_of_error herror, fun p hp => ?_, first_of_isLexical herror⟩
  obtain ⟨ch, rest, hrest⟩ := (truthful_of_error herror).goesOn p hp
  exact hrest.isValid

/-- In a text with a blank of two bytes the digits that are no numeral are found at the byte they
begin with, and the text before them is scanned. -/
theorem error_truthful_roman :
    (roman.value "I\u00a0+ (IIII").outcome = .error (.invalidNumeral "IIII" 6) ∧
      (∃ rest, Text.GoesOn "I\u00a0+ (IIII".toList 6 ("IIII".toList ++ rest) ∧
        roman.Stops rest) ∧
      ∃ before rest, before ++ rest = "I\u00a0+ (IIII".toList ∧ Text.width before = 6 ∧
        (roman.scan before).fault? = none := by
  have hscan : roman.scan "I\u00a0+ (IIII".toList =
      ⟨[.numeral ['I'] 1, .blank '\u00a0', .operator .add, .blank ' ', .opening],
        some (.invalidNumeral ['I', 'I', 'I', 'I'])⟩ := by
    cbv
  have hv : (roman.value "I\u00a0+ (IIII").outcome = .error (.invalidNumeral "IIII" 6) :=
    outcome_of_scan hscan
  obtain ⟨⟨-, -, -, hrest⟩, -, hlexical⟩ := roman.error_truthful _ _ hv
  obtain ⟨before, rest, htext, hposition, hbefore⟩ := hlexical rfl
  exact ⟨hv, hrest, before, rest, htext, (Option.some.inj hposition).symm, hbefore⟩

end Calculator

end Abacus
