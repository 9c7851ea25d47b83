import Abacus.Calculator.Basic
import Abacus.Expression.Error
import Abacus.Expression.Token

/-!
# Scanning

A text is cut into tokens from the left. At the start of a token a blank, a bracket and an
operator count as what they are, and every digit after a digit belongs to the same numeral,
whatever else it may be. The scan goes on to the end of the text or to the first place where no
token can be read.

`readToken_eq_ok` says that a token and what is left are the text there was, so the tokens of a
scan are the text up to the place where it ended (`scan_eq`).
-/

namespace Abacus

/-- Why no token can be read. -/
inductive ScanFault where
  /-- The character means nothing. -/
  | unknownCharacter (c : Char)
  /-- The digits are no numeral. -/
  | invalidNumeral (digits : List Char)
  deriving DecidableEq, Repr

/-- The fault as it is reported for a position. -/
def ScanFault.error (position : Nat) : ScanFault → EvaluationError
  | unknownCharacter c => .unknownCharacter c position
  | invalidNumeral digits => .invalidNumeral (String.ofList digits) position

/-- The outcome of a scan. -/
structure Scan where
  /-- The tokens read. -/
  tokens : List Token
  /-- What ended the scan before the end of the text. -/
  fault? : Option ScanFault

/-- The scan with one more token in front. -/
def Scan.cons (t : Token) (s : Scan) : Scan := { s with tokens := t :: s.tokens }

namespace Calculator

/-- Reads the token at the start of the text `ch :: cs` and says what is left of the text. -/
def readToken (c : Calculator) (ch : Char) (cs : List Char) :
    Except ScanFault (Token × List Char) :=
  if Text.isBlank ch then .ok (.blank ch, cs)
  else if ch = openingBracket then .ok (.opening, cs)
  else if ch = closingBracket then .ok (.closing, cs)
  else
    match c.operators.find? ch with
    | some op => .ok (.operator op, cs)
    | none =>
      if c.numerals.isDigit ch then
        let digits := ch :: cs.takeWhile c.numerals.isDigit
        match c.numerals.read? (String.ofList digits) with
        | some value => .ok (.numeral digits value, cs.dropWhile c.numerals.isDigit)
        | none => .error (.invalidNumeral digits)
      else .error (.unknownCharacter ch)

/-- A token is not empty, and it and what is left are the text there was. -/
theorem readToken_eq_ok {c : Calculator} {ch : Char} {cs rest : List Char} {t : Token}
    (h : c.readToken ch cs = .ok (t, rest)) : t.text ++ rest = ch :: cs ∧ t.text ≠ [] := by
  unfold readToken at h
  split at h
  · cases h
    exact ⟨rfl, List.cons_ne_nil _ _⟩
  split at h
  · next he =>
    cases h
    exact ⟨by rw [he]; rfl, List.cons_ne_nil _ _⟩
  split at h
  · next he =>
    cases h
    exact ⟨by rw [he]; rfl, List.cons_ne_nil _ _⟩
  split at h
  · next op hop =>
    cases h
    obtain ⟨-, rfl⟩ := OperatorTable.find?_eq_some_iff.1 hop
    exact ⟨rfl, List.cons_ne_nil _ _⟩
  split at h
  · simp only at h
    split at h
    · cases h
      refine ⟨?_, List.cons_ne_nil _ _⟩
      rw [Token.text, List.cons_append, List.takeWhile_append_dropWhile]
    · cases h
  · cases h

/-- What is left is shorter than the text there was. -/
theorem length_of_readToken {c : Calculator} {ch : Char} {cs rest : List Char} {t : Token}
    (h : c.readToken ch cs = .ok (t, rest)) : rest.length ≤ cs.length := by
  obtain ⟨htext, hne⟩ := readToken_eq_ok h
  have hlen := congrArg List.length htext
  have hpos := List.length_pos_iff.2 hne
  rw [List.length_append, List.length_cons] at hlen
  omega

/-- Cuts a text into tokens. -/
def scan (c : Calculator) : List Char → Scan
  | [] => ⟨[], none⟩
  | ch :: cs =>
    match h : c.readToken ch cs with
    | .ok (t, rest) =>
      have := length_of_readToken h
      (c.scan rest).cons t
    | .error fault => ⟨[], some fault⟩
termination_by cs => cs.length

@[simp] theorem scan_nil (c : Calculator) : c.scan [] = ⟨[], none⟩ := by
  rw [scan]

theorem scan_cons_of_ok {c : Calculator} {ch : Char} {cs rest : List Char} {t : Token}
    (h : c.readToken ch cs = .ok (t, rest)) : c.scan (ch :: cs) = (c.scan rest).cons t := by
  rw [scan]
  split
  · next h' =>
    rw [h] at h'
    cases h'
    rfl
  · next h' =>
    rw [h] at h'
    cases h'

theorem scan_cons_of_error {c : Calculator} {ch : Char} {cs : List Char} {fault : ScanFault}
    (h : c.readToken ch cs = .error fault) : c.scan (ch :: cs) = ⟨[], some fault⟩ := by
  rw [scan]
  split
  · next h' =>
    rw [h] at h'
    cases h'
  · next h' =>
    rw [h] at h'
    cases h'
    rfl

/-- The tokens of a scan are the text up to the place where the scan ended. -/
theorem scan_eq (c : Calculator) (cs : List Char) :
    ∃ rest, Token.textOf (c.scan cs).tokens ++ rest = cs ∧
      ((c.scan cs).fault? = none → rest = []) := by
  induction hn : cs.length using Nat.strongRecOn generalizing cs with
  | _ n ih =>
    cases cs with
    | nil => exact ⟨[], by simp, fun _ => rfl⟩
    | cons ch cs =>
      cases h : c.readToken ch cs with
      | error fault =>
        rw [scan_cons_of_error h]
        exact ⟨ch :: cs, rfl, fun hf => by cases hf⟩
      | ok r =>
        obtain ⟨t, rest⟩ := r
        have hlen := length_of_readToken h
        rw [List.length_cons] at hn
        obtain ⟨left, hleft, hend⟩ := ih rest.length (by omega) rest rfl
        rw [scan_cons_of_ok h]
        refine ⟨left, ?_, hend⟩
        rw [Scan.cons, Token.textOf_cons, List.append_assoc, hleft, (readToken_eq_ok h).1]

end Calculator

end Abacus
