import Abacus.Calculator.Evaluation
import Mathlib.Data.List.Chain

/-!
# Lexing

`Calculator.Lexes` says which tokens a text is made of and what ends them, without saying how
they are found: every token is one the calculator admits, a numeral ends where its digits end,
and the text ends with the tokens or goes on with something that is no token.

Where no digit is reserved there is exactly one way to lex a text, and it is the one the scan
finds (`scan_eq_iff`). In particular every row of admitted tokens is scanned as itself, as long
as no two numerals in it are neighbours (`scan_textOf`).
-/

namespace Abacus

/-- No character numerals are written with has a meaning of its own. -/
def NumeralSystem.Unreserved (n : NumeralSystem) : Prop :=
  ∀ ch, n.isDigit ch = true → isReserved ch = false

/-- What is reserved is no digit. -/
theorem NumeralSystem.Unreserved.isDigit_eq_false {n : NumeralSystem} (h : n.Unreserved) {ch : Char}
    (hr : isReserved ch = true) : n.isDigit ch = false := by
  cases hd : n.isDigit ch with
  | false => rfl
  | true => exact absurd (h ch hd) (by simp [hr])

theorem NumeralSystem.roman_unreserved : roman.Unreserved := by
  intro ch h
  obtain ⟨a, ha⟩ := Option.isSome_iff_exists.1 (show (Numeral.Letter.ofChar? ch).isSome = true from h)
  rw [← Numeral.Letter.ofChar?_eq_some_iff.1 ha]
  cases a <;> decide

namespace Calculator

/-- The characters are digits, and there is at least one. -/
def IsRun (c : Calculator) (ds : List Char) : Prop :=
  ds ≠ [] ∧ ∀ d ∈ ds, c.numerals.isDigit d = true

/-- The text does not go on with a digit. -/
def Stops (c : Calculator) (cs : List Char) : Prop :=
  ∀ d ∈ cs.head?, c.numerals.isDigit d = false

/-- The token is one the calculator knows. -/
def Admits (c : Calculator) : Token → Prop
  | .blank ch => Text.isBlank ch = true
  | .opening | .closing => True
  | .operator op => op ∈ c.operators.toList
  | .numeral ds v => c.IsRun ds ∧ c.numerals.read? (String.ofList ds) = some v

/-- The token can stand before the text: a numeral stands before no digit. -/
def Precedes (c : Calculator) : Token → List Char → Prop
  | .numeral _ _, cs => c.Stops cs
  | _, _ => True

/-- The character begins no token. -/
def IsUnknown (c : Calculator) (ch : Char) : Prop :=
  isReserved ch = false ∧ (∀ op ∈ c.operators.toList, op.symbol ≠ ch) ∧
    c.numerals.isDigit ch = false

/-- `c.Lexes cs ts fault?`: the text `cs` is made of the tokens `ts`, and then it ends or goes on
with the fault. -/
inductive Lexes (c : Calculator) : List Char → List Token → Option ScanFault → Prop where
  /-- The text ends. -/
  | done : Lexes c [] [] none
  /-- The text goes on with a token. -/
  | token {t : Token} {ts : List Token} {cs : List Char} {fault? : Option ScanFault} :
      c.Admits t → c.Precedes t cs → Lexes c cs ts fault? → Lexes c (t.text ++ cs) (t :: ts) fault?
  /-- The text goes on with a character that means nothing. -/
  | unknown {ch : Char} {cs : List Char} :
      c.IsUnknown ch → Lexes c (ch :: cs) [] (some (.unknownCharacter ch))
  /-- The text goes on with digits that are no numeral. -/
  | invalid {ds cs : List Char} :
      c.IsRun ds → c.Stops cs → c.numerals.read? (String.ofList ds) = none →
      Lexes c (ds ++ cs) [] (some (.invalidNumeral ds))

/-! ### Runs of digits -/

section Runs

variable {c : Calculator}

theorem takeWhile_run {ds cs : List Char} (hds : ∀ d ∈ ds, c.numerals.isDigit d = true)
    (hcs : c.Stops cs) : (ds ++ cs).takeWhile c.numerals.isDigit = ds := by
  rw [List.takeWhile_append_of_pos hds]
  cases cs with
  | nil => simp
  | cons ch cs => rw [List.takeWhile_cons_of_neg (by simp [hcs ch rfl]), List.append_nil]

theorem dropWhile_run {ds cs : List Char} (hds : ∀ d ∈ ds, c.numerals.isDigit d = true)
    (hcs : c.Stops cs) : (ds ++ cs).dropWhile c.numerals.isDigit = cs := by
  rw [List.dropWhile_append_of_pos hds]
  cases cs with
  | nil => rfl
  | cons ch cs => rw [List.dropWhile_cons_of_neg (by simp [hcs ch rfl])]

theorem isRun_takeWhile {ch : Char} (h : c.numerals.isDigit ch = true) (cs : List Char) :
    c.IsRun (ch :: cs.takeWhile c.numerals.isDigit) := by
  refine ⟨List.cons_ne_nil _ _, fun d hd => ?_⟩
  rcases List.mem_cons.1 hd with rfl | hd
  · exact h
  · exact List.all_eq_true.1 List.all_takeWhile d hd

theorem stops_nil (c : Calculator) : c.Stops [] := fun d hd => by cases hd

theorem stops_cons {ch : Char} (h : c.numerals.isDigit ch = false) (cs : List Char) :
    c.Stops (ch :: cs) := by
  intro d hd
  obtain rfl : ch = d := by simpa using hd
  exact h

theorem stops_dropWhile (c : Calculator) (cs : List Char) :
    c.Stops (cs.dropWhile c.numerals.isDigit) := by
  intro d hd
  have h := List.head?_dropWhile_not c.numerals.isDigit cs
  rw [Option.mem_def] at hd
  rw [hd] at h
  exact h

/-- What goes on with no digit does so with more of the kind after it. -/
theorem stops_append_of_stops {cs ds : List Char} (hcs : c.Stops cs) (hds : c.Stops ds) :
    c.Stops (cs ++ ds) := by
  cases cs with
  | nil => exact hds
  | cons ch cs => exact hcs

/-- Only the first character counts, whatever comes after it. -/
theorem stops_append_of_ne_nil {cs : List Char} (h : c.Stops cs) (hne : cs ≠ [])
    (ds : List Char) : c.Stops (cs ++ ds) := by
  obtain ⟨ch, cs, rfl⟩ := List.exists_cons_of_ne_nil hne
  exact stops_cons (h ch rfl) _

/-- A token that can stand before a text can stand before more, if no digit comes. -/
theorem precedes_append_of_stops {t : Token} {cs ds : List Char} (h : c.Precedes t cs)
    (hds : c.Stops ds) : c.Precedes t (cs ++ ds) := by
  cases t with
  | numeral => exact stops_append_of_stops h hds
  | _ => trivial

/-- A token that can stand before a text that is not empty can stand before any more. -/
theorem precedes_append_of_ne_nil {t : Token} {cs : List Char} (h : c.Precedes t cs)
    (hne : cs ≠ []) (ds : List Char) : c.Precedes t (cs ++ ds) := by
  cases t with
  | numeral => exact stops_append_of_ne_nil h hne ds
  | _ => trivial

end Runs

/-! ### What is read at the start of a text -/

section ReadToken

variable {c : Calculator} {ch : Char} {cs rest : List Char}

theorem not_isReserved_iff (ch : Char) :
    isReserved ch = false ↔
      Text.isBlank ch = false ∧ ch ≠ openingBracket ∧ ch ≠ closingBracket := by
  simp [isReserved, and_assoc]

/-- What is not reserved is an operator, a numeral, or nothing. -/
theorem readToken_of_not_isReserved (h : isReserved ch = false) :
    c.readToken ch cs =
      match c.operators.find? ch with
      | some op => .ok (.operator op, cs)
      | none =>
        if c.numerals.isDigit ch then
          match c.numerals.read? (String.ofList (ch :: cs.takeWhile c.numerals.isDigit)) with
          | some value => .ok (.numeral (ch :: cs.takeWhile c.numerals.isDigit) value,
              cs.dropWhile c.numerals.isDigit)
          | none => .error (.invalidNumeral (ch :: cs.takeWhile c.numerals.isDigit))
        else .error (.unknownCharacter ch) := by
  obtain ⟨hb, ho, hcl⟩ := (not_isReserved_iff ch).1 h
  unfold readToken
  exact (if_neg (by simp [hb])).trans ((if_neg ho).trans (if_neg hcl))

theorem find?_eq_none_iff (t : OperatorTable) (ch : Char) :
    t.find? ch = none ↔ ∀ op ∈ t.toList, op.symbol ≠ ch := by
  simp [OperatorTable.find?]

/-- No digit is an operator. -/
theorem find?_of_isDigit (h : c.numerals.isDigit ch = true) : c.operators.find? ch = none := by
  rw [find?_eq_none_iff]
  rintro op hop rfl
  rw [c.apart op hop] at h
  cases h

/-- Digits are read to their end. -/
theorem readToken_of_run (hc : c.numerals.Unreserved) {d : Char} {ds : List Char}
    (hds : c.IsRun (d :: ds)) (hcs : c.Stops cs) :
    c.readToken d (ds ++ cs) =
      match c.numerals.read? (String.ofList (d :: ds)) with
      | some value => .ok (.numeral (d :: ds) value, cs)
      | none => .error (.invalidNumeral (d :: ds)) := by
  have hd := hds.2 d List.mem_cons_self
  have hds' : ∀ b ∈ ds, c.numerals.isDigit b = true := fun b hb =>
    hds.2 b (List.mem_cons_of_mem d hb)
  rw [readToken_of_not_isReserved (hc d hd), find?_of_isDigit hd, takeWhile_run hds' hcs,
    dropWhile_run hds' hcs]
  exact if_pos hd

/-- What is read at the start of a text is a token that is admitted there. -/
theorem admits_of_readToken {t : Token} (h : c.readToken ch cs = .ok (t, rest)) :
    c.Admits t ∧ c.Precedes t rest := by
  unfold readToken at h
  split at h
  · next hb =>
    cases h
    exact ⟨hb, trivial⟩
  split at h
  · cases h
    exact ⟨trivial, trivial⟩
  split at h
  · cases h
    exact ⟨trivial, trivial⟩
  split at h
  · next op hop =>
    cases h
    exact ⟨(OperatorTable.find?_eq_some_iff.1 hop).1, trivial⟩
  split at h
  · next hd =>
    simp only at h
    split at h
    · next value hv =>
      cases h
      exact ⟨⟨isRun_takeWhile hd cs, hv⟩, c.stops_dropWhile cs⟩
    · cases h
  · cases h

/-- Where no token can be read, the text goes on with the fault. -/
theorem lexes_of_readToken {fault : ScanFault} (h : c.readToken ch cs = .error fault) :
    c.Lexes (ch :: cs) [] (some fault) := by
  unfold readToken at h
  split at h
  · cases h
  next hb =>
  split at h
  · cases h
  next ho =>
  split at h
  · cases h
  next hcl =>
  split at h
  · cases h
  next hop =>
  split at h
  · next hd =>
    simp only at h
    split at h
    · cases h
    · next hv =>
      cases h
      have hlex := Lexes.invalid (isRun_takeWhile hd cs) (c.stops_dropWhile cs) hv
      rwa [List.cons_append, List.takeWhile_append_dropWhile] at hlex
  · next hd =>
    cases h
    exact .unknown ⟨(not_isReserved_iff ch).2 ⟨by simpa using hb, ho, hcl⟩,
      (find?_eq_none_iff _ _).1 hop, by simpa using hd⟩

/-- A token that is admitted is read as itself. -/
theorem readToken_of_admits (hc : c.numerals.Unreserved) {t : Token} (ht : c.Admits t)
    (hp : c.Precedes t cs) :
    ∃ ch rest, t.text ++ cs = ch :: rest ∧ c.readToken ch rest = .ok (t, cs) := by
  cases t with
  | blank b => exact ⟨b, cs, rfl, if_pos ht⟩
  | opening => exact ⟨openingBracket, cs, rfl, rfl⟩
  | closing => exact ⟨closingBracket, cs, rfl, rfl⟩
  | operator op =>
    have hop : c.operators.find? op.symbol = some op :=
      OperatorTable.find?_eq_some_iff.2 ⟨ht, rfl⟩
    refine ⟨op.symbol, cs, rfl, ?_⟩
    rw [readToken_of_not_isReserved (c.operators.unreserved op ht), hop]
  | numeral ds v =>
    obtain ⟨hds, hv⟩ := ht
    obtain ⟨d, ds, rfl⟩ := List.exists_cons_of_ne_nil hds.1
    refine ⟨d, ds ++ cs, rfl, ?_⟩
    rw [readToken_of_run hc hds hp, hv]

theorem readToken_of_isUnknown (h : c.IsUnknown ch) :
    c.readToken ch cs = .error (.unknownCharacter ch) := by
  obtain ⟨hr, hop, hd⟩ := h
  rw [readToken_of_not_isReserved hr, (find?_eq_none_iff _ _).2 hop]
  exact if_neg (by simp [hd])

end ReadToken

/-! ### The scan lexes -/

/-- The tokens of a scan are a lexing of the text. -/
theorem lexes_scan (c : Calculator) (cs : List Char) :
    c.Lexes cs (c.scan cs).tokens (c.scan cs).fault? := by
  induction hn : cs.length using Nat.strongRecOn generalizing cs with
  | _ n ih =>
    cases cs with
    | nil =>
      rw [scan_nil]
      exact .done
    | cons ch cs =>
      cases h : c.readToken ch cs with
      | error fault =>
        rw [scan_cons_of_error h]
        exact lexes_of_readToken h
      | ok r =>
        obtain ⟨t, rest⟩ := r
        have hlen := length_of_readToken h
        rw [List.length_cons] at hn
        obtain ⟨ht, hp⟩ := admits_of_readToken h
        rw [scan_cons_of_ok h, ← (readToken_eq_ok h).1]
        exact .token ht hp (ih rest.length (by omega) rest rfl)

/-- Where no digit is reserved, a text is lexed in one way only: as it is scanned. -/
theorem scan_of_lexes {c : Calculator} (hc : c.numerals.Unreserved) {cs : List Char}
    {ts : List Token} {fault? : Option ScanFault} (h : c.Lexes cs ts fault?) :
    c.scan cs = ⟨ts, fault?⟩ := by
  induction h with
  | done => exact scan_nil c
  | token ht hp _ ih =>
    obtain ⟨ch, rest, htext, hread⟩ := readToken_of_admits hc ht hp
    rw [htext, scan_cons_of_ok hread, ih]
    rfl
  | unknown h => exact scan_cons_of_error (readToken_of_isUnknown h)
  | @invalid ds cs hds hcs hv =>
    obtain ⟨d, ds, rfl⟩ := List.exists_cons_of_ne_nil hds.1
    rw [List.cons_append]
    refine scan_cons_of_error ?_
    rw [readToken_of_run hc hds hcs, hv]

theorem scan_eq_iff {c : Calculator} (hc : c.numerals.Unreserved) {cs : List Char}
    {ts : List Token} {fault? : Option ScanFault} :
    c.scan cs = ⟨ts, fault?⟩ ↔ c.Lexes cs ts fault? := by
  constructor
  · intro h
    have hlex := c.lexes_scan cs
    rwa [h] at hlex
  · exact scan_of_lexes hc

end Calculator

/-! ### Rows of tokens -/

namespace Token

/-- The token only parts other tokens. -/
def isBlank : Token → Bool
  | blank _ => true
  | _ => false

/-- The tokens that are no blanks. -/
def visible (ts : List PlacedToken) : List PlacedToken := ts.filter (!·.token.isBlank)

theorem map_token_visible_place (start : Nat) (ts : List Token) :
    (visible (place start ts)).map PlacedToken.token = ts.filter (!·.isBlank) := by
  induction ts generalizing start with
  | nil => rfl
  | cons t ts ih =>
    cases t with
    | blank ch => exact ih (start + (blank ch).width)
    | _ => exact congrArg (_ :: ·) (ih _)

/-- An operand ends with the token. -/
def endsOperand : Token → Bool
  | numeral _ _ | closing => true
  | _ => false

/-- An operand starts with the token. -/
def startsOperand : Token → Bool
  | numeral _ _ | opening => true
  | _ => false

/-- No operand directly follows another, blanks aside. -/
def Separate (ts : List Token) : Prop :=
  (ts.filter (!·.isBlank)).IsChain fun t u => ¬ (t.endsOperand = true ∧ u.startsOperand = true)

theorem Separate.tail {t : Token} {ts : List Token} (h : Separate (t :: ts)) : Separate ts := by
  unfold Separate at h
  rw [List.filter_cons] at h
  split at h
  · exact h.tail
  · exact h

/-- Two numerals that are separate are not neighbours. -/
theorem not_separate_numerals {ds es : List Char} {v w : Int64} {ts : List Token} :
    ¬ Separate (.numeral ds v :: .numeral es w :: ts) := by
  intro h
  exact (List.isChain_cons_cons.1 h).1 ⟨rfl, rfl⟩

end Token

namespace Calculator

variable {c : Calculator}

/-- What is no numeral starts with no digit. -/
theorem stops_text_append (hc : c.numerals.Unreserved) {t : Token} (ht : c.Admits t)
    (hn : ∀ ds v, t ≠ .numeral ds v) (cs : List Char) : c.Stops (t.text ++ cs) := by
  have hreserved {b : Char} (hb : isReserved b = true) : c.Stops (b :: cs) :=
    stops_cons (hc.isDigit_eq_false hb) cs
  cases t with
  | blank b => exact hreserved ((isReserved_iff b).2 (.inl ht))
  | opening => exact hreserved rfl
  | closing => exact hreserved rfl
  | operator op => exact stops_cons (c.apart op ht) cs
  | numeral ds v => exact absurd rfl (hn ds v)

/-- Tokens that are admitted and separate lex the text they are written as. -/
theorem lexes_textOf (hc : c.numerals.Unreserved) {ts : List Token} (hts : ∀ t ∈ ts, c.Admits t)
    (hsep : Token.Separate ts) : c.Lexes (Token.textOf ts) ts none := by
  induction ts with
  | nil => exact .done
  | cons t ts ih =>
    refine .token (hts t List.mem_cons_self) ?_
      (ih (fun u hu => hts u (List.mem_cons_of_mem t hu)) hsep.tail)
    cases t with
    | numeral ds v =>
      show c.Stops (Token.textOf ts)
      cases ts with
      | nil => exact c.stops_nil
      | cons u ts =>
        refine stops_text_append hc (hts u (by simp)) ?_ _
        rintro es w rfl
        exact Token.not_separate_numerals hsep
    | _ => trivial

theorem scan_textOf (hc : c.numerals.Unreserved) {ts : List Token} (hts : ∀ t ∈ ts, c.Admits t)
    (hsep : Token.Separate ts) : c.scan (Token.textOf ts) = ⟨ts, none⟩ :=
  scan_of_lexes hc (lexes_textOf hc hts hsep)

end Calculator

end Abacus
