/-!
# Letters

The seven letters numerals are written with, and what each is worth.
-/

namespace Abacus.Numeral

/-- A letter of a numeral. -/
inductive Letter where
  /-- `I`, one. -/
  | i
  /-- `V`, five. -/
  | v
  /-- `X`, ten. -/
  | x
  /-- `L`, fifty. -/
  | l
  /-- `C`, a hundred. -/
  | c
  /-- `D`, five hundred. -/
  | d
  /-- `M`, a thousand. -/
  | m
  deriving DecidableEq, Repr

namespace Letter

/-- The character the letter is written as. -/
def char : Letter → Char
  | i => 'I' | v => 'V' | x => 'X' | l => 'L' | c => 'C' | d => 'D' | m => 'M'

/-- What the letter is worth on its own. -/
def faceValue : Letter → Nat
  | i => 1 | v => 5 | x => 10 | l => 50 | c => 100 | d => 500 | m => 1000

/-- The letter a character writes; only the seven capitals write one. -/
def ofChar? : Char → Option Letter
  | 'I' => some i
  | 'V' => some v
  | 'X' => some x
  | 'L' => some l
  | 'C' => some c
  | 'D' => some d
  | 'M' => some m
  | _ => none

@[simp] theorem ofChar?_char (a : Letter) : ofChar? a.char = some a := by
  cases a <;> rfl

theorem ofChar?_eq_some_iff {ch : Char} {a : Letter} : ofChar? ch = some a ↔ a.char = ch := by
  constructor
  · intro h
    unfold ofChar? at h
    split at h <;> cases h <;> rfl
  · rintro rfl
    exact ofChar?_char a

/-- Two letters are written the same only if they are the same. -/
theorem char_injective {a b : Letter} (h : a.char = b.char) : a = b :=
  Option.some.inj ((ofChar?_char a).symm.trans (h ▸ ofChar?_char b))

end Letter

/-! ### Texts of letters -/

/-- The letters a text is made of; none if another character is in it. -/
def letters? : List Char → Option (List Letter)
  | [] => some []
  | ch :: cs =>
    match Letter.ofChar? ch, letters? cs with
    | some a, some as => some (a :: as)
    | _, _ => none

/-- A text is made of the letters exactly when it is what they are written as. -/
theorem letters?_eq_some_iff {cs : List Char} {as : List Letter} :
    letters? cs = some as ↔ cs = as.map Letter.char := by
  induction cs generalizing as with
  | nil => cases as <;> simp [letters?]
  | cons ch cs ih =>
    constructor
    · intro h
      unfold letters? at h
      split at h
      · next a bs ha hbs =>
        cases h
        rw [List.map_cons, Letter.ofChar?_eq_some_iff.1 ha, ← ih.1 hbs]
      · cases h
    · intro h
      cases as with
      | nil => cases h
      | cons a as =>
        rw [List.map_cons, List.cons.injEq] at h
        simp [letters?, h.1, ih.2 h.2]

theorem letters?_map_char (as : List Letter) : letters? (as.map Letter.char) = some as :=
  letters?_eq_some_iff.2 rfl

end Abacus.Numeral
