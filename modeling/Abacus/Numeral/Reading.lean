import Abacus.Numeral.Letter

/-!
# Reading numerals

A numeral is read place by place: thousands, hundreds, tens, ones. A place takes the longest
group of letters it can from the front of what is left, and the text is a numeral when the four
places together take all of it.

The thousands are up to three `M`. Every other place has a letter for one, five and ten of its
units, and its group is either a pair, one before five or one before ten, or the letter for
five, if it is there, and up to three ones after it.
-/

namespace Abacus.Numeral

/-- The three letters a place is written with. -/
structure Place where
  /-- The letter for one unit. -/
  one : Letter
  /-- The letter for five units. -/
  five : Letter
  /-- The letter for ten units. -/
  ten : Letter
  deriving DecidableEq, Repr

namespace Place

/-- The hundreds. -/
def hundreds : Place := ⟨.c, .d, .m⟩

/-- The tens. -/
def tens : Place := ⟨.x, .l, .c⟩

/-- The ones. -/
def ones : Place := ⟨.i, .v, .x⟩

end Place

/-! ### Taking groups -/

/-- How many times a letter may stand in a row. -/
def maxRepeat : Nat := 3

/-- Takes the letter `a` as often as it stands at the front, three times at most. -/
def takeRepeated (a : Letter) (as : List Letter) : List Letter × List Letter :=
  let run := (as.take maxRepeat).takeWhile (· = a)
  (run, as.drop run.length)

namespace Place

/-- Takes the letter for five, if it is there, and the ones after it. -/
def takeSum (p : Place) : List Letter → List Letter × List Letter
  | [] => ([], [])
  | a :: as =>
    if a = p.five then
      let (run, rest) := takeRepeated p.one as
      (a :: run, rest)
    else takeRepeated p.one (a :: as)

/-- Takes a pair, if there is one, and a sum otherwise. -/
def take (p : Place) : List Letter → List Letter × List Letter
  | a :: b :: as =>
    if a = p.one ∧ (b = p.five ∨ b = p.ten) then ([a, b], as) else p.takeSum (a :: b :: as)
  | as => p.takeSum as

end Place

/-- What is taken and what is left make up the letters there were. -/
theorem takeRepeated_append (a : Letter) (as : List Letter) :
    (takeRepeated a as).1 ++ (takeRepeated a as).2 = as := by
  have h : (as.take maxRepeat).takeWhile (· = a) <+: as :=
    (List.takeWhile_prefix _).trans (List.take_prefix _ _)
  exact List.prefix_iff_eq_append.1 h

theorem Place.takeSum_append (p : Place) (as : List Letter) :
    (p.takeSum as).1 ++ (p.takeSum as).2 = as := by
  cases as with
  | nil => rfl
  | cons a as =>
    simp only [takeSum]
    split
    · exact congrArg (a :: ·) (takeRepeated_append p.one as)
    · exact takeRepeated_append p.one (a :: as)

theorem Place.take_append (p : Place) (as : List Letter) :
    (p.take as).1 ++ (p.take as).2 = as := by
  unfold take
  split
  · split
    · rfl
    · exact p.takeSum_append _
  · exact p.takeSum_append _

/-! ### The four places -/

/-- The letters of a numeral, parted into its four places. -/
structure Places where
  /-- The group of the thousands. -/
  thousands : List Letter
  /-- The group of the hundreds. -/
  hundreds : List Letter
  /-- The group of the tens. -/
  tens : List Letter
  /-- The group of the ones. -/
  ones : List Letter
  deriving DecidableEq, Repr

namespace Places

/-- The letters, in the order they are written. -/
def letters (g : Places) : List Letter := g.thousands ++ g.hundreds ++ g.tens ++ g.ones

/-- Parts the letters into the four places; none if some letter is left over. -/
def ofLetters? (as : List Letter) : Option Places :=
  let (thousands, as) := takeRepeated .m as
  let (hundreds, as) := Place.hundreds.take as
  let (tens, as) := Place.tens.take as
  let (ones, as) := Place.ones.take as
  if as.isEmpty then some ⟨thousands, hundreds, tens, ones⟩ else none

/-- The places put together are the letters they were parted from. -/
theorem letters_of_ofLetters? {as : List Letter} {g : Places} (h : ofLetters? as = some g) :
    g.letters = as := by
  simp only [ofLetters?, Option.ite_none_right_eq_some, List.isEmpty_iff, Option.some.injEq] at h
  obtain ⟨hrest, rfl⟩ := h
  have h₀ := takeRepeated_append .m as
  have h₁ := Place.hundreds.take_append (takeRepeated .m as).2
  have h₂ := Place.tens.take_append (Place.hundreds.take (takeRepeated .m as).2).2
  have h₃ := Place.ones.take_append
    (Place.tens.take (Place.hundreds.take (takeRepeated .m as).2).2).2
  rw [hrest, List.append_nil] at h₃
  simp only [letters]
  rw [h₃, List.append_assoc, h₂, List.append_assoc, h₁, h₀]

end Places

/-! ### The value -/

/-- What the letters are worth together. -/
def faceSum : List Letter → Nat
  | [] => 0
  | a :: as => a.faceValue + faceSum as

theorem faceSum_replicate (a : Letter) (n : Nat) :
    faceSum (List.replicate n a) = n * a.faceValue := by
  induction n with
  | zero => exact (Nat.zero_mul _).symm
  | succ n ih => rw [List.replicate_succ, faceSum, ih, Nat.succ_mul, Nat.add_comm]

/-- What a group is worth: a pair is the difference of its letters if the first is worth less,
and every other group is the sum. -/
def groupValue : List Letter → Nat
  | [a, b] =>
    if a.faceValue < b.faceValue then b.faceValue - a.faceValue else a.faceValue + b.faceValue
  | as => faceSum as

/-- What the four places are worth together. -/
def Places.value (g : Places) : Nat :=
  groupValue g.thousands + groupValue g.hundreds + groupValue g.tens + groupValue g.ones

/-- What a row of letters is worth; none if it is empty or no numeral. -/
def valueOf? (as : List Letter) : Option Nat :=
  if as.isEmpty then none else (Places.ofLetters? as).map Places.value

/-- Reads a numeral; none if the text is not one. -/
def read? (text : String) : Option Int64 :=
  ((letters? text.toList).bind valueOf?).map Int64.ofNat

end Abacus.Numeral
