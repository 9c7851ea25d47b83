import Abacus.Numeral.Reading
import Abacus.Numeral.Writing
import Mathlib.Data.List.TakeWhile

/-!
# Digits

A numeral is written digit by digit: every decimal digit of a value has one group of letters in
its place (`Place.group`), and the thousands have as many `M`. `Places.ofNat` is a value parted
in this way.

Reading and writing meet here. Writing the pieces largest first writes the groups of the digits
(`letters_ofNat`). Reading takes them off again, each as a whole (`ofLetters?_letters_ofNat`), and
it takes nothing else: what reading parts is `Places.ofNat` of some value below 4000
(`exists_of_ofLetters?`).
-/

namespace Abacus.Numeral

namespace Place

/-- The letters of a digit in its place. -/
def group (p : Place) (d : Nat) : List Letter :=
  if d = 4 then [p.one, p.five]
  else if d = 9 then [p.one, p.ten]
  else if d < 5 then List.replicate d p.one
  else p.five :: List.replicate (d - 5) p.one

theorem group_of_le_three (p : Place) {n : Nat} (hn : n ≤ 3) :
    p.group n = List.replicate n p.one := by
  unfold group
  rw [if_neg (by omega), if_neg (by omega), if_pos (by omega)]

theorem group_add_five (p : Place) {n : Nat} (hn : n ≤ 3) :
    p.group (n + 5) = p.five :: List.replicate n p.one := by
  unfold group
  rw [if_neg (by omega), if_neg (by omega), if_neg (by omega), Nat.add_sub_cancel]

/-- A digit is written as ones, as a pair, or as a five and ones. -/
theorem digit_cases {d : Nat} (hd : d < 10) :
    d ≤ 3 ∨ d = 4 ∨ d = 9 ∨ ∃ n ≤ 3, d = n + 5 := by
  by_cases h : d ≤ 4
  · omega
  · exact .inr (or_iff_not_imp_left.2 fun _ => or_iff_not_imp_left.2 fun _ =>
      ⟨d - 5, by omega, by omega⟩)

/-- The letters of the place are worth one, five and ten times `unit`. -/
structure Worth (p : Place) (unit : Nat) : Prop where
  pos : 0 < unit
  one : p.one.faceValue = unit
  five : p.five.faceValue = 5 * unit
  ten : p.ten.faceValue = 10 * unit

theorem worth_hundreds : hundreds.Worth 100 := ⟨by decide, rfl, rfl, rfl⟩

theorem worth_tens : tens.Worth 10 := ⟨by decide, rfl, rfl, rfl⟩

theorem worth_ones : ones.Worth 1 := ⟨by decide, rfl, rfl, rfl⟩

namespace Worth

variable {p : Place} {unit : Nat}

theorem one_ne_five (h : p.Worth unit) : p.one ≠ p.five := by
  intro he
  have := h.one.symm.trans ((congrArg Letter.faceValue he).trans h.five)
  have := h.pos
  omega

theorem one_ne_ten (h : p.Worth unit) : p.one ≠ p.ten := by
  intro he
  have := h.one.symm.trans ((congrArg Letter.faceValue he).trans h.ten)
  have := h.pos
  omega

end Worth

/-- The text does not start with a letter of the place, so it does not go on with its group. -/
def Ends (p : Place) (as : List Letter) : Prop :=
  ∀ a ∈ as.head?, a ≠ p.one ∧ a ≠ p.five ∧ a ≠ p.ten

end Place

theorem Place.ends_nil (p : Place) : p.Ends [] := fun _ h => by cases h

/-! ### Taking groups off -/

/-- Taking stops after three letters, and before another letter. -/
theorem takeRepeated_replicate_append {a : Letter} {n : Nat} {rest : List Letter}
    (hn : n ≤ maxRepeat) (hrest : ∀ b ∈ rest.head?, b ≠ a) :
    takeRepeated a (List.replicate n a ++ rest) = (List.replicate n a, rest) := by
  have hrun : ((List.replicate n a ++ rest).take maxRepeat).takeWhile (· = a) =
      List.replicate n a := by
    rw [List.take_append, List.take_of_length_le (by simpa using hn), List.length_replicate,
      List.takeWhile_append_of_pos (by simp)]
    cases rest with
    | nil => simp
    | cons b rest =>
      have hb : b ≠ a := hrest b rfl
      cases hk : maxRepeat - n with
      | zero => simp
      | succ k => simp [hb]
  unfold takeRepeated
  rw [hrun]
  simp

/-- What is taken is the letter, three times at most. -/
theorem exists_of_takeRepeated (a : Letter) (as : List Letter) :
    ∃ n ≤ maxRepeat, (takeRepeated a as).1 = List.replicate n a := by
  refine ⟨((as.take maxRepeat).takeWhile (· = a)).length, ?_, ?_⟩
  · exact (List.takeWhile_prefix _).length_le.trans (List.length_take_le _ _)
  · refine List.eq_replicate_of_mem fun b hb => ?_
    simpa using List.mem_takeWhile_imp hb

namespace Place

variable {p : Place} {unit : Nat}

/-- Without the letter for five in front, a sum is a row of ones. -/
theorem takeSum_of_head {as : List Letter} (h : ∀ a ∈ as.head?, a ≠ p.five) :
    p.takeSum as = takeRepeated p.one as := by
  cases as with
  | nil => rfl
  | cons a as => rw [takeSum, if_neg (h a rfl)]

theorem takeSum_five (as : List Letter) :
    p.takeSum (p.five :: as) = (p.five :: (takeRepeated p.one as).1, (takeRepeated p.one as).2) := by
  rw [takeSum, if_pos rfl]

theorem take_pair {b : Letter} (hb : b = p.five ∨ b = p.ten) (as : List Letter) :
    p.take (p.one :: b :: as) = ([p.one, b], as) := by
  rw [take, if_pos ⟨rfl, hb⟩]

/-- Without a pair in front, a sum is taken. -/
theorem take_of_not_pair {as : List Letter}
    (h : ∀ b ∈ as.tail.head?, as.head? = some p.one → b ≠ p.five ∧ b ≠ p.ten) :
    p.take as = p.takeSum as := by
  unfold take
  split
  · next a b as =>
    refine if_neg ?_
    rintro ⟨rfl, hb⟩
    obtain ⟨h5, h10⟩ := h b rfl rfl
    exact hb.elim h5 h10
  · rfl

/-- The group of a digit is taken as a whole, if the text does not go on with it. -/
theorem take_group_append (hp : p.Worth unit) {d : Nat} (hd : d < 10) {rest : List Letter}
    (hrest : p.Ends rest) : p.take (p.group d ++ rest) = (p.group d, rest) := by
  have hone : ∀ b ∈ rest.head?, b ≠ p.one := fun b hb => (hrest b hb).1
  obtain h3 | rfl | rfl | ⟨n, hn, rfl⟩ := digit_cases hd
  · rw [group_of_le_three p h3, take_of_not_pair, takeSum_of_head]
    · exact takeRepeated_replicate_append h3 hone
    · intro a ha
      cases d with
      | zero => exact (hrest a (by simpa using ha)).2.1
      | succ d =>
        obtain rfl : p.one = a := by simpa [List.replicate_succ] using ha
        exact hp.one_ne_five
    · intro b hb hhead
      match d with
      | 0 => exact absurd rfl (hone p.one (by simpa using hhead))
      | 1 => exact (hrest b (by simpa using hb)).2
      | d + 2 =>
        obtain rfl : p.one = b := by simpa [List.replicate_succ] using hb
        exact ⟨hp.one_ne_five, hp.one_ne_ten⟩
  · exact take_pair (.inl rfl) rest
  · exact take_pair (.inr rfl) rest
  · rw [group_add_five p hn, List.cons_append, take_of_not_pair, takeSum_five,
      takeRepeated_replicate_append hn hone]
    intro b _ hhead
    exact absurd (by simpa using hhead.symm) hp.one_ne_five

/-- What is taken is the group of a digit. -/
theorem exists_of_take (p : Place) (as : List Letter) : ∃ d < 10, (p.take as).1 = p.group d := by
  have hones : ∀ bs, ∃ d < 10, (takeRepeated p.one bs).1 = p.group d := by
    intro bs
    obtain ⟨n, hn, h⟩ := exists_of_takeRepeated p.one bs
    exact ⟨n, hn.trans_lt (by decide), h.trans (group_of_le_three p hn).symm⟩
  have hsum : ∀ bs, ∃ d < 10, (p.takeSum bs).1 = p.group d := by
    intro bs
    cases bs with
    | nil => exact ⟨0, by omega, rfl⟩
    | cons b bs =>
      by_cases hb : b = p.five
      · obtain ⟨n, hn, h⟩ := exists_of_takeRepeated p.one bs
        refine ⟨n + 5, Nat.add_lt_add_right (hn.trans_lt (by decide : maxRepeat < 5)) 5, ?_⟩
        rw [hb, takeSum_five, group_add_five p hn, h]
      · rw [takeSum, if_neg hb]
        exact hones (b :: bs)
  unfold take
  split
  · split
    · next a b as h =>
      obtain ⟨rfl, rfl | rfl⟩ := h
      · exact ⟨4, by omega, rfl⟩
      · exact ⟨9, by omega, rfl⟩
    · exact hsum _
  · exact hsum _

end Place

/-! ### What groups are worth -/

/-- Where no two letters make a pair, the letters are added. -/
theorem groupValue_eq_faceSum {as : List Letter}
    (h : ∀ a b, as = [a, b] → b.faceValue ≤ a.faceValue) :
    groupValue as = faceSum as := by
  unfold groupValue
  split
  · next a b =>
    rw [if_neg (Nat.not_lt.2 (h a b rfl))]
    rfl
  · rfl

theorem groupValue_replicate (a : Letter) (n : Nat) :
    groupValue (List.replicate n a) = n * a.faceValue := by
  rw [groupValue_eq_faceSum]
  · exact faceSum_replicate a n
  · intro a₁ a₂ h
    have hmem : ∀ b ∈ [a₁, a₂], b = a := by
      rw [← h]
      exact fun b hb => List.eq_of_mem_replicate hb
    rw [hmem a₁ (by simp), hmem a₂ (by simp)]

/-- The group of a digit is worth the digit, in the unit of the place. -/
theorem Place.groupValue_group {p : Place} {unit : Nat} (hp : p.Worth unit) {d : Nat}
    (hd : d < 10) : groupValue (p.group d) = d * unit := by
  have hpos := hp.pos
  obtain h3 | rfl | rfl | ⟨n, hn, rfl⟩ := digit_cases hd
  · rw [group_of_le_three p h3, groupValue_replicate, hp.one]
  · show groupValue [p.one, p.five] = 4 * unit
    rw [groupValue, if_pos (by rw [hp.one, hp.five]; omega), hp.one, hp.five]
    omega
  · show groupValue [p.one, p.ten] = 9 * unit
    rw [groupValue, if_pos (by rw [hp.one, hp.ten]; omega), hp.one, hp.ten]
    omega
  · rw [group_add_five p hn, groupValue_eq_faceSum]
    · rw [faceSum, faceSum_replicate, hp.five, hp.one, Nat.add_mul, Nat.add_comm]
    · intro a b h
      rw [List.cons.injEq] at h
      have hb : b = p.one := List.eq_of_mem_replicate (n := n) (by rw [h.2]; simp)
      rw [← h.1, hb, hp.one, hp.five]
      omega

/-! ### Writing digit by digit -/

/-- Writing a multiple of the unit takes as many pieces as fit into the multiple. -/
theorem spell_cons {unit k : Nat} (piece : List Letter) (ps : List (Nat × List Letter))
    (d : Nat) {e : Nat} (he : e < unit) :
    spell ((k * unit, piece) :: ps) (d * unit + e) =
      (List.replicate (d / k) piece).flatten ++ spell ps (d % k * unit + e) := by
  have hpos : 0 < unit := by omega
  have hdiv : (d * unit + e) / unit = d := by
    rw [Nat.mul_comm, Nat.mul_add_div hpos, Nat.div_eq_of_lt he, Nat.add_zero]
  have hmod : (d * unit + e) % unit = e := by
    rw [Nat.mul_comm, Nat.mul_add_mod, Nat.mod_eq_of_lt he]
  rw [spell, Nat.mul_comm k unit, ← Nat.div_div_eq_div_mul, hdiv, Nat.mod_mul, hmod, hdiv,
    Nat.mul_comm unit, Nat.add_comm e]

/-- The pieces of a place. -/
def Place.pieces (p : Place) (unit : Nat) : List (Nat × List Letter) :=
  [(9 * unit, [p.one, p.ten]), (5 * unit, [p.five]), (4 * unit, [p.one, p.five]),
    (1 * unit, [p.one])]

theorem pieces_eq :
    pieces = (1000, [.m]) :: (Place.hundreds.pieces 100 ++
      (Place.tens.pieces 10 ++ (Place.ones.pieces 1 ++ []))) := rfl

/-- The pieces of a place write the group of the digit. -/
theorem Place.spell_pieces_append (p : Place) {unit d e : Nat} (hd : d < 10) (he : e < unit)
    (ps : List (Nat × List Letter)) :
    spell (p.pieces unit ++ ps) (d * unit + e) = p.group d ++ spell ps e := by
  have hgroup : (List.replicate (d / 9) [p.one, p.ten]).flatten ++
      ((List.replicate (d % 9 / 5) [p.five]).flatten ++
        ((List.replicate (d % 9 % 5 / 4) [p.one, p.five]).flatten ++
          (List.replicate (d % 9 % 5 % 4 / 1) [p.one]).flatten)) = p.group d := by
    match d, hd with
    | 0, _ | 1, _ | 2, _ | 3, _ | 4, _ | 5, _ | 6, _ | 7, _ | 8, _ | 9, _ => rfl
  simp only [pieces, List.cons_append, List.nil_append, spell_cons _ _ _ he, Nat.mod_one,
    Nat.zero_mul, Nat.zero_add]
  rw [← hgroup]
  simp only [List.append_assoc]

/-- The places of a value, digit by digit. -/
def Places.ofNat (n : Nat) : Places where
  thousands := List.replicate (n / 1000) .m
  hundreds := Place.hundreds.group (n / 100 % 10)
  tens := Place.tens.group (n / 10 % 10)
  ones := Place.ones.group (n % 10)

/-- Writing the largest pieces first writes the digits in order. -/
theorem letters_ofNat (n : Nat) : (Places.ofNat n).letters = lettersFor n := by
  have h100 : n % 1000 = n / 100 % 10 * 100 + n % 100 := by omega
  have h10 : n % 100 = n / 10 % 10 * 10 + n % 10 := by omega
  have h1 : n % 10 = n % 10 * 1 + 0 := by omega
  unfold lettersFor
  rw [pieces_eq, spell, h100, Place.spell_pieces_append _ (by omega) (by omega), h10,
    Place.spell_pieces_append _ (by omega) (by omega), h1,
    Place.spell_pieces_append _ (by omega) (by omega)]
  simp [Places.letters, Places.ofNat, spell, List.append_assoc]

theorem value_ofNat (n : Nat) : (Places.ofNat n).value = n := by
  simp only [Places.value, Places.ofNat, groupValue_replicate,
    Place.groupValue_group Place.worth_hundreds (Nat.mod_lt _ (by decide : 10 > 0)),
    Place.groupValue_group Place.worth_tens (Nat.mod_lt _ (by decide : 10 > 0)),
    Place.groupValue_group Place.worth_ones (Nat.mod_lt _ (by decide : 10 > 0)),
    Letter.faceValue]
  omega

/-! ### Reading digit by digit -/

theorem Place.head_group {p : Place} {d : Nat} {a : Letter} (h : a ∈ (p.group d).head?) :
    a = p.one ∨ a = p.five := by
  unfold group at h
  split at h
  · exact .inl (by simpa using h.symm)
  split at h
  · exact .inl (by simpa using h.symm)
  split at h
  · exact .inl (List.eq_of_mem_replicate (List.mem_of_mem_head? h))
  · exact .inr (by simpa using h.symm)

theorem head_append {as bs : List Letter} {a : Letter} (h : a ∈ (as ++ bs).head?) :
    a ∈ as.head? ∨ a ∈ bs.head? := by
  cases as with
  | nil => exact .inr h
  | cons b as => exact .inl h

namespace Places

theorem ends_hundreds (n : Nat) :
    Place.hundreds.Ends ((ofNat n).tens ++ (ofNat n).ones) := by
  intro a ha
  rcases head_append ha with ha | ha <;> rcases Place.head_group ha with rfl | rfl <;> decide

theorem ends_tens (n : Nat) : Place.tens.Ends (ofNat n).ones := by
  intro a ha
  rcases Place.head_group ha with rfl | rfl <;> decide

theorem ends_thousands (n : Nat) :
    ∀ a ∈ ((ofNat n).hundreds ++ ((ofNat n).tens ++ (ofNat n).ones)).head?, a ≠ .m := by
  intro a ha
  rcases head_append ha with ha | ha
  · rcases Place.head_group ha with rfl | rfl <;> decide
  · exact (ends_hundreds n a ha).2.2

/-- The letters of a value below 4000 are parted into its digits. -/
theorem ofLetters?_letters_ofNat {n : Nat} (hn : n < 4000) :
    ofLetters? (ofNat n).letters = some (ofNat n) := by
  have hthousands : takeRepeated .m (ofNat n).letters =
      ((ofNat n).thousands, (ofNat n).hundreds ++ ((ofNat n).tens ++ (ofNat n).ones)) := by
    rw [letters, List.append_assoc, List.append_assoc]
    exact takeRepeated_replicate_append (by unfold maxRepeat; omega) (ends_thousands n)
  have hhundreds := Place.take_group_append Place.worth_hundreds
    (Nat.mod_lt (n / 100) (by decide : 10 > 0)) (ends_hundreds n)
  have htens := Place.take_group_append Place.worth_tens
    (Nat.mod_lt (n / 10) (by decide : 10 > 0)) (ends_tens n)
  have hones := Place.take_group_append Place.worth_ones
    (Nat.mod_lt n (by decide : 10 > 0)) Place.ones.ends_nil
  rw [List.append_nil] at hones
  unfold ofLetters?
  simp only [hthousands]
  simp only [ofNat] at hhundreds htens hones ⊢
  simp only [hhundreds, htens, hones, List.isEmpty_nil, if_true]

/-- Digits in their places make up a value below 4000. -/
theorem exists_eq_ofNat {k c x i : Nat} (hk : k ≤ maxRepeat) (hc : c < 10) (hx : x < 10)
    (hi : i < 10) :
    ∃ n < 4000, (⟨List.replicate k .m, Place.hundreds.group c, Place.tens.group x,
      Place.ones.group i⟩ : Places) = ofNat n := by
  unfold maxRepeat at hk
  refine ⟨1000 * k + 100 * c + 10 * x + i, by omega, ?_⟩
  rw [ofNat]
  congr 2 <;> omega

/-- What letters are parted into are the digits of a value below 4000. -/
theorem exists_of_ofLetters? {as : List Letter} {g : Places} (h : ofLetters? as = some g) :
    ∃ n < 4000, g = ofNat n := by
  simp only [ofLetters?, Option.ite_none_right_eq_some, Option.some.injEq] at h
  obtain ⟨-, rfl⟩ := h
  obtain ⟨k, hk, hthousands⟩ := exists_of_takeRepeated .m as
  obtain ⟨c, hc, hhundreds⟩ := Place.hundreds.exists_of_take (takeRepeated .m as).2
  obtain ⟨x, hx, htens⟩ :=
    Place.tens.exists_of_take (Place.hundreds.take (takeRepeated .m as).2).2
  obtain ⟨i, hi, hones⟩ := Place.ones.exists_of_take
    (Place.tens.take (Place.hundreds.take (takeRepeated .m as).2).2).2
  rw [hthousands, hhundreds, htens, hones]
  exact exists_eq_ofNat hk hc hx hi

end Places

/-- A row of letters is worth `n` exactly when it is the numeral for `n`, from 1 to 3999. -/
theorem valueOf?_eq_some_iff {as : List Letter} {n : Nat} :
    valueOf? as = some n ↔ as = lettersFor n ∧ 1 ≤ n ∧ n ≤ 3999 := by
  unfold valueOf?
  constructor
  · intro h
    rw [Option.ite_none_left_eq_some, Option.map_eq_some_iff] at h
    obtain ⟨hne, g, hg, hvalue⟩ := h
    obtain ⟨m, hm, rfl⟩ := Places.exists_of_ofLetters? hg
    obtain rfl : m = n := (value_ofNat m).symm.trans hvalue
    have has : as = lettersFor m := by
      rw [← letters_ofNat, Places.letters_of_ofLetters? hg]
    have hpos : m ≠ 0 := by
      rintro rfl
      exact hne (by simp [has, lettersFor])
    exact ⟨has, by omega, by omega⟩
  · rintro ⟨rfl, h1, h2⟩
    have hg := Places.ofLetters?_letters_ofNat (n := n) (by omega)
    rw [letters_ofNat] at hg
    have hne : lettersFor n ≠ [] := by
      intro he
      rw [he] at hg
      have hv := congrArg (Option.map Places.value) hg
      rw [Option.map_some, value_ofNat] at hv
      have h0 : (0 : Nat) = n := Option.some.inj hv
      omega
    rw [if_neg (by simpa using hne), hg, Option.map_some, value_ofNat]

end Abacus.Numeral
