import Abacus.Proofs.Numeral.Inverse
import Mathlib.Computability.RegularExpressions

/-!
# The pattern of numerals

The texts that are read are those of a regular expression, the empty text aside:

    M{0,3} (D?C{0,3}|C[DM]) (L?X{0,3}|X[LC]) (V?I{0,3}|I[VX])

`pattern` is this expression. It matches a text if there is any way to part the text into groups
that match (`Splits`), while reading takes each group off the front and never comes back to it.
The two agree (`split?_eq_some_iff`), because the part of the pattern for a place matches the
groups of the ten digits and nothing else (`Place.mem_pattern_iff`), and a text that is made of
such groups is made of them in one way.

The value can be told from the letters without their groups: every letter adds what it is worth,
or takes it away if the next letter is worth more (`signedSum`).
-/

namespace Abacus.Numeral

open RegularExpression

/-! ### The regular expression -/

/-- The pattern, or nothing. -/
def optional (r : RegularExpression Char) : RegularExpression Char := 1 + r

/-- The pattern repeated, up to `n` times. -/
def atMost (r : RegularExpression Char) : Nat → RegularExpression Char
  | 0 => 1
  | n + 1 => atMost r n + r ^ (n + 1)

/-- The pattern of a letter. -/
def Letter.pattern (a : Letter) : RegularExpression Char := .char a.char

/-- The pattern of the thousands. -/
def thousandsPattern : RegularExpression Char := atMost Letter.m.pattern 3

/-- The pattern of a place: a five, if it is there, and up to three ones, or a pair. -/
def Place.pattern (p : Place) : RegularExpression Char :=
  optional p.five.pattern * atMost p.one.pattern 3 + p.one.pattern * (p.five.pattern + p.ten.pattern)

/-- The pattern of numerals. -/
def pattern : RegularExpression Char :=
  thousandsPattern * (Place.hundreds.pattern * (Place.tens.pattern * Place.ones.pattern))

/-- The text is parted into four groups that match the four parts of the pattern. -/
structure Splits (text t h x o : List Char) : Prop where
  /-- The first group is one of thousands. -/
  thousands : t ∈ thousandsPattern.matches'
  /-- The second group is one of hundreds. -/
  hundreds : h ∈ Place.hundreds.pattern.matches'
  /-- The third group is one of tens. -/
  tens : x ∈ Place.tens.pattern.matches'
  /-- The fourth group is one of ones. -/
  ones : o ∈ Place.ones.pattern.matches'
  /-- The groups put together are the text. -/
  append : t ++ (h ++ (x ++ o)) = text

/-- The pattern matches a text if there is any way to part it into groups that match. -/
theorem mem_pattern_iff {text : List Char} :
    text ∈ pattern.matches' ↔ ∃ t h x o, Splits text t h x o := by
  simp only [pattern, matches'_mul, Language.mem_mul]
  constructor
  · rintro ⟨t, ht, _, ⟨h, hh, _, ⟨x, hx, o, ho, rfl⟩, rfl⟩, rfl⟩
    exact ⟨t, h, x, o, ht, hh, hx, ho, rfl⟩
  · rintro ⟨t, h, x, o, ht, hh, hx, ho, rfl⟩
    exact ⟨t, ht, _, ⟨h, hh, _, ⟨x, hx, o, ho, rfl⟩, rfl⟩, rfl⟩

/-! ### What the parts match -/

theorem mem_letter_pattern_iff {a : Letter} {w : List Char} :
    w ∈ a.pattern.matches' ↔ w = [a].map Letter.char := Iff.rfl

theorem mem_optional_iff {r : RegularExpression Char} {w : List Char} :
    w ∈ (optional r).matches' ↔ w = [] ∨ w ∈ r.matches' := by
  rw [optional, matches'_add, Language.mem_add, matches'_epsilon, Language.mem_one]

theorem mem_letter_pow_iff {a : Letter} {n : Nat} {w : List Char} :
    w ∈ (a.pattern ^ n).matches' ↔ w = (List.replicate n a).map Letter.char := by
  induction n generalizing w with
  | zero => exact Language.mem_one w
  | succ n ih =>
    rw [matches'_pow, pow_succ, ← matches'_pow, Language.mem_mul, List.replicate_succ',
      List.map_append]
    constructor
    · rintro ⟨u, hu, v, hv, rfl⟩
      rw [ih.1 hu, mem_letter_pattern_iff.1 hv]
    · rintro rfl
      exact ⟨_, ih.2 rfl, _, mem_letter_pattern_iff.2 rfl, rfl⟩

/-- A letter up to `n` times is a row of `n` of it at most. -/
theorem mem_atMost_letter_iff {a : Letter} {n : Nat} {w : List Char} :
    w ∈ (atMost a.pattern n).matches' ↔ ∃ k ≤ n, w = (List.replicate k a).map Letter.char := by
  induction n with
  | zero =>
    rw [atMost, matches'_epsilon, Language.mem_one]
    simp
  | succ n ih =>
    rw [atMost, matches'_add, Language.mem_add, ih, mem_letter_pow_iff]
    constructor
    · rintro (⟨k, hk, rfl⟩ | rfl)
      · exact ⟨k, by omega, rfl⟩
      · exact ⟨n + 1, le_rfl, rfl⟩
    · rintro ⟨k, hk, rfl⟩
      by_cases h : k = n + 1
      · exact .inr (by rw [h])
      · exact .inl ⟨k, by omega, rfl⟩

/-- The pattern of a place matches the groups of the ten digits. -/
theorem Place.mem_pattern_iff {p : Place} {w : List Char} :
    w ∈ p.pattern.matches' ↔ ∃ d < 10, w = (p.group d).map Letter.char := by
  simp only [Place.pattern, matches'_add, matches'_mul, Language.mem_add, Language.mem_mul,
    mem_optional_iff, mem_atMost_letter_iff, mem_letter_pattern_iff]
  constructor
  · rintro (⟨u, rfl | rfl, v, ⟨k, hk, rfl⟩, rfl⟩ | ⟨u, rfl, v, rfl | rfl, rfl⟩)
    · exact ⟨k, by omega, by rw [group_of_le_three p hk, List.nil_append]⟩
    · exact ⟨k + 5, by omega, by rw [group_add_five p hk, ← List.map_append, List.singleton_append]⟩
    · exact ⟨4, by omega, rfl⟩
    · exact ⟨9, by omega, rfl⟩
  · rintro ⟨d, hd, rfl⟩
    obtain h3 | rfl | rfl | ⟨n, hn, rfl⟩ := digit_cases hd
    · exact .inl ⟨[], .inl rfl, _, ⟨d, h3, rfl⟩, by rw [group_of_le_three p h3, List.nil_append]⟩
    · exact .inr ⟨_, rfl, _, .inl rfl, rfl⟩
    · exact .inr ⟨_, rfl, _, .inr rfl, rfl⟩
    · refine .inl ⟨_, .inr rfl, _, ⟨n, hn, rfl⟩, ?_⟩
      rw [group_add_five p hn, ← List.map_append, List.singleton_append]

/-! ### One way to part a text -/

/-- A text that is parted is made of the digits of a number below 4000. -/
theorem splits_iff {text t h x o : List Char} :
    Splits text t h x o ↔ ∃ n < 4000, text = (Places.ofNat n).letters.map Letter.char ∧
      t = (Places.ofNat n).thousands.map Letter.char ∧
      h = (Places.ofNat n).hundreds.map Letter.char ∧
      x = (Places.ofNat n).tens.map Letter.char ∧ o = (Places.ofNat n).ones.map Letter.char := by
  constructor
  · rintro ⟨ht, hh, hx, ho, rfl⟩
    obtain ⟨k, hk, rfl⟩ := mem_atMost_letter_iff.1 ht
    obtain ⟨c, hc, rfl⟩ := Place.mem_pattern_iff.1 hh
    obtain ⟨d, hd, rfl⟩ := Place.mem_pattern_iff.1 hx
    obtain ⟨i, hi, rfl⟩ := Place.mem_pattern_iff.1 ho
    have hn : Places.ofNat (1000 * k + 100 * c + 10 * d + i) =
        ⟨List.replicate k .m, Place.hundreds.group c, Place.tens.group d, Place.ones.group i⟩ := by
      rw [Places.ofNat]
      congr 2 <;> omega
    refine ⟨1000 * k + 100 * c + 10 * d + i, by omega, ?_, ?_⟩
    · rw [hn]
      simp only [Places.letters, List.map_append, List.append_assoc]
    · rw [hn]
      exact ⟨rfl, rfl, rfl, rfl⟩
  · rintro ⟨n, hn, rfl, rfl, rfl, rfl, rfl⟩
    refine ⟨mem_atMost_letter_iff.2 ⟨n / 1000, by omega, rfl⟩,
      Place.mem_pattern_iff.2 ⟨_, Nat.mod_lt _ (by omega), rfl⟩,
      Place.mem_pattern_iff.2 ⟨_, Nat.mod_lt _ (by omega), rfl⟩,
      Place.mem_pattern_iff.2 ⟨_, Nat.mod_lt _ (by omega), rfl⟩, ?_⟩
    simp only [Places.letters, List.map_append, List.append_assoc]

theorem map_char_injective : Function.Injective (List.map Letter.char) :=
  List.map_injective_iff.2 fun _ _ => Letter.char_injective

/-- The letters of a number below 4000 are those of no other. -/
theorem letters_ofNat_injective {m n : Nat} (hm : m < 4000) (hn : n < 4000)
    (h : (Places.ofNat m).letters = (Places.ofNat n).letters) : m = n := by
  have hplaces : Places.ofNat m = Places.ofNat n := by
    have hm' := Places.ofLetters?_letters_ofNat hm
    rw [h, Places.ofLetters?_letters_ofNat hn] at hm'
    exact (Option.some.inj hm').symm
  rw [← value_ofNat m, hplaces, value_ofNat]

/-- A text is parted in one way only. -/
theorem Splits.unique {text t h x o t' h' x' o' : List Char} (hs : Splits text t h x o)
    (hs' : Splits text t' h' x' o') : t' = t ∧ h' = h ∧ x' = x ∧ o' = o := by
  obtain ⟨n, hn, htext, rfl, rfl, rfl, rfl⟩ := splits_iff.1 hs
  obtain ⟨m, hm, htext', rfl, rfl, rfl, rfl⟩ := splits_iff.1 hs'
  obtain rfl := letters_ofNat_injective hm hn (map_char_injective (htext'.symm.trans htext))
  exact ⟨rfl, rfl, rfl, rfl⟩

/-! ### Reading parts a text -/

/-- The groups that reading parts a text into; none if it is empty or no numeral. -/
def split? (text : String) : Option Places :=
  (letters? text.toList).bind fun as => if as.isEmpty then none else Places.ofLetters? as

/-- What is read is the value of the groups. -/
theorem read?_eq_split? (text : String) :
    read? text = (split? text).map fun g => Int64.ofNat g.value := by
  unfold read? split?
  cases letters? text.toList with
  | none => rfl
  | some as =>
    rw [Option.bind_some, Option.bind_some, valueOf?]
    split
    · rfl
    · exact Option.map_map ..

/-- Reading parts a text into the groups that match, if it is not empty. -/
theorem split?_eq_some_iff {text : String} {g : Places} :
    split? text = some g ↔ text ≠ "" ∧
      Splits text.toList (g.thousands.map Letter.char) (g.hundreds.map Letter.char)
        (g.tens.map Letter.char) (g.ones.map Letter.char) := by
  rw [splits_iff]
  constructor
  · intro h
    obtain ⟨as, has, h⟩ := Option.bind_eq_some_iff.1 h
    rw [Option.ite_none_left_eq_some] at h
    obtain ⟨hne, hg⟩ := h
    have htext := letters?_eq_some_iff.1 has
    obtain ⟨n, hn, rfl⟩ := Places.exists_of_ofLetters? hg
    refine ⟨?_, n, hn, by rw [htext, Places.letters_of_ofLetters? hg], rfl, rfl, rfl, rfl⟩
    rintro rfl
    exact hne (by simpa using htext.symm)
  · rintro ⟨hne, n, hn, htext, ht, hh, hx, ho⟩
    obtain rfl : g = Places.ofNat n := by
      obtain ⟨t, h, x, o⟩ := g
      obtain rfl : t = _ := map_char_injective ht
      obtain rfl : h = _ := map_char_injective hh
      obtain rfl : x = _ := map_char_injective hx
      obtain rfl : o = _ := map_char_injective ho
      rfl
    have hletters : (Places.ofNat n).letters ≠ [] := by
      intro hnil
      rw [hnil, List.map_nil, String.toList_eq_nil_iff] at htext
      exact hne htext
    rw [split?, letters?_eq_some_iff.2 htext, Option.bind_some, if_neg (by simpa using hletters)]
    exact Places.ofLetters?_letters_ofNat hn

/-! ### The value without the groups -/

/-- What the letters are worth together if every letter counts, and against the others exactly
if the letter after it is worth more. -/
def signedSum : List Letter → Int
  | [] => 0
  | a :: as =>
    (if as.head?.any fun b => a.faceValue < b.faceValue then -(a.faceValue : Int)
      else a.faceValue) + signedSum as

/-- A letter counts if what comes next is worth no more. -/
theorem signedSum_cons {a : Letter} {as : List Letter}
    (h : ∀ b ∈ as.head?, b.faceValue ≤ a.faceValue) :
    signedSum (a :: as) = a.faceValue + signedSum as := by
  rw [signedSum, if_neg]
  cases has : as.head? with
  | none => simp
  | some b => simpa using h b has

/-- Where the first letter of the second part is worth no more than any of the first part, the
parts are worth what they are worth apart. -/
theorem signedSum_append {as bs : List Letter}
    (h : ∀ b ∈ bs.head?, ∀ a ∈ as, b.faceValue ≤ a.faceValue) :
    signedSum (as ++ bs) = signedSum as + signedSum bs := by
  induction as with
  | nil => exact (Int.zero_add _).symm
  | cons a as ih =>
    have hih := ih fun b hb a' ha' => h b hb a' (List.mem_cons_of_mem a ha')
    cases as with
    | nil =>
      rw [List.singleton_append, signedSum_cons fun b hb => h b hb a List.mem_cons_self]
      simp [signedSum]
    | cons a' as =>
      rw [List.cons_append, signedSum, hih, signedSum]
      exact (Int.add_assoc ..).symm

theorem signedSum_replicate (a : Letter) (n : Nat) :
    signedSum (List.replicate n a) = n * a.faceValue := by
  induction n with
  | zero => simp [signedSum]
  | succ n ih =>
    rw [List.replicate_succ, signedSum_cons, ih]
    · rw [Int.natCast_add, Int.add_mul, Int.natCast_one, Int.one_mul, Int.add_comm]
    · intro b hb
      rw [List.eq_of_mem_replicate (List.mem_of_mem_head? hb)]

namespace Place

variable {p : Place} {unit d : Nat}

/-- The letters of a digit are worth the digit, in the unit of the place. -/
theorem signedSum_group (hp : p.Worth unit) (hd : d < 10) :
    signedSum (p.group d) = d * unit := by
  have hpos := hp.pos
  obtain h3 | rfl | rfl | ⟨n, hn, rfl⟩ := digit_cases hd
  · rw [group_of_le_three p h3, signedSum_replicate, hp.one]
  · show signedSum [p.one, p.five] = _
    simp only [signedSum, List.head?_cons, List.head?_nil, Option.any_some, Option.any_none,
      hp.one, hp.five]
    rw [if_pos (by simpa using by omega)]
    push_cast
    simp
    omega
  · show signedSum [p.one, p.ten] = _
    simp only [signedSum, List.head?_cons, List.head?_nil, Option.any_some, Option.any_none,
      hp.one, hp.ten]
    rw [if_pos (by simpa using by omega)]
    push_cast
    simp
    omega
  · rw [group_add_five p hn, signedSum_cons, signedSum_replicate, hp.one, hp.five]
    · rw [Int.natCast_add, Int.add_mul, Int.natCast_mul, Int.add_comm]
    · intro b hb
      rw [List.eq_of_mem_replicate (List.mem_of_mem_head? hb), hp.one, hp.five]
      omega

/-- The letters of a group are those of the place. -/
theorem mem_group {a : Letter} (ha : a ∈ p.group d) : a = p.one ∨ a = p.five ∨ a = p.ten := by
  unfold group at ha
  split at ha
  · obtain rfl | rfl := List.mem_pair.1 ha
    · exact .inl rfl
    · exact .inr (.inl rfl)
  split at ha
  · obtain rfl | rfl := List.mem_pair.1 ha
    · exact .inl rfl
    · exact .inr (.inr rfl)
  split at ha
  · exact .inl (List.eq_of_mem_replicate ha)
  · rcases List.mem_cons.1 ha with rfl | ha
    · exact .inr (.inl rfl)
    · exact .inl (List.eq_of_mem_replicate ha)

/-- A letter of a group is worth one unit at least. -/
theorem le_faceValue_of_mem_group (hp : p.Worth unit) {a : Letter} (ha : a ∈ p.group d) :
    unit ≤ a.faceValue := by
  obtain rfl | rfl | rfl := mem_group ha
  · rw [hp.one]
  · rw [hp.five]
    omega
  · rw [hp.ten]
    omega

end Place

/-- The letters of a number are worth the number, if each counts as the next one has it. -/
theorem signedSum_letters_ofNat (n : Nat) : signedSum (Places.ofNat n).letters = n := by
  have hones : ∀ b ∈ (Places.ofNat n).ones.head?, b.faceValue ≤ 5 := by
    intro b hb
    rcases Place.head_group hb with rfl | rfl <;> decide
  have htens : ∀ b ∈ ((Places.ofNat n).tens ++ (Places.ofNat n).ones).head?, b.faceValue ≤ 50 := by
    intro b hb
    rcases head_append hb with hb | hb
    · rcases Place.head_group hb with rfl | rfl <;> decide
    · exact (hones b hb).trans (by decide)
  rw [Places.letters, List.append_assoc, List.append_assoc, signedSum_append, signedSum_append,
    signedSum_append]
  · simp only [Places.ofNat, signedSum_replicate,
      Place.signedSum_group Place.worth_hundreds (Nat.mod_lt _ (by decide : 10 > 0)),
      Place.signedSum_group Place.worth_tens (Nat.mod_lt _ (by decide : 10 > 0)),
      Place.signedSum_group Place.worth_ones (Nat.mod_lt _ (by decide : 10 > 0)),
      Letter.faceValue]
    omega
  · intro b hb a ha
    have := Place.le_faceValue_of_mem_group Place.worth_tens ha
    have := hones b hb
    omega
  · intro b hb a ha
    have := Place.le_faceValue_of_mem_group Place.worth_hundreds ha
    have := htens b hb
    omega
  · intro b _ a ha
    rw [List.eq_of_mem_replicate ha]
    cases b <;> decide

/-- The value of a text is that of its letters, whatever groups they stand in. -/
theorem read?_eq_some_iff_signedSum {text : String} {v : Int64} :
    read? text = some v ↔ ∃ g, split? text = some g ∧
      text.toList = g.letters.map Letter.char ∧ v.toInt = signedSum g.letters := by
  have hvalue {g : Places} (hg : split? text = some g) :
      text.toList = g.letters.map Letter.char ∧ (Int64.ofNat g.value).toInt = signedSum g.letters := by
    obtain ⟨as, has, hsplit⟩ := Option.bind_eq_some_iff.1 hg
    rw [Option.ite_none_left_eq_some] at hsplit
    obtain ⟨n, hn, rfl⟩ := Places.exists_of_ofLetters? hsplit.2
    refine ⟨?_, ?_⟩
    · rw [letters?_eq_some_iff.1 has, Places.letters_of_ofLetters? hsplit.2]
    · rw [value_ofNat, signedSum_letters_ofNat, Int64.toInt_ofNat_of_lt (by omega)]
  rw [read?_eq_split?, Option.map_eq_some_iff]
  constructor
  · rintro ⟨g, hg, rfl⟩
    exact ⟨g, hg, hvalue hg⟩
  · rintro ⟨g, hg, -, hv⟩
    exact ⟨g, hg, Int64.toInt_inj.1 ((hvalue hg).2.trans hv.symm)⟩

/-! ### The pattern and the reading -/

/-- **The pattern of numerals.** A text is read exactly if it is not empty and matches the
pattern. There is then one way to part it into groups that match, reading finds these groups, and
the value is the sum of the letters, each counted against the others exactly if the next one is
worth more. -/
theorem read?_pattern (text : String) :
    ((NumeralSystem.roman.read? text).isSome = true ↔
      text ≠ "" ∧ text.toList ∈ pattern.matches') ∧
    (∀ g, split? text = some g ↔ text ≠ "" ∧ ∀ t h x o, Splits text.toList t h x o ↔
      t = g.thousands.map Letter.char ∧ h = g.hundreds.map Letter.char ∧
        x = g.tens.map Letter.char ∧ o = g.ones.map Letter.char) ∧
    (∀ v, NumeralSystem.roman.read? text = some v ↔ ∃ g, split? text = some g ∧
      text.toList = g.letters.map Letter.char ∧ v.toInt = signedSum g.letters) := by
  refine ⟨?_, fun g => ?_, fun v => read?_eq_some_iff_signedSum⟩
  · show (read? text).isSome = true ↔ _
    rw [read?_eq_split?, Option.isSome_map, mem_pattern_iff]
    constructor
    · intro h
      obtain ⟨g, hg⟩ := Option.isSome_iff_exists.1 h
      obtain ⟨hne, hs⟩ := split?_eq_some_iff.1 hg
      exact ⟨hne, _, _, _, _, hs⟩
    · rintro ⟨hne, t, h, x, o, hs⟩
      obtain ⟨n, -, -, rfl, rfl, rfl, rfl⟩ := splits_iff.1 hs
      rw [split?_eq_some_iff.2 ⟨hne, hs⟩]
      rfl
  · rw [split?_eq_some_iff]
    refine and_congr_right fun _ => ⟨fun hs t h x o => ⟨hs.unique, ?_⟩, fun hs => ?_⟩
    · rintro ⟨rfl, rfl, rfl, rfl⟩
      exact hs
    · exact (hs _ _ _ _).2 ⟨rfl, rfl, rfl, rfl⟩

example : split? "MCMXCIV" = some ⟨[.m], [.c, .m], [.x, .c], [.i, .v]⟩ := by decide +kernel

end Abacus.Numeral
