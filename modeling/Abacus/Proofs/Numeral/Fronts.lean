import Abacus.Proofs.Numeral.Inverse

/-!
# Fronts of numerals

What a numeral begins with is a numeral, if it is not empty: since `MCMX` is one, so are `MCM`,
`MC` and `M`. So digits that are no numeral do not become one by more digits after them
(`NumeralSystem.roman_frontClosed`).

A front ends in one of the four places. The places before that are as they were, those after it
are empty, and what is left of its group is the group of a digit again
(`Place.exists_of_prefix_group`), so the front is that of a value (`Places.exists_of_prefix`).
-/

namespace Abacus

/-- Digits that are no numeral begin none. -/
def NumeralSystem.FrontClosed (n : NumeralSystem) : Prop :=
  ∀ ds es : List Char, ds ≠ [] → n.read? (String.ofList ds) = none →
    n.read? (String.ofList (ds ++ es)) = none

namespace Numeral

/-- What two rows begin with is what the first begins with, or the first and what the second
begins with. -/
theorem prefix_append_cases {α : Type} {as bs cs : List α} (h : as <+: bs ++ cs) :
    as <+: bs ∨ ∃ ds, as = bs ++ ds ∧ ds <+: cs := by
  obtain ⟨rest, hrest⟩ := h
  rcases List.append_eq_append_iff.1 hrest with ⟨left, hbs, -⟩ | ⟨ds, has, hcs⟩
  · exact .inl ⟨left, hbs.symm⟩
  · exact .inr ⟨ds, has, rest, hcs.symm⟩

/-- A front of the letters of a digit is what a digit is written as in the same place. -/
theorem Place.exists_of_prefix_group {p : Place} {d : Nat} (hd : d < 10) {as : List Letter}
    (h : as <+: p.group d) : ∃ e < 10, as = p.group e := by
  have hones {n : Nat} (hn : n ≤ 3) {bs : List Letter} (hbs : bs <+: List.replicate n p.one) :
      ∃ k ≤ 3, bs = List.replicate k p.one := by
    obtain ⟨hlen, heq⟩ := List.prefix_replicate_iff.1 hbs
    exact ⟨bs.length, hlen.trans hn, heq⟩
  have hpair {b : Letter} (hb : as <+: [p.one, b]) :
      as = p.group 0 ∨ as = p.group 1 ∨ as = [p.one, b] := by
    rcases List.prefix_cons_iff.1 hb with rfl | ⟨bs, rfl, hbs⟩
    · exact .inl rfl
    rcases List.prefix_cons_iff.1 hbs with rfl | ⟨cs, rfl, hcs⟩
    · exact .inr (.inl rfl)
    · exact .inr (.inr (by rw [List.prefix_nil.1 hcs]))
  rcases digit_cases hd with hn | rfl | rfl | ⟨n, hn, rfl⟩
  · rw [group_of_le_three p hn] at h
    obtain ⟨k, hk, rfl⟩ := hones hn h
    exact ⟨k, by omega, (group_of_le_three p hk).symm⟩
  · rcases hpair h with rfl | rfl | rfl
    · exact ⟨0, by decide, rfl⟩
    · exact ⟨1, by decide, rfl⟩
    · exact ⟨4, by decide, rfl⟩
  · rcases hpair h with rfl | rfl | rfl
    · exact ⟨0, by decide, rfl⟩
    · exact ⟨1, by decide, rfl⟩
    · exact ⟨9, by decide, rfl⟩
  · rw [group_add_five p hn] at h
    rcases List.prefix_cons_iff.1 h with rfl | ⟨bs, rfl, hbs⟩
    · exact ⟨0, by decide, rfl⟩
    · obtain ⟨k, hk, rfl⟩ := hones hn hbs
      exact ⟨k + 5, by omega, (group_add_five p hk).symm⟩

namespace Places

/-- The letters of digits in their places are those of a value. -/
theorem exists_letters_ofNat {k c x i : Nat} (hk : k ≤ maxRepeat) (hc : c < 10) (hx : x < 10)
    (hi : i < 10) :
    ∃ n < 4000, List.replicate k .m ++ (Place.hundreds.group c ++
      (Place.tens.group x ++ Place.ones.group i)) = (ofNat n).letters := by
  obtain ⟨n, hn, hplaces⟩ := exists_eq_ofNat hk hc hx hi
  refine ⟨n, hn, ?_⟩
  rw [← hplaces, letters, List.append_assoc, List.append_assoc]

/-- A front of the letters of a value is the letters of a value. -/
theorem exists_of_prefix {n : Nat} (hn : n < 4000) {as : List Letter}
    (h : as <+: (ofNat n).letters) : ∃ m < 4000, as = (ofNat m).letters := by
  have hk : n / 1000 ≤ maxRepeat := by
    unfold maxRepeat
    omega
  have hc : n / 100 % 10 < 10 := Nat.mod_lt _ (by decide)
  have hx : n / 10 % 10 < 10 := Nat.mod_lt _ (by decide)
  have hi : n % 10 < 10 := Nat.mod_lt _ (by decide)
  have hzero : 0 < 10 := by decide
  simp only [letters, ofNat, List.append_assoc] at h
  -- the place in which the front ends; the digits after it become zero
  rcases prefix_append_cases h with hfront | ⟨bs, rfl, hbs⟩
  · obtain ⟨hlen, heq⟩ := List.prefix_replicate_iff.1 hfront
    obtain ⟨m, hm, hletters⟩ := exists_letters_ofNat (hlen.trans hk) hzero hzero hzero
    exact ⟨m, hm, heq.trans ((List.append_nil _).symm.trans hletters)⟩
  rcases prefix_append_cases hbs with hfront | ⟨ds, rfl, hds⟩
  · obtain ⟨e, he, rfl⟩ := Place.exists_of_prefix_group hc hfront
    obtain ⟨m, hm, hletters⟩ := exists_letters_ofNat hk he hzero hzero
    exact ⟨m, hm, by rw [← hletters]; simp [Place.group]⟩
  rcases prefix_append_cases hds with hfront | ⟨es, rfl, hes⟩
  · obtain ⟨e, he, rfl⟩ := Place.exists_of_prefix_group hx hfront
    obtain ⟨m, hm, hletters⟩ := exists_letters_ofNat hk hc he hzero
    exact ⟨m, hm, by rw [← hletters]; simp [Place.group]⟩
  · obtain ⟨e, he, rfl⟩ := Place.exists_of_prefix_group hi hes
    exact exists_letters_ofNat hk hc hx he

end Places

/-- What a row of letters begins with is worth something if the row is. -/
theorem exists_valueOf?_of_prefix {as bs : List Letter} (h : as <+: bs) (hne : as ≠ []) {n : Nat}
    (hn : valueOf? bs = some n) : ∃ m, valueOf? as = some m := by
  obtain ⟨rfl, -, hle⟩ := valueOf?_eq_some_iff.1 hn
  rw [← letters_ofNat] at h
  obtain ⟨m, hm, rfl⟩ := Places.exists_of_prefix (by omega) h
  refine ⟨m, valueOf?_eq_some_iff.2 ⟨letters_ofNat m, ?_, by omega⟩⟩
  refine Nat.pos_of_ne_zero ?_
  rintro rfl
  exact hne (by rw [letters_ofNat, lettersFor, spell_zero])

end Numeral

/-- Digits that are no Roman numeral begin none. -/
theorem NumeralSystem.roman_frontClosed : roman.FrontClosed := by
  intro ds es hne hds
  rw [Option.eq_none_iff_forall_ne_some] at hds ⊢
  intro v hv
  obtain ⟨n, h1, h2, -, has⟩ := Numeral.read?_eq_some_iff.1 hv
  rw [String.toList_ofList, Numeral.letters?_eq_some_iff] at has
  obtain ⟨as, bs, hn, rfl, -⟩ := List.append_eq_map_iff.1 has
  have hfront : as <+: Numeral.lettersFor n := ⟨bs, hn.symm⟩
  have hletters : as ≠ [] := fun he => hne (by rw [he]; rfl)
  obtain ⟨m, hm⟩ := Numeral.exists_valueOf?_of_prefix hfront hletters
    (Numeral.valueOf?_eq_some_iff.2 ⟨rfl, h1, h2⟩)
  refine hds (Int64.ofNat m) ?_
  show Numeral.read? _ = _
  rw [Numeral.read?, String.toList_ofList, Numeral.letters?_map_char, Option.bind_some, hm,
    Option.map_some]

end Abacus
