import Abacus.Proofs.Expression.Nesting
import Abacus.Proofs.Expression.Placement

/-!
# Brackets of a text

Which brackets of a text are partners, told of its characters and not of its tokens: a text is
balanced if none of its fronts has more closing brackets than opening ones and the text as a whole
has as many of both (`Text.Balanced`), and two brackets are partners if the text between them is
balanced (`Text.Opens`, `Text.Closes`).

The nesting of a row of tokens says the same of the text the tokens are written as, if no other
token is written with a bracket: the row wants no partner exactly when every front of the text has
opening brackets enough (`Token.nesting_place`), and it is level exactly when the
text is balanced (`Token.level_place_iff`).
-/

namespace Abacus

namespace Text

/-! ### Partners -/

/-- The number of opening brackets of the text. -/
def openings (cs : List Char) : Nat := cs.count openingBracket

/-- The number of closing brackets of the text. -/
def closings (cs : List Char) : Nat := cs.count closingBracket

/-- No front of the text has more closing brackets than opening ones. -/
def Covered (cs : List Char) : Prop := ∀ front, front <+: cs → closings front ≤ openings front

/-- No front of the text has more closing brackets than opening ones, and the text has as many of
both. -/
structure Balanced (cs : List Char) : Prop where
  /-- No front has more closing brackets. -/
  covered : Covered cs
  /-- There are as many of both. -/
  closings_eq : closings cs = openings cs

/-- An opening bracket right before the text has its partner in the text. -/
def Closes (cs : List Char) : Prop :=
  ∃ inner after, cs = inner ++ closingBracket :: after ∧ Balanced inner

/-- An opening bracket stands at the position, and it has no partner in the text. -/
def Unclosed (cs : List Char) (p : Nat) : Prop :=
  ∃ before after, cs = before ++ openingBracket :: after ∧ width before = p ∧ ¬ Closes after

/-- A closing bracket right after the text has its partner in the text. -/
def Opens (cs : List Char) : Prop :=
  ∃ before inner, cs = before ++ openingBracket :: inner ∧ Balanced inner

@[simp] theorem openings_append (cs ds : List Char) :
    openings (cs ++ ds) = openings cs + openings ds := List.count_append

@[simp] theorem closings_append (cs ds : List Char) :
    closings (cs ++ ds) = closings cs + closings ds := List.count_append

@[simp] theorem openings_cons (ch : Char) (cs : List Char) :
    openings (ch :: cs) = openings cs + if ch = openingBracket then 1 else 0 := by
  simp [openings, List.count_cons]

@[simp] theorem closings_cons (ch : Char) (cs : List Char) :
    closings (ch :: cs) = closings cs + if ch = closingBracket then 1 else 0 := by
  simp [closings, List.count_cons]

@[simp] theorem openings_nil : openings [] = 0 := rfl

@[simp] theorem closings_nil : closings [] = 0 := rfl

theorem closing_ne_opening : closingBracket ≠ openingBracket := by decide

theorem Covered.le {cs : List Char} (h : Covered cs) : closings cs ≤ openings cs :=
  h cs List.prefix_rfl

theorem Covered.of_append {cs ds : List Char} (h : Covered (cs ++ ds)) : Covered cs :=
  fun front hfront => h front (List.prefix_append_of_prefix hfront)

theorem covered_nil : Covered [] := by
  intro front hfront
  rw [List.prefix_nil.1 hfront]
  exact Nat.le_refl _

/-- A closing bracket needs an opening one more before it than there are closing ones. -/
theorem covered_snoc {cs : List Char} {ch : Char} :
    Covered (cs ++ [ch]) ↔ Covered cs ∧ (ch = closingBracket → closings cs < openings cs) := by
  constructor
  · intro h
    refine ⟨h.of_append, ?_⟩
    rintro rfl
    have hle := h.le
    simp only [openings_append, closings_append, openings_cons, closings_cons, openings_nil,
      closings_nil, closing_ne_opening, if_true, if_false] at hle
    omega
  · rintro ⟨h, hch⟩ front hfront
    rcases List.prefix_concat_iff.1 hfront with rfl | hfront
    · have hle := h.le
      simp only [openings_append, closings_append, openings_cons, closings_cons, openings_nil,
        closings_nil]
      by_cases hc : ch = closingBracket
      · have hlt := hch hc
        rw [if_pos hc]
        omega
      · rw [if_neg hc]
        omega
    · exact h front hfront

/-- A bracket before the text has its partner in the text exactly when some front of the text has
closing brackets too many. -/
theorem closes_iff {cs : List Char} : Closes cs ↔ ¬ Covered cs := by
  constructor
  · rintro ⟨inner, after, rfl, hinner⟩ h
    rw [List.append_cons] at h
    have hlt := (covered_snoc.1 h.of_append).2 rfl
    exact absurd hinner.closings_eq (Nat.ne_of_lt hlt)
  · intro h
    induction cs using List.reverseRecOn with
    | nil => exact absurd covered_nil h
    | append_singleton cs ch ih =>
      by_cases hcs : Covered cs
      · -- the last character is the first bracket too many
        rw [covered_snoc, not_and] at h
        obtain ⟨rfl, hlt⟩ := Classical.not_imp.1 (h hcs)
        exact ⟨cs, [], rfl, hcs, Nat.le_antisymm hcs.le (Nat.le_of_not_lt hlt)⟩
      · obtain ⟨inner, after, rfl, hinner⟩ := ih hcs
        exact ⟨inner, after ++ [ch], by simp, hinner⟩

/-- Either some opening bracket of the text has its partner after the text, or no back of the text
has more opening brackets than closing ones. -/
theorem opens_or_backs (cs : List Char) :
    Opens cs ∨ ∀ back, back <:+ cs → openings back ≤ closings back := by
  induction cs with
  | nil =>
    refine .inr fun back hback => ?_
    rw [List.suffix_nil.1 hback]
    exact Nat.le_refl _
  | cons ch cs ih =>
    rcases ih with ⟨before, inner, rfl, hinner⟩ | hbacks
    · exact .inl ⟨ch :: before, inner, rfl, hinner⟩
    by_cases hle : openings (ch :: cs) ≤ closings (ch :: cs)
    · refine .inr fun back hback => ?_
      rcases List.suffix_cons_iff.1 hback with rfl | hback
      · exact hle
      · exact hbacks back hback
    · -- with the first character there is one opening bracket too many, so it is the one
      have hcs := hbacks cs List.suffix_rfl
      rw [openings_cons, closings_cons] at hle
      by_cases hch : ch = openingBracket
      · rw [hch, if_pos rfl, if_neg closing_ne_opening.symm] at hle
        refine .inl ⟨[], cs, by rw [hch]; rfl, ?_, by omega⟩
        rintro front ⟨back, rfl⟩
        have hback := hbacks back (List.suffix_append _ _)
        rw [openings_append, closings_append] at hcs hle
        omega
      · rw [if_neg hch] at hle
        omega

/-- If a text has more opening brackets than closing ones, one of them has its partner after the
text. -/
theorem opens_of_lt {cs : List Char} (h : closings cs < openings cs) : Opens cs := by
  rcases opens_or_backs cs with hopens | hbacks
  · exact hopens
  · exact absurd (hbacks cs List.suffix_rfl) (Nat.not_le_of_lt h)

/-- In a text whose fronts have no closing brackets too many, every closing bracket has its
partner. -/
theorem Covered.opens {before after : List Char}
    (h : Covered (before ++ closingBracket :: after)) : Opens before := by
  rw [List.append_cons] at h
  exact opens_of_lt ((covered_snoc.1 h.of_append).2 rfl)

/-- In a balanced text every opening bracket has its partner. -/
theorem Balanced.closes {before after : List Char}
    (h : Balanced (before ++ openingBracket :: after)) : Closes after := by
  rw [closes_iff]
  intro hafter
  have hle := h.covered.of_append.le
  have hle' := hafter.le
  have heq := h.closings_eq
  rw [closings_append, openings_append, closings_cons, openings_cons, if_pos rfl,
    if_neg closing_ne_opening.symm] at heq
  omega

/-- What has no bracket in it changes nothing. -/
theorem covered_append_iff {cs ds : List Char} (ho : openingBracket ∉ ds)
    (hc : closingBracket ∉ ds) : Covered (cs ++ ds) ↔ Covered cs := by
  induction ds using List.reverseRecOn with
  | nil => rw [List.append_nil]
  | append_singleton ds ch ih =>
    rw [List.mem_append, not_or, List.mem_singleton] at ho hc
    rw [← List.append_assoc, covered_snoc, ih ho.1 hc.1]
    exact and_iff_left fun h => absurd h.symm hc.2

/-- An opening bracket without a partner is the first character or one after it. -/
theorem unclosed_cons {ch : Char} {cs : List Char} {p : Nat} :
    Unclosed (ch :: cs) p ↔
      (ch = openingBracket ∧ p = 0 ∧ ¬ Closes cs) ∨ ∃ q, Unclosed cs q ∧ p = ch.utf8Size + q := by
  constructor
  · rintro ⟨before, after, htext, rfl, hafter⟩
    cases before with
    | nil =>
      obtain ⟨rfl, rfl⟩ := List.cons.inj htext
      exact .inl ⟨rfl, rfl, hafter⟩
    | cons b before =>
      obtain ⟨rfl, rfl⟩ := List.cons.inj htext
      exact .inr ⟨_, ⟨before, after, rfl, rfl, hafter⟩, rfl⟩
  · rintro (⟨rfl, rfl, hafter⟩ | ⟨q, ⟨before, after, rfl, rfl, hafter⟩, rfl⟩)
    · exact ⟨[], cs, rfl, rfl, hafter⟩
    · exact ⟨ch :: before, after, rfl, rfl, hafter⟩

/-- What has no opening bracket in it only moves those after it. -/
theorem unclosed_append {ds cs : List Char} {p : Nat} (h : openingBracket ∉ ds) :
    Unclosed (ds ++ cs) p ↔ ∃ q, Unclosed cs q ∧ p = width ds + q := by
  induction ds generalizing p with
  | nil => simp
  | cons d ds ih =>
    obtain ⟨hd, hds⟩ := not_or.1 (mt List.mem_cons.2 h)
    rw [List.cons_append, unclosed_cons]
    constructor
    · rintro (⟨rfl, -⟩ | ⟨_, hq, rfl⟩)
      · exact absurd rfl hd
      · obtain ⟨r, hr, rfl⟩ := (ih hds).1 hq
        exact ⟨r, hr, (Nat.add_assoc _ _ _).symm⟩
    · rintro ⟨q, hq, rfl⟩
      exact .inr ⟨_, (ih hds).2 ⟨q, hq, rfl⟩, Nat.add_assoc _ _ _⟩

end Text

/-! ### Brackets among tokens -/

namespace Token

/-- The token is a bracket. -/
def isBracket : Token → Bool
  | opening | closing => true
  | _ => false

/-- The token is a bracket or is written without brackets. -/
def Plain (t : Token) : Prop :=
  t.isBracket = false → openingBracket ∉ t.text ∧ closingBracket ∉ t.text

/-- A token that is no bracket leaves the brackets as they are. -/
theorem nesting_snoc (row : List PlacedToken) {t : PlacedToken} (h : t.token.isBracket = false) :
    unopened (row ++ [t]) = unopened row ∧ unclosed (row ++ [t]) = unclosed row := by
  obtain ⟨p, t⟩ := t
  rw [unopened_append, unclosed_append]
  cases t with
  | opening | closing => cases h
  | _ => simp [unopened, unclosed]

/-- The brackets of a row that have no partner in it make up the difference between the brackets
of its text, and the row wants no partner before it exactly when every front of its text has
opening brackets enough. -/
theorem nesting_place (start : Nat) {ts : List Token} (h : ∀ t ∈ ts, t.Plain) :
    Text.openings (textOf ts) + unopened (place start ts) =
        Text.closings (textOf ts) + (unclosed (place start ts)).length ∧
      (unopened (place start ts) = 0 ↔ Text.Covered (textOf ts)) := by
  induction ts using List.reverseRecOn with
  | nil => exact ⟨rfl, fun _ => Text.covered_nil, fun _ => rfl⟩
  | append_singleton ts t ih =>
    obtain ⟨ihcount, ihcovered⟩ := ih fun u hu => h u (List.mem_append_left _ hu)
    have htext : textOf (ts ++ [t]) = textOf ts ++ t.text := by simp
    rw [place_append, htext, Text.openings_append, Text.closings_append, place, place]
    by_cases ht : t.isBracket = false
    · obtain ⟨ho, hc⟩ := h t (by simp) ht
      obtain ⟨hun, hopen⟩ := nesting_snoc (place start ts)
        (t := ⟨start + Text.width (textOf ts), t⟩) ht
      have ho' : Text.openings t.text = 0 := List.count_eq_zero.2 ho
      have hc' : Text.closings t.text = 0 := List.count_eq_zero.2 hc
      rw [hun, hopen, Text.covered_append_iff ho hc, ho', hc']
      exact ⟨ihcount, ihcovered⟩
    · cases t with
      | opening =>
        have ho : Text.openings (text .opening) = 1 := rfl
        have hc : Text.closings (text .opening) = 0 := rfl
        rw [unopened_snoc _ (by simp), unclosed_snoc_opening, ho, hc, List.length_cons]
        refine ⟨by omega, ?_⟩
        rw [text, Text.covered_snoc, ihcovered]
        exact (and_iff_left fun h => absurd h.symm Text.closing_ne_opening).symm
      | closing =>
        have ho : Text.openings (text .closing) = 0 := rfl
        have hc : Text.closings (text .closing) = 1 := rfl
        rw [unopened_snoc_closing, unclosed_snoc_closing, ho, hc, List.length_tail]
        refine ⟨by omega, ?_⟩
        -- the bracket is one too many exactly when none is open before it
        rw [text, Text.covered_snoc, ← ihcovered]
        constructor
        · intro hun
          exact ⟨by omega, fun _ => by omega⟩
        · rintro ⟨hun, hlt⟩
          have := hlt rfl
          omega
      | _ => exact absurd rfl ht

/-- The brackets that a row leaves open are those that have no partner in its text. -/
theorem mem_unclosed_place {start p : Nat} {ts : List Token} (h : ∀ t ∈ ts, t.Plain) :
    p ∈ unclosed (place start ts) ↔ ∃ q, Text.Unclosed (textOf ts) q ∧ p = start + q := by
  induction ts generalizing start with
  | nil =>
    constructor
    · exact fun hp => absurd hp List.not_mem_nil
    · rintro ⟨q, ⟨before, after, htext, -⟩, -⟩
      simp at htext
  | cons t ts ih =>
    have hts : ∀ u ∈ ts, u.Plain := fun u hu => h u (List.mem_cons_of_mem t hu)
    have hskip (ht : openingBracket ∉ t.text) :
        p ∈ unclosed (place (start + t.width) ts) ↔
          ∃ q, Text.Unclosed (textOf (t :: ts)) q ∧ p = start + q := by
      rw [ih hts, textOf_cons]
      simp only [Text.unclosed_append ht]
      constructor
      · rintro ⟨q, hq, rfl⟩
        exact ⟨_, ⟨q, hq, rfl⟩, Nat.add_assoc _ _ _⟩
      · rintro ⟨_, ⟨q, hq, rfl⟩, rfl⟩
        exact ⟨q, hq, (Nat.add_assoc _ _ _).symm⟩
    cases t with
    | opening =>
      have hmem : p ∈ unclosed (place start (opening :: ts)) ↔
          p ∈ unclosed (place (start + opening.width) ts) ∨
            unopened (place (start + opening.width) ts) = 0 ∧ p = start := by
        simp only [place, unclosed]
        split <;> simp_all
      have hcons (q : Nat) : Text.Unclosed (textOf (opening :: ts)) q ↔ _ := Text.unclosed_cons
      rw [hmem, ih hts, (nesting_place _ hts).2]
      simp only [hcons, Text.closes_iff, not_not, true_and]
      constructor
      · rintro (⟨q, hq, rfl⟩ | ⟨hcovered, rfl⟩)
        · exact ⟨_, .inr ⟨q, hq, rfl⟩, Nat.add_assoc _ _ _⟩
        · exact ⟨0, .inl ⟨rfl, hcovered⟩, rfl⟩
      · rintro ⟨_, ⟨rfl, hcovered⟩ | ⟨q, hq, rfl⟩, rfl⟩
        · exact .inr ⟨hcovered, rfl⟩
        · exact .inl ⟨q, hq, (Nat.add_assoc _ _ _).symm⟩
    | closing => exact hskip (by decide)
    | blank | operator | numeral => exact hskip (h _ List.mem_cons_self rfl).1

/-- A row is level exactly when its text is balanced. -/
theorem level_place_iff (start : Nat) {ts : List Token} (h : ∀ t ∈ ts, t.Plain) :
    Level (place start ts) ↔ Text.Balanced (textOf ts) := by
  obtain ⟨hcount, hcovered⟩ := nesting_place start h
  rw [Level, ← List.length_eq_zero_iff]
  constructor
  · rintro ⟨hun, hopen⟩
    exact ⟨hcovered.1 hun, by omega⟩
  · intro hbalanced
    have hun := hcovered.2 hbalanced.covered
    have heq := hbalanced.closings_eq
    exact ⟨hun, by omega⟩

end Token

end Abacus
