import Abacus.Expression.Token
import Mathlib.Data.List.Induction

/-!
# Nesting

How the brackets of a row of tokens are nested, for any row: which opening brackets it leaves
open (`unclosed`) and how many closing brackets want a partner before it (`unopened`). A row that
has neither is `Level`: what comes after it stands in the same group as what comes before it.

Both are told of two rows put together (`unopened_append`, `unclosed_append`): the closing
brackets that the second wants a partner for close the innermost brackets that the first leaves
open, as many as there are.
-/

namespace Abacus.Token

/-- The number of closing brackets of the row that no bracket of the row opens. -/
def unopened : List PlacedToken → Nat
  | [] => 0
  | t :: ts =>
    match t.token with
    | opening => unopened ts - 1
    | closing => unopened ts + 1
    | _ => unopened ts

/-- The positions of the opening brackets that no bracket of the row closes, the innermost
first. -/
def unclosed : List PlacedToken → List Nat
  | [] => []
  | t :: ts =>
    match t.token with
    | opening => if unopened ts = 0 then unclosed ts ++ [t.position] else unclosed ts
    | _ => unclosed ts

/-- Every bracket of the row has its partner in the row. -/
def Level (ts : List PlacedToken) : Prop := unopened ts = 0 ∧ unclosed ts = []

instance (ts : List PlacedToken) : Decidable (Level ts) := inferInstanceAs (Decidable (_ ∧ _))

theorem level_nil : Level [] := ⟨rfl, rfl⟩

/-- The closing brackets that the second row wants a partner for close brackets of the first. -/
theorem append_nesting (xs ys : List PlacedToken) :
    unopened (xs ++ ys) = unopened xs + (unopened ys - (unclosed xs).length) ∧
      unclosed (xs ++ ys) = unclosed ys ++ (unclosed xs).drop (unopened ys) := by
  induction xs with
  | nil => simp [unopened, unclosed]
  | cons t xs ih =>
    obtain ⟨iho, ihc⟩ := ih
    obtain ⟨p, t⟩ := t
    cases t with
    | opening =>
      by_cases hx : unopened xs = 0
      · simp only [List.cons_append, unopened, unclosed, hx, if_true, iho, ihc, List.length_append,
          List.length_singleton]
        refine ⟨by omega, ?_⟩
        by_cases hlen : unopened ys ≤ (unclosed xs).length
        · rw [if_pos (by omega), List.drop_append_of_le_length hlen, List.append_assoc]
        · have hle : (unclosed xs).length ≤ unopened ys := by omega
          have hle' : (unclosed xs ++ [p]).length ≤ unopened ys := by
            rw [List.length_append, List.length_singleton]
            omega
          rw [if_neg (by omega), List.drop_of_length_le hle, List.drop_of_length_le hle']
      · simp only [List.cons_append, unopened, unclosed, hx, if_false, iho, ihc]
        refine ⟨by omega, ?_⟩
        rw [if_neg (by omega)]
    | closing =>
      simp only [List.cons_append, unopened, unclosed, iho, ihc]
      exact ⟨by omega, trivial⟩
    | _ => exact ⟨iho, ihc⟩

theorem unopened_append (xs ys : List PlacedToken) :
    unopened (xs ++ ys) = unopened xs + (unopened ys - (unclosed xs).length) :=
  (append_nesting xs ys).1

theorem unclosed_append (xs ys : List PlacedToken) :
    unclosed (xs ++ ys) = unclosed ys ++ (unclosed xs).drop (unopened ys) :=
  (append_nesting xs ys).2

/-- What comes after a row that leaves no bracket open. -/
theorem unclosed_of_append (xs : List PlacedToken) {ys : List PlacedToken}
    (h : unclosed (xs ++ ys) = []) :
    unclosed ys = [] := by
  rw [unclosed_append] at h
  exact (List.append_eq_nil_iff.1 h).1

/-- What comes before an inner part that wants no partner has none open if the whole has none. -/
theorem level_of_append {xs ys : List PlacedToken} (h : Level (xs ++ ys)) (hy : unopened ys = 0) :
    Level xs := by
  obtain ⟨ho, hc⟩ := h
  rw [unopened_append] at ho
  rw [unclosed_append, hy] at hc
  exact ⟨by omega, (List.append_eq_nil_iff.1 hc).2⟩

/-! ### One more token -/

section Snoc

variable (ts : List PlacedToken) (p : Nat)

theorem unopened_snoc_closing :
    unopened (ts ++ [⟨p, closing⟩]) = unopened ts + (1 - (unclosed ts).length) :=
  unopened_append ts _

theorem unclosed_snoc_closing : unclosed (ts ++ [⟨p, closing⟩]) = (unclosed ts).tail := by
  rw [unclosed_append]
  exact List.drop_one

theorem unclosed_snoc_opening : unclosed (ts ++ [⟨p, opening⟩]) = p :: unclosed ts :=
  unclosed_append ts _

/-- Only a closing bracket wants a partner. -/
theorem unopened_snoc {t : PlacedToken} (h : t.token ≠ closing) :
    unopened (ts ++ [t]) = unopened ts := by
  rw [unopened_append]
  obtain ⟨q, t⟩ := t
  cases t <;> first | exact absurd rfl h | simp [unopened]

end Snoc

/-- The first closing bracket that wants a partner stands after a level row. -/
theorem exists_level_of_unopened {ts : List PlacedToken} (h : unopened ts ≠ 0) :
    ∃ xs q ys, ts = xs ++ ⟨q, closing⟩ :: ys ∧ Level xs := by
  induction ts using List.reverseRecOn with
  | nil => exact absurd rfl h
  | append_singleton ts t ih =>
    by_cases hts : unopened ts = 0
    · obtain ⟨q, t⟩ := t
      cases t with
      | closing =>
        rw [unopened_snoc_closing] at h
        have hlen : (unclosed ts).length = 0 := by omega
        exact ⟨ts, q, [], rfl, hts, List.length_eq_zero_iff.1 hlen⟩
      | _ => exact absurd ((unopened_snoc ts (by simp)).trans hts) h
    · obtain ⟨xs, q, ys, rfl, hxs⟩ := ih hts
      exact ⟨xs, q, ys ++ [t], by simp, hxs⟩

/-- What stands after the innermost bracket that is left open is level. -/
theorem exists_level_of_unclosed {ts : List PlacedToken} {p : Nat} {ps : List Nat}
    (h : unclosed ts = p :: ps) : ∃ xs ys, ts = xs ++ ⟨p, opening⟩ :: ys ∧ Level ys := by
  induction ts generalizing ps with
  | nil => cases h
  | cons t ts ih =>
    have later {qs : List Nat} (hts : unclosed ts = p :: qs) :
        ∃ xs ys, t :: ts = xs ++ ⟨p, opening⟩ :: ys ∧ Level ys := by
      obtain ⟨xs, ys, rfl, hys⟩ := ih hts
      exact ⟨t :: xs, ys, rfl, hys⟩
    obtain ⟨q, t⟩ := t
    cases t with
    | opening =>
      simp only [unclosed] at h
      split at h
      · next hun =>
        cases hts : unclosed ts with
        | nil =>
          rw [hts] at h
          obtain rfl : q = p := (List.cons.inj h).1
          exact ⟨[], ts, rfl, hun, hts⟩
        | cons r rs =>
          -- the bracket is not the innermost: one that comes later is left open too
          rw [hts] at h
          obtain rfl : r = p := (List.cons.inj h).1
          exact later hts
      · exact later h
    | _ => exact later h

end Abacus.Token
