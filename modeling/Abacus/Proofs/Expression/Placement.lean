import Abacus.Expression.Token

/-!
# Where tokens stand

A token stands where the text of the tokens before it ends (`Token.mem_place_iff`), so no two
tokens that take up room stand at one position (`Token.nodup_position_place`).
-/

namespace Abacus.Token

/-- The tokens before a token and those after it stand at their places. -/
theorem place_eq_append_cons {start : Nat} {ts : List Token} {xs ys : List PlacedToken}
    {u : PlacedToken} (h : place start ts = xs ++ u :: ys) :
    ∃ as bs, ts = as ++ u.token :: bs ∧ xs = place start as ∧
      u.position = start + Text.width (textOf as) ∧ ys = place (u.position + u.token.width) bs := by
  induction xs generalizing start ts with
  | nil =>
    match ts, h with
    | t :: ts, h =>
      obtain ⟨rfl, rfl⟩ := List.cons.inj h
      exact ⟨[], ts, rfl, rfl, rfl, rfl⟩
  | cons x xs ih =>
    match ts, h with
    | t :: ts, h =>
      obtain ⟨rfl, hrest⟩ := List.cons.inj h
      obtain ⟨as, bs, rfl, rfl, hp, hys⟩ := ih hrest
      refine ⟨t :: as, bs, rfl, rfl, ?_, hys⟩
      rw [hp, textOf_cons, Text.width_append, Nat.add_assoc]
      rfl

/-- A token stands after the tokens before it. -/
theorem mem_place_iff {start : Nat} {ts : List Token} {u : PlacedToken} :
    u ∈ place start ts ↔
      ∃ xs ys, ts = xs ++ u.token :: ys ∧ u.position = start + Text.width (textOf xs) := by
  constructor
  · intro h
    obtain ⟨before, after, hplace⟩ := List.append_of_mem h
    obtain ⟨xs, ys, hts, -, hp, -⟩ := place_eq_append_cons hplace
    exact ⟨xs, ys, hts, hp⟩
  · rintro ⟨xs, ys, rfl, hp⟩
    rw [place_append, List.mem_append]
    obtain ⟨p, t⟩ := u
    obtain rfl : p = _ := hp
    exact .inr List.mem_cons_self

/-- The tokens stand within the text they are written as. -/
theorem position_le_of_mem_place {start : Nat} {ts : List Token} {u : PlacedToken}
    (h : u ∈ place start ts) :
    start ≤ u.position ∧ u.position + u.token.width ≤ start + Text.width (textOf ts) := by
  obtain ⟨xs, ys, rfl, hp⟩ := mem_place_iff.1 h
  rw [hp, textOf_append, textOf_cons, Text.width_append, Text.width_append]
  exact ⟨Nat.le_add_right _ _, by unfold width; omega⟩

/-- Every token ends before those after it begin. -/
theorem pairwise_place (start : Nat) (ts : List Token) :
    (place start ts).Pairwise fun u v => u.position + u.token.width ≤ v.position := by
  induction ts generalizing start with
  | nil => exact .nil
  | cons t ts ih => exact .cons (fun u hu => (position_le_of_mem_place hu).1) (ih _)

/-- Tokens that take up room stand one after another. -/
theorem pairwise_position_place (start : Nat) {ts : List Token} (h : ∀ t ∈ ts, t.text ≠ []) :
    (place start ts).Pairwise fun u v => u.position < v.position := by
  refine (pairwise_place start ts).imp_of_mem fun {u v} hu _ hle => ?_
  obtain ⟨xs, ys, rfl, -⟩ := mem_place_iff.1 hu
  have hpos : 0 < u.token.width := Text.width_pos (h u.token (by simp))
  omega

/-- No two tokens that take up room stand at one position. -/
theorem nodup_position_place (start : Nat) {ts : List Token} (h : ∀ t ∈ ts, t.text ≠ []) :
    ((place start ts).map PlacedToken.position).Nodup := by
  rw [List.Nodup, List.pairwise_map]
  exact (pairwise_position_place start h).imp fun hlt => Nat.ne_of_lt hlt

end Abacus.Token
