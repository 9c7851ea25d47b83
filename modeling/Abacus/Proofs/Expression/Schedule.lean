import Abacus.Expression.Machine
import Abacus.Proofs.Expression.Nesting

/-!
# The schedule of an expression

What a row of tokens makes a calculator do, and in which order, told without a stack and for
every row, well formed or not. `Schedule.tasks` lists it: operands come as they are read, and an
operator is applied

* just before the first later token of its own bracket group that releases it, which is an
  operator that binds no more tightly or the bracket that closes the group, or
* at the end, if there is no such token and no bracket is left open after it.

Operators that are due at one time are applied from the right to the left. A closing bracket
without a partner is a failure of its own, and so is the innermost bracket left open at the end.

The operators that wait and the brackets that are open are a stack, if one wants one
(`Schedule.stack`). `stack_snoc` and `stack_snoc_closing` say what a token does to it, and
`takeWhile_dropWhile_stack` that the operators due when the token comes are the topmost
entries. This is the order that the tasks share with a machine that keeps the stack.
-/

namespace Abacus

/-- Something to be done. -/
inductive Task where
  /-- An operand comes. -/
  | operand (value : Int64)
  /-- The operator at the position is applied. -/
  | application (op : Operator) (position : Nat)
  /-- A fault is met. -/
  | failure (error : EvaluationError)

/-- A fault, and what was computed before it. -/
structure Stop where
  /-- The fault. -/
  error : EvaluationError
  /-- What was computed before. -/
  workings : Workings

/-- Does the tasks in order, up to the first that fails. An operator takes the two operands that
came last, the later one as the right one, and its value comes in their place; without two of them,
and without a value for the two, it fails. -/
def perform : List Task → Workings → Except Stop Workings
  | [], w => .ok w
  | .operand value :: tasks, ⟨operands, applied⟩ => perform tasks ⟨value :: operands, applied⟩
  | .application op p :: tasks, ⟨right :: left :: operands, applied⟩ =>
    match op.apply left right with
    | some value =>
      perform tasks ⟨value :: operands, ⟨op.symbol, p, left, right, value⟩ :: applied⟩
    | none => .error ⟨.overflow op.symbol left right p, ⟨right :: left :: operands, applied⟩⟩
  | .application op p :: _, w => .error ⟨.missingOperand op.symbol p, w⟩
  | .failure e :: _, w => .error ⟨e, w⟩

@[simp] theorem perform_nil (w : Workings) : perform [] w = .ok w := by
  rw [perform]

/-- An operand is put on those that came before. -/
@[simp] theorem perform_operand (value : Int64) (tasks : List Task) (w : Workings) :
    perform (.operand value :: tasks) w = perform tasks (w.push value) := by
  rw [perform, Workings.push]

/-- Applying an operator is the one step of a machine that computes. -/
@[simp] theorem perform_application (op : Operator) (p : Nat) (tasks : List Task) (w : Workings) :
    perform (.application op p :: tasks) w =
      match w.apply op p with
      | .ok w => perform tasks w
      | .error e => .error ⟨e, w⟩ := by
  obtain ⟨operands, applied⟩ := w
  match operands with
  | [] | [_] => rfl
  | right :: left :: operands =>
    simp only [perform, Workings.apply]
    cases op.apply left right with
    | some value => rfl
    | none => rfl

@[simp] theorem perform_failure (e : EvaluationError) (tasks : List Task) (w : Workings) :
    perform (.failure e :: tasks) w = .error ⟨e, w⟩ := by
  rw [perform]

/-- Doing two rows of tasks is doing the first and then the second. -/
theorem perform_append (xs ys : List Task) (w : Workings) :
    perform (xs ++ ys) w = (perform xs w).bind (perform ys) := by
  induction xs generalizing w with
  | nil => simp [Except.bind]
  | cons x xs ih =>
    cases x with
    | operand value => simpa using ih _
    | application op p =>
      rw [List.cons_append, perform_application, perform_application]
      cases w.apply op p with
      | ok w' => exact ih w'
      | error e => rfl
    | failure e => simp [Except.bind]

/-- The operators that the token releases if they wait in its group. -/
def Token.releases : Token → Operator → Bool
  | .closing, _ => true
  | .operator op, waiting => op.precedence ≤ waiting.precedence
  | _, _ => false

namespace Schedule

open Token

/-- What a token makes of the tokens after it, for all tokens of the row from the right to the
left. -/
def backwards {α : Type} (f : PlacedToken → List PlacedToken → Option α) :
    List PlacedToken → List α
  | [] => []
  | t :: ts => backwards f ts ++ (f t ts).toList

/-- No token of the row that stands in the operator's group releases it, if the operator stands
right before the row. -/
def Waits (op : Operator) (mid : List PlacedToken) : Prop :=
  ∀ k, (h : k < mid.length) → Level (mid.take k) → mid[k].token.releases op = false

instance (op : Operator) (mid : List PlacedToken) : Decidable (Waits op mid) :=
  inferInstanceAs (Decidable (∀ k, (h : k < mid.length) → _))

/-- The operator waits right before the row, stands in the group that the row ends in, and is
one of those that are released there. -/
def Due (released : Operator → Bool) (op : Operator) (mid : List PlacedToken) : Prop :=
  Level mid ∧ Waits op mid ∧ released op = true

instance (released : Operator → Bool) (op : Operator) (mid : List PlacedToken) :
    Decidable (Due released op mid) := inferInstanceAs (Decidable (_ ∧ _))

/-- The application of the operator that the token is, if it is due with what was read after
it. -/
def application? (released : Operator → Bool) (t : PlacedToken) (mid : List PlacedToken) :
    Option Task :=
  match t.token with
  | .operator op => if Due released op mid then some (.application op t.position) else none
  | _ => none

/-- The applications that are due when some operators are released. -/
def due (released : Operator → Bool) : List PlacedToken → List Task :=
  backwards (application? released)

/-- What the token itself brings. -/
def own (read : List PlacedToken) (t : PlacedToken) : List Task :=
  match t.token with
  | .numeral _ value => [.operand value]
  | .closing => if unclosed read = [] then [.failure (.unbalancedBracket t.position)] else []
  | _ => []

/-- What is left to do when all has been read: the operators are applied that stand in the
innermost group that is open, and then the bracket that opens it is met, if there is one. -/
def atEnd (read : List PlacedToken) : List Task :=
  due (fun _ => true) read ++
    ((unclosed read).head?.map fun p => .failure (.unbalancedBracket p)).toList

/-- What the row makes one do after the tokens that were read before, if it goes on with a fault
or ends. -/
def tasks (read : List PlacedToken) : List PlacedToken → Option EvaluationError → List Task
  | [], none => atEnd read
  | [], some e => [.failure e]
  | t :: ts, fault? =>
    due t.token.releases read ++ (own read t ++ tasks (read ++ [t]) ts fault?)

/-! ### What waits -/

section Waiting

variable {op : Operator} {mid : List PlacedToken}

theorem waits_iff :
    Waits op mid ↔
      ∀ xs t ys, mid = xs ++ t :: ys → Level xs → t.token.releases op = false := by
  constructor
  · rintro h xs t ys rfl hxs
    have hk := h xs.length (by simp) (by simpa using hxs)
    simpa using hk
  · intro h k hk hlevel
    exact h _ _ (mid.drop (k + 1)) (by simp) hlevel

theorem waits_nil (op : Operator) : Waits op [] := by
  intro k hk
  exact absurd hk (Nat.not_lt_zero k)

/-- An operator goes on waiting when a token comes that does not release it. -/
theorem waits_snoc {t : PlacedToken} :
    Waits op (mid ++ [t]) ↔ Waits op mid ∧ (Level mid → t.token.releases op = false) := by
  simp only [waits_iff]
  constructor
  · intro h
    refine ⟨fun xs u ys hmid => h xs u (ys ++ [t]) ?_, h mid t [] rfl⟩
    rw [hmid, List.append_assoc, List.cons_append]
  · rintro ⟨h, ht⟩ xs u ys hmid hxs
    rcases List.eq_nil_or_concat ys with rfl | ⟨ys, z, rfl⟩
    · obtain ⟨rfl, hu⟩ := List.append_inj' hmid rfl
      cases hu
      exact ht hxs
    · rw [List.concat_eq_append, ← List.cons_append, ← List.append_assoc] at hmid
      exact h xs u ys (List.append_inj' hmid rfl).1 hxs

/-- Where an operator still waits its group has not been closed. -/
theorem unopened_of_waits (h : Waits op mid) : unopened mid = 0 := by
  by_contra hne
  obtain ⟨xs, q, ys, hmid, hxs⟩ := exists_level_of_unopened hne
  have hrel := waits_iff.1 h xs _ ys hmid hxs
  cases hrel

end Waiting

/-! ### The stack -/

section Backwards

variable {α : Type} {f : PlacedToken → List PlacedToken → Option α}

theorem mem_backwards {a : α} {ts : List PlacedToken} (h : a ∈ backwards f ts) :
    ∃ xs t ys, ts = xs ++ t :: ys ∧ f t ys = some a := by
  induction ts with
  | nil => exact absurd h List.not_mem_nil
  | cons t ts ih =>
    rcases List.mem_append.1 h with h | h
    · obtain ⟨xs, u, ys, rfl, hu⟩ := ih h
      exact ⟨t :: xs, u, ys, rfl, hu⟩
    · exact ⟨[], t, ts, rfl, by simpa using h⟩

theorem backwards_snoc (ts : List PlacedToken) (t : PlacedToken) :
    backwards f (ts ++ [t]) = (f t []).toList ++ backwards (fun u mid => f u (mid ++ [t])) ts := by
  induction ts with
  | nil => exact (List.append_nil _).symm
  | cons u ts ih => rw [List.cons_append, backwards, ih, backwards, List.append_assoc]

end Backwards

/-- The entry that the token still has on the stack, with what was read after it. -/
def waiting? (t : PlacedToken) (mid : List PlacedToken) : Option Pending :=
  match t.token with
  | .operator op => if Waits op mid then some (.operator op t.position) else none
  | .opening => if unopened mid = 0 then some (.opening t.position) else none
  | _ => none

/-- What waits, the latest first. -/
def stack : List PlacedToken → List Pending := backwards waiting?

/-- The entry that the token keeps on the stack when the operators on top that are released
leave. -/
def kept? (released : Operator → Bool) (t : PlacedToken) (mid : List PlacedToken) :
    Option Pending :=
  match t.token with
  | .operator op =>
    if Waits op mid ∧ (Level mid → released op = false) then some (.operator op t.position)
    else none
  | .opening => if unopened mid = 0 then some (.opening t.position) else none
  | _ => none

/-- What an entry is there to do. -/
def tasksOf : Pending → List Task
  | .operator op p => [.application op p]
  | .opening _ => []

/-- With an operator all tighter ones are released. -/
def Upward (released : Operator → Bool) : Prop :=
  ∀ q q', q.precedence ≤ q'.precedence → released q = true → released q' = true

theorem upward_releases (t : Token) : Upward t.releases := by
  intro q q' hle h
  cases t with
  | operator op =>
    have hop : op.precedence ≤ q.precedence := by simpa [Token.releases] using h
    simpa [Token.releases] using Nat.le_trans hop hle
  | closing => rfl
  | _ => exact absurd h Bool.false_ne_true

theorem opening_mem_stack {p : Nat} {ts : List PlacedToken} (h : p ∈ unclosed ts) :
    .opening p ∈ stack ts := by
  induction ts with
  | nil => exact absurd h List.not_mem_nil
  | cons t ts ih =>
    obtain ⟨q, t⟩ := t
    rw [stack, backwards, List.mem_append]
    cases t with
    | opening =>
      simp only [unclosed] at h
      split at h
      · next h0 =>
        rcases List.mem_append.1 h with h | h
        · exact .inl (ih h)
        · obtain rfl := List.mem_singleton.1 h
          exact .inr (by simp [waiting?, h0])
      · exact .inl (ih h)
    | _ => exact .inl (ih h)

/-- An operator that waits and is released can leave the stack exactly when it stands in the
group that the row ends in: then, and only then, all that came after it leaves the stack before
it. -/
theorem level_iff {released : Operator → Bool} {op : Operator} {mid : List PlacedToken}
    (hup : Upward released) (hw : Waits op mid) (hop : released op = true) :
    Level mid ↔ ∀ e ∈ stack mid, e.isDue released = true := by
  constructor
  · intro hlevel e he
    obtain ⟨xs, ⟨q, t⟩, ys, rfl, ht⟩ := mem_backwards he
    cases t with
    | operator op' =>
      simp only [waiting?, Option.ite_none_right_eq_some, Option.some.injEq] at ht
      obtain ⟨hw', rfl⟩ := ht
      have hxs : Level xs := level_of_append hlevel (show unopened ys = 0 from unopened_of_waits hw')
      -- the later operator has not released the earlier one, so it binds more tightly
      have hlt := waits_iff.1 hw xs _ ys rfl hxs
      have hle : op.precedence ≤ op'.precedence := by
        simp only [Token.releases, decide_eq_false_iff_not] at hlt
        omega
      exact hup op op' hle hop
    | opening =>
      simp only [waiting?, Option.ite_none_right_eq_some] at ht
      have hc := unclosed_of_append xs hlevel.2
      simp [unclosed, ht.1] at hc
    | _ => cases ht
  · intro h
    refine ⟨unopened_of_waits hw, List.eq_nil_iff_forall_not_mem.2 fun p hp => ?_⟩
    exact absurd (h _ (opening_mem_stack hp)) Bool.false_ne_true

theorem takeWhile_snoc {α : Type} (p : α → Bool) (xs : List α) (a : α) :
    (xs ++ [a]).takeWhile p =
      xs.takeWhile p ++ if (∀ x ∈ xs, p x = true) ∧ p a = true then [a] else [] := by
  induction xs with
  | nil => cases h : p a <;> simp [h]
  | cons x xs ih =>
    cases h : p x
    · simp [h]
    · simp [h, ih]

theorem dropWhile_snoc {α : Type} (p : α → Bool) (xs : List α) (a : α) :
    (xs ++ [a]).dropWhile p =
      xs.dropWhile p ++ if (∀ x ∈ xs, p x = true) ∧ p a = true then [] else [a] := by
  induction xs with
  | nil => cases h : p a <;> simp [h]
  | cons x xs ih =>
    cases h : p x
    · simp [h]
    · simp [h, ih]

/-- The operators that are due are on top of the stack, and the others stay. -/
theorem takeWhile_dropWhile_stack {released : Operator → Bool} (hup : Upward released)
    (ts : List PlacedToken) :
    ((stack ts).takeWhile (·.isDue released)).flatMap tasksOf = due released ts ∧
      (stack ts).dropWhile (·.isDue released) = backwards (kept? released) ts := by
  induction ts with
  | nil => exact ⟨rfl, rfl⟩
  | cons t ts ih =>
    obtain ⟨ihtake, ihdrop⟩ := ih
    obtain ⟨p, t⟩ := t
    rw [stack, backwards, ← stack, due, backwards, ← due, backwards, ← ihtake, ← ihdrop]
    cases t with
    | operator op =>
      by_cases hw : Waits op ts
      · have hiff : released op = true → (Level ts ↔ ∀ e ∈ stack ts, e.isDue released = true) :=
          level_iff hup hw
        have hdue : (Pending.operator op p).isDue released = released op := rfl
        by_cases hop : released op = true
        · simp only [waiting?, kept?, application?, hw, Due, if_true, Option.toList_some, takeWhile_snoc,
            dropWhile_snoc, ← hiff hop, hdue, hop]
          by_cases hl : Level ts <;> simp [hl, tasksOf]
        · simp [waiting?, kept?, application?, hw, Due, takeWhile_snoc, dropWhile_snoc, hdue, hop]
      · simp [waiting?, kept?, application?, hw, Due]
    | opening =>
      by_cases h0 : unopened ts = 0
      · simp [waiting?, kept?, application?, h0, takeWhile_snoc, dropWhile_snoc, Pending.isDue]
      · simp [waiting?, kept?, application?, h0]
    | _ => simp [waiting?, kept?, application?]

/-- A token that closes no bracket takes the operators it releases from the stack and goes onto
it if it is to wait. -/
theorem stack_snoc (ts : List PlacedToken) {t : PlacedToken} (ht : t.token ≠ .closing) :
    stack (ts ++ [t]) =
      (waiting? t []).toList ++ (stack ts).dropWhile (·.isDue t.token.releases) := by
  rw [stack, backwards_snoc, ← stack, (takeWhile_dropWhile_stack (upward_releases _) ts).2]
  congr 2
  funext u mid
  obtain ⟨q, u⟩ := u
  cases u with
  | operator op => simp only [waiting?, kept?, waits_snoc]
  | opening => simp only [waiting?, kept?, unopened_snoc mid ht]
  | _ => rfl

/-- The bracket that a closing bracket has for a partner is the innermost that is open. -/
theorem kept_of_unclosed (t : PlacedToken) {mid : List PlacedToken} (h : unclosed mid = [])
    (q : Nat) :
    kept? (fun _ => true) t mid = (unclosed (t :: mid)).head?.map Pending.opening ∧
      waiting? t (mid ++ [⟨q, .closing⟩]) = none := by
  have hlevel (op : Operator) (hw : Waits op mid) : Level mid := ⟨unopened_of_waits hw, h⟩
  obtain ⟨p, t⟩ := t
  cases t with
  | operator op =>
    have hlate : ¬ Waits op (mid ++ [⟨q, .closing⟩]) := fun hw =>
      Bool.noConfusion ((waits_snoc.1 hw).2 (hlevel op (waits_snoc.1 hw).1))
    simpa [kept?, waiting?, unclosed, h, hlate] using hlevel op
  | opening =>
    by_cases h0 : unopened mid = 0 <;>
      simp [kept?, waiting?, unclosed, unopened_snoc_closing, h, h0]
  | _ => simp [kept?, waiting?, unclosed, h]

/-- What stands outside of the innermost bracket that is open stays when that bracket is
closed. -/
theorem kept_of_unclosed_ne_nil (t : PlacedToken) {mid : List PlacedToken}
    (h : unclosed mid ≠ []) (q : Nat) :
    kept? (fun _ => true) t mid = waiting? t (mid ++ [⟨q, .closing⟩]) ∧
      (unclosed (t :: mid)).head? = (unclosed mid).head? := by
  have hlevel : ¬ Level mid := fun hl => h hl.2
  obtain ⟨p, t⟩ := t
  cases t with
  | operator op => simp [kept?, waiting?, unclosed, waits_snoc, hlevel]
  | opening =>
    obtain ⟨o, os, ho⟩ := List.exists_cons_of_ne_nil h
    by_cases h0 : unopened mid = 0 <;>
      simp [kept?, waiting?, unclosed, unopened_snoc_closing, h0, ho]
  | _ => exact ⟨rfl, rfl⟩

/-- A closing bracket takes all operators down to its partner from the stack, and then the
partner. -/
theorem stack_snoc_closing (ts : List PlacedToken) (q : Nat) :
    (stack ts).dropWhile (·.isDue fun _ => true) =
      ((unclosed ts).head?.map Pending.opening).toList ++ stack (ts ++ [⟨q, .closing⟩]) ∧
    (unclosed ts = [] → stack (ts ++ [⟨q, .closing⟩]) = []) := by
  have hup : Upward fun _ => true := fun _ _ _ _ => rfl
  have hsnoc : stack (ts ++ [⟨q, .closing⟩]) =
      backwards (fun u mid => waiting? u (mid ++ [⟨q, .closing⟩])) ts :=
    backwards_snoc ts _
  rw [(takeWhile_dropWhile_stack hup ts).2, hsnoc]
  clear hsnoc
  induction ts with
  | nil => exact ⟨rfl, fun _ => rfl⟩
  | cons t ts ih =>
    obtain ⟨ihdrop, ihnil⟩ := ih
    rw [backwards, backwards, ihdrop]
    by_cases hc : unclosed ts = []
    · obtain ⟨hkept, hentry⟩ := kept_of_unclosed t hc q
      rw [ihnil hc, hkept, hentry, hc]
      exact ⟨by simp, fun _ => rfl⟩
    · obtain ⟨hkept, hhead⟩ := kept_of_unclosed_ne_nil t hc q
      rw [hkept, hhead, List.append_assoc]
      exact ⟨rfl, fun h => absurd (unclosed_of_append [t] h) hc⟩

end Schedule

end Abacus
