import Abacus.Proofs.Calculator.Scanning
import Abacus.Proofs.Calculator.Schedule
import Mathlib.Logic.Relation

/-!
# The course of a run

A run over a text goes from point to point. At every point the machine either applies the
operator on top of its stack, if what comes next makes the operator due, or takes the next token
(`Point.Next`), so the points between two applications of one token are told apart too.

These points are those of the run that gives a text its value. Going on from any of them ends as
the whole run does (`Reaches.ending_eq`), one comes to a last point from each of them
(`exists_last`), and at the last point everything has been computed that the run computes and
there are six reasons why it has ended (`Ends`, `Last.ends`).
-/

namespace Abacus

open Relation

/-! ### What settles -/

/-- An operator that is due and applied leaves the others to be settled. -/
theorem settle_of_apply {due : Operator → Bool} {op : Operator} {p : Nat} {pending : List Pending}
    {w w' : Workings} (hop : due op = true) (hw : w.apply op p = .ok w') :
    settle due (.operator op p :: pending) w = settle due pending w' := by
  rw [settle, if_pos hop, hw]

/-- An operator that is due and fails ends the run. -/
theorem settle_of_apply_error {due : Operator → Bool} {op : Operator} {p : Nat}
    {pending : List Pending} {w : Workings} {e : EvaluationError} (hop : due op = true)
    (hw : w.apply op p = .error e) :
    settle due (.operator op p :: pending) w = .error ⟨e, ⟨pending, w⟩⟩ := by
  rw [settle, if_pos hop, hw]

/-- If the entry on top is not due, nothing settles. -/
theorem settle_of_head {due : Operator → Bool} {pending : List Pending} (w : Workings)
    (h : ∀ e ∈ pending.head?, e.isDue due = false) : settle due pending w = .ok ⟨pending, w⟩ := by
  cases pending with
  | nil => rfl
  | cons e pending =>
    cases e with
    | opening p => rfl
    | operator op p =>
      have hop : due op = false := h _ rfl
      rw [settle, if_neg (by simp [hop])]

/-! ### Points -/

/-- A point of a run. -/
structure Point where
  /-- The tokens read so far. -/
  read : List PlacedToken
  /-- The machine. -/
  machine : Machine
  /-- The tokens to come. -/
  coming : List PlacedToken
  /-- The fault that the text goes on with after these tokens, if it does not end there. -/
  fault? : Option EvaluationError

namespace Point

/-- The operators that what comes next makes due. -/
def releases (q : Point) : Operator → Bool :=
  match q.coming with
  | t :: _ => t.token.releases
  | [] => fun _ => q.fault?.isNone

/-- The applications so far, in order. -/
def applications (q : Point) : List Application := q.machine.workings.applied.reverse

/-- `a.Next b`: the run goes from the point `a` to the point `b`. -/
inductive Next : Point → Point → Prop where
  /-- The operator on top is due and is applied. -/
  | apply {q : Point} {op : Operator} {p : Nat} {pending : List Pending} {w : Workings} :
      q.machine.pending = .operator op p :: pending → q.releases op = true →
      q.machine.workings.apply op p = .ok w → Next q { q with machine := ⟨pending, w⟩ }
  /-- Nothing on top is due, and the next token is taken. -/
  | take {q : Point} {t : PlacedToken} {ts : List PlacedToken} {m : Machine} :
      q.coming = t :: ts → (∀ e ∈ q.machine.pending.head?, e.isDue q.releases = false) →
      q.machine.receive t = .ok m →
      Next q { q with read := q.read ++ [t], machine := m, coming := ts }

/-- The run comes from one point to the other. -/
def Reaches : Point → Point → Prop := ReflTransGen Next

/-- The run does not go on from the point. -/
def Last (q : Point) : Prop := ∀ r, ¬ q.Next r

/-- What the run comes to from the point on. -/
def ending (q : Point) : Run :=
  .ofEnding <| (q.machine.steps q.coming).bind (·.stop q.fault?)

variable {a b q : Point}

/-! ### One step -/

/-- Going on from a point begins with what settles there. -/
theorem ending_congr {m : Machine} (h : m.settle q.releases = q.machine.settle q.releases) :
    ({ q with machine := m } : Point).ending = q.ending := by
  obtain ⟨read, m₀, coming, fault?⟩ := q
  cases coming with
  | cons t ts =>
    have hsettle : m.settle t.token.releases = m₀.settle t.token.releases := h
    have hstep : m.step t = m₀.step t := by rw [Machine.step_eq, Machine.step_eq, hsettle]
    simp only [ending, Machine.steps_cons, hstep]
  | nil =>
    cases fault? with
    | some e =>
      have hm : (.ok m : Except Halt Machine) = .ok m₀ :=
        m.settle_none.symm.trans (h.trans m₀.settle_none)
      rw [Except.ok.inj hm]
    | none =>
      have hsettle : (m.settle fun _ => true) = m₀.settle fun _ => true := h
      simp only [ending, Machine.steps_nil, Except.bind, Machine.stop, Machine.finish, hsettle]

/-- If the token that comes can be taken, one goes on from there. -/
theorem ending_of_receive {t : PlacedToken} {ts : List PlacedToken} {m : Machine}
    (hcoming : q.coming = t :: ts) (hsettle : q.machine.settle q.releases = .ok q.machine)
    (hm : q.machine.receive t = .ok m) :
    ({ q with read := q.read ++ [t], machine := m, coming := ts } : Point).ending = q.ending := by
  obtain ⟨read, m₀, _, fault?⟩ := q
  obtain rfl : _ = _ := hcoming
  have hstep : m₀.step t = .ok m := by
    have hsettle' : m₀.settle t.token.releases = .ok m₀ := hsettle
    rw [Machine.step_eq, hsettle']
    exact hm
  simp only [ending, Machine.steps_cons, hstep]
  rfl

theorem Next.ending_eq (h : a.Next b) : b.ending = a.ending := by
  cases h with
  | apply hp hop hw =>
    refine ending_congr ?_
    rw [Machine.settle, Machine.settle, hp, settle_of_apply hop hw]
  | take hcoming hhead hm => exact ending_of_receive hcoming (settle_of_head _ hhead) hm

/-- What is read and what is to come are the same tokens at every point. -/
theorem Next.read_append_coming (h : a.Next b) : b.read ++ b.coming = a.read ++ a.coming := by
  cases h with
  | apply => rfl
  | take hcoming =>
    rw [hcoming, List.append_assoc]
    rfl

theorem Next.fault?_eq (h : a.Next b) : b.fault? = a.fault? := by
  cases h <;> rfl

/-- An application is added to those before, or there is none. -/
theorem Next.applications_prefix (h : a.Next b) : a.applications <+: b.applications := by
  cases h with
  | apply hp hop hw =>
    obtain ⟨left, right, rest, v, -, -, rfl⟩ := Workings.apply_eq_ok_iff.1 hw
    exact ⟨_, List.reverse_cons.symm⟩
  | @take t ts m hcoming hhead hm =>
    have hm' : m.workings.applied = a.machine.workings.applied := by
      obtain ⟨p, t⟩ := t
      cases t with
      | closing =>
        simp only [Machine.receive, Machine.close] at hm
        split at hm
        · cases hm
          rfl
        · cases hm
      | _ =>
        cases hm
        rfl
    exact ⟨[], by simp only [applications, hm', List.append_nil]⟩

/-! ### The way to the last point -/

namespace Reaches

theorem ending_eq (h : a.Reaches b) : b.ending = a.ending := by
  induction h with
  | refl => rfl
  | tail _ hstep ih => exact hstep.ending_eq.trans ih

theorem read_append_coming (h : a.Reaches b) : b.read ++ b.coming = a.read ++ a.coming := by
  induction h with
  | refl => rfl
  | tail _ hstep ih => exact hstep.read_append_coming.trans ih

theorem fault?_eq (h : a.Reaches b) : b.fault? = a.fault? := by
  induction h with
  | refl => rfl
  | tail _ hstep ih => exact hstep.fault?_eq.trans ih

theorem applications_prefix (h : a.Reaches b) : a.applications <+: b.applications := by
  induction h with
  | refl => exact List.prefix_rfl
  | tail _ hstep ih => exact ih.trans hstep.applications_prefix

end Reaches

/-- The work that is left, at most: a token may bring an entry that is to leave again. -/
def work (q : Point) : Nat := 2 * q.coming.length + q.machine.pending.length

theorem length_pending_of_receive {m m' : Machine} {t : PlacedToken} (h : m.receive t = .ok m') :
    m'.pending.length ≤ m.pending.length + 1 := by
  obtain ⟨p, t⟩ := t
  cases t with
  | closing =>
    simp only [Machine.receive, Machine.close] at h
    split at h
    · next hp =>
      cases h
      rw [hp, List.length_cons]
      exact Nat.le_succ_of_le (Nat.le_succ _)
    · cases h
  | blank | numeral =>
    cases h
    exact Nat.le_succ _
  | opening | operator =>
    cases h
    exact Nat.le_refl _

theorem Next.work_lt (h : a.Next b) : b.work < a.work := by
  cases h with
  | apply hp =>
    simp only [work, hp, List.length_cons]
    omega
  | take hcoming _ hm =>
    have := length_pending_of_receive hm
    simp only [work, hcoming, List.length_cons]
    omega

/-- From every point the run comes to a last one. -/
theorem exists_last (q : Point) : ∃ r, q.Reaches r ∧ r.Last := by
  induction hn : q.work using Nat.strongRecOn generalizing q with
  | _ n ih =>
    by_cases h : q.Last
    · exact ⟨q, .refl, h⟩
    · obtain ⟨r, hr⟩ := not_forall_not.1 h
      obtain ⟨s, hs, hlast⟩ := ih r.work (hn ▸ hr.work_lt) r rfl
      exact ⟨s, .head hr hs, hlast⟩

/-! ### The last point -/

/-- If an application fails, so does the run. -/
theorem ending_of_settle_error {halt : Halt} (h : q.machine.settle q.releases = .error halt) :
    q.ending = .ofEnding (.error halt) := by
  obtain ⟨read, m, coming, fault?⟩ := q
  cases coming with
  | cons t ts =>
    have hsettle : m.settle t.token.releases = .error halt := h
    have hstep : m.step t = .error halt := by
      rw [Machine.step_eq, hsettle]
      rfl
    simp only [ending, Machine.steps_cons, hstep]
    rfl
  | nil =>
    cases fault? with
    | some e => exact absurd ((Machine.settle_none m).symm.trans h) (by simp)
    | none =>
      have hsettle : (m.settle fun _ => true) = .error halt := h
      simp only [ending, Machine.steps_nil, Except.bind, Machine.stop, Machine.finish, hsettle]

/-- Either the operator on top is due, or nothing is. -/
theorem due_or_settled (q : Point) :
    (∃ op p pending, q.machine.pending = .operator op p :: pending ∧ q.releases op = true) ∨
      ∀ e ∈ q.machine.pending.head?, e.isDue q.releases = false := by
  cases hp : q.machine.pending with
  | nil => exact .inr fun e he => by cases he
  | cons e pending =>
    by_cases he : e.isDue q.releases = true
    · cases e with
      | opening p => cases he
      | operator op p => exact .inl ⟨op, p, pending, rfl, he⟩
    · refine .inr fun e' he' => ?_
      obtain rfl : e = e' := by simpa using he'
      exact Bool.eq_false_iff.2 he

/-- `q.Ends x`: the run does not go on from the point, and this is why it has come to `x`. -/
inductive Ends (q : Point) : Except EvaluationError Int64 → Prop where
  /-- The operator on top is due and has no value, or no operands. -/
  | application {op : Operator} {p : Nat} {pending : List Pending} {e : EvaluationError} :
      q.machine.pending = .operator op p :: pending → q.releases op = true →
      q.machine.workings.apply op p = .error e → Ends q (.error e)
  /-- A closing bracket comes, and no bracket is open. -/
  | closing {p : Nat} {ts : List PlacedToken} :
      q.coming = ⟨p, .closing⟩ :: ts → q.machine.pending = [] →
      Ends q (.error (.unbalancedBracket p))
  /-- All tokens are read, and the text goes on with a fault. -/
  | fault {e : EvaluationError} : q.coming = [] → q.fault? = some e → Ends q (.error e)
  /-- The text ends, and a bracket is open. -/
  | opening {p : Nat} {pending : List Pending} :
      q.coming = [] → q.fault? = none → q.machine.pending = .opening p :: pending →
      Ends q (.error (.unbalancedBracket p))
  /-- The text ends, and not one operand is left. -/
  | count : q.coming = [] → q.fault? = none → q.machine.pending = [] →
      q.machine.workings.operands.length ≠ 1 →
      Ends q (.error (.notOneValue q.machine.workings.operands.length))
  /-- The text ends, and one operand is left. -/
  | value {v : Int64} : q.coming = [] → q.fault? = none → q.machine.pending = [] →
      q.machine.workings.operands = [v] → Ends q (.ok v)

/-- Where nothing on top is due, what is on top is no operator if every operator would be. -/
theorem opening_or_nil {pending : List Pending}
    (h : ∀ e ∈ pending.head?, e.isDue (fun _ => true) = false) :
    (∃ p rest, pending = .opening p :: rest) ∨ pending = [] := by
  match pending with
  | [] => exact .inr rfl
  | .opening p :: rest => exact .inl ⟨p, rest, rfl⟩
  | .operator op p :: rest => exact absurd (h _ rfl) (by simp [Pending.isDue])

/-- Only a closing bracket cannot be taken, if nothing that is due and no open bracket is on
top. -/
theorem exists_of_receive_error {m : Machine} {t : PlacedToken} {halt : Halt}
    (hhead : ∀ e ∈ m.pending.head?, e.isDue t.token.releases = false)
    (h : m.receive t = .error halt) :
    ∃ p, t = ⟨p, .closing⟩ ∧ m.pending = [] ∧ halt = ⟨.unbalancedBracket p, m⟩ := by
  obtain ⟨p, t⟩ := t
  cases t with
  | closing =>
    obtain ⟨pending, w⟩ := m
    rcases opening_or_nil hhead with ⟨q, rest, rfl⟩ | rfl
    · cases h
    · cases h
      exact ⟨p, rfl, rfl, rfl⟩
  | _ => cases h

/-- Where the operator on top is due, the run does not go on because its application fails. -/
theorem Last.ends_of_due (h : q.Last) {op : Operator} {p : Nat} {pending : List Pending}
    (hp : q.machine.pending = .operator op p :: pending) (hop : q.releases op = true) :
    q.Ends q.ending.outcome ∧ q.ending.machine.workings = q.machine.workings := by
  cases hw : q.machine.workings.apply op p with
  | ok w => exact absurd (.apply hp hop hw) (h _)
  | error e =>
    have hsettle : q.machine.settle q.releases = .error ⟨e, ⟨pending, q.machine.workings⟩⟩ := by
      rw [Machine.settle, hp, settle_of_apply_error hop hw]
    rw [ending_of_settle_error hsettle]
    exact ⟨.application hp hop hw, rfl⟩

/-- Where nothing is due, the run does not go on because the token that comes cannot be taken. -/
theorem Last.ends_of_coming (h : q.Last)
    (hhead : ∀ e ∈ q.machine.pending.head?, e.isDue q.releases = false) {t : PlacedToken}
    {ts : List PlacedToken} (hcoming : q.coming = t :: ts) :
    q.Ends q.ending.outcome ∧ q.ending.machine.workings = q.machine.workings := by
  cases hm : q.machine.receive t with
  | ok m => exact absurd (.take hcoming hhead hm) (h _)
  | error halt =>
    have hsettle : q.machine.settle q.releases = .ok q.machine := settle_of_head _ hhead
    rw [releases, hcoming] at hhead hsettle
    obtain ⟨p, rfl, hp, rfl⟩ := exists_of_receive_error hhead hm
    have hstep : q.machine.step ⟨p, .closing⟩ = .error ⟨.unbalancedBracket p, q.machine⟩ := by
      rw [Machine.step_eq, hsettle]
      exact hm
    simp only [ending, hcoming, Machine.steps_cons, hstep]
    exact ⟨.closing hcoming hp, rfl⟩

/-- Where nothing is due and the text ends, the run comes to what is left. -/
theorem ends_of_end (hhead : ∀ e ∈ q.machine.pending.head?, e.isDue q.releases = false)
    (hcoming : q.coming = []) (hfault : q.fault? = none) :
    q.Ends q.ending.outcome ∧ q.ending.machine.workings = q.machine.workings := by
  have hsettle : q.machine.settle q.releases = .ok q.machine := settle_of_head _ hhead
  have hreleases : q.releases = fun _ => true := by
    rw [releases, hcoming, hfault]
    rfl
  rw [hreleases] at hhead hsettle
  simp only [ending, hcoming, Machine.steps_nil, Except.bind, hfault, Machine.stop,
    Machine.finish, hsettle]
  rcases opening_or_nil hhead with ⟨p, rest, hp⟩ | hp
  · rw [hp]
    exact ⟨.opening hcoming hfault hp, rfl⟩
  · rw [hp]
    have hcount := Ends.count hcoming hfault hp
    have hvalue (v : Int64) := Ends.value (v := v) hcoming hfault hp
    match hw : q.machine.workings.operands with
    | [v] => exact ⟨hvalue v hw, rfl⟩
    | [] =>
      rw [hw] at hcount
      exact ⟨hcount (by simp), rfl⟩
    | a :: b :: operands =>
      rw [hw] at hcount
      exact ⟨hcount (by simp), rfl⟩

/-- **The last point.** Where the run does not go on, it has come to its outcome for one of the
reasons there are, and nothing more has been computed. -/
theorem Last.ends (h : q.Last) :
    q.Ends q.ending.outcome ∧ q.ending.machine.workings = q.machine.workings := by
  rcases q.due_or_settled with ⟨op, p, pending, hp, hop⟩ | hhead
  · exact h.ends_of_due hp hop
  cases hcoming : q.coming with
  | cons t ts => exact h.ends_of_coming hhead hcoming
  | nil =>
    cases hfault : q.fault? with
    | none => exact ends_of_end hhead hcoming hfault
    | some e =>
      simp only [ending, hcoming, Machine.steps_nil, Except.bind, hfault, Machine.stop]
      exact ⟨.fault hcoming hfault, rfl⟩

end Point

/-! ### The course of a text -/

/-- The first point of the run over a text. -/
def Calculator.start (c : Calculator) (cs : List Char) : Point where
  read := []
  machine := .empty
  coming := Token.place 0 (c.scan cs).tokens
  fault? := c.faultOf cs

/-- The run over a text is what comes of its first point. -/
theorem Calculator.ending_start (c : Calculator) (cs : List Char) :
    (c.start cs).ending = c.compute cs :=
  (c.compute_eq cs).symm

/-- At the last point of the run over a text everything has been computed that is, and the text
has come to its outcome for one of the reasons there are. -/
theorem Calculator.ends_of_last {c : Calculator} {cs : List Char} {q : Point}
    (h : (c.start cs).Reaches q) (hlast : q.Last) :
    q.Ends (c.compute cs).outcome ∧ (c.compute cs).machine.workings = q.machine.workings := by
  rw [← ending_start, ← h.ending_eq]
  exact hlast.ends

end Abacus
