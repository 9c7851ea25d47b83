import Abacus.Proofs.Calculator.Scanning
import Abacus.Proofs.Calculator.Schedule

/-!
# Moving tokens

A machine does not look at positions: it only notes them and reports them. So if the tokens of a
run stand at other positions, the run does the same, and what it notes and reports stands at the
other positions too.

`Machine.Moved` says this of two machines, and of what they have applied since a time at which
what they had applied before may have differed; `MovedRuns` says it of two runs. A step keeps it,
and so does a run (`Machine.Moved.steps`) with its end (`MovedRuns.ending`).
-/

namespace Abacus

/-! ### Other positions -/

/-- The token at another position. -/
def PlacedToken.move (f : Nat → Nat) (t : PlacedToken) : PlacedToken :=
  { t with position := f t.position }

/-- The entry at another position. -/
def Pending.move (f : Nat → Nat) : Pending → Pending
  | .opening p => .opening (f p)
  | .operator op p => .operator op (f p)

/-- The application at another position. -/
def Application.move (f : Nat → Nat) (a : Application) : Application :=
  { a with position := f a.position }

/-- The fault reported for another position. -/
def EvaluationError.move (f : Nat → Nat) : EvaluationError → EvaluationError
  | .unbalancedBracket p => .unbalancedBracket (f p)
  | .invalidNumeral digits p => .invalidNumeral digits (f p)
  | .unknownCharacter ch p => .unknownCharacter ch (f p)
  | .missingOperand o p => .missingOperand o (f p)
  | .notOneValue count => .notOneValue count
  | .overflow o left right p => .overflow o left right (f p)
  | .unwritable reason => .unwritable reason

theorem ScanFault.error_move (f : Nat → Nat) (p : Nat) (fault : ScanFault) :
    fault.error (f p) = (fault.error p).move f := by
  cases fault <;> rfl

/-- A fault stays as it is if its position does. -/
theorem EvaluationError.move_eq_self {f : Nat → Nat} {e : EvaluationError}
    (h : ∀ p ∈ e.position?, f p = p) : e.move f = e := by
  cases e with
  | notOneValue | unwritable => rfl
  | _ => simp only [move, h _ rfl]

/-! ### Machines and runs -/

/-- What was computed is the same at other positions, as far as it was since `before` and
`before'` had been applied. -/
structure Workings.Moved (f : Nat → Nat) (before before' : List Application) (w w' : Workings) :
    Prop where
  /-- The operands are the same. -/
  operands : w'.operands = w.operands
  /-- The applications since are the same, at other positions. -/
  applied : ∃ since, w.applied = since ++ before ∧ w'.applied = since.map (·.move f) ++ before'

/-- The second machine is like the first, at other positions. -/
structure Machine.Moved (f : Nat → Nat) (before before' : List Application) (m m' : Machine) :
    Prop where
  /-- The same entries wait. -/
  pending : m'.pending = m.pending.map (·.move f)
  /-- The same was computed. -/
  workings : m.workings.Moved f before before' m'.workings

/-- The second run is like the first, at other positions. -/
def MovedRuns (f : Nat → Nat) (before before' : List Application) :
    Except Halt Machine → Except Halt Machine → Prop
  | .ok m, .ok m' => m.Moved f before before' m'
  | .error halt, .error halt' =>
    halt'.error = halt.error.move f ∧ halt.machine.Moved f before before' halt'.machine
  | _, _ => False

/-- The second run has ended like the first: at other positions with a machine like its own, and
with the same value or with a like fault. -/
structure Run.Moved (f : Nat → Nat) (before before' : List Application) (r r' : Run) : Prop where
  /-- The machines are alike. -/
  machine : r.machine.Moved f before before' r'.machine
  /-- The outcome is the same, or a fault reported for another position. -/
  outcome : r'.outcome = r.outcome.mapError (·.move f)

variable {f : Nat → Nat} {before before' : List Application}

/-- What follows like runs in a like way makes like runs. -/
theorem MovedRuns.bind {r r' : Except Halt Machine} {g g' : Machine → Except Halt Machine}
    (h : MovedRuns f before before' r r')
    (hg : ∀ m m', m.Moved f before before' m' → MovedRuns f before before' (g m) (g' m')) :
    MovedRuns f before before' (r.bind g) (r'.bind g') := by
  match r, r', h with
  | .ok m, .ok m', h => exact hg m m' h
  | .error halt, .error halt', h => exact h

/-- An operator is applied in a like way, or fails in a like way. -/
theorem Workings.Moved.apply {w w' : Workings} (h : w.Moved f before before' w') (op : Operator)
    (p : Nat) :
    (∃ u u', w.apply op p = .ok u ∧ w'.apply op (f p) = .ok u' ∧ u.Moved f before before' u') ∨
      ∃ e, w.apply op p = .error e ∧ w'.apply op (f p) = .error (e.move f) := by
  obtain ⟨_, applied⟩ := w
  obtain ⟨operands, applied'⟩ := w'
  obtain ⟨rfl, since, rfl, rfl⟩ := h
  match operands with
  | [] => exact .inr ⟨_, rfl, rfl⟩
  | [a] => exact .inr ⟨_, rfl, rfl⟩
  | right :: left :: rest =>
    cases hv : op.apply left right with
    | some v =>
      have happly (q : Nat) (applied : List Application) :
          (⟨right :: left :: rest, applied⟩ : Workings).apply op q =
            .ok ⟨v :: rest, ⟨op.symbol, q, left, right, v⟩ :: applied⟩ :=
        Workings.apply_eq_ok_iff.2 ⟨left, right, rest, v, rfl, hv, rfl⟩
      exact .inl ⟨_, _, happly p _, happly (f p) _, rfl,
        ⟨op.symbol, p, left, right, v⟩ :: since, rfl, rfl⟩
    | none =>
      have happly (q : Nat) (applied : List Application) :
          (⟨right :: left :: rest, applied⟩ : Workings).apply op q =
            .error (.overflow op.symbol left right q) := by
        simp only [Workings.apply, hv]
      exact .inr ⟨_, happly p _, happly (f p) _⟩

theorem movedRuns_settle (due : Operator → Bool) (pending : List Pending) {w w' : Workings}
    (h : w.Moved f before before' w') :
    MovedRuns f before before' (settle due pending w)
      (settle due (pending.map (·.move f)) w') := by
  induction pending generalizing w w' with
  | nil => exact ⟨rfl, h⟩
  | cons e pending ih =>
    cases e with
    | opening p => exact ⟨rfl, h⟩
    | operator op p =>
      rw [List.map_cons, Pending.move, settle, settle]
      split
      · rcases h.apply op p with ⟨u, u', hu, hu', hmoved⟩ | ⟨e, he, he'⟩
        · rw [hu, hu']
          exact ih hmoved
        · rw [he, he']
          exact ⟨rfl, rfl, h⟩
      · exact ⟨rfl, h⟩

/-- Before the first token there is nothing to stand elsewhere. -/
theorem Machine.moved_empty (f : Nat → Nat) : Machine.empty.Moved f [] [] .empty :=
  ⟨rfl, rfl, [], rfl, rfl⟩

namespace Machine.Moved

variable {m m' : Machine}

theorem settle (h : m.Moved f before before' m') (due : Operator → Bool) :
    MovedRuns f before before' (m.settle due) (m'.settle due) := by
  rw [Machine.settle, Machine.settle, h.pending]
  exact movedRuns_settle due m.pending h.workings

theorem push (h : m.Moved f before before' m') (entry : Pending) :
    (m.push entry).Moved f before before' (m'.push (entry.move f)) :=
  ⟨congrArg (_ :: ·) h.pending, h.workings⟩

theorem push_operand (h : m.Moved f before before' m') (v : Int64) :
    Machine.Moved f before before' { m with workings := m.workings.push v }
      { m' with workings := m'.workings.push v } :=
  ⟨h.pending, congrArg (v :: ·) h.workings.operands, h.workings.applied⟩

theorem close (h : m.Moved f before before' m') (p : Nat) :
    MovedRuns f before before' (m.close p) (m'.close (f p)) := by
  obtain ⟨pending, w⟩ := m
  obtain ⟨_, w'⟩ := m'
  obtain ⟨rfl, h⟩ := h
  match pending with
  | [] | .operator _ _ :: _ => exact ⟨rfl, rfl, h⟩
  | .opening q :: rest => exact ⟨rfl, h⟩

theorem receive (h : m.Moved f before before' m') (t : PlacedToken) :
    MovedRuns f before before' (m.receive t) (m'.receive (t.move f)) := by
  obtain ⟨p, t⟩ := t
  cases t with
  | blank => exact h
  | numeral ds v => exact h.push_operand v
  | opening => exact h.push (.opening p)
  | operator op => exact h.push (.operator op p)
  | closing => exact h.close p

/-- Like machines take a token in a like way. -/
theorem step (h : m.Moved f before before' m') (t : PlacedToken) :
    MovedRuns f before before' (m.step t) (m'.step (t.move f)) := by
  rw [step_eq, step_eq]
  exact (h.settle t.token.releases).bind fun _ _ hm => hm.receive t

/-- Like machines take a row of tokens in a like way. -/
theorem steps (h : m.Moved f before before' m') (ts : List PlacedToken) :
    MovedRuns f before before' (m.steps ts) (m'.steps (ts.map (·.move f))) := by
  induction ts generalizing m m' with
  | nil => exact h
  | cons t ts ih =>
    rw [List.map_cons, steps_cons, steps_cons]
    exact (h.step t).bind fun _ _ hm => ih hm

theorem drain (h : m.Moved f before before' m') :
    MovedRuns f before before' m.drain m'.drain := by
  refine (h.settle fun _ => true).bind fun m m' hm => ?_
  obtain ⟨pending, w⟩ := m
  obtain ⟨_, w'⟩ := m'
  obtain ⟨rfl, hm⟩ := hm
  match pending with
  | [] | .operator _ _ :: _ => exact ⟨rfl, hm⟩
  | .opening q :: rest => exact ⟨rfl, rfl, hm⟩

/-- Like machines end in a like way. -/
theorem stop (h : m.Moved f before before' m') (fault? : Option EvaluationError) :
    Run.Moved f before before' (.ofEnding (m.stop fault?))
      (.ofEnding (m'.stop (fault?.map (·.move f)))) := by
  cases fault? with
  | some e => exact ⟨h, rfl⟩
  | none =>
    show Run.Moved f before before' (.ofEnding m.finish) (.ofEnding m'.finish)
    rw [finish_eq, finish_eq]
    have hdrain := h.drain
    match m.drain, m'.drain, hdrain with
    | .error halt, .error halt', ⟨he, hm⟩ => exact ⟨hm, congrArg Except.error he⟩
    | .ok m, .ok m', hm =>
      obtain ⟨pending, _, applied⟩ := m
      obtain ⟨pending', operands, applied'⟩ := m'
      obtain ⟨-, rfl, -⟩ := id hm
      match operands with
      | [] | [_] | _ :: _ :: _ => exact ⟨hm, rfl⟩

end Machine.Moved

/-- Like runs end in a like way. -/
theorem MovedRuns.ending {r r' : Except Halt Machine} (h : MovedRuns f before before' r r')
    (fault? : Option EvaluationError) :
    Run.Moved f before before' (.ofEnding (r.bind (·.stop fault?)))
      (.ofEnding (r'.bind (·.stop (fault?.map (·.move f))))) := by
  match r, r', h with
  | .ok m, .ok m', h => exact h.stop fault?
  | .error halt, .error halt', ⟨he, hm⟩ => exact ⟨hm, congrArg Except.error he⟩

/-- What is applied on the way is the same, at other positions, if nothing was applied before. -/
theorem Run.Moved.applications {r r' : Run} (h : r.Moved f [] [] r') :
    r'.applications = r.applications.map (·.move f) := by
  obtain ⟨since, hr, hr'⟩ := h.machine.workings.applied
  rw [Run.applications, Run.applications, hr, hr', List.append_nil, List.append_nil,
    List.map_reverse]

/-- Tokens that start further on are the tokens moved. -/
theorem Token.place_eq_map_move {start start' : Nat} {ts : List Token}
    (h : ∀ p, start ≤ p → f p = p + start' - start) :
    place start' ts = (place start ts).map (·.move f) := by
  have hplace (d : Nat) : place d ts = (place 0 ts).map fun p => { p with position := p.position + d } := by
    rw [← place_add, Nat.zero_add]
  rw [hplace start, hplace start', List.map_map]
  refine List.map_congr_left fun t _ => ?_
  simp only [Function.comp, PlacedToken.move, h _ (Nat.le_add_left _ _)]
  congr 1
  omega

end Abacus
