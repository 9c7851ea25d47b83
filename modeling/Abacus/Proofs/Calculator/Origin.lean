import Abacus.Proofs.Calculator.Scanning
import Abacus.Proofs.Calculator.Schedule

/-!
# Where faults come from

Whatever waits on the stack of a machine was read as a token, and a fault of the machine is about
a token that waits or is just read, except that of having not one operand at the end. So if all
tokens are of one kind, everything that waits is of that kind (`Machine.Holds`) and every fault
is about that kind (`EvaluationError.Blames`).

Taking a token and ending a run keep to the kind, and so does a whole run (`blames_of_run`).
-/

namespace Abacus

/-- The token that waits as the entry. -/
def Pending.token : Pending → PlacedToken
  | .opening p => ⟨p, .opening⟩
  | .operator op p => ⟨p, .operator op⟩

/-- Everything that waits on the stack is of the kind. -/
def Machine.Holds (kind : PlacedToken → Prop) (m : Machine) : Prop :=
  ∀ e ∈ m.pending, kind e.token

/-- The fault is one of the machine, it is about a token of the kind, and what it says of the
token holds. -/
def EvaluationError.Blames (kind : PlacedToken → Prop) : EvaluationError → Prop
  | .unbalancedBracket p => kind ⟨p, .opening⟩ ∨ kind ⟨p, .closing⟩
  | .missingOperand o p => ∃ op, kind ⟨p, .operator op⟩ ∧ op.symbol = o
  | .overflow o left right p =>
    ∃ op, kind ⟨p, .operator op⟩ ∧ op.symbol = o ∧ op.apply left right = none
  | .notOneValue count => count ≠ 1
  | .invalidNumeral _ _ | .unknownCharacter _ _ | .unwritable _ => False

/-- The run keeps to the kind: what waits is of the kind, or the fault is about it. -/
def Keeps (kind : PlacedToken → Prop) : Except Halt Machine → Prop
  | .ok m => m.Holds kind
  | .error halt => halt.error.Blames kind

variable {kind : PlacedToken → Prop}

theorem Keeps.bind {r : Except Halt Machine} {f : Machine → Except Halt Machine}
    (h : Keeps kind r) (hf : ∀ m, m.Holds kind → Keeps kind (f m)) : Keeps kind (r.bind f) := by
  cases r with
  | ok m => exact hf m h
  | error halt => exact h

theorem ScanFault.position?_error (p : Nat) (fault : ScanFault) :
    (fault.error p).position? = some p := by
  cases fault <;> rfl

/-- The position of a fault about a kind of tokens is that of a token of the kind. -/
theorem EvaluationError.Blames.position {e : EvaluationError} (h : e.Blames kind) :
    ∀ p ∈ e.position?, ∃ t, kind ⟨p, t⟩ := by
  intro p hp
  cases e with
  | unbalancedBracket q =>
    obtain rfl := Option.some.inj hp
    rcases h with h | h
    · exact ⟨_, h⟩
    · exact ⟨_, h⟩
  | missingOperand o q =>
    obtain rfl := Option.some.inj hp
    obtain ⟨op, h, -⟩ := h
    exact ⟨_, h⟩
  | overflow o left right q =>
    obtain rfl := Option.some.inj hp
    obtain ⟨op, h, -⟩ := h
    exact ⟨_, h⟩
  | notOneValue => cases hp
  | invalidNumeral | unknownCharacter | unwritable => exact absurd h id

theorem blames_of_apply {w : Workings} {op : Operator} {p : Nat} {e : EvaluationError}
    (h : w.apply op p = .error e) (hop : kind ⟨p, .operator op⟩) : e.Blames kind := by
  unfold Workings.apply at h
  split at h
  · split at h
    · cases h
    · next hv =>
      cases h
      exact ⟨op, hop, rfl, hv⟩
  · cases h
    exact ⟨op, hop, rfl⟩

theorem keeps_settle (due : Operator → Bool) {pending : List Pending} (w : Workings)
    (h : ∀ e ∈ pending, kind e.token) : Keeps kind (settle due pending w) := by
  induction pending generalizing w with
  | nil => exact h
  | cons e pending ih =>
    cases e with
    | opening p => exact h
    | operator op p =>
      rw [settle]
      split
      · cases hw : w.apply op p with
        | ok w' => exact ih w' fun e he => h e (List.mem_cons_of_mem _ he)
        | error e => exact blames_of_apply hw (h _ List.mem_cons_self)
      · exact h

namespace Machine

variable {m : Machine}

/-- Nothing waits at the start. -/
theorem holds_empty (kind : PlacedToken → Prop) : Machine.empty.Holds kind :=
  fun _ he => absurd he List.not_mem_nil

theorem keeps_close (h : m.Holds kind) {p : Nat} (hp : kind ⟨p, .closing⟩) :
    Keeps kind (m.close p) := by
  unfold close
  split
  · next q rest hpending =>
    intro e he
    exact h e (hpending ▸ List.mem_cons_of_mem _ he)
  · exact .inr hp

theorem holds_push (h : m.Holds kind) {entry : Pending} (he : kind entry.token) :
    (m.push entry).Holds kind := by
  intro e hmem
  rcases List.mem_cons.1 hmem with rfl | hmem
  · exact he
  · exact h e hmem

theorem keeps_receive (h : m.Holds kind) {t : PlacedToken} (ht : kind t) :
    Keeps kind (m.receive t) := by
  obtain ⟨p, t⟩ := t
  cases t with
  | blank | numeral => exact h
  | opening | operator => exact holds_push h ht
  | closing => exact keeps_close h ht

/-- Taking a token of the kind keeps to the kind. -/
theorem keeps_step (h : m.Holds kind) {t : PlacedToken} (ht : kind t) :
    Keeps kind (m.step t) := by
  rw [step_eq]
  exact (keeps_settle _ _ h).bind fun m' hm' => keeps_receive hm' ht

/-- Taking tokens of the kind keeps to the kind. -/
theorem keeps_steps (h : m.Holds kind) {ts : List PlacedToken} (hts : ∀ t ∈ ts, kind t) :
    Keeps kind (m.steps ts) := by
  induction ts generalizing m with
  | nil => exact h
  | cons t ts ih =>
    rw [steps_cons]
    exact (keeps_step h (hts t List.mem_cons_self)).bind fun m' hm' =>
      ih hm' fun u hu => hts u (List.mem_cons_of_mem t hu)

theorem keeps_drain (h : m.Holds kind) : Keeps kind m.drain := by
  refine (keeps_settle _ _ h).bind fun m' hm' => ?_
  split
  · next p rest hpending => exact .inl (hm' (.opening p) (hpending ▸ List.mem_cons_self))
  · exact hm'

/-- A run that ends with a fault ends with one about the kind, or for having not one operand. -/
theorem blames_of_finish (h : m.Holds kind) {halt : Halt} (hm : m.finish = .error halt) :
    halt.error.Blames kind := by
  have hdrain := keeps_drain h
  rw [finish_eq] at hm
  cases hr : m.drain with
  | error halt' =>
    rw [hr] at hm hdrain
    cases hm
    exact hdrain
  | ok m' =>
    rw [hr] at hm
    obtain ⟨pending, operands, applied⟩ := m'
    match operands, hm with
    | [], hm =>
      cases hm
      exact Nat.zero_ne_one
    | a :: b :: operands, hm =>
      cases hm
      exact fun hlen => absurd (Nat.succ.inj hlen) (Nat.succ_ne_zero _)

/-- A run over tokens of the kind has a fault about the kind, if it does not come to the fault
that the text goes on with. -/
theorem blames_of_run (h : m.Holds kind) {ts : List PlacedToken} (hts : ∀ t ∈ ts, kind t)
    {fault? : Option EvaluationError} {halt : Halt}
    (hm : (m.steps ts).bind (·.stop fault?) = .error halt) :
    fault? = some halt.error ∨ halt.error.Blames kind := by
  have hsteps := keeps_steps h hts
  cases hr : m.steps ts with
  | error halt' =>
    rw [hr] at hm hsteps
    cases hm
    exact .inr hsteps
  | ok m' =>
    rw [hr] at hm hsteps
    cases fault? with
    | some e =>
      cases hm
      exact .inl rfl
    | none => exact .inr (blames_of_finish hsteps hm)

end Machine

/-- If nothing came of a run, it halted. -/
theorem outcome_eq_error {r : Except Halt (Machine × Int64)} {e : EvaluationError}
    (h : (Run.ofEnding r).outcome = .error e) : ∃ halt, r = .error halt ∧ halt.error = e := by
  match r, h with
  | .error halt, h => exact ⟨halt, rfl, Except.error.inj h⟩

namespace Calculator

/-- If a text has no value, the scan ends in the fault, or the fault is about a token. -/
theorem error_cases {c : Calculator} {cs : List Char} {e : EvaluationError}
    (h : (c.compute cs).outcome = .error e) :
    c.faultOf cs = some e ∨ e.Blames (· ∈ Token.place 0 (c.scan cs).tokens) := by
  rw [compute_eq] at h
  obtain ⟨halt, hr, rfl⟩ := outcome_eq_error h
  exact Machine.blames_of_run (Machine.holds_empty _) (fun t ht => ht) hr

end Calculator

end Abacus
