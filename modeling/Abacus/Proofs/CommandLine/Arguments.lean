import Abacus.CommandLine.Invocation
import Abacus.Expression.Machine

/-!
# Reading arguments

Arguments are read one after another (`Draft.takeOne`), until two dashes end the options. So
arguments without two dashes can be read in two parts (`Draft.takeAll_append`), and options before
two dashes settle everything but the expression (`AreOptions.ofArguments`).

Asking for more in the log changes nothing else that is read (`Draft.Regular`), wherever among the
options it is asked for (`ofArguments_insert_verbose`).
-/

namespace Abacus.CommandLine

namespace Draft

variable {d d' : Draft}

/-! ### One argument after another -/

/-- Reads an argument that does not end the options. -/
def takeOne (d : Draft) (argument : String) : Except Invocation Draft :=
  match argument.toList with
  | '-' :: '-' :: word => d.takeFlag? argument (Flag.ofWord? word)
  | '-' :: c :: cs => d.takeLetters argument (c :: cs)
  | _ => d.takeContents argument

/-- After two dashes no argument is an option. -/
theorem takeAll_dashes (d : Draft) (rest : List String) :
    d.takeAll ("--" :: rest) = d.takePlain rest := by
  have h : "--".toList = ['-', '-'] := by decide
  simp only [takeAll, h]

/-- Other arguments are read one after another. -/
theorem takeAll_cons (d : Draft) {argument : String} (h : argument ≠ "--") (rest : List String) :
    d.takeAll (argument :: rest) = (d.takeOne argument).bind (·.takeAll rest) := by
  have hdashes : argument.toList ≠ ['-', '-'] := by
    intro he
    exact h (String.toList_inj.1 (he.trans (by decide)))
  rw [takeAll]
  split
  · next he => exact absurd he hdashes
  · next word _ he => simp only [takeOne, he]
  · next c cs _ hc he => simp_all [takeOne]
  · next hword hletters => simp_all [takeOne]

/-- Where two dashes do not end the options, arguments can be read in two parts. -/
theorem takeAll_append (d : Draft) {before : List String} (h : "--" ∉ before)
    (after : List String) :
    d.takeAll (before ++ after) = (d.takeAll before).bind (·.takeAll after) := by
  induction before generalizing d with
  | nil => rfl
  | cons argument before ih =>
    rw [List.mem_cons, not_or] at h
    obtain ⟨hargument, hbefore⟩ := h
    rw [List.cons_append, takeAll_cons d (Ne.symm hargument), takeAll_cons d (Ne.symm hargument),
      bind_bind]
    exact congrArg _ (funext fun d' => ih d' hbefore)

/-! ### Asking for more in the log -/

/-- The draft with more in the log. -/
def loud (d : Draft) : Draft := { d with verbose := true }

/-- The reading ends early only without an evaluation, and it goes the same way when more in the log
has been asked for before, unless it asks for that itself. -/
structure Regular (take : Draft → Except Invocation Draft) : Prop where
  /-- The reading goes the same way. -/
  loud : ∀ d d', take d = .ok d' → d'.verbose = false →
    d.verbose = false ∧ take d.loud = .ok d'.loud
  /-- The reading ends early without an evaluation. -/
  refused : ∀ d i, take d = .error i → ∀ source verbose, i ≠ .evaluate source verbose

namespace Regular

theorem ok : Regular .ok where
  loud d d' h hv := by
    cases h
    exact ⟨hv, rfl⟩
  refused d i h := by cases h

theorem error {i : Invocation} (hi : ∀ source verbose, i ≠ .evaluate source verbose) :
    Regular fun _ => .error i where
  loud d d' h := by cases h
  refused d j h := by
    cases h
    exact hi

theorem bind {f g : Draft → Except Invocation Draft} (hf : Regular f) (hg : Regular g) :
    Regular fun d => (f d).bind g where
  loud d d' h hv := by
    obtain ⟨d₁, hd₁, hd'⟩ := bind_eq_ok.1 h
    obtain ⟨hv₁, hloud⟩ := hg.loud d₁ d' hd' hv
    obtain ⟨hv₀, hloud₁⟩ := hf.loud d d₁ hd₁ hv₁
    exact ⟨hv₀, bind_eq_ok.2 ⟨d₁.loud, hloud₁, hloud⟩⟩
  refused d i h := by
    cases hd : f d with
    | error j =>
      rw [hd] at h
      cases h
      exact hf.refused d i hd
    | ok d₁ =>
      rw [hd] at h
      exact hg.refused d₁ i h

theorem takeFlag (flag : Flag) : Regular (·.takeFlag flag) := by
  cases flag with
  | help | version => exact error fun _ _ h => by cases h
  | file =>
    constructor
    · rintro ⟨file, verbose, contents⟩ d' h hv
      cases file <;> cases h
      exact ⟨hv, rfl⟩
    · rintro ⟨file, verbose, contents⟩ i h source verbose' rfl
      cases file <;> cases h
  | verbose =>
    constructor
    · rintro ⟨file, verbose, contents⟩ d' h hv
      cases verbose <;> cases h
      cases hv
    · rintro ⟨file, verbose, contents⟩ i h source verbose' rfl
      cases verbose <;> cases h

theorem takeFlag? (argument : String) (flag? : Option Flag) :
    Regular (·.takeFlag? argument flag?) := by
  cases flag? with
  | none => exact error fun _ _ h => by cases h
  | some flag => exact takeFlag flag

theorem takeLetters (argument : String) (cs : List Char) :
    Regular (·.takeLetters argument cs) := by
  induction cs with
  | nil => exact ok
  | cons c cs ih => exact bind (takeFlag? argument (Flag.ofLetter? c)) ih

theorem takeContents (argument : String) : Regular (·.takeContents argument) := by
  constructor
  · rintro ⟨file, verbose, contents⟩ d' h hv
    cases contents <;> cases h
    exact ⟨hv, rfl⟩
  · rintro ⟨file, verbose, contents⟩ i h source verbose' rfl
    cases contents <;> cases h

theorem takePlain (arguments : List String) : Regular (·.takePlain arguments) := by
  induction arguments with
  | nil => exact ok
  | cons argument arguments ih => exact bind (takeContents argument) ih

theorem takeOne (argument : String) : Regular (·.takeOne argument) := by
  unfold Draft.takeOne
  split
  · exact takeFlag? argument _
  · exact takeLetters argument _
  · exact takeContents argument

/-- Reading arguments is regular. -/
theorem takeAll (arguments : List String) : Regular (·.takeAll arguments) := by
  induction arguments with
  | nil => exact ok
  | cons argument arguments ih =>
    by_cases h : argument = "--"
    · subst h
      simp only [takeAll_dashes]
      exact takePlain arguments
    · simp only [takeAll_cons _ h]
      exact bind (takeOne argument) ih

end Regular

/-- More in the log can be asked for once. -/
theorem takeOne_verbose (h : d.verbose = false) : d.takeOne "-v" = .ok d.loud := by
  have hv : "-v".toList = ['-', 'v'] := by decide
  simp only [takeOne, hv, takeLetters, Flag.ofLetter?, takeFlag?, takeFlag, h]
  rfl

/-- If more in the log is not asked for, it can be, and nothing else changes. -/
theorem takeAll_insert_verbose {before after : List String} (hbefore : "--" ∉ before)
    (h : d.takeAll (before ++ after) = .ok d') (hv : d'.verbose = false) :
    d.takeAll (before ++ "-v" :: after) = .ok d'.loud := by
  rw [takeAll_append d hbefore] at h ⊢
  obtain ⟨d₁, hd₁, hd'⟩ := bind_eq_ok.1 h
  obtain ⟨hv₁, hloud⟩ := (Regular.takeAll after).loud d₁ d' hd' hv
  refine bind_eq_ok.2 ⟨d₁, hd₁, ?_⟩
  rw [takeAll_cons d₁ (by decide), takeOne_verbose hv₁]
  exact hloud

end Draft

/-! ### What the arguments ask for -/

theorem Invocation.ofArguments_eq_evaluate_iff {arguments : List String} {source : Source}
    {verbose : Bool} :
    ofArguments arguments = .evaluate source verbose ↔
      ∃ d, Draft.empty.takeAll arguments = .ok d ∧ d.source = source ∧ d.verbose = verbose := by
  unfold ofArguments
  cases hd : Draft.empty.takeAll arguments with
  | ok d => simp
  | error i => simpa using (Draft.Regular.takeAll arguments).refused _ i hd source verbose

/-- With more in the log asked for among the options, the expression is the same. -/
theorem ofArguments_insert_verbose {before after : List String} {source : Source}
    (hbefore : "--" ∉ before)
    (h : Invocation.ofArguments (before ++ after) = .evaluate source false) :
    Invocation.ofArguments (before ++ "-v" :: after) = .evaluate source true := by
  obtain ⟨d, hd, rfl, hv⟩ := Invocation.ofArguments_eq_evaluate_iff.1 h
  rw [Invocation.ofArguments, Draft.takeAll_insert_verbose hbefore hd hv]
  rfl

/-- The arguments are options: they say whether the expression is in a file and whether the log is
to say more, and they are not yet the expression. -/
structure AreOptions (arguments : List String) (file verbose : Bool) : Prop where
  /-- Two dashes alone are not among them. -/
  dashless : "--" ∉ arguments
  /-- This is what the options say. -/
  takeAll : Draft.empty.takeAll arguments = .ok ⟨file, verbose, none⟩

/-- After options and two dashes comes the expression, or the path of its file. -/
theorem AreOptions.ofArguments {arguments : List String} {file verbose : Bool}
    (h : AreOptions arguments file verbose) (contents : String) :
    Invocation.ofArguments (arguments ++ ["--", contents]) =
      .evaluate (if file then .file contents else .text contents) verbose := by
  rw [Invocation.ofArguments, Draft.takeAll_append _ h.dashless, h.takeAll]
  show (match Draft.takeAll ⟨file, verbose, none⟩ ["--", contents] with | _ => _) = _
  rw [takeAll_plain rfl]
  rfl

end Abacus.CommandLine
