import Abacus.Proofs.CommandLine.Arguments
import Abacus.Proofs.Log.Lines

/-!
# Ways to ask

Where the expression comes from and how much the log is to say change nothing in the answer
(`run_modes`): what is in a file is answered as what is given as an argument, and the exit code and
the text do not depend on the level of the log, nor do the messages that follow its lines.

The answer depends on the source only by the expression that it gives (`respond_of_gives`), and on
the level only by the lines of the log that stand in front (`answer_eq_quiet`).
-/

namespace Abacus.CommandLine

variable {contentOf : String → Option String} {s : Source} {expression : String}

/-! ### What a source gives -/

/-- The source gives the expression: the sample, the argument, or the text in the file. -/
inductive Source.Gives (contentOf : String → Option String) : Source → String → Prop where
  /-- No expression is given. -/
  | sample : Gives contentOf .sample "(MMMDCCXXIV - MMCCXXIX) * II"
  /-- The expression is the argument. -/
  | text (expression : String) : Gives contentOf (.text expression) expression
  /-- The expression is in the file. -/
  | file {path text : String} : contentOf path = some text → Gives contentOf (.file path) text

/-- A source gives an expression, or it is a file that cannot be read. -/
theorem Source.gives_or_unreadable (contentOf : String → Option String) (s : Source) :
    (∃ expression, s.Gives contentOf expression) ∨
      ∃ path, s = .file path ∧ contentOf path = none := by
  cases s with
  | sample => exact .inl ⟨_, .sample⟩
  | text expression => exact .inl ⟨_, .text expression⟩
  | file path =>
    cases h : contentOf path with
    | some text => exact .inl ⟨text, .file h⟩
    | none => exact .inr ⟨path, rfl, h⟩

/-- A source gives no expression but the one that is read. -/
theorem Source.Gives.expression_eq (h : s.Gives contentOf expression) :
    s.expression contentOf = .ok expression := by
  cases h with
  | sample => rfl
  | text => rfl
  | file h => simp only [Source.expression, h]

theorem Source.Gives.unique {expression' : String} (h : s.Gives contentOf expression)
    (h' : s.Gives contentOf expression') : expression = expression' :=
  Except.ok.inj (h.expression_eq.symm.trans h'.expression_eq)

/-! ### The answer -/

/-- The level asked for counts, and without one what the user wants. -/
theorem logLevel_eq (asked : Option LogLevel) (verbose : Bool) :
    logLevel asked verbose =
      match asked with
      | some level => level
      | none => if verbose then .debug else .warn := by
  cases asked <;> rfl

theorem run_of_ofArguments {arguments : List String} {i : Invocation}
    (h : Invocation.ofArguments arguments = i) (asked : Option LogLevel) :
    run asked contentOf arguments = respond asked contentOf i := by
  rw [run, h]

/-- The answer depends on the source only by its expression. -/
theorem respond_of_gives (h : s.Gives contentOf expression) (asked : Option LogLevel)
    (verbose : Bool) :
    respond asked contentOf (.evaluate s verbose) =
      answer (logLevel asked verbose) expression := by
  rw [respond, h.expression_eq]

/-- Of a file that cannot be read the user is told. -/
theorem respond_of_unreadable {path : String} (h : contentOf path = none)
    (asked : Option LogLevel) (verbose : Bool) :
    respond asked contentOf (.evaluate (.file path) verbose) =
      ⟨1, "", ["Failed to read the input file '" ++ path ++
        "'. Perhaps this file does not exist?"]⟩ := by
  have hpath : (Source.file path).expression contentOf = .error (unreadable path) := by
    simp only [Source.expression, h]
  simp only [respond, hpath]
  rfl

/-- What the log at the level tells of the evaluation of the expression. -/
def logOf (threshold : LogLevel) (expression : String) : List String :=
  (Calculator.roman.value expression).events.filterMap (Event.told threshold)

theorem logOf_off (expression : String) : logOf .off expression = [] :=
  List.filterMap_eq_nil_iff.2 fun e _ => e.told_off

/-- The answer to an expression: the lines of the log, and what comes of the expression. -/
theorem answer_eq (threshold : LogLevel) (expression : String) :
    answer threshold expression =
      match (Abacus.evaluate expression).outcome with
      | .ok numeral => ⟨0, numeral.text ++ "\n", logOf threshold expression⟩
      | .error e => ⟨1, "", logOf threshold expression ++ [e.message]⟩ := by
  rw [answer, logLines_eq]
  rfl

/-- The answer is the one that is given without a log, after the lines of the log. -/
theorem answer_eq_quiet (threshold : LogLevel) (expression : String) :
    answer threshold expression =
      ⟨(answer .off expression).code, (answer .off expression).stdout,
        logOf threshold expression ++ (answer .off expression).stderr⟩ := by
  simp only [answer_eq, logOf_off]
  cases (Abacus.evaluate expression).outcome with
  | ok numeral => rw [List.append_nil]
  | error e => rfl

/-- The lines on standard error are those of the log, and then those of the other messages. -/
theorem errorLines_answer (threshold : LogLevel) (expression : String) :
    (answer threshold expression).errorLines =
      logOf threshold expression ++ (answer .off expression).errorLines := by
  have htidy : ∀ e ∈ (Calculator.roman.value expression).events, e.Tidy :=
    fun e he => Calculator.tidy_of_mem_events he
  have hlines := lines_logLines threshold htidy
  rw [logLines_eq] at hlines
  rw [answer_eq_quiet, Response.errorLines, List.flatMap_append, logOf, hlines]
  rfl

/-- The exit code and the text tell whether there is a numeral, and without a log only a fault is
told of. -/
theorem answer_of_outcome (threshold : LogLevel) (expression : String) :
    match (Abacus.evaluate expression).outcome with
    | .ok numeral =>
      (answer threshold expression).code = 0 ∧
        (answer threshold expression).stdout = numeral.text ++ "\n" ∧
        (answer .off expression).stderr = []
    | .error e =>
      (answer threshold expression).code = 1 ∧ (answer threshold expression).stdout = "" ∧
        (answer .off expression).stderr = [e.message] := by
  simp only [answer_eq, logOf_off]
  cases (Abacus.evaluate expression).outcome with
  | ok numeral => exact ⟨rfl, rfl, rfl⟩
  | error e => exact ⟨rfl, rfl, rfl⟩

/-- The exit code is zero exactly if there is a numeral. -/
theorem answer_code_eq_zero_iff (threshold : LogLevel) (expression : String) :
    (answer threshold expression).code = 0 ↔
      ∃ numeral, (Abacus.evaluate expression).outcome = .ok numeral := by
  rw [answer_eq]
  cases (Abacus.evaluate expression).outcome with
  | ok numeral => exact ⟨fun _ => ⟨numeral, rfl⟩, fun _ => rfl⟩
  | error e =>
    constructor
    · intro h
      cases h
    · rintro ⟨numeral, hnumeral⟩
      cases hnumeral

/-- **The answer does not depend on how it is asked for.** A text in a file is answered as the text
given as the argument. For all arguments that ask for an expression, the exit code and the text are
those without a log. On standard error come the lines that tell of the evaluation at the level asked
for, or else at `debug` if the user wants more and at `warn` if not, and then what comes without a
log. The exit code is zero exactly if there is a numeral, which is the text then; else it is one,
there is no text, and the message comes last, which is all there is if the file cannot be read.
Asking for more in the log changes neither the expression nor the exit code nor the text. -/
theorem run_modes (contentOf : String → Option String) :
    (∀ asked before before' verbose path text, AreOptions before true verbose →
      AreOptions before' false verbose → contentOf path = some text →
      run asked contentOf (before ++ ["--", path]) =
        run asked contentOf (before' ++ ["--", text])) ∧
    (∀ asked arguments source verbose,
      Invocation.ofArguments arguments = .evaluate source verbose →
      let r := run asked contentOf arguments
      let quiet := run (some .off) contentOf arguments
      let threshold : LogLevel :=
        match asked with
        | some level => level
        | none => if verbose then .debug else .warn
      (r.code = quiet.code ∧ r.stdout = quiet.stdout) ∧
      (r.code = 0 ↔ ∃ expression numeral, source.Gives contentOf expression ∧
        (Abacus.evaluate expression).outcome = .ok numeral) ∧
      ((∃ expression, source.Gives contentOf expression ∧
          let log := (Calculator.roman.value expression).events.filterMap (Event.told threshold)
          r.stderr = log ++ quiet.stderr ∧ r.errorLines = log ++ quiet.errorLines ∧
          match (Abacus.evaluate expression).outcome with
          | .ok numeral => r.code = 0 ∧ r.stdout = numeral.text ++ "\n" ∧ quiet.stderr = []
          | .error e => r.code = 1 ∧ r.stdout = "" ∧ quiet.stderr = [e.message]) ∨
        ∃ path, source = .file path ∧ contentOf path = none ∧ r = quiet ∧
          r.code = 1 ∧ r.stdout = "" ∧
          r.stderr = ["Failed to read the input file '" ++ path ++
            "'. Perhaps this file does not exist?"])) ∧
    ∀ asked asked' before after source, "--" ∉ before →
      Invocation.ofArguments (before ++ after) = .evaluate source false →
      let r := run asked contentOf (before ++ after)
      let r' := run asked' contentOf (before ++ "-v" :: after)
      Invocation.ofArguments (before ++ "-v" :: after) = .evaluate source true ∧
        r'.code = r.code ∧ r'.stdout = r.stdout := by
  refine ⟨fun asked before before' verbose path text hb hb' hp => ?_,
    fun asked arguments source verbose h => ?_,
    fun asked asked' before after source hbefore h => ?_⟩
  · have hfile := respond_of_gives (.file hp) asked verbose
    have htext : respond asked contentOf (.evaluate (.text text) verbose) = _ :=
      respond_of_gives (.text text) asked verbose
    rw [run_of_ofArguments (hb.ofArguments path), run_of_ofArguments (hb'.ofArguments text)]
    exact hfile.trans htext.symm
  · simp only [run_of_ofArguments h, ← logLevel_eq]
    rcases source.gives_or_unreadable contentOf with ⟨expression, hgives⟩ | ⟨path, rfl, hpath⟩
    · have hquiet : logLevel (some .off) verbose = .off := rfl
      rw [respond_of_gives hgives, respond_of_gives hgives, hquiet]
      refine ⟨?_, ?_, .inl ⟨expression, hgives, ?_, errorLines_answer _ _, answer_of_outcome _ _⟩⟩
      · rw [answer_eq_quiet]
        exact ⟨rfl, rfl⟩
      · rw [answer_code_eq_zero_iff]
        constructor
        · rintro ⟨numeral, hnumeral⟩
          exact ⟨expression, numeral, hgives, hnumeral⟩
        · rintro ⟨expression', numeral, hgives', hnumeral⟩
          obtain rfl := hgives.unique hgives'
          exact ⟨numeral, hnumeral⟩
      · rw [answer_eq_quiet]
        rfl
    · rw [respond_of_unreadable hpath, respond_of_unreadable hpath]
      refine ⟨⟨rfl, rfl⟩, ⟨?_, ?_⟩, .inr ⟨path, rfl, hpath, rfl, rfl, rfl, rfl⟩⟩
      · intro hcode
        cases hcode
      · rintro ⟨expression, numeral, hgives, -⟩
        cases hgives with
        | file hp =>
          rw [hp] at hpath
          cases hpath
  · have hverbose := ofArguments_insert_verbose hbefore h
    simp only [run_of_ofArguments h, run_of_ofArguments hverbose]
    refine ⟨hverbose, ?_⟩
    rcases source.gives_or_unreadable contentOf with ⟨expression, hgives⟩ | ⟨path, rfl, hpath⟩
    · rw [respond_of_gives hgives, respond_of_gives hgives, answer_eq_quiet,
        answer_eq_quiet (logLevel asked false)]
      exact ⟨rfl, rfl⟩
    · rw [respond_of_unreadable hpath, respond_of_unreadable hpath]
      exact ⟨rfl, rfl⟩

/-- The sum in a file is answered as the sum given as an argument, with `III` and no fault, and the
line feed in it is written by letters in the log. A fault comes after what was told before it, or
alone if the log has nothing to say. Of a file that cannot be read the user is told. -/
theorem run_modes_sum :
    let contentOf : String → Option String := fun path =>
      if path = "sum.txt" then some "I +\nII" else none
    run (some .trace) contentOf ["-vf", "--", "sum.txt"] =
        run (some .trace) contentOf ["-v", "--", "I +\nII"] ∧
      ((run none contentOf ["-v", "--", "I +\nII"]).code = 0 ∧
        (run none contentOf ["-v", "--", "I +\nII"]).stdout = "III\n" ∧
        (run none contentOf ["-v", "--", "I +\nII"]).stderr =
          ["DEBUG roman_calc::calculator::evaluator: " ++
            "evaluating expression expression=\"I +\\nII\""]) ∧
      ((run (some .trace) contentOf ["I + II)"]).code = 1 ∧
        (run (some .trace) contentOf ["I + II)"]).stdout = "" ∧
        (run (some .trace) contentOf ["I + II)"]).stderr =
          ["DEBUG roman_calc::calculator::evaluator: " ++
              "evaluating expression expression=\"I + II)\"",
            "TRACE roman_calc::calculator::evaluator: " ++
              "applied operator operator=+ left=1 right=2 result=3",
            "Error at 6: Expression has an unbalanced bracket."]) ∧
      (run none contentOf ["I + II)"]).stderr =
        ["Error at 6: Expression has an unbalanced bracket."] ∧
      (run none contentOf ["-v", "I + II)"]).code = (run none contentOf ["I + II)"]).code ∧
      (run none contentOf ["-f", "product.txt"]).stderr =
        ["Failed to read the input file 'product.txt'. Perhaps this file does not exist?"] := by
  intro contentOf
  have hscan : Calculator.roman.scan "I +\nII".toList =
      ⟨[.numeral ['I'] 1, .blank ' ', .operator .add, .blank '\n', .numeral ['I', 'I'] 2],
        none⟩ := by
    cbv
  have hscan' : Calculator.roman.scan "I + II)".toList =
      ⟨[.numeral ['I'] 1, .blank ' ', .operator .add, .blank ' ', .numeral ['I', 'I'] 2, .closing],
        none⟩ := by
    cbv
  have hsum : Calculator.roman.value "I +\nII" =
      ⟨[.evaluating "I +\nII", .applied ⟨'+', 2, 1, 2, 3⟩], .ok 3⟩ :=
    Calculator.value_of_scan hscan
  have hopen : Calculator.roman.value "I + II)" =
      ⟨[.evaluating "I + II)", .applied ⟨'+', 2, 1, 2, 3⟩], .error (.unbalancedBracket 6)⟩ :=
    Calculator.value_of_scan hscan'
  have hnumeral : (Abacus.evaluate "I +\nII").outcome = .ok ⟨"III", 3⟩ := by
    show (Calculator.roman.value "I +\nII").outcome.bind _ = _
    rw [hsum]
    decide
  have hfault : (Abacus.evaluate "I + II)").outcome = .error (.unbalancedBracket 6) := by
    show (Calculator.roman.value "I + II)").outcome.bind _ = _
    rw [hopen]
    rfl
  have hoptions : AreOptions ["-vf"] true true := ⟨by decide, by decide⟩
  have hoptions' : AreOptions ["-v"] false true := ⟨by decide, by decide⟩
  have htext : Invocation.ofArguments ["-v", "--", "I +\nII"] =
      .evaluate (.text "I +\nII") true := by
    decide
  have htext' : Invocation.ofArguments ["I + II)"] = .evaluate (.text "I + II)") false := by decide
  have hfile : Invocation.ofArguments ["-f", "product.txt"] =
      .evaluate (.file "product.txt") false := by
    decide
  obtain ⟨hmodes, hanswer, hverbose⟩ := run_modes contentOf
  obtain ⟨-, -, ⟨_, ⟨⟩, hlogSum, -, hok⟩ | ⟨_, ⟨⟩, -⟩⟩ := hanswer none _ _ _ htext
  obtain ⟨-, -, ⟨_, ⟨⟩, hlogTrace, -, htrace⟩ | ⟨_, ⟨⟩, -⟩⟩ := hanswer (some .trace) _ _ _ htext'
  obtain ⟨-, -, ⟨_, ⟨⟩, hlogWarn, -, hwarn⟩ | ⟨_, ⟨⟩, -⟩⟩ := hanswer none _ _ _ htext'
  obtain ⟨-, -, ⟨_, hgives, -⟩ | ⟨_, ⟨⟩, -, -, -, -, hunread⟩⟩ := hanswer none _ _ _ hfile
  · cases hgives with
    | file hread => cases hread
  obtain ⟨-, hcode, -⟩ := hverbose none none [] ["I + II)"] _ (by decide) htext'
  rw [hnumeral] at hok
  rw [hfault] at htrace hwarn
  obtain ⟨hcodeSum, houtSum, hquietSum⟩ := hok
  obtain ⟨hcodeTrace, houtTrace, hquietTrace⟩ := htrace
  obtain ⟨-, -, hquietWarn⟩ := hwarn
  rw [hsum, hquietSum] at hlogSum
  rw [hopen, hquietTrace] at hlogTrace
  rw [hopen, hquietWarn] at hlogWarn
  exact ⟨hmodes (some .trace) _ _ _ _ _ hoptions hoptions' rfl,
    ⟨hcodeSum, houtSum, hlogSum.trans (by decide +kernel)⟩,
    ⟨hcodeTrace, houtTrace, hlogTrace.trans (by decide +kernel)⟩,
    hlogWarn.trans (by decide +kernel), hcode, hunread⟩

end Abacus.CommandLine
