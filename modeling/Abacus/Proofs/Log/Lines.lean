import Abacus.CommandLine.Response
import Abacus.Proofs.Calculator.Diagnostics
import Abacus.Proofs.Calculator.Forest

/-!
# Lines of the log

What a log at a level tells of an event is written out in `Event.told`, the levels that tell it and
the whole line, and it is what the log has (`CommandLine.logLines_eq`).

Every event is told on one line (`CommandLine.lines_logLines`), whatever the expression: in a
quoted text line feeds and carriage returns are written by letters, a value is written with
digits, and the symbol of an operator that was applied is that of an operator of the table, which
is no blank (`Calculator.tidy_of_mem_events`).
-/

namespace Abacus

namespace Text

/-! ### Texts on one line -/

/-- The text has neither a line feed nor a carriage return. -/
def OneLine (cs : List Char) : Prop := ∀ ch ∈ cs, ch ≠ '\n' ∧ ch ≠ '\r'

instance (cs : List Char) : Decidable (OneLine cs) :=
  List.decidableBAll (fun ch => ch ≠ '\n' ∧ ch ≠ '\r') cs

namespace OneLine

variable {cs ds : List Char}

theorem append (hcs : OneLine cs) (hds : OneLine ds) : OneLine (cs ++ ds) := by
  intro ch hch
  rcases List.mem_append.1 hch with hch | hch
  · exact hcs ch hch
  · exact hds ch hch

theorem flatMap {f : Char → List Char} (hf : ∀ ch, OneLine (f ch)) (cs : List Char) :
    OneLine (cs.flatMap f) := by
  intro ch hch
  obtain ⟨d, -, hd⟩ := List.mem_flatMap.1 hch
  exact hf d ch hd

theorem intercalate {sep : List Char} (hsep : OneLine sep) {ls : List (List Char)}
    (hls : ∀ l ∈ ls, OneLine l) : OneLine (sep.intercalate ls) := by
  match ls with
  | [] => exact fun ch hch => absurd hch List.not_mem_nil
  | [l] => simpa using hls l List.mem_cons_self
  | l :: l' :: ls =>
    rw [List.intercalate_cons_cons]
    exact ((hls l List.mem_cons_self).append hsep).append
      (intercalate hsep fun k hk => hls k (List.mem_cons_of_mem l hk))

end OneLine

/-- With a line feed at its end, such a text is one line. -/
theorem linesOf_append_feed {cs : List Char} (h : OneLine cs) : linesOf (cs ++ ['\n']) = [cs] := by
  induction cs with
  | nil => rfl
  | cons ch cs ih =>
    obtain ⟨hfeed, hreturn⟩ := h ch List.mem_cons_self
    have hcs := ih fun d hd => h d (List.mem_cons_of_mem ch hd)
    simp [linesOf, hreturn, hcs]

theorem lines_append_feed {s : String} (h : OneLine s.toList) : lines (s ++ "\n") = [s] := by
  have hfeed : "\n".toList = ['\n'] := by decide
  rw [lines, String.toList_append, hfeed, linesOf_append_feed h, List.map_singleton,
    String.ofList_toList]

/-! ### What a line is made of -/

theorem oneLine_toDigits {base : Nat} (hbase : 1 < base) (hle : base ≤ 16) (n : Nat) :
    OneLine (Nat.toDigits base n) := by
  have hdigit : ∀ k < 16, OneLine [Nat.digitChar k] := by decide
  induction n using Nat.strongRecOn with
  | _ n ih =>
    rw [Nat.toDigits_eq_if hbase]
    split
    · next hn => exact hdigit n (by omega)
    · next hn =>
      have hmod : n % base < base := Nat.mod_lt _ (by omega)
      exact (ih (n / base) (Nat.div_lt_self (by omega) hbase)).append (hdigit _ (by omega))

theorem oneLine_decimal (value : Int64) : OneLine (decimal value).toList := by
  rw [decimal, Int.toString_eq_repr]
  cases value.toInt with
  | ofNat n =>
    show OneLine n.repr.toList
    rw [Nat.toList_repr]
    exact oneLine_toDigits (by decide) (by decide) n
  | negSucc n =>
    show OneLine ("-" ++ n.succ.repr).toList
    rw [String.toList_append, Nat.toList_repr]
    exact OneLine.append (by decide) (oneLine_toDigits (by decide) (by decide) _)

theorem oneLine_escape (c : Char) : OneLine (escape c) := by
  unfold escape
  split
  · decide
  · decide
  · decide
  · decide
  · decide
  · decide
  next hfeed hreturn _ _ =>
  split
  · have hdigits : OneLine (Nat.toDigits 16 c.toNat) := oneLine_toDigits (by decide) (by decide) _
    exact (OneLine.append (by decide) hdigits).append (by decide)
  · simpa [OneLine] using ⟨hfeed, hreturn⟩

theorem oneLine_quoted (text : String) : OneLine (quoted text).toList := by
  have hquote : OneLine ['"'] := by decide
  rw [quoted, String.toList_ofList]
  exact (hquote.append (.flatMap oneLine_escape text.toList)).append hquote

end Text

open Text (OneLine)

/-! ### What is told of an event -/

namespace LogLevel

theorem shows_debug_iff (threshold : LogLevel) :
    threshold.shows .debug = true ↔ threshold = .debug ∨ threshold = .trace := by
  cases threshold <;> decide

theorem shows_trace_iff (threshold : LogLevel) :
    threshold.shows .trace = true ↔ threshold = .trace := by
  cases threshold <;> decide

end LogLevel

namespace Event

/-- What a log at the level tells of the event, if it does: that an expression is taken up, and
that it has a numeral, at the levels `debug` and `trace`, and an application at the level `trace`
only. -/
def told (threshold : LogLevel) : Event → Option String
  | evaluating expression =>
    if threshold = .debug ∨ threshold = .trace then
      some ("DEBUG roman_calc::calculator::evaluator: evaluating expression expression=" ++
        Text.quoted expression)
    else none
  | applied a =>
    if threshold = .trace then
      some ("TRACE roman_calc::calculator::evaluator: applied operator operator=" ++
        String.singleton a.symbol ++ " left=" ++ toString a.left.toInt ++
        " right=" ++ toString a.right.toInt ++ " result=" ++ toString a.result.toInt)
    else none
  | evaluated expression value numeral =>
    if threshold = .debug ∨ threshold = .trace then
      some ("DEBUG roman_calc::calculator::evaluator: evaluated expression expression=" ++
        Text.quoted expression ++ " value=" ++ toString value.toInt ++ " numeral=" ++ numeral)
    else none

theorem told_off (e : Event) : e.told .off = none := by
  cases e <;> rfl

theorem line_evaluating (expression : String) :
    (evaluating expression).line =
      "DEBUG roman_calc::calculator::evaluator: evaluating expression expression=" ++
        Text.quoted expression := by
  have hfront : "DEBUG roman_calc::calculator::evaluator: evaluating expression expression=" =
      "DEBUG" ++ " " ++ source ++ ": " ++ "evaluating expression" ++ " " ++ "expression" ++ "=" :=
    rfl
  simp only [hfront, line, level, LogLevel.name, title, fields, List.map_cons, List.map_nil,
    String.intercalate_cons_cons, String.intercalate_singleton, String.append_assoc]

theorem line_applied (a : Application) :
    (applied a).line =
      "TRACE roman_calc::calculator::evaluator: applied operator operator=" ++
        String.singleton a.symbol ++ " left=" ++ toString a.left.toInt ++
        " right=" ++ toString a.right.toInt ++ " result=" ++ toString a.result.toInt := by
  have hfront : "TRACE roman_calc::calculator::evaluator: applied operator operator=" =
      "TRACE" ++ " " ++ source ++ ": " ++ "applied operator" ++ " " ++ "operator" ++ "=" := rfl
  have hleft : " left=" = " " ++ "left" ++ "=" := rfl
  have hright : " right=" = " " ++ "right" ++ "=" := rfl
  have hresult : " result=" = " " ++ "result" ++ "=" := rfl
  simp only [hfront, hleft, hright, hresult, line, level, LogLevel.name, title, fields,
    List.map_cons, List.map_nil, String.intercalate_cons_cons, String.intercalate_singleton,
    String.append_assoc, Text.decimal, Char.toString_eq_singleton]

theorem line_evaluated (expression : String) (value : Int64) (numeral : String) :
    (evaluated expression value numeral).line =
      "DEBUG roman_calc::calculator::evaluator: evaluated expression expression=" ++
        Text.quoted expression ++ " value=" ++ toString value.toInt ++ " numeral=" ++ numeral := by
  have hfront : "DEBUG roman_calc::calculator::evaluator: evaluated expression expression=" =
      "DEBUG" ++ " " ++ source ++ ": " ++ "evaluated expression" ++ " " ++ "expression" ++ "=" :=
    rfl
  have hvalue : " value=" = " " ++ "value" ++ "=" := rfl
  have hnumeral : " numeral=" = " " ++ "numeral" ++ "=" := rfl
  simp only [hfront, hvalue, hnumeral, line, level, LogLevel.name, title, fields, List.map_cons,
    List.map_nil, String.intercalate_cons_cons, String.intercalate_singleton, String.append_assoc,
    Text.decimal]

/-- An event is told by its line when the log says what is as urgent as it is. -/
theorem told_eq (threshold : LogLevel) (e : Event) :
    e.told threshold = if threshold.shows e.level then some e.line else none := by
  cases e with
  | evaluating expression =>
    simp only [told, level, line_evaluating, LogLevel.shows_debug_iff]
  | applied a =>
    simp only [told, level, line_applied, LogLevel.shows_trace_iff]
  | evaluated expression value numeral =>
    simp only [told, level, line_evaluated, LogLevel.shows_debug_iff]

/-! ### Events on lines -/

/-- What the event tells as it is can stand on a line. -/
def Tidy : Event → Prop
  | evaluating _ => True
  | applied a => OneLine [a.symbol]
  | evaluated _ _ numeral => OneLine numeral.toList

/-- What an event is about is told on one line. -/
theorem Tidy.fields {e : Event} (h : e.Tidy) :
    ∀ field ∈ e.fields, OneLine field.1.toList ∧ OneLine field.2.toList := by
  cases e with
  | evaluating expression =>
    simp only [Event.fields, List.forall_mem_singleton]
    exact ⟨by decide, Text.oneLine_quoted _⟩
  | applied a =>
    have hsymbol : OneLine a.symbol.toString.toList := by
      rw [Char.toString_eq_singleton, String.toList_singleton]
      exact h
    simp only [Event.fields, List.forall_mem_cons]
    exact ⟨⟨by decide, hsymbol⟩, ⟨by decide, Text.oneLine_decimal _⟩,
      ⟨by decide, Text.oneLine_decimal _⟩, ⟨by decide, Text.oneLine_decimal _⟩,
      fun field hfield => absurd hfield List.not_mem_nil⟩
  | evaluated expression value numeral =>
    simp only [Event.fields, List.forall_mem_cons]
    exact ⟨⟨by decide, Text.oneLine_quoted _⟩, ⟨by decide, Text.oneLine_decimal _⟩,
      ⟨by decide, h⟩, fun field hfield => absurd hfield List.not_mem_nil⟩

/-- An event is told on one line. -/
theorem Tidy.line {e : Event} (h : e.Tidy) : OneLine e.line.toList := by
  have hname (level : LogLevel) : OneLine level.name.toList := by cases level <;> decide
  have htitle : OneLine e.title.toList := by
    cases e with
    | evaluating => exact (by decide : OneLine "evaluating expression".toList)
    | applied => exact (by decide : OneLine "applied operator".toList)
    | evaluated => exact (by decide : OneLine "evaluated expression".toList)
  simp only [Event.line, String.toList_append, String.toList_intercalate]
  refine (((((hname _).append (by decide)).append (by decide)).append (by decide)).append ?_)
  refine OneLine.intercalate (by decide) fun l hl => ?_
  obtain ⟨s, hs, rfl⟩ := List.mem_map.1 hl
  rcases List.mem_cons.1 hs with rfl | hs
  · exact htitle
  · obtain ⟨⟨name, value⟩, hfield, rfl⟩ := List.mem_map.1 hs
    obtain ⟨hname, hvalue⟩ := h.fields _ hfield
    simp only [String.toList_append]
    exact (hname.append (by decide)).append hvalue

end Event

/-- What was applied is an operator of the tree. -/
theorem Tree.exists_of_mem_applications {t : Tree} {a : Application} (h : a ∈ t.applications) :
    ∃ op, ⟨a.position, .operator op⟩ ∈ t.nodes ∧ op.symbol = a.symbol := by
  induction t with
  | numeral p ds v => cases h
  | node l op p v r ihl ihr =>
    simp only [applications, List.mem_append, List.mem_singleton] at h
    simp only [nodes, List.mem_append, List.mem_singleton]
    rcases h with h | h | rfl
    · obtain ⟨o, ho, hsymbol⟩ := ihl h
      exact ⟨o, .inl ho, hsymbol⟩
    · obtain ⟨o, ho, hsymbol⟩ := ihr h
      exact ⟨o, .inr (.inl ho), hsymbol⟩
    · exact ⟨op, .inr (.inr rfl), rfl⟩

namespace Calculator

variable {c : Calculator}

/-- What a calculator applies are operators of its table. -/
theorem exists_of_mem_applications {cs : List Char} {a : Application}
    (h : a ∈ (c.compute cs).applications) : ∃ op ∈ c.operators.toList, op.symbol = a.symbol := by
  obtain ⟨q, hq, hlast⟩ := (c.start cs).exists_last
  obtain ⟨forest, hforest⟩ := grows_of_reaches hq
  rw [applications_of_last hq hlast, Point.applications, hforest.applications] at h
  obtain ⟨t, ht, ha⟩ := List.mem_flatMap.1 h
  obtain ⟨op, hop, hsymbol⟩ := t.exists_of_mem_applications ha
  have hnode : ⟨a.position, .operator op⟩ ∈ forest.flatMap Tree.nodes ++ q.machine.waiting :=
    List.mem_append_left _ (List.mem_flatMap.2 ⟨t, ht, hop⟩)
  have hread : ⟨a.position, .operator op⟩ ∈ q.read :=
    (List.mem_filter.1 (hforest.nodes.mem_iff.1 hnode)).1
  have hall : q.read ++ q.coming = Token.place 0 (c.scan cs).tokens := hq.read_append_coming
  obtain ⟨hadmits, -⟩ := goesOn_of_mem_place (hall ▸ List.mem_append_left _ hread)
  exact ⟨op, hadmits, hsymbol⟩

/-- What a calculator tells on the way to a value can be told on lines. -/
theorem tidy_of_mem_events {expression : String} {e : Event}
    (h : e ∈ (c.value expression).events) : e.Tidy := by
  rcases List.mem_cons.1 h with rfl | h
  · trivial
  · obtain ⟨a, ha, rfl⟩ := List.mem_map.1 h
    obtain ⟨op, hop, hsymbol⟩ := exists_of_mem_applications ha
    have hunreserved := c.operators.unreserved op hop
    intro ch hch
    obtain rfl : ch = a.symbol := List.mem_singleton.1 hch
    rw [← hsymbol]
    refine ⟨fun he => ?_, fun he => ?_⟩
    · rw [he] at hunreserved
      exact absurd hunreserved (by decide)
    · rw [he] at hunreserved
      exact absurd hunreserved (by decide)

end Calculator

namespace CommandLine

/-- The log tells the events in order, each if the level tells it. -/
theorem logLines_eq (threshold : LogLevel) (events : List Event) :
    logLines threshold events = events.filterMap (Event.told threshold) := by
  rw [logLines, ← List.filterMap_eq_map, List.filterMap_filter]
  exact List.filterMap_congr fun e _ => (Event.told_eq threshold e).symm

/-- The lines of the log are lines. -/
theorem lines_logLines (threshold : LogLevel) {events : List Event} (h : ∀ e ∈ events, e.Tidy) :
    (logLines threshold events).flatMap (fun message => Text.lines (message ++ "\n")) =
      logLines threshold events := by
  have hlines : ∀ message ∈ logLines threshold events,
      Text.lines (message ++ "\n") = [message] := by
    intro message hmessage
    obtain ⟨e, he, rfl⟩ := List.mem_map.1 hmessage
    exact Text.lines_append_feed (h e (List.mem_filter.1 he).1).line
  rw [List.flatMap_congr hlines]
  simp

end CommandLine

end Abacus
