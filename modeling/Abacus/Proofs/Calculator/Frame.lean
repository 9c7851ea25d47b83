import Abacus.Proofs.Calculator.Diagnostics
import Abacus.Proofs.Calculator.Group
import Abacus.Proofs.Numeral.Inverse

/-!
# What stands around a group

A text that has a value can be put in brackets in the place of any other text that has the same
value (`Calculator.value_group`): whatever stands before and after the brackets, be it a part of
an expression or not, the whole has the same value or the same fault. Only what stands after the
group stands elsewhere, if the one text is wider than the other.

A bracket ends every numeral, so the whole is scanned part by part (`Calculator.scan_group`).
Either the run fails before it comes to the group, and then in the same way
(`Calculator.fails_or_comes`), or the group leaves its value and nothing else that is looked at
later, and from there on the two runs differ in positions only (`MovedRuns`).
-/

namespace Abacus

open Token

namespace Calculator

variable {c : Calculator}

/-! ### Scanning a group -/

/-- A text that is lexed to its end goes on with what comes after it. -/
theorem Lexes.append {cs ds : List Char} {ts us : List Token} {fault? : Option ScanFault}
    (hcs : c.Lexes cs ts none) (hds : c.Lexes ds us fault?) (hstops : c.Stops ds) :
    c.Lexes (cs ++ ds) (ts ++ us) fault? := by
  generalize hnone : (none : Option ScanFault) = none? at hcs
  induction hcs with
  | done => exact hds
  | @token t ts cs _ ht hp _ ih =>
    rw [List.append_assoc]
    exact .token ht (precedes_append_of_stops hp hstops) (ih hnone)
  | unknown | invalid => cases hnone

/-- A text that is lexed to a fault is so whatever comes after it. -/
theorem Lexes.append_of_fault {cs ds : List Char} {ts : List Token} {fault : ScanFault}
    (hcs : c.Lexes cs ts (some fault)) (hstops : c.Stops ds) :
    c.Lexes (cs ++ ds) ts (some fault) := by
  generalize hsome : some fault = some? at hcs
  induction hcs with
  | done => cases hsome
  | @token t ts cs _ ht hp _ ih =>
    rw [List.append_assoc]
    exact .token ht (precedes_append_of_stops hp hstops) (ih hsome)
  | unknown h => exact .unknown h
  | invalid hds hcs hv =>
    rw [List.append_assoc]
    exact .invalid hds (stops_append_of_stops hcs hstops) hv

/-- The text with a group in brackets between two others. -/
def grouped (pre e post : List Char) : List Char :=
  pre ++ openingBracket :: (e ++ closingBracket :: post)

theorem stops_opening (hc : c.numerals.Unreserved) (cs : List Char) :
    c.Stops (openingBracket :: cs) :=
  stops_text_append hc (t := .opening) trivial (by simp) cs

theorem stops_closing (hc : c.numerals.Unreserved) (cs : List Char) :
    c.Stops (closingBracket :: cs) :=
  stops_text_append hc (t := .closing) trivial (by simp) cs

/-- A group is scanned part by part. -/
theorem scan_group (hc : c.numerals.Unreserved) {pre e : List Char} (post : List Char)
    (hpre : (c.scan pre).fault? = none) (he : (c.scan e).fault? = none) :
    c.scan (grouped pre e post) =
      ⟨(c.scan pre).tokens ++ .opening :: ((c.scan e).tokens ++ .closing :: (c.scan post).tokens),
        (c.scan post).fault?⟩ := by
  have hlexpre := c.lexes_scan pre
  have hlexe := c.lexes_scan e
  rw [hpre] at hlexpre
  rw [he] at hlexe
  refine scan_of_lexes hc (hlexpre.append ?_ (stops_opening hc _))
  refine .token (t := .opening) trivial trivial (hlexe.append ?_ (stops_closing hc _))
  exact .token (t := .closing) trivial trivial (c.lexes_scan post)

/-- If something before a group is no token, so it is in the whole. -/
theorem scan_group_of_fault (hc : c.numerals.Unreserved) {pre : List Char} (e post : List Char)
    {fault : ScanFault} (hpre : (c.scan pre).fault? = some fault) :
    c.scan (grouped pre e post) = c.scan pre := by
  have hlexpre := c.lexes_scan pre
  rw [hpre] at hlexpre
  rw [grouped, scan_of_lexes hc (hlexpre.append_of_fault (stops_opening hc _)), ← hpre]

/-! ### The run up to a group and on -/

/-- Where the text goes on after a group. -/
def afterGroup (pre e : List Char) : Nat := Text.width pre + Text.width e + 2

/-- The tokens of a group, at their places. -/
def groupTokens (c : Calculator) (pre e : List Char) : List PlacedToken :=
  ⟨Text.width pre, .opening⟩ :: (place (Text.width pre + 1) (c.scan e).tokens ++
    [⟨Text.width pre + 1 + Text.width e, .closing⟩])

/-- The fault that a text goes on with after a group, if what follows is not all tokens. -/
def faultAfter (c : Calculator) (pre e post : List Char) : Option EvaluationError :=
  (c.scan post).fault?.map
    (·.error (afterGroup pre e + Text.width (textOf (c.scan post).tokens)))

theorem place_group (hc : c.numerals.Unreserved) {pre e : List Char} (post : List Char)
    (hpre : (c.scan pre).fault? = none) (he : (c.scan e).fault? = none) :
    place 0 (c.scan (grouped pre e post)).tokens =
      place 0 (c.scan pre).tokens ++
        (c.groupTokens pre e ++ place (afterGroup pre e) (c.scan post).tokens) := by
  have hafter : Text.width pre + 1 + Text.width e + 1 = afterGroup pre e := by
    unfold afterGroup
    omega
  rw [scan_group hc post hpre he, place_append, textOf_scan hpre, Nat.zero_add, place]
  show _ ++ _ :: place (Text.width pre + 1) _ = _
  rw [place_append, textOf_scan he, place]
  show _ ++ _ :: (_ ++ _ :: place (Text.width pre + 1 + Text.width e + 1) _) = _
  rw [hafter, groupTokens, List.cons_append, List.append_assoc]
  rfl

theorem faultOf_group (hc : c.numerals.Unreserved) {pre e : List Char} (post : List Char)
    (hpre : (c.scan pre).fault? = none) (he : (c.scan e).fault? = none) :
    c.faultOf (grouped pre e post) = c.faultAfter pre e post := by
  have hwidth : Text.width (textOf (c.scan (grouped pre e post)).tokens) =
      afterGroup pre e + Text.width (textOf (c.scan post).tokens) := by
    rw [scan_group hc post hpre he, textOf_append, textOf_cons, textOf_append, textOf_cons]
    simp only [Text.width_append, textOf_scan hpre, textOf_scan he]
    show Text.width pre + (1 + (Text.width e + (1 + _))) = _
    unfold afterGroup
    omega
  rw [faultOf, hwidth, scan_group hc post hpre he, faultAfter]

/-- The run over a text with a group in it: over what stands before the group, over the group, and
over what stands after it. -/
theorem compute_group (hc : c.numerals.Unreserved) {pre e : List Char} (post : List Char)
    (hpre : (c.scan pre).fault? = none) (he : (c.scan e).fault? = none) :
    c.compute (grouped pre e post) =
      .ofEnding ((Machine.empty.steps (place 0 (c.scan pre).tokens)).bind fun m =>
        (m.steps (c.groupTokens pre e)).bind fun m =>
          (m.steps (place (afterGroup pre e) (c.scan post).tokens)).bind
            (·.stop (c.faultAfter pre e post))) := by
  rw [compute_eq, place_group hc post hpre he, faultOf_group hc post hpre he,
    Machine.steps_append, bind_bind]
  refine congrArg _ (congrArg _ (funext fun m => ?_))
  rw [Machine.steps_append, bind_bind]

/-- Either a run fails before it comes to a group, whatever the group is, or it comes to it. -/
theorem fails_or_comes (hc : c.numerals.Unreserved) (pre : List Char) :
    (∀ e post, (c.scan e).fault? = none → c.compute (grouped pre e post) = c.compute pre) ∨
      (c.scan pre).fault? = none ∧
        ∃ m, Machine.empty.steps (place 0 (c.scan pre).tokens) = .ok m := by
  cases hpre : (c.scan pre).fault? with
  | some fault =>
    refine .inl fun e post _ => ?_
    rw [compute, compute, scan_group_of_fault hc e post hpre]
  | none =>
    cases hsteps : Machine.empty.steps (place 0 (c.scan pre).tokens) with
    | error halt =>
      refine .inl fun e post he => ?_
      rw [compute_group hc post hpre he, compute_eq, hsteps]
      rfl
    | ok m => exact .inr ⟨rfl, m, rfl⟩

/-- A run that comes to a group with a value goes on with the value. -/
theorem compute_group_of_value (hc : c.numerals.Unreserved) {pre : List Char} {m : Machine}
    (hpre : (c.scan pre).fault? = none)
    (hm : Machine.empty.steps (place 0 (c.scan pre).tokens) = .ok m) {e : String} {v : Int64}
    (he : (c.value e).outcome = .ok v) (post : List Char) :
    ∃ since, c.compute (grouped pre e.toList post) =
      .ofEnding (((m.gain v since).steps
        (place (afterGroup pre e.toList) (c.scan post).tokens)).bind
          (·.stop (c.faultAfter pre e.toList post))) := by
  obtain ⟨since, hgroup⟩ := steps_group_of_value he m (Text.width pre) (Text.width pre + 1)
    (Text.width pre + 1 + Text.width e.toList)
  refine ⟨since, ?_⟩
  rw [compute_group hc post hpre (value_eq_ok he).1, hm]
  show Run.ofEnding ((m.steps _).bind _) = _
  rw [groupTokens, hgroup]
  rfl

/-! ### Another group in its place -/

/-- Where a position goes when what stands at the start has another width: what stands before
stays, and what stands after it goes as far as the width does. -/
def shift (start width width' p : Nat) : Nat := if p < start then p else p + width' - width

theorem shift_of_lt {start width width' p : Nat} (h : p < start) :
    shift start width width' p = p := if_pos h

theorem shift_afterGroup (pre e e' : List Char) {p : Nat} (h : afterGroup pre e ≤ p) :
    shift (Text.width pre) (Text.width e) (Text.width e') p =
      p + afterGroup pre e' - afterGroup pre e := by
  unfold afterGroup at h ⊢
  rw [shift, if_neg (by omega)]
  omega

/-- What a machine waits for that has read what stands before the group is there. -/
theorem holds_of_steps {pre : List Char} {m : Machine}
    (hm : Machine.empty.steps (place 0 (c.scan pre).tokens) = .ok m) :
    m.Holds fun t => t.position < Text.width pre := by
  have hempty : Machine.empty.Holds fun t => t.position < Text.width pre :=
    fun e he => absurd he List.not_mem_nil
  have hkeeps := Machine.keeps_steps hempty
    fun t (ht : t ∈ place 0 (c.scan pre).tokens) => position_lt_of_mem_place ht
  rwa [hm] at hkeeps

/-- Nothing moves that waits when a run comes to a group. -/
theorem moved_gain {pre : List Char} {m : Machine}
    (hm : Machine.empty.steps (place 0 (c.scan pre).tokens) = .ok m) (v : Int64)
    (width width' : Nat) (since since' : List Application) :
    (m.gain v since).Moved (shift (Text.width pre) width width')
      (since ++ m.workings.applied) (since' ++ m.workings.applied) (m.gain v since') := by
  refine ⟨?_, rfl, [], rfl, rfl⟩
  show m.pending = m.pending.map _
  refine ((List.map_congr_left fun e he => ?_).trans (List.map_id _)).symm
  have hlt := holds_of_steps hm e he
  cases e with
  | opening p => exact congrArg Pending.opening (shift_of_lt hlt)
  | operator op p => exact congrArg (Pending.operator op) (shift_of_lt hlt)

/-- The fault after a group is the same after another one, but for its position. -/
theorem faultAfter_eq_map_move (pre e e' post : List Char) :
    c.faultAfter pre e' post = (c.faultAfter pre e post).map
      (·.move (shift (Text.width pre) (Text.width e) (Text.width e'))) := by
  rw [faultAfter, faultAfter, Option.map_map]
  refine congrArg (Option.map · _) (funext fun fault => ?_)
  show _ = (fault.error _).move _
  rw [← ScanFault.error_move, shift_afterGroup pre e e' (Nat.le_add_right _ _)]
  congr 1
  omega

/-- With another group of the same value the outcome is the same, but for the positions of what
stands after the group. -/
theorem outcome_grouped (hc : c.numerals.Unreserved) (pre post : List Char) {e e' : String}
    {v : Int64} (he : (c.value e).outcome = .ok v) (he' : (c.value e').outcome = .ok v) :
    (c.compute (grouped pre e'.toList post)).outcome =
      (c.compute (grouped pre e.toList post)).outcome.mapError
        (·.move (shift (Text.width pre) (Text.width e.toList) (Text.width e'.toList))) := by
  rcases fails_or_comes hc pre with hfails | ⟨hpre, m, hm⟩
  · rw [hfails _ post (value_eq_ok he).1, hfails _ post (value_eq_ok he').1]
    cases hout : (c.compute pre).outcome with
    | ok u => rfl
    | error err =>
      refine congrArg Except.error (EvaluationError.move_eq_self fun p hp => ?_).symm
      exact shift_of_lt (position_lt_of_error hout p hp)
  · obtain ⟨since, hrun⟩ := compute_group_of_value hc hpre hm he post
    obtain ⟨since', hrun'⟩ := compute_group_of_value hc hpre hm he' post
    rw [hrun, hrun', faultAfter_eq_map_move pre e.toList e'.toList,
      place_eq_map_move fun p hp => shift_afterGroup pre e.toList e'.toList hp]
    exact (((moved_gain hm v _ _ since since').steps _).ending _).outcome

/-- A fault of a text with a group in it is about what stands before or after the group. -/
theorem position_of_grouped (hc : c.numerals.Unreserved) (pre post : List Char) {e : String}
    {v : Int64} (he : (c.value e).outcome = .ok v) {err : EvaluationError}
    (h : (c.compute (grouped pre e.toList post)).outcome = .error err) :
    ∀ p ∈ err.position?, p < Text.width pre ∨ afterGroup pre e.toList ≤ p := by
  intro p hp
  rcases fails_or_comes hc pre with hfails | ⟨hpre, m, hm⟩
  · rw [hfails _ post (value_eq_ok he).1] at h
    exact .inl (position_lt_of_error h p hp)
  · obtain ⟨since, hrun⟩ := compute_group_of_value hc hpre hm he post
    rw [hrun] at h
    obtain ⟨halt, hend, rfl⟩ := outcome_eq_error h
    have hholds : (m.gain v since).Holds fun t =>
        t.position < Text.width pre ∨ afterGroup pre e.toList ≤ t.position :=
      fun e he => .inl (holds_of_steps hm e he)
    rcases Machine.blames_of_run hholds
      (fun t ht => .inr (position_le_of_mem_place ht).1) hend with hfault | hblames
    · obtain ⟨fault, -, hfault⟩ := Option.map_eq_some_iff.1 hfault
      rw [← hfault, ScanFault.position?_error] at hp
      obtain rfl := Option.some.inj hp
      exact .inr (Nat.le_add_right _ _)
    · obtain ⟨t, ht⟩ := hblames.position p hp
      exact ht

/-! ### Numerals in the place of a group -/

/-- The digits of a value are an expression with the value. -/
theorem value_numeral (hc : c.numerals.Unreserved) {s : String} {v : Int64}
    (hs : c.IsRun s.toList) (hv : c.numerals.read? s = some v) : (c.value s).outcome = .ok v := by
  have hadmits : c.Admits (.numeral s.toList v) := ⟨hs, by rw [String.ofList_toList]; exact hv⟩
  have hscan : c.scan (textOf [.numeral s.toList v]) = ⟨[.numeral s.toList v], none⟩ :=
    scan_textOf hc (by simpa using hadmits) (List.isChain_singleton _)
  rw [textOf_cons, textOf_nil, List.append_nil, Token.text] at hscan
  exact outcome_of_scan hscan

/-- What is read as a value is a run of letters. -/
theorem isRun_of_read? {s : String} {v : Int64} (h : roman.numerals.read? s = some v) :
    roman.IsRun s.toList := by
  obtain ⟨n, h1, h2, -, has⟩ := Numeral.read?_eq_some_iff.1 h
  constructor
  · intro hnil
    have hvalue := Numeral.valueOf?_eq_some_iff.2 ⟨rfl, h1, h2⟩
    rw [hnil] at has
    rw [← Option.some.inj has] at hvalue
    cases hvalue
  · rw [Numeral.letters?_toList_eq_some_iff.1 has, String.toList_ofList]
    intro d hd
    obtain ⟨a, -, rfl⟩ := List.mem_map.1 hd
    exact Option.isSome_iff_exists.2 ⟨a, Numeral.Letter.ofChar?_char a⟩

/-! ### What can take the place of what -/

/-- The text with a group in brackets between two others. -/
def inBrackets (pre e post : String) : String := pre ++ "(" ++ e ++ ")" ++ post

theorem toList_inBrackets (pre e post : String) :
    (inBrackets pre e post).toList = grouped pre.toList e.toList post.toList := by
  simp only [inBrackets, String.toList_append, List.append_assoc]
  rfl

/-- The second text can take the place of the first as a group in brackets. Whatever stands
around the group, the outcome is the same, but that a fault about what stands after the group is
reported as much further on as the second text is wider; and no fault is about the group. -/
def Interchangeable (c : Calculator) (e e' : String) : Prop :=
  ∀ pre post : String,
    (c.value (inBrackets pre e' post)).outcome =
        (c.value (inBrackets pre e post)).outcome.mapError
          (·.move (shift pre.utf8ByteSize e.utf8ByteSize e'.utf8ByteSize)) ∧
      ∀ err, (c.value (inBrackets pre e post)).outcome = .error err → ∀ p ∈ err.position?,
        p < pre.utf8ByteSize ∨ pre.utf8ByteSize + e.utf8ByteSize + 2 ≤ p

/-- Texts of one value can take each other's place. -/
theorem interchangeable_of_value (hc : c.numerals.Unreserved) {e e' : String} {v : Int64}
    (he : (c.value e).outcome = .ok v) (he' : (c.value e').outcome = .ok v) :
    c.Interchangeable e e' := by
  intro pre post
  have houtcome := outcome_grouped hc pre.toList post.toList he he'
  have hposition (err : EvaluationError) (h : (c.compute (grouped _ _ _)).outcome = .error err) :=
    position_of_grouped hc pre.toList post.toList he h
  simp only [← toList_inBrackets, afterGroup, Text.width_toList] at houtcome hposition
  exact ⟨houtcome, hposition⟩

/-- **What stands in brackets counts for its value only.** A text with a value can take the place
of any other with that value, between any two texts; and a text whose value can be written in
Roman numerals can be replaced by the numeral. -/
theorem value_group :
    (∀ c : Calculator, c.numerals.Unreserved → ∀ (e e' : String) (v : Int64),
      (c.value e).outcome = .ok v → (c.value e').outcome = .ok v → c.Interchangeable e e') ∧
    ∀ (e : String) (v : Int64), (roman.value e).outcome = .ok v →
      1 ≤ v.toInt → v.toInt ≤ 3999 →
        ∃ s, roman.numerals.write v = .ok s ∧ roman.Interchangeable e s := by
  refine ⟨fun c hc e e' v he he' => interchangeable_of_value hc he he', fun e v he h1 h2 => ?_⟩
  obtain ⟨s, hs⟩ := Numeral.exists_write_eq_ok_iff.2 ⟨h1, h2⟩
  have hread : roman.numerals.read? s = some v :=
    Numeral.read?_eq_some_iff.2 (Numeral.write_eq_ok_iff.1 hs)
  have hc := NumeralSystem.roman_unreserved
  exact ⟨s, hs, interchangeable_of_value hc he (value_numeral hc (isRun_of_read? hread) hread)⟩

/-- `I II +` has the value three and can be replaced by `III`, also where a bracket too many
follows, which then stands three bytes before. -/
theorem value_group_roman :
    (roman.value "I II +").outcome = .ok 3 ∧ roman.numerals.write 3 = .ok "III" ∧
      (roman.value "V * (I II +) )").outcome = .error (.unbalancedBracket 13) ∧
      (roman.value "V * (III) )").outcome = .error (.unbalancedBracket 10) := by
  have hscan : roman.scan "I II +".toList =
      ⟨[.numeral ['I'] 1, .blank ' ', .numeral ['I', 'I'] 2, .blank ' ', .operator .add], none⟩ := by
    cbv
  have hv : (roman.value "I II +").outcome = .ok 3 := outcome_of_scan hscan
  have hscan' : roman.scan "V * (I II +) )".toList =
      ⟨[.numeral ['V'] 5, .blank ' ', .operator .mul, .blank ' ', .opening, .numeral ['I'] 1,
        .blank ' ', .numeral ['I', 'I'] 2, .blank ' ', .operator .add, .closing, .blank ' ',
        .closing], none⟩ := by
    cbv
  have hv' : (roman.value "V * (I II +) )").outcome = .error (.unbalancedBracket 13) :=
    outcome_of_scan hscan'
  obtain ⟨s, hs, hplace⟩ := value_group.2 "I II +" 3 hv (by decide) (by decide)
  have hthree : roman.numerals.write 3 = .ok "III" := by decide
  obtain rfl := Except.ok.inj (hthree.symm.trans hs)
  refine ⟨hv, hs, hv', ?_⟩
  have houtcome := (hplace "V * " " )").1
  have htext : inBrackets "V * " "I II +" " )" = "V * (I II +) )" := by decide
  have htext' : inBrackets "V * " "III" " )" = "V * (III) )" := by decide
  rw [htext, htext', hv'] at houtcome
  exact houtcome

end Calculator

end Abacus
