/- MID: SignalAgent/Selectors/AnchoredMatchers
   layer: results
   source: components/selectormatch/selector.go
   digest: A regex matcher is anchored exactly if its value closes no group but its own; a value
     that closes the wrapping group is no expression and matches beyond the anchors. -/

import SignalAgent.Foundations.Re2Wrapping
import SignalAgent.Selectors.SelectorGrammar
import SignalAgent.Telemetry.SeriesLabels

set_option autoImplicit false
set_option relaxedAutoImplicit false

namespace SignalAgent.Selectors.AnchoredMatchers

open Foundations.GoText
open Foundations.Re2Syntax (Tables Finds Whole closesGroup finds_anchoredRe_iff folded inRanges)
open Foundations.Re2Wrapping (parse_of_wrap closesGroup_of_parse)
open SelectorMatch SelectorGrammar

/-- What is documented of the regexp package: `Compile` accepts the RE2 expressions and
`MatchString` searches for a match that may stand anywhere. -/
structure Conforms (R : GoRuntime) (T : Tables) : Prop where
  compiles : ∀ expression, R.compiles expression = (Foundations.Re2Syntax.parse T expression).isSome
  search : ∀ expression re, Foundations.Re2Syntax.parse T expression = some re →
    ∀ x, R.matchString expression x = true ↔ Finds re x

/-- The value is an expression, and the matcher accepts exactly the texts that are in its language
as a whole; a negated matcher accepts exactly the others. -/
def FullyAnchored (R : GoRuntime) (T : Tables) (m : Matcher) : Prop :=
  (m.op = .re → ∃ re, Foundations.Re2Syntax.parse T m.value = some re ∧
    ∀ x, m.matchValue R x = true ↔ Whole re x) ∧
  (m.op = .nre → ∃ re, Foundations.Re2Syntax.parse T m.value = some re ∧
    ∀ x, m.matchValue R x = true ↔ ¬ Whole re x)

variable {R : GoRuntime} {T : Tables} {input : GoString} {allowDots : Bool} {selector : Selector}

private theorem compiles_of_clauses {text : GoString} {ms : List Matcher}
    (clauses : Clauses R allowDots text ms) :
    ∀ m ∈ ms, (m.op = .re ∨ m.op = .nre) → R.compiles (anchored m.value) = true := by
  induction clauses with
  | last clause =>
    intro m member regex
    obtain rfl := List.mem_singleton.mp member
    cases clause with
    | mk _ _ _ _ compiles => exact compiles regex
  | cons clause _ _ _ ih =>
    intro m member regex
    rcases List.mem_cons.mp member with rfl | later
    · cases clause with
      | mk _ _ _ _ compiles => exact compiles regex
    · exact ih m later regex

private theorem compiles_of_accepted (accepted : parseWith R input allowDots = .ok selector) :
    ∀ m ∈ selector.matchers, (m.op = .re ∨ m.op = .nre) →
      R.compiles (anchored m.value) = true := by
  cases (parseWith_eq_ok_iff input allowDots selector.matchers).mp accepted with
  | mk _ _ clauses _ _ _ => exact compiles_of_clauses clauses

private theorem whole_of_compiles (conforms : Conforms R T) {value : GoString}
    (compiled : R.compiles (anchored value) = true) (own : closesGroup T value = false) :
    ∃ re, Foundations.Re2Syntax.parse T value = some re ∧
      ∀ x, R.matchString (anchored value) x = true ↔ Whole re x := by
  rw [conforms.compiles, Option.isSome_iff_exists] at compiled
  obtain ⟨wrapped, parsed⟩ := compiled
  obtain ⟨re, alone, rfl⟩ := parse_of_wrap parsed own
  refine ⟨re, alone, fun x => ?_⟩
  rw [conforms.search _ _ parsed, finds_anchoredRe_iff]

private theorem fullyAnchored_of_own (conforms : Conforms R T) {m : Matcher}
    (compiled : (m.op = .re ∨ m.op = .nre) → R.compiles (anchored m.value) = true)
    (own : (m.op = .re ∨ m.op = .nre) → closesGroup T m.value = false) : FullyAnchored R T m := by
  constructor
  · intro regex
    obtain ⟨re, alone, language⟩ :=
      whole_of_compiles conforms (compiled (.inl regex)) (own (.inl regex))
    refine ⟨re, alone, fun x => ?_⟩
    rw [Matcher.matchValue, regex]
    exact language x
  · intro regex
    obtain ⟨re, alone, language⟩ :=
      whole_of_compiles conforms (compiled (.inr regex)) (own (.inr regex))
    refine ⟨re, alone, fun x => ?_⟩
    rw [Matcher.matchValue, regex, ← language x]
    simp only [Bool.not_eq_true', Bool.not_eq_true]

private theorem own_of_fullyAnchored {m : Matcher} (anchored : FullyAnchored R T m)
    (regex : m.op = .re ∨ m.op = .nre) : closesGroup T m.value = false := by
  rcases regex with positive | negative
  · obtain ⟨re, alone, -⟩ := anchored.1 positive
    exact closesGroup_of_parse alone
  · obtain ⟨re, alone, -⟩ := anchored.2 negative
    exact closesGroup_of_parse alone

/-- The regex matchers of an accepted selector are anchored exactly if none of their values has a
parenthesis that closes a group the value did not open. -/
theorem matchers_anchored_iff (conforms : Conforms R T)
    (accepted : parseWith R input allowDots = .ok selector) :
    (∀ m ∈ selector.matchers, FullyAnchored R T m) ↔
      ∀ m ∈ selector.matchers, (m.op = .re ∨ m.op = .nre) → closesGroup T m.value = false := by
  constructor
  · intro anchored m member
    exact own_of_fullyAnchored (anchored m member)
  · intro own m member
    exact fullyAnchored_of_own conforms (compiles_of_accepted accepted m member) (own m member)

section Examples

/-- Tables without Unicode classes and case variants. -/
def bareTables : Tables where
  unicodeClass := fun _ => none
  orbit := fun r => [r]

open Classical in
/-- A runtime that searches as the expressions say. -/
noncomputable def searchingRuntime : GoRuntime :=
  { Telemetry.SeriesLabels.plainPlatform.toGoRuntime with
    compiles := fun expression => (Foundations.Re2Syntax.parse bareTables expression).isSome
    matchString := fun expression x =>
      decide (∃ re, Foundations.Re2Syntax.parse bareTables expression = some re ∧ Finds re x) }

private theorem searchingRuntime_conforms : Conforms searchingRuntime bareTables where
  compiles := fun _ => rfl
  search := by
    intro expression re parsed x
    simp only [searchingRuntime, decide_eq_true_eq, parsed, Option.some.injEq, exists_eq_left']

def alternation : Matcher := ⟨lit "job", .re, lit "api|db"⟩

/-- The value that the two groups of the wrapped text stand around. -/
def escaping : Matcher := ⟨lit "job", .re, lit "a)|(?:b"⟩

theorem alternation_is_anchored :
    parse searchingRuntime (lit "\x7bjob=~\"api|db\"\x7d") = .ok ⟨[alternation]⟩ ∧
      ∀ m ∈ [alternation], FullyAnchored searchingRuntime bareTables m := by
  have accepted : parseWith searchingRuntime (lit "\x7bjob=~\"api|db\"\x7d") false =
      .ok ⟨[alternation]⟩ := by rfl
  refine ⟨accepted, (matchers_anchored_iff searchingRuntime_conforms accepted).mpr ?_⟩
  intro m member _
  obtain rfl := List.mem_singleton.mp member
  decide +kernel

/-- A value whose parenthesis closes the wrapping group is accepted without being an expression,
and matches a text that neither of its alternatives is. -/
theorem value_closing_the_group_escapes_the_anchors :
    Conforms searchingRuntime bareTables ∧
    parse searchingRuntime (lit "\x7bjob=~\"a)|(?:b\"\x7d") = .ok ⟨[escaping]⟩ ∧
    Foundations.Re2Syntax.parse bareTables escaping.value = none ∧
    escaping.matchValue searchingRuntime (lit "axyz") = true ∧
    ¬ FullyAnchored searchingRuntime bareTables escaping := by
  have wrapped : ∃ other, Foundations.Re2Syntax.parse bareTables (anchored escaping.value) =
      some (.alternate (.concat (.assert .beginText) (.concat (.concat (.set
        (folded bareTables (inRanges [(0x61, 0x61)]) false)) .empty) .empty)) other) := ⟨_, rfl⟩
  obtain ⟨other, wrapped⟩ := wrapped
  have invalid : Foundations.Re2Syntax.parse bareTables escaping.value = none := rfl
  refine ⟨searchingRuntime_conforms, rfl, invalid, ?_, ?_⟩
  · refine (searchingRuntime_conforms.search _ _ wrapped _).mpr ⟨0, 1, .zero, ?_⟩
    refine .alternateFirst (.concat (.assert rfl) (.concat (.concat ?_ .empty) .empty))
    exact .set (by decide) (by decide)
  · intro anchored
    obtain ⟨re, alone, -⟩ := anchored.1 rfl
    rw [invalid] at alone
    cases alone

end Examples

end SignalAgent.Selectors.AnchoredMatchers
