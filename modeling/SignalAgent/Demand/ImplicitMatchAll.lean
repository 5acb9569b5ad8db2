/- MID: SignalAgent/Demand/ImplicitMatchAll
   layer: results
   source: components/demandfilter/selectors.go, components/selectormatch/selector.go
   digest: A selector on ignored labels alone compiles to one that accepts every series. -/

import SignalAgent.Demand.MetricFilterSpec

set_option autoImplicit false
set_option relaxedAutoImplicit false

namespace SignalAgent.Demand.ImplicitMatchAll

open Foundations.GoMaps Foundations.GoText
open Selectors.SelectorMatch
open Telemetry.Pdata Telemetry.SeriesLabels
open MetricFilter MetricFilterSpec

/-- The compiled selectors of a set, wherever they are indexed. -/
def Holds (set : CompiledSelectorSet) (cs : CompiledSelector) : Prop :=
  cs ∈ set.scan ∨ ∃ name, cs ∈ index set.byName [] name

/-- Some matcher is left. -/
def Constrained (cs : CompiledSelector) : Prop := cs.nameMatchers ≠ [] ∨ cs.labelMatchers ≠ []

private theorem holds_add (set : CompiledSelectorSet) (added cs : CompiledSelector) :
    Holds (set.add added) cs ↔ Holds set cs ∨ cs = added := by
  unfold Holds CompiledSelectorSet.add
  cases pinned : added.pinnedName with
  | none =>
    simp only [List.mem_append, List.mem_singleton]
    exact or_right_comm
  | some name =>
    have named : ∀ n, cs ∈ index (set.byName.insert name (index set.byName [] name ++ [added])) [] n
        ↔ cs ∈ index set.byName [] n ∨ n = name ∧ cs = added := by
      intro n
      rw [index, lookup_insert_eq]
      by_cases same : n = name
      · subst same
        simp
      · simp [same, index]
    simp only [named, exists_or, exists_eq_left]
    exact or_assoc.symm

theorem holds_compileSelectors (R : GoRuntime) (raw : List GoString) (cs : CompiledSelector) :
    Holds (compileSelectors R raw) cs ↔
      ∃ s ∈ raw, ∃ sel, parse R s = .ok sel ∧ cs = compileSelector sel := by
  induction raw using List.reverseRecOn with
  | nil => simp [compileSelectors, Holds, index]
  | append_singleton raw s ih =>
    rw [compileSelectors_concat, CompiledSelectorSet.addRaw]
    simp only [List.mem_append, List.mem_singleton, or_and_right, exists_or, exists_eq_left]
    cases parsed : parse R s with
    | error e =>
      rw [ih]
      simp
    | ok sel =>
      rw [holds_add, ih]
      simp

theorem constrained_compileSelector (sel : Selector) :
    Constrained (compileSelector sel) ↔ ∃ m ∈ sel.matchers, m.name ∉ ignoredLabels := by
  have named : nameLabel ∉ ignoredLabels := by decide
  unfold Constrained compileSelector
  simp only [ne_eq, List.filter_eq_nil_iff, decide_eq_true_eq, not_forall, not_not, exists_prop]
  constructor
  · rintro (⟨m, listed, isName⟩ | ⟨m, listed, -, kept⟩)
    · exact ⟨m, listed, isName ▸ named⟩
    · exact ⟨m, listed, kept⟩
  · rintro ⟨m, listed, kept⟩
    by_cases isName : m.name = nameLabel
    · exact Or.inl ⟨m, listed, isName⟩
    · exact Or.inr ⟨m, listed, isName, kept⟩

theorem demanded_of_unconstrained (P : Platform) {raw : List GoString} {cs : CompiledSelector}
    (held : Holds (compileSelectors P.toGoRuntime raw) cs) (free : ¬ Constrained cs) (p : Located) :
    demandedBySelectors P raw p = true := by
  obtain ⟨names, labels⟩ := not_or.mp free
  obtain ⟨s, listed, sel, parsed, same⟩ := (holds_compileSelectors P.toGoRuntime raw cs).mp held
  obtain ⟨n, named⟩ : ∃ n, n ∈ seriesNames P p := by
    unfold seriesNames familyNames
    split <;> exact ⟨_, List.mem_cons_self⟩
  have accepts : cs.matchesName P.toGoRuntime n = true := by
    rw [CompiledSelector.matchesName, not_not.mp names]
    rfl
  rw [demandedBySelectors_iff]
  refine ⟨cs, ?_, ?_⟩
  · rw [mem_candidatesFor_compileSelectors]
    exact ⟨s, listed, sel, parsed, same, n, named, accepts⟩
  · intro lm member
    rw [not_not.mp labels] at member
    cases member

/-- For every selector list, every compiled selector has a matcher left exactly when every
selector of the list that parses has a matcher on a label other than `le` and `quantile`. -/
theorem compiled_selectors_constrained_iff (R : GoRuntime) (raw : List GoString) :
    (∀ cs, Holds (compileSelectors R raw) cs → Constrained cs) ↔
      ∀ s ∈ raw, ∀ sel, parse R s = .ok sel → ∃ m ∈ sel.matchers, m.name ∉ ignoredLabels := by
  simp only [holds_compileSelectors]
  constructor
  · intro constrained s listed sel parsed
    exact (constrained_compileSelector sel).mp (constrained _ ⟨s, listed, sel, parsed, rfl⟩)
  · rintro kept cs ⟨s, listed, sel, parsed, rfl⟩
    exact (constrained_compileSelector sel).mpr (kept s listed sel parsed)

def bucketSelector : GoString := lit "\x7ble=\"0.5\"\x7d"

/-- A selector on `le` alone is accepted, compiles to a selector without matchers and forwards
every datapoint of every batch. -/
theorem bucket_selector_forwards_everything :
    ¬ (∀ (R : GoRuntime) (raw : List GoString) (cs : CompiledSelector),
        Holds (compileSelectors R raw) cs → Constrained cs) ∧
      ∀ md, ∃ out, (consumeMetrics plainPlatform true .initial [bucketSelector] [] md).1 =
        some out ∧ located out = located md := by
  have parsed : parse plainPlatform.toGoRuntime bucketSelector =
      .ok ⟨[⟨lit "le", .eq, lit "0.5"⟩]⟩ := by
    decide +kernel
  have held : Holds (compileSelectors plainPlatform.toGoRuntime [bucketSelector]) ⟨[], []⟩ :=
    (holds_compileSelectors _ _ _).mpr
      ⟨_, List.mem_singleton_self _, _, parsed, by decide +kernel⟩
  have free : ¬ Constrained ⟨[], []⟩ := by simp [Constrained]
  refine ⟨fun constrained => free (constrained _ _ _ held), fun md => ?_⟩
  refine ⟨filterBySelectors plainPlatform
    (compileSelectors plainPlatform.toGoRuntime [bucketSelector]) md, ?_, ?_⟩
  · have nonempty : (compileSelectors plainPlatform.toGoRuntime [bucketSelector]).empty =
        false := by
      decide +kernel
    have fresh : (parsedSelectors plainPlatform.toGoRuntime .initial [bucketSelector]).1 =
        compileSelectors plainPlatform.toGoRuntime [bucketSelector] := rfl
    rw [consumeMetrics, if_pos ⟨rfl, by simp⟩, consumeSelectorMode, fresh, nonempty]
    rfl
  · rw [filterBySelectors_is_plain_filter, List.filter_eq_self]
    exact fun p _ => demanded_of_unconstrained plainPlatform held free p

end SignalAgent.Demand.ImplicitMatchAll
