/- MID: SignalAgent/Demand/SelectorAccounting
   layer: results
   source: components/edgecontroller/demand_matcher.go, components/demandfilter/selectors.go,
     components/metricstracker/processor.go
   digest: The selector accounting covers what the filter can forward, but for some summaries. -/

import SignalAgent.Demand.NameAccounting

set_option autoImplicit false
set_option relaxedAutoImplicit false

namespace SignalAgent.Demand.SelectorAccounting

open Foundations.GoText
open Selectors.SelectorMatch
open Telemetry.Pdata Telemetry.SeriesLabels Telemetry.SeriesTracker
open MetricFilter DemandMatcher NameAccounting

/-- Some selector of the list parses and all its name matchers accept the name. -/
def AcceptsName (R : GoRuntime) (selectors : List GoString) (name : GoString) : Prop :=
  ∃ s ∈ selectors, ∃ sel, parse R s = .ok sel ∧
    (compileSelector sel).matchesName R name = true

/-- If the filter can forward datapoints of the metric, every series the tracker emits for it is
accounted for. -/
def CoversMetric (P : Platform) (selectors : List GoString) (knownNames : NameSet)
    (resAttrs : Attributes) (m : Metric) : Prop :=
  (∃ name ∈ familyNames m.kind (baseName P m.toMetricHeader),
      AcceptsName P.toGoRuntime selectors name) →
    ∀ n ∈ trackedNames P resAttrs m, n ∈ selectorDemandedNames P.toGoRuntime selectors knownNames

/-- The metric is a summary with quantile series and a name that ends in a family suffix, and
the selectors ask for it by one of its own components only. -/
structure AskedByComponent (P : Platform) (selectors : List GoString) (resAttrs : Attributes)
    (m : Metric) : Prop where
  summary : m.kind = .summary
  quantiles : baseName P m.toMetricHeader ∈ trackedNames P resAttrs m
  suffixed : (cutFamilySuffix (baseName P m.toMetricHeader)).isSome = true
  component : ∃ suffix ∈ summarySuffixes,
    AcceptsName P.toGoRuntime selectors (baseName P m.toMetricHeader ++ suffix)
  only : ∀ name ∈ familyNameVariants (baseName P m.toMetricHeader),
    ¬ AcceptsName P.toGoRuntime selectors name

theorem mem_selectorDemandedNames {R : GoRuntime} {selectors : List GoString}
    {knownNames : NameSet} {n : GoString} :
    n ∈ selectorDemandedNames R selectors knownNames ↔
      n ∈ knownNames ∧ ∃ name ∈ familyNameVariants n, AcceptsName R selectors name := by
  have one : ∀ s, (parseNameSelector R s).matchesSeriesName R n = true ↔
      ∃ name ∈ familyNameVariants n, ∃ sel, parse R s = .ok sel ∧
        (compileSelector sel).matchesName R name = true := by
    intro s
    unfold parseNameSelector NameSelector.matchesSeriesName
    cases parse R s with
    | error e => simp
    | ok sel => simp [compileSelector, CompiledSelector.matchesName]
  simp only [selectorDemandedNames, Finset.mem_filter, parseNameSelectors, List.any_map,
    List.any_eq_true, Function.comp_apply, one]
  refine and_congr_right (fun _ => ?_)
  constructor
  · rintro ⟨s, listed, name, variant, sel, parsed, accepted⟩
    exact ⟨name, variant, s, listed, sel, parsed, accepted⟩
  · rintro ⟨name, variant, s, listed, sel, parsed, accepted⟩
    exact ⟨s, listed, name, variant, sel, parsed, accepted⟩

private theorem mem_variants_self (n : GoString) : n ∈ familyNameVariants n := by
  simp [familyNameVariants]

theorem mem_variants_of_suffix {base suffix : GoString} (named : base ≠ [])
    (known : suffix ∈ familySuffixes) {name : GoString} :
    name ∈ familyNameVariants (base ++ suffix) ↔
      (∃ suffix' ∈ familySuffixes, name = base ++ suffix') ∨
        suffix ∈ summarySuffixes ∧ name = base := by
  have cut : cutFamilySuffix (base ++ suffix) = some (base, suffix) :=
    cutFamilySuffix_eq_some.mpr ⟨known, named, rfl⟩
  have longer : base ≠ base ++ suffix := by
    have held : ∀ suffix ∈ familySuffixes, suffix ≠ [] := by decide
    simp [held suffix known]
  have split : ∀ suffix ∈ familySuffixes, suffix ≠ lit "_bucket" ↔ suffix ∈ summarySuffixes := by
    decide
  have components : name ∈ [base ++ lit "_bucket", base ++ lit "_sum", base ++ lit "_count"] ↔
      ∃ suffix' ∈ familySuffixes, name = base ++ suffix' := by
    simp [familySuffixes]
  unfold familyNameVariants
  rw [cut]
  dsimp only [Option.getD_some]
  rw [List.cons_append, List.mem_cons, List.mem_append, components]
  by_cases summary : suffix ∈ summarySuffixes
  · rw [if_pos ⟨(split suffix known).mpr summary, longer⟩, List.mem_singleton]
    constructor
    · rintro (rfl | other)
      · exact Or.inl ⟨suffix, known, rfl⟩
      · exact other.imp_right (fun same => ⟨summary, same⟩)
    · exact fun member => Or.inr (member.imp_right And.right)
  · rw [if_neg (fun both => summary ((split suffix known).mp both.1))]
    constructor
    · rintro (rfl | member | none)
      · exact Or.inl ⟨suffix, known, rfl⟩
      · exact Or.inl member
      · cases none
    · rintro (member | ⟨absent, -⟩)
      · exact Or.inr (Or.inl member)
      · exact absurd absent summary

private theorem mem_variants_of_bare {base suffix : GoString}
    (bare : cutFamilySuffix base = none) (known : suffix ∈ summarySuffixes) :
    base ++ suffix ∈ familyNameVariants base := by
  unfold familyNameVariants
  rw [bare]
  simp only [summarySuffixes, List.mem_cons, List.not_mem_nil, or_false] at known
  rcases known with rfl | rfl <;> simp

/-- Whichever name of its family a selector accepts, it is a variant of every tracked name, but
for a component of a summary whose own name is cut. -/
private theorem variant_of_family {kind : MetricKind} {base n name : GoString} (named : base ≠ [])
    (tracked : n ∈ familyNames kind base) (family : name ∈ familyNames kind base) :
    name ∈ familyNameVariants n ∨
      (kind = .summary ∧ n = base ∧ (cutFamilySuffix base).isSome = true ∧
        ∃ suffix ∈ summarySuffixes, name = base ++ suffix) := by
  by_cases histogram : kind = .histogram
  · subst histogram
    obtain ⟨suffix, known, rfl⟩ := mem_histogramNames.mp tracked
    obtain ⟨suffix', known', rfl⟩ := mem_histogramNames.mp family
    exact Or.inl ((mem_variants_of_suffix named known).mpr (Or.inl ⟨suffix', known', rfl⟩))
  by_cases summary : kind = .summary
  · subst summary
    rcases mem_summaryNames.mp tracked with rfl | ⟨suffix, known, rfl⟩
    · rcases mem_summaryNames.mp family with rfl | ⟨suffix, known, rfl⟩
      · exact Or.inl (mem_variants_self _)
      · cases cut : cutFamilySuffix n with
        | none => exact Or.inl (mem_variants_of_bare cut known)
        | some parts => exact Or.inr ⟨rfl, rfl, rfl, suffix, known, rfl⟩
    · left
      rw [mem_variants_of_suffix named (summary_known known)]
      rcases mem_summaryNames.mp family with rfl | ⟨suffix', known', rfl⟩
      · exact Or.inr ⟨known, rfl⟩
      · exact Or.inl ⟨suffix', summary_known known', rfl⟩
  · rw [mem_plainNames histogram summary] at tracked family
    subst tracked
    subst family
    exact Or.inl (mem_variants_self _)

/-- For every selector list, metric and set of known names with the names of the metric: the
accounting covers the metric exactly when the metric is not a summary with a family suffix in
its name that is asked for by its own components only. -/
theorem selector_accounting_covers_iff {P : Platform} {knownNames : NameSet}
    {resAttrs : Attributes} {m : Metric} (selectors : List GoString)
    (named : baseName P m.toMetricHeader ≠ [])
    (known : ∀ n ∈ trackedNames P resAttrs m, n ∈ knownNames) :
    CoversMetric P selectors knownNames resAttrs m ↔
      ¬ AskedByComponent P selectors resAttrs m := by
  constructor
  · rintro covers ⟨summary, quantiles, -, ⟨suffix, component, accepted⟩, only⟩
    have family : baseName P m.toMetricHeader ++ suffix ∈
        familyNames m.kind (baseName P m.toMetricHeader) := by
      rw [summary, mem_summaryNames]
      exact Or.inr ⟨suffix, component, rfl⟩
    obtain ⟨-, name, variant, other⟩ :=
      mem_selectorDemandedNames.mp (covers ⟨_, family, accepted⟩ _ quantiles)
    exact only name variant other
  · rintro apart ⟨name, family, accepted⟩ n tracked
    rw [mem_selectorDemandedNames]
    refine ⟨known n tracked, ?_⟩
    have member := mem_familyNames_of_tracked tracked
    rcases variant_of_family named member family with variant | ⟨summary, rfl, cut, component⟩
    · exact ⟨name, variant, accepted⟩
    · by_contra only
      push Not at only
      obtain ⟨suffix, isComponent, rfl⟩ := component
      exact apart ⟨summary, tracked, cut, ⟨suffix, isComponent, accepted⟩, only⟩

/-- A summary of latencies with one quantile. -/
def latencySummary (name : GoString) : Metric :=
  ⟨⟨name, [], .summary⟩, [(⟨[], [0], []⟩ : SummaryDataPoint)]⟩

def latencyNames (name : GoString) : NameSet := {name, name ++ lit "_sum", name ++ lit "_count"}

private theorem known_latency (name : GoString) :
    ∀ n ∈ trackedNames plainPlatform [] (latencySummary name), n ∈ latencyNames name := by
  intro n tracked
  rcases mem_summaryNames.mp (mem_familyNames_of_tracked tracked) with rfl | ⟨suffix, known, rfl⟩
  · exact Finset.mem_insert_self _ _
  · revert suffix
    simp [summarySuffixes, latencyNames, baseName, plainPlatform, latencySummary]

def latencySelector : GoString := lit "\x7b__name__=\"latency_sum\"\x7d"

theorem bare_summary_is_covered :
    lit "latency" ∈ selectorDemandedNames plainPlatform.toGoRuntime [latencySelector]
      (latencyNames (lit "latency")) := by
  have bare : cutFamilySuffix (baseName plainPlatform
      (latencySummary (lit "latency")).toMetricHeader) = none := by
    decide +kernel
  have covers := (selector_accounting_covers_iff [latencySelector] (by decide)
    (known_latency (lit "latency"))).mpr (fun asked => by
      have suffixed := asked.suffixed
      rw [bare] at suffixed
      cases suffixed)
  refine covers ⟨lit "latency_sum", by decide, latencySelector, List.mem_singleton_self _,
    ⟨[⟨nameLabel, .eq, lit "latency_sum"⟩]⟩, by decide +kernel, by decide +kernel⟩ _ (by decide)

def suffixedSelector : GoString := lit "\x7b__name__=\"wait_sum_sum\"\x7d"

/-- A selector on one component of a summary called `wait_sum` lets the filter forward the
summary, and its quantiles are not accounted for. -/
theorem suffixed_summary_is_not_covered :
    ¬ ∀ (P : Platform) (selectors : List GoString) (knownNames : NameSet) (resAttrs : Attributes)
      (m : Metric), baseName P m.toMetricHeader ≠ [] →
        (∀ n ∈ trackedNames P resAttrs m, n ∈ knownNames) →
          CoversMetric P selectors knownNames resAttrs m := by
  intro covers
  have accounted := covers plainPlatform [suffixedSelector] (latencyNames (lit "wait_sum")) []
    (latencySummary (lit "wait_sum")) (by decide) (known_latency _)
    ⟨lit "wait_sum_sum", by decide, suffixedSelector, List.mem_singleton_self _,
      ⟨[⟨nameLabel, .eq, lit "wait_sum_sum"⟩]⟩, by decide +kernel, by decide +kernel⟩
    (lit "wait_sum") (by decide)
  exact absurd accounted (by decide +kernel)

end SignalAgent.Demand.SelectorAccounting
