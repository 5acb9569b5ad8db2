/- MID: SignalAgent/Demand/TrackerCoverage
   layer: results
   source: components/metricstracker/processor.go, components/demandfilter/selectors.go
   digest: A datapoint with an indexed series that a demanded selector matches is forwarded. -/

import SignalAgent.Demand.MetricFilterSpec
import SignalAgent.Telemetry.SeriesTracker

set_option autoImplicit false
set_option relaxedAutoImplicit false

namespace SignalAgent.Demand.TrackerCoverage

open Foundations.GoMaps Foundations.GoText
open Selectors.SelectorMatch
open Telemetry.Pdata Telemetry.SeriesLabels Telemetry.SeriesTracker
open MetricFilter MetricFilterSpec

/-- A tracked series carries a name of the filter's family and, outside the ignored labels,
the labels the filter reads. -/
structure Covered (P : Platform) (p : Located) (series : Series) : Prop where
  name : series.name ∈ seriesNames P p
  labels : ∀ label, label ∉ ignoredLabels →
    series.labels.lookup label = (seriesLabels P p).lookup label

private theorem covered_plain (P : Platform) (p : Located) {name : GoString}
    (named : name ∈ seriesNames P p) :
    Covered P p (processPromSeries P.toGoRuntime name p.resource p.attributes []) :=
  ⟨named, fun _ _ => rfl⟩

private theorem covered_extra (P : Platform) (p : Located) {name : GoString}
    (named : name ∈ seriesNames P p) {extra value : GoString}
    (ignored : normalizeLabelName P.toGoRuntime extra ∈ ignoredLabels) :
    Covered P p
      (processPromSeries P.toGoRuntime name p.resource p.attributes [(extra, value)]) := by
  refine ⟨named, fun label kept => ?_⟩
  rw [processPromSeries, lookup_buildSeriesLabels_single, if_neg]
  · rfl
  · rintro rfl
    exact kept ignored

private theorem le_ignored (R : GoRuntime) : normalizeLabelName R (lit "le") ∈ ignoredLabels := by
  rw [normalizeLabelName_le]
  decide

private theorem quantile_ignored (R : GoRuntime) :
    normalizeLabelName R (lit "quantile") ∈ ignoredLabels := by
  rw [normalizeLabelName_quantile]
  decide

theorem covered_of_mem_seriesOf (P : Platform) (p : Located) (series : Series)
    (tracked : series ∈ seriesOf P p) : Covered P p series := by
  obtain ⟨resource, scope, ⟨name, unit, kind⟩, point⟩ := p
  cases kind with
  | empty => cases point
  | gauge =>
    obtain rfl := List.mem_singleton.mp tracked
    exact covered_plain P ⟨resource, scope, ⟨name, unit, .gauge⟩, point⟩
      (by simp [seriesNames, familyNames])
  | sum isMonotonic temporality =>
    obtain rfl := List.mem_singleton.mp tracked
    exact covered_plain P ⟨resource, scope, ⟨name, unit, .sum isMonotonic temporality⟩, point⟩
      (by simp [seriesNames, familyNames])
  | histogram =>
    simp only [seriesOf, pointSeries, histogramSeries, List.mem_append, List.mem_map,
      List.mem_singleton] at tracked
    rcases tracked with ((⟨bound, -, rfl⟩ | rfl) | sum) | rfl
    · exact covered_extra P ⟨resource, scope, ⟨name, unit, .histogram⟩, point⟩
        (by simp [seriesNames, familyNames]) (le_ignored _)
    · exact covered_extra P ⟨resource, scope, ⟨name, unit, .histogram⟩, point⟩
        (by simp [seriesNames, familyNames]) (le_ignored _)
    · split at sum
      · obtain rfl := List.mem_singleton.mp sum
        exact covered_plain P ⟨resource, scope, ⟨name, unit, .histogram⟩, point⟩
          (by simp [seriesNames, familyNames])
      · cases sum
    · exact covered_plain P ⟨resource, scope, ⟨name, unit, .histogram⟩, point⟩
        (by simp [seriesNames, familyNames])
  | exponentialHistogram =>
    obtain rfl := List.mem_singleton.mp tracked
    exact covered_plain P ⟨resource, scope, ⟨name, unit, .exponentialHistogram⟩, point⟩
      (by simp [seriesNames, familyNames])
  | summary =>
    simp only [seriesOf, pointSeries, summarySeries, List.mem_append, List.mem_map, List.mem_cons,
      List.not_mem_nil, or_false] at tracked
    rcases tracked with ⟨quantile, -, rfl⟩ | rfl | rfl
    · exact covered_extra P ⟨resource, scope, ⟨name, unit, .summary⟩, point⟩
        (by simp [seriesNames, familyNames]) (quantile_ignored _)
    · exact covered_plain P ⟨resource, scope, ⟨name, unit, .summary⟩, point⟩
        (by simp [seriesNames, familyNames])
    · exact covered_plain P ⟨resource, scope, ⟨name, unit, .summary⟩, point⟩
        (by simp [seriesNames, familyNames])

theorem selectorDemands_of_covered {P : Platform} {p : Located} {series : Series}
    (covered : Covered P p series) {sel : Selector}
    (matched :
      sel.matchesLabels P.toGoRuntime (series.labels.insert nameLabel series.name) = true) :
    selectorDemands P sel p = true := by
  simp only [Selector.matchesLabels, List.all_eq_true, Matcher.matchesLabels, index,
    lookup_insert_eq] at matched
  simp only [selectorDemands, List.any_eq_true, selectorAccepts, List.all_eq_true]
  refine ⟨series.name, covered.name, fun m listed => ?_⟩
  have accepted := matched m listed
  split
  · rename_i isName
    simpa [isName] using accepted
  · rename_i notName
    split
    · rfl
    · rename_i kept
      simpa [notName, index, covered.labels m.name kept] using accepted

private theorem add_not_empty (set : CompiledSelectorSet) (cs : CompiledSelector) :
    (set.add cs).empty = false := by
  unfold CompiledSelectorSet.add CompiledSelectorSet.empty
  split
  · rename_i name _
    have member : name ∈ (set.byName.insert name (index set.byName [] name ++ [cs])).keys :=
      Finmap.mem_keys.mpr (Finmap.mem_insert.mpr (Or.inl rfl))
    have positive := Finset.card_pos.mpr ⟨name, member⟩
    simp [positive.ne']
  · simp

private theorem compileSelectors_not_empty {R : GoRuntime} {raw : List GoString} {s : GoString}
    {sel : Selector} (listed : s ∈ raw) (parsed : parse R s = .ok sel) :
    (compileSelectors R raw).empty = false := by
  induction raw using List.reverseRecOn with
  | nil => cases listed
  | append_singleton raw last ih =>
    rw [compileSelectors_concat, CompiledSelectorSet.addRaw]
    rcases List.mem_append.mp listed with earlier | here
    · split
      · exact add_not_empty _ _
      · exact ih earlier
    · obtain rfl := List.mem_singleton.mp here
      rw [parsed]
      exact add_not_empty _ _

/-- With a demanded selector that parses, selector mode hands the filtered batch on, and the
filter keeps every datapoint with a tracked series the selector matches. -/
theorem matching_series_is_forwarded (P : Platform) (md : Metrics) (raw : List GoString)
    (s : GoString) (sel : Selector) (listed : s ∈ raw) (parsed : parse P.toGoRuntime s = .ok sel) :
    (∀ cache, (parsedSelectors P.toGoRuntime cache raw).1 = compileSelectors P.toGoRuntime raw →
        (consumeSelectorMode P cache raw md).1 =
          some (filterBySelectors P (compileSelectors P.toGoRuntime raw) md)) ∧
      ∃ keep, located (filterBySelectors P (compileSelectors P.toGoRuntime raw) md) =
          (located md).filter keep ∧
        ∀ p ∈ located md, ∀ series ∈ seriesOf P p,
          sel.matchesLabels P.toGoRuntime (series.labels.insert nameLabel series.name) = true →
            keep p = true := by
  have filtered : located (filterBySelectors P (compileSelectors P.toGoRuntime raw) md) =
      (located md).filter (demandedBySelectors P raw) :=
    located_pruneMetrics _ _ md (fun resource scope m =>
      located_filterMetricDatapoints P raw resource scope m)
  refine ⟨fun cache current => ?_, demandedBySelectors P raw, filtered, ?_⟩
  · have some := compileSelectors_not_empty listed parsed
    simp [consumeSelectorMode, current, some]
  · intro p _ series tracked matched
    have covered := covered_of_mem_seriesOf P p series tracked
    have demanded := selectorDemands_of_covered covered matched
    rw [demandedBySelectors, List.any_eq_true]
    exact ⟨s, listed, by simpa [parsed] using demanded⟩

/-- One gauge point of the metric `cpu` in mode idle. -/
def idlePoint : Located :=
  ⟨[(lit "service.name", .string (lit "node"))], [], ⟨lit "cpu", [], .gauge⟩,
    (⟨[(lit "mode", .string (lit "idle"))], [7]⟩ : NumberDataPoint)⟩

def idleBatch : Metrics :=
  [⟨idlePoint.resource, [⟨[], [⟨idlePoint.header, [idlePoint.point]⟩]⟩]⟩]

def idleSelector : Selector :=
  ⟨[⟨lit "__name__", .eq, lit "cpu"⟩, ⟨lit "mode", .re, lit "idle"⟩, ⟨lit "job", .eq, lit "node"⟩]⟩

def idleText : GoString := lit "\x7b__name__=\"cpu\",mode=~\"idle\",job=\"node\"\x7d"

theorem idle_series_is_forwarded :
    parse plainPlatform.toGoRuntime idleText = .ok idleSelector ∧
      ∃ out keep, (consumeSelectorMode plainPlatform SelectorCache.initial [idleText] idleBatch).1 =
        some out ∧ located out = (located idleBatch).filter keep ∧ keep idlePoint = true := by
  have parsed : parse plainPlatform.toGoRuntime idleText = .ok idleSelector := by decide +kernel
  obtain ⟨forwarded, keep, filtered, kept⟩ := matching_series_is_forwarded plainPlatform
    idleBatch [idleText] idleText idleSelector (by simp) parsed
  have member : idlePoint ∈ located idleBatch := List.mem_singleton.mpr rfl
  have tracked : processPromSeries plainPlatform.toGoRuntime (lit "cpu") idlePoint.resource
      idlePoint.attributes [] ∈ seriesOf plainPlatform idlePoint := List.mem_singleton.mpr rfl
  have matched := kept idlePoint member _ tracked (by decide +kernel)
  exact ⟨parsed, _, keep, forwarded SelectorCache.initial rfl, filtered, matched⟩

end SignalAgent.Demand.TrackerCoverage
