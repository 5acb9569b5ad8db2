/- MID: SignalAgent/Demand/MetricFilterSpec
   layer: results
   source: components/demandfilter/selectors.go, components/demandfilter/processor.go
   digest: Both filter modes are filters on datapoints; selector mode is its plain specification. -/

import SignalAgent.Demand.MetricFilter

set_option autoImplicit false
set_option relaxedAutoImplicit false

namespace SignalAgent.Demand.MetricFilterSpec

open Foundations.GoMaps Foundations.GoText
open Selectors.SelectorMatch
open Telemetry.Pdata Telemetry.SeriesLabels
open MetricFilter

/-- The series names a located datapoint stands for. -/
def seriesNames (P : Platform) (p : Located) : List GoString :=
  familyNames p.header.kind (baseName P p.header)

/-- The label view of the datapoint without extra labels. -/
def seriesLabels (P : Platform) (p : Located) : LabelMap :=
  buildSeriesLabels P.toGoRuntime p.resource p.attributes []

/-- One parsed selector demands the datapoint under one of its names. -/
def selectorAccepts (P : Platform) (sel : Selector) (p : Located) (n : GoString) : Bool :=
  sel.matchers.all (fun m =>
    if m.name = nameLabel then m.matchValue P.toGoRuntime n
    else if m.name ∈ ignoredLabels then true
    else m.matchValue P.toGoRuntime (index (seriesLabels P p) [] m.name))

def selectorDemands (P : Platform) (sel : Selector) (p : Located) : Bool :=
  (seriesNames P p).any (selectorAccepts P sel p)

/-- The plain specification: some raw selector that parses demands the datapoint. -/
def demandedBySelectors (P : Platform) (raw : List GoString) (p : Located) : Bool :=
  raw.any (fun s =>
    match parse P.toGoRuntime s with
    | .ok sel => selectorDemands P sel p
    | .error _ => false)

theorem seriesValue_eq (R : GoRuntime) (resource point : Attributes) (name : GoString) :
    seriesValue (putAttributes R ∅ point) (resourceLabelMap R resource) name =
      index (buildSeriesLabels R resource point []) [] name := by
  rw [index, lookup_buildSeriesLabels_nil, seriesValue]
  cases (putAttributes R ∅ point).lookup name with
  | some v => rfl
  | none => rfl

private theorem selectorAccepts_iff (P : Platform) (sel : Selector) (p : Located) (n : GoString) :
    selectorAccepts P sel p n = true ↔
      (compileSelector sel).matchesName P.toGoRuntime n = true ∧
        ∀ lm ∈ (compileSelector sel).labelMatchers,
          lm.matchValue P.toGoRuntime (index (seriesLabels P p) [] lm.name) = true := by
  simp only [selectorAccepts, compileSelector, CompiledSelector.matchesName, List.all_eq_true,
    List.mem_filter, decide_eq_true_eq]
  constructor
  · intro all
    constructor
    · rintro m ⟨listed, isName⟩
      simpa [isName] using all m listed
    · rintro m ⟨listed, notName, kept⟩
      simpa [notName, kept] using all m listed
  · rintro ⟨names, labels⟩ m listed
    split
    · exact names m ⟨listed, ‹_›⟩
    · split
      · rfl
      · exact labels m ⟨listed, ‹_›, ‹_›⟩

theorem demandedBySelectors_iff (P : Platform) (raw : List GoString) (p : Located) :
    demandedBySelectors P raw p = true ↔
      ∃ cs ∈ (compileSelectors P.toGoRuntime raw).candidatesFor P.toGoRuntime (seriesNames P p),
        ∀ lm ∈ cs.labelMatchers,
          lm.matchValue P.toGoRuntime (index (seriesLabels P p) [] lm.name) = true := by
  simp only [demandedBySelectors, List.any_eq_true, mem_candidatesFor_compileSelectors]
  constructor
  · rintro ⟨s, listed, demanded⟩
    cases parsed : parse P.toGoRuntime s with
    | error e => simp [parsed] at demanded
    | ok sel =>
      simp only [parsed, selectorDemands, List.any_eq_true] at demanded
      obtain ⟨n, named, accepted⟩ := demanded
      obtain ⟨name, labels⟩ := (selectorAccepts_iff P sel p n).mp accepted
      exact ⟨_, ⟨s, listed, sel, parsed, rfl, n, named, name⟩, labels⟩
  · rintro ⟨cs, ⟨s, listed, sel, parsed, rfl, n, named, name⟩, labels⟩
    refine ⟨s, listed, ?_⟩
    simp only [parsed, selectorDemands, List.any_eq_true]
    exact ⟨n, named, (selectorAccepts_iff P sel p n).mpr ⟨name, labels⟩⟩

theorem matchDP_iff (R : GoRuntime) (cands : List CompiledSelector) (resource point : Attributes) :
    matchDP R cands (resourceLabelMap R resource) point = true ↔
      ∃ cs ∈ cands, ∀ lm ∈ cs.labelMatchers,
        lm.matchValue R (index (buildSeriesLabels R resource point []) [] lm.name) = true := by
  simp only [matchDP, List.any_eq_true, List.all_eq_true, seriesValue_eq]

private theorem located_filter_points (m : Metric) (resource : Attributes) (scope : List UInt8)
    (test : m.kind.Point → Bool) (select : Located → Bool)
    (same : ∀ dp, test dp = select ⟨resource, scope, m.toMetricHeader, dp⟩) :
    ({ m with points := m.points.filter test } : Metric).located resource scope =
      (m.located resource scope).filter select := by
  have equal : test = select ∘ (fun dp => ⟨resource, scope, m.toMetricHeader, dp⟩) := funext same
  simp only [Metric.located, List.filter_map, equal]

theorem located_filterMetricDatapoints (P : Platform) (raw : List GoString) (resource : Attributes)
    (scope : List UInt8) (m : Metric) :
    (filterMetricDatapoints P (compileSelectors P.toGoRuntime raw)
        (resourceLabelMap P.toGoRuntime resource) m).elim [] (fun m => m.located resource scope) =
      (m.located resource scope).filter (demandedBySelectors P raw) := by
  have demanded := fun dp =>
    demandedBySelectors_iff P raw ⟨resource, scope, m.toMetricHeader, dp⟩
  unfold filterMetricDatapoints
  dsimp only [seriesNames] at demanded ⊢
  set cands := (compileSelectors P.toGoRuntime raw).candidatesFor P.toGoRuntime
    (familyNames m.kind (baseName P m.toMetricHeader)) with cands_def
  split
  · rename_i none
    symm
    simp only [Option.elim_none, Metric.located, List.filter_eq_nil_iff, List.mem_map]
    rintro _ ⟨dp, -, rfl⟩ wanted
    obtain ⟨cs, listed, -⟩ := (demanded dp).mp wanted
    rw [none] at listed
    cases listed
  · split
    · -- The fast path keeps the metric whole.
      rename_i free
      obtain ⟨cs, listed, bare⟩ := List.any_eq_true.mp free
      symm
      simp only [Option.elim_some, Metric.located, List.filter_eq_self, List.mem_map]
      rintro _ ⟨dp, -, rfl⟩
      refine (demanded dp).mpr ⟨cs, listed, fun lm member => ?_⟩
      rw [List.isEmpty_iff.mp bare] at member
      cases member
    · have points := located_filter_points m resource scope
        (fun dp => matchDP P.toGoRuntime cands (resourceLabelMap P.toGoRuntime resource)
          (m.kind.attributes dp)) (demandedBySelectors P raw)
        (fun dp => Bool.eq_iff_iff.mpr ((matchDP_iff _ _ _ _).trans (demanded dp).symm))
      split
      · exact points
      · rename_i none
        rw [← points, Option.elim_none, Metric.located,
          List.eq_nil_of_length_eq_zero (Nat.eq_zero_of_not_pos none)]
        rfl

/-- Selector mode keeps exactly the datapoints the plain specification demands, in their
order and unchanged. -/
theorem filterBySelectors_is_plain_filter (P : Platform) (raw : List GoString) (md : Metrics) :
    located (filterBySelectors P (compileSelectors P.toGoRuntime raw) md) =
      (located md).filter (demandedBySelectors P raw) :=
  located_pruneMetrics _ _ md (fun resource scope m =>
    located_filterMetricDatapoints P raw resource scope m)

/-- Selector mode applies the plain specification of some list with any property that the
cached list and the demanded list share; the cache keeps that property. -/
theorem consumeSelectorMode_spec (P : Platform) {ok : List GoString → Prop}
    {cache : SelectorCache} {raw : List GoString}
    (cached : ∀ set, cache.selCachedSet = some set →
      ∃ raw, ok raw ∧ set = compileSelectors P.toGoRuntime raw)
    (new : ok raw) (md : Metrics) :
    (∀ set, (consumeSelectorMode P cache raw md).2.selCachedSet = some set →
        ∃ raw, ok raw ∧ set = compileSelectors P.toGoRuntime raw) ∧
      ∀ out, (consumeSelectorMode P cache raw md).1 = some out →
        ∃ raw, ok raw ∧ located out = (located md).filter (demandedBySelectors P raw) := by
  have got : (∃ list, ok list ∧ (parsedSelectors P.toGoRuntime cache raw).1 =
        compileSelectors P.toGoRuntime list) ∧
      ∀ set, (parsedSelectors P.toGoRuntime cache raw).2.selCachedSet = some set →
        ∃ raw, ok raw ∧ set = compileSelectors P.toGoRuntime raw := by
    have fresh : (∃ list, ok list ∧ compileSelectors P.toGoRuntime raw =
          compileSelectors P.toGoRuntime list) ∧
        ∀ set, some (compileSelectors P.toGoRuntime raw) = some set →
          ∃ raw, ok raw ∧ set = compileSelectors P.toGoRuntime raw :=
      ⟨⟨raw, new, rfl⟩, fun set same => ⟨raw, new, (Option.some.inj same).symm⟩⟩
    unfold parsedSelectors
    split
    · rename_i set held
      dsimp only
      split
      · exact ⟨cached set held, cached⟩
      · exact fresh
    · exact fresh
  unfold consumeSelectorMode
  dsimp only
  split
  · exact ⟨got.2, nofun⟩
  · refine ⟨got.2, ?_⟩
    rintro _ ⟨rfl⟩
    obtain ⟨list, good, same⟩ := got.1
    refine ⟨list, good, ?_⟩
    rw [same]
    exact located_pruneMetrics _ _ md (fun resource scope m =>
      located_filterMetricDatapoints P list resource scope m)

theorem located_filterByNames (P : Platform) (demands : List GoString) (md : Metrics) :
    located (filterByNames P demands md) =
      (located md).filter (fun p => isMetricDemanded P demands p.header) := by
  refine located_pruneMetrics _ _ md (fun resource scope m => ?_)
  split
  · rename_i demanded
    symm
    simp only [Option.elim_some, Metric.located, List.filter_eq_self, List.mem_map]
    rintro _ ⟨dp, -, rfl⟩
    exact demanded
  · rename_i refused
    symm
    simp only [Option.elim_none, Metric.located, List.filter_eq_nil_iff, List.mem_map]
    rintro _ ⟨dp, -, rfl⟩
    exact refused

theorem exists_familyName_of_isMetricDemanded {P : Platform} {demands : List GoString}
    {m : MetricHeader} (demanded : isMetricDemanded P demands m = true) :
    ∃ n ∈ familyNames m.kind (baseName P m), n ∈ demands := by
  unfold isMetricDemanded at demanded
  unfold familyNames
  cases kind : m.kind <;> simp_all [or_assoc]

theorem isMetricDemanded_iff {P : Platform} {demands : List GoString} {m : MetricHeader}
    (data : m.kind ≠ .empty) :
    isMetricDemanded P demands m = true ↔
      ∃ n ∈ familyNames m.kind (baseName P m), n ∈ demands := by
  refine ⟨exists_familyName_of_isMetricDemanded, ?_⟩
  unfold isMetricDemanded familyNames
  cases kind : m.kind with
  | empty => exact absurd kind data
  | _ => simp [or_assoc]

end SignalAgent.Demand.MetricFilterSpec
