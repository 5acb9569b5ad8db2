/- MID: SignalAgent/Demand/SeriesSelectors
   layer: results
   source: components/metricstracker/collector_timeseries.go, components/selectormatch/selector.go,
     components/demandfilter/selectors.go
   digest: The label part of a fingerprint is a selector for the series it was written for. -/

import SignalAgent.Demand.TrackerCoverage
import SignalAgent.Selectors.SelectorGrammar
import SignalAgent.Telemetry.CollectorTimeseries

set_option autoImplicit false
set_option relaxedAutoImplicit false

namespace SignalAgent.Demand.SeriesSelectors

open Foundations.GoMaps Foundations.GoQuote Foundations.GoSort Foundations.GoText
open Index.KnownCache (LabelPair)
open Selectors.SelectorMatch Selectors.SelectorGrammar
open Telemetry.CollectorTimeseries Telemetry.Pdata Telemetry.SeriesLabels Telemetry.SeriesTracker
open MetricFilter MetricFilterSpec TrackerCoverage

/-- What a fingerprint writes behind the metric name. -/
def labelPart (F : Fingerprinting) (labels : LabelMap) (order : List GoString) : GoString :=
  lit "\x7b" ++ (extractSortedLabelPairs labels order).zipIdx.flatMap
    (fun lp => writeLabel F lp.2 lp.1.name lp.1.value) ++ lit "\x7d"

def equality (lp : LabelPair) : Matcher := ⟨lp.name, .eq, lp.value⟩

/-- The selector that asks for each label of the series with its value. -/
def seriesSelector (labels : LabelMap) (order : List GoString) : Selector :=
  ⟨(extractSortedLabelPairs labels order).map equality⟩

/-- The view has every label of the series; a label it lacks counts as empty. -/
def Agrees (labels view : LabelMap) : Prop :=
  ∀ name value, labels.lookup name = some value → index view [] name = value

/-- Both sides of `strconv`: what `Quote` writes, `Unquote` reads. -/
def Unquotes (R : GoRuntime) (isPrint : Nat → Bool) : Prop :=
  ∀ value, R.unquote (quote isPrint value) = some value

section Text

variable {R : GoRuntime} {F : Fingerprinting} {labels : LabelMap} {order : List GoString}

private theorem space_nil : Space [] := fun _ member => absurd member List.not_mem_nil

private theorem clause_writeLabel (unquotes : Unquotes R F.isPrint) {lp : LabelPair}
    (named : LabelName false lp.name) :
    Clause R false (writeLabel F 0 lp.name lp.value) (equality lp) := by
  have token : Token R (0x22 :: (quoteBody F.isPrint lp.value ++ [0x22])) lp.value :=
    .quoted (escaped_quoteBody F.isPrint lp.value) (unquotes lp.value)
  have clause : Clause R false (lp.name ++ ([] ++ (opText .eq ++ ([] ++
      0x22 :: (quoteBody F.isPrint lp.value ++ [0x22]))))) ⟨lp.name, .eq, lp.value⟩ :=
    .mk named space_nil space_nil token nofun
  have equals : lit "=" = [0x3D] := rfl
  have written : writeLabel F 0 lp.name lp.value = lp.name ++ ([] ++ (opText .eq ++ ([] ++
      0x22 :: (quoteBody F.isPrint lp.value ++ [0x22])))) := by
    simp [writeLabel, quote, opText, equals]
  rw [written]
  exact clause

private theorem writeLabel_succ (i : Nat) (name value : GoString) :
    writeLabel F (i + 1) name value = 0x2C :: writeLabel F 0 name value := by
  have comma : lit "," = [0x2C] := rfl
  simp [writeLabel, comma]

private theorem clauses_writeLabels (unquotes : Unquotes R F.isPrint) (rest : List LabelPair) :
    ∀ (first : LabelPair) (i : Nat), (∀ lp ∈ first :: rest, LabelName false lp.name) →
      Clauses R false (writeLabel F 0 first.name first.value ++
        (rest.zipIdx (i + 1)).flatMap (fun lp => writeLabel F lp.2 lp.1.name lp.1.value))
        ((first :: rest).map equality) := by
  induction rest with
  | nil =>
    intro first i named
    simpa using Clauses.last (clause_writeLabel (F := F) unquotes (named first (by simp)))
  | cons second rest ih =>
    intro first i named
    have head := clause_writeLabel (F := F) unquotes (named first List.mem_cons_self)
    have tail := ih second (i + 1) (fun lp listed => named lp (List.mem_cons_of_mem _ listed))
    have joined := Clauses.cons head space_nil space_nil tail
    simpa [List.zipIdx_cons, writeLabel_succ] using joined

private theorem named_pairs (visits : IterationOrder labels order)
    (selectable : ∀ k ∈ labels, LabelName false k) :
    ∀ lp ∈ extractSortedLabelPairs labels order, LabelName false lp.name := by
  intro lp listed
  exact selectable _ (mem_of_lookup ((mem_extractSortedLabelPairs visits _ _).mp listed))

theorem parse_labelPart (unquotes : Unquotes R F.isPrint) (visits : IterationOrder labels order)
    (full : labels ≠ ∅) (selectable : ∀ k ∈ labels, LabelName false k) :
    parse R (labelPart F labels order) = .ok (seriesSelector labels order) := by
  have named := named_pairs visits selectable
  have some := mt (extractSortedLabelPairs_eq_nil_iff visits).mp full
  unfold labelPart seriesSelector
  cases pairs : extractSortedLabelPairs labels order with
  | nil => exact absurd pairs some
  | cons first rest =>
    rw [pairs] at named
    have clauses := clauses_writeLabels unquotes rest first 0 named
    have form := SelectorText.mk space_nil space_nil clauses .none space_nil space_nil
    have opening : lit "\x7b" = [0x7B] := rfl
    have closing : lit "\x7d" = [0x7D] := rfl
    refine parseWith_of_selectorText ?_
    simpa [List.zipIdx_cons, opening, closing] using form

theorem fingerprint_labelPart (metric : GoString) (visits : IterationOrder labels order)
    (full : labels ≠ ∅) :
    buildFingerprintString F metric labels order = metric ++ labelPart F labels order := by
  have some := mt (extractSortedLabelPairs_eq_nil_iff visits).mp full
  rw [← buildFingerprintFromEntry_extract F metric visits 0, buildFingerprintFromEntry,
    if_neg (by rwa [List.length_eq_zero_iff]), labelPart]
  simp only [List.append_assoc]

theorem matches_seriesSelector_iff (visits : IterationOrder labels order) (view : LabelMap) :
    (seriesSelector labels order).matchesLabels R view = true ↔ Agrees labels view := by
  simp only [Selector.matchesLabels, seriesSelector, List.all_map, List.all_eq_true,
    Function.comp_apply, Matcher.matchesLabels, equality, Matcher.matchValue]
  constructor
  · intro all name value found
    have listed := (mem_extractSortedLabelPairs visits name value).mpr found
    exact of_decide_eq_true (all ⟨name, value⟩ listed)
  · intro agrees lp listed
    have found := (mem_extractSortedLabelPairs visits lp.name lp.value).mp listed
    exact decide_eq_true (agrees lp.name lp.value found)

end Text

/-- The label view of the datapoint has the labels of the series that the filter compares. -/
def AgreesWhereFiltered (P : Platform) (labels : LabelMap) (p : Located) : Prop :=
  ∀ name value, labels.lookup name = some value → name ∉ ignoredLabels →
    index (seriesLabels P p) [] name = value

section Filter

variable {P : Platform} {F : Fingerprinting} {labels : LabelMap} {order : List GoString}

private theorem mem_located_filterBySelectors (raw : List GoString) (md : Metrics) (p : Located) :
    p ∈ located (filterBySelectors P (compileSelectors P.toGoRuntime raw) md) ↔
      p ∈ located md ∧ demandedBySelectors P raw p = true := by
  have filtered : located (filterBySelectors P (compileSelectors P.toGoRuntime raw) md) =
      (located md).filter (demandedBySelectors P raw) :=
    located_pruneMetrics _ _ md (fun resource scope m =>
      located_filterMetricDatapoints P raw resource scope m)
  rw [filtered, List.mem_filter]

private theorem selectorAccepts_seriesSelector (visits : IterationOrder labels order)
    (unnamed : nameLabel ∉ labels) (p : Located) (n : GoString) :
    selectorAccepts P (seriesSelector labels order) p n = true ↔
      AgreesWhereFiltered P labels p := by
  simp only [selectorAccepts, seriesSelector, List.all_map, List.all_eq_true, Function.comp_apply]
  constructor
  · intro all name value found compared
    have listed := (mem_extractSortedLabelPairs visits name value).mpr found
    have other : (equality ⟨name, value⟩).name ≠ nameLabel := by
      intro same
      exact unnamed (same ▸ mem_of_lookup found)
    have kept : (equality ⟨name, value⟩).name ∉ ignoredLabels := compared
    have accepted := all ⟨name, value⟩ listed
    rw [if_neg other, if_neg kept] at accepted
    exact of_decide_eq_true accepted
  · intro agrees lp listed
    have found := (mem_extractSortedLabelPairs visits lp.name lp.value).mp listed
    have other : lp.name ≠ nameLabel := fun same => unnamed (same ▸ mem_of_lookup found)
    by_cases ignored : lp.name ∈ ignoredLabels
    · simp [equality, other, ignored]
    · have same := agrees lp.name lp.value found ignored
      simp [equality, other, ignored, Matcher.matchValue, same]

private theorem selectorDemands_seriesSelector (visits : IterationOrder labels order)
    (unnamed : nameLabel ∉ labels) (p : Located) :
    selectorDemands P (seriesSelector labels order) p = true ↔
      seriesNames P p ≠ [] ∧ AgreesWhereFiltered P labels p := by
  simp only [selectorDemands, List.any_eq_true, selectorAccepts_seriesSelector visits unnamed]
  constructor
  · rintro ⟨n, named, agrees⟩
    exact ⟨List.ne_nil_of_mem named, agrees⟩
  · rintro ⟨some, agrees⟩
    obtain ⟨n, named⟩ := List.exists_mem_of_ne_nil _ some
    exact ⟨n, named, agrees⟩

end Filter

/-- The fingerprint of a series with labels is its metric followed by a selector. The selector
parses to one equality for each label, whatever had to be escaped; it matches exactly the label
sets that have those values; demanded alone it lets through exactly the datapoints whose view
agrees with the series outside the ignored labels; and demanded beside anything else it lets
through every datapoint that the tracker files under this series. -/
theorem fingerprint_selects_its_series (P : Platform) (F : Fingerprinting) (metric : GoString)
    {labels : LabelMap} {order : List GoString} (unquotes : Unquotes P.toGoRuntime F.isPrint)
    (visits : IterationOrder labels order) (full : labels ≠ ∅)
    (selectable : ∀ k ∈ labels, LabelName false k) (unnamed : nameLabel ∉ labels) (md : Metrics) :
    buildFingerprintString F metric labels order = metric ++ labelPart F labels order ∧
      parse P.toGoRuntime (labelPart F labels order) = .ok (seriesSelector labels order) ∧
      (∀ view, (seriesSelector labels order).matchesLabels P.toGoRuntime view = true ↔
        Agrees labels view) ∧
      (∀ p, p ∈ located (filterBySelectors P
          (compileSelectors P.toGoRuntime [labelPart F labels order]) md) ↔
        p ∈ located md ∧ seriesNames P p ≠ [] ∧ AgreesWhereFiltered P labels p) ∧
      ∀ raw, labelPart F labels order ∈ raw → ∀ p ∈ located md, ∀ series ∈ seriesOf P p,
        series.labels = labels →
          p ∈ located (filterBySelectors P (compileSelectors P.toGoRuntime raw) md) := by
  have parsed := parse_labelPart unquotes visits full selectable
  refine ⟨fingerprint_labelPart metric visits full, parsed, matches_seriesSelector_iff visits,
    ?_, ?_⟩
  · intro p
    rw [mem_located_filterBySelectors, ← selectorDemands_seriesSelector visits unnamed]
    simp [demandedBySelectors, parsed]
  · intro raw listed p inside series tracked same
    have covered := covered_of_mem_seriesOf P p series tracked
    have demanded : selectorDemands P (seriesSelector labels order) p = true := by
      refine (selectorDemands_seriesSelector visits unnamed p).mpr
        ⟨List.ne_nil_of_mem covered.name, fun name value found compared => ?_⟩
      rw [index, ← covered.labels name compared, same, found]
      rfl
    refine (mem_located_filterBySelectors raw md p).mpr ⟨inside, ?_⟩
    rw [demandedBySelectors, List.any_eq_true]
    exact ⟨_, listed, by simpa [parsed] using demanded⟩

/-- A platform whose `Unquote` reads the escapes. -/
def readingPlatform : Platform :=
  { plainPlatform with unquote := fun token => some (unquoteBody (token.drop 1).dropLast) }

private theorem unquotes_readingPlatform (isPrint : Nat → Bool) :
    Unquotes readingPlatform.toGoRuntime isPrint := by
  intro value
  have inside : ((quote isPrint value).drop 1).dropLast = quoteBody isPrint value := by
    simp [quote]
  show some (unquoteBody ((quote isPrint value).drop 1).dropLast) = some value
  rw [inside, unquoteBody_quoteBody]

def plainText : Fingerprinting := ⟨fun r => 0x20 ≤ r && r < 0x7F, fun _ => (0, 0)⟩

/-- A label value with a quote and a line feed in it. -/
def oddLabels : LabelMap := (∅ : LabelMap).insert (lit "mode") (lit "a\"\n")

theorem escaped_value_is_selected :
    parse readingPlatform.toGoRuntime (lit "\x7bmode=\"a\\\"\\n\"\x7d") =
      .ok ⟨[⟨lit "mode", .eq, lit "a\"\n"⟩]⟩ ∧
      buildFingerprintString plainText (lit "cpu") oddLabels [lit "mode"] =
        lit "cpu\x7bmode=\"a\\\"\\n\"\x7d" := by
  have named : ∀ k ∈ oddLabels, k = lit "mode" := by
    intro k member
    rcases Finmap.mem_insert.mp member with rfl | absent
    · rfl
    · exact absurd absent Finmap.notMem_empty
  have selectable : ∀ k ∈ oddLabels, LabelName false k := by
    intro k member
    rw [named k member]
    exact .mk rfl (List.all_eq_true.mp rfl)
  have unnamed : nameLabel ∉ oddLabels := fun member => absurd (named _ member) (by decide)
  have full : oddLabels ≠ ∅ := by decide +kernel
  obtain ⟨fingerprint, parsed, -⟩ := fingerprint_selects_its_series readingPlatform plainText
    (lit "cpu") (unquotes_readingPlatform plainText.isPrint)
    (show IterationOrder oddLabels [lit "mode"] by decide +kernel) full selectable unnamed []
  have text : labelPart plainText oddLabels [lit "mode"] =
      lit "\x7bmode=\"a\\\"\\n\"\x7d" := by decide +kernel
  rw [text] at fingerprint parsed
  refine ⟨?_, ?_⟩
  · rw [parsed]
    decide +kernel
  · rw [fingerprint]
    decide +kernel

end SignalAgent.Demand.SeriesSelectors
