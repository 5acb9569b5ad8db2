/- MID: SignalAgent/Demand/NameSelectors
   layer: results
   source: components/demandfilter/processor.go, components/demandfilter/selectors.go
   digest: A list of names and the selectors that quote those names forward the same batch. -/

import SignalAgent.Demand.CacheTransparency
import SignalAgent.Demand.MetricFilterSpec
import SignalAgent.Selectors.SelectorGrammar

set_option autoImplicit false
set_option relaxedAutoImplicit false

namespace SignalAgent.Demand.NameSelectors

open Foundations.GoMaps Foundations.GoText Foundations.GoQuote Foundations.LastAnswer
open Selectors.SelectorGrammar Selectors.SelectorMatch
open Telemetry.Pdata Telemetry.SeriesLabels
open MetricFilter MetricFilterSpec
open CacheTransparency (JoinedApart joined metricSelectors_after)

/-- The selector that demands one exact series name. -/
def nameSelector (isPrint : Nat → Bool) (name : GoString) : GoString :=
  lit "\x7b__name__=" ++ quote isPrint name ++ lit "\x7d"

/-- Every metric of the batch has one of the five data types. -/
def CarriesData (md : Metrics) : Prop :=
  ∀ rm ∈ md, ∀ sm ∈ rm.scopeMetrics, ∀ m ∈ sm.metrics, m.kind ≠ .empty

section Names

variable {R : GoRuntime} {isPrint : Nat → Bool} {demands : List GoString}

theorem parse_nameSelector {name : GoString}
    (unquoted : R.unquote (quote isPrint name) = some name) :
    parse R (nameSelector isPrint name) = .ok ⟨[⟨nameLabel, .eq, name⟩]⟩ := by
  have text : nameSelector isPrint name =
      0x7B :: (nameLabel ++ 0x3D :: ([0x22] ++ quoteBody isPrint name ++ [0x22, 0x7D])) := by
    have opening : lit "\x7b__name__=" = 0x7B :: (nameLabel ++ [0x3D]) := by decide
    have closing : lit "\x7d" = [0x7D] := by decide
    rw [nameSelector, quote, opening, closing]
    simp
  have label : nameLabel = 0x5F :: [0x5F, 0x6E, 0x61, 0x6D, 0x65, 0x5F, 0x5F] := by decide
  have part : ∀ b ∈ [0x5F, 0x6E, 0x61, 0x6D, 0x65, 0x5F, 0x5F], namePart false b = true :=
    List.all_eq_true.mp rfl
  rw [text, label]
  exact parseWith_equality rfl part (escaped_quoteBody isPrint name) unquoted

private theorem compileSelector_name (name : GoString) :
    compileSelector ⟨[⟨nameLabel, .eq, name⟩]⟩ = ⟨[⟨nameLabel, .eq, name⟩], []⟩ := by
  simp [compileSelector]

theorem mem_candidatesFor_names
    (unquoted : ∀ d ∈ demands, R.unquote (quote isPrint d) = some d) (names : List GoString)
    (cand : CompiledSelector) :
    cand ∈ (compileSelectors R (demands.map (nameSelector isPrint))).candidatesFor R names ↔
      ∃ d ∈ demands, d ∈ names ∧ cand = ⟨[⟨nameLabel, .eq, d⟩], []⟩ := by
  rw [mem_candidatesFor_compileSelectors]
  constructor
  · rintro ⟨s, listed, sel, parsed, rfl, n, named, accepted⟩
    obtain ⟨d, demanded, rfl⟩ := List.mem_map.mp listed
    rw [parse_nameSelector (unquoted d demanded)] at parsed
    obtain rfl := Except.ok.inj parsed
    have pinned : n = d := by
      simpa [compileSelector_name, CompiledSelector.matchesName, Matcher.matchValue] using accepted
    exact ⟨d, demanded, pinned ▸ named, compileSelector_name d⟩
  · rintro ⟨d, demanded, named, rfl⟩
    refine ⟨_, List.mem_map_of_mem demanded, _, parse_nameSelector (unquoted d demanded),
      (compileSelector_name d).symm, d, named, ?_⟩
    simp [CompiledSelector.matchesName, Matcher.matchValue]

private theorem compileSelectors_names_not_empty
    (unquoted : ∀ d ∈ demands, R.unquote (quote isPrint d) = some d) (asked : demands ≠ []) :
    (compileSelectors R (demands.map (nameSelector isPrint))).empty = false := by
  obtain ⟨d, demanded⟩ := List.exists_mem_of_ne_nil _ asked
  have found := (mem_candidatesFor_names unquoted [d] _).mpr
    ⟨d, demanded, List.mem_singleton_self d, rfl⟩
  by_contra empty
  rw [Bool.not_eq_false, CompiledSelectorSet.empty, Bool.and_eq_true, decide_eq_true_eq,
    decide_eq_true_eq] at empty
  have unnamed : (compileSelectors R (demands.map (nameSelector isPrint))).byName.lookup d =
      none := by
    rw [Finmap.lookup_eq_none, ← Finmap.mem_keys, Finset.card_eq_zero.mp empty.1]
    exact Finset.notMem_empty d
  simp [CompiledSelectorSet.candidatesFor, index, unnamed,
    List.eq_nil_of_length_eq_zero empty.2] at found

end Names

theorem filterMetricDatapoints_names {P : Platform} {isPrint : Nat → Bool}
    {demands : List GoString}
    (unquoted : ∀ d ∈ demands, P.unquote (quote isPrint d) = some d) (resLabels : LabelMap)
    {m : Metric} (data : m.kind ≠ .empty) :
    filterMetricDatapoints P
        (compileSelectors P.toGoRuntime (demands.map (nameSelector isPrint))) resLabels m =
      if isMetricDemanded P demands m.toMetricHeader then some m else none := by
  have candidates := mem_candidatesFor_names unquoted
    (familyNames m.kind (baseName P m.toMetricHeader))
  unfold filterMetricDatapoints
  dsimp only
  by_cases demanded : isMetricDemanded P demands m.toMetricHeader = true
  · rw [if_pos demanded]
    obtain ⟨n, named, wanted⟩ := (isMetricDemanded_iff data).mp demanded
    have found := (candidates _).mpr ⟨n, wanted, named, rfl⟩
    rw [if_neg (List.ne_nil_of_mem found), if_pos (List.any_eq_true.mpr ⟨_, found, rfl⟩)]
  · rw [if_neg demanded, if_pos]
    refine List.eq_nil_iff_forall_not_mem.mpr (fun cand listed => ?_)
    obtain ⟨d, wanted, named, -⟩ := (candidates cand).mp listed
    exact demanded ((isMetricDemanded_iff data).mpr ⟨d, named, wanted⟩)

private theorem consumeMetrics_selectors {P : Platform} {isPrint : Nat → Bool}
    {cache : SelectorCache} {demands others : List GoString} (asked : demands ≠ [])
    (answers : (parsedSelectors P.toGoRuntime cache (demands.map (nameSelector isPrint))).1 =
      compileSelectors P.toGoRuntime (demands.map (nameSelector isPrint))) {md : Metrics} :
    (consumeMetrics P true cache (demands.map (nameSelector isPrint)) others md).1 =
      if (compileSelectors P.toGoRuntime (demands.map (nameSelector isPrint))).empty then none
      else some (filterBySelectors P
        (compileSelectors P.toGoRuntime (demands.map (nameSelector isPrint))) md) := by
  have named : demands.map (nameSelector isPrint) ≠ [] := by simpa using asked
  rw [consumeMetrics, if_pos ⟨rfl, named⟩, consumeSelectorMode, answers]
  split <;> rfl

private theorem consumeMetrics_names {P : Platform} {isPrint : Nat → Bool}
    {nameCache : SelectorCache} {provider : Bool} {demands : List GoString}
    (asked : demands ≠ []) (unquoted : ∀ d ∈ demands, P.unquote (quote isPrint d) = some d)
    {md : Metrics} (data : CarriesData md) :
    (consumeMetrics P provider nameCache [] demands md).1 =
      if (compileSelectors P.toGoRuntime (demands.map (nameSelector isPrint))).empty then none
      else some (filterBySelectors P
        (compileSelectors P.toGoRuntime (demands.map (nameSelector isPrint))) md) := by
  have nonempty := compileSelectors_names_not_empty unquoted asked
  have pruned : filterByNames P demands md = filterBySelectors P
      (compileSelectors P.toGoRuntime (demands.map (nameSelector isPrint))) md := by
    refine pruneMetrics_congr (fun rm inBatch sm inResource m inScope => ?_)
    exact (filterMetricDatapoints_names unquoted _ (data rm inBatch sm inResource m inScope)).symm
  rw [consumeMetrics, if_neg (by simp), consumeNameMode, if_neg asked, nonempty, pruned]
  rfl

/-- A call with a list of names and a call with the selectors that quote those names forward
the same batch. -/
theorem names_and_name_selectors_forward_the_same {P : Platform} {isPrint : Nat → Bool}
    {cache nameCache : SelectorCache} {provider : Bool} {demands others : List GoString}
    (asked : demands ≠ []) (unquoted : ∀ d ∈ demands, P.unquote (quote isPrint d) = some d)
    (answers : (parsedSelectors P.toGoRuntime cache (demands.map (nameSelector isPrint))).1 =
      compileSelectors P.toGoRuntime (demands.map (nameSelector isPrint)))
    {md : Metrics} (data : CarriesData md) :
    (consumeMetrics P provider nameCache [] demands md).1 =
      (consumeMetrics P true cache (demands.map (nameSelector isPrint)) others md).1 := by
  rw [consumeMetrics_selectors asked answers]
  exact consumeMetrics_names asked unquoted data

/-- A processor that has filtered by other selector lists before. -/
theorem forward_the_same_after {P : Platform} {isPrint : Nat → Bool}
    {lists : List (List GoString)} {nameCache : SelectorCache} {provider : Bool}
    {demands others : List GoString} (asked : demands ≠ [])
    (unquoted : ∀ d ∈ demands, P.unquote (quote isPrint d) = some d)
    (apart : JoinedApart joined (compileSelectors P.toGoRuntime)
      (lists ++ [demands.map (nameSelector isPrint)]))
    {md : Metrics} (data : CarriesData md) :
    (consumeMetrics P provider nameCache [] demands md).1 =
      (consumeMetrics P true (after (parsedSelectors P.toGoRuntime) .initial lists)
        (demands.map (nameSelector isPrint)) others md).1 := by
  rw [consumeMetrics_selectors asked (metricSelectors_after apart)]
  exact consumeMetrics_names asked unquoted data

/-- A latency histogram and a gauge of one service. -/
def latencyBatch : Metrics :=
  [⟨[], [⟨[], [⟨⟨lit "latency", [], .histogram⟩, [⟨[], [], true, []⟩]⟩,
    ⟨⟨lit "heap", [], .gauge⟩, [⟨[], []⟩]⟩]⟩]⟩]

theorem latency_is_forwarded_either_way :
    ∃ out, (consumeMetrics plainPlatform true .initial [] [lit "latency_sum"] latencyBatch).1 =
        some out ∧
      (consumeMetrics plainPlatform true .initial
        ([lit "latency_sum"].map (nameSelector (fun _ => true))) [] latencyBatch).1 = some out ∧
      (located out).map (fun p => p.header.name) = [lit "latency"] := by
  have data : CarriesData latencyBatch := by
    unfold CarriesData
    decide
  have same : (consumeMetrics plainPlatform true .initial [] [lit "latency_sum"] latencyBatch).1 =
      (consumeMetrics plainPlatform true .initial
        ([lit "latency_sum"].map (nameSelector (fun _ => true))) [] latencyBatch).1 :=
    names_and_name_selectors_forward_the_same (by decide) (by decide +kernel) rfl data
  refine ⟨filterByNames plainPlatform [lit "latency_sum"] latencyBatch, rfl, same ▸ rfl, ?_⟩
  decide +kernel

end SignalAgent.Demand.NameSelectors
