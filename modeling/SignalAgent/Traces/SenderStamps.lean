/- MID: SignalAgent/Traces/SenderStamps
   layer: results
   source: components/tracedemandfilter/processor.go, components/tracerouter/exporter.go
   digest: Without routes a sender that writes the stamp itself chooses the rule of its spans. -/

import SignalAgent.Traces.RouteCopies

set_option autoImplicit false
set_option relaxedAutoImplicit false

namespace SignalAgent.Traces.SenderStamps

open Foundations.GoMaps Foundations.GoText Foundations.LastAnswer
open Selectors.SelectorMatch
open Telemetry.Pdata Telemetry.SeriesLabels
open Demand.ResourceFilters
open Demand.CacheTransparency (JoinedApart joined parsedRoutes_after parsedSelectors_after)
open Demand.FailClosed (webTraceSelector)
open RuleRouter StampedSpans RouteCopies

/-- `ConsumeTraces` against one demand state: routed if the state has routes, legacy if not. -/
def consumeTraces (R : GoRuntime) (routeCache : ParseCache ParsedRoute)
    (traceCache : ParseCache Selector) (routes : List Route) (raw : List GoString) (td : Traces) :
    Option Traces :=
  if routes ≠ [] then (consumeRouted R routeCache routes td).1
  else (consumeUnrouted R traceCache raw td).1

/-- Some selector of the legacy list parses and accepts the resource. -/
def keptBySelectors (R : GoRuntime) (raw : List GoString) (rs : ResourceSpans) : Bool :=
  raw.any (fun s => (parseDotted R s).toOption.any
    (fun sel => sel.matchesLabels R (resourceLabels rs.attributes)))

/-- What the router pushes for a resource: its spans, and its attributes without one stamp. -/
structure PushedFor (rs pushed : ResourceSpans) : Prop where
  spans : pushed.spans = rs.spans
  attributes : pushed.attributes.Perm (rs.attributes.eraseP (fun kv => kv.1 == filterIDAttr))

/-- Every rule the router pushes for is a rule of the demand that matched the resource, and
without routes everything belongs to the tenant-wide group. -/
structure RulesFromDemand (R : GoRuntime) (routes : List Route) (td out : Traces) : Prop where
  demanded : ∀ filterID, filterID ≠ [] → ∀ pushed ∈ index (groupByFilterID out) [] filterID,
    ∃ rs ∈ td, PushedFor rs pushed ∧
      ∃ r ∈ routes, r.filterID = filterID ∧ routeMatches R rs r = true
  tenantWide : routes = [] → ∀ filterID ∈ groupByFilterID out, filterID = []

theorem anyMatches_parseAll (R : GoRuntime) (raw : List GoString) (rs : ResourceSpans) :
    anyMatches R (parseAll (parseDotted R) raw) (resourceLabels rs.attributes) =
      keptBySelectors R raw rs := by
  rw [Bool.eq_iff_iff]
  simp only [anyMatches, keptBySelectors, List.any_eq_true, mem_parseAll]
  constructor
  · rintro ⟨sel, ⟨s, listed, parsed⟩, accepts⟩
    exact ⟨s, listed, by simpa [parsed, Except.toOption] using accepts⟩
  · rintro ⟨s, listed, accepts⟩
    cases parsed : parseDotted R s with
    | error e => simp [parsed, Except.toOption] at accepts
    | ok sel =>
      exact ⟨sel, ⟨s, listed, parsed⟩, by simpa [parsed, Except.toOption] using accepts⟩

theorem consumeUnrouted_eq {R : GoRuntime} {cache : ParseCache Selector} {raw : List GoString}
    (answers : (parsedSelectors (parseDotted R) cache raw).1 = parseAll (parseDotted R) raw)
    (td : Traces) :
    (consumeUnrouted R cache raw td).1 =
      if parseAll (parseDotted R) raw = [] then none
      else some (td.filter (keptBySelectors R raw)) := by
  unfold consumeUnrouted consumeByResource
  dsimp only
  rw [answers]
  split
  · rename_i none
    subst none
    rfl
  · split
    · rfl
    · rw [List.filter_congr (fun rs _ => anyMatches_parseAll R raw rs)]

private theorem rulesFromDemand_routed {R : GoRuntime} {routes : List Route} (td : Traces)
    (routed : routes ≠ []) : RulesFromDemand R routes td (td.flatMap (copies R routes)) := by
  refine ⟨?_, fun none => absurd none routed⟩
  intro filterID _ pushed member
  rw [index_groupByFilterID] at member
  obtain ⟨copy, chosen, rfl⟩ := List.mem_map.mp member
  obtain ⟨listed, same⟩ := List.mem_filter.mp chosen
  obtain ⟨rs, inside, copied⟩ := List.mem_flatMap.mp listed
  obtain ⟨r, matching, rfl⟩ := List.mem_map.mp copied
  obtain ⟨inTable, matched⟩ := List.mem_filter.mp matching
  have rule : r.filterID = filterID := by
    rw [← filterIDOf_stamped r.filterID rs]
    exact of_decide_eq_true same
  exact ⟨rs, inside, ⟨rfl, attributes_copy r.filterID rs⟩, r, inTable, rule, matched⟩

private theorem rulesFromDemand_unrouted_iff {R : GoRuntime} (td out : Traces) :
    RulesFromDemand R [] td out ↔ ∀ rs ∈ out, filterIDOf rs = [] := by
  constructor
  · intro rules rs inside
    exact rules.tenantWide rfl _ (mem_groupByFilterID.mpr ⟨rs, inside, rfl⟩)
  · intro unstamped
    refine ⟨?_, ?_⟩
    · intro filterID named pushed member
      rw [index_groupByFilterID] at member
      obtain ⟨rs, chosen, -⟩ := List.mem_map.mp member
      obtain ⟨inside, same⟩ := List.mem_filter.mp chosen
      exact absurd ((of_decide_eq_true same).symm.trans (unstamped rs inside)) named
    · intro _ filterID grouped
      obtain ⟨rs, inside, rfl⟩ := mem_groupByFilterID.mp grouped
      exact unstamped rs inside

private theorem rulesFromDemand_emitted_iff (R : GoRuntime) (routes : List Route)
    (raw : List GoString) (td : Traces) :
    (∀ out, (if routes ≠ [] then
          if spanCount (td.flatMap (copies R routes)) = 0 then none
          else some (td.flatMap (copies R routes))
        else if parseAll (parseDotted R) raw = [] then none
        else some (td.filter (keptBySelectors R raw))) = some out →
        RulesFromDemand R routes td out) ↔
      (routes = [] → ∀ rs ∈ td, keptBySelectors R raw rs = true → filterIDOf rs = []) := by
  by_cases routed : routes ≠ []
  · rw [if_pos routed]
    refine ⟨fun _ none => absurd none routed, fun _ out emitted => ?_⟩
    split at emitted
    · cases emitted
    · obtain rfl := Option.some.inj emitted
      exact rulesFromDemand_routed td routed
  · obtain rfl := not_not.mp routed
    rw [if_neg routed]
    split
    · rename_i nothing
      have dropped : ∀ rs, keptBySelectors R raw rs = false := by
        intro rs
        rw [← anyMatches_parseAll, nothing]
        rfl
      exact ⟨fun _ _ rs _ kept => by simp [dropped] at kept, fun _ out emitted => nomatch emitted⟩
    · simp only [Option.some.injEq, forall_eq', rulesFromDemand_unrouted_iff, List.mem_filter,
        and_imp, forall_const]

/-- For every demand state and every batch, the rules the router pushes for come from the demand
exactly when the state has routes or no resource the legacy list keeps brings its own stamp. -/
theorem rules_from_demand_iff {R : GoRuntime} {routeCache : ParseCache ParsedRoute}
    {traceCache : ParseCache Selector} (routes : List Route) (raw : List GoString) (td : Traces)
    (routesAnswer : (parsedRoutes R routeCache routes).1 = parseRoutes R routes)
    (selectorsAnswer : (parsedSelectors (parseDotted R) traceCache raw).1 =
      parseAll (parseDotted R) raw) :
    (∀ out, consumeTraces R routeCache traceCache routes raw td = some out →
        RulesFromDemand R routes td out) ↔
      (routes = [] → ∀ rs ∈ td, keptBySelectors R raw rs = true → filterIDOf rs = []) := by
  rw [consumeTraces, consumeRouted_eq routesAnswer, consumeUnrouted_eq selectorsAnswer]
  exact rulesFromDemand_emitted_iff R routes raw td

/-- A processor that has filtered by other tables and other legacy lists before. -/
theorem rulesFromDemand_after_iff {R : GoRuntime} {tables : List (List Route)}
    {lists : List (List GoString)} (routes : List Route) (raw : List GoString) (td : Traces)
    (routesApart : JoinedApart routeKey (parseRoutes R) (tables ++ [routes]))
    (listsApart : JoinedApart joined (parseAll (parseDotted R)) (lists ++ [raw])) :
    (∀ out, consumeTraces R (after (parsedRoutes R) (.initial _) tables)
          (after (parsedSelectors (parseDotted R)) (.initial _) lists) routes raw td = some out →
        RulesFromDemand R routes td out) ↔
      (routes = [] → ∀ rs ∈ td, keptBySelectors R raw rs = true → filterIDOf rs = []) := by
  rw [consumeTraces, consumeRouted_eq (parsedRoutes_after routesApart),
    consumeUnrouted_eq (parsedSelectors_after rfl listsApart)]
  exact rulesFromDemand_emitted_iff R routes raw td

theorem route_overrides_foreign_stamp :
    ∃ out, consumeTraces plainPlatform.toGoRuntime (.initial _) (.initial _)
        [⟨webTraceSelector, lit "rule-a"⟩] [webTraceSelector] foreignWebTraces = some out ∧
      lit "rule-a" ∈ groupByFilterID out ∧
      RulesFromDemand plainPlatform.toGoRuntime [⟨webTraceSelector, lit "rule-a"⟩]
        foreignWebTraces out := by
  have routed : consumeTraces plainPlatform.toGoRuntime (.initial _) (.initial _)
      [⟨webTraceSelector, lit "rule-a"⟩] [webTraceSelector] foreignWebTraces =
        some (foreignWebTraces.map (stamped (lit "rule-a"))) := by
    decide +kernel
  have rules := rules_from_demand_iff [⟨webTraceSelector, lit "rule-a"⟩] [webTraceSelector]
    foreignWebTraces (parsedRoutes_initial plainPlatform.toGoRuntime _)
    (parsedSelectors_initial rfl _)
  refine ⟨_, routed, mem_groupByFilterID.mpr ⟨_, List.mem_cons_self, ?_⟩, ?_⟩
  · exact filterIDOf_stamped _ _
  · exact rules.mpr (fun none => nomatch none) _ routed

/-- On the legacy path the router pushes under a rule that only the sender named. -/
theorem sender_chooses_rule_without_routes :
    ¬ ∀ (R : GoRuntime) (routes : List Route) (raw : List GoString) (td out : Traces),
      consumeTraces R (.initial _) (.initial _) routes raw td = some out →
        RulesFromDemand R routes td out := by
  intro rules
  have legacy : consumeTraces plainPlatform.toGoRuntime (.initial _) (.initial _) []
      [webTraceSelector] foreignWebTraces = some foreignWebTraces := by
    decide +kernel
  have tenantWide := (rules _ [] [webTraceSelector] foreignWebTraces _ legacy).tenantWide rfl
    (lit "rule-x") (mem_groupByFilterID.mpr ⟨_, List.mem_cons_self, by decide⟩)
  exact absurd tenantWide (by decide)

end SignalAgent.Traces.SenderStamps
