/- MID: SignalAgent/Traces/RoutedSelection
   layer: results
   source: components/tracedemandfilter/processor.go
   digest: The routed path emits a resource exactly when the legacy path keeps it. -/

import SignalAgent.Traces.SenderStamps

set_option autoImplicit false
set_option relaxedAutoImplicit false

namespace SignalAgent.Traces.RoutedSelection

open Foundations.GoText Foundations.LastAnswer
open Selectors.SelectorMatch
open Telemetry.Pdata Telemetry.SeriesLabels
open Demand.ResourceFilters
open Demand.CacheTransparency (JoinedApart joined parsedRoutes_after parsedSelectors_after)
open Demand.FailClosed (webTraceSelector)
open RouteCopies SenderStamps

/-- A copy differs from its original in the stamp at most. -/
structure EqualExceptStamp (rs copy : ResourceSpans) : Prop where
  spans : copy.spans = rs.spans
  attributes : copy.attributes.filter (fun kv => kv.1 ≠ filterIDAttr) =
    rs.attributes.filter (fun kv => kv.1 ≠ filterIDAttr)

/-- The emitted batch is made of one block of copies per resource of the batch, in order; the
resources with a block that is not empty are the ones the legacy path keeps. -/
structure EmitsKept (td kept out : Traces) (blocks : List Traces) : Prop where
  copies : List.Forall₂ (fun rs block => ∀ copy ∈ block, EqualExceptStamp rs copy) td blocks
  emitted : out = blocks.flatten
  kept : kept = ((td.zip blocks).filter (fun emission => emission.2 ≠ [])).map Prod.fst

theorem filter_putStr (attrs : Attributes) (key value : GoString) :
    (attrs.putStr key value).filter (fun kv => kv.1 ≠ key) =
      attrs.filter (fun kv => kv.1 ≠ key) := by
  induction attrs with
  | nil => simp [Attributes.putStr]
  | cons kv rest ih =>
    rw [Attributes.putStr]
    split
    · rename_i same
      simp [same]
    · rename_i other
      simpa [other] using ih

theorem equalExceptStamp_stamped (filterID : GoString) (rs : ResourceSpans) :
    EqualExceptStamp rs (stamped filterID rs) :=
  ⟨rfl, filter_putStr rs.attributes filterIDAttr filterID⟩

theorem keptBySelectors_routes (R : GoRuntime) (routes : List Route) (rs : ResourceSpans) :
    keptBySelectors R (routes.map Route.selector) rs = matchedByRoute R routes rs := by
  unfold keptBySelectors matchedByRoute
  rw [List.any_map]
  rfl

private theorem copies_ne_nil_iff (R : GoRuntime) (routes : List Route) (rs : ResourceSpans) :
    copies R routes rs ≠ [] ↔ matchedByRoute R routes rs = true := by
  unfold copies matchedByRoute
  rw [Ne, List.map_eq_nil_iff, List.filter_eq_nil_iff, List.any_eq_true]
  push Not
  rfl

private theorem map_fst_filter_zip {α β : Type} [DecidableEq β] (block : α → List β)
    (keep : α → Bool) (full : ∀ x, block x ≠ [] ↔ keep x = true) (xs : List α) :
    ((xs.zip (xs.map block)).filter (fun emission => emission.2 ≠ [])).map Prod.fst =
      xs.filter keep := by
  induction xs with
  | nil => rfl
  | cons x xs ih =>
    rw [List.map_cons, List.zip_cons_cons]
    by_cases kept : keep x = true
    · have emitted := (full x).mpr kept
      rw [List.filter_cons_of_pos (by simpa using emitted), List.filter_cons_of_pos kept,
        List.map_cons, ih]
    · have silent : block x = [] := not_not.mp (fun emitted => kept ((full x).mp emitted))
      rw [List.filter_cons_of_neg (by simp [silent]), List.filter_cons_of_neg kept, ih]

private theorem emitsKept_copies (R : GoRuntime) (routes : List Route) (td : Traces) :
    EmitsKept td (td.filter (matchedByRoute R routes)) (td.flatMap (copies R routes))
      (td.map (copies R routes)) := by
  refine ⟨?_, ?_, ?_⟩
  · rw [List.forall₂_map_right_iff, List.forall₂_same]
    intro rs _ copy made
    obtain ⟨r, -, rfl⟩ := List.mem_map.mp made
    exact equalExceptStamp_stamped r.filterID rs
  · rw [List.flatMap_def]
  · exact (map_fst_filter_zip _ _ (copies_ne_nil_iff R routes) td).symm

private theorem emitsKept_of_held {R : GoRuntime} {routes : List Route} {td : Traces}
    (held : HoldsDemandedSpan R routes td) :
    ∃ kept out blocks,
      (if parseAll (parseDotted R) (routes.map Route.selector) = [] then none
        else some (td.filter (keptBySelectors R (routes.map Route.selector)))) = some kept ∧
      (if spanCount (td.flatMap (copies R routes)) = 0 then none
        else some (td.flatMap (copies R routes))) = some out ∧ EmitsKept td kept out blocks := by
  have spans := (holdsDemandedSpan_iff R routes td).mp held
  obtain ⟨rs, -, matched, -⟩ := held
  have parses : parseAll (parseDotted R) (routes.map Route.selector) ≠ [] := by
    intro none
    rw [← keptBySelectors_routes, ← anyMatches_parseAll, none] at matched
    cases matched
  have same : keptBySelectors R (routes.map Route.selector) = matchedByRoute R routes :=
    funext (keptBySelectors_routes R routes)
  refine ⟨td.filter (matchedByRoute R routes), td.flatMap (copies R routes),
    td.map (copies R routes), ?_, if_neg spans, emitsKept_copies R routes td⟩
  rw [if_neg parses, same]

/-- In a batch in which a demanded resource holds a span, the routed path emits copies of
exactly the resources the legacy path keeps under the selectors of the table, in the same order
and unchanged but for the stamp. -/
theorem routed_path_emits_what_legacy_keeps {R : GoRuntime} {routeCache : ParseCache ParsedRoute}
    {traceCache : ParseCache Selector} {routes : List Route} {td : Traces}
    (held : HoldsDemandedSpan R routes td)
    (routesAnswer : (parsedRoutes R routeCache routes).1 = parseRoutes R routes)
    (selectorsAnswer : (parsedSelectors (parseDotted R) traceCache
      (routes.map Route.selector)).1 = parseAll (parseDotted R) (routes.map Route.selector)) :
    ∃ kept out blocks,
      (consumeUnrouted R traceCache (routes.map Route.selector) td).1 = some kept ∧
      (consumeRouted R routeCache routes td).1 = some out ∧ EmitsKept td kept out blocks := by
  rw [consumeUnrouted_eq selectorsAnswer, consumeRouted_eq routesAnswer]
  exact emitsKept_of_held held

/-- Processors that have filtered by other tables and other lists before. -/
theorem emitsKept_after {R : GoRuntime} {tables : List (List Route)}
    {lists : List (List GoString)} {routes : List Route} {td : Traces}
    (held : HoldsDemandedSpan R routes td)
    (routesApart : JoinedApart routeKey (parseRoutes R) (tables ++ [routes]))
    (listsApart : JoinedApart joined (parseAll (parseDotted R))
      (lists ++ [routes.map Route.selector])) :
    ∃ kept out blocks,
      (consumeUnrouted R (after (parsedSelectors (parseDotted R)) (.initial _) lists)
        (routes.map Route.selector) td).1 = some kept ∧
      (consumeRouted R (after (parsedRoutes R) (.initial _) tables) routes td).1 = some out ∧
      EmitsKept td kept out blocks := by
  rw [consumeUnrouted_eq (parsedSelectors_after rfl listsApart),
    consumeRouted_eq (parsedRoutes_after routesApart)]
  exact emitsKept_of_held held

/-- A service that two rules demand, and one that no rule demands. -/
def twoServices : Traces :=
  foreignWebTraces ++ [⟨[(lit "service.name", .string (lit "db"))], [[1]]⟩]

/-- Two rules; one selector of the first does not parse. -/
def twoRules : List Route :=
  [⟨webTraceSelector, lit "rule-a"⟩, ⟨lit "broken", lit "rule-a"⟩,
    ⟨notDatabaseSelector, lit "rule-b"⟩]

theorem demanded_service_is_emitted_for_both_rules :
    ∃ kept out blocks,
      (consumeUnrouted plainPlatform.toGoRuntime (.initial _) (twoRules.map Route.selector)
        twoServices).1 = some kept ∧
      (consumeRouted plainPlatform.toGoRuntime (.initial _) twoRules twoServices).1 = some out ∧
      EmitsKept twoServices kept out blocks ∧ kept = foreignWebTraces := by
  have held : HoldsDemandedSpan plainPlatform.toGoRuntime twoRules twoServices :=
    ⟨_, List.mem_cons_self, by decide +kernel, by decide⟩
  obtain ⟨kept, out, blocks, legacy, routed, emits⟩ :=
    routed_path_emits_what_legacy_keeps held (parsedRoutes_initial _ _)
      (parsedSelectors_initial rfl _)
  have only : (consumeUnrouted plainPlatform.toGoRuntime (.initial _)
      (twoRules.map Route.selector) twoServices).1 = some foreignWebTraces := by
    decide +kernel
  exact ⟨kept, out, blocks, legacy, routed, emits, Option.some.inj (legacy.symm.trans only)⟩

end SignalAgent.Traces.RoutedSelection
