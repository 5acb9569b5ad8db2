/- MID: SignalAgent/Traces/RouteCopies
   layer: results
   source: components/tracedemandfilter/processor.go, components/tracerouter/exporter.go,
     components/edgecontroller/extension.go
   digest: A rule gets one copy of a resource exactly when one of its routes matches it. -/

import SignalAgent.Demand.CacheTransparency
import SignalAgent.Demand.FailClosed
import SignalAgent.Traces.StampedSpans

set_option autoImplicit false
set_option relaxedAutoImplicit false

namespace SignalAgent.Traces.RouteCopies

open Foundations.GoMaps Foundations.GoText Foundations.LastAnswer
open Selectors.SelectorMatch
open Telemetry.Pdata Telemetry.SeriesLabels
open Demand.ResourceFilters Demand.DemandPipeline
open Demand.CacheTransparency (JoinedApart parsedRoutes_after)
open Demand.FailClosed (webAttributes webTraceSelector)
open RuleRouter StampedSpans

/-- The selector of the route parses and accepts the resource. -/
def routeMatches (R : GoRuntime) (rs : ResourceSpans) (r : Route) : Bool :=
  (parseDotted R r.selector).toOption.any
    (fun sel => sel.matchesLabels R (resourceLabels rs.attributes))

def matchedByRoute (R : GoRuntime) (routes : List Route) (rs : ResourceSpans) : Bool :=
  routes.any (routeMatches R rs)

/-- Some route that carries the id matches. -/
def demandedByRule (R : GoRuntime) (routes : List Route) (filterID : GoString)
    (rs : ResourceSpans) : Bool :=
  routes.any (fun r => routeMatches R rs r && decide (r.filterID = filterID))

/-- Some demanded resource of the batch holds a span. -/
def HoldsDemandedSpan (R : GoRuntime) (routes : List Route) (td : Traces) : Prop :=
  ∃ rs ∈ td, matchedByRoute R routes rs = true ∧ rs.spans ≠ []

/-- The original spans and, as a map, the original attributes without the stamp. -/
structure Cleaned (rs out : ResourceSpans) : Prop where
  spans : out.spans = rs.spans
  attributes : out.attributes.Perm (rs.attributes.filter (fun kv => kv.1 ≠ filterIDAttr))

/-- Every rule's group holds the resources the rule demands, each once and in order. -/
structure OneCopyPerRule (R : GoRuntime) (routes : List Route) (td out : Traces) : Prop where
  groups : ∀ filterID, List.Forall₂ Cleaned (td.filter (demandedByRule R routes filterID))
    (index (groupByFilterID out) [] filterID)
  named : [] ∉ groupByFilterID out
  unstamped : ∀ filterID, ∀ rs ∈ index (groupByFilterID out) [] filterID,
    rs.attributes.get filterIDAttr = none

/-- What is handed on for a batch: nothing if no demanded resource holds a span. -/
def RoutedByRule (R : GoRuntime) (routes : List Route) (td : Traces) : Option Traces → Prop
  | none => ¬ HoldsDemandedSpan R routes td
  | some out => HoldsDemandedSpan R routes td ∧ OneCopyPerRule R routes td out

/-- The matching routes carry different ids, and the sender used the stamp's key at most once. -/
structure RoutesApart (R : GoRuntime) (routes : List Route) (rs : ResourceSpans) : Prop where
  ids : ((routes.filter (routeMatches R rs)).map Route.filterID).Nodup
  stamps : rs.attributes.countP (fun kv => kv.1 == filterIDAttr) ≤ 1

/-- The copies of one resource, one per matching route. -/
def copies (R : GoRuntime) (routes : List Route) (rs : ResourceSpans) : List ResourceSpans :=
  (routes.filter (routeMatches R rs)).map (fun r => stamped r.filterID rs)

theorem routedCopies_parseRoutes (R : GoRuntime) (routes : List Route) (rs : ResourceSpans) :
    routedCopies R (parseRoutes R routes) rs = copies R routes rs := by
  unfold routedCopies parseRoutes copies routeMatches
  induction routes with
  | nil => rfl
  | cons r routes ih =>
    cases parsed : parseDotted R r.selector with
    | error e => simpa [parsed, Except.toOption] using ih
    | ok sel =>
      by_cases accepts : sel.matchesLabels R (resourceLabels rs.attributes) = true
      · simpa [parsed, Except.toOption, accepts] using ih
      · simpa [parsed, Except.toOption, accepts] using ih

private theorem spanCount_eq_zero_iff (td : Traces) :
    spanCount td = 0 ↔ ∀ rs ∈ td, rs.spans = [] := by
  unfold spanCount
  induction td with
  | nil => simp
  | cons rs td ih => simp [ih]

theorem holdsDemandedSpan_iff (R : GoRuntime) (routes : List Route) (td : Traces) :
    HoldsDemandedSpan R routes td ↔ spanCount (td.flatMap (copies R routes)) ≠ 0 := by
  rw [Ne, spanCount_eq_zero_iff]
  simp only [HoldsDemandedSpan, matchedByRoute, List.any_eq_true, copies, List.mem_flatMap,
    List.mem_map, List.mem_filter, not_forall, exists_prop]
  constructor
  · rintro ⟨rs, inside, ⟨r, listed, matched⟩, held⟩
    exact ⟨stamped r.filterID rs, ⟨rs, inside, r, ⟨listed, matched⟩, rfl⟩, held⟩
  · rintro ⟨_, ⟨rs, inside, r, ⟨listed, matched⟩, rfl⟩, held⟩
    exact ⟨rs, inside, ⟨r, listed, matched⟩, held⟩

theorem consumeRouted_eq {R : GoRuntime} {cache : ParseCache ParsedRoute} {routes : List Route}
    (answers : (parsedRoutes R cache routes).1 = parseRoutes R routes) (td : Traces) :
    (consumeRouted R cache routes td).1 =
      if spanCount (td.flatMap (copies R routes)) = 0 then none
      else some (td.flatMap (copies R routes)) := by
  have same : routedCopies R (parsedRoutes R cache routes).1 = copies R routes := by
    funext rs
    rw [answers, routedCopies_parseRoutes]
  unfold consumeRouted
  dsimp only
  rw [same]
  split
  · rename_i nothing
    have empty : td.flatMap (copies R routes) = [] := by
      rw [← same, nothing]
      simp [routedCopies]
    rw [empty]
    rfl
  · split <;> rfl

/-- The copies of one resource that reach the group of one rule. -/
private def ruleCopies (R : GoRuntime) (routes : List Route) (filterID : GoString)
    (rs : ResourceSpans) : List ResourceSpans :=
  List.replicate (((routes.filter (routeMatches R rs)).map Route.filterID).count filterID)
    (stripped (stamped filterID rs))

private theorem stripped_copies (R : GoRuntime) (routes : List Route) (filterID : GoString)
    (rs : ResourceSpans) :
    ((copies R routes rs).filter (fun copy => filterIDOf copy = filterID)).map stripped =
      ruleCopies R routes filterID rs := by
  unfold copies ruleCopies
  induction routes.filter (routeMatches R rs) with
  | nil => rfl
  | cons r rest ih =>
    by_cases here : r.filterID = filterID
    · simp [filterIDOf_stamped, here, ih, List.replicate_succ]
    · simp [filterIDOf_stamped, here, ih]

theorem group_copies (R : GoRuntime) (routes : List Route) (td : Traces) (filterID : GoString) :
    index (groupByFilterID (td.flatMap (copies R routes))) [] filterID =
      td.flatMap (ruleCopies R routes filterID) := by
  rw [index_groupByFilterID, List.filter_flatMap, List.map_flatMap]
  simp only [stripped_copies]

section

variable {α : Type} {p : α → Bool}

private theorem eraseP_eq_filter {xs : List α} (once : xs.countP p ≤ 1) :
    xs.eraseP p = xs.filter (fun x => !p x) := by
  induction xs with
  | nil => rfl
  | cons x xs ih =>
    cases here : p x with
    | true =>
      have none : xs.countP p = 0 := by
        rw [List.countP_cons_of_pos here] at once
        omega
      have kept : xs.filter (fun x => !p x) = xs := by
        rw [List.filter_eq_self]
        intro y member
        simpa using List.countP_eq_zero.mp none y member
      simp [here, kept]
    | false =>
      rw [List.countP_cons_of_neg (by simp [here])] at once
      simp [here, ih once]

private theorem forall₂_flatMap {β : Type} {rel : α → β → Prop} {f : α → List β} {xs : List α}
    (kept : ∀ x ∈ xs, p x = true → ∃ y, f x = [y] ∧ rel x y)
    (dropped : ∀ x ∈ xs, p x = false → f x = []) :
    List.Forall₂ rel (xs.filter p) (xs.flatMap f) := by
  induction xs with
  | nil => exact .nil
  | cons x xs ih =>
    have rest := ih (fun y member => kept y (List.mem_cons_of_mem _ member))
      (fun y member => dropped y (List.mem_cons_of_mem _ member))
    cases here : p x with
    | true =>
      obtain ⟨y, image, related⟩ := kept x List.mem_cons_self here
      rw [List.filter_cons_of_pos here, List.flatMap_cons, image]
      exact .cons related rest
    | false =>
      rw [List.filter_cons_of_neg (by simp [here]), List.flatMap_cons,
        dropped x List.mem_cons_self here]
      exact rest

private theorem le_one_of_sum (n : α → Nat) (xs : List α) :
    (xs.filter (fun x => decide (0 < n x))).length ≤ (xs.map n).sum ∧
      ((xs.filter (fun x => decide (0 < n x))).length = (xs.map n).sum →
        ∀ x ∈ xs, n x ≤ 1) := by
  induction xs with
  | nil => simp
  | cons x xs ih =>
    obtain ⟨bound, tight⟩ := ih
    rw [List.map_cons, List.sum_cons]
    by_cases positive : 0 < n x
    · rw [List.filter_cons_of_pos (by simpa using positive), List.length_cons]
      refine ⟨by omega, fun total => List.forall_mem_cons.mpr ⟨by omega, tight (by omega)⟩⟩
    · rw [List.filter_cons_of_neg (by simpa using positive)]
      refine ⟨by omega, fun total => List.forall_mem_cons.mpr ⟨by omega, tight (by omega)⟩⟩

end

theorem attributes_copy (filterID : GoString) (rs : ResourceSpans) :
    (stripped (stamped filterID rs)).attributes.Perm
      (rs.attributes.eraseP (fun kv => kv.1 == filterIDAttr)) := by
  have removed := Attributes.remove_perm (rs.attributes.putStr filterIDAttr filterID) filterIDAttr
  rwa [Attributes.eraseP_putStr] at removed

private theorem cleaned_copy (filterID : GoString) {rs : ResourceSpans}
    (once : rs.attributes.countP (fun kv => kv.1 == filterIDAttr) ≤ 1) :
    Cleaned rs (stripped (stamped filterID rs)) := by
  refine ⟨rfl, (attributes_copy filterID rs).trans (List.Perm.of_eq ?_)⟩
  rw [eraseP_eq_filter once]
  refine List.filter_congr (fun kv _ => ?_)
  by_cases same : kv.1 = filterIDAttr <;> simp [same]

private theorem unstamped_copy (filterID : GoString) (rs : ResourceSpans) :
    (stripped (stamped filterID rs)).attributes.get filterIDAttr = none ↔
      rs.attributes.countP (fun kv => kv.1 == filterIDAttr) ≤ 1 := by
  rw [Attributes.get_eq_none_iff_countP, (attributes_copy filterID rs).countP_eq,
    Attributes.countP_eraseP]
  omega

section

variable {R : GoRuntime} {routes : List Route}

private theorem demandedByRule_eq (filterID : GoString) (rs : ResourceSpans) :
    demandedByRule R routes filterID rs =
      decide (0 < ((routes.filter (routeMatches R rs)).map Route.filterID).count filterID) := by
  rw [Bool.eq_iff_iff, decide_eq_true_eq, List.count_pos_iff, demandedByRule, List.any_eq_true]
  simp only [Bool.and_eq_true, decide_eq_true_eq, List.mem_map, List.mem_filter]
  exact exists_congr (fun r => and_assoc.symm)

private theorem length_ruleCopies (td : Traces) (filterID : GoString) :
    (td.flatMap (ruleCopies R routes filterID)).length = (td.map (fun rs =>
      ((routes.filter (routeMatches R rs)).map Route.filterID).count filterID)).sum := by
  simp [List.length_flatMap, ruleCopies]

private theorem routesApart_of_oneCopy {td : Traces}
    (once : OneCopyPerRule R routes td (td.flatMap (copies R routes))) {rs : ResourceSpans}
    (inside : rs ∈ td) (matched : matchedByRoute R routes rs = true) : RoutesApart R routes rs := by
  constructor
  · rw [List.nodup_iff_count_le_one]
    intro filterID
    have lengths := (once.groups filterID).length_eq
    rw [group_copies, length_ruleCopies,
      List.filter_congr (fun rs _ => demandedByRule_eq filterID rs)] at lengths
    exact (le_one_of_sum _ td).2 lengths rs inside
  · obtain ⟨r, listed, accepts⟩ := List.any_eq_true.mp matched
    have unstamped := once.unstamped r.filterID (stripped (stamped r.filterID rs))
    rw [group_copies] at unstamped
    refine (unstamped_copy r.filterID rs).mp (unstamped (List.mem_flatMap.mpr ⟨rs, inside, ?_⟩))
    refine List.mem_replicate.mpr ⟨Nat.pos_iff_ne_zero.mp (List.count_pos_iff.mpr ?_), rfl⟩
    exact List.mem_map.mpr ⟨r, List.mem_filter.mpr ⟨listed, accepts⟩, rfl⟩

private theorem oneCopy_of_routesApart {td : Traces} (whole : ∀ r ∈ routes, r.filterID ≠ [])
    (apart : ∀ rs ∈ td, matchedByRoute R routes rs = true → RoutesApart R routes rs) :
    OneCopyPerRule R routes td (td.flatMap (copies R routes)) := by
  have demanded : ∀ filterID rs, demandedByRule R routes filterID rs = true →
      matchedByRoute R routes rs = true := by
    intro filterID rs demanded
    obtain ⟨r, listed, both⟩ := List.any_eq_true.mp demanded
    exact List.any_eq_true.mpr ⟨r, listed, (Bool.and_eq_true_iff.mp both).1⟩
  have one : ∀ filterID, ∀ rs ∈ td, demandedByRule R routes filterID rs = true →
      ruleCopies R routes filterID rs = [stripped (stamped filterID rs)] ∧
        RoutesApart R routes rs := by
    intro filterID rs inside wanted
    have separate := apart rs inside (demanded filterID rs wanted)
    refine ⟨?_, separate⟩
    rw [demandedByRule_eq, decide_eq_true_eq] at wanted
    have atMost := List.nodup_iff_count_le_one.mp separate.ids filterID
    rw [ruleCopies, show List.count filterID _ = 1 by omega]
    rfl
  have none : ∀ filterID, ∀ rs ∈ td, demandedByRule R routes filterID rs = false →
      ruleCopies R routes filterID rs = [] := by
    intro filterID rs _ refused
    rw [demandedByRule_eq, decide_eq_false_iff_not] at refused
    rw [ruleCopies, show List.count filterID _ = 0 by omega]
    rfl
  refine ⟨?_, ?_, ?_⟩
  · intro filterID
    rw [group_copies]
    refine forall₂_flatMap (fun rs inside wanted => ?_) (none filterID)
    obtain ⟨single, separate⟩ := one filterID rs inside wanted
    exact ⟨_, single, cleaned_copy filterID separate.stamps⟩
  · intro grouped
    obtain ⟨copy, listed, empty⟩ := mem_groupByFilterID.mp grouped
    obtain ⟨rs, -, copied⟩ := List.mem_flatMap.mp listed
    obtain ⟨r, chosen, rfl⟩ := List.mem_map.mp copied
    rw [filterIDOf_stamped] at empty
    exact whole r (List.mem_filter.mp chosen).1 empty
  · intro filterID rs' member
    rw [group_copies] at member
    obtain ⟨rs, inside, copied⟩ := List.mem_flatMap.mp member
    cases wanted : demandedByRule R routes filterID rs with
    | true =>
      obtain ⟨single, separate⟩ := one filterID rs inside wanted
      rw [single, List.mem_singleton] at copied
      rw [copied]
      exact (unstamped_copy filterID rs).mpr separate.stamps
    | false =>
      rw [none filterID rs inside wanted] at copied
      cases copied

end

private theorem routedByRule_emitted_iff (R : GoRuntime) (demands : List TraceDemand)
    (td : Traces) :
    RoutedByRule R (traceRoutesFromProto demands) td
        (if spanCount (td.flatMap (copies R (traceRoutesFromProto demands))) = 0 then none
          else some (td.flatMap (copies R (traceRoutesFromProto demands)))) ↔
      (HoldsDemandedSpan R (traceRoutesFromProto demands) td → ∀ rs ∈ td,
        matchedByRoute R (traceRoutesFromProto demands) rs = true →
          RoutesApart R (traceRoutesFromProto demands) rs) := by
  split
  · rename_i empty
    have silent : ¬ HoldsDemandedSpan R (traceRoutesFromProto demands) td := by
      rw [holdsDemandedSpan_iff, not_not]
      exact empty
    exact ⟨fun _ held => absurd held silent, fun _ => silent⟩
  · rename_i full
    have held := (holdsDemandedSpan_iff R (traceRoutesFromProto demands) td).mpr full
    constructor
    · rintro ⟨-, once⟩ - rs inside matched
      exact routesApart_of_oneCopy once inside matched
    · intro apart
      exact ⟨held, oneCopy_of_routesApart
        (fun r => filterID_ne_nil_of_mem_traceRoutesFromProto) (apart held)⟩

/-- Filtering by the routes of the controller and grouping by rule gives every rule one copy of
what it demands exactly when, in a batch that hands anything on, the routes that match one
resource belong to different rules and no sender repeats the key of the stamp. -/
theorem one_copy_per_rule_iff {R : GoRuntime} {cache : ParseCache ParsedRoute}
    (demands : List TraceDemand) (td : Traces)
    (answers : (parsedRoutes R cache (traceRoutesFromProto demands)).1 =
      parseRoutes R (traceRoutesFromProto demands)) :
    RoutedByRule R (traceRoutesFromProto demands) td
        (consumeRouted R cache (traceRoutesFromProto demands) td).1 ↔
      (HoldsDemandedSpan R (traceRoutesFromProto demands) td → ∀ rs ∈ td,
        matchedByRoute R (traceRoutesFromProto demands) rs = true →
          RoutesApart R (traceRoutesFromProto demands) rs) := by
  rw [consumeRouted_eq answers]
  exact routedByRule_emitted_iff R demands td

/-- A processor that has filtered by other tables before. -/
theorem routedByRule_after_iff {R : GoRuntime} {tables : List (List Route)}
    (demands : List TraceDemand) (td : Traces)
    (apart : JoinedApart routeKey (parseRoutes R) (tables ++ [traceRoutesFromProto demands])) :
    RoutedByRule R (traceRoutesFromProto demands) td
        (consumeRouted R (after (parsedRoutes R) (.initial _) tables)
          (traceRoutesFromProto demands) td).1 ↔
      (HoldsDemandedSpan R (traceRoutesFromProto demands) td → ∀ rs ∈ td,
        matchedByRoute R (traceRoutesFromProto demands) rs = true →
          RoutesApart R (traceRoutesFromProto demands) rs) := by
  rw [consumeRouted_eq (parsedRoutes_after apart)]
  exact routedByRule_emitted_iff R demands td

def notDatabaseSelector : GoString := lit "\x7bresource.service.name!=\"db\"\x7d"

/-- A sender that uses the key of the stamp itself. -/
def foreignWebTraces : Traces :=
  [⟨(filterIDAttr, .string (lit "rule-x")) :: webAttributes, [[0]]⟩]

theorem two_rules_get_one_copy_each :
    HoldsDemandedSpan plainPlatform.toGoRuntime (traceRoutesFromProto
        [⟨webTraceSelector, lit "rule-a"⟩, ⟨notDatabaseSelector, lit "rule-b"⟩]) foreignWebTraces ∧
      RoutedByRule plainPlatform.toGoRuntime (traceRoutesFromProto
          [⟨webTraceSelector, lit "rule-a"⟩, ⟨notDatabaseSelector, lit "rule-b"⟩]) foreignWebTraces
        (consumeRouted plainPlatform.toGoRuntime (.initial _) (traceRoutesFromProto
          [⟨webTraceSelector, lit "rule-a"⟩, ⟨notDatabaseSelector, lit "rule-b"⟩])
          foreignWebTraces).1 := by
  constructor
  · exact ⟨_, List.mem_cons_self, by decide +kernel, by decide⟩
  · refine (one_copy_per_rule_iff _ foreignWebTraces (parsedRoutes_initial _ _)).mpr ?_
    intro _ rs inside _
    obtain rfl := List.mem_singleton.mp inside
    exact ⟨by decide +kernel, by decide⟩

/-- A rule with two selectors that match one resource gets that resource twice. -/
theorem rule_with_two_selectors_gets_two_copies :
    ¬ ∀ (R : GoRuntime) (demands : List TraceDemand) (td : Traces),
      traceRoutesFromProto demands ≠ [] →
      (∀ r ∈ traceRoutesFromProto demands, (parseDotted R r.selector).isOk = true) →
      RoutedByRule R (traceRoutesFromProto demands) td
        (consumeRouted R (.initial _) (traceRoutesFromProto demands) td).1 := by
  intro routed
  have claimed := routed plainPlatform.toGoRuntime
    [⟨webTraceSelector, lit "rule-a"⟩, ⟨notDatabaseSelector, lit "rule-a"⟩]
    [⟨webAttributes, [[0]]⟩] (by decide) (by decide +kernel)
  rw [consumeRouted_eq (parsedRoutes_initial _ _), if_neg (by decide +kernel)] at claimed
  have lengths := (claimed.2.groups (lit "rule-a")).length_eq
  exact absurd lengths (by decide +kernel)

end SignalAgent.Traces.RouteCopies
