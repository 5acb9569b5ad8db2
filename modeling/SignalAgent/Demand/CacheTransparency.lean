/- MID: SignalAgent/Demand/CacheTransparency
   layer: results
   source: components/demandfilter/selectors.go, components/logdemandfilter/processor.go,
     components/tracedemandfilter/processor.go
   digest: The parse caches answer for the list they are given unless two lists join alike. -/

import SignalAgent.Demand.MetricFilter
import SignalAgent.Demand.ResourceFilters
import SignalAgent.Foundations.GoStrings
import SignalAgent.Foundations.LastAnswer

set_option autoImplicit false
set_option relaxedAutoImplicit false

namespace SignalAgent.Demand.CacheTransparency

open Foundations.GoText Foundations.GoStrings Foundations.LastAnswer
open Selectors.SelectorMatch
open Telemetry.SeriesLabels (plainPlatform)
open ResourceFilters

/-- The text a list of selectors is cached under. -/
def joined (raw : List GoString) : GoString := join raw [0]

/-- Lists that follow each other and join to the same text have the same result. -/
def JoinedApart {α ω : Type} (key : α → GoString) (fresh : α → ω) (lists : List α) : Prop :=
  lists.IsChain (fun l l' => key l = key l' → fresh l = fresh l')

private theorem keepsLast_get {α ι : Type} (key : ι → GoString) (fresh : ι → List α) :
    KeepsLast (fun (cache : ParseCache α) x => cache.get (key x) (fresh x))
      (fun cache => some (cache.cachedKey, cache.cachedParsed)) key fresh := by
  constructor
  · intro cache x a kept
    obtain ⟨same, rfl⟩ := Prod.mk.inj (Option.some.inj kept)
    exact if_pos same.symm
  · intro cache x other
    have changed : key x ≠ cache.cachedKey := fun same => other cache.cachedParsed (by rw [same])
    have missed : cache.get (key x) (fresh x) = (fresh x, ⟨key x, fresh x⟩) := if_neg changed
    rw [missed]
    exact ⟨rfl, rfl⟩

private theorem keepsLast_metric (R : GoRuntime) :
    KeepsLast (MetricFilter.parsedSelectors R)
      (fun cache => cache.selCachedSet.map (fun set => (cache.selCachedKey, set))) joined
      (MetricFilter.compileSelectors R) := by
  constructor
  · rintro ⟨cachedKey, cachedSet⟩ raw set kept
    cases cachedSet with
    | none => cases kept
    | some held =>
      obtain ⟨rfl, rfl⟩ := Prod.mk.inj (Option.some.inj kept)
      exact if_pos rfl
  · rintro ⟨cachedKey, cachedSet⟩ raw other
    cases cachedSet with
    | none => exact ⟨rfl, rfl⟩
    | some held =>
      have changed : joined raw ≠ cachedKey := fun same => other held (by rw [same]; rfl)
      have missed : MetricFilter.parsedSelectors R ⟨cachedKey, some held⟩ raw =
          (MetricFilter.compileSelectors R raw,
            ⟨joined raw, some (MetricFilter.compileSelectors R raw)⟩) := if_neg changed
      rw [missed]
      exact ⟨rfl, rfl⟩

private theorem answers_metric_iff (R : GoRuntime) (lists : List (List GoString)) :
    answers (MetricFilter.parsedSelectors R) .initial lists =
        lists.map (MetricFilter.compileSelectors R) ↔
      JoinedApart joined (MetricFilter.compileSelectors R) lists := by
  refine (answers_eq_fresh_iff (keepsLast_metric R) .initial lists).trans ?_
  exact and_iff_right (fun raw _ set kept => nomatch kept)

private theorem answers_parsedSelectors_iff {parseOne : GoString → Except ParseError Selector}
    (refused : (parseOne []).toOption = none) (lists : List (List GoString)) :
    answers (parsedSelectors parseOne) (.initial _) lists = lists.map (parseAll parseOne) ↔
      JoinedApart joined (parseAll parseOne) lists := by
  have keeps := keepsLast_get joined (parseAll parseOne)
  refine (answers_eq_fresh_iff keeps (.initial _) lists).trans ?_
  exact and_iff_right (fun raw _ => agrees_of_call keeps (parsedSelectors_initial refused raw))

private theorem answers_parsedRoutes_iff (R : GoRuntime) (tables : List (List Route)) :
    answers (parsedRoutes R) (.initial _) tables = tables.map (parseRoutes R) ↔
      JoinedApart routeKey (parseRoutes R) tables := by
  have keeps := keepsLast_get routeKey (parseRoutes R)
  refine (answers_eq_fresh_iff keeps (.initial _) tables).trans ?_
  exact and_iff_right (fun routes _ => agrees_of_call keeps (parsedRoutes_initial R routes))

/-- Whatever lists are presented to new processors: every call of the metric, log and trace
filters answers for its own list exactly when lists that follow each other and join to the same
text mean the same. -/
theorem caches_transparent_iff (R : GoRuntime) :
    (∀ lists, answers (MetricFilter.parsedSelectors R) .initial lists =
        lists.map (MetricFilter.compileSelectors R) ↔
      JoinedApart joined (MetricFilter.compileSelectors R) lists) ∧
    (∀ lists, answers (parsedSelectors (parse R)) (.initial _) lists =
        lists.map (parseAll (parse R)) ↔
      JoinedApart joined (parseAll (parse R)) lists) ∧
    (∀ lists, answers (parsedSelectors (parseDotted R)) (.initial _) lists =
        lists.map (parseAll (parseDotted R)) ↔
      JoinedApart joined (parseAll (parseDotted R)) lists) ∧
    (∀ tables, answers (parsedRoutes R) (.initial _) tables = tables.map (parseRoutes R) ↔
      JoinedApart routeKey (parseRoutes R) tables) := by
  refine ⟨answers_metric_iff R, ?_, ?_, answers_parsedRoutes_iff R⟩
  · exact answers_parsedSelectors_iff rfl
  · exact answers_parsedSelectors_iff rfl

section Histories

variable {R : GoRuntime}

theorem metricSelectors_after {lists : List (List GoString)} {raw : List GoString}
    (apart : JoinedApart joined (MetricFilter.compileSelectors R) (lists ++ [raw])) :
    (MetricFilter.parsedSelectors R (after (MetricFilter.parsedSelectors R) .initial lists)
      raw).1 = MetricFilter.compileSelectors R raw :=
  call_after ((answers_metric_iff R _).mpr apart)

theorem parsedSelectors_after {parseOne : GoString → Except ParseError Selector}
    (refused : (parseOne []).toOption = none) {lists : List (List GoString)} {raw : List GoString}
    (apart : JoinedApart joined (parseAll parseOne) (lists ++ [raw])) :
    (parsedSelectors parseOne (after (parsedSelectors parseOne) (.initial _) lists) raw).1 =
      parseAll parseOne raw :=
  call_after ((answers_parsedSelectors_iff refused _).mpr apart)

theorem parsedRoutes_after {tables : List (List Route)} {routes : List Route}
    (apart : JoinedApart routeKey (parseRoutes R) (tables ++ [routes])) :
    (parsedRoutes R (after (parsedRoutes R) (.initial _) tables) routes).1 =
      parseRoutes R routes :=
  call_after ((answers_parsedRoutes_iff R _).mpr apart)

end Histories

theorem eq_of_joined {raw raw' : List GoString} (listed : raw ≠ []) (listed' : raw' ≠ [])
    (clean : ∀ s ∈ raw, 0 ∉ s) (clean' : ∀ s ∈ raw', 0 ∉ s) (same : joined raw = joined raw') :
    raw = raw' := by
  have split := List.splitOn_intercalate 0 clean listed
  have split' := List.splitOn_intercalate 0 clean' listed'
  have text : [0].intercalate raw = [0].intercalate raw' := same
  rw [← split, text, split']

private theorem cut_routeText {r : Route} (free : 0x3D ∉ r.filterID) :
    cut (r.filterID ++ lit "=" ++ r.selector) 0x3D = some (r.filterID, r.selector) := by
  have equals : lit "=" = [0x3D] := by decide
  rw [equals, List.append_assoc]
  exact cut_append free r.selector

/-- Tables free of the two separators are told apart by their key. -/
theorem eq_of_routeKey {routes routes' : List Route} (listed : routes ≠ []) (listed' : routes' ≠ [])
    (clean : ∀ r ∈ routes, 0 ∉ r.filterID ∧ 0 ∉ r.selector ∧ 0x3D ∉ r.filterID)
    (clean' : ∀ r ∈ routes', 0 ∉ r.filterID ∧ 0 ∉ r.selector ∧ 0x3D ∉ r.filterID)
    (same : routeKey routes = routeKey routes') : routes = routes' := by
  have texts : ∀ table : List Route,
      (∀ r ∈ table, 0 ∉ r.filterID ∧ 0 ∉ r.selector ∧ 0x3D ∉ r.filterID) →
        ∀ s ∈ table.map (fun r => r.filterID ++ lit "=" ++ r.selector), 0 ∉ s := by
    intro table free s member
    obtain ⟨r, inside, rfl⟩ := List.mem_map.mp member
    obtain ⟨id, selector, -⟩ := free r inside
    have equals : lit "=" = [0x3D] := by decide
    simp [equals, id, selector]
  have parts := eq_of_joined (by simpa using listed) (by simpa using listed') (texts _ clean)
    (texts _ clean') same
  have cuts : ∀ table : List Route, (∀ r ∈ table, 0x3D ∉ r.filterID) →
      (table.map (fun r => r.filterID ++ lit "=" ++ r.selector)).map (fun s => cut s 0x3D) =
        table.map (fun r => some (r.filterID, r.selector)) := by
    intro table free
    rw [List.map_map]
    exact List.map_congr_left (fun r inside => cut_routeText (free r inside))
  have pairs := cuts routes (fun r inside => (clean r inside).2.2)
  rw [parts, cuts routes' (fun r inside => (clean' r inside).2.2)] at pairs
  refine (List.map_injective_iff.mpr ?_ pairs).symm
  rintro ⟨selector, filterID⟩ ⟨selector', filterID'⟩ equal
  obtain ⟨rfl, rfl⟩ := Prod.mk.inj (Option.some.inj equal)
  rfl

/-- One selector with a zero byte in its value, and the same text cut into two texts that do not
parse. -/
def zeroLists : List (List GoString) :=
  [[lit "\x7ba=\"x" ++ [0] ++ lit "y\"\x7d"], [lit "\x7ba=\"x", lit "y\"\x7d"]]

/-- The equals sign that ends the first id is part of the second. -/
def equalsTables : List (List Route) :=
  [[⟨lit "\x7ba=\"x\"\x7d", lit "rule="⟩], [⟨lit "=\x7ba=\"x\"\x7d", lit "rule"⟩]]

theorem colliding_lists_share_an_answer :
    (¬ ∀ (R : GoRuntime) lists, answers (MetricFilter.parsedSelectors R) .initial lists =
      lists.map (MetricFilter.compileSelectors R)) ∧
    (¬ ∀ (R : GoRuntime) lists, answers (parsedSelectors (parse R)) (.initial _) lists =
      lists.map (parseAll (parse R))) ∧
    (¬ ∀ (R : GoRuntime) lists, answers (parsedSelectors (parseDotted R)) (.initial _) lists =
      lists.map (parseAll (parseDotted R))) ∧
    ¬ ∀ (R : GoRuntime) tables, answers (parsedRoutes R) (.initial _) tables =
      tables.map (parseRoutes R) := by
  refine ⟨fun fresh => ?_, fun fresh => ?_, fun fresh => ?_, fun fresh => ?_⟩
  · exact absurd (fresh plainPlatform.toGoRuntime zeroLists) (by decide +kernel)
  · exact absurd (fresh plainPlatform.toGoRuntime zeroLists) (by decide +kernel)
  · exact absurd (fresh plainPlatform.toGoRuntime zeroLists) (by decide +kernel)
  · exact absurd (fresh plainPlatform.toGoRuntime equalsTables) (by decide +kernel)

end SignalAgent.Demand.CacheTransparency
