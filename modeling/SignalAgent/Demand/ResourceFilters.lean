/- MID: SignalAgent/Demand/ResourceFilters
   layer: model
   source: components/logdemandfilter/processor.go, components/logdemandfilter/streamlabels.go,
     components/tracedemandfilter/processor.go, components/tracedemandfilter/resourceattrs.go
   digest: The log and trace demand filters decide per resource, behind cached parsed selectors. -/

import SignalAgent.Selectors.SelectorMatch
import SignalAgent.Telemetry.Pdata

set_option autoImplicit false
set_option relaxedAutoImplicit false

namespace SignalAgent.Demand.ResourceFilters

open Foundations.GoMaps Foundations.GoText
open Selectors.SelectorMatch
open Telemetry.Pdata

def defaultServiceName : GoString := lit "unknown_service"

def promotedResourceAttributes : List GoString :=
  [lit "cloud.availability_zone", lit "cloud.region", lit "container.name",
    lit "deployment.environment", lit "deployment.environment.name", lit "k8s.cluster.name",
    lit "k8s.container.name", lit "k8s.cronjob.name", lit "k8s.daemonset.name",
    lit "k8s.deployment.name", lit "k8s.job.name", lit "k8s.namespace.name", lit "k8s.pod.name",
    lit "k8s.replicaset.name", lit "k8s.statefulset.name", lit "service.instance.id",
    lit "service.name", lit "service.namespace"]

/-- Dots become underscores. -/
def promotedLabelName (attr : GoString) : GoString :=
  attr.map (fun b => if b = 0x2E then 0x5F else b)

def streamLabels (attrs : Attributes) : Labels :=
  let labels := promotedResourceAttributes.foldl (fun labels attr =>
    match attrs.get attr with
    | some v => labels.insert (promotedLabelName attr) v.asString
    | none => labels) (∅ : Labels)
  if lit "service_name" ∈ labels then labels
  else labels.insert (lit "service_name") defaultServiceName

def resourceLabels (attrs : Attributes) : Labels :=
  attrs.foldl (fun labels kv => labels.insert (lit "resource." ++ kv.1) kv.2.asString) ∅

/-- A parse cache keyed by a joined text; it starts with the empty key and no entry. -/
structure ParseCache (α : Type) where
  cachedKey : GoString
  cachedParsed : List α

def ParseCache.initial (α : Type) : ParseCache α := ⟨[], []⟩

/-- The cached result under an unchanged key, the fresh one otherwise. -/
def ParseCache.get {α : Type} (cache : ParseCache α) (key : GoString) (fresh : List α) :
    List α × ParseCache α :=
  if key = cache.cachedKey then (cache.cachedParsed, cache) else (fresh, ⟨key, fresh⟩)

/-- The selectors of a list that parse, in order. -/
def parseAll (parseOne : GoString → Except ParseError Selector) (raw : List GoString) :
    List Selector :=
  raw.filterMap (fun s => (parseOne s).toOption)

def parsedSelectors (parseOne : GoString → Except ParseError Selector)
    (cache : ParseCache Selector) (raw : List GoString) : List Selector × ParseCache Selector :=
  cache.get (join raw [0]) (parseAll parseOne raw)

def anyMatches (R : GoRuntime) (selectors : List Selector) (labels : Labels) : Bool :=
  selectors.any (fun sel => sel.matchesLabels R labels)

/-- Keep or drop each row by its label view: nothing is handed on without a demand or without
a selector that parses. -/
def consumeByResource {β : Type} (R : GoRuntime)
    (parseOne : GoString → Except ParseError Selector) (view : β → Labels)
    (cache : ParseCache Selector) (raw : List GoString) (rows : List β) :
    Option (List β) × ParseCache Selector :=
  if raw = [] then (none, cache)
  else
    let parsed := parsedSelectors parseOne cache raw
    if parsed.1 = [] then (none, parsed.2)
    else (some (rows.filter (fun row => anyMatches R parsed.1 (view row))), parsed.2)

/-- One call of the log filter against one read of the demand. -/
def consumeLogs (R : GoRuntime) (cache : ParseCache Selector) (raw : List GoString) (ld : Logs) :
    Option Logs × ParseCache Selector :=
  consumeByResource R (parse R) (fun rl => streamLabels rl.attributes) cache raw ld

/-- The legacy path of the trace filter: keep or drop, nothing is stamped. -/
def consumeUnrouted (R : GoRuntime) (cache : ParseCache Selector) (raw : List GoString)
    (td : Traces) : Option Traces × ParseCache Selector :=
  consumeByResource R (parseDotted R) (fun rs => resourceLabels rs.attributes) cache raw td

structure Route where
  selector : GoString
  filterID : GoString
  deriving DecidableEq

structure ParsedRoute where
  selector : Selector
  filterID : GoString
  deriving DecidableEq

def parseRoutes (R : GoRuntime) (routes : List Route) : List ParsedRoute :=
  routes.filterMap (fun r => (parseDotted R r.selector).toOption.map (fun sel => ⟨sel, r.filterID⟩))

def routeKey (routes : List Route) : GoString :=
  join (routes.map (fun r => r.filterID ++ lit "=" ++ r.selector)) [0]

def parsedRoutes (R : GoRuntime) (cache : ParseCache ParsedRoute) (routes : List Route) :
    List ParsedRoute × ParseCache ParsedRoute :=
  cache.get (routeKey routes) (parseRoutes R routes)

def filterIDAttr : GoString := lit "leansignal.trace.filter_id"

def stamped (filterID : GoString) (rs : ResourceSpans) : ResourceSpans :=
  { rs with attributes := rs.attributes.putStr filterIDAttr filterID }

/-- One stamped copy per matching route. -/
def routedCopies (R : GoRuntime) (parsed : List ParsedRoute) (rs : ResourceSpans) :
    List ResourceSpans :=
  (parsed.filter (fun pr => pr.selector.matchesLabels R (resourceLabels rs.attributes))).map
    (fun pr => stamped pr.filterID rs)

def consumeRouted (R : GoRuntime) (cache : ParseCache ParsedRoute) (routes : List Route)
    (td : Traces) : Option Traces × ParseCache ParsedRoute :=
  let parsed := parsedRoutes R cache routes
  if parsed.1 = [] then (none, parsed.2)
  else
    let out := td.flatMap (routedCopies R parsed.1)
    if spanCount out = 0 then (none, parsed.2) else (some out, parsed.2)

theorem ParseCache.get_initial {α : Type} {key : GoString} {fresh : List α}
    (nothing : key = [] → fresh = []) : ((ParseCache.initial α).get key fresh).1 = fresh := by
  unfold ParseCache.get
  split
  · rename_i empty
    exact (nothing empty).symm
  · rfl

private theorem join_eq_nil {parts : List GoString} (empty : join parts [0] = []) :
    parts = [] ∨ parts = [[]] := by
  match parts with
  | [] => exact Or.inl rfl
  | [part] =>
    have same : join [part] [0] = part := by simp [join, List.intercalate]
    rw [same] at empty
    exact Or.inr (by rw [empty])
  | part :: next :: rest => simp [join, List.intercalate] at empty

theorem parseAll_of_join_eq_nil {parseOne : GoString → Except ParseError Selector}
    (refused : (parseOne []).toOption = none) {raw : List GoString} (empty : join raw [0] = []) :
    parseAll parseOne raw = [] := by
  rcases join_eq_nil empty with rfl | rfl
  · rfl
  · simp [parseAll, refused]

theorem parseRoutes_of_routeKey_eq_nil (R : GoRuntime) {routes : List Route}
    (empty : routeKey routes = []) : parseRoutes R routes = [] := by
  rcases join_eq_nil empty with none | single
  · rw [List.map_eq_nil_iff.mp none]
    rfl
  · obtain ⟨r, -, text⟩ := List.map_eq_singleton_iff.mp single
    have equals : lit "=" ≠ [] := by decide
    simp [equals] at text

theorem parsedSelectors_initial {parseOne : GoString → Except ParseError Selector}
    (refused : (parseOne []).toOption = none) (raw : List GoString) :
    (parsedSelectors parseOne (.initial _) raw).1 = parseAll parseOne raw :=
  ParseCache.get_initial (parseAll_of_join_eq_nil refused)

theorem parsedRoutes_initial (R : GoRuntime) (routes : List Route) :
    (parsedRoutes R (.initial _) routes).1 = parseRoutes R routes :=
  ParseCache.get_initial (parseRoutes_of_routeKey_eq_nil R)

theorem ParseCache.forall_get {α : Type} {p : α → Prop} {cache : ParseCache α} {fresh : List α}
    (cached : ∀ x ∈ cache.cachedParsed, p x) (new : ∀ x ∈ fresh, p x) (key : GoString) :
    (∀ x ∈ (cache.get key fresh).1, p x) ∧ ∀ x ∈ (cache.get key fresh).2.cachedParsed, p x := by
  unfold ParseCache.get
  split
  · exact ⟨cached, cached⟩
  · exact ⟨new, new⟩

theorem mem_parseAll {parseOne : GoString → Except ParseError Selector} {raw : List GoString}
    {sel : Selector} : sel ∈ parseAll parseOne raw ↔ ∃ s ∈ raw, parseOne s = .ok sel := by
  simp only [parseAll, List.mem_filterMap]
  refine exists_congr (fun s => and_congr_right (fun _ => ?_))
  cases parseOne s <;> simp [Except.toOption]

theorem mem_parseRoutes {R : GoRuntime} {routes : List Route} {pr : ParsedRoute} :
    pr ∈ parseRoutes R routes ↔
      ∃ r ∈ routes, parseDotted R r.selector = .ok pr.selector ∧ pr.filterID = r.filterID := by
  simp only [parseRoutes, List.mem_filterMap]
  refine exists_congr (fun r => and_congr_right (fun _ => ?_))
  cases parseDotted R r.selector with
  | error e => simp [Except.toOption]
  | ok sel =>
    simp only [Except.toOption, Option.map_some, Option.some.injEq, Except.ok.injEq]
    constructor
    · rintro rfl
      exact ⟨rfl, rfl⟩
    · rintro ⟨rfl, same⟩
      rw [← same]

theorem mem_routedCopies {R : GoRuntime} {parsed : List ParsedRoute} {rs out : ResourceSpans} :
    out ∈ routedCopies R parsed rs ↔ ∃ pr ∈ parsed,
      pr.selector.matchesLabels R (resourceLabels rs.attributes) = true ∧
        out = stamped pr.filterID rs := by
  simp only [routedCopies, List.mem_map, List.mem_filter]
  constructor
  · rintro ⟨pr, ⟨listed, matched⟩, rfl⟩
    exact ⟨pr, listed, matched, rfl⟩
  · rintro ⟨pr, listed, matched, rfl⟩
    exact ⟨pr, ⟨listed, matched⟩, rfl⟩

section Specs

variable {R : GoRuntime}

theorem consumeByResource_spec {β : Type} {parseOne : GoString → Except ParseError Selector}
    {p : Selector → Prop} {cache : ParseCache Selector} {raw : List GoString}
    (cached : ∀ sel ∈ cache.cachedParsed, p sel)
    (new : ∀ s ∈ raw, ∀ sel, parseOne s = .ok sel → p sel) (view : β → Labels) (rows : List β) :
    (∀ sel ∈ (consumeByResource R parseOne view cache raw rows).2.cachedParsed, p sel) ∧
      ∀ out, (consumeByResource R parseOne view cache raw rows).1 = some out →
        raw ≠ [] ∧ ∀ row ∈ out, row ∈ rows ∧
          ∃ sel, p sel ∧ sel.matchesLabels R (view row) = true := by
  have got := ParseCache.forall_get cached (fun sel member => by
    obtain ⟨s, listed, parsed⟩ := mem_parseAll.mp member
    exact new s listed sel parsed) (join raw [0])
  unfold consumeByResource
  split
  · exact ⟨cached, nofun⟩
  · rename_i demanded
    dsimp only [parsedSelectors]
    split
    · exact ⟨got.2, nofun⟩
    · refine ⟨got.2, ?_⟩
      rintro _ ⟨rfl⟩
      refine ⟨demanded, fun row member => ?_⟩
      obtain ⟨source, some⟩ := List.mem_filter.mp member
      obtain ⟨sel, parsed, matched⟩ := List.any_eq_true.mp some
      exact ⟨source, sel, got.1 sel parsed, matched⟩

theorem consumeRouted_spec {p : ParsedRoute → Prop} {cache : ParseCache ParsedRoute}
    {routes : List Route} (cached : ∀ pr ∈ cache.cachedParsed, p pr)
    (new : ∀ r ∈ routes, ∀ sel, parseDotted R r.selector = .ok sel → p ⟨sel, r.filterID⟩)
    (td : Traces) :
    (∀ pr ∈ (consumeRouted R cache routes td).2.cachedParsed, p pr) ∧
      ∀ out, (consumeRouted R cache routes td).1 = some out → ∀ copy ∈ out, ∃ rs ∈ td,
        ∃ pr, p pr ∧ pr.selector.matchesLabels R (resourceLabels rs.attributes) = true ∧
          copy = stamped pr.filterID rs := by
  have got := ParseCache.forall_get cached (fun pr member => by
    obtain ⟨r, listed, parsed, same⟩ := mem_parseRoutes.mp member
    have fresh := new r listed pr.selector parsed
    rwa [← same] at fresh) (routeKey routes)
  unfold consumeRouted
  dsimp only [parsedRoutes]
  split
  · exact ⟨got.2, nofun⟩
  · split
    · exact ⟨got.2, nofun⟩
    · refine ⟨got.2, ?_⟩
      rintro _ ⟨rfl⟩ copy member
      obtain ⟨rs, source, copied⟩ := List.mem_flatMap.mp member
      obtain ⟨pr, parsed, matched, same⟩ := mem_routedCopies.mp copied
      exact ⟨rs, source, pr, got.1 pr parsed, matched, same⟩

end Specs

end SignalAgent.Demand.ResourceFilters
