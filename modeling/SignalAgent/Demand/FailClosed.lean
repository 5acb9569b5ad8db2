/- MID: SignalAgent/Demand/FailClosed
   layer: results
   source: components/demandfilter/processor.go, components/logdemandfilter/processor.go,
     components/tracedemandfilter/processor.go, components/edgecontroller/extension.go
   digest: Whatever a filter hands on is demanded by an entry of a DemandSet received before. -/

import SignalAgent.Demand.DemandPipeline
import SignalAgent.Demand.MetricFilterSpec

set_option autoImplicit false
set_option relaxedAutoImplicit false

namespace SignalAgent.Demand.FailClosed

open Foundations.GoText Foundations.GuardedRuns Foundations.Interleavings
open Selectors.SelectorMatch
open Telemetry.Pdata Telemetry.SeriesLabels
open MetricFilter MetricFilterSpec ResourceFilters DemandPipeline

/-- The routes a DemandSet asks for. -/
def routes (set : DemandSet) : List Route := traceRoutesFromProto set.traceDemands

/-- Some DemandSet lists the entry. -/
def Listed {β : Type} (sets : List DemandSet) (field : DemandSet → List β) (entry : β) : Prop :=
  ∃ set ∈ sets, entry ∈ field set

/-- A name of the datapoint's family is listed, or a listed selector that parses accepts its
label view. -/
def MetricDemanded (P : Platform) (sets : List DemandSet) (p : Located) : Prop :=
  (∃ n ∈ seriesNames P p, Listed sets DemandSet.metrics n) ∨
    ∃ s, Listed sets DemandSet.metricSelectors s ∧
      ∃ sel, parse P.toGoRuntime s = .ok sel ∧ selectorDemands P sel p = true

def LogsDemanded (R : GoRuntime) (sets : List DemandSet) (rl : ResourceLogs) : Prop :=
  ∃ s, Listed sets DemandSet.logSelectors s ∧
    ∃ sel, parse R s = .ok sel ∧ sel.matchesLabels R (streamLabels rl.attributes) = true

/-- The resource is handed on as it came, or as a copy stamped for a listed route. -/
def SpansDemanded (R : GoRuntime) (sets : List DemandSet) (rs out : ResourceSpans) : Prop :=
  (out = rs ∧ ∃ s, Listed sets DemandSet.traceSelectors s ∧
      ∃ sel, parseDotted R s = .ok sel ∧
        sel.matchesLabels R (resourceLabels rs.attributes) = true) ∨
    ∃ r, Listed sets routes r ∧ out = stamped r.filterID rs ∧
      ∃ sel, parseDotted R r.selector = .ok sel ∧
        sel.matchesLabels R (resourceLabels rs.attributes) = true

def MetricsJustified (P : Platform) (sets : List DemandSet) (md out : Metrics) : Prop :=
  sets ≠ [] ∧ ∀ p ∈ located out, p ∈ located md ∧ MetricDemanded P sets p

def LogsJustified (R : GoRuntime) (sets : List DemandSet) (ld out : Logs) : Prop :=
  sets ≠ [] ∧ ∀ rl ∈ out, rl ∈ ld ∧ LogsDemanded R sets rl

def TracesJustified (R : GoRuntime) (sets : List DemandSet) (td out : Traces) : Prop :=
  sets ≠ [] ∧ ∀ copy ∈ out, ∃ rs ∈ td, SpansDemanded R sets rs copy

/-- What a call read is listed, and what it handed on is justified. -/
def MetricsAccounted (P : Platform) (sets : List DemandSet) (call : Metrics × MetricPhase) : Prop :=
  match call.2 with
  | .selectors raw => raw ≠ [] ∧ ∀ s ∈ raw, Listed sets DemandSet.metricSelectors s
  | .demands names => ∀ n ∈ names, Listed sets DemandSet.metrics n
  | .done (some out) _ => MetricsJustified P sets call.1 out
  | _ => True

def LogsAccounted (R : GoRuntime) (sets : List DemandSet) (call : Logs × LogPhase) : Prop :=
  match call.2 with
  | .selectors raw => ∀ s ∈ raw, Listed sets DemandSet.logSelectors s
  | .done (some out) => LogsJustified R sets call.1 out
  | _ => True

def TracesAccounted (R : GoRuntime) (sets : List DemandSet) (call : Traces × TracePhase) : Prop :=
  match call.2 with
  | .routed table => table ≠ [] ∧ ∀ r ∈ table, Listed sets routes r
  | .selectors raw => ∀ s ∈ raw, Listed sets DemandSet.traceSelectors s
  | .done (some out) => TracesJustified R sets call.1 out
  | _ => True

/-- Every demand entry anywhere in the agent was received: in the cache, in the handler, behind
the parse caches and in the calls under way. -/
structure Accounted (P : Platform) (sets : List DemandSet) (s : Pipeline) : Prop where
  timeseries : ∀ n ∈ s.demand.timeseries, Listed sets DemandSet.metrics n
  logSelectors : ∀ t ∈ s.demand.logSelectors, Listed sets DemandSet.logSelectors t
  traceSelectors : ∀ t ∈ s.demand.traceSelectors, Listed sets DemandSet.traceSelectors t
  metricSelectors : ∀ t ∈ s.demand.metricSelectors, Listed sets DemandSet.metricSelectors t
  traceRoutes : ∀ r ∈ s.demand.traceRoutes, Listed sets routes r
  handler : ∀ set, s.handler = some set → set ∈ sets
  metricCache : ∀ compiled, s.metricCache.selCachedSet = some compiled →
    ∃ raw, (∀ t ∈ raw, Listed sets DemandSet.metricSelectors t) ∧
      compiled = compileSelectors P.toGoRuntime raw
  logCache : ∀ sel ∈ s.logCache.cachedParsed,
    ∃ t, Listed sets DemandSet.logSelectors t ∧ parse P.toGoRuntime t = .ok sel
  traceCache : ∀ sel ∈ s.traceCache.cachedParsed,
    ∃ t, Listed sets DemandSet.traceSelectors t ∧ parseDotted P.toGoRuntime t = .ok sel
  routeCache : ∀ pr ∈ s.routeCache.cachedParsed,
    ∃ r, Listed sets routes r ∧ parseDotted P.toGoRuntime r.selector = .ok pr.selector ∧
      pr.filterID = r.filterID
  metricCalls : ∀ call ∈ s.metricCalls, MetricsAccounted P sets call
  logCalls : ∀ call ∈ s.logCalls, LogsAccounted P.toGoRuntime sets call
  traceCalls : ∀ call ∈ s.traceCalls, TracesAccounted P.toGoRuntime sets call

private theorem ne_nil_of_listed {β : Type} {sets : List DemandSet} {field : DemandSet → List β}
    {entries : List β} (some : entries ≠ []) (listed : ∀ x ∈ entries, Listed sets field x) :
    sets ≠ [] := by
  obtain ⟨x, member⟩ := List.exists_mem_of_ne_nil entries some
  obtain ⟨set, received, -⟩ := listed x member
  exact List.ne_nil_of_mem received

section Calls

variable {P : Platform} {sets : List DemandSet} {s : Pipeline} (held : Accounted P sets s)
include held

private theorem beginMetrics_accounted (wiring : Wiring) (md : Metrics) :
    MetricsAccounted P sets (md, beginMetrics wiring s) := by
  unfold beginMetrics
  split
  · trivial
  · split
    · rename_i mode
      exact ⟨mode.2, held.metricSelectors⟩
    · trivial

private theorem readLogs_accounted (wiring : Wiring) (ld : Logs) :
    LogsAccounted P.toGoRuntime sets (ld, readLogs wiring s.demand) := by
  unfold readLogs
  split
  · trivial
  · exact held.logSelectors

private theorem readRoutes_accounted (wiring : Wiring) (td : Traces) :
    TracesAccounted P.toGoRuntime sets (td, readRoutes wiring s.demand) := by
  unfold readRoutes
  split
  · trivial
  · split
    · rename_i mode
      exact ⟨mode.2, held.traceRoutes⟩
    · trivial

private theorem consumeSelectorMode_accounted {md : Metrics} {raw : List GoString}
    (read : MetricsAccounted P sets (md, .selectors raw)) :
    Accounted P sets { s with metricCache := (consumeSelectorMode P s.metricCache raw md).2 } ∧
      MetricsAccounted P sets
        (md, .done (consumeSelectorMode P s.metricCache raw md).1 s.metricCache) := by
  obtain ⟨cache, forwarded⟩ := consumeSelectorMode_spec P held.metricCache read.2 md
  refine ⟨{ held with metricCache := cache }, ?_⟩
  cases result : (consumeSelectorMode P s.metricCache raw md).1 with
  | none => trivial
  | some out =>
    obtain ⟨list, listed, same⟩ := forwarded out result
    refine ⟨ne_nil_of_listed read.1 read.2, fun p member => ?_⟩
    obtain ⟨source, demanded⟩ := List.mem_filter.mp (same ▸ member)
    obtain ⟨t, inside, accepts⟩ := List.any_eq_true.mp demanded
    refine ⟨source, Or.inr ⟨t, listed t inside, ?_⟩⟩
    split at accepts
    · exact ⟨_, ‹_›, accepts⟩
    · cases accepts

omit held in
private theorem consumeNameMode_accounted {md : Metrics} {names : List GoString}
    (read : MetricsAccounted P sets (md, .demands names)) (cache : SelectorCache) :
    MetricsAccounted P sets (md, .done (consumeNameMode P names md) cache) := by
  unfold consumeNameMode
  split
  · trivial
  · rename_i some
    refine ⟨ne_nil_of_listed some read, fun p member => ?_⟩
    rw [located_filterByNames] at member
    obtain ⟨source, demanded⟩ := List.mem_filter.mp member
    obtain ⟨n, family, inside⟩ := exists_familyName_of_isMetricDemanded demanded
    exact ⟨source, Or.inl ⟨n, family, read n inside⟩⟩

private theorem consumeLogs_accounted {ld : Logs} {raw : List GoString}
    (read : LogsAccounted P.toGoRuntime sets (ld, .selectors raw)) :
    Accounted P sets { s with logCache := (consumeLogs P.toGoRuntime s.logCache raw ld).2 } ∧
      LogsAccounted P.toGoRuntime sets
        (ld, .done (consumeLogs P.toGoRuntime s.logCache raw ld).1) := by
  obtain ⟨cache, forwarded⟩ := consumeByResource_spec held.logCache
    (fun t member sel parsed => ⟨t, read t member, parsed⟩)
    (fun rl : ResourceLogs => streamLabels rl.attributes) ld
  refine ⟨{ held with logCache := cache }, ?_⟩
  cases result : (consumeLogs P.toGoRuntime s.logCache raw ld).1 with
  | none => trivial
  | some out =>
    obtain ⟨some, demanded⟩ := forwarded out result
    refine ⟨ne_nil_of_listed some read, fun rl member => ?_⟩
    obtain ⟨source, sel, ⟨t, listed, parsed⟩, matched⟩ := demanded rl member
    exact ⟨source, t, listed, sel, parsed, matched⟩

private theorem consumeUnrouted_accounted {td : Traces} {raw : List GoString}
    (read : TracesAccounted P.toGoRuntime sets (td, .selectors raw)) :
    Accounted P sets
        { s with traceCache := (consumeUnrouted P.toGoRuntime s.traceCache raw td).2 } ∧
      TracesAccounted P.toGoRuntime sets
        (td, .done (consumeUnrouted P.toGoRuntime s.traceCache raw td).1) := by
  obtain ⟨cache, forwarded⟩ := consumeByResource_spec held.traceCache
    (fun t member sel parsed => ⟨t, read t member, parsed⟩)
    (fun rs : ResourceSpans => resourceLabels rs.attributes) td
  refine ⟨{ held with traceCache := cache }, ?_⟩
  cases result : (consumeUnrouted P.toGoRuntime s.traceCache raw td).1 with
  | none => trivial
  | some out =>
    obtain ⟨some, demanded⟩ := forwarded out result
    refine ⟨ne_nil_of_listed some read, fun rs member => ?_⟩
    obtain ⟨source, sel, ⟨t, listed, parsed⟩, matched⟩ := demanded rs member
    exact ⟨rs, source, Or.inl ⟨rfl, t, listed, sel, parsed, matched⟩⟩

private theorem consumeRouted_accounted {td : Traces} {table : List Route}
    (read : TracesAccounted P.toGoRuntime sets (td, .routed table)) :
    Accounted P sets
        { s with routeCache := (consumeRouted P.toGoRuntime s.routeCache table td).2 } ∧
      TracesAccounted P.toGoRuntime sets
        (td, .done (consumeRouted P.toGoRuntime s.routeCache table td).1) := by
  obtain ⟨cache, forwarded⟩ := consumeRouted_spec held.routeCache
    (fun r member sel parsed => ⟨r, read.2 r member, parsed, rfl⟩) td
  refine ⟨{ held with routeCache := cache }, ?_⟩
  cases result : (consumeRouted P.toGoRuntime s.routeCache table td).1 with
  | none => trivial
  | some out =>
    refine ⟨ne_nil_of_listed read.1 read.2, fun copy member => ?_⟩
    obtain ⟨rs, source, pr, ⟨r, listed, parsed, same⟩, matched, copied⟩ :=
      forwarded out result copy member
    exact ⟨rs, source, Or.inr ⟨r, listed, same ▸ copied, pr.selector, parsed, matched⟩⟩

end Calls

private theorem accounted_initial (P : Platform) (sets : List DemandSet) :
    Accounted P sets Pipeline.initial := by
  constructor <;> simp [Pipeline.initial, DemandTimeseriesCache.new, SelectorCache.initial,
    ParseCache.initial]

private theorem accounted_step {P : Platform} {wiring : Wiring} {acts : List Action}
    {s s' : Pipeline} {a : Action} (held : Accounted P (received acts) s) (taken : a ∈ acts)
    (stepped : step P wiring s a = some s') : Accounted P (received acts) s' := by
  cases effect_of_step stepped with
  | demandSet set now =>
    have received := mem_received taken
    exact { held with
      timeseries := fun n member => ⟨set, received, member⟩
      logSelectors := fun t member => ⟨set, received, member⟩
      traceSelectors := fun t member => ⟨set, received, member⟩
      metricSelectors := fun t member => ⟨set, received, member⟩
      handler := fun _ same => Option.some.inj same ▸ received }
  | updateRoutes set pending =>
    exact { held with
      traceRoutes := fun r member => ⟨set, held.handler set pending, member⟩
      handler := nofun }
  | otherMessage => exact held
  | metricsArrive md =>
    exact { held with metricCalls :=
      List.forall_mem_append.mpr ⟨held.metricCalls, List.forall_mem_singleton.mpr trivial⟩ }
  | metricsBegin i md here =>
    have read := beginMetrics_accounted held wiring md
    exact { held with metricCalls := forall_mem_set held.metricCalls read }
  | metricsReadNames i md here =>
    exact { held with metricCalls := forall_mem_set held.metricCalls held.timeseries }
  | metricsSelect i md raw here =>
    obtain ⟨kept, done⟩ := consumeSelectorMode_accounted held
      (held.metricCalls _ (List.mem_of_getElem? here))
    exact { kept with metricCalls := forall_mem_set held.metricCalls done }
  | metricsName i md names here =>
    have done := consumeNameMode_accounted (held.metricCalls _ (List.mem_of_getElem? here))
      s.metricCache
    exact { held with metricCalls := forall_mem_set held.metricCalls done }
  | logsArrive ld =>
    exact { held with logCalls :=
      List.forall_mem_append.mpr ⟨held.logCalls, List.forall_mem_singleton.mpr trivial⟩ }
  | logsRead i ld here =>
    have read := readLogs_accounted held wiring ld
    exact { held with logCalls := forall_mem_set held.logCalls read }
  | logsFinish i ld raw here =>
    obtain ⟨kept, done⟩ := consumeLogs_accounted held
      (held.logCalls _ (List.mem_of_getElem? here))
    exact { kept with logCalls := forall_mem_set held.logCalls done }
  | tracesArrive td =>
    exact { held with traceCalls :=
      List.forall_mem_append.mpr ⟨held.traceCalls, List.forall_mem_singleton.mpr trivial⟩ }
  | tracesReadRoutes i td here =>
    have read := readRoutes_accounted held wiring td
    exact { held with traceCalls := forall_mem_set held.traceCalls read }
  | tracesReadSelectors i td here =>
    exact { held with traceCalls := forall_mem_set held.traceCalls held.traceSelectors }
  | tracesRoute i td table here =>
    obtain ⟨kept, done⟩ := consumeRouted_accounted held
      (held.traceCalls _ (List.mem_of_getElem? here))
    exact { kept with traceCalls := forall_mem_set held.traceCalls done }
  | tracesSelect i td raw here =>
    obtain ⟨kept, done⟩ := consumeUnrouted_accounted held
      (held.traceCalls _ (List.mem_of_getElem? here))
    exact { kept with traceCalls := forall_mem_set held.traceCalls done }

theorem accounted_run {P : Platform} {wiring : Wiring} {ok : Pipeline → Action → Prop}
    {acts : List Action} {s : Pipeline} (run : Run (step P wiring) ok .initial acts s) :
    Accounted P (received acts) s :=
  (run.restrict (List.Subset.refl acts)).stateInvariant (Accounted P (received acts))
    (accounted_initial P _) (fun held guard edge => accounted_step held guard.2 edge)

/-- Over every run, whatever a filter has handed on is demanded by an entry of a DemandSet
received in that run, and nothing is handed on before the first one. -/
theorem forwarded_only_if_demanded {P : Platform} {wiring : Wiring}
    {ok : Pipeline → Action → Prop} {acts : List Action} {s : Pipeline}
    (run : Run (step P wiring) ok .initial acts s) :
    (∀ md out, (md, out) ∈ forwardedMetrics s → received acts ≠ [] ∧
        ∀ p ∈ located out, p ∈ located md ∧ MetricDemanded P (received acts) p) ∧
      (∀ ld out, (ld, out) ∈ forwardedLogs s → received acts ≠ [] ∧
        ∀ rl ∈ out, rl ∈ ld ∧ LogsDemanded P.toGoRuntime (received acts) rl) ∧
      ∀ td out, (td, out) ∈ forwardedTraces s → received acts ≠ [] ∧
        ∀ copy ∈ out, ∃ rs ∈ td, SpansDemanded P.toGoRuntime (received acts) rs copy := by
  have held := accounted_run run
  refine ⟨fun md out member => ?_, fun ld out member => ?_, fun td out member => ?_⟩
  · obtain ⟨cache, finished⟩ := mem_forwardedMetrics.mp member
    exact held.metricCalls _ finished
  · exact held.logCalls _ (mem_forwardedLogs.mp member)
  · exact held.traceCalls _ (mem_forwardedTraces.mp member)

def fullWiring : Wiring := ⟨true, true, true, true, true⟩

/-- Telemetry of the service `web`. -/
def webAttributes : Attributes := [(lit "service.name", .string (lit "web"))]

def webMetrics : Metrics :=
  [⟨webAttributes, [⟨[], [⟨⟨lit "cpu", [], .gauge⟩, [(⟨[], [7]⟩ : NumberDataPoint)]⟩]⟩]⟩]

def webLogs : Logs := [⟨webAttributes, [[0]]⟩]

def webTraces : Traces := [⟨webAttributes, [[0]]⟩]

def webTraceSelector : GoString := lit "\x7bresource.service.name=\"web\"\x7d"

/-- A DemandSet for all three signals. -/
def webDemand : DemandSet where
  metrics := [lit "cpu"]
  logSelectors := [lit "\x7bservice_name=\"web\"\x7d"]
  traceSelectors := [webTraceSelector]
  metricSelectors := []
  traceDemands := [⟨webTraceSelector, lit "rule-a"⟩]
  hash := 1

/-- A batch of each signal meets the demand; a first one came too early. -/
def webRun : List Action :=
  [.metricsArrive webMetrics, .metricsBegin 0, .metricsReadNames 0, .metricsFinish 0,
    .demandSet webDemand 0, .updateRoutes,
    .metricsArrive webMetrics, .metricsBegin 1, .metricsReadNames 1, .metricsFinish 1,
    .logsArrive webLogs, .logsRead 0, .logsFinish 0,
    .tracesArrive webTraces, .tracesReadRoutes 0, .tracesFinish 0]

theorem web_telemetry_is_demanded :
    ∃ s, Run (step plainPlatform fullWiring) (fun _ _ => True) .initial webRun s ∧
      (∃ md out, (md, out) ∈ forwardedMetrics s ∧
        ∃ p ∈ located out, MetricDemanded plainPlatform (received webRun) p) ∧
      (∃ ld out, (ld, out) ∈ forwardedLogs s ∧
        ∃ rl ∈ out, LogsDemanded plainPlatform.toGoRuntime (received webRun) rl) ∧
      ∃ td out, (td, out) ∈ forwardedTraces s ∧
        ∃ copy ∈ out, ∃ rs ∈ td,
          SpansDemanded plainPlatform.toGoRuntime (received webRun) rs copy := by
  have executed : (exec (step plainPlatform fullWiring) (fun _ _ => true) .initial webRun).any
      (fun s => (forwardedMetrics s).any (fun batch => !(located batch.2).isEmpty) &&
        (forwardedLogs s).any (fun batch => !batch.2.isEmpty) &&
        (forwardedTraces s).any (fun batch => !batch.2.isEmpty)) = true := by
    decide +kernel
  obtain ⟨s, run, final⟩ := exists_run_of_exec (fun _ _ => true) webRun _
    (fun _ _ _ => trivial) executed
  obtain ⟨metrics, logs, traces⟩ := forwarded_only_if_demanded run
  simp only [Bool.and_eq_true, List.any_eq_true, Prod.exists, Bool.not_eq_true',
    List.isEmpty_eq_false_iff] at final
  obtain ⟨⟨⟨md, out, sent, some⟩, ⟨ld, kept, shipped, logged⟩⟩,
    ⟨td, copies, routed, traced⟩⟩ := final
  obtain ⟨p, point⟩ := List.exists_mem_of_ne_nil _ some
  obtain ⟨rl, resource⟩ := List.exists_mem_of_ne_nil _ logged
  obtain ⟨copy, spans⟩ := List.exists_mem_of_ne_nil _ traced
  exact ⟨s, run, ⟨md, out, sent, p, point, ((metrics md out sent).2 p point).2⟩,
    ⟨ld, kept, shipped, rl, resource, ((logs ld kept shipped).2 rl resource).2⟩,
    ⟨td, copies, routed, copy, spans, (traces td copies routed).2 copy spans⟩⟩

end SignalAgent.Demand.FailClosed
