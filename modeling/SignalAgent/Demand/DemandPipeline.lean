/- MID: SignalAgent/Demand/DemandPipeline
   layer: model
   source: components/edgecontroller/demand_timeseries_cache.go,
     components/edgecontroller/extension.go, components/demandfilter/processor.go,
     components/logdemandfilter/processor.go, components/tracedemandfilter/processor.go
   digest: Demand updates and filter calls interleave at the accessors of the demand cache. -/

import SignalAgent.Foundations.GuardedRuns
import SignalAgent.Foundations.Interleavings
import SignalAgent.Demand.MetricFilter
import SignalAgent.Demand.ResourceFilters

set_option autoImplicit false
set_option relaxedAutoImplicit false

namespace SignalAgent.Demand.DemandPipeline

open Foundations.GoText
open Selectors.SelectorMatch
open Telemetry.Pdata Telemetry.SeriesLabels
open MetricFilter ResourceFilters

structure TraceDemand where
  selector : GoString
  filterId : GoString
  deriving DecidableEq

/-- The DemandSet message. -/
structure DemandSet where
  metrics : List GoString
  logSelectors : List GoString
  traceSelectors : List GoString
  metricSelectors : List GoString
  traceDemands : List TraceDemand
  hash : UInt64
  deriving DecidableEq

/-- A trace demand missing either half cannot be routed. -/
def traceRoutesFromProto (demands : List TraceDemand) : List Route :=
  demands.filterMap (fun d =>
    if d.selector = [] ∨ d.filterId = [] then none else some ⟨d.selector, d.filterId⟩)

structure DemandTimeseriesCache where
  timeseries : List GoString
  logSelectors : List GoString
  traceSelectors : List GoString
  metricSelectors : List GoString
  demandHash : UInt64
  lastUpdate : Nat
  traceRoutes : List Route

def DemandTimeseriesCache.new : DemandTimeseriesCache := ⟨[], [], [], [], 0, 0, []⟩

def DemandTimeseriesCache.updateDemands (c : DemandTimeseriesCache) (set : DemandSet) (now : Nat) :
    DemandTimeseriesCache :=
  { c with
    timeseries := set.metrics
    logSelectors := set.logSelectors
    traceSelectors := set.traceSelectors
    metricSelectors := set.metricSelectors
    demandHash := set.hash
    lastUpdate := now }

def DemandTimeseriesCache.updateTraceRoutes (c : DemandTimeseriesCache) (routes : List Route) :
    DemandTimeseriesCache :=
  { c with traceRoutes := routes }

/-- Which provider interfaces the filters resolved at start. -/
structure Wiring where
  metricProvider : Bool
  selectorProvider : Bool
  logProvider : Bool
  traceProvider : Bool
  routeProvider : Bool

/-- A ConsumeMetrics call between its cache reads; a finished one keeps what it handed on
and the parse cache it ran with. -/
inductive MetricPhase where
  | start
  | selectors (raw : List GoString)
  | names
  | demands (names : List GoString)
  | done (out : Option Metrics) (cache : SelectorCache)

inductive LogPhase where
  | start
  | selectors (raw : List GoString)
  | done (out : Option Logs)

inductive TracePhase where
  | start
  | routed (routes : List Route)
  | unrouted
  | selectors (raw : List GoString)
  | done (out : Option Traces)

structure Pipeline where
  demand : DemandTimeseriesCache
  /-- The DemandSet whose routes are still to be written. -/
  handler : Option DemandSet
  metricCache : SelectorCache
  logCache : ParseCache Selector
  traceCache : ParseCache Selector
  routeCache : ParseCache ParsedRoute
  metricCalls : List (Metrics × MetricPhase)
  logCalls : List (Logs × LogPhase)
  traceCalls : List (Traces × TracePhase)

def Pipeline.initial : Pipeline where
  demand := .new
  handler := none
  metricCache := .initial
  logCache := .initial _
  traceCache := .initial _
  routeCache := .initial _
  metricCalls := []
  logCalls := []
  traceCalls := []

inductive Action where
  | demandSet (set : DemandSet) (now : Nat)
  | updateRoutes
  | otherMessage
  | metricsArrive (md : Metrics)
  | metricsBegin (i : Nat)
  | metricsReadNames (i : Nat)
  | metricsFinish (i : Nat)
  | logsArrive (ld : Logs)
  | logsRead (i : Nat)
  | logsFinish (i : Nat)
  | tracesArrive (td : Traces)
  | tracesReadRoutes (i : Nat)
  | tracesReadSelectors (i : Nat)
  | tracesFinish (i : Nat)

/-- GetMetricSelectors and the mode decision. -/
def beginMetrics (wiring : Wiring) (s : Pipeline) : MetricPhase :=
  if wiring.metricProvider = false then .done none s.metricCache
  else if wiring.selectorProvider ∧ s.demand.metricSelectors ≠ [] then
    .selectors s.demand.metricSelectors
  else .names

/-- GetLogDemands. -/
def readLogs (wiring : Wiring) (demand : DemandTimeseriesCache) : LogPhase :=
  if wiring.logProvider = false then .done none else .selectors demand.logSelectors

/-- GetTraceRoutes and the mode decision. -/
def readRoutes (wiring : Wiring) (demand : DemandTimeseriesCache) : TracePhase :=
  if wiring.traceProvider = false then .done none
  else if wiring.routeProvider ∧ demand.traceRoutes ≠ [] then .routed demand.traceRoutes
  else .unrouted

/-- One atomic step: a server message, one accessor of the demand cache, or the work a call
does on its own data behind its parse cache. -/
def step (P : Platform) (wiring : Wiring) (s : Pipeline) : Action → Option Pipeline
  | .demandSet set now =>
    match s.handler with
    | none => some { s with demand := s.demand.updateDemands set now, handler := some set }
    | some _ => none
  | .updateRoutes =>
    match s.handler with
    | some set => some { s with
        demand := s.demand.updateTraceRoutes (traceRoutesFromProto set.traceDemands)
        handler := none }
    | none => none
  | .otherMessage => some s
  | .metricsArrive md => some { s with metricCalls := s.metricCalls ++ [(md, .start)] }
  | .metricsBegin i =>
    match s.metricCalls[i]? with
    | some (md, .start) =>
      some { s with metricCalls := s.metricCalls.set i (md, beginMetrics wiring s) }
    | _ => none
  | .metricsReadNames i =>
    match s.metricCalls[i]? with
    | some (md, .names) =>
      some { s with metricCalls := s.metricCalls.set i (md, .demands s.demand.timeseries) }
    | _ => none
  | .metricsFinish i =>
    match s.metricCalls[i]? with
    | some (md, .selectors raw) =>
      let result := consumeSelectorMode P s.metricCache raw md
      some { s with
        metricCalls := s.metricCalls.set i (md, .done result.1 s.metricCache)
        metricCache := result.2 }
    | some (md, .demands names) =>
      some { s with metricCalls :=
        s.metricCalls.set i (md, .done (consumeNameMode P names md) s.metricCache) }
    | _ => none
  | .logsArrive ld => some { s with logCalls := s.logCalls ++ [(ld, .start)] }
  | .logsRead i =>
    match s.logCalls[i]? with
    | some (ld, .start) =>
      some { s with logCalls := s.logCalls.set i (ld, readLogs wiring s.demand) }
    | _ => none
  | .logsFinish i =>
    match s.logCalls[i]? with
    | some (ld, .selectors raw) =>
      let result := consumeLogs P.toGoRuntime s.logCache raw ld
      some { s with logCalls := s.logCalls.set i (ld, .done result.1), logCache := result.2 }
    | _ => none
  | .tracesArrive td => some { s with traceCalls := s.traceCalls ++ [(td, .start)] }
  | .tracesReadRoutes i =>
    match s.traceCalls[i]? with
    | some (td, .start) =>
      some { s with traceCalls := s.traceCalls.set i (td, readRoutes wiring s.demand) }
    | _ => none
  | .tracesReadSelectors i =>
    match s.traceCalls[i]? with
    | some (td, .unrouted) =>
      some { s with traceCalls := s.traceCalls.set i (td, .selectors s.demand.traceSelectors) }
    | _ => none
  | .tracesFinish i =>
    match s.traceCalls[i]? with
    | some (td, .routed routes) =>
      let result := consumeRouted P.toGoRuntime s.routeCache routes td
      some { s with traceCalls := s.traceCalls.set i (td, .done result.1), routeCache := result.2 }
    | some (td, .selectors raw) =>
      let result := consumeUnrouted P.toGoRuntime s.traceCache raw td
      some { s with traceCalls := s.traceCalls.set i (td, .done result.1), traceCache := result.2 }
    | _ => none

/-- The DemandSets received in a history, oldest first. -/
def received (acts : List Action) : List DemandSet :=
  acts.filterMap (fun a =>
    match a with
    | .demandSet set _ => some set
    | _ => none)

/-- The batches the finished calls were given, each with what was handed on for it. -/
def forwardedMetrics (s : Pipeline) : List (Metrics × Metrics) :=
  s.metricCalls.filterMap (fun call =>
    match call.2 with
    | .done (some out) _ => some (call.1, out)
    | _ => none)

def forwardedLogs (s : Pipeline) : List (Logs × Logs) :=
  s.logCalls.filterMap (fun call =>
    match call.2 with
    | .done (some out) => some (call.1, out)
    | _ => none)

def forwardedTraces (s : Pipeline) : List (Traces × Traces) :=
  s.traceCalls.filterMap (fun call =>
    match call.2 with
    | .done (some out) => some (call.1, out)
    | _ => none)

/-- What each step can do. -/
inductive Effect (P : Platform) (wiring : Wiring) (s : Pipeline) : Action → Pipeline → Prop
  | demandSet (set : DemandSet) (now : Nat) : Effect P wiring s (.demandSet set now)
      { s with demand := s.demand.updateDemands set now, handler := some set }
  | updateRoutes (set : DemandSet) (pending : s.handler = some set) :
      Effect P wiring s .updateRoutes { s with
        demand := s.demand.updateTraceRoutes (traceRoutesFromProto set.traceDemands)
        handler := none }
  | otherMessage : Effect P wiring s .otherMessage s
  | metricsArrive (md : Metrics) : Effect P wiring s (.metricsArrive md)
      { s with metricCalls := s.metricCalls ++ [(md, .start)] }
  | metricsBegin (i : Nat) (md : Metrics) (here : s.metricCalls[i]? = some (md, .start)) :
      Effect P wiring s (.metricsBegin i)
        { s with metricCalls := s.metricCalls.set i (md, beginMetrics wiring s) }
  | metricsReadNames (i : Nat) (md : Metrics) (here : s.metricCalls[i]? = some (md, .names)) :
      Effect P wiring s (.metricsReadNames i)
        { s with metricCalls := s.metricCalls.set i (md, .demands s.demand.timeseries) }
  | metricsSelect (i : Nat) (md : Metrics) (raw : List GoString)
      (here : s.metricCalls[i]? = some (md, .selectors raw)) :
      Effect P wiring s (.metricsFinish i) { s with
        metricCalls := s.metricCalls.set i
          (md, .done (consumeSelectorMode P s.metricCache raw md).1 s.metricCache)
        metricCache := (consumeSelectorMode P s.metricCache raw md).2 }
  | metricsName (i : Nat) (md : Metrics) (names : List GoString)
      (here : s.metricCalls[i]? = some (md, .demands names)) :
      Effect P wiring s (.metricsFinish i) { s with
        metricCalls :=
          s.metricCalls.set i (md, .done (consumeNameMode P names md) s.metricCache) }
  | logsArrive (ld : Logs) : Effect P wiring s (.logsArrive ld)
      { s with logCalls := s.logCalls ++ [(ld, .start)] }
  | logsRead (i : Nat) (ld : Logs) (here : s.logCalls[i]? = some (ld, .start)) :
      Effect P wiring s (.logsRead i)
        { s with logCalls := s.logCalls.set i (ld, readLogs wiring s.demand) }
  | logsFinish (i : Nat) (ld : Logs) (raw : List GoString)
      (here : s.logCalls[i]? = some (ld, .selectors raw)) :
      Effect P wiring s (.logsFinish i) { s with
        logCalls := s.logCalls.set i (ld, .done (consumeLogs P.toGoRuntime s.logCache raw ld).1)
        logCache := (consumeLogs P.toGoRuntime s.logCache raw ld).2 }
  | tracesArrive (td : Traces) : Effect P wiring s (.tracesArrive td)
      { s with traceCalls := s.traceCalls ++ [(td, .start)] }
  | tracesReadRoutes (i : Nat) (td : Traces) (here : s.traceCalls[i]? = some (td, .start)) :
      Effect P wiring s (.tracesReadRoutes i)
        { s with traceCalls := s.traceCalls.set i (td, readRoutes wiring s.demand) }
  | tracesReadSelectors (i : Nat) (td : Traces) (here : s.traceCalls[i]? = some (td, .unrouted)) :
      Effect P wiring s (.tracesReadSelectors i)
        { s with traceCalls := s.traceCalls.set i (td, .selectors s.demand.traceSelectors) }
  | tracesRoute (i : Nat) (td : Traces) (routes : List Route)
      (here : s.traceCalls[i]? = some (td, .routed routes)) :
      Effect P wiring s (.tracesFinish i) { s with
        traceCalls :=
          s.traceCalls.set i (td, .done (consumeRouted P.toGoRuntime s.routeCache routes td).1)
        routeCache := (consumeRouted P.toGoRuntime s.routeCache routes td).2 }
  | tracesSelect (i : Nat) (td : Traces) (raw : List GoString)
      (here : s.traceCalls[i]? = some (td, .selectors raw)) :
      Effect P wiring s (.tracesFinish i) { s with
        traceCalls :=
          s.traceCalls.set i (td, .done (consumeUnrouted P.toGoRuntime s.traceCache raw td).1)
        traceCache := (consumeUnrouted P.toGoRuntime s.traceCache raw td).2 }

theorem effect_of_step {P : Platform} {wiring : Wiring} {s s' : Pipeline} {a : Action}
    (stepped : step P wiring s a = some s') : Effect P wiring s a s' := by
  cases a with
  | demandSet set now =>
    simp only [step] at stepped
    split at stepped <;> cases stepped
    exact .demandSet set now
  | updateRoutes =>
    simp only [step] at stepped
    split at stepped <;> cases stepped
    exact .updateRoutes _ ‹_›
  | otherMessage =>
    cases stepped
    exact .otherMessage
  | metricsArrive md =>
    cases stepped
    exact .metricsArrive md
  | metricsBegin i =>
    simp only [step] at stepped
    split at stepped <;> cases stepped
    exact .metricsBegin i _ ‹_›
  | metricsReadNames i =>
    simp only [step] at stepped
    split at stepped <;> cases stepped
    exact .metricsReadNames i _ ‹_›
  | metricsFinish i =>
    simp only [step] at stepped
    split at stepped <;> cases stepped
    · exact .metricsSelect i _ _ ‹_›
    · exact .metricsName i _ _ ‹_›
  | logsArrive ld =>
    cases stepped
    exact .logsArrive ld
  | logsRead i =>
    simp only [step] at stepped
    split at stepped <;> cases stepped
    exact .logsRead i _ ‹_›
  | logsFinish i =>
    simp only [step] at stepped
    split at stepped <;> cases stepped
    exact .logsFinish i _ _ ‹_›
  | tracesArrive td =>
    cases stepped
    exact .tracesArrive td
  | tracesReadRoutes i =>
    simp only [step] at stepped
    split at stepped <;> cases stepped
    exact .tracesReadRoutes i _ ‹_›
  | tracesReadSelectors i =>
    simp only [step] at stepped
    split at stepped <;> cases stepped
    exact .tracesReadSelectors i _ ‹_›
  | tracesFinish i =>
    simp only [step] at stepped
    split at stepped <;> cases stepped
    · exact .tracesRoute i _ _ ‹_›
    · exact .tracesSelect i _ _ ‹_›

theorem mem_received {acts : List Action} {set : DemandSet} {now : Nat}
    (member : Action.demandSet set now ∈ acts) : set ∈ received acts :=
  List.mem_filterMap.mpr ⟨_, member, rfl⟩

theorem mem_forwardedMetrics {s : Pipeline} {md out : Metrics} :
    (md, out) ∈ forwardedMetrics s ↔ ∃ cache, (md, .done (some out) cache) ∈ s.metricCalls := by
  simp only [forwardedMetrics, List.mem_filterMap, Prod.exists]
  constructor
  · rintro ⟨source, phase, member, same⟩
    split at same <;> cases same
    exact ⟨_, member⟩
  · rintro ⟨cache, member⟩
    exact ⟨md, _, member, rfl⟩

theorem mem_forwardedLogs {s : Pipeline} {ld out : Logs} :
    (ld, out) ∈ forwardedLogs s ↔ (ld, .done (some out)) ∈ s.logCalls := by
  simp only [forwardedLogs, List.mem_filterMap, Prod.exists]
  constructor
  · rintro ⟨source, phase, member, same⟩
    split at same <;> cases same
    exact member
  · intro member
    exact ⟨ld, _, member, rfl⟩

theorem mem_forwardedTraces {s : Pipeline} {td out : Traces} :
    (td, out) ∈ forwardedTraces s ↔ (td, .done (some out)) ∈ s.traceCalls := by
  simp only [forwardedTraces, List.mem_filterMap, Prod.exists]
  constructor
  · rintro ⟨source, phase, member, same⟩
    split at same <;> cases same
    exact member
  · intro member
    exact ⟨td, _, member, rfl⟩

end SignalAgent.Demand.DemandPipeline
