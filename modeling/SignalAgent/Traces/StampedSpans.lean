/- MID: SignalAgent/Traces/StampedSpans
   layer: results
   source: components/edgecontroller/extension.go, components/tracedemandfilter/processor.go,
     components/tracerouter/exporter.go
   digest: A call that reads no routes and then selectors hands on spans without a rule stamp. -/

import SignalAgent.Demand.FailClosed
import SignalAgent.Traces.RuleRouter

set_option autoImplicit false
set_option relaxedAutoImplicit false

namespace SignalAgent.Traces.StampedSpans

open Foundations.GoText Foundations.GuardedRuns Foundations.Interleavings
open Telemetry.Pdata Telemetry.SeriesLabels
open Demand.ResourceFilters Demand.DemandPipeline
open Demand.FailClosed (fullWiring webDemand webTraces)
open RuleRouter

/-- The trace demands are whole and list exactly the trace selectors. -/
def Complete (set : DemandSet) : Prop :=
  (∀ d ∈ set.traceDemands, d.selector ≠ [] ∧ d.filterId ≠ [] ∧ d.selector ∈ set.traceSelectors) ∧
    ∀ t ∈ set.traceSelectors, ∃ d ∈ set.traceDemands, d.selector = t

instance (set : DemandSet) : Decidable (Complete set) :=
  inferInstanceAs (Decidable (_ ∧ _))

/-- Every DemandSet the server sends is complete. -/
def SendsComplete : Action → Prop
  | .demandSet set _ => Complete set
  | _ => True

/-- A call that has seen no routes sees no selectors either. -/
def ReadsNoSelectors (s : Pipeline) : Action → Prop
  | .tracesReadSelectors _ => s.demand.traceSelectors = []
  | _ => True

def Stamped (out : Traces) : Prop := ∀ rs ∈ out, filterIDOf rs ≠ []

/-- What a call has read or handed on names a rule. -/
def CallStamped (call : Traces × TracePhase) : Prop :=
  match call.2 with
  | .routed table => ∀ r ∈ table, r.filterID ≠ []
  | .selectors raw => raw = []
  | .done (some out) => Stamped out
  | _ => True

structure RulesNamed (s : Pipeline) : Prop where
  traceRoutes : ∀ r ∈ s.demand.traceRoutes, r.filterID ≠ []
  routeCache : ∀ pr ∈ s.routeCache.cachedParsed, pr.filterID ≠ []
  traceCalls : ∀ call ∈ s.traceCalls, CallStamped call

theorem filterIDOf_stamped (filterID : GoString) (rs : ResourceSpans) :
    filterIDOf (stamped filterID rs) = filterID := by
  simp only [filterIDOf, stamped, Attributes.get_putStr, Value.str]

theorem filterID_ne_nil_of_mem_traceRoutesFromProto {demands : List TraceDemand} {r : Route}
    (member : r ∈ traceRoutesFromProto demands) : r.filterID ≠ [] := by
  obtain ⟨d, -, made⟩ := List.mem_filterMap.mp member
  split at made
  · cases made
  · rename_i whole
    obtain rfl := Option.some.inj made
    exact fun empty => whole (Or.inr empty)

private theorem readRoutes_stamped {s : Pipeline} (named : RulesNamed s) (wiring : Wiring)
    (td : Traces) : CallStamped (td, readRoutes wiring s.demand) := by
  unfold readRoutes
  split
  · trivial
  · split
    · exact named.traceRoutes
    · trivial

private theorem consumeRouted_stamped {P : Platform} {s : Pipeline} (named : RulesNamed s)
    {td : Traces} {table : List Route} (read : CallStamped (td, .routed table)) :
    RulesNamed { s with routeCache := (consumeRouted P.toGoRuntime s.routeCache table td).2 } ∧
      CallStamped (td, .done (consumeRouted P.toGoRuntime s.routeCache table td).1) := by
  obtain ⟨cache, forwarded⟩ := consumeRouted_spec (R := P.toGoRuntime) named.routeCache
    (fun r member _ _ => read r member) td
  refine ⟨{ named with routeCache := cache }, ?_⟩
  cases result : (consumeRouted P.toGoRuntime s.routeCache table td).1 with
  | none => trivial
  | some out =>
    intro copy member
    obtain ⟨rs, -, pr, rule, -, rfl⟩ := forwarded out result copy member
    rwa [filterIDOf_stamped]

private theorem rulesNamed_initial : RulesNamed .initial := by
  constructor <;> simp [Pipeline.initial, DemandTimeseriesCache.new, ParseCache.initial]

private theorem rulesNamed_step {P : Platform} {wiring : Wiring} {s s' : Pipeline} {a : Action}
    (named : RulesNamed s) (guard : ReadsNoSelectors s a)
    (stepped : step P wiring s a = some s') : RulesNamed s' := by
  cases effect_of_step stepped with
  | updateRoutes set pending =>
    exact { named with
      traceRoutes := fun r member => filterID_ne_nil_of_mem_traceRoutesFromProto member }
  | tracesArrive td =>
    exact { named with traceCalls :=
      List.forall_mem_append.mpr ⟨named.traceCalls, List.forall_mem_singleton.mpr trivial⟩ }
  | tracesReadRoutes i td here =>
    have read := readRoutes_stamped named wiring td
    exact { named with traceCalls := forall_mem_set named.traceCalls read }
  | tracesReadSelectors i td here =>
    exact { named with traceCalls := forall_mem_set named.traceCalls guard }
  | tracesRoute i td table here =>
    obtain ⟨kept, done⟩ := consumeRouted_stamped named
      (named.traceCalls _ (List.mem_of_getElem? here))
    exact { kept with traceCalls := forall_mem_set named.traceCalls done }
  | tracesSelect i td raw here =>
    -- The call has read the empty list and hands nothing on.
    obtain rfl : raw = [] := named.traceCalls _ (List.mem_of_getElem? here)
    exact { named with traceCalls := forall_mem_set named.traceCalls trivial }
  | _ => exact ⟨named.traceRoutes, named.routeCache, named.traceCalls⟩

/-- In every run in which no call sees selectors after it has seen no routes, every span that
is handed on carries a rule stamp and none reaches the tenant-wide group of the router. -/
theorem spans_stamped_without_late_selectors {P : Platform} {wiring : Wiring}
    {acts : List Action} {s : Pipeline}
    (run : Run (step P wiring) ReadsNoSelectors .initial acts s) :
    ∀ td out, (td, out) ∈ forwardedTraces s →
      (∀ rs ∈ out, filterIDOf rs ≠ []) ∧ [] ∉ groupByFilterID out := by
  have named : RulesNamed s := run.stateInvariant RulesNamed rulesNamed_initial rulesNamed_step
  intro td out member
  have every : Stamped out := named.traceCalls _ (mem_forwardedTraces.mp member)
  refine ⟨every, fun grouped => ?_⟩
  obtain ⟨rs, inside, empty⟩ := mem_groupByFilterID.mp grouped
  exact every rs inside empty

private def selectorsTest (s : Pipeline) : Action → Bool
  | .tracesReadSelectors _ => s.demand.traceSelectors = []
  | _ => true

private theorem selectorsTest_sound (s : Pipeline) (a : Action)
    (passed : selectorsTest s a = true) : ReadsNoSelectors s a := by
  cases a with
  | tracesReadSelectors i =>
    show s.demand.traceSelectors = []
    exact of_decide_eq_true passed
  | _ => trivial

/-- One call comes before the demand, one after its routes are written. -/
def callsAroundUpdate : List Action :=
  [.tracesArrive webTraces, .tracesReadRoutes 0, .tracesReadSelectors 0, .tracesFinish 0,
    .demandSet webDemand 0, .updateRoutes,
    .tracesArrive webTraces, .tracesReadRoutes 1, .tracesFinish 1]

theorem spans_after_update_are_stamped :
    ∃ s, Run (step plainPlatform fullWiring) ReadsNoSelectors .initial callsAroundUpdate s ∧
      ∃ td out, (td, out) ∈ forwardedTraces s ∧ out ≠ [] ∧ [] ∉ groupByFilterID out := by
  have executed : (exec (step plainPlatform fullWiring) selectorsTest .initial
      callsAroundUpdate).any (fun s => (forwardedTraces s).any (fun batch => batch.2 ≠ [])) =
        true := by
    decide +kernel
  obtain ⟨s, run, final⟩ := exists_run_of_exec selectorsTest callsAroundUpdate _
    selectorsTest_sound executed
  obtain ⟨⟨td, out⟩, member, some⟩ := List.any_eq_true.mp final
  exact ⟨s, run, td, out, member, of_decide_eq_true some,
    (spans_stamped_without_late_selectors run td out member).2⟩

/-- Both reads of a call fall between the two writes of the first demand. -/
def callInsideUpdate : List Action :=
  [.tracesArrive webTraces, .demandSet webDemand 0, .tracesReadRoutes 0, .tracesReadSelectors 0,
    .tracesFinish 0, .updateRoutes]

private def completeTest (_ : Pipeline) : Action → Bool
  | .demandSet set _ => Complete set
  | _ => true

private theorem completeTest_sound (s : Pipeline) (a : Action) (passed : completeTest s a = true) :
    SendsComplete a := by
  cases a with
  | demandSet set now =>
    show Complete set
    exact of_decide_eq_true passed
  | _ => trivial

theorem span_inside_update_bypasses_rules :
    ¬ ∀ acts s, Run (step plainPlatform fullWiring) (fun _ a => SendsComplete a) .initial acts s →
      ∀ td out, (td, out) ∈ forwardedTraces s →
        (∀ rs ∈ out, filterIDOf rs ≠ []) ∧ [] ∉ groupByFilterID out := by
  intro stamped
  have executed : (exec (step plainPlatform fullWiring) completeTest .initial
      callInsideUpdate).any (fun s => (forwardedTraces s).any (fun batch =>
        [] ∈ groupByFilterID batch.2)) = true := by
    decide +kernel
  obtain ⟨s, run, final⟩ := exists_run_of_exec completeTest callInsideUpdate _
    completeTest_sound executed
  obtain ⟨⟨td, out⟩, member, bypassed⟩ := List.any_eq_true.mp final
  exact (stamped _ s run td out member).2 (of_decide_eq_true bypassed)

end SignalAgent.Traces.StampedSpans
