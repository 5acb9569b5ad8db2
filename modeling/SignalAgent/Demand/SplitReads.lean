/- MID: SignalAgent/Demand/SplitReads
   layer: results
   source: components/demandfilter/processor.go, components/edgecontroller/extension.go,
     components/edgecontroller/demand_timeseries_cache.go
   digest: The mode and the names of a metrics call come from two reads of the demand cache. -/

import SignalAgent.Demand.FailClosed

set_option autoImplicit false
set_option relaxedAutoImplicit false

namespace SignalAgent.Demand.SplitReads

open Foundations.GoText Foundations.GuardedRuns Foundations.Interleavings
open Telemetry.Pdata Telemetry.SeriesLabels
open MetricFilter DemandPipeline
open FailClosed (fullWiring webAttributes webDemand webMetrics)

/-- The demand of the agent before any DemandSet. -/
def emptyDemand : DemandSet := ⟨[], [], [], [], [], 0⟩

/-- A ConsumeMetrics call with one DemandSet in force throughout. -/
def wholeCall (P : Platform) (wiring : Wiring) (cache : SelectorCache) (set : DemandSet)
    (md : Metrics) : Option Metrics :=
  if wiring.metricProvider = false then none
  else (consumeMetrics P wiring.selectorProvider cache set.metricSelectors set.metrics md).1

/-- The datapoints handed on. -/
def pointsOf (out : Option Metrics) : List Located := out.elim [] located

/-- Every finished call handed on the datapoints it would have handed on under the initial
demand or under one of the DemandSets received. -/
def FilteredUnderOneSet (P : Platform) (wiring : Wiring) (acts : List Action) (s : Pipeline) :
    Prop :=
  ∀ md out cache, (md, .done out cache) ∈ s.metricCalls →
    ∃ set ∈ emptyDemand :: received acts,
      pointsOf out = pointsOf (wholeCall P wiring cache set md)

/-- Names are not read while the demand holds selectors besides them. -/
def NamesWithoutSelectors (wiring : Wiring) (s : Pipeline) : Action → Prop
  | .metricsReadNames _ => wiring.selectorProvider = true →
      s.demand.metricSelectors = [] ∨ s.demand.timeseries = []
  | _ => True

/-- What is left of a call is what it would do under one of the sets. -/
def CallUnderOneSet (P : Platform) (wiring : Wiring) (sets : List DemandSet)
    (call : Metrics × MetricPhase) : Prop :=
  match call.2 with
  | .start => True
  | .selectors raw => ∃ set ∈ sets, ∀ cache,
      (consumeSelectorMode P cache raw call.1).1 = wholeCall P wiring cache set call.1
  | .names => wiring.metricProvider = true
  | .demands names => ∃ set ∈ sets, ∀ cache,
      consumeNameMode P names call.1 = wholeCall P wiring cache set call.1
  | .done out cache => ∃ set ∈ sets, out = wholeCall P wiring cache set call.1

structure UnderOneSet (P : Platform) (wiring : Wiring) (sets : List DemandSet) (s : Pipeline) :
    Prop where
  initial : emptyDemand ∈ sets
  demand : ∃ set ∈ sets,
    s.demand.timeseries = set.metrics ∧ s.demand.metricSelectors = set.metricSelectors
  metricCalls : ∀ call ∈ s.metricCalls, CallUnderOneSet P wiring sets call

section Calls

variable {P : Platform} {wiring : Wiring} {sets : List DemandSet} {s : Pipeline}
  (under : UnderOneSet P wiring sets s)
include under

private theorem beginMetrics_underOneSet (md : Metrics) :
    CallUnderOneSet P wiring sets (md, beginMetrics wiring s) := by
  unfold beginMetrics
  split
  · rename_i absent
    exact ⟨emptyDemand, under.initial, (if_pos absent).symm⟩
  · rename_i present
    split
    · rename_i mode
      obtain ⟨set, member, -, selectors⟩ := under.demand
      refine ⟨set, member, fun cache => ?_⟩
      rw [wholeCall, if_neg present, consumeMetrics, ← selectors, if_pos mode]
    · exact Bool.not_eq_false _ |>.mp present

private theorem readNames_underOneSet (md : Metrics) {i : Nat}
    (guard : NamesWithoutSelectors wiring s (.metricsReadNames i))
    (present : wiring.metricProvider = true) :
    CallUnderOneSet P wiring sets (md, .demands s.demand.timeseries) := by
  have named : ∃ set ∈ sets, s.demand.timeseries = set.metrics ∧
      ¬ (wiring.selectorProvider = true ∧ set.metricSelectors ≠ []) := by
    obtain ⟨set, member, names, selectors⟩ := under.demand
    by_cases offered : wiring.selectorProvider = true
    · rcases guard offered with none | none
      · exact ⟨set, member, names, fun mode => mode.2 (selectors ▸ none)⟩
      · exact ⟨emptyDemand, under.initial, none, fun mode => mode.2 rfl⟩
    · exact ⟨set, member, names, fun mode => offered mode.1⟩
  obtain ⟨set, member, names, mode⟩ := named
  refine ⟨set, member, fun cache => ?_⟩
  rw [wholeCall, if_neg (by simp [present]), consumeMetrics, if_neg mode, names]

end Calls

private theorem underOneSet_step {P : Platform} {wiring : Wiring} {acts : List Action}
    {s s' : Pipeline} {a : Action}
    (under : UnderOneSet P wiring (emptyDemand :: received acts) s)
    (guard : NamesWithoutSelectors wiring s a ∧ a ∈ acts)
    (stepped : step P wiring s a = some s') :
    UnderOneSet P wiring (emptyDemand :: received acts) s' := by
  cases effect_of_step stepped with
  | demandSet set now =>
    have applied := List.mem_cons_of_mem emptyDemand (mem_received guard.2)
    exact { under with demand := ⟨set, applied, rfl, rfl⟩ }
  | metricsArrive md =>
    exact { under with metricCalls :=
      List.forall_mem_append.mpr ⟨under.metricCalls, List.forall_mem_singleton.mpr trivial⟩ }
  | metricsBegin i md here =>
    have read := beginMetrics_underOneSet under md
    exact { under with metricCalls := forall_mem_set under.metricCalls read }
  | metricsReadNames i md here =>
    have present : wiring.metricProvider = true :=
      under.metricCalls _ (List.mem_of_getElem? here)
    have read := readNames_underOneSet under md guard.1 present
    exact { under with metricCalls := forall_mem_set under.metricCalls read }
  | metricsSelect i md raw here =>
    obtain ⟨set, member, same⟩ : CallUnderOneSet P wiring _ (md, .selectors raw) :=
      under.metricCalls _ (List.mem_of_getElem? here)
    have done : CallUnderOneSet P wiring (emptyDemand :: received acts)
        (md, .done (consumeSelectorMode P s.metricCache raw md).1 s.metricCache) :=
      ⟨set, member, same s.metricCache⟩
    exact { under with metricCalls := forall_mem_set under.metricCalls done }
  | metricsName i md names here =>
    obtain ⟨set, member, same⟩ : CallUnderOneSet P wiring _ (md, .demands names) :=
      under.metricCalls _ (List.mem_of_getElem? here)
    have done : CallUnderOneSet P wiring (emptyDemand :: received acts)
        (md, .done (consumeNameMode P names md) s.metricCache) :=
      ⟨set, member, same s.metricCache⟩
    exact { under with metricCalls := forall_mem_set under.metricCalls done }
  | _ => exact ⟨under.initial, under.demand, under.metricCalls⟩

private theorem underOneSet_initial (P : Platform) (wiring : Wiring) (sets : List DemandSet) :
    UnderOneSet P wiring (emptyDemand :: sets) .initial where
  initial := List.mem_cons_self
  demand := ⟨emptyDemand, List.mem_cons_self, rfl, rfl⟩
  metricCalls _ member := absurd member List.not_mem_nil

/-- In every run in which names are only read while the demand holds no selectors or no names,
every metrics call is filtered under one whole DemandSet. -/
theorem filtered_under_one_set_without_late_selectors {P : Platform} {wiring : Wiring}
    {acts : List Action} {s : Pipeline}
    (run : Run (step P wiring) (NamesWithoutSelectors wiring) .initial acts s) :
    FilteredUnderOneSet P wiring acts s := by
  have under : UnderOneSet P wiring (emptyDemand :: received acts) s :=
    (run.restrict (List.Subset.refl acts)).stateInvariant _ (underOneSet_initial P wiring _)
      underOneSet_step
  intro md out cache finished
  obtain ⟨set, member, same⟩ := under.metricCalls _ finished
  exact ⟨set, member, congrArg pointsOf same⟩

private def namesTest (wiring : Wiring) (s : Pipeline) : Action → Bool
  | .metricsReadNames _ => !wiring.selectorProvider ||
      (s.demand.metricSelectors = [] || s.demand.timeseries = [])
  | _ => true

private theorem namesTest_sound (wiring : Wiring) (s : Pipeline) (a : Action)
    (passed : namesTest wiring s a = true) : NamesWithoutSelectors wiring s a := by
  cases a with
  | metricsReadNames i =>
    intro offered
    simpa [namesTest, offered] using passed
  | _ => trivial

/-- A DemandSet of names arrives between the two reads. -/
def namesArrive : List Action :=
  [.metricsArrive webMetrics, .metricsBegin 0, .demandSet webDemand 0, .metricsReadNames 0,
    .metricsFinish 0]

theorem call_across_names_is_filtered_under_one_set :
    ∃ s, Run (step plainPlatform fullWiring) (NamesWithoutSelectors fullWiring) .initial
        namesArrive s ∧ forwardedMetrics s ≠ [] ∧
      FilteredUnderOneSet plainPlatform fullWiring namesArrive s := by
  have executed : (exec (step plainPlatform fullWiring) (namesTest fullWiring) .initial
      namesArrive).any (fun s => !(forwardedMetrics s).isEmpty) = true := by
    decide +kernel
  obtain ⟨s, run, final⟩ := exists_run_of_exec (namesTest fullWiring) namesArrive _
    (namesTest_sound fullWiring) executed
  have some : forwardedMetrics s ≠ [] := by simpa using final
  exact ⟨s, run, some, filtered_under_one_set_without_late_selectors run⟩

/-- Two datapoints of one metric. -/
def twoModes : Metrics :=
  [⟨webAttributes, [⟨[], [⟨⟨lit "cpu", [], .gauge⟩,
    [(⟨[(lit "mode", .string (lit "idle"))], [7]⟩ : NumberDataPoint),
      (⟨[(lit "mode", .string (lit "user"))], [3]⟩ : NumberDataPoint)]⟩]⟩]⟩]

/-- One mode of the metric is demanded; the names are there for agents without selectors. -/
def idleDemand : DemandSet :=
  { emptyDemand with
    metrics := [lit "cpu"]
    metricSelectors := [lit "\x7b__name__=\"cpu\",mode=\"idle\"\x7d"] }

/-- A DemandSet with selectors arrives between the two reads. -/
def selectorsArrive : List Action :=
  [.metricsArrive twoModes, .metricsBegin 0, .demandSet idleDemand 0, .metricsReadNames 0,
    .metricsFinish 0]

/-- A finished call handed on another number of datapoints than under each of the sets. -/
private def differsFromAll (sets : List DemandSet) (call : Metrics × MetricPhase) : Bool :=
  match call.2 with
  | .done out cache => sets.all (fun set => (pointsOf out).length ≠
      (pointsOf (wholeCall plainPlatform fullWiring cache set call.1)).length)
  | _ => false

theorem call_across_selectors_mixes_two_sets :
    ¬ ∀ acts s, Run (step plainPlatform fullWiring) (fun _ _ => True) .initial acts s →
      FilteredUnderOneSet plainPlatform fullWiring acts s := by
  intro filtered
  have executed : (exec (step plainPlatform fullWiring) (fun _ _ => true) .initial
      selectorsArrive).any (fun s => s.metricCalls.any
        (differsFromAll (emptyDemand :: received selectorsArrive))) = true := by
    decide +kernel
  obtain ⟨s, run, final⟩ := exists_run_of_exec (fun _ _ => true) selectorsArrive _
    (fun _ _ _ => trivial) executed
  obtain ⟨⟨md, phase⟩, member, differs⟩ := List.any_eq_true.mp final
  cases phase with
  | done out cache =>
    obtain ⟨set, applied, same⟩ := filtered _ s run md out cache member
    have other := of_decide_eq_true (List.all_eq_true.mp differs set applied)
    exact other (congrArg List.length same)
  | _ => cases differs

end SignalAgent.Demand.SplitReads
