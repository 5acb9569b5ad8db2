/- MID: SignalAgent/Demand/CacheReset
   layer: results
   source: components/edgecontroller/demand_timeseries_cache.go
   digest: What GetDemands reports after any calls, and the routes that survive a reset. -/

import Mathlib.Data.List.DropRight
import SignalAgent.Demand.DemandPipeline

set_option autoImplicit false
set_option relaxedAutoImplicit false

namespace SignalAgent.Demand.CacheReset

open Foundations.GoText
open ResourceFilters DemandPipeline

/-- The value type returned by GetDemands. -/
structure DemandTimeseriesSnapshot where
  timeseries : List GoString
  logSelectors : List GoString
  traceSelectors : List GoString
  metricSelectors : List GoString
  traceRoutes : List Route
  demandHash : UInt64
  lastUpdate : Nat
  deriving DecidableEq

/-- Init as the source has it: six of the seven fields are cleared. -/
def initCache (c : DemandTimeseriesCache) : DemandTimeseriesCache :=
  { c with
    timeseries := []
    logSelectors := []
    traceSelectors := []
    metricSelectors := []
    demandHash := 0
    lastUpdate := 0 }

def getDemands (c : DemandTimeseriesCache) : DemandTimeseriesSnapshot :=
  ⟨c.timeseries, c.logSelectors, c.traceSelectors, c.metricSelectors, c.traceRoutes,
    c.demandHash, c.lastUpdate⟩

/-- A call that changes the cache, with the clock reading UpdateDemands takes. -/
inductive DemandCall where
  | updateDemands (set : DemandSet) (now : Nat)
  | updateTraceRoutes (routes : List Route)
  | init

def call (c : DemandTimeseriesCache) : DemandCall → DemandTimeseriesCache
  | .updateDemands set now => c.updateDemands set now
  | .updateTraceRoutes routes => c.updateTraceRoutes routes
  | .init => initCache c

/-- A new cache after these calls, in order. -/
def afterCalls (calls : List DemandCall) : DemandTimeseriesCache :=
  calls.foldl call DemandTimeseriesCache.new

section Expected

def DemandCall.isInit : DemandCall → Bool
  | .init => true
  | _ => false

def DemandCall.demands? : DemandCall → Option (DemandSet × Nat)
  | .updateDemands set now => some (set, now)
  | _ => none

def DemandCall.routes? : DemandCall → Option (List Route)
  | .updateTraceRoutes routes => some routes
  | _ => none

/-- The calls after the last Init, all of them without one. -/
def sinceInit (calls : List DemandCall) : List DemandCall :=
  calls.rtakeWhile (fun c => !c.isInit)

def lastDemands (calls : List DemandCall) : Option (DemandSet × Nat) :=
  (calls.filterMap DemandCall.demands?).getLast?

def lastRoutes (calls : List DemandCall) : Option (List Route) :=
  (calls.filterMap DemandCall.routes?).getLast?

/-- The snapshot of one demand update and one route table. -/
def snapshotOf (demands : Option (DemandSet × Nat)) (routes : List Route) :
    DemandTimeseriesSnapshot :=
  match demands with
  | none => ⟨[], [], [], [], routes, 0, 0⟩
  | some (set, now) =>
    ⟨set.metrics, set.logSelectors, set.traceSelectors, set.metricSelectors, routes, set.hash, now⟩

/-- The latest update of each kind since the last reset, empty where there is none. -/
def latestSinceInit (calls : List DemandCall) : DemandTimeseriesSnapshot :=
  snapshotOf (lastDemands (sinceInit calls)) ((lastRoutes (sinceInit calls)).getD [])

end Expected

section Calls

variable (calls : List DemandCall) (last : DemandCall)

private theorem sinceInit_concat :
    sinceInit (calls ++ [last]) = if last.isInit then [] else sinceInit calls ++ [last] := by
  rw [sinceInit, List.rtakeWhile_concat]
  cases last <;> rfl

private theorem lastDemands_concat :
    lastDemands (calls ++ [last]) = last.demands?.or (lastDemands calls) := by
  rw [lastDemands, lastDemands, List.filterMap_append]
  cases last <;> simp [DemandCall.demands?]

private theorem lastRoutes_concat :
    lastRoutes (calls ++ [last]) = last.routes?.or (lastRoutes calls) := by
  rw [lastRoutes, lastRoutes, List.filterMap_append]
  cases last <;> simp [DemandCall.routes?]

private theorem afterCalls_concat :
    afterCalls (calls ++ [last]) = call (afterCalls calls) last := by
  simp [afterCalls]

private theorem traceRoutes_afterCalls :
    (afterCalls calls).traceRoutes = (lastRoutes calls).getD [] := by
  induction calls using List.reverseRecOn with
  | nil => rfl
  | append_singleton calls last ih =>
    rw [afterCalls_concat, lastRoutes_concat]
    cases last with
    | updateDemands set now => exact ih
    | updateTraceRoutes routes => rfl
    | init => exact ih

private theorem getDemands_afterCalls :
    getDemands (afterCalls calls) =
      snapshotOf (lastDemands (sinceInit calls)) ((lastRoutes calls).getD []) := by
  -- The demand half follows the last reset; the routes follow the whole history.
  rw [← traceRoutes_afterCalls]
  induction calls using List.reverseRecOn with
  | nil => rfl
  | append_singleton calls last ih =>
    rw [afterCalls_concat, sinceInit_concat]
    cases last with
    | updateDemands set now =>
      simp only [DemandCall.isInit, Bool.false_eq_true, if_false, lastDemands_concat]
      rfl
    | updateTraceRoutes routes =>
      simp only [DemandCall.isInit, Bool.false_eq_true, if_false, lastDemands_concat]
      have replaced : getDemands (call (afterCalls calls) (.updateTraceRoutes routes)) =
          { getDemands (afterCalls calls) with traceRoutes := routes } := rfl
      rw [replaced, ih]
      show _ = snapshotOf (lastDemands (sinceInit calls)) routes
      cases lastDemands (sinceInit calls) <;> rfl
    | init => rfl

private theorem lastRoutes_of_sinceInit {calls : List DemandCall} {routes : List Route}
    (found : lastRoutes (sinceInit calls) = some routes) : lastRoutes calls = some routes := by
  have suffix : sinceInit calls <:+ calls := List.rtakeWhile_suffix _ calls
  obtain ⟨before, split⟩ := suffix
  rw [← split, lastRoutes, List.filterMap_append, List.getLast?_append]
  rw [lastRoutes] at found
  rw [found, Option.some_or]

end Calls

/-- If no route update follows the last reset, the last one before it carried no route. -/
def NoStaleRoutes (calls : List DemandCall) : Prop :=
  lastRoutes (sinceInit calls) = none → ∀ routes, lastRoutes calls = some routes → routes = []

private theorem snapshotOf_inj (demands : Option (DemandSet × Nat)) (left right : List Route) :
    snapshotOf demands left = snapshotOf demands right ↔ left = right := by
  constructor
  · intro same
    have routes := congrArg DemandTimeseriesSnapshot.traceRoutes same
    cases demands <;> exact routes
  · rintro rfl
    rfl

/-- GetDemands reports the latest update of each kind since the last reset exactly when no routes
from before the reset are left; for a reset cache that report is a new cache's. -/
theorem getDemands_latest_iff (calls : List DemandCall) :
    (getDemands (afterCalls calls) = latestSinceInit calls ↔ NoStaleRoutes calls) ∧
      latestSinceInit (calls ++ [.init]) = getDemands DemandTimeseriesCache.new := by
  refine ⟨?_, ?_⟩
  · rw [getDemands_afterCalls, latestSinceInit, snapshotOf_inj, NoStaleRoutes]
    cases since : lastRoutes (sinceInit calls) with
    | some routes => simp [lastRoutes_of_sinceInit since]
    | none => cases lastRoutes calls <;> simp
  · rw [latestSinceInit, sinceInit_concat]
    rfl

theorem routes_survive_init :
    getDemands (afterCalls [.updateTraceRoutes [⟨lit "\x7bapp=\"a\"\x7d", lit "f1"⟩], .init]) ≠
      latestSinceInit [.updateTraceRoutes [⟨lit "\x7bapp=\"a\"\x7d", lit "f1"⟩], .init] := by
  decide +kernel

end SignalAgent.Demand.CacheReset
