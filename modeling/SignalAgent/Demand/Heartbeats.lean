/- MID: SignalAgent/Demand/Heartbeats
   layer: results
   source: components/edgecontroller/extension.go,
     components/edgecontroller/demand_timeseries_cache.go
   digest: A heartbeat echoes one demand set, no older than its tick, and its hash tells which. -/

import SignalAgent.Demand.Diagnosis
import SignalAgent.Index.IndexSync

set_option autoImplicit false
set_option relaxedAutoImplicit false

namespace SignalAgent.Demand.Heartbeats

open Foundations.GuardedRuns Foundations.Interleavings Foundations.GoText
open Selectors.SelectorMatch
open Telemetry.SeriesLabels
open Index.KnownCache Index.IndexSync
open DemandPipeline (DemandSet Pipeline Wiring traceRoutesFromProto received)
open CacheReset DemandMatcher NameAccounting Diagnosis

structure Ping where
  knownCacheSize : Int32
  discoveredCacheSize : Int32
  pendingBackendUpdates : Int32
  demandCacheSize : Int32
  demandLastUpdate : Nat
  demandedKnownCacheSize : Int32
  demandHash : UInt64
  deriving DecidableEq

/-- The demand a `buildPing` call has read; `tick` and `read` count the sets that had come in at
its tick and at its `GetDemands`. -/
structure Echo where
  tick : Nat
  read : Nat
  demand : DemandTimeseriesSnapshot

/-- Where a `pingLoop` stands: each call on a cache is a step of its own. -/
inductive Beating where
  | idle
  | ticked (tick : Nat)
  | demand (e : Echo)
  | known (e : Echo) (known : Nat)
  | discovered (e : Echo) (known discovered : Nat)
  | pending (e : Echo) (known discovered pending : Nat)
  | names (e : Echo) (known discovered pending : Nat) (names : NameSet)
  | ready (e : Echo) (ping : Ping)
  | ended

/-- How a send ends: on the stream, without one, or with an error. -/
inductive SendOutcome where
  | sent
  | noStream
  | failed

/-- A heartbeat that was sent, and by which loop. -/
structure Beat where
  loop : Nat
  echo : Echo
  ping : Ping

structure World where
  pipeline : Pipeline
  known : KnownTimeseriesCache
  discovered : DiscoveredTimeseriesCache
  sets : List (DemandSet × Nat)
  loops : List Beating
  sent : List Beat

def World.initial : World := ⟨.initial, ∅, ∅, [], [], []⟩

/-- The moves of the demand pipeline, of the two caches, and of the heartbeat loops. -/
inductive Action where
  | pipeline (a : DemandPipeline.Action)
  | known (after : KnownTimeseriesCache)
  | discovered (after : DiscoveredTimeseriesCache)
  | startLoop
  | tick (i : Nat)
  | beat (i now : Nat)
  | send (i : Nat) (outcome : SendOutcome)

def Action.demandSet? : Action → Option (DemandSet × Nat)
  | .pipeline (.demandSet set now) => some (set, now)
  | _ => none

/-- `buildPing` goes on by one call; `now` is the clock of the pending count. -/
def advance (R : GoRuntime) (w : World) (now : Nat) : Beating → Option Beating
  | .ticked tick => some (.demand ⟨tick, w.sets.length, getDemands w.pipeline.demand⟩)
  | .demand e => some (.known e w.known.keys.card)
  | .known e known => some (.discovered e known w.discovered.keys.card)
  | .discovered e known discovered =>
    some (.pending e known discovered (getPendingBackendUpdates w.known now))
  | .pending e known discovered pending =>
    some (.names e known discovered pending (demandedNameSet R e.demand w.known))
  | .names e known discovered pending names =>
    some (.ready e
      { knownCacheSize := Int32.ofNat known
        discoveredCacheSize := Int32.ofNat discovered
        pendingBackendUpdates := Int32.ofNat pending
        demandCacheSize := Int32.ofNat e.demand.timeseries.length
        demandLastUpdate := e.demand.lastUpdate
        demandedKnownCacheSize := Int32.ofNat (countDemanded w.known names)
        demandHash := e.demand.demandHash })
  | .idle | .ready _ _ | .ended => none

def step (P : Platform) (wiring : Wiring) (w : World) : Action → Option World
  | .pipeline a =>
    (DemandPipeline.step P wiring w.pipeline a).map (fun pipeline =>
      { w with pipeline := pipeline, sets := w.sets ++ (Action.pipeline a).demandSet?.toList })
  | .known after => some { w with known := after }
  | .discovered after => some { w with discovered := after }
  | .startLoop => some { w with loops := w.loops ++ [.idle] }
  | .tick i =>
    match w.loops[i]? with
    | some .idle => some { w with loops := w.loops.set i (.ticked w.sets.length) }
    | _ => none
  | .beat i now =>
    (w.loops[i]?.bind (advance P.toGoRuntime w now)).map (fun next =>
      { w with loops := w.loops.set i next })
  | .send i outcome =>
    match w.loops[i]?, outcome with
    | some (.ready e ping), .sent =>
      some { w with loops := w.loops.set i .idle, sent := w.sent ++ [⟨i, e, ping⟩] }
    | some (.ready _ _), .noStream => some { w with loops := w.loops.set i .idle }
    | some (.ready _ _), .failed => some { w with loops := w.loops.set i .ended }
    | _, _ => none

/-- What each step can do. -/
inductive Effect (P : Platform) (wiring : Wiring) (w : World) : Action → World → Prop
  | pipeline (a : DemandPipeline.Action) (pipeline : Pipeline)
      (moved : DemandPipeline.Effect P wiring w.pipeline a pipeline) :
      Effect P wiring w (.pipeline a) { w with
        pipeline := pipeline
        sets := w.sets ++ (Action.pipeline a).demandSet?.toList }
  | caches (a : Action) (known : KnownTimeseriesCache) (discovered : DiscoveredTimeseriesCache)
      (other : a.demandSet? = none) :
      Effect P wiring w a { w with known := known, discovered := discovered }
  | startLoop : Effect P wiring w .startLoop { w with loops := w.loops ++ [.idle] }
  | tick {i : Nat} (here : w.loops[i]? = some .idle) :
      Effect P wiring w (.tick i) { w with loops := w.loops.set i (.ticked w.sets.length) }
  | beat {i now : Nat} {old new : Beating} (here : w.loops[i]? = some old)
      (advanced : advance P.toGoRuntime w now old = some new) :
      Effect P wiring w (.beat i now) { w with loops := w.loops.set i new }
  | send {i : Nat} {e : Echo} {ping : Ping} (here : w.loops[i]? = some (.ready e ping)) :
      Effect P wiring w (.send i .sent)
        { w with loops := w.loops.set i .idle, sent := w.sent ++ [⟨i, e, ping⟩] }

  | drop {a : Action} {i : Nat} {e : Echo} {ping : Ping} {new : Beating}
      (here : w.loops[i]? = some (.ready e ping)) (left : new = .idle ∨ new = .ended)
      (other : a.demandSet? = none) : Effect P wiring w a { w with loops := w.loops.set i new }

theorem effect_of_step {P : Platform} {wiring : Wiring} {w w' : World} {a : Action}
    (stepped : step P wiring w a = some w') : Effect P wiring w a w' := by
  cases a with
  | pipeline a =>
    obtain ⟨pipeline, moved, rfl⟩ := Option.map_eq_some_iff.mp stepped
    exact .pipeline a pipeline (DemandPipeline.effect_of_step moved)
  | known after =>
    cases stepped
    exact .caches _ after w.discovered rfl
  | discovered after =>
    cases stepped
    exact .caches _ w.known after rfl
  | startLoop =>
    cases stepped
    exact .startLoop
  | tick i =>
    simp only [step] at stepped
    split at stepped <;> cases stepped
    exact .tick ‹_›
  | beat i now =>
    obtain ⟨new, found, rfl⟩ := Option.map_eq_some_iff.mp stepped
    obtain ⟨old, here, advanced⟩ := Option.bind_eq_some_iff.mp found
    exact .beat here advanced
  | send i outcome =>
    simp only [step] at stepped
    split at stepped <;> cases stepped
    · exact .send ‹_›
    · exact .drop ‹_› (Or.inl rfl) rfl
    · exact .drop ‹_› (Or.inr rfl) rfl

/-- The demand in force after these sets, with whatever routes. -/
def Shows (sets : List (DemandSet × Nat)) (demand : DemandTimeseriesSnapshot) : Prop :=
  demand = snapshotOf sets.getLast? demand.traceRoutes

/-- The routes of the set in force. -/
def routesOf (sets : List (DemandSet × Nat)) : List ResourceFilters.Route :=
  (sets.getLast?.map (fun entry => traceRoutesFromProto entry.1.traceDemands)).getD []

/-- The ping reports the size, time and hash of this demand, and no demanded series for an empty
one. -/
structure Echoes (demand : DemandTimeseriesSnapshot) (ping : Ping) : Prop where
  size : ping.demandCacheSize = Int32.ofNat demand.timeseries.length
  time : ping.demandLastUpdate = demand.lastUpdate
  hash : ping.demandHash = demand.demandHash
  none_ : demand.metricSelectors = [] → (∀ d ∈ demand.timeseries, d = []) →
    ping.demandedKnownCacheSize = 0

/-- The demand was read between the tick and now. -/
structure Fresh (sets : List (DemandSet × Nat)) (e : Echo) : Prop where
  after : e.tick ≤ e.read
  before : e.read ≤ sets.length
  shows_ : Shows (sets.take e.read) e.demand

def Beating.Good (R : GoRuntime) (sets : List (DemandSet × Nat)) : Beating → Prop
  | .idle | .ended => True
  | .ticked tick => tick ≤ sets.length
  | .demand e | .known e _ | .discovered e _ _ | .pending e _ _ _ => Fresh sets e
  | .names e _ _ _ expansion =>
    Fresh sets e ∧ ∃ cache, expansion = demandedNameSet R e.demand cache
  | .ready e ping => Fresh sets e ∧ Echoes e.demand ping

/-- When the beat under way was ticked. -/
def Beating.tick? : Beating → Option Nat
  | .idle | .ended => none
  | .ticked tick => some tick
  | .demand e | .known e _ | .discovered e _ _ | .pending e _ _ _ | .names e _ _ _ _
  | .ready e _ => some e.tick

structure Echoing (R : GoRuntime) (w : World) : Prop where
  force : Shows w.sets (getDemands w.pipeline.demand)
  handler : ∀ set, w.pipeline.handler = some set → ∃ now, w.sets.getLast? = some (set, now)
  routes : w.pipeline.handler = none → w.pipeline.demand.traceRoutes = routesOf w.sets
  loops : ∀ {i : Nat} {loop : Beating}, w.loops[i]? = some loop → loop.Good R w.sets
  sent : ∀ b ∈ w.sent, Fresh w.sets b.echo ∧ Echoes b.echo.demand b.ping
  known : ∀ b ∈ w.sent, ∃ loop, w.loops[b.loop]? = some loop ∧
    ∀ tick, loop.tick? = some tick → b.echo.read ≤ tick
  ordered : w.sent.Pairwise (fun a b => a.loop = b.loop → a.echo.read ≤ b.echo.tick)

section Steps

variable {P : Platform} {wiring : Wiring} {w w' : World} {sets more : List (DemandSet × Nat)}

private theorem Fresh.grow {e : Echo} (fresh : Fresh sets e) : Fresh (sets ++ more) e where
  after := fresh.after
  before := by
    rw [List.length_append]
    exact Nat.le_add_right_of_le fresh.before
  shows_ := by
    rw [List.take_append_of_le_length fresh.before]
    exact fresh.shows_

private theorem good_grow {R : GoRuntime} {loop : Beating} (good : loop.Good R sets) :
    loop.Good R (sets ++ more) := by
  cases loop with
  | idle | ended => trivial
  | ticked tick =>
    rw [Beating.Good, List.length_append]
    exact Nat.le_add_right_of_le good
  | demand | known | discovered | pending => exact Fresh.grow good
  | names => exact ⟨good.1.grow, good.2⟩
  | ready => exact ⟨good.1.grow, good.2⟩

private theorem countDemanded_of_empty {R : GoRuntime} {demand : DemandTimeseriesSnapshot}
    (naming : demand.metricSelectors = []) (empty : ∀ d ∈ demand.timeseries, d = [])
    (expanded counted : KnownTimeseriesCache) :
    countDemanded counted (demandedNameSet R demand expanded) = 0 := by
  have none_ : demandedNameSet R demand expanded = ∅ := by
    unfold demandedNameSet
    rw [if_neg (not_not_intro naming)]
    refine Finset.eq_empty_of_forall_notMem (fun n member => ?_)
    obtain ⟨d, listed, some_, -⟩ := mem_expandDemandNames.mp member
    exact some_ (empty d listed)
  exact none_ ▸ rfl

private theorem good_advance {R : GoRuntime} {now : Nat} {old new : Beating}
    (force : Shows w.sets (getDemands w.pipeline.demand)) (good : old.Good R w.sets)
    (advanced : advance R w now old = some new) :
    new.Good R w.sets ∧ new.tick? = old.tick? := by
  cases old with
  | idle | ready | ended => cases advanced
  | ticked tick =>
    cases advanced
    refine ⟨⟨good, Nat.le_refl _, ?_⟩, rfl⟩
    dsimp only
    rw [List.take_length]
    exact force
  | demand | known | discovered =>
    cases advanced
    exact ⟨good, rfl⟩
  | pending e =>
    cases advanced
    exact ⟨⟨good, _, rfl⟩, rfl⟩
  | names e known discovered pending names =>
    cases advanced
    obtain ⟨fresh, expanded, rfl⟩ := good
    refine ⟨⟨fresh, rfl, rfl, rfl, fun naming empty => ?_⟩, rfl⟩
    rw [countDemanded_of_empty naming empty]
    rfl

private theorem Echoing.frame (held : Echoing P.toGoRuntime w)
    (sets : w'.sets = w.sets ++ more) (loops : w'.loops = w.loops) (sent : w'.sent = w.sent)
    (force : Shows w'.sets (getDemands w'.pipeline.demand))
    (handler : ∀ set, w'.pipeline.handler = some set → ∃ now, w'.sets.getLast? = some (set, now))
    (routes : w'.pipeline.handler = none → w'.pipeline.demand.traceRoutes = routesOf w'.sets) :
    Echoing P.toGoRuntime w' where
  force := force
  handler := handler
  routes := routes
  loops here := by
    rw [sets]
    exact good_grow (held.loops (loops ▸ here))
  sent b member := by
    rw [sets]
    obtain ⟨fresh, echoes⟩ := held.sent b (sent ▸ member)
    exact ⟨fresh.grow, echoes⟩
  known b member := by
    rw [loops]
    exact held.known b (sent ▸ member)
  ordered := sent ▸ held.ordered

private theorem Echoing.move (held : Echoing P.toGoRuntime w) {i : Nat} {old new : Beating}
    (here : w.loops[i]? = some old) (good : new.Good P.toGoRuntime w.sets)
    (later : ∀ b ∈ w.sent, b.loop = i → ∀ tick, new.tick? = some tick → b.echo.read ≤ tick) :
    Echoing P.toGoRuntime { w with loops := w.loops.set i new } where
  force := held.force
  handler := held.handler
  routes := held.routes
  loops found := by
    rcases getElem?_set_cases found with ⟨rfl, rfl⟩ | ⟨-, found⟩
    · exact good
    · exact held.loops found
  sent := held.sent
  known b member := by
    by_cases own : b.loop = i
    · refine ⟨new, ?_, later b member own⟩
      rw [own]
      exact getElem?_set_here here
    · obtain ⟨loop, found, bound⟩ := held.known b member
      exact ⟨loop, by rwa [List.getElem?_set_ne (Ne.symm own)], bound⟩
  ordered := held.ordered

private theorem echoing_pipeline (held : Echoing P.toGoRuntime w) {a : DemandPipeline.Action}
    {pipeline : Pipeline} (moved : DemandPipeline.Effect P wiring w.pipeline a pipeline) :
    Echoing P.toGoRuntime { w with
      pipeline := pipeline
      sets := w.sets ++ (Action.pipeline a).demandSet?.toList } := by
  have still : ∀ p : Pipeline, p.demand = w.pipeline.demand → p.handler = w.pipeline.handler →
      Echoing P.toGoRuntime { w with pipeline := p, sets := w.sets ++ [] } := by
    intro p demand handler
    refine held.frame rfl rfl rfl ?_ ?_ ?_
    · rw [List.append_nil, demand]
      exact held.force
    · rw [List.append_nil, handler]
      exact held.handler
    · rw [List.append_nil, handler, demand]
      exact held.routes
  cases moved with
  | demandSet set now =>
    have last : (w.sets ++ [(set, now)]).getLast? = some (set, now) := List.getLast?_concat ..
    refine held.frame rfl rfl rfl ?_ ?_ ?_
    · unfold Shows
      dsimp only [Action.demandSet?, Option.toList]
      rw [last]
      rfl
    · intro set' pending
      cases pending
      exact ⟨now, last⟩
    · exact nofun
  | updateRoutes set pending =>
    obtain ⟨now, last⟩ := held.handler set pending
    have force := held.force
    unfold Shows at force
    rw [last] at force
    refine held.frame rfl rfl rfl ?_ nofun (fun _ => ?_)
    · unfold Shows
      dsimp only [Action.demandSet?, Option.toList]
      rw [List.append_nil, last]
      simp only [snapshotOf, getDemands, DemandTimeseriesSnapshot.mk.injEq,
        DemandPipeline.DemandTimeseriesCache.updateTraceRoutes] at force ⊢
      simpa using force
    · dsimp only [Action.demandSet?, Option.toList]
      rw [List.append_nil, routesOf, last]
      rfl
  | otherMessage | metricsArrive | metricsBegin | metricsReadNames | metricsSelect | metricsName
  | logsArrive | logsRead | logsFinish | tracesArrive | tracesReadRoutes | tracesReadSelectors
  | tracesRoute | tracesSelect => exact still _ rfl rfl

private theorem echoing_step {a : Action} (held : Echoing P.toGoRuntime w)
    (stepped : step P wiring w a = some w') : Echoing P.toGoRuntime w' := by
  cases effect_of_step stepped with
  | pipeline a pipeline moved => exact echoing_pipeline held moved
  | caches a known discovered other => exact { held with }
  | startLoop =>
    refine { held with loops := ?_, known := ?_ }
    · intro i loop here
      rcases getElem?_concat_cases here with ⟨-, rfl⟩ | here
      · trivial
      · exact held.loops here
    · intro b member
      obtain ⟨loop, found, bound⟩ := held.known b member
      exact ⟨loop, getElem?_concat_of_some found, bound⟩
  | @tick i here =>
    refine held.move here (Nat.le_refl _) ?_
    rintro b member - tick ticked
    cases ticked
    exact (held.sent b member).1.before
  | @beat i now old new here advanced =>
    obtain ⟨good, same⟩ := good_advance held.force (held.loops here) advanced
    refine held.move here good ?_
    rintro b member rfl tick ticked
    obtain ⟨loop, found, bound⟩ := held.known b member
    obtain rfl := Option.some.inj (found.symm.trans here)
    exact bound tick (same ▸ ticked)
  | @send i e ping here =>
    obtain ⟨fresh, echoes⟩ := held.loops here
    have moved : Echoing P.toGoRuntime { w with loops := w.loops.set i .idle } :=
      held.move here trivial (fun _ _ _ _ ticked => nomatch ticked)
    refine { moved with sent := ?_, known := ?_, ordered := ?_ }
    · intro b member
      rcases List.mem_append.mp member with old | new
      · exact held.sent b old
      · obtain rfl := List.mem_singleton.mp new
        exact ⟨fresh, echoes⟩
    · intro b member
      rcases List.mem_append.mp member with old | new
      · exact moved.known b old
      · obtain rfl := List.mem_singleton.mp new
        exact ⟨.idle, getElem?_set_here here, nofun⟩
    · refine List.pairwise_append.mpr ⟨held.ordered, List.pairwise_singleton .., ?_⟩
      intro b old b' new own
      obtain rfl := List.mem_singleton.mp new
      obtain ⟨loop, found, bound⟩ := held.known b old
      rw [own] at found
      obtain rfl := Option.some.inj (found.symm.trans here)
      exact bound e.tick rfl
  | drop here left other =>
    rcases left with rfl | rfl
    · exact held.move here trivial (fun _ _ _ _ ticked => nomatch ticked)
    · exact held.move here trivial (fun _ _ _ _ ticked => nomatch ticked)

private theorem echoing_initial (R : GoRuntime) : Echoing R World.initial where
  force := rfl
  handler := nofun
  routes _ := rfl
  loops here := nomatch here
  sent _ member := nomatch member
  known _ member := nomatch member
  ordered := .nil

private theorem sets_step {a : Action} (stepped : step P wiring w a = some w') :
    w'.sets = w.sets ++ a.demandSet?.toList := by
  cases effect_of_step stepped with
  | pipeline a pipeline moved => rfl
  | caches a known discovered other =>
    rw [other]
    exact (List.append_nil _).symm
  | drop here left other =>
    rw [other]
    exact (List.append_nil _).symm
  | startLoop | tick | beat | send => exact (List.append_nil _).symm

private theorem read_of_hash {e : Echo} {set : DemandSet} {j now : Nat} (fresh : Fresh sets e)
    (distinct : (sets.map (fun entry => entry.1.hash)).Nodup)
    (nonzero : ∀ entry ∈ sets, entry.1.hash ≠ 0) (here : sets[j]? = some (set, now)) :
    e.demand.demandHash = set.hash ↔ e.read = j + 1 := by
  have shown := congrArg DemandTimeseriesSnapshot.demandHash fresh.shows_
  have bound := fresh.before
  rw [shown, List.getLast?_take]
  by_cases none_ : e.read = 0
  · rw [if_pos none_, none_]
    have other := nonzero _ (List.mem_of_getElem? here)
    simp only [snapshotOf]
    constructor
    · exact fun same => absurd same.symm other
    · omega
  · rw [if_neg none_]
    obtain ⟨entry, found⟩ : ∃ entry, sets[e.read - 1]? = some entry :=
      ⟨_, List.getElem?_eq_getElem (by omega)⟩
    rw [found, Option.some_or]
    simp only [snapshotOf]
    constructor
    · intro same
      have place : e.read - 1 = j := by
        rw [← List.filterMap_eq_map] at distinct
        exact place_unique_of_nodup distinct found here (congrArg some same) rfl
      omega
    · rintro read
      have place : e.read - 1 = j := by omega
      rw [place, here] at found
      rw [← Option.some.inj found]

end Steps

/-- Over every interleaving of demand sets, filter calls, cache changes and heartbeats: the lists,
hash and time in force are those of the last set received, its routes with it once its handler is
done; every heartbeat reports one set, the one in force at some point between its tick and its
send, and no demanded series for an empty one; a loop never goes back; and if the sets' hashes
differ, the echoed hash tells which set it was. -/
theorem heartbeats_echo_demand {P : Platform} {wiring : Wiring} {acts : List Action} {w : World}
    (run : Run (step P wiring) (fun _ _ => True) World.initial acts w) :
    w.sets = acts.filterMap Action.demandSet? ∧
      Shows w.sets (getDemands w.pipeline.demand) ∧
      (w.pipeline.handler = none → w.pipeline.demand.traceRoutes = routesOf w.sets) ∧
      (∀ b ∈ w.sent, Fresh w.sets b.echo ∧ Echoes b.echo.demand b.ping) ∧
      w.sent.Pairwise (fun a b => a.loop = b.loop → a.echo.read ≤ b.echo.tick) ∧
      ((w.sets.map (fun entry => entry.1.hash)).Nodup → (∀ entry ∈ w.sets, entry.1.hash ≠ 0) →
        ∀ b ∈ w.sent, ∀ j set now, w.sets[j]? = some (set, now) →
          (b.ping.demandHash = set.hash ↔ b.echo.read = j + 1)) := by
  have held : Echoing P.toGoRuntime w :=
    run.stateInvariant (Echoing P.toGoRuntime) (echoing_initial _)
      (fun before _ stepped => echoing_step before stepped)
  have sets : w.sets = acts.filterMap Action.demandSet? := by
    refine run.invariant (fun acts w => w.sets = acts.filterMap Action.demandSet?) rfl ?_
    intro acts s t a past _ stepped
    rw [sets_step stepped, past, List.filterMap_append]
    cases shown : a.demandSet? <;> simp [shown]
  refine ⟨sets, held.force, held.routes, held.sent, held.ordered, ?_⟩
  intro distinct nonzero b member j set now here
  obtain ⟨fresh, echoes⟩ := held.sent b member
  rw [echoes.hash]
  exact read_of_hash fresh distinct nonzero here

theorem heartbeat_between_sets :
    ∃ acts w, Run (step plainPlatform ⟨true, true, true, true, true⟩) (fun _ _ => True)
        World.initial acts w ∧
      w.sent.map (fun b => (b.ping.demandHash, b.ping.demandCacheSize)) = [(7, 1)] ∧
      ∀ b ∈ w.sent, b.echo.read = 1 := by
  let first : DemandSet := ⟨[lit "up"], [], [], [], [], 7⟩
  let second : DemandSet := ⟨[], [], [], [], [], 9⟩
  let acts : List Action :=
    [.startLoop, .tick 0, .pipeline (.demandSet first 100), .beat 0 0, .pipeline .updateRoutes,
      .beat 0 0, .pipeline (.demandSet second 101), .beat 0 0, .beat 0 160, .beat 0 0, .beat 0 0,
      .send 0 .sent]
  have executed : (exec (step plainPlatform ⟨true, true, true, true, true⟩) (fun _ _ => true)
      World.initial acts).any (fun w => decide
        (w.sent.map (fun b => (b.ping.demandHash, b.ping.demandCacheSize)) = [(7, 1)])) = true := by
    decide +kernel
  obtain ⟨w, run, checked⟩ := exists_run_of_exec (fun _ _ => true) acts _ (fun _ _ _ => trivial)
    executed
  have sent := of_decide_eq_true checked
  obtain ⟨sets, -, -, -, -, told⟩ := heartbeats_echo_demand run
  have known : w.sets = [(first, 100), (second, 101)] := sets
  refine ⟨acts, w, run, sent, fun b member => ?_⟩
  have hash : b.ping.demandHash = 7 := by
    have shown := List.mem_map_of_mem (f := fun b => (b.ping.demandHash, b.ping.demandCacheSize))
      member
    rw [sent] at shown
    exact congrArg Prod.fst (List.mem_singleton.mp shown)
  refine (told ?_ ?_ b member 0 first 100 ?_).mp hash
  · rw [known]
    decide
  · rw [known]
    decide
  · rw [known]
    rfl

end SignalAgent.Demand.Heartbeats
