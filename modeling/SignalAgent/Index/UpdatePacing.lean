/- MID: SignalAgent/Index/UpdatePacing
   layer: results
   source: components/edgecontroller/timeseries_processor.go,
     components/edgecontroller/known_timeseries_cache.go
   digest: A series is read for an update only a minute after the last one, and settled once. -/

import SignalAgent.Foundations.EventLogs
import SignalAgent.Foundations.Interleavings
import SignalAgent.Index.IndexWorld

set_option autoImplicit false
set_option relaxedAutoImplicit false

namespace SignalAgent.Index.UpdatePacing

open Foundations.EventLogs Foundations.GoMaps Foundations.GuardedRuns Foundations.Interleavings
open KnownCache IndexSync IndexWorld

/-- What befalls one series: a loop reads it as due, its update is acknowledged and marked, the
update ends in nothing, or its entry is deleted. -/
inductive Event where
  | selected (time : Nat)
  | synced (time : Nat)
  | dropped
  | forgotten
  deriving DecidableEq

/-- The items a loop has read as active and not yet settled. -/
def held : Loop → List KnownActiveTimeseriesItem
  | .readInactive active => active
  | .sending (.update items) _ => items
  | .sending _ next => next
  | .waiting _ (.update items) _ _ => items
  | .waiting _ _ _ next => next
  | .stopped | .top | .readKnown => []

def itemFor (key : HashKey) (items : List KnownActiveTimeseriesItem) : Bool :=
  items.any (fun item => item.hashKey = key)

def holds (key : HashKey) (loop : Loop) : Bool := itemFor key (held loop)

/-- How many loops are about to update the series. -/
def underway (key : HashKey) (w : World) : Nat := w.loops.countP (holds key)

/-- The loop gives up whatever it holds. -/
def letGo (key : HashKey) (loop : Option Loop) : Option Event :=
  if loop.any (holds key) then some .dropped else none

/-- A commit marks a series that is still known, and deletes one that is. -/
def settle (key : HashKey) (known : KnownTimeseriesCache) (now : Nat) : Option Loop → Option Event
  | some (.waiting _ (.update items) _ _) =>
    if itemFor key items then some (if key ∈ known then .synced now else .dropped) else none
  | some (.waiting _ (.delete keys) _ _) =>
    if key ∈ keys ∧ key ∈ known then some .forgotten else none
  | _ => none

/-- The read of the series due at this time. -/
def readDue (known : KnownTimeseriesCache) (thresholdNow now : Nat) (order : List HashKey) :
    Scan KnownActiveTimeseriesItem :=
  getActiveTimeseriesBatch known ((thresholdNow : Int) - lastBackendSyncThresholdSeconds)
    knownBatchSize now order

def seriesEvent (key : HashKey) (w : World) : Action → Option Event
  | .getActive _ thresholdNow now order =>
    if itemFor key (readDue w.known thresholdNow now order).items then
      some (.selected thresholdNow)
    else none
  | .commit l now => settle key w.known now w.loops[l]?
  | .abandon l | .giveUp l => letGo key w.loops[l]?
  | _ => none

def isSelected : Event → Bool
  | .selected _ => true
  | _ => false

/-- Events that settle a selection. -/
def isSettled : Event → Bool
  | .synced _ | .dropped => true
  | _ => false

def recordSync (last : Option Nat) : Event → Option Nat
  | .synced time => some time
  | .forgotten => none
  | .selected _ | .dropped => last

/-- The time of the last acknowledged update since the series was last forgotten. -/
def lastSync (log : List Event) : Option Nat := log.foldl recordSync none

/-- A selection comes more than a minute after the last acknowledged update of an entry that has
not been deleted since. -/
def Paced (before : List Event) : Event → Prop
  | .selected time => ∀ last, lastSync before = some last →
      (last : Int) + lastBackendSyncThresholdSeconds < time
  | _ => True

abbrev Observed := Logged World Event

section Series

variable {key : HashKey} {known : KnownTimeseriesCache}

/-- The mark the cache keeps of the last update. -/
private def syncMark (key : HashKey) (known : KnownTimeseriesCache) : Option Nat :=
  (known.lookup key).map KnownTimeseriesEntry.lastBackendSync

private theorem syncMark_isSome : (syncMark key known).isSome = true ↔ key ∈ known := by
  rw [syncMark, Option.isSome_map, Finmap.lookup_isSome]

private theorem syncMark_scan {ι : Type} {hour : Nat}
    {pick : HashKey → KnownTimeseriesEntry → Option ι} {scan : Scan ι}
    (effect : ScanEffect hour pick known scan) : syncMark key scan.cache = syncMark key known := by
  rw [syncMark, syncMark, effect.lookup key]
  split
  · rw [Option.map_map]
    exact congrArg (fun f => Option.map f (known.lookup key))
      (funext (fun entry => advanceRingBuffer_lastBackendSync entry hour))
  · rfl

private theorem syncMark_update (key : HashKey) (known : KnownTimeseriesCache) (k : HashKey)
    (entry : TimeseriesEntry) (now : Nat) :
    syncMark key (updateTimeseries known k entry now) = syncMark key known ∨
      (syncMark key known = none ∧
        syncMark key (updateTimeseries known k entry now) = some 0) := by
  unfold syncMark
  rw [lookup_updateTimeseries]
  split
  · rename_i same
    subst same
    cases found : known.lookup key with
    | none => exact Or.inr ⟨rfl, rfl⟩
    | some existing =>
      left
      simp [addSamples]
  · exact Or.inl rfl

private theorem syncMark_markSynced (key : HashKey) (known : KnownTimeseriesCache)
    (keys : List HashKey) (now : Nat) :
    syncMark key (markSyncedBatch known keys now) =
      if key ∈ keys ∧ key ∈ known then some now else syncMark key known := by
  have present : (syncMark key known).isSome = true ↔ key ∈ known := syncMark_isSome
  unfold syncMark at present ⊢
  rw [lookup_markSyncedBatch]
  cases found : known.lookup key with
  | none =>
    rw [found] at present
    have absent : ¬ (key ∈ keys ∧ key ∈ known) := fun both => by simpa using present.mpr both.2
    rw [if_neg absent]
    split <;> rfl
  | some entry =>
    rw [found] at present
    have member : key ∈ known := present.mp rfl
    by_cases marked : key ∈ keys
    · rw [if_pos marked, if_pos ⟨marked, member⟩]
      rfl
    · rw [if_neg marked, if_neg (fun both => marked both.1)]

private theorem syncMark_delete (key : HashKey) (known : KnownTimeseriesCache)
    (keys : List HashKey) :
    syncMark key (deleteBatch known keys) = if key ∈ keys then none else syncMark key known := by
  unfold syncMark deleteBatch
  rw [lookup_deleteAll]
  split <;> rfl

private theorem itemFor_eq_true {items : List KnownActiveTimeseriesItem} :
    itemFor key items = true ↔ key ∈ items.map KnownActiveTimeseriesItem.hashKey := by
  simp [itemFor]

private theorem due_of_selected {thresholdNow now : Nat} {order : List HashKey}
    (distinct : order.Nodup)
    (listed : itemFor key (readDue known thresholdNow now order).items = true) :
    ∃ mark, syncMark key known = some mark ∧
      (mark : Int) + lastBackendSyncThresholdSeconds < thresholdNow := by
  obtain ⟨item, member, same⟩ := List.mem_map.mp (itemFor_eq_true.mp listed)
  obtain ⟨k, entry, found, picked⟩ :=
    (getActiveTimeseriesBatch_effect known _ _ now order distinct).items item member
  have here : k = key := (hashKey_of_pickActive picked).symm.trans same
  subst here
  refine ⟨entry.lastBackendSync, by rw [syncMark, found]; rfl, ?_⟩
  unfold pickActive at picked
  split at picked
  · cases picked
  · rename_i due
    rw [advanceRingBuffer_lastBackendSync] at due
    omega

end Series

section Steps

variable {key : HashKey} {w w' : World} {a : Action}

/-- Nothing follows an update in the round of its loop. -/
private def Closing : Loop → Prop
  | .sending (.update _) next => next = []
  | .waiting _ (.update _) _ next => next = []
  | _ => True

private theorem closing_afterCommit (next : List KnownActiveTimeseriesItem) :
    Closing (afterCommit next) := by
  unfold afterCommit
  split
  · trivial
  · exact rfl

private theorem closing_afterGetBatch (rows : List (HashKey × TimeseriesEntry)) :
    Closing (afterGetBatch rows) := by
  unfold afterGetBatch
  split <;> trivial

private theorem closing_afterGetInactive (active : List KnownActiveTimeseriesItem)
    (inactive : List HashKey) : Closing (afterGetInactive active inactive) := by
  unfold afterGetInactive
  split
  · split
    · trivial
    · exact rfl
  · trivial

private theorem closing_deliver {loop : Loop} (id : Nat) (closing : Closing loop) :
    Closing (deliver id loop) := by
  cases loop with
  | waiting waited batch answered next =>
    cases batch with
    | update items => exact closing
    | create rows => trivial
    | delete keys => trivial
  | _ => exact closing

private theorem holds_deliver (id : Nat) (loop : Loop) :
    holds key (deliver id loop) = holds key loop := by
  cases loop with
  | waiting waited batch answered next => cases batch <;> rfl
  | _ => rfl

private theorem holds_afterGetInactive (active : List KnownActiveTimeseriesItem)
    (inactive : List HashKey) :
    holds key (afterGetInactive active inactive) = itemFor key active := by
  unfold afterGetInactive
  split
  · split
    · rename_i nothing
      rw [nothing]
      rfl
    · rfl
  · rfl

private theorem holds_afterGetBatch (rows : List (HashKey × TimeseriesEntry)) :
    holds key (afterGetBatch rows) = false := by
  unfold afterGetBatch
  split <;> rfl

private theorem holds_afterCommit (next : List KnownActiveTimeseriesItem) :
    holds key (afterCommit next) = itemFor key next := by
  unfold afterCommit
  split
  · rename_i nothing
    rw [nothing]
    rfl
  · rfl

/-- What a step does to the mark of the series and to the number of its updates underway. -/
private inductive Change (key : HashKey) (w w' : World) : Option Event → Prop
  | quiet (mark : syncMark key w'.known = syncMark key w.known)
      (count : underway key w' = underway key w) : Change key w w' none
  | appeared (before : syncMark key w.known = none) (after : syncMark key w'.known = some 0)
      (count : underway key w' = underway key w) : Change key w w' none
  | selected (time mark : Nat) (before : syncMark key w.known = some mark)
      (due : (mark : Int) + lastBackendSyncThresholdSeconds < time)
      (after : syncMark key w'.known = some mark)
      (count : underway key w' = underway key w + 1) : Change key w w' (some (.selected time))
  | synced (time : Nat) (after : syncMark key w'.known = some time)
      (count : underway key w' + 1 = underway key w) : Change key w w' (some (.synced time))
  | dropped (mark : syncMark key w'.known = syncMark key w.known)
      (count : underway key w' + 1 = underway key w) : Change key w w' (some .dropped)
  | forgotten (after : syncMark key w'.known = none)
      (count : underway key w' = underway key w) : Change key w w' (some .forgotten)

private theorem change_of_letGo {l : Nat} {old : Loop} (here : w.loops[l]? = some old) :
    Change key w (w.setLoop l .top) (letGo key w.loops[l]?) := by
  have moved := countP_set_add (holds key) here .top
  have free : holds key .top = false := rfl
  rw [free] at moved
  rw [here, letGo, Option.any_some]
  split
  · rename_i holding
    rw [holding] at moved
    exact .dropped rfl moved
  · rename_i other
    rw [if_neg other] at moved
    exact .quiet rfl moved

private theorem underway_set {l : Nat} {old new : Loop} (here : w.loops[l]? = some old)
    (same : holds key new = holds key old) :
    (w.loops.set l new).countP (holds key) = underway key w := by
  have moved := countP_set_add (holds key) here new
  rw [same] at moved
  exact Nat.add_right_cancel moved

private theorem change_of_commit {l now id : Nat} {batch : Batch}
    {next : List KnownActiveTimeseriesItem}
    (here : w.loops[l]? = some (.waiting id batch true next))
    (closing : Closing (.waiting id batch true next)) :
    Change key w ((w.setLoop l (afterCommit next)).commitBatch now batch)
      (settle key w.known now w.loops[l]?) := by
  rw [here]
  cases batch with
  | create rows =>
    exact .quiet rfl (underway_set here (holds_afterCommit next))
  | delete keys =>
    have count : underway key ((w.setLoop l (afterCommit next)).commitBatch now (.delete keys)) =
        underway key w := underway_set here (holds_afterCommit next)
    have mark := syncMark_delete key w.known keys
    rw [settle]
    split
    · rename_i deleted
      exact .forgotten (mark.trans (if_pos deleted.1)) count
    · rename_i kept
      refine .quiet (mark.trans ?_) count
      split
      · rename_i listed
        have absent : key ∉ w.known := fun known => kept ⟨listed, known⟩
        exact (Option.not_isSome_iff_eq_none.mp (fun some => absent (syncMark_isSome.mp some))).symm
      · rfl
  | update items =>
    have free : holds key (afterCommit next) = false := by
      have nothing : next = [] := closing
      rw [nothing]
      rfl
    have moved := countP_set_add (holds key) here (afterCommit next)
    have mark := syncMark_markSynced key w.known
      (items.map KnownActiveTimeseriesItem.hashKey) now
    have listed : holds key (.waiting id (.update items) true next) = itemFor key items := rfl
    rw [free, listed] at moved
    rw [settle]
    split
    · rename_i holding
      rw [holding] at moved
      by_cases known : key ∈ w.known
      · rw [if_pos known]
        exact .synced now (mark.trans (if_pos ⟨itemFor_eq_true.mp holding, known⟩)) moved
      · rw [if_neg known]
        exact .dropped (mark.trans (if_neg (fun both => known both.2))) moved
    · rename_i other
      rw [if_neg other] at moved
      exact .quiet (mark.trans (if_neg (fun both => other (itemFor_eq_true.mpr both.1)))) moved

private theorem change_of_update {k : HashKey} {entry : TimeseriesEntry} {now : Nat}
    (loops : w'.loops = w.loops) (known : w'.known = updateTimeseries w.known k entry now) :
    Change key w w' none := by
  have count : underway key w' = underway key w := congrArg (List.countP (holds key)) loops
  rcases syncMark_update key w.known k entry now with same | ⟨absent, new⟩
  · exact .quiet (known ▸ same) count
  · exact .appeared absent (known ▸ new) count

private theorem read_of_getActive {l thresholdNow now : Nat} {order : List HashKey}
    (stepped : step w (.getActive l thresholdNow now order) = some w') :
    w.loops[l]? = some .readKnown ∧ IterationOrder w.known order ∧
      w' = { w.setLoop l (.readInactive (readDue w.known thresholdNow now order).items) with
        known := (readDue w.known thresholdNow now order).cache } := by
  simp only [step] at stepped
  split at stepped <;> [split at stepped; skip] <;> cases stepped
  exact ⟨‹_›, ‹_›, rfl⟩

private theorem change_of_getActive {l thresholdNow now : Nat} {order : List HashKey}
    (here : w.loops[l]? = some .readKnown) (distinct : order.Nodup) :
    Change key w
      { w.setLoop l (.readInactive (readDue w.known thresholdNow now order).items) with
        known := (readDue w.known thresholdNow now order).cache }
      (seriesEvent key w (.getActive l thresholdNow now order)) := by
  have kept : syncMark key (readDue w.known thresholdNow now order).cache = syncMark key w.known :=
    syncMark_scan (getActiveTimeseriesBatch_effect w.known _ _ now order distinct)
  have moved := countP_set_add (holds key) here
    (.readInactive (readDue w.known thresholdNow now order).items)
  have read : holds key (.readInactive (readDue w.known thresholdNow now order).items) =
    itemFor key (readDue w.known thresholdNow now order).items := rfl
  have free : holds key .readKnown = false := rfl
  rw [free, read] at moved
  rw [seriesEvent]
  split
  · rename_i listed
    obtain ⟨mark, before, due⟩ := due_of_selected distinct listed
    rw [listed] at moved
    exact .selected thresholdNow mark before due (kept.trans before) moved
  · rename_i passed
    rw [if_neg passed] at moved
    exact .quiet kept moved

private theorem change_of_step (closing : ∀ loop ∈ w.loops, Closing loop)
    (stepped : step w a = some w') :
    (∀ loop ∈ w'.loops, Closing loop) ∧ Change key w w' (seriesEvent key w a) := by
  have moved : ∀ (l : Nat) {new : Loop}, Closing new → ∀ loop ∈ w.loops.set l new, Closing loop :=
    fun l _ fits => forall_mem_set closing fits
  cases a with
  | stop l =>
    obtain ⟨here, rfl⟩ := stop_of_step stepped
    exact ⟨moved l trivial, .quiet rfl (underway_set here rfl)⟩
  | getBatch l order =>
    obtain ⟨here, -, rfl⟩ := getBatch_of_step stepped
    exact ⟨moved l (closing_afterGetBatch _),
      .quiet rfl (underway_set here (holds_afterGetBatch _))⟩
  | getActive l thresholdNow now order =>
    obtain ⟨here, visited, rfl⟩ := read_of_getActive stepped
    exact ⟨moved l trivial, change_of_getActive here visited.1⟩
  | getInactive l now order =>
    obtain ⟨active, scan, here, effect, -, rfl⟩ := getInactive_of_step stepped
    exact ⟨moved l (closing_afterGetInactive _ _),
      .quiet (syncMark_scan effect) (underway_set here (holds_afterGetInactive _ _))⟩
  | abandon l =>
    obtain ⟨batch, next, here, rfl⟩ := abandon_of_step stepped
    exact ⟨moved l trivial, change_of_letGo here⟩
  | connect =>
    cases stepped
    refine ⟨?_, .quiet rfl (by simp [underway, holds, held, itemFor])⟩
    intro loop member
    rcases List.mem_append.mp member with member | member
    · exact closing loop member
    · obtain rfl := List.mem_singleton.mp member
      trivial
  | send l =>
    cases effect_of_step stepped with
    | loopMove _ _ _ _ _ internal => cases internal
    | send _ batch next here =>
      have before := closing _ (List.mem_of_getElem? here)
      cases batch with
      | update items => exact ⟨moved l before, .quiet rfl (underway_set here rfl)⟩
      | create rows => exact ⟨moved l trivial, .quiet rfl (underway_set here rfl)⟩
      | delete keys => exact ⟨moved l trivial, .quiet rfl (underway_set here rfl)⟩
  | ackArrives id =>
    cases effect_of_step stepped with
    | loopMove _ _ _ _ _ internal => cases internal
    | ackArrives _ acked =>
      constructor
      · intro loop member
        obtain ⟨old, before, rfl⟩ := List.mem_map.mp member
        exact closing_deliver id (closing old before)
      · refine .quiet rfl ?_
        rw [underway, List.countP_map]
        exact congrArg (fun p => w.loops.countP p) (funext (holds_deliver id))
  | giveUp l =>
    cases effect_of_step stepped with
    | loopMove _ _ _ _ _ internal => cases internal
    | giveUp _ id batch answered next here => exact ⟨moved l trivial, change_of_letGo here⟩
  | commit l now =>
    cases effect_of_step stepped with
    | loopMove _ _ _ _ _ internal => cases internal
    | commit _ _ id batch next here =>
      refine ⟨?_, change_of_commit here (closing _ (List.mem_of_getElem? here))⟩
      cases batch <;> exact moved l (closing_afterCommit next)
  | update i now =>
    cases effect_of_step stepped with
    | loopMove _ _ _ _ _ internal => cases internal
    | update => exact ⟨closing, change_of_update rfl rfl⟩
  | intakeKey k entry now =>
    cases stepped
    have loops := loops_intakeWhole w k entry now
    exact ⟨loops.symm ▸ closing, change_of_update loops (known_intakeWhole w k entry now)⟩
  | _ =>
    cases effect_of_step stepped with
    | loopMove _ _ _ _ _ internal => cases internal
    | _ => exact ⟨closing, .quiet rfl rfl⟩

end Steps

section Runs

variable {key : HashKey} {s t : Observed} {a : Action}

/-- The mark in the cache is the last sync of the log, and every selection is settled or
underway. -/
private structure Kept (key : HashKey) (s : Observed) : Prop where
  closing : ∀ loop ∈ s.state.loops, Closing loop
  marked : ∀ mark, syncMark key s.state.known = some mark → mark = (lastSync s.log).getD 0
  absent : syncMark key s.state.known = none → lastSync s.log = none
  counted : s.log.countP isSelected = s.log.countP isSettled + underway key s.state

private theorem lastSync_concat (log : List Event) (e : Event) :
    lastSync (log ++ [e]) = recordSync (lastSync log) e := by
  rw [lastSync, List.foldl_concat]
  rfl

private theorem Kept.count (kept : Kept key s) {e : Event} (log : t.log = s.log ++ [e])
    (moved : underway key t.state + (if isSettled e then 1 else 0) =
      underway key s.state + if isSelected e then 1 else 0) :
    t.log.countP isSelected = t.log.countP isSettled + underway key t.state := by
  have counted := kept.counted
  rw [log, List.countP_append, List.countP_append, List.countP_singleton, List.countP_singleton]
  omega

private theorem Kept.logged (kept : Kept key s) {e : Event}
    (closing : ∀ loop ∈ t.state.loops, Closing loop) (log : t.log = s.log ++ [e])
    (mark : syncMark key t.state.known = syncMark key s.state.known)
    (unrecorded : ∀ last, recordSync last e = last)
    (moved : underway key t.state + (if isSettled e then 1 else 0) =
      underway key s.state + if isSelected e then 1 else 0) : Kept key t := by
  have last : lastSync t.log = lastSync s.log := by rw [log, lastSync_concat, unrecorded]
  refine ⟨closing, ?_, ?_, kept.count log moved⟩
  · rw [mark, last]
    exact kept.marked
  · rw [mark, last]
    exact kept.absent

private theorem kept_step (kept : Kept key s)
    (stepped : logStep step (seriesEvent key) s a = some t) : Kept key t := by
  obtain ⟨moved, log⟩ := logStep_eq_some stepped
  obtain ⟨closing, change⟩ := change_of_step kept.closing moved
  have counted := kept.counted
  generalize seriesEvent key s.state a = event at log change
  cases change with
  | quiet mark count =>
    rw [Option.toList_none, List.append_nil] at log
    exact ⟨closing, log ▸ mark ▸ kept.marked, log ▸ mark ▸ kept.absent, log ▸ count ▸ counted⟩
  | appeared before after count =>
    rw [Option.toList_none, List.append_nil] at log
    refine ⟨closing, ?_, fun none => ?_, log ▸ count ▸ counted⟩
    · intro mark found
      obtain rfl := Option.some.inj (after.symm.trans found)
      rw [log, kept.absent before]
      rfl
    · rw [after] at none
      cases none
  | selected time mark before due after count =>
    exact kept.logged closing log (after.trans before.symm) (fun _ => rfl) count
  | synced time after count =>
    refine ⟨closing, ?_, fun none => ?_, kept.count log count⟩
    · intro mark found
      obtain rfl := Option.some.inj (after.symm.trans found)
      rw [log, Option.toList_some, lastSync_concat]
      rfl
    · rw [after] at none
      cases none
  | dropped mark count =>
    exact kept.logged closing log mark (fun _ => rfl) count
  | forgotten after count =>
    refine ⟨closing, fun mark found => ?_, fun _ => ?_, kept.count log count⟩
    · rw [after] at found
      cases found
    · rw [log, Option.toList_some, lastSync_concat]
      rfl

private theorem paced_of_kept {e : Event} (kept : Kept key s)
    (stepped : logStep step (seriesEvent key) s a = some t)
    (emitted : seriesEvent key s.state a = some e) : Paced s.log e := by
  have change : Change key s.state t.state (seriesEvent key s.state a) :=
    (change_of_step kept.closing (logStep_eq_some stepped).1).2
  rw [emitted] at change
  cases change with
  | selected time mark before due after count =>
    intro last found
    have same : mark = last := by
      rw [kept.marked mark before, found]
      rfl
    rwa [same] at due
  | _ => trivial

end Runs

/-- Over every interleaving of intake calls and processor loops, acks lost or late: a series is
read as due only more than a minute after its last acknowledged update since it was last deleted,
and what is read is marked once, dropped once or still underway. -/
theorem updates_are_paced {key : HashKey} {acts : List Action} {s : Observed}
    (run : Run (logStep step (seriesEvent key)) (fun _ _ => True) ⟨World.initial, []⟩ acts s) :
    (∀ before e after, s.log = before ++ e :: after → Paced before e) ∧
      s.log.countP isSelected = s.log.countP isSettled + underway key s.state := by
  have base : Kept key ⟨World.initial, []⟩ :=
    ⟨by simp [World.initial], by simp [syncMark, World.initial], by simp [lastSync], rfl⟩
  have paced : Justified Paced s.log :=
    justified_of_invariant (Kept key) base (fun kept _ stepped => kept_step kept stepped)
      (fun kept _ stepped emitted => paced_of_kept kept stepped emitted) run
  have kept : Kept key s :=
    run.stateInvariant (Kept key) base (fun kept _ stepped => kept_step kept stepped)
  exact ⟨paced, kept.counted⟩

/-- A series is announced, updated, passed over half a minute later, and read again after the
minute by the loop of a second stream while the first still waits. -/
def updatedTwice : List Action :=
  [.intakeKey (HashKey.repeated 1) ⟨[], [], 1⟩ 100, .connect, .getBatch 0 [HashKey.repeated 1],
    .send 0, .apply 1, .ackArrives 1, .commit 0 100, .getBatch 0 [],
    .getActive 0 100 100 [HashKey.repeated 1], .getInactive 0 100 [HashKey.repeated 1], .send 0,
    .apply 2, .ackArrives 2, .commit 0 101, .getBatch 0 [],
    .getActive 0 131 131 [HashKey.repeated 1], .getInactive 0 131 [HashKey.repeated 1],
    .getBatch 0 [], .getActive 0 162 162 [HashKey.repeated 1],
    .getInactive 0 162 [HashKey.repeated 1], .send 0, .connect, .getBatch 1 [],
    .getActive 1 163 163 [HashKey.repeated 1], .apply 3, .ackArrives 3, .commit 0 164]

theorem updated_twice_is_paced :
    ∃ s, Run (logStep step (seriesEvent (HashKey.repeated 1))) (fun _ _ => True)
        ⟨World.initial, []⟩ updatedTwice s ∧
      s.log = [.selected 100, .synced 101, .selected 162, .selected 163, .synced 164] ∧
      (101 : Int) + lastBackendSyncThresholdSeconds < 162 ∧
      underway (HashKey.repeated 1) s.state = 1 := by
  have executed : (exec (logStep step (seriesEvent (HashKey.repeated 1))) (fun _ _ => true)
      ⟨World.initial, []⟩ updatedTwice).any (fun s => decide (s.log =
        [.selected 100, .synced 101, .selected 162, .selected 163, .synced 164])) = true := by
    decide +kernel
  obtain ⟨s, run, final⟩ := exists_run_of_exec _ updatedTwice _ (fun _ _ _ => trivial) executed
  have log := of_decide_eq_true final
  obtain ⟨paced, counted⟩ := updates_are_paced run
  refine ⟨s, run, log, ?_, ?_⟩
  · exact paced [.selected 100, .synced 101] (.selected 162) [.selected 163, .synced 164] log 101
      rfl
  · rw [log] at counted
    exact (Nat.add_left_cancel counted).symm

end SignalAgent.Index.UpdatePacing
