/- MID: SignalAgent/Index/UpdateOrder
   layer: results
   source: components/edgecontroller/timeseries_processor.go,
     components/edgecontroller/known_timeseries_cache.go, components/edgecontroller/extension.go
   digest: An update names announced series unless one of the round's reads went stale. -/

import SignalAgent.Foundations.EventLogs
import SignalAgent.Index.IntakeRaces

set_option autoImplicit false
set_option relaxedAutoImplicit false

namespace SignalAgent.Index.UpdateOrder

open Foundations.GoMaps Foundations.GuardedRuns Foundations.EventLogs Foundations.Interleavings
open KnownCache IndexSync IndexWorld IntakeRaces

/-- What the loop does on the stream: a message it sends, or a message it gets the ack of. -/
inductive StreamEvent where
  | sent (message : IndexMessage)
  | acked (message : IndexMessage)
  deriving DecidableEq

/-- The message whose ack ends the wait of this loop. -/
def answers (id : Nat) : Loop → Option IndexMessage
  | .waiting waited batch false _ => if waited = id then some batch.message else none
  | _ => none

def sends : Loop → Option IndexMessage
  | .sending batch _ => some batch.message
  | _ => none

def streamEvent (w : World) : Action → Option StreamEvent
  | .send l => (w.loops[l]?.bind sends).map .sent
  | .ackArrives id => (w.loops.findSome? (answers id)).map .acked
  | _ => none

def CreateAcked (fingerprint : List UInt8) : StreamEvent → Prop
  | .acked (.indexCreate series) => fingerprint ∈ series.map DiscoveredSeries.fingerprint
  | _ => False

def DeleteAcked (fingerprint : List UInt8) : StreamEvent → Prop
  | .acked (.indexDelete fingerprints) => fingerprint ∈ fingerprints
  | _ => False

/-- The backend has acked a create of the series and no delete of it since. -/
def Announced (log : List StreamEvent) (fingerprint : List UInt8) : Prop :=
  Since (fun _ => CreateAcked fingerprint) (DeleteAcked fingerprint) log

/-- What an update needs of the log in front of it. -/
def UpdateAnnounced (log : List StreamEvent) : StreamEvent → Prop
  | .sent (.indexUpdate series) =>
    ∀ fingerprint ∈ series.map ActiveSeries.fingerprint, Announced log fingerprint
  | _ => True

/-- The batches of the round a loop is in name no series twice. -/
def RoundDisjoint (w : World) : Prop :=
  ∀ keys active, .sending (.delete keys) active ∈ w.loops → ∀ item ∈ active, item.hashKey ∉ keys

/-- No series that is about to be sent as an update still waits for its create. -/
def NoneUpdatedFirst (w : World) : Prop :=
  ∀ items next, .sending (.update items) next ∈ w.loops →
    ∀ item ∈ items, item.hashKey ∉ w.discovered

/-- One loop on a stream that loses nothing, with intake atomic for each key. -/
def atomicLoop (w : World) : Action → Bool
  | .connect => w.loops.isEmpty
  | .receive _ | .check _ | .add _ | .update _ _ => false
  | .dropMessage _ | .dropAck _ | .giveUp _ => false
  | _ => true

/-- The clock readings an action takes, in order. -/
def readings : Action → List Nat
  | .update _ now | .intakeKey _ _ now | .getInactive _ now _ | .commit _ now => [now]
  | .getActive _ thresholdNow now _ => [thresholdNow, now]
  | _ => []

def ClockAdvances (acts : List Action) : Prop := (acts.flatMap readings).Pairwise (· ≤ ·)

instance (acts : List Action) : Decidable (ClockAdvances acts) :=
  inferInstanceAs (Decidable (List.Pairwise _ _))

/-- The reads of a round agree: no series that waits in the discovered cache is due as active
when the active batch is read, and no series of that batch has gone idle when the inactive
batch is read. -/
def RoundSafe (w : World) : Action → Prop
  | .getActive _ thresholdNow now _ => ∀ key ∈ w.discovered, ∀ entry,
      w.known.lookup key = some entry →
        pickActive ((thresholdNow : Int) - lastBackendSyncThresholdSeconds) key
          (advanceRingBuffer entry (now / 3600)) = none
  | .getInactive l now _ => ∀ active, w.loops[l]? = some (.readInactive active) →
      ∀ item ∈ active, ∀ entry, w.known.lookup item.hashKey = some entry →
        pickInactive item.hashKey (advanceRingBuffer entry (now / 3600)) = none
  | _ => True

/-- The items a loop still has to send as updates. -/
private def carried : Loop → List KnownActiveTimeseriesItem
  | .readInactive active => active
  | .sending (.update items) next => items ++ next
  | .sending _ next => next
  | .waiting _ _ _ next => next
  | _ => []

private structure Ready (known : KnownTimeseriesCache) (discovered : DiscoveredTimeseriesCache)
    (log : List StreamEvent) (key : HashKey) : Prop where
  inCache : key ∈ known
  notWaiting : key ∉ discovered
  announced : Announced log key.bytes

/-- A loop has been told that the backend dropped the key and still has to drop it. -/
private def DeleteAnswered (loops : List Loop) (key : HashKey) : Prop :=
  ∃ id keys next, .waiting id (.delete keys) true next ∈ loops ∧ key ∈ keys

/-- Every item on its way to an update is announced and safe from the delete in front of it;
every known key is announced, waits for its create, or is about to be forgotten. -/
private structure Ordered (known : KnownTimeseriesCache) (discovered : DiscoveredTimeseriesCache)
    (loops : List Loop) (log : List StreamEvent) : Prop where
  single : loops.length ≤ 1
  ready : ∀ loop ∈ loops, ∀ item ∈ carried loop,
    Ready known discovered log item.hashKey ∧ item.hashKey ∉ loop.deleting
  created : ∀ id rows next, .waiting id (.create rows) true next ∈ loops →
    ∀ key ∈ rows.map Prod.fst, Announced log key.bytes
  covered : ∀ key ∈ known, key ∈ discovered ∨ Announced log key.bytes ∨ DeleteAnswered loops key

private theorem announced_concat {log : List StreamEvent} {event : StreamEvent}
    {fingerprint : List UInt8} (announced : Announced log fingerprint)
    (kept : ¬ DeleteAcked fingerprint event) : Announced (log ++ [event]) fingerprint :=
  (since_concat event).mpr (Or.inr ⟨announced, kept⟩)

private theorem carried_afterGetBatch (rows : List (HashKey × TimeseriesEntry)) :
    carried (afterGetBatch rows) = [] := by
  unfold afterGetBatch
  split <;> rfl

private theorem carried_afterGetInactive (active : List KnownActiveTimeseriesItem)
    (inactive : List HashKey) : carried (afterGetInactive active inactive) = active := by
  unfold afterGetInactive
  split
  · split
    · rename_i none
      exact none.symm
    · exact List.append_nil active
  · rfl

private theorem carried_afterCommit (next : List KnownActiveTimeseriesItem) :
    carried (afterCommit next) = next := by
  unfold afterCommit
  split
  · rename_i none
    exact none.symm
  · exact List.append_nil next

section

variable {known : KnownTimeseriesCache} {discovered : DiscoveredTimeseriesCache}
  {loops : List Loop} {log : List StreamEvent} {l : Nat} {old : Loop}

private theorem Ordered.loops_eq (held : Ordered known discovered loops log)
    (here : loops[l]? = some old) (new : Loop) : loops = [old] ∧ loops.set l new = [new] := by
  obtain ⟨rfl, rfl⟩ := eq_singleton_of_getElem? held.single here
  exact ⟨rfl, rfl⟩

private theorem Ordered.covered_silent (held : Ordered known discovered loops log)
    (here : loops[l]? = some old) (silent : old.isWaiting = false) {key : HashKey}
    (inCache : key ∈ known) : key ∈ discovered ∨ Announced log key.bytes := by
  rcases held.covered key inCache with found | announced | ⟨id, keys, next, member, -⟩
  · exact Or.inl found
  · exact Or.inr announced
  · rw [(held.loops_eq here old).1, List.mem_singleton] at member
    subst member
    cases silent

private theorem ordered_silent {new : Loop} (silent : ∀ id batch next,
      .waiting id batch true next ≠ new)
    (ready : ∀ item ∈ carried new,
      Ready known discovered log item.hashKey ∧ item.hashKey ∉ new.deleting)
    (covered : ∀ key ∈ known, key ∈ discovered ∨ Announced log key.bytes) :
    Ordered known discovered [new] log := by
  refine ⟨Nat.le_refl 1, ?_, ?_, fun key member => (covered key member).imp_right Or.inl⟩
  · intro loop member
    obtain rfl := List.mem_singleton.mp member
    exact ready
  · intro id rows next member
    exact absurd (List.mem_singleton.mp member) (silent id (.create rows) next)

private theorem Ordered.move (held : Ordered known discovered loops log)
    (here : loops[l]? = some old) {new : Loop} {known' : KnownTimeseriesCache}
    (silent : old.isWaiting = false ∧ new.isWaiting = false)
    (sameKeys : ∀ k, k ∈ known' ↔ k ∈ known)
    (ready : ∀ item ∈ carried new,
      Ready known discovered log item.hashKey ∧ item.hashKey ∉ new.deleting) :
    Ordered known' discovered (loops.set l new) log := by
  rw [(held.loops_eq here new).2]
  refine ordered_silent (fun id batch => waiting_ne_of_silent silent.2 id batch true) ?_ ?_
  · intro item listed
    obtain ⟨⟨inCache, notWaiting, announced⟩, apart⟩ := ready item listed
    exact ⟨⟨(sameKeys _).mpr inCache, notWaiting, announced⟩, apart⟩
  · intro key inCache
    exact held.covered_silent here silent.1 ((sameKeys key).mp inCache)

private theorem Ordered.getActive (held : Ordered known discovered loops log)
    (here : loops[l]? = some .readKnown) {olderThan : Int} {hour : Nat}
    {scan : Scan KnownActiveTimeseriesItem}
    (effect : ScanEffect hour (pickActive olderThan) known scan)
    (safe : ∀ key ∈ discovered, ∀ entry, known.lookup key = some entry →
      pickActive olderThan key (advanceRingBuffer entry hour) = none) :
    Ordered scan.cache discovered (loops.set l (.readInactive scan.items)) log := by
  refine held.move here ⟨rfl, rfl⟩ effect.mem_iff ?_
  intro item listed
  refine ⟨?_, by simp [Loop.deleting]⟩
  obtain ⟨key, entry, found, picked⟩ := effect.items item listed
  have same : item.hashKey = key := hashKey_of_pickActive picked
  have notWaiting : key ∉ discovered := by
    intro waiting
    have passed := safe key waiting entry found
    rw [picked] at passed
    cases passed
  have inCache : key ∈ known := mem_of_lookup found
  have announced := (held.covered_silent here rfl inCache).resolve_left notWaiting
  rw [same]
  exact ⟨inCache, notWaiting, announced⟩

private theorem Ordered.getInactive (held : Ordered known discovered loops log)
    {active : List KnownActiveTimeseriesItem} (here : loops[l]? = some (.readInactive active))
    {hour : Nat} {scan : Scan HashKey} (effect : ScanEffect hour pickInactive known scan)
    (safe : ∀ item ∈ active, ∀ entry, known.lookup item.hashKey = some entry →
      pickInactive item.hashKey (advanceRingBuffer entry hour) = none) :
    Ordered scan.cache discovered (loops.set l (afterGetInactive active scan.items)) log := by
  refine held.move here ⟨rfl, afterGetInactive_isWaiting _ _⟩ effect.mem_iff ?_
  rw [carried_afterGetInactive]
  intro item listed
  have ready := (held.ready _ (List.mem_of_getElem? here) item listed).1
  refine ⟨ready, fun deleted => ?_⟩
  obtain ⟨key, entry, found, idle⟩ := effect.items _ (mem_deleting_afterGetInactive deleted)
  obtain ⟨rfl, -⟩ := pickInactive_eq_some idle
  have stillActive := safe item listed entry found
  rw [idle] at stillActive
  cases stillActive

private theorem Ordered.update (held : Ordered known discovered loops log) {key : HashKey}
    (found : key ∈ known) (entry : TimeseriesEntry) (now : Nat) :
    Ordered (updateTimeseries known key entry now) discovered loops log := by
  refine ⟨held.single, ?_, held.created, ?_⟩
  · intro loop member item listed
    obtain ⟨⟨inCache, notWaiting, announced⟩, apart⟩ := held.ready loop member item listed
    exact ⟨⟨(mem_updateTimeseries _ _ _ _ _).mpr (Or.inr inCache), notWaiting, announced⟩, apart⟩
  · intro k member
    rcases (mem_updateTimeseries _ _ _ _ _).mp member with rfl | member
    · exact held.covered k found
    · exact held.covered k member

private theorem Ordered.add (held : Ordered known discovered loops log) {key : HashKey}
    (absent : key ∉ known) (entry : TimeseriesEntry) (now : Nat) :
    Ordered (updateTimeseries known key entry now) (discovered.insert key entry) loops log := by
  -- A carried key is known, so it is not the one that is added.
  refine ⟨held.single, ?_, held.created, ?_⟩
  · intro loop member item listed
    obtain ⟨⟨inCache, notWaiting, announced⟩, apart⟩ := held.ready loop member item listed
    have other : item.hashKey ≠ key := fun same => absent (same ▸ inCache)
    refine ⟨⟨(mem_updateTimeseries _ _ _ _ _).mpr (Or.inr inCache), ?_, announced⟩, apart⟩
    rw [Finmap.mem_insert, not_or]
    exact ⟨other, notWaiting⟩
  · intro k member
    rw [Finmap.mem_insert]
    rcases (mem_updateTimeseries _ _ _ _ _).mp member with same | member
    · exact Or.inl (Or.inl same)
    · exact (held.covered k member).imp_left Or.inr

private theorem Ordered.send (held : Ordered known discovered loops log) {batch : Batch}
    {next : List KnownActiveTimeseriesItem} (here : loops[l]? = some (.sending batch next))
    (id : Nat) : Ordered known discovered (loops.set l (.waiting id batch false next))
      (log ++ [.sent batch.message]) := by
  rw [(held.loops_eq here _).2]
  have kept : ∀ fingerprint, Announced log fingerprint →
      Announced (log ++ [.sent batch.message]) fingerprint :=
    fun fingerprint announced => announced_concat announced (fun deleted => deleted)
  refine ordered_silent (by simp) ?_ ?_
  · intro item listed
    have before := held.ready _ (List.mem_of_getElem? here) item
    have ready : Ready known discovered log item.hashKey ∧
        item.hashKey ∉ (Loop.waiting id batch false next).deleting := by
      cases batch with
      | create rows => exact before listed
      | delete keys => exact before listed
      | update items => exact before (List.mem_append_right _ listed)
    obtain ⟨⟨inCache, notWaiting, announced⟩, apart⟩ := ready
    exact ⟨⟨inCache, notWaiting, kept _ announced⟩, apart⟩
  · intro key inCache
    exact (held.covered_silent here rfl inCache).imp_right (kept _)

end

private theorem answers_eq_some {id : Nat} {loop : Loop} {message : IndexMessage}
    (found : answers id loop = some message) :
    ∃ batch next, loop = .waiting id batch false next ∧ message = batch.message := by
  unfold answers at found
  split at found
  · split at found
    · rename_i batch next same
      exact ⟨batch, next, by rw [same], (Option.some.inj found).symm⟩
    · cases found
  · cases found

private theorem deliver_eq_of_answers {id : Nat} {loop : Loop} (none : answers id loop = none) :
    deliver id loop = loop := by
  cases loop with
  | waiting waited batch answered next =>
    cases answered with
    | false =>
      have other : waited ≠ id := by
        intro same
        simp [answers, same] at none
      simp [deliver, other]
    | true => simp [deliver]
  | _ => rfl

private theorem deleteAcked_message {batch : Batch} {key : HashKey}
    (deleted : DeleteAcked key.bytes (.acked batch.message)) :
    ∃ keys, batch = .delete keys ∧ key ∈ keys := by
  cases batch with
  | create rows => exact deleted.elim
  | delete keys => exact ⟨keys, rfl, (deleteMessage_carries keys key).mp deleted⟩
  | update items => exact deleted.elim

section

variable {known : KnownTimeseriesCache} {discovered : DiscoveredTimeseriesCache}
  {log : List StreamEvent} {id : Nat} {batch : Batch} {next : List KnownActiveTimeseriesItem}

private theorem Ordered.answered
    (held : Ordered known discovered [.waiting id batch false next] log) :
    Ordered known discovered [.waiting id batch true next] (log ++ [.acked batch.message]) := by
  refine ⟨Nat.le_refl 1, ?_, ?_, ?_⟩
  · intro loop member item listed
    obtain rfl := List.mem_singleton.mp member
    obtain ⟨⟨inCache, notWaiting, announced⟩, apart⟩ :=
      held.ready (.waiting id batch false next) List.mem_cons_self item listed
    refine ⟨⟨inCache, notWaiting, announced_concat announced (fun deleted => ?_)⟩, ?_⟩
    · obtain ⟨keys, rfl, named⟩ := deleteAcked_message deleted
      exact apart named
    · cases batch <;> exact apart
  · intro id' rows next' member key listed
    cases List.mem_singleton.mp member
    exact (since_concat _).mpr (Or.inl ((createMessage_carries rows key).mpr listed))
  · intro key inCache
    rcases held.covered key inCache with found | announced | ⟨id', keys, next', member, -⟩
    · exact Or.inl found
    · by_cases deleted : DeleteAcked key.bytes (.acked batch.message)
      · obtain ⟨keys, rfl, named⟩ := deleteAcked_message deleted
        exact Or.inr (Or.inr ⟨id, keys, next, List.mem_cons_self, named⟩)
      · exact Or.inr (Or.inl (announced_concat announced deleted))
    · cases List.mem_singleton.mp member

private theorem Ordered.commit (held : Ordered known discovered [.waiting id batch true next] log)
    {known' : KnownTimeseriesCache} {discovered' : DiscoveredTimeseriesCache}
    (inCache : ∀ item ∈ next, item.hashKey ∈ known')
    (fewer : ∀ key ∈ discovered', key ∈ discovered)
    (covered : ∀ key ∈ known', key ∈ discovered' ∨ Announced log key.bytes) :
    Ordered known' discovered' [afterCommit next] log := by
  -- After the commit of an answered batch only its own delete still covered a key.
  have silent := waiting_ne_of_silent (afterCommit_isWaiting next)
  refine ordered_silent (fun id batch => silent id batch true) ?_ covered
  rw [carried_afterCommit, deleting_afterCommit]
  intro item listed
  have ready := (held.ready _ List.mem_cons_self item listed).1
  have notWaiting : item.hashKey ∉ discovered' := fun found => ready.notWaiting (fewer _ found)
  exact ⟨⟨inCache item listed, notWaiting, ready.announced⟩, by simp⟩

end

private theorem ordered_commitBatch {w : World} {log : List StreamEvent}
    (held : Ordered w.known w.discovered w.loops log) {l id : Nat} {batch : Batch}
    {next : List KnownActiveTimeseriesItem}
    (here : w.loops[l]? = some (.waiting id batch true next)) (now : Nat) :
    let w' := (w.setLoop l (afterCommit next)).commitBatch now batch
    Ordered w'.known w'.discovered w'.loops log := by
  obtain ⟨only, set⟩ := held.loops_eq here (afterCommit next)
  rw [only] at held
  have before := held.ready _ List.mem_cons_self
  cases batch with
  | create rows =>
    show Ordered w.known (purgeBatch w.discovered (rows.map Prod.fst)) (w.loops.set l _) log
    rw [set]
    refine held.commit (fun item listed => (before item listed).1.inCache)
      (fun key member => ((mem_purgeBatch _ _ _).mp member).1) ?_
    intro key member
    rcases held.covered key member with found | announced | ⟨id', keys, next', answered, -⟩
    · by_cases created : key ∈ rows.map Prod.fst
      · exact Or.inr (held.created id rows next List.mem_cons_self key created)
      · exact Or.inl ((mem_purgeBatch _ _ _).mpr ⟨found, created⟩)
    · exact Or.inr announced
    · cases List.mem_singleton.mp answered
  | delete keys =>
    show Ordered (deleteBatch w.known keys) w.discovered (w.loops.set l _) log
    rw [set]
    refine held.commit (fun item listed => (mem_deleteBatch _ _ _).mpr
      ⟨(before item listed).1.inCache, (before item listed).2⟩) (fun _ member => member) ?_
    intro key member
    obtain ⟨inCache, kept⟩ := (mem_deleteBatch _ _ _).mp member
    rcases held.covered key inCache with found | announced | ⟨id', keys', next', answered, named⟩
    · exact Or.inl found
    · exact Or.inr announced
    · cases List.mem_singleton.mp answered
      exact absurd named kept
  | update updated =>
    show Ordered (markSyncedBatch w.known _ now) w.discovered (w.loops.set l _) log
    rw [set]
    refine held.commit (fun item listed =>
      (mem_markSyncedBatch _ _ _ _).mpr (before item listed).1.inCache) (fun _ member => member) ?_
    intro key member
    have inCache := (mem_markSyncedBatch _ _ _ _).mp member
    rcases held.covered key inCache with found | announced | ⟨id', keys, next', answered, -⟩
    · exact Or.inl found
    · exact Or.inr announced
    · cases List.mem_singleton.mp answered

private theorem ordered_ackArrives {w : World} {log : List StreamEvent}
    (held : Ordered w.known w.discovered w.loops log) (id : Nat) :
    Ordered w.known w.discovered (w.loops.map (deliver id))
      (log ++ (streamEvent w (.ackArrives id)).toList) := by
  cases found : w.loops.findSome? (answers id) with
  | none =>
    have fixed : ∀ loop ∈ w.loops, deliver id loop = loop := fun loop member =>
      deliver_eq_of_answers (List.findSome?_eq_none_iff.mp found loop member)
    have unchanged : w.loops.map (deliver id) = w.loops :=
      (List.map_congr_left fixed).trans (List.map_id _)
    have nothing : streamEvent w (.ackArrives id) = none := by simp [streamEvent, found]
    rw [unchanged, nothing]
    simpa using held
  | some message =>
    obtain ⟨loop, member, answer⟩ := List.exists_of_findSome?_eq_some found
    obtain ⟨batch, next, rfl, rfl⟩ := answers_eq_some answer
    obtain ⟨i, here⟩ := List.mem_iff_getElem?.mp member
    have only := (eq_singleton_of_getElem? held.single here).1
    have event : streamEvent w (.ackArrives id) = some (.acked batch.message) := by
      simp [streamEvent, found]
    have delivered : w.loops.map (deliver id) = [.waiting id batch true next] := by
      simp [only, deliver]
    rw [event, delivered]
    rw [only] at held
    exact held.answered

private theorem ordered_internal {w w' : World} {log : List StreamEvent} {a : Action}
    (held : Ordered w.known w.discovered w.loops log) (internal : a.isInternal = true)
    (safe : RoundSafe w a) (stepped : step w a = some w') :
    Ordered w'.known w'.discovered w'.loops log := by
  cases a with
  | stop l =>
    obtain ⟨here, rfl⟩ := stop_of_step stepped
    exact held.move here ⟨rfl, rfl⟩ (fun _ => Iff.rfl) (by simp [carried])
  | getBatch l order =>
    obtain ⟨here, -, rfl⟩ := getBatch_of_step stepped
    refine held.move here ⟨rfl, afterGetBatch_isWaiting _⟩ (fun _ => Iff.rfl) ?_
    rw [carried_afterGetBatch]
    simp
  | getActive l thresholdNow now order =>
    obtain ⟨here, scan, effect, rfl⟩ := getActive_of_step stepped
    exact held.getActive here effect safe
  | getInactive l now order =>
    obtain ⟨active, scan, here, effect, -, rfl⟩ := getInactive_of_step stepped
    exact held.getInactive here effect (safe active here)
  | abandon l =>
    obtain ⟨batch, next, here, rfl⟩ := abandon_of_step stepped
    exact held.move here ⟨rfl, rfl⟩ (fun _ => Iff.rfl) (by simp [carried])
  | _ => cases internal

/-- One loop with atomic intake, and the reads of each round agree. -/
def InOrder (s : Logged World StreamEvent) (a : Action) : Prop :=
  atomicLoop s.state a = true ∧ RoundSafe s.state a

private def OrderedState (s : Logged World StreamEvent) : Prop :=
  Ordered s.state.known s.state.discovered s.state.loops s.log

private theorem orderedState_initial : OrderedState ⟨World.initial, []⟩ := by
  refine ⟨Nat.zero_le 1, by simp [World.initial], by simp [World.initial], ?_⟩
  intro key known
  exact absurd known Finmap.notMem_empty

private theorem orderedState_step {s t : Logged World StreamEvent} {a : Action}
    (held : OrderedState s) (guard : InOrder s a)
    (stepped : logStep step streamEvent s a = some t) : OrderedState t := by
  obtain ⟨moved, logged⟩ := logStep_eq_some stepped
  obtain ⟨w, log⟩ := s
  obtain ⟨w', log'⟩ := t
  obtain ⟨single, safe⟩ := guard
  dsimp only at moved logged single safe
  subst logged
  have quiet : streamEvent w a = none → Ordered w'.known w'.discovered w'.loops log →
      OrderedState ⟨w', log ++ (streamEvent w a).toList⟩ := by
    intro nothing next
    simpa [OrderedState, nothing] using next
  cases effect_of_step moved with
  | receive => cases single
  | check => cases single
  | add => cases single
  | update => cases single
  | intakeKey key entry now =>
    refine quiet rfl ?_
    unfold World.intakeWhole
    split
    · rename_i found
      exact held.update (by simpa [isTimeseriesKnown] using found) entry now
    · rename_i unknown
      exact held.add (by simpa [isTimeseriesKnown] using unknown) entry now
  | connect =>
    have none : w.loops = [] := List.isEmpty_iff.mp single
    refine quiet rfl ?_
    show Ordered w.known w.discovered (w.loops ++ [.top]) log
    rw [none]
    refine ordered_silent (by simp) (by simp [carried]) ?_
    intro key known
    rcases held.covered key known with found | announced | ⟨id, keys, next, member, -⟩
    · exact Or.inl found
    · exact Or.inr announced
    · rw [show w.loops = [] from none] at member
      cases member
  | loopMove a l old new known internal here silent sameKeys =>
    have nothing : streamEvent w a = none := by cases a <;> first | rfl | cases internal
    exact quiet nothing (ordered_internal held internal safe moved)
  | send l batch next here =>
    have event : streamEvent w (.send l) = some (.sent batch.message) := by
      simp [streamEvent, here, sends]
    rw [event]
    exact held.send here _
  | apply id message sent => exact quiet rfl held
  | dropMessage => cases single
  | ackArrives id acked => exact ordered_ackArrives held id
  | dropAck => cases single
  | giveUp => cases single
  | commit l now id batch next here => exact quiet rfl (ordered_commitBatch held here now)

private theorem update_justified {s t : Logged World StreamEvent} {a : Action} {e : StreamEvent}
    (held : OrderedState s) (_guard : InOrder s a)
    (_stepped : logStep step streamEvent s a = some t) (emitted : streamEvent s.state a = some e) :
    UpdateAnnounced s.log e := by
  cases a with
  | send l =>
    obtain ⟨message, found, rfl⟩ := Option.map_eq_some_iff.mp emitted
    obtain ⟨loop, here, sent⟩ := Option.bind_eq_some_iff.mp found
    cases loop with
    | sending batch next =>
      obtain rfl := Option.some.inj sent
      cases batch with
      | update items =>
        intro fingerprint listed
        simp only [List.map_map, List.mem_map] at listed
        obtain ⟨item, member, rfl⟩ := listed
        exact (held.ready _ (List.mem_of_getElem? here) item
          (List.mem_append_left _ member)).1.announced
      | _ => trivial
    | _ => cases sent
  | ackArrives id =>
    obtain ⟨message, -, rfl⟩ := Option.map_eq_some_iff.mp emitted
    trivial
  | _ => cases emitted

/-- In every run of one loop with atomic intake in which the reads of each round agree, every
update names announced series only, no round deletes what it updates, and nothing is updated
ahead of its create. -/
theorem updates_name_announced_series {acts : List Action} {s : Logged World StreamEvent}
    (run : Run (logStep step streamEvent) InOrder ⟨World.initial, []⟩ acts s) :
    Justified UpdateAnnounced s.log ∧ RoundDisjoint s.state ∧ NoneUpdatedFirst s.state := by
  have held := run.stateInvariant OrderedState orderedState_initial orderedState_step
  refine ⟨justified_of_invariant OrderedState orderedState_initial orderedState_step
    update_justified run, ?_, ?_⟩
  · intro keys active member item listed
    exact (held.ready _ member item listed).2
  · intro items next member item listed
    exact (held.ready _ member item (List.mem_append_left _ listed)).1.notWaiting

private def orderTest (s : Logged World StreamEvent) (a : Action) : Bool :=
  atomicLoop s.state a && match a with
    | .getActive _ _ _ _ => s.state.discovered.keys = ∅
    | .getInactive l now _ => match s.state.loops[l]? with
      | some (.readInactive active) => active.all (fun item =>
          (s.state.known.lookup item.hashKey).all (fun entry =>
            (pickInactive item.hashKey (advanceRingBuffer entry (now / 3600))).isNone))
      | _ => true
    | _ => true

private theorem orderTest_sound (s : Logged World StreamEvent) (a : Action)
    (passed : orderTest s a = true) : InOrder s a := by
  obtain ⟨atomic, tested⟩ := Bool.and_eq_true_iff.mp passed
  refine ⟨atomic, ?_⟩
  cases a with
  | getActive l thresholdNow now order =>
    intro key waiting
    have none : s.state.discovered.keys = ∅ := of_decide_eq_true tested
    rw [← Finmap.mem_keys, none] at waiting
    cases waiting
  | getInactive l now order =>
    intro active here item listed entry found
    simp only [here, List.all_eq_true] at tested
    simpa [found] using tested item listed
  | _ => trivial

/-- A series arrives, is announced and two minutes later reported as active. -/
def announcedThenUpdated : List Action :=
  [.intakeKey seriesKey seriesEntry 0, .connect, .getBatch 0 [seriesKey], .send 0, .apply 1,
    .ackArrives 1, .commit 0 0, .getBatch 0 [], .getActive 0 120 120 [seriesKey],
    .getInactive 0 120 [seriesKey], .send 0]

private def createSeries : IndexMessage :=
  .indexCreate [⟨seriesKey.bytes, seriesEntry.metricName, []⟩]

private def deleteSeries : IndexMessage := .indexDelete [seriesKey.bytes]

theorem updated_series_is_announced :
    ∃ s, Run (logStep step streamEvent) InOrder ⟨World.initial, []⟩ announcedThenUpdated s ∧
      s.log = [.sent createSeries, .acked createSeries,
        .sent (.indexUpdate [⟨seriesKey.bytes, 1, 0⟩])] ∧
      Justified UpdateAnnounced s.log ∧ RoundDisjoint s.state ∧ NoneUpdatedFirst s.state := by
  have executed : (exec (logStep step streamEvent) orderTest ⟨World.initial, []⟩
      announcedThenUpdated).any (fun s => decide (s.log = [.sent createSeries, .acked createSeries,
        .sent (.indexUpdate [⟨seriesKey.bytes, 1, 0⟩])])) = true := by
    decide +kernel
  obtain ⟨s, run, final⟩ :=
    exists_run_of_exec orderTest announcedThenUpdated _ orderTest_sound executed
  exact ⟨s, run, of_decide_eq_true final, updates_name_announced_series run⟩

/-- The series is active in the last second of its window and idle in the next, and the hour
turns between the two reads of one round. -/
def hourTurnsInRound : List Action :=
  [.intakeKey seriesKey seriesEntry 0, .connect, .getBatch 0 [seriesKey], .send 0, .apply 1,
    .ackArrives 1, .commit 0 0, .getBatch 0 [], .getActive 0 28799 28799 [seriesKey],
    .getInactive 0 28800 [seriesKey], .send 0, .apply 2, .ackArrives 2, .commit 0 28801, .send 0]

/-- The series arrives after the discovered cache was found empty and before the active batch
is read. -/
def arrivesInRound : List Action :=
  [.connect, .getBatch 0 [], .intakeKey seriesKey seriesEntry 120, .getActive 0 120 120 [seriesKey],
    .getInactive 0 120 [seriesKey], .send 0]

theorem update_of_unannounced_series :
    ¬ (∀ acts s, Run (logStep step streamEvent) (fun s a => atomicLoop s.state a = true)
        ⟨World.initial, []⟩ acts s → ClockAdvances acts → Justified UpdateAnnounced s.log) ∧
      ∃ s, Run (logStep step streamEvent) (fun s a => atomicLoop s.state a = true)
        ⟨World.initial, []⟩ arrivesInRound s ∧ ClockAdvances arrivesInRound ∧
        s.log = [.sent (.indexUpdate [⟨seriesKey.bytes, 1, 120000⟩])] := by
  constructor
  · intro justified
    have executed : (exec (logStep step streamEvent) (fun s a => atomicLoop s.state a)
        ⟨World.initial, []⟩ hourTurnsInRound).any (fun s => decide (s.log =
          [.sent createSeries, .acked createSeries, .sent deleteSeries, .acked deleteSeries,
            .sent (.indexUpdate [⟨seriesKey.bytes, 1, 0⟩])])) = true := by
      decide +kernel
    obtain ⟨s, run, final⟩ := exists_run_of_exec
      (fun (s : Logged World StreamEvent) a => atomicLoop s.state a)
      hourTurnsInRound _ (fun _ _ passed => passed) executed
    have announced := justified hourTurnsInRound s run (by decide)
      [.sent createSeries, .acked createSeries, .sent deleteSeries, .acked deleteSeries] _ []
      (of_decide_eq_true final) seriesKey.bytes (by decide)
    have split : Announced ([.sent createSeries, .acked createSeries, .sent deleteSeries] ++
        [.acked deleteSeries]) seriesKey.bytes := announced
    obtain ⟨-, kept⟩ := ((since_concat _).mp split).resolve_left id
    exact kept (List.mem_singleton.mpr rfl)
  · have executed : (exec (logStep step streamEvent) (fun s a => atomicLoop s.state a)
        ⟨World.initial, []⟩ arrivesInRound).any (fun s => decide (s.log =
          [.sent (.indexUpdate [⟨seriesKey.bytes, 1, 120000⟩])])) = true := by
      decide +kernel
    obtain ⟨s, run, final⟩ := exists_run_of_exec
      (fun (s : Logged World StreamEvent) a => atomicLoop s.state a)
      arrivesInRound _ (fun _ _ passed => passed) executed
    exact ⟨s, run, by decide, of_decide_eq_true final⟩

end SignalAgent.Index.UpdateOrder
