/- MID: SignalAgent/Index/IndexWorld
   layer: model
   source: components/edgecontroller/extension.go, components/edgecontroller/timeseries_processor.go
   digest: Intake calls, processor loops, the control stream and the backend index interleave. -/

import SignalAgent.Foundations.GuardedRuns
import SignalAgent.Index.IndexSync

set_option autoImplicit false
set_option relaxedAutoImplicit false

namespace SignalAgent.Index.IndexWorld

open Foundations.GoMaps
open KnownCache IndexSync

/-- One `ReceiveTimeseriesBatch` call: in front of its next key, or between the steps it
takes for one. A call that is done has nothing left to scan. -/
inductive Intake where
  | scanning (rest : List (HashKey × TimeseriesEntry))
  | adding (key : HashKey) (entry : TimeseriesEntry) (rest : List (HashKey × TimeseriesEntry))
  | updating (key : HashKey) (entry : TimeseriesEntry) (rest : List (HashKey × TimeseriesEntry))

def Intake.betweenSteps : Intake → Bool
  | .scanning _ => false
  | _ => true

/-- What a processor loop holds on to while its message is out. -/
inductive Batch where
  | create (rows : List (HashKey × TimeseriesEntry))
  | delete (keys : List HashKey)
  | update (items : List KnownActiveTimeseriesItem)

def Batch.message : Batch → IndexMessage
  | .create rows => createMessage (rows.map discoveredItem)
  | .delete keys => deleteMessage keys
  | .update items => updateMessage items

/-- One `timeseriesProcessorLoop`; `next` is the active batch that follows a delete. -/
inductive Loop where
  | stopped
  | top
  | readKnown
  | readInactive (active : List KnownActiveTimeseriesItem)
  | sending (batch : Batch) (next : List KnownActiveTimeseriesItem)
  | waiting (id : Nat) (batch : Batch) (answered : Bool) (next : List KnownActiveTimeseriesItem)

def Loop.isWaiting : Loop → Bool
  | .waiting _ _ _ _ => true
  | _ => false

/-- The keys a loop has read as inactive and not yet forgotten. -/
def Loop.deleting : Loop → List HashKey
  | .sending (.delete keys) _ => keys
  | .waiting _ (.delete keys) _ _ => keys
  | _ => []

/-- The agent's caches and goroutines, the two directions of the stream, and the backend's
index with the correlation ids of the messages it has applied. -/
structure World where
  known : KnownTimeseriesCache
  discovered : DiscoveredTimeseriesCache
  intakes : List Intake
  loops : List Loop
  corrSeq : Nat
  outbound : List (Nat × IndexMessage)
  inbound : List Nat
  applied : List Nat
  index : Finset (List UInt8)

def World.initial : World := ⟨∅, ∅, [], [], 0, [], [], [], ∅⟩

inductive Action where
  | receive (batch : List (HashKey × TimeseriesEntry))
  | check (i : Nat)
  | add (i : Nat)
  | update (i : Nat) (now : Nat)
  | intakeKey (key : HashKey) (entry : TimeseriesEntry) (now : Nat)
  | connect
  | stop (l : Nat)
  | getBatch (l : Nat) (order : List HashKey)
  | getActive (l : Nat) (thresholdNow now : Nat) (order : List HashKey)
  | getInactive (l : Nat) (now : Nat) (order : List HashKey)
  | abandon (l : Nat)
  | send (l : Nat)
  | apply (id : Nat)
  | dropMessage (id : Nat)
  | ackArrives (id : Nat)
  | dropAck (id : Nat)
  | giveUp (l : Nat)
  | commit (l : Nat) (now : Nat)

/-- Moves of a loop between two of its cache calls. -/
def Action.isInternal : Action → Bool
  | .stop _ | .getBatch _ _ | .getActive _ _ _ _ | .getInactive _ _ _ | .abandon _ => true
  | _ => false

def World.setIntake (w : World) (i : Nat) (x : Intake) : World :=
  { w with intakes := w.intakes.set i x }

def World.setLoop (w : World) (l : Nat) (x : Loop) : World :=
  { w with loops := w.loops.set l x }

/-- What the backend does with a message: an update changes no membership. -/
def applyIndex (index : Finset (List UInt8)) : IndexMessage → Finset (List UInt8)
  | .indexCreate series => index ∪ (series.map DiscoveredSeries.fingerprint).toFinset
  | .indexUpdate _ => index
  | .indexDelete fingerprints => index \ fingerprints.toFinset

/-- `resolvePending`: the ack reaches the channel of the call that waits for its id. -/
def deliver (id : Nat) : Loop → Loop
  | .waiting waited batch answered next =>
    .waiting waited batch (if waited = id then true else answered) next
  | loop => loop

def World.commitBatch (w : World) (now : Nat) : Batch → World
  | .create rows => { w with discovered := purgeBatch w.discovered (rows.map Prod.fst) }
  | .delete keys => { w with known := deleteBatch w.known keys }
  | .update items =>
    { w with known :=
      markSyncedBatch w.known (items.map KnownActiveTimeseriesItem.hashKey) now }

/-- The active batch is sent after the delete it was read with. -/
def afterCommit (next : List KnownActiveTimeseriesItem) : Loop :=
  if next = [] then .top else .sending (.update next) []

def afterGetBatch (rows : List (HashKey × TimeseriesEntry)) : Loop :=
  if rows = [] then .readKnown else .sending (.create rows) []

def afterGetInactive (active : List KnownActiveTimeseriesItem) (inactive : List HashKey) : Loop :=
  if inactive = [] then
    if active = [] then .top else .sending (.update active) []
  else .sending (.delete inactive) active

/-- Both branches of the intake loop body, taken without interruption. -/
def World.intakeWhole (w : World) (key : HashKey) (entry : TimeseriesEntry) (now : Nat) : World :=
  if isTimeseriesKnown w.known key then
    { w with known := updateTimeseries w.known key entry now }
  else
    { w with
      discovered := w.discovered.insert key entry
      known := updateTimeseries w.known key entry now }

section

variable (w : World) (key : HashKey) (entry : TimeseriesEntry) (now : Nat)

@[simp] theorem known_intakeWhole :
    (w.intakeWhole key entry now).known = updateTimeseries w.known key entry now := by
  unfold World.intakeWhole
  split <;> rfl

@[simp] theorem loops_intakeWhole : (w.intakeWhole key entry now).loops = w.loops := by
  unfold World.intakeWhole
  split <;> rfl

@[simp] theorem intakes_intakeWhole : (w.intakeWhole key entry now).intakes = w.intakes := by
  unfold World.intakeWhole
  split <;> rfl

end

/-- One atomic step: a mutex-guarded cache call, a send, or an event of the stream. An
action that does not fit the state is no step. -/
def step (w : World) : Action → Option World
  | .receive batch => some { w with intakes := w.intakes ++ [.scanning batch] }
  | .check i =>
    match w.intakes[i]? with
    | some (.scanning ((key, entry) :: rest)) =>
      some (w.setIntake i (if isTimeseriesKnown w.known key then .updating key entry rest
        else .adding key entry rest))
    | _ => none
  | .add i =>
    match w.intakes[i]? with
    | some (.adding key entry rest) =>
      some { w.setIntake i (.updating key entry rest) with
        discovered := w.discovered.insert key entry }
    | _ => none
  | .update i now =>
    match w.intakes[i]? with
    | some (.updating key entry rest) =>
      some { w.setIntake i (.scanning rest) with known := updateTimeseries w.known key entry now }
    | _ => none
  | .intakeKey key entry now => some (w.intakeWhole key entry now)
  | .connect => some { w with loops := w.loops ++ [.top] }
  | .stop l =>
    match w.loops[l]? with
    | some .top => some (w.setLoop l .stopped)
    | _ => none
  | .getBatch l order =>
    match w.loops[l]? with
    | some .top =>
      if IterationOrder w.discovered order then
        some (w.setLoop l (afterGetBatch (batchEntries w.discovered discoveredBatchSize order)))
      else none
    | _ => none
  | .getActive l thresholdNow now order =>
    match w.loops[l]? with
    | some .readKnown =>
      if IterationOrder w.known order then
        let scan := getActiveTimeseriesBatch w.known
          ((thresholdNow : Int) - lastBackendSyncThresholdSeconds) knownBatchSize now order
        some { w.setLoop l (.readInactive scan.items) with known := scan.cache }
      else none
    | _ => none
  | .getInactive l now order =>
    match w.loops[l]? with
    | some (.readInactive active) =>
      if IterationOrder w.known order then
        let scan := getInactiveTimeseriesBatch w.known knownBatchSize now order
        some { w.setLoop l (afterGetInactive active scan.items) with known := scan.cache }
      else none
    | _ => none
  -- The send fails, or the context ends in the pause between delete and update.
  | .abandon l =>
    match w.loops[l]? with
    | some (.sending _ _) => some (w.setLoop l .top)
    | _ => none
  | .send l =>
    match w.loops[l]? with
    | some (.sending batch next) =>
      some { w.setLoop l (.waiting (w.corrSeq + 1) batch false next) with
        corrSeq := w.corrSeq + 1
        outbound := w.outbound ++ [(w.corrSeq + 1, batch.message)] }
    | _ => none
  | .apply id =>
    match w.outbound.find? (fun sent => sent.1 == id) with
    | some sent =>
      some { w with
        outbound := w.outbound.filter (fun sent => sent.1 ≠ id)
        inbound := w.inbound ++ [id]
        applied := w.applied ++ [id]
        index := applyIndex w.index sent.2 }
    | none => none
  | .dropMessage id => some { w with outbound := w.outbound.filter (fun sent => sent.1 ≠ id) }
  | .ackArrives id =>
    if id ∈ w.inbound then
      some { w with
        inbound := w.inbound.filter (fun acked => acked ≠ id)
        loops := w.loops.map (deliver id) }
    else none
  | .dropAck id => some { w with inbound := w.inbound.filter (fun acked => acked ≠ id) }
  | .giveUp l =>
    match w.loops[l]? with
    | some (.waiting _ _ _ _) => some (w.setLoop l .top)
    | _ => none
  | .commit l now =>
    match w.loops[l]? with
    | some (.waiting _ batch true next) =>
      some ((w.setLoop l (afterCommit next)).commitBatch now batch)
    | _ => none

/-- What each step can do. The moves of a loop that touch neither the stream nor the key
sets are one case. -/
inductive Effect (w : World) : Action → World → Prop
  | receive (batch : List (HashKey × TimeseriesEntry)) :
      Effect w (.receive batch) { w with intakes := w.intakes ++ [.scanning batch] }
  | check (i : Nat) (key : HashKey) (entry : TimeseriesEntry)
      (rest : List (HashKey × TimeseriesEntry))
      (here : w.intakes[i]? = some (.scanning ((key, entry) :: rest))) :
      Effect w (.check i) (w.setIntake i
        (if isTimeseriesKnown w.known key then .updating key entry rest
          else .adding key entry rest))
  | add (i : Nat) (key : HashKey) (entry : TimeseriesEntry)
      (rest : List (HashKey × TimeseriesEntry))
      (here : w.intakes[i]? = some (.adding key entry rest)) :
      Effect w (.add i) { w.setIntake i (.updating key entry rest) with
        discovered := w.discovered.insert key entry }
  | update (i now : Nat) (key : HashKey) (entry : TimeseriesEntry)
      (rest : List (HashKey × TimeseriesEntry))
      (here : w.intakes[i]? = some (.updating key entry rest)) :
      Effect w (.update i now) { w.setIntake i (.scanning rest) with
        known := updateTimeseries w.known key entry now }
  | intakeKey (key : HashKey) (entry : TimeseriesEntry) (now : Nat) :
      Effect w (.intakeKey key entry now) (w.intakeWhole key entry now)
  | connect : Effect w .connect { w with loops := w.loops ++ [.top] }
  | loopMove (a : Action) (l : Nat) (old new : Loop) (known : KnownTimeseriesCache)
      (internal : a.isInternal = true) (here : w.loops[l]? = some old)
      (silent : old.isWaiting = false ∧ new.isWaiting = false)
      (sameKeys : ∀ k, k ∈ known ↔ k ∈ w.known) :
      Effect w a { w.setLoop l new with known := known }
  | send (l : Nat) (batch : Batch) (next : List KnownActiveTimeseriesItem)
      (here : w.loops[l]? = some (.sending batch next)) :
      Effect w (.send l) { w.setLoop l (.waiting (w.corrSeq + 1) batch false next) with
        corrSeq := w.corrSeq + 1
        outbound := w.outbound ++ [(w.corrSeq + 1, batch.message)] }
  | apply (id : Nat) (message : IndexMessage) (sent : (id, message) ∈ w.outbound) :
      Effect w (.apply id) { w with
        outbound := w.outbound.filter (fun sent => sent.1 ≠ id)
        inbound := w.inbound ++ [id]
        applied := w.applied ++ [id]
        index := applyIndex w.index message }
  | dropMessage (id : Nat) : Effect w (.dropMessage id)
      { w with outbound := w.outbound.filter (fun sent => sent.1 ≠ id) }
  | ackArrives (id : Nat) (acked : id ∈ w.inbound) : Effect w (.ackArrives id) { w with
      inbound := w.inbound.filter (fun acked => acked ≠ id)
      loops := w.loops.map (deliver id) }
  | dropAck (id : Nat) : Effect w (.dropAck id)
      { w with inbound := w.inbound.filter (fun acked => acked ≠ id) }
  | giveUp (l id : Nat) (batch : Batch) (answered : Bool) (next : List KnownActiveTimeseriesItem)
      (here : w.loops[l]? = some (.waiting id batch answered next)) :
      Effect w (.giveUp l) (w.setLoop l .top)
  | commit (l now id : Nat) (batch : Batch) (next : List KnownActiveTimeseriesItem)
      (here : w.loops[l]? = some (.waiting id batch true next)) :
      Effect w (.commit l now) ((w.setLoop l (afterCommit next)).commitBatch now batch)

@[simp] theorem afterCommit_isWaiting (next : List KnownActiveTimeseriesItem) :
    (afterCommit next).isWaiting = false := by
  unfold afterCommit
  split <;> rfl

@[simp] theorem afterGetBatch_isWaiting (rows : List (HashKey × TimeseriesEntry)) :
    (afterGetBatch rows).isWaiting = false := by
  unfold afterGetBatch
  split <;> rfl

@[simp] theorem afterGetInactive_isWaiting (active : List KnownActiveTimeseriesItem)
    (inactive : List HashKey) : (afterGetInactive active inactive).isWaiting = false := by
  unfold afterGetInactive
  split
  · split <;> rfl
  · rfl

theorem waiting_ne_of_silent {loop : Loop} (silent : loop.isWaiting = false) (id : Nat)
    (batch : Batch) (answered : Bool) (next : List KnownActiveTimeseriesItem) :
    .waiting id batch answered next ≠ loop := by
  rintro rfl
  cases silent

@[simp] theorem deleting_afterGetBatch (rows : List (HashKey × TimeseriesEntry)) :
    (afterGetBatch rows).deleting = [] := by
  unfold afterGetBatch
  split <;> rfl

@[simp] theorem deleting_afterCommit (next : List KnownActiveTimeseriesItem) :
    (afterCommit next).deleting = [] := by
  unfold afterCommit
  split <;> rfl

theorem mem_deleting_afterGetInactive {active : List KnownActiveTimeseriesItem}
    {inactive : List HashKey} {key : HashKey}
    (deleted : key ∈ (afterGetInactive active inactive).deleting) : key ∈ inactive := by
  unfold afterGetInactive at deleted
  split at deleted
  · split at deleted <;> cases deleted
  · exact deleted

theorem getBatch_of_step {w w' : World} {l : Nat} {order : List HashKey}
    (stepped : step w (.getBatch l order) = some w') :
    w.loops[l]? = some .top ∧ IterationOrder w.discovered order ∧
      w' = w.setLoop l (afterGetBatch (batchEntries w.discovered discoveredBatchSize order)) := by
  simp only [step] at stepped
  split at stepped <;> [split at stepped; skip] <;> cases stepped
  exact ⟨‹_›, ‹_›, rfl⟩

theorem getActive_of_step {w w' : World} {l thresholdNow now : Nat} {order : List HashKey}
    (stepped : step w (.getActive l thresholdNow now order) = some w') :
    w.loops[l]? = some .readKnown ∧ ∃ scan,
      ScanEffect (now / 3600) (pickActive ((thresholdNow : Int) - lastBackendSyncThresholdSeconds))
        w.known scan ∧
      w' = { w.setLoop l (.readInactive scan.items) with known := scan.cache } := by
  simp only [step] at stepped
  split at stepped <;> [split at stepped; skip] <;> cases stepped
  rename_i here visited
  exact ⟨here, _, getActiveTimeseriesBatch_effect _ _ _ _ _ visited.1, rfl⟩

theorem getInactive_of_step {w w' : World} {l now : Nat} {order : List HashKey}
    (stepped : step w (.getInactive l now order) = some w') :
    ∃ active scan, w.loops[l]? = some (.readInactive active) ∧
      ScanEffect (now / 3600) pickInactive w.known scan ∧
      (∀ key ∈ scan.items, key ∈ scan.touched) ∧
      w' = { w.setLoop l (afterGetInactive active scan.items) with known := scan.cache } := by
  simp only [step] at stepped
  split at stepped <;> [split at stepped; skip] <;> cases stepped
  rename_i active here visited
  exact ⟨active, _, here, getInactiveTimeseriesBatch_effect _ _ _ _ visited.1,
    fun key listed => touched_of_mem_inactiveBatch listed, rfl⟩

theorem stop_of_step {w w' : World} {l : Nat} (stepped : step w (.stop l) = some w') :
    w.loops[l]? = some .top ∧ w' = w.setLoop l .stopped := by
  simp only [step] at stepped
  split at stepped <;> cases stepped
  exact ⟨‹_›, rfl⟩

theorem abandon_of_step {w w' : World} {l : Nat} (stepped : step w (.abandon l) = some w') :
    ∃ batch next, w.loops[l]? = some (.sending batch next) ∧ w' = w.setLoop l .top := by
  simp only [step] at stepped
  split at stepped <;> cases stepped
  exact ⟨_, _, ‹_›, rfl⟩

theorem effect_of_step {w w' : World} {a : Action} (stepped : step w a = some w') :
    Effect w a w' := by
  cases a with
  | receive batch =>
    cases stepped
    exact .receive batch
  | check i =>
    simp only [step] at stepped
    split at stepped <;> cases stepped
    exact .check i _ _ _ ‹_›
  | add i =>
    simp only [step] at stepped
    split at stepped <;> cases stepped
    exact .add i _ _ _ ‹_›
  | update i now =>
    simp only [step] at stepped
    split at stepped <;> cases stepped
    exact .update i now _ _ _ ‹_›
  | intakeKey key entry now =>
    cases stepped
    exact .intakeKey key entry now
  | connect =>
    cases stepped
    exact .connect
  | stop l =>
    obtain ⟨here, rfl⟩ := stop_of_step stepped
    exact .loopMove _ l .top .stopped w.known rfl here ⟨rfl, rfl⟩ (fun _ => Iff.rfl)
  | getBatch l order =>
    obtain ⟨here, -, rfl⟩ := getBatch_of_step stepped
    exact .loopMove _ l .top _ w.known rfl here ⟨rfl, afterGetBatch_isWaiting _⟩ (fun _ => Iff.rfl)
  | getActive l thresholdNow now order =>
    obtain ⟨here, scan, effect, rfl⟩ := getActive_of_step stepped
    exact .loopMove _ l .readKnown _ _ rfl here ⟨rfl, rfl⟩ effect.mem_iff
  | getInactive l now order =>
    obtain ⟨active, scan, here, effect, -, rfl⟩ := getInactive_of_step stepped
    exact .loopMove _ l (.readInactive active) _ _ rfl here ⟨rfl, afterGetInactive_isWaiting _ _⟩
      effect.mem_iff
  | abandon l =>
    obtain ⟨batch, next, here, rfl⟩ := abandon_of_step stepped
    exact .loopMove _ l (.sending batch next) .top w.known rfl here ⟨rfl, rfl⟩ (fun _ => Iff.rfl)
  | send l =>
    simp only [step] at stepped
    split at stepped <;> cases stepped
    exact .send l _ _ ‹_›
  | apply id =>
    simp only [step] at stepped
    split at stepped <;> cases stepped
    rename_i sent found
    have same : sent.1 = id := by simpa using List.find?_some found
    exact .apply id sent.2 (same ▸ List.mem_of_find?_eq_some found)
  | dropMessage id =>
    cases stepped
    exact .dropMessage id
  | ackArrives id =>
    simp only [step] at stepped
    split at stepped <;> cases stepped
    exact .ackArrives id ‹_›
  | dropAck id =>
    cases stepped
    exact .dropAck id
  | giveUp l =>
    simp only [step] at stepped
    split at stepped <;> cases stepped
    exact .giveUp l _ _ _ _ ‹_›
  | commit l now =>
    simp only [step] at stepped
    split at stepped <;> cases stepped
    exact .commit l now _ _ _ ‹_›

end SignalAgent.Index.IndexWorld
