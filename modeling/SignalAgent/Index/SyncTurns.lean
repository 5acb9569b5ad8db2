/- MID: SignalAgent/Index/SyncTurns
   layer: model
   source: components/edgecontroller/timeseries_processor.go
   digest: The processor loop turn by turn, and what one turn does to the caches and the index. -/

import SignalAgent.Index.CommitOnAck
import SignalAgent.Index.DiscoveredBatch
import SignalAgent.Index.IndexWorld

set_option autoImplicit false
set_option relaxedAutoImplicit false

namespace SignalAgent.Index.SyncTurns

open Foundations.GoMaps Foundations.GuardedRuns
open KnownCache IndexSync CommitOnAck

/-- What one pass of the loop meets: the order of its reads, its clock readings, the reply to each
message, and which messages the backend gets to apply. -/
structure Turn where
  discoveredOrder : List HashKey
  known : KnownRoundInput
  reply : IndexMessage → SendResult
  lands : IndexMessage → Bool

/-- One pass of `timeseriesProcessorLoop`: a known batch only if nothing is discovered. -/
def timeseriesProcessorTurn (caches : Caches) (t : Turn) : Round :=
  let first := processOneDiscoveredBatch t.reply caches t.discoveredOrder
  if first.processed then first else processOneKnownBatch t.reply first.caches t.known

/-- The caches, the backend's index, and all that was sent so far. -/
structure State where
  caches : Caches
  index : Finset (List UInt8)
  sent : List Exchange

def landing (t : Turn) (index : Finset (List UInt8)) (x : Exchange) : Finset (List UInt8) :=
  if t.lands x.message then IndexWorld.applyIndex index x.message else index

def step (s : State) (t : Turn) : Option State :=
  let round := timeseriesProcessorTurn s.caches t
  some ⟨round.caches, round.exchanges.foldl (landing t) s.index, s.sent ++ round.exchanges⟩

/-- The reads visit the caches as they are, and an acknowledged message was applied; one without
an ack may have been applied or not. -/
structure Fits (s : State) (t : Turn) : Prop where
  discovered : IterationOrder s.caches.discovered t.discoveredOrder
  active : IterationOrder s.caches.known t.known.activeOrder
  inactive : IterationOrder s.caches.known t.known.inactiveOrder
  lands : ∀ message ack, t.reply message = .ok ack → t.lands message = true

/-- Every message of the turn is acknowledged and the stream outlives its pause. -/
structure Healthy (t : Turn) : Prop where
  acked : ∀ message, ∃ ack, t.reply message = .ok ack
  lasting : t.known.stopped = false

def isAcked : SendResult → Bool
  | .ok _ => true
  | .error _ => false

/-- The fingerprints in the acknowledged messages of one kind, in the order they were sent. -/
def acked (op : IndexOp) (sent : List Exchange) : List (List UInt8) :=
  sent.flatMap (fun x =>
    if isAcked x.reply ∧ opOf x.message = op then x.message.fingerprints else [])

/-- A scan at this hour would pick the key as inactive. -/
def idleAt (hour : Nat) (known : KnownTimeseriesCache) (key : HashKey) : Bool :=
  (picked hour pickInactive known key).isSome

/-- A scan at this hour would pick the key for an update. -/
def dueAt (hour : Nat) (olderThan : Int) (known : KnownTimeseriesCache) (key : HashKey) : Bool :=
  (picked hour (pickActive olderThan) known key).isSome

def idleKeys (hour : Nat) (known : KnownTimeseriesCache) : Finset HashKey :=
  known.keys.filter (fun k => idleAt hour known k = true)

def dueKeys (hour : Nat) (olderThan : Int) (known : KnownTimeseriesCache) : Finset HashKey :=
  known.keys.filter (fun k => dueAt hour olderThan known k = true)

/-- The entry of a key as a scan at this hour sees it. -/
def seen (hour : Nat) (known : KnownTimeseriesCache) (key : HashKey) :
    Option KnownTimeseriesEntry :=
  (known.lookup key).map (fun e => advanceRingBuffer e hour)

section Entries

private theorem advance_idem (entry : KnownTimeseriesEntry) (hour : Nat) :
    advanceRingBuffer (advanceRingBuffer entry hour) hour = advanceRingBuffer entry hour := by
  have reached : hour ≤ (advanceRingBuffer entry hour).lastHour := by
    rw [advanceRingBuffer_lastHour]
    exact Nat.le_max_right ..
  exact if_pos reached

private theorem advanceOne_synced (entry : KnownTimeseriesEntry) (synced n : Nat) :
    advanceOne^[n] { entry with lastBackendSync := synced } =
      { advanceOne^[n] entry with lastBackendSync := synced } := by
  induction n generalizing entry with
  | zero => rfl
  | succ n ih => exact ih (advanceOne entry)

private theorem advance_synced (entry : KnownTimeseriesEntry) (synced hour : Nat) :
    advanceRingBuffer { entry with lastBackendSync := synced } hour =
      { advanceRingBuffer entry hour with lastBackendSync := synced } := by
  unfold advanceRingBuffer
  split
  · rfl
  · dsimp only
    split
    · rfl
    · rw [advanceOne_synced]

end Entries

section Seen

variable {hour : Nat} {known : KnownTimeseriesCache} {key : HashKey}

private theorem picked_eq_seen {ι : Type} (pick : HashKey → KnownTimeseriesEntry → Option ι) :
    picked hour pick known key = (seen hour known key).bind (pick key) := by
  rw [picked, seen, Option.bind_map]
  rfl

theorem mem_iff_seen (hour : Nat) : key ∈ known ↔ (seen hour known key).isSome = true := by
  rw [seen, Option.isSome_map, Finmap.lookup_isSome]

theorem idleAt_eq_seen :
    idleAt hour known key = ((seen hour known key).bind (pickInactive key)).isSome := by
  rw [idleAt, picked_eq_seen]

theorem dueAt_eq_seen {olderThan : Int} :
    dueAt hour olderThan known key =
      ((seen hour known key).bind (pickActive olderThan key)).isSome := by
  rw [dueAt, picked_eq_seen]

private theorem mem_of_picked {ι : Type} {pick : HashKey → KnownTimeseriesEntry → Option ι}
    (some_ : (picked hour pick known key).isSome = true) : key ∈ known := by
  obtain ⟨item, found⟩ := Option.isSome_iff_exists.mp some_
  obtain ⟨entry, present, -⟩ := Option.bind_eq_some_iff.mp found
  exact mem_of_lookup present

theorem mem_idleKeys : key ∈ idleKeys hour known ↔ idleAt hour known key = true := by
  rw [idleKeys, Finset.mem_filter, Finmap.mem_keys]
  exact and_iff_right_of_imp mem_of_picked

theorem mem_dueKeys {olderThan : Int} :
    key ∈ dueKeys hour olderThan known ↔ dueAt hour olderThan known key = true := by
  rw [dueKeys, Finset.mem_filter, Finmap.mem_keys]
  exact and_iff_right_of_imp mem_of_picked

theorem seen_scan {ι : Type} {pick : HashKey → KnownTimeseriesEntry → Option ι} {scan : Scan ι}
    (effect : ScanEffect hour pick known scan) (key : HashKey) :
    seen hour scan.cache key = seen hour known key := by
  unfold seen
  rw [effect.lookup key]
  split
  · rw [Option.map_map]
    exact congrArg (known.lookup key).map (funext (fun e => advance_idem e hour))
  · rfl

theorem seen_deleteBatch (keys : List HashKey) :
    seen hour (deleteBatch known keys) key = if key ∈ keys then none else seen hour known key := by
  unfold seen deleteBatch
  rw [lookup_deleteAll]
  split <;> rfl

theorem seen_markSyncedBatch (keys : List HashKey) (synced : Nat) :
    seen hour (markSyncedBatch known keys synced) key =
      if key ∈ keys then
        (seen hour known key).map (fun e => { e with lastBackendSync := synced })
      else seen hour known key := by
  unfold seen
  rw [lookup_markSyncedBatch]
  split
  · rw [Option.map_map, Option.map_map]
    exact congrArg (known.lookup key).map (funext (fun e => advance_synced e synced hour))
  · rfl

end Seen

section Batches

variable {hour : Nat} {known : KnownTimeseriesCache} {order : List HashKey}

private theorem map_filterMap_of_key {ι : Type} {f : HashKey → Option ι} {g : ι → HashKey}
    (own : ∀ k x, f k = some x → g x = k) (order : List HashKey) :
    (order.filterMap f).map g = order.filter (fun k => (f k).isSome) := by
  rw [List.map_filterMap, ← List.filterMap_eq_filter]
  refine List.filterMap_congr (fun k _ => ?_)
  cases found : f k with
  | none => simp [Option.guard, found]
  | some x => simp [Option.guard, found, own k x found]

/-- A list of keys that a batch of at most `size` may be: distinct, of the set, and as many as
there are or fit. -/
structure BatchOf (size : Nat) (keys : Finset HashKey) (batch : List HashKey) : Prop where
  distinct : batch.Nodup
  among : ∀ k ∈ batch, k ∈ keys
  full : batch.length = min size keys.card

private theorem batchOf_take (visits : IterationOrder known order) (keep : HashKey → Bool)
    (size : Nat) :
    BatchOf size (known.keys.filter (fun k => keep k = true)) ((order.filter keep).take size) where
  distinct := (visits.1.filter keep).sublist (List.take_sublist size _)
  among k member := by
    obtain ⟨listed, kept⟩ := List.mem_filter.mp (List.mem_of_mem_take member)
    rw [Finset.mem_filter, Finmap.mem_keys]
    exact ⟨(visits.2 k).mp listed, kept⟩
  full := by rw [List.length_take, visits.length_filter]

theorem batchOf_active {olderThan : Int} {now : Nat} (visits : IterationOrder known order) :
    BatchOf knownBatchSize.toNat (dueKeys (now / 3600) olderThan known)
      ((getActiveTimeseriesBatch known olderThan knownBatchSize now order).items.map
        KnownActiveTimeseriesItem.hashKey) := by
  rw [getActiveTimeseriesBatch_items _ _ _ _ _ visits.1, List.map_take, map_filterMap_of_key]
  · exact batchOf_take visits _ _
  · intro k item found
    obtain ⟨entry, -, chosen⟩ := Option.bind_eq_some_iff.mp found
    exact hashKey_of_pickActive chosen

theorem batchOf_inactive {now : Nat} (visits : IterationOrder known order) :
    BatchOf knownBatchSize.toNat (idleKeys (now / 3600) known)
      (getInactiveTimeseriesBatch known knownBatchSize now order).items := by
  have own := map_filterMap_of_key (f := picked (now / 3600) pickInactive known) (g := id)
    (fun k key found => by
      obtain ⟨entry, -, chosen⟩ := Option.bind_eq_some_iff.mp found
      exact (pickInactive_eq_some chosen).1) order
  rw [List.map_id] at own
  rw [getInactiveTimeseriesBatch_items _ _ _ _ visits.1, own]
  exact batchOf_take visits _ _

theorem batchOf_discovered {cache : DiscoveredTimeseriesCache} (visits : IterationOrder cache order)
    (size : Nat) :
    BatchOf size cache.keys ((batchEntries cache size order).map Prod.fst) where
  distinct := by
    rw [DiscoveredBatch.batchEntries_keys visits]
    exact visits.1.sublist (List.take_sublist ..)
  among k member := by
    rw [DiscoveredBatch.batchEntries_keys visits] at member
    exact Finmap.mem_keys.mpr ((visits.2 k).mp (List.mem_of_mem_take member))
  full := by
    rw [List.length_map]
    exact DiscoveredBatch.length_batchEntries visits size

end Batches

section Rounds

private theorem updateMessage_fingerprints (items : List KnownActiveTimeseriesItem) :
    (updateMessage items).fingerprints =
      (items.map KnownActiveTimeseriesItem.hashKey).map HashKey.bytes := by
  rw [updateMessage, IndexMessage.fingerprints, List.map_map, List.map_map]
  rfl

private theorem acked_single {op : IndexOp} {x : Exchange} :
    acked op [x] =
      if isAcked x.reply ∧ opOf x.message = op then x.message.fingerprints else [] :=
  List.flatMap_singleton ..

private theorem acked_append (op : IndexOp) (sent more : List Exchange) :
    acked op (sent ++ more) = acked op sent ++ acked op more := List.flatMap_append

/-- The keys of a kind of message among what a turn got acknowledged. -/
def ackedKeys (created deleted updated : List HashKey) : IndexOp → List HashKey
  | .indexCreate => created
  | .indexDelete => deleted
  | .indexUpdate => updated

/-- What the exchanges of a known round do: the keys that were deleted and those marked synced. -/
private structure KnownRound (reply : IndexMessage → SendResult) (stopped : Bool)
    (active inactive deleted updated : List HashKey) (exchanges : List Exchange) : Prop where
  deletes : deleted = [] ∨ deleted = inactive
  updates : updated = [] ∨ updated = active
  whole : (∀ message, ∃ ack, reply message = .ok ack) → stopped = false →
    deleted = inactive ∧ updated = active
  acks : ∀ op, acked op exchanges = (ackedKeys [] deleted updated op).map HashKey.bytes
  index : ∀ (t : Turn) (index : Finset (List UInt8)), t.reply = reply →
    (∀ message ack, t.reply message = .ok ack → t.lands message = true) →
      (∀ k ∈ deleted, k.bytes ∉ exchanges.foldl (landing t) index) ∧
      exchanges.foldl (landing t) index ⊆ index ∧
      ∀ k, k.bytes ∈ index → k ∉ inactive → k.bytes ∈ exchanges.foldl (landing t) index

private theorem landing_update (t : Turn) (index : Finset (List UInt8))
    (items : List KnownActiveTimeseriesItem) (reply : SendResult) (before after : Caches) :
    landing t index ⟨updateMessage items, reply, before, after⟩ = index := by
  unfold landing
  split <;> rfl

private theorem processActive_round (reply : IndexMessage → SendResult) (caches : Caches)
    (active : List KnownActiveTimeseriesItem) (stopped : Bool) (now : Nat) :
    ∃ updated, (processActive reply caches active now).caches =
        { caches with known := markSyncedBatch caches.known updated now } ∧
      KnownRound reply stopped (active.map KnownActiveTimeseriesItem.hashKey) [] [] updated
        (processActive reply caches active now).exchanges := by
  unfold processActive
  split
  · rename_i nothing
    refine ⟨[], rfl, Or.inl rfl, Or.inl rfl, fun _ _ => ⟨rfl, ?_⟩, ?_, ?_⟩
    · rw [nothing]
      rfl
    · rintro (_ | _ | _) <;> rfl
    · intro t index _ _
      exact ⟨nofun, Finset.Subset.refl _, fun _ member _ => member⟩
  · dsimp only [sendActiveTimeseriesBatch, sendBatch]
    cases answer : reply (updateMessage active) with
    | error e =>
      refine ⟨[], rfl, Or.inl rfl, Or.inl rfl, fun healthy => ?_, ?_, ?_⟩
      · obtain ⟨ack, ok⟩ := healthy (updateMessage active)
        cases answer.symm.trans ok
      · rintro (_ | _ | _) <;> rfl
      · intro t index _ _
        rw [List.foldl_cons, List.foldl_nil, landing_update]
        exact ⟨nofun, Finset.Subset.refl _, fun _ member _ => member⟩
    | ok ack =>
      refine ⟨_, rfl, Or.inl rfl, Or.inr rfl, fun _ _ => ⟨rfl, rfl⟩, ?_, ?_⟩
      · rintro (_ | _ | _)
        · rfl
        · rw [acked_single, if_pos ⟨rfl, rfl⟩]
          exact updateMessage_fingerprints active
        · rfl
      · intro t index _ _
        rw [List.foldl_cons, List.foldl_nil, landing_update]
        exact ⟨nofun, Finset.Subset.refl _, fun _ member _ => member⟩

private theorem mem_applyIndex_delete {index : Finset (List UInt8)} {keys : List HashKey}
    {k : HashKey} :
    k.bytes ∈ IndexWorld.applyIndex index (deleteMessage keys) ↔ k.bytes ∈ index ∧ k ∉ keys := by
  rw [deleteMessage, IndexWorld.applyIndex, Finset.mem_sdiff, List.mem_toFinset,
    List.mem_map_of_injective (fun _ _ same => HashKey.ext same)]

private theorem landing_delete (t : Turn) (index : Finset (List UInt8)) (keys : List HashKey)
    (reply : SendResult) (before after : Caches) :
    landing t index ⟨deleteMessage keys, reply, before, after⟩ ⊆ index ∧
      (∀ k : HashKey, k.bytes ∈ index → k ∉ keys →
        k.bytes ∈ landing t index ⟨deleteMessage keys, reply, before, after⟩) ∧
      (t.lands (deleteMessage keys) = true → ∀ k ∈ keys,
        k.bytes ∉ landing t index ⟨deleteMessage keys, reply, before, after⟩) := by
  unfold landing
  split
  · refine ⟨Finset.sdiff_subset, fun k member other => ?_, fun _ k listed member => ?_⟩
    · exact mem_applyIndex_delete.mpr ⟨member, other⟩
    · exact (mem_applyIndex_delete.mp member).2 listed
  · rename_i lost
    exact ⟨Finset.Subset.refl _, fun _ member _ => member, fun landed => absurd landed lost⟩

private theorem processKnownBatches_round (reply : IndexMessage → SendResult) (caches : Caches)
    (active : List KnownActiveTimeseriesItem) (inactive : List HashKey) (stopped : Bool)
    (now : Nat) :
    ∃ deleted updated, (processKnownBatches reply caches active inactive stopped now).caches =
        { caches with known := markSyncedBatch (deleteBatch caches.known deleted) updated now } ∧
      KnownRound reply stopped (active.map KnownActiveTimeseriesItem.hashKey) inactive deleted
        updated (processKnownBatches reply caches active inactive stopped now).exchanges := by
  unfold processKnownBatches
  split
  · rename_i nothing
    refine ⟨[], [], rfl, Or.inl rfl, Or.inl rfl, fun _ _ => ⟨nothing.2.symm, ?_⟩, ?_, ?_⟩
    · rw [nothing.1]
      rfl
    · rintro (_ | _ | _) <;> rfl
    · intro t index _ _
      exact ⟨nofun, Finset.Subset.refl _, fun _ member _ => member⟩
  · split
    · rename_i none_
      obtain ⟨updated, left, round⟩ := processActive_round reply caches active stopped now
      exact ⟨[], updated, left, none_ ▸ round⟩
    · dsimp only [sendInactiveTimeseriesBatch, sendBatch]
      cases answer : reply (deleteMessage inactive) with
      | error e =>
        refine ⟨[], [], rfl, Or.inl rfl, Or.inl rfl, fun healthy => ?_, ?_, ?_⟩
        · obtain ⟨ack, ok⟩ := healthy (deleteMessage inactive)
          cases answer.symm.trans ok
        · rintro (_ | _ | _) <;> rfl
        · intro t index _ _
          obtain ⟨shrinks, keeps, -⟩ := landing_delete t index inactive (.error e) caches caches
          exact ⟨nofun, shrinks, keeps⟩
      | ok ack =>
        have landed : ∀ t : Turn, t.reply = reply →
            (∀ message ack, t.reply message = .ok ack → t.lands message = true) →
            t.lands (deleteMessage inactive) = true :=
          fun t same lands => lands _ ack (same ▸ answer)
        dsimp only
        split
        · rename_i cut
          refine ⟨inactive, [], rfl, Or.inr rfl, Or.inl rfl, fun _ lasting => ?_, ?_, ?_⟩
          · cases lasting.symm.trans cut.2
          · rintro (_ | _ | _)
            · rfl
            · rfl
            · exact acked_single.trans (if_pos ⟨rfl, rfl⟩)
          · intro t index same lands
            obtain ⟨shrinks, keeps, gone⟩ := landing_delete t index inactive (.ok ack) caches
              { caches with known := deleteBatch caches.known inactive }
            exact ⟨gone (landed t same lands), shrinks, keeps⟩
        · obtain ⟨updated, left, round⟩ := processActive_round reply
            { caches with known := deleteBatch caches.known inactive } active stopped now
          refine ⟨inactive, updated, left, Or.inr rfl, round.updates, ?_, ?_, ?_⟩
          · intro healthy lasting
            exact ⟨rfl, (round.whole healthy lasting).2⟩
          · intro op
            rw [← List.singleton_append, acked_append, acked_single, round.acks op]
            cases op with
            | indexCreate | indexUpdate => rfl
            | indexDelete => exact List.append_nil _
          · intro t index same lands
            obtain ⟨shrinks, keeps, gone⟩ := landing_delete t index inactive (.ok ack) caches
              { caches with known := deleteBatch caches.known inactive }
            obtain ⟨-, less, more⟩ := round.index t (landing t index _) same lands
            refine ⟨fun k listed member => ?_, fun _ member => shrinks (less member), ?_⟩
            · exact gone (landed t same lands) k listed (less member)
            · exact fun k member other => more k (keeps k member other) nofun

end Rounds

/-- The threshold of the update scan. -/
def Turn.olderThan (t : Turn) : Int :=
  (t.known.thresholdNow : Int) - lastBackendSyncThresholdSeconds

/-- Both scans of the turn fall into this hour. -/
structure AtHour (hour : Nat) (t : Turn) : Prop where
  active : t.known.activeNow / 3600 = hour
  inactive : t.known.inactiveNow / 3600 = hour

/-- All a turn can do: the keys it got acknowledged leave the discovered cache, leave the known
cache, or are marked synced; no other key moves. -/
structure Outcome (hour : Nat) (s : State) (t : Turn) (s' : State)
    (created deleted updated : List HashKey) : Prop where
  discovered : ∀ k, k ∈ s'.caches.discovered ↔ k ∈ s.caches.discovered ∧ k ∉ created
  known : ∀ k, seen hour s'.caches.known k =
    if k ∈ deleted then none
    else if k ∈ updated then
      (seen hour s.caches.known k).map (fun e => { e with lastBackendSync := t.known.syncedNow })
    else seen hour s.caches.known k
  acks : ∀ op, acked op s'.sent =
    acked op s.sent ++ (ackedKeys created deleted updated op).map HashKey.bytes
  distinct : created.Nodup ∧ deleted.Nodup ∧ updated.Nodup
  creates : ∀ k ∈ created, k ∈ s.caches.discovered ∧ k.bytes ∈ s'.index
  deletes : ∀ k ∈ deleted, idleAt hour s.caches.known k = true ∧ k.bytes ∉ s'.index
  updates : ∀ k ∈ updated, dueAt hour t.olderThan s.caches.known k = true
  kept : ∀ k : HashKey, k.bytes ∈ s.index → idleAt hour s.caches.known k = false →
    k.bytes ∈ s'.index
  added : ∀ fp ∈ s'.index, fp ∈ s.index ∨ ∃ k ∈ s.caches.discovered, k.bytes = fp
  priority : s.caches.discovered.keys.Nonempty → deleted = [] ∧ updated = []
  first : Healthy t → s.caches.discovered.keys.Nonempty →
    created.length = min discoveredBatchSize s.caches.discovered.keys.card
  second : Healthy t → s.caches.discovered.keys = ∅ →
    deleted.length = min knownBatchSize.toNat (idleKeys hour s.caches.known).card ∧
    updated.length = min knownBatchSize.toNat (dueKeys hour t.olderThan s.caches.known).card

section Outcomes

variable {hour : Nat} {s s' : State} {t : Turn}

private theorem BatchOf.eq_nil_iff {size : Nat} {keys : Finset HashKey} {batch : List HashKey}
    (batchOf : BatchOf size keys batch) (positive : 0 < size) : batch = [] ↔ keys = ∅ := by
  rw [← List.length_eq_zero_iff, batchOf.full, ← Finset.card_eq_zero]
  omega

private theorem sublist_batch {size : Nat} {keys : Finset HashKey} {batch part : List HashKey}
    (batchOf : BatchOf size keys batch) (some_ : part = [] ∨ part = batch) :
    part.Nodup ∧ ∀ k ∈ part, k ∈ keys := by
  rcases some_ with rfl | rfl
  · exact ⟨List.nodup_nil, nofun⟩
  · exact ⟨batchOf.distinct, batchOf.among⟩

private theorem idleKeys_congr {known known' : KnownTimeseriesCache}
    (same : ∀ k, seen hour known' k = seen hour known k) :
    idleKeys hour known' = idleKeys hour known := by
  ext k
  rw [mem_idleKeys, mem_idleKeys, idleAt_eq_seen, idleAt_eq_seen, same k]

private theorem active_read {known : KnownTimeseriesCache} {order : List HashKey} {now : Nat}
    (visits : IterationOrder known order) (at_ : now / 3600 = hour) (olderThan : Int) :
    BatchOf knownBatchSize.toNat (dueKeys hour olderThan known)
        ((getActiveTimeseriesBatch known olderThan knownBatchSize now order).items.map
          KnownActiveTimeseriesItem.hashKey) ∧
      ∀ k, seen hour (getActiveTimeseriesBatch known olderThan knownBatchSize now order).cache k =
        seen hour known k := by
  subst at_
  have effect := getActiveTimeseriesBatch_effect known olderThan knownBatchSize now order visits.1
  exact ⟨batchOf_active visits, seen_scan effect⟩

private theorem inactive_read {known : KnownTimeseriesCache} {order : List HashKey} {now : Nat}
    (visits : IterationOrder known order) (at_ : now / 3600 = hour) :
    BatchOf knownBatchSize.toNat (idleKeys hour known)
        (getInactiveTimeseriesBatch known knownBatchSize now order).items ∧
      ∀ k, seen hour (getInactiveTimeseriesBatch known knownBatchSize now order).cache k =
        seen hour known k := by
  subst at_
  have effect := getInactiveTimeseriesBatch_effect known knownBatchSize now order visits.1
  exact ⟨batchOf_inactive visits, seen_scan effect⟩

private theorem readKnownBatches_read (fits : Fits s t) (at_ : AtHour hour t) :
    BatchOf knownBatchSize.toNat (dueKeys hour t.olderThan s.caches.known)
        ((readKnownBatches s.caches.known t.known).active.map
          KnownActiveTimeseriesItem.hashKey) ∧
      BatchOf knownBatchSize.toNat (idleKeys hour s.caches.known)
        (readKnownBatches s.caches.known t.known).inactive ∧
      ∀ k, seen hour (readKnownBatches s.caches.known t.known).known k =
        seen hour s.caches.known k := by
  obtain ⟨activeBatch, scanned⟩ := active_read fits.active at_.active t.olderThan
  have visits : IterationOrder (getActiveTimeseriesBatch s.caches.known t.olderThan knownBatchSize
      t.known.activeNow t.known.activeOrder).cache t.known.inactiveOrder := by
    refine ⟨fits.inactive.1, fun k => (fits.inactive.2 k).trans ?_⟩
    rw [mem_iff_seen hour, ← scanned k, ← mem_iff_seen hour]
  obtain ⟨inactiveBatch, rescanned⟩ := inactive_read visits at_.inactive
  rw [idleKeys_congr scanned] at inactiveBatch
  exact ⟨activeBatch, inactiveBatch, fun k => (rescanned k).trans (scanned k)⟩

private theorem outcome_known (fits : Fits s t) (at_ : AtHour hour t)
    (nothing : s.caches.discovered.keys = ∅)
    (known : timeseriesProcessorTurn s.caches t = processOneKnownBatch t.reply s.caches t.known)
    (stepped : step s t = some s') :
    ∃ created deleted updated, Outcome hour s t s' created deleted updated := by
  obtain ⟨activeBatch, inactiveBatch, scanned⟩ := readKnownBatches_read fits at_
  obtain ⟨deleted, updated, left, round⟩ := processKnownBatches_round t.reply
    { s.caches with known := (readKnownBatches s.caches.known t.known).known }
    (readKnownBatches s.caches.known t.known).active
    (readKnownBatches s.caches.known t.known).inactive t.known.stopped t.known.syncedNow
  obtain ⟨deletedOnce, deletedIdle⟩ := sublist_batch inactiveBatch round.deletes
  obtain ⟨updatedOnce, updatedDue⟩ := sublist_batch activeBatch round.updates
  obtain ⟨gone, less, kept⟩ := round.index t s.index rfl fits.lands
  cases stepped
  rw [known]
  refine ⟨[], deleted, updated, ?_⟩
  constructor
  · intro k
    dsimp only [processOneKnownBatch]
    rw [left]
    exact (and_iff_left List.not_mem_nil).symm
  · intro k
    dsimp only [processOneKnownBatch]
    rw [left, seen_markSyncedBatch, seen_deleteBatch, scanned k]
    by_cases here : k ∈ deleted <;> by_cases marked : k ∈ updated <;> simp [here, marked]
  · intro op
    exact (acked_append op _ _).trans (congrArg (acked op s.sent ++ ·) (round.acks op))
  · exact ⟨List.nodup_nil, deletedOnce, updatedOnce⟩
  · exact nofun
  · exact fun k member => ⟨mem_idleKeys.mp (deletedIdle k member), gone k member⟩
  · exact fun k member => mem_dueKeys.mp (updatedDue k member)
  · intro k member busy
    refine kept k member (fun listed => ?_)
    rw [mem_idleKeys.mp (inactiveBatch.among k listed)] at busy
    cases busy
  · exact fun fp member => Or.inl (less member)
  · intro some_
    rw [nothing] at some_
    cases Finset.not_nonempty_empty some_
  · intro _ some_
    rw [nothing] at some_
    cases Finset.not_nonempty_empty some_
  · intro healthy _
    obtain ⟨rfl, rfl⟩ := round.whole healthy.acked healthy.lasting
    exact ⟨inactiveBatch.full, activeBatch.full⟩

private theorem landing_create (t : Turn) (index : Finset (List UInt8))
    (rows : List (HashKey × TimeseriesEntry)) (reply : SendResult) (before after : Caches) :
    let landed := landing t index ⟨createMessage (rows.map discoveredItem), reply, before, after⟩
    index ⊆ landed ∧
      (∀ fp ∈ landed, fp ∈ index ∨ ∃ k ∈ rows.map Prod.fst, k.bytes = fp) ∧
      (t.lands (createMessage (rows.map discoveredItem)) = true →
        ∀ k ∈ rows.map Prod.fst, k.bytes ∈ landed) := by
  have applied : ∀ fp, fp ∈ IndexWorld.applyIndex index (createMessage (rows.map discoveredItem)) ↔
      fp ∈ index ∨ ∃ k ∈ rows.map Prod.fst, k.bytes = fp := by
    intro fp
    have keys := createMessage_fingerprints rows
    unfold createMessage at keys ⊢
    rw [IndexWorld.applyIndex, Finset.mem_union, List.mem_toFinset]
    rw [IndexMessage.fingerprints] at keys
    rw [keys, List.mem_map]
  dsimp only
  unfold landing
  split
  · refine ⟨fun fp member => (applied fp).mpr (Or.inl member), fun fp => (applied fp).mp, ?_⟩
    exact fun _ k listed => (applied k.bytes).mpr (Or.inr ⟨k, listed, rfl⟩)
  · rename_i lost
    exact ⟨Finset.Subset.refl _, fun _ => Or.inl, fun landed => absurd landed lost⟩

private theorem outcome_create (fits : Fits s t) {rows : List (HashKey × TimeseriesEntry)}
    (batch : BatchOf discoveredBatchSize s.caches.discovered.keys (rows.map Prod.fst))
    (some_ : rows ≠ [])
    (created : timeseriesProcessorTurn s.caches t =
      match t.reply (createMessage (rows.map discoveredItem)) with
      | .error e =>
        ⟨s.caches, true, [⟨createMessage (rows.map discoveredItem), .error e, s.caches, s.caches⟩]⟩
      | .ok ack =>
        let after :=
          { s.caches with discovered := purgeBatch s.caches.discovered (rows.map Prod.fst) }
        ⟨after, true, [⟨createMessage (rows.map discoveredItem), .ok ack, s.caches, after⟩]⟩)
    (stepped : step s t = some s') :
    ∃ created deleted updated, Outcome hour s t s' created deleted updated := by
  have present : ∀ k ∈ rows.map Prod.fst, k ∈ s.caches.discovered :=
    fun k member => Finmap.mem_keys.mp (batch.among k member)
  cases stepped
  rw [created]
  cases answer : t.reply (createMessage (rows.map discoveredItem)) with
  | error e =>
    obtain ⟨grows, adds, -⟩ := landing_create t s.index rows (.error e) s.caches s.caches
    refine ⟨[], [], [], ?_⟩
    constructor
    · exact fun k => (and_iff_left List.not_mem_nil).symm
    · exact fun k => rfl
    · intro op
      refine (acked_append op _ _).trans (congrArg (acked op s.sent ++ ·) ?_)
      cases op <;> rfl
    · exact ⟨List.nodup_nil, List.nodup_nil, List.nodup_nil⟩
    · exact nofun
    · exact nofun
    · exact nofun
    · exact fun k member _ => grows member
    · intro fp member
      exact (adds fp member).imp_right (fun ⟨k, listed, same⟩ => ⟨k, present k listed, same⟩)
    · exact fun _ => ⟨rfl, rfl⟩
    · intro healthy _
      obtain ⟨ack, ok⟩ := healthy.acked (createMessage (rows.map discoveredItem))
      cases answer.symm.trans ok
    · intro healthy _
      obtain ⟨ack, ok⟩ := healthy.acked (createMessage (rows.map discoveredItem))
      cases answer.symm.trans ok
  | ok ack =>
    obtain ⟨grows, adds, landed⟩ := landing_create t s.index rows (.ok ack) s.caches
      { s.caches with discovered := purgeBatch s.caches.discovered (rows.map Prod.fst) }
    refine ⟨rows.map Prod.fst, [], [], ?_⟩
    constructor
    · exact fun k => mem_purgeBatch s.caches.discovered (rows.map Prod.fst) k
    · exact fun k => rfl
    · intro op
      refine (acked_append op _ _).trans (congrArg (acked op s.sent ++ ·) ?_)
      cases op with
      | indexCreate =>
        exact (acked_single.trans (if_pos ⟨rfl, rfl⟩)).trans (createMessage_fingerprints rows)
      | indexDelete | indexUpdate => rfl
    · exact ⟨batch.distinct, List.nodup_nil, List.nodup_nil⟩
    · exact fun k member => ⟨present k member, landed (fits.lands _ ack answer) k member⟩
    · exact nofun
    · exact nofun
    · exact fun k member _ => grows member
    · intro fp member
      exact (adds fp member).imp_right (fun ⟨k, listed, same⟩ => ⟨k, present k listed, same⟩)
    · exact fun _ => ⟨rfl, rfl⟩
    · exact fun _ _ => batch.full
    · intro _ nothing
      have empty := (batch.eq_nil_iff (by decide)).mpr nothing
      exact absurd (List.map_eq_nil_iff.mp empty) some_

theorem exists_outcome (fits : Fits s t) (at_ : AtHour hour t) (stepped : step s t = some s') :
    ∃ created deleted updated, Outcome hour s t s' created deleted updated := by
  have batch := batchOf_discovered fits.discovered discoveredBatchSize
  by_cases none_ : batchEntries s.caches.discovered discoveredBatchSize t.discoveredOrder = []
  · have nothing := (batch.eq_nil_iff (by decide)).mp (List.map_eq_nil_iff.mpr none_)
    have first : processOneDiscoveredBatch t.reply s.caches t.discoveredOrder =
        ⟨s.caches, false, []⟩ := if_pos (List.map_eq_nil_iff.mpr none_)
    refine outcome_known fits at_ nothing ?_ stepped
    unfold timeseriesProcessorTurn
    rw [first]
    rfl
  · refine outcome_create fits batch none_ ?_ stepped
    have some_ : (batchEntries s.caches.discovered discoveredBatchSize t.discoveredOrder).map
        discoveredItem ≠ [] := fun empty => none_ (List.map_eq_nil_iff.mp empty)
    unfold timeseriesProcessorTurn processOneDiscoveredBatch
    dsimp only [getBatch, sendDiscoveredTimeseriesBatch, sendBatch]
    simp only [if_neg some_]
    cases t.reply (createMessage ((batchEntries s.caches.discovered discoveredBatchSize
      t.discoveredOrder).map discoveredItem)) <;> rfl

end Outcomes

end SignalAgent.Index.SyncTurns
