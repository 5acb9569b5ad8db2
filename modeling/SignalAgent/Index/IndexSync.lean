/- MID: SignalAgent/Index/IndexSync
   layer: model
   source: components/edgecontroller/discovered_timeseries_cache.go,
     components/edgecontroller/timeseries_processor.go, proto agent_control.proto
   digest: Discovered and known batches become index messages and commit after their reply. -/

import SignalAgent.Index.KnownCache

set_option autoImplicit false
set_option relaxedAutoImplicit false

namespace SignalAgent.Index.IndexSync

open Foundations.GoMaps Foundations.GoText
open KnownCache

abbrev DiscoveredTimeseriesCache := GoMap HashKey TimeseriesEntry

/-- A batch row; `labels` is flattened as name, value, name, value. -/
structure DiscoveredTimeseriesItem where
  hashKey : GoString
  name : GoString
  labels : List GoString
  deriving DecidableEq

def flattenLabels (pairs : List LabelPair) : List GoString :=
  pairs.flatMap (fun lp => [lp.name, lp.value])

/-- The entries a `GetBatch` loop reaches before its count is full. -/
def batchEntries (cache : DiscoveredTimeseriesCache) (batchSize : Nat) (order : List HashKey) :
    List (HashKey × TimeseriesEntry) :=
  let actualSize := min cache.keys.card batchSize
  (order.take actualSize).filterMap (fun key => (cache.lookup key).map (fun entry => (key, entry)))

def discoveredItem (row : HashKey × TimeseriesEntry) : DiscoveredTimeseriesItem :=
  ⟨row.1.toHex, row.2.metricName, flattenLabels row.2.labels⟩

def getBatch (cache : DiscoveredTimeseriesCache) (batchSize : Nat) (order : List HashKey) :
    List DiscoveredTimeseriesItem × List HashKey :=
  let rows := batchEntries cache batchSize order
  (rows.map discoveredItem, rows.map Prod.fst)

def purgeBatch (cache : DiscoveredTimeseriesCache) (keys : List HashKey) :
    DiscoveredTimeseriesCache :=
  deleteAll cache keys

structure Label where
  name : GoString
  value : GoString
  deriving DecidableEq

structure DiscoveredSeries where
  fingerprint : List UInt8
  metricName : GoString
  labels : List Label
  deriving DecidableEq

structure ActiveSeries where
  fingerprint : List UInt8
  samples : Int
  lastUpdateMs : Nat
  deriving DecidableEq

inductive IndexMessage where
  | indexCreate (series : List DiscoveredSeries)
  | indexUpdate (series : List ActiveSeries)
  | indexDelete (fingerprints : List (List UInt8))
  deriving DecidableEq

def IndexMessage.fingerprints : IndexMessage → List (List UInt8)
  | .indexCreate series => series.map DiscoveredSeries.fingerprint
  | .indexUpdate series => series.map ActiveSeries.fingerprint
  | .indexDelete fingerprints => fingerprints

/-- The message names this series. -/
def IndexMessage.Carries (message : IndexMessage) (key : HashKey) : Prop :=
  key.bytes ∈ message.fingerprints

structure Ack where
  success : Bool
  message : GoString
  deriving DecidableEq

/-- How `sendAndWaitAck` can fail: the send, the ack timeout or the cancelled stream. -/
inductive SendError where
  | send
  | timeout
  | cancelled
  deriving DecidableEq

abbrev SendResult := Except SendError Ack

/-- The stride-two loop over the flattened labels; an odd last element is ignored. -/
def pairLabels : List GoString → List Label
  | name :: value :: rest => ⟨name, value⟩ :: pairLabels rest
  | _ => []

/-- A row whose fingerprint is not hexadecimal is skipped. -/
def discoveredSeries (item : DiscoveredTimeseriesItem) : Option DiscoveredSeries :=
  (hexDecode item.hashKey).map (fun fp => ⟨fp, item.name, pairLabels item.labels⟩)

def createMessage (items : List DiscoveredTimeseriesItem) : IndexMessage :=
  .indexCreate (items.filterMap discoveredSeries)

def updateMessage (items : List KnownActiveTimeseriesItem) : IndexMessage :=
  .indexUpdate (items.map (fun it => ⟨it.hashKey.bytes, it.totalSamples, it.lastUpdate⟩))

def deleteMessage (keys : List HashKey) : IndexMessage :=
  .indexDelete (keys.map HashKey.bytes)

/-- The three send functions share this tail: an error is returned, any ack counts as
sent, and `logNonSuccess` only writes a log line. -/
def sendBatch (sendAndWaitAck : IndexMessage → SendResult) (message : IndexMessage) :
    Except SendError Unit :=
  match sendAndWaitAck message with
  | .error e => .error e
  | .ok _ => .ok ()

def sendDiscoveredTimeseriesBatch (sendAndWaitAck : IndexMessage → SendResult)
    (items : List DiscoveredTimeseriesItem) : Except SendError Unit :=
  sendBatch sendAndWaitAck (createMessage items)

def sendActiveTimeseriesBatch (sendAndWaitAck : IndexMessage → SendResult)
    (items : List KnownActiveTimeseriesItem) : Except SendError Unit :=
  sendBatch sendAndWaitAck (updateMessage items)

def sendInactiveTimeseriesBatch (sendAndWaitAck : IndexMessage → SendResult)
    (keys : List HashKey) : Except SendError Unit :=
  sendBatch sendAndWaitAck (deleteMessage keys)

def discoveredBatchSize : Nat := 5000
def knownBatchSize : Int := 30000
def lastBackendSyncThresholdSeconds : Int := 60

structure Caches where
  discovered : DiscoveredTimeseriesCache
  known : KnownTimeseriesCache

/-- One message of a round, with the caches around the commit that follows its reply. -/
structure Exchange where
  message : IndexMessage
  reply : SendResult
  before : Caches
  after : Caches

/-- What one processor call leaves behind; `exchanges` records what it sent. -/
structure Round where
  caches : Caches
  processed : Bool
  exchanges : List Exchange

def processOneDiscoveredBatch (sendAndWaitAck : IndexMessage → SendResult) (caches : Caches)
    (order : List HashKey) : Round :=
  let batch := getBatch caches.discovered discoveredBatchSize order
  if batch.1 = [] then ⟨caches, false, []⟩
  else
    let message := createMessage batch.1
    match sendDiscoveredTimeseriesBatch sendAndWaitAck batch.1 with
    | .error _ => ⟨caches, true, [⟨message, sendAndWaitAck message, caches, caches⟩]⟩
    | .ok _ =>
      let after := { caches with discovered := purgeBatch caches.discovered batch.2 }
      ⟨after, true, [⟨message, sendAndWaitAck message, caches, after⟩]⟩

/-- The clock readings of one known round, the two scan orders, and whether the stream
context ended in the pause between the delete and the update. -/
structure KnownRoundInput where
  thresholdNow : Nat
  activeNow : Nat
  inactiveNow : Nat
  syncedNow : Nat
  activeOrder : List HashKey
  inactiveOrder : List HashKey
  stopped : Bool

/-- The first half of a known round: both batches and the cache they leave. -/
structure KnownBatches where
  active : List KnownActiveTimeseriesItem
  inactive : List HashKey
  known : KnownTimeseriesCache

def readKnownBatches (known : KnownTimeseriesCache) (input : KnownRoundInput) : KnownBatches :=
  let olderThan := (input.thresholdNow : Int) - lastBackendSyncThresholdSeconds
  let active :=
    getActiveTimeseriesBatch known olderThan knownBatchSize input.activeNow input.activeOrder
  let inactive :=
    getInactiveTimeseriesBatch active.cache knownBatchSize input.inactiveNow input.inactiveOrder
  ⟨active.items, inactive.items, inactive.cache⟩

/-- The update half: mark the sent keys synced unless sending failed. -/
def processActive (sendAndWaitAck : IndexMessage → SendResult) (caches : Caches)
    (active : List KnownActiveTimeseriesItem) (syncedNow : Nat) : Round :=
  if active = [] then ⟨caches, true, []⟩
  else
    let message := updateMessage active
    match sendActiveTimeseriesBatch sendAndWaitAck active with
    | .error _ => ⟨caches, true, [⟨message, sendAndWaitAck message, caches, caches⟩]⟩
    | .ok _ =>
      let keys := active.map KnownActiveTimeseriesItem.hashKey
      let after := { caches with known := markSyncedBatch caches.known keys syncedNow }
      ⟨after, true, [⟨message, sendAndWaitAck message, caches, after⟩]⟩

/-- The second half of a known round: deletes first, then updates. -/
def processKnownBatches (sendAndWaitAck : IndexMessage → SendResult) (caches : Caches)
    (active : List KnownActiveTimeseriesItem) (inactive : List HashKey) (stopped : Bool)
    (syncedNow : Nat) : Round :=
  if active = [] ∧ inactive = [] then ⟨caches, false, []⟩
  else if inactive = [] then processActive sendAndWaitAck caches active syncedNow
  else
    let message := deleteMessage inactive
    match sendInactiveTimeseriesBatch sendAndWaitAck inactive with
    | .error _ => ⟨caches, true, [⟨message, sendAndWaitAck message, caches, caches⟩]⟩
    | .ok _ =>
      let deleted := { caches with known := deleteBatch caches.known inactive }
      let exchange : Exchange := ⟨message, sendAndWaitAck message, caches, deleted⟩
      -- The pause is entered only when an update is to follow.
      if active ≠ [] ∧ stopped = true then ⟨deleted, true, [exchange]⟩
      else
        let rest := processActive sendAndWaitAck deleted active syncedNow
        ⟨rest.caches, true, exchange :: rest.exchanges⟩

def processOneKnownBatch (sendAndWaitAck : IndexMessage → SendResult) (caches : Caches)
    (input : KnownRoundInput) : Round :=
  let batches := readKnownBatches caches.known input
  processKnownBatches sendAndWaitAck { caches with known := batches.known } batches.active
    batches.inactive input.stopped input.syncedNow

@[simp] theorem deleteMessage_carries (keys : List HashKey) (key : HashKey) :
    (deleteMessage keys).Carries key ↔ key ∈ keys := by
  simp only [IndexMessage.Carries, deleteMessage, IndexMessage.fingerprints, List.mem_map]
  constructor
  · rintro ⟨other, member, same⟩
    exact HashKey.ext same ▸ member
  · intro member
    exact ⟨key, member, rfl⟩

@[simp] theorem updateMessage_carries (items : List KnownActiveTimeseriesItem) (key : HashKey) :
    (updateMessage items).Carries key ↔ key ∈ items.map KnownActiveTimeseriesItem.hashKey := by
  simp only [IndexMessage.Carries, updateMessage, IndexMessage.fingerprints, List.map_map,
    List.mem_map, Function.comp_apply]
  constructor
  · rintro ⟨item, member, same⟩
    exact ⟨item, member, HashKey.ext same⟩
  · rintro ⟨item, member, same⟩
    exact ⟨item, member, congrArg HashKey.bytes same⟩

theorem discoveredSeries_discoveredItem (row : HashKey × TimeseriesEntry) :
    discoveredSeries (discoveredItem row) =
      some ⟨row.1.bytes, row.2.metricName, pairLabels (flattenLabels row.2.labels)⟩ := by
  -- Every row of a batch has a decodable fingerprint, so none is skipped.
  simp [discoveredSeries, discoveredItem, HashKey.toHex]

theorem createMessage_fingerprints (rows : List (HashKey × TimeseriesEntry)) :
    (createMessage (rows.map discoveredItem)).fingerprints =
      (rows.map Prod.fst).map HashKey.bytes := by
  induction rows with
  | nil => rfl
  | cons row rows ih =>
    simp only [createMessage, IndexMessage.fingerprints] at ih ⊢
    simp only [List.map_cons, List.filterMap_cons, discoveredSeries_discoveredItem, ih]

@[simp] theorem createMessage_carries (rows : List (HashKey × TimeseriesEntry)) (key : HashKey) :
    (createMessage (rows.map discoveredItem)).Carries key ↔ key ∈ rows.map Prod.fst := by
  rw [IndexMessage.Carries, createMessage_fingerprints]
  exact deleteMessage_carries (rows.map Prod.fst) key

theorem batchEntries_lookup {cache : DiscoveredTimeseriesCache} {batchSize : Nat}
    {order : List HashKey} {row : HashKey × TimeseriesEntry}
    (member : row ∈ batchEntries cache batchSize order) : cache.lookup row.1 = some row.2 := by
  simp only [batchEntries, List.mem_filterMap, Option.map_eq_some_iff] at member
  obtain ⟨key, -, entry, found, rfl⟩ := member
  exact found

@[simp] theorem mem_purgeBatch (cache : DiscoveredTimeseriesCache) (keys : List HashKey)
    (key : HashKey) : key ∈ purgeBatch cache keys ↔ key ∈ cache ∧ key ∉ keys :=
  mem_deleteAll cache keys key

end SignalAgent.Index.IndexSync
