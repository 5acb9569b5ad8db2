/- MID: SignalAgent/Index/KnownCache
   layer: model
   source: components/metricsindex/timeseries.go,
     components/edgecontroller/known_timeseries_cache.go
   digest: The known cache as executable map operations over per-series hourly ring buffers. -/

import Mathlib.Algebra.BigOperators.Group.Finset.Basic
import Mathlib.Logic.Function.Iterate
import SignalAgent.Foundations.GoMaps
import SignalAgent.Foundations.GoText

/-!
A clock reading is a natural number of Unix seconds, so every reading is at or
after the epoch.  Sample totals are integers without a machine bound.  The order
in which a range statement visits the map is an argument of each scan.
-/

set_option autoImplicit false
set_option relaxedAutoImplicit false

namespace SignalAgent.Index.KnownCache

open Foundations.GoMaps Foundations.GoText

/-- The xxh3-128 fingerprint of a series: sixteen bytes. -/
@[ext] structure HashKey where
  bytes : List UInt8
  length_eq : bytes.length = 16
  deriving DecidableEq

/-- The fingerprint whose sixteen bytes are equal. -/
def HashKey.repeated (b : UInt8) : HashKey := ⟨List.replicate 16 b, List.length_replicate⟩

/-- `HashKey.String`. -/
def HashKey.toHex (key : HashKey) : GoString := hexEncode key.bytes

structure LabelPair where
  name : GoString
  value : GoString
  deriving DecidableEq

structure TimeseriesEntry where
  metricName : GoString
  labels : List LabelPair
  samples : Int
  deriving DecidableEq

def hoursLog : Nat := 8

structure KnownTimeseriesEntry where
  metricName : GoString
  lastUpdate : Nat
  lastBackendSync : Nat
  lastHour : Nat
  head : UInt8
  samples : Vector Int hoursLog
  deriving DecidableEq

structure KnownActiveTimeseriesItem where
  hashKey : HashKey
  totalSamples : Int
  lastUpdate : Nat
  deriving DecidableEq

abbrev KnownTimeseriesCache := GoMap HashKey KnownTimeseriesEntry

/-- A read of one slot; the invariant `head = lastHour % 8` keeps every index in range. -/
def KnownTimeseriesEntry.slot (entry : KnownTimeseriesEntry) (i : Nat) : Int :=
  entry.samples[i]?.getD 0

def sumSamples (entry : KnownTimeseriesEntry) : Int :=
  entry.samples.foldl (fun total s => total + s) 0

/-- One iteration of the advancing loop: move `head`, clear the slot it enters. -/
def advanceOne (entry : KnownTimeseriesEntry) : KnownTimeseriesEntry :=
  let head := (entry.head + 1) % UInt8.ofNat hoursLog
  { entry with head := head, samples := entry.samples.setIfInBounds head.toNat 0 }

def advanceRingBuffer (entry : KnownTimeseriesEntry) (currentHour : Nat) : KnownTimeseriesEntry :=
  if currentHour ≤ entry.lastHour then entry
  else
    let hoursPassed := currentHour - entry.lastHour
    let advanced :=
      if hoursLog ≤ hoursPassed then
        { entry with
          samples := Vector.replicate hoursLog 0
          head := UInt8.ofNat (currentHour % hoursLog) }
      else advanceOne^[hoursPassed] entry
    { advanced with lastHour := currentHour }

/-- `samples[head] += n`. -/
def addSamples (entry : KnownTimeseriesEntry) (n : Int) : KnownTimeseriesEntry :=
  { entry with
    samples := entry.samples.setIfInBounds entry.head.toNat (entry.slot entry.head.toNat + n) }

def newEntry (entry : TimeseriesEntry) (nowUnix : Nat) : KnownTimeseriesEntry :=
  let currentHour := nowUnix / 3600
  let head := UInt8.ofNat (currentHour % hoursLog)
  { metricName := entry.metricName
    lastUpdate := nowUnix
    lastBackendSync := 0
    lastHour := currentHour
    head := head
    samples := (Vector.replicate hoursLog 0).setIfInBounds head.toNat entry.samples }

def isTimeseriesKnown (cache : KnownTimeseriesCache) (key : HashKey) : Bool :=
  decide (key ∈ cache)

def updateTimeseries (cache : KnownTimeseriesCache) (key : HashKey) (entry : TimeseriesEntry)
    (nowUnix : Nat) : KnownTimeseriesCache :=
  match cache.lookup key with
  | none => cache.insert key (newEntry entry nowUnix)
  | some existing =>
    let advanced := advanceRingBuffer existing (nowUnix / 3600)
    cache.insert key { addSamples advanced entry.samples with lastUpdate := nowUnix }

/-- The result of a scan.  `touched` lists the entries it advanced before stopping. -/
structure Scan (ι : Type) where
  cache : KnownTimeseriesCache
  items : List ι
  touched : List HashKey

/-- The loop both batch getters share: stop when the batch is full, advance the
visited entry, then keep it or pass it over. -/
def scanBatch {ι : Type} (currentHour : Nat) (batchSize : Int)
    (pick : HashKey → KnownTimeseriesEntry → Option ι) : List HashKey → Scan ι → Scan ι
  | [], scan => scan
  | key :: rest, scan =>
    if batchSize ≤ scan.items.length then scan
    else
      match scan.cache.lookup key with
      | none => scanBatch currentHour batchSize pick rest scan
      | some entry =>
        let advanced := advanceRingBuffer entry currentHour
        scanBatch currentHour batchSize pick rest
          { cache := scan.cache.insert key advanced
            items := scan.items ++ (pick key advanced).toList
            touched := scan.touched ++ [key] }

def pickActive (lastBackendSyncOlderThan : Int) (key : HashKey) (entry : KnownTimeseriesEntry) :
    Option KnownActiveTimeseriesItem :=
  if lastBackendSyncOlderThan ≤ entry.lastBackendSync then none
  else if sumSamples entry = 0 then none
  else some ⟨key, sumSamples entry, entry.lastUpdate * 1000⟩

def pickInactive (key : HashKey) (entry : KnownTimeseriesEntry) : Option HashKey :=
  if sumSamples entry = 0 then some key else none

def getActiveTimeseriesBatch (cache : KnownTimeseriesCache) (lastBackendSyncOlderThan : Int)
    (batchSize : Int) (nowUnix : Nat) (order : List HashKey) : Scan KnownActiveTimeseriesItem :=
  if batchSize ≤ 0 then ⟨cache, [], []⟩
  else
    scanBatch (nowUnix / 3600) batchSize (pickActive lastBackendSyncOlderThan) order ⟨cache, [], []⟩

def getInactiveTimeseriesBatch (cache : KnownTimeseriesCache) (batchSize : Int) (nowUnix : Nat)
    (order : List HashKey) : Scan HashKey :=
  if batchSize ≤ 0 then ⟨cache, [], []⟩
  else scanBatch (nowUnix / 3600) batchSize pickInactive order ⟨cache, [], []⟩

def deleteBatch (cache : KnownTimeseriesCache) (keys : List HashKey) : KnownTimeseriesCache :=
  deleteAll cache keys

def markSynced (cache : KnownTimeseriesCache) (key : HashKey) (nowUnix : Nat) :
    KnownTimeseriesCache :=
  modify cache key (fun entry => { entry with lastBackendSync := nowUnix })

def markSyncedBatch (cache : KnownTimeseriesCache) (keys : List HashKey) (nowUnix : Nat) :
    KnownTimeseriesCache :=
  modifyAll cache keys (fun entry => { entry with lastBackendSync := nowUnix })

@[simp] theorem advanceOne_iterate_frame (n : Nat) (entry : KnownTimeseriesEntry) :
    (advanceOne^[n] entry).lastHour = entry.lastHour ∧
      (advanceOne^[n] entry).lastBackendSync = entry.lastBackendSync := by
  induction n generalizing entry with
  | zero => exact ⟨rfl, rfl⟩
  | succ n ih => exact ih (advanceOne entry)

@[simp] theorem advanceRingBuffer_lastBackendSync (entry : KnownTimeseriesEntry) (hour : Nat) :
    (advanceRingBuffer entry hour).lastBackendSync = entry.lastBackendSync := by
  unfold advanceRingBuffer
  split
  · rfl
  · dsimp only
    split
    · rfl
    · exact (advanceOne_iterate_frame _ entry).2

theorem advanceRingBuffer_lastHour (entry : KnownTimeseriesEntry) (hour : Nat) :
    (advanceRingBuffer entry hour).lastHour = max entry.lastHour hour := by
  unfold advanceRingBuffer
  split
  · omega
  · dsimp only
    omega

theorem lookup_updateTimeseries (cache : KnownTimeseriesCache) (key k : HashKey)
    (entry : TimeseriesEntry) (now : Nat) :
    (updateTimeseries cache key entry now).lookup k =
      if k = key then
        some (match cache.lookup key with
          | none => newEntry entry now
          | some existing =>
            { addSamples (advanceRingBuffer existing (now / 3600)) entry.samples with
              lastUpdate := now })
      else cache.lookup k := by
  unfold updateTimeseries
  split <;> exact lookup_insert_eq cache key k _

@[simp] theorem mem_updateTimeseries (cache : KnownTimeseriesCache) (key k : HashKey)
    (entry : TimeseriesEntry) (now : Nat) :
    k ∈ updateTimeseries cache key entry now ↔ k = key ∨ k ∈ cache := by
  unfold updateTimeseries
  split <;> exact Finmap.mem_insert

@[simp] theorem mem_deleteBatch (cache : KnownTimeseriesCache) (keys : List HashKey) (k : HashKey) :
    k ∈ deleteBatch cache keys ↔ k ∈ cache ∧ k ∉ keys :=
  mem_deleteAll cache keys k

@[simp] theorem mem_markSyncedBatch (cache : KnownTimeseriesCache) (keys : List HashKey)
    (now : Nat) (k : HashKey) : k ∈ markSyncedBatch cache keys now ↔ k ∈ cache :=
  mem_modifyAll cache keys _ k

theorem lookup_markSyncedBatch (cache : KnownTimeseriesCache) (keys : List HashKey) (now : Nat)
    (k : HashKey) :
    (markSyncedBatch cache keys now).lookup k =
      if k ∈ keys then (cache.lookup k).map (fun entry => { entry with lastBackendSync := now })
      else cache.lookup k := by
  unfold markSyncedBatch
  exact lookup_modifyAll cache keys (fun entry => { entry with lastBackendSync := now })
    (fun _ => rfl) k

/-- What one scan of distinct keys does to the map: the touched entries are advanced
to the current hour and nothing else changes. -/
structure ScanEffect {ι : Type} (hour : Nat) (pick : HashKey → KnownTimeseriesEntry → Option ι)
    (before : KnownTimeseriesCache) (scan : Scan ι) : Prop where
  lookup : ∀ k, scan.cache.lookup k =
    if k ∈ scan.touched then (before.lookup k).map (fun e => advanceRingBuffer e hour)
    else before.lookup k
  present : ∀ k ∈ scan.touched, k ∈ before
  items : ∀ it ∈ scan.items, ∃ k e, before.lookup k = some e ∧
    pick k (advanceRingBuffer e hour) = some it

private theorem scanBatch_effect_from {ι : Type} (hour : Nat) (batchSize : Int)
    (pick : HashKey → KnownTimeseriesEntry → Option ι) (before : KnownTimeseriesCache)
    (order : List HashKey) (distinct : order.Nodup) (scan : Scan ι)
    (fresh : ∀ k ∈ order, k ∉ scan.touched) (effect : ScanEffect hour pick before scan) :
    ScanEffect hour pick before (scanBatch hour batchSize pick order scan) := by
  induction order generalizing scan with
  | nil => exact effect
  | cons key rest ih =>
    have rest_distinct := (List.nodup_cons.mp distinct).2
    have key_later := (List.nodup_cons.mp distinct).1
    have rest_fresh : ∀ k ∈ rest, k ∉ scan.touched := fun k h => fresh k (List.mem_cons_of_mem _ h)
    have untouched : key ∉ scan.touched := fresh key List.mem_cons_self
    simp only [scanBatch]
    split
    · exact effect
    · split
      · exact ih rest_distinct scan rest_fresh effect
      · rename_i entry found
        have original : before.lookup key = some entry := by
          have := effect.lookup key
          rwa [found, if_neg untouched, eq_comm] at this
        refine ih rest_distinct _ ?_ ?_
        · intro k member
          simp only [List.mem_append, List.mem_singleton, not_or]
          exact ⟨rest_fresh k member, fun same => key_later (same ▸ member)⟩
        · constructor
          · intro k
            dsimp only
            rw [lookup_insert_eq, effect.lookup k]
            by_cases same : k = key
            · subst same
              simp [original]
            · simp [same]
          · intro k member
            rcases List.mem_append.mp member with member | member
            · exact effect.present k member
            · obtain rfl := List.mem_singleton.mp member
              exact mem_of_lookup original
          · intro it member
            rcases List.mem_append.mp member with member | member
            · exact effect.items it member
            · exact ⟨key, entry, original, by simpa using member⟩

private theorem scanBatch_effect {ι : Type} (hour : Nat) (batchSize : Int)
    (pick : HashKey → KnownTimeseriesEntry → Option ι) (before : KnownTimeseriesCache)
    (order : List HashKey) (distinct : order.Nodup) :
    ScanEffect hour pick before (scanBatch hour batchSize pick order ⟨before, [], []⟩) :=
  scanBatch_effect_from hour batchSize pick before order distinct _ (by simp)
    ⟨by simp, by simp, by simp⟩

theorem ScanEffect.mem_iff {ι : Type} {hour : Nat}
    {pick : HashKey → KnownTimeseriesEntry → Option ι}
    {before : KnownTimeseriesCache} {scan : Scan ι} (effect : ScanEffect hour pick before scan)
    (k : HashKey) : k ∈ scan.cache ↔ k ∈ before := by
  rw [← Finmap.lookup_isSome, ← Finmap.lookup_isSome, effect.lookup k]
  split <;> simp

theorem getActiveTimeseriesBatch_effect (cache : KnownTimeseriesCache) (olderThan batchSize : Int)
    (now : Nat) (order : List HashKey) (distinct : order.Nodup) :
    ScanEffect (now / 3600) (pickActive olderThan) cache
      (getActiveTimeseriesBatch cache olderThan batchSize now order) := by
  unfold getActiveTimeseriesBatch
  split
  · exact ⟨by simp, by simp, by simp⟩
  · exact scanBatch_effect _ _ _ _ _ distinct

theorem getInactiveTimeseriesBatch_effect (cache : KnownTimeseriesCache) (batchSize : Int)
    (now : Nat) (order : List HashKey) (distinct : order.Nodup) :
    ScanEffect (now / 3600) pickInactive cache
      (getInactiveTimeseriesBatch cache batchSize now order) := by
  unfold getInactiveTimeseriesBatch
  split
  · exact ⟨by simp, by simp, by simp⟩
  · exact scanBatch_effect _ _ _ _ _ distinct

private theorem scanBatch_items_touched {ι : Type} (hour : Nat) (batchSize : Int)
    (pick : HashKey → KnownTimeseriesEntry → Option ι) (order : List HashKey) (scan : Scan ι)
    (visited : ∀ it ∈ scan.items, ∃ k ∈ scan.touched, ∃ e, pick k e = some it) :
    ∀ it ∈ (scanBatch hour batchSize pick order scan).items,
      ∃ k ∈ (scanBatch hour batchSize pick order scan).touched, ∃ e, pick k e = some it := by
  induction order generalizing scan with
  | nil => exact visited
  | cons key rest ih =>
    simp only [scanBatch]
    split
    · exact visited
    · split
      · exact ih scan visited
      · rename_i entry found
        apply ih
        intro it member
        rcases List.mem_append.mp member with member | member
        · obtain ⟨k, touched, picked⟩ := visited it member
          exact ⟨k, List.mem_append_left _ touched, picked⟩
        · have here : key ∈ scan.touched ++ [key] := List.mem_append_right _ List.mem_cons_self
          exact ⟨key, here, _, by simpa using member⟩

theorem hashKey_of_pickActive {olderThan : Int} {key : HashKey} {entry : KnownTimeseriesEntry}
    {item : KnownActiveTimeseriesItem} (picked : pickActive olderThan key entry = some item) :
    item.hashKey = key := by
  unfold pickActive at picked
  split at picked
  · cases picked
  · split at picked
    · cases picked
    · cases picked
      rfl

theorem pickInactive_eq_some {key picked : HashKey} {entry : KnownTimeseriesEntry}
    (idle : pickInactive key entry = some picked) : picked = key ∧ sumSamples entry = 0 := by
  unfold pickInactive at idle
  split at idle
  · rename_i nothing
    exact ⟨(Option.some.inj idle).symm, nothing⟩
  · cases idle

theorem touched_of_mem_inactiveBatch {cache : KnownTimeseriesCache} {batchSize : Int} {now : Nat}
    {order : List HashKey} {key : HashKey}
    (listed : key ∈ (getInactiveTimeseriesBatch cache batchSize now order).items) :
    key ∈ (getInactiveTimeseriesBatch cache batchSize now order).touched := by
  unfold getInactiveTimeseriesBatch at listed ⊢
  split at listed
  · cases listed
  · rename_i positive
    rw [if_neg positive]
    obtain ⟨k, touched, e, picked⟩ := scanBatch_items_touched (now / 3600) batchSize pickInactive
      order ⟨cache, [], []⟩ (by simp) key listed
    exact (pickInactive_eq_some picked).1 ▸ touched

theorem mem_of_mem_activeBatch {cache : KnownTimeseriesCache} {olderThan batchSize : Int}
    {now : Nat} {order : List HashKey} (distinct : order.Nodup) {item : KnownActiveTimeseriesItem}
    (listed : item ∈ (getActiveTimeseriesBatch cache olderThan batchSize now order).items) :
    item.hashKey ∈ cache := by
  have effect := getActiveTimeseriesBatch_effect cache olderThan batchSize now order distinct
  obtain ⟨k, entry, found, picked⟩ := effect.items item listed
  rw [hashKey_of_pickActive picked]
  exact mem_of_lookup found

theorem mem_of_mem_inactiveBatch {cache : KnownTimeseriesCache} {batchSize : Int} {now : Nat}
    {order : List HashKey} (distinct : order.Nodup) {key : HashKey}
    (listed : key ∈ (getInactiveTimeseriesBatch cache batchSize now order).items) :
    key ∈ cache := by
  have effect := getInactiveTimeseriesBatch_effect cache batchSize now order distinct
  obtain ⟨k, entry, found, picked⟩ := effect.items key listed
  rw [(pickInactive_eq_some picked).1]
  exact mem_of_lookup found

/-- What a scan at this hour makes of a key. -/
def picked {ι : Type} (hour : Nat) (pick : HashKey → KnownTimeseriesEntry → Option ι)
    (cache : KnownTimeseriesCache) (key : HashKey) : Option ι :=
  (cache.lookup key).bind (fun entry => pick key (advanceRingBuffer entry hour))

private theorem scanBatch_items_from {ι : Type} (hour : Nat) (batchSize : Int)
    (pick : HashKey → KnownTimeseriesEntry → Option ι) (before : KnownTimeseriesCache)
    (order : List HashKey) (distinct : order.Nodup) (scan : Scan ι)
    (unvisited : ∀ k ∈ order, scan.cache.lookup k = before.lookup k) :
    (scanBatch hour batchSize pick order scan).items = scan.items ++
      (order.filterMap (picked hour pick before)).take (batchSize.toNat - scan.items.length) := by
  induction order generalizing scan with
  | nil => simp [scanBatch]
  | cons key rest ih =>
    obtain ⟨later, restDistinct⟩ := List.nodup_cons.mp distinct
    have here := unvisited key List.mem_cons_self
    simp only [scanBatch]
    split
    · rename_i full
      have none : batchSize.toNat - scan.items.length = 0 := by omega
      rw [none, List.take_zero, List.append_nil]
    · rename_i room
      split
      · rename_i absent
        have nothing : picked hour pick before key = none := by rw [picked, ← here, absent]; rfl
        rw [List.filterMap_cons_none nothing]
        exact ih restDistinct scan (fun k member => unvisited k (List.mem_cons_of_mem key member))
      · rename_i entry found
        have taken : picked hour pick before key = pick key (advanceRingBuffer entry hour) := by
          rw [picked, ← here, found]
          rfl
        rw [ih restDistinct]
        · dsimp only
          cases choice : pick key (advanceRingBuffer entry hour) with
          | none =>
            rw [List.filterMap_cons_none (taken.trans choice)]
            simp
          | some item =>
            have more : batchSize.toNat - scan.items.length =
                batchSize.toNat - (scan.items ++ [item]).length + 1 := by
              rw [List.length_append, List.length_singleton]
              omega
            rw [List.filterMap_cons_some (taken.trans choice), more, List.take_succ_cons]
            simp
        · intro k member
          dsimp only
          have other : k ≠ key := by
            rintro rfl
            exact later member
          rw [lookup_insert_eq, if_neg other]
          exact unvisited k (List.mem_cons_of_mem key member)

theorem getActiveTimeseriesBatch_items (cache : KnownTimeseriesCache) (olderThan batchSize : Int)
    (now : Nat) (order : List HashKey) (distinct : order.Nodup) :
    (getActiveTimeseriesBatch cache olderThan batchSize now order).items =
      (order.filterMap (picked (now / 3600) (pickActive olderThan) cache)).take
        batchSize.toNat := by
  unfold getActiveTimeseriesBatch
  split
  · rename_i empty
    rw [Int.toNat_of_nonpos empty, List.take_zero]
  · rw [scanBatch_items_from _ _ _ cache order distinct _ (fun _ _ => rfl)]
    simp

theorem getInactiveTimeseriesBatch_items (cache : KnownTimeseriesCache) (batchSize : Int)
    (now : Nat) (order : List HashKey) (distinct : order.Nodup) :
    (getInactiveTimeseriesBatch cache batchSize now order).items =
      (order.filterMap (picked (now / 3600) pickInactive cache)).take batchSize.toNat := by
  unfold getInactiveTimeseriesBatch
  split
  · rename_i empty
    rw [Int.toNat_of_nonpos empty, List.take_zero]
  · rw [scanBatch_items_from _ _ _ cache order distinct _ (fun _ _ => rfl)]
    simp

end SignalAgent.Index.KnownCache
