/- MID: SignalAgent/Index/DiscoveredBatch
   layer: results
   source: components/edgecontroller/discovered_timeseries_cache.go,
     components/edgecontroller/timeseries_processor.go, components/metricsindex/timeseries.go
   digest: A create message carries the rows of its batch, key by key and label by label. -/

import SignalAgent.Index.IndexSync

set_option autoImplicit false
set_option relaxedAutoImplicit false

namespace SignalAgent.Index.DiscoveredBatch

open Foundations.GoMaps Foundations.GoText
open KnownCache IndexSync

def wireLabel (pair : LabelPair) : Label := ⟨pair.name, pair.value⟩

/-- The series a cache row stands for, without the detour over text and flattened labels. -/
def wireSeries (row : HashKey × TimeseriesEntry) : DiscoveredSeries :=
  ⟨row.1.bytes, row.2.metricName, row.2.labels.map wireLabel⟩

theorem pairLabels_flattenLabels (pairs : List LabelPair) :
    pairLabels (flattenLabels pairs) = pairs.map wireLabel := by
  induction pairs with
  | nil => rfl
  | cons pair pairs ih =>
    have flat : flattenLabels (pair :: pairs) =
        pair.name :: pair.value :: flattenLabels pairs := rfl
    rw [flat, pairLabels, ih]
    rfl

theorem createMessage_rows (rows : List (HashKey × TimeseriesEntry)) :
    createMessage (rows.map discoveredItem) = .indexCreate (rows.map wireSeries) := by
  have decoded (row : HashKey × TimeseriesEntry) :
      discoveredSeries (discoveredItem row) = some (wireSeries row) := by
    rw [discoveredSeries_discoveredItem, pairLabels_flattenLabels]
    rfl
  rw [createMessage, List.filterMap_map]
  congr 1
  induction rows with
  | nil => rfl
  | cons row rows ih =>
    rw [List.filterMap_cons, Function.comp_apply, decoded, List.map_cons]
    simp only [ih]

section Batch

variable {cache : DiscoveredTimeseriesCache} {order : List HashKey}

theorem batchEntries_keys (visits : IterationOrder cache order) (n : Nat) :
    (batchEntries cache n order).map Prod.fst = order.take n := by
  have reached : order.take (min cache.keys.card n) = order.take n := by
    rw [← visits.length_eq, List.take_eq_take_iff]
    omega
  have present : ∀ key ∈ order.take n, ∃ entry, cache.lookup key = some entry := by
    intro key member
    have known : key ∈ cache := (visits.2 key).1 (List.mem_of_mem_take member)
    exact Option.isSome_iff_exists.1 (Finmap.lookup_isSome.2 known)
  rw [batchEntries, reached]
  generalize order.take n = keys at present
  induction keys with
  | nil => rfl
  | cons key keys ih =>
    obtain ⟨entry, found⟩ := present key (List.mem_cons_self ..)
    rw [List.filterMap_cons, found]
    simp only [Option.map_some, List.map_cons]
    rw [ih (fun other member => present other (List.mem_cons_of_mem key member))]

theorem length_batchEntries (visits : IterationOrder cache order) (n : Nat) :
    (batchEntries cache n order).length = min n cache.keys.card := by
  have keys := congrArg List.length (batchEntries_keys visits n)
  rw [List.length_map, List.length_take, visits.length_eq] at keys
  exact keys

end Batch

/-- The message of a batch is a faithful copy of that part of the cache: as many series as asked
for or present, distinct sixteen-byte fingerprints that are cache keys, each with its entry's name
and all label pairs in order.  Purging the returned keys from whatever the cache has become by then
drops those series and no other. -/
theorem getBatch_message_faithful (cache : DiscoveredTimeseriesCache) (n : Nat)
    (order : List HashKey) (visits : IterationOrder cache order) :
    ∃ series, createMessage (getBatch cache n order).1 = .indexCreate series ∧
      (∀ sendAndWaitAck, sendDiscoveredTimeseriesBatch sendAndWaitAck (getBatch cache n order).1 =
        sendBatch sendAndWaitAck (.indexCreate series)) ∧
      series.length = min n cache.keys.card ∧
      (series.map DiscoveredSeries.fingerprint).Nodup ∧
      (∀ s ∈ series, s.fingerprint.length = 16 ∧ ∃ key entry, cache.lookup key = some entry ∧
        s.fingerprint = key.bytes ∧ s.metricName = entry.metricName ∧
        s.labels = entry.labels.map (fun pair => ⟨pair.name, pair.value⟩)) ∧
      ∀ (later : DiscoveredTimeseriesCache) (key : HashKey),
        (purgeBatch later (getBatch cache n order).2).lookup key =
          if key.bytes ∈ series.map DiscoveredSeries.fingerprint then none
          else later.lookup key := by
  have message := createMessage_rows (batchEntries cache n order)
  have fingerprints : ((batchEntries cache n order).map wireSeries).map
      DiscoveredSeries.fingerprint = (order.take n).map HashKey.bytes := by
    rw [← batchEntries_keys visits n, List.map_map, List.map_map]
    rfl
  have bytes_injective : Function.Injective HashKey.bytes := fun _ _ same => HashKey.ext same
  refine ⟨(batchEntries cache n order).map wireSeries, message, ?_, ?_, ?_, ?_, ?_⟩
  · intro sendAndWaitAck
    exact congrArg (sendBatch sendAndWaitAck) message
  · rw [List.length_map, length_batchEntries visits]
  · rw [fingerprints]
    exact (visits.1.sublist (List.take_sublist n order)).map bytes_injective
  · intro s member
    obtain ⟨row, inBatch, rfl⟩ := List.mem_map.1 member
    exact ⟨row.1.length_eq, row.1, row.2, batchEntries_lookup inBatch, rfl, rfl, rfl⟩
  · intro later key
    have keys : (getBatch cache n order).2 = order.take n := batchEntries_keys visits n
    rw [purgeBatch, lookup_deleteAll, keys, fingerprints]
    simp only [List.mem_map_of_injective bytes_injective]

/-- Three series, one of them with an empty label value and an empty label name. -/
def threeSeries : DiscoveredTimeseriesCache :=
  ((Finmap.singleton (HashKey.repeated 9) ⟨lit "down", [], 3⟩).insert (HashKey.repeated 8)
    ⟨lit "up", [⟨lit "job", lit "y"⟩], 2⟩).insert (HashKey.repeated 7)
      ⟨lit "up", [⟨lit "job", []⟩, ⟨[], lit "x"⟩], 1⟩

theorem getBatch_leaves_third_series :
    ∃ series, createMessage (getBatch threeSeries 2
        [HashKey.repeated 8, HashKey.repeated 7, HashKey.repeated 9]).1 = .indexCreate series ∧
      series.length = 2 ∧ (series.map DiscoveredSeries.fingerprint).Nodup ∧
      ∀ key, (purgeBatch (threeSeries.insert (HashKey.repeated 5) ⟨lit "new", [], 4⟩)
          (getBatch threeSeries 2
            [HashKey.repeated 8, HashKey.repeated 7, HashKey.repeated 9]).2).lookup key =
        if key = HashKey.repeated 7 ∨ key = HashKey.repeated 8 then none
        else (threeSeries.insert (HashKey.repeated 5) ⟨lit "new", [], 4⟩).lookup key := by
  obtain ⟨series, message, -, size, distinct, -, purged⟩ := getBatch_message_faithful threeSeries 2
    [HashKey.repeated 8, HashKey.repeated 7, HashKey.repeated 9] (by decide +kernel)
  refine ⟨series, message, size.trans (by decide +kernel), distinct, fun key => ?_⟩
  have sent : createMessage (getBatch threeSeries 2
      [HashKey.repeated 8, HashKey.repeated 7, HashKey.repeated 9]).1 = .indexCreate
        [⟨(HashKey.repeated 8).bytes, lit "up", [⟨lit "job", lit "y"⟩]⟩,
          ⟨(HashKey.repeated 7).bytes, lit "up", [⟨lit "job", []⟩, ⟨[], lit "x"⟩]⟩] := by
    decide +kernel
  obtain rfl := IndexMessage.indexCreate.inj (message.symm.trans sent)
  rw [purged]
  refine if_congr ?_ rfl rfl
  simp only [List.map_cons, List.map_nil, List.mem_cons, List.not_mem_nil, or_false,
    HashKey.ext_iff]
  exact or_comm

end SignalAgent.Index.DiscoveredBatch
