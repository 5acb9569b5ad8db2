/- MID: SignalAgent/Telemetry/CollectorTimeseries
   layer: model
   source: components/metricstracker/collector_timeseries.go,
     components/metricstracker/processor.go
   digest: The batch of a collector: fingerprint texts, their hash keys, counting and copying. -/

import SignalAgent.Foundations.GoQuote
import SignalAgent.Foundations.GoSort
import SignalAgent.Index.KnownCache
import SignalAgent.Telemetry.SeriesTracker

set_option autoImplicit false
set_option relaxedAutoImplicit false

namespace SignalAgent.Telemetry.CollectorTimeseries

open Foundations.GoMaps Foundations.GoQuote Foundations.GoSort Foundations.GoText
open Index.KnownCache (HashKey LabelPair TimeseriesEntry)
open Pdata SeriesLabels SeriesTracker

/-- What the collector calls: the table of printable runes that quoting consults, and the
hash function. -/
structure Fingerprinting where
  isPrint : Nat → Bool
  hash128 : GoString → UInt64 × UInt64

variable (F : Fingerprinting)

/-- One turn of the loop that writes the labels: a comma in front of all but the first. -/
def writeLabel (i : Nat) (name value : GoString) : GoString :=
  (if 0 < i then lit "," else []) ++ name ++ lit "=" ++ quote F.isPrint value

/-- `order` is the order in which the range statement visits the attributes. -/
def buildFingerprintString (metric : GoString) (attributes : LabelMap) (order : List GoString) :
    GoString :=
  if attributes = ∅ then metric
  else
    let keys := sortStrings order
    metric ++ lit "\x7b" ++
      keys.zipIdx.flatMap (fun k => writeLabel F k.2 k.1 (index attributes [] k.1)) ++ lit "\x7d"

def extractSortedLabelPairs (attributes : LabelMap) (order : List GoString) : List LabelPair :=
  if attributes = ∅ then []
  else (sortStrings order).map (fun k => ⟨k, index attributes [] k⟩)

def buildFingerprintFromEntry (entry : TimeseriesEntry) : GoString :=
  if entry.labels.length = 0 then entry.metricName
  else entry.metricName ++ lit "\x7b" ++
    entry.labels.zipIdx.flatMap (fun lp => writeLabel F lp.2 lp.1.name lp.1.value) ++ lit "\x7d"

/-- The loop of `uint64ToBytes` fills its slice from the end. -/
def fillBytes : Nat → UInt64 → List UInt8 → List UInt8
  | 0, _, b => b
  | i + 1, v, b => fillBytes i (v >>> 8) ((v &&& 0xff).toUInt8 :: b)

def uint64ToBytes (v : UInt64) : List UInt8 := fillBytes 8 v []

theorem length_fillBytes (n : Nat) (v : UInt64) (b : List UInt8) :
    (fillBytes n v b).length = n + b.length := by
  induction n generalizing v b with
  | zero => rw [fillBytes, Nat.zero_add]
  | succ n ih =>
    rw [fillBytes, ih, List.length_cons]
    omega

/-- The key a fingerprint is stored under: the high half of the hash, then the low half. -/
def hashKeyOf (fingerprint : GoString) : HashKey where
  bytes := uint64ToBytes (F.hash128 fingerprint).1 ++ uint64ToBytes (F.hash128 fingerprint).2
  length_eq := by
    rw [List.length_append, uint64ToBytes, uint64ToBytes, length_fillBytes, length_fillBytes]
    rfl

abbrev Batch := GoMap HashKey TimeseriesEntry

/-- Both functions that range over the attributes have an order of their own. -/
def addTimeseries (data : Batch) (metric : GoString) (attributes : LabelMap)
    (fingerprintOrder pairsOrder : List GoString) : Batch :=
  let fingerprint := buildFingerprintString F metric attributes fingerprintOrder
  let hashKey := hashKeyOf F fingerprint
  match data.lookup hashKey with
  | some entry => data.insert hashKey { entry with samples := entry.samples + 1 }
  | none =>
    data.insert hashKey
      { metricName := metric
        labels := extractSortedLabelPairs attributes pairsOrder
        samples := 1 }

/-- The deep copy that is broadcast; `order` is the order in which the batch is visited. -/
def broadcast (data : Batch) (order : List HashKey) : Batch :=
  order.foldl (fun dataCopy k =>
    match data.lookup k with
    | some v =>
      dataCopy.insert k { metricName := v.metricName, labels := v.labels, samples := v.samples }
    | none => dataCopy) ∅

/-- One call of `AddTimeseries`, with the orders in which it visits the labels. -/
structure AddCall where
  series : Series
  fingerprintOrder : List GoString
  pairsOrder : List GoString
  visitsFingerprint : IterationOrder series.labels fingerprintOrder
  visitsPairs : IterationOrder series.labels pairsOrder

/-- A new collector after these calls. -/
def trackMetrics (calls : List AddCall) : Batch :=
  calls.foldl (fun data call => addTimeseries F data call.series.name call.series.labels
    call.fingerprintOrder call.pairsOrder) ∅

/-- A run of `ConsumeMetrics`: one call for each series of the batch, then the broadcast. -/
structure ConsumeMetrics (P : Platform) (md : Metrics) where
  calls : List AddCall
  calls_eq : calls.map AddCall.series = processBatch P md
  broadcastOrder : List HashKey
  visitsBatch : IterationOrder (trackMetrics F calls) broadcastOrder

variable {F} in
/-- The batch that the receivers get. -/
def ConsumeMetrics.batch {P : Platform} {md : Metrics} (run : ConsumeMetrics F P md) : Batch :=
  broadcast (trackMetrics F run.calls) run.broadcastOrder

private theorem toNat_lowByte (v : UInt64) : (v &&& 0xff).toUInt8.toNat = v.toNat % 256 := by
  have mask : v.toNat &&& (0xff : UInt64).toNat = v.toNat % 2 ^ 8 :=
    Nat.and_two_pow_sub_one_eq_mod _ 8
  rw [UInt64.toNat_toUInt8, UInt64.toNat_and, mask, Nat.mod_mod]
  rfl

private theorem toNat_shiftByte (v : UInt64) : (v >>> 8).toNat = v.toNat / 256 := by
  rw [UInt64.toNat_shiftRight]
  exact Nat.shiftRight_eq_div_pow _ _

private theorem fillBytes_inj {n : Nat} {v w : UInt64} {b c : List UInt8}
    (lengths : b.length = c.length) (same : fillBytes n v b = fillBytes n w c) :
    v.toNat % 256 ^ n = w.toNat % 256 ^ n ∧ b = c := by
  induction n generalizing v w b c with
  | zero => exact ⟨by rw [Nat.pow_zero, Nat.mod_one, Nat.mod_one], same⟩
  | succ n ih =>
    have longer : ((v &&& 0xff).toUInt8 :: b).length = ((w &&& 0xff).toUInt8 :: c).length := by
      rw [List.length_cons, List.length_cons, lengths]
    obtain ⟨high, written⟩ := ih longer same
    obtain ⟨low, rest⟩ := List.cons.inj written
    have lowest := congrArg UInt8.toNat low
    rw [toNat_lowByte, toNat_lowByte] at lowest
    rw [toNat_shiftByte, toNat_shiftByte] at high
    refine ⟨?_, rest⟩
    rw [Nat.pow_succ', Nat.mod_mul, Nat.mod_mul, lowest, high]

private theorem uint64ToBytes_injective : Function.Injective uint64ToBytes := by
  intro v w same
  have equal : v.toNat % 2 ^ 64 = w.toNat % 2 ^ 64 := (fillBytes_inj rfl same).1
  rw [Nat.mod_eq_of_lt v.toNat_lt, Nat.mod_eq_of_lt w.toNat_lt] at equal
  exact UInt64.toNat_inj.mp equal

theorem hash128_eq_of_hashKeyOf {first second : GoString}
    (same : hashKeyOf F first = hashKeyOf F second) : F.hash128 first = F.hash128 second := by
  have bytes := congrArg HashKey.bytes same
  have lengths : (uint64ToBytes (F.hash128 first).1).length =
      (uint64ToBytes (F.hash128 second).1).length := by
    rw [uint64ToBytes, uint64ToBytes, length_fillBytes, length_fillBytes]
  obtain ⟨high, low⟩ := List.append_inj bytes lengths
  exact Prod.ext (uint64ToBytes_injective high) (uint64ToBytes_injective low)

private theorem sortStrings_ne_nil {attributes : LabelMap} {order : List GoString}
    (visits : IterationOrder attributes order) (full : attributes ≠ ∅) :
    sortStrings order ≠ [] := by
  intro none
  apply full
  apply Finmap.ext_lookup
  intro k
  rw [Finmap.lookup_empty, Finmap.lookup_eq_none, ← visits.2 k, ← mem_sortStrings, none]
  exact List.not_mem_nil

theorem extractSortedLabelPairs_eq_nil_iff {attributes : LabelMap} {order : List GoString}
    (visits : IterationOrder attributes order) :
    extractSortedLabelPairs attributes order = [] ↔ attributes = ∅ := by
  unfold extractSortedLabelPairs
  by_cases empty : attributes = ∅
  · rw [if_pos empty]
    exact iff_of_true rfl empty
  · rw [if_neg empty, List.map_eq_nil_iff]
    exact iff_of_false (sortStrings_ne_nil visits empty) empty

theorem buildFingerprintFromEntry_extract (metric : GoString) {attributes : LabelMap}
    {order : List GoString} (visits : IterationOrder attributes order) (samples : Int) :
    buildFingerprintFromEntry F ⟨metric, extractSortedLabelPairs attributes order, samples⟩ =
      buildFingerprintString F metric attributes order := by
  -- The two loops write the same labels.
  unfold buildFingerprintFromEntry buildFingerprintString
  simp only [List.length_eq_zero_iff, extractSortedLabelPairs_eq_nil_iff visits]
  by_cases empty : attributes = ∅
  · rw [if_pos empty, if_pos empty]
  · rw [if_neg empty, if_neg empty, extractSortedLabelPairs, if_neg empty, List.zipIdx_map,
      List.flatMap_map]
    rfl

theorem mem_extractSortedLabelPairs {attributes : LabelMap} {order : List GoString}
    (visits : IterationOrder attributes order) (name value : GoString) :
    ⟨name, value⟩ ∈ extractSortedLabelPairs attributes order ↔
      attributes.lookup name = some value := by
  unfold extractSortedLabelPairs
  by_cases empty : attributes = ∅
  · rw [if_pos empty, empty, Finmap.lookup_empty]
    simp
  · rw [if_neg empty, List.mem_map]
    constructor
    · rintro ⟨k, visited, same⟩
      obtain ⟨rfl, rfl⟩ := LabelPair.mk.inj same
      obtain ⟨v, found⟩ := Finmap.mem_iff.mp ((visits.2 k).mp (mem_sortStrings.mp visited))
      rw [index, found, Option.getD_some]
    · intro found
      refine ⟨name, mem_sortStrings.mpr ((visits.2 name).mpr (mem_of_lookup found)), ?_⟩
      rw [index, found, Option.getD_some]

theorem extractSortedLabelPairs_strict {attributes : LabelMap} {order : List GoString}
    (visits : IterationOrder attributes order) :
    (extractSortedLabelPairs attributes order).Pairwise (fun a b => a.name < b.name) := by
  unfold extractSortedLabelPairs
  split
  · exact List.Pairwise.nil
  · exact List.pairwise_map.mpr (sortStrings_strict visits.1)

theorem extractSortedLabelPairs_order {attributes : LabelMap} {first second : List GoString}
    (visits : IterationOrder attributes first) (visits' : IterationOrder attributes second) :
    extractSortedLabelPairs attributes first = extractSortedLabelPairs attributes second := by
  unfold extractSortedLabelPairs
  rw [sortStrings_iterationOrder visits visits']

theorem eq_of_extractSortedLabelPairs {first second : LabelMap} {order order' : List GoString}
    (visits : IterationOrder first order) (visits' : IterationOrder second order')
    (same : extractSortedLabelPairs first order = extractSortedLabelPairs second order') :
    first = second := by
  apply Finmap.ext_lookup
  intro name
  apply Option.ext
  intro value
  rw [← mem_extractSortedLabelPairs visits, same, mem_extractSortedLabelPairs visits']

private theorem lookup_broadcast (data : Batch) (keys : List HashKey) (k : HashKey) :
    (broadcast data keys).lookup k = if k ∈ keys then data.lookup k else none := by
  induction keys using List.reverseRecOn with
  | nil => simp [broadcast]
  | append_singleton keys last ih =>
    have unfolded : broadcast data (keys ++ [last]) =
        match data.lookup last with
        | some v => (broadcast data keys).insert last v
        | none => broadcast data keys := by
      simp only [broadcast, List.foldl_append, List.foldl_cons, List.foldl_nil]
    rw [unfolded]
    by_cases same : k = last
    · subst same
      cases found : data.lookup k with
      | some v => simp
      | none => simp [ih, found]
    · cases data.lookup last with
      | some v => simp [ih, same]
      | none => simp [ih, same]

theorem broadcast_eq {data : Batch} {order : List HashKey} (visits : IterationOrder data order) :
    broadcast data order = data := by
  apply Finmap.ext_lookup
  intro k
  rw [lookup_broadcast]
  split
  · rfl
  · rename_i absent
    exact (Finmap.lookup_eq_none.mpr fun member => absent ((visits.2 k).mpr member)).symm

end SignalAgent.Telemetry.CollectorTimeseries
