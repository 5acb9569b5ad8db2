/- MID: SignalAgent/Index/MessageSize
   layer: results
   source: components/edgecontroller/timeseries_processor.go,
     components/edgecontroller/extension.go
   digest: Which caches keep every index message within the stream's size limit. -/

import Mathlib.Algebra.Group.Action.Defs
import Mathlib.Algebra.Order.BigOperators.Group.Finset
import SignalAgent.Control.QueryTunnel
import SignalAgent.Index.DiscoveredBatch
import SignalAgent.Index.IndexWire

set_option autoImplicit false
set_option relaxedAutoImplicit false

namespace SignalAgent.Index.MessageSize

open Control.QueryTunnel (maxMessageBytes)
open Foundations.GoMaps Foundations.GoText Foundations.ProtoWire
open DiscoveredBatch IndexSync IndexWire KnownCache

/-- Every message the processor loop can send from these caches is within the limit, whatever
order the scans visit the maps in and whatever the clock reads. -/
structure MessagesFit (caches : Caches) (correlationId : UInt64) : Prop where
  create : ∀ order, IterationOrder caches.discovered order →
    (encodeAgentMessage correlationId
      (createMessage (getBatch caches.discovered discoveredBatchSize order).1)).length ≤
        maxMessageBytes
  update : ∀ olderThan now order, IterationOrder caches.known order →
    (encodeAgentMessage correlationId (updateMessage
      (getActiveTimeseriesBatch caches.known olderThan knownBatchSize now order).items)).length ≤
        maxMessageBytes
  delete : ∀ now order, IterationOrder caches.known order →
    (encodeAgentMessage correlationId (deleteMessage
      (getInactiveTimeseriesBatch caches.known knownBatchSize now order).items)).length ≤
        maxMessageBytes

/-- The bytes of one label pair, by the lengths of its texts. -/
def labelSize (pair : LabelPair) : Nat :=
  bytesSize pair.name.length + bytesSize pair.value.length

/-- The bytes of one series with its sixteen-byte fingerprint, by the lengths of its texts. -/
def seriesSize (entry : TimeseriesEntry) : Nat :=
  18 + bytesSize entry.metricName.length +
    (entry.labels.map (fun pair => delimitedSize (labelSize pair))).sum

/-- The bytes a key of the cache adds to a create message. -/
def keySize (cache : DiscoveredTimeseriesCache) (key : HashKey) : Nat :=
  (cache.lookup key).elim 0 (fun entry => delimitedSize (seriesSize entry))

/-- The texts of any batch of discovered series stay below the limit by the correlation id and
five bytes of framing. -/
def TextsFit (cache : DiscoveredTimeseriesCache) (correlationId : UInt64) : Prop :=
  ∀ keys ⊆ cache.keys, keys.card ≤ discoveredBatchSize →
    uint64Size correlationId.toNat + 5 + ∑ key ∈ keys, keySize cache key ≤ maxMessageBytes

section Limit

private theorem within_iff (correlationId : UInt64) (message : IndexMessage) :
    (encodeAgentMessage correlationId message).length ≤ maxMessageBytes ↔
      uint64Size correlationId.toNat + 5 + (encodeBody message).length ≤ maxMessageBytes := by
  -- The limit is in the range where a body's length takes four bytes.
  have idSize : uint64Size correlationId.toNat ≤ 11 := uint64Size_le correlationId.toNat_lt
  have limit : maxMessageBytes = 16777216 := rfl
  have body : delimitedSize (encodeBody message).length ≤
      maxMessageBytes - uint64Size correlationId.toNat ↔
        (encodeBody message).length + 5 ≤ maxMessageBytes - uint64Size correlationId.toNat :=
    delimitedSize_le_iff (by omega) (by omega)
  rw [length_encodeAgentMessage]
  omega

private theorem within_of_small (correlationId : UInt64) {message : IndexMessage}
    {payloads : List (List UInt8)} (body : encodeBody message = repeatedField 1 payloads)
    (few : payloads.length ≤ 30000) (small : ∀ payload ∈ payloads, payload.length ≤ 40) :
    (encodeAgentMessage correlationId message).length ≤ maxMessageBytes := by
  have idSize : uint64Size correlationId.toNat ≤ 11 := uint64Size_le correlationId.toNat_lt
  have limit : maxMessageBytes = 16777216 := rfl
  have each : ∀ size ∈ payloads.map (fun payload => delimitedSize payload.length), size ≤ 42 := by
    intro size member
    obtain ⟨payload, listed, rfl⟩ := List.mem_map.mp member
    have short := small payload listed
    rw [delimitedSize_of_lt (by omega)]
    omega
  have total := List.sum_le_card_nsmul _ 42 each
  rw [List.length_map, smul_eq_mul] at total
  rw [within_iff, body, length_repeatedField (by omega)]
  omega

end Limit

section Known

variable (known : KnownTimeseriesCache)

private theorem bytesSize_hashKey (key : HashKey) : bytesSize key.bytes.length = 18 := by
  rw [key.length_eq, bytesSize, if_neg (by omega), delimitedSize_of_lt (by omega)]

private theorem update_within (correlationId : UInt64) (olderThan : Int) (now : Nat)
    {order : List HashKey} (visits : IterationOrder known order) :
    (encodeAgentMessage correlationId (updateMessage
      (getActiveTimeseriesBatch known olderThan knownBatchSize now order).items)).length ≤
        maxMessageBytes := by
  rw [getActiveTimeseriesBatch_items known olderThan knownBatchSize now order visits.1]
  apply within_of_small correlationId rfl
  · rw [List.length_map, List.length_map]
    exact List.length_take_le _ _
  · intro payload member
    obtain ⟨series, listed, rfl⟩ := List.mem_map.mp member
    obtain ⟨item, -, rfl⟩ := List.mem_map.mp listed
    have size := length_encodeActiveSeries_le
      ⟨item.hashKey.bytes, item.totalSamples, item.lastUpdate⟩
    rw [bytesSize_hashKey] at size
    exact size

private theorem delete_within (correlationId : UInt64) (now : Nat) {order : List HashKey}
    (visits : IterationOrder known order) :
    (encodeAgentMessage correlationId (deleteMessage
      (getInactiveTimeseriesBatch known knownBatchSize now order).items)).length ≤
        maxMessageBytes := by
  rw [getInactiveTimeseriesBatch_items known knownBatchSize now order visits.1]
  apply within_of_small correlationId rfl
  · rw [List.length_map]
    exact List.length_take_le _ _
  · intro payload member
    obtain ⟨key, -, rfl⟩ := List.mem_map.mp member
    rw [key.length_eq]
    omega

end Known

section Discovered

variable (cache : DiscoveredTimeseriesCache)

private theorem length_wireSeries (row : HashKey × TimeseriesEntry) :
    (encodeDiscoveredSeries (wireSeries row)).length = seriesSize row.2 := by
  rw [length_encodeDiscoveredSeries, wireSeries, seriesSize]
  dsimp only
  rw [bytesSize_hashKey, List.map_map]
  congr 3
  funext pair
  rw [Function.comp_apply, length_encodeLabel]
  rfl

private theorem length_createBody {order : List HashKey} (visits : IterationOrder cache order)
    (n : Nat) :
    (encodeBody (createMessage (getBatch cache n order).1)).length =
      ∑ key ∈ (order.take n).toFinset, keySize cache key := by
  have distinct : (order.take n).Nodup := visits.1.sublist (List.take_sublist n order)
  have message : createMessage (getBatch cache n order).1 =
      .indexCreate ((batchEntries cache n order).map wireSeries) := createMessage_rows _
  have sizes : (batchEntries cache n order).map (fun row => delimitedSize (seriesSize row.2)) =
      (batchEntries cache n order).map (fun row => keySize cache row.1) := by
    apply List.map_congr_left
    intro row member
    rw [keySize, batchEntries_lookup member]
    rfl
  rw [List.sum_toFinset _ distinct, ← batchEntries_keys visits n, message, encodeBody,
    length_repeatedField (by omega), List.map_map, List.map_map, List.map_map]
  simp only [Function.comp_def, length_wireSeries]
  rw [sizes]

private theorem create_within_iff (correlationId : UInt64) :
    (∀ order, IterationOrder cache order →
      (encodeAgentMessage correlationId
        (createMessage (getBatch cache discoveredBatchSize order).1)).length ≤ maxMessageBytes) ↔
      TextsFit cache correlationId := by
  constructor
  · intro within keys known few
    obtain ⟨order, visits, front⟩ := exists_iterationOrder_from known
    have short : keys.toList.length ≤ discoveredBatchSize := by rwa [Finset.length_toList]
    have visited : keys ⊆ (order.take discoveredBatchSize).toFinset := by
      intro key member
      have reached := List.prefix_take_iff.mpr ⟨front, short⟩
      exact List.mem_toFinset.mpr (reached.subset (Finset.mem_toList.mpr member))
    have sums := Finset.sum_le_sum_of_subset (f := keySize cache) visited
    have message := (within_iff _ _).mp (within order visits)
    rw [length_createBody cache visits] at message
    omega
  · intro texts order visits
    rw [within_iff, length_createBody cache visits]
    apply texts
    · intro key member
      have listed := List.mem_of_mem_take (List.mem_toFinset.mp member)
      exact Finmap.mem_keys.mpr ((visits.2 key).mp listed)
    · exact (List.toFinset_card_le _).trans (List.length_take_le _ _)

end Discovered

/-- Index messages stay within the stream's limit exactly when the texts of every batch of
discovered series do; the known cache never matters. -/
theorem messagesFit_iff (caches : Caches) (correlationId : UInt64) :
    MessagesFit caches correlationId ↔ TextsFit caches.discovered correlationId := by
  constructor
  · intro fit
    exact (create_within_iff caches.discovered correlationId).mp fit.create
  · intro texts
    refine ⟨(create_within_iff caches.discovered correlationId).mpr texts, ?_, ?_⟩
    · intro olderThan now order visits
      exact update_within caches.known correlationId olderThan now visits
    · intro now order visits
      exact delete_within caches.known correlationId now visits

section Crowded

/-- A series whose one label holds a text of that many bytes. -/
def statementSeries (bytes : Nat) : TimeseriesEntry :=
  ⟨lit "db_query_seconds", [⟨lit "statement", List.replicate bytes 0x61⟩], 1⟩

/-- The key that starts with the two bytes of a number. -/
def numberedKey (i : Nat) : HashKey :=
  ⟨UInt8.ofNat (i / 256) :: UInt8.ofNat (i % 256) :: List.replicate 14 0, by
    rw [List.length_cons, List.length_cons, List.length_replicate]⟩

/-- A discovered cache of `n` such series. -/
def statementCache (bytes : Nat) : Nat → DiscoveredTimeseriesCache
  | 0 => ∅
  | n + 1 => (statementCache bytes n).insert (numberedKey n) (statementSeries bytes)

private theorem numberedKey_injOn {n : Nat} (few : n ≤ 65536) :
    Set.InjOn numberedKey (Finset.range n) := by
  intro i low j high same
  have bytes := congrArg HashKey.bytes same
  simp only [numberedKey, List.cons.injEq, and_true] at bytes
  have first := congrArg UInt8.toNat bytes.1
  have second := congrArg UInt8.toNat bytes.2
  rw [UInt8.toNat_ofNat', UInt8.toNat_ofNat'] at first second
  simp only [Finset.coe_range, Set.mem_Iio] at low high
  omega

private theorem lookup_statementCache {bytes i n : Nat} (below : i < n) :
    (statementCache bytes n).lookup (numberedKey i) = some (statementSeries bytes) := by
  induction n with
  | zero => omega
  | succ n ih =>
    rw [statementCache]
    by_cases last : numberedKey i = numberedKey n
    · rw [last, Finmap.lookup_insert]
    · have other : i ≠ n := fun same => last (congrArg numberedKey same)
      rw [Finmap.lookup_insert_of_ne _ last]
      exact ih (by omega)

private theorem le_seriesSize (bytes : Nat) : bytes ≤ seriesSize (statementSeries bytes) := by
  have value := le_bytesSize bytes
  have label := le_delimitedSize (bytesSize (lit "statement").length + bytesSize bytes)
  have size : seriesSize (statementSeries bytes) =
      18 + bytesSize (lit "db_query_seconds").length +
        (delimitedSize (bytesSize (lit "statement").length + bytesSize bytes) + 0) := by
    rw [seriesSize, statementSeries, List.map_singleton, List.sum_singleton, labelSize,
      List.length_replicate, Nat.add_zero]
  omega

private theorem statements_le {bytes n : Nat} {correlationId : UInt64}
    (few : n ≤ discoveredBatchSize)
    (fit : MessagesFit ⟨statementCache bytes n, ∅⟩ correlationId) :
    n * bytes ≤ maxMessageBytes := by
  have texts : TextsFit (statementCache bytes n) correlationId :=
    (create_within_iff _ correlationId).mp fit.create
  have sizes : ∀ i ∈ Finset.range n, bytes ≤ keySize (statementCache bytes n) (numberedKey i) := by
    intro i member
    rw [keySize, lookup_statementCache (Finset.mem_range.mp member)]
    exact (le_seriesSize bytes).trans (le_delimitedSize _)
  have total := Finset.card_nsmul_le_sum _ _ _ sizes
  rw [Finset.card_range, smul_eq_mul] at total
  have known : (Finset.range n).image numberedKey ⊆ (statementCache bytes n).keys := by
    intro key member
    obtain ⟨i, below, rfl⟩ := Finset.mem_image.mp member
    exact Finmap.mem_keys.mpr
      (mem_of_lookup (lookup_statementCache (Finset.mem_range.mp below)))
  have card : ((Finset.range n).image numberedKey).card ≤ discoveredBatchSize := by
    calc ((Finset.range n).image numberedKey).card ≤ (Finset.range n).card := Finset.card_image_le
      _ = n := Finset.card_range n
      _ ≤ discoveredBatchSize := few
  have bound := texts _ known card
  have batch : discoveredBatchSize = 5000 := rfl
  rw [Finset.sum_image (numberedKey_injOn (by omega))] at bound
  omega

theorem statements_exceed_limit : ¬ MessagesFit ⟨statementCache 4096 5000, ∅⟩ 1 := by
  intro fit
  have batch : discoveredBatchSize = 5000 := rfl
  have bound := statements_le batch.ge fit
  have limit : maxMessageBytes = 16777216 := rfl
  omega

end Crowded

end SignalAgent.Index.MessageSize
