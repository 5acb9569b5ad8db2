/- MID: SignalAgent/Index/SendableSeries
   layer: results
   source: components/metricstracker/collector_timeseries.go,
     components/edgecontroller/extension.go, components/edgecontroller/timeseries_processor.go
   digest: From a metrics batch to its create message: when every text on the wire is valid. -/

import SignalAgent.Index.DiscoveredBatch
import SignalAgent.Index.IndexWorld
import SignalAgent.Telemetry.BatchAccounting
import SignalAgent.Telemetry.SeriesTexts

set_option autoImplicit false
set_option relaxedAutoImplicit false

namespace SignalAgent.Index.SendableSeries

open Foundations.GoMaps Foundations.GoText Foundations.Utf8
open DiscoveredBatch IndexSync KnownCache
open IndexWorld (World)
open Telemetry.BatchAccounting Telemetry.CollectorTimeseries Telemetry.Pdata
open Telemetry.SeriesLabels Telemetry.SeriesTexts Telemetry.SeriesTracker

/-- `ReceiveTimeseriesBatch` without interruption; `order` is the order in which the batch is
visited and `clock` what `UpdateTimeseries` reads for each key. -/
def receiveTimeseriesBatch (batch : GoMap HashKey TimeseriesEntry) (clock : HashKey → Nat)
    (order : List HashKey) (w : World) : World :=
  order.foldl (fun w key =>
    match batch.lookup key with
    | some entry => w.intakeWhole key entry (clock key)
    | none => w) w

/-- The discovered entries that result from a batch on an agent that knows these series. -/
def discoveredFrom (batch : GoMap HashKey TimeseriesEntry) (known : KnownTimeseriesCache)
    (clock : HashKey → Nat) (order : List HashKey) : DiscoveredTimeseriesCache :=
  (receiveTimeseriesBatch batch clock order { World.initial with known := known }).discovered

/-- The `string` fields of a message. -/
def texts : IndexMessage → List GoString
  | .indexCreate series => series.flatMap (fun s =>
      s.metricName :: s.labels.flatMap (fun label => [label.name, label.value]))
  | .indexUpdate _ | .indexDelete _ => []

/-- Whatever is known already, every create message of the series discovered in a tracked batch
has valid texts only. -/
def Sendable {F : Fingerprinting} {P : Platform} {md : Metrics} (run : ConsumeMetrics F P md) :
    Prop :=
  ∀ known clock order, IterationOrder run.batch order →
    ∀ scan, IterationOrder (discoveredFrom run.batch known clock order) scan →
      ∀ text ∈ texts (createMessage
        (getBatch (discoveredFrom run.batch known clock order) discoveredBatchSize scan).1),
          Valid text

section Firsts

variable {α β κ : Type}

/-- The property holds of the first element of each key. -/
def OnFirsts (key : α → κ) (p : α → Prop) (l : List α) : Prop :=
  ∀ before a after, l = before ++ a :: after → (∀ b ∈ before, key b ≠ key a) → p a

theorem onFirsts_map (key : α → κ) (p : α → Prop) (f : β → α) (l : List β) :
    OnFirsts key p (l.map f) ↔ OnFirsts (fun b => key (f b)) (fun b => p (f b)) l := by
  constructor
  · rintro firsts before b after rfl fresh
    apply firsts (before.map f) (f b) (after.map f)
    · rw [List.map_append, List.map_cons]
    · intro a member
      obtain ⟨c, earlier, rfl⟩ := List.mem_map.mp member
      exact fresh c earlier
  · intro firsts before a after split fresh
    obtain ⟨front, back, rfl, rfl, mapped⟩ := List.map_eq_append_iff.mp split
    obtain ⟨b, rest, rfl, rfl, -⟩ := List.map_eq_cons_iff.mp mapped
    exact firsts front b rest rfl (fun c member => fresh (f c) (List.mem_map_of_mem member))

theorem onFirsts_congr {key : α → κ} {p p' : α → Prop} (same : ∀ a, p a ↔ p' a) (l : List α) :
    OnFirsts key p l ↔ OnFirsts key p' l := by
  unfold OnFirsts
  simp only [same]

end Firsts

/-- The key a series is entered under. -/
noncomputable def seriesKey (F : Fingerprinting) (s : Series) : HashKey :=
  hashKeyOf F (fingerprintOf F s)

/-- Of all series of the batch that share a key, the first one has clean texts; the others are
only counted. -/
def CleanFirsts (F : Fingerprinting) (P : Platform) (md : Metrics) : Prop :=
  OnFirsts (fun q => seriesKey F (partSeries P q)) (CleanPart P) (batchParts md)

def ValidEntry (entry : TimeseriesEntry) : Prop :=
  Valid entry.metricName ∧ ∀ pair ∈ entry.labels, Valid pair.name ∧ Valid pair.value

def ValidEntries (cache : GoMap HashKey TimeseriesEntry) : Prop :=
  ∀ key entry, cache.lookup key = some entry → ValidEntry entry

section Tracking

variable (F : Fingerprinting)

private theorem validEntry_entryOf (call : AddCall) (samples : Nat) :
    ValidEntry (entryOf call samples) ↔ ValidSeries call.series := by
  refine and_congr Iff.rfl ?_
  constructor
  · intro pairs name value found
    exact pairs ⟨name, value⟩ ((mem_extractSortedLabelPairs call.visitsPairs name value).mpr found)
  · intro labels pair member
    exact labels pair.name pair.value
      ((mem_extractSortedLabelPairs call.visitsPairs pair.name pair.value).mp member)

private theorem validEntries_trackMetrics (calls : List AddCall) :
    ValidEntries (trackMetrics F calls) ↔
      OnFirsts (seriesKey F) ValidSeries (calls.map AddCall.series) := by
  rw [onFirsts_map]
  constructor
  · rintro valid before call after rfl fresh
    have first : (before ++ call :: after).find? (fun c => callKey F c = callKey F call) =
        some call := by
      rw [List.find?_append, List.find?_eq_none.mpr, Option.none_or, List.find?_cons_of_pos]
      · exact decide_eq_true rfl
      · intro c member same
        have keys : callKey F c = callKey F call := of_decide_eq_true same
        rw [callKey_eq, callKey_eq] at keys
        exact fresh c member keys
    have entered := lookup_trackMetrics F (before ++ call :: after) (callKey F call)
    rw [first, Option.map_some] at entered
    exact (validEntry_entryOf call _).mp (valid _ _ entered)
  · intro firsts key entry found
    rw [lookup_trackMetrics] at found
    obtain ⟨call, stands, rfl⟩ := Option.map_eq_some_iff.mp found
    obtain ⟨keyed, before, after, split, fresh⟩ := List.find?_eq_some_iff_append.mp stands
    apply (validEntry_entryOf call _).mpr
    apply firsts before call after split
    intro c member same
    have keys : callKey F c = key := by
      rw [callKey_eq, ← of_decide_eq_true keyed, callKey_eq]
      exact same
    have different := fresh c member
    simp [keys] at different

end Tracking

section Receiving

variable {batch : GoMap HashKey TimeseriesEntry} {clock : HashKey → Nat}

private theorem lookup_intakeWhole (w : World) (key k : HashKey) (entry : TimeseriesEntry)
    (now : Nat) :
    (w.intakeWhole key entry now).discovered.lookup k =
      if k = key ∧ key ∉ w.known then some entry else w.discovered.lookup k := by
  unfold World.intakeWhole isTimeseriesKnown
  by_cases known : key ∈ w.known
  · simp [known]
  · simp [known, lookup_insert_eq]

private theorem lookup_receiveTimeseriesBatch {order : List HashKey} (distinct : order.Nodup)
    (w : World) (k : HashKey) :
    (receiveTimeseriesBatch batch clock order w).discovered.lookup k =
      if k ∈ order ∧ k ∈ batch ∧ k ∉ w.known then batch.lookup k else w.discovered.lookup k := by
  induction order generalizing w with
  | nil => simp [receiveTimeseriesBatch]
  | cons key order ih =>
    obtain ⟨new, distinct⟩ := List.nodup_cons.mp distinct
    have step := fun w => ih distinct w
    rw [receiveTimeseriesBatch, List.foldl_cons, ← receiveTimeseriesBatch]
    cases found : batch.lookup key with
    | none =>
      have absent : key ∉ batch := Finmap.lookup_eq_none.mp found
      rw [step]
      by_cases same : k = key
      · simp [same, absent]
      · simp [same]
    | some entry =>
      dsimp only
      rw [step, lookup_intakeWhole]
      by_cases same : k = key
      · subst same
        simp [new, mem_of_lookup found, found]
      · simp [same]

private theorem discoveredFrom_empty {order : List HashKey} (visits : IterationOrder batch order) :
    discoveredFrom batch ∅ clock order = batch := by
  apply Finmap.ext_lookup
  intro k
  rw [discoveredFrom, lookup_receiveTimeseriesBatch visits.1]
  by_cases member : k ∈ batch
  · exact if_pos ⟨(visits.2 k).mpr member, member, Finmap.notMem_empty⟩
  · rw [if_neg (fun all => member all.2.1), Finmap.lookup_eq_none.mpr member]
    rfl

private theorem lookup_of_discoveredFrom {order : List HashKey} (distinct : order.Nodup)
    {known : KnownTimeseriesCache} {k : HashKey} {entry : TimeseriesEntry}
    (found : (discoveredFrom batch known clock order).lookup k = some entry) :
    batch.lookup k = some entry := by
  rw [discoveredFrom, lookup_receiveTimeseriesBatch distinct] at found
  split at found
  · exact found
  · simp [World.initial] at found

end Receiving

section Messages

private theorem forall_seriesTexts_iff (row : HashKey × TimeseriesEntry) :
    (∀ text ∈ (wireSeries row).metricName ::
      (wireSeries row).labels.flatMap (fun label => [label.name, label.value]), Valid text) ↔
        ValidEntry row.2 := by
  rw [List.forall_mem_cons]
  refine and_congr Iff.rfl ?_
  constructor
  · intro valid pair member
    have listed : wireLabel pair ∈ (wireSeries row).labels := List.mem_map_of_mem member
    constructor
    · exact valid pair.name (List.mem_flatMap.mpr ⟨_, listed, by simp [wireLabel]⟩)
    · exact valid pair.value (List.mem_flatMap.mpr ⟨_, listed, by simp [wireLabel]⟩)
  · intro valid text member
    obtain ⟨label, listed, shown⟩ := List.mem_flatMap.mp member
    obtain ⟨pair, present, rfl⟩ := List.mem_map.mp listed
    rcases List.mem_cons.mp shown with rfl | shown
    · exact (valid pair present).1
    · rw [List.mem_singleton.mp shown]
      exact (valid pair present).2

private theorem forall_texts_iff (rows : List (HashKey × TimeseriesEntry)) :
    (∀ text ∈ texts (createMessage (rows.map discoveredItem)), Valid text) ↔
      ∀ row ∈ rows, ValidEntry row.2 := by
  rw [createMessage_rows, texts, List.flatMap_map]
  simp only [List.mem_flatMap, forall_exists_index, and_imp, ← forall_seriesTexts_iff]
  exact forall_comm.trans (forall_congr' fun row => forall_comm)

private theorem messages_valid_iff (cache : DiscoveredTimeseriesCache) :
    (∀ scan, IterationOrder cache scan →
      ∀ text ∈ texts (createMessage (getBatch cache discoveredBatchSize scan).1), Valid text) ↔
        ValidEntries cache := by
  -- Every entry of the cache is in some batch.
  have message (scan : List HashKey) :=
    forall_texts_iff (batchEntries cache discoveredBatchSize scan)
  constructor
  · intro valid key entry found
    have known : ({key} : Finset HashKey) ⊆ cache.keys :=
      Finset.singleton_subset_iff.mpr (Finmap.mem_keys.mpr (mem_of_lookup found))
    obtain ⟨scan, visits, front⟩ := exists_iterationOrder_from known
    have reached : key ∈ scan.take discoveredBatchSize := by
      have short : ({key} : Finset HashKey).toList.length ≤ discoveredBatchSize := by
        rw [Finset.length_toList, Finset.card_singleton, discoveredBatchSize]
        omega
      exact (List.prefix_take_iff.mpr ⟨front, short⟩).subset (by simp)
    rw [← batchEntries_keys visits discoveredBatchSize] at reached
    obtain ⟨row, listed, rfl⟩ := List.mem_map.mp reached
    have entered := batchEntries_lookup listed
    rw [found] at entered
    obtain rfl := Option.some.inj entered
    exact (message scan).mp (valid scan visits) row listed
  · intro valid scan visits
    exact (message scan).mpr (fun row listed => valid row.1 row.2 (batchEntries_lookup listed))

end Messages

section Results

variable {F : Fingerprinting} {P : Platform} {md : Metrics}

private theorem sendable_iff_firsts (run : ConsumeMetrics F P md) :
    Sendable run ↔ OnFirsts (seriesKey F) ValidSeries (processBatch P md) := by
  have tracked : ValidEntries run.batch ↔
      OnFirsts (seriesKey F) ValidSeries (processBatch P md) := by
    rw [ConsumeMetrics.batch, broadcast_eq run.visitsBatch, validEntries_trackMetrics,
      run.calls_eq]
  rw [← tracked]
  constructor
  · intro sendable
    have visits := iterationOrder_keys run.batch
    have valid := sendable ∅ (fun _ => 0) _ visits
    rw [discoveredFrom_empty visits] at valid
    exact (messages_valid_iff run.batch).mp valid
  · intro valid known clock order visits
    apply (messages_valid_iff _).mpr
    intro key entry found
    exact valid key entry (lookup_of_discoveredFrom visits.1 found)

/-- Every series discovered in a batch can be put on the wire exactly when the first series of
each key has clean texts. -/
theorem sendable_iff (writes : WritesValid P) (run : ConsumeMetrics F P md) :
    Sendable run ↔ CleanFirsts F P md := by
  rw [sendable_iff_firsts, processBatch_eq_parts, onFirsts_map]
  exact onFirsts_congr (validSeries_iff writes) _

theorem exists_run (F : Fingerprinting) (P : Platform) (md : Metrics) :
    Nonempty (ConsumeMetrics F P md) := by
  have calls : ((processBatch P md).map (fun s => (⟨s, s.labels.keys.toList, s.labels.keys.toList,
      iterationOrder_keys s.labels, iterationOrder_keys s.labels⟩ : AddCall))).map AddCall.series =
        processBatch P md := by
    rw [List.map_map]
    exact List.map_id _
  exact ⟨⟨_, calls, _, iterationOrder_keys _⟩⟩

end Results

/-- A platform whose namer accepts every name. -/
def namingPlatform : Platform := { plainPlatform with buildName := fun _ _ _ => some (lit "up") }

/-- A gauge with one attribute of this text. -/
def gaugeWith (text : GoString) : Metrics := gauges [(lit "up", [[(lit "k", .string text)]])]

private theorem batchParts_gaugeWith (text : GoString) :
    batchParts (gaugeWith text) = [(⟨[], [], ⟨lit "up", [], .gauge⟩,
      (⟨[(lit "k", .string text)], []⟩ : NumberDataPoint)⟩, .whole)] := rfl

theorem accented_value_sendable :
    ∃ run : ConsumeMetrics byLength namingPlatform (gaugeWith (lit "é")), Sendable run := by
  obtain ⟨run⟩ := exists_run byLength namingPlatform (gaugeWith (lit "é"))
  have writes : WritesValid namingPlatform := by
    refine ⟨?_, fun bits => by show Valid (lit "1"); decide⟩
    intro name unit type built named
    obtain rfl := Option.some.inj named
    decide
  refine ⟨run, (sendable_iff writes run).mpr ?_⟩
  intro before q after split fresh
  have member : q ∈ batchParts (gaugeWith (lit "é")) := by simp [split]
  rw [batchParts_gaugeWith] at member
  obtain rfl := List.mem_singleton.mp member
  refine ⟨fun refused => absurd refused (Option.some_ne_none _), ?_, fun _ => .nil, fun _ => .nil⟩
  rintro kv ⟨front, back, whole, -⟩ -
  have listed : kv ∈ [(lit "k", Value.string (lit "é"))] := by
    have attrs : [(lit "k", Value.string (lit "é"))] = front ++ kv :: back := whole
    simp [attrs]
  obtain rfl := List.mem_singleton.mp listed
  show Valid (lit "é")
  decide

theorem invalid_value_not_sendable :
    ¬ Valid [0xFF] ∧ ∀ (F : Fingerprinting) (P : Platform),
      Nonempty (ConsumeMetrics F P (gaugeWith [0xFF])) ∧
        ∀ run : ConsumeMetrics F P (gaugeWith [0xFF]), ¬ Sendable run := by
  have broken : ¬ Valid [0xFF] := by decide
  refine ⟨broken, fun F P => ⟨exists_run F P _, fun run sendable => ?_⟩⟩
  have firsts := (sendable_iff_firsts run).mp sendable
  have single : processBatch P (gaugeWith [0xFF]) =
      [processPromSeries P.toGoRuntime (baseName P ⟨lit "up", [], .gauge⟩) []
        [(lit "k", .string [0xFF])] []] := rfl
  rw [single] at firsts
  have valid := (firsts [] _ [] rfl (by simp)).2 (lit "k") [0xFF] rfl
  exact broken valid.2

end SignalAgent.Index.SendableSeries
