/- MID: SignalAgent/Telemetry/BatchAccounting
   layer: results
   source: components/metricstracker/processor.go,
     components/metricstracker/collector_timeseries.go
   digest: When a broadcast batch holds one entry per series with the number of its points. -/

import SignalAgent.Telemetry.SeriesIdentity

set_option autoImplicit false
set_option relaxedAutoImplicit false

namespace SignalAgent.Telemetry.BatchAccounting

open Foundations.GoMaps Foundations.GoText
open Index.KnownCache (HashKey LabelPair TimeseriesEntry)
open CollectorTimeseries Pdata SeriesIdentity SeriesLabels SeriesTracker

deriving instance DecidableEq for Series

section Run

variable (F : Fingerprinting)

/-- The key of a call. -/
def callKey (call : AddCall) : HashKey :=
  hashKeyOf F (buildFingerprintString F call.series.name call.series.labels call.fingerprintOrder)

/-- The entry that calls with one key leave: the first of them names it. -/
def entryOf (call : AddCall) (samples : Nat) : TimeseriesEntry :=
  ⟨call.series.name, extractSortedLabelPairs call.series.labels call.pairsOrder, samples⟩

private theorem addTimeseries_call (data : Batch) (call : AddCall) (key : HashKey) :
    (addTimeseries F data call.series.name call.series.labels call.fingerprintOrder
      call.pairsOrder).lookup key =
      if key = callKey F call then
        some (match data.lookup key with
          | some entry => { entry with samples := entry.samples + 1 }
          | none => entryOf call 1)
      else data.lookup key := by
  have unfolded : addTimeseries F data call.series.name call.series.labels call.fingerprintOrder
      call.pairsOrder = match data.lookup (callKey F call) with
        | some entry => data.insert (callKey F call) { entry with samples := entry.samples + 1 }
        | none => data.insert (callKey F call) (entryOf call 1) := rfl
  rw [unfolded]
  by_cases same : key = callKey F call
  · subst same
    cases data.lookup (callKey F call) <;> simp
  · cases data.lookup (callKey F call) <;> simp [same]

theorem lookup_trackMetrics (calls : List AddCall) (key : HashKey) :
    (trackMetrics F calls).lookup key =
      (calls.find? (fun call => callKey F call = key)).map
        (fun first => entryOf first (calls.countP (fun call => callKey F call = key))) := by
  induction calls using List.reverseRecOn with
  | nil => simp [trackMetrics]
  | append_singleton calls last ih =>
    have unfolded : trackMetrics F (calls ++ [last]) =
        addTimeseries F (trackMetrics F calls) last.series.name last.series.labels
          last.fingerprintOrder last.pairsOrder := by
      simp only [trackMetrics, List.foldl_append, List.foldl_cons, List.foldl_nil]
    rw [unfolded, addTimeseries_call, ih, List.find?_append, List.countP_append]
    by_cases same : key = callKey F last
    · subst same
      cases found : calls.find? (fun call => callKey F call = callKey F last) with
      | some first => simp [entryOf]
      | none =>
        have never : calls.countP (fun call => callKey F call = callKey F last) = 0 := by
          rw [List.countP_eq_zero]
          exact List.find?_eq_none.mp found
        simp [never]
    · have different : callKey F last ≠ key := fun equal => same equal.symm
      simp [same, different]

/-- The fingerprint text of a series: every order of iteration gives this one. -/
noncomputable def fingerprintOf (s : Series) : GoString :=
  buildFingerprintString F s.name s.labels s.labels.keys.toList

theorem fingerprintOf_eq (s : Series) {order : List GoString}
    (visits : IterationOrder s.labels order) :
    buildFingerprintString F s.name s.labels order = fingerprintOf F s :=
  buildFingerprintString_order F visits (iterationOrder_keys s.labels)

theorem callKey_eq (call : AddCall) :
    callKey F call = hashKeyOf F (fingerprintOf F call.series) := by
  rw [callKey, fingerprintOf_eq F call.series call.visitsFingerprint]

end Run

section Labels

private theorem plain_insert {labels : LabelMap} {name value : GoString}
    (plain : ∀ k ∈ labels, Plain k) (new : Plain name) :
    ∀ k ∈ labels.insert name value, Plain k := by
  intro k member
  rcases Finmap.mem_insert.mp member with rfl | old
  · exact new
  · exact plain k old

private theorem plain_foldl_insert {α : Type} (R : GoRuntime) (name value : α → GoString)
    (items : List α) {labels : LabelMap} (plain : ∀ k ∈ labels, Plain k) :
    ∀ k ∈ items.foldl (fun labels item =>
      labels.insert (normalizeLabelName R (name item)) (value item)) labels, Plain k := by
  induction items generalizing labels with
  | nil => exact plain
  | cons item items ih => exact ih (plain_insert plain (plain_normalizeLabelName R (name item)))

private theorem plain_putAbsent {labels : LabelMap} {name value : GoString}
    (plain : ∀ k ∈ labels, Plain k) (new : Plain name) :
    ∀ k ∈ putAbsent labels name value, Plain k := by
  unfold putAbsent
  split
  · exact plain
  · split
    · exact plain
    · exact plain_insert plain new

private theorem plain_buildSeriesLabels (R : GoRuntime) (resAttrs pointAttrs : Attributes)
    (extraLabels : List (GoString × GoString)) :
    ∀ k ∈ buildSeriesLabels R resAttrs pointAttrs extraLabels, Plain k := by
  have none : ∀ k ∈ (∅ : LabelMap), Plain k := fun k member => absurd member Finmap.notMem_empty
  have resource : ∀ k ∈ putAttributes R ∅ resAttrs, Plain k :=
    plain_foldl_insert R Prod.fst (fun kv : GoString × Value => kv.2.asString) resAttrs none
  have point : ∀ k ∈ putAttributes R (putAttributes R ∅ resAttrs) pointAttrs, Plain k :=
    plain_foldl_insert R Prod.fst (fun kv : GoString × Value => kv.2.asString) pointAttrs resource
  have names : Plain (lit "job") ∧ Plain (lit "instance") := by
    simp only [Plain]
    decide
  exact plain_foldl_insert R Prod.fst Prod.snd extraLabels
    (plain_putAbsent (plain_putAbsent point names.1) names.2)

private theorem exists_processPromSeries {P : Platform} {base : GoString} {resAttrs : Attributes}
    {kind : MetricKind} {dp : kind.Point} {s : Series}
    (member : s ∈ pointSeries P base resAttrs kind dp) :
    ∃ name pointAttrs extraLabels,
      s = processPromSeries P.toGoRuntime name resAttrs pointAttrs extraLabels := by
  cases kind with
  | empty => exact nomatch dp
  | gauge => exact ⟨_, _, _, List.mem_singleton.mp member⟩
  | sum monotonic temporality => exact ⟨_, _, _, List.mem_singleton.mp member⟩
  | exponentialHistogram => exact ⟨_, _, _, List.mem_singleton.mp member⟩
  | histogram =>
    simp only [pointSeries, histogramSeries, List.mem_append, List.mem_map, List.mem_singleton]
      at member
    rcases member with ((⟨bound, -, rfl⟩ | rfl) | sum) | rfl
    · exact ⟨_, _, _, rfl⟩
    · exact ⟨_, _, _, rfl⟩
    · split at sum
      · exact ⟨_, _, _, List.mem_singleton.mp sum⟩
      · exact absurd sum List.not_mem_nil
    · exact ⟨_, _, _, rfl⟩
  | summary =>
    simp only [pointSeries, summarySeries, List.mem_append, List.mem_map, List.mem_cons,
      List.not_mem_nil, or_false] at member
    rcases member with ⟨quantile, -, rfl⟩ | rfl | rfl <;> exact ⟨_, _, _, rfl⟩

/-- The series that a batch expands to: those of every datapoint, wherever it is located. -/
def expanded (P : Platform) (md : Metrics) : List Series := (located md).flatMap (seriesOf P)

private theorem plain_expanded {P : Platform} {md : Metrics} {s : Series}
    (member : s ∈ expanded P md) : ∀ k ∈ s.labels, Plain k := by
  obtain ⟨p, -, produced⟩ := List.mem_flatMap.mp member
  obtain ⟨name, pointAttrs, extraLabels, rfl⟩ := exists_processPromSeries produced
  exact plain_buildSeriesLabels P.toGoRuntime p.resource pointAttrs extraLabels

end Labels

/-- An entry stands for a series: its name and exactly its labels. -/
def Represents (entry : TimeseriesEntry) (s : Series) : Prop :=
  entry.metricName = s.name ∧
    ∀ name value, ⟨name, value⟩ ∈ entry.labels ↔ s.labels.lookup name = some value

/-- One entry per distinct series and nothing else; each entry counts its series, has its labels
strictly sorted and its text is the text it is keyed by. -/
structure Accounts (F : Fingerprinting) (series : List Series) (batch : Batch) : Prop where
  once : ∀ s ∈ series, ∃! key, ∃ entry, batch.lookup key = some entry ∧ Represents entry s
  counted : ∀ key entry, batch.lookup key = some entry →
    ∃ s ∈ series, Represents entry s ∧ entry.samples = series.count s ∧
      key = hashKeyOf F (fingerprintOf F s) ∧
      buildFingerprintFromEntry F entry = fingerprintOf F s
  sorted : ∀ key entry, batch.lookup key = some entry →
    entry.labels.Pairwise (fun a b => a.name < b.name)

/-- No series without labels is called by the text of a series that has labels. -/
def NamedApart (F : Fingerprinting) (series : List Series) : Prop :=
  ∀ s ∈ series, ∀ t ∈ series, s.labels = ∅ → t.labels ≠ ∅ → s.name ≠ fingerprintOf F t

private theorem eq_of_represents {entry : TimeseriesEntry} {s t : Series}
    (first : Represents entry s) (second : Represents entry t) : s = t := by
  have labels : s.labels = t.labels := by
    apply Finmap.ext_lookup
    intro name
    apply Option.ext
    intro value
    rw [← first.2, second.2]
  cases s
  cases t
  rw [Series.mk.injEq]
  exact ⟨first.1.symm.trans second.1, labels⟩

private theorem represents_entryOf (call : AddCall) (samples : Nat) :
    Represents (entryOf call samples) call.series :=
  ⟨rfl, mem_extractSortedLabelPairs call.visitsPairs⟩

variable {F : Fingerprinting}

private theorem fingerprintOf_unlabelled {s : Series} (empty : s.labels = ∅) :
    fingerprintOf F s = s.name := by
  rw [fingerprintOf, buildFingerprintString, if_pos empty]

private theorem eq_of_fingerprintOf {series : List Series}
    (plain : ∀ s ∈ series, ∀ k ∈ s.labels, Plain k) (apart : NamedApart F series) {s t : Series}
    (inside : s ∈ series) (inside' : t ∈ series) (same : fingerprintOf F s = fingerprintOf F t) :
    s = t := by
  by_cases empty : s.labels = ∅ <;> by_cases empty' : t.labels = ∅
  · rw [fingerprintOf_unlabelled empty, fingerprintOf_unlabelled empty'] at same
    cases s
    cases t
    rw [Series.mk.injEq]
    exact ⟨same, empty.trans empty'.symm⟩
  · rw [fingerprintOf_unlabelled empty] at same
    exact absurd same (apart s inside t inside' empty empty')
  · rw [fingerprintOf_unlabelled empty'] at same
    exact absurd same.symm (apart t inside' s inside empty' empty)
  · obtain ⟨names, labels⟩ := eq_of_buildFingerprintString F empty empty' (plain s inside)
      (plain t inside') (iterationOrder_keys s.labels) (iterationOrder_keys t.labels) same
    cases s
    cases t
    rw [Series.mk.injEq]
    exact ⟨names, labels⟩

private theorem exists_call_of_lookup {calls : List AddCall} {key : HashKey}
    {entry : TimeseriesEntry} (found : (trackMetrics F calls).lookup key = some entry) :
    ∃ first ∈ calls, callKey F first = key ∧
      entry = entryOf first (calls.countP (fun call => callKey F call = key)) := by
  rw [lookup_trackMetrics] at found
  obtain ⟨first, stands, rfl⟩ := Option.map_eq_some_iff.mp found
  have keyed := List.find?_some stands
  exact ⟨first, List.mem_of_find?_eq_some stands, of_decide_eq_true keyed, rfl⟩

private theorem exists_entry_of_mem {calls : List AddCall} {call : AddCall}
    (member : call ∈ calls) :
    ∃ first ∈ calls, callKey F first = callKey F call ∧ ∃ samples,
      (trackMetrics F calls).lookup (callKey F call) = some (entryOf first samples) := by
  cases stands : calls.find? (fun other => callKey F other = callKey F call) with
  | none => exact absurd rfl (of_decide_eq_false (Bool.eq_false_iff.mpr
      (List.find?_eq_none.mp stands call member)))
  | some first =>
    have keyed := List.find?_some stands
    refine ⟨first, List.mem_of_find?_eq_some stands, of_decide_eq_true keyed,
      calls.countP (fun other => callKey F other = callKey F call), ?_⟩
    rw [lookup_trackMetrics, stands, Option.map_some]

private theorem countP_callKey {calls : List AddCall} {first : AddCall} (inside : first ∈ calls)
    (apart : ∀ c ∈ calls, ∀ d ∈ calls, callKey F c = callKey F d → c.series = d.series) :
    calls.countP (fun call => callKey F call = callKey F first) =
      (calls.map AddCall.series).count first.series := by
  rw [List.count, List.countP_map]
  apply List.countP_congr
  intro call member
  simp only [decide_eq_true_eq, Function.comp_apply, beq_iff_eq]
  constructor
  · exact apart call member first inside
  · intro same
    rw [callKey_eq, callKey_eq, same]

private theorem accounts_of_keys_apart {calls : List AddCall}
    (apart : ∀ c ∈ calls, ∀ d ∈ calls, callKey F c = callKey F d → c.series = d.series) :
    Accounts F (calls.map AddCall.series) (trackMetrics F calls) := by
  refine ⟨?_, ?_, ?_⟩
  · intro s produced
    obtain ⟨call, member, rfl⟩ := List.mem_map.mp produced
    obtain ⟨first, inside, keyed, samples, found⟩ := exists_entry_of_mem (F := F) member
    have series := apart first inside call member keyed
    refine ⟨callKey F call, ⟨_, found, series ▸ represents_entryOf first samples⟩, ?_⟩
    rintro key ⟨entry, found', represents⟩
    obtain ⟨first', -, rfl, rfl⟩ := exists_call_of_lookup found'
    rw [callKey_eq, callKey_eq, eq_of_represents (represents_entryOf first' _) represents]
  · intro key entry found
    obtain ⟨first, inside, rfl, rfl⟩ := exists_call_of_lookup found
    refine ⟨first.series, List.mem_map_of_mem inside, represents_entryOf first _, ?_,
      callKey_eq F first, ?_⟩
    · exact congrArg Int.ofNat (countP_callKey inside apart)
    · rw [entryOf, buildFingerprintFromEntry_extract F _ first.visitsPairs,
        fingerprintOf_eq F first.series first.visitsPairs]
  · intro key entry found
    obtain ⟨first, -, -, rfl⟩ := exists_call_of_lookup found
    exact extractSortedLabelPairs_strict first.visitsPairs

private theorem namedApart_of_accounts {series : List Series} {batch : Batch}
    (accounts : Accounts F series batch) : NamedApart F series := by
  -- Two series with one text would be entered under one key.
  have keyed : ∀ s ∈ series, ∃ entry,
      batch.lookup (hashKeyOf F (fingerprintOf F s)) = some entry ∧ Represents entry s := by
    intro s member
    obtain ⟨key, ⟨entry, found, represents⟩, -⟩ := accounts.once s member
    obtain ⟨t, -, represents', -, rfl, -⟩ := accounts.counted key entry found
    obtain rfl := eq_of_represents represents represents'
    exact ⟨entry, found, represents⟩
  intro s member t member' empty full same
  obtain ⟨entry, found, represents⟩ := keyed s member
  obtain ⟨entry', found', represents'⟩ := keyed t member'
  rw [fingerprintOf_unlabelled empty, same, found'] at found
  obtain rfl := Option.some.inj found
  rw [eq_of_represents represents represents'] at empty
  exact full empty

/-- With a hash that does not collide on the texts of a batch, the broadcast batch has exactly one
entry per distinct series, with its number of points, if and only if no series without labels is
called by the text of another series of the batch. -/
theorem broadcast_accounts_iff (P : Platform) (F : Fingerprinting) (md : Metrics)
    (run : ConsumeMetrics F P md)
    (collisionFree : ∀ s ∈ expanded P md, ∀ t ∈ expanded P md,
      F.hash128 (fingerprintOf F s) = F.hash128 (fingerprintOf F t) →
        fingerprintOf F s = fingerprintOf F t) :
    Accounts F (expanded P md) run.batch ↔ NamedApart F (expanded P md) := by
  have series : run.calls.map AddCall.series = expanded P md := by
    rw [run.calls_eq, processBatch_eq, expanded]
  refine ⟨namedApart_of_accounts, fun apart => ?_⟩
  rw [ConsumeMetrics.batch, broadcast_eq run.visitsBatch, ← series]
  apply accounts_of_keys_apart
  intro c member d member' same
  have inside : c.series ∈ expanded P md := series ▸ List.mem_map_of_mem member
  have inside' : d.series ∈ expanded P md := series ▸ List.mem_map_of_mem member'
  rw [callKey_eq, callKey_eq] at same
  have texts := collisionFree _ inside _ inside' (hash128_eq_of_hashKeyOf F same)
  exact eq_of_fingerprintOf (fun s member => plain_expanded member) apart inside inside' texts

/-- A hash for evaluation, free of collisions on texts of different length. -/
def byLength : Fingerprinting := ⟨fun _ => true, fun text => (0, UInt64.ofNat text.length)⟩

/-- A platform whose namer refuses a name without letters and digits, as the translator does. -/
def refusingPlatform : Platform :=
  { plainPlatform with
    buildName := fun name _ _ =>
      if name.any (fun b => plainPlatform.isLetter b.toNat || plainPlatform.isDigit b.toNat) then
        some name
      else none }

/-- A batch of gauges under one resource without attributes. -/
def gauges (metrics : List (GoString × List Attributes)) : Metrics :=
  [⟨[], [⟨[], metrics.map (fun m => ⟨⟨m.1, [], .gauge⟩, m.2.map (fun attrs =>
    (⟨attrs, []⟩ : NumberDataPoint))⟩)⟩]⟩]

private def callFor (name : GoString) (labels : LabelMap) (order : List GoString)
    (visits : IterationOrder labels order) : AddCall :=
  ⟨⟨name, labels⟩, order, order, visits, visits⟩

/-- One job with two points, and a gauge without labels. -/
def twoSeries : Metrics :=
  gauges [(lit "up", [[(lit "job", .string (lit "a"))], [(lit "job", .string (lit "a"))]]),
    (lit "load", [[]])]

private theorem expanded_twoSeries : expanded plainPlatform twoSeries =
    [⟨lit "up", jobLabel (lit "a")⟩, ⟨lit "up", jobLabel (lit "a")⟩, ⟨lit "load", ∅⟩] := by
  decide +kernel

/-- The tracker's run on that batch. -/
def twoSeriesRun : ConsumeMetrics byLength plainPlatform twoSeries where
  calls :=
    [callFor (lit "up") (jobLabel (lit "a")) [lit "job"] (by decide +kernel),
      callFor (lit "up") (jobLabel (lit "a")) [lit "job"] (by decide +kernel),
      callFor (lit "load") ∅ [] (by decide +kernel)]
  calls_eq := by
    rw [processBatch_eq]
    exact expanded_twoSeries.symm
  broadcastOrder := [hashKeyOf byLength (lit "load"),
    hashKeyOf byLength (lit "up\x7bjob=\"a\"\x7d")]
  visitsBatch := by decide +kernel

theorem repeated_points_are_counted :
    Accounts byLength (expanded plainPlatform twoSeries) twoSeriesRun.batch ∧
      twoSeriesRun.batch.lookup (hashKeyOf byLength (lit "up\x7bjob=\"a\"\x7d")) =
        some ⟨lit "up", [⟨lit "job", lit "a"⟩], 2⟩ := by
  have visits : IterationOrder (jobLabel (lit "a")) [lit "job"] := by decide +kernel
  have labels : jobLabel (lit "a") ≠ ∅ := by decide +kernel
  have text : fingerprintOf byLength ⟨lit "up", jobLabel (lit "a")⟩ =
      lit "up\x7bjob=\"a\"\x7d" := by
    rw [← fingerprintOf_eq byLength ⟨lit "up", jobLabel (lit "a")⟩ visits]
    decide +kernel
  have bare : fingerprintOf byLength ⟨lit "load", ∅⟩ = lit "load" := fingerprintOf_unlabelled rfl
  have collisionFree : ∀ s ∈ expanded plainPlatform twoSeries,
      ∀ t ∈ expanded plainPlatform twoSeries,
      byLength.hash128 (fingerprintOf byLength s) = byLength.hash128 (fingerprintOf byLength t) →
        fingerprintOf byLength s = fingerprintOf byLength t := by
    rw [expanded_twoSeries]
    simp only [List.forall_mem_cons, text, bare]
    decide
  have apart : NamedApart byLength (expanded plainPlatform twoSeries) := by
    rw [expanded_twoSeries, NamedApart]
    simp only [List.forall_mem_cons, List.not_mem_nil, text, bare, labels, ne_eq, not_true_eq_false,
      false_implies, implies_true, and_true]
    decide
  exact ⟨(broadcast_accounts_iff plainPlatform byLength twoSeries twoSeriesRun collisionFree).mpr
    apart, by decide +kernel⟩

/-- A gauge called like a text, and the gauge that has this text. -/
def mergedSeries : Metrics :=
  gauges [(lit ".\x7b__=\".\"\x7d", [[]]), (lit ".", [[(lit "__", .string (lit "."))]])]

/-- A label without letters in its name and in its value. -/
def dotLabel : LabelMap := (∅ : LabelMap).insert (lit "__") (lit ".")

private theorem expanded_mergedSeries : expanded refusingPlatform mergedSeries =
    [⟨lit ".\x7b__=\".\"\x7d", ∅⟩, ⟨lit ".", dotLabel⟩] := by
  decide +kernel

/-- The tracker's run on that batch. -/
def mergedSeriesRun : ConsumeMetrics byLength refusingPlatform mergedSeries where
  calls :=
    [callFor (lit ".\x7b__=\".\"\x7d") ∅ [] (by decide +kernel),
      callFor (lit ".") dotLabel [lit "__"] (by decide +kernel)]
  calls_eq := by
    rw [processBatch_eq]
    exact expanded_mergedSeries.symm
  broadcastOrder := [hashKeyOf byLength (lit ".\x7b__=\".\"\x7d")]
  visitsBatch := by decide +kernel

theorem series_named_like_a_text_is_merged :
    (∀ s ∈ expanded refusingPlatform mergedSeries, ∀ t ∈ expanded refusingPlatform mergedSeries,
      byLength.hash128 (fingerprintOf byLength s) = byLength.hash128 (fingerprintOf byLength t) →
        fingerprintOf byLength s = fingerprintOf byLength t) ∧
      mergedSeriesRun.batch = (∅ : Batch).insert (hashKeyOf byLength (lit ".\x7b__=\".\"\x7d"))
        ⟨lit ".\x7b__=\".\"\x7d", [], 2⟩ ∧
      ¬ Accounts byLength (expanded refusingPlatform mergedSeries) mergedSeriesRun.batch := by
  have visits : IterationOrder dotLabel [lit "__"] := by decide +kernel
  have text : fingerprintOf byLength ⟨lit ".", dotLabel⟩ = lit ".\x7b__=\".\"\x7d" := by
    rw [← fingerprintOf_eq byLength ⟨lit ".", dotLabel⟩ visits]
    decide +kernel
  have bare : fingerprintOf byLength ⟨lit ".\x7b__=\".\"\x7d", ∅⟩ = lit ".\x7b__=\".\"\x7d" :=
    fingerprintOf_unlabelled rfl
  refine ⟨?_, by decide +kernel, fun accounts => ?_⟩
  · rw [expanded_mergedSeries]
    simp only [List.forall_mem_cons, text, bare]
    decide
  · have apart := namedApart_of_accounts accounts
    rw [expanded_mergedSeries] at apart
    have labels : dotLabel ≠ ∅ := by decide +kernel
    exact apart _ List.mem_cons_self _ (List.mem_cons_of_mem _ List.mem_cons_self) rfl labels
      text.symm

end SignalAgent.Telemetry.BatchAccounting
