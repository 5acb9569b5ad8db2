/- MID: SignalAgent/Index/QuietTurns
   layer: results
   source: components/edgecontroller/timeseries_processor.go,
     components/edgecontroller/discovered_timeseries_cache.go,
     components/edgecontroller/known_timeseries_cache.go
   digest: Quiet turns announce, update and forget each series once, and converge. -/

import SignalAgent.Index.SyncTurns

set_option autoImplicit false
set_option relaxedAutoImplicit false

namespace SignalAgent.Index.QuietTurns

open Foundations.GoMaps Foundations.GoText Foundations.GuardedRuns
open KnownCache IndexSync CommitOnAck SyncTurns

/-- A turn in the minute from `start` on, whose scans fall into one hour. -/
structure Quiet (hour start : Nat) (s : State) (t : Turn) : Prop where
  fits : Fits s t
  atHour : AtHour hour t
  threshold : start ≤ t.known.thresholdNow ∧ t.known.thresholdNow ≤ start + 60
  synced : start ≤ t.known.syncedNow

section Picks

variable {hour : Nat} {key : HashKey} {known : KnownTimeseriesCache} {olderThan later : Int}

private theorem idleAt_iff :
    idleAt hour known key = true ↔ ∃ e, seen hour known key = some e ∧ sumSamples e = 0 := by
  rw [idleAt_eq_seen]
  cases seen hour known key with
  | none => simp
  | some e =>
    simp only [Option.bind_some, pickInactive]
    split <;> simp_all

private theorem dueAt_iff :
    dueAt hour olderThan known key = true ↔
      ∃ e, seen hour known key = some e ∧ e.lastBackendSync < olderThan ∧ sumSamples e ≠ 0 := by
  rw [dueAt_eq_seen]
  cases seen hour known key with
  | none => simp
  | some e =>
    simp only [Option.bind_some, pickActive]
    split
    · rename_i recent
      simp only [Option.isSome_none, Bool.false_eq_true, Option.some.injEq, false_iff]
      rintro ⟨e', rfl, old, -⟩
      omega
    · split <;> simp_all

private theorem dueAt_mono (order : olderThan ≤ later)
    (due : dueAt hour olderThan known key = true) : dueAt hour later known key = true := by
  obtain ⟨e, here, old, active⟩ := dueAt_iff.mp due
  exact dueAt_iff.mpr ⟨e, here, Int.lt_of_lt_of_le old order, active⟩

private theorem not_dueAt_of_idleAt (idle : idleAt hour known key = true) :
    dueAt hour olderThan known key ≠ true := by
  intro due
  obtain ⟨e, here, nothing⟩ := idleAt_iff.mp idle
  obtain ⟨e', here', -, active⟩ := dueAt_iff.mp due
  obtain rfl := Option.some.inj (here.symm.trans here')
  exact active nothing

end Picks

section OneTurn

variable {hour : Nat} {s s' : State} {t : Turn} {created deleted updated : List HashKey}

private theorem known_after (outcome : Outcome hour s t s' created deleted updated) (k : HashKey) :
    k ∈ s'.caches.known ↔ k ∈ s.caches.known ∧ k ∉ deleted := by
  rw [mem_iff_seen hour, mem_iff_seen hour, outcome.known k]
  by_cases gone : k ∈ deleted <;> by_cases marked : k ∈ updated <;> simp [gone, marked]

private theorem idle_after (outcome : Outcome hour s t s' created deleted updated) (k : HashKey) :
    idleAt hour s'.caches.known k = true ↔
      idleAt hour s.caches.known k = true ∧ k ∉ deleted := by
  rw [idleAt_iff, idleAt_iff, outcome.known k]
  by_cases gone : k ∈ deleted
  · simp [gone]
  · by_cases marked : k ∈ updated
    · simp only [gone, marked, if_true, if_false, not_false_eq_true, and_true,
        Option.map_eq_some_iff]
      constructor
      · rintro ⟨e, ⟨e₀, here, rfl⟩, nothing⟩
        exact ⟨e₀, here, nothing⟩
      · rintro ⟨e, here, nothing⟩
        exact ⟨_, ⟨e, here, rfl⟩, nothing⟩
    · simp [gone, marked]

private theorem due_after (outcome : Outcome hour s t s' created deleted updated)
    {olderThan : Int} (behind : olderThan ≤ t.known.syncedNow) (k : HashKey) :
    dueAt hour olderThan s'.caches.known k = true ↔
      dueAt hour olderThan s.caches.known k = true ∧ k ∉ updated := by
  by_cases gone : k ∈ deleted
  · have idle := (outcome.deletes k gone).1
    constructor
    · intro due
      obtain ⟨e, here, -⟩ := dueAt_iff.mp due
      rw [outcome.known k, if_pos gone] at here
      cases here
    · rintro ⟨due, -⟩
      exact absurd due (not_dueAt_of_idleAt idle)
  · rw [dueAt_iff, dueAt_iff, outcome.known k, if_neg gone]
    by_cases marked : k ∈ updated
    · simp only [marked, if_true, not_true_eq_false, and_false, iff_false,
        Option.map_eq_some_iff]
      rintro ⟨e, ⟨e₀, -, rfl⟩, old, -⟩
      exact absurd behind (Int.not_le.mpr old)
    · simp [marked]

end OneTurn

/-- The account of some turns: which keys were announced, forgotten and updated with an ack, each
of them once, and that exactly these moved. -/
structure Ledger (hour start : Nat) (s s' : State) (created deleted updated : List HashKey) :
    Prop where
  acks : ∀ op, acked op s'.sent =
    acked op s.sent ++ (ackedKeys created deleted updated op).map HashKey.bytes
  distinct : created.Nodup ∧ deleted.Nodup ∧ updated.Nodup
  creates : ∀ k ∈ created, k ∈ s.caches.discovered
  deletes : ∀ k ∈ deleted, idleAt hour s.caches.known k = true
  updates : ∀ k ∈ updated, dueAt hour start s.caches.known k = true
  discovered : ∀ k, k ∈ s'.caches.discovered ↔ k ∈ s.caches.discovered ∧ k ∉ created
  known : ∀ k, k ∈ s'.caches.known ↔ k ∈ s.caches.known ∧ k ∉ deleted
  idle : ∀ k, idleAt hour s'.caches.known k = true ↔
    idleAt hour s.caches.known k = true ∧ k ∉ deleted
  due : ∀ k, dueAt hour start s'.caches.known k = true ↔
    dueAt hour start s.caches.known k = true ∧ k ∉ updated

section Accounts

variable {hour start : Nat} {s₀ s s' : State} {t : Turn}

private theorem olderThan_le (quiet : Quiet hour start s t) : t.olderThan ≤ start := by
  have window := quiet.threshold.2
  simp only [Turn.olderThan, lastBackendSyncThresholdSeconds]
  omega

private theorem le_olderThan (quiet : Quiet hour start s t) : (start : Int) - 60 ≤ t.olderThan := by
  have window := quiet.threshold.1
  simp only [Turn.olderThan, lastBackendSyncThresholdSeconds]
  omega

private theorem start_le_synced (quiet : Quiet hour start s t) :
    (start : Int) ≤ t.known.syncedNow := Int.ofNat_le.mpr quiet.synced

private theorem nodup_more {earlier more : List HashKey} (once : earlier.Nodup)
    (again : more.Nodup) (left : ∀ k ∈ more, k ∉ earlier) : (earlier ++ more).Nodup := by
  refine List.nodup_append.mpr ⟨once, again, ?_⟩
  rintro k old k' new rfl
  exact left k new old

private theorem left_iff_more {p q : Prop} {earlier more : List HashKey} {k : HashKey}
    (step : q ↔ p ∧ k ∉ more) {r : Prop} (past : p ↔ r ∧ k ∉ earlier) :
    q ↔ r ∧ k ∉ earlier ++ more := by
  rw [step, past, List.mem_append, not_or, and_assoc]

private theorem Ledger.step {created deleted updated created' deleted' updated' : List HashKey}
    (ledger : Ledger hour start s₀ s created deleted updated) (quiet : Quiet hour start s t)
    (outcome : Outcome hour s t s' created' deleted' updated') :
    Ledger hour start s₀ s' (created ++ created') (deleted ++ deleted')
      (updated ++ updated') where
  acks op := by
    rw [outcome.acks op, ledger.acks op, List.append_assoc, ← List.map_append]
    cases op <;> rfl
  distinct := by
    obtain ⟨createdOnce, deletedOnce, updatedOnce⟩ := ledger.distinct
    obtain ⟨createdNow, deletedNow, updatedNow⟩ := outcome.distinct
    refine ⟨nodup_more createdOnce createdNow ?_, nodup_more deletedOnce deletedNow ?_,
      nodup_more updatedOnce updatedNow ?_⟩
    · exact fun k member => ((ledger.discovered k).mp (outcome.creates k member).1).2
    · exact fun k member => ((ledger.idle k).mp (outcome.deletes k member).1).2
    · intro k member
      exact ((ledger.due k).mp (dueAt_mono (olderThan_le quiet) (outcome.updates k member))).2
  creates k member := by
    rcases List.mem_append.mp member with old | new
    · exact ledger.creates k old
    · exact ((ledger.discovered k).mp (outcome.creates k new).1).1
  deletes k member := by
    rcases List.mem_append.mp member with old | new
    · exact ledger.deletes k old
    · exact ((ledger.idle k).mp (outcome.deletes k new).1).1
  updates k member := by
    rcases List.mem_append.mp member with old | new
    · exact ledger.updates k old
    · exact ((ledger.due k).mp (dueAt_mono (olderThan_le quiet) (outcome.updates k new))).1
  discovered k := left_iff_more (outcome.discovered k) (ledger.discovered k)
  known k := left_iff_more (known_after outcome k) (ledger.known k)
  idle k := left_iff_more (idle_after outcome k) (ledger.idle k)
  due k := left_iff_more (due_after outcome (start_le_synced quiet) k) (ledger.due k)

private theorem ledger_refl : Ledger hour start s s [] [] [] where
  acks op := by
    cases op <;> exact (List.append_nil _).symm
  distinct := ⟨List.nodup_nil, List.nodup_nil, List.nodup_nil⟩
  creates := nofun
  deletes := nofun
  updates := nofun
  discovered _ := (and_iff_left List.not_mem_nil).symm
  known _ := (and_iff_left List.not_mem_nil).symm
  idle _ := (and_iff_left List.not_mem_nil).symm
  due _ := (and_iff_left List.not_mem_nil).symm

private theorem ledger_of_run {turns : List Turn}
    (run : Run SyncTurns.step (Quiet hour start) s turns s') :
    ∃ created deleted updated, Ledger hour start s s' created deleted updated := by
  refine run.stateInvariant (fun s' => ∃ created deleted updated,
    Ledger hour start s s' created deleted updated) ⟨[], [], [], ledger_refl⟩ ?_
  rintro u u' t ⟨created, deleted, updated, ledger⟩ quiet stepped
  obtain ⟨created', deleted', updated', outcome⟩ := exists_outcome quiet.fits quiet.atHour stepped
  exact ⟨_, _, _, ledger.step quiet outcome⟩

end Accounts

/-- One series still to be announced and one that has been idle for hours. -/
def begun : State where
  caches :=
    { discovered := Finmap.singleton (HashKey.repeated 1) ⟨lit "up", [], 1⟩
      known := updateTimeseries
        (updateTimeseries ∅ (HashKey.repeated 2) ⟨lit "gone", [], 1⟩ 0)
        (HashKey.repeated 1) ⟨lit "up", [], 1⟩ 360000 }
  index := [(HashKey.repeated 2).bytes].toFinset
  sent := []

/-- A turn at this second, with every message applied and this reply to each. -/
def turnAt (now : Nat) (discovered known : List HashKey) (reply : SendResult) : Turn :=
  ⟨discovered, ⟨now, now, now, now, known, known, false⟩, fun _ => reply, fun _ => true⟩

/-- The ack of the create is lost once; the second create and the known round are acknowledged. -/
def minute : List Turn :=
  [turnAt 360100 [HashKey.repeated 1] [HashKey.repeated 2, HashKey.repeated 1] (.error .timeout),
    turnAt 360135 [HashKey.repeated 1] [HashKey.repeated 2, HashKey.repeated 1] (.ok ⟨true, []⟩),
    turnAt 360140 [] [HashKey.repeated 1, HashKey.repeated 2] (.ok ⟨true, []⟩)]

private def after (s : State) (t : Turn) : State :=
  ⟨(timeseriesProcessorTurn s.caches t).caches,
    (timeseriesProcessorTurn s.caches t).exchanges.foldl (landing t) s.index,
    s.sent ++ (timeseriesProcessorTurn s.caches t).exchanges⟩

private theorem quiet_turnAt {s : State} {now : Nat} {discovered known : List HashKey}
    {reply : SendResult} (orders : IterationOrder s.caches.discovered discovered ∧
      IterationOrder s.caches.known known) (hour : now / 3600 = 100)
    (window : 360100 ≤ now ∧ now ≤ 360160) :
    Quiet 100 360100 s (turnAt now discovered known reply) :=
  ⟨⟨orders.1, orders.2, orders.2, fun _ _ _ => rfl⟩, ⟨hour, hour⟩, window, window.1⟩

private theorem minute_run :
    Run SyncTurns.step (Quiet 100 360100) begun minute (minute.foldl after begun) := by
  refine Run.tail (Run.tail (Run.tail .refl ?_ rfl) ?_ rfl) ?_ rfl
  · exact quiet_turnAt (by decide +kernel) (by decide) (by decide)
  · exact quiet_turnAt (by decide +kernel) (by decide) (by decide)
  · exact quiet_turnAt (by decide +kernel) (by decide) (by decide)

/-- Over every sequence of turns in a minute of one clock hour, in which what is acknowledged was
applied, whatever fails or is applied without an ack: a series leaves the discovered cache with
exactly one acknowledged create, leaves the known cache with exactly one acknowledged delete and
only if it is idle, and is in at most one acknowledged update; nothing else moves. -/
theorem quiet_turns_account {hour start : Nat} {s s' : State} {turns : List Turn}
    (run : Run SyncTurns.step (Quiet hour start) s turns s') :
    ∃ created deleted updated, Ledger hour start s s' created deleted updated :=
  ledger_of_run run

theorem lost_ack_counts_once :
    ∃ s' created deleted updated, Run SyncTurns.step (Quiet 100 360100) begun minute s' ∧
      Ledger 100 360100 begun s' created deleted updated ∧ s'.sent.length = 4 ∧
      acked .indexCreate s'.sent = [(HashKey.repeated 1).bytes] := by
  obtain ⟨created, deleted, updated, ledger⟩ := quiet_turns_account minute_run
  exact ⟨_, created, deleted, updated, minute_run, ledger, by decide +kernel, by decide +kernel⟩

/-- The messages it takes to send so many keys. -/
def batchesOf (size n : Nat) : Nat := (n + (size - 1)) / size

/-- The healthy turns that suffice from here: creates come first, deletes and updates share
their turns. -/
def turnsNeeded (hour start : Nat) (s : State) : Nat :=
  batchesOf discoveredBatchSize s.caches.discovered.keys.card +
    max (batchesOf knownBatchSize.toNat (idleKeys hour s.caches.known).card)
      (batchesOf knownBatchSize.toNat (dueKeys hour start s.caches.known).card)

/-- What holds between two intake calls, with lost replies allowed for: what is discovered is
known, the index names known series, and it names every active series that is not still to be
announced. -/
structure Consistent (hour : Nat) (s : State) : Prop where
  discovered : ∀ k ∈ s.caches.discovered, k ∈ s.caches.known
  index : ∀ fp ∈ s.index, ∃ k ∈ s.caches.known, k.bytes = fp
  covered : ∀ k ∈ s.caches.known, idleAt hour s.caches.known k = false →
    k ∈ s.caches.discovered ∨ k.bytes ∈ s.index

section Convergence

variable {hour start : Nat} {s s' : State} {t : Turn} {created deleted updated : List HashKey}

private theorem batchesOf_sub {size : Nat} (positive : 0 < size) (n : Nat) :
    batchesOf size (n - min size n) = batchesOf size n - 1 := by
  unfold batchesOf
  rcases Nat.le_total n size with small | large
  · have none_ : n - min size n = 0 := by omega
    have once : (n + (size - 1)) / size ≤ 1 := Nat.lt_succ_iff.mp (Nat.div_lt_of_lt_mul (by omega))
    rw [none_, Nat.zero_add, Nat.div_eq_of_lt (by omega)]
    omega
  · have back : n + (size - 1) = (n - min size n + (size - 1)) + size := by omega
    rw [back, Nat.add_div_right _ positive]
    rfl

private theorem batchesOf_mono (size : Nat) {n m : Nat} (le : n ≤ m) :
    batchesOf size n ≤ batchesOf size m :=
  Nat.div_le_div_right (Nat.add_le_add_right le _)

private theorem consistent_step (consistent : Consistent hour s)
    (outcome : Outcome hour s t s' created deleted updated) : Consistent hour s' where
  discovered k member := by
    have before := ((outcome.discovered k).mp member).1
    obtain ⟨rfl, -⟩ := outcome.priority ⟨k, Finmap.mem_keys.mpr before⟩
    exact (known_after outcome k).mpr ⟨consistent.discovered k before, List.not_mem_nil⟩
  index fp member := by
    have named : ∃ k ∈ s.caches.known, k.bytes = fp := by
      rcases outcome.added fp member with old | ⟨k, pending, same⟩
      · exact consistent.index fp old
      · exact ⟨k, consistent.discovered k pending, same⟩
    obtain ⟨k, present, rfl⟩ := named
    refine ⟨k, (known_after outcome k).mpr ⟨present, fun gone => ?_⟩, rfl⟩
    exact (outcome.deletes k gone).2 member
  covered k member busy := by
    obtain ⟨present, kept⟩ := (known_after outcome k).mp member
    have before : idleAt hour s.caches.known k = false := by
      rw [← Bool.not_eq_true] at busy ⊢
      exact fun idle => busy ((idle_after outcome k).mpr ⟨idle, kept⟩)
    rcases consistent.covered k present before with pending | named
    · by_cases sent : k ∈ created
      · exact Or.inr (outcome.creates k sent).2
      · exact Or.inl ((outcome.discovered k).mpr ⟨pending, sent⟩)
    · exact Or.inr (outcome.kept k named before)

private theorem card_after {before after : Finset HashKey} {lost : List HashKey}
    (distinct : lost.Nodup) (among : ∀ k ∈ lost, k ∈ before)
    (left : ∀ k, k ∈ after ↔ k ∈ before ∧ k ∉ lost) : after.card = before.card - lost.length := by
  have same : after = before \ lost.toFinset := by
    ext k
    rw [left k, Finset.mem_sdiff, List.mem_toFinset]
  have part : lost.toFinset ⊆ before := fun k member => among k (List.mem_toFinset.mp member)
  rw [same, Finset.card_sdiff_of_subset part, List.toFinset_card_of_nodup distinct]

private theorem discovered_card (outcome : Outcome hour s t s' created deleted updated) :
    s'.caches.discovered.keys.card = s.caches.discovered.keys.card - created.length := by
  refine card_after outcome.distinct.1 ?_ ?_
  · exact fun k member => Finmap.mem_keys.mpr (outcome.creates k member).1
  · intro k
    rw [Finmap.mem_keys, Finmap.mem_keys]
    exact outcome.discovered k

private theorem idle_card (outcome : Outcome hour s t s' created deleted updated) :
    (idleKeys hour s'.caches.known).card =
      (idleKeys hour s.caches.known).card - deleted.length := by
  refine card_after outcome.distinct.2.1 ?_ ?_
  · exact fun k member => mem_idleKeys.mpr (outcome.deletes k member).1
  · intro k
    rw [mem_idleKeys, mem_idleKeys]
    exact idle_after outcome k

private theorem due_card (quiet : Quiet hour start s t)
    (outcome : Outcome hour s t s' created deleted updated) :
    (dueKeys hour start s'.caches.known).card =
      (dueKeys hour start s.caches.known).card - updated.length := by
  refine card_after outcome.distinct.2.2 ?_ ?_
  · intro k member
    exact mem_dueKeys.mpr (dueAt_mono (olderThan_le quiet) (outcome.updates k member))
  · intro k
    rw [mem_dueKeys, mem_dueKeys]
    exact due_after outcome (start_le_synced quiet) k

/-- The updates still needed before no series is behind the minute before `start`. -/
private def updatesNeeded (hour start : Nat) (s : State) : Nat :=
  if dueKeys hour ((start : Int) - 60) s.caches.known = ∅ then 0
  else batchesOf knownBatchSize.toNat (dueKeys hour start s.caches.known).card

private theorem late_after (quiet : Quiet hour start s t)
    (outcome : Outcome hour s t s' created deleted updated) (k : HashKey) :
    k ∈ dueKeys hour ((start : Int) - 60) s'.caches.known ↔
      k ∈ dueKeys hour ((start : Int) - 60) s.caches.known ∧ k ∉ updated := by
  rw [mem_dueKeys, mem_dueKeys]
  refine due_after outcome ?_ k
  have synced := start_le_synced quiet
  omega

private theorem late_before (quiet : Quiet hour start s t)
    (outcome : Outcome hour s t s' created deleted updated)
    (late : dueKeys hour ((start : Int) - 60) s'.caches.known ≠ ∅) :
    dueKeys hour ((start : Int) - 60) s.caches.known ≠ ∅ := by
  obtain ⟨k, member⟩ := Finset.nonempty_iff_ne_empty.mpr late
  exact Finset.ne_empty_of_mem ((late_after quiet outcome k).mp member).1

private theorem updatesNeeded_le (quiet : Quiet hour start s t)
    (outcome : Outcome hour s t s' created deleted updated) :
    updatesNeeded hour start s' ≤ updatesNeeded hour start s := by
  unfold updatesNeeded
  split
  · exact Nat.zero_le _
  · rename_i late
    rw [if_neg (late_before quiet outcome late), due_card quiet outcome]
    exact batchesOf_mono _ (Nat.sub_le ..)

/-- A full update batch is one of those needed; one that is not full leaves none behind. -/
private theorem updatesNeeded_lower (quiet : Quiet hour start s t)
    (outcome : Outcome hour s t s' created deleted updated)
    (full : updated.length =
      min knownBatchSize.toNat (dueKeys hour t.olderThan s.caches.known).card) :
    updatesNeeded hour start s' ≤ updatesNeeded hour start s - 1 := by
  have among : ∀ k ∈ updated, k ∈ dueKeys hour t.olderThan s.caches.known :=
    fun k member => mem_dueKeys.mpr (outcome.updates k member)
  rcases Nat.lt_or_ge (dueKeys hour t.olderThan s.caches.known).card knownBatchSize.toNat with
    few | many
  · have all : updated.toFinset = dueKeys hour t.olderThan s.caches.known := by
      refine Finset.eq_of_subset_of_card_le
        (fun k member => among k (List.mem_toFinset.mp member)) ?_
      rw [List.toFinset_card_of_nodup outcome.distinct.2.2, full]
      omega
    have none_ : dueKeys hour ((start : Int) - 60) s'.caches.known = ∅ := by
      refine Finset.eq_empty_of_forall_notMem (fun k member => ?_)
      obtain ⟨late, left⟩ := (late_after quiet outcome k).mp member
      have due := mem_dueKeys.mpr (dueAt_mono (le_olderThan quiet) (mem_dueKeys.mp late))
      rw [← all, List.mem_toFinset] at due
      exact left due
    rw [updatesNeeded, if_pos none_]
    exact Nat.zero_le _
  · have within : knownBatchSize.toNat ≤ (dueKeys hour start s.caches.known).card := by
      refine Nat.le_trans many (Finset.card_le_card (fun k member => ?_))
      exact mem_dueKeys.mpr (dueAt_mono (olderThan_le quiet) (mem_dueKeys.mp member))
    unfold updatesNeeded
    split
    · exact Nat.zero_le _
    · rename_i late
      have batch : updated.length =
          min knownBatchSize.toNat (dueKeys hour start s.caches.known).card := by omega
      rw [if_neg (late_before quiet outcome late), due_card quiet outcome, batch,
        batchesOf_sub (by decide)]

private def turnsLeft (hour start : Nat) (s : State) : Nat :=
  batchesOf discoveredBatchSize s.caches.discovered.keys.card +
    max (batchesOf knownBatchSize.toNat (idleKeys hour s.caches.known).card)
      (updatesNeeded hour start s)

private theorem turnsLeft_le (quiet : Quiet hour start s t)
    (outcome : Outcome hour s t s' created deleted updated) :
    turnsLeft hour start s' ≤ turnsLeft hour start s := by
  have updates := updatesNeeded_le quiet outcome
  unfold turnsLeft
  rw [discovered_card outcome, idle_card outcome]
  have creates := batchesOf_mono discoveredBatchSize
    (Nat.sub_le s.caches.discovered.keys.card created.length)
  have deletes := batchesOf_mono knownBatchSize.toNat
    (Nat.sub_le (idleKeys hour s.caches.known).card deleted.length)
  omega

private theorem turnsLeft_lower (quiet : Quiet hour start s t) (healthy : Healthy t)
    (outcome : Outcome hour s t s' created deleted updated) :
    turnsLeft hour start s' ≤ turnsLeft hour start s - 1 := by
  rcases Finset.eq_empty_or_nonempty s.caches.discovered.keys with nothing | some_
  · obtain ⟨deletes, updates⟩ := outcome.second healthy nothing
    have fewer := updatesNeeded_lower quiet outcome updates
    have none_ : s.caches.discovered.keys.card = 0 := Finset.card_eq_zero.mpr nothing
    have empty : batchesOf discoveredBatchSize 0 = 0 := by decide
    unfold turnsLeft
    rw [discovered_card outcome, idle_card outcome, deletes, batchesOf_sub (by decide), none_,
      Nat.zero_sub, empty]
    omega
  · have sent := outcome.first healthy some_
    have positive : 0 < batchesOf discoveredBatchSize s.caches.discovered.keys.card := by
      have counted := Finset.card_pos.mpr some_
      exact Nat.div_pos (by simp only [discoveredBatchSize]; omega) (by decide)
    have updates := updatesNeeded_le quiet outcome
    have idle := batchesOf_mono knownBatchSize.toNat
      (Nat.sub_le (idleKeys hour s.caches.known).card deleted.length)
    unfold turnsLeft
    rw [discovered_card outcome, idle_card outcome, sent, batchesOf_sub (by decide)]
    omega

private theorem eq_empty_of_batchesOf (size : Nat) (positive : 0 < size) {keys : Finset HashKey}
    (none_ : batchesOf size keys.card = 0) : keys = ∅ := by
  unfold batchesOf at none_
  have small := (Nat.div_eq_zero_iff_lt positive).mp none_
  exact Finset.card_eq_zero.mp (by omega)

private theorem turnsLeft_le_needed (hour start : Nat) (s : State) :
    turnsLeft hour start s ≤ turnsNeeded hour start s := by
  unfold turnsLeft turnsNeeded updatesNeeded
  split <;> omega

private theorem settled_of_turnsLeft (none_ : turnsLeft hour start s = 0) :
    s.caches.discovered.keys = ∅ ∧ idleKeys hour s.caches.known = ∅ ∧
      dueKeys hour ((start : Int) - 60) s.caches.known = ∅ := by
  unfold turnsLeft at none_
  obtain ⟨creates, rest⟩ := Nat.add_eq_zero_iff.mp none_
  refine ⟨eq_empty_of_batchesOf _ (by decide) creates,
    eq_empty_of_batchesOf knownBatchSize.toNat (by decide) (by omega), ?_⟩
  have updates : updatesNeeded hour start s = 0 := by omega
  unfold updatesNeeded at updates
  split at updates
  · assumption
  · have fewer := eq_empty_of_batchesOf _ (by decide) updates
    refine Finset.subset_empty.mp (fewer ▸ fun k member => ?_)
    exact mem_dueKeys.mpr (dueAt_mono (by omega) (mem_dueKeys.mp member))

end Convergence

/-- From a state in which every active known series is discovered or indexed: once enough of the
turns in a quiet minute are healthy, whatever the others met, nothing is left to announce, exactly
the idle series are forgotten, the backend's index is the known cache, and no series is further
behind than the minute before. -/
theorem quiet_turns_converge {hour start : Nat} {s s' : State} {turns : List Turn}
    {healthy : Turn → Bool} (sound : ∀ t ∈ turns, healthy t = true → Healthy t)
    (consistent : Consistent hour s) (run : Run SyncTurns.step (Quiet hour start) s turns s')
    (enough : turnsNeeded hour start s ≤ turns.countP healthy) :
    s'.caches.discovered.keys = ∅ ∧
      s'.caches.known.keys = s.caches.known.keys \ idleKeys hour s.caches.known ∧
      s'.index = s'.caches.known.keys.image HashKey.bytes ∧
      ∀ k e, s'.caches.known.lookup k = some e → start ≤ e.lastBackendSync + 60 := by
  have lowers : ∀ {u u' : State} {t : Turn}, Consistent hour u →
      Quiet hour start u t ∧ t ∈ turns → SyncTurns.step u t = some u' →
      Consistent hour u' ∧
        turnsLeft hour start u' ≤ turnsLeft hour start u - if healthy t then 1 else 0 := by
    rintro u u' t held ⟨quiet, member⟩ stepped
    obtain ⟨created, deleted, updated, outcome⟩ := exists_outcome quiet.fits quiet.atHour stepped
    refine ⟨consistent_step held outcome, ?_⟩
    split
    · exact turnsLeft_lower quiet (sound t member ‹_›) outcome
    · exact turnsLeft_le quiet outcome
  obtain ⟨kept, low⟩ := (run.restrict (List.Subset.refl turns)).countdown (Consistent hour)
    (turnsLeft hour start) healthy consistent lowers
  have done : turnsLeft hour start s' = 0 := by
    have most := turnsLeft_le_needed hour start s
    omega
  obtain ⟨announced, busy, recent⟩ := settled_of_turnsLeft done
  have active : ∀ k, idleAt hour s'.caches.known k = false := by
    intro k
    rw [← Bool.not_eq_true, ← mem_idleKeys, busy]
    exact Finset.notMem_empty k
  obtain ⟨created, deleted, updated, ledger⟩ := ledger_of_run run
  refine ⟨announced, ?_, ?_, ?_⟩
  · ext k
    rw [Finmap.mem_keys, ledger.known k, Finset.mem_sdiff, Finmap.mem_keys, mem_idleKeys]
    refine and_congr_right (fun _ => not_congr ⟨ledger.deletes k, fun idle => ?_⟩)
    by_contra left
    exact Bool.false_ne_true ((active k).symm.trans ((ledger.idle k).mpr ⟨idle, left⟩))
  · ext fp
    rw [Finset.mem_image]
    constructor
    · intro member
      obtain ⟨k, present, same⟩ := kept.index fp member
      exact ⟨k, Finmap.mem_keys.mpr present, same⟩
    · rintro ⟨k, present, rfl⟩
      refine (kept.covered k (Finmap.mem_keys.mp present) (active k)).resolve_left ?_
      rw [← Finmap.mem_keys, announced]
      exact Finset.notMem_empty k
  · intro k e found
    by_contra behind
    have here : seen hour s'.caches.known k = some (advanceRingBuffer e hour) := by
      rw [seen, found]
      rfl
    have late : k ∈ dueKeys hour ((start : Int) - 60) s'.caches.known := by
      rw [mem_dueKeys, dueAt_iff]
      refine ⟨_, here, ?_, fun nothing => ?_⟩
      · rw [advanceRingBuffer_lastBackendSync]
        omega
      · have idle := idleAt_iff.mpr ⟨_, here, nothing⟩
        exact Bool.false_ne_true ((active k).symm.trans idle)
    rw [recent] at late
    exact Finset.notMem_empty k late

private theorem begun_known (k : HashKey) :
    k ∈ begun.caches.known ↔ k = HashKey.repeated 1 ∨ k = HashKey.repeated 2 := by
  have none_ : k ∉ (∅ : KnownTimeseriesCache) := Finmap.notMem_empty
  simp [begun, none_]

private theorem begun_consistent : Consistent 100 begun where
  discovered k member := by
    obtain rfl : k = HashKey.repeated 1 := by simpa [begun] using member
    exact (begun_known _).mpr (Or.inl rfl)
  index fp member := by
    obtain rfl : fp = (HashKey.repeated 2).bytes := by simpa [begun] using member
    exact ⟨_, (begun_known _).mpr (Or.inr rfl), rfl⟩
  covered k member _ := by
    rcases (begun_known k).mp member with rfl | rfl
    · exact Or.inl (by simp [begun])
    · exact Or.inr (by simp [begun])

theorem lost_ack_converges :
    ∃ s', Run SyncTurns.step (Quiet 100 360100) begun minute s' ∧
      s'.caches.discovered.keys = ∅ ∧ s'.caches.known.keys = {HashKey.repeated 1} ∧
      s'.index = {(HashKey.repeated 1).bytes} := by
  have sound : ∀ t ∈ minute, isAcked (t.reply (deleteMessage [])) = true → Healthy t := by
    simp only [minute, List.forall_mem_cons, List.not_mem_nil, false_implies, implies_true,
      and_true]
    exact ⟨nofun, fun _ => ⟨fun _ => ⟨_, rfl⟩, rfl⟩, fun _ => ⟨fun _ => ⟨_, rfl⟩, rfl⟩⟩
  have enough : turnsNeeded 100 360100 begun ≤
      minute.countP (fun t => isAcked (t.reply (deleteMessage []))) := by
    decide +kernel
  have left : begun.caches.known.keys \ idleKeys 100 begun.caches.known =
      {HashKey.repeated 1} := by
    decide +kernel
  obtain ⟨announced, known, index, -⟩ :=
    quiet_turns_converge sound begun_consistent minute_run enough
  refine ⟨_, minute_run, announced, known.trans left, ?_⟩
  rw [index, known, left]
  rfl

end SignalAgent.Index.QuietTurns
