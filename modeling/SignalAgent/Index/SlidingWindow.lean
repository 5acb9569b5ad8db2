/- MID: SignalAgent/Index/SlidingWindow
   layer: results
   source: components/edgecontroller/known_timeseries_cache.go
   digest: Every known entry's ring buffer is the eight-hour window of its own update history. -/

import Mathlib.Algebra.BigOperators.Fin
import SignalAgent.Foundations.GuardedRuns
import SignalAgent.Foundations.RingWindow
import SignalAgent.Index.KnownCache

set_option autoImplicit false
set_option relaxedAutoImplicit false

namespace SignalAgent.Index.SlidingWindow

open Foundations.GoMaps Foundations.GuardedRuns Foundations.RingWindow
open KnownCache

/-- One visit of an entry: the clock hour, and the samples when it was an update. -/
structure Observation where
  hour : Nat
  samples : Option Int

/-- The greatest hour seen so far; a clock that runs backwards does not lower it. -/
def latestHour (log : List Observation) : Nat := log.foldl (fun seen o => max seen o.hour) 0

/-- Each update is credited to the greatest hour seen up to and including it. -/
def creditsFrom : Nat → List Observation → List (Nat × Int)
  | _, [] => []
  | seen, o :: rest =>
    (o.samples.map (fun n => (max seen o.hour, n))).toList ++ creditsFrom (max seen o.hour) rest

def credits (log : List Observation) : List (Nat × Int) := creditsFrom 0 log

private theorem creditsFrom_append_single (log : List Observation) (o : Observation) (seen : Nat) :
    creditsFrom seen (log ++ [o]) = creditsFrom seen log ++
      (o.samples.map (fun n =>
        (max (log.foldl (fun s p => max s p.hour) seen) o.hour, n))).toList := by
  induction log generalizing seen with
  | nil => simp [creditsFrom]
  | cons p log ih =>
    simp only [List.cons_append, creditsFrom, ih, List.foldl_cons, List.append_assoc]

theorem credits_append_single (log : List Observation) (o : Observation) :
    credits (log ++ [o]) =
      credits log ++ (o.samples.map (fun n => (max (latestHour log) o.hour, n))).toList :=
  creditsFrom_append_single log o 0

theorem latestHour_append_single (log : List Observation) (o : Observation) :
    latestHour (log ++ [o]) = max (latestHour log) o.hour := by
  simp [latestHour]

private theorem slot_setIfInBounds (entry : KnownTimeseriesEntry) (j i : Nat) (v : Int)
    (small : j < hoursLog) :
    KnownTimeseriesEntry.slot { entry with samples := entry.samples.setIfInBounds j v } i =
      if i = j then v else entry.slot i := by
  by_cases same : i = j
  · subst same
    simp [KnownTimeseriesEntry.slot, small]
  · have differ : j ≠ i := Ne.symm same
    simp [KnownTimeseriesEntry.slot, same, differ]

private theorem slot_replicate (entry : KnownTimeseriesEntry) (i : Nat) :
    KnownTimeseriesEntry.slot { entry with samples := Vector.replicate hoursLog 0 } i = 0 := by
  simp only [KnownTimeseriesEntry.slot, Vector.getElem?_replicate]
  split <;> rfl

theorem sumSamples_eq (entry : KnownTimeseriesEntry) :
    sumSamples entry = ∑ i ∈ Finset.range hoursLog, entry.slot i := by
  obtain ⟨name, update, sync, hour, head, ⟨⟨cells⟩, size⟩⟩ := entry
  match cells, size with
  | [a, b, c, d, e, f, g, h], _ =>
    simp only [hoursLog, Finset.sum_range_succ, Finset.sum_range_zero]
    rfl

/-- The entry is the window of its log: `head` and `lastHour` follow the latest hour,
and the slots hold the credits still inside eight hours. -/
structure Represents (entry : KnownTimeseriesEntry) (log : List Observation) : Prop where
  lastHour : entry.lastHour = latestHour log
  head : entry.head.toNat = entry.lastHour % hoursLog
  window : Window hoursLog entry.lastHour entry.slot (credits log)

private theorem head_succ (head : UInt8) (hour : Nat) (aligned : head.toNat = hour % hoursLog) :
    ((head + 1) % UInt8.ofNat hoursLog).toNat = (hour + 1) % hoursLog := by
  have width : hoursLog = 8 := rfl
  rw [UInt8.toNat_mod, UInt8.toNat_add, aligned, width]
  change (hour % 8 + 1) % 256 % 8 = (hour + 1) % 8
  omega

private theorem head_ofNat (hour : Nat) :
    (UInt8.ofNat (hour % hoursLog)).toNat = hour % hoursLog := by
  have small : hour % hoursLog < 8 := Nat.mod_lt hour (by decide)
  rw [UInt8.toNat_ofNat']
  omega

theorem advanceOne_iterate_window {entry : KnownTimeseriesEntry} {log : List Observation}
    (rep : Represents entry log) (n : Nat) :
    (advanceOne^[n] entry).head.toNat = (entry.lastHour + n) % hoursLog ∧
      Window hoursLog (entry.lastHour + n) (advanceOne^[n] entry).slot (credits log) := by
  induction n with
  | zero => exact ⟨rep.head, rep.window⟩
  | succ n ih =>
    obtain ⟨aligned, window⟩ := ih
    rw [Function.iterate_succ_apply']
    have head := head_succ _ _ aligned
    have small : (entry.lastHour + n + 1) % hoursLog < hoursLog := Nat.mod_lt _ (by decide)
    have slots : ∀ i, (advanceOne (advanceOne^[n] entry)).slot i =
        if i = (entry.lastHour + n + 1) % hoursLog then 0 else (advanceOne^[n] entry).slot i := by
      intro i
      rw [← head]
      exact slot_setIfInBounds (advanceOne^[n] entry) _ i 0 (head ▸ small)
    refine ⟨head, window.advanceOne ?_ ?_⟩
    · rw [slots, if_pos rfl]
    · intro i _ other
      rw [slots, if_neg other]

private theorem latestHour_scan (log : List Observation) (hour : Nat) :
    latestHour (log ++ [⟨hour, none⟩]) = max (latestHour log) hour ∧
      credits (log ++ [⟨hour, none⟩]) = credits log := by
  simp [latestHour_append_single, credits_append_single]

theorem Represents.advance {entry : KnownTimeseriesEntry} {log : List Observation}
    (rep : Represents entry log) (hour : Nat) :
    Represents (advanceRingBuffer entry hour) (log ++ [⟨hour, none⟩]) := by
  obtain ⟨latest, same⟩ := latestHour_scan log hour
  have moved : (advanceRingBuffer entry hour).lastHour = latestHour (log ++ [⟨hour, none⟩]) := by
    rw [advanceRingBuffer_lastHour, latest, rep.lastHour]
  suffices (advanceRingBuffer entry hour).head.toNat =
        (advanceRingBuffer entry hour).lastHour % hoursLog ∧
      Window hoursLog (advanceRingBuffer entry hour).lastHour (advanceRingBuffer entry hour).slot
        (credits log) from ⟨moved, this.1, same ▸ this.2⟩
  unfold advanceRingBuffer
  split
  · exact ⟨rep.head, rep.window⟩
  · rename_i later
    by_cases far : hoursLog ≤ hour - entry.lastHour
    · -- All eight slots are stale.
      simp only [far, if_true]
      refine ⟨head_ofNat hour, rep.window.advanceFar (by omega) ?_⟩
      intro i _
      exact slot_replicate entry i
    · simp only [far, if_false]
      obtain ⟨aligned, window⟩ := advanceOne_iterate_window rep (hour - entry.lastHour)
      have reached : entry.lastHour + (hour - entry.lastHour) = hour := by omega
      rw [reached] at aligned window
      exact ⟨aligned, window⟩

theorem Represents.update {entry : KnownTimeseriesEntry} {log : List Observation}
    (rep : Represents entry log) (hour : Nat) (n : Int) :
    Represents (addSamples (advanceRingBuffer entry hour) n) (log ++ [⟨hour, some n⟩]) := by
  have advanced := rep.advance hour
  obtain ⟨latest, same⟩ := latestHour_scan log hour
  have now : (advanceRingBuffer entry hour).lastHour = max (latestHour log) hour := by
    rw [advanced.lastHour, latest]
  have window := advanced.window
  rw [same] at window
  have small : (advanceRingBuffer entry hour).head.toNat < hoursLog := by
    rw [advanced.head]
    exact Nat.mod_lt _ (by decide)
  have slots := fun i => slot_setIfInBounds (advanceRingBuffer entry hour)
    (advanceRingBuffer entry hour).head.toNat i
    ((advanceRingBuffer entry hour).slot (advanceRingBuffer entry hour).head.toNat + n) small
  constructor
  · rw [latestHour_append_single]
    exact now
  · exact advanced.head
  · rw [credits_append_single]
    change Window hoursLog (advanceRingBuffer entry hour).lastHour _
      (credits log ++ [(max (latestHour log) hour, n)])
    rw [← now]
    refine window.add (by decide) n ?_ ?_
    · rw [← advanced.head]
      exact (slots _).trans (if_pos rfl)
    · intro i _ other
      rw [← advanced.head] at other
      exact (slots i).trans (if_neg other)

theorem represents_newEntry (entry : TimeseriesEntry) (now : Nat) :
    Represents (newEntry entry now) [⟨now / 3600, some entry.samples⟩] := by
  have aligned := head_ofNat (now / 3600)
  have small : (UInt8.ofNat (now / 3600 % hoursLog)).toNat < hoursLog := by
    rw [aligned]
    exact Nat.mod_lt _ (by decide)
  let blank : KnownTimeseriesEntry :=
    { newEntry entry now with samples := Vector.replicate hoursLog 0 }
  have blank_slot : ∀ i, blank.slot i = 0 := slot_replicate (newEntry entry now)
  have slots := fun i => slot_setIfInBounds blank
    (UInt8.ofNat (now / 3600 % hoursLog)).toNat i entry.samples small
  have opened : Window hoursLog (now / 3600) blank.slot ([] : List (Nat × Int)) :=
    Window.empty (fun i _ => blank_slot i)
  refine ⟨by simp [newEntry, latestHour], aligned, ?_⟩
  have first : credits [⟨now / 3600, some entry.samples⟩] =
      [] ++ [(now / 3600, entry.samples)] := by
    simp [credits, creditsFrom]
  rw [first]
  refine opened.add (by decide) entry.samples ?_ ?_
  · rw [← aligned, blank_slot, zero_add]
    exact (slots _).trans (if_pos rfl)
  · intro i _ other
    rw [← aligned] at other
    exact (slots i).trans (if_neg other)

theorem Represents.congr {entry entry' : KnownTimeseriesEntry} {log : List Observation}
    (rep : Represents entry log) (hour : entry'.lastHour = entry.lastHour)
    (head : entry'.head = entry.head) (samples : entry'.samples = entry.samples) :
    Represents entry' log := by
  have slots : entry'.slot = entry.slot := by
    funext i
    simp only [KnownTimeseriesEntry.slot, samples]
  exact ⟨hour.trans rep.lastHour, by rw [head, hour]; exact rep.head,
    by rw [hour, slots]; exact rep.window⟩

inductive CacheOp where
  | updateTimeseries (key : HashKey) (entry : TimeseriesEntry) (now : Nat)
  | getActive (olderThan batchSize : Int) (now : Nat) (order : List HashKey)
  | getInactive (batchSize : Int) (now : Nat) (order : List HashKey)
  | markSynced (key : HashKey) (now : Nat)
  | markSyncedBatch (keys : List HashKey) (now : Nat)
  | deleteBatch (keys : List HashKey)
  | init

/-- The cache together with the observation log of every key since its entry was created. -/
structure Observed where
  cache : KnownTimeseriesCache
  log : HashKey → List Observation

def Observed.initial : Observed := ⟨∅, fun _ => []⟩

/-- Only the entries a scan touched before its batch was full observe its hour. -/
def afterScan {ι : Type} (s : Observed) (scan : Scan ι) (now : Nat) : Observed :=
  ⟨scan.cache, fun k => if k ∈ scan.touched then s.log k ++ [⟨now / 3600, none⟩] else s.log k⟩

def step (s : Observed) : CacheOp → Option Observed
  | .updateTimeseries key entry now =>
    some ⟨KnownCache.updateTimeseries s.cache key entry now, fun k =>
      if k = key then
        (if key ∈ s.cache then s.log key else []) ++ [⟨now / 3600, some entry.samples⟩]
      else s.log k⟩
  | .getActive olderThan batchSize now order =>
    if IterationOrder s.cache order then
      some (afterScan s (getActiveTimeseriesBatch s.cache olderThan batchSize now order) now)
    else none
  | .getInactive batchSize now order =>
    if IterationOrder s.cache order then
      some (afterScan s (getInactiveTimeseriesBatch s.cache batchSize now order) now)
    else none
  | .markSynced key now => some { s with cache := KnownCache.markSynced s.cache key now }
  | .markSyncedBatch keys now =>
    some { s with cache := KnownCache.markSyncedBatch s.cache keys now }
  | .deleteBatch keys =>
    some ⟨KnownCache.deleteBatch s.cache keys, fun k => if k ∈ keys then [] else s.log k⟩
  | .init => some Observed.initial

/-- Every present entry represents its log. -/
def Tracks (s : Observed) : Prop :=
  ∀ k entry, s.cache.lookup k = some entry → Represents entry (s.log k)

private theorem tracks_afterScan {ι : Type} {s : Observed} {scan : Scan ι} {now : Nat}
    {pick : HashKey → KnownTimeseriesEntry → Option ι}
    (tracks : Tracks s) (effect : ScanEffect (now / 3600) pick s.cache scan) :
    Tracks (afterScan s scan now) := by
  intro k entry found
  have changed : scan.cache.lookup k = some entry := found
  rw [effect.lookup k] at changed
  by_cases visited : k ∈ scan.touched
  · simp only [visited, if_true] at changed
    obtain ⟨old, before, rfl⟩ := Option.map_eq_some_iff.mp changed
    simpa [afterScan, visited] using (tracks k old before).advance (now / 3600)
  · simp only [visited, if_false] at changed
    simpa [afterScan, visited] using tracks k entry changed

private theorem tracks_modify {s : Observed} {key : HashKey} {now : Nat}
    (tracks : Tracks s) :
    Tracks { s with cache := KnownCache.markSynced s.cache key now } := by
  intro k entry found
  change (modify s.cache key _).lookup k = some entry at found
  rw [lookup_modify] at found
  split at found
  · obtain ⟨old, before, rfl⟩ := Option.map_eq_some_iff.mp found
    exact (tracks k old before).congr rfl rfl rfl
  · exact tracks k entry found

private theorem tracks_modifyAll {s : Observed} {keys : List HashKey} {now : Nat}
    (tracks : Tracks s) :
    Tracks { s with cache := KnownCache.markSyncedBatch s.cache keys now } := by
  intro k entry found
  change (KnownCache.markSyncedBatch s.cache keys now).lookup k = some entry at found
  rw [lookup_markSyncedBatch] at found
  split at found
  · obtain ⟨old, before, rfl⟩ := Option.map_eq_some_iff.mp found
    exact (tracks k old before).congr rfl rfl rfl
  · exact tracks k entry found

private theorem tracks_update {s : Observed} {key : HashKey} {entry : TimeseriesEntry} {now : Nat}
    {t : Observed} (tracks : Tracks s) (edge : step s (.updateTimeseries key entry now) = some t) :
    Tracks t := by
  obtain rfl := Option.some.inj edge
  intro k found present
  dsimp only at present ⊢
  rw [lookup_updateTimeseries] at present
  by_cases same : k = key
  · subst same
    simp only [if_true] at present ⊢
    cases old : s.cache.lookup k with
    | none =>
      have absent : k ∉ s.cache := Finmap.lookup_eq_none.mp old
      simp only [old, Option.some.injEq] at present
      subst present
      simpa [absent] using represents_newEntry entry now
    | some existing =>
      have member : k ∈ s.cache := mem_of_lookup old
      simp only [old, Option.some.injEq] at present
      subst present
      simp only [member, if_true]
      exact ((tracks k existing old).update (now / 3600) entry.samples).congr rfl rfl rfl
  · simp only [same, if_false] at present ⊢
    exact tracks k found present

/-- What either getter does: the entries it visits are advanced to the hour it has read, and a
scan for no items visits none. -/
def Scans (s : Observed) (batchSize : Int) (now : Nat) (t : Observed) : Prop :=
  ∃ (ι : Type) (pick : HashKey → KnownTimeseriesEntry → Option ι) (scan : Scan ι),
    ScanEffect (now / 3600) pick s.cache scan ∧ t = afterScan s scan now ∧
      (batchSize ≤ 0 → scan.touched = [])

theorem scans_of_getActive {s t : Observed} {olderThan batchSize : Int} {now : Nat}
    {order : List HashKey} (edge : step s (.getActive olderThan batchSize now order) = some t) :
    Scans s batchSize now t := by
  simp only [step] at edge
  split at edge
  · rename_i visits
    refine ⟨_, _, _,
      getActiveTimeseriesBatch_effect s.cache olderThan batchSize now order visits.1,
      (Option.some.inj edge).symm, fun small => ?_⟩
    rw [getActiveTimeseriesBatch, if_pos small]
  · cases edge

theorem scans_of_getInactive {s t : Observed} {batchSize : Int} {now : Nat}
    {order : List HashKey} (edge : step s (.getInactive batchSize now order) = some t) :
    Scans s batchSize now t := by
  simp only [step] at edge
  split at edge
  · rename_i visits
    refine ⟨_, _, _, getInactiveTimeseriesBatch_effect s.cache batchSize now order visits.1,
      (Option.some.inj edge).symm, fun small => ?_⟩
    rw [getInactiveTimeseriesBatch, if_pos small]
  · cases edge

private theorem tracks_scans {s t : Observed} {batchSize : Int} {now : Nat} (tracks : Tracks s)
    (scans : Scans s batchSize now t) : Tracks t := by
  obtain ⟨ι, pick, scan, effect, rfl, -⟩ := scans
  exact tracks_afterScan tracks effect

theorem step_tracks {s t : Observed} {op : CacheOp} (tracks : Tracks s)
    (edge : step s op = some t) : Tracks t := by
  cases op with
  | updateTimeseries key entry now => exact tracks_update tracks edge
  | getActive olderThan batchSize now order => exact tracks_scans tracks (scans_of_getActive edge)
  | getInactive batchSize now order => exact tracks_scans tracks (scans_of_getInactive edge)
  | markSynced key now =>
    obtain rfl := Option.some.inj edge
    exact tracks_modify tracks
  | markSyncedBatch keys now =>
    obtain rfl := Option.some.inj edge
    exact tracks_modifyAll tracks
  | deleteBatch keys =>
    obtain rfl := Option.some.inj edge
    intro k entry found
    change (deleteAll s.cache keys).lookup k = some entry at found
    rw [lookup_deleteAll] at found
    split at found
    · cases found
    · rename_i kept
      simpa [kept] using tracks k entry found
  | init =>
    obtain rfl := Option.some.inj edge
    intro k entry found
    cases found

/-- For every sequence of cache operations under any clock: `head` is the last hour
modulo eight, at every stage of the advancing loop too, and after advancing to any
hour the sample sum is that of exactly the updates credited inside eight hours. -/
theorem ring_buffer_is_sliding_window {ops : List CacheOp} {s : Observed}
    (run : Run step (fun _ _ => True) Observed.initial ops s) {key : HashKey}
    {entry : KnownTimeseriesEntry} (present : s.cache.lookup key = some entry) :
    entry.lastHour = latestHour (s.log key) ∧
      entry.head.toNat = entry.lastHour % hoursLog ∧
      (∀ n, (advanceOne^[n] entry).head.toNat = (entry.lastHour + n) % hoursLog) ∧
      ∀ hour, (advanceRingBuffer entry hour).lastHour = max hour (latestHour (s.log key)) ∧
        (advanceRingBuffer entry hour).head.toNat =
          (advanceRingBuffer entry hour).lastHour % hoursLog ∧
        sumSamples (advanceRingBuffer entry hour) =
          windowSum hoursLog (max hour (latestHour (s.log key))) (credits (s.log key)) := by
  have tracks : Tracks s := run.stateInvariant Tracks
    (fun k entry found => by cases found) (fun held _ edge => step_tracks held edge)
  have rep := tracks key entry present
  refine ⟨rep.lastHour, rep.head, fun n => (advanceOne_iterate_window rep n).1, ?_⟩
  intro hour
  have advanced := rep.advance hour
  obtain ⟨latest, same⟩ := latestHour_scan (s.log key) hour
  have reached : (advanceRingBuffer entry hour).lastHour = max hour (latestHour (s.log key)) := by
    rw [advanced.lastHour, latest, max_comm]
  refine ⟨reached, advanced.head, ?_⟩
  rw [sumSamples_eq, advanced.window.sum (by decide), same, reached]

/-- Five samples at hour 0, a scan at hour 3, two samples under a clock set back to
hour 1: at hour 8 only the two samples are left. -/
private def setBackOps : List CacheOp :=
  let key := HashKey.repeated 7
  [.updateTimeseries key ⟨[], [], 5⟩ 100, .getActive 0 10 11000 [key],
    .updateTimeseries key ⟨[], [], 2⟩ 3700]

theorem sliding_window_after_set_back :
    ∃ (s : Observed) (entry : KnownTimeseriesEntry),
      Run step (fun _ _ => True) Observed.initial setBackOps s ∧
        s.cache.lookup (HashKey.repeated 7) = some entry ∧
        sumSamples (advanceRingBuffer entry 8) = 2 := by
  let check : Observed → Bool := fun s =>
    (s.cache.lookup (HashKey.repeated 7)).isSome &&
      decide (windowSum hoursLog (max 8 (latestHour (s.log (HashKey.repeated 7))))
        (credits (s.log (HashKey.repeated 7))) = 2)
  have executed : (exec step (fun _ _ => true) Observed.initial setBackOps).any check = true := by
    decide
  obtain ⟨s, run, checked⟩ :=
    exists_run_of_exec (fun _ _ => true) setBackOps check (fun _ _ _ => trivial) executed
  obtain ⟨found, total⟩ := Bool.and_eq_true_iff.mp checked
  obtain ⟨entry, present⟩ := Option.isSome_iff_exists.mp found
  refine ⟨s, entry, run, present, ?_⟩
  have window := ((ring_buffer_is_sliding_window run present).2.2.2 8).2.2
  exact window.trans (of_decide_eq_true total)

end SignalAgent.Index.SlidingWindow
