/- MID: SignalAgent/Index/IdleDeletes
   layer: results
   source: components/edgecontroller/timeseries_processor.go,
     components/edgecontroller/known_timeseries_cache.go
   digest: A deleted entry is idle unless samples were counted while its delete was out. -/

import Mathlib.Algebra.Order.BigOperators.Group.Finset
import SignalAgent.Index.SlidingWindow
import SignalAgent.Index.UpdateOrder

set_option autoImplicit false
set_option relaxedAutoImplicit false

namespace SignalAgent.Index.IdleDeletes

open Foundations.GoMaps Foundations.GuardedRuns
open KnownCache IndexSync IndexWorld IntakeRaces
open SlidingWindow (sumSamples_eq)
open UpdateOrder (atomicLoop ClockAdvances)

/-- The keys the next commit of this loop removes from the known cache. -/
def removes : Loop → List HashKey
  | .waiting _ (.delete keys) true _ => keys
  | _ => []

/-- Whatever the commit of a delete removes has no sample in the eight hours that end with
the hour of the clock. -/
def RemovesIdle (w : World) : Action → Prop
  | .commit l now => ∀ loop, w.loops[l]? = some loop → ∀ key ∈ removes loop, ∀ entry,
      w.known.lookup key = some entry → sumSamples (advanceRingBuffer entry (now / 3600)) = 0
  | _ => True

/-- The count is not negative, and if it is positive no loop holds the key in a delete. -/
def Harmless (w : World) (key : HashKey) (entry : TimeseriesEntry) : Prop :=
  0 ≤ entry.samples ∧ (entry.samples = 0 ∨ ∀ loop ∈ w.loops, key ∉ loop.deleting)

def CountsHarmless (w : World) : Action → Prop
  | .update i _ => ∀ key entry rest, w.intakes[i]? = some (.updating key entry rest) →
      Harmless w key entry
  | .intakeKey key entry _ => Harmless w key entry
  | _ => True

section

variable {p : Int → Prop} {entry : KnownTimeseriesEntry}

private theorem slot_set (zero : p 0) {samples : Vector Int hoursLog}
    (all : ∀ i : Nat, p (samples[i]?.getD 0)) {v : Int} (new : p v) (j i : Nat) :
    p ((samples.setIfInBounds j v)[i]?.getD 0) := by
  rw [Vector.getElem?_setIfInBounds]
  split
  · split
    · exact new
    · exact zero
  · exact all i

private theorem slot_replicated (zero : p 0) (i : Nat) :
    p ((Vector.replicate hoursLog (0 : Int))[i]?.getD 0) := by
  rw [Vector.getElem?_replicate]
  split <;> exact zero

private theorem slot_iterate (zero : p 0) (all : ∀ i, p (entry.slot i)) (n : Nat) :
    ∀ i, p ((advanceOne^[n] entry).slot i) := by
  induction n with
  | zero => exact all
  | succ n ih =>
    rw [Function.iterate_succ_apply']
    exact slot_set zero ih zero _

theorem slot_advanceRingBuffer (zero : p 0) (all : ∀ i, p (entry.slot i)) (hour : Nat) :
    ∀ i, p ((advanceRingBuffer entry hour).slot i) := by
  unfold advanceRingBuffer
  split
  · exact all
  · dsimp only
    split
    · exact slot_replicated zero
    · exact slot_iterate zero all _

theorem slot_addSamples (zero : p 0) (all : ∀ i, p (entry.slot i)) {n : Int}
    (added : ∀ x, p x → p (x + n)) : ∀ i, p ((addSamples entry n).slot i) :=
  slot_set zero all (added _ (all _)) _

theorem slot_newEntry (zero : p 0) {new : TimeseriesEntry} (counted : p new.samples) (now : Nat) :
    ∀ i, p ((newEntry new now).slot i) :=
  slot_set zero (slot_replicated zero) counted _

end

private theorem sumSamples_of_idle {entry : KnownTimeseriesEntry} (idle : ∀ i, entry.slot i = 0) :
    sumSamples entry = 0 := by
  rw [sumSamples_eq]
  exact Finset.sum_eq_zero (fun i _ => idle i)

private theorem idle_of_sumSamples {entry : KnownTimeseriesEntry} (counts : ∀ i, 0 ≤ entry.slot i)
    (nothing : sumSamples entry = 0) (i : Nat) : entry.slot i = 0 := by
  by_cases inside : i < hoursLog
  · rw [sumSamples_eq] at nothing
    exact (Finset.sum_eq_zero_iff_of_nonneg (fun j _ => counts j)).mp nothing i
      (Finset.mem_range.mpr inside)
  · have absent : entry.samples[i]? = none := Vector.getElem?_eq_none (Nat.le_of_not_lt inside)
    simp [KnownTimeseriesEntry.slot, absent]

/-- The entry of the key, if there is one, has this property in every slot. -/
private def SlotsOf (p : Int → Prop) (known : KnownTimeseriesCache) (key : HashKey) : Prop :=
  ∀ entry, known.lookup key = some entry → ∀ i, p (entry.slot i)

section

variable {p : Int → Prop} {known : KnownTimeseriesCache} {key : HashKey}

private theorem SlotsOf.scan {ι : Type} (slots : SlotsOf p known key) (zero : p 0) {hour : Nat}
    {pick : HashKey → KnownTimeseriesEntry → Option ι} {scan : Scan ι}
    (effect : ScanEffect hour pick known scan) : SlotsOf p scan.cache key := by
  intro entry found
  rw [effect.lookup key] at found
  split at found
  · obtain ⟨old, before, rfl⟩ := Option.map_eq_some_iff.mp found
    exact slot_advanceRingBuffer zero (slots old before) hour
  · exact slots entry found

private theorem SlotsOf.update (slots : SlotsOf p known key) (zero : p 0) {counted : HashKey}
    {new : TimeseriesEntry} (now : Nat)
    (added : key = counted → ∀ x, p x → p (x + new.samples)) :
    SlotsOf p (updateTimeseries known counted new now) key := by
  intro entry found
  rw [lookup_updateTimeseries] at found
  split at found
  · rename_i same
    subst same
    have fresh : p new.samples := by simpa using added rfl 0 zero
    obtain rfl := Option.some.inj found
    split
    · exact slot_newEntry zero fresh now
    · rename_i old before
      exact slot_addSamples zero (slot_advanceRingBuffer zero (slots old before) _) (added rfl)
  · exact slots entry found

private theorem SlotsOf.deleteBatch (slots : SlotsOf p known key) (keys : List HashKey) :
    SlotsOf p (deleteBatch known keys) key := by
  intro entry found
  have before : (deleteAll known keys).lookup key = some entry := found
  rw [lookup_deleteAll] at before
  split at before
  · cases before
  · exact slots entry before

private theorem SlotsOf.markSyncedBatch (slots : SlotsOf p known key) (keys : List HashKey)
    (now : Nat) : SlotsOf p (markSyncedBatch known keys now) key := by
  intro entry found
  rw [lookup_markSyncedBatch] at found
  split at found
  · obtain ⟨old, before, rfl⟩ := Option.map_eq_some_iff.mp found
    exact slots old before
  · exact slots entry found

end

/-- No slot is negative, and what a loop is about to delete has nothing but empty slots. -/
private structure Idle (known : KnownTimeseriesCache) (loops : List Loop) : Prop where
  counts : ∀ key, SlotsOf (0 ≤ ·) known key
  idle : ∀ loop ∈ loops, ∀ key ∈ loop.deleting, SlotsOf (· = 0) known key

section

variable {known known' : KnownTimeseriesCache} {loops : List Loop}

private theorem Idle.setLoop (held : Idle known loops) {l : Nat} {new : Loop}
    (idle : ∀ key ∈ new.deleting, SlotsOf (· = 0) known key) : Idle known (loops.set l new) := by
  refine ⟨held.counts, fun loop member => ?_⟩
  rcases List.mem_or_eq_of_mem_set member with member | rfl
  · exact held.idle loop member
  · exact idle

private theorem Idle.scan (held : Idle known loops) {ι : Type} {hour : Nat}
    {pick : HashKey → KnownTimeseriesEntry → Option ι} {scan : Scan ι}
    (effect : ScanEffect hour pick known scan) : Idle scan.cache loops :=
  ⟨fun key => (held.counts key).scan (Int.le_refl 0) effect,
    fun loop member key deleted => (held.idle loop member key deleted).scan rfl effect⟩

private theorem Idle.update {w : World} (held : Idle w.known w.loops) {key : HashKey}
    {entry : TimeseriesEntry} (harmless : Harmless w key entry) (now : Nat) :
    Idle (updateTimeseries w.known key entry now) w.loops := by
  obtain ⟨count, unheld⟩ := harmless
  refine ⟨fun k => (held.counts k).update (Int.le_refl 0) now (fun _ x nonneg => ?_), ?_⟩
  · show 0 ≤ x + entry.samples
    omega
  · intro loop member k deleted
    refine (held.idle loop member k deleted).update rfl now (fun same x none => ?_)
    subst same
    rcases unheld with nothing | apart
    · show x + entry.samples = 0
      omega
    · exact absurd deleted (apart loop member)

private theorem Idle.inactive (held : Idle known loops) {hour : Nat} {scan : Scan HashKey}
    (effect : ScanEffect hour pickInactive known scan)
    (visited : ∀ key ∈ scan.items, key ∈ scan.touched) :
    ∀ key ∈ scan.items, SlotsOf (· = 0) scan.cache key := by
  intro key listed entry found
  obtain ⟨k, old, before, picked⟩ := effect.items key listed
  obtain ⟨rfl, nothing⟩ := pickInactive_eq_some picked
  rw [effect.lookup key, if_pos (visited key listed), before] at found
  obtain rfl := Option.some.inj found
  have counts := slot_advanceRingBuffer (Int.le_refl 0) (held.counts key old before) hour
  exact idle_of_sumSamples counts nothing

end

private theorem deleting_deliver (id : Nat) (loop : Loop) :
    (deliver id loop).deleting = loop.deleting := by
  cases loop with
  | waiting waited batch answered next => cases batch <;> rfl
  | _ => rfl

private theorem deleting_waiting (id : Nat) (batch : Batch)
    (next : List KnownActiveTimeseriesItem) :
    (Loop.waiting id batch false next).deleting = (Loop.sending batch next).deleting := by
  cases batch <;> rfl

private theorem mem_deleting_of_removes {loop : Loop} {key : HashKey}
    (removed : key ∈ removes loop) : key ∈ loop.deleting := by
  unfold removes at removed
  split at removed
  · exact removed
  · cases removed

private theorem idle_internal {w w' : World} {a : Action} (held : Idle w.known w.loops)
    (internal : a.isInternal = true) (stepped : step w a = some w') :
    Idle w'.known w'.loops := by
  cases a with
  | stop l =>
    obtain ⟨-, rfl⟩ := stop_of_step stepped
    exact held.setLoop (by simp [Loop.deleting])
  | getBatch l order =>
    obtain ⟨-, -, rfl⟩ := getBatch_of_step stepped
    exact held.setLoop (by simp)
  | getActive l thresholdNow now order =>
    obtain ⟨-, scan, effect, rfl⟩ := getActive_of_step stepped
    exact (held.scan effect).setLoop (by simp [Loop.deleting])
  | getInactive l now order =>
    obtain ⟨active, scan, -, effect, visited, rfl⟩ := getInactive_of_step stepped
    have inactive := held.inactive effect visited
    exact (held.scan effect).setLoop
      (fun key deleted => inactive key (mem_deleting_afterGetInactive deleted))
  | abandon l =>
    obtain ⟨batch, next, -, rfl⟩ := abandon_of_step stepped
    exact held.setLoop (by simp [Loop.deleting])
  | _ => cases internal

private theorem idle_commitBatch {w : World} (held : Idle w.known w.loops) (now : Nat)
    (batch : Batch) : Idle (w.commitBatch now batch).known (w.commitBatch now batch).loops := by
  cases batch with
  | create rows => exact held
  | delete keys =>
    exact ⟨fun key => (held.counts key).deleteBatch keys,
      fun loop member key deleted => (held.idle loop member key deleted).deleteBatch keys⟩
  | update items =>
    exact ⟨fun key => (held.counts key).markSyncedBatch _ now,
      fun loop member key deleted => (held.idle loop member key deleted).markSyncedBatch _ now⟩

private theorem idle_step {w w' : World} {a : Action} (held : Idle w.known w.loops)
    (harmless : CountsHarmless w a) (stepped : step w a = some w') : Idle w'.known w'.loops := by
  cases effect_of_step stepped with
  | receive => exact held
  | check => exact held
  | add => exact held
  | update i now key entry rest here => exact held.update (harmless key entry rest here) now
  | intakeKey key entry now =>
    rw [known_intakeWhole, loops_intakeWhole]
    exact held.update harmless now
  | connect =>
    refine ⟨held.counts, fun loop member => ?_⟩
    rcases List.mem_append.mp member with member | member
    · exact held.idle loop member
    · obtain rfl := List.mem_singleton.mp member
      simp [Loop.deleting]
  | loopMove a l old new known internal => exact idle_internal held internal stepped
  | send l batch next here =>
    refine held.setLoop ?_
    rw [deleting_waiting]
    exact held.idle _ (List.mem_of_getElem? here)
  | apply => exact held
  | dropMessage => exact held
  | ackArrives id acked =>
    refine ⟨held.counts, fun loop member => ?_⟩
    obtain ⟨old, listed, rfl⟩ := List.mem_map.mp member
    rw [deleting_deliver]
    exact held.idle old listed
  | dropAck => exact held
  | giveUp => exact held.setLoop (by simp [Loop.deleting])
  | commit l now id batch next here =>
    refine idle_commitBatch (w := w.setLoop l (afterCommit next)) ?_ now batch
    exact held.setLoop (by simp)

/-- In every run in which no samples are counted for a key while a loop holds it in a delete,
whatever a commit removes has no sample left in its window. -/
theorem removed_entry_is_idle {acts : List Action} {w : World}
    (run : Run step CountsHarmless World.initial acts w) (a : Action) : RemovesIdle w a := by
  have base : Idle World.initial.known World.initial.loops := by
    refine ⟨?_, by simp [World.initial]⟩
    intro key entry found
    exact absurd (mem_of_lookup found) Finmap.notMem_empty
  have held := run.stateInvariant (fun w => Idle w.known w.loops) base idle_step
  cases a with
  | commit l now =>
    intro loop here key removed entry found
    have deleted : key ∈ loop.deleting := mem_deleting_of_removes removed
    have idle := held.idle loop (List.mem_of_getElem? here) key deleted entry found
    exact sumSamples_of_idle (slot_advanceRingBuffer (p := (· = 0)) rfl idle _)
  | _ => trivial

private def harmlessTest (w : World) : Action → Bool
  | .update i _ => match w.intakes[i]? with
    | some (.updating key entry _) =>
      0 ≤ entry.samples && w.loops.all (fun loop => key ∉ loop.deleting)
    | _ => true
  | .intakeKey key entry _ => 0 ≤ entry.samples && w.loops.all (fun loop => key ∉ loop.deleting)
  | _ => true

private theorem harmlessTest_sound (w : World) (a : Action) (passed : harmlessTest w a = true) :
    CountsHarmless w a := by
  cases a with
  | update i now =>
    intro key entry rest here
    simp only [harmlessTest, here, Bool.and_eq_true, List.all_eq_true, decide_eq_true_eq] at passed
    exact ⟨passed.1, Or.inr passed.2⟩
  | intakeKey key entry now =>
    simp only [harmlessTest, Bool.and_eq_true, List.all_eq_true, decide_eq_true_eq] at passed
    exact ⟨passed.1, Or.inr passed.2⟩
  | _ => trivial

/-- Nine hours after its last sample the series is read as inactive and its delete is acked. -/
def deleteAcked : List Action :=
  [.intakeKey seriesKey seriesEntry 0, .connect, .getBatch 0 [seriesKey], .send 0, .apply 1,
    .ackArrives 1, .commit 0 0, .getBatch 0 [], .getActive 0 32400 32400 [seriesKey],
    .getInactive 0 32400 [seriesKey], .send 0, .apply 2, .ackArrives 2]

theorem acked_delete_removes_idle_series :
    ∃ w loop entry, Run step CountsHarmless World.initial deleteAcked w ∧
      w.loops[0]? = some loop ∧ seriesKey ∈ removes loop ∧
      w.known.lookup seriesKey = some entry ∧
      sumSamples (advanceRingBuffer entry (32401 / 3600)) = 0 := by
  have executed : (exec step harmlessTest World.initial deleteAcked).any (fun w =>
      w.loops[0]?.any (fun loop => seriesKey ∈ removes loop) &&
        (w.known.lookup seriesKey).isSome) = true := by
    decide +kernel
  obtain ⟨w, run, final⟩ := exists_run_of_exec harmlessTest deleteAcked _ harmlessTest_sound
    executed
  obtain ⟨held, known⟩ := Bool.and_eq_true_iff.mp final
  obtain ⟨loop, here, listed⟩ := (Option.any_eq_true _ _).mp held
  obtain ⟨entry, found⟩ := Option.isSome_iff_exists.mp known
  have removed : seriesKey ∈ removes loop := of_decide_eq_true listed
  exact ⟨w, loop, entry, run, here, removed, found,
    removed_entry_is_idle run (.commit 0 32401) loop here seriesKey removed entry found⟩

/-- A sample counted between the ack of a delete and its commit is removed with the entry. -/
theorem sample_counted_during_delete_is_removed :
    ¬ ∀ acts w a, Run step (fun w a => atomicLoop w a = true) World.initial acts w →
      ClockAdvances (acts ++ [a]) → RemovesIdle w a := by
  intro idle
  have executed : (exec step atomicLoop World.initial
      (deleteAcked ++ [.intakeKey seriesKey seriesEntry 32401])).any (fun w =>
        w.loops[0]?.any (fun loop => seriesKey ∈ removes loop) &&
          (w.known.lookup seriesKey).any (fun entry =>
            sumSamples (advanceRingBuffer entry (32402 / 3600)) = 1)) = true := by
    decide +kernel
  obtain ⟨w, run, final⟩ := exists_run_of_exec atomicLoop _ _ (fun _ _ passed => passed) executed
  obtain ⟨held, known⟩ := Bool.and_eq_true_iff.mp final
  obtain ⟨loop, here, listed⟩ := (Option.any_eq_true _ _).mp held
  obtain ⟨entry, found, counted⟩ := (Option.any_eq_true _ _).mp known
  have removed : seriesKey ∈ removes loop := of_decide_eq_true listed
  have one : sumSamples (advanceRingBuffer entry (32402 / 3600)) = 1 := of_decide_eq_true counted
  have none := idle _ w (.commit 0 32402) run (by decide) loop here seriesKey removed entry found
  rw [one] at none
  cases none

end SignalAgent.Index.IdleDeletes
