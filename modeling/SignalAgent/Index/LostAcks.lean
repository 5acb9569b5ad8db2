/- MID: SignalAgent/Index/LostAcks
   layer: results
   source: components/edgecontroller/extension.go, components/edgecontroller/timeseries_processor.go
   digest: Lost acks keep the index live unless a delete is given up after it acted. -/

import SignalAgent.Index.IntakeRaces

set_option autoImplicit false
set_option relaxedAutoImplicit false

namespace SignalAgent.Index.LostAcks

open Foundations.GoMaps Foundations.GuardedRuns
open KnownCache IndexSync IndexWorld IndexInvariant IntakeRaces

/-- Intake takes one step per key; messages and acks may be lost or late, loops may be
started and stopped at any time. -/
def atomicIntake : Action → Bool
  | .receive _ | .check _ | .add _ | .update _ _ => false
  | _ => true

/-- Nothing is on the stream and no call waits for an ack. -/
def streamIdle (w : World) : Bool :=
  w.outbound.isEmpty && w.inbound.isEmpty && w.loops.all (fun loop => !loop.isWaiting)

/-- A delete that can still act or has acted on the backend is not given up, and a create
is committed while the backend still holds its keys. -/
def LossSafe (w : World) : Action → Prop
  | .giveUp l => ∀ id keys answered next,
      w.loops[l]? = some (.waiting id (.delete keys) answered next) →
        id ∉ w.applied ∧ ∀ sent ∈ w.outbound, sent.1 ≠ id
  | .commit l _ => ∀ id rows answered next,
      w.loops[l]? = some (.waiting id (.create rows) answered next) →
        ∀ key ∈ rows.map Prod.fst, key.bytes ∈ w.index
  | _ => True

private theorem intakes_step {w w' : World} {a : Action} (none : w.intakes = [])
    (guard : atomicIntake a = true ∧ LossSafe w a) (stepped : step w a = some w') :
    w'.intakes = [] := by
  cases effect_of_step stepped with
  | receive => cases guard.1
  | check => cases guard.1
  | add => cases guard.1
  | update => cases guard.1
  | intakeKey key entry now =>
    rw [intakes_intakeWhole]
    exact none
  | commit l now id batch next here => cases batch <;> exact none
  | _ => exact none

private theorem safe_of_lossSafe {w w' : World} {a : Action} (none : w.intakes = [])
    (guard : atomicIntake a = true ∧ LossSafe w a) (_stepped : step w a = some w') : Safe w a := by
  cases a with
  | giveUp l =>
    intro id batch answered next here
    cases batch with
    | delete keys => exact guard.2 id keys answered next here
    | _ => trivial
  | commit l now =>
    intro id batch answered next here
    cases batch with
    | create rows => exact guard.2 id rows answered next here
    | delete keys =>
      rintro key - ⟨entry, rest, member⟩
      rw [none] at member
      cases member
    | update items => trivial
  | _ => trivial

/-- In every run with atomic intake, whatever is lost and however often the stream
reconnects, the index is live whenever the stream is idle, provided every step is loss safe. -/
theorem index_live_despite_lost_acks {acts : List Action} {w : World}
    (run : Run step (fun w a => atomicIntake a = true ∧ LossSafe w a) World.initial acts w)
    (idle : streamIdle w = true) : IndexLive w := by
  have safe := run.strengthen (fun w => w.intakes = []) rfl intakes_step safe_of_lossSafe
  have sound := sound_run safe
  have calls : w.intakes = [] := run.stateInvariant (fun w => w.intakes = []) rfl intakes_step
  simp only [streamIdle, Bool.and_eq_true, List.all_eq_true, Bool.not_eq_true'] at idle
  refine indexLive_of_sound sound ?_ idle.2
  rw [calls]
  intro intake member
  cases member

private def lossTest (w : World) (a : Action) : Bool :=
  atomicIntake a && match a with
    | .giveUp l => match w.loops[l]? with
      | some (.waiting id (.delete _) _ _) =>
        decide (id ∉ w.applied ∧ ∀ sent ∈ w.outbound, sent.1 ≠ id)
      | _ => true
    | .commit l _ => match w.loops[l]? with
      | some (.waiting _ (.create rows) _ _) =>
        decide (∀ key ∈ rows.map Prod.fst, key.bytes ∈ w.index)
      | _ => true
    | _ => true

private theorem lossTest_sound (w : World) (a : Action) (passed : lossTest w a = true) :
    atomicIntake a = true ∧ LossSafe w a := by
  obtain ⟨atomic, tested⟩ := Bool.and_eq_true_iff.mp passed
  refine ⟨atomic, ?_⟩
  cases a with
  | giveUp l =>
    intro id keys answered next here
    simpa only [here, decide_eq_true_eq] using tested
  | commit l now =>
    intro id rows answered next here
    simpa only [here, decide_eq_true_eq] using tested
  | _ => trivial

/-- The ack of the first create is lost; a second connection announces the series again. -/
def announcedTwice : List Action :=
  [.intakeKey seriesKey seriesEntry 0, .connect, .getBatch 0 [seriesKey], .send 0, .apply 1,
    .dropAck 1, .giveUp 0, .stop 0, .connect, .getBatch 1 [seriesKey], .send 1, .apply 2,
    .ackArrives 2, .commit 1 0]

theorem announced_twice_is_live :
    ∃ w, Run step (fun w a => atomicIntake a = true ∧ LossSafe w a) World.initial announcedTwice w ∧
      seriesKey ∈ w.known ∧ IndexLive w := by
  have executed : (exec step lossTest World.initial announcedTwice).any
      (fun w => streamIdle w && decide (seriesKey ∈ w.known)) = true := by
    decide +kernel
  obtain ⟨w, run, final⟩ := exists_run_of_exec lossTest announcedTwice _ lossTest_sound executed
  obtain ⟨idle, known⟩ := Bool.and_eq_true_iff.mp final
  exact ⟨w, run, of_decide_eq_true known, index_live_despite_lost_acks run idle⟩

/-- The delete of an expired series acts on the backend, its ack is lost, and the series
becomes active again before the delete is retried. -/
def activeAfterLostAck : List Action :=
  [.intakeKey seriesKey seriesEntry 0, .connect, .getBatch 0 [seriesKey], .send 0, .apply 1,
    .ackArrives 1, .commit 0 0, .getBatch 0 [], .getActive 0 32400 32400 [seriesKey],
    .getInactive 0 32400 [seriesKey], .send 0, .apply 2, .dropAck 2, .giveUp 0,
    .intakeKey seriesKey seriesEntry 32430]

theorem series_active_after_lost_ack_is_never_announced :
    ¬ ∀ acts w, Run step (fun _ a => atomicIntake a = true) World.initial acts w →
      streamIdle w = true → IndexLive w := by
  intro live
  have executed : (exec step (fun _ a => atomicIntake a) World.initial activeAfterLostAck).any
      (fun w => streamIdle w && decide (seriesKey ∈ w.known ∧ seriesKey ∉ w.discovered ∧
        seriesKey.bytes ∉ w.index)) = true := by
    decide +kernel
  obtain ⟨w, run, final⟩ := exists_run_of_exec (fun _ a => atomicIntake a) activeAfterLostAck _
    (fun _ _ passed => passed) executed
  obtain ⟨idle, lost⟩ := Bool.and_eq_true_iff.mp final
  obtain ⟨known, absent, unindexed⟩ := of_decide_eq_true lost
  exact (live _ w run idle seriesKey known).elim absent unindexed

end SignalAgent.Index.LostAcks
