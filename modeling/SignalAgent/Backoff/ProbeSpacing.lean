/- MID: SignalAgent/Backoff/ProbeSpacing
   layer: results
   source: components/ingestbackoff/extension.go
   digest: While paused the valve admits nothing within an interval of a rejection or a probe. -/

import Mathlib.Data.List.Induction
import SignalAgent.Backoff.IngestValve

set_option autoImplicit false
set_option relaxedAutoImplicit false

namespace SignalAgent.Backoff.ProbeSpacing

open Foundations.GoText Foundations.GuardedRuns Foundations.EventLogs
open IngestValve

/-- The two events that start a hold: a rejection, and an admission during a pause. -/
def Arms (log : List Stamped) (x : Stamped) : Prop :=
  x.Forbids ∨ ((∃ i, x.Admits i) ∧ Paused log)

/-- A hold was started at this time and the pause has not been lifted since. -/
def ArmedAt (time : Int) (log : List Stamped) : Prop :=
  Since (fun before x => Arms before x ∧ x.time = time) Stamped.Lifts log

/-- What an admission needs of the log in front of it. -/
def Spaced (cfg : Config) (log : List Stamped) (x : Stamped) : Prop :=
  (∃ i, x.Admits i) → ∀ time, ArmedAt time log → time + cfg.retryInterval ≤ x.time

theorem armedAt_concat {time : Int} {log : List Stamped} {x : Stamped} :
    ArmedAt time (log ++ [x]) ↔ (Arms log x ∧ x.time = time) ∨ (ArmedAt time log ∧ ¬ x.Lifts) :=
  since_concat x

private theorem paused_of_arms {log : List Stamped} {x : Stamped} (arms : Arms log x) :
    Paused (log ++ [x]) := by
  rcases arms with forbids | ⟨⟨i, admits⟩, paused⟩
  · unfold Stamped.Forbids at forbids
    simp [Paused, forbids]
  · obtain ⟨time, event⟩ := x
    have same : event = .admitted i := admits
    subst same
    exact paused.concat (not_lifts_admitted time i)

theorem paused_of_armedAt {time : Int} {log : List Stamped} (armed : ArmedAt time log) :
    Paused log := by
  -- A hold that is still on belongs to a pause that is still on.
  induction log using List.reverseRecOn with
  | nil => exact absurd armed not_since_nil
  | append_singleton log x ih =>
    rcases armedAt_concat.mp armed with ⟨arms, -⟩ | ⟨earlier, kept⟩
    · exact paused_of_arms arms
    · exact (ih earlier).concat kept

/-- The clock has passed every logged event, and every hold still on ends at `holdUntil` or
before. -/
structure Held (cfg : Config) (s : Observed) : Prop where
  clock : ∀ x ∈ s.log, x.time ≤ s.state.now
  paused : s.state.valve.paused = true ↔ Paused s.log
  hold : ∀ time, ArmedAt time s.log → time + cfg.retryInterval ≤ s.state.valve.holdUntil

section

variable {cfg : Config} {intervalText : GoString} {s t : Observed} {a : Action}

theorem time_of_event {x : Stamped} (emitted : valveEvent cfg s.state a = some x) :
    x.time = s.state.now := by
  cases a with
  | allow i => exact (Option.some.inj emitted) ▸ rfl
  | observe i =>
    simp only [valveEvent] at emitted
    split at emitted
    · exact (Option.some.inj emitted) ▸ rfl
    · cases emitted
  | _ => cases emitted

private theorem clock_forward {w w' : World} {e : Option Stamped}
    (effect : Effect cfg intervalText w a w' e) : w.now ≤ w'.now := by
  cases effect with
  | tick later forward => exact forward
  | _ => exact Int.le_refl _

private theorem clock_step (clock : ∀ x ∈ s.log, x.time ≤ s.state.now)
    (stepped : valveStep cfg intervalText s a = some t) : ∀ x ∈ t.log, x.time ≤ t.state.now := by
  obtain ⟨e, effect, -⟩ := effect_of_valveStep stepped
  have forward := clock_forward effect
  intro x member
  rw [(logStep_eq_some stepped).2] at member
  rcases List.mem_append.mp member with member | member
  · exact Int.le_trans (clock x member) forward
  · rw [time_of_event (Option.mem_toList.mp member)]
    exact forward

private theorem hold_step (held : Held cfg s)
    (stepped : valveStep cfg intervalText s a = some t) :
    ∀ time, ArmedAt time t.log → time + cfg.retryInterval ≤ t.state.valve.holdUntil := by
  obtain ⟨w, log⟩ := s
  obtain ⟨w', log'⟩ := t
  obtain ⟨e, effect, logged⟩ := effect_of_valveStep stepped
  obtain ⟨clock, paused, hold⟩ := held
  dsimp only at clock paused hold effect logged ⊢
  subst logged
  -- A hold that was on ends before one that starts now.
  have before : ∀ time, ArmedAt time log → time ≤ w.now := by
    rintro time ⟨earlier, x, later, split, ⟨-, same⟩, -⟩
    rw [← same]
    exact clock x (by simp [split])
  have upToNow : ∀ time x, x.time = w.now → ArmedAt time (log ++ [x]) → time ≤ w.now := by
    intro time x now armed
    rcases armedAt_concat.mp armed with ⟨-, same⟩ | ⟨earlier, -⟩
    · omega
    · exact before time earlier
  cases effect with
  | tick => simpa using hold
  | enter => simpa using hold
  | admitted i here flowing =>
    intro time armed
    rcases armedAt_concat.mp armed with ⟨arms | ⟨-, inPause⟩, -⟩ | ⟨earlier, -⟩
    · simp [Stamped.Forbids] at arms
    · rw [paused.mpr inPause] at flowing
      cases flowing
    · exact hold time earlier
  | probe i here isPaused due =>
    intro time armed
    exact Int.add_le_add_right (upToNow time _ rfl armed) cfg.retryInterval
  | suppressed i here isPaused tooEarly =>
    intro time armed
    rcases armedAt_concat.mp armed with ⟨arms | ⟨⟨j, admits⟩, -⟩, -⟩ | ⟨earlier, -⟩
    · simp [Stamped.Forbids] at arms
    · cases admits
    · exact hold time earlier
  | respond => simpa [World.setAttempt] using hold
  | fail => simpa [World.setAttempt] using hold
  | forbidden i response here status =>
    intro time armed
    exact Int.add_le_add_right (upToNow time _ rfl armed) cfg.retryInterval
  | accepted i response here status =>
    intro time armed
    rcases armedAt_concat.mp armed with ⟨arms | ⟨⟨j, admits⟩, -⟩, -⟩ | ⟨-, kept⟩
    · simp [Stamped.Forbids, status] at arms
    · cases admits
    · exact absurd ((lifts_observed _ _ _).mpr status) kept

theorem held_step (held : Held cfg s)
    (stepped : valveStep cfg intervalText s a = some t) : Held cfg t :=
  ⟨clock_step held.clock stepped, paused_step held.paused stepped, hold_step held stepped⟩

theorem spaced_of_held {x : Stamped} (held : Held cfg s)
    (emitted : valveEvent cfg s.state a = some x) : Spaced cfg s.log x := by
  rintro ⟨i, admits⟩ time armed
  have paused : s.state.valve.paused = true := held.paused.mpr (paused_of_armedAt armed)
  have ends := held.hold time armed
  cases a with
  | allow j =>
    obtain rfl := Option.some.inj emitted
    have admitted : (allow cfg s.state.now s.state.valve).1 = true := by
      by_contra refused
      simp [Stamped.Admits, refused] at admits
    have due : ¬ s.state.now < s.state.valve.holdUntil := by
      intro early
      simp [allow, paused, early] at admitted
    show time + cfg.retryInterval ≤ s.state.now
    omega
  | observe j =>
    simp only [valveEvent] at emitted
    split at emitted
    · obtain rfl := Option.some.inj emitted
      cases admits
    · cases emitted
  | _ => cases emitted

end

theorem held_initial (cfg : Config) (start : Int) : Held cfg ⟨World.initial start, []⟩ := by
  refine ⟨by simp, ?_, fun time armed => absurd armed not_since_nil⟩
  simp [World.initial, newBackoffExtension, Paused, lastObserved]

/-- Over every interleaving of round trips under a clock that never goes back: within one
interval of a rejection nothing is admitted before another response is observed; two attempts
admitted in one pause are an interval apart; the valve is paused exactly after a rejection; and
a suppressed attempt leaves the valve as it was. -/
theorem valve_limits_the_rate {cfg : Config} {intervalText : GoString} {start : Int}
    {acts : List Action} {s : Observed}
    (run : Run (valveStep cfg intervalText) (fun _ _ => True) ⟨World.initial start, []⟩ acts s) :
    (∀ before after i rejected time,
        s.log = before ++ ⟨rejected, .observed i statusForbidden⟩ :: after →
        rejected ≤ time → time < rejected + cfg.retryInterval →
        (∀ x ∈ after, x.time ≤ time → ¬ x.Lifts) →
        ∀ x ∈ after, x.time ≤ time → ∀ j, ¬ x.Admits j) ∧
      (∀ before between after i j first second,
        s.log = before ++ ⟨first, .admitted i⟩ :: between ++ ⟨second, .admitted j⟩ :: after →
        Paused before → (∀ x ∈ between, ¬ x.Lifts) → first + cfg.retryInterval ≤ second) ∧
      (s.state.valve.paused = true ↔ Paused s.log) ∧
      ∀ i t, valveStep cfg intervalText s (.allow i) = some t →
        t.log = s.log ++ [⟨s.state.now, .suppressed i⟩] → t.state.valve = s.state.valve := by
  have spaced : Justified (Spaced cfg) s.log :=
    justified_of_invariant (Held cfg) (held_initial cfg start)
      (fun held _ stepped => held_step held stepped)
      (fun held _ _ emitted => spaced_of_held held emitted) run
  have ordered : Justified (fun log x => ∀ y ∈ log, y.time ≤ x.time) s.log :=
    justified_of_invariant (Held cfg) (held_initial cfg start)
      (fun held _ stepped => held_step held stepped)
      (fun held _ _ emitted => by rw [time_of_event emitted]; exact held.clock) run
  refine ⟨?_, ?_, paused_run run, ?_⟩
  · intro before after i rejected time split reached within quiet x member early j admits
    obtain ⟨between, later, rfl⟩ := List.append_of_mem member
    have moved : s.log =
        (before ++ ⟨rejected, .observed i statusForbidden⟩ :: between) ++ x :: later := by
      simpa using split
    have sorted := ordered _ x later moved
    have armed : ArmedAt rejected
        (before ++ ⟨rejected, .observed i statusForbidden⟩ :: between) := by
      refine ⟨before, _, between, rfl, ⟨Or.inl rfl, rfl⟩, ?_⟩
      intro y listed
      have past : y.time ≤ x.time := sorted y (by simp [listed])
      exact quiet y (by simp [listed]) (Int.le_trans past early)
    have apart := spaced _ x later moved ⟨j, admits⟩ rejected armed
    omega
  · intro before between after i j first second split paused quiet
    have armed : ArmedAt first (before ++ ⟨first, .admitted i⟩ :: between) :=
      ⟨before, _, between, rfl, ⟨Or.inr ⟨⟨i, rfl⟩, paused⟩, rfl⟩, quiet⟩
    exact spaced _ ⟨second, .admitted j⟩ after split ⟨j, rfl⟩ first armed
  · intro i t stepped logged
    obtain ⟨e, effect, emitted⟩ := effect_of_valveStep stepped
    obtain ⟨w, log⟩ := t
    dsimp only at effect emitted logged ⊢
    have event : e.toList = [⟨s.state.now, .suppressed i⟩] :=
      List.append_cancel_left (emitted.symm.trans logged)
    cases effect with
    | suppressed => rfl
    | admitted => cases event
    | probe => cases event

def minuteConfig : Config := ⟨60⟩

/-- One push is rejected; a minute later a probe goes out and its peer is suppressed. -/
def rejectedThenProbed : List Action :=
  [.enter, .allow 0, .respond 0 forbiddenResponse, .observe 0, .tick 60, .enter, .allow 1, .enter,
    .allow 2]

theorem probe_waits_for_the_interval :
    ∃ s, Run (valveStep minuteConfig (lit "1m0s")) (fun _ _ => True) ⟨World.initial 0, []⟩
        rejectedThenProbed s ∧
      s.log = [⟨0, .admitted 0⟩, ⟨0, .observed 0 statusForbidden⟩, ⟨60, .admitted 1⟩,
        ⟨60, .suppressed 2⟩] ∧
      s.state.valve.paused = true ∧
      ∀ x ∈ s.log.drop 2, x.time ≤ 59 → ∀ j, ¬ x.Admits j := by
  have executed : (exec (valveStep minuteConfig (lit "1m0s")) (fun _ _ => true)
      ⟨World.initial 0, []⟩ rejectedThenProbed).any (fun s => decide (s.log =
        [⟨0, .admitted 0⟩, ⟨0, .observed 0 statusForbidden⟩, ⟨60, .admitted 1⟩,
          ⟨60, .suppressed 2⟩])) = true := by
    decide +kernel
  obtain ⟨s, run, final⟩ := exists_run_of_exec _ rejectedThenProbed _ (fun _ _ _ => trivial)
    executed
  have log := of_decide_eq_true final
  obtain ⟨silent, -, paused, -⟩ := valve_limits_the_rate run
  refine ⟨s, run, log, ?_, ?_⟩
  · rw [paused, log]
    decide
  · rw [log]
    refine silent [⟨0, .admitted 0⟩] _ 0 0 59 log (by decide) (by decide) ?_
    simp

end SignalAgent.Backoff.ProbeSpacing
