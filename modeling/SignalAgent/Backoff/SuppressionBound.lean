/- MID: SignalAgent/Backoff/SuppressionBound
   layer: results
   source: components/ingestbackoff/extension.go
   digest: An attempt is suppressed exactly while a hold is on, and is decided and answered once. -/

import SignalAgent.Backoff.ProbeSpacing
import SignalAgent.Foundations.Interleavings

set_option autoImplicit false
set_option relaxedAutoImplicit false

namespace SignalAgent.Backoff.SuppressionBound

open Foundations.GoText Foundations.GuardedRuns Foundations.EventLogs Foundations.Interleavings
open IngestValve ProbeSpacing

/-- A hold that started at most an interval ago is on. -/
def HoldOn (cfg : Config) (log : List Stamped) (time : Int) : Prop :=
  ∃ started, ArmedAt started log ∧ started ≤ time ∧ time < started + cfg.retryInterval

/-- The valve's decision read off the log in front of it. -/
def DecidedByHistory (cfg : Config) (log : List Stamped) (x : Stamped) : Prop :=
  (∀ i, x.event = .admitted i → ¬ HoldOn cfg log x.time) ∧
    ∀ i, x.event = .suppressed i → HoldOn cfg log x.time

def Event.attempt : Event → Nat
  | .admitted i | .suppressed i | .observed i _ => i

def eventsOf (i : Nat) (log : List Stamped) : List Event :=
  (log.map Stamped.event).filter (fun e => Event.attempt e = i)

/-- What the log holds of an attempt that has got this far. -/
inductive Trail (intervalText : GoString) (i : Nat) : Attempt → List Event → Prop
  | entered : Trail intervalText i .entered []
  | inFlight : Trail intervalText i .inFlight [.admitted i]
  | responded (response : Response) : Trail intervalText i (.responded response) [.admitted i]
  | failed : Trail intervalText i (.returned none) [.admitted i]
  | suppressed :
      Trail intervalText i (.returned (some (suppressedResponse intervalText))) [.suppressed i]
  | observed (response : Response) :
      Trail intervalText i (.returned (some response))
        [.admitted i, .observed i response.statusCode]

/-- The end of the hold is one interval after the last event that started one. -/
private structure Tight (cfg : Config) (s : Observed) : Prop where
  held : Held cfg s
  reached : s.state.valve.paused = true →
    ArmedAt (s.state.valve.holdUntil - cfg.retryInterval) s.log

/-- Every attempt has its trail, and nothing is logged of one that has not entered. -/
private structure Trailed (intervalText : GoString) (s : Observed) : Prop where
  known : ∀ i x, s.state.attempts[i]? = some x → Trail intervalText i x (eventsOf i s.log)
  unknown : ∀ i, s.state.attempts[i]? = none → eventsOf i s.log = []

section

variable {cfg : Config} {intervalText : GoString} {s t : Observed} {a : Action}

private theorem armedAt_now {now : Int} {log : List Stamped} {x : Stamped} (arms : Arms log x)
    (time : x.time = now) : ArmedAt (now + cfg.retryInterval - cfg.retryInterval) (log ++ [x]) := by
  have same : now + cfg.retryInterval - cfg.retryInterval = now := by omega
  rw [same]
  exact armedAt_concat.mpr (Or.inl ⟨arms, time⟩)

private theorem reached_step (tight : Tight cfg s)
    (stepped : valveStep cfg intervalText s a = some t) (paused : t.state.valve.paused = true) :
    ArmedAt (t.state.valve.holdUntil - cfg.retryInterval) t.log := by
  obtain ⟨w, log⟩ := s
  obtain ⟨w', log'⟩ := t
  obtain ⟨e, effect, logged⟩ := effect_of_valveStep stepped
  obtain ⟨held, reached⟩ := tight
  have flag := held.paused
  dsimp only at flag reached effect logged paused ⊢
  subst logged
  cases effect with
  | tick => simpa using reached paused
  | enter => simpa using reached paused
  | admitted i here flowing =>
    rw [show (w.setAttempt i .inFlight).valve.paused = w.valve.paused from rfl, flowing] at paused
    cases paused
  | probe i here isPaused due => exact armedAt_now (Or.inr ⟨⟨i, rfl⟩, flag.mp isPaused⟩) rfl
  | suppressed i here isPaused early =>
    exact armedAt_concat.mpr (Or.inr ⟨reached isPaused, not_lifts_suppressed _ _⟩)
  | respond => simpa [World.setAttempt] using reached paused
  | fail => simpa [World.setAttempt] using reached paused
  | forbidden i response here status => exact armedAt_now (Or.inl rfl) rfl
  | accepted => cases paused

private theorem tight_step (tight : Tight cfg s)
    (stepped : valveStep cfg intervalText s a = some t) : Tight cfg t :=
  ⟨held_step tight.held stepped, reached_step tight stepped⟩

private theorem tight_initial (cfg : Config) (start : Int) :
    Tight cfg ⟨World.initial start, []⟩ := by
  refine ⟨held_initial cfg start, fun paused => ?_⟩
  cases paused

private theorem started_past (held : Held cfg s) {started : Int} (armed : ArmedAt started s.log) :
    started ≤ s.state.now := by
  obtain ⟨before, x, after, split, ⟨-, same⟩, -⟩ := armed
  rw [← same]
  exact held.clock x (by simp [split])

private theorem allow_refuses {now : Int} {b : Valve} (refused : (allow cfg now b).1 = false) :
    b.paused = true ∧ now < b.holdUntil := by
  unfold allow at refused
  split at refused
  · cases refused
  · rename_i flowing
    split at refused
    · rename_i early
      exact ⟨by simpa using flowing, early⟩
    · cases refused

private theorem holdOn_of_refused (tight : Tight cfg s)
    (refused : (allow cfg s.state.now s.state.valve).1 = false) :
    HoldOn cfg s.log s.state.now := by
  obtain ⟨paused, early⟩ := allow_refuses refused
  have armed := tight.reached paused
  refine ⟨_, armed, started_past tight.held armed, ?_⟩
  omega

private theorem decided_of_tight {x : Stamped} (tight : Tight cfg s)
    (emitted : valveEvent cfg s.state a = some x) : DecidedByHistory cfg s.log x := by
  have time := time_of_event emitted
  refine ⟨?_, ?_⟩
  · rintro i admits ⟨started, armed, -, within⟩
    have apart := spaced_of_held tight.held emitted ⟨i, admits⟩ started armed
    omega
  · intro i suppressed
    rw [time]
    cases a with
    | allow j =>
      obtain rfl := Option.some.inj emitted
      have refused : (allow cfg s.state.now s.state.valve).1 = false := by
        cases decision : (allow cfg s.state.now s.state.valve).1 with
        | false => rfl
        | true => simp [decision] at suppressed
      exact holdOn_of_refused tight refused
    | observe j =>
      simp only [valveEvent] at emitted
      split at emitted
      · obtain rfl := Option.some.inj emitted
        cases suppressed
      · cases emitted
    | _ => cases emitted

@[simp] private theorem eventsOf_concat (i : Nat) (log : List Stamped) (x : Stamped) :
    eventsOf i (log ++ [x]) =
      eventsOf i log ++ if Event.attempt x.event = i then [x.event] else [] := by
  unfold eventsOf
  rw [List.map_append, List.filter_append, List.map_singleton]
  by_cases about : Event.attempt x.event = i <;> simp [about]

private theorem trailed_set (trailed : Trailed intervalText s) {i : Nat} {old new : Attempt}
    (here : s.state.attempts[i]? = some old) {w : World}
    (attempts : w.attempts = s.state.attempts.set i new) {log : List Stamped}
    (others : ∀ j, j ≠ i → eventsOf j log = eventsOf j s.log)
    (mine : Trail intervalText i old (eventsOf i s.log) →
      Trail intervalText i new (eventsOf i log)) : Trailed intervalText ⟨w, log⟩ := by
  refine ⟨?_, ?_⟩
  · intro j x found
    dsimp only at found
    rw [attempts] at found
    rcases getElem?_set_cases found with ⟨rfl, rfl⟩ | ⟨other, found⟩
    · exact mine (trailed.known j old here)
    · rw [others j other]
      exact trailed.known j x found
  · intro j missing
    dsimp only at missing
    rw [attempts, List.getElem?_set] at missing
    have other : j ≠ i := by
      rintro rfl
      have inside : j < s.state.attempts.length := (List.getElem?_eq_some_iff.mp here).1
      simp [inside] at missing
    rw [if_neg (Ne.symm other)] at missing
    rw [others j other]
    exact trailed.unknown j missing

private theorem trail_entered {i : Nat} {events : List Event}
    (trail : Trail intervalText i .entered events) : events = [] := by
  cases trail
  rfl

private theorem trail_inFlight {i : Nat} {events : List Event}
    (trail : Trail intervalText i .inFlight events) : events = [.admitted i] := by
  cases trail
  rfl

private theorem trail_responded {i : Nat} {response : Response} {events : List Event}
    (trail : Trail intervalText i (.responded response) events) : events = [.admitted i] := by
  cases trail
  rfl

private theorem trailed_step (trailed : Trailed intervalText s)
    (stepped : valveStep cfg intervalText s a = some t) : Trailed intervalText t := by
  obtain ⟨w', log'⟩ := t
  obtain ⟨e, effect, logged⟩ := effect_of_valveStep stepped
  dsimp only at effect logged
  subst logged
  have silent : ∀ j, eventsOf j (s.log ++ Option.toList none) = eventsOf j s.log := by simp
  have only : ∀ (time : Int) (event : Event) (j : Nat), j ≠ Event.attempt event →
      eventsOf j (s.log ++ (some (⟨time, event⟩ : Stamped)).toList) = eventsOf j s.log := by
    intro time event j other
    simp [Ne.symm other]
  have grown : ∀ (time : Int) (event : Event) (j : Nat), Event.attempt event = j →
      eventsOf j (s.log ++ (some (⟨time, event⟩ : Stamped)).toList) =
        eventsOf j s.log ++ [event] := by
    intro time event j mine
    simp [mine]
  cases effect with
  | tick later forward => exact ⟨by simpa using trailed.known, by simpa using trailed.unknown⟩
  | enter =>
    refine ⟨?_, ?_⟩
    · intro i x found
      rw [silent]
      rcases getElem?_concat_cases found with ⟨rfl, rfl⟩ | found
      · rw [trailed.unknown _ (List.getElem?_eq_none (Nat.le_refl _))]
        exact .entered
      · exact trailed.known i x found
    · intro i missing
      rw [silent]
      refine trailed.unknown i (List.getElem?_eq_none ?_)
      have outside := List.getElem?_eq_none_iff.mp missing
      simp only [List.length_append, List.length_singleton] at outside
      omega
  | admitted i here flowing =>
    refine trailed_set trailed here rfl (only _ (.admitted i)) (fun mine => ?_)
    rw [grown _ (.admitted i) i rfl, trail_entered mine]
    exact .inFlight
  | probe i here paused due =>
    refine trailed_set trailed here rfl (only _ (.admitted i)) (fun mine => ?_)
    rw [grown _ (.admitted i) i rfl, trail_entered mine]
    exact .inFlight
  | suppressed i here paused early =>
    refine trailed_set trailed here rfl (only _ (.suppressed i)) (fun mine => ?_)
    rw [grown _ (.suppressed i) i rfl, trail_entered mine]
    exact .suppressed
  | respond i response here =>
    refine trailed_set trailed here rfl (fun j _ => silent j) (fun mine => ?_)
    rw [silent, trail_inFlight mine]
    exact .responded response
  | fail i here =>
    refine trailed_set trailed here rfl (fun j _ => silent j) (fun mine => ?_)
    rw [silent, trail_inFlight mine]
    exact .failed
  | forbidden i response here status =>
    refine trailed_set trailed here rfl (only _ (.observed i statusForbidden)) (fun mine => ?_)
    rw [grown _ (.observed i statusForbidden) i rfl, trail_responded mine, ← status]
    exact .observed response
  | accepted i response here status =>
    refine trailed_set trailed here rfl (only _ (.observed i response.statusCode))
      (fun mine => ?_)
    rw [grown _ (.observed i response.statusCode) i rfl, trail_responded mine]
    exact .observed response

end

/-- Over every interleaving of round trips: an attempt is suppressed exactly when a rejection or
a probe of the pause still on lies less than an interval back, so no suppression outlasts the
promise in its own response; and each attempt is decided once, reaches the network only if it
was admitted, and returns the local rejection or the response that was observed. -/
theorem suppressed_only_within_hold {cfg : Config} {intervalText : GoString} {start : Int}
    {acts : List Action} {s : Observed}
    (run : Run (valveStep cfg intervalText) (fun _ _ => True) ⟨World.initial start, []⟩ acts s) :
    (∀ before x after, s.log = before ++ x :: after → DecidedByHistory cfg before x) ∧
      ∀ i x, s.state.attempts[i]? = some x → Trail intervalText i x (eventsOf i s.log) := by
  have decided : Justified (DecidedByHistory cfg) s.log :=
    justified_of_invariant (Tight cfg) (tight_initial cfg start)
      (fun tight _ stepped => tight_step tight stepped)
      (fun tight _ _ emitted => decided_of_tight tight emitted) run
  have trailed : Trailed intervalText s :=
    run.stateInvariant (Trailed intervalText)
      ⟨by simp [World.initial], by simp [World.initial, eventsOf]⟩
      (fun trailed _ stepped => trailed_step trailed stepped)
  exact ⟨decided, trailed.known⟩

/-- A push is rejected, a probe fails in the network and its peer is suppressed; an interval
after the probe the next attempt goes out. -/
def probeLost : List Action :=
  [.enter, .allow 0, .respond 0 forbiddenResponse, .observe 0, .tick 60, .enter, .allow 1,
    .fail 1, .tick 119, .enter, .allow 2, .tick 120, .enter, .allow 3]

theorem lost_probe_holds_its_peer :
    ∃ s, Run (valveStep minuteConfig (lit "1m0s")) (fun _ _ => True) ⟨World.initial 0, []⟩
        probeLost s ∧
      s.log = [⟨0, .admitted 0⟩, ⟨0, .observed 0 statusForbidden⟩, ⟨60, .admitted 1⟩,
        ⟨119, .suppressed 2⟩, ⟨120, .admitted 3⟩] ∧
      HoldOn minuteConfig (s.log.take 3) 119 ∧ ¬ HoldOn minuteConfig (s.log.take 4) 120 ∧
      Trail (lit "1m0s") 1 (.returned none) (eventsOf 1 s.log) := by
  have executed : (exec (valveStep minuteConfig (lit "1m0s")) (fun _ _ => true)
      ⟨World.initial 0, []⟩ probeLost).any (fun s => decide (s.log =
        [⟨0, .admitted 0⟩, ⟨0, .observed 0 statusForbidden⟩, ⟨60, .admitted 1⟩,
          ⟨119, .suppressed 2⟩, ⟨120, .admitted 3⟩]) &&
        decide (s.state.attempts[1]? = some (.returned none))) = true := by
    decide +kernel
  obtain ⟨s, run, final⟩ := exists_run_of_exec _ probeLost _ (fun _ _ _ => trivial) executed
  obtain ⟨logged, failed⟩ := Bool.and_eq_true_iff.mp final
  have log := of_decide_eq_true logged
  obtain ⟨decided, trails⟩ := suppressed_only_within_hold run
  refine ⟨s, run, log, ?_, ?_, trails 1 _ (of_decide_eq_true failed)⟩
  · rw [log]
    exact (decided _ ⟨119, .suppressed 2⟩ [⟨120, .admitted 3⟩] log).2 2 rfl
  · rw [log]
    exact (decided _ ⟨120, .admitted 3⟩ [] log).1 3 rfl

end SignalAgent.Backoff.SuppressionBound
