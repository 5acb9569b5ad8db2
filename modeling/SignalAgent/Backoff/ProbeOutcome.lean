/- MID: SignalAgent/Backoff/ProbeOutcome
   layer: results
   source: components/ingestbackoff/extension.go
   digest: Only a probe lifts a pause that began with no other request in flight. -/

import SignalAgent.Backoff.IngestValve
import SignalAgent.Foundations.Interleavings

set_option autoImplicit false
set_option relaxedAutoImplicit false

namespace SignalAgent.Backoff.ProbeOutcome

open Foundations.GoText Foundations.GuardedRuns Foundations.EventLogs Foundations.Interleavings
open IngestValve

/-- The attempt was admitted as a probe of the pause that is still on. -/
def ProbeOf (i : Nat) (log : List Stamped) : Prop :=
  Since (fun before x => x.Admits i ∧ Paused before) Stamped.Lifts log

/-- If the step lifts the pause, it observes the response to a probe of that pause. -/
def LiftedByProbe (s : Observed) (a : Action) (t : Observed) : Prop :=
  s.state.valve.paused = true → t.state.valve.paused = false →
    ∃ i, a = .observe i ∧ ProbeOf i s.log

/-- A rejection that starts a pause is observed while no other request is in flight. -/
def PausesAlone (s : Observed) : Action → Prop
  | .observe i => s.state.valve.paused = false →
      ∀ response, s.state.attempts[i]? = some (.responded response) →
        response.statusCode = statusForbidden →
          ∀ j attempt, j ≠ i → s.state.attempts[j]? = some attempt → attempt.pending = false
  | _ => True

/-- During a pause every request in flight is one of its probes. -/
private structure Probing (s : Observed) : Prop where
  paused : s.state.valve.paused = true ↔ Paused s.log
  probes : s.state.valve.paused = true →
    ∀ i attempt, s.state.attempts[i]? = some attempt → attempt.pending = true → ProbeOf i s.log

private theorem ProbeOf.concat {i : Nat} {log : List Stamped} (probe : ProbeOf i log) {x : Stamped}
    (kept : ¬ x.Lifts) : ProbeOf i (log ++ [x]) :=
  (since_concat x).mpr (Or.inr ⟨probe, kept⟩)

section

variable {cfg : Config} {intervalText : GoString} {s t : Observed} {a : Action}

private theorem probes_step (held : Probing s) (alone : PausesAlone s a)
    (stepped : valveStep cfg intervalText s a = some t) (paused : t.state.valve.paused = true) :
    ∀ i attempt, t.state.attempts[i]? = some attempt → attempt.pending = true →
      ProbeOf i t.log := by
  obtain ⟨w, log⟩ := s
  obtain ⟨w', log'⟩ := t
  obtain ⟨e, effect, logged⟩ := effect_of_valveStep stepped
  obtain ⟨flag, probes⟩ := held
  dsimp only at flag probes effect logged paused ⊢
  subst logged
  intro i attempt found pending
  cases effect with
  | tick => simpa using probes paused i attempt found pending
  | enter =>
    rcases getElem?_concat_cases found with ⟨-, rfl⟩ | found
    · cases pending
    · simpa using probes paused i attempt found pending
  | admitted j here flowing =>
    rw [show (w.setAttempt j .inFlight).valve.paused = w.valve.paused from rfl, flowing] at paused
    cases paused
  | probe j here isPaused due =>
    rcases getElem?_set_cases found with ⟨rfl, -⟩ | ⟨-, found⟩
    · exact (since_concat _).mpr (Or.inl ⟨rfl, flag.mp isPaused⟩)
    · exact (probes isPaused i attempt found pending).concat (not_lifts_admitted _ _)
  | suppressed j here isPaused early =>
    rcases getElem?_set_cases found with ⟨-, rfl⟩ | ⟨-, found⟩
    · cases pending
    · exact (probes isPaused i attempt found pending).concat (not_lifts_suppressed _ _)
  | respond j response here =>
    rcases getElem?_set_cases found with ⟨rfl, -⟩ | ⟨-, found⟩
    · simpa using probes paused i .inFlight here rfl
    · simpa using probes paused i attempt found pending
  | fail j here =>
    rcases getElem?_set_cases found with ⟨-, rfl⟩ | ⟨-, found⟩
    · cases pending
    · simpa using probes paused i attempt found pending
  | forbidden j response here status =>
    rcases getElem?_set_cases found with ⟨-, rfl⟩ | ⟨other, found⟩
    · cases pending
    · cases before : w.valve.paused with
      | false =>
        have idle := alone before response here status i attempt other found
        rw [idle] at pending
        cases pending
      | true =>
        refine (probes before i attempt found pending).concat ?_
        simp
  | accepted j response here status => cases paused

private theorem probing_step (held : Probing s) (alone : PausesAlone s a)
    (stepped : valveStep cfg intervalText s a = some t) : Probing t :=
  ⟨paused_step held.paused stepped, probes_step held alone stepped⟩

private theorem liftedByProbe_of_probing (held : Probing s)
    (stepped : valveStep cfg intervalText s a = some t) : LiftedByProbe s a t := by
  obtain ⟨w, log⟩ := s
  obtain ⟨w', log'⟩ := t
  obtain ⟨e, effect, -⟩ := effect_of_valveStep stepped
  intro paused lifted
  dsimp only at paused lifted effect
  cases effect with
  | accepted i response here status => exact ⟨i, rfl, held.probes paused i _ here rfl⟩
  | forbidden => cases lifted
  | _ => exact absurd (paused.symm.trans lifted) (by decide)

end

/-- In every run in which each pause starts with no other request in flight, only the response
to a probe of the same pause lifts it. -/
theorem pause_lifted_by_probe {cfg : Config} {intervalText : GoString} {start : Int}
    {acts : List Action} {s : Observed}
    (run : Run (valveStep cfg intervalText) PausesAlone ⟨World.initial start, []⟩ acts s)
    (a : Action) (t : Observed) (stepped : valveStep cfg intervalText s a = some t) :
    LiftedByProbe s a t := by
  have base : Probing ⟨World.initial start, []⟩ := by
    refine ⟨?_, ?_⟩ <;> simp [World.initial, newBackoffExtension, Paused, lastObserved]
  exact liftedByProbe_of_probing (run.stateInvariant Probing base probing_step) stepped

def hourConfig : Config := ⟨3600⟩

def acceptance : Response := ⟨lit "200 OK", 200, []⟩

private def aloneTest (s : Observed) : Action → Bool
  | .observe i => s.state.valve.paused || (s.state.attempts.eraseIdx i).all (fun x => !x.pending)
  | _ => true

private theorem aloneTest_sound (s : Observed) (a : Action) (passed : aloneTest s a = true) :
    PausesAlone s a := by
  cases a with
  | observe i =>
    intro flowing response here status j attempt other found
    have idle : ∀ x ∈ s.state.attempts.eraseIdx i, x.pending = false := by
      simpa [aloneTest, flowing] using passed
    exact idle attempt (List.mem_eraseIdx_iff_getElem?.mpr ⟨j, other, found⟩)
  | _ => trivial

/-- One push is rejected and an hour later a probe is accepted. -/
def probeAccepted : List Action :=
  [.enter, .allow 0, .respond 0 forbiddenResponse, .observe 0, .tick 3600, .enter, .allow 1,
    .respond 1 acceptance]

theorem accepted_probe_lifts_its_pause :
    ∃ s t, Run (valveStep hourConfig (lit "1h0m0s")) PausesAlone ⟨World.initial 0, []⟩
        probeAccepted s ∧
      valveStep hourConfig (lit "1h0m0s") s (.observe 1) = some t ∧
      s.state.valve.paused = true ∧ t.state.valve.paused = false ∧ ProbeOf 1 s.log := by
  have executed : (exec (valveStep hourConfig (lit "1h0m0s")) aloneTest ⟨World.initial 0, []⟩
      probeAccepted).any (fun s => s.state.valve.paused &&
        (valveStep hourConfig (lit "1h0m0s") s (.observe 1)).any
          (fun t => !t.state.valve.paused)) = true := by
    decide +kernel
  obtain ⟨s, run, final⟩ := exists_run_of_exec aloneTest probeAccepted _ aloneTest_sound executed
  obtain ⟨paused, next⟩ := Bool.and_eq_true_iff.mp final
  obtain ⟨t, stepped, lifted⟩ := (Option.any_eq_true _ _).mp next
  have flowing : t.state.valve.paused = false := by simpa using lifted
  obtain ⟨i, same, probe⟩ := pause_lifted_by_probe run (.observe 1) t stepped paused flowing
  cases same
  exact ⟨s, t, run, stepped, paused, flowing, probe⟩

/-- Two pushes are in flight; one is rejected, then the other is accepted. -/
def lateAcceptance : List Action :=
  [.enter, .enter, .allow 0, .allow 1, .respond 0 forbiddenResponse, .respond 1 acceptance,
    .observe 0]

theorem earlier_request_lifts_the_pause :
    ¬ ∀ acts s a t, Run (valveStep hourConfig (lit "1h0m0s")) (fun _ _ => True)
        ⟨World.initial 0, []⟩ acts s →
      valveStep hourConfig (lit "1h0m0s") s a = some t → LiftedByProbe s a t := by
  intro lifted
  have executed : (exec (valveStep hourConfig (lit "1h0m0s")) (fun _ _ => true)
      ⟨World.initial 0, []⟩ lateAcceptance).any (fun s => decide (s.log =
          [⟨0, .admitted 0⟩, ⟨0, .admitted 1⟩, ⟨0, .observed 0 statusForbidden⟩]) &&
        (s.state.valve.paused && (valveStep hourConfig (lit "1h0m0s") s (.observe 1)).any
          (fun t => !t.state.valve.paused))) = true := by
    decide +kernel
  obtain ⟨s, run, final⟩ :=
    exists_run_of_exec _ lateAcceptance _ (fun _ _ _ => trivial) executed
  obtain ⟨logged, rest⟩ := Bool.and_eq_true_iff.mp final
  obtain ⟨paused, next⟩ := Bool.and_eq_true_iff.mp rest
  obtain ⟨t, stepped, flows⟩ := (Option.any_eq_true _ _).mp next
  have flowing : t.state.valve.paused = false := by simpa using flows
  obtain ⟨i, same, probe⟩ := lifted lateAcceptance s (.observe 1) t run stepped paused flowing
  cases same
  rw [of_decide_eq_true logged] at probe
  -- The second push was admitted when nothing had been observed.
  obtain ⟨before, x, after, split, ⟨admits, inPause⟩, -⟩ := probe
  rcases before with _ | ⟨first, _ | ⟨second, _ | ⟨third, rest⟩⟩⟩
  · obtain ⟨rfl, -⟩ := List.cons.inj split
    cases admits
  · obtain ⟨rfl, -⟩ := List.cons.inj split
    exact absurd inPause (by decide)
  · obtain ⟨-, split⟩ := List.cons.inj split
    obtain ⟨-, split⟩ := List.cons.inj split
    obtain ⟨rfl, -⟩ := List.cons.inj split
    cases admits
  · simp at split

end SignalAgent.Backoff.ProbeOutcome
