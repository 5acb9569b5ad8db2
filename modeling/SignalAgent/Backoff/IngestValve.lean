/- MID: SignalAgent/Backoff/IngestValve
   layer: model
   source: components/ingestbackoff/extension.go, components/ingestbackoff/config.go
   digest: Concurrent round trips share one valve; each is admitted, answered and observed. -/

import SignalAgent.Foundations.EventLogs
import SignalAgent.Foundations.GoText

/-!
An instant is an integer number of nanoseconds counted from the zero `time.Time`.
The clock is part of the state and only moves forward.
-/

set_option autoImplicit false
set_option relaxedAutoImplicit false

namespace SignalAgent.Backoff.IngestValve

open Foundations.GoText Foundations.GuardedRuns Foundations.EventLogs

structure Config where
  retryInterval : Int
  deriving DecidableEq

def statusForbidden : Nat := 403

/-- The state behind every round tripper of one signal. -/
structure Valve where
  paused : Bool
  holdUntil : Int
  deriving DecidableEq

def newBackoffExtension : Valve := ⟨false, 0⟩

/-- The first call at or after `holdUntil` claims the probe slot. -/
def allow (cfg : Config) (now : Int) (b : Valve) : Bool × Valve :=
  if !b.paused then (true, b)
  else if now < b.holdUntil then (false, b)
  else (true, { b with holdUntil := now + cfg.retryInterval })

def observe (cfg : Config) (now : Int) (b : Valve) (status : Nat) : Valve :=
  if status = statusForbidden then
    let armed := { b with holdUntil := now + cfg.retryInterval }
    if !b.paused then { armed with paused := true } else armed
  else if b.paused then { b with paused := false }
  else b

structure Response where
  status : GoString
  statusCode : Nat
  body : GoString
  deriving DecidableEq

/-- The answer to a suppressed attempt; `intervalText` is the printed interval. -/
def suppressedResponse (intervalText : GoString) : Response where
  status := lit "403 Forbidden (suppressed by leansignal_ingest_backoff)"
  statusCode := statusForbidden
  body := lit ("push suppressed by leansignal_ingest_backoff: the ingest edge rejected the last " ++
    "push with 403 (ingest limit); next probe in <= ") ++ intervalText

/-- What the ingest edge answers once a limit is hit. -/
def forbiddenResponse : Response := ⟨lit "403 Forbidden", statusForbidden, []⟩

/-- One `RoundTrip` call between its steps. -/
inductive Attempt where
  | entered
  | inFlight
  | responded (response : Response)
  | returned (response : Option Response)
  deriving DecidableEq

/-- The request has been admitted and nothing has been observed of it. -/
def Attempt.pending : Attempt → Bool
  | .inFlight | .responded _ => true
  | _ => false

structure World where
  valve : Valve
  now : Int
  attempts : List Attempt

def World.initial (now : Int) : World := ⟨newBackoffExtension, now, []⟩

inductive Action where
  | tick (later : Int)
  | enter
  | allow (i : Nat)
  | respond (i : Nat) (response : Response)
  | fail (i : Nat)
  | observe (i : Nat)
  deriving DecidableEq

def World.setAttempt (w : World) (i : Nat) (x : Attempt) : World :=
  { w with attempts := w.attempts.set i x }

section

variable (cfg : Config) (intervalText : GoString)

/-- One atomic step of one round trip, or of the clock. -/
def step (w : World) : Action → Option World
  | .tick later => if w.now ≤ later then some { w with now := later } else none
  | .enter => some { w with attempts := w.attempts ++ [.entered] }
  | .allow i =>
    match w.attempts[i]? with
    | some .entered =>
      let decision := allow cfg w.now w.valve
      some { w.setAttempt i (if decision.1 then .inFlight
          else .returned (some (suppressedResponse intervalText))) with
        valve := decision.2 }
    | _ => none
  | .respond i response =>
    match w.attempts[i]? with
    | some .inFlight => some (w.setAttempt i (.responded response))
    | _ => none
  -- A transport error is handed on without being observed.
  | .fail i =>
    match w.attempts[i]? with
    | some .inFlight => some (w.setAttempt i (.returned none))
    | _ => none
  | .observe i =>
    match w.attempts[i]? with
    | some (.responded response) =>
      some { w.setAttempt i (.returned (some response)) with
        valve := observe cfg w.now w.valve response.statusCode }
    | _ => none

/-- What the valve decided or was told, with the clock reading at that moment. -/
inductive Event where
  | admitted (i : Nat)
  | suppressed (i : Nat)
  | observed (i : Nat) (status : Nat)
  deriving DecidableEq

structure Stamped where
  time : Int
  event : Event
  deriving DecidableEq

def valveEvent (w : World) : Action → Option Stamped
  | .allow i => some ⟨w.now, if (allow cfg w.now w.valve).1 then .admitted i else .suppressed i⟩
  | .observe i =>
    match w.attempts[i]? with
    | some (.responded response) => some ⟨w.now, .observed i response.statusCode⟩
    | _ => none
  | _ => none

abbrev Observed := Logged World Stamped

/-- The valve with the log of its decisions. -/
def valveStep : Observed → Action → Option Observed :=
  logStep (step cfg intervalText) (valveEvent cfg)

end

def Stamped.status (x : Stamped) : Option Nat :=
  match x.event with
  | .observed _ status => some status
  | _ => none

/-- The status of the last observed response. -/
def lastObserved (log : List Stamped) : Option Nat :=
  log.foldl (fun last x => x.status.or last) none

def Paused (log : List Stamped) : Prop := lastObserved log = some statusForbidden

instance (log : List Stamped) : Decidable (Paused log) :=
  inferInstanceAs (Decidable (_ = _))

def Stamped.Admits (i : Nat) (x : Stamped) : Prop := x.event = .admitted i

def Stamped.Forbids (x : Stamped) : Prop := x.status = some statusForbidden

/-- The observation of any other response ends a pause. -/
def Stamped.Lifts (x : Stamped) : Prop :=
  ∃ status, x.status = some status ∧ status ≠ statusForbidden

@[simp] theorem lastObserved_concat (log : List Stamped) (x : Stamped) :
    lastObserved (log ++ [x]) = x.status.or (lastObserved log) := by
  simp [lastObserved]

@[simp] theorem status_admitted (t : Int) (i : Nat) : Stamped.status ⟨t, .admitted i⟩ = none := rfl

@[simp] theorem status_suppressed (t : Int) (i : Nat) :
    Stamped.status ⟨t, .suppressed i⟩ = none := rfl

@[simp] theorem status_observed (t : Int) (i status : Nat) :
    Stamped.status ⟨t, .observed i status⟩ = some status := rfl

@[simp] theorem not_lifts_admitted (t : Int) (i : Nat) : ¬ Stamped.Lifts ⟨t, .admitted i⟩ := by
  simp [Stamped.Lifts]

@[simp] theorem not_lifts_suppressed (t : Int) (i : Nat) : ¬ Stamped.Lifts ⟨t, .suppressed i⟩ := by
  simp [Stamped.Lifts]

@[simp] theorem lifts_observed (t : Int) (i status : Nat) :
    Stamped.Lifts ⟨t, .observed i status⟩ ↔ status ≠ statusForbidden := by
  simp [Stamped.Lifts]

theorem Paused.concat {log : List Stamped} (paused : Paused log) {x : Stamped}
    (kept : ¬ x.Lifts) : Paused (log ++ [x]) := by
  unfold Paused at paused ⊢
  rw [lastObserved_concat]
  cases status : x.status with
  | none => exact paused
  | some code =>
    have forbidden : code = statusForbidden := by
      by_contra other
      exact kept ⟨code, status, other⟩
    rw [forbidden]
    rfl

/-- What each step can do, with the event it logs. -/
inductive Effect (cfg : Config) (intervalText : GoString) (w : World) :
    Action → World → Option Stamped → Prop
  | tick (later : Int) (forward : w.now ≤ later) :
      Effect cfg intervalText w (.tick later) { w with now := later } none
  | enter : Effect cfg intervalText w .enter { w with attempts := w.attempts ++ [.entered] } none
  | admitted (i : Nat) (here : w.attempts[i]? = some .entered) (flowing : w.valve.paused = false) :
      Effect cfg intervalText w (.allow i) (w.setAttempt i .inFlight) (some ⟨w.now, .admitted i⟩)
  | probe (i : Nat) (here : w.attempts[i]? = some .entered) (paused : w.valve.paused = true)
      (due : w.valve.holdUntil ≤ w.now) :
      Effect cfg intervalText w (.allow i) { w.setAttempt i .inFlight with
        valve := { w.valve with holdUntil := w.now + cfg.retryInterval } }
        (some ⟨w.now, .admitted i⟩)
  | suppressed (i : Nat) (here : w.attempts[i]? = some .entered) (paused : w.valve.paused = true)
      (held : w.now < w.valve.holdUntil) :
      Effect cfg intervalText w (.allow i)
        (w.setAttempt i (.returned (some (suppressedResponse intervalText))))
        (some ⟨w.now, .suppressed i⟩)
  | respond (i : Nat) (response : Response) (here : w.attempts[i]? = some .inFlight) :
      Effect cfg intervalText w (.respond i response) (w.setAttempt i (.responded response)) none
  | fail (i : Nat) (here : w.attempts[i]? = some .inFlight) :
      Effect cfg intervalText w (.fail i) (w.setAttempt i (.returned none)) none
  | forbidden (i : Nat) (response : Response) (here : w.attempts[i]? = some (.responded response))
      (status : response.statusCode = statusForbidden) :
      Effect cfg intervalText w (.observe i) { w.setAttempt i (.returned (some response)) with
        valve := ⟨true, w.now + cfg.retryInterval⟩ } (some ⟨w.now, .observed i statusForbidden⟩)
  | accepted (i : Nat) (response : Response) (here : w.attempts[i]? = some (.responded response))
      (status : response.statusCode ≠ statusForbidden) :
      Effect cfg intervalText w (.observe i) { w.setAttempt i (.returned (some response)) with
        valve := { w.valve with paused := false } } (some ⟨w.now, .observed i response.statusCode⟩)

section

variable {cfg : Config} {intervalText : GoString}

private theorem effect_allow {w : World} {i : Nat} (here : w.attempts[i]? = some .entered) :
    Effect cfg intervalText w (.allow i)
      { w.setAttempt i (if (allow cfg w.now w.valve).1 then .inFlight
          else .returned (some (suppressedResponse intervalText))) with
        valve := (allow cfg w.now w.valve).2 } (valveEvent cfg w (.allow i)) := by
  unfold valveEvent
  cases paused : w.valve.paused with
  | false =>
    have decision : allow cfg w.now w.valve = (true, w.valve) := by simp [allow, paused]
    rw [decision]
    exact .admitted i here paused
  | true =>
    by_cases held : w.now < w.valve.holdUntil
    · have decision : allow cfg w.now w.valve = (false, w.valve) := by simp [allow, paused, held]
      rw [decision]
      exact .suppressed i here paused held
    · have decision : allow cfg w.now w.valve =
          (true, { w.valve with holdUntil := w.now + cfg.retryInterval }) := by
        simp [allow, paused, held]
      rw [decision]
      exact .probe i here paused (Int.not_lt.mp held)

private theorem observe_forbidden (now : Int) (b : Valve) :
    observe cfg now b statusForbidden = ⟨true, now + cfg.retryInterval⟩ := by
  cases paused : b.paused <;> simp [observe, paused]

private theorem observe_accepted (now : Int) (b : Valve) {status : Nat}
    (accepted : status ≠ statusForbidden) :
    observe cfg now b status = { b with paused := false } := by
  obtain ⟨paused, holdUntil⟩ := b
  cases paused <;> simp [observe, accepted]

theorem effect_of_valveStep {s t : Observed} {a : Action}
    (stepped : valveStep cfg intervalText s a = some t) :
    ∃ e, Effect cfg intervalText s.state a t.state e ∧ t.log = s.log ++ e.toList := by
  obtain ⟨moved, logged⟩ := logStep_eq_some stepped
  refine ⟨_, ?_, logged⟩
  cases a with
  | tick later =>
    simp only [step] at moved
    split at moved
    · rename_i forward
      rw [← Option.some.inj moved]
      exact .tick later forward
    · cases moved
  | enter =>
    rw [← Option.some.inj moved]
    exact .enter
  | allow i =>
    simp only [step] at moved
    split at moved
    · rename_i here
      rw [← Option.some.inj moved]
      exact effect_allow here
    · cases moved
  | respond i response =>
    simp only [step] at moved
    split at moved
    · rename_i here
      rw [← Option.some.inj moved]
      exact .respond i response here
    · cases moved
  | fail i =>
    simp only [step] at moved
    split at moved
    · rename_i here
      rw [← Option.some.inj moved]
      exact .fail i here
    · cases moved
  | observe i =>
    simp only [step] at moved
    split at moved
    · rename_i response here
      rw [← Option.some.inj moved]
      have event : valveEvent cfg s.state (.observe i) =
          some ⟨s.state.now, .observed i response.statusCode⟩ := by
        simp [valveEvent, here]
      rw [event]
      by_cases status : response.statusCode = statusForbidden
      · rw [status, observe_forbidden]
        exact .forbidden i response here status
      · rw [observe_accepted _ _ status]
        exact .accepted i response here status
    · cases moved

theorem paused_step {s t : Observed} {a : Action}
    (held : s.state.valve.paused = true ↔ Paused s.log)
    (stepped : valveStep cfg intervalText s a = some t) :
    t.state.valve.paused = true ↔ Paused t.log := by
  obtain ⟨w, log⟩ := s
  obtain ⟨w', log'⟩ := t
  obtain ⟨e, effect, logged⟩ := effect_of_valveStep stepped
  dsimp only at held effect logged ⊢
  subst logged
  cases effect with
  | tick => simpa using held
  | enter => simpa using held
  | admitted => simpa [Paused, World.setAttempt] using held
  | probe => simpa [Paused] using held
  | suppressed => simpa [Paused, World.setAttempt] using held
  | respond => simpa [World.setAttempt] using held
  | fail => simpa [World.setAttempt] using held
  | forbidden => simp [Paused]
  | accepted i response here status => simp [Paused, status]

theorem paused_run {ok : Observed → Action → Prop} {start : Int} {acts : List Action} {s : Observed}
    (run : Run (valveStep cfg intervalText) ok ⟨World.initial start, []⟩ acts s) :
    s.state.valve.paused = true ↔ Paused s.log :=
  run.stateInvariant (fun s => s.state.valve.paused = true ↔ Paused s.log)
    (by simp [World.initial, newBackoffExtension, Paused, lastObserved])
    (fun held _ stepped => paused_step held stepped)

end

end SignalAgent.Backoff.IngestValve
