/- MID: SignalAgent/Control/ConfigRestart
   layer: results
   source: components/edgecontroller/config_handler.go, components/edgecontroller/config_manager.go
   digest: The agent exits to reload only after an announced edit, onto a validated config set. -/

import SignalAgent.Control.ConfigCrash
import SignalAgent.Foundations.EventLogs
import SignalAgent.Foundations.Simulations

set_option autoImplicit false
set_option relaxedAutoImplicit false

namespace SignalAgent.Control.ConfigRestart

open Foundations.EventLogs Foundations.GoText Foundations.GuardedRuns Foundations.Simulations
open ConfigApply ConfigEdits ConfigCrash
open ConfigSet hiding step

/-- A reply given to `replyCommand`, the end of the process by `restartForConfig`, and the start
of a process. -/
inductive Event where
  | answered (edit : Edit) (result : CommandResult) (time : Nat)
  | exited (code time : Nat)
  | booted
  deriving DecidableEq

def restartEvent (w : World) : Action → Option Event
  | .answer =>
    match w.configMu with
    | some ⟨t, .applied outcome⟩ => some (.answered t.edit outcome.reply.1 w.now)
    | _ => none
  | .fire _ => some (.exited exitCodeConfigApplied w.now)
  | .boot => some .booted
  | _ => none

abbrev Observed := Logged World Event

def watched (H : Host) (m : ConfigManager) : Observed → Action → Option Observed :=
  logStep (step H m) restartEvent

/-- The success of an edit that asks for a restart, `reloadDelay` before `time`. -/
def Announced (time : Nat) (_ : List Event) (e : Event) : Prop :=
  ∃ edit message answered, e = .answered edit ⟨true, message⟩ answered ∧
    edit.req.skipReload = false ∧ answered + reloadDelay ≤ time

/-- The edit was announced by the process that is running now. -/
def AnnouncedHere (time : Nat) (log : List Event) : Prop :=
  Since (Announced time) (fun e => e = .booted) log

/-- An exit has the code of a config restart and an announcement by the same process. -/
def ExitAnnounced (before : List Event) : Event → Prop
  | .exited code time => code = exitCodeConfigApplied ∧ AnnouncedHere time before
  | _ => True

/-- The edit in hand has been answered and its timer is still to come. -/
def timerToCome (w : World) : Prop := ∃ t, w.configMu = some ⟨t, .answered true⟩

structure Restarting (H : Host) (m : ConfigManager) (s : Observed) : Prop where
  timers : ∀ timer ∈ s.state.timers,
    AnnouncedHere (timer.getD (s.state.now + reloadDelay)) s.log
  toCome : timerToCome s.state → AnnouncedHere (s.state.now + reloadDelay) s.log
  base : s.state.timers ≠ [] ∨ timerToCome s.state →
    H.verdict (contents H m (baseFiles H m s.state)) = true
  exited : s.state.exited = true → H.verdict (contents H m s.state.files) = true

section Steps

variable {H : Host} {m : ConfigManager} {start : Files} {acts : List Action}

private theorem AnnouncedHere.later {log : List Event} {t t' : Nat} (held : AnnouncedHere t log)
    (le : t ≤ t') : AnnouncedHere t' log := by
  refine Since.imp held ?_
  rintro _ e ⟨edit, message, answered, same, reload, early⟩
  exact ⟨edit, message, answered, same, reload, early.trans le⟩

private theorem AnnouncedHere.concat {log : List Event} {t : Nat} (held : AnnouncedHere t log)
    {e : Event} (other : e ≠ .booted) : AnnouncedHere t (log ++ [e]) :=
  (since_concat e).mpr (Or.inr ⟨held, other⟩)

private theorem getD_le_getD (timer : Option Nat) {a b : Nat} (le : a ≤ b) :
    timer.getD a ≤ timer.getD b := by
  cases timer with
  | none => exact le
  | some deadline => exact Nat.le_refl deadline

private theorem reload_of_effect {f : Faults} {base left : Files} {req : UpdateConfig}
    {outcome : Outcome} (effect : ApplyEffect H m f base req outcome left)
    (reload : outcome.reply.2 = true) :
    outcome.toBool = true ∧ (∃ message, outcome.reply.1 = ⟨true, message⟩) ∧
      req.skipReload = false := by
  cases effect with
  | written => exact ⟨rfl, ⟨_, rfl⟩, by simpa [Outcome.reply] using reload⟩
  | _ => cases reload

private theorem accepted_files {w : World} (serial : Serial H m acts w)
    (sound : Sound H m start acts (baseFiles H m w)) (apart : BackupsApart H m)
    (accepted : H.verdict (contents H m (baseFiles H m w)) = true) :
    H.verdict (contents H m w.files) = true := by
  cases owner : w.configMu with
  | none => exact serial.free owner ▸ accepted
  | some holder =>
    obtain ⟨t, phase⟩ := holder
    obtain ⟨reached, fresh⟩ := serial.held owner
    rcases sources_of_reached reached sound.staging apart fresh with ⟨-, same⟩ | ⟨-, now, -⟩
    · exact contents_congr same ▸ accepted
    · exact now

private theorem restarting_booted (fs : Files) (now : Nat) (log : List Event) :
    Restarting H m ⟨World.booted fs now, log⟩ where
  timers timer member := by cases member
  toCome := by
    rintro ⟨t, owner⟩
    cases owner
  base := by
    rintro (timers | ⟨t, owner⟩)
    · exact absurd rfl timers
    · cases owner
  exited exit := by cases exit

private theorem Restarting.frame {w w' : World} {log : List Event}
    (held : Restarting H m ⟨w, log⟩) (now : w'.now = w.now) (timers : w'.timers = w.timers)
    (base : baseFiles H m w' = baseFiles H m w) (toCome : timerToCome w' → timerToCome w)
    (running : w'.exited = false) : Restarting H m ⟨w', log⟩ where
  timers timer member := by
    change AnnouncedHere (timer.getD (w'.now + reloadDelay)) log
    rw [now]
    exact held.timers timer (timers ▸ member)
  toCome coming := by
    change AnnouncedHere (w'.now + reloadDelay) log
    rw [now]
    exact held.toCome (toCome coming)
  base reason := by
    change H.verdict (contents H m (baseFiles H m w')) = true
    rw [base]
    refine held.base (reason.imp (fun some => ?_) toCome)
    exact timers ▸ some
  exited exit := nomatch running.symm.trans exit

private theorem Restarting.answer {w w' : World} {log : List Event} {t : Turn} {outcome : Outcome}
    (held : Restarting H m ⟨w, log⟩) (serial : Serial H m acts w)
    (sound : Sound H m start acts (baseFiles H m w)) (apart : BackupsApart H m)
    (owner : w.configMu = some ⟨t, .applied outcome⟩) (now : w'.now = w.now)
    (timers : w'.timers = w.timers) (running : w'.exited = false)
    (mutex : w'.configMu = some ⟨t, .answered outcome.reply.2⟩)
    (base : baseFiles H m w' = w.files) :
    Restarting H m ⟨w', log ++ [.answered t.edit outcome.reply.1 w.now]⟩ := by
  -- The log now holds the announcement the timer will need.
  obtain ⟨reached, fresh⟩ := serial.held owner
  have effect : ApplyEffect H m t.faults (baseFiles H m w) t.edit.req outcome w.files := by
    cases reached
    assumption
  have reload : timerToCome w' → outcome.reply.2 = true := by
    rintro ⟨t', answered⟩
    rw [mutex] at answered
    injection answered with same
    injection same with _ phase
    injection phase
  refine ⟨fun timer member => ?_, fun coming => ?_, fun reason => ?_, fun exit => ?_⟩
  · change AnnouncedHere (timer.getD (w'.now + reloadDelay)) _
    rw [now]
    exact (held.timers timer (timers ▸ member)).concat (by simp)
  · obtain ⟨-, ⟨message, success⟩, wanted⟩ := reload_of_effect effect (reload coming)
    refine (since_concat _).mpr (Or.inl ⟨t.edit, message, w.now, ?_, wanted, ?_⟩)
    · rw [success]
    · exact (congrArg (· + reloadDelay) now).ge
  · change H.verdict (contents H m (baseFiles H m w')) = true
    rw [base]
    rcases reason with waiting | coming
    · exact accepted_files serial sound apart (held.base (Or.inl (timers ▸ waiting)))
    · obtain ⟨written, -⟩ := reload_of_effect effect (reload coming)
      rcases sources_of_reached reached sound.staging apart fresh with
        ⟨unwritten, -⟩ | ⟨-, accepted, -⟩
      · exact nomatch unwritten.symm.trans written
      · exact accepted
  · exact nomatch running.symm.trans exit

private theorem restarting_step (apart : BackupsApart H m) {s s' : Observed} {a : Action}
    (serial : Serial H m acts s.state) (sound : Sound H m start acts (baseFiles H m s.state))
    (held : Restarting H m s) (stepped : watched H m s a = some s') : Restarting H m s' := by
  obtain ⟨w, log⟩ := s
  obtain ⟨w', log'⟩ := s'
  obtain ⟨edge, grown⟩ := logStep_eq_some stepped
  dsimp only at serial sound edge grown
  have after := serial_step serial edge
  have running : a ≠ .boot → w.exited = false := (running_of_step edge).resolve_left
  have quiet : ∀ {a : Action}, restartEvent w a = none →
      log ++ (restartEvent w a).toList = log := by
    intro a silent
    rw [silent, Option.toList_none, List.append_nil]
  rw [grown]
  cases effect_of_step edge with
  | received edit =>
    rw [quiet rfl]
    exact held.frame rfl rfl rfl id (running nofun)
  | locked free here fresh =>
    rw [quiet rfl]
    refine held.frame rfl rfl rfl ?_ (running nofun)
    rintro ⟨t, owner⟩
    cases owner
  | wrote owner written =>
    rw [quiet rfl]
    exact held.frame rfl rfl rfl id (running nofun)
  | @advanced t phase next fs owner moved =>
    rw [quiet rfl]
    refine held.frame rfl rfl rfl ?_ (running nofun)
    rintro ⟨t', answered⟩
    injection answered with same
    injection same with _ phase'
    have replied := replied_of_advance moved
    rw [phase'] at replied
    cases phase with
    | answered reload => cases moved
    | _ => cases replied
  | @answered t outcome owner =>
    have logged : restartEvent w .answer = some (.answered t.edit outcome.reply.1 w.now) := by
      rw [restartEvent, owner]
    rw [logged]
    exact held.answer serial sound apart owner rfl rfl (running nofun) rfl
      (after.held rfl).1.files_of_answered.symm
  | @spawned t owner =>
    rw [quiet rfl]
    have announced := held.toCome ⟨t, owner⟩
    refine ⟨fun timer member => ?_, ?_, fun _ => held.base (Or.inr ⟨t, owner⟩), fun exit => ?_⟩
    · rcases List.mem_append.mp member with old | new
      · exact held.timers timer old
      · obtain rfl := List.mem_singleton.mp new
        exact announced
    · rintro ⟨t', answered⟩
      cases answered
    · exact nomatch (running nofun).symm.trans exit
  | unlocked owner =>
    rw [quiet rfl]
    refine held.frame rfl rfl rfl ?_ (running nofun)
    rintro ⟨t, answered⟩
    cases answered
  | @armed k here =>
    rw [quiet rfl]
    have waiting : w.timers ≠ [] := by
      intro empty
      rw [empty] at here
      cases here
    refine ⟨fun timer member => ?_, held.toCome, fun _ => held.base (Or.inl waiting),
      fun exit => ?_⟩
    · rcases List.mem_or_eq_of_mem_set member with old | rfl
      · exact held.timers timer old
      · exact held.timers none (List.mem_of_getElem? here)
    · exact nomatch (running nofun).symm.trans exit
  | @fired k deadline here due =>
    have waiting : w.timers ≠ [] := by
      intro empty
      rw [empty] at here
      cases here
    have accepted := accepted_files serial sound apart (held.base (Or.inl waiting))
    refine ⟨fun timer member => ?_, fun coming => ?_, held.base, fun _ => accepted⟩
    · exact (held.timers timer member).concat (by simp)
    · exact (held.toCome coming).concat (by simp)
  | released k =>
    rw [quiet rfl]
    refine ⟨fun timer member => ?_, held.toCome, fun reason => ?_, fun exit => ?_⟩
    · exact held.timers timer (List.mem_of_mem_eraseIdx member)
    · refine held.base (reason.imp_left (fun some empty => some ?_))
      change w.timers.eraseIdx k = []
      rw [empty]
      rfl
    · exact nomatch (running nofun).symm.trans exit
  | shut =>
    rw [quiet rfl]
    exact held.frame rfl rfl rfl id (running nofun)
  | ticked d =>
    rw [quiet rfl]
    have passed : w.now + reloadDelay ≤ w.now + d + reloadDelay :=
      Nat.add_le_add_right (Nat.le_add_right w.now d) reloadDelay
    refine ⟨fun timer member => ?_, fun coming => ?_, held.base, fun exit => ?_⟩
    · exact (held.timers timer member).later (getD_le_getD timer passed)
    · exact (held.toCome coming).later passed
    · exact nomatch (running nofun).symm.trans exit
  | rebooted => exact restarting_booted _ _ _

private theorem exit_announced {s s' : Observed} {a : Action} {e : Event}
    (held : Restarting H m s) (stepped : watched H m s a = some s')
    (emitted : restartEvent s.state a = some e) : ExitAnnounced s.log e := by
  obtain ⟨w', log'⟩ := s'
  have edge : step H m s.state a = some w' := (logStep_eq_some stepped).1
  cases effect_of_step edge with
  | @fired k deadline here due =>
    cases emitted
    have announced := held.timers _ (List.mem_of_getElem? here)
    exact ⟨rfl, announced.later due⟩
  | answered owner =>
    rw [restartEvent, owner] at emitted
    cases emitted
    trivial
  | rebooted =>
    cases emitted
    trivial
  | _ => cases emitted

end Steps

/-- Over every run of edits, crashes and restarts: the agent ends its own process only with the
code of a config restart, `reloadDelay` after it gave out the success of an edit that asked for
it, and at that moment, whatever later edit is half done, the config set on disk is one the
validator accepted. -/
theorem exit_onto_accepted_config {H : Host} {m : ConfigManager} {start : Files} {now : Nat}
    {acts : List Action} {s : Observed} (staging : StagingApart H m start)
    (apart : BackupsApart H m)
    (run : Run (watched H m) (fun _ _ => True) ⟨World.booted start now, []⟩ acts s) :
    Justified ExitAnnounced s.log ∧
      (s.state.exited = true → H.verdict (contents H m s.state.files) = true) := by
  have seen : ∀ {acts : List Action} {s : Observed},
      Run (watched H m) (fun _ _ => True) ⟨World.booted start now, []⟩ acts s →
      Run (step H m) (fun _ _ => True) (World.booted start now) acts s.state := by
    intro acts s run
    have viewed : Run (step H m) (fun _ _ => True) (World.booted start now)
        (acts.filterMap some) s.state :=
      run_of_view Logged.state some
        (fun _ stepped => ⟨trivial, (logStep_eq_some stepped).1⟩) run
    rwa [List.filterMap_some] at viewed
  have both : Restarting H m s ∧ Justified ExitAnnounced s.log := by
    refine run.historyInvariant (fun _ s => Restarting H m s ∧ Justified ExitAnnounced s.log)
      ⟨restarting_booted start now [], justified_nil⟩ ?_
    rintro acts s s' a before ⟨held, justified⟩ - stepped
    refine ⟨restarting_step apart (serial_of_run (seen before))
      (sound_of_run staging apart (seen before)) held stepped, ?_⟩
    rw [(logStep_eq_some stepped).2]
    cases emitted : restartEvent s.state a with
    | none => simpa using justified
    | some e => exact justified.concat (exit_announced held stepped emitted)
  exact ⟨both.2, both.1.exited⟩

/-- One edit is applied and announced; while its timer runs, a second one is half written. -/
def exitAmidEdit : List Action :=
  [.receive ⟨7, ⟨lit "/etc/agent/overlay.yaml", lit "b: 2", false⟩⟩,
    .receive ⟨8, ⟨[], lit "\x7b\x7d", false⟩⟩, .lock 0 (noFaults (lit "1")), .advance, .advance,
    .advance, .advance, .advance, .advance, .answer, .spawn, .unlock, .arm 0,
    .lock 0 (noFaults (lit "2")), .advance, .write 1, .tick reloadDelay, .fire 0]

theorem exit_amid_edit_accepted :
    ∃ s, Run (watched plainHost overlaidManager) (fun _ _ => True)
        ⟨World.booted installed 0, []⟩ exitAmidEdit s ∧
      s.log.getLast? = some (.exited 75 reloadDelay) ∧
      plainHost.verdict (contents plainHost overlaidManager s.state.files) = true := by
  have executed : (exec (watched plainHost overlaidManager) (fun _ _ => true)
      ⟨World.booted installed 0, []⟩ exitAmidEdit).any (fun s => decide
        (s.log.getLast? = some (.exited 75 reloadDelay) ∧ s.state.exited = true)) = true := by
    decide +kernel
  obtain ⟨s, run, final⟩ := exists_run_of_exec (fun _ _ => true) exitAmidEdit _
    (fun _ _ _ => trivial) executed
  obtain ⟨last, exited⟩ := of_decide_eq_true final
  have present : ∀ path ∈ sourcePaths plainHost overlaidManager, path ∈ installed := by
    decide +kernel
  have staging : StagingApart plainHost overlaidManager installed :=
    fun path source => Or.inl (present path source)
  have apart : BackupsApart plainHost overlaidManager := by
    unfold BackupsApart
    decide +kernel
  exact ⟨s, run, last, (exit_onto_accepted_config staging apart run).2 exited⟩

end SignalAgent.Control.ConfigRestart
