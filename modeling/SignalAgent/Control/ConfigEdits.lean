/- MID: SignalAgent/Control/ConfigEdits
   layer: model
   source: components/edgecontroller/config_handler.go, components/edgecontroller/config_manager.go
   digest: Remote edits one write at a time, under their mutex, with restarts and power cuts. -/

import SignalAgent.Control.ConfigSet

set_option autoImplicit false
set_option relaxedAutoImplicit false

namespace SignalAgent.Control.ConfigEdits

open Foundations.GoMaps Foundations.GoText
open ConfigApply ConfigSet

/-- An `UpdateConfig` command as the receive loop hands it to its goroutine. -/
structure Edit where
  id : UInt64
  req : UpdateConfig
  deriving DecidableEq

/-- The critical section of one edit, with what the system answers in it. -/
structure Turn where
  edit : Edit
  faults : Faults
  deriving DecidableEq

/-- What `handleUpdateConfig` gives to `replyCommand`. -/
structure Answer where
  edit : Edit
  result : CommandResult
  deriving DecidableEq

abbrev Outcome := Except ApplyError (GoString × Bool)

/-- Where the goroutine that holds `configMu` stands. -/
inductive Phase where
  | locked
  | writing (path : GoString)
  | discarding (path : GoString) (e : ApplyError)
  | staged (path : GoString)
  | validated (path : GoString)
  | backedUp (path : GoString)
  | cleaning (path : GoString) (outcome : Outcome)
  | applied (outcome : Outcome)
  | answered (reload : Bool)

/-- The reply has been given. -/
def Phase.replied : Phase → Bool
  | .answered _ => true
  | _ => false

structure Holder where
  turn : Turn
  phase : Phase

/-- `Apply` cut at its system calls: each call is one step, with the decision that follows it. -/
def advance (H : Host) (m : ConfigManager) (f : Faults) (req : UpdateConfig) (fs : Files) :
    Phase → Option (Phase × Files)
  | .locked =>
    match checkRequest H m req.path req.config with
    | .error e => some (.applied (.error e), fs)
    | .ok path =>
      match f.createTemp with
      | some cause => some (.applied (.error (.cannotStage path cause)), fs)
      | none => some (.writing path, fs.insert (tempName H path f.random) [])
  | .writing path =>
    match f.staging with
    | some e =>
      let written := if f.write.isSome then req.config.take f.written else req.config
      some (.discarding path e, fs.insert (tempName H path f.random) written)
    | none => some (.staged path, fs.insert (tempName H path f.random) req.config)
  | .discarding path e =>
    some (.applied (.error e), if f.cleaned then fs.erase (tempName H path f.random) else fs)
  | .staged path =>
    match validate H m f fs path (tempName H path f.random) with
    | .error e => some (.cleaning path (.error e), fs)
    | .ok () => some (.validated path, fs)
  | .validated path => some (.backedUp path, backUp f fs path)
  | .backedUp path =>
    match renameFile f fs (tempName H path f.random) path with
    | .error cause => some (.cleaning path (.error (.cannotReplace path cause)), fs)
    | .ok moved =>
      some (.cleaning path (.ok (writtenMessage path req.skipReload, !req.skipReload)), moved)
  | .cleaning path outcome =>
    some (.applied outcome, removeStaged f fs (tempName H path f.random))
  | .applied _ | .answered _ => none

/-- What the staging file or the backup may hold while it is being written. -/
def partialWrite (H : Host) (f : Faults) (req : UpdateConfig) (fs : Files) (bytes : Nat) :
    Phase → Option Files
  | .writing path => some (fs.insert (tempName H path f.random) (req.config.take bytes))
  | .validated path =>
    match (if f.readable then fs.lookup path else none) with
    | some current =>
      if f.backup = .notOpened then none
      else some (fs.insert (path ++ backupSuffix) (current.take bytes))
    | none => none
  | _ => none

/-- The reply to an outcome, and whether a restart follows. -/
def Outcome.reply : Outcome → CommandResult × Bool
  | .error e => (⟨false, e.text⟩, false)
  | .ok (message, reload) => (⟨true, message⟩, reload)

/-- The files, and one life of the process: `boot` are the files it found, `received` the edits
it was sent, `turns` the critical sections in their order. A timer is the goroutine that waits
before the restart; it has no deadline until it runs. -/
structure World where
  files : Files
  now : Nat
  boot : Files
  received : List Edit
  waiting : List Edit
  configMu : Option Holder
  turns : List Turn
  answers : List Answer
  timers : List (Option Nat)
  cancelled : Bool
  exited : Bool

def World.booted (files : Files) (now : Nat) : World :=
  ⟨files, now, files, [], [], none, [], [], [], false, false⟩

/-- `reloadDelay` in nanoseconds. -/
def reloadDelay : Nat := 4 * 10 ^ 9

def exitCodeConfigApplied : Nat := 75

inductive Action where
  | receive (edit : Edit)
  | lock (i : Nat) (f : Faults)
  | write (bytes : Nat)
  | advance
  | answer
  | spawn
  | unlock
  | arm (k : Nat)
  | fire (k : Nat)
  | release (k : Nat)
  | shutdown
  | tick (d : Nat)
  | boot

/-- A step of a process that is running. -/
def live (H : Host) (m : ConfigManager) (w : World) : Action → Option World
  | .receive edit =>
    some { w with received := w.received ++ [edit], waiting := w.waiting ++ [edit] }
  -- The staging file is created exclusively, so its name belongs to no file.
  | .lock i f =>
    match w.configMu, w.waiting[i]? with
    | none, some edit =>
      if tempName H (target m edit.req.path) f.random ∈ w.files then none
      else some { w with
        waiting := w.waiting.eraseIdx i
        configMu := some ⟨⟨edit, f⟩, .locked⟩ }
    | _, _ => none
  | .write bytes =>
    match w.configMu with
    | some ⟨⟨edit, f⟩, phase⟩ =>
      (partialWrite H f edit.req w.files bytes phase).map (fun fs => { w with files := fs })
    | none => none
  | .advance =>
    match w.configMu with
    | some ⟨⟨edit, f⟩, phase⟩ =>
      (ConfigEdits.advance H m f edit.req w.files phase).map
        (fun next => { w with files := next.2, configMu := some ⟨⟨edit, f⟩, next.1⟩ })
    | none => none
  | .answer =>
    match w.configMu with
    | some ⟨turn, .applied outcome⟩ =>
      some { w with
        configMu := some ⟨turn, .answered outcome.reply.2⟩
        turns := w.turns ++ [turn]
        answers := w.answers ++ [⟨turn.edit, outcome.reply.1⟩] }
    | _ => none
  | .spawn =>
    match w.configMu with
    | some ⟨turn, .answered true⟩ =>
      some { w with
        configMu := some ⟨turn, .answered false⟩
        timers := w.timers ++ [none] }
    | _ => none
  | .unlock =>
    match w.configMu with
    | some ⟨_, .answered false⟩ => some { w with configMu := none }
    | _ => none
  | .arm k =>
    match w.timers[k]? with
    | some none => some { w with timers := w.timers.set k (some (w.now + reloadDelay)) }
    | _ => none
  | .fire k =>
    match w.timers[k]? with
    | some (some deadline) => if deadline ≤ w.now then some { w with exited := true } else none
    | _ => none
  | .release k =>
    match w.timers[k]? with
    | some (some _) =>
      if w.cancelled then some { w with timers := w.timers.eraseIdx k } else none
    | _ => none
  | .shutdown => some { w with cancelled := true }
  | .tick d => some { w with now := w.now + d }
  | .boot => some (World.booted w.files w.now)

/-- A process may end at any moment and be started again; one that has exited does nothing
else. -/
def step (H : Host) (m : ConfigManager) (w : World) (a : Action) : Option World :=
  if w.exited then
    match a with
    | .boot => some (World.booted w.files w.now)
    | _ => none
  else live H m w a

/-- What a step does, one constructor for each action. -/
inductive Effect (H : Host) (m : ConfigManager) (w : World) : Action → World → Prop where
  | received (edit : Edit) :
      Effect H m w (.receive edit)
        { w with received := w.received ++ [edit], waiting := w.waiting ++ [edit] }
  | locked {i : Nat} {edit : Edit} {f : Faults} (free : w.configMu = none)
      (here : w.waiting[i]? = some edit)
      (fresh : tempName H (target m edit.req.path) f.random ∉ w.files) :
      Effect H m w (.lock i f)
        { w with waiting := w.waiting.eraseIdx i, configMu := some ⟨⟨edit, f⟩, .locked⟩ }
  | wrote {bytes : Nat} {t : Turn} {phase : Phase} {fs : Files}
      (held : w.configMu = some ⟨t, phase⟩)
      (written : partialWrite H t.faults t.edit.req w.files bytes phase = some fs) :
      Effect H m w (.write bytes) { w with files := fs }
  | advanced {t : Turn} {phase next : Phase} {fs : Files}
      (held : w.configMu = some ⟨t, phase⟩)
      (moved : ConfigEdits.advance H m t.faults t.edit.req w.files phase = some (next, fs)) :
      Effect H m w .advance { w with files := fs, configMu := some ⟨t, next⟩ }
  | answered {t : Turn} {outcome : Outcome} (held : w.configMu = some ⟨t, .applied outcome⟩) :
      Effect H m w .answer
        { w with
          configMu := some ⟨t, .answered outcome.reply.2⟩
          turns := w.turns ++ [t]
          answers := w.answers ++ [⟨t.edit, outcome.reply.1⟩] }
  | spawned {t : Turn} (held : w.configMu = some ⟨t, .answered true⟩) :
      Effect H m w .spawn
        { w with configMu := some ⟨t, .answered false⟩, timers := w.timers ++ [none] }
  | unlocked {t : Turn} (held : w.configMu = some ⟨t, .answered false⟩) :
      Effect H m w .unlock { w with configMu := none }
  | armed {k : Nat} (here : w.timers[k]? = some none) :
      Effect H m w (.arm k) { w with timers := w.timers.set k (some (w.now + reloadDelay)) }
  | fired {k deadline : Nat} (here : w.timers[k]? = some (some deadline))
      (due : deadline ≤ w.now) : Effect H m w (.fire k) { w with exited := true }
  | released (k : Nat) : Effect H m w (.release k) { w with timers := w.timers.eraseIdx k }
  | shut : Effect H m w .shutdown { w with cancelled := true }
  | ticked (d : Nat) : Effect H m w (.tick d) { w with now := w.now + d }
  | rebooted : Effect H m w .boot (World.booted w.files w.now)

theorem effect_of_step {H : Host} {m : ConfigManager} {w w' : World} {a : Action}
    (stepped : step H m w a = some w') : Effect H m w a w' := by
  unfold step at stepped
  split at stepped
  · split at stepped <;> cases stepped
    exact .rebooted
  · cases a with
    | receive edit =>
      cases stepped
      exact .received edit
    | lock i f =>
      simp only [live] at stepped
      split at stepped
      · rename_i free here
        split at stepped <;> cases stepped
        rename_i fresh
        exact .locked free here fresh
      · cases stepped
    | write bytes =>
      simp only [live] at stepped
      split at stepped
      · rename_i held
        obtain ⟨fs, written, rfl⟩ := Option.map_eq_some_iff.mp stepped
        exact .wrote held written
      · cases stepped
    | advance =>
      simp only [live] at stepped
      split at stepped
      · rename_i held
        obtain ⟨next, moved, rfl⟩ := Option.map_eq_some_iff.mp stepped
        exact .advanced held moved
      · cases stepped
    | answer =>
      simp only [live] at stepped
      split at stepped <;> cases stepped
      exact .answered ‹_›
    | spawn =>
      simp only [live] at stepped
      split at stepped <;> cases stepped
      exact .spawned ‹_›
    | unlock =>
      simp only [live] at stepped
      split at stepped <;> cases stepped
      exact .unlocked ‹_›
    | arm k =>
      simp only [live] at stepped
      split at stepped <;> cases stepped
      exact .armed ‹_›
    | fire k =>
      simp only [live] at stepped
      split at stepped
      · rename_i here
        split at stepped <;> cases stepped
        rename_i due
        exact .fired here due
      · cases stepped
    | release k =>
      simp only [live] at stepped
      split at stepped
      · split at stepped <;> cases stepped
        exact .released k
      · cases stepped
    | shutdown =>
      cases stepped
      exact .shut
    | tick d =>
      cases stepped
      exact .ticked d
    | boot =>
      cases stepped
      exact .rebooted

theorem running_of_step {H : Host} {m : ConfigManager} {w w' : World} {a : Action}
    (stepped : step H m w a = some w') : a = .boot ∨ w.exited = false := by
  unfold step at stepped
  split at stepped
  · split at stepped <;> cases stepped
    exact Or.inl rfl
  · rename_i running
    exact Or.inr (Bool.eq_false_iff.mpr running)

/-- The turns taken one after another, each by the plain handler. -/
def replay (H : Host) (m : ConfigManager) (boot : Files) (turns : List Turn) :
    Files × List Answer :=
  turns.foldl (fun sofar t =>
    let handled := handleUpdateConfig H m t.faults sofar.1 t.edit.req
    (handled.2.2, sofar.2 ++ [⟨t.edit, handled.1⟩])) (boot, [])

theorem replay_concat (H : Host) (m : ConfigManager) (boot : Files) (turns : List Turn)
    (t : Turn) :
    replay H m boot (turns ++ [t]) =
      ((handleUpdateConfig H m t.faults (replay H m boot turns).1 t.edit.req).2.2,
        (replay H m boot turns).2 ++ [⟨t.edit,
          (handleUpdateConfig H m t.faults (replay H m boot turns).1 t.edit.req).1⟩]) := by
  rw [replay, List.foldl_append]
  rfl

section Handler

variable {H : Host} {m : ConfigManager} {f : Faults} {req : UpdateConfig} {base : Files}

/-- What the holder of the mutex has done to the files it found. -/
inductive Reached (H : Host) (m : ConfigManager) (f : Faults) (req : UpdateConfig)
    (base : Files) : Phase → Files → Prop where
  | locked : Reached H m f req base .locked base
  | writing {path : GoString} (written : GoString)
      (checked : checkRequest H m req.path req.config = .ok path)
      (created : f.createTemp = none) :
      Reached H m f req base (.writing path) (base.insert (tempName H path f.random) written)
  | discarding {path : GoString} {e : ApplyError}
      (checked : checkRequest H m req.path req.config = .ok path)
      (created : f.createTemp = none) (failed : f.staging = some e) :
      Reached H m f req base (.discarding path e) (base.insert (tempName H path f.random)
        (if f.write.isSome then req.config.take f.written else req.config))
  | staged {path : GoString} {candidate : Files}
      (checked : checkRequest H m req.path req.config = .ok path)
      (staged : stage H f base path req.config = (.ok (tempName H path f.random), candidate)) :
      Reached H m f req base (.staged path) candidate
  | validated {path : GoString} {candidate fs : Files}
      (checked : checkRequest H m req.path req.config = .ok path)
      (staged : stage H f base path req.config = (.ok (tempName H path f.random), candidate))
      (passed : validate H m f candidate path (tempName H path f.random) = .ok ())
      (same : ∀ p, p ≠ path ++ backupSuffix → fs.lookup p = candidate.lookup p)
      (backed : backUp f fs path = backUp f candidate path) :
      Reached H m f req base (.validated path) fs
  | backedUp {path : GoString} {candidate : Files}
      (checked : checkRequest H m req.path req.config = .ok path)
      (staged : stage H f base path req.config = (.ok (tempName H path f.random), candidate))
      (passed : validate H m f candidate path (tempName H path f.random) = .ok ()) :
      Reached H m f req base (.backedUp path) (backUp f candidate path)
  | cleaning {path : GoString} {outcome : Outcome} {fs : Files}
      (checked : checkRequest H m req.path req.config = .ok path)
      (effect : ApplyEffect H m f base req outcome
        (removeStaged f fs (tempName H path f.random))) :
      Reached H m f req base (.cleaning path outcome) fs
  | applied {outcome : Outcome} {fs : Files} (effect : ApplyEffect H m f base req outcome fs) :
      Reached H m f req base (.applied outcome) fs
  | answered (reload : Bool) : Reached H m f req base (.answered reload) base

theorem Reached.files_of_answered {reload : Bool} {fs : Files}
    (reached : Reached H m f req base (.answered reload) fs) : fs = base := by
  generalize answered : Phase.answered reload = phase at reached
  cases reached with
  | answered _ => rfl
  | _ => cases answered

theorem backUp_over_torn {fs : Files} {path current : GoString} (bytes : Nat)
    (here : (if f.readable then fs.lookup path else none) = some current)
    (opened : f.backup ≠ .notOpened) :
    backUp f (fs.insert (path ++ backupSuffix) (current.take bytes)) path = backUp f fs path := by
  have apart : path ≠ path ++ backupSuffix := by
    intro same
    have lengths := congrArg List.length same
    have suffix : backupSuffix.length = 4 := by decide
    rw [List.length_append, suffix] at lengths
    omega
  unfold backUp
  rw [lookup_insert_eq, if_neg apart, here]
  cases written : f.backup with
  | written => exact Finmap.insert_insert fs
  | notOpened => exact absurd written opened
  | cutOff bytes => exact Finmap.insert_insert fs

theorem reached_advance {phase next : Phase} {fs fs' : Files}
    (reached : Reached H m f req base phase fs)
    (stepped : advance H m f req fs phase = some (next, fs')) :
    Reached H m f req base next fs' := by
  cases reached with
  | locked =>
    simp only [advance] at stepped
    split at stepped
    · rename_i e checked
      cases stepped
      exact .applied (.rejected checked)
    · rename_i path checked
      split at stepped <;> rename_i created <;> cases stepped
      · refine .applied (.notStaged checked ?_)
        rw [stage, created]
      · exact .writing [] checked created
  | writing written checked created =>
    simp only [advance, Finmap.insert_insert] at stepped
    split at stepped <;> rename_i failed <;> cases stepped
    · exact .discarding checked created failed
    · refine .staged checked ?_
      rw [stage, created]
      dsimp only
      rw [failed]
  | discarding checked created failed =>
    cases stepped
    refine .applied (.notStaged checked ?_)
    rw [stage, created]
    dsimp only
    rw [failed]
  | staged checked staged =>
    simp only [advance] at stepped
    split at stepped <;> rename_i verdict <;> cases stepped
    · exact .cleaning checked (.refused checked staged verdict)
    · exact .validated checked staged verdict (fun _ _ => rfl) rfl
  | validated checked staged passed same backed =>
    cases stepped
    exact backed ▸ .backedUp checked staged passed
  | @backedUp path candidate checked staged passed =>
    simp only [advance] at stepped
    have committed : commit f candidate path (tempName H path f.random) =
        match renameFile f (backUp f candidate path) (tempName H path f.random) path with
        | .error cause => (.error (.cannotReplace path cause), backUp f candidate path)
        | .ok moved => (.ok (), moved) := rfl
    split at stepped <;> rename_i renamed <;> cases stepped <;> rw [renamed] at committed
    · exact .cleaning checked (.notReplaced checked staged passed committed)
    · exact .cleaning checked (.written checked staged passed committed)
  | cleaning checked effect =>
    cases stepped
    exact .applied effect
  | applied effect => cases stepped
  | answered reload => cases stepped

theorem reached_partialWrite {phase : Phase} {fs fs' : Files} {bytes : Nat}
    (reached : Reached H m f req base phase fs)
    (stepped : partialWrite H f req fs bytes phase = some fs') :
    Reached H m f req base phase fs' := by
  cases reached with
  | writing written checked created =>
    cases stepped
    rw [Finmap.insert_insert]
    exact .writing _ checked created
  | @validated path candidate fs checked staged passed same backed =>
    simp only [partialWrite] at stepped
    split at stepped
    · rename_i current here
      split at stepped
      · cases stepped
      · rename_i opened
        cases stepped
        refine .validated checked staged passed ?_ ((backUp_over_torn bytes here opened).trans
          backed)
        intro p other
        rw [lookup_insert_eq, if_neg other, same p other]
    · cases stepped
  | _ => cases stepped

/-- The new config has replaced the old one. -/
def Phase.written : Phase → Bool
  | .cleaning _ outcome | .applied outcome => outcome.toBool
  | _ => false

theorem sources_of_reached {phase : Phase} {fs : Files}
    (reached : Reached H m f req base phase fs) (staging : StagingApart H m base)
    (apart : BackupsApart H m)
    (fresh : phase.replied = false → tempName H (target m req.path) f.random ∉ base) :
    (phase.written = false ∧ ∀ p ∈ sourcePaths H m, fs.lookup p = base.lookup p) ∨
      (phase.written = true ∧ H.verdict (contents H m fs) = true ∧
        ∀ p ∈ sourcePaths H m, fs.lookup p = base.lookup p ∨ fs.lookup p = some req.config) := by
  have unstaged : ∀ {path : GoString}, checkRequest H m req.path req.config = .ok path →
      phase.replied = false → ∀ p ∈ sourcePaths H m, p ≠ tempName H path f.random := by
    intro path checked open_ p source
    have known := mem_sourcePaths_of_checkRequest checked
    obtain rfl := target_of_checkRequest checked
    exact ne_tempName staging known source (fresh open_)
  have noBackup : ∀ {path : GoString}, checkRequest H m req.path req.config = .ok path →
      ∀ p ∈ sourcePaths H m, p ≠ path ++ backupSuffix := by
    intro path checked p source same
    exact apart path (mem_sourcePaths_of_checkRequest checked) (same ▸ source)
  have candidateSame : ∀ {path : GoString} {candidate : Files},
      checkRequest H m req.path req.config = .ok path →
      stage H f base path req.config = (.ok (tempName H path f.random), candidate) →
      phase.replied = false → ∀ p ∈ sourcePaths H m, candidate.lookup p = base.lookup p := by
    intro path candidate checked staged open_ p source
    have kept := lookup_stage base req.config (unstaged checked open_ p source)
    rwa [staged] at kept
  have settled : ∀ {outcome : Outcome} {left : Files}, phase.replied = false →
      ApplyEffect H m f base req outcome left →
      (outcome.toBool = false ∧ ∀ p ∈ sourcePaths H m, left.lookup p = base.lookup p) ∨
        (outcome.toBool = true ∧ H.verdict (contents H m left) = true ∧
          ∀ p ∈ sourcePaths H m,
            left.lookup p = base.lookup p ∨ left.lookup p = some req.config) := by
    intro outcome left open_ effect
    rcases source_cases (r := ⟨req, f⟩) effect staging apart (fresh open_) with
      ⟨⟨e, rfl⟩, same⟩ | ⟨⟨done, rfl⟩, ⟨_, _, _, -, -, passed, held⟩, after⟩
    · exact Or.inl ⟨rfl, same⟩
    · exact Or.inr ⟨rfl, held ▸ verdict_of_validate passed, after⟩
  cases reached with
  | locked => exact Or.inl ⟨rfl, fun _ _ => rfl⟩
  | writing written checked created =>
    refine Or.inl ⟨rfl, fun p source => ?_⟩
    rw [lookup_insert_eq, if_neg (unstaged checked rfl p source)]
  | discarding checked created failed =>
    refine Or.inl ⟨rfl, fun p source => ?_⟩
    rw [lookup_insert_eq, if_neg (unstaged checked rfl p source)]
  | staged checked staged => exact Or.inl ⟨rfl, candidateSame checked staged rfl⟩
  | validated checked staged passed same backed =>
    refine Or.inl ⟨rfl, fun p source => ?_⟩
    rw [same p (noBackup checked p source), candidateSame checked staged rfl p source]
  | backedUp checked staged passed =>
    refine Or.inl ⟨rfl, fun p source => ?_⟩
    rw [lookup_backUp (noBackup checked p source), candidateSame checked staged rfl p source]
  | @cleaning path outcome fs checked effect =>
    have same : ∀ p ∈ sourcePaths H m,
        (removeStaged f fs (tempName H path f.random)).lookup p = fs.lookup p :=
      fun p source => lookup_removeStaged (unstaged checked rfl p source)
    rcases settled rfl effect with ⟨failed, kept⟩ | ⟨ok, accepted, after⟩
    · exact Or.inl ⟨failed, fun p source => (same p source).symm.trans (kept p source)⟩
    · refine Or.inr ⟨ok, contents_congr same ▸ accepted, fun p source => ?_⟩
      rw [← same p source]
      exact after p source
  | applied effect => exact settled rfl effect
  | answered reload => exact Or.inl ⟨rfl, fun _ _ => rfl⟩

theorem handleUpdateConfig_of_effect {outcome : Outcome} {left : Files}
    (effect : ApplyEffect H m f base req outcome left) :
    handleUpdateConfig H m f base req = (outcome.reply.1, outcome.reply.2, left) := by
  have applied : apply H m f base req = (outcome, left) := by
    unfold apply
    cases effect with
    | rejected checked => rw [checked]
    | notStaged checked staged =>
      rw [checked]
      dsimp only
      rw [staged]
    | refused checked staged validated =>
      rw [checked]
      dsimp only
      rw [staged]
      dsimp only
      rw [validated]
    | notReplaced checked staged validated committed =>
      rw [checked]
      dsimp only
      rw [staged]
      dsimp only
      rw [validated]
      dsimp only
      rw [committed]
    | written checked staged validated committed =>
      rw [checked]
      dsimp only
      rw [staged]
      dsimp only
      rw [validated]
      dsimp only
      rw [committed]
  rw [handleUpdateConfig, applied]
  cases outcome <;> rfl

end Handler

end SignalAgent.Control.ConfigEdits
