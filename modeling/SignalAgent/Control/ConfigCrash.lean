/- MID: SignalAgent/Control/ConfigCrash
   layer: results
   source: components/edgecontroller/config_handler.go, components/edgecontroller/config_manager.go
   digest: Edits behave as if handled one after another; a crash leaves a whole config set. -/

import SignalAgent.Control.ConfigEdits

set_option autoImplicit false
set_option relaxedAutoImplicit false

namespace SignalAgent.Control.ConfigCrash

open Foundations.GoMaps Foundations.GoText Foundations.GuardedRuns
open ConfigApply ConfigEdits
open ConfigSet hiding step

/-- The files after the finished turns of this life. -/
def baseFiles (H : Host) (m : ConfigManager) (w : World) : Files := (replay H m w.boot w.turns).1

/-- The edit that holds the mutex and has not been answered. -/
def inHand (w : World) : Option Edit :=
  w.configMu.bind (fun h => if h.phase.replied then none else some h.turn.edit)

/-- The file holds what it held at first, or the whole config of an edit that was received. -/
def WholeFile (start : Files) (acts : List Action) (fs : Files) (p : GoString) : Prop :=
  fs.lookup p = start.lookup p ∨
    ∃ edit, Action.receive edit ∈ acts ∧ fs.lookup p = some edit.req.config

/-- What is known of the disk between two turns. -/
structure Sound (H : Host) (m : ConfigManager) (start : Files) (acts : List Action)
    (fs : Files) : Prop where
  staging : StagingApart H m fs
  accepted : contents H m fs = contents H m start ∨ H.verdict (contents H m fs) = true
  whole : ∀ p ∈ sourcePaths H m, WholeFile start acts fs p

/-- The lock holder is in the middle of its edit of the files the finished turns left. -/
structure Serial (H : Host) (m : ConfigManager) (acts : List Action) (w : World) : Prop where
  held : ∀ {t : Turn} {phase : Phase}, w.configMu = some ⟨t, phase⟩ →
    Reached H m t.faults t.edit.req (baseFiles H m w) phase w.files ∧
      (phase.replied = false →
        tempName H (target m t.edit.req.path) t.faults.random ∉ baseFiles H m w)
  free : w.configMu = none → w.files = baseFiles H m w
  answers : w.answers = (replay H m w.boot w.turns).2
  conserved : w.received.Perm (w.waiting ++ (inHand w).toList ++ w.turns.map Turn.edit)
  received : ∀ edit ∈ w.received, Action.receive edit ∈ acts

section Serial

variable {H : Host} {m : ConfigManager} {start : Files} {acts : List Action} {w w' : World}

theorem Sound.mono {fs : Files} (held : Sound H m start acts fs) (a : Action) :
    Sound H m start (acts ++ [a]) fs where
  staging := held.staging
  accepted := held.accepted
  whole p source := by
    rcases held.whole p source with same | ⟨edit, member, written⟩
    · exact Or.inl same
    · exact Or.inr ⟨edit, List.mem_append_left _ member, written⟩

private theorem Sound.reached {base fs : Files} {t : Turn} {phase : Phase}
    (held : Sound H m start acts base) (apart : BackupsApart H m)
    (reached : Reached H m t.faults t.edit.req base phase fs)
    (fresh : phase.replied = false →
      tempName H (target m t.edit.req.path) t.faults.random ∉ base)
    (known : phase.replied = false → Action.receive t.edit ∈ acts) :
    Sound H m start acts fs := by
  rcases sources_of_reached reached held.staging apart fresh with
    ⟨-, same⟩ | ⟨written, accepted, after⟩
  · refine ⟨?_, contents_congr same ▸ held.accepted, fun p source => ?_⟩
    · intro p source
      have before := held.staging p source
      rwa [← Finmap.lookup_isSome, same p source, Finmap.lookup_isSome]
    · have before := held.whole p source
      rwa [WholeFile, same p source]
  · have open_ : phase.replied = false := by
      cases phase <;> first | rfl | cases written
    refine ⟨?_, Or.inr accepted, fun p source => ?_⟩
    · intro p source
      have before := held.staging p source
      rcases after p source with same | replaced
      · rwa [← Finmap.lookup_isSome, same, Finmap.lookup_isSome]
      · exact Or.inl (mem_of_lookup replaced)
    · rcases after p source with same | replaced
      · have before := held.whole p source
        rwa [WholeFile, same]
      · exact Or.inr ⟨t.edit, known open_, replaced⟩

private theorem Serial.inHand_received (held : Serial H m acts w) {t : Turn} {phase : Phase}
    (owner : w.configMu = some ⟨t, phase⟩) (open_ : phase.replied = false) :
    Action.receive t.edit ∈ acts := by
  refine held.received t.edit (held.conserved.mem_iff.mpr ?_)
  have here : inHand w = some t.edit := by
    rw [inHand, owner, Option.bind_some, open_]
    rfl
  simp [here]

theorem Serial.disk (held : Serial H m acts w) (apart : BackupsApart H m)
    (sound : Sound H m start acts (baseFiles H m w)) : Sound H m start acts w.files := by
  cases owner : w.configMu with
  | none => exact held.free owner ▸ sound
  | some holder =>
    obtain ⟨t, phase⟩ := holder
    obtain ⟨reached, fresh⟩ := held.held owner
    exact sound.reached apart reached fresh (held.inHand_received owner)

theorem serial_booted (fs : Files) (now : Nat) :
    Serial H m acts (World.booted fs now) where
  held owner := by cases owner
  free _ := rfl
  answers := rfl
  conserved := List.Perm.nil
  received _ member := by cases member

private theorem Serial.frame (held : Serial H m acts w)
    (files : w'.files = w.files) (boot : w'.boot = w.boot) (received : w'.received = w.received)
    (waiting : w'.waiting = w.waiting) (mutex : w'.configMu = w.configMu)
    (turns : w'.turns = w.turns) (answers : w'.answers = w.answers) :
    Serial H m acts w' := by
  have base : baseFiles H m w' = baseFiles H m w := by rw [baseFiles, baseFiles, boot, turns]
  have hand : inHand w' = inHand w := by rw [inHand, inHand, mutex]
  constructor
  · intro t phase owner
    rw [base, files]
    exact held.held (mutex ▸ owner)
  · intro free
    rw [base, files]
    exact held.free (mutex ▸ free)
  · rw [answers, boot, turns]
    exact held.answers
  · rw [received, waiting, hand, turns]
    exact held.conserved
  · rw [received]
    exact held.received

private theorem Serial.move (held : Serial H m acts w) {t : Turn} {phase next : Phase}
    {fs : Files} (owner : w.configMu = some ⟨t, phase⟩)
    (same : next.replied = phase.replied)
    (reached : Reached H m t.faults t.edit.req (baseFiles H m w) next fs) :
    Serial H m acts { w with files := fs, configMu := some ⟨t, next⟩ } where
  held := by
    intro t' phase' owner'
    cases owner'
    exact ⟨reached, fun open_ => (held.held owner).2 (same ▸ open_)⟩
  free owner' := by cases owner'
  answers := held.answers
  conserved := by
    have hand : inHand { w with files := fs, configMu := some ⟨t, next⟩ } = inHand w := by
      rw [inHand, inHand, owner]
      simp only [Option.bind_some, same]
    rw [hand]
    exact held.conserved
  received := held.received

theorem replied_of_advance {f : Faults} {req : UpdateConfig} {fs fs' : Files}
    {phase next : Phase} (moved : advance H m f req fs phase = some (next, fs')) :
    next.replied = phase.replied := by
  cases phase with
  | locked =>
    simp only [advance] at moved
    split at moved
    · cases moved
      rfl
    · split at moved <;> cases moved <;> rfl
  | writing path | staged path | backedUp path =>
    simp only [advance] at moved
    split at moved <;> cases moved <;> rfl
  | discarding path e | validated path | cleaning path outcome =>
    cases moved
    rfl
  | applied outcome | answered reload => cases moved

private theorem Serial.answer (held : Serial H m acts w) {t : Turn} {outcome : Outcome}
    (owner : w.configMu = some ⟨t, .applied outcome⟩) :
    Serial H m acts
      { w with
        configMu := some ⟨t, .answered outcome.reply.2⟩
        turns := w.turns ++ [t]
        answers := w.answers ++ [⟨t.edit, outcome.reply.1⟩] } := by
  obtain ⟨reached, -⟩ := held.held owner
  cases reached with
  | applied effect =>
    have handled := handleUpdateConfig_of_effect effect
    have replayed : replay H m w.boot (w.turns ++ [t]) =
        (w.files, w.answers ++ [⟨t.edit, outcome.reply.1⟩]) := by
      rw [replay_concat]
      change ((handleUpdateConfig H m t.faults (baseFiles H m w) t.edit.req).2.2, _ ++
        [Answer.mk t.edit (handleUpdateConfig H m t.faults (baseFiles H m w) t.edit.req).1]) = _
      rw [handled, held.answers]
    have base : baseFiles H m
        { w with
          configMu := some ⟨t, .answered outcome.reply.2⟩
          turns := w.turns ++ [t]
          answers := w.answers ++ [⟨t.edit, outcome.reply.1⟩] } = w.files :=
      congrArg Prod.fst replayed
    constructor
    · intro t' phase' owner'
      cases owner'
      rw [base]
      exact ⟨.answered _, fun open_ => nomatch open_⟩
    · intro owner'
      cases owner'
    · exact (congrArg Prod.snd replayed).symm
    · have before := held.conserved
      have hand : inHand w = some t.edit := by
        rw [inHand, owner]
        rfl
      rw [hand] at before
      refine before.trans ?_
      change (w.waiting ++ [t.edit] ++ w.turns.map Turn.edit).Perm
        (w.waiting ++ [] ++ (w.turns ++ [t]).map Turn.edit)
      rw [List.map_append, List.append_nil, List.append_assoc]
      exact List.perm_append_comm.append_left _
    · exact held.received

theorem serial_step {a : Action} (held : Serial H m acts w) (stepped : step H m w a = some w') :
    Serial H m (acts ++ [a]) w' := by
  have later : Serial H m (acts ++ [a]) w :=
    { held with
      received := fun edit member => List.mem_append_left _ (held.received edit member) }
  cases effect_of_step stepped with
  | received edit =>
    refine { later with conserved := ?_, received := ?_ }
    · have grown := later.conserved.append_right [edit]
      refine grown.trans ?_
      change (w.waiting ++ (inHand w).toList ++ w.turns.map Turn.edit ++ [edit]).Perm
        (w.waiting ++ [edit] ++ (inHand w).toList ++ w.turns.map Turn.edit)
      simp only [List.append_assoc]
      refine List.Perm.append_left _ ?_
      rw [← List.append_assoc]
      exact List.perm_append_comm
    · intro other member
      rcases List.mem_append.mp member with old | new
      · exact later.received other old
      · obtain rfl := List.mem_singleton.mp new
        exact List.mem_append_right _ List.mem_cons_self
  | @locked i edit f free here fresh =>
    have files := later.free free
    refine { later with held := ?_, free := ?_, conserved := ?_ }
    · intro t phase owner
      cases owner
      have base : w.files = baseFiles H m w := files
      exact ⟨base ▸ .locked, fun _ => base ▸ fresh⟩
    · intro owner
      cases owner
    · refine later.conserved.trans ?_
      have hand : inHand w = none := by rw [inHand, free]; rfl
      obtain ⟨inside, same⟩ := List.getElem?_eq_some_iff.mp here
      have moved := List.getElem_cons_eraseIdx_perm inside
      rw [hand]
      change (w.waiting ++ [] ++ w.turns.map Turn.edit).Perm
        (w.waiting.eraseIdx i ++ [edit] ++ w.turns.map Turn.edit)
      rw [List.append_nil]
      refine List.Perm.append_right _ ?_
      rw [same] at moved
      exact moved.symm.trans (List.perm_append_singleton edit _).symm
  | wrote owner written =>
    have moved := later.move owner rfl (reached_partialWrite (later.held owner).1 written)
    rwa [← owner] at moved
  | advanced owner moved =>
    exact later.move owner (replied_of_advance moved)
      (reached_advance (later.held owner).1 moved)
  | answered owner => exact later.answer owner
  | @spawned t owner =>
    have files := (later.held owner).1.files_of_answered
    have moved : Serial H m _ { w with configMu := some ⟨t, .answered false⟩ } :=
      later.move owner rfl (files ▸ .answered false)
    exact moved.frame rfl rfl rfl rfl rfl rfl rfl
  | unlocked owner =>
    refine { later with held := ?_, free := ?_, conserved := ?_ }
    · intro t phase owner'
      cases owner'
    · intro _
      exact (later.held owner).1.files_of_answered
    · have hand : inHand w = none := by rw [inHand, owner]; rfl
      have before := later.conserved
      rw [hand] at before
      exact before
  | armed here => exact later.frame rfl rfl rfl rfl rfl rfl rfl
  | fired here due => exact later.frame rfl rfl rfl rfl rfl rfl rfl
  | released k => exact later.frame rfl rfl rfl rfl rfl rfl rfl
  | shut => exact later.frame rfl rfl rfl rfl rfl rfl rfl
  | ticked d => exact later.frame rfl rfl rfl rfl rfl rfl rfl
  | rebooted => exact serial_booted w.files w.now

theorem sound_step (apart : BackupsApart H m) {a : Action} (held : Serial H m acts w)
    (sound : Sound H m start acts (baseFiles H m w)) (stepped : step H m w a = some w') :
    Sound H m start (acts ++ [a]) (baseFiles H m w') := by
  have disk := (held.disk apart sound).mono a
  have after := serial_step held stepped
  cases effect_of_step stepped with
  | answered owner => exact (after.held rfl).1.files_of_answered ▸ disk
  | rebooted => exact disk
  | _ => exact sound.mono _

theorem serial_of_run {now : Nat}
    (run : Run (step H m) (fun _ _ => True) (World.booted start now) acts w) :
    Serial H m acts w :=
  run.invariant (Serial H m) (serial_booted start now)
    (fun held _ stepped => serial_step held stepped)

theorem sound_of_run (staging : StagingApart H m start) (apart : BackupsApart H m) {now : Nat}
    (run : Run (step H m) (fun _ _ => True) (World.booted start now) acts w) :
    Sound H m start acts (baseFiles H m w) := by
  have first : Sound H m start [] (baseFiles H m (World.booted start now)) :=
    ⟨staging, Or.inl rfl, fun _ _ => Or.inl rfl⟩
  exact run.historyInvariant (fun acts w => Sound H m start acts (baseFiles H m w)) first
    (fun before sound _ stepped => sound_step apart (serial_of_run before) sound stepped)

end Serial

/-- Whichever edits are under way and wherever the process is cut off, also in the middle of a
write and over any number of restarts, the config sources on disk are together the set of the
start or one the validator accepted, and each is whole. -/
theorem config_survives_crash {H : Host} {m : ConfigManager} {start : Files} {now : Nat}
    {acts : List Action} {w : World} (staging : StagingApart H m start) (apart : BackupsApart H m)
    (run : Run (step H m) (fun _ _ => True) (World.booted start now) acts w) :
    (contents H m w.files = contents H m start ∨ H.verdict (contents H m w.files) = true) ∧
      ∀ p ∈ sourcePaths H m, WholeFile start acts w.files p := by
  have sound := (serial_of_run run).disk apart (sound_of_run staging apart run)
  exact ⟨sound.accepted, sound.whole⟩

/-- The answers of a process and, whenever `configMu` is free, its files are those of handling
its edits one after another in the order they took the mutex; every edit it received is still
waiting, in hand, or has had exactly one turn. -/
theorem edits_are_serial {H : Host} {m : ConfigManager} {start : Files} {now : Nat}
    {acts : List Action} {w : World}
    (run : Run (step H m) (fun _ _ => True) (World.booted start now) acts w) :
    w.answers = (replay H m w.boot w.turns).2 ∧
      (w.configMu = none → w.files = (replay H m w.boot w.turns).1) ∧
      w.received.Perm (w.waiting ++ (inHand w).toList ++ w.turns.map Turn.edit) := by
  have serial := serial_of_run run
  exact ⟨serial.answers, serial.free, serial.conserved⟩

private def overlayEdit : Edit := ⟨7, ⟨lit "/etc/agent/overlay.yaml", lit "b: 2", false⟩⟩

/-- The first process is cut off with half a candidate on disk, the second between the rename
and the clean-up. -/
def cutTwice : List Action :=
  [.receive overlayEdit, .lock 0 (noFaults (lit "1")), .advance, .write 2, .boot,
    .receive overlayEdit, .lock 0 (noFaults (lit "2")), .advance, .advance, .advance, .write 1,
    .advance, .advance, .boot]

theorem cut_twice_whole :
    ∃ w, Run (step plainHost overlaidManager) (fun _ _ => True) (World.booted installed 0)
        cutTwice w ∧
      contents plainHost overlaidManager w.files =
        [.file (some (lit "a: 1")), .other (lit "env:OVERRIDES"), .file (some (lit "b: 2"))] ∧
      plainHost.verdict (contents plainHost overlaidManager w.files) = true := by
  have executed : (exec (step plainHost overlaidManager) (fun _ _ => true)
      (World.booted installed 0) cutTwice).any (fun w => decide
        (contents plainHost overlaidManager w.files =
          [.file (some (lit "a: 1")), .other (lit "env:OVERRIDES"),
            .file (some (lit "b: 2"))])) = true := by
    decide +kernel
  obtain ⟨w, run, final⟩ := exists_run_of_exec (fun _ _ => true) cutTwice _
    (fun _ _ _ => trivial) executed
  have now := of_decide_eq_true final
  have present : ∀ path ∈ sourcePaths plainHost overlaidManager, path ∈ installed := by
    decide +kernel
  have staging : StagingApart plainHost overlaidManager installed :=
    fun path source => Or.inl (present path source)
  have apart : BackupsApart plainHost overlaidManager := by
    unfold BackupsApart
    decide +kernel
  refine ⟨w, run, now, ?_⟩
  rcases (config_survives_crash staging apart run).1 with same | accepted
  · rw [now] at same
    exact absurd same (by decide +kernel)
  · exact accepted

private def emptyEdit : Edit := ⟨8, ⟨[], lit "\x7b\x7d", false⟩⟩

/-- Two edits arrive; the later one takes the mutex first and is refused by the validator. -/
def outOfTurn : List Action :=
  [.receive overlayEdit, .receive emptyEdit, .lock 1 (noFaults (lit "1")), .advance, .advance,
    .advance, .advance, .answer, .unlock]

theorem out_of_turn_serial :
    ∃ w, Run (step plainHost overlaidManager) (fun _ _ => True) (World.booted installed 0)
        outOfTurn w ∧
      w.turns.map Turn.edit = [emptyEdit] ∧ w.answers.map (·.result.success) = [false] ∧
      w.answers = (replay plainHost overlaidManager w.boot w.turns).2 := by
  have executed : (exec (step plainHost overlaidManager) (fun _ _ => true)
      (World.booted installed 0) outOfTurn).any (fun w => decide
        (w.turns.map Turn.edit = [emptyEdit] ∧ w.answers.map (·.result.success) = [false])) =
        true := by
    decide +kernel
  obtain ⟨w, run, final⟩ := exists_run_of_exec (fun _ _ => true) outOfTurn _
    (fun _ _ _ => trivial) executed
  obtain ⟨turns, refused⟩ := of_decide_eq_true final
  exact ⟨w, run, turns, refused, (edits_are_serial run).1⟩

end SignalAgent.Control.ConfigCrash
