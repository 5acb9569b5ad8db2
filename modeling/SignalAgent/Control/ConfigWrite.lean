/- MID: SignalAgent/Control/ConfigWrite
   layer: results
   source: components/edgecontroller/config_manager.go
   digest: A config write is all-or-nothing on its target; when the backup beside it is true. -/

import SignalAgent.Control.ConfigSet

set_option autoImplicit false
set_option relaxedAutoImplicit false

namespace SignalAgent.Control.ConfigWrite

open Foundations.GoMaps Foundations.GoText
open ConfigApply ConfigSet

/-- The file a request is about, and the names that belong to it. -/
def stagingFile (H : Host) (m : ConfigManager) (f : Faults) (req : UpdateConfig) : GoString :=
  tempName H (target m req.path) f.random

def backupFile (m : ConfigManager) (req : UpdateConfig) : GoString :=
  target m req.path ++ backupSuffix

/-- What the system promises of a staging file it creates: it was not there before, and the last
element of its path is the name asked for. -/
structure NewStagingFile (H : Host) (m : ConfigManager) (f : Faults) (fs : Files)
    (req : UpdateConfig) : Prop where
  fresh : stagingFile H m f req ∉ fs
  named : H.base (stagingFile H m f req) =
    H.base (target m req.path) ++ lit "." ++ f.random ++ lit ".tmp"

/-- What a request leaves, whichever of its steps fails. -/
structure AllOrNothing (H : Host) (m : ConfigManager) (f : Faults) (fs : Files)
    (req : UpdateConfig) : Prop where
  others : ∀ p, p ≠ target m req.path → p ≠ backupFile m req →
    (f.createTemp = none → p ≠ stagingFile H m f req) →
    (apply H m f fs req).2.lookup p = fs.lookup p
  known : (∃ p, (apply H m f fs req).2.lookup p ≠ fs.lookup p) →
    target m req.path ∈ sourcePaths H m
  unstaged : f.createTemp = none → f.cleaned = true → f.removed = true →
    stagingFile H m f req ∉ (apply H m f fs req).2
  written : ∀ done, (apply H m f fs req).1 = .ok done →
    (apply H m f fs req).2.lookup (target m req.path) = some req.config
  kept : ∀ e, (apply H m f fs req).1 = .error e →
    (apply H m f fs req).2.lookup (target m req.path) = fs.lookup (target m req.path)

section Effects

variable {H : Host} {m : ConfigManager} {f : Faults} {fs fs' : Files} {req : UpdateConfig}
  {outcome : Except ApplyError (GoString × Bool)}

theorem target_ne_backupFile (m : ConfigManager) (req : UpdateConfig) :
    target m req.path ≠ backupFile m req := by
  intro same
  have lengths := congrArg List.length same
  have suffix : backupSuffix.length = 4 := by decide
  rw [backupFile, List.length_append, suffix] at lengths
  omega

theorem NewStagingFile.ne_target (staging : NewStagingFile H m f fs req) :
    target m req.path ≠ stagingFile H m f req := by
  intro same
  have named := staging.named
  rw [← same] at named
  have lengths := congrArg List.length named
  have tmp : (lit ".tmp").length = 4 := by decide
  simp only [List.length_append, tmp] at lengths
  omega

private theorem staged_eq {path tmpPath : GoString} {candidate : Files}
    (checked : checkRequest H m req.path req.config = .ok path)
    (staged : stage H f fs path req.config = (.ok tmpPath, candidate)) :
    path = target m req.path ∧ tmpPath = stagingFile H m f req ∧
      candidate = fs.insert (stagingFile H m f req) req.config := by
  obtain rfl := target_of_checkRequest checked
  obtain ⟨rfl, rfl⟩ := stage_ok staged
  exact ⟨rfl, rfl, rfl⟩

private theorem eq_of_createTemp {cause : GoString} (failed : f.createTemp = some cause)
    (effect : ApplyEffect H m f fs req outcome fs') :
    fs' = fs ∧ ∀ done, outcome ≠ .ok done := by
  have noStage {path : GoString} :
      stage H f fs path req.config = (.error (.cannotStage path cause), fs) := by
    rw [stage, failed]
  cases effect with
  | rejected checked => exact ⟨rfl, fun _ same => by cases same⟩
  | notStaged checked staged =>
    rw [noStage] at staged
    cases staged
    exact ⟨rfl, fun _ same => by cases same⟩
  | refused checked staged | notReplaced checked staged | written checked staged =>
    rw [noStage] at staged
    cases staged

private theorem lookup_of_effect (effect : ApplyEffect H m f fs req outcome fs') {p : GoString}
    (unstaged : p ≠ stagingFile H m f req) (noBackup : p ≠ backupFile m req) :
    fs'.lookup p = if outcome.toBool = true ∧ p = target m req.path then some req.config
      else fs.lookup p := by
  cases effect with
  | rejected checked => exact (if_neg (by rintro ⟨done, -⟩; cases done)).symm
  | notStaged checked staged =>
    obtain rfl := target_of_checkRequest checked
    have same := lookup_stage fs req.config unstaged
    rw [staged] at same
    exact same.trans (if_neg (by rintro ⟨done, -⟩; cases done)).symm
  | refused checked staged validated =>
    obtain ⟨rfl, rfl, rfl⟩ := staged_eq checked staged
    rw [lookup_removeStaged unstaged, lookup_insert_eq, if_neg unstaged]
    exact (if_neg (by rintro ⟨done, -⟩; cases done)).symm
  | notReplaced checked staged validated committed =>
    obtain ⟨rfl, rfl, rfl⟩ := staged_eq checked staged
    rw [lookup_removeStaged unstaged, lookup_commit_error committed noBackup, lookup_insert_eq,
      if_neg unstaged]
    exact (if_neg (by rintro ⟨done, -⟩; cases done)).symm
  | written checked staged validated committed =>
    obtain ⟨rfl, rfl, rfl⟩ := staged_eq checked staged
    have held := lookup_insert_eq fs (stagingFile H m f req) (stagingFile H m f req) req.config
    rw [if_pos rfl] at held
    rw [lookup_removeStaged unstaged,
      lookup_commit_ok committed held (tempName_ne_backup H _ _ _) noBackup unstaged,
      lookup_insert_eq, if_neg unstaged]
    simp [Except.toBool]

private theorem not_mem_of_effect (effect : ApplyEffect H m f fs req outcome fs')
    (created : f.createTemp = none) (fresh : stagingFile H m f req ∉ fs)
    (cleaned : f.cleaned = true) (removed : f.removed = true) : stagingFile H m f req ∉ fs' := by
  have erased (left : Files) : stagingFile H m f req ∉
      removeStaged f left (stagingFile H m f req) := by
    rw [removeStaged, if_pos removed, Finmap.mem_erase]
    exact fun member => member.1 rfl
  cases effect with
  | rejected checked => exact fresh
  | notStaged checked staged =>
    obtain rfl := target_of_checkRequest checked
    rw [stage, created] at staged
    dsimp only at staged
    split at staged
    · cases staged
      rw [if_pos cleaned, stagingFile, Finmap.mem_erase]
      exact fun member => member.1 rfl
    · cases staged
  | refused checked staged | notReplaced checked staged | written checked staged =>
    obtain ⟨rfl, rfl, rfl⟩ := staged_eq checked staged
    exact erased _

private theorem known_of_effect (effect : ApplyEffect H m f fs req outcome fs')
    (changed : ∃ p, fs'.lookup p ≠ fs.lookup p) : target m req.path ∈ sourcePaths H m := by
  cases effect with
  | rejected checked =>
    obtain ⟨p, differs⟩ := changed
    exact absurd rfl differs
  | notStaged checked | refused checked | notReplaced checked | written checked =>
    rw [← target_of_checkRequest checked]
    exact mem_sourcePaths_of_checkRequest checked

end Effects

/-- Every request, whichever step fails, is all-or-nothing on its target. -/
theorem apply_all_or_nothing (H : Host) (m : ConfigManager) (f : Faults) (fs : Files)
    (req : UpdateConfig) (staging : f.createTemp = none → NewStagingFile H m f fs req) :
    AllOrNothing H m f fs req := by
  have effect := apply_effect H m f fs req
  generalize outcomeIs : (apply H m f fs req).1 = outcome at effect
  generalize leftIs : (apply H m f fs req).2 = left at effect
  have onTarget : left.lookup (target m req.path) =
      if outcome.toBool = true then some req.config else fs.lookup (target m req.path) := by
    cases created : f.createTemp with
    | some cause =>
      obtain ⟨rfl, failed⟩ := eq_of_createTemp created effect
      cases outcome with
      | error e => rfl
      | ok done => exact absurd rfl (failed done)
    | none =>
      have moved := lookup_of_effect effect (staging created).ne_target (target_ne_backupFile m req)
      simpa only [eq_self, and_true] using moved
  constructor
  · intro p untargeted noBackup unstaged
    rw [leftIs]
    cases created : f.createTemp with
    | some cause => rw [(eq_of_createTemp created effect).1]
    | none =>
      rw [lookup_of_effect effect (unstaged created) noBackup,
        if_neg (fun both => untargeted both.2)]
  · rw [leftIs]
    exact known_of_effect effect
  · intro created cleaned removed
    rw [leftIs]
    exact not_mem_of_effect effect created (staging created).fresh cleaned removed
  · intro done succeeded
    rw [leftIs, onTarget, ← outcomeIs, succeeded]
    rfl
  · intro e failed
    rw [leftIs, onTarget, ← outcomeIs, failed]
    rfl

theorem apply_all_or_nothing_not_renamed :
    AllOrNothing plainHost overlaidManager
      { noFaults (lit "7") with rename := some (lit "device or resource busy") } installed
      ⟨[], lit "a: 2", true⟩ :=
  apply_all_or_nothing plainHost overlaidManager
    { noFaults (lit "7") with rename := some (lit "device or resource busy") } installed
    ⟨[], lit "a: 2", true⟩ (fun _ => ⟨by decide +kernel, by decide +kernel⟩)

/-- The backup a caller is told about: the old contents after a success, untouched otherwise. -/
structure TruthfulBackup (H : Host) (m : ConfigManager) (f : Faults) (fs : Files)
    (req : UpdateConfig) (current : GoString) : Prop where
  success : ∀ done, (apply H m f fs req).1 = .ok done →
    (apply H m f fs req).2.lookup (backupFile m req) = some current
  failure : ∀ e, (apply H m f fs req).1 = .error e →
    (apply H m f fs req).2.lookup (backupFile m req) = fs.lookup (backupFile m req)

/-- The request is checked, staged and accepted by the validator, so that the file is replaced
next. -/
def ReachesCommit (H : Host) (m : ConfigManager) (f : Faults) (fs : Files) (req : UpdateConfig) :
    Prop :=
  checkRequest H m req.path req.config = .ok (target m req.path) ∧ f.createTemp = none ∧
    f.staging = none ∧
    validate H m f (fs.insert (stagingFile H m f req) req.config) (target m req.path)
      (stagingFile H m f req) = .ok ()

/-- The steps of the replacement fit together: a whole backup is followed by the rename, and a
missing or short one is not, unless the backup file already held what it should hold. -/
def StepsAgree (m : ConfigManager) (f : Faults) (fs : Files) (req : UpdateConfig)
    (current : GoString) : Prop :=
  match f.backup, f.rename with
  | .written, none => True
  | .written, some _ => fs.lookup (backupFile m req) = some current
  | .notOpened, none => fs.lookup (backupFile m req) = some current
  | .notOpened, some _ => True
  | .cutOff bytes, none => current.length ≤ bytes
  | .cutOff bytes, some _ => fs.lookup (backupFile m req) = some (current.take bytes)

section Backup

variable {H : Host} {m : ConfigManager} {f : Faults} {fs fs' : Files} {req : UpdateConfig}
  {outcome : Except ApplyError (GoString × Bool)}

private theorem backupFile_ne_stagingFile :
    backupFile m req ≠ stagingFile H m f req :=
  (tempName_ne_backup H (target m req.path) f.random (target m req.path)).symm

private theorem reachesCommit_of_validated {path tmpPath : GoString} {candidate : Files}
    (checked : checkRequest H m req.path req.config = .ok path)
    (staged : stage H f fs path req.config = (.ok tmpPath, candidate))
    (validated : validate H m f candidate path tmpPath = .ok ()) : ReachesCommit H m f fs req := by
  obtain ⟨rfl, rfl, rfl⟩ := staged_eq checked staged
  have calls : f.createTemp = none ∧ f.staging = none := by
    unfold stage at staged
    dsimp only at staged
    split at staged
    · cases staged
    · rename_i created
      split at staged
      · cases staged
      · rename_i noFault
        exact ⟨created, noFault⟩
  exact ⟨checked, calls.1, calls.2, validated⟩

private theorem lookup_backup_before (early : ¬ ReachesCommit H m f fs req)
    (effect : ApplyEffect H m f fs req outcome fs') :
    (∃ e, outcome = .error e) ∧ fs'.lookup (backupFile m req) = fs.lookup (backupFile m req) := by
  have unstaged : backupFile m req ≠ stagingFile H m f req := backupFile_ne_stagingFile
  cases effect with
  | rejected checked => exact ⟨⟨_, rfl⟩, rfl⟩
  | notStaged checked staged =>
    obtain rfl := target_of_checkRequest checked
    have same := lookup_stage fs req.config unstaged
    rw [staged] at same
    exact ⟨⟨_, rfl⟩, same⟩
  | refused checked staged validated =>
    obtain ⟨rfl, rfl, rfl⟩ := staged_eq checked staged
    rw [lookup_removeStaged unstaged, lookup_insert_eq, if_neg unstaged]
    exact ⟨⟨_, rfl⟩, rfl⟩
  | notReplaced checked staged validated | written checked staged validated =>
    exact absurd (reachesCommit_of_validated checked staged validated) early

/-- The contents a backup leaves in the backup file of a readable file. -/
private def backedUp (f : Faults) (before : Option GoString) (current : GoString) :
    Option GoString :=
  match f.backup with
  | .written => some current
  | .notOpened => before
  | .cutOff bytes => some (current.take bytes)

private theorem lookup_backUp_backup {path current : GoString} (readable : f.readable = true)
    (present : fs.lookup path = some current) :
    (backUp f fs path).lookup (path ++ backupSuffix) =
      backedUp f (fs.lookup (path ++ backupSuffix)) current := by
  rw [backUp, if_pos readable, present, backedUp]
  cases f.backup with
  | written => exact Finmap.lookup_insert fs
  | notOpened => rfl
  | cutOff bytes => exact Finmap.lookup_insert fs

private theorem apply_of_reachesCommit {current : GoString} (reaches : ReachesCommit H m f fs req)
    (fresh : stagingFile H m f req ∉ fs) (readable : f.readable = true)
    (present : fs.lookup (target m req.path) = some current) :
    (apply H m f fs req).1.toBool = f.rename.isNone ∧
      (apply H m f fs req).2.lookup (backupFile m req) =
        backedUp f (fs.lookup (backupFile m req)) current := by
  obtain ⟨checked, created, noFault, validated⟩ := reaches
  have unstaged : backupFile m req ≠ stagingFile H m f req := backupFile_ne_stagingFile
  have apart : target m req.path ≠ stagingFile H m f req := by
    intro same
    exact fresh (same ▸ mem_of_lookup present)
  have staged : stage H f fs (target m req.path) req.config =
      (.ok (stagingFile H m f req), fs.insert (stagingFile H m f req) req.config) := by
    rw [stage, created]
    dsimp only
    rw [noFault]
    rfl
  generalize candidateIs : fs.insert (stagingFile H m f req) req.config = candidate
    at validated staged
  have candidateTarget : candidate.lookup (target m req.path) = some current := by
    rw [← candidateIs, lookup_insert_eq, if_neg apart, present]
  have candidateBackup : candidate.lookup (backupFile m req) = fs.lookup (backupFile m req) := by
    rw [← candidateIs, lookup_insert_eq, if_neg unstaged]
  have backed : (backUp f candidate (target m req.path)).lookup (backupFile m req) =
      backedUp f (fs.lookup (backupFile m req)) current := by
    rw [← candidateBackup]
    exact lookup_backUp_backup readable candidateTarget
  have held : (backUp f candidate (target m req.path)).lookup (stagingFile H m f req) =
      some req.config := by
    rw [lookup_backUp unstaged.symm, ← candidateIs, lookup_insert_eq, if_pos rfl]
  unfold apply
  rw [checked]
  dsimp only
  rw [staged]
  dsimp only
  rw [validated]
  dsimp only
  rw [commit, renameFile, held]
  cases f.rename with
  | some cause => exact ⟨rfl, (lookup_removeStaged unstaged).trans backed⟩
  | none =>
    refine ⟨rfl, (lookup_removeStaged unstaged).trans ?_⟩
    rw [lookup_insert_eq, if_neg (target_ne_backupFile m req).symm, lookup_erase_eq,
      if_neg unstaged, backed]

end Backup

/-- On a readable existing file the backup tells the truth exactly when a request that reaches the
replacement finds its steps agreeing. -/
theorem truthful_backup_iff {H : Host} {m : ConfigManager} {f : Faults} {fs : Files}
    {req : UpdateConfig} {current : GoString} (readable : f.readable = true)
    (present : fs.lookup (target m req.path) = some current)
    (fresh : f.createTemp = none → stagingFile H m f req ∉ fs) :
    TruthfulBackup H m f fs req current ↔
      (ReachesCommit H m f fs req → StepsAgree m f fs req current) := by
  by_cases reaches : ReachesCommit H m f fs req
  · obtain ⟨result, backup⟩ :=
      apply_of_reachesCommit reaches (fresh reaches.2.1) readable present
    have split : TruthfulBackup H m f fs req current ↔
        (f.rename = none → backedUp f (fs.lookup (backupFile m req)) current = some current) ∧
        (f.rename ≠ none → backedUp f (fs.lookup (backupFile m req)) current =
          fs.lookup (backupFile m req)) := by
      constructor
      · rintro ⟨success, failure⟩
        rw [← backup]
        cases outcome : (apply H m f fs req).1 with
        | ok done =>
          have renamed : f.rename = none := by simpa [outcome, Except.toBool] using result
          exact ⟨fun _ => success done outcome, fun failed => absurd renamed failed⟩
        | error e =>
          have failed : f.rename ≠ none := by
            intro renamed
            rw [outcome, renamed] at result
            cases result
          exact ⟨fun renamed => absurd renamed failed, fun _ => failure e outcome⟩
      · rintro ⟨renamed, failed⟩
        refine ⟨fun done outcome => ?_, fun e outcome => ?_⟩
        · rw [backup, renamed (by simpa [outcome, Except.toBool] using result)]
        · rw [backup, failed (by rintro none; rw [outcome, none] at result; cases result)]
    rw [split, imp_iff_right reaches, StepsAgree, backedUp]
    cases f.backup <;> cases f.rename <;> simp [eq_comm]
  · obtain ⟨⟨e, failed⟩, same⟩ := lookup_backup_before reaches (apply_effect H m f fs req)
    refine iff_of_true ⟨fun done succeeded => ?_, fun _ _ => same⟩
      (fun there => absurd there reaches)
    rw [failed] at succeeded
    cases succeeded

theorem truthful_backup_without_faults :
    TruthfulBackup plainHost overlaidManager (noFaults (lit "7")) installed
      ⟨[], lit "a: 2", true⟩ (lit "a: 1") :=
  (truthful_backup_iff (by decide +kernel) (by decide +kernel) (fun _ => by decide +kernel)).2
    (fun _ => trivial)

/-- A file that cannot be replaced, such as a single file mounted into a container, is backed up
all the same; and a backup that cannot be opened is still reported as kept. -/
theorem untruthful_backups :
    ¬ TruthfulBackup plainHost overlaidManager
        { noFaults (lit "7") with rename := some (lit "device or resource busy") } installed
        ⟨[], lit "a: 2", true⟩ (lit "a: 1") ∧
      ¬ TruthfulBackup plainHost overlaidManager { noFaults (lit "7") with backup := .notOpened }
        installed ⟨[], lit "a: 2", true⟩ (lit "a: 1") := by
  constructor
  · intro truthful
    have failed : (apply plainHost overlaidManager
        { noFaults (lit "7") with rename := some (lit "device or resource busy") } installed
        ⟨[], lit "a: 2", true⟩).1.toBool = false := by decide +kernel
    cases outcome : (apply plainHost overlaidManager
        { noFaults (lit "7") with rename := some (lit "device or resource busy") } installed
        ⟨[], lit "a: 2", true⟩).1 with
    | error e => exact absurd (truthful.failure e outcome) (by decide +kernel)
    | ok done => rw [outcome] at failed; cases failed
  · intro truthful
    have succeeded : (apply plainHost overlaidManager
        { noFaults (lit "7") with backup := .notOpened } installed
          ⟨[], lit "a: 2", true⟩).1.toBool = true := by
      decide +kernel
    cases outcome : (apply plainHost overlaidManager
        { noFaults (lit "7") with backup := .notOpened } installed ⟨[], lit "a: 2", true⟩).1 with
    | ok done => exact absurd (truthful.success done outcome) (by decide +kernel)
    | error e => rw [outcome] at succeeded; cases succeeded

end SignalAgent.Control.ConfigWrite
