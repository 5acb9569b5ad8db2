/- MID: SignalAgent/Control/ConfigSet
   layer: results
   source: components/edgecontroller/config_manager.go, components/edgecontroller/config_handler.go
   digest: Over any run of remote edits the config set on disk is one the validator accepted. -/

import SignalAgent.Control.ConfigApply
import SignalAgent.Foundations.GuardedRuns

set_option autoImplicit false
set_option relaxedAutoImplicit false

namespace SignalAgent.Control.ConfigSet

open Foundations.GoMaps Foundations.GoText Foundations.GoStrings Foundations.GuardedRuns
open ConfigApply

/-- A command together with what the system answers while it is handled. -/
structure Request where
  update : UpdateConfig
  faults : Faults
  deriving DecidableEq

/-- Commands are handled one at a time. The staging file is created exclusively, so its name
belongs to no file yet. -/
def step (H : Host) (m : ConfigManager) (fs : Files) (r : Request) : Option Files :=
  if tempName H (target m r.update.path) r.faults.random ∈ fs then none
  else some (handleUpdateConfig H m r.faults fs r.update).2.2

/-- The `validate` run of the request succeeded on this list of contents. -/
def ValidatedBy (H : Host) (m : ConfigManager) (fs : Files) (r : Request) (list : List Source) :
    Prop :=
  ∃ path tmpPath candidate, checkRequest H m r.update.path r.update.config = .ok path ∧
    stage H r.faults fs path r.update.config = (.ok tmpPath, candidate) ∧
    validate H m r.faults candidate path tmpPath = .ok () ∧
    list = (validateArgs H m path tmpPath).map (sourceContent H candidate)

/-- What one request may do to the config set. -/
structure RequestSafe (H : Host) (m : ConfigManager) (fs : Files) (r : Request) (fs' : Files) :
    Prop where
  validated : (∃ path ∈ sourcePaths H m, fs'.lookup path ≠ fs.lookup path) →
    ValidatedBy H m fs r (contents H m fs')
  unchanged : (handleUpdateConfig H m r.faults fs r.update).1.success = false →
    contents H m fs' = contents H m fs

/-- A file source either exists, as it does when the collector was started from it, or is at
least not named like the staging file of a source. -/
def StagingApart (H : Host) (m : ConfigManager) (fs : Files) : Prop :=
  ∀ path ∈ sourcePaths H m,
    path ∈ fs ∨ ∀ edited ∈ sourcePaths H m, ∀ random, path ≠ tempName H edited random

/-- No source is the backup of another. -/
def BackupsApart (H : Host) (m : ConfigManager) : Prop :=
  ∀ path ∈ sourcePaths H m, path ++ backupSuffix ∉ sourcePaths H m

section Requests

variable {H : Host} {m : ConfigManager} {fs fs' : Files} {r : Request}

theorem contents_congr (same : ∀ path ∈ sourcePaths H m, fs'.lookup path = fs.lookup path) :
    contents H m fs' = contents H m fs := by
  refine List.map_congr_left (fun uri listed => ?_)
  unfold sourceContent
  cases here : uriPath H uri with
  | none => rfl
  | some path =>
    dsimp only
    rw [same path (List.mem_filterMap.mpr ⟨uri, listed, here⟩)]

theorem validateArgs_contents {path tmpPath content : GoString} {candidate : Files}
    (named : tmpPath ≠ []) (staged : candidate.lookup tmpPath = some content)
    (same : ∀ p ∈ sourcePaths H m,
      fs'.lookup p = if p = path then some content else candidate.lookup p) :
    (validateArgs H m path tmpPath).map (sourceContent H candidate) = contents H m fs' := by
  rw [validateArgs, contents, List.map_map]
  refine List.map_congr_left (fun uri listed => ?_)
  have substituted : uriPath H (fileScheme ++ tmpPath) = some tmpPath := by
    rw [uriPath, cutPrefix_append]
    exact if_pos named
  dsimp only [Function.comp_apply]
  unfold sourceContent
  cases here : uriPath H uri with
  | none =>
    rw [if_neg (by simp), here]
  | some p =>
    have after := same p (List.mem_filterMap.mpr ⟨uri, listed, here⟩)
    by_cases replaced : p = path
    · rw [if_pos (congrArg some replaced), substituted]
      dsimp only
      rw [staged, after, if_pos replaced]
    · rw [if_neg (fun eq => replaced (Option.some.inj eq)), here]
      dsimp only
      rw [after, if_neg replaced]

theorem ne_tempName {edited p random : GoString} (staging : StagingApart H m fs)
    (known : edited ∈ sourcePaths H m) (source : p ∈ sourcePaths H m)
    (fresh : tempName H edited random ∉ fs) : p ≠ tempName H edited random := by
  rcases staging p source with present | unnamed
  · intro same
    exact fresh (same ▸ present)
  · exact unnamed edited known random

private theorem lookup_written {f : Faults} {staged left : Files}
    {path tmpPath content p : GoString} (committed : commit f staged path tmpPath = (.ok (), left))
    (held : staged.lookup tmpPath = some content) (apart : tmpPath ≠ path ++ backupSuffix)
    (noBackup : p ≠ path ++ backupSuffix) (unstaged : p ≠ tmpPath) :
    (removeStaged f left tmpPath).lookup p =
      if p = path then some content else staged.lookup p := by
  rw [lookup_removeStaged unstaged]
  exact lookup_commit_ok committed held apart noBackup unstaged

theorem source_cases {outcome : Except ApplyError (GoString × Bool)}
    (effect : ApplyEffect H m r.faults fs r.update outcome fs') (staging : StagingApart H m fs)
    (apart : BackupsApart H m)
    (fresh : tempName H (target m r.update.path) r.faults.random ∉ fs) :
    ((∃ e, outcome = .error e) ∧ ∀ p ∈ sourcePaths H m, fs'.lookup p = fs.lookup p) ∨
      ((∃ done, outcome = .ok done) ∧ ValidatedBy H m fs r (contents H m fs') ∧
        ∀ p ∈ sourcePaths H m,
          fs'.lookup p = fs.lookup p ∨ fs'.lookup p = some r.update.config) := by
  have unstaged : target m r.update.path ∈ sourcePaths H m → ∀ p ∈ sourcePaths H m,
      p ≠ tempName H (target m r.update.path) r.faults.random :=
    fun known p source => ne_tempName staging known source fresh
  have noBackup : ∀ p ∈ sourcePaths H m, ∀ path ∈ sourcePaths H m, p ≠ path ++ backupSuffix := by
    intro p source path known same
    exact apart path known (same ▸ source)
  cases effect with
  | rejected checked => exact Or.inl ⟨⟨_, rfl⟩, fun _ _ => rfl⟩
  | notStaged checked staged =>
    have known := mem_sourcePaths_of_checkRequest checked
    obtain rfl := target_of_checkRequest checked
    refine Or.inl ⟨⟨_, rfl⟩, fun p source => ?_⟩
    have kept := lookup_stage fs r.update.config (unstaged known p source)
    rwa [staged] at kept
  | refused checked staged validated =>
    have known := mem_sourcePaths_of_checkRequest checked
    obtain rfl := target_of_checkRequest checked
    obtain ⟨rfl, rfl⟩ := stage_ok staged
    refine Or.inl ⟨⟨_, rfl⟩, fun p source => ?_⟩
    rw [lookup_removeStaged (unstaged known p source), lookup_insert_eq,
      if_neg (unstaged known p source)]
  | notReplaced checked staged validated committed =>
    have known := mem_sourcePaths_of_checkRequest checked
    obtain rfl := target_of_checkRequest checked
    obtain ⟨rfl, rfl⟩ := stage_ok staged
    refine Or.inl ⟨⟨_, rfl⟩, fun p source => ?_⟩
    rw [lookup_removeStaged (unstaged known p source),
      lookup_commit_error committed (noBackup p source _ known), lookup_insert_eq,
      if_neg (unstaged known p source)]
  | @written path tmpPath candidate left checked staged validated committed =>
    have known := mem_sourcePaths_of_checkRequest checked
    obtain rfl := target_of_checkRequest checked
    obtain ⟨rfl, rfl⟩ := stage_ok staged
    have held := lookup_insert_eq fs (tempName H (target m r.update.path) r.faults.random)
      (tempName H (target m r.update.path) r.faults.random) r.update.config
    rw [if_pos rfl] at held
    have after := fun p source => lookup_written committed held (tempName_ne_backup H _ _ _)
      (noBackup p source _ known) (unstaged known p source)
    refine Or.inr ⟨⟨_, rfl⟩, ⟨_, _, _, checked, staged, validated, ?_⟩, fun p source => ?_⟩
    · exact (validateArgs_contents (tempName_ne_nil H _ _) held after).symm
    · rw [after p source, lookup_insert_eq, if_neg (unstaged known p source)]
      split
      · exact Or.inr rfl
      · exact Or.inl rfl

private theorem cases_of_step (staging : StagingApart H m fs) (apart : BackupsApart H m)
    (stepped : step H m fs r = some fs') :
    (∀ p ∈ sourcePaths H m, fs'.lookup p = fs.lookup p) ∨
      ((handleUpdateConfig H m r.faults fs r.update).1.success = true ∧
        ValidatedBy H m fs r (contents H m fs') ∧
        ∀ p ∈ sourcePaths H m,
          fs'.lookup p = fs.lookup p ∨ fs'.lookup p = some r.update.config) := by
  unfold step at stepped
  split at stepped
  · cases stepped
  · rename_i fresh
    obtain rfl := Option.some.inj stepped
    obtain ⟨success, files⟩ := handleUpdateConfig_apply H m r.faults fs r.update
    rw [success, files]
    rcases source_cases (apply_effect H m r.faults fs r.update) staging apart fresh with
      ⟨-, same⟩ | ⟨⟨done, ok⟩, validated, after⟩
    · exact Or.inl same
    · rw [ok]
      exact Or.inr ⟨rfl, validated, after⟩

private theorem stagingApart_step (staging : StagingApart H m fs) (apart : BackupsApart H m)
    (stepped : step H m fs r = some fs') : StagingApart H m fs' := by
  intro p source
  have before := staging p source
  rcases cases_of_step staging apart stepped with same | ⟨-, -, after⟩
  · rwa [← Finmap.lookup_isSome, same p source, Finmap.lookup_isSome]
  · rcases after p source with same | replaced
    · rwa [← Finmap.lookup_isSome, same, Finmap.lookup_isSome]
    · exact Or.inl (mem_of_lookup replaced)

private theorem requestSafe_step (staging : StagingApart H m fs) (apart : BackupsApart H m)
    (stepped : step H m fs r = some fs') : RequestSafe H m fs r fs' := by
  rcases cases_of_step staging apart stepped with same | ⟨success, validated, -⟩
  · refine ⟨?_, fun _ => contents_congr same⟩
    rintro ⟨path, source, changed⟩
    exact absurd (same path source) changed
  · exact ⟨fun _ => validated, fun failed => nomatch success.symm.trans failed⟩

private theorem verdict_of_validatedBy {list : List Source}
    (validated : ValidatedBy H m fs r list) : H.verdict list = true := by
  obtain ⟨path, tmpPath, candidate, -, -, passed, rfl⟩ := validated
  exact verdict_of_validate passed

end Requests

/-- Over every run of requests, whatever fails, the config set on disk is the one the agent
started with or one the validator accepted; a request that changes a config file has validated
the whole new set, and a request that fails changes nothing. -/
theorem config_set_is_validated {H : Host} {m : ConfigManager} {start fs : Files}
    {requests : List Request} (staging : StagingApart H m start) (apart : BackupsApart H m)
    (run : Run (step H m) (fun _ _ => True) start requests fs) :
    (contents H m fs = contents H m start ∨ H.verdict (contents H m fs) = true) ∧
      ∀ r fs', step H m fs r = some fs' → RequestSafe H m fs r fs' := by
  have there := run.stateInvariant (StagingApart H m) staging
    (fun held _ stepped => stagingApart_step held apart stepped)
  have accepted := run.stateInvariant
    (fun fs => StagingApart H m fs ∧
      (contents H m fs = contents H m start ∨ H.verdict (contents H m fs) = true))
    ⟨staging, Or.inl rfl⟩ (by
      rintro fs fs' r ⟨held, before⟩ - stepped
      refine ⟨stagingApart_step held apart stepped, ?_⟩
      rcases cases_of_step held apart stepped with same | ⟨-, validated, -⟩
      · rwa [contents_congr same]
      · exact Or.inr (verdict_of_validatedBy validated))
  exact ⟨accepted.2, fun r fs' stepped => requestSafe_step there apart stepped⟩

/-- A Unix host whose validator refuses a set with an empty mapping in it. -/
def plainHost : Host where
  isAbs := fun path => hasPrefix path (lit "/")
  dir := fun _ => lit "/etc/agent"
  base := fun path => path.drop 11
  separator := 0x2F
  yamlError := fun _ => none
  verdict := fun list => Source.file (some (lit "\x7b\x7d")) ∉ list

def overlaidManager : ConfigManager where
  uris := [lit "file:/etc/agent/main.yaml", lit "env:OVERRIDES", lit "/etc/agent/overlay.yaml"]
  primary := lit "/etc/agent/main.yaml"
  writeEnabled := true
  executable := lit "/usr/bin/agent"

def installed : Files :=
  ((∅ : Files).insert (lit "/etc/agent/main.yaml") (lit "a: 1")).insert
    (lit "/etc/agent/overlay.yaml") (lit "b: 1")

/-- The first edit is refused by the validator and its staging file cannot be removed; the
second replaces the overlay without a backup. -/
def twoEdits : List Request :=
  [⟨⟨[], lit "\x7b\x7d", true⟩, { noFaults (lit "1") with removed := false }⟩,
    ⟨⟨lit "/etc/agent/overlay.yaml", lit "b: 2", false⟩,
      { noFaults (lit "2") with backup := .cutOff 1 }⟩]

theorem edits_leave_validated_set :
    ∃ fs, Run (step plainHost overlaidManager) (fun _ _ => True) installed twoEdits fs ∧
      contents plainHost overlaidManager fs =
        [.file (some (lit "a: 1")), .other (lit "env:OVERRIDES"), .file (some (lit "b: 2"))] ∧
      plainHost.verdict (contents plainHost overlaidManager fs) = true := by
  have executed : (exec (step plainHost overlaidManager) (fun _ _ => true) installed twoEdits).any
      (fun fs => decide (contents plainHost overlaidManager fs =
        [.file (some (lit "a: 1")), .other (lit "env:OVERRIDES"), .file (some (lit "b: 2"))])) =
        true := by
    decide +kernel
  obtain ⟨fs, run, final⟩ := exists_run_of_exec (fun _ _ => true) twoEdits _
    (fun _ _ _ => trivial) executed
  have now := of_decide_eq_true final
  have present : ∀ path ∈ sourcePaths plainHost overlaidManager, path ∈ installed := by
    decide +kernel
  have staging : StagingApart plainHost overlaidManager installed :=
    fun path source => Or.inl (present path source)
  have apart : BackupsApart plainHost overlaidManager := by
    unfold BackupsApart
    decide +kernel
  refine ⟨fs, run, now, ?_⟩
  rcases (config_set_is_validated staging apart run).1 with same | accepted
  · rw [now] at same
    exact absurd same (by decide +kernel)
  · exact accepted

end SignalAgent.Control.ConfigSet
