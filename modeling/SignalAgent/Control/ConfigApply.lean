/- MID: SignalAgent/Control/ConfigApply
   layer: model
   source: components/edgecontroller/config_manager.go, components/edgecontroller/config_handler.go
   digest: Remote config writes with every failing system call, and what each outcome leaves. -/

import SignalAgent.Foundations.GoMaps
import SignalAgent.Foundations.GoStrings

set_option autoImplicit false
set_option relaxedAutoImplicit false

namespace SignalAgent.Control.ConfigApply

open Foundations.GoMaps Foundations.GoText Foundations.GoStrings

/-- The files on disk by their path. -/
abbrev Files := GoMap GoString GoString

/-- What the collector loads for one `--config` value. A value of another scheme has no file
behind it. -/
inductive Source where
  | file (content : Option GoString)
  | other (uri : GoString)
  deriving DecidableEq

/-- The path functions of the platform, the YAML parser with its error text, and the verdict of
the collector's `validate` command on the ordered config sources. -/
structure Host where
  isAbs : GoString → Bool
  dir : GoString → GoString
  base : GoString → GoString
  separator : UInt8
  yamlError : GoString → Option GoString
  verdict : List Source → Bool

structure ConfigManager where
  uris : List GoString
  primary : GoString
  writeEnabled : Bool
  executable : GoString

def fileScheme : GoString := lit "file:"

def maxConfigFileBytes : Nat := 2 ^ 20

def backupSuffix : GoString := lit ".bak"

/-- The file behind a `--config` value, if there is one. -/
def uriPath (H : Host) (uri : GoString) : Option GoString :=
  match cutPrefix uri fileScheme with
  | some rest => if rest ≠ [] then some rest else none
  | none =>
    if (cut uri 0x3A).any (fun parts => parts.1 ≠ []) && !H.isAbs uri then none
    else if uri ≠ [] then some uri else none

def isKnownPath (H : Host) (m : ConfigManager) (path : GoString) : Bool :=
  m.uris.any (fun uri => uriPath H uri = some path)

inductive ApplyError where
  | writeDisabled
  | noConfigFile
  | unknownPath (path : GoString)
  | emptyConfig
  | tooLarge (bytes : Nat)
  | notYaml (cause : GoString)
  | cannotStage (path cause : GoString)
  | cannotWrite (cause : GoString)
  | cannotFlush (cause : GoString)
  | cannotSetPermissions (cause : GoString)
  | cannotClose (cause : GoString)
  | noExecutable
  | validateTimedOut
  | validatorNotRun (cause : GoString)
  | notValid (output candidate path : GoString)
  | cannotReplace (path cause : GoString)
  deriving DecidableEq

def maxValidatorOutput : Nat := 8 * 2 ^ 10

def sanitizeValidatorOutput (out candidate path : GoString) : GoString :=
  let out := replaceAll out candidate path
  if out.length > maxValidatorOutput then out.take maxValidatorOutput ++ lit "\n… (truncated)"
  else out

def validationUnavailable : GoString := lit "config validation unavailable"

def ApplyError.text : ApplyError → GoString
  | .writeDisabled => lit ("remote config write is disabled on this agent " ++
      "(set remote_config_write: true on the leansignal_edge_controller extension)")
  | .noConfigFile =>
    lit "no config file to write: the agent resolved no file: --config source"
  | .unknownPath path => path ++ lit " is not one of this agent's config files"
  | .emptyConfig => lit "refusing to write an empty config"
  | .tooLarge bytes => lit "config is " ++ lit (toString bytes) ++ lit " bytes, over the " ++
      lit (toString maxConfigFileBytes) ++ lit " byte limit"
  | .notYaml cause => lit "config is not valid YAML: " ++ cause
  | .cannotStage path cause =>
    lit "cannot stage the new config next to " ++ path ++ lit ": " ++ cause
  | .cannotWrite cause => lit "cannot write the staged config: " ++ cause
  | .cannotFlush cause => lit "cannot flush the staged config: " ++ cause
  | .cannotSetPermissions cause => lit "cannot set permissions on the staged config: " ++ cause
  | .cannotClose cause => lit "cannot close the staged config: " ++ cause
  | .noExecutable => validationUnavailable ++ lit (": the collector executable could not be " ++
      "located, so the new config cannot be checked before it is applied")
  | .validateTimedOut =>
    validationUnavailable ++ lit ": validating the new config timed out after 30s"
  | .validatorNotRun cause => validationUnavailable ++ lit ": " ++ cause
  | .notValid output candidate path =>
    lit "the new config is not valid, so it was not applied:\n" ++
      trimSpace (sanitizeValidatorOutput output candidate path)
  | .cannotReplace path cause => lit "cannot replace " ++ path ++ lit ": " ++ cause

/-- How the `validate` subprocess ends. It is killed when the agent shuts down. -/
inductive ValidatorRun where
  | exited (output : GoString)
  | killed (output : GoString)
  | timedOut
  | notRun (cause : GoString)
  deriving DecidableEq

/-- How writing the backup ends: a failed open leaves the file alone, a failed write leaves the
bytes written so far. -/
inductive BackupWrite where
  | written
  | notOpened
  | cutOff (bytes : Nat)
  deriving DecidableEq

/-- What the system answers to the calls of one request: the random part of the staging name, an
error text for each call that may fail, and which of the ignored calls succeed. -/
structure Faults where
  random : GoString
  createTemp : Option GoString
  write : Option GoString
  written : Nat
  sync : Option GoString
  chmod : Option GoString
  close : Option GoString
  cleaned : Bool
  validator : ValidatorRun
  readable : Bool
  backup : BackupWrite
  rename : Option GoString
  removed : Bool
  deriving DecidableEq

/-- Every call goes through and the validator accepts. -/
def noFaults (random : GoString) : Faults :=
  ⟨random, none, none, 0, none, none, none, true, .exited [], true, .written, none, true⟩

def joinPath (H : Host) (dir name : GoString) : GoString :=
  if dir.getLast? = some H.separator then dir ++ name else dir ++ [H.separator] ++ name

/-- The name `os.CreateTemp` gives the staging file of a target. -/
def tempName (H : Host) (path random : GoString) : GoString :=
  joinPath H (H.dir path) (H.base path ++ lit "." ++ random ++ lit ".tmp")

/-- The first call on the open staging file that fails. -/
def Faults.staging (f : Faults) : Option ApplyError :=
  f.write.map .cannotWrite <|> f.sync.map .cannotFlush <|> f.chmod.map .cannotSetPermissions <|>
    f.close.map .cannotClose

def stage (H : Host) (f : Faults) (fs : Files) (path content : GoString) :
    Except ApplyError GoString × Files :=
  match f.createTemp with
  | some cause => (.error (.cannotStage path cause), fs)
  | none =>
    let tmpPath := tempName H path f.random
    match f.staging with
    | some e =>
      let written := if f.write.isSome then content.take f.written else content
      let left := fs.insert tmpPath written
      (.error e, if f.cleaned then left.erase tmpPath else left)
    | none => (.ok tmpPath, fs.insert tmpPath content)

def sourceContent (H : Host) (fs : Files) (uri : GoString) : Source :=
  match uriPath H uri with
  | some path => .file (fs.lookup path)
  | none => .other uri

/-- The `--config` values of the `validate` run: the candidate stands for every source that
names the target. -/
def validateArgs (H : Host) (m : ConfigManager) (path candidate : GoString) : List GoString :=
  m.uris.map (fun uri => if uriPath H uri = some path then fileScheme ++ candidate else uri)

def validate (H : Host) (m : ConfigManager) (f : Faults) (fs : Files) (path candidate : GoString) :
    Except ApplyError Unit :=
  if m.executable = [] then .error .noExecutable
  else match f.validator with
    | .timedOut => .error .validateTimedOut
    | .notRun cause => .error (.validatorNotRun cause)
    | .killed output => .error (.notValid output candidate path)
    | .exited output =>
      if H.verdict ((validateArgs H m path candidate).map (sourceContent H fs)) then .ok ()
      else .error (.notValid output candidate path)

/-- The backup of the current contents; a failure is only logged. -/
def backUp (f : Faults) (fs : Files) (path : GoString) : Files :=
  match (if f.readable then fs.lookup path else none) with
  | none => fs
  | some current =>
    match f.backup with
    | .written => fs.insert (path ++ backupSuffix) current
    | .notOpened => fs
    | .cutOff bytes => fs.insert (path ++ backupSuffix) (current.take bytes)

def renameFile (f : Faults) (fs : Files) (candidate path : GoString) :
    Except GoString Files :=
  match f.rename, fs.lookup candidate with
  | some cause, _ => .error cause
  | none, some content => .ok ((fs.erase candidate).insert path content)
  | none, none => .error (lit "no such file or directory")

def commit (f : Faults) (fs : Files) (path candidate : GoString) :
    Except ApplyError Unit × Files :=
  let backed := backUp f fs path
  match renameFile f backed candidate path with
  | .error cause => (.error (.cannotReplace path cause), backed)
  | .ok moved => (.ok (), moved)

/-- The deferred clean-up: the staging file goes if it is still there and can be removed. -/
def removeStaged (f : Faults) (fs : Files) (tmpPath : GoString) : Files :=
  if f.removed then fs.erase tmpPath else fs

/-- A request that names no file means the primary one. -/
def target (m : ConfigManager) (path : GoString) : GoString := if path = [] then m.primary else path

/-- What a request must pass before anything is written; yields the target. -/
def checkRequest (H : Host) (m : ConfigManager) (path content : GoString) :
    Except ApplyError GoString :=
  let path := target m path
  if m.writeEnabled = false then .error .writeDisabled
  else if path = [] then .error .noConfigFile
  else if isKnownPath H m path = false then .error (.unknownPath path)
  else if content.length = 0 then .error .emptyConfig
  else if content.length > maxConfigFileBytes then .error (.tooLarge content.length)
  else match H.yamlError content with
    | some cause => .error (.notYaml cause)
    | none => .ok path

def writtenMessage (path : GoString) (skipReload : Bool) : GoString :=
  lit "config validated and written to " ++ path ++ lit " (previous kept as " ++ path ++
    backupSuffix ++
    if skipReload then lit "); restart the agent to apply it"
    else lit "); restarting to reload the config"

structure UpdateConfig where
  path : GoString
  config : GoString
  skipReload : Bool
  deriving DecidableEq

/-- The message and whether to reload, or the error; and the files left. -/
def apply (H : Host) (m : ConfigManager) (f : Faults) (fs : Files) (req : UpdateConfig) :
    Except ApplyError (GoString × Bool) × Files :=
  match checkRequest H m req.path req.config with
  | .error e => (.error e, fs)
  | .ok path =>
    match stage H f fs path req.config with
    | (.error e, fs) => (.error e, fs)
    | (.ok tmpPath, fs) =>
      match validate H m f fs path tmpPath with
      | .error e => (.error e, removeStaged f fs tmpPath)
      | .ok () =>
        match commit f fs path tmpPath with
        | (.error e, fs) => (.error e, removeStaged f fs tmpPath)
        | (.ok (), fs) =>
          (.ok (writtenMessage path req.skipReload, !req.skipReload), removeStaged f fs tmpPath)

structure CommandResult where
  success : Bool
  message : GoString
  deriving DecidableEq

/-- The reply to the command, whether the agent restarts, and the files left. -/
def handleUpdateConfig (H : Host) (m : ConfigManager) (f : Faults) (fs : Files)
    (req : UpdateConfig) : CommandResult × Bool × Files :=
  match apply H m f fs req with
  | (.error e, fs) => (⟨false, e.text⟩, false, fs)
  | (.ok (message, reload), fs) => (⟨true, message⟩, reload, fs)

/-- The file sources of the command line. -/
def sourcePaths (H : Host) (m : ConfigManager) : List GoString := m.uris.filterMap (uriPath H)

/-- The ordered contents of the `--config` sources. -/
def contents (H : Host) (m : ConfigManager) (fs : Files) : List Source :=
  m.uris.map (sourceContent H fs)

/-- A request goes through five stages; each constructor ends at one of them. -/
inductive ApplyEffect (H : Host) (m : ConfigManager) (f : Faults) (fs : Files)
    (req : UpdateConfig) : Except ApplyError (GoString × Bool) → Files → Prop where
  | rejected {e : ApplyError} (checked : checkRequest H m req.path req.config = .error e) :
      ApplyEffect H m f fs req (.error e) fs
  | notStaged {path : GoString} {e : ApplyError} {left : Files}
      (checked : checkRequest H m req.path req.config = .ok path)
      (staged : stage H f fs path req.config = (.error e, left)) :
      ApplyEffect H m f fs req (.error e) left
  | refused {path tmpPath : GoString} {e : ApplyError} {candidate : Files}
      (checked : checkRequest H m req.path req.config = .ok path)
      (staged : stage H f fs path req.config = (.ok tmpPath, candidate))
      (validated : validate H m f candidate path tmpPath = .error e) :
      ApplyEffect H m f fs req (.error e) (removeStaged f candidate tmpPath)
  | notReplaced {path tmpPath : GoString} {e : ApplyError} {candidate left : Files}
      (checked : checkRequest H m req.path req.config = .ok path)
      (staged : stage H f fs path req.config = (.ok tmpPath, candidate))
      (validated : validate H m f candidate path tmpPath = .ok ())
      (committed : commit f candidate path tmpPath = (.error e, left)) :
      ApplyEffect H m f fs req (.error e) (removeStaged f left tmpPath)
  | written {path tmpPath : GoString} {candidate left : Files}
      (checked : checkRequest H m req.path req.config = .ok path)
      (staged : stage H f fs path req.config = (.ok tmpPath, candidate))
      (validated : validate H m f candidate path tmpPath = .ok ())
      (committed : commit f candidate path tmpPath = (.ok (), left)) :
      ApplyEffect H m f fs req (.ok (writtenMessage path req.skipReload, !req.skipReload))
        (removeStaged f left tmpPath)

section Effects

variable {H : Host} {m : ConfigManager} {f : Faults} {fs : Files}

theorem apply_effect (H : Host) (m : ConfigManager) (f : Faults) (fs : Files) (req : UpdateConfig) :
    ApplyEffect H m f fs req (apply H m f fs req).1 (apply H m f fs req).2 := by
  unfold apply
  cases checked : checkRequest H m req.path req.config with
  | error e => exact .rejected checked
  | ok path =>
    obtain ⟨result, candidate, staged⟩ : ∃ result candidate,
      stage H f fs path req.config = (result, candidate) := ⟨_, _, rfl⟩
    dsimp only
    rw [staged]
    cases result with
    | error e => exact .notStaged checked staged
    | ok tmpPath =>
      dsimp only
      cases validated : validate H m f candidate path tmpPath with
      | error e => exact .refused checked staged validated
      | ok passed =>
        obtain ⟨result, left, committed⟩ : ∃ result left,
          commit f candidate path tmpPath = (result, left) := ⟨_, _, rfl⟩
        dsimp only
        rw [committed]
        cases result with
        | error e => exact .notReplaced checked staged validated committed
        | ok moved => exact .written checked staged validated committed

theorem handleUpdateConfig_apply (H : Host) (m : ConfigManager) (f : Faults) (fs : Files)
    (req : UpdateConfig) :
    (handleUpdateConfig H m f fs req).1.success = (apply H m f fs req).1.toBool ∧
      (handleUpdateConfig H m f fs req).2.2 = (apply H m f fs req).2 := by
  unfold handleUpdateConfig
  obtain ⟨outcome, left⟩ := apply H m f fs req
  cases outcome with
  | error e => exact ⟨rfl, rfl⟩
  | ok done => exact ⟨rfl, rfl⟩

theorem mem_sourcePaths_of_checkRequest {path content known : GoString}
    (checked : checkRequest H m path content = .ok known) : known ∈ sourcePaths H m := by
  unfold checkRequest at checked
  dsimp only at checked
  split at checked
  · cases checked
  split at checked
  · cases checked
  split at checked
  · cases checked
  rename_i found
  rw [Bool.not_eq_false, isKnownPath, List.any_eq_true] at found
  obtain ⟨uri, listed, here⟩ := found
  split at checked
  · cases checked
  split at checked
  · cases checked
  split at checked
  · cases checked
  · obtain rfl := Except.ok.inj checked
    exact List.mem_filterMap.mpr ⟨uri, listed, of_decide_eq_true here⟩

theorem target_of_checkRequest {path content known : GoString}
    (checked : checkRequest H m path content = .ok known) : known = target m path := by
  unfold checkRequest at checked
  dsimp only at checked
  repeat' split at checked
  all_goals cases checked
  rfl

private theorem lookup_insert_ne {p q v : GoString} (other : p ≠ q) :
    (fs.insert q v).lookup p = fs.lookup p := by
  rw [lookup_insert_eq, if_neg other]

theorem lookup_stage (fs : Files) {path p : GoString} (content : GoString)
    (other : p ≠ tempName H path f.random) :
    (stage H f fs path content).2.lookup p = fs.lookup p := by
  unfold stage
  dsimp only
  split
  · rfl
  · split
    · split
      · rw [lookup_erase_eq, if_neg other, lookup_insert_ne other]
      · exact lookup_insert_ne other
    · exact lookup_insert_ne other

theorem stage_ok {path content tmpPath : GoString} {candidate : Files}
    (staged : stage H f fs path content = (.ok tmpPath, candidate)) :
    tmpPath = tempName H path f.random ∧ candidate = fs.insert tmpPath content := by
  unfold stage at staged
  dsimp only at staged
  split at staged
  · cases staged
  · split at staged
    · cases staged
    · cases staged
      exact ⟨rfl, rfl⟩

theorem verdict_of_validate {path candidate : GoString}
    (validated : validate H m f fs path candidate = .ok ()) :
    H.verdict ((validateArgs H m path candidate).map (sourceContent H fs)) = true := by
  unfold validate at validated
  split at validated
  · cases validated
  · split at validated
    · cases validated
    · cases validated
    · cases validated
    · split at validated
      · assumption
      · cases validated

theorem lookup_backUp {path p : GoString} (other : p ≠ path ++ backupSuffix) :
    (backUp f fs path).lookup p = fs.lookup p := by
  unfold backUp
  split
  · rfl
  · split
    · exact lookup_insert_ne other
    · rfl
    · exact lookup_insert_ne other

theorem lookup_removeStaged {tmpPath p : GoString} (other : p ≠ tmpPath) :
    (removeStaged f fs tmpPath).lookup p = fs.lookup p := by
  unfold removeStaged
  split
  · rw [lookup_erase_eq, if_neg other]
  · rfl

theorem lookup_commit_error {path candidate p : GoString} {e : ApplyError} {left : Files}
    (committed : commit f fs path candidate = (.error e, left)) (other : p ≠ path ++ backupSuffix) :
    left.lookup p = fs.lookup p := by
  unfold commit at committed
  dsimp only at committed
  split at committed
  · cases committed
    exact lookup_backUp other
  · cases committed

theorem lookup_commit_ok {path candidate p content : GoString} {left : Files}
    (committed : commit f fs path candidate = (.ok (), left))
    (here : fs.lookup candidate = some content) (apart : candidate ≠ path ++ backupSuffix)
    (other : p ≠ path ++ backupSuffix) (kept : p ≠ candidate) :
    left.lookup p = if p = path then some content else fs.lookup p := by
  have backed : (backUp f fs path).lookup candidate = some content := by
    rw [lookup_backUp apart, here]
  unfold commit at committed
  dsimp only at committed
  split at committed
  · cases committed
  · rename_i moved renamed
    cases committed
    unfold renameFile at renamed
    rw [backed] at renamed
    split at renamed
    · cases renamed
    · rename_i found
      obtain rfl := Option.some.inj found
      obtain rfl := Except.ok.inj renamed
      rw [lookup_insert_eq, lookup_erase_eq, if_neg kept, lookup_backUp other]
    · cases renamed

private theorem tempName_suffix (H : Host) (path random : GoString) :
    ∃ front, tempName H path random = front ++ lit ".tmp" := by
  unfold tempName joinPath
  split
  · exact ⟨_, (List.append_assoc _ _ _).symm⟩
  · exact ⟨_, (List.append_assoc _ _ _).symm⟩

theorem tempName_ne_nil (H : Host) (path random : GoString) : tempName H path random ≠ [] := by
  obtain ⟨front, staged⟩ := tempName_suffix H path random
  have tmp : lit ".tmp" ≠ [] := by decide
  rw [staged]
  exact List.append_ne_nil_of_right_ne_nil front tmp

theorem tempName_ne_backup (H : Host) (path random other : GoString) :
    tempName H path random ≠ other ++ backupSuffix := by
  intro same
  obtain ⟨front, staged⟩ := tempName_suffix H path random
  have tmp : lit ".tmp" = [0x2E, 0x74, 0x6D, 0x70] := by decide
  have bak : backupSuffix = [0x2E, 0x62, 0x61, 0x6B] := by decide
  rw [staged, tmp, bak] at same
  have last := congrArg List.getLast? same
  simp at last

end Effects

end SignalAgent.Control.ConfigApply
