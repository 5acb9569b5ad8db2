/- MID: SignalAgent/Control/ConfigReads
   layer: results
   source: components/edgecontroller/config_handler.go, components/edgecontroller/config_manager.go
   digest: A config snapshot taken while edits go on shows whole files within the size limit. -/

import SignalAgent.Control.ConfigCrash
import SignalAgent.Foundations.Simulations

set_option autoImplicit false
set_option relaxedAutoImplicit false

namespace SignalAgent.Control.ConfigReads

open Foundations.GoMaps Foundations.GoText Foundations.GuardedRuns Foundations.Simulations
open ConfigApply ConfigCrash
open ConfigEdits hiding step Action World
open ConfigSet hiding step

structure ConfigFile where
  path : GoString
  content : GoString
  writable : Bool
  error : GoString
  deriving DecidableEq

structure ConfigSnapshot where
  files : List ConfigFile
  primaryPath : GoString
  writeEnabled : Bool
  error : GoString
  deriving DecidableEq

/-- A source that is listed without its content. -/
def ConfigFile.failed (path cause : GoString) : ConfigFile := ⟨path, [], false, cause⟩

def notAFile : GoString := lit "not a file source; cannot be read or edited"

def noSources : GoString := lit "no --config sources found on the agent command line"

def tooLargeText (bytes : Nat) : GoString :=
  lit "config file is " ++ lit (toString bytes) ++ lit " bytes, over the " ++
    lit (toString maxConfigFileBytes) ++ lit " byte limit"

/-- Where `Snapshot` stands with the source it is at. -/
inductive Reading where
  | next
  | sized (path : GoString)
  | read (path content : GoString)

/-- A `Snapshot` call: the sources listed so far and the ones to come. -/
structure Reader where
  id : UInt64
  listed : List ConfigFile
  rest : List GoString
  reading : Reading

/-- The edits and the one `GetConfig` the receive loop may be answering. -/
structure World where
  edits : ConfigEdits.World
  reader : Option Reader
  sent : List (UInt64 × ConfigSnapshot)

/-- What `os.Stat` answers beyond the size of a file that is there. -/
inductive StatAnswer where
  | found
  | directory
  | failed (cause : GoString)

inductive Action where
  | edit (a : ConfigEdits.Action)
  | getConfig (id : UInt64)
  | stat (answer : StatAnswer)
  | read (error : Option GoString)
  | probe (created : Bool)
  | reply

/-- The outcome of a source goes on the list. -/
def Reader.list (r : Reader) (file : ConfigFile) : Reader :=
  { r with listed := r.listed ++ [file], reading := .next }

/-- The size check of one source; the file is read later. -/
def Reader.stat (H : Host) (fs : Files) (answer : StatAnswer) (r : Reader) : Option Reader :=
  match r.reading, r.rest with
  | .next, uri :: rest =>
    let r := { r with rest := rest }
    match uriPath H uri with
    | none => some (r.list (.failed uri notAFile))
    | some path =>
      match answer, fs.lookup path with
      | .failed cause, _ => some (r.list (.failed path cause))
      | .directory, none => some (r.list (.failed path (path ++ lit " is a directory")))
      | .directory, some _ => none
      | .found, none => none
      | .found, some content =>
        if content.length > maxConfigFileBytes then
          some (r.list (.failed path (tooLargeText content.length)))
        else some { r with reading := .sized path }
  | _, _ => none

def Reader.read (fs : Files) (error : Option GoString) (r : Reader) : Option Reader :=
  match r.reading with
  | .sized path =>
    match error, fs.lookup path with
    | some cause, _ => some (r.list (.failed path cause))
    | none, some content => some { r with reading := .read path content }
    | none, none => none
  | _ => none

/-- `isWritable` is asked only if writes are enabled. -/
def Reader.probe (m : ConfigManager) (created : Bool) (r : Reader) : Option Reader :=
  match r.reading with
  | .read path content => some (r.list ⟨path, content, m.writeEnabled && created, []⟩)
  | _ => none

def Reader.snapshot (m : ConfigManager) (r : Reader) : Option ConfigSnapshot :=
  match r.reading, r.rest with
  | .next, [] =>
    some ⟨r.listed, m.primary, m.writeEnabled, if m.uris = [] then noSources else []⟩
  | _, _ => none

/-- A step of the reader while the process runs. -/
def readStep (H : Host) (m : ConfigManager) (w : World) : Action → Option World
  | .edit _ => none
  -- The id 0 is not answered, and no file is read for it.
  | .getConfig id =>
    match w.reader with
    | none => some { w with reader := if id = 0 then none else some ⟨id, [], m.uris, .next⟩ }
    | some _ => none
  | .stat answer =>
    (w.reader.bind (Reader.stat H w.edits.files answer)).map
      (fun r => { w with reader := some r })
  | .read error =>
    (w.reader.bind (Reader.read w.edits.files error)).map (fun r => { w with reader := some r })
  | .probe created =>
    (w.reader.bind (Reader.probe m created)).map (fun r => { w with reader := some r })
  | .reply =>
    match w.reader with
    | some r =>
      (r.snapshot m).map (fun s => { w with reader := none, sent := w.sent ++ [(r.id, s)] })
    | none => none

def step (H : Host) (m : ConfigManager) (w : World) (a : Action) : Option World :=
  match a with
  | .edit e =>
    (ConfigEdits.step H m w.edits e).map (fun edits =>
      { w with edits := edits, reader := if e matches .boot then none else w.reader })
  | a => if w.edits.exited then none else readStep H m w a

/-- The path a source is listed under. -/
def shown (H : Host) (uri : GoString) : GoString := (uriPath H uri).getD uri

/-- A content that stood in a source: its first one, or the whole config of an edit. -/
structure Stood (H : Host) (m : ConfigManager) (start : Files) (acts : List Action)
    (path content : GoString) : Prop where
  source : path ∈ sourcePaths H m
  bounded : content.length ≤ maxConfigFileBytes
  whole : start.lookup path = some content ∨
    ∃ edit, Action.edit (.receive edit) ∈ acts ∧ edit.req.config = content

/-- A listed source shows nothing, or a content that stood in it. -/
def TrueFile (H : Host) (m : ConfigManager) (start : Files) (acts : List Action)
    (file : ConfigFile) : Prop :=
  (file.content = [] ∧ file.writable = false) ∨
    (Stood H m start acts file.path file.content ∧ (file.writable = true → m.writeEnabled = true))

/-- The answer to a command: every source once, in the order of the command line. -/
structure TrueSnapshot (H : Host) (m : ConfigManager) (start : Files) (acts : List Action)
    (answer : UInt64 × ConfigSnapshot) : Prop where
  named : answer.1 ≠ 0
  order : answer.2.files.map ConfigFile.path = m.uris.map (shown H)
  files : ∀ file ∈ answer.2.files, TrueFile H m start acts file

section Readers

variable {H : Host} {m : ConfigManager} {start : Files} {acts : List Action}

def Reading.paths : Reading → List GoString
  | .next => []
  | .sized path | .read path _ => [path]

/-- What has been found out about the source at hand; a file that passed the size check may have
been replaced since, but not by a larger one than the limit. -/
def Reading.Sure (H : Host) (m : ConfigManager) (start : Files) (acts : List Action)
    (fs : Files) : Reading → Prop
  | .next => True
  | .sized path =>
    path ∈ sourcePaths H m ∧ ∀ c, fs.lookup path = some c → c.length ≤ maxConfigFileBytes
  | .read path content => Stood H m start acts path content

structure Listing (H : Host) (m : ConfigManager) (start : Files) (acts : List Action)
    (fs : Files) (r : Reader) : Prop where
  named : r.id ≠ 0
  order : r.listed.map ConfigFile.path ++ r.reading.paths ++ r.rest.map (shown H) =
    m.uris.map (shown H)
  rest : r.rest ⊆ m.uris
  files : ∀ file ∈ r.listed, TrueFile H m start acts file
  sure : r.reading.Sure H m start acts fs

private theorem Stood.mono {path content : GoString} (held : Stood H m start acts path content)
    (a : Action) : Stood H m start (acts ++ [a]) path content where
  source := held.source
  bounded := held.bounded
  whole := held.whole.imp_right
    (fun ⟨edit, member, same⟩ => ⟨edit, List.mem_append_left _ member, same⟩)

private theorem TrueFile.mono {file : ConfigFile} (held : TrueFile H m start acts file)
    (a : Action) : TrueFile H m start (acts ++ [a]) file :=
  held.imp_right (fun ⟨stood, enabled⟩ => ⟨stood.mono a, enabled⟩)

private theorem TrueSnapshot.mono {answer : UInt64 × ConfigSnapshot}
    (held : TrueSnapshot H m start acts answer) (a : Action) :
    TrueSnapshot H m start (acts ++ [a]) answer :=
  ⟨held.named, held.order, fun file member => (held.files file member).mono a⟩

private theorem Listing.mono {fs fs' : Files} {r : Reader}
    (held : Listing H m start acts fs r) (a : Action)
    (kept : ∀ p ∈ sourcePaths H m, fs'.lookup p = fs.lookup p ∨
      ∃ c, fs'.lookup p = some c ∧ c.length ≤ maxConfigFileBytes) :
    Listing H m start (acts ++ [a]) fs' r where
  named := held.named
  order := held.order
  rest := held.rest
  files file member := (held.files file member).mono a
  sure := by
    have sure := held.sure
    cases reading : r.reading with
    | next => trivial
    | sized path =>
      rw [reading] at sure
      obtain ⟨source, bounded⟩ := sure
      refine ⟨source, fun c here => ?_⟩
      rcases kept path source with same | ⟨c', new, small⟩
      · exact bounded c (same ▸ here)
      · obtain rfl : c = c' := Option.some.inj (here.symm.trans new)
        exact small
    | read path content =>
      rw [reading] at sure
      exact sure.mono a

private theorem Listing.list {fs : Files} {r : Reader} {file : ConfigFile} {tail : List GoString}
    (held : Listing H m start acts fs r) (tails : tail ⊆ m.uris)
    (order : r.listed.map ConfigFile.path ++ [file.path] ++ tail.map (shown H) =
      m.uris.map (shown H))
    (true_ : TrueFile H m start acts file) :
    Listing H m start acts fs (Reader.list { r with rest := tail } file) where
  named := held.named
  order := by
    change (r.listed ++ [file]).map ConfigFile.path ++ [] ++ tail.map (shown H) = _
    rw [List.map_append, List.append_nil]
    exact order
  rest := tails
  files := by
    intro other member
    rcases List.mem_append.mp member with old | new
    · exact held.files other old
    · obtain rfl := List.mem_singleton.mp new
      exact true_
  sure := trivial

private theorem Listing.stat {fs : Files} {r r' : Reader} {answer : StatAnswer}
    (held : Listing H m start acts fs r) (stepped : r.stat H fs answer = some r') :
    Listing H m start acts fs r' := by
  obtain ⟨id, listed, rest, reading⟩ := r
  unfold Reader.stat at stepped
  split at stepped
  · rename_i uri tail next more
    dsimp only at next more
    subst next more
    have tails : tail ⊆ m.uris := fun u member => held.rest (List.mem_cons_of_mem _ member)
    have order : listed.map ConfigFile.path ++ [shown H uri] ++ tail.map (shown H) =
        m.uris.map (shown H) := by
      have before := held.order
      simpa [Reading.paths] using before
    have nothing : ∀ {path : GoString} (cause : GoString), shown H uri = path →
        Listing H m start acts fs
          (Reader.list ⟨id, listed, tail, .next⟩ (.failed path cause)) := by
      rintro path cause rfl
      exact held.list tails order (Or.inl ⟨rfl, rfl⟩)
    split at stepped
    · rename_i other
      cases stepped
      exact nothing _ (by rw [shown, other]; rfl)
    · rename_i path here
      have path_ : shown H uri = path := by rw [shown, here]; rfl
      split at stepped
      · cases stepped
        exact nothing _ path_
      · cases stepped
        exact nothing _ path_
      · cases stepped
      · cases stepped
      · rename_i content found
        split at stepped
        · cases stepped
          exact nothing _ path_
        · rename_i small
          cases stepped
          refine ⟨held.named, path_ ▸ order, tails, held.files, ?_⟩
          refine ⟨List.mem_filterMap.mpr ⟨uri, held.rest List.mem_cons_self, here⟩, ?_⟩
          intro c same
          obtain rfl : content = c := Option.some.inj (found.symm.trans same)
          exact Nat.le_of_not_gt small
  · cases stepped

private theorem Listing.read {fs : Files} {r r' : Reader} {error : Option GoString}
    (held : Listing H m start acts fs r)
    (whole : ∀ p ∈ sourcePaths H m, ∀ c, fs.lookup p = some c → start.lookup p = some c ∨
      ∃ edit, Action.edit (.receive edit) ∈ acts ∧ edit.req.config = c)
    (stepped : r.read fs error = some r') : Listing H m start acts fs r' := by
  obtain ⟨id, listed, rest, reading⟩ := r
  unfold Reader.read at stepped
  split at stepped
  · rename_i path sized
    dsimp only at sized
    subst sized
    obtain ⟨source, bounded⟩ := held.sure
    split at stepped
    · cases stepped
      exact held.list held.rest held.order (Or.inl ⟨rfl, rfl⟩)
    · rename_i content here
      cases stepped
      exact ⟨held.named, held.order, held.rest, held.files,
        ⟨source, bounded content here, whole path source content here⟩⟩
    · cases stepped
  · cases stepped

private theorem Listing.probe {fs : Files} {r r' : Reader} {created : Bool}
    (held : Listing H m start acts fs r) (stepped : r.probe m created = some r') :
    Listing H m start acts fs r' := by
  obtain ⟨id, listed, rest, reading⟩ := r
  unfold Reader.probe at stepped
  split at stepped
  · rename_i path content read
    dsimp only at read
    subst read
    cases stepped
    refine held.list held.rest held.order (Or.inr ⟨held.sure, fun writable => ?_⟩)
    exact (Bool.and_eq_true_iff.mp writable).1
  · cases stepped

private theorem Listing.snapshot {fs : Files} {r : Reader} {s : ConfigSnapshot}
    (held : Listing H m start acts fs r) (stepped : r.snapshot m = some s) :
    TrueSnapshot H m start acts (r.id, s) := by
  obtain ⟨id, listed, rest, reading⟩ := r
  unfold Reader.snapshot at stepped
  split at stepped
  · rename_i next done
    dsimp only at next done
    subst next done
    cases stepped
    refine ⟨held.named, ?_, held.files⟩
    have order := held.order
    simpa [Reading.paths] using order
  · cases stepped

/-- The invariant of the reader and of what has been sent. -/
structure TrueReads (H : Host) (m : ConfigManager) (start : Files) (acts : List Action)
    (w : World) : Prop where
  reader : ∀ r, w.reader = some r → Listing H m start acts w.edits.files r
  sent : ∀ answer ∈ w.sent, TrueSnapshot H m start acts answer

private theorem TrueReads.mono {w : World} (held : TrueReads H m start acts w) (a : Action)
    {edits : ConfigEdits.World} {reader : Option Reader}
    (gone : ∀ r, reader = some r → w.reader = some r)
    (kept : ∀ p ∈ sourcePaths H m, edits.files.lookup p = w.edits.files.lookup p ∨
      ∃ c, edits.files.lookup p = some c ∧ c.length ≤ maxConfigFileBytes) :
    TrueReads H m start (acts ++ [a]) ⟨edits, reader, w.sent⟩ where
  reader r here := (held.reader r (gone r here)).mono a kept
  sent answer member := (held.sent answer member).mono a

end Readers

end SignalAgent.Control.ConfigReads
