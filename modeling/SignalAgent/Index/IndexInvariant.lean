/- MID: SignalAgent/Index/IndexInvariant
   layer: results
   source: components/edgecontroller/extension.go, components/edgecontroller/timeseries_processor.go
   digest: Every live key is announced, about to be, or named by a delete still being committed. -/

import SignalAgent.Foundations.Interleavings
import SignalAgent.Index.IndexWorld

set_option autoImplicit false
set_option relaxedAutoImplicit false

namespace SignalAgent.Index.IndexInvariant

open Foundations.GoMaps Foundations.GuardedRuns Foundations.Interleavings
open KnownCache IndexSync IndexWorld

/-- Some call found the key unknown and has not added it yet. -/
def Adding (intakes : List Intake) (key : HashKey) : Prop :=
  ∃ entry rest, Intake.adding key entry rest ∈ intakes

/-- Some call is about to write the key into the known cache. -/
def Updating (intakes : List Intake) (key : HashKey) : Prop :=
  ∃ entry rest, Intake.updating key entry rest ∈ intakes

def Waiting (loops : List Loop) (id : Nat) (batch : Batch) (answered : Bool) : Prop :=
  ∃ next, Loop.waiting id batch answered next ∈ loops

/-- The backend has dropped the key and a loop still has to drop it from the known cache. -/
def DeleteApplied (loops : List Loop) (applied : List Nat) (key : HashKey) : Prop :=
  ∃ id keys answered, Waiting loops id (.delete keys) answered ∧ id ∈ applied ∧ key ∈ keys

def Live (w : World) (key : HashKey) : Prop :=
  key ∈ w.known ∨ Updating w.intakes key

def Accounted (w : World) (key : HashKey) : Prop :=
  key ∈ w.discovered ∨ key.bytes ∈ w.index ∨ Adding w.intakes key ∨
    DeleteApplied w.loops w.applied key

/-- Correlation ids separate the messages on the stream, and no delete is on its way to the
backend without a loop that waits for it. -/
structure StreamOk (loops : List Loop) (outbound : List (Nat × IndexMessage))
    (inbound : List Nat) (corrSeq : Nat) : Prop where
  deleteTracked : ∀ id fingerprints, (id, .indexDelete fingerprints) ∈ outbound →
    ∃ keys answered, Waiting loops id (.delete keys) answered ∧
      fingerprints = keys.map HashKey.bytes
  sentIssued : ∀ sent ∈ outbound, sent.1 ≤ corrSeq
  ackedIssued : ∀ id ∈ inbound, id ≤ corrSeq
  ackedGone : ∀ id ∈ inbound, ∀ sent ∈ outbound, sent.1 ≠ id
  answeredGone : ∀ id batch, Waiting loops id batch true →
    id ≤ corrSeq ∧ ∀ sent ∈ outbound, sent.1 ≠ id

structure Sound (w : World) : Prop where
  accounted : ∀ key, Live w key → Accounted w key
  stream : StreamOk w.loops w.outbound w.inbound w.corrSeq

/-- A commit is safe if what it forgets is still covered: the backend holds every created
key, and no call is about to rewrite a deleted key that nothing announces. -/
def CommitSafe (w : World) : Batch → Prop
  | .create rows => ∀ key ∈ rows.map Prod.fst, key.bytes ∈ w.index
  | .delete keys => ∀ key ∈ keys, Updating w.intakes key →
      key ∈ w.discovered ∨ key.bytes ∈ w.index ∨ Adding w.intakes key
  | .update _ => True

/-- A delete is given up only if it never reaches the backend. -/
def GiveUpSafe (w : World) (id : Nat) : Batch → Prop
  | .delete _ => id ∉ w.applied ∧ ∀ sent ∈ w.outbound, sent.1 ≠ id
  | _ => True

def Safe (w : World) : Action → Prop
  | .giveUp l => ∀ id batch answered next,
      w.loops[l]? = some (.waiting id batch answered next) → GiveUpSafe w id batch
  | .commit l _ => ∀ id batch answered next,
      w.loops[l]? = some (.waiting id batch answered next) → CommitSafe w batch
  | _ => True

private theorem Waiting.set {loops : List Loop} {l id : Nat} {batch : Batch} {answered : Bool}
    {old new : Loop} (waiting : Waiting loops id batch answered) (here : loops[l]? = some old)
    (other : ∀ next, .waiting id batch answered next ≠ old) :
    Waiting (loops.set l new) id batch answered := by
  obtain ⟨next, member⟩ := waiting
  exact ⟨next, mem_set_of_ne here member (other next)⟩

private theorem Waiting.of_set {loops : List Loop} {l id : Nat} {batch : Batch} {answered : Bool}
    {new : Loop} (waiting : Waiting (loops.set l new) id batch answered)
    (other : ∀ next, .waiting id batch answered next ≠ new) : Waiting loops id batch answered := by
  obtain ⟨next, member⟩ := waiting
  exact ⟨next, (List.mem_or_eq_of_mem_set member).resolve_right (other next)⟩

private theorem DeleteApplied.mono {loops loops' : List Loop} {applied applied' : List Nat}
    {key : HashKey} (outstanding : DeleteApplied loops applied key)
    (keeps : ∀ id keys answered, id ∈ applied → key ∈ keys →
      Waiting loops id (.delete keys) answered →
        ∃ answered, Waiting loops' id (.delete keys) answered)
    (grows : ∀ id ∈ applied, id ∈ applied') : DeleteApplied loops' applied' key := by
  obtain ⟨id, keys, answered, waiting, known, listed⟩ := outstanding
  obtain ⟨answered', waiting'⟩ := keeps id keys answered known listed waiting
  exact ⟨id, keys, answered', waiting', grows id known, listed⟩

private theorem StreamOk.setLoop {loops : List Loop} {outbound : List (Nat × IndexMessage)}
    {inbound : List Nat} {corrSeq l : Nat} {old new : Loop}
    (stream : StreamOk loops outbound inbound corrSeq) (here : loops[l]? = some old)
    (tracked : ∀ id keys answered next, old = .waiting id (.delete keys) answered next →
      ∀ sent ∈ outbound, sent.1 ≠ id)
    (silent : new.isWaiting = false) : StreamOk (loops.set l new) outbound inbound corrSeq := by
  refine ⟨?_, stream.sentIssued, stream.ackedIssued, stream.ackedGone, ?_⟩
  · intro id fingerprints sent
    obtain ⟨keys, answered, waiting, same⟩ := stream.deleteTracked id fingerprints sent
    refine ⟨keys, answered, waiting.set here (fun next gone => ?_), same⟩
    exact tracked id keys answered next gone.symm _ sent rfl
  · intro id batch waiting
    exact stream.answeredGone id batch (waiting.of_set (waiting_ne_of_silent silent id batch true))

private theorem StreamOk.mono {loops : List Loop} {outbound outbound' : List (Nat × IndexMessage)}
    {inbound inbound' : List Nat} {corrSeq : Nat}
    (stream : StreamOk loops outbound inbound corrSeq) (sent : ∀ x ∈ outbound', x ∈ outbound)
    (acked : ∀ x ∈ inbound', x ∈ inbound) : StreamOk loops outbound' inbound' corrSeq where
  deleteTracked id fingerprints member := stream.deleteTracked id fingerprints (sent _ member)
  sentIssued x member := stream.sentIssued x (sent x member)
  ackedIssued id member := stream.ackedIssued id (acked id member)
  ackedGone id member x member' := stream.ackedGone id (acked id member) x (sent x member')
  answeredGone id batch waiting :=
    ⟨(stream.answeredGone id batch waiting).1,
      fun x member => (stream.answeredGone id batch waiting).2 x (sent x member)⟩

private theorem Adding.set {intakes : List Intake} {i : Nat} {key : HashKey} {old new : Intake}
    (adding : Adding intakes key) (here : intakes[i]? = some old)
    (other : ∀ entry rest, .adding key entry rest ≠ old) : Adding (intakes.set i new) key := by
  obtain ⟨entry, rest, member⟩ := adding
  exact ⟨entry, rest, mem_set_of_ne here member (other entry rest)⟩

private theorem Updating.of_set {intakes : List Intake} {i : Nat} {key : HashKey} {new : Intake}
    (updating : Updating (intakes.set i new) key) :
    Updating intakes key ∨ ∃ entry rest, new = .updating key entry rest := by
  obtain ⟨entry, rest, member⟩ := updating
  rcases List.mem_or_eq_of_mem_set member with member | same
  · exact Or.inl ⟨entry, rest, member⟩
  · exact Or.inr ⟨entry, rest, same.symm⟩

private theorem Accounted.intakes {w : World} {key : HashKey} {intakes : List Intake}
    (accounted : Accounted w key) (keeps : Adding w.intakes key → Adding intakes key) :
    Accounted { w with intakes := intakes } key := by
  -- A change of intake calls alone moves the `Adding` part of the account only.
  rcases accounted with found | found | adding | outstanding
  · exact Or.inl found
  · exact Or.inr (Or.inl found)
  · exact Or.inr (Or.inr (Or.inl (keeps adding)))
  · exact Or.inr (Or.inr (Or.inr outstanding))

private theorem mem_of_isTimeseriesKnown {known : KnownTimeseriesCache} {key : HashKey}
    (found : isTimeseriesKnown known key = true) : key ∈ known := by
  simpa [isTimeseriesKnown] using found

private theorem sound_check {w : World} (sound : Sound w) {i : Nat} {key : HashKey}
    {entry : TimeseriesEntry} {rest : List (HashKey × TimeseriesEntry)}
    (here : w.intakes[i]? = some (.scanning ((key, entry) :: rest))) :
    Sound (w.setIntake i (if isTimeseriesKnown w.known key then .updating key entry rest
      else .adding key entry rest)) := by
  refine ⟨fun k live => ?_, sound.stream⟩
  have before : Live w k := by
    rcases live with known | updating
    · exact Or.inl known
    · rcases updating.of_set with updating | ⟨e, r, same⟩
      · exact Or.inr updating
      · split at same
        · cases same
          exact Or.inl (mem_of_isTimeseriesKnown ‹_›)
        · cases same
  exact (sound.accounted k before).intakes (fun adding => adding.set here (by simp))

private theorem sound_add {w : World} (sound : Sound w) {i : Nat} {key : HashKey}
    {entry : TimeseriesEntry} {rest : List (HashKey × TimeseriesEntry)}
    (here : w.intakes[i]? = some (.adding key entry rest)) :
    Sound { w.setIntake i (.updating key entry rest) with
      discovered := w.discovered.insert key entry } := by
  refine ⟨fun k live => ?_, sound.stream⟩
  by_cases same : k = key
  · exact Or.inl (Finmap.mem_insert.mpr (Or.inl same))
  have before : Live w k := by
    rcases live with known | updating
    · exact Or.inl known
    · rcases updating.of_set with updating | ⟨e, r, equal⟩
      · exact Or.inr updating
      · cases equal
        exact absurd rfl same
  rcases sound.accounted k before with found | found | adding | outstanding
  · exact Or.inl (Finmap.mem_insert.mpr (Or.inr found))
  · exact Or.inr (Or.inl found)
  · refine Or.inr (Or.inr (Or.inl (adding.set here ?_)))
    rintro e r equal
    cases equal
    exact same rfl
  · exact Or.inr (Or.inr (Or.inr outstanding))

private theorem sound_update {w : World} (sound : Sound w) {i now : Nat} {key : HashKey}
    {entry : TimeseriesEntry} {rest : List (HashKey × TimeseriesEntry)}
    (here : w.intakes[i]? = some (.updating key entry rest)) :
    Sound { w.setIntake i (.scanning rest) with
      known := updateTimeseries w.known key entry now } := by
  refine ⟨fun k live => ?_, sound.stream⟩
  have before : Live w k := by
    rcases live with known | updating
    · rcases (mem_updateTimeseries _ _ _ _ _).mp known with rfl | known
      · exact Or.inr ⟨entry, rest, List.mem_of_getElem? here⟩
      · exact Or.inl known
    · exact Or.inr (updating.of_set.resolve_right (by simp))
  exact (sound.accounted k before).intakes (fun adding => adding.set here (by simp))

private theorem sound_intakeWhole {w : World} (sound : Sound w) (key : HashKey)
    (entry : TimeseriesEntry) (now : Nat) : Sound (w.intakeWhole key entry now) := by
  unfold World.intakeWhole
  split
  · rename_i found
    refine ⟨fun k live => sound.accounted k ?_, sound.stream⟩
    rcases live with known | updating
    · rcases (mem_updateTimeseries _ _ _ _ _).mp known with rfl | known
      · exact Or.inl (mem_of_isTimeseriesKnown found)
      · exact Or.inl known
    · exact Or.inr updating
  · refine ⟨fun k live => ?_, sound.stream⟩
    by_cases same : k = key
    · exact Or.inl (Finmap.mem_insert.mpr (Or.inl same))
    have before : Live w k :=
      live.imp_left (fun known => ((mem_updateTimeseries _ _ _ _ _).mp known).resolve_left same)
    rcases sound.accounted k before with found | others
    · exact Or.inl (Finmap.mem_insert.mpr (Or.inr found))
    · exact Or.inr others

/-- Replacing a loop keeps the account if its applied deletes stay waited for. -/
private theorem Accounted.loops {w : World} {key : HashKey} {loops : List Loop}
    (accounted : Accounted w key)
    (keeps : ∀ id keys answered, id ∈ w.applied → key ∈ keys →
      Waiting w.loops id (.delete keys) answered →
        ∃ answered, Waiting loops id (.delete keys) answered) :
    Accounted { w with loops := loops } key := by
  rcases accounted with found | found | adding | outstanding
  · exact Or.inl found
  · exact Or.inr (Or.inl found)
  · exact Or.inr (Or.inr (Or.inl adding))
  · exact Or.inr (Or.inr (Or.inr (outstanding.mono keeps fun _ member => member)))

private theorem Accounted.setLoop {w : World} {key : HashKey} {l : Nat} {old new : Loop}
    (accounted : Accounted w key) (here : w.loops[l]? = some old)
    (other : ∀ id keys answered next, id ∈ w.applied → key ∈ keys →
      .waiting id (.delete keys) answered next ≠ old) :
    Accounted (w.setLoop l new) key := by
  refine accounted.loops ?_
  intro id keys answered known listed waiting
  exact ⟨answered, waiting.set here (fun next => other id keys answered next known listed)⟩

private theorem sound_loopMove {w : World} (sound : Sound w) {l : Nat} {old new : Loop}
    {known : KnownTimeseriesCache} (here : w.loops[l]? = some old)
    (silent : old.isWaiting = false ∧ new.isWaiting = false)
    (sameKeys : ∀ k, k ∈ known ↔ k ∈ w.known) :
    Sound { w.setLoop l new with known := known } := by
  refine ⟨fun k live => ?_, sound.stream.setLoop here ?_ silent.2⟩
  · have before : Live w k := live.imp_left (sameKeys k).mp
    exact (sound.accounted k before).setLoop here
      (fun id keys answered next _ _ => waiting_ne_of_silent silent.1 id _ answered next)
  · rintro id keys answered next rfl
    cases silent.1

private theorem sound_send {w : World} (sound : Sound w) {l : Nat} {batch : Batch}
    {next : List KnownActiveTimeseriesItem} (here : w.loops[l]? = some (.sending batch next)) :
    Sound { w.setLoop l (.waiting (w.corrSeq + 1) batch false next) with
      corrSeq := w.corrSeq + 1
      outbound := w.outbound ++ [(w.corrSeq + 1, batch.message)] } := by
  have stream := sound.stream
  refine ⟨fun k live => ?_, ?_⟩
  · exact (sound.accounted k live).setLoop here (by simp)
  · refine ⟨?_, ?_, ?_, ?_, ?_⟩
    · intro id fingerprints member
      rcases List.mem_append.mp member with member | member
      · obtain ⟨keys, answered, waiting, same⟩ := stream.deleteTracked id fingerprints member
        exact ⟨keys, answered, waiting.set here (by simp), same⟩
      · simp only [List.mem_singleton, Prod.mk.injEq] at member
        obtain ⟨rfl, isDelete⟩ := member
        cases batch with
        | create rows => cases isDelete
        | update items => cases isDelete
        | delete keys =>
          cases isDelete
          have bound := (List.getElem?_eq_some_iff.mp here).1
          exact ⟨keys, false, ⟨next, List.mem_set bound _⟩, rfl⟩
    · intro sent member
      rcases List.mem_append.mp member with member | member
      · exact Nat.le_succ_of_le (stream.sentIssued sent member)
      · obtain rfl := List.mem_singleton.mp member
        exact Nat.le_refl _
    · intro id member
      exact Nat.le_succ_of_le (stream.ackedIssued id member)
    · intro id acked sent member
      rcases List.mem_append.mp member with member | member
      · exact stream.ackedGone id acked sent member
      · obtain rfl := List.mem_singleton.mp member
        have issued := stream.ackedIssued id acked
        show w.corrSeq + 1 ≠ id
        omega
    · intro id other waiting
      obtain ⟨issued, gone⟩ := stream.answeredGone id other (waiting.of_set (by simp))
      refine ⟨Nat.le_succ_of_le issued, fun sent member => ?_⟩
      rcases List.mem_append.mp member with member | member
      · exact gone sent member
      · obtain rfl := List.mem_singleton.mp member
        show w.corrSeq + 1 ≠ id
        omega

private theorem stream_apply {w : World} (stream : StreamOk w.loops w.outbound w.inbound w.corrSeq)
    {id : Nat} {message : IndexMessage} (sent : (id, message) ∈ w.outbound) :
    StreamOk w.loops (w.outbound.filter (fun sent => sent.1 ≠ id)) (w.inbound ++ [id])
      w.corrSeq := by
  have fewer : ∀ x ∈ w.outbound.filter (fun sent => sent.1 ≠ id), x ∈ w.outbound :=
    fun _ member => (List.mem_filter.mp member).1
  have rest := stream.mono fewer (fun _ member => member)
  refine ⟨rest.deleteTracked, rest.sentIssued, ?_, ?_, rest.answeredGone⟩
  · intro acked member
    rcases List.mem_append.mp member with member | member
    · exact stream.ackedIssued acked member
    · obtain rfl := List.mem_singleton.mp member
      exact stream.sentIssued _ sent
  · intro acked member x remains
    rcases List.mem_append.mp member with member | member
    · exact rest.ackedGone acked member x remains
    · obtain rfl := List.mem_singleton.mp member
      simpa using (List.mem_filter.mp remains).2

private theorem sound_apply {w : World} (sound : Sound w) {id : Nat} {message : IndexMessage}
    (sent : (id, message) ∈ w.outbound) :
    Sound { w with
      outbound := w.outbound.filter (fun sent => sent.1 ≠ id)
      inbound := w.inbound ++ [id]
      applied := w.applied ++ [id]
      index := applyIndex w.index message } := by
  refine ⟨fun k live => ?_, stream_apply sound.stream sent⟩
  have here : id ∈ w.applied ++ [id] := List.mem_append_right _ List.mem_cons_self
  have earlier : ∀ old ∈ w.applied, old ∈ w.applied ++ [id] := fun _ => List.mem_append_left _
  rcases sound.accounted k live with found | found | adding | outstanding
  · exact Or.inl found
  · cases message with
    | indexCreate series => exact Or.inr (Or.inl (Finset.mem_union_left _ found))
    | indexUpdate series => exact Or.inr (Or.inl found)
    | indexDelete fingerprints =>
      obtain ⟨keys, answered, waiting, same⟩ := sound.stream.deleteTracked id fingerprints sent
      by_cases named : k ∈ keys
      · exact Or.inr (Or.inr (Or.inr ⟨id, keys, answered, waiting, here, named⟩))
      · refine Or.inr (Or.inl (Finset.mem_sdiff.mpr ⟨found, ?_⟩))
        rw [same, List.mem_toFinset]
        exact fun carried => named ((deleteMessage_carries keys k).mp carried)
  · exact Or.inr (Or.inr (Or.inl adding))
  · refine Or.inr (Or.inr (Or.inr (outstanding.mono ?_ earlier)))
    intro _ _ answered _ _ waiting
    exact ⟨answered, waiting⟩

private theorem Waiting.delivered {loops : List Loop} {id : Nat} {batch : Batch}
    {answered : Bool} (waiting : Waiting loops id batch answered) (acked : Nat) :
    ∃ answered, Waiting (loops.map (deliver acked)) id batch answered := by
  obtain ⟨next, member⟩ := waiting
  exact ⟨_, next, List.mem_map_of_mem member⟩

private theorem Waiting.of_delivered {loops : List Loop} {id acked : Nat} {batch : Batch}
    {answered : Bool} (waiting : Waiting (loops.map (deliver acked)) id batch answered) :
    id = acked ∨ Waiting loops id batch answered := by
  obtain ⟨next, member⟩ := waiting
  obtain ⟨loop, listed, same⟩ := List.mem_map.mp member
  cases loop with
  | waiting id' batch' answered' next' =>
    simp only [deliver, Loop.waiting.injEq] at same
    obtain ⟨rfl, rfl, flag, rfl⟩ := same
    by_cases hit : id' = acked
    · exact Or.inl hit
    · rw [if_neg hit] at flag
      exact Or.inr ⟨next', flag ▸ listed⟩
  | _ => cases same

private theorem sound_ackArrives {w : World} (sound : Sound w) {id : Nat} (acked : id ∈ w.inbound) :
    Sound { w with
      inbound := w.inbound.filter (fun acked => acked ≠ id)
      loops := w.loops.map (deliver id) } := by
  have stream := sound.stream
  have fewer : ∀ x ∈ w.inbound.filter (fun acked => acked ≠ id), x ∈ w.inbound :=
    fun _ member => (List.mem_filter.mp member).1
  refine ⟨fun k live => ?_, ?_⟩
  · refine (sound.accounted k live).loops ?_
    intro _ _ _ _ _ waiting
    exact waiting.delivered id
  · refine ⟨?_, stream.sentIssued, fun x member => stream.ackedIssued x (fewer x member),
      fun x member => stream.ackedGone x (fewer x member), ?_⟩
    · intro sentId fingerprints sent
      obtain ⟨keys, answered, waiting, same⟩ := stream.deleteTracked sentId fingerprints sent
      obtain ⟨answered', waiting'⟩ := waiting.delivered id
      exact ⟨keys, answered', waiting', same⟩
    · intro waited batch waiting
      rcases waiting.of_delivered with rfl | waiting
      · exact ⟨stream.ackedIssued _ acked, stream.ackedGone _ acked⟩
      · exact stream.answeredGone waited batch waiting

private theorem sound_giveUp {w : World} (sound : Sound w) {l id : Nat} {batch : Batch}
    {answered : Bool} {next : List KnownActiveTimeseriesItem}
    (here : w.loops[l]? = some (.waiting id batch answered next)) (safe : GiveUpSafe w id batch) :
    Sound (w.setLoop l .top) := by
  refine ⟨fun k live => (sound.accounted k live).setLoop here ?_, sound.stream.setLoop here ?_ rfl⟩
  · intro id' keys answered' next' known _ equal
    cases equal
    exact safe.1 known
  · intro id' keys answered' next' equal
    cases equal
    exact safe.2

private theorem sound_commit {w : World} (sound : Sound w) {l id now : Nat} {batch : Batch}
    {next : List KnownActiveTimeseriesItem}
    (here : w.loops[l]? = some (.waiting id batch true next))
    (safe : CommitSafe w batch) :
    Sound ((w.setLoop l (afterCommit next)).commitBatch now batch) := by
  have gone := (sound.stream.answeredGone id batch ⟨next, List.mem_of_getElem? here⟩).2
  have stream : StreamOk (w.loops.set l (afterCommit next)) w.outbound w.inbound w.corrSeq := by
    refine sound.stream.setLoop here ?_ (afterCommit_isWaiting next)
    intro id' keys answered' next' equal
    cases equal
    exact gone
  cases batch with
  | create rows =>
    refine ⟨fun k live => ?_, stream⟩
    have kept : Accounted (w.setLoop l (afterCommit next)) k :=
      (sound.accounted k live).setLoop here (by simp)
    rcases kept with found | others
    · by_cases created : k ∈ rows.map Prod.fst
      · exact Or.inr (Or.inl (safe k created))
      · exact Or.inl ((mem_purgeBatch _ _ _).mpr ⟨found, created⟩)
    · exact Or.inr others
  | delete keys =>
    refine ⟨fun k live => ?_, stream⟩
    by_cases named : k ∈ keys
    · -- The key left the known cache, so only a call between its steps can bring it back.
      have updating : Updating w.intakes k :=
        live.resolve_left (fun known => ((mem_deleteBatch _ _ _).mp known).2 named)
      rcases safe k named updating with found | found | adding
      · exact Or.inl found
      · exact Or.inr (Or.inl found)
      · exact Or.inr (Or.inr (Or.inl adding))
    · have before : Live w k := live.imp_left (fun known => ((mem_deleteBatch _ _ _).mp known).1)
      refine (sound.accounted k before).setLoop here ?_
      intro id' keys' answered' next' _ listed equal
      cases equal
      exact named listed
  | update items =>
    refine ⟨fun k live => ?_, stream⟩
    have before : Live w k := live.imp_left (mem_markSyncedBatch _ _ _ _).mp
    exact (sound.accounted k before).setLoop here (by simp)

private theorem waiting_append_top {loops : List Loop} {id : Nat} {batch : Batch}
    {answered : Bool} :
    Waiting (loops ++ [.top]) id batch answered ↔ Waiting loops id batch answered := by
  simp [Waiting]

private theorem sound_connect {w : World} (sound : Sound w) :
    Sound { w with loops := w.loops ++ [.top] } := by
  have stream := sound.stream
  refine ⟨fun k live => ?_, ?_⟩
  · refine (sound.accounted k live).loops ?_
    intro _ _ answered _ _ waiting
    exact ⟨answered, waiting_append_top.mpr waiting⟩
  · refine ⟨?_, stream.sentIssued, stream.ackedIssued, stream.ackedGone, ?_⟩
    · intro id fingerprints sent
      obtain ⟨keys, answered, waiting, same⟩ := stream.deleteTracked id fingerprints sent
      exact ⟨keys, answered, waiting_append_top.mpr waiting, same⟩
    · intro id batch waiting
      exact stream.answeredGone id batch (waiting_append_top.mp waiting)

theorem sound_initial : Sound World.initial := by
  refine ⟨?_, ?_⟩
  · rintro key (known | ⟨entry, rest, member⟩)
    · exact absurd known Finmap.notMem_empty
    · cases member
  · constructor <;> simp [World.initial, Waiting]

theorem sound_step {w w' : World} {a : Action} (sound : Sound w) (safe : Safe w a)
    (stepped : step w a = some w') : Sound w' := by
  cases effect_of_step stepped with
  | receive batch =>
    refine ⟨fun k live => (sound.accounted k ?_).intakes ?_, sound.stream⟩
    · rcases live with known | ⟨entry, rest, member⟩
      · exact Or.inl known
      · exact Or.inr ⟨entry, rest, by simpa using member⟩
    · rintro ⟨entry, rest, member⟩
      exact ⟨entry, rest, List.mem_append_left _ member⟩
  | check i key entry rest here => exact sound_check sound here
  | add i key entry rest here => exact sound_add sound here
  | update i now key entry rest here => exact sound_update sound here
  | intakeKey key entry now => exact sound_intakeWhole sound key entry now
  | connect => exact sound_connect sound
  | loopMove a l old new known internal here silent sameKeys =>
    exact sound_loopMove sound here silent sameKeys
  | send l batch next here => exact sound_send sound here
  | apply id message sent => exact sound_apply sound sent
  | dropMessage id =>
    exact ⟨sound.accounted, sound.stream.mono (fun _ member => (List.mem_filter.mp member).1)
      (fun _ member => member)⟩
  | ackArrives id acked => exact sound_ackArrives sound acked
  | dropAck id =>
    exact ⟨sound.accounted, sound.stream.mono (fun _ member => member)
      (fun _ member => (List.mem_filter.mp member).1)⟩
  | giveUp l id batch answered next here => exact sound_giveUp sound here (safe _ _ _ _ here)
  | commit l now id batch next here => exact sound_commit sound here (safe _ _ _ _ here)

theorem sound_run {acts : List Action} {w : World} (run : Run step Safe World.initial acts w) :
    Sound w :=
  run.stateInvariant Sound sound_initial sound_step

end SignalAgent.Index.IndexInvariant
