/- MID: SignalAgent/Index/IntakeRaces
   layer: results
   source: components/edgecontroller/extension.go, components/edgecontroller/timeseries_processor.go
   digest: With one loop and a reliable stream only a write racing a delete loses a key. -/

import SignalAgent.Index.IndexInvariant

set_option autoImplicit false
set_option relaxedAutoImplicit false

namespace SignalAgent.Index.IntakeRaces

open Foundations.GoMaps Foundations.GoText Foundations.GuardedRuns Foundations.Interleavings
open KnownCache IndexSync IndexWorld IndexInvariant

/-- The steps of a single processor loop on a stream that loses nothing, with intake calls
interleaved step by step. -/
def singleLoop (w : World) : Action → Bool
  | .connect => w.loops.isEmpty
  | .dropMessage _ | .dropAck _ | .giveUp _ | .intakeKey _ _ _ => false
  | _ => true

/-- No call is between its steps for a key and no message waits for its commit. -/
def settled (w : World) : Bool :=
  w.intakes.all (fun intake => !intake.betweenSteps) && w.loops.all (fun loop => !loop.isWaiting)

def IndexLive (w : World) : Prop :=
  ∀ key ∈ w.known, key ∈ w.discovered ∨ key.bytes ∈ w.index

/-- When a delete is committed, no call is between its check and its write for a deleted key
that is neither discovered, nor indexed, nor being added by another call. -/
def RaceFree (w : World) : Action → Prop
  | .commit l _ => ∀ id keys answered next,
      w.loops[l]? = some (.waiting id (.delete keys) answered next) → CommitSafe w (.delete keys)
  | _ => True

private def Held (index : Finset (List UInt8)) : Batch → Prop
  | .create rows => ∀ key ∈ rows.map Prod.fst, key.bytes ∈ index
  | _ => True

/-- Where the only message can be: nowhere, on its way, or applied with its created keys in
the index for as long as the loop waits. -/
private inductive OneLoop : List Loop → List (Nat × IndexMessage) → List Nat →
    Finset (List UInt8) → Prop
  | none (inbound : List Nat) (index : Finset (List UInt8)) : OneLoop [] [] inbound index
  | silent (loop : Loop) (inbound : List Nat) (index : Finset (List UInt8))
      (silent : loop.isWaiting = false) : OneLoop [loop] [] inbound index
  | sent (id : Nat) (batch : Batch) (next : List KnownActiveTimeseriesItem) (inbound : List Nat)
      (index : Finset (List UInt8)) (fresh : id ∉ inbound) :
      OneLoop [.waiting id batch false next] [(id, batch.message)] inbound index
  | held (id : Nat) (batch : Batch) (answered : Bool) (next : List KnownActiveTimeseriesItem)
      (inbound : List Nat) (index : Finset (List UInt8)) (held : Held index batch) :
      OneLoop [.waiting id batch answered next] [] inbound index

private theorem held_applyIndex (index : Finset (List UInt8)) (batch : Batch) :
    Held (applyIndex index batch.message) batch := by
  cases batch with
  | create rows =>
    intro key listed
    have carried := (createMessage_carries rows key).mpr listed
    exact Finset.mem_union_right _ (List.mem_toFinset.mpr carried)
  | delete keys => trivial
  | update items => trivial

section

variable {loops : List Loop} {outbound : List (Nat × IndexMessage)} {inbound : List Nat}
  {index : Finset (List UInt8)} {l id : Nat}

private theorem OneLoop.connect (one : OneLoop loops outbound inbound index)
    (none : loops.isEmpty = true) : OneLoop (loops ++ [.top]) outbound inbound index := by
  cases one with
  | none => exact .silent .top inbound index rfl
  | silent => cases none
  | sent => cases none
  | held => cases none

private theorem OneLoop.move {old new : Loop} (one : OneLoop loops outbound inbound index)
    (here : loops[l]? = some old) (silent : old.isWaiting = false ∧ new.isWaiting = false) :
    OneLoop (loops.set l new) outbound inbound index := by
  cases one with
  | none => cases here
  | silent loop =>
    obtain ⟨rfl, -⟩ := getElem?_singleton_cases here
    exact .silent new inbound index silent.2
  | sent =>
    obtain ⟨-, rfl⟩ := getElem?_singleton_cases here
    cases silent.1
  | held =>
    obtain ⟨-, rfl⟩ := getElem?_singleton_cases here
    cases silent.1

private theorem OneLoop.send {batch : Batch} {next : List KnownActiveTimeseriesItem}
    (one : OneLoop loops outbound inbound index) (here : loops[l]? = some (.sending batch next))
    (fresh : id ∉ inbound) :
    OneLoop (loops.set l (.waiting id batch false next)) (outbound ++ [(id, batch.message)])
      inbound index := by
  cases one with
  | none => cases here
  | silent loop =>
    obtain ⟨rfl, -⟩ := getElem?_singleton_cases here
    exact .sent id batch next inbound index fresh
  | sent => cases (getElem?_singleton_cases here).2
  | held => cases (getElem?_singleton_cases here).2

private theorem OneLoop.apply {message : IndexMessage} (one : OneLoop loops outbound inbound index)
    (sent : (id, message) ∈ outbound) :
    OneLoop loops (outbound.filter (fun sent => sent.1 ≠ id)) (inbound ++ [id])
      (applyIndex index message) := by
  cases one with
  | none => cases sent
  | silent => cases sent
  | sent id' batch next =>
    cases List.mem_singleton.mp sent
    simp only [ne_eq, decide_not, decide_true, Bool.not_true, Bool.false_eq_true, not_false_eq_true,
      List.filter_cons_of_neg, List.filter_nil]
    exact .held id batch false next _ _ (held_applyIndex index batch)
  | held => cases sent

private theorem OneLoop.ackArrives (one : OneLoop loops outbound inbound index)
    (acked : id ∈ inbound) :
    OneLoop (loops.map (deliver id)) outbound (inbound.filter (fun acked => acked ≠ id)) index := by
  cases one with
  | none => exact .none _ _
  | silent loop _ _ silent =>
    refine .silent (deliver id loop) _ _ ?_
    cases loop with
    | waiting => cases silent
    | _ => rfl
  | sent id' batch next _ _ fresh =>
    have other : id' ≠ id := fun same => fresh (same ▸ acked)
    have kept : deliver id (.waiting id' batch false next) = .waiting id' batch false next := by
      simp [deliver, other]
    rw [List.map_singleton, kept]
    exact .sent id' batch next _ _ (fun member => fresh (List.mem_filter.mp member).1)
  | held id' batch answered next _ _ held => exact .held id' batch _ next _ _ held

private theorem OneLoop.commit {batch : Batch} {next : List KnownActiveTimeseriesItem}
    (one : OneLoop loops outbound inbound index)
    (here : loops[l]? = some (.waiting id batch true next)) :
    Held index batch ∧ OneLoop (loops.set l (afterCommit next)) outbound inbound index := by
  cases one with
  | none => cases here
  | silent loop _ _ silent =>
    obtain ⟨-, rfl⟩ := getElem?_singleton_cases here
    cases silent
  | sent => cases (getElem?_singleton_cases here).2
  | held id' batch' answered next' _ _ held =>
    obtain ⟨rfl, same⟩ := getElem?_singleton_cases here
    cases same
    exact ⟨held, .silent _ _ _ (afterCommit_isWaiting next)⟩

end

private structure Reliable (w : World) : Prop where
  one : OneLoop w.loops w.outbound w.inbound w.index
  sentIssued : ∀ sent ∈ w.outbound, sent.1 ≤ w.corrSeq
  ackedIssued : ∀ id ∈ w.inbound, id ≤ w.corrSeq

private theorem reliable_step {w w' : World} {a : Action} (reliable : Reliable w)
    (guard : singleLoop w a = true ∧ RaceFree w a) (stepped : step w a = some w') :
    Reliable w' := by
  obtain ⟨one, sentIssued, ackedIssued⟩ := reliable
  cases effect_of_step stepped with
  | receive batch => exact ⟨one, sentIssued, ackedIssued⟩
  | check i key entry rest here => exact ⟨one, sentIssued, ackedIssued⟩
  | add i key entry rest here => exact ⟨one, sentIssued, ackedIssued⟩
  | update i now key entry rest here => exact ⟨one, sentIssued, ackedIssued⟩
  | intakeKey key entry now => cases guard.1
  | connect => exact ⟨one.connect guard.1, sentIssued, ackedIssued⟩
  | loopMove a l old new known internal here silent sameKeys =>
    exact ⟨one.move here silent, sentIssued, ackedIssued⟩
  | send l batch next here =>
    have fresh : w.corrSeq + 1 ∉ w.inbound := by
      intro member
      have issued := ackedIssued _ member
      omega
    refine ⟨one.send here fresh, ?_, fun id member => Nat.le_succ_of_le (ackedIssued id member)⟩
    intro sent member
    rcases List.mem_append.mp member with member | member
    · exact Nat.le_succ_of_le (sentIssued sent member)
    · obtain rfl := List.mem_singleton.mp member
      exact Nat.le_refl _
  | apply id message sent =>
    refine ⟨one.apply sent, fun x member => sentIssued x (List.mem_filter.mp member).1, ?_⟩
    intro acked member
    rcases List.mem_append.mp member with member | member
    · exact ackedIssued acked member
    · obtain rfl := List.mem_singleton.mp member
      exact sentIssued _ sent
  | dropMessage id => cases guard.1
  | ackArrives id acked =>
    exact ⟨one.ackArrives acked, sentIssued,
      fun id member => ackedIssued id (List.mem_filter.mp member).1⟩
  | dropAck id => cases guard.1
  | giveUp l id batch answered next here => cases guard.1
  | commit l now id batch next here =>
    have committed := (one.commit here).2
    cases batch <;> exact ⟨committed, sentIssued, ackedIssued⟩

private theorem safe_of_reliable {w w' : World} {a : Action} (reliable : Reliable w)
    (guard : singleLoop w a = true ∧ RaceFree w a) (stepped : step w a = some w') : Safe w a := by
  -- With one loop the backend still holds every created key when its batch is purged.
  cases a with
  | giveUp l => cases guard.1
  | commit l now =>
    intro id batch answered next here
    cases batch with
    | create rows =>
      cases effect_of_step stepped with
      | loopMove _ _ _ _ _ internal => cases internal
      | commit _ _ id' batch' next' found =>
        cases Option.some.inj (found.symm.trans here)
        exact (reliable.one.commit here).1
    | delete keys => exact guard.2 id keys answered next here
    | update items => trivial
  | _ => trivial

theorem indexLive_of_sound {w : World} (sound : Sound w)
    (calls : ∀ intake ∈ w.intakes, intake.betweenSteps = false)
    (loops : ∀ loop ∈ w.loops, loop.isWaiting = false) : IndexLive w := by
  intro key known
  rcases sound.accounted key (Or.inl known) with found | found | ⟨entry, rest, member⟩ | outstanding
  · exact Or.inl found
  · exact Or.inr found
  · cases calls _ member
  · obtain ⟨id, keys, answered, ⟨next, member⟩, -⟩ := outstanding
    cases loops _ member

/-- In every run of one loop over a reliable stream in which no commit of a delete races a
write, the index is live at every settled point. -/
theorem index_live_without_intake_race {acts : List Action} {w : World}
    (run : Run step (fun w a => singleLoop w a = true ∧ RaceFree w a) World.initial acts w)
    (quiet : settled w = true) : IndexLive w := by
  have reliable : Reliable World.initial :=
    ⟨.none [] ∅, by simp [World.initial], by simp [World.initial]⟩
  have sound := sound_run (run.strengthen Reliable reliable reliable_step safe_of_reliable)
  simp only [settled, Bool.and_eq_true, List.all_eq_true, Bool.not_eq_true'] at quiet
  exact indexLive_of_sound sound quiet.1 quiet.2

def seriesKey : HashKey := HashKey.repeated 1

def otherKey : HashKey := HashKey.repeated 2

def seriesEntry : TimeseriesEntry := ⟨lit "up", [], 1⟩

/-- A series arrives, is announced and purged from the discovered cache. -/
def announced : List Action :=
  [.receive [(seriesKey, seriesEntry)], .check 0, .add 0, .update 0 0, .connect,
    .getBatch 0 [seriesKey], .send 0, .apply 1, .ackArrives 1, .commit 0 0]

/-- Nine hours later the loop deletes the series while a call that has just found it known
still has to write it. -/
def deletedUnderWrite : List Action :=
  [.getBatch 0 [], .getActive 0 32400 32400 [seriesKey], .getInactive 0 32400 [seriesKey],
    .send 0, .apply 2, .ackArrives 2, .receive [(seriesKey, seriesEntry)], .check 1,
    .commit 0 32400, .update 1 32400]

/-- The loop deletes the series while one call is about to write another series and a second
call, which then announces the deleted series again, has not looked at it yet. -/
def deletedBesideWrite : List Action :=
  [.getBatch 0 [], .getActive 0 32400 32400 [seriesKey], .getInactive 0 32400 [seriesKey],
    .send 0, .apply 2, .ackArrives 2, .receive [(otherKey, seriesEntry)], .check 1, .add 1,
    .receive [(seriesKey, seriesEntry)], .commit 0 32400, .update 1 32400, .check 2, .add 2,
    .update 2 32400]

private def writes (keys : List HashKey) : Intake → Bool
  | .updating key _ _ => decide (key ∈ keys)
  | _ => false

private def raceTest (w : World) (a : Action) : Bool :=
  singleLoop w a && match a with
    | .commit l _ =>
      match w.loops[l]? with
      | some (.waiting _ (.delete keys) _ _) => w.intakes.all (fun intake => !writes keys intake)
      | _ => true
    | _ => true

private theorem raceTest_sound (w : World) (a : Action) (passed : raceTest w a = true) :
    singleLoop w a = true ∧ RaceFree w a := by
  obtain ⟨single, calls⟩ := Bool.and_eq_true_iff.mp passed
  refine ⟨single, ?_⟩
  cases a with
  | commit l now =>
    rintro id keys answered next here key listed ⟨entry, rest, member⟩
    simp only [here, List.all_eq_true, Bool.not_eq_true'] at calls
    exact absurd listed (of_decide_eq_false (calls _ member))
  | _ => trivial

theorem rewritten_series_is_live :
    ∃ w, Run step (fun w a => singleLoop w a = true ∧ RaceFree w a) World.initial
        (announced ++ deletedBesideWrite) w ∧
      seriesKey ∈ w.known ∧ otherKey ∈ w.known ∧ seriesKey.bytes ∉ w.index ∧ IndexLive w := by
  have executed : (exec step raceTest World.initial (announced ++ deletedBesideWrite)).any
      (fun w => settled w && decide (seriesKey ∈ w.known ∧ otherKey ∈ w.known ∧
        seriesKey.bytes ∉ w.index)) = true := by
    decide +kernel
  obtain ⟨w, run, final⟩ := exists_run_of_exec raceTest (announced ++ deletedBesideWrite) _
    raceTest_sound executed
  obtain ⟨quiet, reached⟩ := Bool.and_eq_true_iff.mp final
  obtain ⟨known, other, unindexed⟩ := of_decide_eq_true reached
  exact ⟨w, run, known, other, unindexed, index_live_without_intake_race run quiet⟩

/-- A call that wrote after the commit leaves a known series that nobody announces. -/
theorem write_after_delete_is_never_announced :
    ¬ ∀ acts w, Run step (fun w a => singleLoop w a = true) World.initial acts w →
      settled w = true → IndexLive w := by
  intro live
  have executed : (exec step singleLoop World.initial (announced ++ deletedUnderWrite)).any
      (fun w => settled w && decide (seriesKey ∈ w.known ∧ seriesKey ∉ w.discovered ∧
        seriesKey.bytes ∉ w.index)) = true := by
    decide +kernel
  obtain ⟨w, run, final⟩ := exists_run_of_exec singleLoop (announced ++ deletedUnderWrite) _
    (fun _ _ passed => passed) executed
  obtain ⟨quiet, lost⟩ := Bool.and_eq_true_iff.mp final
  obtain ⟨known, absent, unindexed⟩ := of_decide_eq_true lost
  exact (live _ w run quiet seriesKey known).elim absent unindexed

end SignalAgent.Index.IntakeRaces
