/- MID: SignalAgent/Index/BatchRegistry
   layer: results
   source: components/metricsindex/timeseries.go
   digest: Broadcasts and changes of the receiver list exclude each other, and all calls return. -/

import Mathlib.Data.List.Induction
import SignalAgent.Foundations.EventLogs
import SignalAgent.Foundations.Interleavings

/-!
`registryMu` is a Go `RWMutex`: a writer first announces itself, which keeps new readers out,
and then waits for the readers that are in.  A receiver is the number of its pointer, and a
call of `ReceiveTimeseriesBatch` takes time between its start and its return.
-/

set_option autoImplicit false
set_option relaxedAutoImplicit false

namespace SignalAgent.Index.BatchRegistry

open Foundations.GuardedRuns Foundations.EventLogs Foundations.Interleavings

inductive Change where
  | register (receiver : Nat)
  | unregister (receiver : Nat)
  deriving DecidableEq

/-- The loop removes the first entry that is this receiver and returns. -/
def unregisterTimeseriesReceiver (receivers : List Nat) (receiver : Nat) : List Nat :=
  match receivers.idxOf? receiver with
  | some i => receivers.take i ++ receivers.drop (i + 1)
  | none => receivers

def Change.apply (receivers : List Nat) : Change → List Nat
  | .register receiver => receivers ++ [receiver]
  | .unregister receiver => unregisterTimeseriesReceiver receivers receiver

/-- A `BroadcastTimeseriesBatch` call: `ranged` is the slice its range statement has read. -/
inductive Broadcasting where
  | waiting
  | ranging (ranged : List Nat) (next : Nat)
  | inside (ranged : List Nat) (next : Nat)
  | returned
  deriving DecidableEq

inductive Changing where
  | waiting
  | announced
  | holding
  | returned
  deriving DecidableEq

inductive Call where
  | broadcast (phase : Broadcasting)
  | change (c : Change) (phase : Changing)
  deriving DecidableEq

/-- Between `RLock` and the deferred `RUnlock`. -/
def Call.reads : Call → Bool
  | .broadcast (.ranging _ _) | .broadcast (.inside _ _) => true
  | _ => false

/-- From the announcement to `Unlock`. -/
def Call.writes : Call → Bool
  | .change _ .announced | .change _ .holding => true
  | _ => false

def Call.hasReturned : Call → Bool
  | .broadcast .returned | .change _ .returned => true
  | _ => false

/-- A registration still to come. -/
def Call.registers : Call → Bool
  | .change (.register _) .returned => false
  | .change (.register _) _ => true
  | _ => false

/-- `readers` and `writer` are the two sides of `registryMu`. -/
structure World where
  receivers : List Nat
  readers : Nat
  writer : Option Nat
  calls : List Call

def World.initial : World := ⟨[], 0, none, []⟩

inductive Action where
  | broadcast
  | change (c : Change)
  | rLock (i : Nat)
  | enter (i : Nat)
  | leave (i : Nat)
  | rUnlock (i : Nat)
  | announce (i : Nat)
  | lock (i : Nat)
  | apply (i : Nat)
  deriving DecidableEq

/-- The action is a new call. -/
def Action.arrives : Action → Bool
  | .broadcast | .change _ => true
  | _ => false

def step (w : World) : Action → Option World
  | .broadcast => some { w with calls := w.calls ++ [.broadcast .waiting] }
  | .change c => some { w with calls := w.calls ++ [.change c .waiting] }
  | .rLock i =>
    match w.calls[i]?, w.writer with
    | some (.broadcast .waiting), none =>
      some { w with
        readers := w.readers + 1
        calls := w.calls.set i (.broadcast (.ranging w.receivers 0)) }
    | _, _ => none
  | .enter i =>
    match w.calls[i]? with
    | some (.broadcast (.ranging ranged next)) =>
      if next < ranged.length then
        some { w with calls := w.calls.set i (.broadcast (.inside ranged next)) }
      else none
    | _ => none
  | .leave i =>
    match w.calls[i]? with
    | some (.broadcast (.inside ranged next)) =>
      some { w with calls := w.calls.set i (.broadcast (.ranging ranged (next + 1))) }
    | _ => none
  | .rUnlock i =>
    match w.calls[i]? with
    | some (.broadcast (.ranging ranged next)) =>
      if ranged.length ≤ next then
        some { w with
          readers := w.readers - 1
          calls := w.calls.set i (.broadcast .returned) }
      else none
    | _ => none
  | .announce i =>
    match w.calls[i]?, w.writer with
    | some (.change c .waiting), none =>
      some { w with writer := some i, calls := w.calls.set i (.change c .announced) }
    | _, _ => none
  | .lock i =>
    match w.calls[i]? with
    | some (.change c .announced) =>
      if w.readers = 0 then some { w with calls := w.calls.set i (.change c .holding) } else none
    | _ => none
  | .apply i =>
    match w.calls[i]? with
    | some (.change c .holding) =>
      some { w with
        receivers := c.apply w.receivers
        writer := none
        calls := w.calls.set i (.change c .returned) }
    | _ => none

/-- What a call does that another one could notice. -/
inductive Event where
  | began (i : Nat) (ranged : List Nat)
  | entered (i : Nat) (receiver : Nat)
  | finished (i : Nat)
  | changed (c : Change)
  deriving DecidableEq

def Event.broadcast : Event → Option Nat
  | .began i _ | .entered i _ | .finished i => some i
  | .changed _ => none

def registryEvent (w : World) : Action → Option Event
  | .rLock i => some (.began i w.receivers)
  | .enter i =>
    match w.calls[i]? with
    | some (.broadcast (.ranging ranged next)) => ranged[next]?.map (Event.entered i)
    | _ => none
  | .rUnlock i => some (.finished i)
  | .apply i =>
    match w.calls[i]? with
    | some (.change c .holding) => some (.changed c)
    | _ => none
  | _ => none

abbrev Observed := Logged World Event

def registryStep : Observed → Action → Option Observed := logStep step registryEvent

/-- The receiver list that the logged changes leave. -/
def registered (log : List Event) : List Nat :=
  log.foldl (fun receivers e =>
    match e with
    | .changed c => c.apply receivers
    | _ => receivers) []

def Event.receiverOf (i : Nat) : Event → Option Nat
  | .entered j receiver => if j = i then some receiver else none
  | _ => none

/-- The receivers that a broadcast has called so far. -/
def calledBy (i : Nat) (log : List Event) : List Nat := log.filterMap (Event.receiverOf i)

/-- What the log in front of an event says. -/
def Orderly (log : List Event) : Event → Prop
  | .began i ranged => ranged = registered log ∧ ∀ e ∈ log, e.broadcast ≠ some i
  | .entered i receiver => .finished i ∉ log ∧
      ∃ next, .began i (registered log) ∈ log ∧ calledBy i log = (registered log).take next ∧
        (registered log)[next]? = some receiver
  | .finished i => .finished i ∉ log ∧ .began i (registered log) ∈ log ∧
      calledBy i log = registered log
  | .changed _ => ∀ i ranged, .began i ranged ∈ log → .finished i ∈ log

/-- A call that has returned takes no steps; each other one has this many left at most. -/
def Call.steps (load : Nat) : Call → Nat
  | .broadcast .waiting => 2 * load + 2
  | .broadcast (.ranging ranged next) => 2 * (ranged.length - next) + 1
  | .broadcast (.inside ranged next) => 2 * (ranged.length - (next + 1)) + 2
  | .broadcast .returned => 0
  | .change _ .waiting => 3
  | .change _ .announced => 2
  | .change _ .holding => 1
  | .change _ .returned => 0

/-- The longest list a broadcast can still meet. -/
def World.load (w : World) : Nat := w.receivers.length + w.calls.countP Call.registers

/-- How many steps the calls that are there can take together. -/
def World.work (w : World) : Nat := (w.calls.map (Call.steps w.load)).sum

section Log

@[simp] theorem registered_concat (log : List Event) (e : Event) :
    registered (log ++ [e]) =
      match e with
      | .changed c => c.apply (registered log)
      | _ => registered log := by
  simp [registered]

@[simp] theorem calledBy_concat (i : Nat) (log : List Event) (e : Event) :
    calledBy i (log ++ [e]) = calledBy i log ++ (e.receiverOf i).toList := by
  unfold calledBy
  rw [List.filterMap_append]
  cases seen : e.receiverOf i <;> simp [seen]

private theorem unregister_eq_erase (receivers : List Nat) (receiver : Nat) :
    unregisterTimeseriesReceiver receivers receiver = receivers.erase receiver := by
  rw [unregisterTimeseriesReceiver, List.erase_eq_eraseIdx]
  cases receivers.idxOf? receiver with
  | none => rfl
  | some i => exact (List.eraseIdx_eq_take_drop_succ receivers i).symm

private theorem registered_unregister (log : List Event) (receiver : Nat) :
    registered (log ++ [.changed (.unregister receiver)]) = (registered log).erase receiver :=
  (registered_concat log _).trans (unregister_eq_erase _ _)

private theorem not_mem_registered {receiver : Nat} {log more : List Event}
    (absent : receiver ∉ registered log) (quiet : .changed (.register receiver) ∉ more) :
    receiver ∉ registered (log ++ more) := by
  induction more using List.reverseRecOn with
  | nil => simpa using absent
  | append_singleton more e ih =>
    rw [List.mem_append, not_or] at quiet
    have earlier := ih quiet.1
    rw [← List.append_assoc]
    cases e with
    | changed c =>
      cases c with
      | register other =>
        have apart : receiver ≠ other := by
          rintro rfl
          exact quiet.2 List.mem_cons_self
        rw [registered_concat]
        simpa [Change.apply, apart] using earlier
      | unregister other =>
        rw [registered_unregister]
        exact fun member => earlier (List.mem_of_mem_erase member)
    | _ =>
      rw [registered_concat]
      exact earlier

private theorem not_mem_unregistered {receiver : Nat} {log : List Event}
    (once : (registered log).count receiver ≤ 1) :
    receiver ∉ registered (log ++ [.changed (.unregister receiver)]) := by
  rw [registered_unregister, ← List.count_eq_zero, List.count_erase_self]
  omega

theorem calledBy_eq_nil {i : Nat} {log : List Event} (silent : ∀ e ∈ log, e.broadcast ≠ some i) :
    calledBy i log = [] := by
  rw [calledBy, List.filterMap_eq_nil_iff]
  intro e member
  have other := silent e member
  cases e with
  | entered j receiver =>
    have apart : j ≠ i := fun same => other (congrArg some same)
    simp [Event.receiverOf, apart]
  | _ => rfl

end Log

/-- What each step can do, with the event it logs. -/
inductive Effect (w : World) : Action → World → Option Event → Prop
  | broadcast : Effect w .broadcast { w with calls := w.calls ++ [.broadcast .waiting] } none
  | change (c : Change) :
      Effect w (.change c) { w with calls := w.calls ++ [.change c .waiting] } none
  | rLock (i : Nat) (here : w.calls[i]? = some (.broadcast .waiting)) (free : w.writer = none) :
      Effect w (.rLock i) { w with
        readers := w.readers + 1
        calls := w.calls.set i (.broadcast (.ranging w.receivers 0)) }
        (some (.began i w.receivers))
  | enter (i : Nat) (ranged : List Nat) (next receiver : Nat)
      (here : w.calls[i]? = some (.broadcast (.ranging ranged next)))
      (listed : ranged[next]? = some receiver) :
      Effect w (.enter i) { w with calls := w.calls.set i (.broadcast (.inside ranged next)) }
        (some (.entered i receiver))
  | leave (i : Nat) (ranged : List Nat) (next : Nat)
      (here : w.calls[i]? = some (.broadcast (.inside ranged next))) :
      Effect w (.leave i)
        { w with calls := w.calls.set i (.broadcast (.ranging ranged (next + 1))) } none
  | rUnlock (i : Nat) (ranged : List Nat) (next : Nat)
      (here : w.calls[i]? = some (.broadcast (.ranging ranged next)))
      (ended : ranged.length ≤ next) :
      Effect w (.rUnlock i) { w with
        readers := w.readers - 1
        calls := w.calls.set i (.broadcast .returned) } (some (.finished i))
  | announce (i : Nat) (c : Change) (here : w.calls[i]? = some (.change c .waiting))
      (free : w.writer = none) :
      Effect w (.announce i)
        { w with writer := some i, calls := w.calls.set i (.change c .announced) } none
  | lock (i : Nat) (c : Change) (here : w.calls[i]? = some (.change c .announced))
      (left : w.readers = 0) :
      Effect w (.lock i) { w with calls := w.calls.set i (.change c .holding) } none
  | apply (i : Nat) (c : Change) (here : w.calls[i]? = some (.change c .holding)) :
      Effect w (.apply i) { w with
        receivers := c.apply w.receivers
        writer := none
        calls := w.calls.set i (.change c .returned) } (some (.changed c))

theorem effect_of_step {w w' : World} {a : Action} (stepped : step w a = some w') :
    Effect w a w' (registryEvent w a) := by
  cases a with
  | broadcast =>
    cases stepped
    exact .broadcast
  | change c =>
    cases stepped
    exact .change c
  | rLock i =>
    simp only [step] at stepped
    split at stepped <;> cases stepped
    rename_i here free
    exact .rLock i here free
  | enter i =>
    simp only [step] at stepped
    split at stepped
    · rename_i ranged next here
      split at stepped <;> cases stepped
      rename_i inside
      have listed := List.getElem?_eq_getElem inside
      have event : registryEvent w (.enter i) = some (.entered i ranged[next]) := by
        simp [registryEvent, here, listed]
      rw [event]
      exact .enter i ranged next _ here listed
    · cases stepped
  | leave i =>
    simp only [step] at stepped
    split at stepped <;> cases stepped
    exact .leave i _ _ ‹_›
  | rUnlock i =>
    simp only [step] at stepped
    split at stepped
    · rename_i ranged next here
      split at stepped <;> cases stepped
      rename_i ended
      exact .rUnlock i ranged next here ended
    · cases stepped
  | announce i =>
    simp only [step] at stepped
    split at stepped <;> cases stepped
    rename_i c here free
    exact .announce i c here free
  | lock i =>
    simp only [step] at stepped
    split at stepped
    · rename_i c here
      split at stepped <;> cases stepped
      rename_i left
      exact .lock i c here left
    · cases stepped
  | apply i =>
    simp only [step] at stepped
    split at stepped <;> cases stepped
    rename_i c here
    have event : registryEvent w (.apply i) = some (.changed c) := by simp [registryEvent, here]
    rw [event]
    exact .apply i c here

/-- How far a broadcast is, read off the log. -/
def Call.Told (i : Nat) (receivers : List Nat) (log : List Event) : Call → Prop
  | .broadcast (.ranging ranged next) => ranged = receivers ∧ .began i ranged ∈ log ∧
      .finished i ∉ log ∧ calledBy i log = ranged.take next
  | .broadcast (.inside ranged next) => ranged = receivers ∧ .began i ranged ∈ log ∧
      .finished i ∉ log ∧ calledBy i log = ranged.take (next + 1)
  | .broadcast .returned => .finished i ∈ log
  | _ => True

/-- The list is what the log says, the mutex counts the calls that hold it, and every
broadcast is as far as the log says. -/
private structure Guarded (s : Observed) : Prop where
  list : s.state.receivers = registered s.log
  readers : s.state.readers = s.state.calls.countP Call.reads
  writer : ∀ {i : Nat} {call : Call}, s.state.calls[i]? = some call →
    (call.writes = true ↔ s.state.writer = some i)
  inside : ∀ i, s.state.writer = some i → i < s.state.calls.length
  alone : ∀ {i : Nat} {c : Change}, s.state.calls[i]? = some (.change c .holding) →
    s.state.readers = 0
  told : ∀ {i : Nat} {call : Call}, s.state.calls[i]? = some call →
    call.Told i s.state.receivers s.log
  logged : ∀ e ∈ s.log, ∀ i, e.broadcast = some i →
    ∃ phase, s.state.calls[i]? = some (.broadcast phase) ∧ phase ≠ .waiting

section Steps

variable {receivers : List Nat} {log : List Event} {call : Call} {i j : Nat} {s t : Observed}

private theorem told_concat {e : Event} (told : call.Told j receivers log)
    (other : e.broadcast ≠ some j) : call.Told j receivers (log ++ [e]) := by
  have unseen : e.receiverOf j = none := by
    cases e with
    | entered k receiver =>
      have apart : k ≠ j := fun same => other (congrArg some same)
      simp [Event.receiverOf, apart]
    | _ => rfl
  have unfinished : .finished j ∉ log → Event.finished j ∉ log ++ [e] := by
    intro absent member
    rcases List.mem_append.mp member with earlier | last
    · exact absent earlier
    · exact other (List.mem_singleton.mp last ▸ rfl)
  cases call with
  | change => trivial
  | broadcast phase =>
    cases phase with
    | waiting => trivial
    | ranging ranged next =>
      obtain ⟨same, begun, open_, called⟩ := told
      refine ⟨same, List.mem_append_left _ begun, unfinished open_, ?_⟩
      simpa [unseen] using called
    | inside ranged next =>
      obtain ⟨same, begun, open_, called⟩ := told
      refine ⟨same, List.mem_append_left _ begun, unfinished open_, ?_⟩
      simpa [unseen] using called
    | returned => exact List.mem_append_left _ told

private theorem told_of_idle (told : call.Told j receivers log) (idle : call.reads = false)
    (receivers' : List Nat) : call.Told j receivers' log := by
  cases call with
  | change => trivial
  | broadcast phase =>
    cases phase with
    | waiting => trivial
    | ranging => cases idle
    | inside => cases idle
    | returned => exact told

private theorem Guarded.idle (held : Guarded s) (left : s.state.readers = 0)
    (found : s.state.calls[j]? = some call) : call.reads = false := by
  have none := held.readers.symm.trans left
  have unheld := List.countP_eq_zero.mp none call (List.mem_of_getElem? found)
  exact Bool.eq_false_iff.mpr unheld

private theorem guarded_arrive (held : Guarded s) (fresh : call.writes = false)
    (quiet : call.reads = false) (told : ∀ i, call.Told i s.state.receivers s.log)
    (waits : ∀ c, call ≠ .change c .holding) :
    Guarded ⟨{ s.state with calls := s.state.calls ++ [call] }, s.log⟩ where
  list := held.list
  readers := by
    rw [List.countP_append, List.countP_singleton, quiet]
    exact held.readers
  writer := by
    refine forall_concat held.writer ?_
    rw [fresh]
    refine iff_of_false Bool.false_ne_true (fun mine => ?_)
    exact absurd (held.inside _ mine) (Nat.lt_irrefl _)
  inside k mine := by
    rw [List.length_append]
    exact Nat.lt_add_right _ (held.inside k mine)
  alone := by
    intro k c found
    rcases getElem?_concat_cases found with ⟨-, same⟩ | found
    · exact absurd same.symm (waits c)
    · exact held.alone found
  told := forall_concat held.told (told _)
  logged e member k about := by
    obtain ⟨phase, found, started⟩ := held.logged e member k about
    exact ⟨phase, getElem?_concat_of_some found, started⟩

private theorem Guarded.move (held : Guarded s) {old new : Call}
    (here : s.state.calls[i]? = some old) {receivers' : List Nat} {readers' : Nat}
    {writer' : Option Nat} {log' : List Event} (list : receivers' = registered log')
    (count : readers' + (if old.reads then 1 else 0) =
      s.state.readers + if new.reads then 1 else 0)
    (mine : new.writes = true ↔ writer' = some i)
    (others : ∀ j, j ≠ i → (s.state.writer = some j ↔ writer' = some j))
    (alone : ∀ {j : Nat} {c : Change},
      (s.state.calls.set i new)[j]? = some (.change c .holding) → readers' = 0)
    (told : new.Told i receivers' log')
    (rest : ∀ {j : Nat} {call : Call}, j ≠ i → s.state.calls[j]? = some call →
      call.Told j receivers' log')
    (started : ∀ phase, old = .broadcast phase → phase ≠ .waiting →
      ∃ phase', new = .broadcast phase' ∧ phase' ≠ .waiting)
    (logged : ∀ e ∈ log', e ∈ s.log ∨ ∀ j, e.broadcast = some j → j = i ∧
      ∃ phase, new = .broadcast phase ∧ phase ≠ .waiting) :
    Guarded ⟨⟨receivers', readers', writer', s.state.calls.set i new⟩, log'⟩ where
  list := list
  readers := by
    have counted := countP_set_add Call.reads here new
    have before := held.readers
    dsimp only
    omega
  writer := by
    intro j call found
    rcases getElem?_set_cases found with ⟨rfl, rfl⟩ | ⟨other, found⟩
    · exact mine
    · exact (held.writer found).trans (others j other)
  inside j owner := by
    rw [List.length_set]
    by_cases same : j = i
    · subst same
      exact (List.getElem?_eq_some_iff.mp here).1
    · exact held.inside j ((others j same).mpr owner)
  alone := alone
  told := by
    intro j call found
    rcases getElem?_set_cases found with ⟨rfl, rfl⟩ | ⟨other, found⟩
    · exact told
    · exact rest other found
  logged := by
    intro e member j about
    rcases logged e member with earlier | new_
    · obtain ⟨phase, found, begun⟩ := held.logged e earlier j about
      rcases getElem?_set_of_some new here found with ⟨rfl, same, moved⟩ | kept
      · obtain ⟨phase', rfl, begun'⟩ := started phase same.symm begun
        exact ⟨phase', moved, begun'⟩
      · exact ⟨phase, kept, begun⟩
    · obtain ⟨rfl, phase, rfl, begun⟩ := new_ j about
      exact ⟨phase, getElem?_set_here here, begun⟩

private theorem Guarded.silent (held : Guarded s) {old new : Call}
    (here : s.state.calls[i]? = some old) {writer' : Option Nat} (count : new.reads = old.reads)
    (mine : new.writes = true ↔ writer' = some i)
    (others : ∀ j, j ≠ i → (s.state.writer = some j ↔ writer' = some j))
    (alone : ∀ c, new = .change c .holding → s.state.readers = 0)
    (told : new.Told i s.state.receivers s.log)
    (started : ∀ phase, old = .broadcast phase → phase ≠ .waiting →
      ∃ phase', new = .broadcast phase' ∧ phase' ≠ .waiting) :
    Guarded ⟨{ s.state with writer := writer', calls := s.state.calls.set i new }, s.log⟩ := by
  refine held.move here held.list (by rw [count]) mine others ?_ told
    (fun _ found => held.told found) started (fun e member => Or.inl member)
  intro j c found
  rcases getElem?_set_cases found with ⟨-, same⟩ | ⟨-, found⟩
  · exact alone c same.symm
  · exact held.alone found

private theorem Guarded.speak (held : Guarded s) {phase phase' : Broadcasting}
    (here : s.state.calls[i]? = some (.broadcast phase)) {readers' : Nat} {e : Event}
    (about : e.broadcast = some i)
    (count : readers' + (if (Call.broadcast phase).reads then 1 else 0) =
      s.state.readers + if (Call.broadcast phase').reads then 1 else 0)
    (alone : ∀ {j : Nat} {c : Change}, s.state.calls[j]? = some (.change c .holding) → readers' = 0)
    (told : (Call.broadcast phase').Told i s.state.receivers (s.log ++ [e]))
    (started : phase' ≠ .waiting) :
    Guarded ⟨{ s.state with
      readers := readers'
      calls := s.state.calls.set i (.broadcast phase') }, s.log ++ [e]⟩ := by
  have unchanged : registered (s.log ++ [e]) = registered s.log := by
    rw [registered_concat]
    cases e with
    | changed => cases about
    | _ => rfl
  have idle := held.writer here
  refine held.move here (held.list.trans unchanged.symm) count ?_ (fun _ _ => Iff.rfl) ?_ told ?_
    (fun _ _ _ => ⟨phase', rfl, started⟩) ?_
  · exact iff_of_false Bool.false_ne_true (fun owner => absurd (idle.mpr owner) Bool.false_ne_true)
  · intro j c found
    rcases getElem?_set_cases found with ⟨-, same⟩ | ⟨-, found⟩
    · cases same
    · exact alone found
  · intro j call other found
    refine told_concat (held.told found) (fun same => other ?_)
    exact Option.some.inj (same.symm.trans about)
  · intro x member
    rcases List.mem_append.mp member with earlier | last
    · exact Or.inl earlier
    · refine Or.inr (fun j named => ?_)
      rw [List.mem_singleton.mp last, about] at named
      exact ⟨(Option.some.inj named).symm, phase', rfl, started⟩

private theorem Guarded.not_holding (held : Guarded s) (free : s.state.writer = none) {c : Change}
    (found : s.state.calls[j]? = some (.change c .holding)) : False := by
  have owner := (held.writer found).mp rfl
  rw [free] at owner
  cases owner

private theorem Guarded.began (held : Guarded s)
    (here : s.state.calls[i]? = some (.broadcast .waiting)) :
    ∀ e ∈ s.log, e.broadcast ≠ some i := by
  intro e member about
  obtain ⟨phase, found, begun⟩ := held.logged e member i about
  rw [here] at found
  cases found
  exact begun rfl

private theorem guarded_rLock (held : Guarded s)
    (here : s.state.calls[i]? = some (.broadcast .waiting)) (free : s.state.writer = none) :
    Guarded ⟨{ s.state with
      readers := s.state.readers + 1
      calls := s.state.calls.set i (.broadcast (.ranging s.state.receivers 0)) },
      s.log ++ [.began i s.state.receivers]⟩ := by
  have quiet := held.began here
  refine held.speak here rfl rfl (fun found => (held.not_holding free found).elim) ?_ nofun
  refine ⟨rfl, by simp, ?_, ?_⟩
  · intro member
    rcases List.mem_append.mp member with earlier | last
    · exact quiet _ earlier rfl
    · cases List.mem_singleton.mp last
  · rw [calledBy_concat, calledBy_eq_nil quiet]
    rfl

private theorem guarded_enter (held : Guarded s) {ranged : List Nat} {next receiver : Nat}
    (here : s.state.calls[i]? = some (.broadcast (.ranging ranged next)))
    (listed : ranged[next]? = some receiver) :
    Guarded ⟨{ s.state with calls := s.state.calls.set i (.broadcast (.inside ranged next)) },
      s.log ++ [.entered i receiver]⟩ := by
  obtain ⟨same, begun, open_, called⟩ := held.told here
  refine held.speak here rfl rfl held.alone ⟨same, List.mem_append_left _ begun, ?_, ?_⟩ nofun
  · intro member
    rcases List.mem_append.mp member with earlier | last
    · exact open_ earlier
    · cases List.mem_singleton.mp last
  · rw [calledBy_concat, called, List.take_add_one, listed]
    simp [Event.receiverOf]

private theorem guarded_rUnlock (held : Guarded s) {ranged : List Nat} {next : Nat}
    (here : s.state.calls[i]? = some (.broadcast (.ranging ranged next))) :
    Guarded ⟨{ s.state with
      readers := s.state.readers - 1
      calls := s.state.calls.set i (.broadcast .returned) }, s.log ++ [.finished i]⟩ := by
  have positive : 0 < s.state.readers := by
    rw [held.readers]
    exact List.countP_pos_iff.mpr ⟨_, List.mem_of_getElem? here, rfl⟩
  refine held.speak here rfl ?_ (fun found => ?_) (List.mem_append_right _ (by simp)) nofun
  · show s.state.readers - 1 + 1 = s.state.readers + 0
    omega
  · rw [held.alone found]

private theorem guarded_apply (held : Guarded s) {c : Change}
    (here : s.state.calls[i]? = some (.change c .holding)) :
    Guarded ⟨{ s.state with
      receivers := c.apply s.state.receivers
      writer := none
      calls := s.state.calls.set i (.change c .returned) }, s.log ++ [.changed c]⟩ := by
  have left := held.alone here
  have owner := (held.writer here).mp rfl
  refine held.move here ?_ rfl (iff_of_false Bool.false_ne_true nofun) ?_ (fun _ => left) trivial
    ?_ nofun ?_
  · rw [registered_concat, held.list]
  · intro j other
    rw [owner]
    exact iff_of_false (fun same => other (Option.some.inj same).symm) nofun
  · intro j call _ found
    exact told_concat (told_of_idle (held.told found) (held.idle left found) _) nofun
  · intro x member
    rcases List.mem_append.mp member with earlier | last
    · exact Or.inl earlier
    · refine Or.inr (fun j named => ?_)
      rw [List.mem_singleton.mp last] at named
      cases named

private theorem guarded_step {a : Action} (held : Guarded s)
    (stepped : registryStep s a = some t) : Guarded t := by
  obtain ⟨moved, logged⟩ := logStep_eq_some stepped
  have effect := effect_of_step moved
  obtain ⟨w', log'⟩ := t
  dsimp only at moved logged effect
  subst logged
  generalize registryEvent s.state a = e at effect
  have silent : s.log ++ (none : Option Event).toList = s.log := List.append_nil _
  cases effect with
  | broadcast =>
    rw [silent]
    exact guarded_arrive held rfl rfl (fun _ => by trivial) nofun
  | change c =>
    rw [silent]
    exact guarded_arrive held rfl rfl (fun _ => by trivial) nofun
  | rLock i here free => exact guarded_rLock held here free
  | enter i ranged next receiver here listed => exact guarded_enter held here listed
  | leave i ranged next here =>
    rw [silent]
    have idle := held.writer here
    have reached := held.told here
    exact held.silent here rfl idle (fun _ _ => Iff.rfl) nofun reached
      (fun _ _ _ => ⟨_, rfl, nofun⟩)
  | rUnlock i ranged next here ended => exact guarded_rUnlock held here
  | announce i c here free =>
    rw [silent]
    refine held.silent here rfl (iff_of_true rfl rfl) (fun j other => ?_) nofun trivial nofun
    rw [free]
    exact iff_of_false nofun (fun same => other (Option.some.inj same).symm)
  | lock i c here left =>
    rw [silent]
    have owner := held.writer here
    exact held.silent here rfl owner (fun _ _ => Iff.rfl) (fun _ _ => left) trivial nofun
  | apply i c here => exact guarded_apply held here

private theorem guarded_initial : Guarded ⟨World.initial, []⟩ where
  list := rfl
  readers := rfl
  writer found := by cases found
  inside i owner := by cases owner
  alone found := by cases found
  told found := by cases found
  logged e member := by cases member

private theorem orderly_of_guarded {a : Action} {e : Event} (held : Guarded s)
    (stepped : registryStep s a = some t) (emitted : registryEvent s.state a = some e) :
    Orderly s.log e := by
  obtain ⟨moved, -⟩ := logStep_eq_some stepped
  have effect := effect_of_step moved
  rw [emitted] at effect
  have list := held.list
  generalize t.state = w' at effect
  cases effect with
  | rLock i here free => exact ⟨list, held.began here⟩
  | enter i ranged next receiver here listed =>
    obtain ⟨same, begun, open_, called⟩ := held.told here
    rw [same, list] at begun called listed
    exact ⟨open_, next, begun, called, listed⟩
  | rUnlock i ranged next here ended =>
    obtain ⟨same, begun, open_, called⟩ := held.told here
    rw [List.take_of_length_le ended] at called
    rw [same, list] at begun called
    exact ⟨open_, begun, called⟩
  | apply i c here =>
    intro j ranged begun
    obtain ⟨phase, found, started⟩ := held.logged _ begun j rfl
    have idle := held.idle (held.alone here) found
    cases phase with
    | waiting => exact absurd rfl started
    | ranging => cases idle
    | inside => cases idle
    | returned => exact held.told found

/-- While some call has not returned, some call can go on. -/
private theorem enabled (held : Guarded s) (member : call ∈ s.state.calls)
    (open_ : call.hasReturned = false) :
    ∃ a, a.arrives = false ∧ (step s.state a).isSome = true := by
  have reader : ∀ {k : Nat} {other : Call}, s.state.calls[k]? = some other → other.reads = true →
      ∃ a, a.arrives = false ∧ (step s.state a).isSome = true := by
    intro k other found reads
    cases other with
    | change => cases reads
    | broadcast phase =>
      cases phase with
      | ranging ranged next =>
        by_cases inside : next < ranged.length
        · exact ⟨.enter k, rfl, by simp [step, found, inside]⟩
        · exact ⟨.rUnlock k, rfl, by simp [step, found, Nat.not_lt.mp inside]⟩
      | inside ranged next => exact ⟨.leave k, rfl, by simp [step, found]⟩
      | _ => cases reads
  have writer : ∀ {k : Nat}, s.state.writer = some k →
      ∃ a, a.arrives = false ∧ (step s.state a).isSome = true := by
    intro k owner
    obtain ⟨other, found⟩ : ∃ other, s.state.calls[k]? = some other :=
      ⟨_, List.getElem?_eq_getElem (held.inside k owner)⟩
    have writes := (held.writer found).mpr owner
    cases other with
    | broadcast => cases writes
    | change c phase =>
      cases phase with
      | announced =>
        by_cases left : s.state.readers = 0
        · exact ⟨.lock k, rfl, by simp [step, found, left]⟩
        · have some := Nat.pos_of_ne_zero (held.readers ▸ left)
          obtain ⟨other, listed, reads⟩ := List.countP_pos_iff.mp some
          obtain ⟨j, place⟩ := List.mem_iff_getElem?.mp listed
          exact reader place reads
      | holding => exact ⟨.apply k, rfl, by simp [step, found]⟩
      | _ => cases writes
  obtain ⟨k, found⟩ := List.mem_iff_getElem?.mp member
  cases owner : s.state.writer with
  | some j => exact writer owner
  | none =>
    cases call with
    | broadcast phase =>
      cases phase with
      | waiting => exact ⟨.rLock k, rfl, by simp [step, found, owner]⟩
      | returned => cases open_
      | _ => exact reader found rfl
    | change c phase =>
      cases phase with
      | waiting => exact ⟨.announce k, rfl, by simp [step, found, owner]⟩
      | returned => cases open_
      | _ =>
        have mine := (held.writer found).mp rfl
        rw [owner] at mine
        cases mine

end Steps

section Work

private theorem steps_mono {first second : Nat} (le : first ≤ second) (call : Call) :
    call.steps first ≤ call.steps second := by
  cases call with
  | broadcast phase =>
    cases phase with
    | waiting =>
      show 2 * first + 2 ≤ 2 * second + 2
      omega
    | _ => exact Nat.le_refl _
  | change c phase => cases phase <;> exact Nat.le_refl _

private theorem sum_steps_mono {first second : Nat} (le : first ≤ second) (calls : List Call) :
    (calls.map (Call.steps first)).sum ≤ (calls.map (Call.steps second)).sum := by
  induction calls with
  | nil => exact Nat.le_refl _
  | cons call calls ih =>
    have head := steps_mono le call
    simp only [List.map_cons, List.sum_cons]
    omega

private theorem length_unregister (receivers : List Nat) (receiver : Nat) :
    (unregisterTimeseriesReceiver receivers receiver).length ≤ receivers.length := by
  rw [unregister_eq_erase]
  exact List.length_erase_le

private theorem work_move {w : World} {i : Nat} {old new : Call}
    (here : w.calls[i]? = some old) {receivers : List Nat} {readers : Nat} {writer : Option Nat}
    (load : receivers.length + (if new.registers then 1 else 0) ≤
      w.receivers.length + if old.registers then 1 else 0)
    (fewer : new.steps w.load < old.steps w.load) :
    World.work ⟨receivers, readers, writer, w.calls.set i new⟩ < w.work := by
  have counted := countP_set_add Call.registers here new
  have lighter : World.load ⟨receivers, readers, writer, w.calls.set i new⟩ ≤ w.load := by
    simp only [World.load]
    omega
  have sum := sum_map_set_add (Call.steps w.load) here new
  calc World.work ⟨receivers, readers, writer, w.calls.set i new⟩
      ≤ ((w.calls.set i new).map (Call.steps w.load)).sum := sum_steps_mono lighter _
    _ < w.work := by
      unfold World.work
      omega

private theorem work_step {w w' : World} {a : Action} (moves : a.arrives = false)
    (stepped : step w a = some w') : w'.work < w.work := by
  have effect := effect_of_step stepped
  generalize registryEvent w a = e at effect
  cases effect with
  | broadcast => cases moves
  | change => cases moves
  | rLock i here free =>
    refine work_move here (Nat.le_refl _) ?_
    show 2 * (w.receivers.length - 0) + 1 < 2 * w.load + 2
    have le : w.receivers.length ≤ w.load := Nat.le_add_right _ _
    omega
  | enter i ranged next receiver here listed =>
    refine work_move here (Nat.le_refl _) ?_
    have inside := (List.getElem?_eq_some_iff.mp listed).1
    show 2 * (ranged.length - (next + 1)) + 2 < 2 * (ranged.length - next) + 1
    omega
  | leave i ranged next here =>
    refine work_move here (Nat.le_refl _) ?_
    show 2 * (ranged.length - (next + 1)) + 1 < 2 * (ranged.length - (next + 1)) + 2
    omega
  | rUnlock i ranged next here ended =>
    refine work_move here (Nat.le_refl _) ?_
    show 0 < 2 * (ranged.length - next) + 1
    omega
  | announce i c here free =>
    refine work_move here ?_ (show 2 < 3 by decide)
    cases c <;> exact Nat.le_refl _
  | lock i c here left =>
    refine work_move here ?_ (show 1 < 2 by decide)
    cases c <;> exact Nat.le_refl _
  | apply i c here =>
    refine work_move here ?_ (show 0 < 1 by decide)
    cases c with
    | register receiver =>
      have longer : (w.receivers ++ [receiver]).length = w.receivers.length + 1 :=
        List.length_append
      exact Nat.le_of_eq longer
    | unregister receiver => exact Nat.add_le_add_right (length_unregister _ receiver) 0

end Work

private theorem not_called_unregistered {log before after : List Event} {receiver : Nat}
    (orderly : Justified Orderly log)
    (split : log = before ++ .changed (.unregister receiver) :: after)
    (once : (registered before).count receiver ≤ 1)
    (quiet : .changed (.register receiver) ∉ after) (i : Nat) : .entered i receiver ∉ after := by
  intro member
  obtain ⟨between, rest, rfl⟩ := List.append_of_mem member
  have here : log = (before ++ [.changed (.unregister receiver)] ++ between) ++
      .entered i receiver :: rest := by
    rw [split]
    simp
  obtain ⟨-, next, -, -, listed⟩ := orderly _ _ _ here
  exact not_mem_registered (not_mem_unregistered once)
    (fun found => quiet (List.mem_append_left _ found)) (List.mem_of_getElem? listed)

/-- Over every interleaving of broadcasts with registrations and unregistrations: a broadcast
calls exactly the entries of the list while it runs, each once and in order; the list changes only
while no broadcast is under way; a receiver that was registered at most once is not called after
its unregistration until it is registered again; some call can always go on; and the calls that
are there return after a bounded number of steps, in whatever order they are taken. -/
theorem broadcasts_exclude_changes {acts : List Action} {s : Observed}
    (run : Run registryStep (fun _ _ => True) ⟨World.initial, []⟩ acts s) :
    (∀ before e after, s.log = before ++ e :: after → Orderly before e) ∧
      s.state.receivers = registered s.log ∧
      (∀ before receiver after, s.log = before ++ .changed (.unregister receiver) :: after →
        (registered before).count receiver ≤ 1 → .changed (.register receiver) ∉ after →
          ∀ i, .entered i receiver ∉ after) ∧
      (∀ call ∈ s.state.calls, call.hasReturned = false →
        ∃ a, a.arrives = false ∧ (step s.state a).isSome = true) ∧
      ∀ later w, Run step (fun _ a => a.arrives = false) s.state later w →
        later.length ≤ s.state.work := by
  have held : Guarded s := run.stateInvariant Guarded guarded_initial
    (fun before _ stepped => guarded_step before stepped)
  have orderly : Justified Orderly s.log :=
    justified_of_invariant Guarded guarded_initial
      (fun before _ stepped => guarded_step before stepped)
      (fun before _ stepped emitted => orderly_of_guarded before stepped emitted) run
  refine ⟨orderly, held.list, fun _ _ _ => not_called_unregistered orderly,
    fun call member open_ => enabled held member open_, ?_⟩
  intro later w rest
  have counted : w.work + later.length ≤ s.state.work := by
    refine rest.invariant (fun acts w => w.work + acts.length ≤ s.state.work) (Nat.le_refl _) ?_
    intro acts before after a bound moves stepped
    have lower := work_step moves stepped
    rw [List.length_append, List.length_singleton]
    omega
  omega

/-- Two receivers register, a broadcast is under way when one of them unregisters, and a
second broadcast follows. -/
def unregisteredDuringBroadcast : List Action :=
  [.change (.register 7), .announce 0, .lock 0, .apply 0,
    .change (.register 8), .announce 1, .lock 1, .apply 1,
    .broadcast, .rLock 2, .enter 2, .change (.unregister 7), .announce 3, .leave 2, .enter 2,
    .leave 2, .rUnlock 2, .lock 3, .apply 3,
    .broadcast, .rLock 4, .enter 4, .leave 4, .rUnlock 4]

theorem unregistered_receiver_is_left_alone :
    ∃ s before after,
      Run registryStep (fun _ _ => True) ⟨World.initial, []⟩ unregisteredDuringBroadcast s ∧
      calledBy 2 s.log = [7, 8] ∧ calledBy 4 s.log = [8] ∧ s.state.receivers = [8] ∧
      s.log = before ++ .changed (.unregister 7) :: after ∧ .finished 2 ∈ before ∧
      ∀ i, .entered i 7 ∉ after := by
  have executed : (exec registryStep (fun _ _ => true) ⟨World.initial, []⟩
      unregisteredDuringBroadcast).any (fun s => decide (s.log =
        [.changed (.register 7), .changed (.register 8), .began 2 [7, 8], .entered 2 7,
          .entered 2 8, .finished 2] ++ .changed (.unregister 7) ::
            [.began 4 [8], .entered 4 8, .finished 4])) = true := by
    decide +kernel
  obtain ⟨s, run, final⟩ := exists_run_of_exec _ unregisteredDuringBroadcast _
    (fun _ _ _ => trivial) executed
  have log := of_decide_eq_true final
  obtain ⟨orderly, list, alone, -, -⟩ := broadcasts_exclude_changes run
  have ordered := orderly _ _ _ log
  refine ⟨s, _, _, run, by rw [log]; decide, by rw [log]; decide, by rw [list, log]; decide, log,
    ordered 2 [7, 8] (by decide), ?_⟩
  exact alone _ 7 _ log (by decide) (by decide)

end SignalAgent.Index.BatchRegistry
