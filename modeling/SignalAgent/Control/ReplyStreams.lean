/- MID: SignalAgent/Control/ReplyStreams
   layer: results
   source: components/edgecontroller/{extension,query_handler,config_handler}.go
   digest: Replies go out on the stream of their command unless a new stream overtakes it. -/

import SignalAgent.Foundations.EventLogs
import SignalAgent.Foundations.Interleavings

set_option autoImplicit false
set_option relaxedAutoImplicit false

namespace SignalAgent.Control.ReplyStreams

open Foundations.EventLogs Foundations.GuardedRuns Foundations.Interleavings

/-- The server commands that are answered by a `QueryResponse` or a `CommandResult`. -/
inductive Command where
  | queryRequest
  | updateConfig
  | demandSet
  | getStatus
  deriving DecidableEq

/-- Queries and config updates run in a goroutine of their own, the rest in the receive loop. -/
def Command.async : Command → Bool
  | .queryRequest | .updateConfig => true
  | .demandSet | .getStatus => false

/-- `replyCommand` sends nothing for the id 0; `sendQueryResponse` makes no exception. -/
def Command.repliesTo (command : Command) (id : UInt64) : Bool :=
  command = .queryRequest || id ≠ 0

/-- A handler reads the current stream when its work is done, and then sends on what it read. -/
inductive Stage where
  | working
  | sending (stream : Nat)
  | done
  deriving DecidableEq

structure Handler where
  command : Command
  id : UInt64
  stage : Stage
  deriving DecidableEq

/-- Nothing has been read or sent for a command that is answered. -/
def Handler.unanswered (h : Handler) : Bool :=
  h.stage = .working && h.command.repliesTo h.id

/-- Streams are numbered in the order they are opened. `inline` is the handler the receive loop
is running itself. -/
structure World where
  stream : Option Nat
  opened : Nat
  handlers : List Handler
  inline : Option Nat

def World.initial : World := ⟨none, 0, [], none⟩

inductive Action where
  | connect
  | disconnect
  | receive (command : Command) (id : UInt64)
  | finish (h : Nat)
  | send (h : Nat)
  deriving DecidableEq

/-- A handler moves on; the receive loop goes on when its own handler is done. -/
def World.move (w : World) (h : Nat) (x : Handler) : World :=
  { w with
    handlers := w.handlers.set h x
    inline := if x.stage = .done ∧ w.inline = some h then none else w.inline }

/-- What `sendAgentMessage` finds: a reply that is not wanted or finds no stream is dropped. -/
def nextStage (w : World) (x : Handler) : Stage :=
  match w.stream with
  | some stream => if x.command.repliesTo x.id then .sending stream else .done
  | none => .done

def step (w : World) : Action → Option World
  -- The connection loop opens a stream only after it has cleared the last one.
  | .connect =>
    match w.stream with
    | none => some { w with stream := some w.opened, opened := w.opened + 1 }
    | some _ => none
  | .disconnect =>
    if w.stream.isSome ∧ w.inline = none then some { w with stream := none } else none
  | .receive command id =>
    if w.stream.isSome ∧ w.inline = none then
      some { w with
        handlers := w.handlers ++ [⟨command, id, .working⟩]
        inline := if command.async then none else some w.handlers.length }
    else none
  | .finish h =>
    match w.handlers[h]? with
    | some ⟨command, id, .working⟩ =>
      some (w.move h ⟨command, id, nextStage w ⟨command, id, .working⟩⟩)
    | _ => none
  | .send h =>
    match w.handlers[h]? with
    | some ⟨command, id, .sending _⟩ => some (w.move h ⟨command, id, .done⟩)
    | _ => none

/-- A command read from a stream and handed to a handler, or a reply given to a stream. -/
inductive Event where
  | received (h stream : Nat) (id : UInt64)
  | replied (h stream : Nat) (id : UInt64)
  deriving DecidableEq

def streamEvent (w : World) : Action → Option Event
  | .receive _ id => w.stream.map (fun stream => .received w.handlers.length stream id)
  | .send h =>
    match w.handlers[h]? with
    | some ⟨_, id, .sending stream⟩ => some (.replied h stream id)
    | _ => none
  | _ => none

abbrev Observed := Logged World Event

def controlStep : Observed → Action → Option Observed := logStep step streamEvent

/-- A reply is given only to the stream on which its command was received. -/
def RepliedInPlace (log : List Event) : Event → Prop
  | .replied h stream id => .received h stream id ∈ log
  | .received _ _ _ => True

/-- No stream is opened while a command still has to be answered. -/
def AnsweredFirst (w : World) : Action → Prop
  | .connect => ∀ x ∈ w.handlers, x.unanswered = false
  | _ => True

instance (w : World) (a : Action) : Decidable (AnsweredFirst w a) :=
  match a with
  | .connect => inferInstanceAs (Decidable (∀ x ∈ w.handlers, x.unanswered = false))
  | .disconnect | .receive _ _ | .finish _ | .send _ => inferInstanceAs (Decidable True)

/-- What each step can do, with the event it logs. -/
inductive Effect (w : World) : Action → World → Option Event → Prop
  | connect (idle : w.stream = none) :
      Effect w .connect { w with stream := some w.opened, opened := w.opened + 1 } none
  | disconnect : Effect w .disconnect { w with stream := none } none
  | received (command : Command) (id : UInt64) (stream : Nat) (here : w.stream = some stream)
      (inline : Option Nat) :
      Effect w (.receive command id)
        { w with handlers := w.handlers ++ [⟨command, id, .working⟩], inline := inline }
        (some (.received w.handlers.length stream id))
  | finished (h : Nat) (command : Command) (id : UInt64)
      (here : w.handlers[h]? = some ⟨command, id, .working⟩) :
      Effect w (.finish h) (w.move h ⟨command, id, nextStage w ⟨command, id, .working⟩⟩) none
  | replied (h : Nat) (command : Command) (id : UInt64) (stream : Nat)
      (here : w.handlers[h]? = some ⟨command, id, .sending stream⟩) :
      Effect w (.send h) (w.move h ⟨command, id, .done⟩) (some (.replied h stream id))

theorem effect_of_controlStep {s t : Observed} {a : Action} (stepped : controlStep s a = some t) :
    ∃ e, Effect s.state a t.state e ∧ streamEvent s.state a = e ∧ t.log = s.log ++ e.toList := by
  obtain ⟨moved, logged⟩ := logStep_eq_some stepped
  refine ⟨_, ?_, rfl, logged⟩
  cases a with
  | connect =>
    simp only [step] at moved
    split at moved
    · rename_i idle
      rw [← Option.some.inj moved]
      exact .connect idle
    · cases moved
  | disconnect =>
    simp only [step] at moved
    split at moved
    · rw [← Option.some.inj moved]
      exact .disconnect
    · cases moved
  | receive command id =>
    simp only [step] at moved
    split at moved
    · rename_i ready
      obtain ⟨stream, here⟩ := Option.isSome_iff_exists.mp ready.1
      rw [← Option.some.inj moved]
      have event : streamEvent s.state (.receive command id) =
          some (.received s.state.handlers.length stream id) := by
        simp [streamEvent, here]
      rw [event]
      exact .received command id stream here _
    · cases moved
  | finish h =>
    simp only [step] at moved
    split at moved
    · rename_i command id here
      rw [← Option.some.inj moved]
      exact .finished h command id here
    · cases moved
  | send h =>
    simp only [step] at moved
    split at moved
    · rename_i command id stream here
      rw [← Option.some.inj moved]
      have event : streamEvent s.state (.send h) = some (.replied h stream id) := by
        simp [streamEvent, here]
      rw [event]
      exact .replied h command id stream here
    · cases moved

/-- Every reply that is still to come knows its stream: an unanswered command was received on
the current stream, unless there is none, and a stream that was read is the right one. -/
structure InPlace (stream : Option Nat) (handlers : List Handler) (log : List Event) : Prop where
  waiting : ∀ {h : Nat} {x : Handler}, handlers[h]? = some x → x.unanswered = true →
    ∀ current, stream = some current → .received h current x.id ∈ log
  sending : ∀ {h current : Nat} {x : Handler}, handlers[h]? = some x →
    x.stage = .sending current → .received h current x.id ∈ log

section Moves

variable {stream : Option Nat} {handlers : List Handler} {log : List Event}

private theorem InPlace.logged (held : InPlace stream handlers log) (more : List Event) :
    InPlace stream handlers (log ++ more) where
  waiting here unanswered current now :=
    List.mem_append_left _ (held.waiting here unanswered current now)
  sending here stage := List.mem_append_left _ (held.sending here stage)

private theorem InPlace.moveHandler (held : InPlace stream handlers log) {h : Nat} {x : Handler}
    (answered : x.unanswered = false)
    (right : ∀ current, x.stage = .sending current → .received h current x.id ∈ log) :
    InPlace stream (handlers.set h x) log where
  waiting := forall_set held.waiting (fun unanswered => nomatch answered.symm.trans unanswered)
  sending := by
    intro k current y found
    exact forall_set held.sending (right current) found

private theorem InPlace.newHandler (held : InPlace stream handlers log) (command : Command)
    (id : UInt64) {current : Nat} (now : stream = some current) :
    InPlace stream (handlers ++ [⟨command, id, .working⟩])
      (log ++ [.received handlers.length current id]) where
  waiting := by
    intro k y found unanswered other there
    obtain rfl := Option.some.inj (now.symm.trans there)
    rcases getElem?_concat_cases found with ⟨rfl, rfl⟩ | found
    · exact List.mem_append_right _ List.mem_cons_self
    · exact List.mem_append_left _ (held.waiting found unanswered current now)
  sending := by
    intro k other y found stage
    rcases getElem?_concat_cases found with ⟨rfl, rfl⟩ | found
    · cases stage
    · exact List.mem_append_left _ (held.sending found stage)

end Moves

theorem inPlace_initial : InPlace World.initial.stream World.initial.handlers [] where
  waiting here := nomatch here
  sending here := nomatch here

theorem inPlace_step {s t : Observed} {a : Action}
    (held : InPlace s.state.stream s.state.handlers s.log) (guard : AnsweredFirst s.state a)
    (stepped : controlStep s a = some t) : InPlace t.state.stream t.state.handlers t.log := by
  obtain ⟨w, log⟩ := s
  obtain ⟨w', log'⟩ := t
  obtain ⟨e, effect, -, logged⟩ := effect_of_controlStep stepped
  dsimp only at held guard effect logged ⊢
  subst logged
  cases effect with
  | connect idle =>
    refine InPlace.logged ⟨?_, held.sending⟩ _
    -- The guard leaves no command that the new stream could overtake.
    intro h x here unanswered
    exact nomatch (guard x (List.mem_of_getElem? here)).symm.trans unanswered
  | disconnect =>
    refine InPlace.logged ⟨?_, held.sending⟩ _
    intro h x here unanswered current now
    cases now
  | received command id stream here inline => exact held.newHandler command id here
  | finished h command id here =>
    refine (held.moveHandler ?_ ?_).logged _
    · unfold nextStage Handler.unanswered
      cases w.stream with
      | none => rfl
      | some stream =>
        dsimp only
        split
        · rfl
        · rfl
    · intro current stage
      dsimp only at stage
      unfold nextStage at stage
      split at stage
      · rename_i stream now
        split at stage
        · rename_i replies
          obtain rfl := Stage.sending.inj stage
          refine held.waiting here ?_ stream now
          simpa [Handler.unanswered] using replies
        · cases stage
      · cases stage
  | replied h command id stream here =>
    refine (held.moveHandler rfl ?_).logged _
    intro current stage
    cases stage

theorem repliedInPlace_of_inPlace {s t : Observed} {a : Action} {e : Event}
    (held : InPlace s.state.stream s.state.handlers s.log) (stepped : controlStep s a = some t)
    (emitted : streamEvent s.state a = some e) : RepliedInPlace s.log e := by
  obtain ⟨w, log⟩ := s
  obtain ⟨w', log'⟩ := t
  obtain ⟨_, effect, event, -⟩ := effect_of_controlStep stepped
  dsimp only at held effect event emitted ⊢
  rw [emitted] at event
  subst event
  cases effect with
  | received => trivial
  | replied h command id stream here => exact held.sending here rfl

/-- In every run in which no stream is opened while a command still has to be answered, every
reply goes out on the stream of its command. -/
theorem replies_go_back_in_place {acts : List Action} {s : Observed}
    (run : Run controlStep (fun s a => AnsweredFirst s.state a) ⟨World.initial, []⟩ acts s) :
    Justified RepliedInPlace s.log := by
  refine justified_of_invariant (fun s => InPlace s.state.stream s.state.handlers s.log)
    inPlace_initial inPlace_step ?_ run
  intro s t a e held _ stepped emitted
  exact repliedInPlace_of_inPlace held stepped emitted

/-- A query is answered, the stream is replaced, and a config update with the same id is
answered on the new stream. -/
def answeredBeforeReconnect : List Action :=
  [.connect, .receive .queryRequest 7, .finish 0, .send 0, .disconnect, .connect,
    .receive .updateConfig 7, .finish 1, .send 1]

theorem replies_stay_apart_after_reconnect :
    ∃ s, Run controlStep (fun s a => AnsweredFirst s.state a) ⟨World.initial, []⟩
        answeredBeforeReconnect s ∧
      s.log = [.received 0 0 7, .replied 0 0 7, .received 1 1 7, .replied 1 1 7] ∧
      Justified RepliedInPlace s.log := by
  have executed : (exec controlStep (fun (s : Observed) a => decide (AnsweredFirst s.state a))
      ⟨World.initial, []⟩ answeredBeforeReconnect).any (fun s => decide (s.log =
        [.received 0 0 7, .replied 0 0 7, .received 1 1 7, .replied 1 1 7])) = true := by
    decide +kernel
  obtain ⟨s, run, final⟩ := exists_run_of_exec
    (fun (s : Observed) a => decide (AnsweredFirst s.state a)) answeredBeforeReconnect _
    (fun _ _ passed => of_decide_eq_true passed) executed
  exact ⟨s, run, of_decide_eq_true final, replies_go_back_in_place run⟩

/-- The stream ends while the query runs, and a new stream is there when it is done. -/
def reconnectDuringQuery : List Action :=
  [.connect, .receive .queryRequest 7, .disconnect, .connect, .finish 0, .send 0]

theorem query_overtaken_by_new_stream :
    ¬ ∀ acts s, Run controlStep (fun _ _ => True) ⟨World.initial, []⟩ acts s →
      Justified RepliedInPlace s.log := by
  intro inPlace
  have executed : (exec controlStep (fun _ _ => true) ⟨World.initial, []⟩
      reconnectDuringQuery).any (fun s => decide (s.log =
        [.received 0 0 7, .replied 0 1 7])) = true := by
    decide +kernel
  obtain ⟨s, run, final⟩ := exists_run_of_exec (fun _ _ => true) reconnectDuringQuery _
    (fun _ _ _ => trivial) executed
  have claimed := inPlace _ s run [.received 0 0 7] (.replied 0 1 7) [] (of_decide_eq_true final)
  unfold RepliedInPlace at claimed
  exact absurd claimed (by decide)

end SignalAgent.Control.ReplyStreams
