/- MID: SignalAgent/Control/ControlPlane
   layer: model
   source: components/edgecontroller/extension.go, components/edgecontroller/telemetry.go,
     components/edgecontroller/timeseries_processor.go
   digest: The connection loop, the goroutines it starts, the dispatch of commands and Shutdown. -/

import SignalAgent.Foundations.GuardedRuns
import SignalAgent.Foundations.Interleavings

set_option autoImplicit false
set_option relaxedAutoImplicit false

namespace SignalAgent.Control.ControlPlane

open Foundations.GuardedRuns Foundations.Interleavings

/-- The bodies of a `ServerMessage`; `unknown` is the default branch of the dispatch. -/
inductive Body where
  | pong
  | ack
  | demandSet
  | getStatus
  | updateConfig
  | queryRequest
  | getDiagnosis
  | getConfig
  | unknown
  deriving DecidableEq

/-- The bodies of an `AgentMessage`, the index messages as one. -/
inductive AgentBody where
  | hello
  | ping
  | index
  | commandResult
  | queryResponse
  | configSnapshot
  deriving DecidableEq

/-- A goroutine of its own handles the body. -/
def Body.async : Body → Bool
  | .updateConfig | .queryRequest => true
  | _ => false

/-- How a command with this id is answered; only a query is answered under the id 0 as well. -/
def Body.answer (id : UInt64) : Body → Option AgentBody
  | .demandSet | .getStatus | .updateConfig => if id = 0 then none else some .commandResult
  | .getConfig => if id = 0 then none else some .configSnapshot
  | .queryRequest => some .queryResponse
  | .pong | .ack | .getDiagnosis | .unknown => none

structure Command where
  body : Body
  id : UInt64
  deriving DecidableEq

def Command.answer (c : Command) : Option AgentBody := c.body.answer c.id

/-- What a goroutine started by the connection loop is for. -/
inductive Job where
  | ping
  | processor
  | command (n : Nat)
  deriving DecidableEq

/-- The goroutines `Shutdown` waits for. -/
def Job.tracked : Job → Bool
  | .ping => false
  | .processor | .command _ => true

/-- The goroutines with a context of their stream. -/
def Job.ofStream : Job → Bool
  | .ping | .processor => true
  | .command _ => false

/-- `sendAgentMessage` reads the current stream first and sends on what it read. -/
inductive Progress where
  | running
  | sending (target : Option Nat) (id : UInt64)
  | done
  deriving DecidableEq

/-- `stream` is the one the goroutine was started under; `cancelled` is its own context. -/
structure Worker where
  job : Job
  stream : Nat
  cancelled : Bool
  progress : Progress
  deriving DecidableEq

/-- Where the connection loop stands; `k` is the number of the stream it is in. -/
inductive Phase where
  | top
  | dialing
  | opened (k : Nat)
  | recorded (k : Nat)
  | greeted (k : Nat)
  | pinging (k : Nat)
  | receiving (k : Nat)
  | handling (k n : Nat)
  | broken (k : Nat)
  | halfClosed (k : Nat)
  | leaving (k : Nat)
  | pausing
  | stopped
  deriving DecidableEq

/-- Who sent a message: the loop itself, one of its goroutines, or the handler of a command. -/
inductive Origin where
  | loop
  | worker (i : Nat)
  | command (n : Nat)
  deriving DecidableEq

structure Sent where
  stream : Nat
  body : AgentBody
  id : UInt64
  origin : Origin
  deriving DecidableEq

/-- `attempts` and `established` are the two counters of the telemetry; `opened` numbers the
streams, and `wg` is the counter of the wait group. -/
structure World where
  phase : Phase
  stream : Option Nat
  attempts : Nat
  opened : Nat
  established : Nat
  cancelled : Bool
  wg : Nat
  corrSeq : UInt64
  commands : List Command
  workers : List Worker
  log : List Sent
  deriving DecidableEq

/-- After `Start`. -/
def World.initial : World := ⟨.top, none, 0, 0, 0, false, 1, 0, [], [], []⟩

/-- `connectedState`, the gauge. -/
def connectedState (w : World) : Nat := if w.stream.isSome then 1 else 0

inductive Action where
  | quit
  | dial
  | dialFails
  | openStream
  | record
  | hello (sent : Bool)
  | startPing
  | startProcessor
  | receive (c : Command)
  | handled (sent : Bool)
  | recvFails
  | cancelPing
  | cancelProcessor
  | clear
  | wake
  | prepare (i : Nat)
  | deliver (i : Nat) (sent : Bool)
  | exit (i : Nat)
  | shutdown
  deriving DecidableEq

/-- A send on the stream that was read; a failed one is only logged. -/
def post (target : Option Nat) (sent : Bool) (body : AgentBody) (id : UInt64) (origin : Origin) :
    List Sent :=
  match target with
  | some s => if sent then [⟨s, body, id, origin⟩] else []
  | none => []

theorem post_cases (target : Option Nat) (sent : Bool) (body : AgentBody) (id : UInt64)
    (origin : Origin) :
    post target sent body id origin = [] ∨
      ∃ s, target = some s ∧ sent = true ∧
        post target sent body id origin = [⟨s, body, id, origin⟩] := by
  cases target with
  | none => exact Or.inl rfl
  | some s =>
    cases sent with
    | false => exact Or.inl rfl
    | true => exact Or.inr ⟨s, rfl, rfl, rfl⟩

theorem mem_post {target : Option Nat} {sent : Bool} {body : AgentBody} {id : UInt64}
    {origin : Origin} {e : Sent} (member : e ∈ post target sent body id origin) :
    target = some e.stream ∧ e = ⟨e.stream, body, id, origin⟩ := by
  rcases post_cases target sent body id origin with nothing | ⟨s, read, -, posted⟩
  · rw [nothing] at member
    cases member
  · rw [posted] at member
    obtain rfl := List.mem_singleton.mp member
    exact ⟨read, rfl⟩

/-- The context function of one goroutine of stream `k` is called. -/
def cancelJob (job : Job) (k : Nat) (workers : List Worker) : List Worker :=
  workers.map (fun x => if x.job = job ∧ x.stream = k then { x with cancelled := true } else x)

def Job.origin (i : Nat) : Job → Origin
  | .ping | .processor => .worker i
  | .command n => .command n

/-- The body a goroutine sends; nothing is wanted for a command that is not answered. -/
def Job.body (commands : List Command) : Job → Option AgentBody
  | .ping => some .ping
  | .processor => some .index
  | .command n => commands[n]?.bind Command.answer

/-- The correlation id of what a goroutine sends: none for a ping, a fresh one for an index
message, the command's own for an answer. -/
def Job.sendId (w : World) : Job → UInt64
  | .ping => 0
  | .processor => w.corrSeq + 1
  | .command n => (w.commands[n]?.map Command.id).getD 0

/-- A ping loop ends when its send fails; a processor goes on; a handler is done. -/
def Job.afterSend (target : Option Nat) (sent : Bool) : Job → Progress
  | .ping => if target.isSome ∧ sent = false then .done else .running
  | .processor => .running
  | .command _ => .done

/-- Whether a goroutine may return from its loop, or has nothing to send. -/
def mayExit (w : World) (x : Worker) : Bool :=
  match x.job with
  | .ping | .processor => x.cancelled || w.cancelled
  | .command n => (w.commands[n]?.bind Command.answer).isNone

/-- `wg.Done` when a tracked goroutine returns. -/
def World.finish (w : World) (job : Job) (next : Progress) : Nat :=
  if job.tracked ∧ next = .done then w.wg - 1 else w.wg

def step (w : World) : Action → Option World
  -- The default branch is taken only while the context is open.
  | .quit =>
    if w.cancelled ∧ (w.phase = .top ∨ w.phase = .pausing) then
      some { w with phase := .stopped, wg := w.wg - 1 }
    else none
  | .dial =>
    if w.cancelled = false ∧ w.phase = .top then
      some { w with phase := .dialing, attempts := w.attempts + 1 }
    else none
  | .dialFails => if w.phase = .dialing then some { w with phase := .pausing } else none
  | .openStream =>
    if w.phase = .dialing then
      some { w with
        phase := .opened w.opened
        stream := some w.opened
        opened := w.opened + 1 }
    else none
  | .record =>
    match w.phase with
    | .opened k => some { w with phase := .recorded k, established := w.established + 1 }
    | _ => none
  | .hello sent =>
    match w.phase with
    | .recorded k =>
      some { w with
        phase := if sent then .greeted k else .leaving k
        log := w.log ++ post w.stream sent .hello 0 .loop }
    | _ => none
  | .startPing =>
    match w.phase with
    | .greeted k =>
      some { w with phase := .pinging k, workers := w.workers ++ [⟨.ping, k, false, .running⟩] }
    | _ => none
  | .startProcessor =>
    match w.phase with
    | .pinging k =>
      some { w with
        phase := .receiving k
        wg := w.wg + 1
        workers := w.workers ++ [⟨.processor, k, false, .running⟩] }
    | _ => none
  | .receive c =>
    match w.phase with
    | .receiving k =>
      if c.body.async then
        some { w with
          wg := w.wg + 1
          commands := w.commands ++ [c]
          workers := w.workers ++ [⟨.command w.commands.length, k, false, .running⟩] }
      else
        some { w with
          phase := .handling k w.commands.length
          commands := w.commands ++ [c] }
    | _ => none
  | .handled sent =>
    match w.phase with
    | .handling k n =>
      some { w with
        phase := .receiving k
        log := w.log ++ match w.commands[n]? with
          | some c =>
            match c.answer with
            | some body => post w.stream sent body c.id (.command n)
            | none => []
          | none => [] }
    | _ => none
  | .recvFails =>
    match w.phase with
    | .receiving k => some { w with phase := .broken k }
    | _ => none
  | .cancelPing =>
    match w.phase with
    | .broken k =>
      some { w with phase := .halfClosed k, workers := cancelJob .ping k w.workers }
    | _ => none
  | .cancelProcessor =>
    match w.phase with
    | .halfClosed k =>
      some { w with phase := .leaving k, workers := cancelJob .processor k w.workers }
    | _ => none
  | .clear =>
    match w.phase with
    | .leaving _ => some { w with phase := .pausing, stream := none }
    | _ => none
  | .wake => if w.phase = .pausing then some { w with phase := .top } else none
  | .prepare i =>
    match w.workers[i]? with
    | some ⟨job, k, cancelled, .running⟩ =>
      if (job.body w.commands).isSome then
        some { w with
          corrSeq := if job = .processor then w.corrSeq + 1 else w.corrSeq
          workers := w.workers.set i ⟨job, k, cancelled, .sending w.stream (job.sendId w)⟩ }
      else none
    | _ => none
  | .deliver i sent =>
    match w.workers[i]? with
    | some ⟨job, k, cancelled, .sending target id⟩ =>
      match job.body w.commands with
      | some body =>
        some { w with
          wg := w.finish job (job.afterSend target sent)
          workers := w.workers.set i ⟨job, k, cancelled, job.afterSend target sent⟩
          log := w.log ++ post target sent body id (job.origin i) }
      | none => none
    | _ => none
  | .exit i =>
    match w.workers[i]? with
    | some ⟨job, k, cancelled, .running⟩ =>
      if mayExit w ⟨job, k, cancelled, .running⟩ then
        some { w with
          wg := w.finish job .done
          workers := w.workers.set i ⟨job, k, cancelled, .done⟩ }
      else none
    | _ => none
  | .shutdown => some { w with cancelled := true }

/-- What a step does: one constructor for each move of the loop, and three for a goroutine. -/
inductive Effect (w : World) : Action → World → Prop where
  | quit (cancelled : w.cancelled = true) (idle : w.phase = .top ∨ w.phase = .pausing) :
      Effect w .quit { w with phase := .stopped, wg := w.wg - 1 }
  | dial (live : w.cancelled = false) (at_ : w.phase = .top) :
      Effect w .dial { w with phase := .dialing, attempts := w.attempts + 1 }
  | dialFails (at_ : w.phase = .dialing) : Effect w .dialFails { w with phase := .pausing }
  | openStream (at_ : w.phase = .dialing) :
      Effect w .openStream { w with
        phase := .opened w.opened
        stream := some w.opened
        opened := w.opened + 1 }
  | record {k : Nat} (at_ : w.phase = .opened k) :
      Effect w .record { w with phase := .recorded k, established := w.established + 1 }
  | hello {k : Nat} (sent : Bool) (at_ : w.phase = .recorded k) :
      Effect w (.hello sent) { w with
        phase := if sent then .greeted k else .leaving k
        log := w.log ++ post w.stream sent .hello 0 .loop }
  | startPing {k : Nat} (at_ : w.phase = .greeted k) :
      Effect w .startPing { w with
        phase := .pinging k
        workers := w.workers ++ [⟨.ping, k, false, .running⟩] }
  | startProcessor {k : Nat} (at_ : w.phase = .pinging k) :
      Effect w .startProcessor { w with
        phase := .receiving k
        wg := w.wg + 1
        workers := w.workers ++ [⟨.processor, k, false, .running⟩] }
  | spawn {k : Nat} {c : Command} (at_ : w.phase = .receiving k) (async : c.body.async = true) :
      Effect w (.receive c) { w with
        wg := w.wg + 1
        commands := w.commands ++ [c]
        workers := w.workers ++ [⟨.command w.commands.length, k, false, .running⟩] }
  | handle {k : Nat} {c : Command} (at_ : w.phase = .receiving k)
      (inline : c.body.async = false) :
      Effect w (.receive c) { w with
        phase := .handling k w.commands.length
        commands := w.commands ++ [c] }
  | handled {k n : Nat} (sent : Bool) (at_ : w.phase = .handling k n) :
      Effect w (.handled sent) { w with
        phase := .receiving k
        log := w.log ++ match w.commands[n]? with
          | some c =>
            match c.answer with
            | some body => post w.stream sent body c.id (.command n)
            | none => []
          | none => [] }
  | recvFails {k : Nat} (at_ : w.phase = .receiving k) :
      Effect w .recvFails { w with phase := .broken k }
  | cancelPing {k : Nat} (at_ : w.phase = .broken k) :
      Effect w .cancelPing { w with
        phase := .halfClosed k
        workers := cancelJob .ping k w.workers }
  | cancelProcessor {k : Nat} (at_ : w.phase = .halfClosed k) :
      Effect w .cancelProcessor { w with
        phase := .leaving k
        workers := cancelJob .processor k w.workers }
  | clear {k : Nat} (at_ : w.phase = .leaving k) :
      Effect w .clear { w with phase := .pausing, stream := none }
  | wake (at_ : w.phase = .pausing) : Effect w .wake { w with phase := .top }
  | prepare {i k : Nat} {job : Job} {cancelled : Bool} {body : AgentBody}
      (here : w.workers[i]? = some ⟨job, k, cancelled, .running⟩)
      (wanted : job.body w.commands = some body) :
      Effect w (.prepare i) { w with
        corrSeq := if job = .processor then w.corrSeq + 1 else w.corrSeq
        workers := w.workers.set i ⟨job, k, cancelled, .sending w.stream (job.sendId w)⟩ }
  | deliver {i k : Nat} {job : Job} {cancelled : Bool} {target : Option Nat} {id : UInt64}
      {body : AgentBody} (sent : Bool)
      (here : w.workers[i]? = some ⟨job, k, cancelled, .sending target id⟩)
      (wanted : job.body w.commands = some body) :
      Effect w (.deliver i sent) { w with
        wg := w.finish job (job.afterSend target sent)
        workers := w.workers.set i ⟨job, k, cancelled, job.afterSend target sent⟩
        log := w.log ++ post target sent body id (job.origin i) }
  | exit {i k : Nat} {job : Job} {cancelled : Bool}
      (here : w.workers[i]? = some ⟨job, k, cancelled, .running⟩)
      (may : mayExit w ⟨job, k, cancelled, .running⟩ = true) :
      Effect w (.exit i) { w with
        wg := w.finish job .done
        workers := w.workers.set i ⟨job, k, cancelled, .done⟩ }
  | shutdown : Effect w .shutdown { w with cancelled := true }

theorem effect_of_step {w w' : World} {a : Action} (stepped : step w a = some w') :
    Effect w a w' := by
  cases a with
  | quit =>
    simp only [step] at stepped
    split at stepped <;> cases stepped
    rename_i guard
    exact .quit guard.1 guard.2
  | dial =>
    simp only [step] at stepped
    split at stepped <;> cases stepped
    rename_i guard
    exact .dial guard.1 guard.2
  | dialFails =>
    simp only [step] at stepped
    split at stepped <;> cases stepped
    exact .dialFails ‹_›
  | openStream =>
    simp only [step] at stepped
    split at stepped <;> cases stepped
    exact .openStream ‹_›
  | record =>
    simp only [step] at stepped
    split at stepped <;> cases stepped
    exact .record ‹_›
  | hello sent =>
    simp only [step] at stepped
    split at stepped <;> cases stepped
    exact .hello sent ‹_›
  | startPing =>
    simp only [step] at stepped
    split at stepped <;> cases stepped
    exact .startPing ‹_›
  | startProcessor =>
    simp only [step] at stepped
    split at stepped <;> cases stepped
    exact .startProcessor ‹_›
  | receive c =>
    simp only [step] at stepped
    split at stepped
    · rename_i at_
      split at stepped <;> rename_i kind <;> cases stepped
      · exact .spawn at_ kind
      · exact .handle at_ (Bool.eq_false_iff.mpr kind)
    · cases stepped
  | handled sent =>
    simp only [step] at stepped
    split at stepped <;> cases stepped
    exact .handled sent ‹_›
  | recvFails =>
    simp only [step] at stepped
    split at stepped <;> cases stepped
    exact .recvFails ‹_›
  | cancelPing =>
    simp only [step] at stepped
    split at stepped <;> cases stepped
    exact .cancelPing ‹_›
  | cancelProcessor =>
    simp only [step] at stepped
    split at stepped <;> cases stepped
    exact .cancelProcessor ‹_›
  | clear =>
    simp only [step] at stepped
    split at stepped <;> cases stepped
    exact .clear ‹_›
  | wake =>
    simp only [step] at stepped
    split at stepped <;> cases stepped
    exact .wake ‹_›
  | prepare i =>
    simp only [step] at stepped
    split at stepped
    · rename_i here
      split at stepped <;> cases stepped
      rename_i some_
      obtain ⟨body, wanted⟩ := Option.isSome_iff_exists.mp some_
      exact .prepare here wanted
    · cases stepped
  | deliver i sent =>
    simp only [step] at stepped
    split at stepped
    · rename_i here
      split at stepped <;> cases stepped
      exact .deliver sent here ‹_›
    · cases stepped
  | exit i =>
    simp only [step] at stepped
    split at stepped
    · rename_i here
      split at stepped <;> cases stepped
      exact .exit here ‹_›
    · cases stepped
  | shutdown =>
    cases stepped
    exact .shutdown

end SignalAgent.Control.ControlPlane
