/- MID: SignalAgent/Control/PlaneReplies
   layer: results
   source: components/edgecontroller/extension.go, components/edgecontroller/query_handler.go,
     components/edgecontroller/config_handler.go
   digest: The connection loop with its goroutines refines the model of commands and replies. -/

import SignalAgent.Control.CommandReplies
import SignalAgent.Control.ReplyStreams
import SignalAgent.Foundations.Simulations

set_option autoImplicit false
set_option relaxedAutoImplicit false

namespace SignalAgent.Control.PlaneReplies

open Foundations.EventLogs Foundations.GuardedRuns Foundations.Interleavings
open Foundations.Simulations
open ControlPlane CommandReplies
open ReplyStreams (Event Handler Observed Stage controlStep nextStage)

/-- The commands of the reply model; the others have no part in it. -/
def kindOf : Body → Option ReplyStreams.Command
  | .queryRequest => some .queryRequest
  | .updateConfig => some .updateConfig
  | .demandSet => some .demandSet
  | .getStatus => some .getStatus
  | .pong | .ack | .getDiagnosis | .getConfig | .unknown => none

/-- A goroutine that found no stream has nothing left to send. -/
def stageOf : Progress → Stage
  | .running => .working
  | .sending (some stream) _ => .sending stream
  | .sending none _ | .done => .done

/-- A goroutine started under stream `k` has brought command `n` so far. -/
def Handling (workers : List Worker) (n k : Nat) (p : Progress) : Prop :=
  ∃ x ∈ workers, x.job = .command n ∧ x.stream = k ∧ x.progress = p

/-- The handler at place `h` is that of command `n`, in this stage. -/
def Holds (numbers : List Nat) (commands : List Command) (handlers : List Handler) (h n : Nat)
    (stage : Stage) : Prop :=
  numbers[h]? = some n ∧ ∃ c kind, commands[n]? = some c ∧ kindOf c.body = some kind ∧
    handlers[h]? = some ⟨kind, c.id, stage⟩

/-- The two models are in step; `numbers` are the commands of the handlers, in order. -/
structure Mirrors (numbers : List Nat) (w : World) (s : Observed) : Prop where
  stream : s.state.stream = w.stream
  opened : s.state.opened = w.opened
  inline : ∀ h, s.state.inline = some h ↔
    ∃ k n, w.phase = .handling k n ∧ numbers[h]? = some n
  size : s.state.handlers.length = numbers.length
  distinct : numbers.Nodup
  placed : ∀ h n, numbers[h]? = some n →
    ∃ stage, Holds numbers w.commands s.state.handlers h n stage
  working : ∀ h n, Holds numbers w.commands s.state.handlers h n .working →
    (∃ k, w.phase = .handling k n) ∨ ∃ k, Handling w.workers n k .running
  goroutine : ∀ n k p, Handling w.workers n k p →
    ∃ h, Holds numbers w.commands s.state.handlers h n (stageOf p)
  receiver : ∀ k n h, w.phase = .handling k n → numbers[h]? = some n →
    Holds numbers w.commands s.state.handlers h n .working
  replied : ∀ e ∈ w.log, ∀ h n, e.origin = .command n → numbers[h]? = some n →
    .replied h e.stream e.id ∈ s.log
  received : ∀ h k id, .received h k id ∈ s.log → h < numbers.length ∧
    ∀ n k' p, numbers[h]? = some n → Handling w.workers n k' p → k' = k

section Kinds

variable {c : Command} {kind : ReplyStreams.Command}

private theorem repliesTo_eq (known : kindOf c.body = some kind) :
    kind.repliesTo c.id = c.answer.isSome := by
  obtain ⟨body, id⟩ := c
  cases body <;> cases known <;>
    by_cases none_ : id = 0 <;>
      simp [ReplyStreams.Command.repliesTo, Command.answer, Body.answer, none_]

private theorem async_eq (known : kindOf c.body = some kind) : kind.async = c.body.async := by
  obtain ⟨body, id⟩ := c
  cases body <;> cases known <;> rfl

private theorem exists_kind (async : c.body.async = true) : ∃ kind, kindOf c.body = some kind := by
  obtain ⟨body, id⟩ := c
  cases body <;> first | exact ⟨_, rfl⟩ | cases async

end Kinds

section Goroutines

variable {workers : List Worker} {i n m k : Nat} {p : Progress} {old new : Worker}

private theorem mem_handlers (handling : Handling workers n k p) : n ∈ handlers workers := by
  obtain ⟨x, member, job, -⟩ := handling
  exact List.mem_filterMap.mpr ⟨x, member, by simp [Worker.handles, job]⟩

private theorem handling_of_getElem? (here : workers[i]? = some old)
    (job : old.job = .command n) : Handling workers n old.stream old.progress :=
  ⟨old, List.mem_of_getElem? here, job, rfl, rfl⟩

private theorem handling_set_other (here : workers[i]? = some old) (same : new.job = old.job)
    (other : old.job ≠ .command m) :
    Handling (workers.set i new) m k p ↔ Handling workers m k p := by
  constructor
  · rintro ⟨x, member, job, rest⟩
    rcases List.mem_or_eq_of_mem_set member with before | rfl
    · exact ⟨x, before, job, rest⟩
    · exact absurd (same.symm.trans job) other
  · rintro ⟨x, member, job, rest⟩
    refine ⟨x, mem_set_of_ne here member ?_, job, rest⟩
    rintro rfl
    exact other job

private theorem handling_set_own (distinct : (handlers workers).Nodup)
    (here : workers[i]? = some old) (was : old.job = .command n)
    (handling : Handling (workers.set i new) n k p) : k = new.stream ∧ p = new.progress := by
  -- A command has one goroutine, so after its move there is only the moved one.
  obtain ⟨x, member, job, rfl, rfl⟩ := handling
  obtain ⟨j, found⟩ := List.mem_iff_getElem?.mp member
  rcases getElem?_set_cases found with ⟨-, rfl⟩ | ⟨apart, before⟩
  · exact ⟨rfl, rfl⟩
  · refine absurd (place_unique_of_nodup (b := n) distinct before here ?_ ?_) apart
    · simp [Worker.handles, job]
    · simp [Worker.handles, was]

private theorem handling_concat_other (other : new.job ≠ .command m) :
    Handling (workers ++ [new]) m k p ↔ Handling workers m k p := by
  constructor
  · rintro ⟨x, member, job, rest⟩
    rcases List.mem_append.mp member with before | added
    · exact ⟨x, before, job, rest⟩
    · obtain rfl := List.mem_singleton.mp added
      exact absurd job other
  · rintro ⟨x, member, rest⟩
    exact ⟨x, List.mem_append_left _ member, rest⟩

private theorem handling_cancelJob (job : Job) (stream : Nat) :
    Handling (cancelJob job stream workers) m k p ↔ Handling workers m k p := by
  constructor
  · rintro ⟨x, member, own, rest⟩
    obtain ⟨y, listed, rfl⟩ := List.mem_map.mp member
    refine ⟨y, listed, ?_⟩
    split at own <;> split at rest <;> exact ⟨own, rest⟩
  · rintro ⟨x, member, own, rest⟩
    refine ⟨_, List.mem_map_of_mem member, ?_⟩
    split <;> exact ⟨own, rest⟩

end Goroutines

section Places

variable {numbers : List Nat} {commands : List Command} {handlers handlers' : List Handler}
  {h h' n m : Nat} {stage stage' : Stage}

private theorem place_eq (distinct : numbers.Nodup) (here : numbers[h]? = some n)
    (there : numbers[h']? = some n) : h = h' :=
  (List.getElem?_inj (List.getElem?_eq_some_iff.mp here).1 distinct).mp (here.trans there.symm)

private theorem Holds.unique (distinct : numbers.Nodup)
    (held : Holds numbers commands handlers h n stage)
    (held' : Holds numbers commands handlers h' n stage') : h = h' ∧ stage = stage' := by
  obtain ⟨here, c, kind, -, -, found⟩ := held
  obtain ⟨here', c', kind', -, -, found'⟩ := held'
  obtain rfl := place_eq distinct here here'
  exact ⟨rfl, (Handler.mk.inj (Option.some.inj (found.symm.trans found'))).2.2⟩

private theorem Holds.grown {commands' : List Command}
    (held : Holds numbers commands handlers h n stage)
    (kept : ∀ (n : Nat) (c : Command), commands[n]? = some c → commands'[n]? = some c) :
    Holds numbers commands' handlers h n stage := by
  obtain ⟨here, c, kind, listed, known, found⟩ := held
  exact ⟨here, c, kind, kept n c listed, known, found⟩

private theorem holds_congr (same : handlers'[h]? = handlers[h]?) :
    Holds numbers commands handlers' h n stage ↔ Holds numbers commands handlers h n stage := by
  unfold Holds
  rw [same]

end Places

section Steps

variable {numbers : List Nat} {w w' : World} {s s' : Observed}

private theorem Mirrors.idle (held : Mirrors numbers w s)
    (quiet : ∀ k n, w.phase = .handling k n → n ∉ numbers) : s.state.inline = none := by
  refine Option.eq_none_iff_forall_ne_some.mpr (fun h found => ?_)
  obtain ⟨k, n, at_, here⟩ := (held.inline h).mp found
  exact quiet k n at_ (List.mem_of_getElem? here)

private theorem Mirrors.lt (held : Mirrors numbers w s) {n : Nat} (member : n ∈ numbers) :
    n < w.commands.length := by
  obtain ⟨h, here⟩ := List.mem_iff_getElem?.mp member
  obtain ⟨-, -, c, -, listed, -⟩ := held.placed h n here
  exact (List.getElem?_eq_some_iff.mp listed).1

private theorem Mirrors.frame (held : Mirrors numbers w s) (stream : s'.state.stream = w'.stream)
    (opened : s'.state.opened = w'.opened) (handlers : s'.state.handlers = s.state.handlers)
    (inline : s'.state.inline = s.state.inline) (events : s'.log = s.log)
    (commands : ∀ (n : Nat) (c : Command), w.commands[n]? = some c → w'.commands[n]? = some c)
    (phase : ∀ n ∈ numbers, ∀ k, w'.phase = .handling k n ↔ w.phase = .handling k n)
    (workers : ∀ n k p, Handling w'.workers n k p ↔ Handling w.workers n k p)
    (log : ∀ e ∈ w'.log, e ∈ w.log ∨ ∀ n ∈ numbers, e.origin ≠ .command n) :
    Mirrors numbers w' s' := by
  have later : ∀ {h n : Nat} {stage : Stage},
      Holds numbers w.commands s.state.handlers h n stage →
        Holds numbers w'.commands s'.state.handlers h n stage := by
    intro h n stage holds
    rw [handlers]
    exact holds.grown commands
  have sooner : ∀ {h n : Nat} {stage : Stage},
      Holds numbers w'.commands s'.state.handlers h n stage →
        Holds numbers w.commands s.state.handlers h n stage := by
    intro h n stage holds
    obtain ⟨stage', before⟩ := held.placed h n holds.1
    obtain ⟨-, rfl⟩ := holds.unique held.distinct (later before)
    exact before
  constructor
  · exact stream
  · exact opened
  · intro h
    rw [inline, held.inline h]
    constructor
    · rintro ⟨k, n, at_, here⟩
      exact ⟨k, n, (phase n (List.mem_of_getElem? here) k).mpr at_, here⟩
    · rintro ⟨k, n, at_, here⟩
      exact ⟨k, n, (phase n (List.mem_of_getElem? here) k).mp at_, here⟩
  · rw [handlers, held.size]
  · exact held.distinct
  · intro h n here
    obtain ⟨stage, holds⟩ := held.placed h n here
    exact ⟨stage, later holds⟩
  · intro h n holds
    refine (held.working h n (sooner holds)).imp ?_ ?_
    · rintro ⟨k, at_⟩
      exact ⟨k, (phase n (List.mem_of_getElem? holds.1) k).mpr at_⟩
    · rintro ⟨k, handling⟩
      exact ⟨k, (workers n k _).mpr handling⟩
  · intro n k p handling
    obtain ⟨h, holds⟩ := held.goroutine n k p ((workers n k p).mp handling)
    exact ⟨h, later holds⟩
  · intro k n h at_ here
    exact later (held.receiver k n h ((phase n (List.mem_of_getElem? here) k).mp at_) here)
  · intro e member h n origin here
    rw [events]
    rcases log e member with before | other
    · exact held.replied e before h n origin here
    · exact absurd origin (other n (List.mem_of_getElem? here))
  · intro h k id member
    rw [events] at member
    obtain ⟨inside, started⟩ := held.received h k id member
    exact ⟨inside, fun n k' p here handling => started n k' p here ((workers n k' p).mp handling)⟩

private theorem Mirrors.stutter (held : Mirrors numbers w s) (stream : w'.stream = w.stream)
    (opened : w'.opened = w.opened)
    (commands : ∀ (n : Nat) (c : Command), w.commands[n]? = some c → w'.commands[n]? = some c)
    (phase : ∀ n ∈ numbers, ∀ k, w'.phase = .handling k n ↔ w.phase = .handling k n)
    (workers : ∀ n k p, Handling w'.workers n k p ↔ Handling w.workers n k p)
    (log : ∀ e ∈ w'.log, e ∈ w.log ∨ ∀ n ∈ numbers, e.origin ≠ .command n) :
    Mirrors numbers w' s :=
  held.frame (held.stream.trans stream.symm) (held.opened.trans opened.symm) rfl rfl rfl commands
    phase workers log

private theorem Mirrors.loop (held : Mirrors numbers w s) {p : Phase}
    {attempts established wg : Nat} {workers : List Worker}
    (left : ∀ k n, w.phase ≠ .handling k n) (idle : ∀ k n, p ≠ .handling k n)
    (same : ∀ n k p, Handling workers n k p ↔ Handling w.workers n k p) :
    Mirrors numbers { w with
      phase := p, attempts := attempts, established := established, wg := wg
      workers := workers } s :=
  held.stutter rfl rfl (fun _ _ => id) (fun n _ k => iff_of_false (idle k n) (left k n)) same
    (fun _ => Or.inl)

private theorem Mirrors.aside (held : Mirrors numbers w s) {i wg : Nat} {old new : Worker}
    {corrSeq : UInt64} {log : List Sent} (here : w.workers[i]? = some old)
    (same : new.job = old.job) (other : ∀ n, old.job ≠ .command n)
    (sent : ∀ e ∈ log, e ∈ w.log ∨ ∀ n, e.origin ≠ .command n) :
    Mirrors numbers { w with
      wg := wg, corrSeq := corrSeq, workers := w.workers.set i new, log := log } s :=
  held.stutter rfl rfl (fun _ _ => id) (fun _ _ _ => Iff.rfl)
    (fun n _ _ => handling_set_other here same (other n))
    (fun e member => (sent e member).imp_right (fun apart n _ => apart n))

private theorem Mirrors.moveHandler (held : Mirrors numbers w s) {h n : Nat} {stage : Stage}
    (now : Holds numbers w.commands s'.state.handlers h n stage) (past : stage ≠ .working)
    (others : ∀ h', h' ≠ h → s'.state.handlers[h']? = s.state.handlers[h']?)
    (size : s'.state.handlers.length = s.state.handlers.length)
    (stream : s'.state.stream = w'.stream) (opened : s'.state.opened = w'.opened)
    (inline : ∀ h, s'.state.inline = some h ↔
      ∃ k n, w'.phase = .handling k n ∧ numbers[h]? = some n)
    (commands : w'.commands = w.commands)
    (phase : ∀ k m, w'.phase = .handling k m ↔ m ≠ n ∧ w.phase = .handling k m)
    (workers : ∀ m k p, m ≠ n → (Handling w'.workers m k p ↔ Handling w.workers m k p))
    (own : ∀ k p, Handling w'.workers n k p → stageOf p = stage ∧ ∃ p₀, Handling w.workers n k p₀)
    (events : s.log ⊆ s'.log)
    (quiet : ∀ h k id, .received h k id ∈ s'.log → .received h k id ∈ s.log)
    (log : ∀ e ∈ w'.log, e ∈ w.log ∨ e.origin = .command n ∧ .replied h e.stream e.id ∈ s'.log) :
    Mirrors numbers w' s' := by
  have place : ∀ {h' m : Nat}, numbers[h']? = some m → m ≠ n → h' ≠ h := by
    rintro h' m here other rfl
    exact other (Option.some.inj (here.symm.trans now.1))
  have elsewhere : ∀ {h' m : Nat} {stage' : Stage}, m ≠ n →
      (Holds numbers w'.commands s'.state.handlers h' m stage' ↔
        Holds numbers w.commands s.state.handlers h' m stage') := by
    intro h' m stage' other
    rw [commands]
    constructor
    · exact fun holds => (holds_congr (others h' (place holds.1 other))).mp holds
    · exact fun holds => (holds_congr (others h' (place holds.1 other))).mpr holds
  rw [← commands] at now
  constructor
  · exact stream
  · exact opened
  · exact inline
  · rw [size, held.size]
  · exact held.distinct
  · intro h' m here
    by_cases same : m = n
    · subst same
      obtain rfl := place_eq held.distinct here now.1
      exact ⟨stage, now⟩
    · obtain ⟨stage', holds⟩ := held.placed h' m here
      exact ⟨stage', (elsewhere same).mpr holds⟩
  · intro h' m holds
    by_cases same : m = n
    · subst same
      exact absurd (holds.unique held.distinct now).2.symm past
    · refine (held.working h' m ((elsewhere same).mp holds)).imp ?_ ?_
      · rintro ⟨k, at_⟩
        exact ⟨k, (phase k m).mpr ⟨same, at_⟩⟩
      · rintro ⟨k, handling⟩
        exact ⟨k, (workers m k _ same).mpr handling⟩
  · intro m k p handling
    by_cases same : m = n
    · subst same
      obtain ⟨rfl, -⟩ := own k p handling
      exact ⟨h, now⟩
    · obtain ⟨h', holds⟩ := held.goroutine m k p ((workers m k p same).mp handling)
      exact ⟨h', (elsewhere same).mpr holds⟩
  · intro k m h' at_ here
    obtain ⟨other, before⟩ := (phase k m).mp at_
    exact (elsewhere other).mpr (held.receiver k m h' before here)
  · intro e member h' m origin here
    rcases log e member with before | ⟨own_, replied⟩
    · exact events (held.replied e before h' m origin here)
    · obtain rfl : m = n := Origin.command.inj (origin.symm.trans own_)
      obtain rfl := place_eq held.distinct here now.1
      exact replied
  · intro h' k id member
    obtain ⟨inside, started⟩ := held.received h' k id (quiet h' k id member)
    refine ⟨inside, fun m k' p here handling => ?_⟩
    by_cases same : m = n
    · subst same
      obtain ⟨-, p₀, before⟩ := own k' p handling
      exact started m k' p₀ here before
    · exact started m k' p here ((workers m k' p same).mp handling)

private theorem Mirrors.receiveCommand (held : Mirrors numbers w s) (answers : Answers w)
    {c : Command} {kind : ReplyStreams.Command} {k : Nat} (known : kindOf c.body = some kind)
    (handlers : s'.state.handlers = s.state.handlers ++ [⟨kind, c.id, .working⟩])
    (events : s'.log = s.log ++ [.received s.state.handlers.length k c.id])
    (stream : s'.state.stream = w'.stream) (opened : s'.state.opened = w'.opened)
    (inline : ∀ h, s'.state.inline = some h ↔
      ∃ k n, w'.phase = .handling k n ∧ (numbers ++ [w.commands.length])[h]? = some n)
    (commands : w'.commands = w.commands ++ [c])
    (idle : ∀ k n, w.phase ≠ .handling k n)
    (phase : ∀ k n, w'.phase = .handling k n → n = w.commands.length)
    (kept : ∀ n k p, Handling w.workers n k p → Handling w'.workers n k p)
    (new : ∀ n k' p, Handling w'.workers n k' p →
      Handling w.workers n k' p ∨ n = w.commands.length ∧ k' = k ∧ p = .running)
    (open_ : (∃ k, w'.phase = .handling k w.commands.length) ∨
      ∃ k, Handling w'.workers w.commands.length k .running)
    (log : w'.log = w.log) : Mirrors (numbers ++ [w.commands.length]) w' s' := by
  have fresh : w.commands.length ∉ numbers := fun member => Nat.lt_irrefl _ (held.lt member)
  have later : ∀ {h n : Nat} {stage : Stage},
      Holds numbers w.commands s.state.handlers h n stage →
        Holds (numbers ++ [w.commands.length]) w'.commands s'.state.handlers h n stage := by
    rintro h n stage ⟨here, c', kind', listed, known', found⟩
    rw [commands, handlers]
    exact ⟨getElem?_concat_of_some here, c', kind', getElem?_concat_of_some listed, known',
      getElem?_concat_of_some found⟩
  have last : Holds (numbers ++ [w.commands.length]) w'.commands s'.state.handlers numbers.length
      w.commands.length .working := by
    rw [commands, handlers]
    refine ⟨List.getElem?_concat_length .., c, kind, List.getElem?_concat_length .., known, ?_⟩
    rw [← held.size]
    exact List.getElem?_concat_length ..
  have distinct : (numbers ++ [w.commands.length]).Nodup := by
    refine List.nodup_append.mpr ⟨held.distinct, List.pairwise_singleton .., ?_⟩
    rintro n old m new rfl
    exact fresh (List.mem_singleton.mp new ▸ old)
  have before : ∀ {n k p}, Handling w.workers n k p → n < w.commands.length :=
    fun handling => answers.known _ (mem_handlers handling)
  constructor
  · exact stream
  · exact opened
  · exact inline
  · rw [handlers, List.length_append, List.length_append, held.size]
    rfl
  · exact distinct
  · intro h n here
    rcases getElem?_concat_cases here with ⟨rfl, rfl⟩ | old
    · exact ⟨_, last⟩
    · obtain ⟨stage, holds⟩ := held.placed h n old
      exact ⟨stage, later holds⟩
  · intro h n holds
    rcases getElem?_concat_cases holds.1 with ⟨rfl, rfl⟩ | old
    · exact open_
    · obtain ⟨stage, earlier⟩ := held.placed h n old
      obtain ⟨-, rfl⟩ := holds.unique distinct (later earlier)
      rcases held.working h n earlier with ⟨k, at_⟩ | ⟨k, handling⟩
      · exact absurd at_ (idle k n)
      · exact Or.inr ⟨k, kept n k _ handling⟩
  · intro n k' p handling
    rcases new n k' p handling with old | ⟨rfl, -, rfl⟩
    · obtain ⟨h, holds⟩ := held.goroutine n k' p old
      exact ⟨h, later holds⟩
    · exact ⟨_, last⟩
  · intro k' n h at_ here
    obtain rfl := phase k' n at_
    obtain rfl := place_eq distinct here last.1
    exact last
  · intro e member h n origin here
    rw [log] at member
    rw [events]
    rcases getElem?_concat_cases here with ⟨rfl, rfl⟩ | old
    · exact absurd (answers.past e member _ origin) (Nat.lt_irrefl _)
    · exact List.mem_append_left _ (held.replied e member h n origin old)
  · intro h k' id member
    rw [events] at member
    rw [List.length_append]
    rcases List.mem_append.mp member with old | added
    · obtain ⟨inside, started⟩ := held.received h k' id old
      refine ⟨Nat.lt_succ_of_lt inside, fun n k'' p here handling => ?_⟩
      rw [List.getElem?_append_left inside] at here
      rcases new n k'' p handling with earlier | ⟨rfl, -⟩
      · exact started n k'' p here earlier
      · exact absurd (List.mem_of_getElem? here) fresh
    · obtain ⟨rfl, rfl, -⟩ := Event.received.inj (List.mem_singleton.mp added)
      rw [held.size]
      refine ⟨Nat.lt_succ_self _, fun n k'' p here handling => ?_⟩
      obtain rfl : w.commands.length = n :=
        Option.some.inj ((List.getElem?_concat_length ..).symm.trans here)
      rcases new _ k'' p handling with earlier | ⟨-, same, -⟩
      · exact absurd (before earlier) (Nat.lt_irrefl _)
      · exact same

end Steps

section Replies

variable {s : Observed} {h k : Nat} {kind : ReplyStreams.Command} {id : UInt64}

private theorem controlStep_receive (kind : ReplyStreams.Command) (id : UInt64)
    (now : s.state.stream = some k) (idle : s.state.inline = none) :
    controlStep s (.receive kind id) = some
      ⟨{ s.state with
          handlers := s.state.handlers ++ [⟨kind, id, .working⟩]
          inline := if kind.async then none else some s.state.handlers.length },
        s.log ++ [.received s.state.handlers.length k id]⟩ := by
  simp [controlStep, logStep, ReplyStreams.step, ReplyStreams.streamEvent, now, idle]

private theorem controlStep_finish (here : s.state.handlers[h]? = some ⟨kind, id, .working⟩) :
    controlStep s (.finish h) = some
      ⟨s.state.move h ⟨kind, id, nextStage s.state ⟨kind, id, .working⟩⟩, s.log⟩ := by
  simp [controlStep, logStep, ReplyStreams.step, ReplyStreams.streamEvent, here]

private theorem controlStep_send (here : s.state.handlers[h]? = some ⟨kind, id, .sending k⟩) :
    controlStep s (.send h) = some
      ⟨s.state.move h ⟨kind, id, .done⟩, s.log ++ [.replied h k id]⟩ := by
  simp [controlStep, logStep, ReplyStreams.step, ReplyStreams.streamEvent, here]

private theorem nextStage_of_replies (replies : kind.repliesTo id = true) (sendId : UInt64) :
    nextStage s.state ⟨kind, id, .working⟩ = stageOf (.sending s.state.stream sendId) := by
  unfold nextStage
  cases s.state.stream with
  | none => rfl
  | some stream => exact if_pos replies

private theorem nextStage_of_silent (silent : kind.repliesTo id = false) :
    nextStage s.state ⟨kind, id, .working⟩ = .done := by
  unfold nextStage
  cases s.state.stream with
  | none => rfl
  | some stream => exact if_neg (Bool.eq_false_iff.mp silent)

end Replies

section Moves

variable {numbers : List Nat} {w w' : World} {s s' : Observed}
  {G : Observed → ReplyStreams.Action → Prop}

/-- The reply model can go on from `s` to a state that mirrors `w`. -/
def Mirrored (G : Observed → ReplyStreams.Action → Prop) (s : Observed) (w : World) : Prop :=
  ∃ acts s', Run controlStep G s acts s' ∧ ∃ numbers, Mirrors numbers w s'

private theorem Mirrored.stay (held : Mirrors numbers w s) : Mirrored G s w :=
  ⟨[], s, .refl, numbers, held⟩

private theorem Mirrored.step {b : ReplyStreams.Action} (guard : G s b)
    (stepped : controlStep s b = some s') (held : Mirrors numbers w s') : Mirrored G s w :=
  ⟨[b], s', Run.tail .refl guard stepped, numbers, held⟩

private theorem Mirrors.stream_at (held : Mirrors numbers w s) (follows : StreamLoops.Follows w)
    {p : Phase} (at_ : w.phase = p) : s.state.stream = StreamLoops.heldStream p := by
  rw [held.stream, follows.stream, at_]

private theorem Mirrors.inline_ne (held : Mirrors numbers w s) (answers : Answers w)
    {h n k : Nat} {p : Progress} (handling : Handling w.workers n k p)
    (here : numbers[h]? = some n) : s.state.inline ≠ some h := by
  intro found
  obtain ⟨k', m, at_, there⟩ := (held.inline h).mp found
  obtain rfl := Option.some.inj (here.symm.trans there)
  exact (answers.inline k' n at_).2 (mem_handlers handling)

private theorem Mirrors.work (held : Mirrors numbers w s) (answers : Answers w) {i h n k wg : Nat}
    {cancelled : Bool} {before after : Progress} {corrSeq : UInt64} {log : List Sent}
    (here : w.workers[i]? = some ⟨.command n, k, cancelled, before⟩)
    (now : Holds numbers w.commands s'.state.handlers h n (stageOf after))
    (past : stageOf after ≠ .working)
    (others : ∀ h', h' ≠ h → s'.state.handlers[h']? = s.state.handlers[h']?)
    (size : s'.state.handlers.length = s.state.handlers.length)
    (stream : s'.state.stream = s.state.stream) (opened : s'.state.opened = s.state.opened)
    (inline : s'.state.inline = s.state.inline) (events : s.log ⊆ s'.log)
    (quiet : ∀ h k id, .received h k id ∈ s'.log → .received h k id ∈ s.log)
    (sent : ∀ e ∈ log, e ∈ w.log ∨ e.origin = .command n ∧ .replied h e.stream e.id ∈ s'.log) :
    Mirrors numbers { w with
      wg := wg, corrSeq := corrSeq, log := log
      workers := w.workers.set i ⟨.command n, k, cancelled, after⟩ } s' := by
  have handling := handling_of_getElem? here rfl
  refine held.moveHandler now past others size (stream.trans held.stream)
    (opened.trans held.opened) (fun h' => inline ▸ held.inline h') rfl ?_ ?_ ?_ events quiet sent
  · intro k' m
    refine ⟨fun at_ => ⟨?_, at_⟩, And.right⟩
    rintro rfl
    exact (answers.inline k' m at_).2 (mem_handlers handling)
  · intro m k' p other
    exact handling_set_other here rfl (fun same => other (Job.command.inj same).symm)
  · intro k' p moved
    obtain ⟨rfl, rfl⟩ := handling_set_own answers.distinct here rfl moved
    exact ⟨rfl, before, handling⟩

private theorem Mirrors.move (held : Mirrors numbers w s) (answers : Answers w) {i h n k wg : Nat}
    {cancelled : Bool} {before after : Progress} {stage : Stage} {corrSeq : UInt64}
    {log : List Sent} {c : Command} {kind : ReplyStreams.Command} {more : List Event}
    (here : w.workers[i]? = some ⟨.command n, k, cancelled, before⟩)
    (place : numbers[h]? = some n) (listed : w.commands[n]? = some c)
    (known : kindOf c.body = some kind)
    (was : s.state.handlers[h]? = some ⟨kind, c.id, stage⟩) (past : stageOf after ≠ .working)
    (quiet : ∀ h k id, .received h k id ∉ more)
    (sent : ∀ e ∈ log, e ∈ w.log ∨
      e.origin = .command n ∧ .replied h e.stream e.id ∈ s.log ++ more) :
    Mirrors numbers { w with
      wg := wg, corrSeq := corrSeq, log := log
      workers := w.workers.set i ⟨.command n, k, cancelled, after⟩ }
      ⟨s.state.move h ⟨kind, c.id, stageOf after⟩, s.log ++ more⟩ := by
  have apart := held.inline_ne answers (handling_of_getElem? here rfl) place
  refine held.work answers here ⟨place, c, kind, listed, known, getElem?_set_here was⟩ past
    (fun h' other => List.getElem?_set_ne (Ne.symm other)) List.length_set rfl rfl ?_
    (List.subset_append_left _ _) ?_ sent
  · exact if_neg (fun done => apart done.2)
  · intro h' k' id member
    exact (List.mem_append.mp member).resolve_right (quiet h' k' id)

private theorem Mirrors.finish (held : Mirrors numbers w s) (answers : Answers w)
    (free : ∀ s b, b ≠ .connect → G s b) {i n k wg : Nat} {cancelled : Bool} {after : Progress}
    {corrSeq : UInt64} (here : w.workers[i]? = some ⟨.command n, k, cancelled, .running⟩)
    (next : ∀ c kind, w.commands[n]? = some c → kindOf c.body = some kind →
      nextStage s.state ⟨kind, c.id, .working⟩ = stageOf after)
    (past : stageOf after ≠ .working) :
    Mirrored G s { w with
      wg := wg, corrSeq := corrSeq
      workers := w.workers.set i ⟨.command n, k, cancelled, after⟩ } := by
  obtain ⟨h, place, c, kind, listed, known, was⟩ :=
    held.goroutine n k .running (handling_of_getElem? here rfl)
  have stepped := controlStep_finish was
  rw [next c kind listed known, ← List.append_nil s.log] at stepped
  exact .step (free s (.finish h) (by simp)) stepped
    (held.move answers here place listed known was past (fun _ _ _ => List.not_mem_nil)
      (fun _ member => Or.inl member))

private theorem Mirrors.prepare (held : Mirrors numbers w s) (answers : Answers w)
    (free : ∀ s b, b ≠ .connect → G s b) {i n k : Nat} {cancelled : Bool} {body : AgentBody}
    {id corrSeq : UInt64} (here : w.workers[i]? = some ⟨.command n, k, cancelled, .running⟩)
    (wanted : Job.body w.commands (.command n) = some body) :
    Mirrored G s { w with
      corrSeq := corrSeq
      workers := w.workers.set i ⟨.command n, k, cancelled, .sending w.stream id⟩ } := by
  refine held.finish answers free here ?_ ?_
  · intro c kind listed known
    have answer : c.answer = some body := by simpa [Job.body, listed] using wanted
    rw [← held.stream]
    exact nextStage_of_replies (by rw [repliesTo_eq known, answer]; rfl) id
  · cases w.stream <;> simp [stageOf]

private theorem Mirrors.exit (held : Mirrors numbers w s) (answers : Answers w)
    (free : ∀ s b, b ≠ .connect → G s b) {i n k wg : Nat} {cancelled : Bool}
    (here : w.workers[i]? = some ⟨.command n, k, cancelled, .running⟩)
    (may : mayExit w ⟨.command n, k, cancelled, .running⟩ = true) :
    Mirrored G s { w with
      wg := wg
      workers := w.workers.set i ⟨.command n, k, cancelled, .done⟩ } := by
  refine held.finish answers free here ?_ (by simp [stageOf])
  intro c kind listed known
  have answer : c.answer = none := by simpa [mayExit, listed] using may
  exact nextStage_of_silent (by rw [repliesTo_eq known, answer]; rfl)

private theorem Mirrors.deliver (held : Mirrors numbers w s) (answers : Answers w)
    (free : ∀ s b, b ≠ .connect → G s b) {i n k wg : Nat} {cancelled sent : Bool}
    {target : Option Nat} {id : UInt64} {body : AgentBody}
    (here : w.workers[i]? = some ⟨.command n, k, cancelled, .sending target id⟩) :
    Mirrored G s { w with
      wg := wg
      workers := w.workers.set i ⟨.command n, k, cancelled, .done⟩
      log := w.log ++ post target sent body id (.command n) } := by
  obtain ⟨h, place, c, kind, listed, known, was⟩ :=
    held.goroutine n k (.sending target id) (handling_of_getElem? here rfl)
  obtain ⟨c', listed', rfl⟩ :=
    answers.named _ (List.mem_of_getElem? here) n target id rfl rfl
  obtain rfl := Option.some.inj (listed.symm.trans listed')
  cases target with
  | none =>
    refine .stay (held.work answers here ⟨place, c, kind, listed, known, was⟩ (by simp [stageOf])
      (fun _ _ => rfl) rfl rfl rfl rfl (List.Subset.refl _) (fun _ _ _ => id) ?_)
    intro e member
    rw [post, List.append_nil] at member
    exact Or.inl member
  | some stream =>
    refine .step (free s (.send h) (by simp)) (controlStep_send was)
      (held.move answers here place listed known was (by simp [stageOf]) (by simp) ?_)
    intro e member
    refine (List.mem_append.mp member).imp_right (fun new => ?_)
    obtain ⟨read, same⟩ := mem_post new
    obtain rfl := Option.some.inj read
    rw [same]
    exact ⟨rfl, List.mem_append_right _ List.mem_cons_self⟩

private theorem exists_run_settle (free : ∀ s b, b ≠ .connect → G s b) {h : Nat} {id : UInt64}
    {kind : ReplyStreams.Command} (was : s.state.handlers[h]? = some ⟨kind, id, .working⟩)
    (inline : s.state.inline = some h) :
    ∃ acts more, Run controlStep G s acts
        ⟨{ s.state with handlers := s.state.handlers.set h ⟨kind, id, .done⟩, inline := none },
          s.log ++ more⟩ ∧
      (∀ h k id, .received h k id ∉ more) ∧
      ∀ stream, s.state.stream = some stream → kind.repliesTo id = true →
        .replied h stream id ∈ more := by
  have finished := controlStep_finish was
  by_cases answered : s.state.stream.isSome ∧ kind.repliesTo id = true
  · obtain ⟨stream, now⟩ := Option.isSome_iff_exists.mp answered.1
    rw [nextStage_of_replies answered.2 id, now] at finished
    have sent := controlStep_send (s := ⟨s.state.move h ⟨kind, id, .sending stream⟩, s.log⟩)
      (getElem?_set_here was)
    have run := Run.tail (Run.tail .refl (free _ (.finish h) nofun) finished)
      (free _ (.send h) nofun) sent
    refine ⟨[.finish h, .send h], [.replied h stream id], ?_, by simp, fun stream' now' _ => ?_⟩
    · simpa [ReplyStreams.World.move, inline] using run
    · obtain rfl := Option.some.inj (now.symm.trans now')
      exact List.mem_cons_self
  · have next : nextStage s.state ⟨kind, id, .working⟩ = .done := by
      unfold nextStage
      split
      · rename_i stream now
        exact if_neg (fun wanted => answered ⟨by rw [now]; rfl, wanted⟩)
      · rfl
    rw [next] at finished
    have run := Run.tail .refl (free _ (.finish h) nofun) finished
    refine ⟨[.finish h], [], ?_, by simp, fun stream now wanted => ?_⟩
    · simpa [ReplyStreams.World.move, inline] using run
    · exact absurd ⟨by rw [now]; rfl, wanted⟩ answered

private theorem Mirrors.handledCommand (held : Mirrors numbers w s) (answers : Answers w)
    (free : ∀ s b, b ≠ .connect → G s b) {h k n : Nat} (at_ : w.phase = .handling k n)
    (place : numbers[h]? = some n) {log : List Sent}
    (sent : ∀ e ∈ log, e ∈ w.log ∨ e.origin = .command n ∧ w.stream = some e.stream ∧
      ∃ c, w.commands[n]? = some c ∧ c.answer.isSome = true ∧ e.id = c.id) :
    Mirrored G s { w with phase := .receiving k, log := log } := by
  obtain ⟨-, c, kind, listed, known, was⟩ := held.receiver k n h at_ place
  obtain ⟨acts, more, run, quiet, replied⟩ :=
    exists_run_settle free was ((held.inline h).mpr ⟨k, n, at_, place⟩)
  refine ⟨acts, _, run, numbers, held.moveHandler (h := h) (n := n)
    ⟨place, c, kind, listed, known, getElem?_set_here was⟩ nofun
    (fun h' other => List.getElem?_set_ne (Ne.symm other)) List.length_set held.stream held.opened
    ?_ rfl ?_ (fun _ _ _ _ => Iff.rfl) ?_ (List.subset_append_left _ _) ?_ ?_⟩
  · intro h'
    exact ⟨nofun, fun ⟨_, _, moved, _⟩ => nomatch moved⟩
  · intro k' m
    refine ⟨nofun, fun ⟨other, before⟩ => ?_⟩
    exact absurd (Phase.handling.inj (at_.symm.trans before)).2.symm other
  · intro k' p handling
    exact absurd (mem_handlers handling) (answers.inline k n at_).2
  · intro h' k' id member
    exact (List.mem_append.mp member).resolve_right (quiet h' k' id)
  · intro e member
    refine (sent e member).imp_right (fun ⟨origin, read, c', listed', wanted, id⟩ => ?_)
    obtain rfl := Option.some.inj (listed.symm.trans listed')
    rw [id]
    exact ⟨origin, List.mem_append_right _
      (replied _ (held.stream.trans read) ((repliesTo_eq known).trans wanted))⟩

private theorem mem_handled {n : Nat} {sent : Bool} {e : Sent}
    (member : e ∈ match w.commands[n]? with
      | some c =>
        match c.answer with
        | some body => post w.stream sent body c.id (.command n)
        | none => []
      | none => []) :
    e.origin = .command n ∧ w.stream = some e.stream ∧
      ∃ c, w.commands[n]? = some c ∧ c.answer.isSome = true ∧ e.id = c.id := by
  split at member
  · rename_i c listed
    split at member
    · rename_i body answer
      obtain ⟨read, same⟩ := mem_post member
      rw [same]
      exact ⟨rfl, read, c, listed, by rw [answer]; rfl, rfl⟩
    · cases member
  · cases member

private theorem Mirrors.handled (held : Mirrors numbers w s) (answers : Answers w)
    (free : ∀ s b, b ≠ .connect → G s b) {k n : Nat} {sent : Bool}
    (at_ : w.phase = .handling k n) :
    Mirrored G s { w with
      phase := .receiving k
      log := w.log ++ match w.commands[n]? with
        | some c =>
          match c.answer with
          | some body => post w.stream sent body c.id (.command n)
          | none => []
        | none => [] } := by
  by_cases member : n ∈ numbers
  · obtain ⟨h, place⟩ := List.mem_iff_getElem?.mp member
    exact held.handledCommand answers free at_ place
      (fun e added => (List.mem_append.mp added).imp_right mem_handled)
  · refine .stay (held.stutter rfl rfl (fun _ _ => id) ?_ (fun _ _ _ => Iff.rfl) ?_)
    · intro m listed k'
      have other : n ≠ m := fun same => member (same ▸ listed)
      simp [at_, other]
    · intro e added
      refine (List.mem_append.mp added).imp_right (fun new m listed origin => ?_)
      obtain rfl := Origin.command.inj ((mem_handled new).1.symm.trans origin)
      exact member listed

private theorem Mirrors.connect (held : Mirrors numbers w s) (follows : StreamLoops.Follows w)
    (opens : G s .connect) (at_ : w.phase = .dialing) :
    Mirrored G s { w with
      phase := .opened w.opened, stream := some w.opened, opened := w.opened + 1 } := by
  have none_ : s.state.stream = none := held.stream_at follows at_
  have connected : controlStep s .connect = some
      ⟨{ s.state with stream := some s.state.opened, opened := s.state.opened + 1 }, s.log⟩ := by
    simp [controlStep, logStep, ReplyStreams.step, ReplyStreams.streamEvent, none_]
  exact .step opens connected
    (held.frame (by rw [held.opened]) (by rw [held.opened]) rfl rfl rfl (fun _ _ => id)
      (by simp [at_]) (fun _ _ _ => Iff.rfl) (fun _ => Or.inl))

private theorem Mirrors.disconnect (held : Mirrors numbers w s) (follows : StreamLoops.Follows w)
    (free : ∀ s b, b ≠ .connect → G s b) {k : Nat} (at_ : w.phase = .leaving k) :
    Mirrored G s { w with phase := .pausing, stream := none } := by
  have now : s.state.stream = some k := held.stream_at follows at_
  have cleared : controlStep s .disconnect = some ⟨{ s.state with stream := none }, s.log⟩ := by
    simp [controlStep, logStep, ReplyStreams.step, ReplyStreams.streamEvent, now,
      held.idle (by simp [at_])]
  exact .step (free s .disconnect (by simp)) cleared
    (held.frame rfl held.opened rfl rfl rfl (fun _ _ => id) (by simp [at_])
      (fun _ _ _ => Iff.rfl) (fun _ => Or.inl))

private theorem Mirrors.receive (held : Mirrors numbers w s) (follows : StreamLoops.Follows w)
    (free : ∀ s b, b ≠ .connect → G s b) {c : Command} {kind : ReplyStreams.Command} {k : Nat}
    (known : kindOf c.body = some kind) (at_ : w.phase = .receiving k)
    (mirrors : Mirrors (numbers ++ [w.commands.length]) w'
      ⟨{ s.state with
          handlers := s.state.handlers ++ [⟨kind, c.id, .working⟩]
          inline := if c.body.async then none else some s.state.handlers.length },
        s.log ++ [.received s.state.handlers.length k c.id]⟩) : Mirrored G s w' := by
  rw [← async_eq known] at mirrors
  exact .step (free s (.receive kind c.id) (by simp))
    (controlStep_receive kind c.id (held.stream_at follows at_) (held.idle (by simp [at_]))) mirrors

private theorem Mirrors.spawn (held : Mirrors numbers w s) (answers : Answers w)
    (follows : StreamLoops.Follows w) (free : ∀ s b, b ≠ .connect → G s b) {c : Command}
    {k wg : Nat} (at_ : w.phase = .receiving k) (async : c.body.async = true) :
    Mirrored G s { w with
      wg := wg
      commands := w.commands ++ [c]
      workers := w.workers ++ [⟨.command w.commands.length, k, false, .running⟩] } := by
  obtain ⟨kind, known⟩ := exists_kind async
  refine held.receive follows free known at_ ?_
  refine held.receiveCommand answers known rfl rfl held.stream held.opened ?_ rfl (by simp [at_])
    (by simp [at_]) ?_ ?_ (Or.inr ⟨k, _, List.mem_append_right _ List.mem_cons_self, rfl, rfl,
      rfl⟩) rfl
  · simp [async, at_]
  · rintro n k' p ⟨x, member, rest⟩
    exact ⟨x, List.mem_append_left _ member, rest⟩
  · rintro n k' p ⟨x, member, job, rfl, rfl⟩
    rcases List.mem_append.mp member with old | new
    · exact Or.inl ⟨x, old, job, rfl, rfl⟩
    · obtain rfl := List.mem_singleton.mp new
      exact Or.inr ⟨(Job.command.inj job).symm, rfl, rfl⟩

private theorem Mirrors.handle (held : Mirrors numbers w s) (answers : Answers w)
    (follows : StreamLoops.Follows w) (free : ∀ s b, b ≠ .connect → G s b) {c : Command} {k : Nat}
    (at_ : w.phase = .receiving k) (inline : c.body.async = false) :
    Mirrored G s { w with
      phase := .handling k w.commands.length
      commands := w.commands ++ [c] } := by
  have fresh : ∀ n ∈ numbers, n ≠ w.commands.length :=
    fun n member => Nat.ne_of_lt (held.lt member)
  cases known : kindOf c.body with
  | none =>
    refine .stay (held.stutter rfl rfl (fun _ _ => getElem?_concat_of_some) ?_
      (fun _ _ _ => Iff.rfl) (fun _ => Or.inl))
    intro n member k'
    simp [at_, (fresh n member).symm]
  | some kind =>
    refine held.receive follows free known at_ ?_
    refine held.receiveCommand answers known rfl rfl held.stream held.opened ?_ rfl (by simp [at_])
      (by simp) (fun _ _ _ => id) (fun _ _ _ => Or.inl) (Or.inl ⟨k, rfl⟩) rfl
    intro h
    simp only [inline, Bool.false_eq_true, if_false, Option.some.injEq, Phase.handling.injEq]
    constructor
    · rintro rfl
      exact ⟨k, _, ⟨rfl, rfl⟩, held.size ▸ List.getElem?_concat_length ..⟩
    · rintro ⟨_, _, ⟨-, rfl⟩, here⟩
      rcases getElem?_concat_cases here with ⟨rfl, -⟩ | old
      · exact held.size
      · exact absurd rfl (fresh _ (List.mem_of_getElem? old))

end Moves

section Refinement

variable {numbers : List Nat} {w w' : World} {s : Observed} {a : Action}
  {G : Observed → ReplyStreams.Action → Prop}

/-- Each step of the control plane is some steps of the reply model, a new stream for a new
stream and none else. -/
private theorem mirrors_step (free : ∀ s b, b ≠ .connect → G s b) (held : Mirrors numbers w s)
    (answers : Answers w) (follows : StreamLoops.Follows w)
    (opens : a = .openStream → G s .connect) (stepped : step w a = some w') :
    Mirrored G s w' := by
  cases effect_of_step stepped with
  | quit cancelled idle =>
    refine .stay (held.loop ?_ (by simp) (fun _ _ _ => Iff.rfl))
    rcases idle with at_ | at_ <;> simp [at_]
  | dial live at_ => exact .stay (held.loop (by simp [at_]) (by simp) (fun _ _ _ => Iff.rfl))
  | dialFails at_ => exact .stay (held.loop (by simp [at_]) (by simp) (fun _ _ _ => Iff.rfl))
  | openStream at_ => exact held.connect follows (opens rfl) at_
  | record at_ => exact .stay (held.loop (by simp [at_]) (by simp) (fun _ _ _ => Iff.rfl))
  | hello sent at_ =>
    refine .stay (held.stutter rfl rfl (fun _ _ => id) ?_ (fun _ _ _ => Iff.rfl) ?_)
    · cases sent <;> simp [at_]
    · intro e member
      refine (List.mem_append.mp member).imp_right (fun new n _ => ?_)
      rw [(mem_post new).2]
      simp
  | startPing at_ | startProcessor at_ =>
    exact .stay (held.loop (by simp [at_]) (by simp)
      (fun _ _ _ => handling_concat_other (by simp)))
  | spawn at_ async => exact held.spawn answers follows free at_ async
  | handle at_ inline => exact held.handle answers follows free at_ inline
  | handled sent at_ => exact held.handled answers free at_
  | recvFails at_ => exact .stay (held.loop (by simp [at_]) (by simp) (fun _ _ _ => Iff.rfl))
  | cancelPing at_ | cancelProcessor at_ =>
    exact .stay (held.loop (by simp [at_]) (by simp) (fun _ _ _ => handling_cancelJob _ _))
  | clear at_ => exact held.disconnect follows free at_
  | wake at_ => exact .stay (held.loop (by simp [at_]) (by simp) (fun _ _ _ => Iff.rfl))
  | @prepare i k job cancelled body here wanted =>
    cases job with
    | ping | processor => exact .stay (held.aside here rfl (by simp) (fun _ => Or.inl))
    | command n => exact held.prepare answers free here wanted
  | @deliver i k job cancelled target sendId body sent here wanted =>
    cases job with
    | ping | processor =>
      refine .stay (held.aside here rfl (by simp) ?_)
      intro e member
      refine (List.mem_append.mp member).imp_right (fun new n => ?_)
      rw [(mem_post new).2]
      simp [Job.origin]
    | command n => exact held.deliver answers free here
  | @exit i k job cancelled here may =>
    cases job with
    | ping | processor => exact .stay (held.aside here rfl (by simp) (fun _ => Or.inl))
    | command n => exact held.exit answers free here may
  | shutdown =>
    exact .stay (held.stutter rfl rfl (fun _ _ => id) (fun _ _ _ => Iff.rfl)
      (fun _ _ _ => Iff.rfl) (fun _ => Or.inl))

private theorem mirrors_initial :
    Mirrors [] World.initial ⟨ReplyStreams.World.initial, []⟩ where
  stream := rfl
  opened := rfl
  inline _ := ⟨nofun, fun ⟨_, _, at_, _⟩ => nomatch at_⟩
  size := rfl
  distinct := List.nodup_nil
  placed _ _ here := nomatch here
  working _ _ holds := nomatch holds.1
  goroutine _ _ _ handling := nomatch handling
  receiver _ _ _ at_ := nomatch at_
  replied _ member := nomatch member
  received _ _ _ member := nomatch member

theorem exists_mirrored_run {ok : World → Action → Prop}
    (free : ∀ s b, b ≠ .connect → G s b)
    (opens : ∀ {numbers : List Nat} {w : World} {s : Observed}, Mirrors numbers w s →
      w.phase = .dialing → ok w .openStream → G s .connect)
    {acts : List Action} (run : Run step ok World.initial acts w) :
    ∃ acts' s, Run controlStep G ⟨ReplyStreams.World.initial, []⟩ acts' s ∧
      ∃ numbers, Mirrors numbers w s := by
  refine exists_run_of_simulation (fun w s => ∃ numbers, Mirrors numbers w s)
    ⟨[], mirrors_initial⟩ ?_ run
  rintro past w w' a s before ⟨numbers, held⟩ guard stepped
  refine mirrors_step free held (answers_of_run before) (StreamLoops.follows_of_run before) ?_
    stepped
  rintro rfl
  cases effect_of_step stepped with
  | openStream at_ => exact opens held at_ guard

end Refinement

/-- Every run of the connection loop with its goroutines is a run of the reply model, in which
each answer of the four commands is a reply on the same stream under the same id. -/
theorem plane_refines_replies {ok : World → Action → Prop} {acts : List Action} {w : World}
    (run : Run step ok World.initial acts w) :
    ∃ acts' s, Run controlStep (fun _ _ => True) ⟨ReplyStreams.World.initial, []⟩ acts' s ∧
      ∃ numbers, Mirrors numbers w s :=
  exists_mirrored_run (fun _ _ _ => trivial) (fun _ _ _ => trivial) run

/-- No stream is opened while a goroutine still has to answer its command. -/
def AnsweredFirst (w : World) : Action → Prop
  | .openStream => ∀ (n k : Nat) (c : Command), w.commands[n]? = some c →
      c.answer.isSome = true → ¬ Handling w.workers n k .running
  | _ => True

private theorem answeredFirst_of_mirrors {numbers : List Nat} {w : World} {s : Observed}
    (held : Mirrors numbers w s) (at_ : w.phase = .dialing)
    (guard : AnsweredFirst w .openStream) : ReplyStreams.AnsweredFirst s.state .connect := by
  intro x member
  obtain ⟨h, found⟩ := List.mem_iff_getElem?.mp member
  have inside : h < numbers.length := held.size ▸ (List.getElem?_eq_some_iff.mp found).1
  obtain ⟨stage, place, c, kind, listed, known, was⟩ :=
    held.placed h _ (List.getElem?_eq_getElem inside)
  obtain rfl := Option.some.inj (was.symm.trans found)
  refine Bool.eq_false_iff.mpr (fun unanswered => ?_)
  obtain ⟨working, replies⟩ := Bool.and_eq_true_iff.mp unanswered
  obtain rfl : stage = .working := of_decide_eq_true working
  rcases held.working h _ ⟨place, c, kind, listed, known, was⟩ with ⟨k, handling⟩ | ⟨k, handling⟩
  · cases at_.symm.trans handling
  · exact guard _ k c listed ((repliesTo_eq known).symm.trans replies) handling

/-- If no stream is opened while a goroutine still has to answer, every answer of a goroutine
goes out on the stream its command came from. -/
theorem answers_stay_on_stream {acts : List Action} {w : World}
    (run : Run step AnsweredFirst World.initial acts w) :
    ∀ e ∈ w.log, ∀ n k p, e.origin = .command n → Handling w.workers n k p → e.stream = k := by
  have free : ∀ (s : Observed) (b : ReplyStreams.Action), b ≠ .connect →
      ReplyStreams.AnsweredFirst s.state b := by
    intro s b other
    cases b with
    | connect => exact absurd rfl other
    | _ => trivial
  obtain ⟨acts', s, replies, numbers, held⟩ :=
    exists_mirrored_run free answeredFirst_of_mirrors run
  have inPlace : Justified ReplyStreams.RepliedInPlace s.log :=
    justified_of_invariant
      (fun s => ReplyStreams.InPlace s.state.stream s.state.handlers s.log)
      ReplyStreams.inPlace_initial ReplyStreams.inPlace_step
      (fun held _ stepped emitted => ReplyStreams.repliedInPlace_of_inPlace held stepped emitted)
      replies
  intro e member n k p origin handling
  obtain ⟨h, place, -⟩ := held.goroutine n k p handling
  obtain ⟨before, after, split⟩ := List.append_of_mem (held.replied e member h n origin place)
  have received : .received h e.stream e.id ∈ before := inPlace before _ after split
  have logged : .received h e.stream e.id ∈ s.log := split ▸ List.mem_append_left _ received
  exact ((held.received h e.stream e.id logged).2 n k p place handling).symm

end SignalAgent.Control.PlaneReplies
