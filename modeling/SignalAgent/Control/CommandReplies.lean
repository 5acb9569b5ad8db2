/- MID: SignalAgent/Control/CommandReplies
   layer: results
   source: components/edgecontroller/extension.go, components/edgecontroller/query_handler.go,
     components/edgecontroller/config_handler.go
   digest: A server command is answered at most once, in its kind and under its own id. -/

import SignalAgent.Control.StreamLoops

set_option autoImplicit false
set_option relaxedAutoImplicit false

namespace SignalAgent.Control.CommandReplies

open Foundations.GuardedRuns Foundations.Interleavings
open ControlPlane

/-- The messages that answer the command at this place. -/
def replies (n : Nat) (log : List Sent) : List Sent := log.filter (fun e => e.origin = .command n)

/-- The command a goroutine handles. -/
def Worker.handles (x : Worker) : Option Nat :=
  match x.job with
  | .command n => some n
  | .ping | .processor => none

def handlers (workers : List Worker) : List Nat := workers.filterMap Worker.handles

/-- The handler of the command has not returned. -/
def InHand (w : World) (n : Nat) : Prop :=
  (∃ k, w.phase = .handling k n) ∨
    ∃ x ∈ w.workers, Worker.handles x = some n ∧ x.progress ≠ .done

/-- The answers a command may have got. -/
def Fits (n : Nat) (c : Command) (log : List Sent) : Prop :=
  (replies n log).length ≤ 1 ∧ ∀ e ∈ replies n log, c.answer = some e.body ∧ e.id = c.id

structure Answers (w : World) : Prop where
  distinct : (handlers w.workers).Nodup
  known : ∀ n ∈ handlers w.workers, n < w.commands.length
  inline : ∀ k n, w.phase = .handling k n →
    n < w.commands.length ∧ n ∉ handlers w.workers
  unanswered : ∀ n, InHand w n → replies n w.log = []
  named : ∀ x ∈ w.workers, ∀ n target id, Worker.handles x = some n →
    x.progress = .sending target id → ∃ c, w.commands[n]? = some c ∧ id = c.id
  past : ∀ e ∈ w.log, ∀ n, e.origin = .command n → n < w.commands.length
  fits : ∀ n c, w.commands[n]? = some c → Fits n c w.log

section Log

variable {log : List Sent} {target : Option Nat} {sent : Bool} {body : AgentBody} {id : UInt64}
  {origin : Origin} {n m : Nat}

private theorem replies_post_other (other : origin ≠ .command m) :
    replies m (log ++ post target sent body id origin) = replies m log := by
  unfold replies
  rw [List.filter_append]
  rcases post_cases target sent body id origin with nothing | ⟨s, -, -, posted⟩
  · rw [nothing, List.filter_nil, List.append_nil]
  · rw [posted, List.filter_cons_of_neg (by simpa using other), List.filter_nil, List.append_nil]

private theorem replies_post_self (before : replies n log = []) :
    replies n (log ++ post target sent body id (.command n)) =
      post target sent body id (.command n) := by
  have own : (post target sent body id (.command n)).filter (fun e => e.origin = .command n) =
      post target sent body id (.command n) := by
    rcases post_cases target sent body id (.command n) with nothing | ⟨s, -, -, posted⟩
    · rw [nothing, List.filter_nil]
    · rw [posted]
      simp
  unfold replies at before ⊢
  rw [List.filter_append, before, own, List.nil_append]

private theorem fits_post {c : Command} (before : replies n log = [])
    (answer : c.answer = some body) :
    Fits n c (log ++ post target sent body c.id (.command n)) := by
  unfold Fits
  rw [replies_post_self before]
  refine ⟨?_, fun e member => ?_⟩
  · rcases post_cases target sent body c.id (.command n) with nothing | ⟨s, -, -, posted⟩
    · rw [nothing]
      exact Nat.zero_le 1
    · rw [posted]
      exact Nat.le_refl 1
  · rw [(mem_post member).2]
    exact ⟨answer, rfl⟩

/-- Nothing was added that answers a command. -/
def QuietLog (before after : List Sent) : Prop :=
  (∀ n, replies n after = replies n before) ∧
    ∀ e ∈ after, e ∈ before ∨ ∀ n, e.origin ≠ .command n

private theorem QuietLog.refl (log : List Sent) : QuietLog log log :=
  ⟨fun _ => rfl, fun _ member => Or.inl member⟩

private theorem QuietLog.post (other : ∀ n, origin ≠ .command n) :
    QuietLog log (log ++ post target sent body id origin) := by
  refine ⟨fun n => replies_post_other (other n), fun e member => ?_⟩
  rcases List.mem_append.mp member with old | new
  · exact Or.inl old
  · rw [(mem_post new).2]
    exact Or.inr other

end Log

section Steps

variable {w w' : World}

private theorem Answers.frame (held : Answers w) (commands : w'.commands = w.commands)
    (same : handlers w'.workers = handlers w.workers)
    (inline : ∀ k n, w'.phase = .handling k n → w.phase = .handling k n)
    (hand : ∀ n, InHand w' n → InHand w n)
    (named : ∀ x ∈ w'.workers, ∀ n target id, Worker.handles x = some n →
      x.progress = .sending target id → ∃ c, w.commands[n]? = some c ∧ id = c.id)
    (quiet : QuietLog w.log w'.log) : Answers w' where
  distinct := same ▸ held.distinct
  known := by
    rw [same, commands]
    exact held.known
  inline k n at_ := by
    rw [same, commands]
    exact held.inline k n (inline k n at_)
  unanswered n open_ := (quiet.1 n).trans (held.unanswered n (hand n open_))
  named := commands ▸ named
  past e member n origin := by
    rw [commands]
    rcases quiet.2 e member with old | other
    · exact held.past e old n origin
    · exact absurd origin (other n)
  fits n c here := by
    unfold Fits
    rw [quiet.1 n]
    exact held.fits n c (commands ▸ here)

private theorem Answers.reply (held : Answers w) {n : Nat} {c : Command} {body : AgentBody}
    {target : Option Nat} {sent : Bool} (open_ : InHand w n) (here : w.commands[n]? = some c)
    (answer : c.answer = some body) (commands : w'.commands = w.commands)
    (same : handlers w'.workers = handlers w.workers)
    (inline : ∀ k m, w'.phase = .handling k m → w.phase = .handling k m)
    (hand : ∀ m, InHand w' m → m ≠ n ∧ InHand w m)
    (named : ∀ x ∈ w'.workers, ∀ m target id, Worker.handles x = some m →
      x.progress = .sending target id → ∃ c, w.commands[m]? = some c ∧ id = c.id)
    (log : w'.log = w.log ++ post target sent body c.id (.command n)) : Answers w' where
  distinct := same ▸ held.distinct
  known := by
    rw [same, commands]
    exact held.known
  inline k m at_ := by
    rw [same, commands]
    exact held.inline k m (inline k m at_)
  unanswered m now := by
    obtain ⟨other, before⟩ := hand m now
    rw [log, replies_post_other (fun same => other (Origin.command.inj same).symm)]
    exact held.unanswered m before
  named := commands ▸ named
  past e member m origin := by
    rw [commands]
    rw [log] at member
    rcases List.mem_append.mp member with old | new
    · exact held.past e old m origin
    · rw [(mem_post new).2] at origin
      obtain rfl := Origin.command.inj origin
      exact (List.getElem?_eq_some_iff.mp here).1
  fits m c' found := by
    rw [commands] at found
    rw [log]
    by_cases own : m = n
    · subst own
      obtain rfl := Option.some.inj (here.symm.trans found)
      exact fits_post (held.unanswered m open_) answer
    · unfold Fits
      rw [replies_post_other (fun same => own (Origin.command.inj same).symm)]
      exact held.fits m c' found

private theorem Answers.receive (held : Answers w) (c : Command)
    (commands : w'.commands = w.commands ++ [c]) (log : w'.log = w.log)
    (distinct : (handlers w'.workers).Nodup)
    (known : ∀ n ∈ handlers w'.workers, n ∈ handlers w.workers ∨ n = w.commands.length)
    (inline : ∀ k n, w'.phase = .handling k n →
      n = w.commands.length ∧ n ∉ handlers w'.workers)
    (hand : ∀ n, InHand w' n → InHand w n ∨ n = w.commands.length)
    (named : ∀ x ∈ w'.workers, ∀ n target id, Worker.handles x = some n →
      x.progress = .sending target id → ∃ c, w.commands[n]? = some c ∧ id = c.id) :
    Answers w' := by
  have unborn : replies w.commands.length w.log = [] := by
    refine List.filter_eq_nil_iff.mpr (fun e member own => ?_)
    have past := held.past e member _ (of_decide_eq_true own)
    omega
  have longer : w'.commands.length = w.commands.length + 1 := by
    rw [commands, List.length_append]
    rfl
  constructor
  · exact distinct
  · intro n member
    rw [longer]
    rcases known n member with old | rfl
    · exact Nat.lt_succ_of_lt (held.known n old)
    · exact Nat.lt_succ_self _
  · intro k n at_
    obtain ⟨rfl, other⟩ := inline k n at_
    exact ⟨by omega, other⟩
  · intro n open_
    rw [log]
    rcases hand n open_ with before | rfl
    · exact held.unanswered n before
    · exact unborn
  · intro x member n target id handles sending
    obtain ⟨c', here, same⟩ := named x member n target id handles sending
    exact ⟨c', commands ▸ getElem?_concat_of_some here, same⟩
  · intro e member n origin
    rw [longer]
    exact Nat.lt_succ_of_lt (held.past e (log ▸ member) n origin)
  · intro n c' here
    rw [commands] at here
    rw [log]
    rcases getElem?_concat_cases here with ⟨rfl, rfl⟩ | old
    · unfold Fits
      rw [unborn]
      exact ⟨Nat.zero_le 1, nofun⟩
    · exact held.fits n c' old

private theorem handlers_set {workers : List Worker} {i : Nat} {old new : Worker}
    (here : workers[i]? = some old) (same : new.job = old.job) :
    handlers (workers.set i new) = handlers workers := by
  refine filterMap_set_of_eq _ here ?_
  rw [Worker.handles, same]
  rfl

private theorem handlers_cancelJob (job : Job) (k : Nat) (workers : List Worker) :
    handlers (cancelJob job k workers) = handlers workers := by
  unfold handlers cancelJob
  rw [List.filterMap_map]
  refine List.filterMap_congr (fun x _ => ?_)
  dsimp only [Function.comp_apply]
  split <;> rfl

private theorem mem_cancelJob {job : Job} {k : Nat} {workers : List Worker} {x : Worker}
    (member : x ∈ cancelJob job k workers) :
    ∃ y ∈ workers, Worker.handles x = Worker.handles y ∧ x.progress = y.progress := by
  obtain ⟨y, listed, rfl⟩ := List.mem_map.mp member
  refine ⟨y, listed, ?_⟩
  split <;> exact ⟨rfl, rfl⟩

private theorem Answers.move (held : Answers w) {p : Phase} {log : List Sent}
    {stream : Option Nat} {attempts opened established wg : Nat}
    (idle : ∀ k n, p ≠ .handling k n) (quiet : QuietLog w.log log) :
    Answers { w with
      phase := p, stream := stream, attempts := attempts, opened := opened
      established := established, wg := wg, log := log } := by
  refine held.frame rfl rfl (fun k n at_ => absurd at_ (idle k n)) ?_ held.named quiet
  rintro n (⟨k, at_⟩ | working)
  · exact absurd at_ (idle k n)
  · exact Or.inr working

private theorem Answers.start (held : Answers w) {p : Phase} {new : Worker} {wg : Nat}
    (idle : ∀ k n, p ≠ .handling k n) (none_ : Worker.handles new = none) :
    Answers { w with phase := p, wg := wg, workers := w.workers ++ [new] } := by
  have same : handlers (w.workers ++ [new]) = handlers w.workers := by
    rw [handlers, List.filterMap_append, List.filterMap_cons_none none_, List.filterMap_nil,
      List.append_nil]
    rfl
  have old : ∀ {x : Worker} {n : Nat}, x ∈ w.workers ++ [new] → Worker.handles x = some n →
      x ∈ w.workers := by
    intro x n member handles
    rcases List.mem_append.mp member with old | added
    · exact old
    · obtain rfl := List.mem_singleton.mp added
      cases none_.symm.trans handles
  refine held.frame rfl same (fun k n at_ => absurd at_ (idle k n)) ?_ ?_ (.refl _)
  · rintro n (⟨k, at_⟩ | ⟨x, member, handles, open_⟩)
    · exact absurd at_ (idle k n)
    · exact Or.inr ⟨x, old member handles, handles, open_⟩
  · intro x member n target id handles
    exact held.named x (old member handles) n target id handles

private theorem Answers.cancel (held : Answers w) {p : Phase} (job : Job) (k : Nat)
    (idle : ∀ k n, p ≠ .handling k n) :
    Answers { w with phase := p, workers := cancelJob job k w.workers } := by
  refine held.frame rfl (handlers_cancelJob job k w.workers)
    (fun k n at_ => absurd at_ (idle k n)) ?_ ?_ (.refl _)
  · rintro n (⟨k, at_⟩ | ⟨x, member, handles, open_⟩)
    · exact absurd at_ (idle k n)
    · obtain ⟨y, listed, same, progress⟩ := mem_cancelJob member
      exact Or.inr ⟨y, listed, same ▸ handles, progress ▸ open_⟩
  · intro x member n target id handles sending
    obtain ⟨y, listed, same, progress⟩ := mem_cancelJob member
    exact held.named y listed n target id (same ▸ handles) (progress ▸ sending)

private theorem Answers.work (held : Answers w) {i : Nat} {old new : Worker} {wg : Nat}
    {corrSeq : UInt64} {log : List Sent} (here : w.workers[i]? = some old)
    (same : new.job = old.job) (was : old.progress ≠ .done)
    (named : ∀ n target id, Worker.handles new = some n → new.progress = .sending target id →
      ∃ c, w.commands[n]? = some c ∧ id = c.id) (quiet : QuietLog w.log log) :
    Answers { w with
      wg := wg, corrSeq := corrSeq, workers := w.workers.set i new, log := log } := by
  have handles : Worker.handles new = Worker.handles old := by
    rw [Worker.handles, same]
    rfl
  refine held.frame rfl (handlers_set here same) (fun _ _ at_ => at_) ?_
    (forall_mem_set held.named named) quiet
  rintro n (at_ | ⟨x, member, seen, open_⟩)
  · exact Or.inl at_
  · rcases List.mem_or_eq_of_mem_set member with other | rfl
    · exact Or.inr ⟨x, other, seen, open_⟩
    · exact Or.inr ⟨old, List.mem_of_getElem? here, handles ▸ seen, was⟩

private theorem answers_step {a : Action} (held : Answers w) (stepped : step w a = some w') :
    Answers w' := by
  cases effect_of_step stepped with
  | quit cancelled idle => exact held.move (by simp) (.refl _)
  | dial live at_ => exact held.move (by simp) (.refl _)
  | dialFails at_ => exact held.move (by simp) (.refl _)
  | openStream at_ => exact held.move (by simp) (.refl _)
  | record at_ => exact held.move (by simp) (.refl _)
  | hello sent at_ => exact held.move (by cases sent <;> simp) (.post (by simp))
  | startPing at_ => exact held.start (by simp) rfl
  | startProcessor at_ => exact held.start (by simp) rfl
  | @spawn k c at_ async =>
    have unborn : w.commands.length ∉ handlers w.workers :=
      fun member => Nat.lt_irrefl _ (held.known _ member)
    have added : handlers (w.workers ++ [⟨.command w.commands.length, k, false, .running⟩]) =
        handlers w.workers ++ [w.commands.length] := List.filterMap_append ..
    refine held.receive c rfl rfl ?_ ?_ ?_ ?_ ?_
    · rw [added]
      refine List.nodup_append.mpr ⟨held.distinct, List.pairwise_singleton .., ?_⟩
      rintro n old m new rfl
      exact unborn (List.mem_singleton.mp new ▸ old)
    · intro n member
      rw [added] at member
      exact (List.mem_append.mp member).imp_right List.mem_singleton.mp
    · intro k n handling
      cases at_.symm.trans handling
    · rintro n (⟨k, handling⟩ | ⟨x, member, handles, open_⟩)
      · exact Or.inl (Or.inl ⟨k, handling⟩)
      · rcases List.mem_append.mp member with old | new
        · exact Or.inl (Or.inr ⟨x, old, handles, open_⟩)
        · obtain rfl := List.mem_singleton.mp new
          exact Or.inr (Option.some.inj handles).symm
    · intro x member n target id handles sending
      rcases List.mem_append.mp member with old | new
      · exact held.named x old n target id handles sending
      · obtain rfl := List.mem_singleton.mp new
        cases sending
  | @handle k c at_ inline =>
    have unborn : w.commands.length ∉ handlers w.workers :=
      fun member => Nat.lt_irrefl _ (held.known _ member)
    refine held.receive c rfl rfl held.distinct (fun _ member => Or.inl member) ?_ ?_ held.named
    · intro k n handling
      cases handling
      exact ⟨rfl, unborn⟩
    · rintro n (⟨k, handling⟩ | working)
      · cases handling
        exact Or.inr rfl
      · exact Or.inl (Or.inr working)
  | @handled k n sent at_ =>
    have hand : InHand w n := Or.inl ⟨k, at_⟩
    obtain ⟨inside, other⟩ := held.inline k n at_
    obtain ⟨c, here⟩ : ∃ c, w.commands[n]? = some c := ⟨_, List.getElem?_eq_getElem inside⟩
    rw [here]
    dsimp only
    cases answer : c.answer with
    | none =>
      dsimp only
      rw [List.append_nil]
      exact held.move (by simp) (.refl _)
    | some body =>
      refine held.reply hand here answer rfl rfl nofun ?_ held.named rfl
      rintro m (⟨k', handling⟩ | ⟨x, member, handles, open_⟩)
      · cases handling
      · refine ⟨?_, Or.inr ⟨x, member, handles, open_⟩⟩
        rintro rfl
        exact other (List.mem_filterMap.mpr ⟨x, member, handles⟩)
  | recvFails at_ => exact held.move (by simp) (.refl _)
  | cancelPing at_ => exact held.cancel _ _ (by simp)
  | cancelProcessor at_ => exact held.cancel _ _ (by simp)
  | clear at_ => exact held.move (by simp) (.refl _)
  | wake at_ => exact held.move (by simp) (.refl _)
  | @prepare i k job cancelled body here wanted =>
    refine held.work here rfl (by simp) ?_ (.refl _)
    intro n target id handles sending
    cases job with
    | command n' =>
      cases handles
      cases sending
      obtain ⟨c, found, -⟩ := Option.bind_eq_some_iff.mp wanted
      exact ⟨c, found, by rw [Job.sendId, found]; rfl⟩
    | ping | processor => cases handles
  | @deliver i k job cancelled target id body sent here wanted =>
    cases job with
    | ping | processor =>
      refine held.work here rfl (by simp) ?_ (.post (by simp [Job.origin]))
      intro n target' id' handles
      cases handles
    | command n =>
      have member := List.mem_of_getElem? here
      obtain ⟨c, found, answer⟩ := Option.bind_eq_some_iff.mp wanted
      obtain ⟨c', found', rfl⟩ := held.named _ member n target id rfl rfl
      obtain rfl := Option.some.inj (found.symm.trans found')
      refine held.reply (Or.inr ⟨_, member, rfl, by simp⟩) found answer rfl
        (handlers_set here rfl) (fun _ _ at_ => at_) ?_ ?_ rfl
      · rintro m (⟨k', handling⟩ | ⟨x, working, handles, open_⟩)
        · refine ⟨?_, Or.inl ⟨k', handling⟩⟩
          rintro rfl
          exact (held.inline k' m handling).2 (List.mem_filterMap.mpr ⟨_, member, rfl⟩)
        · obtain ⟨j, there⟩ := List.mem_iff_getElem?.mp working
          rcases getElem?_set_cases there with ⟨rfl, rfl⟩ | ⟨apart, before⟩
          · exact absurd rfl open_
          · refine ⟨?_, Or.inr ⟨x, List.mem_of_getElem? before, handles, open_⟩⟩
            rintro rfl
            exact apart (place_unique_of_nodup held.distinct before here handles rfl)
      · refine forall_mem_set held.named ?_
        intro m target' id' _ sending
        cases sending
  | exit here may =>
    refine held.work here rfl (by simp) ?_ (.refl _)
    intro n target id _ sending
    cases sending
  | shutdown => exact { held with }

private theorem answers_initial : Answers World.initial where
  distinct := List.nodup_nil
  known _ member := nomatch member
  inline _ _ at_ := nomatch at_
  unanswered _ _ := rfl
  named _ member := nomatch member
  past _ member := nomatch member
  fits _ _ here := nomatch here

theorem answers_of_run {ok : World → Action → Prop} {acts : List Action}
    (run : Run step ok World.initial acts w) : Answers w :=
  run.stateInvariant Answers answers_initial (fun before _ stepped => answers_step before stepped)

end Steps

/-- Every command that wants an answer is in hand or has got one. -/
structure Complete (w : World) : Prop where
  reads : ∀ x ∈ w.workers, ∀ n target id, Worker.handles x = some n →
    x.progress = .sending target id → target.isSome = true
  answered : ∀ n c, w.commands[n]? = some c → c.answer.isSome = true →
    InHand w n ∨ replies n w.log ≠ []

section Completion

variable {w w' : World}

private theorem replies_ne_nil_of_grown {n : Nat} {log log' : List Sent} (grown : log ⊆ log')
    (answered : replies n log ≠ []) : replies n log' ≠ [] := by
  obtain ⟨e, member⟩ := List.exists_mem_of_ne_nil _ answered
  obtain ⟨listed, own⟩ := List.mem_filter.mp member
  exact List.ne_nil_of_mem (List.mem_filter.mpr ⟨grown listed, own⟩)

private theorem Complete.frame (held : Complete w) (commands : w'.commands = w.commands)
    (grown : w.log ⊆ w'.log)
    (hand : ∀ n c, w.commands[n]? = some c → c.answer.isSome = true → InHand w n →
      InHand w' n ∨ replies n w'.log ≠ [])
    (reads : ∀ x ∈ w'.workers, ∀ n target id, Worker.handles x = some n →
      x.progress = .sending target id → target.isSome = true) : Complete w' where
  reads := reads
  answered n c here wanted := by
    rw [commands] at here
    rcases held.answered n c here wanted with open_ | answered
    · exact hand n c here wanted open_
    · exact Or.inr (replies_ne_nil_of_grown grown answered)

private theorem Complete.move (held : Complete w) {p : Phase} {log : List Sent}
    {stream : Option Nat} {attempts opened established wg : Nat}
    (idle : ∀ k n, w.phase ≠ .handling k n) (grown : w.log ⊆ log) :
    Complete { w with
      phase := p, stream := stream, attempts := attempts, opened := opened
      established := established, wg := wg, log := log } := by
  refine held.frame rfl grown ?_ held.reads
  rintro n c - - (⟨k, at_⟩ | working)
  · exact absurd at_ (idle k n)
  · exact Or.inl (Or.inr working)

private theorem Complete.workers (held : Complete w) {p : Phase} {wg : Nat}
    {workers : List Worker} (idle : ∀ k n, w.phase ≠ .handling k n)
    (kept : ∀ x ∈ w.workers, ∃ y ∈ workers,
      Worker.handles y = Worker.handles x ∧ y.progress = x.progress)
    (old : ∀ y ∈ workers, Worker.handles y = none ∨ ∃ x ∈ w.workers,
      Worker.handles y = Worker.handles x ∧ y.progress = x.progress) :
    Complete { w with phase := p, wg := wg, workers := workers } := by
  refine held.frame rfl (fun _ member => member) ?_ ?_
  · rintro n c - - (⟨k, at_⟩ | ⟨x, member, handles, open_⟩)
    · exact absurd at_ (idle k n)
    · obtain ⟨y, listed, same, progress⟩ := kept x member
      exact Or.inl (Or.inr ⟨y, listed, same.trans handles, progress ▸ open_⟩)
  · intro y member n target id handles sending
    rcases old y member with none_ | ⟨x, listed, same, progress⟩
    · cases none_.symm.trans handles
    · exact held.reads x listed n target id (same ▸ handles) (progress ▸ sending)

private theorem Complete.start (held : Complete w) {p : Phase} {wg : Nat} {new : Worker}
    (idle : ∀ k n, w.phase ≠ .handling k n) (none_ : Worker.handles new = none) :
    Complete { w with phase := p, wg := wg, workers := w.workers ++ [new] } := by
  refine held.workers idle ?_ ?_
  · intro x member
    exact ⟨x, List.mem_append_left _ member, rfl, rfl⟩
  · intro y member
    rcases List.mem_append.mp member with old | added
    · exact Or.inr ⟨y, old, rfl, rfl⟩
    · exact Or.inl (List.mem_singleton.mp added ▸ none_)

private theorem Complete.work (held : Complete w) {i : Nat} {old new : Worker} {wg : Nat}
    {corrSeq : UInt64} {log : List Sent} (here : w.workers[i]? = some old)
    (same : new.job = old.job) (grown : w.log ⊆ log)
    (hand : ∀ n c, Worker.handles new = some n → w.commands[n]? = some c →
      c.answer.isSome = true → new.progress ≠ .done ∨ replies n log ≠ [])
    (reads : ∀ n target id, Worker.handles new = some n → new.progress = .sending target id →
      target.isSome = true) :
    Complete { w with
      wg := wg, corrSeq := corrSeq, workers := w.workers.set i new, log := log } := by
  have handles : Worker.handles new = Worker.handles old := by
    rw [Worker.handles, same]
    rfl
  refine held.frame rfl grown ?_ (forall_mem_set held.reads reads)
  rintro n c found wanted (at_ | ⟨x, member, seen, open_⟩)
  · exact Or.inl (Or.inl at_)
  · rcases eq_or_ne x old with rfl | other
    · refine (hand n c (handles.trans seen) found wanted).imp_left (fun working => ?_)
      exact Or.inr ⟨new, List.mem_of_getElem? (getElem?_set_here here), handles.trans seen, working⟩
    · exact Or.inl (Or.inr ⟨x, mem_set_of_ne here member other, seen, open_⟩)

private theorem Complete.receive (held : Complete w) (c : Command)
    (commands : w'.commands = w.commands ++ [c]) (log : w'.log = w.log)
    (hand : ∀ n, InHand w n → InHand w' n) (new : InHand w' w.commands.length)
    (reads : ∀ x ∈ w'.workers, ∀ n target id, Worker.handles x = some n →
      x.progress = .sending target id → target.isSome = true) : Complete w' where
  reads := reads
  answered n c' here wanted := by
    rw [commands] at here
    rw [log]
    rcases getElem?_concat_cases here with ⟨rfl, -⟩ | here
    · exact Or.inl new
    · exact (held.answered n c' here wanted).imp_left (hand n)

end Completion

end SignalAgent.Control.CommandReplies
