/- MID: SignalAgent/Control/ShutdownWait
   layer: results
   source: components/edgecontroller/extension.go, components/edgecontroller/timeseries_processor.go
   digest: The wait group counts what runs, is only added to while it is used, and can drain. -/

import SignalAgent.Control.StreamLoops

set_option autoImplicit false
set_option relaxedAutoImplicit false

namespace SignalAgent.Control.ShutdownWait

open Foundations.GuardedRuns Foundations.Interleavings
open ControlPlane StreamLoops

/-- A goroutine `Shutdown` waits for has not returned. -/
def waitedFor (x : Worker) : Bool := x.job.tracked && x.progress ≠ .done

def loopRuns (p : Phase) : Nat := if p = .stopped then 0 else 1

/-- The goroutines `Shutdown` waits for. -/
def running (w : World) : Nat := loopRuns w.phase + w.workers.countP waitedFor

structure Counts (w : World) : Prop where
  counted : w.wg = running w
  wanted : ∀ x ∈ w.workers, ∀ target id, x.progress = .sending target id →
    (x.job.body w.commands).isSome = true

section Steps

variable {w w' : World}

private theorem body_of_concat {job : Job} {commands : List Command} {c : Command}
    (some_ : (job.body commands).isSome = true) :
    (job.body (commands ++ [c])).isSome = true := by
  cases job with
  | ping | processor => rfl
  | command n =>
    obtain ⟨body, found⟩ := Option.isSome_iff_exists.mp some_
    obtain ⟨command, here, answer⟩ := Option.bind_eq_some_iff.mp found
    refine Option.isSome_iff_exists.mpr ⟨body, Option.bind_eq_some_iff.mpr ⟨command, ?_, answer⟩⟩
    exact getElem?_concat_of_some here

private theorem waitedFor_cancelJob (job : Job) (k : Nat) (workers : List Worker) :
    (cancelJob job k workers).countP waitedFor = workers.countP waitedFor := by
  unfold cancelJob
  rw [List.countP_map]
  refine List.countP_congr (fun x _ => ?_)
  dsimp only [Function.comp_apply]
  split <;> exact Iff.rfl

private theorem Counts.wanted_cancelJob (held : Counts w) (job : Job) (k : Nat) :
    ∀ x ∈ cancelJob job k w.workers, ∀ target id, x.progress = .sending target id →
      (x.job.body w.commands).isSome = true := by
  intro x member target id sending
  obtain ⟨y, listed, rfl⟩ := List.mem_map.mp member
  have wanted := held.wanted y listed target id
  split at sending <;> rename_i named
  · rw [if_pos named]
    exact wanted sending
  · rw [if_neg named]
    exact wanted sending

private theorem Counts.frame (held : Counts w) (group : w'.wg = w.wg)
    (loop : w.phase ≠ .stopped ∧ w'.phase ≠ .stopped)
    (same : w'.workers.countP waitedFor = w.workers.countP waitedFor)
    (wanted : ∀ x ∈ w'.workers, ∀ target id, x.progress = .sending target id →
      (x.job.body w'.commands).isSome = true) : Counts w' where
  counted := by
    have counted := held.counted
    unfold running loopRuns at counted ⊢
    rw [if_neg loop.1] at counted
    rw [if_neg loop.2, group, same, counted]
  wanted := wanted

private theorem Counts.start (held : Counts w) {p : Phase} {new : Worker} {wg : Nat}
    {commands : List Command} (was : w.phase ≠ .stopped) (is : p ≠ .stopped)
    (fresh : new.progress = .running)
    (added : wg = w.wg + if new.job.tracked then 1 else 0)
    (kept : ∀ {job : Job}, (job.body w.commands).isSome = true →
      (job.body commands).isSome = true) :
    Counts { w with
      phase := p, wg := wg, commands := commands, workers := w.workers ++ [new] } where
  counted := by
    have counted := held.counted
    have waited : waitedFor new = new.job.tracked := by
      rw [waitedFor, fresh]
      cases new.job.tracked <;> rfl
    change wg = loopRuns p + (w.workers ++ [new]).countP waitedFor
    unfold running loopRuns at counted
    rw [if_neg was] at counted
    rw [loopRuns, if_neg is, List.countP_append, List.countP_singleton, waited, added, counted,
      Nat.add_assoc]
  wanted x member target id sending := by
    rcases List.mem_append.mp member with old | added
    · exact kept (held.wanted x old target id sending)
    · obtain rfl := List.mem_singleton.mp added
      rw [fresh] at sending
      cases sending

private theorem Counts.work (held : Counts w) {i : Nat} {job : Job} {k : Nat} {cancelled : Bool}
    {old next : Progress} {wg : Nat} {corrSeq : UInt64} {log : List Sent}
    (here : w.workers[i]? = some ⟨job, k, cancelled, old⟩) (before : old ≠ .done)
    (group : wg = w.finish job next)
    (wanted : ∀ target id, next = .sending target id → (job.body w.commands).isSome = true) :
    Counts { w with
      wg := wg, corrSeq := corrSeq, log := log
      workers := w.workers.set i ⟨job, k, cancelled, next⟩ } where
  counted := by
    have counted := held.counted
    have moved := countP_set_add waitedFor here ⟨job, k, cancelled, next⟩
    have was : waitedFor ⟨job, k, cancelled, old⟩ = job.tracked := by simp [waitedFor, before]
    have is : waitedFor ⟨job, k, cancelled, next⟩ = (job.tracked && decide (next ≠ .done)) := rfl
    rw [was, is] at moved
    change wg = loopRuns w.phase + (w.workers.set i _).countP waitedFor
    rw [group]
    unfold running at counted
    unfold World.finish
    cases tracked : job.tracked with
    | false =>
      simp [tracked] at moved ⊢
      omega
    | true =>
      by_cases returned : next = .done <;> simp [tracked, returned] at moved ⊢ <;> omega
  wanted := forall_mem_set held.wanted wanted

private theorem counts_step {a : Action} (held : Counts w) (stepped : step w a = some w') :
    Counts w' := by
  have same : ∀ {job : Job}, (job.body w.commands).isSome = true →
      (job.body w.commands).isSome = true := id
  cases effect_of_step stepped with
  | quit cancelled idle =>
    refine ⟨?_, held.wanted⟩
    have counted := held.counted
    have runs : w.phase ≠ .stopped := by rcases idle with at_ | at_ <;> simp [at_]
    change w.wg - 1 = loopRuns .stopped + w.workers.countP waitedFor
    unfold running loopRuns at counted
    rw [if_neg runs] at counted
    rw [loopRuns, if_pos rfl]
    omega
  | dial live at_ => exact held.frame rfl (by simp [at_]) rfl held.wanted
  | dialFails at_ => exact held.frame rfl (by simp [at_]) rfl held.wanted
  | openStream at_ => exact held.frame rfl (by simp [at_]) rfl held.wanted
  | record at_ => exact held.frame rfl (by simp [at_]) rfl held.wanted
  | hello sent at_ =>
    exact held.frame rfl (by cases sent <;> simp [at_]) rfl held.wanted
  | startPing at_ => exact held.start (by simp [at_]) (by simp) rfl rfl same
  | startProcessor at_ => exact held.start (by simp [at_]) (by simp) rfl rfl same
  | spawn at_ async => exact held.start (by simp [at_]) (by simp [at_]) rfl rfl body_of_concat
  | handle at_ inline =>
    refine held.frame rfl (by simp [at_]) rfl ?_
    intro x member target id sending
    exact body_of_concat (held.wanted x member target id sending)
  | handled sent at_ => exact held.frame rfl (by simp [at_]) rfl held.wanted
  | recvFails at_ => exact held.frame rfl (by simp [at_]) rfl held.wanted
  | cancelPing at_ =>
    exact held.frame rfl (by simp [at_]) (waitedFor_cancelJob _ _ _) (held.wanted_cancelJob _ _)
  | cancelProcessor at_ =>
    exact held.frame rfl (by simp [at_]) (waitedFor_cancelJob _ _ _) (held.wanted_cancelJob _ _)
  | clear at_ => exact held.frame rfl (by simp [at_]) rfl held.wanted
  | wake at_ => exact held.frame rfl (by simp [at_]) rfl held.wanted
  | prepare here wanted =>
    exact held.work here (by simp) (by simp [World.finish]) (fun _ _ _ => by rw [wanted]; rfl)
  | deliver sent here wanted =>
    exact held.work here (by simp) rfl (fun _ _ _ => by rw [wanted]; rfl)
  | exit here may => exact held.work here (by simp) rfl nofun
  | shutdown => exact { held with }

private theorem counts_initial : Counts World.initial := by
  refine ⟨rfl, fun x member => ?_⟩
  cases member

private theorem counts_of_run {acts : List Action}
    (run : Run step (fun _ _ => True) World.initial acts w) : Counts w :=
  run.stateInvariant Counts counts_initial (fun before _ stepped => counts_step before stepped)

private theorem finish_le (w : World) (job : Job) (next : Progress) :
    w.finish job next ≤ w.wg := by
  unfold World.finish
  split
  · exact Nat.sub_le _ _
  · exact Nat.le_refl _

/-- How far the loop is from its return once the context is cancelled. -/
def loopRank : Phase → Nat
  | .stopped => 0
  | .top | .pausing => 1
  | .dialing | .leaving _ => 2
  | .halfClosed _ | .recorded _ => 3
  | .broken _ | .opened _ => 4
  | .receiving _ => 5
  | .handling _ _ => 6
  | .pinging _ => 7
  | .greeted _ => 8

/-- How far a goroutine is from its return; a processor has to finish its exchange first. -/
def workerRank (x : Worker) : Nat :=
  match x.job, x.progress with
  | .ping, _ | _, .done => 0
  | .processor, .running | .command _, .sending _ _ => 1
  | .processor, .sending _ _ | .command _, .running => 2

def drainRank (w : World) : Nat := loopRank w.phase + (w.workers.map workerRank).sum

private theorem sum_cancelJob (job : Job) (k : Nat) (workers : List Worker) :
    ((cancelJob job k workers).map workerRank).sum = (workers.map workerRank).sum := by
  unfold cancelJob
  rw [List.map_map]
  refine congrArg List.sum (List.map_congr_left (fun x _ => ?_))
  dsimp only [Function.comp_apply]
  split <;> rfl

/-- A loop that is still running can move towards its return. -/
private theorem loop_lowers (cancelled : w.cancelled = true) (runs : w.phase ≠ .stopped) :
    ∃ a w', step w a = some w' ∧ w'.cancelled = true ∧ drainRank w' < drainRank w := by
  have lower : ∀ {w' : World}, loopRank w'.phase < loopRank w.phase →
      (w'.workers.map workerRank).sum = (w.workers.map workerRank).sum →
      drainRank w' < drainRank w := by
    intro w' less same
    rw [drainRank, drainRank, same]
    exact Nat.add_lt_add_right less _
  cases at_ : w.phase with
  | stopped => exact absurd at_ runs
  | top | pausing =>
    refine ⟨.quit, { w with phase := .stopped, wg := w.wg - 1 }, ?_, cancelled, lower ?_ rfl⟩
    · simp [step, at_, cancelled]
    · simp [at_, loopRank]
  | dialing =>
    refine ⟨.dialFails, { w with phase := .pausing }, ?_, cancelled, lower ?_ rfl⟩
    · simp [step, at_]
    · simp [at_, loopRank]
  | opened k =>
    refine ⟨.record, { w with phase := .recorded k, established := w.established + 1 }, ?_,
      cancelled, lower ?_ rfl⟩
    · simp [step, at_]
    · simp [at_, loopRank]
  | recorded k =>
    refine ⟨.hello false, { w with phase := .leaving k }, ?_, cancelled, lower ?_ rfl⟩
    · cases stored : w.stream <;> simp [step, at_, post, stored]
    · simp [at_, loopRank]
  | greeted k =>
    refine ⟨.startPing,
      { w with phase := .pinging k, workers := w.workers ++ [⟨.ping, k, false, .running⟩] }, ?_,
      cancelled, lower ?_ ?_⟩
    · simp [step, at_]
    · simp [at_, loopRank]
    · simp [workerRank]
  | pinging k =>
    refine ⟨.startProcessor,
      { w with
        phase := .receiving k
        wg := w.wg + 1
        workers := w.workers ++ [⟨.processor, k, false, .running⟩] }, ?_, cancelled, ?_⟩
    · simp [step, at_]
    · simp [drainRank, at_, loopRank, workerRank]
      omega
  | receiving k =>
    refine ⟨.recvFails, { w with phase := .broken k }, ?_, cancelled, lower ?_ rfl⟩
    · simp [step, at_]
    · simp [at_, loopRank]
  | handling k n =>
    obtain ⟨w', stepped⟩ : ∃ w', step w (.handled true) = some w' := by simp [step, at_]
    have moved : w'.phase = .receiving k ∧ w'.workers = w.workers ∧ w'.cancelled = w.cancelled := by
      simp only [step, at_] at stepped
      cases stepped
      exact ⟨rfl, rfl, rfl⟩
    refine ⟨.handled true, w', stepped, moved.2.2.trans cancelled, lower ?_ (by rw [moved.2.1])⟩
    simp [moved.1, at_, loopRank]
  | broken k =>
    refine ⟨.cancelPing, { w with phase := .halfClosed k, workers := cancelJob .ping k w.workers },
      ?_, cancelled, lower ?_ (sum_cancelJob _ _ _)⟩
    · simp [step, at_]
    · simp [at_, loopRank]
  | halfClosed k =>
    refine ⟨.cancelProcessor,
      { w with phase := .leaving k, workers := cancelJob .processor k w.workers }, ?_, cancelled,
      lower ?_ (sum_cancelJob _ _ _)⟩
    · simp [step, at_]
    · simp [at_, loopRank]
  | leaving k =>
    refine ⟨.clear, { w with phase := .pausing, stream := none }, ?_, cancelled, lower ?_ rfl⟩
    · simp [step, at_]
    · simp [at_, loopRank]

private theorem worker_lowers (held : Counts w) (cancelled : w.cancelled = true) {x : Worker}
    (member : x ∈ w.workers) (waited : waitedFor x = true) :
    ∃ a w', step w a = some w' ∧ w'.cancelled = true ∧ drainRank w' < drainRank w := by
  obtain ⟨i, here⟩ := List.mem_iff_getElem?.mp member
  have lower : ∀ {new : Worker} {w' : World}, w'.phase = w.phase →
      w'.workers = w.workers.set i new → workerRank new < workerRank x →
      drainRank w' < drainRank w := by
    intro new w' phase workers less
    have moved := sum_map_set_add workerRank here new
    unfold drainRank
    rw [phase, workers]
    omega
  obtain ⟨job, k, own, progress⟩ := x
  cases progress with
  | done => simp [waitedFor] at waited
  | sending target id =>
    obtain ⟨body, wanted⟩ := Option.isSome_iff_exists.mp (held.wanted _ member target id rfl)
    obtain ⟨w', stepped⟩ : ∃ w', step w (.deliver i true) = some w' := by
      simp [step, here, wanted]
    have moved := stepped
    simp only [step, here, wanted] at moved
    cases moved
    refine ⟨.deliver i true, _, stepped, cancelled, lower rfl rfl ?_⟩
    cases job with
    | ping => cases waited
    | processor => exact Nat.lt_succ_self 1
    | command n => exact Nat.lt_succ_self 0
  | running =>
    cases job with
    | ping => cases waited
    | processor =>
      have stepped : step w (.exit i) = some { w with
          wg := w.finish .processor .done
          workers := w.workers.set i ⟨.processor, k, own, .done⟩ } := by
        simp [step, here, mayExit, cancelled]
      exact ⟨.exit i, _, stepped, cancelled, lower rfl rfl (Nat.lt_succ_self 0)⟩
    | command n =>
      cases wanted : w.commands[n]?.bind Command.answer with
      | none =>
        have stepped : step w (.exit i) = some { w with
            wg := w.finish (.command n) .done
            workers := w.workers.set i ⟨.command n, k, own, .done⟩ } := by
          simp [step, here, mayExit, wanted]
        exact ⟨.exit i, _, stepped, cancelled, lower rfl rfl (Nat.zero_lt_succ 1)⟩
      | some body =>
        have stepped : step w (.prepare i) = some { w with
            workers := w.workers.set i
              ⟨.command n, k, own, .sending w.stream (Job.sendId w (.command n))⟩ } := by
          simp [step, here, Job.body, wanted]
        exact ⟨.prepare i, _, stepped, cancelled, lower rfl rfl (Nat.lt_succ_self 1)⟩

end Steps

/-- The counter of the wait group is the number of goroutines `Shutdown` waits for; it is added
to only while it is positive, so never past a `Wait` that may return; once it is zero the stream
is gone and nothing starts again; and after a shutdown it can always come down to zero. -/
theorem wait_group_drains {acts : List Action} {w : World}
    (run : Run step (fun _ _ => True) World.initial acts w) :
    w.wg = running w ∧
      (∀ a w', step w a = some w' → w.wg < w'.wg → 0 < w.wg) ∧
      (w.wg = 0 → w.stream = none ∧ ∀ a w', step w a = some w' → w'.wg = 0) ∧
      (w.cancelled = true →
        ∃ more w', Run step (fun _ _ => True) w more w' ∧ w'.wg = 0) := by
  have held := counts_of_run run
  have stopped : w.wg = 0 → w.phase = .stopped := by
    intro zero
    have counted := held.counted
    unfold running loopRuns at counted
    by_contra runs
    rw [if_neg runs] at counted
    omega
  have still : ∀ a w', step w a = some w' → w.wg = 0 → w'.wg ≤ w.wg := by
    intro a w' stepped zero
    have halted := stopped zero
    cases effect_of_step stepped with
    | startProcessor at_ | spawn at_ async =>
      rw [halted] at at_
      cases at_
    | quit cancelled idle => exact Nat.sub_le _ _
    | deliver sent here wanted | exit here may => exact finish_le w _ _
    | _ => exact Nat.le_refl _
  refine ⟨held.counted, fun a w' stepped more => ?_, fun zero => ⟨?_, fun a w' stepped => ?_⟩,
    fun cancelled => ?_⟩
  · by_contra none_
    have zero : w.wg = 0 := by omega
    have kept := still a w' stepped zero
    omega
  · rw [(follows_of_run run).stream, stopped zero]
    rfl
  · have kept := still a w' stepped zero
    omega
  · refine exists_run_to (fun w => Counts w ∧ w.cancelled = true) drainRank ?_
      ⟨held, cancelled⟩
    rintro s ⟨counts, shut⟩
    by_cases drained : s.wg = 0
    · exact Or.inl drained
    · have lowers : ∃ a s', step s a = some s' ∧ s'.cancelled = true ∧
          drainRank s' < drainRank s := by
        by_cases at_ : s.phase = .stopped
        · have counted := counts.counted
          rw [running, loopRuns, if_pos at_] at counted
          have some_ : 0 < s.workers.countP waitedFor := by omega
          obtain ⟨x, member, waited⟩ := List.countP_pos_iff.mp some_
          exact worker_lowers counts shut member waited
        · exact loop_lowers shut at_
      obtain ⟨a, s', stepped, still, lower⟩ := lowers
      exact Or.inr ⟨a, s', trivial, stepped, ⟨counts_step counts stepped, still⟩, lower⟩

/-- The context is cancelled while a heartbeat loop, a processor in its exchange and a query are
running. -/
def shutdownAmidWork : List Action :=
  [.dial, .openStream, .record, .hello true, .startPing, .startProcessor,
    .receive ⟨.queryRequest, 0⟩, .prepare 1, .shutdown]

theorem shutdown_amid_work_drains :
    ∃ w, Run step (fun _ _ => True) World.initial shutdownAmidWork w ∧ w.wg = 3 ∧
      ∃ more w', Run step (fun _ _ => True) w more w' ∧ w'.wg = 0 := by
  have executed : (exec step (fun _ _ => true) World.initial shutdownAmidWork).any
      (fun w => decide (w.wg = 3 ∧ w.cancelled = true)) = true := by
    decide +kernel
  obtain ⟨w, run, final⟩ := exists_run_of_exec (fun _ _ => true) shutdownAmidWork _
    (fun _ _ _ => trivial) executed
  obtain ⟨three, cancelled⟩ := of_decide_eq_true final
  exact ⟨w, run, three, (wait_group_drains run).2.2.2 cancelled⟩

end SignalAgent.Control.ShutdownWait
