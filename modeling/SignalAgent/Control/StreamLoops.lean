/- MID: SignalAgent/Control/StreamLoops
   layer: results
   source: components/edgecontroller/extension.go, components/edgecontroller/telemetry.go
   digest: One heartbeat and one index loop for each stream, from its greeting to its end. -/

import SignalAgent.Control.ControlPlane

set_option autoImplicit false
set_option relaxedAutoImplicit false

namespace SignalAgent.Control.StreamLoops

open Foundations.GuardedRuns Foundations.Interleavings
open ControlPlane

/-- The stream `connect` has stored and not cleared. -/
def heldStream : Phase → Option Nat
  | .opened k | .recorded k | .greeted k | .pinging k | .receiving k | .handling k _ | .broken k
  | .halfClosed k | .leaving k => some k
  | .top | .dialing | .pausing | .stopped => none

/-- The stream whose loop of this kind has been started and not cancelled. -/
def liveLoop (job : Job) : Phase → Option Nat
  | .receiving k | .handling k _ | .broken k => some k
  | .pinging k => if job = .ping then some k else none
  | .halfClosed k => if job = .processor then some k else none
  | _ => none

/-- The stream has been greeted. -/
def welcomed : Phase → Option Nat
  | .greeted k | .pinging k | .receiving k | .handling k _ | .broken k | .halfClosed k => some k
  | _ => none

/-- The contexts of the loops are made from the context of the stream and that from the root, so
one is open until its own function or that of the root is called. -/
def contextOpen (w : World) (x : Worker) : Bool := !x.cancelled && !w.cancelled

/-- The streams of the goroutines of one kind whose context is open. -/
def liveStreams (job : Job) (w : World) : List Nat :=
  w.workers.filterMap (fun x => if x.job = job ∧ contextOpen w x then some x.stream else none)

/-- The same for the contexts whose own function has not been called. -/
def uncancelled (job : Job) (workers : List Worker) : List Nat :=
  workers.filterMap
    (fun x => if x.job = job ∧ x.cancelled = false then some x.stream else none)

theorem liveStreams_eq (job : Job) (w : World) :
    liveStreams job w = if w.cancelled then [] else uncancelled job w.workers := by
  unfold liveStreams uncancelled contextOpen
  cases w.cancelled <;> simp

def Greeted (log : List Sent) (k : Nat) : Prop := ∃ e ∈ log, e.stream = k ∧ e.body = .hello

/-- A goroutine that has read the stream to send on, with its context open, has read its own. -/
def ReadsOwn (x : Worker) : Prop :=
  x.job.ofStream = true → x.cancelled = false →
    ∀ target id, x.progress = .sending target id → target = some x.stream

/-- A message of a loop went out on the loop's own stream, or the loop has been cancelled. -/
def SentOwn (workers : List Worker) (e : Sent) : Prop :=
  ∀ i, e.origin = .worker i →
    ∃ x, workers[i]? = some x ∧ (e.stream = x.stream ∨ x.cancelled = true)

/-- A stream is stored before it is counted as established. -/
def uncounted : Phase → Nat
  | .opened _ => 1
  | _ => 0

structure Follows (w : World) : Prop where
  stream : w.stream = heldStream w.phase
  counted : w.established + uncounted w.phase = w.opened
  tried : w.opened + (if w.phase = .dialing then 1 else 0) ≤ w.attempts
  live : ∀ job, job.ofStream = true →
    uncancelled job w.workers = (liveLoop job w.phase).toList
  greeted : ∀ k, welcomed w.phase = some k → Greeted w.log k
  reads : ∀ x ∈ w.workers, ReadsOwn x
  sent : ∀ e ∈ w.log, SentOwn w.workers e

section Workers

variable {workers workers' : List Worker}

/-- The goroutines stay in their places, under their streams, and cancelled if they were. -/
def Keeps (workers workers' : List Worker) : Prop :=
  ∀ {i : Nat} {x : Worker}, workers[i]? = some x →
    ∃ x', workers'[i]? = some x' ∧ x'.stream = x.stream ∧ (x.cancelled = true → x'.cancelled = true)

private theorem SentOwn.mono {e : Sent} (held : SentOwn workers e) (kept : Keeps workers workers') :
    SentOwn workers' e := by
  intro i origin
  obtain ⟨x, here, own⟩ := held i origin
  obtain ⟨x', there, stream, cancelled⟩ := kept here
  exact ⟨x', there, own.imp (fun same => same.trans stream.symm) cancelled⟩

private theorem keeps_concat (new : Worker) : Keeps workers (workers ++ [new]) :=
  fun here => ⟨_, getElem?_concat_of_some here, rfl, id⟩

private theorem keeps_set {i : Nat} {old new : Worker} (here : workers[i]? = some old)
    (stream : new.stream = old.stream) (cancelled : new.cancelled = old.cancelled) :
    Keeps workers (workers.set i new) := by
  intro j x found
  rcases getElem?_set_of_some new here found with ⟨-, rfl, there⟩ | there
  · exact ⟨new, there, stream, fun yes => cancelled.trans yes⟩
  · exact ⟨x, there, rfl, id⟩

private theorem keeps_cancelJob (job : Job) (k : Nat) :
    Keeps workers (cancelJob job k workers) := by
  intro i x here
  refine ⟨_, by rw [cancelJob, List.getElem?_map, here]; rfl, ?_, ?_⟩
  · dsimp only
    split <;> rfl
  · intro yes
    dsimp only
    split
    · rfl
    · exact yes

private theorem uncancelled_set {i : Nat} {old new : Worker} (job : Job)
    (here : workers[i]? = some old) (same : new.job = old.job) (stream : new.stream = old.stream)
    (cancelled : new.cancelled = old.cancelled) :
    uncancelled job (workers.set i new) = uncancelled job workers := by
  refine filterMap_set_of_eq _ here ?_
  rw [same, stream, cancelled]

private theorem uncancelled_cancelJob_self {job : Job} {k : Nat}
    (only : uncancelled job workers = [k]) : uncancelled job (cancelJob job k workers) = [] := by
  unfold uncancelled cancelJob
  refine List.filterMap_eq_nil_iff.mpr ?_
  intro x member
  obtain ⟨y, listed, rfl⟩ := List.mem_map.mp member
  split
  · rename_i cancelled
    exact if_neg (fun live => nomatch live.2)
  · rename_i other
    refine if_neg (fun live => other ⟨live.1, ?_⟩)
    have seen : y.stream ∈ uncancelled job workers :=
      List.mem_filterMap.mpr ⟨y, listed, if_pos live⟩
    rw [only] at seen
    exact List.mem_singleton.mp seen

private theorem uncancelled_cancelJob_other {job other : Job} (k : Nat) (apart : job ≠ other) :
    uncancelled job (cancelJob other k workers) = uncancelled job workers := by
  unfold uncancelled cancelJob
  rw [List.filterMap_map]
  refine List.filterMap_congr (fun x _ => ?_)
  dsimp only [Function.comp_apply]
  split
  · rename_i cancelled
    rw [if_neg (fun live => apart (live.1.symm.trans cancelled.1)),
      if_neg (fun live => apart (live.1.symm.trans cancelled.1))]
  · rfl

private theorem uncancelled_concat (job : Job) (new : Worker) :
    uncancelled job (workers ++ [new]) = uncancelled job workers ++
      if new.job = job ∧ new.cancelled = false then [new.stream] else [] := by
  unfold uncancelled
  rw [List.filterMap_append, List.filterMap_cons, List.filterMap_nil]
  split
  · rename_i none_
    rw [if_neg (fun live => by rw [if_pos live] at none_; cases none_)]
  · rename_i some_
    split at some_
    · rename_i live
      cases some_
      rw [if_pos live]
    · cases some_

end Workers

section Steps

variable {w w' : World}

private theorem Follows.move (held : Follows w) {p : Phase} {stream : Option Nat}
    {attempts opened established wg : Nat} {commands : List Command}
    (stored : stream = heldStream p) (counted : established + uncounted p = opened)
    (tried : opened + (if p = .dialing then 1 else 0) ≤ attempts)
    (same : ∀ job, liveLoop job p = liveLoop job w.phase)
    (before : ∀ k, welcomed p = some k → welcomed w.phase = some k) :
    Follows { w with
      phase := p, stream := stream, attempts := attempts, opened := opened
      established := established, wg := wg, commands := commands } where
  stream := stored
  counted := counted
  tried := tried
  live job kind := (held.live job kind).trans (by rw [same])
  greeted k now := held.greeted k (before k now)
  reads := held.reads
  sent := held.sent

private theorem Follows.work (held : Follows w) {i : Nat} {old new : Worker} {log : List Sent}
    {wg : Nat} {corrSeq : UInt64} (here : w.workers[i]? = some old) (job : new.job = old.job)
    (stream : new.stream = old.stream) (cancelled : new.cancelled = old.cancelled)
    (reads : ReadsOwn new) (grown : w.log ⊆ log)
    (sent : ∀ e ∈ log, e ∈ w.log ∨ SentOwn (w.workers.set i new) e) :
    Follows { w with
      wg := wg, corrSeq := corrSeq, workers := w.workers.set i new, log := log } where
  stream := held.stream
  counted := held.counted
  tried := held.tried
  live kind bound := (uncancelled_set kind here job stream cancelled).trans (held.live kind bound)
  greeted k now := by
    obtain ⟨e, member, hello⟩ := held.greeted k now
    exact ⟨e, grown member, hello⟩
  reads := forall_mem_set held.reads reads
  sent e member := by
    rcases sent e member with earlier | own
    · exact (held.sent e earlier).mono (keeps_set here stream cancelled)
    · exact own

private theorem Follows.start (held : Follows w) {p : Phase} {new : Worker} {wg : Nat}
    {commands : List Command} (stored : heldStream p = heldStream w.phase)
    (counted : uncounted p = uncounted w.phase)
    (idle : w.phase ≠ .dialing) (idle' : p ≠ .dialing) (fresh : new.progress = .running)
    (live : ∀ job, job.ofStream = true → (liveLoop job w.phase).toList ++
      (if new.job = job ∧ new.cancelled = false then [new.stream] else []) =
        (liveLoop job p).toList)
    (before : ∀ k, welcomed p = some k → welcomed w.phase = some k) :
    Follows { w with
      phase := p, wg := wg, commands := commands, workers := w.workers ++ [new] } where
  stream := held.stream.trans stored.symm
  counted := (congrArg (w.established + ·) counted).trans held.counted
  tried := by
    have tried := held.tried
    rw [if_neg idle] at tried
    rwa [if_neg idle']
  live job kind := by
    change uncancelled job (w.workers ++ [new]) = _
    rw [uncancelled_concat, held.live job kind]
    exact live job kind
  greeted k now := held.greeted k (before k now)
  reads x member := by
    rcases List.mem_append.mp member with old | added
    · exact held.reads x old
    · obtain rfl := List.mem_singleton.mp added
      intro _ _ target id sending
      rw [fresh] at sending
      cases sending
  sent e member := (held.sent e member).mono (keeps_concat new)

private theorem Follows.cancel (held : Follows w) {p : Phase} {job : Job} {k : Nat}
    (stored : heldStream p = heldStream w.phase) (counted : uncounted p = uncounted w.phase)
    (idle : w.phase ≠ .dialing) (idle' : p ≠ .dialing) (was : liveLoop job w.phase = some k)
    (now : liveLoop job p = none)
    (others : ∀ other, other.ofStream = true → other ≠ job →
      liveLoop other p = liveLoop other w.phase)
    (before : ∀ k, welcomed p = some k → welcomed w.phase = some k) :
    Follows { w with phase := p, workers := cancelJob job k w.workers } where
  stream := held.stream.trans stored.symm
  counted := (congrArg (w.established + ·) counted).trans held.counted
  tried := by
    have tried := held.tried
    rw [if_neg idle] at tried
    rwa [if_neg idle']
  live other kind := by
    change uncancelled other (cancelJob job k w.workers) = (liveLoop other p).toList
    by_cases same : other = job
    · subst same
      have only := held.live other kind
      rw [was] at only
      rw [now, uncancelled_cancelJob_self only]
      rfl
    · rw [uncancelled_cancelJob_other k same, held.live other kind, others other kind same]
  greeted k now := held.greeted k (before k now)
  reads x member := by
    obtain ⟨y, listed, rfl⟩ := List.mem_map.mp member
    split
    · intro _ open_
      cases open_
    · exact held.reads y listed
  sent e member := (held.sent e member).mono (keeps_cancelJob job k)

private theorem Follows.say (held : Follows w) {p : Phase} {extra : List Sent}
    (stored : heldStream p = heldStream w.phase) (counted : uncounted p = uncounted w.phase)
    (idle : w.phase ≠ .dialing) (idle' : p ≠ .dialing)
    (same : ∀ job, liveLoop job p = liveLoop job w.phase)
    (before : ∀ k, welcomed p = some k → Greeted (w.log ++ extra) k)
    (own : ∀ e ∈ extra, ∀ i, e.origin ≠ .worker i) :
    Follows { w with phase := p, log := w.log ++ extra } where
  stream := held.stream.trans stored.symm
  counted := (congrArg (w.established + ·) counted).trans held.counted
  tried := by
    have tried := held.tried
    rw [if_neg idle] at tried
    rwa [if_neg idle']
  live job kind := (held.live job kind).trans (by rw [same])
  greeted := before
  reads := held.reads
  sent e member := by
    rcases List.mem_append.mp member with old | new
    · exact held.sent e old
    · intro i origin
      exact absurd origin (own e new i)

private theorem held_of_live {job : Job} {p : Phase} {k : Nat} (live : liveLoop job p = some k) :
    heldStream p = some k ∧ welcomed p = some k := by
  cases p with
  | receiving k' | handling k' n | broken k' =>
    cases live
    exact ⟨rfl, rfl⟩
  | pinging k' | halfClosed k' =>
    simp only [liveLoop] at live
    split at live <;> cases live
    exact ⟨rfl, rfl⟩
  | _ => cases live

private theorem Follows.live_of_open (held : Follows w) {x : Worker} (member : x ∈ w.workers)
    (kind : x.job.ofStream = true) (open_ : x.cancelled = false) :
    liveLoop x.job w.phase = some x.stream := by
  have seen : x.stream ∈ uncancelled x.job w.workers :=
    List.mem_filterMap.mpr ⟨x, member, if_pos ⟨rfl, open_⟩⟩
  rw [held.live x.job kind] at seen
  exact Option.mem_toList.mp seen

private theorem Follows.own_stream (held : Follows w) {x : Worker} (member : x ∈ w.workers)
    (kind : x.job.ofStream = true) (open_ : x.cancelled = false) : w.stream = some x.stream := by
  rw [held.stream]
  exact (held_of_live (held.live_of_open member kind open_)).1

private theorem follows_step {a : Action} (held : Follows w) (stepped : step w a = some w') :
    Follows w' := by
  have stream := held.stream
  have counted := held.counted
  have tried := held.tried
  cases effect_of_step stepped with
  | quit cancelled idle =>
    rcases idle with at_ | at_ <;> rw [at_] at stream counted tried <;>
      exact held.move stream counted tried (fun _ => by rw [at_]; rfl) nofun
  | dial live at_ =>
    rw [at_] at stream counted tried
    exact held.move stream counted (Nat.succ_le_succ tried) (fun _ => by rw [at_]; rfl) nofun
  | dialFails at_ =>
    rw [at_] at stream counted tried
    exact held.move stream counted (Nat.le_of_succ_le tried) (fun _ => by rw [at_]; rfl) nofun
  | openStream at_ =>
    rw [at_] at counted tried
    exact held.move rfl (congrArg (· + 1) counted) tried (fun _ => by rw [at_]; rfl) nofun
  | record at_ =>
    rw [at_] at stream counted tried
    exact held.move stream counted tried (fun _ => by rw [at_]; rfl) nofun
  | @hello k sent at_ =>
    rw [at_] at stream
    have quiet : ∀ e ∈ post w.stream sent .hello 0 .loop, ∀ i, e.origin ≠ .worker i := by
      intro e member i origin
      rw [(mem_post member).2] at origin
      cases origin
    cases sent with
    | false =>
      exact held.say (by rw [at_]; rfl) (by rw [at_]; rfl) (by simp [at_]) (by simp)
        (fun _ => by rw [at_]; rfl) nofun quiet
    | true =>
      refine held.say (by rw [at_]; rfl) (by rw [at_]; rfl) (by simp [at_]) (by simp)
        (fun _ => by rw [at_]; rfl) ?_ quiet
      intro k' now
      cases now
      refine ⟨⟨k, .hello, 0, .loop⟩, List.mem_append_right _ ?_, rfl, rfl⟩
      rw [stream]
      exact List.mem_cons_self
  | startPing at_ =>
    refine held.start (by rw [at_]; rfl) (by rw [at_]; rfl) (by simp [at_]) (by simp) rfl ?_
      (fun _ now => by rw [at_]; exact now)
    intro job kind
    rw [at_]
    cases job <;> rfl
  | startProcessor at_ =>
    refine held.start (by rw [at_]; rfl) (by rw [at_]; rfl) (by simp [at_]) (by simp) rfl ?_
      (fun _ now => by rw [at_]; exact now)
    intro job kind
    rw [at_]
    cases job <;> first | rfl | cases kind
  | spawn at_ async =>
    refine held.start rfl rfl (by simp [at_]) (by simp [at_]) rfl ?_ (fun _ now => now)
    intro job kind
    cases job <;> first | exact List.append_nil _ | cases kind
  | handle at_ inline =>
    rw [at_] at stream counted tried
    exact held.move stream counted tried (fun _ => by rw [at_]; rfl)
      (fun _ now => by rw [at_]; exact now)
  | @handled k n sent at_ =>
    refine held.say (by rw [at_]; rfl) (by rw [at_]; rfl) (by simp [at_]) (by simp)
      (fun _ => by rw [at_]; rfl) ?_ ?_
    · intro k' now
      obtain ⟨e, member, hello⟩ := held.greeted k' (by rw [at_]; exact now)
      exact ⟨e, List.mem_append_left _ member, hello⟩
    · intro e member i origin
      split at member
      · split at member
        · rw [(mem_post member).2] at origin
          cases origin
        · cases member
      · cases member
  | recvFails at_ =>
    rw [at_] at stream counted tried
    exact held.move stream counted tried (fun _ => by rw [at_]; rfl)
      (fun _ now => by rw [at_]; exact now)
  | cancelPing at_ =>
    refine held.cancel (by rw [at_]; rfl) (by rw [at_]; rfl) (by simp [at_]) (by simp)
      (by rw [at_]; rfl) rfl ?_ (fun _ now => by rw [at_]; exact now)
    intro other kind apart
    rw [at_]
    cases other <;> first | rfl | exact absurd rfl apart | cases kind
  | cancelProcessor at_ =>
    refine held.cancel (by rw [at_]; rfl) (by rw [at_]; rfl) (by simp [at_]) (by simp)
      (by rw [at_]; rfl) rfl ?_ nofun
    intro other kind apart
    rw [at_]
    cases other <;> first | rfl | exact absurd rfl apart
  | clear at_ =>
    rw [at_] at counted tried
    exact held.move rfl counted tried (fun _ => by rw [at_]; rfl) nofun
  | wake at_ =>
    rw [at_] at stream counted tried
    exact held.move stream counted tried (fun _ => by rw [at_]; rfl) nofun
  | @prepare i k job cancelled body here wanted =>
    refine held.work here rfl rfl rfl ?_ (fun _ member => member) (fun _ member => Or.inl member)
    intro kind open_ target id sending
    cases sending
    have own := held.own_stream (List.mem_of_getElem? here) kind open_
    exact own
  | @deliver i k job cancelled target id body sent here wanted =>
    refine held.work here rfl rfl rfl ?_ (fun _ member => List.mem_append_left _ member) ?_
    · intro _ _ target' id' sending
      cases job with
      | ping =>
        simp only [Job.afterSend] at sending
        split at sending <;> cases sending
      | processor | command n => cases sending
    · intro e member
      rcases List.mem_append.mp member with earlier | posted
      · exact Or.inl earlier
      · obtain ⟨read, same⟩ := mem_post posted
        refine Or.inr (fun j origin => ?_)
        cases job with
        | command n =>
          rw [same] at origin
          cases origin
        | ping | processor =>
          rw [same] at origin
          cases origin
          refine ⟨_, getElem?_set_here here, ?_⟩
          cases cancelled with
          | true => exact Or.inr rfl
          | false =>
            have own := held.reads _ (List.mem_of_getElem? here) rfl rfl target id rfl
            exact Or.inl (Option.some.inj (read.symm.trans own))
  | @exit i k job cancelled here may =>
    refine held.work here rfl rfl rfl ?_ (fun _ member => member) (fun _ member => Or.inl member)
    intro _ _ target id sending
    cases sending
  | shutdown => exact { held with }

private theorem follows_start : Follows World.initial where
  stream := rfl
  counted := rfl
  tried := Nat.le_refl 0
  live _ _ := rfl
  greeted := nofun
  reads := nofun
  sent := nofun

theorem follows_of_run {ok : World → Action → Prop} {acts : List Action}
    (run : Run step ok World.initial acts w) : Follows w :=
  run.stateInvariant Follows follows_start (fun before _ stepped => follows_step before stepped)

end Steps

section Returns

variable {w w' : World} {acts : List Action}

/-- A loop has returned because a context of its was cancelled or, sending heartbeats, because a
send failed. -/
def Returns (acts : List Action) (w : World) : Prop :=
  ∀ i x, w.workers[i]? = some x → x.job.ofStream = true → x.progress = .done →
    x.cancelled = true ∨ w.cancelled = true ∨ x.job = .ping ∧ .deliver i false ∈ acts

private theorem Returns.later (held : Returns acts w) (a : Action)
    (workers : w'.workers = w.workers) (kept : w.cancelled = true → w'.cancelled = true) :
    Returns (acts ++ [a]) w' := by
  intro i x here loop done
  rw [workers] at here
  exact (held _ _ here loop done).imp_right
    (Or.imp kept (And.imp_right (List.mem_append_left [a])))

private theorem Returns.start (held : Returns acts w) (a : Action) {new : Worker}
    (fresh : new.progress = .running) (workers : w'.workers = w.workers ++ [new])
    (kept : w'.cancelled = w.cancelled) : Returns (acts ++ [a]) w' := by
  intro i x here loop done
  rw [workers] at here
  rcases getElem?_concat_cases here with ⟨-, rfl⟩ | here
  · rw [fresh] at done
    cases done
  · exact (held _ _ here loop done).imp_right
      (Or.imp kept.trans (And.imp_right (List.mem_append_left [a])))

private theorem Returns.cancel (held : Returns acts w) (a : Action) {job : Job} {k : Nat}
    (workers : w'.workers = cancelJob job k w.workers) (kept : w'.cancelled = w.cancelled) :
    Returns (acts ++ [a]) w' := by
  intro i x here loop done
  rw [workers, cancelJob, List.getElem?_map, Option.map_eq_some_iff] at here
  obtain ⟨y, here, rfl⟩ := here
  split at loop
  · rename_i mine
    rw [if_pos mine]
    exact Or.inl rfl
  · rename_i other
    rw [if_neg other] at done ⊢
    exact (held _ _ here loop done).imp_right
      (Or.imp kept.trans (And.imp_right (List.mem_append_left [a])))

private theorem Returns.work (held : Returns acts w) (a : Action) {i : Nat} {new : Worker}
    (workers : w'.workers = w.workers.set i new) (kept : w'.cancelled = w.cancelled)
    (returned : new.job.ofStream = true → new.progress = .done → new.cancelled = true ∨
      w.cancelled = true ∨ new.job = .ping ∧ a = .deliver i false) : Returns (acts ++ [a]) w' := by
  intro j x here loop done
  rw [workers] at here
  rcases getElem?_set_cases here with ⟨rfl, rfl⟩ | ⟨-, here⟩
  · refine (returned loop done).imp_right (Or.imp kept.trans (And.imp_right ?_))
    rintro rfl
    exact List.mem_append_right acts List.mem_cons_self
  · exact (held _ _ here loop done).imp_right
      (Or.imp kept.trans (And.imp_right (List.mem_append_left [a])))

private theorem returns_step {a : Action} (held : Returns acts w) (stepped : step w a = some w') :
    Returns (acts ++ [a]) w' := by
  cases effect_of_step stepped with
  | startPing | startProcessor | spawn => exact held.start _ rfl rfl rfl
  | cancelPing | cancelProcessor => exact held.cancel _ rfl rfl
  | prepare here wanted =>
    refine held.work _ rfl rfl ?_
    intro _ done
    cases done
  | @deliver i k job cancelled target id body sent here wanted =>
    refine held.work _ rfl rfl ?_
    intro loop done
    cases job with
    | ping =>
      simp only [Job.afterSend] at done
      split at done
      · rename_i failed
        exact Or.inr (Or.inr ⟨rfl, by rw [failed.2]⟩)
      · cases done
    | processor => cases done
    | command n => cases loop
  | @exit i k job cancelled here may =>
    refine held.work _ rfl rfl ?_
    intro loop _
    cases job with
    | ping | processor => exact (Bool.or_eq_true_iff.mp may).imp_right Or.inl
    | command n => cases loop
  | shutdown => exact held.later _ rfl (fun _ => rfl)
  | _ => exact held.later _ rfl id

private theorem returns_of_run {ok : World → Action → Prop}
    (run : Run step ok World.initial acts w) : Returns acts w :=
  run.invariant Returns (fun _ _ here => by cases here)
    (fun before _ stepped => returns_step before stepped)

end Returns

/-- Over every run of connects, breaks, commands and a shutdown: the gauge is up exactly from the
store of a stream to its removal, and the counters keep up with it; until the shutdown exactly one
heartbeat context and one index context are open from the start of the loop to the break of its
stream, which is the current one and has been greeted, and none otherwise, and after the shutdown
none; a loop whose context is open has returned only if it sends heartbeats and one of its sends
failed; and a loop sends on another stream than its own only after it was cancelled. -/
theorem loops_follow_stream {acts : List Action} {w : World}
    (run : Run step (fun _ _ => True) World.initial acts w) :
    (connectedState w = 1 ↔ (heldStream w.phase).isSome = true) ∧
      w.established ≤ w.opened ∧ w.opened ≤ w.established + connectedState w ∧
      w.opened ≤ w.attempts ∧
      (∀ job, job.ofStream = true →
        liveStreams job w = (if w.cancelled then [] else (liveLoop job w.phase).toList) ∧
          ∀ k, liveLoop job w.phase = some k → w.stream = some k ∧ Greeted w.log k) ∧
      (∀ i x, w.workers[i]? = some x → x.job.ofStream = true → contextOpen w x = true →
        x.progress = .done → x.job = .ping ∧ .deliver i false ∈ acts) ∧
      ∀ e ∈ w.log, SentOwn w.workers e := by
  have held := follows_of_run run
  have gauge : connectedState w = if (heldStream w.phase).isSome = true then 1 else 0 := by
    rw [connectedState, held.stream]
  have counted := held.counted
  have upward : uncounted w.phase ≤ connectedState w := by
    rw [gauge]
    cases w.phase <;> simp [uncounted, heldStream]
  refine ⟨?_, Nat.le.intro counted, by omega, Nat.le_of_add_right_le held.tried, ?_, ?_,
    held.sent⟩
  · rw [gauge]
    split <;> simp_all
  · intro job kind
    refine ⟨by rw [liveStreams_eq, held.live job kind], fun k live => ?_⟩
    obtain ⟨stored, greeted⟩ := held_of_live live
    exact ⟨held.stream.trans stored, held.greeted k greeted⟩
  · intro i x here loop open_ done
    obtain ⟨own, root⟩ : x.cancelled = false ∧ w.cancelled = false := by
      simpa [contextOpen] using open_
    rcases returns_of_run run i x here loop done with cancelled | cancelled | failed
    · exact nomatch own.symm.trans cancelled
    · exact nomatch root.symm.trans cancelled
    · exact failed

/-- The first stream breaks while its heartbeat is about to be sent; the heartbeat goes out on
the second stream, whose own loop has just been started when the agent is shut down. -/
def lateHeartbeat : List Action :=
  [.dial, .openStream, .record, .hello true, .startPing, .startProcessor, .recvFails,
    .cancelPing, .cancelProcessor, .clear, .wake, .dial, .openStream, .prepare 0, .record,
    .hello true, .deliver 0 true, .startPing, .shutdown]

theorem late_heartbeat_cancelled :
    ∃ w, Run step (fun _ _ => True) World.initial lateHeartbeat w ∧
      w.log = [⟨0, .hello, 0, .loop⟩, ⟨1, .hello, 0, .loop⟩, ⟨1, .ping, 0, .worker 0⟩] ∧
      (∀ e ∈ w.log, SentOwn w.workers e) ∧
      liveLoop .ping w.phase = some 1 ∧ liveStreams .ping w = [] := by
  have executed : (exec step (fun _ _ => true) World.initial lateHeartbeat).any
      (fun w => decide (w.log =
        [⟨0, .hello, 0, .loop⟩, ⟨1, .hello, 0, .loop⟩, ⟨1, .ping, 0, .worker 0⟩] ∧
          liveLoop .ping w.phase = some 1 ∧ w.cancelled = true)) = true := by
    decide +kernel
  obtain ⟨w, run, final⟩ := exists_run_of_exec (fun _ _ => true) lateHeartbeat _
    (fun _ _ _ => trivial) executed
  obtain ⟨log, started, cancelled⟩ := of_decide_eq_true final
  obtain ⟨-, -, -, -, live, -, sent⟩ := loops_follow_stream run
  refine ⟨w, run, log, sent, started, ?_⟩
  rw [(live .ping rfl).1, if_pos cancelled]

end SignalAgent.Control.StreamLoops
