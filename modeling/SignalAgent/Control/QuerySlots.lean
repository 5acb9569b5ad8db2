/- MID: SignalAgent/Control/QuerySlots
   layer: results
   source: components/edgecontroller/query_handler.go, components/edgecontroller/extension.go
   digest: Concurrent queries share eight slots; each is answered once, as if it had run alone. -/

import SignalAgent.Control.QueryTunnel
import SignalAgent.Foundations.GuardedRuns
import SignalAgent.Foundations.Interleavings

set_option autoImplicit false
set_option relaxedAutoImplicit false

namespace SignalAgent.Control.QuerySlots

open Foundations.GoText Foundations.GuardedRuns Foundations.Interleavings
open QueryTunnel

/-- From the slot to the local call: the call to be made, or the response that ends the query. -/
def prepare (beyond : Nat → Nat) (urls : QueryURLs) (net : Network) (req : QueryRequest) :
    Except QueryResponse HttpCall :=
  match resolveTarget urls req.target with
  | .error msg => .error (errResp 503 msg)
  | .ok (baseURL, isAllowed) =>
    let method := requestMethod beyond req
    let cleanPath := requestPath req
    if isAllowed method cleanPath = false then .error (errResp 403 (lit "path not allowed"))
    else if net.parses baseURL = false then
      .error (errResp 500 (lit "invalid local query base url"))
    else
      let call : HttpCall :=
        ⟨baseURL, method, cleanPath, req.rawQuery, requestHeaders req, req.body⟩
      match net.buildError call with
      | some cause => .error (errResp 500 (lit "build request: " ++ cause))
      | none => .ok call

/-- What the client returns for a local call. -/
abbrev StoreAnswer := Except GoString HttpResponse

def answered : StoreAnswer → QueryResponse
  | .error cause => errResp 502 (lit "local store unreachable: " ++ cause)
  | .ok resp => relay resp

theorem handleQueryRequest_eq (beyond : Nat → Nat) (urls : QueryURLs) (net : Network)
    (inFlight : Nat) (req : QueryRequest) :
    handleQueryRequest beyond urls net inFlight req =
      if maxConcurrentQueries ≤ inFlight then
        (none, errResp 429 (lit "too many concurrent queries"))
      else match prepare beyond urls net req with
        | .error resp => (none, resp)
        | .ok call => (some call, answered (net.perform call)) := by
  unfold handleQueryRequest prepare
  split
  · rfl
  · cases resolveTarget urls req.target with
    | error msg => rfl
    | ok resolved =>
      dsimp only
      split
      · rfl
      · split
        · rfl
        · cases net.buildError _ with
          | some cause => rfl
          | none =>
            dsimp only
            cases net.perform _ <;> rfl

/-- Where one `handleQueryRequest` call stands; a refused query holds no slot. In
`sendAgentMessage` a response is queued for `writeMu` once a stream was read, and written under
the lock. -/
inductive Stage where
  | entered
  | holding
  | calling (call : HttpCall)
  | replying (resp : QueryResponse) (slot : Bool)
  | queued (resp : QueryResponse) (slot : Bool)
  | writing (resp : QueryResponse) (slot : Bool)
  | releasing
  | done
  deriving DecidableEq

def Stage.holdsSlot : Stage → Bool
  | .holding | .calling _ | .releasing => true
  | .replying _ slot | .queued _ slot | .writing _ slot => slot
  | .entered | .done => false

def Stage.isQueued : Stage → Bool
  | .queued _ _ => true
  | _ => false

def Stage.isWriting : Stage → Bool
  | .writing _ _ => true
  | _ => false

/-- The response has been handed over. -/
def Stage.replied : Stage → Bool
  | .releasing | .done => true
  | _ => false

/-- A handler, with the slots it found taken, what its local call returned, and whether it found
a stream for its response. -/
structure Handler where
  id : UInt64
  req : QueryRequest
  inFlight : Nat
  answer : Option StoreAnswer
  onStream : Bool
  stage : Stage

/-- A response handed to `sendAgentMessage`, which drops it if there is no stream. -/
structure Reply where
  handler : Nat
  id : UInt64
  response : QueryResponse
  onStream : Bool
  deriving DecidableEq

/-- Who sends on the stream: a query handler, or any other goroutine of the agent. -/
inductive Party where
  | handler (i : Nat)
  | other
  deriving DecidableEq

/-- `querySem` is the number of values in the channel of that name, `stream` whether there is
one, and `writeMu` who holds the lock. -/
structure World where
  querySem : Nat
  stream : Bool
  writeMu : Option Party
  handlers : List Handler
  sent : List Reply

def World.initial : World := ⟨0, false, none, [], []⟩

inductive Action where
  | connection (up : Bool)
  | otherLocks
  | otherUnlocks
  | spawn (id : UInt64) (req : QueryRequest)
  | acquire (i : Nat)
  | prepare (i : Nat)
  | answer (i : Nat) (a : StoreAnswer)
  | read (i : Nat)
  | lock (i : Nat)
  | send (i : Nat)
  | release (i : Nat)

/-- Who takes the action. -/
def Action.party : Action → Option Party
  | .connection _ | .spawn _ _ => none
  | .otherLocks | .otherUnlocks => some .other
  | .acquire i | .prepare i | .answer i _ | .read i | .lock i | .send i | .release i =>
    some (.handler i)

section Machine

variable (beyond : Nat → Nat) (urls : QueryURLs) (net : Network)

/-- The stage after the response is handed over: a slot is given back. -/
def afterReply (slot : Bool) : Stage := if slot then .releasing else .done

def step (w : World) : Action → Option World
  | .connection up => some { w with stream := up }
  | .otherLocks => if w.writeMu = none then some { w with writeMu := some .other } else none
  | .otherUnlocks => if w.writeMu = some .other then some { w with writeMu := none } else none
  | .spawn id req =>
    some { w with handlers := w.handlers ++ [⟨id, req, 0, none, false, .entered⟩] }
  -- The select never waits: without room in the channel its default branch refuses the query.
  | .acquire i =>
    match w.handlers[i]? with
    | some ⟨id, req, _, answer, onStream, .entered⟩ =>
      if w.querySem < maxConcurrentQueries then
        some { w with
          querySem := w.querySem + 1
          handlers := w.handlers.set i ⟨id, req, w.querySem, answer, onStream, .holding⟩ }
      else
        some { w with
          handlers := w.handlers.set i ⟨id, req, w.querySem, answer, onStream,
            .replying (errResp 429 (lit "too many concurrent queries")) false⟩ }
    | _ => none
  | .prepare i =>
    match w.handlers[i]? with
    | some ⟨id, req, inFlight, answer, onStream, .holding⟩ =>
      some { w with handlers := w.handlers.set i ⟨id, req, inFlight, answer, onStream,
        match QuerySlots.prepare beyond urls net req with
        | .error resp => .replying resp true
        | .ok call => .calling call⟩ }
    | _ => none
  | .answer i a =>
    match w.handlers[i]? with
    | some ⟨id, req, inFlight, _, onStream, .calling _⟩ =>
      some { w with
        handlers := w.handlers.set i
          ⟨id, req, inFlight, some a, onStream, .replying (answered a) true⟩ }
    | _ => none
  | .read i =>
    match w.handlers[i]? with
    | some ⟨id, req, inFlight, answer, _, .replying resp slot⟩ =>
      if w.stream then
        some { w with
          handlers := w.handlers.set i ⟨id, req, inFlight, answer, true, .queued resp slot⟩ }
      else
        some { w with
          handlers := w.handlers.set i ⟨id, req, inFlight, answer, false, afterReply slot⟩
          sent := w.sent ++ [⟨i, id, resp, false⟩] }
    | _ => none
  -- The lock is held across the send, so a handler waits here for whoever is sending.
  | .lock i =>
    match w.handlers[i]? with
    | some ⟨id, req, inFlight, answer, onStream, .queued resp slot⟩ =>
      if w.writeMu = none then
        some { w with
          writeMu := some (.handler i)
          handlers := w.handlers.set i
            ⟨id, req, inFlight, answer, onStream, .writing resp slot⟩ }
      else none
    | _ => none
  | .send i =>
    match w.handlers[i]? with
    | some ⟨id, req, inFlight, answer, onStream, .writing resp slot⟩ =>
      some { w with
        writeMu := none
        handlers := w.handlers.set i ⟨id, req, inFlight, answer, onStream, afterReply slot⟩
        sent := w.sent ++ [⟨i, id, resp, true⟩] }
    | _ => none
  -- The deferred receive waits while the channel is empty.
  | .release i =>
    match w.handlers[i]? with
    | some ⟨id, req, inFlight, answer, onStream, .releasing⟩ =>
      if 0 < w.querySem then
        some { w with
          querySem := w.querySem - 1
          handlers := w.handlers.set i ⟨id, req, inFlight, answer, onStream, .done⟩ }
      else none
    | _ => none

/-- The response of the handler run alone, with its own answer from the store. -/
def Handler.alone (h : Handler) : QueryResponse :=
  (handleQueryRequest beyond urls
    { net with perform := fun _ => h.answer.getD (.error []) } h.inFlight h.req).2

/-- The stage of a handler follows from what it has found so far. -/
def Handler.Consistent (h : Handler) : Prop :=
  match h.stage with
  | .entered => h.answer = none
  | .holding => h.answer = none ∧ h.inFlight < maxConcurrentQueries
  | .calling call => h.inFlight < maxConcurrentQueries ∧
      QuerySlots.prepare beyond urls net h.req = .ok call
  | .replying resp _ => resp = h.alone beyond urls net
  | .queued resp _ | .writing resp _ => resp = h.alone beyond urls net ∧ h.onStream = true
  | .releasing | .done => True

/-- What has been handed over for a handler. -/
def Handler.replies (h : Handler) (i : Nat) : List Reply :=
  if h.stage.replied then [⟨i, h.id, h.alone beyond urls net, h.onStream⟩] else []

end Machine

section Accounts

variable {beyond : Nat → Nat} {urls : QueryURLs} {net : Network}

private theorem alone_of_refused {h : Handler} (full : maxConcurrentQueries ≤ h.inFlight) :
    h.alone beyond urls net = errResp 429 (lit "too many concurrent queries") := by
  rw [Handler.alone, handleQueryRequest_eq, if_pos full]

private theorem alone_of_room {h : Handler} (room : h.inFlight < maxConcurrentQueries) :
    h.alone beyond urls net =
      match prepare beyond urls net h.req with
      | .error resp => resp
      | .ok _ => answered (h.answer.getD (.error [])) := by
  have same : prepare beyond urls { net with perform := fun _ => h.answer.getD (.error []) } h.req =
      prepare beyond urls net h.req := rfl
  rw [Handler.alone, handleQueryRequest_eq, if_neg (Nat.not_le.mpr room), same]
  cases prepare beyond urls net h.req <;> rfl

section

variable (slot : Bool)

@[simp] private theorem holdsSlot_afterReply : (afterReply slot).holdsSlot = slot := by
  cases slot <;> rfl

@[simp] private theorem isWriting_afterReply : (afterReply slot).isWriting = false := by
  cases slot <;> rfl

@[simp] private theorem replied_afterReply : (afterReply slot).replied = true := by
  cases slot <;> rfl

end

/-- The channel counts the handlers with a slot, the lock is held by the handler that writes,
every handler is where its own run would be, and the log holds its one reply. -/
structure Accounted (beyond : Nat → Nat) (urls : QueryURLs) (net : Network) (w : World) :
    Prop where
  slots : w.querySem = w.handlers.countP (fun h => h.stage.holdsSlot)
  bounded : w.querySem ≤ maxConcurrentQueries
  writing : ∀ {i : Nat} {h : Handler}, w.handlers[i]? = some h →
    (h.stage.isWriting = true ↔ w.writeMu = some (.handler i))
  holder : ∀ i, w.writeMu = some (.handler i) → i < w.handlers.length
  consistent : ∀ {i : Nat} {h : Handler}, w.handlers[i]? = some h → h.Consistent beyond urls net
  replies : ∀ {i : Nat} {h : Handler}, w.handlers[i]? = some h →
    w.sent.filter (fun r => r.handler = i) = h.replies beyond urls net i
  known : ∀ r ∈ w.sent, r.handler < w.handlers.length

variable {w w' : World}

private theorem Accounted.spawn (held : Accounted beyond urls net w) (id : UInt64)
    (req : QueryRequest) :
    Accounted beyond urls net
      { w with handlers := w.handlers ++ [⟨id, req, 0, none, false, .entered⟩] } where
  slots := by
    rw [List.countP_append, ← held.slots]
    rfl
  bounded := held.bounded
  writing := by
    refine forall_concat held.writing ?_
    exact iff_of_false nofun (fun holds => absurd (held.holder _ holds) (Nat.lt_irrefl _))
  holder i holds := by
    rw [List.length_append]
    exact Nat.lt_add_right _ (held.holder i holds)
  consistent := by
    refine forall_concat held.consistent ?_
    exact rfl
  replies := by
    refine forall_concat held.replies (List.filter_eq_nil_iff.mpr ?_)
    intro r member same
    have inside := held.known r member
    have outside : r.handler = w.handlers.length := of_decide_eq_true same
    omega
  known r member := by
    rw [List.length_append]
    exact Nat.lt_add_right _ (held.known r member)

private theorem Accounted.move (held : Accounted beyond urls net w) {i : Nat} {old : Handler}
    (here : w.handlers[i]? = some old) {new : Handler} {querySem : Nat}
    (count : querySem + (if old.stage.holdsSlot then 1 else 0) =
      w.querySem + if new.stage.holdsSlot then 1 else 0)
    (bounded : querySem ≤ maxConcurrentQueries) (consistent : new.Consistent beyond urls net)
    (writing : new.stage.isWriting = old.stage.isWriting)
    (same : new.replies beyond urls net i = old.replies beyond urls net i) :
    Accounted beyond urls net
      { w with querySem := querySem, handlers := w.handlers.set i new } where
  slots := by
    have counted := countP_set_add (fun h => h.stage.holdsSlot) here new
    have before := held.slots
    dsimp only at counted ⊢
    omega
  bounded := bounded
  writing := forall_set held.writing (by rw [writing]; exact held.writing here)
  holder j holds := by
    rw [List.length_set]
    exact held.holder j holds
  consistent := forall_set held.consistent consistent
  replies := forall_set held.replies ((held.replies here).trans same.symm)
  known r member := by
    rw [List.length_set]
    exact held.known r member

private theorem Accounted.lock (held : Accounted beyond urls net w) {i : Nat} {id : UInt64}
    {req : QueryRequest} {inFlight : Nat} {answer : Option StoreAnswer} {onStream slot : Bool}
    {resp : QueryResponse} (free : w.writeMu = none)
    (here : w.handlers[i]? = some ⟨id, req, inFlight, answer, onStream, .queued resp slot⟩) :
    Accounted beyond urls net { w with
      writeMu := some (.handler i)
      handlers := w.handlers.set i ⟨id, req, inFlight, answer, onStream, .writing resp slot⟩ } where
  slots := by
    have counted := countP_set_add (fun h => h.stage.holdsSlot) here
      ⟨id, req, inFlight, answer, onStream, .writing resp slot⟩
    exact held.slots.trans (Nat.add_right_cancel counted).symm
  bounded := held.bounded
  writing := by
    intro j h found
    rcases getElem?_set_cases found with ⟨rfl, rfl⟩ | ⟨other, found⟩
    · exact iff_of_true rfl rfl
    · have idle : h.stage.isWriting ≠ true := by
        rw [Ne, held.writing found, free]
        nofun
      refine iff_of_false idle (fun same => other ?_)
      cases same
      rfl
  holder j holds := by
    cases holds
    rw [List.length_set]
    exact (List.getElem?_eq_some_iff.mp here).1
  consistent := by
    intro j h found
    have queued : resp = _ ∧ onStream = true := held.consistent here
    refine forall_set held.consistent ?_ found
    exact queued
  replies := by
    intro j h found
    have earlier : w.sent.filter (fun r => r.handler = i) = [] := held.replies here
    refine forall_set held.replies ?_ found
    exact earlier
  known r member := by
    rw [List.length_set]
    exact held.known r member

private theorem Accounted.reply (held : Accounted beyond urls net w) {i : Nat} {old : Handler}
    (here : w.handlers[i]? = some old) {slot onStream : Bool} {writeMu : Option Party}
    (slotted : old.stage.holdsSlot = slot) (unsent : old.stage.replied = false)
    (dropped : writeMu ≠ some (.handler i))
    (others : ∀ j, j ≠ i → (writeMu = some (.handler j) ↔ w.writeMu = some (.handler j))) :
    Accounted beyond urls net { w with
      writeMu := writeMu
      handlers := w.handlers.set i
        ⟨old.id, old.req, old.inFlight, old.answer, onStream, afterReply slot⟩
      sent := w.sent ++ [⟨i, old.id, old.alone beyond urls net, onStream⟩] } where
  slots := by
    have counted := countP_set_add (fun h => h.stage.holdsSlot) here
      ⟨old.id, old.req, old.inFlight, old.answer, onStream, afterReply slot⟩
    dsimp only at counted
    rw [holdsSlot_afterReply, slotted] at counted
    exact held.slots.trans (Nat.add_right_cancel counted).symm
  bounded := held.bounded
  writing := by
    intro j h found
    rcases getElem?_set_cases found with ⟨rfl, rfl⟩ | ⟨other, found⟩
    · exact iff_of_false (by simp) dropped
    · rw [held.writing found, others j other]
  holder j holds := by
    rw [List.length_set]
    by_cases same : j = i
    · exact same ▸ (List.getElem?_eq_some_iff.mp here).1
    · exact held.holder j ((others j same).mp holds)
  consistent := by
    refine forall_set held.consistent ?_
    cases slot <;> trivial
  replies := by
    intro j h found
    rw [List.filter_append]
    rcases getElem?_set_cases found with ⟨rfl, rfl⟩ | ⟨other, found⟩
    · have earlier : w.sent.filter (fun r => r.handler = j) = [] := by
        rw [held.replies here, Handler.replies, unsent]
        rfl
      rw [earlier]
      simp [Handler.replies, Handler.alone]
    · have silent : ([⟨i, old.id, old.alone beyond urls net, onStream⟩] : List Reply).filter
          (fun r => r.handler = j) = [] := by
        simpa using Ne.symm other
      rw [silent, List.append_nil, held.replies found]
  known r member := by
    rw [List.length_set]
    rcases List.mem_append.mp member with earlier | last
    · exact held.known r earlier
    · obtain rfl := List.mem_singleton.mp last
      exact (List.getElem?_eq_some_iff.mp here).1

private theorem Accounted.others (held : Accounted beyond urls net w) {writeMu : Option Party}
    (before : ∀ i, w.writeMu ≠ some (.handler i)) (after : ∀ i, writeMu ≠ some (.handler i)) :
    Accounted beyond urls net { w with writeMu := writeMu } where
  slots := held.slots
  bounded := held.bounded
  writing found :=
    iff_of_false (fun writing => before _ ((held.writing found).mp writing)) (after _)
  holder i holds := absurd holds (after i)
  consistent := held.consistent
  replies := held.replies
  known := held.known

private theorem accounted_initial : Accounted beyond urls net World.initial where
  slots := rfl
  bounded := Nat.zero_le _
  writing found := by cases found
  holder _ holds := by cases holds
  consistent found := by cases found
  replies found := by cases found
  known r member := by cases member

private theorem accounted_step {a : Action} (held : Accounted beyond urls net w)
    (stepped : step beyond urls net w a = some w') : Accounted beyond urls net w' := by
  cases a with
  | connection up =>
    cases stepped
    exact { held with }
  | otherLocks =>
    simp only [step] at stepped
    split at stepped <;> cases stepped
    rename_i free
    exact held.others (fun i => by rw [free]; nofun) (fun i => nofun)
  | otherUnlocks =>
    simp only [step] at stepped
    split at stepped <;> cases stepped
    rename_i other
    exact held.others (fun i => by rw [other]; nofun) (fun i => nofun)
  | spawn id req =>
    cases stepped
    exact held.spawn id req
  | acquire i =>
    simp only [step] at stepped
    split at stepped
    · rename_i id req _ answer onStream here
      have unanswered : answer = none := held.consistent here
      split at stepped <;> cases stepped
      · rename_i room
        exact held.move here rfl room ⟨unanswered, room⟩ rfl rfl
      · rename_i full
        exact held.move here rfl held.bounded (alone_of_refused (Nat.not_lt.mp full)).symm rfl rfl
    · cases stepped
  | prepare i =>
    simp only [step] at stepped
    split at stepped
    · rename_i id req inFlight answer onStream here
      obtain ⟨-, room⟩ : answer = none ∧ inFlight < maxConcurrentQueries := held.consistent here
      cases stepped
      have final : Handler.alone beyond urls net
          ⟨id, req, inFlight, answer, onStream, .holding⟩ = _ := alone_of_room room
      cases prepared : prepare beyond urls net req with
      | error resp =>
        rw [prepared] at final
        exact held.move here rfl held.bounded final.symm rfl rfl
      | ok call => exact held.move here rfl held.bounded ⟨room, prepared⟩ rfl rfl
    · cases stepped
  | answer i a =>
    simp only [step] at stepped
    split at stepped
    · rename_i id req inFlight _ onStream call here
      obtain ⟨room, prepared⟩ : inFlight < maxConcurrentQueries ∧
        prepare beyond urls net req = .ok call := held.consistent here
      cases stepped
      have final : Handler.alone beyond urls net
          ⟨id, req, inFlight, some a, onStream, .calling call⟩ = _ := alone_of_room room
      rw [prepared] at final
      exact held.move here rfl held.bounded final.symm rfl rfl
    · cases stepped
  | read i =>
    simp only [step] at stepped
    split at stepped
    · rename_i id req inFlight answer _ resp slot here
      have final : resp = _ := held.consistent here
      split at stepped <;> cases stepped
      · exact held.move here rfl held.bounded ⟨final, rfl⟩ rfl rfl
      · have silent : w.writeMu ≠ some (.handler i) := by
          rw [Ne, ← held.writing here]
          nofun
        rw [final]
        exact held.reply here rfl rfl silent (fun _ _ => Iff.rfl)
    · cases stepped
  | lock i =>
    simp only [step] at stepped
    split at stepped
    · rename_i here
      split at stepped <;> cases stepped
      exact held.lock ‹_› here
    · cases stepped
  | send i =>
    simp only [step] at stepped
    split at stepped <;> cases stepped
    rename_i id req inFlight answer onStream resp slot here
    obtain ⟨final, found⟩ : resp = _ ∧ onStream = true := held.consistent here
    have holds : w.writeMu = some (.handler i) := (held.writing here).mp rfl
    rw [final, found]
    refine held.reply here rfl rfl nofun (fun j other => iff_of_false nofun ?_)
    rw [holds]
    intro same
    cases same
    exact other rfl
  | release i =>
    simp only [step] at stepped
    split at stepped
    · rename_i id req inFlight answer onStream here
      split at stepped <;> cases stepped
      rename_i filled
      refine held.move here ?_ ((Nat.sub_le _ _).trans held.bounded) trivial rfl rfl
      show w.querySem - 1 + 1 = w.querySem + 0
      omega
    · cases stepped

private theorem holder_enabled (held : Accounted beyond urls net w) {p : Party}
    (holds : w.writeMu = some p) :
    ∃ a, a.party = some p ∧ (step beyond urls net w a).isSome = true := by
  cases p with
  | other => exact ⟨.otherUnlocks, rfl, by simp [step, holds]⟩
  | handler i =>
    obtain ⟨h, here⟩ : ∃ h, w.handlers[i]? = some h :=
      ⟨_, List.getElem?_eq_getElem (held.holder i holds)⟩
    have writing := (held.writing here).mpr holds
    obtain ⟨id, req, inFlight, answer, onStream, stage⟩ := h
    cases stage with
    | writing resp slot => exact ⟨.send i, rfl, by simp [step, here]⟩
    | _ => cases writing

private theorem enabled (held : Accounted beyond urls net w) {i : Nat} {h : Handler}
    (here : w.handlers[i]? = some h) (open_ : h.stage ≠ .done) :
    ∃ a p, a.party = some p ∧ (step beyond urls net w a).isSome = true ∧
      (p = .handler i ∨ h.stage.isQueued = true ∧ w.writeMu = some p) := by
  obtain ⟨id, req, inFlight, answer, onStream, stage⟩ := h
  cases stage with
  | entered =>
    refine ⟨.acquire i, _, rfl, ?_, Or.inl rfl⟩
    simp only [step, here]
    split <;> rfl
  | holding => exact ⟨.prepare i, _, rfl, by simp [step, here], Or.inl rfl⟩
  | calling call => exact ⟨.answer i (.error []), _, rfl, by simp [step, here], Or.inl rfl⟩
  | replying resp slot =>
    refine ⟨.read i, _, rfl, ?_, Or.inl rfl⟩
    simp only [step, here]
    split <;> rfl
  | queued resp slot =>
    cases lock : w.writeMu with
    | none => exact ⟨.lock i, _, rfl, by simp [step, here, lock], Or.inl rfl⟩
    | some p =>
      obtain ⟨a, mine, goes⟩ := holder_enabled held lock
      exact ⟨a, p, mine, goes, Or.inr ⟨rfl, rfl⟩⟩
  | writing resp slot => exact ⟨.send i, _, rfl, by simp [step, here], Or.inl rfl⟩
  | releasing =>
    have filled : 0 < w.querySem := by
      rw [held.slots]
      exact List.countP_pos_iff.mpr ⟨_, List.mem_of_getElem? here, rfl⟩
    exact ⟨.release i, _, rfl, by simp [step, here, filled], Or.inl rfl⟩
  | done => exact absurd rfl open_

end Accounts

end SignalAgent.Control.QuerySlots
