/- MID: SignalAgent/Control/AckCorrelation
   layer: results
   source: components/edgecontroller/extension.go
   digest: Acks reach the one call whose id they carry, and delivering them never blocks. -/

import SignalAgent.Foundations.GoChannels
import SignalAgent.Foundations.GoMaps
import SignalAgent.Foundations.GoText
import SignalAgent.Foundations.GuardedRuns
import SignalAgent.Foundations.Interleavings
import SignalAgent.Index.IndexSync

set_option autoImplicit false
set_option relaxedAutoImplicit false

namespace SignalAgent.Control.AckCorrelation

open Foundations.GoChannels Foundations.GoMaps Foundations.GoText Foundations.GuardedRuns
open Foundations.Interleavings
open Index.IndexSync (Ack)

/-- Where a `sendAndWaitAck` call stands. An ack is a pointer: its place among the arrivals. -/
inductive Stage where
  | issued
  | registered
  | waiting
  | finished (ack : Option Nat)
  | returned (ack : Option Nat)
  deriving DecidableEq

structure Call where
  id : UInt64
  channel : Channel Nat
  stage : Stage
  deriving DecidableEq

/-- Where a `resolvePending` call stands; `delivering i` holds the channel of call `i`. -/
inductive Delivery where
  | entered
  | delivering (i : Nat)
  | done
  deriving DecidableEq

structure Arrival where
  id : UInt64
  ack : Ack
  delivery : Delivery
  deriving DecidableEq

/-- The correlation state of the extension; a channel is named by the call that made it. -/
structure World where
  corrSeq : UInt64
  pending : GoMap UInt64 Nat
  calls : List Call
  arrivals : List Arrival

def World.initial : World := ⟨0, ∅, [], []⟩

inductive Action where
  | call
  | register (i : Nat)
  | send (i : Nat) (ok : Bool)
  | receive (i : Nat)
  | giveUp (i : Nat)
  | cleanUp (i : Nat)
  | arrive (id : UInt64) (ack : Ack)
  | take (j : Nat)
  | deliver (j : Nat)
  deriving DecidableEq

/-- The lookup and delete of `resolvePending` under the lock. -/
def World.takePending (w : World) (j : Nat) (id : UInt64) (ack : Ack) : World :=
  match if id = 0 then none else w.pending.lookup id with
  | some i => { w with
      pending := w.pending.erase id
      arrivals := w.arrivals.set j ⟨id, ack, .delivering i⟩ }
  | none => { w with arrivals := w.arrivals.set j ⟨id, ack, .done⟩ }

/-- One critical section, channel operation or timeout of one call. -/
def step (w : World) : Action → Option World
  | .call => some { w with
      corrSeq := w.corrSeq + 1
      calls := w.calls ++ [⟨w.corrSeq + 1, .make 1, .issued⟩] }
  | .register i =>
    match w.calls[i]? with
    | some ⟨id, ch, .issued⟩ => some { w with
        pending := w.pending.insert id i
        calls := w.calls.set i ⟨id, ch, .registered⟩ }
    | _ => none
  -- Without a stream nothing is sent and the call waits all the same.
  | .send i ok =>
    match w.calls[i]? with
    | some ⟨id, ch, .registered⟩ =>
      some { w with calls := w.calls.set i ⟨id, ch, if ok then .waiting else .finished none⟩ }
    | _ => none
  | .receive i =>
    match w.calls[i]? with
    | some ⟨id, ch, .waiting⟩ => ch.receive.map (fun got =>
        { w with calls := w.calls.set i ⟨id, got.2, .finished (some got.1)⟩ })
    | _ => none
  -- The timeout, or the end of the stream's context.
  | .giveUp i =>
    match w.calls[i]? with
    | some ⟨id, ch, .waiting⟩ => some { w with calls := w.calls.set i ⟨id, ch, .finished none⟩ }
    | _ => none
  | .cleanUp i =>
    match w.calls[i]? with
    | some ⟨id, ch, .finished ack⟩ => some { w with
        pending := w.pending.erase id
        calls := w.calls.set i ⟨id, ch, .returned ack⟩ }
    | _ => none
  | .arrive id ack => some { w with arrivals := w.arrivals ++ [⟨id, ack, .entered⟩] }
  | .take j =>
    match w.arrivals[j]? with
    | some ⟨id, ack, .entered⟩ => some (w.takePending j id ack)
    | _ => none
  | .deliver j =>
    match w.arrivals[j]? with
    | some ⟨id, ack, .delivering i⟩ =>
      match w.calls[i]? with
      | some c => (c.channel.send j).map (fun ch => { w with
          calls := w.calls.set i { c with channel := ch }
          arrivals := w.arrivals.set j ⟨id, ack, .done⟩ })
      | none => none
    | _ => none

/-- A call has made its entry in the pending map and not yet run its deferred delete. -/
def Stage.outstanding : Stage → Bool
  | .registered | .waiting | .finished _ => true
  | _ => false

/-- What each step can do. -/
inductive Effect (w : World) : Action → World → Prop
  | call : Effect w .call { w with
      corrSeq := w.corrSeq + 1
      calls := w.calls ++ [⟨w.corrSeq + 1, .make 1, .issued⟩] }
  | register (i : Nat) (id : UInt64) (ch : Channel Nat)
      (here : w.calls[i]? = some ⟨id, ch, .issued⟩) :
      Effect w (.register i) { w with
        pending := w.pending.insert id i
        calls := w.calls.set i ⟨id, ch, .registered⟩ }
  | sent (i : Nat) (ok : Bool) (id : UInt64) (ch : Channel Nat)
      (here : w.calls[i]? = some ⟨id, ch, .registered⟩) :
      Effect w (.send i ok)
        { w with calls := w.calls.set i ⟨id, ch, if ok then .waiting else .finished none⟩ }
  | received (i j : Nat) (id : UInt64) (ch : Channel Nat)
      (here : w.calls[i]? = some ⟨id, ch, .waiting⟩) (member : j ∈ ch.sent) :
      Effect w (.receive i) { w with
        calls := w.calls.set i
          ⟨id, { ch with received := ch.received + 1 }, .finished (some j)⟩ }
  | gaveUp (i : Nat) (id : UInt64) (ch : Channel Nat)
      (here : w.calls[i]? = some ⟨id, ch, .waiting⟩) :
      Effect w (.giveUp i) { w with calls := w.calls.set i ⟨id, ch, .finished none⟩ }
  | cleanedUp (i : Nat) (id : UInt64) (ch : Channel Nat) (ack : Option Nat)
      (here : w.calls[i]? = some ⟨id, ch, .finished ack⟩) :
      Effect w (.cleanUp i) { w with
        pending := w.pending.erase id
        calls := w.calls.set i ⟨id, ch, .returned ack⟩ }
  | arrived (id : UInt64) (ack : Ack) :
      Effect w (.arrive id ack) { w with arrivals := w.arrivals ++ [⟨id, ack, .entered⟩] }
  | taken (j i : Nat) (id : UInt64) (ack : Ack) (here : w.arrivals[j]? = some ⟨id, ack, .entered⟩)
      (named : id ≠ 0) (found : w.pending.lookup id = some i) :
      Effect w (.take j) { w with
        pending := w.pending.erase id
        arrivals := w.arrivals.set j ⟨id, ack, .delivering i⟩ }
  | ignored (j : Nat) (id : UInt64) (ack : Ack) (here : w.arrivals[j]? = some ⟨id, ack, .entered⟩)
      (unknown : id = 0 ∨ w.pending.lookup id = none) :
      Effect w (.take j) { w with arrivals := w.arrivals.set j ⟨id, ack, .done⟩ }
  | delivered (j i : Nat) (id : UInt64) (ack : Ack) (c : Call) (ch : Channel Nat)
      (here : w.arrivals[j]? = some ⟨id, ack, .delivering i⟩) (target : w.calls[i]? = some c)
      (sent : c.channel.send j = some ch) :
      Effect w (.deliver j) { w with
        calls := w.calls.set i { c with channel := ch }
        arrivals := w.arrivals.set j ⟨id, ack, .done⟩ }

private theorem effect_takePending {w : World} {j : Nat} {id : UInt64} {ack : Ack}
    (here : w.arrivals[j]? = some ⟨id, ack, .entered⟩) :
    Effect w (.take j) (w.takePending j id ack) := by
  unfold World.takePending
  split
  · rename_i i found
    split at found
    · cases found
    · rename_i named
      exact .taken j i id ack here named found
  · rename_i missing
    refine .ignored j id ack here ?_
    split at missing
    · exact Or.inl ‹_›
    · exact Or.inr missing

theorem effect_of_step {w w' : World} {a : Action} (stepped : step w a = some w') :
    Effect w a w' := by
  cases a with
  | call =>
    obtain rfl := Option.some.inj stepped
    exact .call
  | register i =>
    simp only [step] at stepped
    split at stepped
    · rename_i id ch here
      obtain rfl := Option.some.inj stepped
      exact .register i id ch here
    · cases stepped
  | send i ok =>
    simp only [step] at stepped
    split at stepped
    · rename_i id ch here
      obtain rfl := Option.some.inj stepped
      exact .sent i ok id ch here
    · cases stepped
  | receive i =>
    simp only [step] at stepped
    split at stepped
    · rename_i id ch here
      obtain ⟨⟨j, ch'⟩, got, rfl⟩ := Option.map_eq_some_iff.mp stepped
      obtain ⟨member, rfl⟩ := Channel.receive_eq_some got
      exact .received i j id ch here member
    · cases stepped
  | giveUp i =>
    simp only [step] at stepped
    split at stepped
    · rename_i id ch here
      obtain rfl := Option.some.inj stepped
      exact .gaveUp i id ch here
    · cases stepped
  | cleanUp i =>
    simp only [step] at stepped
    split at stepped
    · rename_i id ch ack here
      obtain rfl := Option.some.inj stepped
      exact .cleanedUp i id ch ack here
    · cases stepped
  | arrive id ack =>
    obtain rfl := Option.some.inj stepped
    exact .arrived id ack
  | take j =>
    simp only [step] at stepped
    split at stepped
    · rename_i id ack here
      obtain rfl := Option.some.inj stepped
      exact effect_takePending here
    · cases stepped
  | deliver j =>
    simp only [step] at stepped
    split at stepped
    · rename_i id ack i here
      split at stepped
      · rename_i c target
        obtain ⟨ch, sent, rfl⟩ := Option.map_eq_some_iff.mp stepped
        exact .delivered j i id ack c ch here target sent
      · cases stepped
    · cases stepped

/-- What holds of the pending map, the channels and the resolvers while the ids are distinct. -/
structure Correlated (corrSeq : UInt64) (pending : GoMap UInt64 Nat) (calls : List Call)
    (arrivals : List Arrival) : Prop where
  seq : corrSeq.toNat = calls.length
  ids : ∀ {i : Nat} {c : Call}, calls[i]? = some c → c.id.toNat = i + 1
  capacity : ∀ {i : Nat} {c : Call}, calls[i]? = some c → c.channel.capacity = 1
  entry : ∀ {id : UInt64} {i : Nat}, pending.lookup id = some i →
    ∃ c, calls[i]? = some c ∧ c.id = id ∧ c.stage.outstanding = true ∧ c.channel.sent = []
  unclaimed : ∀ {id : UInt64} {i j : Nat} {a : Arrival}, pending.lookup id = some i →
    arrivals[j]? = some a → a.delivery ≠ .delivering i
  claim : ∀ {i j : Nat} {a : Arrival}, arrivals[j]? = some a → a.delivery = .delivering i →
    ∃ c, calls[i]? = some c ∧ c.id = a.id ∧ c.stage ≠ .issued ∧ c.channel.sent = []
  single : ∀ {i j k : Nat} {a b : Arrival}, arrivals[j]? = some a → arrivals[k]? = some b →
    a.delivery = .delivering i → b.delivery = .delivering i → j = k
  sent : ∀ {i j : Nat} {c : Call}, calls[i]? = some c → j ∈ c.channel.sent →
    c.channel.sent = [j] ∧ c.stage ≠ .issued ∧ ∃ a, arrivals[j]? = some a ∧ a.id = c.id
  result : ∀ {i j : Nat} {c : Call}, calls[i]? = some c →
    c.stage = .finished (some j) ∨ c.stage = .returned (some j) → j ∈ c.channel.sent

theorem correlated_initial : Correlated 0 ∅ [] [] where
  seq := rfl
  ids := by simp
  capacity := by simp
  entry := by simp
  unclaimed := by simp
  claim := by simp
  single := by simp
  sent := by simp
  result := by simp

section Moves

variable {corrSeq : UInt64} {pending : GoMap UInt64 Nat} {calls : List Call}
  {arrivals : List Arrival}

private theorem Correlated.same_call (held : Correlated corrSeq pending calls arrivals) {i k : Nat}
    {c d : Call} (here : calls[i]? = some c) (there : calls[k]? = some d) (same : c.id = d.id) :
    i = k := by
  have first := held.ids here
  have second := held.ids there
  rw [same, second] at first
  omega

private theorem Correlated.newCall (held : Correlated corrSeq pending calls arrivals)
    (few : calls.length + 1 < 2 ^ 64) :
    Correlated (corrSeq + 1) pending (calls ++ [⟨corrSeq + 1, .make 1, .issued⟩]) arrivals := by
  have next : (corrSeq + 1).toNat = calls.length + 1 := by
    rw [UInt64.toNat_add, held.seq]
    exact Nat.mod_eq_of_lt few
  constructor
  case seq => simpa using next
  case ids => exact forall_concat held.ids next
  case capacity => exact forall_concat held.capacity rfl
  case entry =>
    intro id i found
    obtain ⟨c, here, rest⟩ := held.entry found
    exact ⟨c, getElem?_concat_of_some here, rest⟩
  case unclaimed => exact held.unclaimed
  case claim =>
    intro i j a here delivering
    obtain ⟨c, target, rest⟩ := held.claim here delivering
    exact ⟨c, getElem?_concat_of_some target, rest⟩
  case single => exact held.single
  case sent =>
    intro i j c here member
    rcases getElem?_concat_cases here with ⟨rfl, rfl⟩ | here
    · cases member
    · exact held.sent here member
  case result =>
    intro i j c here ended
    rcases getElem?_concat_cases here with ⟨rfl, rfl⟩ | here
    · rcases ended with ended | ended <;> cases ended
    · exact held.result here ended

private theorem Correlated.moveCall (held : Correlated corrSeq pending calls arrivals) {i : Nat}
    {c d : Call} (here : calls[i]? = some c) (sameId : d.id = c.id)
    (sameCapacity : d.channel.capacity = c.channel.capacity)
    (sameSent : d.channel.sent = c.channel.sent) (past : d.stage ≠ .issued)
    (listed : ∀ id, pending.lookup id = some i → d.stage.outstanding = true)
    (result : ∀ j, d.stage = .finished (some j) ∨ d.stage = .returned (some j) →
      j ∈ c.channel.sent) :
    Correlated corrSeq pending (calls.set i d) arrivals := by
  constructor
  case seq => simpa using held.seq
  case ids =>
    intro k e found
    have moved : d.id.toNat = i + 1 := sameId ▸ held.ids here
    exact forall_set held.ids moved found
  case capacity =>
    intro k e found
    have moved : d.channel.capacity = 1 := sameCapacity.trans (held.capacity here)
    exact forall_set held.capacity moved found
  case entry =>
    intro id k found
    obtain ⟨e, there, named, outstanding, unused⟩ := held.entry found
    rcases getElem?_set_of_some d here there with ⟨rfl, rfl, moved⟩ | stays
    · exact ⟨d, moved, sameId.trans named, listed id found, sameSent.trans unused⟩
    · exact ⟨e, stays, named, outstanding, unused⟩
  case unclaimed => exact held.unclaimed
  case claim =>
    intro k j a arrived delivering
    obtain ⟨e, there, named, started, unused⟩ := held.claim arrived delivering
    rcases getElem?_set_of_some d here there with ⟨rfl, rfl, moved⟩ | stays
    · exact ⟨d, moved, sameId.trans named, past, sameSent.trans unused⟩
    · exact ⟨e, stays, named, started, unused⟩
  case single => exact held.single
  case sent =>
    intro k j e found member
    rcases getElem?_set_cases found with ⟨rfl, rfl⟩ | ⟨-, found⟩
    · rw [sameSent] at member ⊢
      rw [sameId]
      obtain ⟨only, -, origin⟩ := held.sent here member
      exact ⟨only, past, origin⟩
    · exact held.sent found member
  case result =>
    intro k j e found ended
    rcases getElem?_set_cases found with ⟨rfl, rfl⟩ | ⟨-, found⟩
    · rw [sameSent]
      exact result j ended
    · exact held.result found ended

private theorem Correlated.erase (held : Correlated corrSeq pending calls arrivals) (id : UInt64) :
    Correlated corrSeq (pending.erase id) calls arrivals := by
  have kept : ∀ {key i}, (pending.erase id).lookup key = some i → pending.lookup key = some i := by
    intro key i found
    rw [lookup_erase_eq] at found
    split at found
    · cases found
    · exact found
  exact { held with
    entry := fun found => held.entry (kept found)
    unclaimed := fun found => held.unclaimed (kept found) }

private theorem Correlated.insert (held : Correlated corrSeq pending calls arrivals) {i : Nat}
    {c : Call} (here : calls[i]? = some c) (outstanding : c.stage.outstanding = true)
    (unused : c.channel.sent = [])
    (free : ∀ (j : Nat) (a : Arrival), arrivals[j]? = some a → a.delivery ≠ .delivering i) :
    Correlated corrSeq (pending.insert c.id i) calls arrivals := by
  refine { held with entry := ?_, unclaimed := ?_ }
  · intro id k found
    rw [lookup_insert_eq] at found
    split at found
    · rename_i same
      obtain rfl := Option.some.inj found
      exact ⟨c, here, same.symm, outstanding, unused⟩
    · exact held.entry found
  · intro id k j a found arrived
    rw [lookup_insert_eq] at found
    split at found
    · obtain rfl := Option.some.inj found
      exact free j a arrived
    · exact held.unclaimed found arrived

private theorem Correlated.moveArrivals (held : Correlated corrSeq pending calls arrivals)
    {later : List Arrival}
    (kept : ∀ {j : Nat} {a : Arrival}, arrivals[j]? = some a →
      ∃ b, later[j]? = some b ∧ b.id = a.id)
    (origin : ∀ {j i : Nat} {b : Arrival}, later[j]? = some b → b.delivery = .delivering i →
      arrivals[j]? = some b) :
    Correlated corrSeq pending calls later := by
  constructor
  case seq => exact held.seq
  case ids => exact held.ids
  case capacity => exact held.capacity
  case entry => exact held.entry
  case unclaimed =>
    intro id i j b found there delivering
    exact held.unclaimed found (origin there delivering) delivering
  case claim =>
    intro i j b there delivering
    exact held.claim (origin there delivering) delivering
  case single =>
    intro i j k a b first second fromFirst fromSecond
    exact held.single (origin first fromFirst) (origin second fromSecond) fromFirst fromSecond
  case sent =>
    intro i j c here member
    obtain ⟨only, started, a, arrived, same⟩ := held.sent here member
    obtain ⟨b, there, named⟩ := kept arrived
    exact ⟨only, started, b, there, named.trans same⟩
  case result => exact held.result

private theorem id_of_set {j k : Nat} {a old : Arrival} (here : arrivals[j]? = some old)
    (delivery : Delivery) (found : arrivals[k]? = some a) :
    ∃ b, (arrivals.set j ⟨old.id, old.ack, delivery⟩)[k]? = some b ∧ b.id = a.id := by
  rcases getElem?_set_of_some ⟨old.id, old.ack, delivery⟩ here found with ⟨-, rfl, moved⟩ | stays
  · exact ⟨_, moved, rfl⟩
  · exact ⟨a, stays, rfl⟩

private theorem Correlated.takeEntry (held : Correlated corrSeq pending calls arrivals) {i j : Nat}
    {id : UInt64} {ack : Ack} (here : arrivals[j]? = some ⟨id, ack, .entered⟩)
    (found : pending.lookup id = some i) :
    Correlated corrSeq (pending.erase id) calls (arrivals.set j ⟨id, ack, .delivering i⟩) := by
  -- A resolver takes the entry of its id and holds the channel of that call alone.
  obtain ⟨c, target, named, outstanding, unused⟩ := held.entry found
  have started : c.stage ≠ .issued := by
    intro issued
    rw [issued] at outstanding
    cases outstanding
  constructor
  case seq => exact held.seq
  case ids => exact held.ids
  case capacity => exact held.capacity
  case entry => exact (held.erase id).entry
  case unclaimed =>
    intro key k l a there arrived delivering
    rcases getElem?_set_cases arrived with ⟨rfl, rfl⟩ | ⟨-, arrived⟩
    · -- Another entry for the same channel would carry the same id.
      obtain rfl : i = k := Delivery.delivering.inj delivering
      rw [lookup_erase_eq] at there
      split at there
      · cases there
      · rename_i other
        obtain ⟨d, target', named', -⟩ := held.entry there
        obtain rfl := Option.some.inj (target.symm.trans target')
        exact other (named'.symm.trans named)
    · exact (held.erase id).unclaimed there arrived delivering
  case claim =>
    intro k l a arrived delivering
    rcases getElem?_set_cases arrived with ⟨rfl, rfl⟩ | ⟨-, arrived⟩
    · obtain rfl : i = k := Delivery.delivering.inj delivering
      exact ⟨c, target, named, started, unused⟩
    · exact held.claim arrived delivering
  case single =>
    intro k l m a b first second fromFirst fromSecond
    rcases getElem?_set_cases first with ⟨here₁, rfl⟩ | ⟨-, before₁⟩
    · obtain rfl : i = k := Delivery.delivering.inj fromFirst
      rcases getElem?_set_cases second with ⟨here₂, -⟩ | ⟨-, before₂⟩
      · exact here₁.trans here₂.symm
      · exact absurd fromSecond (held.unclaimed found before₂)
    · rcases getElem?_set_cases second with ⟨-, rfl⟩ | ⟨-, before₂⟩
      · obtain rfl : i = k := Delivery.delivering.inj fromSecond
        exact absurd fromFirst (held.unclaimed found before₁)
      · exact held.single before₁ before₂ fromFirst fromSecond
  case sent =>
    intro k l d there member
    obtain ⟨only, past, a, arrived, same⟩ := held.sent there member
    obtain ⟨b, now, kept⟩ := id_of_set here (.delivering i) arrived
    exact ⟨only, past, b, now, kept.trans same⟩
  case result => exact held.result

private theorem Correlated.send_free (held : Correlated corrSeq pending calls arrivals) {i j : Nat}
    {a : Arrival} (here : arrivals[j]? = some a) (delivering : a.delivery = .delivering i) :
    ∃ c, calls[i]? = some c ∧ c.id = a.id ∧ c.stage ≠ .issued ∧ c.channel.sent = [] ∧
      c.channel.send j = some { c.channel with sent := [j] } := by
  obtain ⟨c, target, named, started, unused⟩ := held.claim here delivering
  have room : 0 < c.channel.capacity := by
    rw [held.capacity target]
    exact Nat.one_pos
  exact ⟨c, target, named, started, unused, Channel.send_of_unused unused room j⟩

private theorem Correlated.deliver (held : Correlated corrSeq pending calls arrivals) {i j : Nat}
    {id : UInt64} {ack : Ack} {c : Call} (here : arrivals[j]? = some ⟨id, ack, .delivering i⟩)
    (target : calls[i]? = some c) (named : c.id = id) (started : c.stage ≠ .issued)
    (unused : c.channel.sent = []) :
    Correlated corrSeq pending (calls.set i { c with channel := { c.channel with sent := [j] } })
      (arrivals.set j ⟨id, ack, .done⟩) := by
  have arrivedBefore : ∀ {k : Nat} {b : Arrival} {l : Nat},
      (arrivals.set j ⟨id, ack, .done⟩)[k]? = some b → b.delivery = .delivering l →
        arrivals[k]? = some b ∧ l ≠ i := by
    intro k b l found delivering
    rcases getElem?_set_cases found with ⟨-, rfl⟩ | ⟨other, found⟩
    · cases delivering
    · refine ⟨found, ?_⟩
      rintro rfl
      exact other (held.single found here delivering rfl)
  constructor
  case seq => simpa using held.seq
  case ids =>
    intro k d found
    have moved : c.id.toNat = i + 1 := held.ids target
    refine forall_set held.ids ?_ found
    exact moved
  case capacity =>
    intro k d found
    have moved : c.channel.capacity = 1 := held.capacity target
    refine forall_set held.capacity ?_ found
    exact moved
  case entry =>
    intro key k found
    obtain ⟨d, there, rest⟩ := held.entry found
    have other : i ≠ k := by
      rintro rfl
      exact held.unclaimed found here rfl
    exact ⟨d, by rw [List.getElem?_set_ne other, there], rest⟩
  case unclaimed =>
    intro key k l b found arrived delivering
    exact held.unclaimed found (arrivedBefore arrived delivering).1 delivering
  case claim =>
    intro k l b arrived delivering
    obtain ⟨before, other⟩ := arrivedBefore arrived delivering
    obtain ⟨d, there, rest⟩ := held.claim before delivering
    exact ⟨d, by rw [List.getElem?_set_ne (Ne.symm other), there], rest⟩
  case single =>
    intro k l m a b first second fromFirst fromSecond
    exact held.single (arrivedBefore first fromFirst).1 (arrivedBefore second fromSecond).1
      fromFirst fromSecond
  case sent =>
    intro k l d found member
    rcases getElem?_set_cases found with ⟨rfl, rfl⟩ | ⟨-, found⟩
    · obtain rfl := List.mem_singleton.mp member
      exact ⟨rfl, started, ⟨id, ack, .done⟩, getElem?_set_here here, named.symm⟩
    · obtain ⟨only, past, a, arrived, same⟩ := held.sent found member
      obtain ⟨b, now, kept⟩ := id_of_set here .done arrived
      exact ⟨only, past, b, now, kept.trans same⟩
  case result =>
    intro k l d found ended
    rcases getElem?_set_cases found with ⟨rfl, rfl⟩ | ⟨-, found⟩
    · have early := held.result target ended
      rw [unused] at early
      cases early
    · exact held.result found ended

private theorem Correlated.fresh (held : Correlated corrSeq pending calls arrivals) {i : Nat}
    {c : Call} (here : calls[i]? = some c) (issued : c.stage = .issued) :
    c.channel.sent = [] ∧
      ∀ (j : Nat) (a : Arrival), arrivals[j]? = some a → a.delivery ≠ .delivering i := by
  constructor
  · refine List.eq_nil_iff_forall_not_mem.mpr (fun j member => ?_)
    exact (held.sent here member).2.1 issued
  · intro j a arrived delivering
    obtain ⟨d, there, -, started, -⟩ := held.claim arrived delivering
    obtain rfl := Option.some.inj (here.symm.trans there)
    exact started issued

end Moves

abbrev World.Correlated (w : World) : Prop :=
  AckCorrelation.Correlated w.corrSeq w.pending w.calls w.arrivals

private theorem correlated_step {w w' : World} {a : Action} (held : w.Correlated)
    (few : w'.calls.length < 2 ^ 64) (effect : Effect w a w') : w'.Correlated := by
  cases effect with
  | call => exact held.newCall (by simpa using few)
  | register i id ch here =>
    obtain ⟨unused, free⟩ := held.fresh here rfl
    have moved := held.moveCall (d := ⟨id, ch, .registered⟩) here rfl rfl rfl nofun
      (fun _ _ => rfl) (fun _ ended => by rcases ended with ended | ended <;> cases ended)
    exact moved.insert (getElem?_set_here here) rfl unused free
  | sent i ok id ch here =>
    refine held.moveCall here rfl rfl rfl ?_ ?_ ?_
    · cases ok <;> nofun
    · cases ok <;> exact fun _ _ => rfl
    · intro j ended
      cases ok <;> rcases ended with ended | ended <;> cases ended
  | received i j id ch here member =>
    refine held.moveCall here rfl rfl rfl nofun (fun _ _ => rfl) ?_
    intro k ended
    rcases ended with ended | ended
    · cases ended
      exact member
    · cases ended
  | gaveUp i id ch here =>
    refine held.moveCall here rfl rfl rfl nofun (fun _ _ => rfl) ?_
    intro k ended
    rcases ended with ended | ended <;> cases ended
  | cleanedUp i id ch ack here =>
    refine (held.erase id).moveCall here rfl rfl rfl nofun ?_ ?_
    · intro key found
      obtain ⟨d, there, named, -⟩ := (held.erase id).entry found
      obtain rfl := Option.some.inj (here.symm.trans there)
      dsimp only at named
      rw [← named, lookup_erase_eq, if_pos rfl] at found
      cases found
    · intro j ended
      rcases ended with ended | ended
      · cases ended
      · refine held.result here (Or.inl ?_)
        cases ended
        rfl
  | arrived id ack =>
    refine held.moveArrivals ?_ ?_
    · intro j a found
      exact ⟨a, getElem?_concat_of_some found, rfl⟩
    · intro j i b found delivering
      rcases getElem?_concat_cases found with ⟨-, rfl⟩ | found
      · cases delivering
      · exact found
  | taken j i id ack here named found => exact held.takeEntry here found
  | ignored j id ack here unknown =>
    refine held.moveArrivals (fun found => id_of_set here .done found) ?_
    intro k i b found delivering
    rcases getElem?_set_cases found with ⟨-, rfl⟩ | ⟨-, found⟩
    · cases delivering
    · exact found
  | delivered j i id ack c ch here target sent =>
    obtain ⟨d, there, named, started, unused, free⟩ := held.send_free here rfl
    obtain rfl := Option.some.inj (target.symm.trans there)
    obtain rfl := Option.some.inj (sent.symm.trans free)
    exact held.deliver here target named started unused

private theorem calls_grow {w w' : World} {a : Action} (effect : Effect w a w') :
    w.calls.length ≤ w'.calls.length := by
  cases effect with
  | call => simp
  | _ => simp

/-- What correlation promises in one state. -/
structure Exact (w : World) : Prop where
  own : ∀ {i j : Nat} {c : Call}, w.calls[i]? = some c → c.stage = .returned (some j) →
    ∃ a, w.arrivals[j]? = some a ∧ a.id = c.id
  once : ∀ {i k j : Nat} {c d : Call}, w.calls[i]? = some c → w.calls[k]? = some d →
    j ∈ c.channel.sent → j ∈ d.channel.sent → i = k
  single : ∀ {i : Nat} {c : Call}, w.calls[i]? = some c → c.channel.sent.length ≤ 1
  unblocked : ∀ {j i : Nat} {a : Arrival}, w.arrivals[j]? = some a →
    a.delivery = .delivering i → (step w (.deliver j)).isSome = true
  settled : (∀ c ∈ w.calls, ∃ ack, c.stage = .returned ack) → w.pending = ∅

private theorem exact_of_correlated {w : World} (held : w.Correlated) : Exact w := by
  constructor
  case own =>
    intro i j c here returned
    have member := held.result here (Or.inr returned)
    exact (held.sent here member).2.2
  case once =>
    intro i k j c d here there first second
    obtain ⟨-, -, a, arrived, fromFirst⟩ := held.sent here first
    obtain ⟨-, -, b, arrived', fromSecond⟩ := held.sent there second
    obtain rfl := Option.some.inj (arrived.symm.trans arrived')
    exact held.same_call here there (fromFirst.symm.trans fromSecond)
  case single =>
    intro i c here
    cases values : c.channel.sent with
    | nil => exact Nat.zero_le 1
    | cons j rest =>
      have only := (held.sent here (values ▸ List.mem_cons_self)).1
      rw [← values, only]
      exact Nat.le_refl 1
  case unblocked =>
    intro j i a arrived delivering
    obtain ⟨c, target, -, -, -, free⟩ := held.send_free arrived delivering
    obtain ⟨id, ack, delivery⟩ := a
    dsimp only at delivering
    subst delivering
    simp [step, arrived, target, free]
  case settled =>
    intro returned
    refine Finmap.ext_lookup (fun id => ?_)
    rw [Finmap.lookup_empty]
    by_contra some
    obtain ⟨i, found⟩ := Option.ne_none_iff_exists'.mp some
    obtain ⟨c, here, -, outstanding, -⟩ := held.entry found
    obtain ⟨ack, stage⟩ := returned c (List.mem_of_getElem? here)
    rw [stage] at outstanding
    cases outstanding

/-- In every interleaving, while fewer than 2^64 ids have been issued, a call returns only an
ack that arrived with its id, an ack is handed to one call, a channel gets one value, delivering
never blocks, and the pending map is empty when no call is outstanding. -/
theorem acks_are_correlated {acts : List Action} {w : World}
    (run : Run step (fun _ _ => True) World.initial acts w) (few : w.calls.length < 2 ^ 64) :
    Exact w := by
  have held := run.stateInvariant (fun w => w.calls.length < 2 ^ 64 → w.Correlated)
    (fun _ => correlated_initial) (by
      intro s t a before _ stepped few
      have effect := effect_of_step stepped
      exact correlated_step (before (Nat.lt_of_le_of_lt (calls_grow effect) few)) few effect)
  exact exact_of_correlated (held few)


/-- Two calls; the second is acked twice, the first times out before its ack arrives, and an ack
without an id comes last. -/
def lateAndDuplicateAcks : List Action :=
  [.call, .call, .register 0, .register 1, .send 0 true, .send 1 true,
    .arrive 2 ⟨true, []⟩, .arrive 2 ⟨true, []⟩, .take 0, .take 1, .deliver 0, .receive 1,
    .cleanUp 1, .giveUp 0, .cleanUp 0, .arrive 1 ⟨true, []⟩, .take 2, .arrive 0 ⟨true, []⟩, .take 3]

theorem late_and_duplicate_acks_are_dropped :
    ∃ w, Run step (fun _ _ => True) World.initial lateAndDuplicateAcks w ∧
      w.calls.map Call.stage = [.returned none, .returned (some 0)] ∧ w.pending = ∅ := by
  have executed : (exec step (fun _ _ => true) World.initial lateAndDuplicateAcks).any
      (fun w => decide (w.calls.map Call.stage = [.returned none, .returned (some 0)])) = true := by
    decide +kernel
  obtain ⟨w, run, final⟩ := exists_run_of_exec (fun _ _ => true) lateAndDuplicateAcks _
    (fun _ _ _ => trivial) executed
  have stages := of_decide_eq_true final
  have two : w.calls.length = 2 := by simpa using congrArg List.length stages
  have few : w.calls.length < 2 ^ 64 := by
    rw [two]
    decide
  refine ⟨w, run, stages, (acks_are_correlated run few).settled ?_⟩
  intro c member
  have listed := List.mem_map_of_mem (f := Call.stage) member
  rw [stages] at listed
  simp only [List.mem_cons, List.not_mem_nil, or_false] at listed
  rcases listed with stage | stage
  · exact ⟨_, stage⟩
  · exact ⟨_, stage⟩

end SignalAgent.Control.AckCorrelation
