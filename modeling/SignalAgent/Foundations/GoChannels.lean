/- MID: SignalAgent/Foundations/GoChannels
   layer: library
   source: none
   digest: Buffered channels with everything ever sent on them. -/

import Mathlib.Data.List.Basic

set_option autoImplicit false
set_option relaxedAutoImplicit false

namespace SignalAgent.Foundations.GoChannels

/-- A buffered channel: all values sent on it so far, and how many have been received. -/
structure Channel (α : Type) where
  capacity : Nat
  sent : List α
  received : Nat
  deriving DecidableEq

variable {α : Type}

/-- `make(chan α, capacity)`. -/
def Channel.make (capacity : Nat) : Channel α := ⟨capacity, [], 0⟩

def Channel.buffer (ch : Channel α) : List α := ch.sent.drop ch.received

/-- A send blocks while the buffer is full. -/
def Channel.send (ch : Channel α) (x : α) : Option (Channel α) :=
  if ch.buffer.length < ch.capacity then some { ch with sent := ch.sent ++ [x] } else none

/-- A receive blocks while the buffer is empty. -/
def Channel.receive (ch : Channel α) : Option (α × Channel α) :=
  ch.buffer.head?.map (fun x => (x, { ch with received := ch.received + 1 }))

theorem Channel.send_of_unused {ch : Channel α} (unused : ch.sent = []) (room : 0 < ch.capacity)
    (x : α) : ch.send x = some { ch with sent := [x] } := by
  rw [Channel.send, Channel.buffer, unused, List.drop_nil]
  exact if_pos room

theorem Channel.receive_eq_some {ch ch' : Channel α} {x : α}
    (got : ch.receive = some (x, ch')) :
    x ∈ ch.sent ∧ ch' = { ch with received := ch.received + 1 } := by
  obtain ⟨y, first, same⟩ := Option.map_eq_some_iff.mp got
  obtain ⟨rfl, rfl⟩ := Prod.mk.inj same
  exact ⟨List.mem_of_mem_drop (List.mem_of_head? first), rfl⟩

end SignalAgent.Foundations.GoChannels
