/- MID: SignalAgent/Control/AgentWire
   layer: model
   source: proto agent_control.proto, proto gen agent_control.pb.go
   digest: The message types of the control stream, both envelopes and the codec of each. -/

import Mathlib.Logic.Equiv.Option
import SignalAgent.Control.ConfigReads
import SignalAgent.Control.QueryTunnel
import SignalAgent.Demand.Heartbeats
import SignalAgent.Foundations.ProtoMessages
import SignalAgent.Index.IndexWire

/-!
The two timestamps that are naturals elsewhere are `int64` on the wire; a negative one, which no
agent sends, is read as zero.
-/

set_option autoImplicit false
set_option relaxedAutoImplicit false

namespace SignalAgent.Control.AgentWire

open Foundations.GoText Foundations.ProtoMessages
open Demand.DemandPipeline (DemandSet TraceDemand)
open Demand.Heartbeats (Ping)
open Index.IndexSync (Ack ActiveSeries DiscoveredSeries IndexMessage Label)
open ConfigApply (CommandResult UpdateConfig)
open ConfigReads (ConfigFile ConfigSnapshot)
open QueryTunnel (Header QueryRequest QueryResponse QueryTarget)

structure Hello where
  version : GoString
  deriving DecidableEq

inductive AgentBody where
  | hello (hello : Hello)
  | ping (ping : Ping)
  | indexCreate (series : List DiscoveredSeries)
  | indexUpdate (series : List ActiveSeries)
  | indexDelete (fingerprints : List (List UInt8))
  | commandResult (result : CommandResult)
  | queryResponse (response : QueryResponse)
  | configSnapshot (snapshot : ConfigSnapshot)
  deriving DecidableEq

structure AgentMessage where
  correlationId : UInt64
  body : Option AgentBody
  deriving DecidableEq

inductive ServerBody where
  | pong
  | ack (ack : Ack)
  | demandSet (set : DemandSet)
  | getStatus
  | updateConfig (update : UpdateConfig)
  | queryRequest (request : QueryRequest)
  | getDiagnosis
  | getConfig
  deriving DecidableEq

structure ServerMessage where
  correlationId : UInt64
  body : Option ServerBody
  deriving DecidableEq

section Scalars

def int64 : Scalar Int := signed (2 ^ 63) (Nat.dvd_refl _)

def int32 : Scalar Int := signed (2 ^ 31) (by decide)

def machineInt32 : Scalar Int32 := int32.via Int32.toInt Int32.ofInt

def timestamp : Scalar Nat := int64.via Int.ofNat Int.toNat

def QueryTarget.toInt : QueryTarget → Int
  | .vm => 0
  | .loki => 1
  | .tempo => 2
  | .unrecognized number => number

def QueryTarget.ofInt (number : Int) : QueryTarget :=
  if number = 0 then .vm
  else if number = 1 then .loki
  else if number = 2 then .tempo
  else .unrecognized number

def queryTarget : Scalar QueryTarget := int32.via QueryTarget.toInt QueryTarget.ofInt

end Scalars

section Messages

def label : Codec Label :=
  ((textField 1 (by decide)).pair (textField 2 (by decide)) (by decide)).ofEquiv
    { toFun := fun p => ⟨p.1, p.2⟩
      invFun := fun l => (l.name, l.value)
      left_inv := fun _ => rfl
      right_inv := fun _ => rfl }

def discoveredSeries : Codec DiscoveredSeries :=
  ((rawField 1 (by decide)).pair
    ((textField 2 (by decide)).pair (repeated 3 (message label) (by decide)) (by decide))
    (by decide)).ofEquiv
    { toFun := fun p => ⟨p.1, p.2.1, p.2.2⟩
      invFun := fun s => (s.fingerprint, s.metricName, s.labels)
      left_inv := fun _ => rfl
      right_inv := fun _ => rfl }

def activeSeries : Codec ActiveSeries :=
  ((rawField 1 (by decide)).pair
    ((scalar 2 int64 (by decide)).pair (scalar 3 timestamp (by decide)) (by decide))
    (by decide)).ofEquiv
    { toFun := fun p => ⟨p.1, p.2.1, p.2.2⟩
      invFun := fun s => (s.fingerprint, s.samples, s.lastUpdateMs)
      left_inv := fun _ => rfl
      right_inv := fun _ => rfl }

def hello : Codec Hello :=
  (textField 1 (by decide)).ofEquiv
    { toFun := Hello.mk
      invFun := Hello.version
      left_inv := fun _ => rfl
      right_inv := fun _ => rfl }

def ping : Codec Ping :=
  ((scalar 1 machineInt32 (by decide)).pair
    ((scalar 2 machineInt32 (by decide)).pair
      ((scalar 3 machineInt32 (by decide)).pair
        ((scalar 4 machineInt32 (by decide)).pair
          ((scalar 5 timestamp (by decide)).pair
            ((scalar 6 machineInt32 (by decide)).pair (scalar 7 uint64 (by decide)) (by decide))
            (by decide)) (by decide)) (by decide)) (by decide)) (by decide)).ofEquiv
    { toFun := fun p => ⟨p.1, p.2.1, p.2.2.1, p.2.2.2.1, p.2.2.2.2.1, p.2.2.2.2.2.1, p.2.2.2.2.2.2⟩
      invFun := fun p => (p.knownCacheSize, p.discoveredCacheSize, p.pendingBackendUpdates,
        p.demandCacheSize, p.demandLastUpdate, p.demandedKnownCacheSize, p.demandHash)
      left_inv := fun _ => rfl
      right_inv := fun _ => rfl }

def commandResult : Codec CommandResult :=
  ((scalar 1 bool (by decide)).pair (textField 2 (by decide)) (by decide)).ofEquiv
    { toFun := fun p => ⟨p.1, p.2⟩
      invFun := fun r => (r.success, r.message)
      left_inv := fun _ => rfl
      right_inv := fun _ => rfl }

def ack : Codec Ack :=
  ((scalar 1 bool (by decide)).pair (textField 2 (by decide)) (by decide)).ofEquiv
    { toFun := fun p => ⟨p.1, p.2⟩
      invFun := fun a => (a.success, a.message)
      left_inv := fun _ => rfl
      right_inv := fun _ => rfl }

def traceDemand : Codec TraceDemand :=
  ((textField 1 (by decide)).pair (textField 2 (by decide)) (by decide)).ofEquiv
    { toFun := fun p => ⟨p.1, p.2⟩
      invFun := fun d => (d.selector, d.filterId)
      left_inv := fun _ => rfl
      right_inv := fun _ => rfl }

def demandSet : Codec DemandSet :=
  ((repeated 1 text (by decide)).pair
    ((scalar 2 uint64 (by decide)).pair
      ((repeated 3 text (by decide)).pair
        ((repeated 4 text (by decide)).pair
          ((repeated 5 text (by decide)).pair (repeated 6 (message traceDemand) (by decide))
            (by decide)) (by decide)) (by decide)) (by decide)) (by decide)).ofEquiv
    { toFun := fun p => ⟨p.1, p.2.2.1, p.2.2.2.1, p.2.2.2.2.1, p.2.2.2.2.2, p.2.1⟩
      invFun := fun d => (d.metrics, d.hash, d.logSelectors, d.traceSelectors, d.metricSelectors,
        d.traceDemands)
      left_inv := fun _ => rfl
      right_inv := fun _ => rfl }

/-- The schema of a demand set before its trace demands came with the ids of their filters. -/
def untaggedDemandSet :
    Codec (List GoString × UInt64 × List GoString × List GoString × List GoString) :=
  (repeated 1 text (by decide)).pair
    ((scalar 2 uint64 (by decide)).pair
      ((repeated 3 text (by decide)).pair
        ((repeated 4 text (by decide)).pair (repeated 5 text (by decide)) (by decide))
        (by decide)) (by decide)) (by decide)

def configFile : Codec ConfigFile :=
  ((textField 1 (by decide)).pair
    ((rawField 2 (by decide)).pair
      ((scalar 3 bool (by decide)).pair (textField 4 (by decide)) (by decide)) (by decide))
    (by decide)).ofEquiv
    { toFun := fun p => ⟨p.1, p.2.1, p.2.2.1, p.2.2.2⟩
      invFun := fun f => (f.path, f.content, f.writable, f.error)
      left_inv := fun _ => rfl
      right_inv := fun _ => rfl }

def configSnapshot : Codec ConfigSnapshot :=
  ((repeated 1 (message configFile) (by decide)).pair
    ((textField 2 (by decide)).pair
      ((scalar 3 bool (by decide)).pair (textField 4 (by decide)) (by decide)) (by decide))
    (by decide)).ofEquiv
    { toFun := fun p => ⟨p.1, p.2.1, p.2.2.1, p.2.2.2⟩
      invFun := fun s => (s.files, s.primaryPath, s.writeEnabled, s.error)
      left_inv := fun _ => rfl
      right_inv := fun _ => rfl }

def updateConfig : Codec UpdateConfig :=
  ((rawField 1 (by decide)).pair
    ((textField 2 (by decide)).pair (scalar 3 bool (by decide)) (by decide)) (by decide)).ofEquiv
    { toFun := fun p => ⟨p.2.1, p.1, p.2.2⟩
      invFun := fun u => (u.config, u.path, u.skipReload)
      left_inv := fun _ => rfl
      right_inv := fun _ => rfl }

def header : Codec Header :=
  ((textField 1 (by decide)).pair (repeated 2 text (by decide)) (by decide)).ofEquiv
    { toFun := fun p => ⟨p.1, p.2⟩
      invFun := fun h => (h.name, h.values)
      left_inv := fun _ => rfl
      right_inv := fun _ => rfl }

def queryRequest : Codec QueryRequest :=
  ((textField 1 (by decide)).pair
    ((textField 2 (by decide)).pair
      ((textField 3 (by decide)).pair
        ((rawField 4 (by decide)).pair
          ((repeated 5 (message header) (by decide)).pair (scalar 6 queryTarget (by decide))
            (by decide)) (by decide)) (by decide)) (by decide)) (by decide)).ofEquiv
    { toFun := fun p => ⟨p.1, p.2.1, p.2.2.1, p.2.2.2.1, p.2.2.2.2.1, p.2.2.2.2.2⟩
      invFun := fun r => (r.method, r.path, r.rawQuery, r.body, r.headers, r.target)
      left_inv := fun _ => rfl
      right_inv := fun _ => rfl }

def queryResponse : Codec QueryResponse :=
  ((scalar 1 int32 (by decide)).pair
    ((rawField 2 (by decide)).pair
      ((repeated 3 (message header) (by decide)).pair (textField 4 (by decide)) (by decide))
      (by decide)) (by decide)).ofEquiv
    { toFun := fun p => ⟨p.1, p.2.1, p.2.2.1, p.2.2.2⟩
      invFun := fun r => (r.statusCode, r.body, r.headers, r.error)
      left_inv := fun _ => rfl
      right_inv := fun _ => rfl }

end Messages

section Envelopes

def agentBody : Choice (Hello ⊕ Ping ⊕ List DiscoveredSeries ⊕ List ActiveSeries ⊕
    List (List UInt8) ⊕ CommandResult ⊕ QueryResponse ⊕ ConfigSnapshot) :=
  (alternative 2 hello (by decide)).either
    ((alternative 3 ping (by decide)).either
      ((alternative 4 (repeated 1 (message discoveredSeries) (by decide)) (by decide)).either
        ((alternative 5 (repeated 1 (message activeSeries) (by decide)) (by decide)).either
          ((alternative 6 (repeated 1 raw (by decide)) (by decide)).either
            ((alternative 7 commandResult (by decide)).either
              ((alternative 8 queryResponse (by decide)).either
                (alternative 9 configSnapshot (by decide)) (by decide)) (by decide)) (by decide))
          (by decide)) (by decide)) (by decide)) (by decide)

/-- The generated wrapper types of the `oneof`. -/
def agentBodyEquiv : Hello ⊕ Ping ⊕ List DiscoveredSeries ⊕ List ActiveSeries ⊕
    List (List UInt8) ⊕ CommandResult ⊕ QueryResponse ⊕ ConfigSnapshot ≃ AgentBody where
  toFun
    | .inl h => .hello h
    | .inr (.inl p) => .ping p
    | .inr (.inr (.inl s)) => .indexCreate s
    | .inr (.inr (.inr (.inl s))) => .indexUpdate s
    | .inr (.inr (.inr (.inr (.inl f)))) => .indexDelete f
    | .inr (.inr (.inr (.inr (.inr (.inl r))))) => .commandResult r
    | .inr (.inr (.inr (.inr (.inr (.inr (.inl r)))))) => .queryResponse r
    | .inr (.inr (.inr (.inr (.inr (.inr (.inr s)))))) => .configSnapshot s
  invFun
    | .hello h => .inl h
    | .ping p => .inr (.inl p)
    | .indexCreate s => .inr (.inr (.inl s))
    | .indexUpdate s => .inr (.inr (.inr (.inl s)))
    | .indexDelete f => .inr (.inr (.inr (.inr (.inl f))))
    | .commandResult r => .inr (.inr (.inr (.inr (.inr (.inl r)))))
    | .queryResponse r => .inr (.inr (.inr (.inr (.inr (.inr (.inl r))))))
    | .configSnapshot s => .inr (.inr (.inr (.inr (.inr (.inr (.inr s))))))
  left_inv := by rintro (_ | _ | _ | _ | _ | _ | _ | _) <;> rfl
  right_inv := by rintro (_ | _ | _ | _ | _ | _ | _ | _) <;> rfl

def agentMessage : Codec AgentMessage :=
  ((scalar 1 uint64 (by decide)).pair (agentBody.codec.ofEquiv agentBodyEquiv.optionCongr)
    (by decide)).ofEquiv
    { toFun := fun p => ⟨p.1, p.2⟩
      invFun := fun m => (m.correlationId, m.body)
      left_inv := fun _ => rfl
      right_inv := fun _ => rfl }

def serverBody : Choice (Unit ⊕ Ack ⊕ DemandSet ⊕ Unit ⊕ UpdateConfig ⊕ QueryRequest ⊕ Unit ⊕
    Unit) :=
  (alternative 2 empty (by decide)).either
    ((alternative 3 ack (by decide)).either
      ((alternative 4 demandSet (by decide)).either
        ((alternative 5 empty (by decide)).either
          ((alternative 6 updateConfig (by decide)).either
            ((alternative 7 queryRequest (by decide)).either
              ((alternative 8 empty (by decide)).either
                (alternative 9 empty (by decide)) (by decide)) (by decide)) (by decide))
          (by decide)) (by decide)) (by decide)) (by decide)

def serverBodyEquiv : Unit ⊕ Ack ⊕ DemandSet ⊕ Unit ⊕ UpdateConfig ⊕ QueryRequest ⊕ Unit ⊕
    Unit ≃ ServerBody where
  toFun
    | .inl _ => .pong
    | .inr (.inl a) => .ack a
    | .inr (.inr (.inl d)) => .demandSet d
    | .inr (.inr (.inr (.inl _))) => .getStatus
    | .inr (.inr (.inr (.inr (.inl u)))) => .updateConfig u
    | .inr (.inr (.inr (.inr (.inr (.inl q))))) => .queryRequest q
    | .inr (.inr (.inr (.inr (.inr (.inr (.inl _)))))) => .getDiagnosis
    | .inr (.inr (.inr (.inr (.inr (.inr (.inr _)))))) => .getConfig
  invFun
    | .pong => .inl ()
    | .ack a => .inr (.inl a)
    | .demandSet d => .inr (.inr (.inl d))
    | .getStatus => .inr (.inr (.inr (.inl ())))
    | .updateConfig u => .inr (.inr (.inr (.inr (.inl u))))
    | .queryRequest q => .inr (.inr (.inr (.inr (.inr (.inl q)))))
    | .getDiagnosis => .inr (.inr (.inr (.inr (.inr (.inr (.inl ()))))))
    | .getConfig => .inr (.inr (.inr (.inr (.inr (.inr (.inr ()))))))
  left_inv := by rintro (_ | _ | _ | _ | _ | _ | _ | _) <;> rfl
  right_inv := by rintro (_ | _ | _ | _ | _ | _ | _ | _) <;> rfl

def serverMessage : Codec ServerMessage :=
  ((scalar 1 uint64 (by decide)).pair (serverBody.codec.ofEquiv serverBodyEquiv.optionCongr)
    (by decide)).ofEquiv
    { toFun := fun p => ⟨p.1, p.2⟩
      invFun := fun m => (m.correlationId, m.body)
      left_inv := fun _ => rfl
      right_inv := fun _ => rfl }

/-- What `Send` puts on the stream: nothing if the message cannot be written or is too large. -/
def send (m : AgentMessage) : Option (List UInt8) :=
  (agentMessage.marshal m).filter (fun wire => wire.length ≤ QueryTunnel.maxMessageBytes)

/-- What `Recv` makes of a message of the stream. -/
def recv (wire : List UInt8) : Option ServerMessage :=
  if wire.length ≤ QueryTunnel.maxMessageBytes then serverMessage.unmarshal wire else none

end Envelopes

end SignalAgent.Control.AgentWire
