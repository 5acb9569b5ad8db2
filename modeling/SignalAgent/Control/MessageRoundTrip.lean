/- MID: SignalAgent/Control/MessageRoundTrip
   layer: results
   source: proto agent_control.proto, components/edgecontroller/extension.go
   digest: What is sent is read back as it was, also by peers with fewer or more fields. -/

import SignalAgent.Control.AgentWire

set_option autoImplicit false
set_option relaxedAutoImplicit false

namespace SignalAgent.Control.MessageRoundTrip

open Foundations.GoText Foundations.ProtoMessages Foundations.ProtoWire Foundations.Utf8
open Codec (Extends filter_put filter_put_unknown)
open Demand.DemandPipeline (DemandSet)
open Index.IndexSync (IndexMessage)
open AgentWire QueryTunnel

/-- The `string` fields of a message, which have to be UTF-8; `bytes` fields are free. -/
def texts : AgentBody → List GoString
  | .hello h => [h.version]
  | .ping _ | .indexUpdate _ | .indexDelete _ => []
  | .indexCreate series =>
    series.flatMap (fun s => s.metricName :: s.labels.flatMap (fun l => [l.name, l.value]))
  | .commandResult r => [r.message]
  | .queryResponse r => r.headers.flatMap (fun h => h.name :: h.values) ++ [r.error]
  | .configSnapshot s => s.files.flatMap (fun f => [f.path, f.error]) ++ [s.primaryPath, s.error]

/-- The numbers fit the machine integers of their fields. -/
def InRange : AgentBody → Prop
  | .ping p => p.demandLastUpdate < 2 ^ 63
  | .indexUpdate series => ∀ s ∈ series,
      (-2 ^ 63 ≤ s.samples ∧ s.samples < 2 ^ 63) ∧ s.lastUpdateMs < 2 ^ 63
  | .queryResponse r => -2 ^ 31 ≤ r.statusCode ∧ r.statusCode < 2 ^ 31
  | _ => True

structure Writable (body : AgentBody) : Prop where
  utf8 : ∀ s ∈ texts body, validString s = true
  inRange : InRange body

/-- The body a message of the index goes out as. -/
def indexBody : IndexMessage → AgentBody
  | .indexCreate series => .indexCreate series
  | .indexUpdate series => .indexUpdate series
  | .indexDelete fingerprints => .indexDelete fingerprints

section Validity

@[simp] private theorem valid_int64 (v : Int) :
    int64.valid v = true ↔ -2 ^ 63 ≤ v ∧ v < 2 ^ 63 := by
  simp [int64, signed]

@[simp] private theorem valid_int32 (v : Int) :
    int32.valid v = true ↔ -2 ^ 31 ≤ v ∧ v < 2 ^ 31 := by
  simp [int32, signed]

@[simp] private theorem valid_timestamp (n : Nat) : timestamp.valid n = true ↔ n < 2 ^ 63 := by
  have back : (Int.ofNat n).toNat = n := rfl
  rw [timestamp, Scalar.via, Bool.and_eq_true_iff, valid_int64, decide_eq_true_eq]
  constructor
  · rintro ⟨⟨-, high⟩, -⟩
    exact Int.ofNat_lt.mp high
  · intro high
    exact ⟨⟨Int.le_trans (by decide) (Int.natCast_nonneg n), Int.ofNat_lt.mpr high⟩, back⟩

@[simp] private theorem valid_machineInt32 (v : Int32) : machineInt32.valid v = true := by
  rw [machineInt32, Scalar.via, Bool.and_eq_true_iff, valid_int32]
  exact ⟨⟨v.le_toInt, v.toInt_lt⟩, decide_eq_true v.ofInt_toInt⟩

private theorem writable_iff (body : AgentBody) :
    Writable body ↔ (texts body).all validString = true ∧ InRange body := by
  rw [List.all_eq_true]
  exact ⟨fun writable => ⟨writable.utf8, writable.inRange⟩, fun both => ⟨both.1, both.2⟩⟩

private theorem valid_body (id : UInt64) (body : AgentBody) :
    agentMessage.valid ⟨id, some body⟩ = agentBody.valid (agentBodyEquiv.symm body) := rfl

theorem valid_agentMessage (m : AgentMessage) :
    agentMessage.valid m = true ↔ ∀ body, m.body = some body → Writable body := by
  obtain ⟨id, - | body⟩ := m
  · exact iff_of_true rfl (fun body unset => by cases unset)
  · rw [show (∀ b, some body = some b → Writable b) ↔ Writable body by
      simp only [Option.some.injEq, forall_eq'], writable_iff, valid_body]
    cases body with
    | hello h => simp [agentBodyEquiv, agentBody, hello, texts, InRange]
    | ping p => simp [agentBodyEquiv, agentBody, ping, texts, InRange]
    | indexCreate series =>
      simp [agentBodyEquiv, agentBody, discoveredSeries, label, texts, InRange]
    | indexUpdate series => simp [agentBodyEquiv, agentBody, activeSeries, texts, InRange]
    | indexDelete fingerprints => simp [agentBodyEquiv, agentBody, texts, InRange]
    | commandResult r => simp [agentBodyEquiv, agentBody, commandResult, texts, InRange]
    | queryResponse r =>
      simp [agentBodyEquiv, agentBody, queryResponse, header, texts, InRange, and_comm, and_assoc]
    | configSnapshot s =>
      simp [agentBodyEquiv, agentBody, configSnapshot, configFile, texts, InRange]

end Validity

section Sending

theorem short_of_limit {wire : List UInt8} (fits : wire.length ≤ maxMessageBytes) :
    wire.length < 2 ^ 64 := by
  have limit : maxMessageBytes = 16777216 := rfl
  omega

theorem encode_correlationId (id : UInt64) :
    encodeFields ((scalar 1 uint64 (by decide)).put id) = uint64Field 1 id.toNat :=
  encode_scalar (by decide) uint64 id

theorem send_eq_some {m : AgentMessage} {wire : List UInt8} :
    send m = some wire ↔ agentMessage.valid m = true ∧ wire = agentMessage.encode m ∧
      wire.length ≤ maxMessageBytes := by
  rw [send, Codec.marshal, Option.filter_eq_some_iff, decide_eq_true_eq]
  constructor
  · rintro ⟨written, fits⟩
    split at written
    · rename_i valid
      exact ⟨valid, (Option.some.inj written).symm, fits⟩
    · cases written
  · rintro ⟨valid, rfl, fits⟩
    exact ⟨if_pos valid, fits⟩

private theorem send_eq_none (m : AgentMessage) :
    send m = none ↔ (∃ body, m.body = some body ∧ ¬ Writable body) ∨
      maxMessageBytes < (agentMessage.encode m).length := by
  have sent : send m = some (agentMessage.encode m) ↔ agentMessage.valid m = true ∧
      (agentMessage.encode m).length ≤ maxMessageBytes := by
    rw [send_eq_some]
    exact ⟨fun h => ⟨h.1, h.2.2⟩, fun h => ⟨h.1, rfl, h.2⟩⟩
  have lost : send m = none ↔ ¬ (agentMessage.valid m = true ∧
      (agentMessage.encode m).length ≤ maxMessageBytes) := by
    rw [← sent]
    cases outcome : send m with
    | none => exact iff_of_true rfl nofun
    | some wire =>
      have same := (send_eq_some.mp outcome).2.1
      exact iff_of_false nofun (fun other => other (congrArg some same))
  rw [lost, not_and_or, Nat.not_le, valid_agentMessage]
  simp only [not_forall, exists_prop]

end Sending

section IndexMessages

open Index.IndexWire

private theorem encode_label (l : Index.IndexSync.Label) : label.encode l = encodeLabel l := by
  have parts : label.encode l = ((textField 1 (by decide)).pair (textField 2 (by decide))
    (by decide)).encode (l.name, l.value) := rfl
  rw [parts, encode_pair, encode_textField, encode_textField, encodeLabel]

private theorem encode_discoveredSeries (s : Index.IndexSync.DiscoveredSeries) :
    discoveredSeries.encode s = encodeDiscoveredSeries s := by
  have parts : discoveredSeries.encode s = ((rawField 1 (by decide)).pair
    ((textField 2 (by decide)).pair (repeated 3 (message label) (by decide)) (by decide))
    (by decide)).encode (s.fingerprint, s.metricName, s.labels) := rfl
  have labels : (message label).encode = encodeLabel := funext encode_label
  rw [parts, encode_pair, encode_pair, encode_rawField, encode_textField, encode_repeated, labels,
    encodeDiscoveredSeries, List.append_assoc]

private theorem encode_activeSeries (s : Index.IndexSync.ActiveSeries) :
    activeSeries.encode s = encodeActiveSeries s := by
  have parts : activeSeries.encode s = ((rawField 1 (by decide)).pair
    ((scalar 2 int64 (by decide)).pair (scalar 3 timestamp (by decide)) (by decide))
    (by decide)).encode (s.fingerprint, s.samples, s.lastUpdateMs) := rfl
  rw [parts, encode_pair, encode_pair, encode_rawField, encode_scalar, encode_scalar,
    encodeActiveSeries, List.append_assoc]
  rfl

private theorem put_indexBody (msg : IndexMessage) :
    agentBody.put (agentBodyEquiv.symm (indexBody msg)) =
      ⟨bodyField msg, .bytes (encodeBody msg)⟩ := by
  cases msg with
  | indexCreate series =>
    have body : (repeated 1 (message discoveredSeries)
        (by decide)).encode series = encodeBody (.indexCreate series) := by
      have each : (message discoveredSeries).encode =
        encodeDiscoveredSeries := funext encode_discoveredSeries
      rw [encode_repeated, each, encodeBody]
    exact congrArg (fun content => WireField.mk 4 (.bytes content)) body
  | indexUpdate series =>
    have body : (repeated 1 (message activeSeries)
        (by decide)).encode series = encodeBody (.indexUpdate series) := by
      have each : (message activeSeries).encode =
        encodeActiveSeries := funext encode_activeSeries
      rw [encode_repeated, each, encodeBody]
    exact congrArg (fun content => WireField.mk 5 (.bytes content)) body
  | indexDelete fingerprints =>
    have body : (repeated 1 raw (by decide)).encode fingerprints =
        encodeBody (.indexDelete fingerprints) := by
      rw [encode_repeated, encodeBody]
      exact congrArg (repeatedField 1) (List.map_id fingerprints)
    exact congrArg (fun content => WireField.mk 6 (.bytes content)) body

private theorem encode_indexBody (id : UInt64) (message : IndexMessage) :
    agentMessage.encode ⟨id, some (indexBody message)⟩ = encodeAgentMessage id message := by
  have parts : agentMessage.encode ⟨id, some (indexBody message)⟩ =
      encodeFields ((scalar 1 uint64 (by decide)).put id ++
        [agentBody.put (agentBodyEquiv.symm (indexBody message))]) := rfl
  rw [parts, encodeFields_append, encode_correlationId, encodeFields_singleton, put_indexBody,
    encode_bytes, encodeAgentMessage]

end IndexMessages

/-- Whatever the agent sends, a reader of the same schema reads back; a message is not sent
exactly when a text of it is not UTF-8, a number is no machine integer, or it is too large; and
the messages of the index have the encoding their size limits are about. -/
theorem agent_messages_round_trip :
    (∀ m wire, send m = some wire → agentMessage.unmarshal wire = some m) ∧
      (∀ m, send m = none ↔ (∃ body, m.body = some body ∧ ¬ Writable body) ∨
        maxMessageBytes < (agentMessage.encode m).length) ∧
      ∀ id message, agentMessage.encode ⟨id, some (indexBody message)⟩ =
        Index.IndexWire.encodeAgentMessage id message := by
  refine ⟨fun m wire sent => ?_, send_eq_none, encode_indexBody⟩
  obtain ⟨valid, rfl, fits⟩ := send_eq_some.mp sent
  exact agentMessage.unmarshal_encode valid (short_of_limit fits)

theorem latin1_reply_is_not_sent :
    (∃ wire, send ⟨7, some (.commandResult ⟨true, lit "ok"⟩)⟩ = some wire ∧
      agentMessage.unmarshal wire = some ⟨7, some (.commandResult ⟨true, lit "ok"⟩)⟩) ∧
      send ⟨7, some (.queryResponse ⟨200, [], [⟨lit "Content-Type", [[0xE9]]⟩], []⟩)⟩ = none := by
  obtain ⟨back, lost, -⟩ := agent_messages_round_trip
  constructor
  · have sent : (send ⟨7, some (.commandResult ⟨true, lit "ok"⟩)⟩).isSome = true := by
      decide +kernel
    obtain ⟨wire, sent⟩ := Option.isSome_iff_exists.mp sent
    exact ⟨wire, sent, back _ wire sent⟩
  · refine (lost _).mpr (Or.inl ⟨_, rfl, fun writable => ?_⟩)
    have utf8 : validString [0xE9] = true := writable.utf8 [0xE9] (by decide)
    exact absurd utf8 (by decide)

section Receiving

private theorem recv_of_short {wire : List UInt8} (fits : wire.length ≤ maxMessageBytes) :
    recv wire = serverMessage.unmarshal wire := if_pos fits

private theorem merge_demandSet {id : UInt64} {content : List UInt8} {set : DemandSet}
    (read : demandSet.unmarshal content = some set) :
    serverMessage.merge ⟨id, none⟩ ⟨4, .bytes content⟩ =
      some ⟨id, some (.demandSet set)⟩ := by
  have inside : demandSet.unmarshalInto demandSet.default content = some set := read
  have body : serverBody.merge none ⟨4, .bytes content⟩ = some (some (.inr (.inr (.inl set)))) := by
    simp [serverBody, Choice.either, alternative, onBytes, Choice.leftOf, Choice.rightOf, inside]
  have split : serverMessage.merge ⟨id, none⟩ ⟨4, .bytes content⟩ =
    ((some id).bind (fun a =>
      ((serverBody.merge none ⟨4, .bytes content⟩).map serverBodyEquiv.optionCongr).map
        (fun b => (a, b)))).map (fun p => ⟨p.1, p.2⟩) := rfl
  rw [split, body]
  rfl

private theorem short_correlationId (id : UInt64) :
    (encodeFields ((scalar 1 uint64 (by decide)).put id)).length < 2 ^ 64 := by
  have few := uint64Size_le id.toNat_lt
  rw [encode_correlationId, length_uint64Field (by decide)]
  omega

private theorem merge_correlationId (id : UInt64) :
    ((scalar 1 uint64 (by decide)).put id).foldlM serverMessage.merge serverMessage.default =
      some ⟨id, none⟩ := by
  have put : serverMessage.put ⟨id, none⟩ = (scalar 1 uint64 (by decide)).put id :=
    List.append_nil _
  rw [← put]
  exact serverMessage.merge_put ⟨id, none⟩ rfl (put ▸ short_correlationId id)

private theorem recv_demandSet {id : UInt64} {set : DemandSet} {inner outer : List WireField}
    (written : demandSet.valid set = true) (sent : Extends demandSet set inner)
    (known : outer.filter (fun f => f.number ∈ serverMessage.numbers) =
      (scalar 1 uint64 (by decide)).put id ++ [⟨4, .bytes (encodeFields inner)⟩])
    (added : ∀ f ∈ outer, f.number ∉ serverMessage.numbers → f.WellFormed)
    (short : (encodeFields outer).length ≤ maxMessageBytes) :
    recv (encodeFields outer) = some ⟨id, some (.demandSet set)⟩ := by
  have mine : ∀ f ∈ outer, f.number ∈ serverMessage.numbers →
      f ∈ (scalar 1 uint64 (by decide)).put id ∨ f = ⟨4, .bytes (encodeFields inner)⟩ := by
    intro f member number
    have listed : f ∈ outer.filter (fun f => f.number ∈ serverMessage.numbers) :=
      List.mem_filter.mpr ⟨member, by simpa using number⟩
    rw [known, List.mem_append, List.mem_singleton] at listed
    exact listed
  have enclosed : ⟨4, .bytes (encodeFields inner)⟩ ∈ outer := by
    have listed : ⟨4, .bytes (encodeFields inner)⟩ ∈
        outer.filter (fun f => f.number ∈ serverMessage.numbers) := by
      rw [known]
      exact List.mem_append_right _ List.mem_cons_self
    exact (List.mem_filter.mp listed).1
  have fits : (encodeFields inner).length < 2 ^ 64 := content_fits (short_of_limit short) enclosed
  have wellFormed : ∀ f ∈ outer, f.WellFormed := by
    intro f member
    by_cases number : f.number ∈ serverMessage.numbers
    · rcases mine f member number with correlation | rfl
      · exact (scalar 1 uint64 (by decide)).put_wellFormed rfl (short_correlationId id) f
          correlation
      · exact ⟨show 0 < 4 by decide, show 4 < 2 ^ 29 by decide, fits⟩
    · exact added f member number
  rw [recv_of_short short, serverMessage.unmarshal_encodeFields wellFormed, known,
    List.foldlM_append, merge_correlationId, Option.bind_eq_bind, Option.bind_some]
  simp only [List.foldlM_cons, List.foldlM_nil, merge_demandSet (sent.unmarshal written fits)]
  rfl

private theorem untagged_extends {set : DemandSet} (written : demandSet.valid set = true)
    (short : (demandSet.encode set).length < 2 ^ 64) :
    Extends untaggedDemandSet
      (set.metrics, set.hash, set.logSelectors, set.traceSelectors, set.metricSelectors)
      (demandSet.put set) where
  known := by
    -- To the older schema the tagged trace demands are one more unknown field.
    have parts : demandSet.put set = (repeated 1 text (by decide)).put set.metrics ++
      ((scalar 2 uint64 (by decide)).put set.hash ++
        ((repeated 3 text (by decide)).put set.logSelectors ++
          ((repeated 4 text (by decide)).put set.traceSelectors ++
            ((repeated 5 text (by decide)).put set.metricSelectors ++
              (repeated 6 (message traceDemand) (by decide)).put set.traceDemands)))) := rfl
    rw [parts]
    simp only [List.filter_append]
    rw [filter_put, filter_put, filter_put, filter_put, filter_put, filter_put_unknown,
      List.append_nil]
    · rfl
    all_goals decide
  added := fun f member _ => demandSet.put_wellFormed written short f member

private theorem untagged_valid {set : DemandSet} (written : demandSet.valid set = true) :
    untaggedDemandSet.valid
      (set.metrics, set.hash, set.logSelectors, set.traceSelectors, set.metricSelectors) =
        true := by
  have parts : demandSet.valid set = (set.metrics.all validString && (true &&
    (set.logSelectors.all validString && (set.traceSelectors.all validString &&
      (set.metricSelectors.all validString && set.traceDemands.all traceDemand.valid))))) := rfl
  have older : untaggedDemandSet.valid
      (set.metrics, set.hash, set.logSelectors, set.traceSelectors, set.metricSelectors) =
    (set.metrics.all validString && (true && (set.logSelectors.all validString &&
      (set.traceSelectors.all validString && set.metricSelectors.all validString)))) := rfl
  rw [parts] at written
  rw [older]
  simp only [Bool.and_eq_true] at written ⊢
  exact ⟨written.1, written.2.1, written.2.2.1, written.2.2.2.1, written.2.2.2.2.1⟩

end Receiving

/-- What a server writes within the message limit is read back by the agent, also with fields of
other numbers among those of the envelope, and for a demand set among its own as well; and an agent
whose schema ends before the tagged trace demands reads the rest of a demand set as it was written.
-/
theorem additions_are_skipped :
    (∀ m fields, serverMessage.valid m = true → Extends serverMessage m fields →
      (encodeFields fields).length ≤ maxMessageBytes → recv (encodeFields fields) = some m) ∧
      (∀ id set inner outer, demandSet.valid set = true → Extends demandSet set inner →
        outer.filter (fun f => f.number ∈ serverMessage.numbers) =
          (scalar 1 uint64 (by decide)).put id ++ [⟨4, .bytes (encodeFields inner)⟩] →
        (∀ f ∈ outer, f.number ∉ serverMessage.numbers → f.WellFormed) →
        (encodeFields outer).length ≤ maxMessageBytes →
        recv (encodeFields outer) = some ⟨id, some (.demandSet set)⟩) ∧
      ∀ set, demandSet.valid set = true → (demandSet.encode set).length < 2 ^ 64 →
        untaggedDemandSet.unmarshal (demandSet.encode set) =
          some (set.metrics, set.hash, set.logSelectors, set.traceSelectors,
            set.metricSelectors) := by
  refine ⟨?_, fun _ _ _ _ => recv_demandSet, ?_⟩
  · intro m fields written extended short
    rw [recv_of_short short]
    exact extended.unmarshal written (short_of_limit short)
  · intro set written short
    exact (untagged_extends written short).unmarshal (untagged_valid written) short

/-- A demand set of a server that has gone on: a seventh field in it, and one more around it. -/
def laterFields : List WireField :=
  demandSet.put ⟨[lit "up"], [], [], [], [⟨lit "s", lit "f"⟩], 9⟩ ++ [⟨7, .bytes [1, 2]⟩]

theorem later_demand_set_is_read :
    recv (encodeFields [⟨1, .varint 5⟩, ⟨12, .varint 1⟩, ⟨4, .bytes (encodeFields laterFields)⟩]) =
      some ⟨5, some (.demandSet ⟨[lit "up"], [], [], [], [⟨lit "s", lit "f"⟩], 9⟩)⟩ := by
  have inner : Extends demandSet ⟨[lit "up"], [], [], [], [⟨lit "s", lit "f"⟩], 9⟩ laterFields := by
    refine ⟨by decide +kernel, fun f member unknown => ?_⟩
    rcases List.mem_append.mp member with mine | added
    · exact absurd (demandSet.put_number _ f mine) unknown
    · obtain rfl := List.mem_singleton.mp added
      exact ⟨by decide, by decide, show [1, 2].length < 2 ^ 64 by decide⟩
  refine additions_are_skipped.2.1 5 _ laterFields _ (by decide +kernel) inner (by decide +kernel)
    ?_ (by decide +kernel)
  intro f member unknown
  simp only [List.mem_cons, List.not_mem_nil, or_false] at member
  rcases member with rfl | rfl | rfl
  · exact absurd unknown (by decide)
  · exact ⟨by decide, by decide, show 1 < 2 ^ 64 by decide⟩
  · exact absurd unknown (by decide)

end SignalAgent.Control.MessageRoundTrip
