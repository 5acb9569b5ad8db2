/- MID: SignalAgent/Control/QueryReplies
   layer: results
   source: components/edgecontroller/query_handler.go, components/edgecontroller/extension.go
   digest: The room left beside the body of a response is enough for it to be sent. -/

import Mathlib.Algebra.Order.BigOperators.Group.List
import Mathlib.Algebra.Order.Group.Nat
import SignalAgent.Control.MessageRoundTrip

set_option autoImplicit false
set_option relaxedAutoImplicit false

namespace SignalAgent.Control.QueryReplies

open Foundations.GoText Foundations.ProtoMessages Foundations.ProtoWire Foundations.Utf8
open AgentWire MessageRoundTrip QueryTunnel

/-- What a header takes up at most: five bytes around each text, and five around the whole. -/
def headerRoom (h : Header) : Nat :=
  h.name.length + 10 + (h.values.map (fun v => v.length + 5)).sum

/-- What a response takes up beside its body and its numbers. -/
def replyRoom (r : QueryResponse) : Nat := (r.headers.map headerRoom).sum + r.error.length

section Sizes

private theorem delimitedSize_le {n : Nat} (short : n < 128 ^ 4) : delimitedSize n ≤ n + 5 := by
  have bound : varintSize n ≤ 4 := by
    unfold varintSize
    rcases Nat.eq_zero_or_pos n with rfl | positive
    · decide
    · have groups : Nat.log 128 n < 4 := Nat.log_lt_of_lt_pow (by omega) short
      omega
  unfold delimitedSize
  omega

private theorem bytesSize_le {n : Nat} (short : n < 128 ^ 4) : bytesSize n ≤ n + 5 := by
  have bound := delimitedSize_le short
  unfold bytesSize
  split <;> omega

private theorem le_sum_of_mem {α : Type} {f : α → Nat} {a : α} {l : List α} (member : a ∈ l) :
    f a ≤ (l.map f).sum :=
  List.single_le_sum (fun _ _ => Nat.zero_le _) _ (List.mem_map_of_mem member)

private theorem length_repeatedField_le {α : Type} {n : Nat} (low : n < 16) {l : List α}
    {encode : α → List UInt8} {size : α → Nat}
    (each : ∀ a ∈ l, (encode a).length + 5 ≤ size a) (short : (l.map size).sum < 128 ^ 4) :
    (repeatedField n (l.map encode)).length ≤ (l.map size).sum := by
  rw [length_repeatedField low, List.map_map]
  refine List.sum_le_sum (fun a member => ?_)
  have inside := le_sum_of_mem (f := size) member
  have room := each a member
  exact (delimitedSize_le (by omega)).trans room

private theorem length_header_le {h : Header} (short : headerRoom h < 128 ^ 4) :
    (header.encode h).length + 5 ≤ headerRoom h := by
  have parts : header.encode h = ((textField 1 (by decide)).pair (repeated 2 text (by decide))
    (by decide)).encode (h.name, h.values) := rfl
  unfold headerRoom at short ⊢
  have name := bytesSize_le (show h.name.length < 128 ^ 4 by omega)
  have values : (repeatedField 2 (h.values.map text.encode)).length ≤
      (h.values.map (fun v => v.length + 5)).sum :=
    length_repeatedField_le (by decide) (fun _ _ => Nat.le_refl _) (by omega)
  rw [parts, encode_pair, encode_textField, encode_repeated, List.length_append,
    length_bytesField (by decide)]
  dsimp only
  omega

private theorem length_queryResponse_le {r : QueryResponse} (body : r.body.length < 128 ^ 4)
    (room : replyRoom r < 128 ^ 4) :
    (queryResponse.encode r).length ≤ r.body.length + replyRoom r + 21 := by
  have parts : queryResponse.encode r = ((scalar 1 int32 (by decide)).pair
    ((rawField 2 (by decide)).pair
      ((repeated 3 (message header) (by decide)).pair (textField 4 (by decide)) (by decide))
      (by decide)) (by decide)).encode (r.statusCode, r.body, r.headers, r.error) := rfl
  have status : (uint64Field 1 (int32.toWire r.statusCode)).length ≤ 11 :=
    length_int64Field_le (by decide) r.statusCode
  unfold replyRoom at room ⊢
  have content := bytesSize_le body
  have cause := bytesSize_le (show r.error.length < 128 ^ 4 by omega)
  have headers : (repeatedField 3 (r.headers.map (message header).encode)).length ≤
      (r.headers.map headerRoom).sum := by
    refine length_repeatedField_le (by decide) (fun h member => ?_) (by omega)
    have inside := le_sum_of_mem (f := headerRoom) member
    exact length_header_le (by omega)
  rw [parts, encode_pair, encode_pair, encode_pair, encode_scalar, encode_rawField,
    encode_repeated, encode_textField, List.length_append, List.length_append, List.length_append,
    length_bytesField (by decide), length_bytesField (by decide)]
  dsimp only
  omega

private theorem length_reply_le (id : UInt64) {r : QueryResponse}
    (body : r.body.length ≤ maxQueryResponseBytes) (room : replyRoom r ≤ 1024 * 1024 - 64) :
    (agentMessage.encode ⟨id, some (.queryResponse r)⟩).length ≤ maxMessageBytes := by
  have limit : maxMessageBytes = 16 * 1024 * 1024 := rfl
  have cap : maxQueryResponseBytes = 15 * 1024 * 1024 := rfl
  have parts : agentMessage.encode ⟨id, some (.queryResponse r)⟩ =
      encodeFields ((scalar 1 uint64 (by decide)).put id ++
        [⟨8, .bytes (queryResponse.encode r)⟩]) := rfl
  have few := uint64Size_le id.toNat_lt
  have inside := length_queryResponse_le (r := r) (by omega) (by omega)
  have around := delimitedSize_le (show (queryResponse.encode r).length < 128 ^ 4 by omega)
  rw [parts, encodeFields_append, encode_correlationId, encodeFields_singleton, encode_bytes,
    List.length_append, length_uint64Field (by decide), length_lengthDelimited (by decide)]
  omega

end Sizes

section Replies

/-- Within the cap, and with a status code that fits its field. -/
private structure Capped (r : QueryResponse) : Prop where
  body : r.body.length ≤ maxQueryResponseBytes
  status : InRange (.queryResponse r)

private theorem inRange_of_digits {r : QueryResponse}
    (code : 0 ≤ r.statusCode ∧ r.statusCode < 1000) : InRange (.queryResponse r) := by
  have low : -2 ^ 31 ≤ r.statusCode := by omega
  have high : r.statusCode < 2 ^ 31 := by omega
  exact ⟨low, high⟩

private theorem capped_errResp {status : Int} (code : 0 ≤ status ∧ status < 1000)
    (msg : GoString) : Capped (errResp status msg) :=
  ⟨Nat.zero_le _, inRange_of_digits code⟩

private theorem capped_relay {resp : HttpResponse}
    (code : 0 ≤ resp.statusCode ∧ resp.statusCode < 1000) : Capped (relay resp) := by
  unfold relay
  split
  · exact capped_errResp (by decide) _
  · dsimp only
    split
    · exact capped_errResp (by decide) _
    · rename_i within
      exact ⟨Nat.not_lt.mp within, inRange_of_digits code⟩

private theorem capped_reply {beyond : Nat → Nat} {urls : QueryURLs} {net : Network}
    {inFlight : Nat} {req : QueryRequest}
    (codes : ∀ call resp, net.perform call = .ok resp →
      0 ≤ resp.statusCode ∧ resp.statusCode < 1000) :
    Capped (handleQueryRequest beyond urls net inFlight req).2 := by
  unfold handleQueryRequest
  split
  · exact capped_errResp (by decide) _
  split
  · exact capped_errResp (by decide) _
  dsimp only
  split
  · exact capped_errResp (by decide) _
  split
  · exact capped_errResp (by decide) _
  split
  · exact capped_errResp (by decide) _
  split
  · exact capped_errResp (by decide) _
  · rename_i resp performed
    exact capped_relay (codes _ resp performed)

end Replies

/-- Whatever is asked and however the local store answers, with a status of three digits at most:
if headers and error of the response keep to the mebibyte left beside the largest body, but for
64 bytes, the response is sent exactly when its texts are UTF-8, and read back as it was. -/
theorem query_reply_is_sent (beyond : Nat → Nat) (urls : QueryURLs) (net : Network)
    (inFlight : Nat) (req : QueryRequest) (id : UInt64)
    (codes : ∀ call resp, net.perform call = .ok resp →
      0 ≤ resp.statusCode ∧ resp.statusCode < 1000)
    (room : replyRoom (handleQueryRequest beyond urls net inFlight req).2 ≤ 1024 * 1024 - 64) :
    let reply := AgentBody.queryResponse (handleQueryRequest beyond urls net inFlight req).2
    (∀ s ∈ texts reply, validString s = true) ↔
      ∃ wire, send ⟨id, some reply⟩ = some wire ∧
        agentMessage.unmarshal wire = some ⟨id, some reply⟩ := by
  have capped : Capped (handleQueryRequest beyond urls net inFlight req).2 := capped_reply codes
  generalize (handleQueryRequest beyond urls net inFlight req).2 = response at room capped ⊢
  dsimp only
  have fits := length_reply_le id capped.body room
  constructor
  · intro utf8
    have valid : agentMessage.valid ⟨id, some (.queryResponse response)⟩ = true := by
      rw [valid_agentMessage]
      rintro body same
      obtain rfl := Option.some.inj same
      exact ⟨utf8, capped.status⟩
    refine ⟨_, send_eq_some.mpr ⟨valid, rfl, fits⟩, ?_⟩
    exact agentMessage.unmarshal_encode valid (short_of_limit fits)
  · rintro ⟨wire, sent, -⟩
    have valid := (send_eq_some.mp sent).1
    rw [valid_agentMessage] at valid
    exact (valid _ rfl).utf8

/-- A store that does not answer. -/
private def downStore : Network :=
  ⟨fun _ => true, fun _ => none, fun _ => .error (lit "dial tcp: connection refused")⟩

private def buildInfo : QueryRequest :=
  ⟨lit "get", lit "/api/v1/status/buildinfo", [], [], [], .vm⟩

theorem unreachable_store_is_reported :
    ∃ wire, send ⟨3, some (.queryResponse (handleQueryRequest id ⟨lit "http://vm:8428", [], []⟩
        downStore 0 buildInfo).2)⟩ = some wire ∧
      agentMessage.unmarshal wire = some ⟨3, some (.queryResponse
        ⟨502, [], [], lit "local store unreachable: dial tcp: connection refused"⟩)⟩ := by
  have response : (handleQueryRequest id ⟨lit "http://vm:8428", [], []⟩ downStore 0 buildInfo).2 =
      ⟨502, [], [], lit "local store unreachable: dial tcp: connection refused"⟩ := by
    decide +kernel
  have answered := query_reply_is_sent id ⟨lit "http://vm:8428", [], []⟩ downStore 0 buildInfo 3
    nofun (by rw [response]; decide +kernel)
  rw [response] at answered ⊢
  exact answered.mp (by decide +kernel)

end SignalAgent.Control.QueryReplies
