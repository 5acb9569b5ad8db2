/- MID: SignalAgent/Index/IndexWire
   layer: model
   source: proto agent_control.proto
   digest: The encoding of the index messages inside their envelope. -/

import SignalAgent.Foundations.ProtoWire
import SignalAgent.Index.IndexSync

set_option autoImplicit false
set_option relaxedAutoImplicit false

namespace SignalAgent.Index.IndexWire

open Foundations.ProtoWire IndexSync

def encodeLabel (label : Label) : List UInt8 :=
  bytesField 1 label.name ++ bytesField 2 label.value

def encodeDiscoveredSeries (series : DiscoveredSeries) : List UInt8 :=
  bytesField 1 series.fingerprint ++ bytesField 2 series.metricName ++
    repeatedField 3 (series.labels.map encodeLabel)

def encodeActiveSeries (series : ActiveSeries) : List UInt8 :=
  bytesField 1 series.fingerprint ++ int64Field 2 series.samples ++
    int64Field 3 series.lastUpdateMs

/-- The field of the envelope's `oneof` that holds the message. -/
def bodyField : IndexMessage → Nat
  | .indexCreate _ => 4
  | .indexUpdate _ => 5
  | .indexDelete _ => 6

def encodeBody : IndexMessage → List UInt8
  | .indexCreate series => repeatedField 1 (series.map encodeDiscoveredSeries)
  | .indexUpdate series => repeatedField 1 (series.map encodeActiveSeries)
  | .indexDelete fingerprints => repeatedField 1 fingerprints

def encodeAgentMessage (correlationId : UInt64) (message : IndexMessage) : List UInt8 :=
  uint64Field 1 correlationId.toNat ++ lengthDelimited (bodyField message) (encodeBody message)

theorem length_encodeLabel (label : Label) :
    (encodeLabel label).length = bytesSize label.name.length + bytesSize label.value.length := by
  rw [encodeLabel, List.length_append, length_bytesField (by omega), length_bytesField (by omega)]

theorem length_encodeDiscoveredSeries (series : DiscoveredSeries) :
    (encodeDiscoveredSeries series).length =
      bytesSize series.fingerprint.length + bytesSize series.metricName.length +
        (series.labels.map (fun label => delimitedSize (encodeLabel label).length)).sum := by
  rw [encodeDiscoveredSeries, List.length_append, List.length_append,
    length_bytesField (by omega), length_bytesField (by omega), length_repeatedField (by omega),
    List.map_map]
  rfl

theorem length_encodeActiveSeries_le (series : ActiveSeries) :
    (encodeActiveSeries series).length ≤ bytesSize series.fingerprint.length + 22 := by
  have samples := length_int64Field_le (show 2 < 16 by omega) series.samples
  have update := length_int64Field_le (show 3 < 16 by omega) series.lastUpdateMs
  rw [encodeActiveSeries, List.length_append, List.length_append, length_bytesField (by omega)]
  omega

theorem length_encodeAgentMessage (correlationId : UInt64) (message : IndexMessage) :
    (encodeAgentMessage correlationId message).length =
      uint64Size correlationId.toNat + delimitedSize (encodeBody message).length := by
  have low : bodyField message < 16 := by cases message <;> simp [bodyField]
  rw [encodeAgentMessage, List.length_append, length_uint64Field (by omega),
    length_lengthDelimited low]

end SignalAgent.Index.IndexWire
