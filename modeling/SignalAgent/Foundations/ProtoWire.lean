/- MID: SignalAgent/Foundations/ProtoWire
   layer: library
   source: protobuf wire format (varints, tags, length-delimited fields)
   digest: Encoded proto3 fields and their sizes as numbers. -/

import Mathlib.Algebra.BigOperators.Group.List.Basic
import Mathlib.Algebra.GroupWithZero.Nat
import Mathlib.Data.Nat.Log

set_option autoImplicit false
set_option relaxedAutoImplicit false

namespace SignalAgent.Foundations.ProtoWire

/-- A number in groups of seven bits, the lowest first; every byte but the last has its high bit
set. -/
def varint (n : Nat) : List UInt8 :=
  if n < 128 then [UInt8.ofNat n] else UInt8.ofNat (n % 128 + 128) :: varint (n / 128)
termination_by n
decreasing_by omega

/-- The tag of a field: its number and its wire type. -/
def tag (field wireType : Nat) : List UInt8 := varint (field * 8 + wireType)

/-- A singular `uint64` field; zero is the default and is left out. -/
def uint64Field (field value : Nat) : List UInt8 :=
  if value = 0 then [] else tag field 0 ++ varint value

/-- A singular `int64` field: the two's complement of its value. -/
def int64Field (field : Nat) (value : Int) : List UInt8 :=
  uint64Field field (value % 2 ^ 64).toNat

/-- A field that is always written: an embedded message, or one element of a repeated field. -/
def lengthDelimited (field : Nat) (payload : List UInt8) : List UInt8 :=
  tag field 2 ++ varint payload.length ++ payload

/-- A singular `string` or `bytes` field; the empty one is the default and is left out. -/
def bytesField (field : Nat) (payload : List UInt8) : List UInt8 :=
  if payload = [] then [] else lengthDelimited field payload

def repeatedField (field : Nat) (payloads : List (List UInt8)) : List UInt8 :=
  payloads.flatMap (lengthDelimited field)

def varintSize (n : Nat) : Nat := Nat.log 128 n + 1

def uint64Size (value : Nat) : Nat := if value = 0 then 0 else 1 + varintSize value

def delimitedSize (n : Nat) : Nat := 1 + varintSize n + n

def bytesSize (n : Nat) : Nat := if n = 0 then 0 else delimitedSize n

section Lengths

theorem length_varint (n : Nat) : (varint n).length = varintSize n := by
  induction n using Nat.strongRecOn with
  | ind n ih =>
    rw [varint, varintSize]
    split
    · rename_i small
      rw [Nat.log_of_lt small]
      rfl
    · rename_i large
      have step := ih (n / 128) (by omega)
      rw [List.length_cons, step, varintSize, ← Nat.log_of_one_lt_of_le (by omega) (by omega)]

theorem length_tag {field wireType : Nat} (low : field < 16) (kind : wireType < 8) :
    (tag field wireType).length = 1 := by
  rw [tag, length_varint, varintSize, Nat.log_of_lt (by omega)]

variable {field : Nat} (low : field < 16)

include low

theorem length_uint64Field (value : Nat) :
    (uint64Field field value).length = uint64Size value := by
  unfold uint64Field uint64Size
  split
  · rfl
  · rw [List.length_append, length_tag low (by omega), length_varint]

theorem length_lengthDelimited (payload : List UInt8) :
    (lengthDelimited field payload).length = delimitedSize payload.length := by
  rw [lengthDelimited, List.length_append, List.length_append, length_tag low (by omega),
    length_varint, delimitedSize]

theorem length_bytesField (payload : List UInt8) :
    (bytesField field payload).length = bytesSize payload.length := by
  unfold bytesField bytesSize
  simp only [List.length_eq_zero_iff]
  split
  · rfl
  · exact length_lengthDelimited low payload

theorem length_repeatedField (payloads : List (List UInt8)) :
    (repeatedField field payloads).length =
      (payloads.map (fun payload => delimitedSize payload.length)).sum := by
  rw [repeatedField, List.length_flatMap]
  simp only [length_lengthDelimited low]

end Lengths

section Bounds

theorem delimitedSize_mono {m n : Nat} (le : m ≤ n) : delimitedSize m ≤ delimitedSize n := by
  have groups : Nat.log 128 m ≤ Nat.log 128 n := Nat.log_mono_right le
  unfold delimitedSize varintSize
  omega

theorem le_delimitedSize (n : Nat) : n ≤ delimitedSize n := by
  unfold delimitedSize
  omega

theorem le_bytesSize (n : Nat) : n ≤ bytesSize n := by
  unfold bytesSize
  split
  · omega
  · exact le_delimitedSize n

theorem delimitedSize_of_lt {n : Nat} (small : n < 128) : delimitedSize n = n + 2 := by
  rw [delimitedSize, varintSize, Nat.log_of_lt small]
  omega

theorem uint64Size_le {value : Nat} (fits : value < 2 ^ 64) : uint64Size value ≤ 11 := by
  unfold uint64Size varintSize
  split
  · omega
  · rename_i nonzero
    have wide : value < 128 ^ 10 := by omega
    have groups : Nat.log 128 value < 10 := Nat.log_lt_of_lt_pow nonzero wide
    omega

theorem length_int64Field_le {field : Nat} (low : field < 16) (value : Int) :
    (int64Field field value).length ≤ 11 := by
  rw [int64Field, length_uint64Field low]
  apply uint64Size_le
  have nonneg := Int.emod_nonneg value (b := 2 ^ 64) (by decide)
  have below := Int.emod_lt_of_pos value (b := 2 ^ 64) (by decide)
  omega

theorem delimitedSize_of_four {n : Nat} (low : 128 ^ 3 ≤ n) (high : n < 128 ^ 4) :
    delimitedSize n = n + 5 := by
  rw [delimitedSize, varintSize, Nat.log_eq_of_pow_le_of_lt_pow low high]
  omega

theorem delimitedSize_le_iff {n limit : Nat} (low : 128 ^ 3 + 5 ≤ limit) (high : limit < 128 ^ 4) :
    delimitedSize n ≤ limit ↔ n + 5 ≤ limit := by
  rcases Nat.lt_or_ge n (128 ^ 3) with small | large
  · have bound := delimitedSize_mono small.le
    rw [delimitedSize_of_four (le_refl (128 ^ 3)) (by omega)] at bound
    omega
  · rcases Nat.lt_or_ge n (128 ^ 4) with fits | beyond
    · rw [delimitedSize_of_four large fits]
    · have bound := le_delimitedSize n
      omega

end Bounds

end SignalAgent.Foundations.ProtoWire
