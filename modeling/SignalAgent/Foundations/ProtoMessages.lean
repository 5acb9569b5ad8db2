/- MID: SignalAgent/Foundations/ProtoMessages
   layer: library
   source: protobuf wire format (fields, proto3 messages)
   digest: Fields are read back as written; codecs of messages, and what they skip. -/

import Mathlib.Data.List.Basic
import Mathlib.Logic.Equiv.Defs
import SignalAgent.Foundations.ProtoWire
import SignalAgent.Foundations.Utf8

/-!
Groups, which proto3 does not have, are not read. A message is read field by field into its
default value: a later scalar replaces an earlier one, a repeated field grows, and a field of an
unknown number or another wire type is skipped.
-/

set_option autoImplicit false
set_option relaxedAutoImplicit false

namespace SignalAgent.Foundations.ProtoMessages

open GoText ProtoWire Utf8

universe u v

section Fields

inductive Payload where
  | varint (value : Nat)
  | fixed64 (content : List UInt8)
  | bytes (content : List UInt8)
  | fixed32 (content : List UInt8)
  deriving DecidableEq

structure WireField where
  number : Nat
  payload : Payload
  deriving DecidableEq

def Payload.wireType : Payload → Nat
  | .varint _ => 0
  | .fixed64 _ => 1
  | .bytes _ => 2
  | .fixed32 _ => 5

def Payload.encode : Payload → List UInt8
  | .varint value => ProtoWire.varint value
  | .bytes content => ProtoWire.varint content.length ++ content
  | .fixed64 content | .fixed32 content => content

def WireField.encode (f : WireField) : List UInt8 :=
  tag f.number f.payload.wireType ++ f.payload.encode

def encodeFields (fields : List WireField) : List UInt8 := fields.flatMap WireField.encode

def Payload.WellFormed : Payload → Prop
  | .varint value => value < 2 ^ 64
  | .fixed64 content => content.length = 8
  | .bytes content => content.length < 2 ^ 64
  | .fixed32 content => content.length = 4

structure WireField.WellFormed (f : WireField) : Prop where
  positive : 0 < f.number
  small : f.number < 2 ^ 29
  payload : f.payload.WellFormed

/-- At most ten groups, of which the tenth has one bit. -/
def readVarintFrom : Nat → List UInt8 → Option (Nat × List UInt8)
  | 0, _ => none
  | _ + 1, [] => none
  | k + 1, b :: rest =>
    if b < 128 then if k = 0 ∧ 1 < b then none else some (b.toNat, rest)
    else (readVarintFrom k rest).map (fun read => (b.toNat - 128 + 128 * read.1, read.2))

def readVarint (input : List UInt8) : Option (Nat × List UInt8) := readVarintFrom 10 input

def readBytes (n : Nat) (input : List UInt8) : Option (List UInt8 × List UInt8) :=
  if input.length < n then none else some (input.take n, input.drop n)

def readPayload (wireType : Nat) (input : List UInt8) : Option (Payload × List UInt8) :=
  match wireType with
  | 0 => (readVarint input).map (Prod.map .varint id)
  | 1 => (readBytes 8 input).map (Prod.map .fixed64 id)
  | 2 => (readVarint input).bind (fun length =>
      (readBytes length.1 length.2).map (Prod.map .bytes id))
  | 5 => (readBytes 4 input).map (Prod.map .fixed32 id)
  | _ => none

def readField (input : List UInt8) : Option (WireField × List UInt8) :=
  (readVarint input).bind (fun key =>
    if key.1 / 8 = 0 ∨ 2 ^ 29 ≤ key.1 / 8 then none
    else (readPayload (key.1 % 8) key.2).map (Prod.map (WireField.mk (key.1 / 8)) id))

/-- Every field takes a byte of the input at least, so its length is enough fuel. -/
def readFieldsFrom : Nat → List UInt8 → Option (List WireField)
  | _, [] => some []
  | 0, _ :: _ => none
  | fuel + 1, b :: rest =>
    (readField (b :: rest)).bind (fun read =>
      (readFieldsFrom fuel read.2).map (fun later => read.1 :: later))

def readFields (input : List UInt8) : Option (List WireField) := readFieldsFrom input.length input

private theorem ofNat_lt {n : Nat} (byte : n < 256) (m : Nat) (bound : m < 256) :
    UInt8.ofNat n < UInt8.ofNat m ↔ n < m := by
  rw [UInt8.lt_iff_toNat_lt, UInt8.toNat_ofNat', UInt8.toNat_ofNat', Nat.mod_eq_of_lt byte,
    Nat.mod_eq_of_lt bound]

private theorem readVarintFrom_last {k n : Nat} (small : n < 128) (last : k = 0 → n < 2)
    (rest : List UInt8) : readVarintFrom (k + 1) (varint n ++ rest) = some (n, rest) := by
  have low : UInt8.ofNat n < 128 := (ofNat_lt (by omega) 128 (by omega)).mpr small
  have bits : ¬ (k = 0 ∧ 1 < UInt8.ofNat n) := by
    rintro ⟨tenth, above⟩
    have less : UInt8.ofNat n < 2 := (ofNat_lt (by omega) 2 (by omega)).mpr (last tenth)
    rw [UInt8.lt_iff_toNat_lt] at above less
    have one : (1 : UInt8).toNat = 1 := rfl
    have two : (2 : UInt8).toNat = 2 := rfl
    omega
  have byte : (UInt8.ofNat n).toNat = n := by rw [UInt8.toNat_ofNat', Nat.mod_eq_of_lt (by omega)]
  rw [varint, if_pos small, List.singleton_append, readVarintFrom, if_pos low, if_neg bits, byte]

private theorem readVarintFrom_varint (k : Nat) {n : Nat} (fits : n < 2 * 128 ^ k)
    (rest : List UInt8) : readVarintFrom (k + 1) (varint n ++ rest) = some (n, rest) := by
  induction k generalizing n with
  | zero => exact readVarintFrom_last (by omega) (fun _ => by omega) rest
  | succ k ih =>
    rcases Nat.lt_or_ge n 128 with small | large
    · exact readVarintFrom_last small (fun first => absurd first (by omega)) rest
    · have high : ¬ UInt8.ofNat (n % 128 + 128) < 128 := by
        intro low
        have below := (ofNat_lt (by omega) 128 (by omega)).mp low
        omega
      have byte : (UInt8.ofNat (n % 128 + 128)).toNat = n % 128 + 128 := by
        rw [UInt8.toNat_ofNat', Nat.mod_eq_of_lt (by omega)]
      have later : n / 128 < 2 * 128 ^ k := by
        rw [Nat.pow_succ] at fits
        omega
      rw [varint, if_neg (by omega), List.cons_append, readVarintFrom, if_neg high, ih later, byte]
      simp only [Option.map_some, Option.some.injEq, Prod.mk.injEq, and_true]
      omega

theorem readVarint_varint {n : Nat} (fits : n < 2 ^ 64) (rest : List UInt8) :
    readVarint (varint n ++ rest) = some (n, rest) :=
  readVarintFrom_varint 9 (by omega) rest

private theorem readBytes_append (content rest : List UInt8) :
    readBytes content.length (content ++ rest) = some (content, rest) := by
  rw [readBytes, if_neg (by simp)]
  simp

private theorem readPayload_encode {p : Payload} (wellFormed : p.WellFormed) (rest : List UInt8) :
    readPayload p.wireType (p.encode ++ rest) = some (p, rest) := by
  cases p with
  | varint value =>
    rw [Payload.wireType, readPayload, Payload.encode, readVarint_varint wellFormed]
    rfl
  | fixed64 content =>
    have width : content.length = 8 := wellFormed
    rw [Payload.wireType, readPayload, Payload.encode, ← width, readBytes_append]
    rfl
  | bytes content =>
    have short : content.length < 2 ^ 64 := wellFormed
    rw [Payload.wireType, readPayload, Payload.encode, List.append_assoc, readVarint_varint short,
      Option.bind_some, readBytes_append]
    rfl
  | fixed32 content =>
    have width : content.length = 4 := wellFormed
    rw [Payload.wireType, readPayload, Payload.encode, ← width, readBytes_append]
    rfl

private theorem wireType_lt (p : Payload) : p.wireType < 8 := by
  cases p <;> simp [Payload.wireType]

theorem readField_encode {f : WireField} (wellFormed : f.WellFormed) (rest : List UInt8) :
    readField (f.encode ++ rest) = some (f, rest) := by
  have kind := wireType_lt f.payload
  have small := wellFormed.small
  have positive := wellFormed.positive
  have number : (f.number * 8 + f.payload.wireType) / 8 = f.number := by omega
  have type : (f.number * 8 + f.payload.wireType) % 8 = f.payload.wireType := by omega
  have inside : ¬ (f.number = 0 ∨ 2 ^ 29 ≤ f.number) := by omega
  rw [readField, WireField.encode, tag, List.append_assoc, readVarint_varint (by omega),
    Option.bind_some, number, type, if_neg inside, readPayload_encode wellFormed.payload]
  rfl

private theorem encode_ne_nil (f : WireField) : f.encode ≠ [] := by
  have present : (tag f.number f.payload.wireType).length ≠ 0 := by
    rw [tag, length_varint, varintSize]
    omega
  intro empty
  rw [WireField.encode] at empty
  exact present (by rw [(List.append_eq_nil_iff.mp empty).1, List.length_nil])

private theorem readFieldsFrom_encodeFields {fields : List WireField}
    (wellFormed : ∀ f ∈ fields, f.WellFormed) {fuel : Nat}
    (enough : (encodeFields fields).length ≤ fuel) :
    readFieldsFrom fuel (encodeFields fields) = some fields := by
  induction fields generalizing fuel with
  | nil => cases fuel <;> rfl
  | cons f later ih =>
    obtain ⟨first, others⟩ := List.forall_mem_cons.mp wellFormed
    have split : encodeFields (f :: later) = f.encode ++ encodeFields later := List.flatMap_cons
    obtain ⟨b, rest, encoded⟩ := List.exists_cons_of_ne_nil (encode_ne_nil f)
    have whole : encodeFields (f :: later) = b :: (rest ++ encodeFields later) := by
      rw [split, encoded, List.cons_append]
    have read : readField (b :: (rest ++ encodeFields later)) = some (f, encodeFields later) := by
      rw [← whole, split]
      exact readField_encode first _
    rw [whole] at enough ⊢
    cases fuel with
    | zero => exact absurd enough (by simp)
    | succ fuel =>
      have remaining : (encodeFields later).length ≤ fuel := by
        simp only [List.length_cons, List.length_append] at enough
        omega
      rw [readFieldsFrom, read, Option.bind_some, ih others remaining]
      rfl

theorem readFields_encodeFields {fields : List WireField}
    (wellFormed : ∀ f ∈ fields, f.WellFormed) :
    readFields (encodeFields fields) = some fields :=
  readFieldsFrom_encodeFields wellFormed (Nat.le_refl _)

end Fields

section Lengths

theorem length_encodeFields_cons (f : WireField) (fields : List WireField) :
    (encodeFields (f :: fields)).length = f.encode.length + (encodeFields fields).length := by
  rw [encodeFields, List.flatMap_cons, List.length_append]
  rfl

theorem encodeFields_append (fields later : List WireField) :
    encodeFields (fields ++ later) = encodeFields fields ++ encodeFields later :=
  List.flatMap_append

theorem length_encodeFields_le {fields whole : List WireField} (part : fields.Sublist whole) :
    (encodeFields fields).length ≤ (encodeFields whole).length := by
  induction part with
  | slnil => exact Nat.le_refl _
  | cons f part ih =>
    rw [length_encodeFields_cons]
    omega
  | cons_cons f part ih =>
    rw [length_encodeFields_cons, length_encodeFields_cons]
    omega

theorem length_content_le {fields : List WireField} {n : Nat} {content : List UInt8}
    (member : ⟨n, .bytes content⟩ ∈ fields) : content.length ≤ (encodeFields fields).length := by
  have alone := length_encodeFields_le (List.singleton_sublist.mpr member)
  have inside : content.length ≤ (encodeFields [⟨n, .bytes content⟩]).length := by
    rw [length_encodeFields_cons, WireField.encode, Payload.encode, List.length_append,
      List.length_append]
    omega
  exact inside.trans alone

theorem content_fits {fields : List WireField} {n : Nat} {content : List UInt8}
    (short : (encodeFields fields).length < 2 ^ 64) (member : ⟨n, .bytes content⟩ ∈ fields) :
    content.length < 2 ^ 64 :=
  Nat.lt_of_le_of_lt (length_content_le member) short

end Lengths

/-- A message type: its default value, how a field is read into a message, and the fields a
message is written as. What is written of a valid message is read back as that message. -/
structure Codec (α : Type u) where
  numbers : List Nat
  default : α
  merge : α → WireField → Option α
  put : α → List WireField
  valid : α → Bool
  numbered : ∀ n ∈ numbers, 0 < n ∧ n < 2 ^ 29
  merge_unknown : ∀ a f, f.number ∉ numbers → merge a f = some a
  put_number : ∀ a, ∀ f ∈ put a, f.number ∈ numbers
  put_payload : ∀ a, valid a = true → (encodeFields (put a)).length < 2 ^ 64 →
    ∀ f ∈ put a, f.payload.WellFormed
  merge_put : ∀ a, valid a = true → (encodeFields (put a)).length < 2 ^ 64 →
    (put a).foldlM merge default = some a

namespace Codec

variable {α : Type u} {β : Type v}

def encode (c : Codec α) (a : α) : List UInt8 := encodeFields (c.put a)

/-- Writing fails on a message that is not valid. -/
def marshal (c : Codec α) (a : α) : Option (List UInt8) :=
  if c.valid a then some (c.encode a) else none

/-- Reads a message into one that is there already. -/
def unmarshalInto (c : Codec α) (a : α) (input : List UInt8) : Option α :=
  (readFields input).bind (fun fields => fields.foldlM c.merge a)

def unmarshal (c : Codec α) (input : List UInt8) : Option α := c.unmarshalInto c.default input

private theorem foldlM_merge_filter (c : Codec α) (fields : List WireField) (a : α) :
    fields.foldlM c.merge a = (fields.filter (fun f => f.number ∈ c.numbers)).foldlM c.merge a := by
  induction fields generalizing a with
  | nil => rfl
  | cons f later ih =>
    by_cases known : f.number ∈ c.numbers
    · rw [List.filter_cons_of_pos (by simpa using known), List.foldlM_cons, List.foldlM_cons]
      exact congrArg (fun k => c.merge a f >>= k) (funext ih)
    · rw [List.filter_cons_of_neg (by simpa using known), List.foldlM_cons,
        c.merge_unknown a f known]
      exact ih a

theorem unmarshal_encodeFields (c : Codec α) {fields : List WireField}
    (wellFormed : ∀ f ∈ fields, f.WellFormed) :
    c.unmarshal (encodeFields fields) =
      (fields.filter (fun f => f.number ∈ c.numbers)).foldlM c.merge c.default := by
  rw [unmarshal, unmarshalInto, readFields_encodeFields wellFormed, Option.bind_some,
    foldlM_merge_filter]

theorem put_wellFormed (c : Codec α) {a : α} (valid : c.valid a = true)
    (short : (encodeFields (c.put a)).length < 2 ^ 64) : ∀ f ∈ c.put a, f.WellFormed := by
  intro f member
  obtain ⟨positive, small⟩ := c.numbered _ (c.put_number a f member)
  exact ⟨positive, small, c.put_payload a valid short f member⟩

/-- The fields of a message among others, which a reader does not know. -/
structure Extends (c : Codec α) (a : α) (fields : List WireField) : Prop where
  known : fields.filter (fun f => f.number ∈ c.numbers) = c.put a
  added : ∀ f ∈ fields, f.number ∉ c.numbers → f.WellFormed

theorem Extends.unmarshal {c : Codec α} {a : α} {fields : List WireField}
    (extended : Extends c a fields) (valid : c.valid a = true)
    (short : (encodeFields fields).length < 2 ^ 64) :
    c.unmarshal (encodeFields fields) = some a := by
  have known := extended.known
  have part : (c.put a).Sublist fields := known ▸ List.filter_sublist
  have fits : (encodeFields (c.put a)).length < 2 ^ 64 :=
    Nat.lt_of_le_of_lt (length_encodeFields_le part) short
  have wellFormed : ∀ f ∈ fields, f.WellFormed := by
    intro f member
    by_cases mine : f.number ∈ c.numbers
    · have written : f ∈ c.put a := by
        rw [← known]
        exact List.mem_filter.mpr ⟨member, by simpa using mine⟩
      exact c.put_wellFormed valid fits f written
    · exact extended.added f member mine
  rw [c.unmarshal_encodeFields wellFormed, known, c.merge_put a valid fits]

theorem filter_put (c : Codec α) (a : α) {numbers : List Nat}
    (known : ∀ n ∈ c.numbers, n ∈ numbers) :
    (c.put a).filter (fun f => f.number ∈ numbers) = c.put a :=
  List.filter_eq_self.mpr (fun f member => by simpa using known _ (c.put_number a f member))

theorem filter_put_unknown (c : Codec α) (a : α) {numbers : List Nat}
    (unknown : ∀ n ∈ c.numbers, n ∉ numbers) :
    (c.put a).filter (fun f => f.number ∈ numbers) = [] :=
  List.filter_eq_nil_iff.mpr (fun f member => by simpa using unknown _ (c.put_number a f member))

theorem extends_put (c : Codec α) (a : α) : Extends c a (c.put a) where
  known := c.filter_put a (fun _ member => member)
  added := fun f member unknown => absurd (c.put_number a f member) unknown

theorem unmarshal_encode (c : Codec α) {a : α} (valid : c.valid a = true)
    (short : (c.encode a).length < 2 ^ 64) : c.unmarshal (c.encode a) = some a :=
  (c.extends_put a).unmarshal valid short

end Codec

/-- What stands in a length-delimited field. -/
structure Element (α : Type u) where
  encode : α → List UInt8
  decode : List UInt8 → Option α
  valid : α → Bool
  decode_encode : ∀ a, valid a = true → (encode a).length < 2 ^ 64 → decode (encode a) = some a

def text : Element GoString where
  encode := id
  decode := fun s => if validString s then some s else none
  valid := validString
  decode_encode := fun _ valid _ => if_pos valid

def raw : Element (List UInt8) where
  encode := id
  decode := some
  valid := fun _ => true
  decode_encode := fun _ _ _ => rfl

def message {α : Type u} (c : Codec α) : Element α where
  encode := c.encode
  decode := c.unmarshal
  valid := c.valid
  decode_encode := fun _ valid short => c.unmarshal_encode valid short

/-- What stands in a varint field. -/
structure Scalar (α : Type u) where
  toWire : α → Nat
  ofWire : Nat → α
  valid : α → Bool
  toWire_lt : ∀ a, valid a = true → toWire a < 2 ^ 64
  ofWire_toWire : ∀ a, valid a = true → ofWire (toWire a) = a

section Scalars

def uint64 : Scalar UInt64 where
  toWire := UInt64.toNat
  ofWire := UInt64.ofNat
  valid := fun _ => true
  toWire_lt := fun v _ => v.toNat_lt
  ofWire_toWire := fun _ _ => UInt64.ofNat_toNat

/-- Every number but zero is read as true. -/
def bool : Scalar Bool where
  toWire := Bool.toNat
  ofWire := fun value => decide (value ≠ 0)
  valid := fun _ => true
  toWire_lt := fun b _ => by cases b <;> decide
  ofWire_toWire := fun b _ => by cases b <;> rfl

/-- An `int64` or, with its low half read alone, an `int32`; both are written in 64 bits of two's
complement. -/
def signed (half : Nat) (wide : half ∣ 2 ^ 63) : Scalar Int where
  toWire := fun v => (v % 2 ^ 64).toNat
  ofWire := fun value => Int.bmod value (2 * half)
  valid := fun v => decide (-half ≤ v ∧ v < half)
  toWire_lt := fun v _ => by omega
  ofWire_toWire := by
    intro v valid
    obtain ⟨low, high⟩ := of_decide_eq_true valid
    have whole : ((v % 2 ^ 64).toNat : Int) = v % 2 ^ 64 := by omega
    have part : ((2 * half : Nat) : Int) ∣ 2 ^ 64 :=
      Int.natCast_dvd_natCast.mpr (Nat.mul_dvd_mul_left 2 wide)
    rw [whole, ← Int.emod_bmod, Int.emod_emod_of_dvd v part, Int.emod_bmod]
    exact Int.bmod_eq_of_le (by omega) (by omega)

/-- A type with a number for each value, such as an enumeration. -/
def Scalar.via {α : Type u} [DecidableEq α] (s : Scalar Int) (toInt : α → Int) (ofInt : Int → α) :
    Scalar α where
  toWire := fun a => s.toWire (toInt a)
  ofWire := fun value => ofInt (s.ofWire value)
  valid := fun a => s.valid (toInt a) && decide (ofInt (toInt a) = a)
  toWire_lt := fun a valid => s.toWire_lt _ (Bool.and_eq_true_iff.mp valid).1
  ofWire_toWire := by
    intro a valid
    obtain ⟨inside, back⟩ := Bool.and_eq_true_iff.mp valid
    rw [s.ofWire_toWire _ inside]
    exact of_decide_eq_true back

end Scalars

section Singles

variable {α : Type u} {β : Type v}

/-- A number that has to be a field's. -/
abbrev Numbered (n : Nat) : Prop := 0 < n ∧ n < 2 ^ 29

private theorem numbered_singleton {n : Nat} (numbered : Numbered n) :
    ∀ m ∈ [n], 0 < m ∧ m < 2 ^ 29 := by
  intro m member
  obtain rfl := List.mem_singleton.mp member
  exact numbered

private theorem mem_unless {p : Prop} [Decidable p] {f g : WireField}
    (member : f ∈ if p then [] else [g]) : ¬ p ∧ f = g := by
  split at member
  · cases member
  · exact ⟨‹¬ p›, List.mem_singleton.mp member⟩

/-- A singular field with a varint: the value written as zero is the default. -/
def scalar (n : Nat) (s : Scalar α) (numbered : Numbered n) : Codec α where
  numbers := [n]
  default := s.ofWire 0
  merge := fun a f =>
    if f.number = n then
      match f.payload with
      | .varint value => some (s.ofWire value)
      | _ => some a
    else some a
  put := fun a => if s.toWire a = 0 then [] else [⟨n, .varint (s.toWire a)⟩]
  valid := s.valid
  numbered := numbered_singleton numbered
  merge_unknown := fun a f unknown => if_neg (fun same => unknown (by simp [same]))
  put_number := by
    intro a f member
    rw [(mem_unless member).2]
    exact List.mem_singleton_self n
  put_payload := by
    intro a valid _ f member
    rw [(mem_unless member).2]
    exact s.toWire_lt a valid
  merge_put := by
    intro a valid _
    have back := s.ofWire_toWire a valid
    split
    · rename_i zero
      rw [zero] at back
      exact congrArg some back
    · simp [back]

/-- What a length-delimited field of this number does to a message; another one is skipped. -/
def onBytes (n : Nat) (a : α) (f : WireField) (k : List UInt8 → Option α) : Option α :=
  if f.number = n then
    match f.payload with
    | .bytes content => k content
    | _ => some a
  else some a

private theorem onBytes_unknown {n : Nat} {a : α} {f : WireField} {k : List UInt8 → Option α}
    (unknown : f.number ∉ [n]) : onBytes n a f k = some a :=
  if_neg (fun same => unknown (by simp [same]))

@[simp] private theorem onBytes_bytes (n : Nat) (a : α) (content : List UInt8)
    (k : List UInt8 → Option α) : onBytes n a ⟨n, .bytes content⟩ k = k content :=
  if_pos rfl

/-- A singular field with a text or bytes: the empty value is the default. -/
def single (n : Nat) (e : Element α) (empty : α) (numbered : Numbered n)
    (absent : ∀ a, e.valid a = true → e.encode a = [] → a = empty) : Codec α where
  numbers := [n]
  default := empty
  merge := fun a f => onBytes n a f e.decode
  put := fun a => if e.encode a = [] then [] else [⟨n, .bytes (e.encode a)⟩]
  valid := e.valid
  numbered := numbered_singleton numbered
  merge_unknown := fun _ _ unknown => onBytes_unknown unknown
  put_number := by
    intro a f member
    rw [(mem_unless member).2]
    exact List.mem_singleton_self n
  put_payload := by
    intro a valid short f member
    obtain ⟨present, rfl⟩ := mem_unless member
    rw [if_neg present] at short
    exact content_fits short List.mem_cons_self
  merge_put := by
    intro a valid short
    split
    · rename_i empty
      exact congrArg some (absent a valid empty).symm
    · rename_i present
      rw [if_neg present] at short
      have fits := content_fits short List.mem_cons_self
      simp [e.decode_encode a valid fits]

private theorem foldlM_repeated (n : Nat) (e : Element α) (elements : List α)
    (valid : ∀ a ∈ elements, e.valid a = true)
    (short : ∀ a ∈ elements, (e.encode a).length < 2 ^ 64) (sofar : List α) :
    (elements.map (fun a => WireField.mk n (.bytes (e.encode a)))).foldlM
        (fun read f => onBytes n read f (fun content =>
          (e.decode content).map (fun a => read ++ [a]))) sofar = some (sofar ++ elements) := by
  induction elements generalizing sofar with
  | nil => simp
  | cons a later ih =>
    obtain ⟨first, others⟩ := List.forall_mem_cons.mp valid
    obtain ⟨here, there⟩ := List.forall_mem_cons.mp short
    rw [List.map_cons, List.foldlM_cons, onBytes_bytes, e.decode_encode a first here]
    simpa using ih others there (sofar ++ [a])

def textField (n : Nat) (numbered : Numbered n) : Codec GoString :=
  single n text [] numbered (fun _ _ empty => empty)

def rawField (n : Nat) (numbered : Numbered n) : Codec (List UInt8) :=
  single n raw [] numbered (fun _ _ empty => empty)

/-- A repeated field of texts, bytes or messages. -/
def repeated (n : Nat) (e : Element α) (numbered : Numbered n) : Codec (List α) where
  numbers := [n]
  default := []
  merge := fun read f => onBytes n read f (fun content =>
    (e.decode content).map (fun a => read ++ [a]))
  put := fun elements => elements.map (fun a => ⟨n, .bytes (e.encode a)⟩)
  valid := fun elements => elements.all e.valid
  numbered := numbered_singleton numbered
  merge_unknown := fun _ _ unknown => onBytes_unknown unknown
  put_number := by
    intro elements f member
    obtain ⟨a, -, rfl⟩ := List.mem_map.mp member
    exact List.mem_singleton_self n
  put_payload := by
    intro elements valid short f member
    obtain ⟨a, listed, rfl⟩ := List.mem_map.mp member
    exact content_fits short member
  merge_put := by
    intro elements valid short
    have fits : ∀ a ∈ elements, (e.encode a).length < 2 ^ 64 := fun a listed =>
      content_fits short (List.mem_map.mpr ⟨a, listed, rfl⟩)
    exact foldlM_repeated n e elements (List.all_eq_true.mp valid) fits []

/-- A message without fields. -/
def empty : Codec Unit where
  numbers := []
  default := ()
  merge := fun _ _ => some ()
  put := fun _ => []
  valid := fun _ => true
  numbered := fun _ member => absurd member List.not_mem_nil
  merge_unknown := fun _ _ _ => rfl
  put_number := fun _ _ member => absurd member List.not_mem_nil
  put_payload := fun _ _ _ _ member => absurd member List.not_mem_nil
  merge_put := fun _ _ _ => rfl

end Singles

section Encodings

variable {α : Type u} {n : Nat} (numbered : Numbered n)

theorem encodeFields_singleton (f : WireField) : encodeFields [f] = f.encode := by
  simp [encodeFields]

theorem encode_bytes (n : Nat) (content : List UInt8) :
    WireField.encode ⟨n, .bytes content⟩ = lengthDelimited n content := by
  rw [WireField.encode, Payload.encode, lengthDelimited, List.append_assoc]
  rfl

theorem encode_scalar (s : Scalar α) (a : α) :
    (scalar n s numbered).encode a = uint64Field n (s.toWire a) := by
  unfold Codec.encode scalar uint64Field
  dsimp only
  split
  · rfl
  · exact encodeFields_singleton _

theorem encode_single (e : Element α) (empty : α)
    (absent : ∀ a, e.valid a = true → e.encode a = [] → a = empty) (a : α) :
    (single n e empty numbered absent).encode a = bytesField n (e.encode a) := by
  unfold Codec.encode single bytesField
  dsimp only
  split
  · rfl
  · exact (encodeFields_singleton _).trans (encode_bytes n _)

theorem encode_textField (s : GoString) : (textField n numbered).encode s = bytesField n s :=
  encode_single numbered text [] (fun _ _ empty => empty) s

theorem encode_rawField (content : List UInt8) :
    (rawField n numbered).encode content = bytesField n content :=
  encode_single numbered raw [] (fun _ _ empty => empty) content

theorem encode_repeated (e : Element α) (elements : List α) :
    (repeated n e numbered).encode elements = repeatedField n (elements.map e.encode) := by
  unfold Codec.encode repeated encodeFields repeatedField
  rw [List.flatMap_map, List.flatMap_map]
  exact congrArg (fun f => elements.flatMap f) (funext (fun a => encode_bytes n (e.encode a)))

end Encodings

section Products

variable {α : Type u} {β : Type v}

private theorem foldlM_left (c : Codec α) (d : Codec β) (fields : List WireField)
    (foreign : ∀ f ∈ fields, f.number ∉ d.numbers) (x : α) (y : β) :
    fields.foldlM (fun (p : α × β) f => (c.merge p.1 f).bind (fun a =>
      (d.merge p.2 f).map (fun b => (a, b)))) (x, y) =
      (fields.foldlM c.merge x).map (fun a => (a, y)) := by
  induction fields generalizing x with
  | nil => rfl
  | cons f later ih =>
    obtain ⟨first, others⟩ := List.forall_mem_cons.mp foreign
    rw [List.foldlM_cons, List.foldlM_cons, d.merge_unknown y f first]
    cases read : c.merge x f with
    | none => rfl
    | some a => exact ih others a

private theorem foldlM_right (c : Codec α) (d : Codec β) (fields : List WireField)
    (foreign : ∀ f ∈ fields, f.number ∉ c.numbers) (x : α) (y : β) :
    fields.foldlM (fun (p : α × β) f => (c.merge p.1 f).bind (fun a =>
      (d.merge p.2 f).map (fun b => (a, b)))) (x, y) =
      (fields.foldlM d.merge y).map (fun b => (x, b)) := by
  induction fields generalizing y with
  | nil => rfl
  | cons f later ih =>
    obtain ⟨first, others⟩ := List.forall_mem_cons.mp foreign
    rw [List.foldlM_cons, List.foldlM_cons, c.merge_unknown x f first]
    cases read : d.merge y f with
    | none => simp
    | some b => simpa using ih others b

/-- The fields of two codecs with no number in common. -/
def Codec.pair (c : Codec α) (d : Codec β) (apart : ∀ n ∈ c.numbers, n ∉ d.numbers) :
    Codec (α × β) where
  numbers := c.numbers ++ d.numbers
  default := (c.default, d.default)
  merge := fun p f => (c.merge p.1 f).bind (fun a => (d.merge p.2 f).map (fun b => (a, b)))
  put := fun p => c.put p.1 ++ d.put p.2
  valid := fun p => c.valid p.1 && d.valid p.2
  numbered := fun n member => (List.mem_append.mp member).elim (c.numbered n) (d.numbered n)
  merge_unknown := by
    intro p f unknown
    rw [List.mem_append, not_or] at unknown
    rw [c.merge_unknown p.1 f unknown.1, d.merge_unknown p.2 f unknown.2]
    rfl
  put_number := by
    intro p f member
    rcases List.mem_append.mp member with member | member
    · exact List.mem_append_left _ (c.put_number p.1 f member)
    · exact List.mem_append_right _ (d.put_number p.2 f member)
  put_payload := by
    intro p valid short f member
    obtain ⟨left, right⟩ := Bool.and_eq_true_iff.mp valid
    rw [encodeFields_append, List.length_append] at short
    rcases List.mem_append.mp member with member | member
    · exact c.put_payload p.1 left (by omega) f member
    · exact d.put_payload p.2 right (by omega) f member
  merge_put := by
    intro p valid short
    obtain ⟨left, right⟩ := Bool.and_eq_true_iff.mp valid
    rw [encodeFields_append, List.length_append] at short
    have foreign : ∀ f ∈ c.put p.1, f.number ∉ d.numbers :=
      fun f member => apart _ (c.put_number p.1 f member)
    have foreign' : ∀ f ∈ d.put p.2, f.number ∉ c.numbers :=
      fun f member mine => apart _ mine (d.put_number p.2 f member)
    rw [List.foldlM_append, foldlM_left c d _ foreign, c.merge_put p.1 left (by omega)]
    rw [Option.map_some, Option.bind_eq_bind, Option.bind_some, foldlM_right c d _ foreign',
      d.merge_put p.2 right (by omega)]
    rfl

theorem encode_pair (c : Codec α) (d : Codec β) (apart : ∀ n ∈ c.numbers, n ∉ d.numbers)
    (p : α × β) : (c.pair d apart).encode p = c.encode p.1 ++ d.encode p.2 :=
  encodeFields_append _ _

private theorem foldlM_equiv (c : Codec α) (e : α ≃ β) (fields : List WireField) (x : α) :
    fields.foldlM (fun b f => (c.merge (e.symm b) f).map e) (e x) =
      (fields.foldlM c.merge x).map e := by
  induction fields generalizing x with
  | nil => rfl
  | cons f later ih =>
    rw [List.foldlM_cons, List.foldlM_cons, e.symm_apply_apply]
    cases read : c.merge x f with
    | none => rfl
    | some a => exact ih a

/-- The same fields for another presentation of the values. -/
def Codec.ofEquiv (c : Codec α) (e : α ≃ β) : Codec β where
  numbers := c.numbers
  default := e c.default
  merge := fun b f => (c.merge (e.symm b) f).map e
  put := fun b => c.put (e.symm b)
  valid := fun b => c.valid (e.symm b)
  numbered := c.numbered
  merge_unknown := fun b f unknown => by
    rw [c.merge_unknown _ f unknown, Option.map_some, e.apply_symm_apply]
  put_number := fun b => c.put_number (e.symm b)
  put_payload := fun b => c.put_payload (e.symm b)
  merge_put := fun b valid short => by
    rw [foldlM_equiv, c.merge_put _ valid short, Option.map_some, e.apply_symm_apply]

end Products

/-- The alternatives of a `oneof`. A field of the alternative that is set is read into it, one of
another alternative replaces it. -/
structure Choice (α : Type u) where
  numbers : List Nat
  merge : Option α → WireField → Option (Option α)
  put : α → WireField
  valid : α → Bool
  numbered : ∀ n ∈ numbers, 0 < n ∧ n < 2 ^ 29
  merge_unknown : ∀ a f, f.number ∉ numbers → merge a f = some a
  put_number : ∀ a, (put a).number ∈ numbers
  put_payload : ∀ a, valid a = true → (encodeFields [put a]).length < 2 ^ 64 →
    (put a).payload.WellFormed
  merge_put : ∀ a, valid a = true → (encodeFields [put a]).length < 2 ^ 64 →
    merge none (put a) = some (some a)

section Choices

variable {α : Type u} {β : Type v}

def alternative (n : Nat) (c : Codec α) (numbered : Numbered n) : Choice α where
  numbers := [n]
  merge := fun a f => onBytes n a f (fun content =>
    (c.unmarshalInto (a.getD c.default) content).map some)
  put := fun a => ⟨n, .bytes (c.encode a)⟩
  valid := c.valid
  numbered := numbered_singleton numbered
  merge_unknown := fun _ _ unknown => onBytes_unknown unknown
  put_number := fun _ => List.mem_singleton_self n
  put_payload := fun _ _ short => content_fits short List.mem_cons_self
  merge_put := by
    intro a valid short
    have fits := content_fits short List.mem_cons_self
    rw [onBytes_bytes]
    exact congrArg (Option.map some) (c.unmarshal_encode valid fits)

/-- The value of one side, if it is the one that is set. -/
def Choice.leftOf : Option (α ⊕ β) → Option α
  | some (.inl a) => some a
  | _ => none

def Choice.rightOf : Option (α ⊕ β) → Option β
  | some (.inr b) => some b
  | _ => none

/-- What one side has read, if anything, is what is set. -/
def Choice.either (c : Choice α) (d : Choice β) (apart : ∀ n ∈ c.numbers, n ∉ d.numbers) :
    Choice (α ⊕ β) where
  numbers := c.numbers ++ d.numbers
  merge := fun set f =>
    if f.number ∈ c.numbers then
      (c.merge (leftOf set) f).map (fun read => (read.map Sum.inl).or set)
    else (d.merge (rightOf set) f).map (fun read => (read.map Sum.inr).or set)
  put := Sum.elim c.put d.put
  valid := Sum.elim c.valid d.valid
  numbered := fun n member => (List.mem_append.mp member).elim (c.numbered n) (d.numbered n)
  merge_unknown := by
    intro set f unknown
    rw [List.mem_append, not_or] at unknown
    rw [if_neg unknown.1, d.merge_unknown _ f unknown.2]
    rcases set with - | a | b <;> rfl
  put_number := by
    rintro (a | b)
    · exact List.mem_append_left _ (c.put_number a)
    · exact List.mem_append_right _ (d.put_number b)
  put_payload := by
    rintro (a | b) valid short
    · exact c.put_payload a valid short
    · exact d.put_payload b valid short
  merge_put := by
    rintro (a | b) valid short
    · have mine := c.put_number a
      have read : c.merge none (c.put a) = some (some a) := c.merge_put a valid short
      simp [Sum.elim_inl, mine, leftOf, read]
    · have foreign : (d.put b).number ∉ c.numbers := fun mine => apart _ mine (d.put_number b)
      have read : d.merge none (d.put b) = some (some b) := d.merge_put b valid short
      simp [Sum.elim_inr, foreign, rightOf, read]

/-- A `oneof` as part of a message; it may be unset. -/
def Choice.codec (c : Choice α) : Codec (Option α) where
  numbers := c.numbers
  default := none
  merge := c.merge
  put := fun set => (set.map c.put).toList
  valid := fun set => set.all c.valid
  numbered := c.numbered
  merge_unknown := c.merge_unknown
  put_number := by
    rintro (- | a) f member
    · cases member
    · rw [List.mem_singleton.mp member]
      exact c.put_number a
  put_payload := by
    rintro (- | a) valid short f member
    · cases member
    · rw [List.mem_singleton.mp member]
      exact c.put_payload a valid short
  merge_put := by
    rintro (- | a) valid short
    · rfl
    · have read := c.merge_put a valid short
      simp [read]

end Choices

section Validity

variable {α : Type u} {β : Type v} {n : Nat} (numbered : Numbered n)

@[simp] theorem valid_scalar (s : Scalar α) (a : α) :
    (scalar n s numbered).valid a = s.valid a := rfl

@[simp] theorem valid_textField (s : GoString) :
    (textField n numbered).valid s = validString s := rfl

@[simp] theorem valid_rawField (content : List UInt8) :
    (rawField n numbered).valid content = true := rfl

@[simp] theorem valid_repeated (e : Element α) (elements : List α) :
    (repeated n e numbered).valid elements = elements.all e.valid := rfl

@[simp] theorem valid_pair (c : Codec α) (d : Codec β) (apart : ∀ n ∈ c.numbers, n ∉ d.numbers)
    (p : α × β) : (c.pair d apart).valid p = (c.valid p.1 && d.valid p.2) := rfl

@[simp] theorem valid_ofEquiv (c : Codec α) (e : α ≃ β) (b : β) :
    (c.ofEquiv e).valid b = c.valid (e.symm b) := rfl

@[simp] theorem valid_alternative (c : Codec α) (a : α) :
    (alternative n c numbered).valid a = c.valid a := rfl

@[simp] theorem valid_either (c : Choice α) (d : Choice β)
    (apart : ∀ n ∈ c.numbers, n ∉ d.numbers) (x : α ⊕ β) :
    (c.either d apart).valid x = Sum.elim c.valid d.valid x := rfl

@[simp] theorem valid_message (c : Codec α) : (message c).valid = c.valid := rfl

@[simp] theorem valid_text : text.valid = validString := rfl

@[simp] theorem valid_raw : raw.valid = fun _ => true := rfl

@[simp] theorem valid_uint64 (v : UInt64) : uint64.valid v = true := rfl

@[simp] theorem valid_bool (b : Bool) : bool.valid b = true := rfl

end Validity

end SignalAgent.Foundations.ProtoMessages
