/- MID: SignalAgent/Foundations/GoText
   layer: library
   source: none
   digest: Byte strings, runes, hexadecimal text, and the text routines taken as parameters. -/

import Mathlib.Data.List.Basic

set_option autoImplicit false
set_option relaxedAutoImplicit false

namespace SignalAgent.Foundations.GoText

/-- A string is a byte sequence; nothing makes it valid UTF-8. -/
abbrev GoString := List UInt8

instance : LawfulBEq GoString := inferInstance

/-- The bytes of a source literal. -/
def lit (s : String) : GoString := s.toByteArray.data.toList

/-- `strings.Join`. -/
def join (parts : List GoString) (separator : GoString) : GoString := separator.intercalate parts

/-- `strings.HasPrefix`. -/
def hasPrefix (s pre : GoString) : Bool := pre.isPrefixOf s

def runeError : Nat := 0xFFFD

/-- The range of second bytes a lead byte admits. -/
def secondByteRange (b0 : UInt8) : UInt8 × UInt8 :=
  if b0 = 0xE0 then (0xA0, 0xBF)
  else if b0 = 0xED then (0x80, 0x9F)
  else if b0 = 0xF0 then (0x90, 0xBF)
  else if b0 = 0xF4 then (0x80, 0x8F)
  else (0x80, 0xBF)

def continuationByte (b : UInt8) : Bool := 0x80 ≤ b && b ≤ 0xBF

/-- `utf8.DecodeRuneInString`: the first rune and its width.  Every malformed
sequence yields the error rune at width one. -/
def decodeRune : GoString → Nat × Nat
  | [] => (runeError, 0)
  | b0 :: rest =>
    if b0 < 0x80 then (b0.toNat, 1)
    else if b0 < 0xC2 || 0xF4 < b0 then (runeError, 1)
    else
      let range := secondByteRange b0
      match rest with
      | [] => (runeError, 1)
      | b1 :: rest1 =>
        if b1 < range.1 || range.2 < b1 then (runeError, 1)
        else if b0 < 0xE0 then (b0.toNat % 32 * 64 + b1.toNat % 64, 2)
        else match rest1 with
          | [] => (runeError, 1)
          | b2 :: rest2 =>
            if !continuationByte b2 then (runeError, 1)
            else if b0 < 0xF0 then
              (b0.toNat % 16 * 4096 + b1.toNat % 64 * 64 + b2.toNat % 64, 3)
            else match rest2 with
              | [] => (runeError, 1)
              | b3 :: _ =>
                if !continuationByte b3 then (runeError, 1)
                else (b0.toNat % 8 * 262144 + b1.toNat % 64 * 4096 + b2.toNat % 64 * 64
                  + b3.toNat % 64, 4)

/-- `utf8.AppendRune`; surrogates and out-of-range values become the error rune. -/
def encodeRune (r : Nat) : GoString :=
  if r < 0x80 then [UInt8.ofNat r]
  else if r < 0x800 then [UInt8.ofNat (0xC0 + r / 64), UInt8.ofNat (0x80 + r % 64)]
  else if (0xD800 ≤ r && r ≤ 0xDFFF) || 0x10FFFF < r then [0xEF, 0xBF, 0xBD]
  else if r < 0x10000 then
    [UInt8.ofNat (0xE0 + r / 4096), UInt8.ofNat (0x80 + r / 64 % 64), UInt8.ofNat (0x80 + r % 64)]
  else
    [UInt8.ofNat (0xF0 + r / 262144), UInt8.ofNat (0x80 + r / 4096 % 64),
      UInt8.ofNat (0x80 + r / 64 % 64), UInt8.ofNat (0x80 + r % 64)]

/-- Each rune is at least one byte wide, so the byte count is enough fuel. -/
def runesFrom : Nat → GoString → List Nat
  | 0, _ => []
  | _ + 1, [] => []
  | n + 1, b :: s =>
    let rune := decodeRune (b :: s)
    rune.1 :: runesFrom n ((b :: s).drop rune.2)

/-- The runes a range statement over a string visits. -/
def runes (s : GoString) : List Nat := runesFrom s.length s

/-- `strings.Map` for a mapping that drops no rune. -/
def mapRunes (f : Nat → Nat) (s : GoString) : GoString :=
  (runes s).flatMap (fun r => encodeRune (f r))

def hexDigit (n : Nat) : UInt8 := if n < 10 then UInt8.ofNat (48 + n) else UInt8.ofNat (87 + n)

def fromHexChar (c : UInt8) : Option Nat :=
  if 48 ≤ c && c ≤ 57 then some (c.toNat - 48)
  else if 97 ≤ c && c ≤ 102 then some (c.toNat - 87)
  else if 65 ≤ c && c ≤ 70 then some (c.toNat - 55)
  else none

/-- `hex.EncodeToString`. -/
def hexEncode (bytes : List UInt8) : GoString :=
  bytes.flatMap (fun b => [hexDigit (b.toNat / 16), hexDigit (b.toNat % 16)])

/-- `hex.DecodeString`; an odd length or a foreign character is an error. -/
def hexDecode : GoString → Option (List UInt8)
  | [] => some []
  | [_] => none
  | hi :: lo :: rest => do
    let h ← fromHexChar hi
    let l ← fromHexChar lo
    let tail ← hexDecode rest
    return UInt8.ofNat (h * 16 + l) :: tail

theorem fromHexChar_hexDigit : ∀ n < 16, fromHexChar (hexDigit n) = some n := by decide

@[simp] theorem hexDecode_hexEncode (bytes : List UInt8) :
    hexDecode (hexEncode bytes) = some bytes := by
  induction bytes with
  | nil => rfl
  | cons b bytes ih =>
    have high : fromHexChar (hexDigit (b.toNat / 16)) = some (b.toNat / 16) :=
      fromHexChar_hexDigit _ (by have := b.toNat_lt; omega)
    have low : fromHexChar (hexDigit (b.toNat % 16)) = some (b.toNat % 16) :=
      fromHexChar_hexDigit _ (Nat.mod_lt _ (by decide))
    have joined : b.toNat / 16 * 16 + b.toNat % 16 = b.toNat := by omega
    simp only [hexEncode, List.flatMap_cons, List.cons_append, List.nil_append, hexDecode, high,
      low, Option.bind_eq_bind, Option.bind_some] at ih ⊢
    simp only [ih, joined, Option.bind_some, UInt8.ofNat_toNat, pure]

/-- The text routines whose results are not recomputed here: the regular expression
engine, Go unquoting, the Unicode tables above Latin-1 and float formatting.  A
compiled expression is represented by its text. -/
structure GoRuntime where
  compiles : GoString → Bool
  matchString : GoString → GoString → Bool
  unquote : GoString → Option GoString
  letterBeyondLatin : Nat → Bool
  digitBeyondLatin : Nat → Bool
  formatFloat : UInt64 → GoString

/-- `unicode.IsLetter`: a fixed Latin-1 table, the category tables above it. -/
def GoRuntime.isLetter (R : GoRuntime) (r : Nat) : Bool :=
  if r ≤ 0xFF then
    (65 ≤ r && r ≤ 90) || (97 ≤ r && r ≤ 122) || r == 0xAA || r == 0xB5 || r == 0xBA ||
      (0xC0 ≤ r && r ≤ 0xD6) || (0xD8 ≤ r && r ≤ 0xF6) || 0xF8 ≤ r
  else R.letterBeyondLatin r

/-- `unicode.IsDigit`: the decimal digits, the category tables above Latin-1. -/
def GoRuntime.isDigit (R : GoRuntime) (r : Nat) : Bool :=
  if r ≤ 0xFF then 48 ≤ r && r ≤ 57 else R.digitBeyondLatin r

end SignalAgent.Foundations.GoText
