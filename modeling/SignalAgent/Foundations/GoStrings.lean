/- MID: SignalAgent/Foundations/GoStrings
   layer: library
   source: none
   digest: Cutting, replacing and trimming byte strings. -/

import SignalAgent.Foundations.GoText

set_option autoImplicit false
set_option relaxedAutoImplicit false

namespace SignalAgent.Foundations.GoStrings

open GoText

/-- `strings.CutPrefix`; nothing if the prefix is missing. -/
def cutPrefix (s pre : GoString) : Option GoString :=
  if hasPrefix s pre then some (s.drop pre.length) else none

/-- `strings.TrimPrefix`. -/
def trimPrefix (s pre : GoString) : GoString := (cutPrefix s pre).getD s

/-- `strings.HasSuffix`. -/
def hasSuffix (s suf : GoString) : Bool := suf.isSuffixOf s

/-- `unicode.ToUpper`, with the table beyond ASCII as an argument. -/
def upperRune (beyond : Nat → Nat) (r : Nat) : Nat :=
  if r < 0x80 then (if 0x61 ≤ r && r ≤ 0x7A then r - 32 else r) else beyond r

/-- `strings.ToUpper`. -/
def toUpper (beyond : Nat → Nat) (s : GoString) : GoString := mapRunes (upperRune beyond) s

/-- The lower-case ASCII letter a rune folds to; two runes beyond ASCII fold to one. -/
def foldRune (r : Nat) : Nat :=
  if 0x41 ≤ r && r ≤ 0x5A then r + 32
  else if r = 0x17F then 0x73
  else if r = 0x212A then 0x6B
  else r

/-- `strings.EqualFold` against an ASCII text. -/
def equalFoldAscii (s ascii : GoString) : Bool :=
  (runes s).map foldRune = (runes ascii).map foldRune

/-- `strings.Cut` at one byte; nothing if the byte is missing. -/
def cut (s : GoString) (separator : UInt8) : Option (GoString × GoString) :=
  if separator ∈ s then
    some (s.takeWhile (· ≠ separator), (s.dropWhile (· ≠ separator)).drop 1)
  else none

def replaceFrom (old new : GoString) : Nat → GoString → GoString
  | 0, s => s
  | _ + 1, [] => []
  | n + 1, c :: s =>
    if hasPrefix (c :: s) old then new ++ replaceFrom old new n ((c :: s).drop old.length)
    else c :: replaceFrom old new n s

/-- Write a text behind every rune; a byte that starts no rune counts as one. -/
def insertBehindRunes (new : GoString) : Nat → GoString → GoString
  | 0, s => s
  | _ + 1, [] => []
  | n + 1, c :: s =>
    let width := (decodeRune (c :: s)).2
    (c :: s).take width ++ (new ++ insertBehindRunes new n ((c :: s).drop width))

/-- `strings.ReplaceAll`; an empty text stands in front of the first and behind every rune. -/
def replaceAll (s old new : GoString) : GoString :=
  if old = [] then new ++ insertBehindRunes new s.length s else replaceFrom old new s.length s

/-- The encodings of the runes that `unicode.IsSpace` accepts. -/
def spaces : List GoString :=
  [0x09, 0x0A, 0x0B, 0x0C, 0x0D, 0x20, 0x85, 0xA0, 0x1680, 0x2000, 0x2001, 0x2002, 0x2003, 0x2004,
    0x2005, 0x2006, 0x2007, 0x2008, 0x2009, 0x200A, 0x2028, 0x2029, 0x202F, 0x205F, 0x3000].map
    encodeRune

/-- Drop the texts of a list from the front as long as one stands there. -/
def trimFrom (texts : List GoString) : Nat → GoString → GoString
  | 0, s => s
  | n + 1, s =>
    match texts.find? (hasPrefix s) with
    | some text => trimFrom texts n (s.drop text.length)
    | none => s

/-- `strings.TrimSpace`. -/
def trimSpace (s : GoString) : GoString :=
  let front := trimFrom spaces s.length s
  (trimFrom (spaces.map List.reverse) front.length front.reverse).reverse

/-- `strings.TrimRight` with a set of one byte. -/
def trimRight (s : GoString) (c : UInt8) : GoString := (s.reverse.dropWhile (· = c)).reverse

theorem cutPrefix_append (pre s : GoString) : cutPrefix (pre ++ s) pre = some s := by
  have starts : hasPrefix (pre ++ s) pre = true := List.isPrefixOf_iff_prefix.mpr ⟨s, rfl⟩
  rw [cutPrefix, if_pos starts, List.drop_left]

theorem cut_append {front : GoString} {separator : UInt8} (free : separator ∉ front)
    (back : GoString) : cut (front ++ separator :: back) separator = some (front, back) := by
  have apart : ∀ b ∈ front, decide (b ≠ separator) = true := by
    intro b member
    have other : b ≠ separator := fun same => free (same ▸ member)
    simpa using other
  rw [cut, if_pos (by simp), List.takeWhile_append_of_pos apart, List.dropWhile_append_of_pos apart,
    List.takeWhile_cons_of_neg (by simp), List.dropWhile_cons_of_neg (by simp), List.append_nil]
  rfl

end SignalAgent.Foundations.GoStrings
