/- MID: SignalAgent/Foundations/GoQuote
   layer: library
   source: none
   digest: Double-quoted Go literals: their interior has no unescaped double quote and is read
     back to the text it was written for. -/

import Mathlib.Algebra.GroupWithZero.Nat
import SignalAgent.Foundations.GoRunes

set_option autoImplicit false
set_option relaxedAutoImplicit false

namespace SignalAgent.Foundations.GoQuote

open GoRunes GoText

/-- The interior of a double-quoted literal: plain bytes and backslash pairs. -/
inductive Escaped : GoString → Prop where
  | nil : Escaped []
  | plain {c : UInt8} {s : GoString} (quote : c ≠ 0x22) (backslash : c ≠ 0x5C) (rest : Escaped s) :
      Escaped (c :: s)
  | pair (c : UInt8) {s : GoString} (rest : Escaped s) : Escaped (0x5C :: c :: s)

theorem Escaped.append {s t : GoString} (first : Escaped s) (second : Escaped t) :
    Escaped (s ++ t) := by
  induction first with
  | nil => exact second
  | plain quote backslash _ ih => exact .plain quote backslash ih
  | pair c _ ih => exact .pair c ih

private theorem escaped_of_plain {s : GoString} (plain : ∀ c ∈ s, c ≠ 0x22 ∧ c ≠ 0x5C) :
    Escaped s := by
  induction s with
  | nil => exact .nil
  | cons c s ih =>
    have head := plain c List.mem_cons_self
    exact .plain head.1 head.2 (ih fun d member => plain d (List.mem_cons_of_mem _ member))

theorem Escaped.quote_after {c : UInt8} (backslash : c ≠ 0x5C) {front back : GoString} :
    ¬ Escaped (front ++ c :: 0x22 :: back) := by
  intro escaped
  generalize whole : front ++ c :: 0x22 :: back = text at escaped
  induction escaped generalizing front with
  | nil => exact List.append_ne_nil_of_right_ne_nil _ (List.cons_ne_nil _ _) whole
  | plain quote _ rest ih =>
    cases front with
    | nil =>
      obtain ⟨-, rfl⟩ := List.cons.inj whole
      cases rest with
      | plain quote _ _ => exact quote rfl
    | cons d front => exact ih (List.cons.inj whole).2
  | pair d rest ih =>
    cases front with
    | nil => exact backslash (List.cons.inj whole).1
    | cons e front =>
      cases front with
      | nil =>
        obtain ⟨-, rfl⟩ := List.cons.inj (List.cons.inj whole).2
        cases rest with
        | plain quote _ _ => exact quote rfl
      | cons e' front => exact ih (List.cons.inj (List.cons.inj whole).2).2

/-- The last `count` hexadecimal digits of a number. -/
def hexDigits : Nat → Nat → GoString
  | 0, _ => []
  | count + 1, n => hexDigit (n / 16 ^ count % 16) :: hexDigits count n

/-- The control characters with a letter of their own. -/
def controlLetter : Nat → Option UInt8
  | 0x07 => some 0x61
  | 0x08 => some 0x62
  | 0x0C => some 0x66
  | 0x0A => some 0x6E
  | 0x0D => some 0x72
  | 0x09 => some 0x74
  | 0x0B => some 0x76
  | _ => none

/-- A rune written by its number. -/
def numericEscape (r : Nat) : GoString :=
  if r < 0x20 || r = 0x7F then 0x5C :: 0x78 :: hexDigits 2 r
  else if !validRune r then 0x5C :: 0x75 :: hexDigits 4 runeError
  else if r < 0x10000 then 0x5C :: 0x75 :: hexDigits 4 r
  else 0x5C :: 0x55 :: hexDigits 8 r

/-- `strconv.appendEscapedRune` for double quotes. The table of printable runes is a
parameter. -/
def appendEscapedRune (isPrint : Nat → Bool) (r : Nat) : GoString :=
  if r = 0x22 || r = 0x5C then [0x5C, UInt8.ofNat r]
  else if isPrint r then encodeRune r
  else match controlLetter r with
    | some letter => [0x5C, letter]
    | none => numericEscape r

/-- The loop of `strconv.Quote`: a byte that starts no rune is written in hexadecimal. -/
def quoteFrom (isPrint : Nat → Bool) : Nat → GoString → GoString
  | 0, _ => []
  | _ + 1, [] => []
  | n + 1, b :: s =>
    let rune := decodeRune (b :: s)
    (if rune = (runeError, 1) then 0x5C :: 0x78 :: hexDigits 2 b.toNat
      else appendEscapedRune isPrint rune.1) ++
      quoteFrom isPrint n ((b :: s).drop rune.2)

/-- The interior of `strconv.Quote`. -/
def quoteBody (isPrint : Nat → Bool) (s : GoString) : GoString := quoteFrom isPrint s.length s

/-- `strconv.Quote`. -/
def quote (isPrint : Nat → Bool) (s : GoString) : GoString :=
  [0x22] ++ quoteBody isPrint s ++ [0x22]

private theorem hexDigit_plain : ∀ n < 16, hexDigit n ≠ 0x22 ∧ hexDigit n ≠ 0x5C := by decide

private theorem escaped_hexDigits (count n : Nat) : Escaped (hexDigits count n) := by
  induction count with
  | zero => exact .nil
  | succ count ih =>
    have digit := hexDigit_plain (n / 16 ^ count % 16) (Nat.mod_lt _ (by decide))
    exact .plain digit.1 digit.2 ih

private theorem escaped_encodeRune {r : Nat} (quote : r ≠ 0x22) (backslash : r ≠ 0x5C) :
    Escaped (encodeRune r) := by
  refine escaped_of_plain (fun c member => ⟨?_, ?_⟩)
  · rintro rfl
    exact quote (eq_of_mem_encodeRune member (by decide))
  · rintro rfl
    exact backslash (eq_of_mem_encodeRune member (by decide))

private theorem escaped_pair_hexDigits (c : UInt8) (count n : Nat) :
    Escaped (0x5C :: c :: hexDigits count n) :=
  .pair c (escaped_hexDigits count n)

private theorem escaped_numericEscape (r : Nat) : Escaped (numericEscape r) := by
  unfold numericEscape
  repeat' split
  all_goals exact escaped_pair_hexDigits _ _ _

private theorem escaped_appendEscapedRune (isPrint : Nat → Bool) (r : Nat) :
    Escaped (appendEscapedRune isPrint r) := by
  unfold appendEscapedRune
  split
  · exact .pair _ .nil
  · rename_i other
    simp only [Bool.or_eq_true, decide_eq_true_eq, not_or] at other
    split
    · exact escaped_encodeRune other.1 other.2
    · cases controlLetter r with
      | some letter => exact .pair letter .nil
      | none => exact escaped_numericEscape r

theorem escaped_quoteBody (isPrint : Nat → Bool) (s : GoString) :
    Escaped (quoteBody isPrint s) := by
  have from_ : ∀ n t, Escaped (quoteFrom isPrint n t) := by
    intro n
    induction n with
    | zero => exact fun _ => .nil
    | succ n ih =>
      intro t
      cases t with
      | nil => exact .nil
      | cons b t =>
        refine Escaped.append ?_ (ih _)
        split
        · exact escaped_pair_hexDigits _ _ _
        · exact escaped_appendEscapedRune isPrint _
  exact from_ s.length s

/-- The number a text of hexadecimal digits stands for. -/
def hexNumber : GoString → Nat
  | [] => 0
  | c :: s => (fromHexChar c).getD 0 * 16 ^ s.length + hexNumber s

/-- The character of a letter escape; every other character stands for itself. -/
def escapedByte : UInt8 → UInt8
  | 0x61 => 0x07
  | 0x62 => 0x08
  | 0x66 => 0x0C
  | 0x6E => 0x0A
  | 0x72 => 0x0D
  | 0x74 => 0x09
  | 0x76 => 0x0B
  | c => c

/-- Read the interior of a literal back. -/
def unquoteBody : GoString → GoString
  | [] => []
  | 0x5C :: c :: s =>
    if c = 0x78 then UInt8.ofNat (hexNumber (s.take 2)) :: unquoteBody (s.drop 2)
    else if c = 0x75 then encodeRune (hexNumber (s.take 4)) ++ unquoteBody (s.drop 4)
    else if c = 0x55 then encodeRune (hexNumber (s.take 8)) ++ unquoteBody (s.drop 8)
    else escapedByte c :: unquoteBody s
  | c :: s => c :: unquoteBody s
termination_by s => s.length
decreasing_by all_goals (simp; try omega)

private theorem length_hexDigits (count n : Nat) : (hexDigits count n).length = count := by
  induction count with
  | zero => rfl
  | succ count ih => rw [hexDigits, List.length_cons, ih]

private theorem hexNumber_hexDigits (count n : Nat) :
    hexNumber (hexDigits count n) = n % 16 ^ count := by
  induction count with
  | zero => rw [hexDigits, hexNumber, Nat.pow_zero, Nat.mod_one]
  | succ count ih =>
    have digit := fromHexChar_hexDigit (n / 16 ^ count % 16) (Nat.mod_lt _ (by decide))
    rw [hexDigits, hexNumber, digit, length_hexDigits, ih, Option.getD_some, Nat.mod_pow_succ,
      Nat.mul_comm, Nat.add_comm]

private theorem hexNumber_of_lt (count : Nat) {n : Nat} (short : n < 16 ^ count) :
    hexNumber (hexDigits count n) = n := by
  rw [hexNumber_hexDigits, Nat.mod_eq_of_lt short]

private theorem unquoteBody_plain {c : UInt8} (s : GoString) (plain : c ≠ 0x5C) :
    unquoteBody (c :: s) = c :: unquoteBody s := by
  rw [unquoteBody]
  rintro _ _ rfl
  exact absurd rfl plain

private theorem unquoteBody_plain_append {s : GoString} (plain : ∀ c ∈ s, c ≠ 0x5C)
    (rest : GoString) : unquoteBody (s ++ rest) = s ++ unquoteBody rest := by
  induction s with
  | nil => rfl
  | cons c s ih =>
    rw [List.cons_append, unquoteBody_plain _ (plain c List.mem_cons_self),
      ih fun d member => plain d (List.mem_cons_of_mem _ member), List.cons_append]

private theorem hexDigits_append (count n : Nat) (rest : GoString) :
    (hexDigits count n ++ rest).take count = hexDigits count n ∧
      (hexDigits count n ++ rest).drop count = rest :=
  ⟨List.take_left' (length_hexDigits count n), List.drop_left' (length_hexDigits count n)⟩

private theorem unquoteBody_x {n : Nat} (byte : n < 256) (rest : GoString) :
    unquoteBody (0x5C :: 0x78 :: (hexDigits 2 n ++ rest)) = UInt8.ofNat n :: unquoteBody rest := by
  have split := hexDigits_append 2 n rest
  have number := hexNumber_of_lt 2 (show n < 16 ^ 2 by omega)
  rw [unquoteBody, if_pos rfl, split.1, split.2, number]

private theorem unquoteBody_u {n : Nat} (short : n < 0x10000) (rest : GoString) :
    unquoteBody (0x5C :: 0x75 :: (hexDigits 4 n ++ rest)) = encodeRune n ++ unquoteBody rest := by
  have split := hexDigits_append 4 n rest
  have number := hexNumber_of_lt 4 (show n < 16 ^ 4 by omega)
  rw [unquoteBody, if_neg (by decide), if_pos rfl, split.1, split.2, number]

private theorem unquoteBody_U {n : Nat} (short : n < 0x100000000) (rest : GoString) :
    unquoteBody (0x5C :: 0x55 :: (hexDigits 8 n ++ rest)) = encodeRune n ++ unquoteBody rest := by
  have split := hexDigits_append 8 n rest
  have number := hexNumber_of_lt 8 (show n < 16 ^ 8 by omega)
  rw [unquoteBody, if_neg (by decide), if_neg (by decide), if_pos rfl, split.1, split.2, number]

private theorem unquoteBody_escapedByte {c : UInt8} (letter : c ≠ 0x78 ∧ c ≠ 0x75 ∧ c ≠ 0x55)
    (rest : GoString) : unquoteBody (0x5C :: c :: rest) = escapedByte c :: unquoteBody rest := by
  rw [unquoteBody, if_neg letter.1, if_neg letter.2.1, if_neg letter.2.2]

private theorem controlLetter_spec {r : Nat} {letter : UInt8}
    (found : controlLetter r = some letter) :
    r < 0x80 ∧ (letter ≠ 0x78 ∧ letter ≠ 0x75 ∧ letter ≠ 0x55) ∧
      escapedByte letter = UInt8.ofNat r := by
  unfold controlLetter at found
  split at found <;> cases found <;> decide

private theorem unquoteBody_numericEscape {r : Nat} (valid : validRune r = true) (rest : GoString) :
    unquoteBody (numericEscape r ++ rest) = encodeRune r ++ unquoteBody rest := by
  unfold numericEscape
  split
  · rename_i control
    have ascii : r < 0x80 := by
      simp only [Bool.or_eq_true, decide_eq_true_eq] at control
      omega
    rw [List.cons_append, List.cons_append, unquoteBody_x (by omega), encodeRune, if_pos ascii]
    rfl
  · rw [valid, Bool.not_true, if_neg Bool.false_ne_true]
    split
    · rename_i short
      exact unquoteBody_u short rest
    · simp only [validRune, Bool.or_eq_true, Bool.and_eq_true, decide_eq_true_eq] at valid
      exact unquoteBody_U (by omega) rest

private theorem unquoteBody_appendEscapedRune (isPrint : Nat → Bool) {r : Nat} {bytes : GoString}
    (sequence : Sequence r bytes) (rest : GoString) :
    unquoteBody (appendEscapedRune isPrint r ++ rest) = bytes ++ unquoteBody rest := by
  unfold appendEscapedRune
  split
  · rename_i special
    simp only [Bool.or_eq_true, decide_eq_true_eq] at special
    rw [← sequence.encodeRune_eq]
    rcases special with rfl | rfl <;> exact unquoteBody_escapedByte (by decide) rest
  · rename_i other
    simp only [Bool.or_eq_true, decide_eq_true_eq, not_or] at other
    split
    · rw [← sequence.encodeRune_eq]
      refine unquoteBody_plain_append (fun c member => ?_) rest
      rintro rfl
      exact other.2 (eq_of_mem_encodeRune member (by decide))
    · rw [← sequence.encodeRune_eq]
      cases found : controlLetter r with
      | some letter =>
        obtain ⟨ascii, letters, same⟩ := controlLetter_spec found
        rw [encodeRune, if_pos ascii, ← same]
        exact unquoteBody_escapedByte letters rest
      | none => exact unquoteBody_numericEscape sequence.validRune_eq rest

private theorem unquoteBody_quoteFrom (isPrint : Nat → Bool) (n : Nat) (s : GoString)
    (enough : s.length ≤ n) : unquoteBody (quoteFrom isPrint n s) = s := by
  induction n generalizing s with
  | zero =>
    obtain rfl := List.eq_nil_of_length_eq_zero (Nat.le_zero.mp enough)
    rw [quoteFrom, unquoteBody]
  | succ n ih =>
    cases s with
    | nil => rw [quoteFrom, unquoteBody]
    | cons b s =>
      rw [quoteFrom]
      rcases decodeRune_cases b s with error | ⟨r, bytes, rest, sequence, whole, decoded⟩
      · rw [error, if_pos rfl, List.cons_append, List.cons_append, unquoteBody_x b.toNat_lt,
          UInt8.ofNat_toNat, ih]
        · rfl
        · simpa using enough
      · have positive : 0 < bytes.length := by cases sequence <;> simp
        have shorter : rest.length ≤ n := by
          rw [whole, List.length_append] at enough
          omega
        have found : (r, bytes.length) ≠ (runeError, 1) := by
          intro same
          cases sequence <;> simp [runeError] at same
          omega
        rw [decoded, if_neg found, unquoteBody_appendEscapedRune isPrint sequence, whole,
          List.drop_left, ih rest shorter]

theorem unquoteBody_quoteBody (isPrint : Nat → Bool) (s : GoString) :
    unquoteBody (quoteBody isPrint s) = s :=
  unquoteBody_quoteFrom isPrint s.length s (Nat.le_refl _)

theorem quoteBody_injective (isPrint : Nat → Bool) : Function.Injective (quoteBody isPrint) :=
  Function.LeftInverse.injective (unquoteBody_quoteBody isPrint)

end SignalAgent.Foundations.GoQuote
