/- MID: SignalAgent/Foundations/GoRunes
   layer: library
   source: none
   digest: The well-formed UTF-8 sequences; decoding finds them and encoding writes them. -/

import SignalAgent.Foundations.GoText

set_option autoImplicit false
set_option relaxedAutoImplicit false

namespace SignalAgent.Foundations.GoRunes

open GoText

/-- `utf8.ValidRune`. -/
def validRune (r : Nat) : Bool := r < 0xD800 || (0xDFFF < r && r ≤ 0x10FFFF)

/-- The well-formed sequences, by the rune and the bytes it is read from. -/
inductive Sequence : Nat → GoString → Prop where
  | one {b : UInt8} (ascii : b.toNat < 0x80) : Sequence b.toNat [b]
  | two {b b1 : UInt8} (low : 0xC2 ≤ b.toNat) (high : b.toNat < 0xE0)
      (low1 : 0x80 ≤ b1.toNat) (high1 : b1.toNat ≤ 0xBF) :
      Sequence (b.toNat % 32 * 64 + b1.toNat % 64) [b, b1]
  | three {b b1 b2 : UInt8} (low : 0xE0 ≤ b.toNat) (high : b.toNat < 0xF0)
      (low1 : 0x80 ≤ b1.toNat) (high1 : b1.toNat ≤ 0xBF)
      (overlong : b.toNat = 0xE0 → 0xA0 ≤ b1.toNat) (surrogate : b.toNat = 0xED → b1.toNat ≤ 0x9F)
      (low2 : 0x80 ≤ b2.toNat) (high2 : b2.toNat ≤ 0xBF) :
      Sequence (b.toNat % 16 * 4096 + b1.toNat % 64 * 64 + b2.toNat % 64) [b, b1, b2]
  | four {b b1 b2 b3 : UInt8} (low : 0xF0 ≤ b.toNat) (high : b.toNat ≤ 0xF4)
      (low1 : 0x80 ≤ b1.toNat) (high1 : b1.toNat ≤ 0xBF)
      (overlong : b.toNat = 0xF0 → 0x90 ≤ b1.toNat) (beyond : b.toNat = 0xF4 → b1.toNat ≤ 0x8F)
      (low2 : 0x80 ≤ b2.toNat) (high2 : b2.toNat ≤ 0xBF)
      (low3 : 0x80 ≤ b3.toNat) (high3 : b3.toNat ≤ 0xBF) :
      Sequence (b.toNat % 8 * 262144 + b1.toNat % 64 * 4096 + b2.toNat % 64 * 64 + b3.toNat % 64)
        [b, b1, b2, b3]

private theorem secondByteRange_bounds {b b1 : UInt8}
    (low : ¬ b1 < (secondByteRange b).1) (high : ¬ (secondByteRange b).2 < b1) :
    0x80 ≤ b1.toNat ∧ b1.toNat ≤ 0xBF ∧ (b.toNat = 0xE0 → 0xA0 ≤ b1.toNat) ∧
      (b.toNat = 0xED → b1.toNat ≤ 0x9F) ∧ (b.toNat = 0xF0 → 0x90 ≤ b1.toNat) ∧
      (b.toNat = 0xF4 → b1.toNat ≤ 0x8F) := by
  have value : ∀ c : UInt8, (b = c ↔ b.toNat = c.toNat) := fun c => UInt8.toNat_inj.symm
  unfold secondByteRange at low high
  split_ifs at low high with h1 h2 h3 h4 <;>
    simp only [value, UInt8.not_lt, UInt8.le_iff_toNat_le, UInt8.reduceToNat] at * <;> omega

private theorem continuationByte_bounds {b : UInt8} (continued : ¬ (!continuationByte b) = true) :
    0x80 ≤ b.toNat ∧ b.toNat ≤ 0xBF := by
  simpa only [continuationByte, Bool.not_eq_true', Bool.not_eq_false, Bool.and_eq_true,
    decide_eq_true_eq, UInt8.le_iff_toNat_le, UInt8.reduceToNat] using continued

theorem decodeRune_cases (b : UInt8) (s : GoString) :
    decodeRune (b :: s) = (runeError, 1) ∨
      ∃ r bytes rest, Sequence r bytes ∧ b :: s = bytes ++ rest ∧
        decodeRune (b :: s) = (r, bytes.length) := by
  generalize result : decodeRune (b :: s) = decoded
  rw [decodeRune] at result
  split at result
  · rename_i ascii
    exact .inr ⟨_, [b], s, .one (UInt8.lt_iff_toNat_lt.mp ascii), rfl, result.symm⟩
  split at result
  · exact .inl result.symm
  rename_i lead
  simp only [Bool.or_eq_true, decide_eq_true_eq, not_or, UInt8.not_lt, UInt8.le_iff_toNat_le,
    UInt8.reduceToNat] at lead
  cases s with
  | nil => exact .inl result.symm
  | cons b1 s =>
    dsimp only at result
    split at result
    · exact .inl result.symm
    rename_i second
    simp only [Bool.or_eq_true, decide_eq_true_eq, not_or] at second
    obtain ⟨low1, high1, overlong, surrogate, overlong', beyond⟩ :=
      secondByteRange_bounds second.1 second.2
    split at result
    · rename_i two
      exact .inr ⟨_, [b, b1], s, .two lead.1 (UInt8.lt_iff_toNat_lt.mp two) low1 high1, rfl,
        result.symm⟩
    rename_i two
    rw [UInt8.not_lt, UInt8.le_iff_toNat_le] at two
    cases s with
    | nil => exact .inl result.symm
    | cons b2 s =>
      dsimp only at result
      split at result
      · exact .inl result.symm
      rename_i third
      have bounds2 := continuationByte_bounds third
      split at result
      · rename_i three
        exact .inr ⟨_, [b, b1, b2], s, .three two (UInt8.lt_iff_toNat_lt.mp three) low1 high1
          overlong surrogate bounds2.1 bounds2.2, rfl, result.symm⟩
      rename_i three
      rw [UInt8.not_lt, UInt8.le_iff_toNat_le] at three
      cases s with
      | nil => exact .inl result.symm
      | cons b3 s =>
        dsimp only at result
        split at result
        · exact .inl result.symm
        rename_i fourth
        have bounds3 := continuationByte_bounds fourth
        exact .inr ⟨_, [b, b1, b2, b3], s, .four three lead.2 low1 high1 overlong' beyond
          bounds2.1 bounds2.2 bounds3.1 bounds3.2, rfl, result.symm⟩

private theorem ofNat_eq {n : Nat} {b : UInt8} (same : n = b.toNat) : UInt8.ofNat n = b := by
  rw [same, UInt8.ofNat_toNat]

theorem Sequence.encodeRune_eq {r : Nat} {bytes : GoString} (sequence : Sequence r bytes) :
    encodeRune r = bytes := by
  cases sequence with
  | one ascii => rw [encodeRune, if_pos ascii, UInt8.ofNat_toNat]
  | two low high low1 high1 =>
    rw [encodeRune, if_neg (by omega), if_pos (by omega)]
    simp only [List.cons.injEq, and_true]
    exact ⟨ofNat_eq (by omega), ofNat_eq (by omega)⟩
  | three low high low1 high1 overlong surrogate low2 high2 =>
    rw [encodeRune, if_neg (by omega), if_neg (by omega),
      if_neg (by simp only [Bool.or_eq_true, Bool.and_eq_true, decide_eq_true_eq]; omega),
      if_pos (by omega)]
    simp only [List.cons.injEq, and_true]
    exact ⟨ofNat_eq (by omega), ofNat_eq (by omega), ofNat_eq (by omega)⟩
  | four low high low1 high1 overlong beyond low2 high2 low3 high3 =>
    rw [encodeRune, if_neg (by omega), if_neg (by omega),
      if_neg (by simp only [Bool.or_eq_true, Bool.and_eq_true, decide_eq_true_eq]; omega),
      if_neg (by omega)]
    simp only [List.cons.injEq, and_true]
    exact ⟨ofNat_eq (by omega), ofNat_eq (by omega), ofNat_eq (by omega), ofNat_eq (by omega)⟩

theorem Sequence.validRune_eq {r : Nat} {bytes : GoString} (sequence : Sequence r bytes) :
    validRune r = true := by
  have range : r < 0xD800 ∨ (0xDFFF < r ∧ r ≤ 0x10FFFF) := by
    cases sequence <;> omega
  simpa only [validRune, Bool.or_eq_true, Bool.and_eq_true, decide_eq_true_eq] using range

theorem eq_of_mem_encodeRune {r : Nat} {c : UInt8} (member : c ∈ encodeRune r)
    (ascii : c.toNat < 0x80) : r = c.toNat := by
  -- Beyond ASCII all bytes of a rune are at least 0x80, so an ASCII byte is the whole rune.
  have high : ∀ n, 0x80 ≤ n → n < 256 → ¬ (UInt8.ofNat n).toNat < 0x80 := by
    intro n low byte
    rw [UInt8.toNat_ofNat_of_lt' byte]
    omega
  unfold encodeRune at member
  split at member
  · obtain rfl := List.mem_singleton.mp member
    rw [UInt8.toNat_ofNat_of_lt' (by simp only [UInt8.size]; omega)]
  · split at member
    · simp only [List.mem_cons, List.not_mem_nil, or_false] at member
      rcases member with rfl | rfl <;> exact absurd ascii (high _ (by omega) (by omega))
    · split at member
      · simp only [List.mem_cons, List.not_mem_nil, or_false] at member
        rcases member with rfl | rfl | rfl <;> exact absurd ascii (by decide)
      · rename_i valid
        simp only [Bool.or_eq_true, Bool.and_eq_true, decide_eq_true_eq, not_or] at valid
        split at member
        · simp only [List.mem_cons, List.not_mem_nil, or_false] at member
          rcases member with rfl | rfl | rfl <;> exact absurd ascii (high _ (by omega) (by omega))
        · simp only [List.mem_cons, List.not_mem_nil, or_false] at member
          rcases member with rfl | rfl | rfl | rfl <;>
            exact absurd ascii (high _ (by omega) (by omega))

end SignalAgent.Foundations.GoRunes
