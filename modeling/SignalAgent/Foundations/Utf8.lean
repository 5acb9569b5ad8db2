/- MID: SignalAgent/Foundations/Utf8
   layer: library
   source: none
   digest: Valid UTF-8 texts: decidable, closed under joining, cutting at runes and replacing. -/

import SignalAgent.Foundations.GoRunes
import SignalAgent.Foundations.GoStrings

set_option autoImplicit false
set_option relaxedAutoImplicit false

namespace SignalAgent.Foundations.Utf8

open GoText GoRunes GoStrings

/-- A text made of well-formed sequences only. -/
inductive Valid : GoString → Prop where
  | nil : Valid []
  | cons {r : Nat} {bytes rest : GoString} (sequence : Sequence r bytes) (valid : Valid rest) :
      Valid (bytes ++ rest)

/-- Each rune is at least one byte wide, so the byte count is enough fuel. -/
def validFrom : Nat → GoString → Bool
  | _, [] => true
  | 0, _ :: _ => false
  | n + 1, b :: s =>
    let rune := decodeRune (b :: s)
    rune ≠ (runeError, 1) && validFrom n ((b :: s).drop rune.2)

/-- `utf8.ValidString`. -/
def validString (s : GoString) : Bool := validFrom s.length s

section Sequences

variable {r : Nat} {bytes : GoString}

private theorem continuationByte_eq (b : UInt8) :
    continuationByte b = decide (0x80 ≤ b.toNat ∧ b.toNat ≤ 0xBF) := by
  simp only [continuationByte, UInt8.le_iff_toNat_le, UInt8.reduceToNat, Bool.decide_and]

private theorem in_secondByteRange (b : UInt8) {b1 : UInt8} (low1 : 0x80 ≤ b1.toNat)
    (high1 : b1.toNat ≤ 0xBF) (e0 : b.toNat = 0xE0 → 0xA0 ≤ b1.toNat)
    (ed : b.toNat = 0xED → b1.toNat ≤ 0x9F) (f0 : b.toNat = 0xF0 → 0x90 ≤ b1.toNat)
    (f4 : b.toNat = 0xF4 → b1.toNat ≤ 0x8F) :
    (decide (b1 < (secondByteRange b).1) || decide ((secondByteRange b).2 < b1)) = false := by
  have value : ∀ c : UInt8, (b = c ↔ b.toNat = c.toNat) := fun c => UInt8.toNat_inj.symm
  unfold secondByteRange
  split_ifs <;>
    simp only [value, UInt8.lt_iff_toNat_lt, UInt8.reduceToNat, Bool.or_eq_false_iff,
      decide_eq_false_iff_not, Nat.not_lt] at * <;> omega

theorem Sequence.decodeRune_append (sequence : Sequence r bytes) (rest : GoString) :
    decodeRune (bytes ++ rest) = (r, bytes.length) := by
  cases sequence with
  | one ascii =>
    simp only [List.cons_append, List.nil_append, decodeRune]
    rw [if_pos (UInt8.lt_iff_toNat_lt.mpr ascii)]
    rfl
  | @two b b1 low high low1 high1 =>
    have second := in_secondByteRange b low1 high1 (by omega) (by omega) (by omega) (by omega)
    simp only [List.cons_append, List.nil_append, decodeRune, UInt8.lt_iff_toNat_lt,
      UInt8.reduceToNat] at second ⊢
    rw [if_neg (by omega), if_neg (by simp only [Bool.or_eq_true, decide_eq_true_eq]; omega),
      if_neg (by rw [second]; exact Bool.false_ne_true), if_pos (by omega)]
    rfl
  | @three b b1 b2 low high low1 high1 overlong surrogate low2 high2 =>
    have second := in_secondByteRange b low1 high1 overlong surrogate (by omega) (by omega)
    simp only [List.cons_append, List.nil_append, decodeRune, UInt8.lt_iff_toNat_lt,
      UInt8.reduceToNat, continuationByte_eq] at second ⊢
    rw [if_neg (by omega), if_neg (by simp only [Bool.or_eq_true, decide_eq_true_eq]; omega),
      if_neg (by rw [second]; exact Bool.false_ne_true), if_neg (by omega),
      if_neg (by simp [low2, high2]),
      if_pos (by omega)]
    rfl
  | @four b b1 b2 b3 low high low1 high1 overlong beyond low2 high2 low3 high3 =>
    have second := in_secondByteRange b low1 high1 (by omega) (by omega) overlong beyond
    simp only [List.cons_append, List.nil_append, decodeRune, UInt8.lt_iff_toNat_lt,
      UInt8.reduceToNat, continuationByte_eq] at second ⊢
    rw [if_neg (by omega), if_neg (by simp only [Bool.or_eq_true, decide_eq_true_eq]; omega),
      if_neg (by rw [second]; exact Bool.false_ne_true), if_neg (by omega),
      if_neg (by simp [low2, high2]),
      if_neg (by omega), if_neg (by simp [low3, high3])]
    rfl

theorem Sequence.lead (sequence : Sequence r bytes) :
    ∃ b rest, bytes = b :: rest ∧ continuationByte b = false ∧
      ∀ c ∈ rest, continuationByte c = true := by
  simp only [continuationByte_eq, decide_eq_true_eq, decide_eq_false_iff_not]
  cases sequence with
  | one ascii => exact ⟨_, _, rfl, by omega, by simp⟩
  | two low high low1 high1 => exact ⟨_, _, rfl, by omega, by simp [low1, high1]⟩
  | three low high low1 high1 overlong surrogate low2 high2 =>
    exact ⟨_, _, rfl, by omega, by simp [low1, high1, low2, high2]⟩
  | four low high low1 high1 overlong beyond low2 high2 low3 high3 =>
    exact ⟨_, _, rfl, by omega, by simp [low1, high1, low2, high2, low3, high3]⟩

theorem Sequence.ne_error (sequence : Sequence r bytes) : (r, bytes.length) ≠ (runeError, 1) := by
  intro error
  injection error with rune width
  cases sequence with
  | one ascii => exact absurd rune (by simp only [runeError]; omega)
  | two | three | four => cases width

theorem sequence_encodeRune (valid : validRune r = true) : Sequence r (encodeRune r) := by
  have byte : ∀ n, n < 256 → (UInt8.ofNat n).toNat = n := fun n small =>
    UInt8.toNat_ofNat_of_lt' small
  simp only [validRune, Bool.or_eq_true, Bool.and_eq_true, decide_eq_true_eq] at valid
  have reindex {r' : Nat} (sequence : Sequence r' (encodeRune r)) (same : r' = r) :
      Sequence r (encodeRune r) := same ▸ sequence
  unfold encodeRune at reindex ⊢
  split at reindex
  · rename_i ascii
    rw [if_pos ascii]
    refine reindex (.one ?_) ?_ <;> rw [byte _ (by omega)]
    exact ascii
  rename_i ascii
  rw [if_neg ascii]
  split at reindex
  · rename_i two
    rw [if_pos two]
    refine reindex (.two ?_ ?_ ?_ ?_) ?_ <;> (repeat rw [byte _ (by omega)]) <;> omega
  rename_i two
  rw [if_neg two]
  have scalar :
      ¬ ((decide (0xD800 ≤ r) && decide (r ≤ 0xDFFF)) || decide (0x10FFFF < r)) = true := by
    simp only [Bool.or_eq_true, Bool.and_eq_true, decide_eq_true_eq]
    omega
  rw [if_neg scalar] at reindex ⊢
  split at reindex
  · rename_i three
    rw [if_pos three]
    refine reindex (.three ?_ ?_ ?_ ?_ ?_ ?_ ?_ ?_) ?_ <;> (repeat rw [byte _ (by omega)]) <;> omega
  · rename_i three
    rw [if_neg three]
    refine reindex (.four ?_ ?_ ?_ ?_ ?_ ?_ ?_ ?_ ?_ ?_) ?_ <;>
      (repeat rw [byte _ (by omega)]) <;> omega

theorem exists_sequence_encodeRune (r : Nat) : ∃ r', Sequence r' (encodeRune r) := by
  cases valid : validRune r with
  | true => exact ⟨r, sequence_encodeRune valid⟩
  | false =>
    simp only [validRune, Bool.or_eq_false_iff, Bool.and_eq_false_iff, decide_eq_false_iff_not]
      at valid
    have replaced : encodeRune r = encodeRune runeError := by
      rw [encodeRune, if_neg (by omega), if_neg (by omega), if_pos]
      · rfl
      · simp only [Bool.or_eq_true, Bool.and_eq_true, decide_eq_true_eq]
        omega
    exact ⟨runeError, replaced ▸ sequence_encodeRune (by decide)⟩

end Sequences

section Texts

variable {r : Nat} {bytes s t : GoString}

theorem valid_sequence (sequence : Sequence r bytes) : Valid bytes := by
  rw [← List.append_nil bytes]
  exact .cons sequence .nil

private theorem sequence_front_eq {r' : Nat} {bytes' rest rest' : GoString}
    (sequence : Sequence r bytes) (sequence' : Sequence r' bytes')
    (same : bytes ++ rest = bytes' ++ rest') : bytes = bytes' ∧ rest = rest' := by
  have decoded := Sequence.decodeRune_append sequence rest
  rw [same, Sequence.decodeRune_append sequence' rest'] at decoded
  exact List.append_inj same (congrArg Prod.snd decoded).symm

private theorem valid_sequence_append (sequence : Sequence r bytes) :
    Valid (bytes ++ t) ↔ Valid t := by
  constructor
  · intro valid
    generalize whole : bytes ++ t = text at valid
    cases valid with
    | nil =>
      obtain ⟨b, rest, rfl, -⟩ := Sequence.lead sequence
      cases whole
    | cons sequence' valid =>
      obtain ⟨-, rfl⟩ := sequence_front_eq sequence sequence' whole
      exact valid
  · exact .cons sequence

theorem valid_append (valid : Valid s) : Valid (s ++ t) ↔ Valid t := by
  induction valid with
  | nil => rfl
  | cons sequence valid ih => rw [List.append_assoc, valid_sequence_append sequence, ih]

theorem valid_flatMap {α : Type} {f : α → GoString} (each : ∀ a, Valid (f a)) (l : List α) :
    Valid (l.flatMap f) := by
  induction l with
  | nil => exact .nil
  | cons a l ih => exact (valid_append (each a)).2 ih

theorem valid_encodeRune (r : Nat) : Valid (encodeRune r) :=
  valid_sequence (exists_sequence_encodeRune r).choose_spec

theorem valid_mapRunes (f : Nat → Nat) (s : GoString) : Valid (mapRunes f s) :=
  valid_flatMap (fun r => valid_encodeRune (f r)) (runes s)

theorem Valid.lead {c : UInt8} (valid : Valid (c :: s)) : continuationByte c = false := by
  generalize whole : c :: s = text at valid
  cases valid with
  | nil => cases whole
  | cons sequence valid =>
    obtain ⟨b, rest, rfl, leads, -⟩ := Sequence.lead sequence
    injection whole with first
    rw [first, leads]

private theorem not_valid_take (sequence : Sequence r bytes) {n : Nat} (positive : 0 < n)
    (inside : n < bytes.length) : ¬ Valid (bytes.take n) := by
  intro valid
  have short : (bytes.take n).length = n := List.length_take_of_le (Nat.le_of_lt inside)
  have whole : bytes = bytes.take n ++ bytes.drop n := (List.take_append_drop n bytes).symm
  generalize bytes.take n = front at valid short whole
  cases valid with
  | nil => exact absurd short (Nat.ne_of_lt positive)
  | @cons r' bytes' rest sequence' valid =>
    have same : bytes ++ [] = bytes' ++ (rest ++ bytes.drop n) := by
      rw [List.append_nil, ← List.append_assoc]
      exact whole
    obtain ⟨rfl, -⟩ := sequence_front_eq sequence sequence' same
    rw [List.length_append] at short
    omega

theorem valid_take_iff (valid : Valid s) (n : Nat) :
    Valid (s.take n) ↔ ∀ b, s[n]? = some b → continuationByte b = false := by
  induction valid generalizing n with
  | nil => simpa using Valid.nil
  | @cons r bytes rest sequence valid ih =>
    rcases Nat.lt_or_ge n bytes.length with inside | beyond
    · obtain ⟨lead, tail, rfl, leads, continues⟩ := Sequence.lead sequence
      rw [List.take_append_of_le_length (Nat.le_of_lt inside), List.getElem?_append_left inside]
      rcases n with _ | n
      · simpa [leads] using Valid.nil
      · have cut := not_valid_take sequence (Nat.succ_pos n) inside
        have short : n < tail.length := Nat.lt_of_succ_lt_succ inside
        have next := continues _ (List.getElem_mem short)
        simp only [cut, List.getElem?_cons_succ, List.getElem?_eq_getElem short, Option.some.injEq,
          forall_eq', next, Bool.true_eq_false]
    · rw [List.take_append, List.take_of_length_le beyond, valid_sequence_append sequence,
        List.getElem?_append_right beyond]
      exact ih (n - bytes.length)

theorem valid_append_right (valid : Valid t) : Valid (s ++ t) ↔ Valid s := by
  constructor
  · intro whole
    have front := valid_take_iff whole s.length
    rw [List.take_left, List.getElem?_append_right (Nat.le_refl _), Nat.sub_self] at front
    refine front.2 (fun b found => ?_)
    cases t with
    | nil => cases found
    | cons c t =>
      injection found with same
      rw [← same]
      exact valid.lead
  · intro front
    exact (valid_append front).2 valid

end Texts

section Runes

variable {r : Nat} {bytes s t : GoString}

private theorem width_pos (b : UInt8) (s : GoString) : 0 < (decodeRune (b :: s)).2 := by
  rcases decodeRune_cases b s with error | ⟨r, bytes, rest, sequence, -, decoded⟩
  · rw [error]
    exact Nat.one_pos
  · obtain ⟨lead, tail, rfl, -⟩ := Sequence.lead sequence
    rw [decoded]
    exact Nat.succ_pos _

private theorem runesFrom_eq (n : Nat) (s : GoString) (fuel : s.length ≤ n) :
    runesFrom n s = runes s := by
  have agree (n m : Nat) (s : GoString) (fuel : s.length ≤ n) (fuel' : s.length ≤ m) :
      runesFrom n s = runesFrom m s := by
    induction n generalizing m s with
    | zero =>
      obtain rfl := List.eq_nil_of_length_eq_zero (Nat.le_zero.mp fuel)
      cases m <;> rfl
    | succ n ih =>
      cases s with
      | nil => cases m <;> rfl
      | cons b s =>
        rcases m with _ | m
        · cases fuel'
        have width := width_pos b s
        rw [runesFrom, runesFrom]
        congr 1
        apply ih <;> (rw [List.length_drop]; omega)
  exact agree n s.length s fuel (Nat.le_refl _)

theorem runes_sequence_append (sequence : Sequence r bytes) (rest : GoString) :
    runes (bytes ++ rest) = r :: runes rest := by
  have decoded := Sequence.decodeRune_append sequence rest
  obtain ⟨lead, tail, rfl, -⟩ := Sequence.lead sequence
  rw [List.cons_append] at decoded ⊢
  rw [runes, List.length_cons, runesFrom, decoded, ← List.cons_append]
  dsimp only
  rw [List.drop_left, runesFrom_eq]
  rw [List.length_append]
  exact Nat.le_add_left _ _

theorem runes_append (valid : Valid s) (t : GoString) : runes (s ++ t) = runes s ++ runes t := by
  induction valid with
  | nil => rfl
  | cons sequence valid ih =>
    rw [List.append_assoc, runes_sequence_append sequence, runes_sequence_append sequence, ih,
      List.cons_append]

theorem flatMap_encodeRune_runes (valid : Valid s) : (runes s).flatMap encodeRune = s := by
  induction valid with
  | nil => rfl
  | cons sequence valid ih =>
    rw [runes_sequence_append sequence, List.flatMap_cons, ih, sequence.encodeRune_eq]

theorem runes_flatMap_encodeRune {rs : List Nat} (valid : ∀ r ∈ rs, validRune r = true) :
    runes (rs.flatMap encodeRune) = rs := by
  induction rs with
  | nil => rfl
  | cons r rs ih =>
    rw [List.flatMap_cons, runes_sequence_append (sequence_encodeRune (valid r List.mem_cons_self)),
      ih (fun r' member => valid r' (List.mem_cons_of_mem r member))]

theorem validRune_of_mem_runes (member : r ∈ runes s) : validRune r = true := by
  rw [runes] at member
  generalize s.length = n at member
  induction n generalizing s with
  | zero => cases member
  | succ n ih =>
    cases s with
    | nil => cases member
    | cons b s =>
      rw [runesFrom] at member
      rcases List.mem_cons.mp member with here | later
      · rcases decodeRune_cases b s with error | ⟨r', bytes, rest, sequence, -, decoded⟩
        · rw [here, error]
          decide
        · rw [here, decoded]
          exact sequence.validRune_eq
      · exact ih later

theorem runes_ne_nil (present : s ≠ []) : runes s ≠ [] := by
  cases s with
  | nil => exact absurd rfl present
  | cons b s => exact List.cons_ne_nil _ _

end Runes

section Replacing

variable {s old new : GoString}

private theorem hasPrefix_continuation {c : UInt8} (valid : Valid old) (present : old ≠ [])
    (continues : continuationByte c = true) (s : GoString) : hasPrefix (c :: s) old = false := by
  cases old with
  | nil => exact absurd rfl present
  | cons d old =>
    have other : d ≠ c := by
      rintro rfl
      rw [valid.lead] at continues
      cases continues
    rw [hasPrefix, List.isPrefixOf, beq_false_of_ne other, Bool.false_and]

private theorem replaceFrom_continuation (valid : Valid old) (present : old ≠ [])
    {front : GoString} (continues : ∀ c ∈ front, continuationByte c = true) (n : Nat)
    (rest : GoString) :
    replaceFrom old new n (front ++ rest) =
      front ++ replaceFrom old new (n - front.length) rest := by
  induction front generalizing n with
  | nil => rfl
  | cons c front ih =>
    rcases n with _ | n
    · rw [Nat.zero_sub]
      simp only [replaceFrom]
    · have here := hasPrefix_continuation valid present (continues c List.mem_cons_self)
        (front ++ rest)
      have later := ih (fun d member => continues d (List.mem_cons_of_mem c member)) n
      rw [List.cons_append, replaceFrom, here, if_neg Bool.false_ne_true, later,
        List.length_cons, Nat.add_sub_add_right, List.cons_append]

private theorem valid_replaceFrom (validOld : Valid old) (present : old ≠ []) (validNew : Valid new)
    (n : Nat) (valid : Valid s) : Valid (replaceFrom old new n s) := by
  induction n using Nat.strongRecOn generalizing s with
  | _ n ih =>
    rcases n with _ | n
    · simpa only [replaceFrom] using valid
    cases valid with
    | nil => exact .nil
    | @cons r bytes rest sequence valid =>
      obtain ⟨lead, tail, shape, -, continues⟩ := Sequence.lead sequence
      have whole : bytes ++ rest = lead :: (tail ++ rest) := by rw [shape]; rfl
      rw [whole, replaceFrom]
      split
      · rename_i found
        obtain ⟨behind, split⟩ := List.isPrefixOf_iff_prefix.mp found
        have validBehind : Valid behind := by
          rw [← valid_append validOld, split, ← whole]
          exact .cons sequence valid
        rw [valid_append validNew, ← split, List.drop_left]
        exact ih n (Nat.lt_succ_self n) validBehind
      · rw [replaceFrom_continuation validOld present continues, ← List.cons_append, ← shape]
        exact .cons sequence (ih _ (by omega) valid)

private theorem valid_insertBehindRunes (validNew : Valid new) (n : Nat) (valid : Valid s) :
    Valid (insertBehindRunes new n s) := by
  induction n generalizing s with
  | zero => simpa only [insertBehindRunes] using valid
  | succ n ih =>
    cases valid with
    | nil => exact .nil
    | @cons r bytes rest sequence valid =>
      have decoded := Sequence.decodeRune_append sequence rest
      obtain ⟨lead, tail, rfl, -⟩ := Sequence.lead sequence
      rw [List.cons_append] at decoded ⊢
      rw [insertBehindRunes, decoded, ← List.cons_append]
      dsimp only
      rw [List.take_left, List.drop_left]
      exact .cons sequence ((valid_append validNew).2 (ih valid))

theorem valid_replaceAll (valid : Valid s) (validOld : Valid old) (validNew : Valid new) :
    Valid (replaceAll s old new) := by
  unfold replaceAll
  split
  · exact (valid_append validNew).2 (valid_insertBehindRunes validNew _ valid)
  · rename_i present
    exact valid_replaceFrom validOld present validNew _ valid

end Replacing

section Trimming

variable {s : GoString}

private theorem valid_of_mem_spaces {text : GoString} (member : text ∈ spaces) : Valid text := by
  obtain ⟨r, -, rfl⟩ := List.mem_map.mp member
  exact valid_encodeRune r

private theorem valid_trimFrom (n : Nat) (valid : Valid s) : Valid (trimFrom spaces n s) := by
  induction n generalizing s with
  | zero => exact valid
  | succ n ih =>
    rw [trimFrom]
    split
    · rename_i text found
      have starts : hasPrefix s text = true := List.find?_some found
      obtain ⟨behind, split⟩ := List.isPrefixOf_iff_prefix.mp starts
      have space := valid_of_mem_spaces (List.mem_of_find?_eq_some found)
      rw [← split] at valid ⊢
      rw [List.drop_left]
      exact ih ((valid_append space).1 valid)
    · exact valid

private theorem valid_trimFrom_reverse (n : Nat) (valid : Valid s.reverse) :
    Valid (trimFrom (spaces.map List.reverse) n s).reverse := by
  induction n generalizing s with
  | zero => exact valid
  | succ n ih =>
    rw [trimFrom]
    split
    · rename_i text found
      have starts : hasPrefix s text = true := List.find?_some found
      obtain ⟨behind, split⟩ := List.isPrefixOf_iff_prefix.mp starts
      obtain ⟨space, member, rfl⟩ := List.mem_map.mp (List.mem_of_find?_eq_some found)
      rw [← split, List.reverse_append, List.reverse_reverse] at valid
      rw [← split, List.drop_left]
      exact ih ((valid_append_right (valid_of_mem_spaces member)).1 valid)
    · exact valid

theorem valid_trimSpace (valid : Valid s) : Valid (trimSpace s) := by
  have front := valid_trimFrom s.length valid
  rw [trimSpace]
  exact valid_trimFrom_reverse _ (by rwa [List.reverse_reverse])

end Trimming

section Decidable

private theorem validFrom_iff (n : Nat) (s : GoString) (fuel : s.length ≤ n) :
    validFrom n s = true ↔ Valid s := by
  induction n generalizing s with
  | zero =>
    obtain rfl := List.eq_nil_of_length_eq_zero (Nat.le_zero.mp fuel)
    exact iff_of_true rfl .nil
  | succ n ih =>
    cases s with
    | nil => exact iff_of_true rfl .nil
    | cons b s =>
      rcases decodeRune_cases b s with error | ⟨r, bytes, rest, sequence, whole, decoded⟩
      · refine iff_of_false (by simp [validFrom, error]) (fun valid => ?_)
        generalize same : b :: s = text at valid error
        cases valid with
        | nil => cases same
        | cons sequence valid =>
          rw [Sequence.decodeRune_append sequence] at error
          exact Sequence.ne_error sequence error
      · have proper := Sequence.ne_error sequence
        obtain ⟨lead, tail, shape, -⟩ := Sequence.lead sequence
        have shorter : rest.length ≤ n := by
          have lengths := congrArg List.length whole
          rw [shape] at lengths
          simp only [List.length_append, List.length_cons] at lengths fuel
          omega
        rw [validFrom, decoded, whole, List.drop_left, valid_sequence_append sequence,
          ← ih rest shorter]
        simp [proper]

theorem validString_iff (s : GoString) : validString s = true ↔ Valid s :=
  validFrom_iff s.length s (Nat.le_refl _)

instance (s : GoString) : Decidable (Valid s) := decidable_of_iff _ (validString_iff s)

end Decidable

end SignalAgent.Foundations.Utf8
