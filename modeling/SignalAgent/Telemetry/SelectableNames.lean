/- MID: SignalAgent/Telemetry/SelectableNames
   layer: results
   source: internal/promnaming/labels.go, components/selectormatch/selector.go
   digest: Which attribute keys normalize to a label name that the selector grammar accepts. -/

import SignalAgent.Foundations.Utf8
import SignalAgent.Selectors.SelectorGrammar
import SignalAgent.Telemetry.SeriesLabels

set_option autoImplicit false
set_option relaxedAutoImplicit false

namespace SignalAgent.Telemetry.SelectableNames

open Foundations.GoRunes Foundations.GoText Foundations.Utf8
open Selectors.SelectorMatch Selectors.SelectorGrammar
open SeriesLabels

/-- The normalizer with its index expression: reading the first byte of an empty text fails. -/
def indexedNormalizeLabelName (R : GoRuntime) (label : GoString) : Option GoString :=
  if label = [] then some label
  else do
    let mapped := mapRunes (labelRune R) label
    let first ← mapped[0]?
    if R.isDigit first.toNat then return lit "key_" ++ mapped
    else if hasPrefix mapped (lit "_") && !hasPrefix mapped (lit "__") then
      return lit "key" ++ mapped
    else return mapped

/-- The key is normalized without failing to a name that the selector scanner reads to its end
and that normalizing again leaves alone. -/
structure Selectable (R : GoRuntime) (key : GoString) : Prop where
  total : indexedNormalizeLabelName R key = some (normalizeLabelName R key)
  consumed : parseLabelName ⟨normalizeLabelName R key, 0, false⟩ =
    .ok (normalizeLabelName R key,
      ⟨normalizeLabelName R key, (normalizeLabelName R key).length, false⟩)
  stable : normalizeLabelName R (normalizeLabelName R key) = normalizeLabelName R key

section Mapping

variable (R : GoRuntime) {key : GoString}

private theorem labelRune_eq (r : Nat) : labelRune R r = r ∨ labelRune R r = 0x5F := by
  unfold labelRune
  split
  · exact .inl rfl
  · exact .inr rfl

private theorem labelRune_labelRune (r : Nat) : labelRune R (labelRune R r) = labelRune R r := by
  rcases labelRune_eq R r with kept | replaced
  · rw [kept, kept]
  · rw [replaced]
    rcases labelRune_eq R 0x5F with kept | kept <;> exact kept

private theorem runes_mapped (key : GoString) :
    runes (mapRunes (labelRune R) key) = (runes key).map (labelRune R) := by
  have written : mapRunes (labelRune R) key =
      ((runes key).map (labelRune R)).flatMap encodeRune := by
    rw [mapRunes, List.flatMap_map]
  rw [written, runes_flatMap_encodeRune]
  intro r member
  obtain ⟨r', inside, rfl⟩ := List.mem_map.mp member
  rcases labelRune_eq R r' with kept | replaced
  · rw [kept]
    exact validRune_of_mem_runes inside
  · rw [replaced]
    decide

theorem mapped_ne_nil (present : key ≠ []) : mapRunes (labelRune R) key ≠ [] := by
  intro empty
  have none := runes_mapped R key
  rw [empty] at none
  exact runes_ne_nil present (List.map_eq_nil_iff.mp none.symm)

private theorem mapRunes_fixed {text : GoString} (valid : Valid text)
    (fixed : ∀ r ∈ runes text, labelRune R r = r) : mapRunes (labelRune R) text = text := by
  have same : mapRunes (labelRune R) text = (runes text).flatMap encodeRune := by
    rw [mapRunes]
    apply List.flatMap_congr
    intro r member
    rw [fixed r member]
  rw [same, flatMap_encodeRune_runes valid]

private theorem fixed_mapped (key : GoString) :
    ∀ r ∈ runes (mapRunes (labelRune R) key), labelRune R r = r := by
  intro r member
  rw [runes_mapped] at member
  obtain ⟨r', -, rfl⟩ := List.mem_map.mp member
  exact labelRune_labelRune R r'

end Mapping

section Normalizing

variable (R : GoRuntime) {key : GoString}

/-- Neither of the two rules about the start of a name applies. -/
private def Settled (text : GoString) : Prop :=
  text.head?.any (fun b => R.isDigit b.toNat) = false ∧
    (hasPrefix text (lit "_") && !hasPrefix text (lit "__")) = false

private theorem settled_key (text : GoString) : Settled R (0x6B :: text) := ⟨rfl, rfl⟩

/-- What normalizing a key can put in front of the mapped text. -/
private inductive Front : GoString → Prop where
  | digit : Front (0x6B :: 0x65 :: 0x79 :: [0x5F])
  | underscore : Front (0x6B :: 0x65 :: [0x79])
  | none : Front []

private theorem normalizeLabelName_cases (present : key ≠ []) :
    ∃ front, Front front ∧ normalizeLabelName R key = front ++ mapRunes (labelRune R) key ∧
      Settled R (front ++ mapRunes (labelRune R) key) := by
  rw [normalizeLabelName, if_neg present]
  dsimp only
  split
  · exact ⟨_, .digit, rfl, settled_key R _⟩
  · rename_i noDigit
    split
    · exact ⟨_, .underscore, rfl, settled_key R _⟩
    · rename_i noPrefix
      exact ⟨[], .none, rfl, Bool.eq_false_of_not_eq_true noDigit,
        Bool.eq_false_of_not_eq_true noPrefix⟩

private theorem total_of_ne_nil (present : key ≠ []) :
    indexedNormalizeLabelName R key = some (normalizeLabelName R key) := by
  rw [indexedNormalizeLabelName, normalizeLabelName, if_neg present, if_neg present]
  cases mapped : mapRunes (labelRune R) key with
  | nil => exact absurd mapped (mapped_ne_nil R present)
  | cons first rest =>
    by_cases digit : R.isDigit first.toNat = true
    · simp [digit]
    · by_cases underscore :
          (hasPrefix (first :: rest) (lit "_") && !hasPrefix (first :: rest) (lit "__")) = true
      · simp [digit, underscore]
      · simp [digit, underscore]

private theorem mapRunes_front {front : GoString} (known : Front front) (key : GoString) :
    mapRunes (labelRune R) (front ++ mapRunes (labelRune R) key) =
      front ++ mapRunes (labelRune R) key := by
  have frontValid : Valid front := by cases known <;> decide +kernel
  have frontFixed : ∀ r ∈ runes front, labelRune R r = r := by
    have k : labelRune R 0x6B = 0x6B := rfl
    have e : labelRune R 0x65 = 0x65 := rfl
    have y : labelRune R 0x79 = 0x79 := rfl
    have underscore : labelRune R 0x5F = 0x5F := rfl
    cases known with
    | digit => simp [runes, runesFrom, decodeRune, k, e, y, underscore]
    | underscore => simp [runes, runesFrom, decodeRune, k, e, y]
    | none => simp [runes, runesFrom]
  apply mapRunes_fixed R ((valid_append frontValid).2 (valid_mapRunes _ key))
  intro r member
  rw [runes_append frontValid] at member
  rcases List.mem_append.mp member with inFront | inMapped
  · exact frontFixed r inFront
  · exact fixed_mapped R key r inMapped

theorem normalizeLabelName_idempotent (key : GoString) :
    normalizeLabelName R (normalizeLabelName R key) = normalizeLabelName R key := by
  by_cases present : key = []
  · subst present
    rfl
  obtain ⟨front, known, shape, noDigit, noPrefix⟩ := normalizeLabelName_cases R present
  have someText : front ++ mapRunes (labelRune R) key ≠ [] :=
    List.append_ne_nil_of_right_ne_nil front (mapped_ne_nil R present)
  rw [shape, normalizeLabelName, if_neg someText, mapRunes_front R known]
  dsimp only
  rw [noDigit, noPrefix]
  rfl

end Normalizing

section Consuming

variable (R : GoRuntime) {key : GoString}

private theorem consumed_iff (name : GoString) :
    parseLabelName ⟨name, 0, false⟩ = .ok (name, ⟨name, name.length, false⟩) ↔
      LabelName false name := by
  constructor
  · intro result
    exact (reads_parseLabelName result).1
  · rintro ⟨start, part⟩
    rename_i c t
    have length : labelNameLength false (c :: t) = (c :: t).length := by
      rw [labelNameLength, if_pos start, List.takeWhile_eq_self_iff.mpr part, List.length_cons,
        Nat.add_comm]
    have rest : (Parser.mk (c :: t) 0 false).rest = c :: t := rfl
    rw [parseLabelName, rest, length]
    simp [Parser.advance]

private theorem nameStart_iff (b : UInt8) :
    nameStart b = true ↔ b.toNat = 0x5F ∨ (0x61 ≤ b.toNat ∧ b.toNat ≤ 0x7A) ∨
      (0x41 ≤ b.toNat ∧ b.toNat ≤ 0x5A) := by
  simp only [nameStart, Bool.or_eq_true, Bool.and_eq_true, decide_eq_true_eq,
    UInt8.le_iff_toNat_le, ← UInt8.toNat_inj, UInt8.reduceToNat, or_assoc]

private theorem namePart_iff (b : UInt8) :
    namePart false b = true ↔ nameStart b = true ∨ (0x30 ≤ b.toNat ∧ b.toNat ≤ 0x39) := by
  simp only [namePart, Bool.or_eq_true, Bool.and_eq_true, decide_eq_true_eq, Bool.false_and,
    UInt8.le_iff_toNat_le, UInt8.reduceToNat, Bool.false_eq_true, or_false]

private theorem namePart_of_ascii {r : Nat} {b : UInt8}
    (kept : (R.isLetter r || R.isDigit r) = true) (ascii : r < 0x80) (same : b.toNat = r) :
    namePart false b = true := by
  have latin : r ≤ 0xFF := by omega
  rw [namePart_iff, nameStart_iff, same]
  simp only [GoRuntime.isLetter, GoRuntime.isDigit, if_pos latin, Bool.or_eq_true,
    Bool.and_eq_true, decide_eq_true_eq, beq_iff_eq] at kept
  omega

private theorem mapped_parts_iff (key : GoString) :
    (∀ b ∈ mapRunes (labelRune R) key, namePart false b = true) ↔
      ∀ r ∈ runes key, (R.isLetter r || R.isDigit r) = true → r < 0x80 := by
  constructor
  · intro parts r member kept
    by_contra beyond
    have unchanged : labelRune R r = r := by rw [labelRune, if_pos kept]
    obtain ⟨r', sequence⟩ := exists_sequence_encodeRune r
    obtain ⟨b, tail, shape, -⟩ := Sequence.lead sequence
    have inside : b ∈ encodeRune r := by rw [shape]; exact List.mem_cons_self
    have written : b ∈ mapRunes (labelRune R) key :=
      List.mem_flatMap.mpr ⟨r, member, by rw [unchanged]; exact inside⟩
    have part := (namePart_iff b).mp (parts b written)
    rw [nameStart_iff] at part
    have same := eq_of_mem_encodeRune inside (by omega)
    omega
  · intro ascii b member
    obtain ⟨r, inside, written⟩ := List.mem_flatMap.mp member
    rw [labelRune] at written
    split at written
    · rename_i kept
      have small := ascii r inside kept
      rw [encodeRune, if_pos small, List.mem_singleton] at written
      apply namePart_of_ascii R kept small
      rw [written, UInt8.toNat_ofNat_of_lt' (by simp only [UInt8.size]; omega)]
    · have underscore : b = 0x5F := List.mem_singleton.mp written
      rw [underscore]
      rfl

private theorem nameStart_of_settled {b : UInt8} {t : GoString} (settled : Settled R (b :: t))
    (part : namePart false b = true) : nameStart b = true := by
  rcases (namePart_iff b).mp part with start | digit
  · exact start
  · have latin : b.toNat ≤ 0xFF := by omega
    have noDigit := settled.1
    simp only [List.head?_cons, Option.any_some, GoRuntime.isDigit, if_pos latin,
      Bool.and_eq_false_iff, decide_eq_false_iff_not] at noDigit
    omega

private theorem labelName_iff (present : key ≠ []) :
    LabelName false (normalizeLabelName R key) ↔
      ∀ r ∈ runes key, (R.isLetter r || R.isDigit r) = true → r < 0x80 := by
  obtain ⟨front, known, shape, settled⟩ := normalizeLabelName_cases R present
  have frontParts : ∀ b ∈ front, namePart false b = true := by
    apply List.all_eq_true.mp
    cases known <;> rfl
  rw [shape, ← mapped_parts_iff R key]
  constructor
  · intro named b member
    have all : ∀ c ∈ front ++ mapRunes (labelRune R) key, namePart false c = true := by
      generalize front ++ mapRunes (labelRune R) key = name at named
      obtain ⟨start, part⟩ := named
      intro c inside
      rcases List.mem_cons.mp inside with rfl | later
      · exact (namePart_iff c).mpr (.inl start)
      · exact part c later
    exact all b (List.mem_append_right front member)
  · intro parts
    have all : ∀ c ∈ front ++ mapRunes (labelRune R) key, namePart false c = true := by
      intro c inside
      rcases List.mem_append.mp inside with early | late
      · exact frontParts c early
      · exact parts c late
    have someText : front ++ mapRunes (labelRune R) key ≠ [] :=
      List.append_ne_nil_of_right_ne_nil front (mapped_ne_nil R present)
    generalize front ++ mapRunes (labelRune R) key = name at settled all someText
    cases name with
    | nil => exact absurd rfl someText
    | cons c t =>
      refine .mk (nameStart_of_settled R settled (all c List.mem_cons_self)) (fun b member => ?_)
      exact all b (List.mem_cons_of_mem c member)

end Consuming

/-- A key's label can be written in a selector exactly when every letter or digit of the key is an
ASCII one. -/
theorem selectable_iff (R : GoRuntime) {key : GoString} (present : key ≠ []) :
    Selectable R key ↔
      ∀ r ∈ runes key, (R.isLetter r || R.isDigit r) = true → r < 0x80 := by
  rw [← labelName_iff R present]
  constructor
  · intro selectable
    exact (consumed_iff _).1 selectable.consumed
  · intro named
    exact {
      total := total_of_ne_nil R present
      consumed := (consumed_iff _).2 named
      stable := normalizeLabelName_idempotent R key }

theorem selectable_dotted_key : Selectable plainPlatform.toGoRuntime (lit "1st.host-name") :=
  (selectable_iff plainPlatform.toGoRuntime (by decide)).2 (by decide +kernel)

theorem accented_key_not_selectable : lit "é" ≠ [] ∧ ∀ R, ¬ Selectable R (lit "é") := by
  refine ⟨by decide +kernel, fun R selectable => ?_⟩
  have letter : labelRune R 0xE9 = 0xE9 := rfl
  have read : runes (lit "é") = [0xE9] := by decide +kernel
  have noDigit : R.isDigit 0xC3 = false := rfl
  have mapped : mapRunes (labelRune R) (lit "é") = [0xC3, 0xA9] := by
    rw [mapRunes, read, List.flatMap_singleton, letter]
    decide
  have kept : normalizeLabelName R (lit "é") = [0xC3, 0xA9] := by
    rw [normalizeLabelName, if_neg (by decide +kernel), mapped]
    exact (if_neg (by simp [noDigit])).trans (if_neg (by decide))
  have consumed := selectable.consumed
  rw [kept] at consumed
  exact absurd consumed (by decide +kernel)

end SignalAgent.Telemetry.SelectableNames
