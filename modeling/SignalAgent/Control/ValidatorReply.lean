/- MID: SignalAgent/Control/ValidatorReply
   layer: results
   source: components/edgecontroller/config_manager.go, components/edgecontroller/config_handler.go
   digest: A bounded validator output is a sendable text unless its cut splits a rune. -/

import SignalAgent.Control.ConfigApply
import SignalAgent.Foundations.Utf8

set_option autoImplicit false
set_option relaxedAutoImplicit false

namespace SignalAgent.Control.ValidatorReply

open Foundations.GoText Foundations.GoRunes Foundations.GoStrings Foundations.Utf8
open ConfigApply

def truncationMarker : GoString := lit "\n… (truncated)"

/-- Nothing is cut, or the cut is followed by the first byte of a rune. -/
def CutAtRune (text : GoString) : Prop :=
  ∀ b, text[maxValidatorOutput]? = some b → continuationByte b = false

section Sanitized

variable (out candidate path : GoString)

private theorem sanitizeValidatorOutput_short
    (short : (replaceAll out candidate path).length ≤ maxValidatorOutput) :
    sanitizeValidatorOutput out candidate path = replaceAll out candidate path := by
  rw [sanitizeValidatorOutput]
  exact if_neg (Nat.not_lt.mpr short)

private theorem sanitizeValidatorOutput_long
    (long : maxValidatorOutput < (replaceAll out candidate path).length) :
    sanitizeValidatorOutput out candidate path =
      (replaceAll out candidate path).take maxValidatorOutput ++ truncationMarker := by
  rw [sanitizeValidatorOutput]
  exact if_pos long

private theorem length_sanitizeValidatorOutput :
    (sanitizeValidatorOutput out candidate path).length ≤
      maxValidatorOutput + truncationMarker.length := by
  rcases Nat.lt_or_ge maxValidatorOutput (replaceAll out candidate path).length with long | short
  · rw [sanitizeValidatorOutput_long out candidate path long, List.length_append]
    exact Nat.add_le_add_right (List.length_take_le _ _) _
  · rw [sanitizeValidatorOutput_short out candidate path short]
    exact Nat.le_add_right_of_le short

private theorem valid_sanitizeValidatorOutput_iff
    (valid : Valid (replaceAll out candidate path)) :
    Valid (sanitizeValidatorOutput out candidate path) ↔
      CutAtRune (replaceAll out candidate path) := by
  -- The marker is text of its own, so only the cut decides.
  have marker : Valid truncationMarker := by decide +kernel
  rw [CutAtRune, ← valid_take_iff valid]
  rcases Nat.lt_or_ge maxValidatorOutput (replaceAll out candidate path).length with long | short
  · rw [sanitizeValidatorOutput_long out candidate path long, valid_append_right marker]
  · rw [sanitizeValidatorOutput_short out candidate path short, List.take_of_length_le short]

end Sanitized

section Complaints

private theorem replaceFrom_absent {c : UInt8} {s : GoString} (absent : c ∉ s)
    (old new : GoString) (n : Nat) : replaceFrom (c :: old) new n s = s := by
  induction n generalizing s with
  | zero => simp only [replaceFrom]
  | succ n ih =>
    cases s with
    | nil => rfl
    | cons b s =>
      have other : c ≠ b := fun same => absent (same ▸ List.mem_cons_self)
      have here : hasPrefix (b :: s) (c :: old) = false := by
        rw [hasPrefix, List.isPrefixOf, beq_false_of_ne other, Bool.false_and]
      rw [replaceFrom, here, if_neg Bool.false_ne_true,
        ih (fun member => absent (List.mem_cons_of_mem b member))]

/-- So many letters and a rune of two bytes. -/
def complaint (letters : Nat) : GoString := List.replicate letters 0x61 ++ encodeRune 0xE9

private theorem valid_complaint (letters : Nat) : Valid (complaint letters) := by
  have front : Valid (List.replicate letters 0x61) := by
    induction letters with
    | zero => exact .nil
    | succ n ih => exact .cons (.one (b := 0x61) (by decide)) ih
  exact (valid_append front).2 (valid_encodeRune 0xE9)

private theorem replaceAll_complaint (letters : Nat) (old path : GoString) :
    replaceAll (complaint letters) (0x2F :: old) path = complaint letters := by
  have absent : (0x2F : UInt8) ∉ complaint letters := by
    intro member
    rcases List.mem_append.mp member with letter | rune
    · exact absurd (List.eq_of_mem_replicate letter) (by decide)
    · exact absurd rune (by decide)
  rw [replaceAll, if_neg (List.cons_ne_nil _ _)]
  exact replaceFrom_absent absent old path _

private theorem getElem?_complaint (letters i : Nat) :
    (complaint letters)[letters + i]? = (encodeRune 0xE9)[i]? := by
  have behind : (List.replicate letters (0x61 : UInt8)).length ≤ letters + i := by
    rw [List.length_replicate]
    exact Nat.le_add_right letters i
  rw [complaint, List.getElem?_append_right behind, List.length_replicate, Nat.add_sub_cancel_left]

end Complaints

/-- The rejection reply is sendable and bounded, and an output that fits is passed on whole. -/
structure Encodable (out candidate path : GoString) : Prop where
  sanitized : Valid (sanitizeValidatorOutput out candidate path)
  bounded : (sanitizeValidatorOutput out candidate path).length ≤ 8192 + truncationMarker.length
  whole : (replaceAll out candidate path).length ≤ 8192 →
    sanitizeValidatorOutput out candidate path = replaceAll out candidate path
  message : Valid (ApplyError.notValid out candidate path).text

/-- For valid texts the reply is encodable exactly when the cut does not split a rune. -/
theorem encodable_iff {out candidate path : GoString} (validOut : Valid out)
    (validCandidate : Valid candidate) (validPath : Valid path) :
    Encodable out candidate path ↔ CutAtRune (replaceAll out candidate path) := by
  have replaced := valid_replaceAll validOut validCandidate validPath
  constructor
  · intro encodable
    exact (valid_sanitizeValidatorOutput_iff out candidate path replaced).1 encodable.sanitized
  · intro cut
    have sanitized := (valid_sanitizeValidatorOutput_iff out candidate path replaced).2 cut
    have introduction : Valid (lit "the new config is not valid, so it was not applied:\n") := by
      decide +kernel
    exact {
      sanitized := sanitized
      bounded := length_sanitizeValidatorOutput out candidate path
      whole := sanitizeValidatorOutput_short out candidate path
      message := (valid_append introduction).2 (valid_trimSpace sanitized) }

theorem encodable_cut_in_front_of_rune :
    Encodable (complaint 8192) (lit "/etc/agent.yaml.1.tmp") (lit "/etc/agent.yaml") ∧
      sanitizeValidatorOutput (complaint 8192) (lit "/etc/agent.yaml.1.tmp")
        (lit "/etc/agent.yaml") = List.replicate 8192 0x61 ++ truncationMarker := by
  have replaced : replaceAll (complaint 8192) (lit "/etc/agent.yaml.1.tmp")
      (lit "/etc/agent.yaml") = complaint 8192 := replaceAll_complaint _ _ _
  constructor
  · refine (encodable_iff (valid_complaint _) (by decide +kernel) (by decide +kernel)).2 ?_
    rw [replaced]
    intro b next
    have first : (complaint 8192)[maxValidatorOutput]? = some 0xC3 := getElem?_complaint 8192 0
    obtain rfl : 0xC3 = b := Option.some.inj (first.symm.trans next)
    decide
  · have long : maxValidatorOutput < (replaceAll (complaint 8192) (lit "/etc/agent.yaml.1.tmp")
        (lit "/etc/agent.yaml")).length := by
      rw [replaced, complaint, List.length_append, List.length_replicate]
      exact Nat.lt_add_of_pos_right (by decide)
    rw [sanitizeValidatorOutput_long _ _ _ long, replaced]
    exact congrArg (· ++ truncationMarker) (List.take_left' List.length_replicate)

theorem longComplaint_not_encodable :
    Valid (complaint 8191) ∧
      ¬ Encodable (complaint 8191) (lit "/etc/agent.yaml.1.tmp") (lit "/etc/agent.yaml") := by
  refine ⟨valid_complaint _, fun encodable => ?_⟩
  have replaced : replaceAll (complaint 8191) (lit "/etc/agent.yaml.1.tmp")
      (lit "/etc/agent.yaml") = complaint 8191 := replaceAll_complaint _ _ _
  have cut := (valid_sanitizeValidatorOutput_iff _ _ _ (by
    rw [replaced]; exact valid_complaint _)).1 encodable.sanitized
  rw [replaced] at cut
  have next : (complaint 8191)[8191 + 1]? = some 0xA9 := getElem?_complaint 8191 1
  exact absurd (cut 0xA9 next) (by decide)

end SignalAgent.Control.ValidatorReply
