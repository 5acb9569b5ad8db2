/- MID: SignalAgent/Foundations/GoSort
   layer: library
   source: none
   digest: Sorting strings by their bytes; the sorted keys of a map do not depend on its order. -/

import Mathlib.Data.List.Sort
import SignalAgent.Foundations.GoMaps
import SignalAgent.Foundations.GoText

set_option autoImplicit false
set_option relaxedAutoImplicit false

namespace SignalAgent.Foundations.GoSort

open GoMaps GoText

/-- `sort.Strings`: strings compare byte by byte. -/
def sortStrings (s : List GoString) : List GoString := s.insertionSort (· ≤ ·)

theorem sortStrings_perm (s : List GoString) : (sortStrings s).Perm s :=
  List.perm_insertionSort (· ≤ ·) s

theorem mem_sortStrings {s : List GoString} {x : GoString} : x ∈ sortStrings s ↔ x ∈ s :=
  (sortStrings_perm s).mem_iff

theorem sortStrings_pairwise (s : List GoString) : (sortStrings s).Pairwise (· ≤ ·) :=
  List.pairwise_insertionSort (· ≤ ·) s

theorem sortStrings_strict {s : List GoString} (nodup : s.Nodup) :
    (sortStrings s).Pairwise (· < ·) := by
  have apart : (sortStrings s).Nodup := (sortStrings_perm s).nodup_iff.mpr nodup
  refine ((sortStrings_pairwise s).and apart).imp ?_
  rintro x y ⟨below, different⟩
  rw [← List.not_le]
  intro above
  exact different (List.le_antisymm below above)

theorem sortStrings_eq_of_perm {s t : List GoString} (perm : s.Perm t) :
    sortStrings s = sortStrings t := by
  have sorted : (sortStrings s).Perm (sortStrings t) :=
    (sortStrings_perm s).trans (perm.trans (sortStrings_perm t).symm)
  exact sorted.eq_of_pairwise (fun _ _ _ _ below above => List.le_antisymm below above)
    (sortStrings_pairwise s) (sortStrings_pairwise t)

theorem sortStrings_iterationOrder {ν : Type} {m : GoMap GoString ν} {first second : List GoString}
    (visits : IterationOrder m first) (visits' : IterationOrder m second) :
    sortStrings first = sortStrings second := by
  refine sortStrings_eq_of_perm ((List.perm_ext_iff_of_nodup visits.1 visits'.1).mpr ?_)
  intro k
  rw [visits.2 k, visits'.2 k]

end SignalAgent.Foundations.GoSort
