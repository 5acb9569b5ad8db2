/- MID: SignalAgent/Foundations/RingWindow
   layer: library
   source: none
   digest: A ring of slots indexed by time modulo its size holds the sums of a sliding window. -/

import Mathlib.Algebra.BigOperators.Group.Finset.Piecewise
import Mathlib.Data.Nat.ModEq

set_option autoImplicit false
set_option relaxedAutoImplicit false

namespace SignalAgent.Foundations.RingWindow

universe u

variable {M : Type u} [AddCommMonoid M]

/-- The total of the credits whose time is greater than `last - size`. -/
def windowSum (size last : Nat) (credits : List (Nat × M)) : M :=
  ((credits.filter (fun c => last < c.1 + size)).map Prod.snd).sum

/-- The part of that total which belongs to one slot. -/
def slotSum (size last slot : Nat) (credits : List (Nat × M)) : M :=
  ((credits.filter (fun c => c.1 % size = slot ∧ last < c.1 + size)).map Prod.snd).sum

/-- `slots` is the window ending at `last`: no credit is later, and each slot holds
exactly the live credits of its residue. -/
structure Window (size last : Nat) (slots : Nat → M) (credits : List (Nat × M)) : Prop where
  bounded : ∀ c ∈ credits, c.1 ≤ last
  filled : ∀ i < size, slots i = slotSum size last i credits

theorem slotSum_append (size last slot : Nat) (xs ys : List (Nat × M)) :
    slotSum size last slot (xs ++ ys) = slotSum size last slot xs + slotSum size last slot ys := by
  simp [slotSum]

theorem slotSum_eq_zero {size last slot : Nat} {credits : List (Nat × M)}
    (none_live : ∀ c ∈ credits, ¬ (c.1 % size = slot ∧ last < c.1 + size)) :
    slotSum size last slot credits = 0 := by
  have empty : credits.filter (fun c => c.1 % size = slot ∧ last < c.1 + size) = [] := by
    rw [List.filter_eq_nil_iff]
    intro c member
    simpa using none_live c member
  rw [slotSum, empty, List.map_nil, List.sum_nil]

theorem Window.advanceOne {size last : Nat} {slots slots' : Nat → M} {credits : List (Nat × M)}
    (window : Window size last slots credits)
    (cleared : slots' ((last + 1) % size) = 0)
    (kept : ∀ i < size, i ≠ (last + 1) % size → slots' i = slots i) :
    Window size (last + 1) slots' credits := by
  refine ⟨fun c member => Nat.le_succ_of_le (window.bounded c member), ?_⟩
  intro i small
  by_cases reused : i = (last + 1) % size
  · subst reused
    rw [cleared]
    refine (slotSum_eq_zero ?_).symm
    -- A live credit of the reused residue would lie strictly between two multiples of `size`.
    rintro c member ⟨residue, live⟩
    have old := window.bounded c member
    have multiple : size ∣ last + 1 - c.1 := (Nat.modEq_iff_dvd' (by omega)).mp residue
    have := Nat.le_of_dvd (by omega) multiple
    omega
  · rw [kept i small reused, window.filled i small]
    unfold slotSum
    congr 2
    apply List.filter_congr
    intro c member
    -- Only a credit of the reused residue leaves the window at this hour.
    have leaving : c.1 + size = last + 1 → c.1 % size ≠ i := by
      intro boundary same
      apply reused
      rw [← boundary, Nat.add_mod_right]
      exact same.symm
    simp only [decide_eq_decide]
    constructor
    · rintro ⟨residue, live⟩
      exact ⟨residue, by have := fun h => leaving h residue; omega⟩
    · rintro ⟨residue, live⟩
      exact ⟨residue, by omega⟩

theorem Window.advanceFar {size last target : Nat} {slots slots' : Nat → M}
    {credits : List (Nat × M)} (window : Window size last slots credits)
    (far : last + size ≤ target) (cleared : ∀ i < size, slots' i = 0) :
    Window size target slots' credits := by
  refine ⟨fun c member => by have := window.bounded c member; omega, ?_⟩
  intro i small
  rw [cleared i small]
  refine (slotSum_eq_zero ?_).symm
  rintro c member ⟨-, live⟩
  have := window.bounded c member
  omega

theorem Window.add {size last : Nat} {slots slots' : Nat → M} {credits : List (Nat × M)}
    (window : Window size last slots credits) (positive : 0 < size) (amount : M)
    (added : slots' (last % size) = slots (last % size) + amount)
    (kept : ∀ i < size, i ≠ last % size → slots' i = slots i) :
    Window size last slots' (credits ++ [(last, amount)]) := by
  constructor
  · intro c member
    rcases List.mem_append.mp member with member | member
    · exact window.bounded c member
    · obtain rfl := List.mem_singleton.mp member
      exact le_rfl
  · intro i small
    rw [slotSum_append]
    by_cases current : i = last % size
    · subst current
      rw [added, window.filled _ small]
      simp [slotSum, positive]
    · rw [kept i small current, window.filled i small]
      have other : slotSum size last i [(last, amount)] = 0 :=
        slotSum_eq_zero (by simpa using fun same => absurd same.symm current)
      rw [other, add_zero]

theorem Window.empty {size last : Nat} {slots : Nat → M} (cleared : ∀ i < size, slots i = 0) :
    Window size last slots ([] : List (Nat × M)) :=
  ⟨by simp, fun i small => by simp [cleared i small, slotSum]⟩

private theorem sum_slotSum (size last : Nat) (positive : 0 < size) (credits : List (Nat × M)) :
    ∑ i ∈ Finset.range size, slotSum size last i credits = windowSum size last credits := by
  induction credits with
  | nil => simp [slotSum, windowSum]
  | cons c credits ih =>
    have split_slot : ∀ i, slotSum size last i (c :: credits) =
        (if i = c.1 % size then (if last < c.1 + size then c.2 else 0) else 0) +
          slotSum size last i credits := by
      intro i
      by_cases same : i = c.1 % size
      · by_cases live : last < c.1 + size <;> simp [slotSum, same, live]
      · simp [slotSum, same, Ne.symm same]
    have split_window : windowSum size last (c :: credits) =
        (if last < c.1 + size then c.2 else 0) + windowSum size last credits := by
      by_cases live : last < c.1 + size <;> simp [windowSum, live]
    simp only [split_slot, Finset.sum_add_distrib, ih, split_window, Finset.sum_ite_eq',
      Finset.mem_range, Nat.mod_lt _ positive, if_true]

/-- The slots together hold exactly the window. -/
theorem Window.sum {size last : Nat} {slots : Nat → M} {credits : List (Nat × M)}
    (window : Window size last slots credits) (positive : 0 < size) :
    ∑ i ∈ Finset.range size, slots i = windowSum size last credits := by
  rw [← sum_slotSum size last positive credits]
  exact Finset.sum_congr rfl (fun i small => window.filled i (Finset.mem_range.mp small))

end SignalAgent.Foundations.RingWindow
