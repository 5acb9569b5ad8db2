/- MID: SignalAgent/Foundations/Interleavings
   layer: library
   source: none
   digest: Lists of concurrent parties: one party moves, a new one arrives, the rest stay. -/

import Mathlib.Algebra.GroupWithZero.Nat
import Mathlib.Data.List.Basic

set_option autoImplicit false
set_option relaxedAutoImplicit false

namespace SignalAgent.Foundations.Interleavings

universe u

variable {α : Type u} {parties : List α} {i j : Nat} {old new x : α}

theorem getElem?_set_cases (found : (parties.set i new)[j]? = some x) :
    (j = i ∧ x = new) ∨ (j ≠ i ∧ parties[j]? = some x) := by
  rw [List.getElem?_set] at found
  split at found
  · rename_i same
    split at found
    · exact Or.inl ⟨same.symm, (Option.some.inj found).symm⟩
    · cases found
  · rename_i other
    exact Or.inr ⟨fun same => other same.symm, found⟩

theorem getElem?_set_here (here : parties[i]? = some old) :
    (parties.set i new)[i]? = some new := by
  rw [List.getElem?_set_self (List.getElem?_eq_some_iff.mp here).1]

theorem getElem?_set_of_some (next : α) (here : parties[i]? = some old)
    (found : parties[j]? = some x) :
    (j = i ∧ x = old ∧ (parties.set i next)[j]? = some next) ∨
      (parties.set i next)[j]? = some x := by
  by_cases same : j = i
  · subst same
    exact Or.inl ⟨rfl, Option.some.inj (found.symm.trans here), getElem?_set_here here⟩
  · exact Or.inr (by rw [List.getElem?_set_ne (Ne.symm same), found])

theorem getElem?_concat_cases (found : (parties ++ [new])[j]? = some x) :
    (j = parties.length ∧ x = new) ∨ parties[j]? = some x := by
  rw [List.getElem?_append] at found
  split at found
  · exact Or.inr found
  · rename_i beyond
    obtain ⟨inside, last⟩ := List.getElem?_eq_some_iff.mp found
    have position : j = parties.length := by
      simp only [List.length_singleton] at inside
      omega
    exact Or.inl ⟨position, (List.mem_singleton.mp (List.mem_of_getElem? found))⟩

theorem forall_set {p : Nat → α → Prop}
    (all : ∀ {j : Nat} {x : α}, parties[j]? = some x → p j x) (moved : p i new) {j : Nat} {x : α}
    (found : (parties.set i new)[j]? = some x) : p j x := by
  rcases getElem?_set_cases found with ⟨rfl, rfl⟩ | ⟨-, found⟩
  · exact moved
  · exact all found

theorem forall_concat {p : Nat → α → Prop}
    (all : ∀ {j : Nat} {x : α}, parties[j]? = some x → p j x) (arrived : p parties.length new)
    {j : Nat} {x : α} (found : (parties ++ [new])[j]? = some x) : p j x := by
  rcases getElem?_concat_cases found with ⟨rfl, rfl⟩ | found
  · exact arrived
  · exact all found

theorem forall_mem_set {p : α → Prop} (all : ∀ x ∈ parties, p x) (moved : p new) :
    ∀ x ∈ parties.set i new, p x := by
  intro x member
  rcases List.mem_or_eq_of_mem_set member with member | same
  · exact all x member
  · exact same ▸ moved

theorem mem_set_of_ne (here : parties[i]? = some old) (member : x ∈ parties) (other : x ≠ old) :
    x ∈ parties.set i new := by
  obtain ⟨j, found⟩ := List.mem_iff_getElem?.mp member
  have apart : i ≠ j := by
    rintro rfl
    exact other (Option.some.inj (found.symm.trans here))
  exact List.mem_iff_getElem?.mpr ⟨j, by rw [List.getElem?_set_ne apart, found]⟩

theorem getElem?_singleton_cases (here : [old][i]? = some x) : i = 0 ∧ old = x := by
  cases i with
  | zero => exact ⟨rfl, by simpa using here⟩
  | succ i => cases here

theorem eq_singleton_of_getElem? (single : parties.length ≤ 1) (here : parties[i]? = some x) :
    parties = [x] ∧ i = 0 := by
  match parties, single with
  | [], _ => cases here
  | [y], _ =>
    obtain ⟨first, same⟩ := getElem?_singleton_cases here
    exact ⟨congrArg (fun z => [z]) same, first⟩

theorem countP_set_add (p : α → Bool) (here : parties[i]? = some old) (next : α) :
    (parties.set i next).countP p + (if p old then 1 else 0) =
      parties.countP p + if p next then 1 else 0 := by
  obtain ⟨inside, same⟩ := List.getElem?_eq_some_iff.mp here
  have counted : (if p old then 1 else 0) ≤ parties.countP p := by
    split
    · rename_i holds
      exact List.countP_pos_iff.mpr ⟨old, List.mem_of_getElem? here, holds⟩
    · exact Nat.zero_le _
  rw [List.countP_set inside, same]
  omega

theorem sum_map_set_add (weight : α → Nat) (here : parties[i]? = some old) (next : α) :
    ((parties.set i next).map weight).sum + weight old =
      (parties.map weight).sum + weight next := by
  induction parties generalizing i with
  | nil => cases here
  | cons first rest ih =>
    cases i with
    | zero =>
      obtain rfl : first = old := by simpa using here
      simp only [List.set_cons_zero, List.map_cons, List.sum_cons]
      omega
    | succ i =>
      have found : rest[i]? = some old := by simpa using here
      have later := ih found
      simp only [List.set_cons_succ, List.map_cons, List.sum_cons]
      omega

theorem filterMap_set_of_eq {β : Type u} (f : α → Option β) (here : parties[i]? = some old)
    (same : f new = f old) : (parties.set i new).filterMap f = parties.filterMap f := by
  induction parties generalizing i with
  | nil => cases here
  | cons first rest ih =>
    cases i with
    | zero =>
      obtain rfl : first = old := by simpa using here
      rw [List.set_cons_zero, List.filterMap_cons, List.filterMap_cons, same]
    | succ i =>
      have later : rest[i]? = some old := by simpa using here
      rw [List.set_cons_succ, List.filterMap_cons, List.filterMap_cons, ih later]

theorem place_unique_of_nodup {β : Type u} {f : α → Option β} {b : β} {y : α}
    (distinct : (parties.filterMap f).Nodup) (here : parties[i]? = some x)
    (there : parties[j]? = some y) (seen : f x = some b) (seen' : f y = some b) : i = j := by
  induction parties generalizing i j with
  | nil => cases here
  | cons first rest ih =>
    have later : ∀ {k : Nat} {z : α}, rest[k]? = some z → f z = some b →
        b ∈ rest.filterMap f :=
      fun found seen => List.mem_filterMap.mpr ⟨_, List.mem_of_getElem? found, seen⟩
    cases i with
    | zero =>
      obtain rfl : first = x := by simpa using here
      rw [List.filterMap_cons_some seen] at distinct
      cases j with
      | zero => rfl
      | succ j =>
        have found : rest[j]? = some y := by simpa using there
        exact absurd (later found seen') (List.nodup_cons.mp distinct).1
    | succ i =>
      have found : rest[i]? = some x := by simpa using here
      cases j with
      | zero =>
        obtain rfl : first = y := by simpa using there
        rw [List.filterMap_cons_some seen'] at distinct
        exact absurd (later found seen) (List.nodup_cons.mp distinct).1
      | succ j =>
        have found' : rest[j]? = some y := by simpa using there
        have tail : (rest.filterMap f).Nodup := by
          rw [List.filterMap_cons] at distinct
          split at distinct
          · exact distinct
          · exact (List.nodup_cons.mp distinct).2
        exact congrArg (· + 1) (ih tail found found')

theorem getElem?_concat_of_some (found : parties[j]? = some x) :
    (parties ++ [new])[j]? = some x := by
  rw [List.getElem?_append_left (List.getElem?_eq_some_iff.mp found).1, found]

end SignalAgent.Foundations.Interleavings
