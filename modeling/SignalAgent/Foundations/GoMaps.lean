/- MID: SignalAgent/Foundations/GoMaps
   layer: library
   source: none
   digest: Finite maps with an arbitrary iteration order, and the bulk updates of loops. -/

import Mathlib.Data.Finmap

set_option autoImplicit false
set_option relaxedAutoImplicit false

namespace SignalAgent.Foundations.GoMaps

variable {κ ν : Type} [DecidableEq κ]

/-- A map value; which order a range statement visits is not part of it. -/
abbrev GoMap (κ ν : Type) := Finmap (fun _ : κ => ν)

/-- The lists of keys a range statement over `m` may visit: every key exactly once. -/
def IterationOrder (m : GoMap κ ν) (order : List κ) : Prop :=
  order.Nodup ∧ ∀ k, k ∈ order ↔ k ∈ m

instance (m : GoMap κ ν) (order : List κ) : Decidable (IterationOrder m order) :=
  decidable_of_iff (order.Nodup ∧ order.toFinset = m.keys) (by
    simp only [IterationOrder, Finset.ext_iff, List.mem_toFinset, Finmap.mem_keys])

theorem IterationOrder.toFinset_eq {m : GoMap κ ν} {order : List κ}
    (visits : IterationOrder m order) : order.toFinset = m.keys := by
  ext k
  rw [List.mem_toFinset, Finmap.mem_keys]
  exact visits.2 k

theorem IterationOrder.length_filter {m : GoMap κ ν} {order : List κ}
    (visits : IterationOrder m order) (p : κ → Bool) :
    (order.filter p).length = (m.keys.filter (fun k => p k = true)).card := by
  rw [← visits.toFinset_eq, ← List.toFinset_filter,
    List.toFinset_card_of_nodup (visits.1.filter p)]

theorem IterationOrder.length_eq {m : GoMap κ ν} {order : List κ}
    (visits : IterationOrder m order) : order.length = m.keys.card := by
  rw [← visits.toFinset_eq, List.toFinset_card_of_nodup visits.1]

omit [DecidableEq κ] in
theorem iterationOrder_keys (m : GoMap κ ν) : IterationOrder m m.keys.toList :=
  ⟨m.keys.nodup_toList, fun k => by rw [Finset.mem_toList, Finmap.mem_keys]⟩

theorem exists_iterationOrder_from {m : GoMap κ ν} {keys : Finset κ} (known : keys ⊆ m.keys) :
    ∃ order, IterationOrder m order ∧ keys.toList <+: order := by
  refine ⟨keys.toList ++ (m.keys \ keys).toList, ⟨?_, ?_⟩, List.prefix_append _ _⟩
  · refine List.nodup_append'.mpr ⟨keys.nodup_toList, Finset.nodup_toList _, ?_⟩
    intro key first second
    exact (Finset.mem_sdiff.mp (Finset.mem_toList.mp second)).2 (Finset.mem_toList.mp first)
  · intro key
    rw [List.mem_append, Finset.mem_toList, Finset.mem_toList, Finset.mem_sdiff,
      ← Finmap.mem_keys]
    constructor
    · rintro (first | ⟨member, -⟩)
      · exact known first
      · exact member
    · intro member
      by_cases first : key ∈ keys
      · exact Or.inl first
      · exact Or.inr ⟨member, first⟩

/-- The value of an absent key is the zero value. -/
def index (m : GoMap κ ν) (zero : ν) (k : κ) : ν := (m.lookup k).getD zero

theorem lookup_insert_eq (m : GoMap κ ν) (a k : κ) (v : ν) :
    (m.insert a v).lookup k = if k = a then some v else m.lookup k := by
  split
  · rename_i same
    subst same
    exact Finmap.lookup_insert m
  · rename_i differ
    exact Finmap.lookup_insert_of_ne m differ

theorem lookup_erase_eq (m : GoMap κ ν) (a k : κ) :
    (m.erase a).lookup k = if k = a then none else m.lookup k := by
  split
  · rename_i same
    subst same
    exact Finmap.lookup_erase k m
  · rename_i differ
    exact Finmap.lookup_erase_ne differ

theorem mem_of_lookup {m : GoMap κ ν} {k : κ} {v : ν} (found : m.lookup k = some v) : k ∈ m :=
  Finmap.mem_iff.mpr ⟨v, found⟩

/-- `delete` in a loop over a slice of keys. -/
def deleteAll (m : GoMap κ ν) (keys : List κ) : GoMap κ ν :=
  keys.foldl (fun m k => m.erase k) m

theorem lookup_deleteAll (m : GoMap κ ν) (keys : List κ) (k : κ) :
    (deleteAll m keys).lookup k = if k ∈ keys then none else m.lookup k := by
  induction keys generalizing m with
  | nil => simp [deleteAll]
  | cons a keys ih =>
    have unfolded : deleteAll m (a :: keys) = deleteAll (m.erase a) keys := rfl
    rw [unfolded, ih, lookup_erase_eq]
    by_cases same : k = a <;> by_cases later : k ∈ keys <;> simp [same, later]

@[simp] theorem mem_deleteAll (m : GoMap κ ν) (keys : List κ) (k : κ) :
    k ∈ deleteAll m keys ↔ k ∈ m ∧ k ∉ keys := by
  rw [← Finmap.lookup_isSome, ← Finmap.lookup_isSome, lookup_deleteAll]
  split <;> simp_all

/-- Update through the pointer stored under `k`; an absent key changes nothing. -/
def modify (m : GoMap κ ν) (k : κ) (f : ν → ν) : GoMap κ ν :=
  match m.lookup k with
  | some v => m.insert k (f v)
  | none => m

theorem lookup_modify (m : GoMap κ ν) (a k : κ) (f : ν → ν) :
    (modify m a f).lookup k = if k = a then (m.lookup k).map f else m.lookup k := by
  unfold modify
  split
  · rename_i v found
    rw [lookup_insert_eq]
    by_cases same : k = a
    · subst same
      simp [found]
    · simp [same]
  · rename_i missing
    by_cases same : k = a
    · subst same
      simp [missing]
    · simp [same]

@[simp] theorem mem_modify (m : GoMap κ ν) (a k : κ) (f : ν → ν) : k ∈ modify m a f ↔ k ∈ m := by
  rw [← Finmap.lookup_isSome, ← Finmap.lookup_isSome, lookup_modify]
  split <;> simp

/-- `modify` in a loop over a slice of keys. -/
def modifyAll (m : GoMap κ ν) (keys : List κ) (f : ν → ν) : GoMap κ ν :=
  keys.foldl (fun m k => modify m k f) m

theorem lookup_modifyAll (m : GoMap κ ν) (keys : List κ) (f : ν → ν)
    (idem : ∀ v, f (f v) = f v) (k : κ) :
    (modifyAll m keys f).lookup k = if k ∈ keys then (m.lookup k).map f else m.lookup k := by
  induction keys generalizing m with
  | nil => simp [modifyAll]
  | cons a keys ih =>
    have unfolded : modifyAll m (a :: keys) f = modifyAll (modify m a f) keys f := rfl
    rw [unfolded, ih, lookup_modify]
    have twice : f ∘ f = f := funext idem
    by_cases same : k = a
    · subst same
      by_cases later : k ∈ keys <;> simp [later, Option.map_map, twice]
    · simp [same]

@[simp] theorem mem_modifyAll (m : GoMap κ ν) (keys : List κ) (f : ν → ν) (k : κ) :
    k ∈ modifyAll m keys f ↔ k ∈ m := by
  induction keys generalizing m with
  | nil => rfl
  | cons a keys ih => exact (ih (modify m a f)).trans (mem_modify m a k f)

end SignalAgent.Foundations.GoMaps
