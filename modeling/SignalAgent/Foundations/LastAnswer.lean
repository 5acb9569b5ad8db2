/- MID: SignalAgent/Foundations/LastAnswer
   layer: library
   source: none
   digest: A cache of the last answer is transparent exactly when equal neighbours agree. -/

import Mathlib.Data.List.Chain

set_option autoImplicit false
set_option relaxedAutoImplicit false

namespace SignalAgent.Foundations.LastAnswer

variable {σ ι κ ω : Type}

/-- The answers of successive calls that hand a state on. -/
def answers (call : σ → ι → ω × σ) : σ → List ι → List ω
  | _, [] => []
  | s, x :: xs => (call s x).1 :: answers call (call s x).2 xs

/-- What successive calls leave behind. -/
def after (call : σ → ι → ω × σ) (s : σ) (xs : List ι) : σ := xs.foldl (fun s x => (call s x).2) s

/-- The calls keep the last key with its answer, and give that answer again under that key. -/
structure KeepsLast (call : σ → ι → ω × σ) (entry : σ → Option (κ × ω)) (key : ι → κ)
    (fresh : ι → ω) : Prop where
  hit : ∀ s x a, entry s = some (key x, a) → call s x = (a, s)
  miss : ∀ s x, (∀ a, entry s ≠ some (key x, a)) →
    (call s x).1 = fresh x ∧ entry (call s x).2 = some (key x, fresh x)

/-- What is kept under the key of an input is the fresh answer to that input. -/
def Agrees (entry : σ → Option (κ × ω)) (key : ι → κ) (fresh : ι → ω) (s : σ) (x : ι) : Prop :=
  ∀ a, entry s = some (key x, a) → a = fresh x

variable {call : σ → ι → ω × σ} {entry : σ → Option (κ × ω)} {key : ι → κ} {fresh : ι → ω}

theorem call_of_agrees (keeps : KeepsLast call entry key fresh) {s : σ} {x : ι}
    (agrees : Agrees entry key fresh s x) :
    (call s x).1 = fresh x ∧ entry (call s x).2 = some (key x, fresh x) := by
  by_cases kept : ∃ a, entry s = some (key x, a)
  · obtain ⟨a, found⟩ := kept
    have same := agrees a found
    subst same
    rw [keeps.hit s x _ found]
    exact ⟨rfl, found⟩
  · apply keeps.miss
    intro a found
    exact kept ⟨a, found⟩

theorem agrees_of_call (keeps : KeepsLast call entry key fresh) {s : σ} {x : ι}
    (answered : (call s x).1 = fresh x) : Agrees entry key fresh s x := by
  intro a found
  rw [keeps.hit s x a found] at answered
  exact answered

/-- Every call answers afresh exactly when the first input agrees with what is kept and inputs
that follow each other under one key have the same fresh answer. -/
theorem answers_eq_fresh_iff (keeps : KeepsLast call entry key fresh) (s : σ) (xs : List ι) :
    answers call s xs = xs.map fresh ↔
      (∀ x ∈ xs.head?, Agrees entry key fresh s x) ∧
        xs.IsChain (fun x y => key x = key y → fresh x = fresh y) := by
  induction xs generalizing s with
  | nil => simp [answers]
  | cons x xs ih =>
    rw [answers, List.map_cons, List.cons.injEq, ih, List.isChain_cons]
    simp only [List.head?_cons, Option.mem_some_iff, forall_eq']
    -- After an agreeing call the cache keeps this input, so the next one meets its key.
    have next : Agrees entry key fresh s x → ∀ y, Agrees entry key fresh (call s x).2 y ↔
        (key x = key y → fresh x = fresh y) := by
      intro agrees y
      unfold Agrees
      rw [(call_of_agrees keeps agrees).2]
      constructor
      · intro kept same
        exact kept _ (by rw [same])
      · rintro meets a found
        obtain ⟨same, rfl⟩ := Prod.mk.inj (Option.some.inj found)
        exact meets same
    constructor
    · rintro ⟨answered, first, chain⟩
      have agrees := agrees_of_call keeps answered
      exact ⟨agrees, fun y head => (next agrees y).mp (first y head), chain⟩
    · rintro ⟨agrees, first, chain⟩
      exact ⟨(call_of_agrees keeps agrees).1,
        fun y head => (next agrees y).mpr (first y head), chain⟩

theorem answers_concat (call : σ → ι → ω × σ) (s : σ) (xs : List ι) (x : ι) :
    answers call s (xs ++ [x]) = answers call s xs ++ [(call (after call s xs) x).1] := by
  induction xs generalizing s with
  | nil => rfl
  | cons y ys ih =>
    rw [List.cons_append, answers, answers, ih, List.cons_append]
    rfl

theorem call_after {s : σ} {xs : List ι} {x : ι}
    (afresh : answers call s (xs ++ [x]) = (xs ++ [x]).map fresh) :
    (call (after call s xs) x).1 = fresh x := by
  rw [answers_concat, List.map_append] at afresh
  exact List.singleton_inj.mp (List.append_inj' afresh rfl).2

end SignalAgent.Foundations.LastAnswer
