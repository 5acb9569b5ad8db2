/- MID: SignalAgent/Foundations/GuardedRuns
   layer: library
   source: none
   digest: Guarded finite runs of a partial step function carry history-indexed invariants. -/

import Mathlib.Data.List.Basic

set_option autoImplicit false
set_option relaxedAutoImplicit false

namespace SignalAgent.Foundations.GuardedRuns

universe u v

variable {σ : Type u} {α : Type v}

/-- A finite run from `start`.  Every action meets the guard in the state it is
taken from, and the whole action history is retained. -/
inductive Run (step : σ → α → Option σ) (ok : σ → α → Prop) (start : σ) :
    List α → σ → Prop where
  | refl : Run step ok start [] start
  | tail {acts : List α} {a : α} {s t : σ} :
      Run step ok start acts s → ok s a → step s a = some t →
      Run step ok start (acts ++ [a]) t

variable {step : σ → α → Option σ} {ok : σ → α → Prop} {start : σ}

/-- One base case and one step case give the invariant at every reached state;
the invariant may speak about the actions taken so far. -/
theorem Run.invariant (Inv : List α → σ → Prop) (base : Inv [] start)
    (preserved : ∀ {acts : List α} {s t : σ} {a : α},
      Inv acts s → ok s a → step s a = some t → Inv (acts ++ [a]) t)
    {acts : List α} {s : σ} (run : Run step ok start acts s) : Inv acts s := by
  induction run with
  | refl => exact base
  | tail _ guard edge ih => exact preserved ih guard edge

theorem Run.historyInvariant (Inv : List α → σ → Prop) (base : Inv [] start)
    (preserved : ∀ {acts : List α} {s t : σ} {a : α}, Run step ok start acts s →
      Inv acts s → ok s a → step s a = some t → Inv (acts ++ [a]) t)
    {acts : List α} {s : σ} (run : Run step ok start acts s) : Inv acts s := by
  induction run with
  | refl => exact base
  | tail before guard edge ih => exact preserved before ih guard edge

theorem Run.stateInvariant (Inv : σ → Prop) (base : Inv start)
    (preserved : ∀ {s t : σ} {a : α}, Inv s → ok s a → step s a = some t → Inv t)
    {acts : List α} {s : σ} (run : Run step ok start acts s) : Inv s :=
  run.invariant (fun _ s => Inv s) base (fun h guard edge => preserved h guard edge)

theorem Run.head {s t : σ} {a : α} {acts : List α} {u : σ} (guard : ok s a)
    (edge : step s a = some t) (run : Run step ok t acts u) : Run step ok s (a :: acts) u := by
  induction run with
  | refl => exact Run.tail (.refl) guard edge
  | tail _ guard edge ih => exact ih.tail guard edge

theorem Run.append {s t : σ} {acts more : List α} (run : Run step ok start acts s)
    (rest : Run step ok s more t) : Run step ok start (acts ++ more) t := by
  induction rest with
  | refl => rwa [List.append_nil]
  | tail _ guard edge ih =>
    rw [← List.append_assoc]
    exact ih.tail guard edge

/-- If outside the goal some step always lowers the rank, a run leads to the goal. -/
theorem exists_run_to (Inv : σ → Prop) {goal : σ → Prop} (rank : σ → Nat)
    (lowers : ∀ s, Inv s → goal s ∨
      ∃ a t, ok s a ∧ step s a = some t ∧ Inv t ∧ rank t < rank s)
    {s : σ} (held : Inv s) : ∃ acts t, Run step ok s acts t ∧ goal t := by
  induction bound : rank s using Nat.strongRecOn generalizing s with
  | ind n ih =>
    rcases lowers s held with done | ⟨a, t, guard, edge, kept, lower⟩
    · exact ⟨[], s, .refl, done⟩
    · obtain ⟨acts, u, run, reached⟩ := ih (rank t) (bound ▸ lower) kept rfl
      exact ⟨a :: acts, u, run.head guard edge, reached⟩

/-- A rank that no step raises and every good step lowers is used up by enough good steps. -/
theorem Run.countdown (Inv : σ → Prop) (rank : σ → Nat) (good : α → Bool) (base : Inv start)
    (lowers : ∀ {s t : σ} {a : α}, Inv s → ok s a → step s a = some t →
      Inv t ∧ rank t ≤ rank s - if good a then 1 else 0)
    {acts : List α} {s : σ} (run : Run step ok start acts s) :
    Inv s ∧ rank s ≤ rank start - acts.countP good := by
  induction run with
  | refl => exact ⟨base, Nat.le_refl _⟩
  | @tail acts a s t _ guard edge ih =>
    obtain ⟨held, low⟩ := ih
    obtain ⟨kept, lower⟩ := lowers held guard edge
    refine ⟨kept, ?_⟩
    rw [List.countP_append, List.countP_singleton]
    omega

theorem Run.restrict {acts total : List α} {s : σ} (run : Run step ok start acts s)
    (sub : acts ⊆ total) : Run step (fun s a => ok s a ∧ a ∈ total) start acts s := by
  induction run with
  | refl => exact .refl
  | tail _ guard edge ih =>
    obtain ⟨past, last⟩ := List.append_subset.mp sub
    exact (ih past).tail ⟨guard, last List.mem_cons_self⟩ edge

theorem Run.strengthen (Inv : σ → Prop) {strong : σ → α → Prop} (base : Inv start)
    (preserved : ∀ {s t : σ} {a : α}, Inv s → ok s a → step s a = some t → Inv t)
    (implied : ∀ {s t : σ} {a : α}, Inv s → ok s a → step s a = some t → strong s a)
    {acts : List α} {s : σ} (run : Run step ok start acts s) :
    Run step strong start acts s := by
  induction run with
  | refl => exact .refl
  | tail before guard edge ih =>
    have held := before.stateInvariant Inv base preserved
    exact ih.tail (implied held guard edge) edge

/-- Execute a list of actions, refusing an action whose guard test fails. -/
def exec (step : σ → α → Option σ) (test : σ → α → Bool) : σ → List α → Option σ
  | s, [] => some s
  | s, a :: acts => if test s a then (step s a).bind (fun t => exec step test t acts) else none

private theorem run_of_exec {test : σ → α → Bool}
    (sound : ∀ s a, test s a = true → ok s a) {past acts : List α} {s t : σ}
    (run : Run step ok start past s) (executed : exec step test s acts = some t) :
    Run step ok start (past ++ acts) t := by
  induction acts generalizing past s with
  | nil =>
    obtain rfl : s = t := by simpa [exec] using executed
    simpa using run
  | cons a acts ih =>
    simp only [exec] at executed
    split at executed
    · rename_i guard
      obtain ⟨middle, edge, rest⟩ := Option.bind_eq_some_iff.mp executed
      have extended := ih (run.tail (sound s a guard) edge) rest
      simpa using extended
    · cases executed

theorem exists_run_of_exec (test : σ → α → Bool) (acts : List α) (check : σ → Bool)
    (sound : ∀ s a, test s a = true → ok s a)
    (executed : (exec step test start acts).any check = true) :
    ∃ t, Run step ok start acts t ∧ check t = true := by
  cases final : exec step test start acts with
  | none => simp [final] at executed
  | some t =>
    refine ⟨t, by simpa using run_of_exec sound .refl final, ?_⟩
    simpa [final] using executed

end SignalAgent.Foundations.GuardedRuns
