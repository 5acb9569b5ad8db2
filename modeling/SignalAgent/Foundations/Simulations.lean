/- MID: SignalAgent/Foundations/Simulations
   layer: library
   source: none
   digest: A part of a machine, or a smaller model of it, runs along with the whole. -/

import SignalAgent.Foundations.GuardedRuns

set_option autoImplicit false
set_option relaxedAutoImplicit false

namespace SignalAgent.Foundations.Simulations

open GuardedRuns

universe u v u' v'

variable {σ : Type u} {α : Type v} {τ : Type u'} {β : Type v'}
  {step : σ → α → Option σ} {ok : σ → α → Prop} {start : σ}
  {partStep : τ → β → Option τ} {partOk : τ → β → Prop}

/-- Seen through `view`, a step of the whole that is an action `b` of the part is a step of the
part, and any other leaves the part as it was. -/
def Seen (partStep : τ → β → Option τ) (partOk : τ → β → Prop) (before after : τ) :
    Option β → Prop
  | none => after = before
  | some b => partOk before b ∧ partStep before b = some after

/-- A run of the whole is a run of each of its parts, by the actions that are the part's. -/
theorem run_of_view (view : σ → τ) (own : α → Option β)
    (seen : ∀ {s t : σ} {a : α}, ok s a → step s a = some t →
      Seen partStep partOk (view s) (view t) (own a))
    {acts : List α} {s : σ} (run : Run step ok start acts s) :
    Run partStep partOk (view start) (acts.filterMap own) (view s) := by
  induction run with
  | refl => exact .refl
  | @tail acts a s t before guard edge ih =>
    have moved := seen guard edge
    rw [List.filterMap_append]
    cases mine : own a with
    | none =>
      rw [mine] at moved
      rw [List.filterMap_cons_none mine, List.filterMap_nil, List.append_nil]
      exact moved ▸ ih
    | some b =>
      rw [mine] at moved
      rw [List.filterMap_cons_some mine, List.filterMap_nil]
      exact ih.tail moved.1 moved.2

/-- If each step keeps the relation to some run of the other machine, so does every run. -/
theorem exists_run_of_simulation {start' : τ} (R : σ → τ → Prop) (base : R start start')
    (simulated : ∀ {acts : List α} {s t : σ} {a : α} {u : τ}, Run step ok start acts s → R s u →
      ok s a → step s a = some t → ∃ acts' u', Run partStep partOk u acts' u' ∧ R t u')
    {acts : List α} {s : σ} (run : Run step ok start acts s) :
    ∃ acts' u, Run partStep partOk start' acts' u ∧ R s u := by
  induction run with
  | refl => exact ⟨[], start', .refl, base⟩
  | tail before guard edge ih =>
    obtain ⟨acts', u, past, related⟩ := ih
    obtain ⟨more, u', moved, kept⟩ := simulated before related guard edge
    exact ⟨acts' ++ more, u', past.append moved, kept⟩

end SignalAgent.Foundations.Simulations
