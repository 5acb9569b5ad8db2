/- MID: SignalAgent/Foundations/EventLogs
   layer: library
   source: none
   digest: A machine beside the log of its events; each event is justified by the log before it. -/

import SignalAgent.Foundations.GuardedRuns

set_option autoImplicit false
set_option relaxedAutoImplicit false

namespace SignalAgent.Foundations.EventLogs

open GuardedRuns

universe u v w

variable {σ : Type u} {α : Type v} {ε : Type w}

/-- A state with everything emitted on the way to it, oldest first. -/
structure Logged (σ : Type u) (ε : Type w) where
  state : σ
  log : List ε

/-- The log grows by the event the action emits in the state it is taken from. -/
def logStep (step : σ → α → Option σ) (emit : σ → α → Option ε) (s : Logged σ ε) (a : α) :
    Option (Logged σ ε) :=
  (step s.state a).map (fun t => ⟨t, s.log ++ (emit s.state a).toList⟩)

/-- `P` happened and `Q` has not happened since; `P` may look at the log before it. -/
def Since (P : List ε → ε → Prop) (Q : ε → Prop) (log : List ε) : Prop :=
  ∃ before e after, log = before ++ e :: after ∧ P before e ∧ ∀ x ∈ after, ¬ Q x

/-- Every event of the log meets `J` against the log before it. -/
def Justified (J : List ε → ε → Prop) (log : List ε) : Prop :=
  ∀ before e after, log = before ++ e :: after → J before e

variable {P J : List ε → ε → Prop} {Q : ε → Prop} {log : List ε}

theorem not_since_nil : ¬ Since P Q ([] : List ε) := by
  rintro ⟨before, e, after, split, -⟩
  cases before <;> cases split

private theorem split_concat {x e : ε} {before after : List ε}
    (split : log ++ [x] = before ++ e :: after) :
    (before = log ∧ e = x ∧ after = []) ∨
      ∃ rest, after = rest ++ [x] ∧ log = before ++ e :: rest := by
  rcases List.eq_nil_or_concat after with rfl | ⟨rest, y, rfl⟩
  · obtain ⟨same, last⟩ := List.append_inj' split rfl
    exact Or.inl ⟨same.symm, (List.singleton_inj.mp last).symm, rfl⟩
  · have moved : log ++ [x] = (before ++ e :: rest) ++ [y] := by simpa using split
    obtain ⟨same, last⟩ := List.append_inj' moved rfl
    exact Or.inr ⟨rest, by rw [List.concat_eq_append, List.singleton_inj.mp last], same⟩

theorem since_concat (x : ε) : Since P Q (log ++ [x]) ↔ P log x ∨ (Since P Q log ∧ ¬ Q x) := by
  constructor
  · rintro ⟨before, e, after, split, started, unbroken⟩
    rcases split_concat split with ⟨rfl, rfl, -⟩ | ⟨rest, rfl, earlier⟩
    · exact Or.inl started
    · have quiet : ∀ y ∈ rest, ¬ Q y := fun y member => unbroken y (List.mem_append_left _ member)
      have last : ¬ Q x := unbroken x (List.mem_append_right _ List.mem_cons_self)
      exact Or.inr ⟨⟨before, e, rest, earlier, started, quiet⟩, last⟩
  · rintro (started | ⟨⟨before, e, after, rfl, started, unbroken⟩, last⟩)
    · exact ⟨log, x, [], rfl, started, by simp⟩
    · refine ⟨before, e, after ++ [x], by simp, started, ?_⟩
      intro y member
      rcases List.mem_append.mp member with member | member
      · exact unbroken y member
      · obtain rfl := List.mem_singleton.mp member
        exact last

theorem Since.imp {P' : List ε → ε → Prop} (held : Since P Q log)
    (weaker : ∀ before e, P before e → P' before e) : Since P' Q log := by
  obtain ⟨before, e, after, split, started, unbroken⟩ := held
  exact ⟨before, e, after, split, weaker before e started, unbroken⟩

theorem justified_nil : Justified J ([] : List ε) := by
  intro before e after split
  cases before <;> cases split

theorem Justified.concat (held : Justified J log) {x : ε} (new : J log x) :
    Justified J (log ++ [x]) := by
  intro before e after split
  rcases split_concat split with ⟨rfl, rfl, -⟩ | ⟨rest, -, earlier⟩
  · exact new
  · exact held before e rest earlier

theorem logStep_eq_some {step : σ → α → Option σ} {emit : σ → α → Option ε} {s t : Logged σ ε}
    {a : α} (stepped : logStep step emit s a = some t) :
    step s.state a = some t.state ∧ t.log = s.log ++ (emit s.state a).toList := by
  obtain ⟨next, moved, rfl⟩ := Option.map_eq_some_iff.mp stepped
  exact ⟨moved, rfl⟩

/-- An invariant of state and log that justifies each event as it is emitted justifies the
whole log. -/
theorem justified_of_invariant {step : σ → α → Option σ} {emit : σ → α → Option ε}
    {ok : Logged σ ε → α → Prop} {start : σ} (Inv : Logged σ ε → Prop) (base : Inv ⟨start, []⟩)
    (preserved : ∀ {s t : Logged σ ε} {a : α}, Inv s → ok s a → logStep step emit s a = some t →
      Inv t)
    (justified : ∀ {s t : Logged σ ε} {a : α} {e : ε}, Inv s → ok s a →
      logStep step emit s a = some t → emit s.state a = some e → J s.log e)
    {acts : List α} {s : Logged σ ε} (run : Run (logStep step emit) ok ⟨start, []⟩ acts s) :
    Justified J s.log := by
  have both : Inv s ∧ Justified J s.log := by
    refine run.stateInvariant (fun s => Inv s ∧ Justified J s.log) ⟨base, justified_nil⟩ ?_
    intro s t a held guard stepped
    refine ⟨preserved held.1 guard stepped, ?_⟩
    rw [(logStep_eq_some stepped).2]
    cases emitted : emit s.state a with
    | none => simpa using held.2
    | some e => exact held.2.concat (justified held.1 guard stepped emitted)
  exact both.2

end SignalAgent.Foundations.EventLogs
