/-
**Runs of a system, and simulations between two of them.**

A system is a set of states to begin with and a step relation. The two rules a development needs:

* `Reachable.holds` — what holds at the beginning and is kept by every step holds of every state that
  is reached.
* `Simulation.reachable` — a system whose steps are answered by steps of another one only reaches
  states that are related to states the other one reaches.
-/

import Mathlib.Logic.Relation

/-- A system: the states it begins with and its steps. -/
structure TransitionSystem (σ : Type*) where
  starts : σ → Prop
  step : σ → σ → Prop

namespace TransitionSystem

variable {σ τ : Type*}

/-- The states of the runs of a system. -/
inductive Reachable (S : TransitionSystem σ) : σ → Prop
  | start {state : σ} : S.starts state → Reachable S state
  | next {state state' : σ} : Reachable S state → S.step state state' → Reachable S state'

/-- **The rule of invariants.** -/
theorem Reachable.holds {S : TransitionSystem σ} {inv : σ → Prop}
    (begins : ∀ state, S.starts state → inv state)
    (keeps : ∀ state state', inv state → S.step state state' → inv state') {state : σ}
    (reached : S.Reachable state) : inv state := by
  induction reached with
  | start first => exact begins _ first
  | next _ step ih => exact keeps _ _ ih step

/-- A reachable state followed by any number of steps. -/
theorem Reachable.steps {S : TransitionSystem σ} {state state' : σ} (reached : S.Reachable state)
    (steps : Relation.ReflTransGen S.step state state') : S.Reachable state' := by
  induction steps with
  | refl => exact reached
  | tail _ step ih => exact ih.next step

/-- A relation under which the steps of one system are answered by those of another: each by any
number of them. -/
structure Simulation (S : TransitionSystem σ) (T : TransitionSystem τ) (related : σ → τ → Prop) :
    Prop where
  starts : ∀ state, S.starts state → ∃ other, T.starts other ∧ related state other
  steps : ∀ state state' other, related state other → S.step state state' →
    ∃ other', Relation.ReflTransGen T.step other other' ∧ related state' other'

/-- **A simulated system** only reaches states related to reachable ones. -/
theorem Simulation.reachable {S : TransitionSystem σ} {T : TransitionSystem τ}
    {related : σ → τ → Prop} (simulation : Simulation S T related) {state : σ}
    (reached : S.Reachable state) :
    ∃ other, T.Reachable other ∧ related state other := by
  induction reached with
  | start first =>
      obtain ⟨other, starts, relates⟩ := simulation.starts _ first
      exact ⟨other, .start starts, relates⟩
  | next _ step ih =>
      obtain ⟨other, reached, relates⟩ := ih
      obtain ⟨other', steps, relates'⟩ := simulation.steps _ _ _ relates step
      exact ⟨other', reached.steps steps, relates'⟩

end TransitionSystem
