/-
**Runs that end in spite of faults.**

A step relation of which some steps are faults. A potential that every other step lowers, and that a
fault raises by no more than some constant, pays for a whole run.

* `Potential` — an invariant and a potential under it.
* `Potential.bounded` — a run takes no more steps than the potential it begins with, and the constant
  more for each of its faults.
* `Potential.simulated` — what goes like a system with a potential has one too.
* `Potential.completes` — if a step can be taken wherever the work is not done, it gets done.
-/

import Mathlib.Data.Nat.Basic

/-- A run with its number of steps and of faults; `true` marks a step that is a fault. -/
inductive FaultyRun {σ : Type*} (step : σ → Bool → σ → Prop) : σ → Nat → Nat → σ → Prop
  | start (state : σ) : FaultyRun step state 0 0 state
  | next {state between last : σ} {steps faults : Nat} : FaultyRun step state steps faults between →
      step between false last → FaultyRun step state (steps + 1) faults last
  | fault {state between last : σ} {steps faults : Nat} : FaultyRun step state steps faults between →
      step between true last → FaultyRun step state steps (faults + 1) last

/-- One run behind another. -/
theorem FaultyRun.trans {σ : Type*} {step : σ → Bool → σ → Prop} {state between last : σ}
    {steps faults steps' faults' : Nat} (run : FaultyRun step state steps faults between)
    (later : FaultyRun step between steps' faults' last) :
    FaultyRun step state (steps + steps') (faults + faults') last := by
  induction later with
  | start => exact run
  | next _ goes ih => exact .next ih goes
  | fault _ fails ih => exact .fault ih fails

/-- An invariant under which every step lowers the rank, and a fault raises it by at most `cost`. -/
structure Potential {σ : Type*} (step : σ → Bool → σ → Prop) (inv : σ → Prop) (rank : σ → Nat)
    (cost : Nat) : Prop where
  keeps : ∀ {state fault state'}, inv state → step state fault state' → inv state'
  lowers : ∀ {state state'}, inv state → step state false state' → rank state' < rank state
  raises : ∀ {state state'}, inv state → step state true state' → rank state' ≤ rank state + cost

namespace Potential

variable {σ : Type*} {step : σ → Bool → σ → Prop} {inv : σ → Prop} {rank : σ → Nat} {cost : Nat}
  (potential : Potential step inv rank cost)

include potential

/-- The invariant holds all along a run. -/
theorem holds {state last : σ} {steps faults : Nat} (run : FaultyRun step state steps faults last)
    (first : inv state) : inv last := by
  induction run with
  | start => exact first
  | next _ goes ih => exact potential.keeps ih goes
  | fault _ fails ih => exact potential.keeps ih fails

/-- **A run is paid for** by the potential it begins with and by its faults. -/
theorem bounded {state last : σ} {steps faults : Nat} (run : FaultyRun step state steps faults last)
    (first : inv state) : steps + rank last ≤ rank state + cost * faults := by
  induction run with
  | start => exact le_of_eq (by rw [Nat.zero_add, Nat.mul_zero, Nat.add_zero])
  | next before goes ih =>
      have lower := potential.lowers (potential.holds before first) goes
      omega
  | fault before fails ih =>
      have higher := potential.raises (potential.holds before first) fails
      rw [Nat.mul_succ]
      omega

/-- **What goes like a system** with a potential has one too. -/
theorem simulated {τ : Type*} {step' : τ → Bool → τ → Prop} {rel : τ → σ → Prop} {rank' : τ → Nat}
    (simulation : ∀ {other state fault other'}, rel other state → inv state →
      step' other fault other' → ∃ state', step state fault state' ∧ rel other' state')
    (same : ∀ {other state}, rel other state → rank' other = rank state) :
    Potential step' (fun other => ∃ state, rel other state ∧ inv state) rank' cost where
  keeps := by
    rintro other fault other' ⟨state, related, held⟩ goes
    obtain ⟨state', goes', related'⟩ := simulation related held goes
    exact ⟨state', related', potential.keeps held goes'⟩
  lowers := by
    rintro other other' ⟨state, related, held⟩ goes
    obtain ⟨state', goes', related'⟩ := simulation related held goes
    rw [same related, same related']
    exact potential.lowers held goes'
  raises := by
    rintro other other' ⟨state, related, held⟩ fails
    obtain ⟨state', fails', related'⟩ := simulation related held fails
    rw [same related, same related']
    exact potential.raises held fails'

/-- **The work gets done** without another fault, if it can go on until it is. -/
theorem completes {done : σ → Prop}
    (goesOn : ∀ state, inv state → ¬ done state → ∃ state', step state false state') (state : σ)
    (first : inv state) : ∃ steps last, FaultyRun step state steps 0 last ∧ done last := by
  induction h : rank state using Nat.strong_induction_on generalizing state with
  | _ height ih =>
      by_cases finished : done state
      · exact ⟨0, state, .start state, finished⟩
      · obtain ⟨between, goes⟩ := goesOn state first finished
        obtain ⟨steps, last, run, isDone⟩ :=
          ih _ (h ▸ potential.lowers first goes) between (potential.keeps first goes) rfl
        exact ⟨_, last, (FaultyRun.next (.start state) goes).trans run, isDone⟩

end Potential
