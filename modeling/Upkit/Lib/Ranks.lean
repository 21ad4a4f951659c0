/-
**Ranked places of which one may be rewritten.**

Every place holds something of some rank. A place may be opened when another one ranks at least as
high, and an open place may be given any rank, as often as one likes. Places may be rearranged as long
as no rank gets lost, and from time to time the highest rank is drawn.

* `Ranks.Guarded` — the invariant: what has been drawn is still matched outside the open place.
* `Ranks.drawn_sorted` — so what is drawn never goes down.
-/

import Upkit.Lib.Runs
import Mathlib.Logic.Function.Basic
import Mathlib.Order.Lattice

/-- The ranks of the places, the open place, and what has been drawn, the latest first. -/
structure Ranks (ι α : Type*) where
  rank : ι → α
  opened : Option ι
  drawn : List α

namespace Ranks

variable {ι α : Type*} [DecidableEq ι] [LinearOrder α]

/-- What may happen to the places. -/
inductive Step : Ranks ι α → Ranks ι α → Prop
  /-- Before anything is drawn, anything may happen. -/
  | restart {places : Ranks ι α} (rank : ι → α) : places.drawn = [] →
      Step places ⟨rank, none, []⟩
  | opens {places : Ranks ι α} (place other : ι) : place ≠ other →
      places.rank place ≤ places.rank other → Step places { places with opened := some place }
  | writes {places : Ranks ι α} (place : ι) (value : α) : places.opened = some place →
      Step places { places with rank := Function.update places.rank place value }
  | closes {places : Ranks ι α} : Step places { places with opened := none }
  | moves {places : Ranks ι α} (rank : ι → α) : (∀ place, ∃ other, places.rank place ≤ rank other) →
      Step places ⟨rank, none, places.drawn⟩
  | draws {places : Ranks ι α} (place : ι) : places.opened = none →
      (∀ other, places.rank other ≤ places.rank place) →
      Step places { places with drawn := places.rank place :: places.drawn }

/-- The system of ranked places. -/
def system : TransitionSystem (Ranks ι α) := ⟨fun places => places.drawn = [], Step⟩

/-- What has been drawn is matched by a place that is not open, and nothing drawn later is lower. -/
structure Guarded (places : Ranks ι α) : Prop where
  matched : ∀ value ∈ places.drawn, ∃ place, places.opened ≠ some place ∧ value ≤ places.rank place
  sorted : places.drawn.Pairwise (· ≥ ·)

/-- **Every step keeps the guard.** -/
theorem Guarded.step {places places' : Ranks ι α} (guarded : Guarded places)
    (step : Step places places') : Guarded places' := by
  obtain ⟨matched, sorted⟩ := guarded
  cases step with
  | restart rank nothing => exact ⟨fun _ member => absurd member List.not_mem_nil, List.Pairwise.nil⟩
  | opens place other apart below =>
      refine ⟨fun value member => ?_, sorted⟩
      obtain ⟨keeper, _, covers⟩ := matched value member
      by_cases same : keeper = place
      · subst same
        exact ⟨other, fun isOpen => apart (Option.some.inj isOpen), le_trans covers below⟩
      · exact ⟨keeper, fun isOpen => same (Option.some.inj isOpen).symm, covers⟩
  | writes place value isOpen =>
      refine ⟨fun other member => ?_, sorted⟩
      obtain ⟨keeper, closed, covers⟩ := matched other member
      have apart : keeper ≠ place := by
        rintro rfl
        exact closed isOpen
      exact ⟨keeper, closed, le_of_le_of_eq covers (Function.update_of_ne apart _ _).symm⟩
  | closes =>
      refine ⟨fun value member => ?_, sorted⟩
      obtain ⟨keeper, _, covers⟩ := matched value member
      exact ⟨keeper, (Option.some_ne_none _).symm, covers⟩
  | moves rank kept =>
      refine ⟨fun value member => ?_, sorted⟩
      obtain ⟨keeper, _, covers⟩ := matched value member
      obtain ⟨other, above⟩ := kept keeper
      exact ⟨other, (Option.some_ne_none _).symm, le_trans covers above⟩
  | draws place closed highest =>
      have shut : places.opened ≠ some place := by
        rw [closed]
        exact (Option.some_ne_none place).symm
      refine ⟨fun value member => ?_, List.pairwise_cons.mpr ⟨fun value member => ?_, sorted⟩⟩
      · rcases List.mem_cons.mp member with rfl | before
        · exact ⟨place, shut, le_rfl⟩
        · exact matched value before
      · obtain ⟨keeper, _, covers⟩ := matched value member
        exact le_trans covers (highest keeper)

/-- **What is drawn never goes down**, in any run. -/
theorem drawn_sorted {places : Ranks ι α} (reached : system.Reachable places) :
    places.drawn.Pairwise (· ≥ ·) := by
  have guarded : Guarded places := reached.holds
    (fun places nothing => ⟨fun value member => by
      rw [show places.drawn = [] from nothing] at member
      exact absurd member List.not_mem_nil, by
      rw [show places.drawn = [] from nothing]
      exact List.Pairwise.nil⟩)
    (fun _ _ guarded step => guarded.step step)
  exact guarded.sorted

end Ranks
