/-
**The rounds of the sorting, and what they end with.**

* `roundLoop_refines` — a round by `h` bytes: suffixes that are still in one group have twice as
  many bytes, and a round that finds no group says so in `I`.
* `sortLoop_places` — the rounds end, and then every position belongs to one suffix.
-/

import Upkit.Tool.Qsufsort

namespace Upkit

open Set Groups

/-! ### A round -/

/-- The suffixes in groups: those of one group have their first `h` bytes, and a group is a place of
the row. -/
structure Grouped (n h : Int) (I V : Int → Int) : Prop where
  runs : Runs (places n) (Long n h) I V 0 (n + 1)
  tags : ∀ a ∈ places n, V a ∈ places n

/-- A round at the position `i`, after `len` places that belong to one suffix each. -/
structure RoundAt (n h i len : Int) (I V : Int → Int) : Prop where
  done : Runs (places n) (Long n (h + h)) I V 0 (i - len)
  pending : ∀ p ∈ Ico (i - len) i, Placed (places n) V p
  rest : Runs (places n) (Long n h) I V i (n + 1)
  apart : Apart (places n) (Long n h) V
  tags : ∀ a ∈ places n, V a ∈ places n
  nonneg : 0 ≤ len
  short : n < h → len = i

section Round

variable {n h i len : Int} {I V : Int → Int}

theorem Grouped.apart (grouped : Grouped n h I V) : Apart (places n) (Long n h) V :=
  fun a inA _ inB other same => grouped.runs.apart inA inB other same
    ⟨(grouped.tags a inA).1, Int.lt_add_one_of_le (grouped.tags a inA).2⟩

theorem Grouped.start (grouped : Grouped n h I V) : RoundAt n h 0 0 I V where
  done := .nil 0
  pending := fun _ within => absurd within.2 (not_lt.mpr within.1)
  rest := grouped.runs
  apart := grouped.apart
  tags := grouped.tags
  nonneg := le_rfl
  short := fun _ => rfl

theorem closeRun_other (I : Int → Int) {q : Int} (nonneg : 0 ≤ len) (later : i ≤ q) :
    closeRun i len I q = I q := by
  unfold closeRun
  split_ifs with some
  · exact Function.update_of_ne (by omega) _ _
  · rfl

/-- The places before a group are counted. -/
theorem RoundAt.close (round : RoundAt n h i len I V) :
    Runs (places n) (Long n (h + h)) (closeRun i len I) V 0 i ∧
      Runs (places n) (Long n h) (closeRun i len I) V i (n + 1) := by
  have nonneg := round.nonneg
  constructor
  · by_cases some : len ≠ 0
    · unfold closeRun
      rw [if_pos some]
      have before : Runs (places n) (Long n (h + h)) (Function.update I (i - len) (-len)) V 0
          (i - len) :=
        round.done.frame (fun q within => Function.update_of_ne (ne_of_lt within.2) _ _)
          fun _ _ _ => rfl
      have count : Function.update I (i - len) (-len) (i - len) = -len := Function.update_self _ _ _
      have whole : i - len - Function.update I (i - len) (-len) (i - len) = i := by
        rw [count]
        omega
      refine before.append (.placed (by rw [count]; omega) ?_ ?_)
      · rw [whole]
        exact round.pending
      · rw [whole]
        exact .nil i
    · have none : len = 0 := not_not.mp some
      have done := round.done
      rw [none, sub_zero] at done
      unfold closeRun
      rw [if_neg some]
      exact done
  · exact round.rest.frame (fun q within => closeRun_other I nonneg within.1) fun _ _ _ => rfl

/-- **A step of a round** over a group, which `split` refines. -/
theorem RoundAt.group {middle : Int} {I' V' : Int → Int} (round : RoundAt n h i len I V)
    (some : i < middle)
    (segment : Segment (places n) (closeRun i len I) V i middle (middle - 1))
    (fits : ∀ q ∈ Ico i middle, Long n h (closeRun i len I q))
    (rest : Runs (places n) (Long n h) (closeRun i len I) V middle (n + 1))
    (refined : Refined n h i middle (closeRun i len I) V I' V') : RoundAt n h middle 0 I' V' := by
  have tagged : ∀ a ∈ closeRun i len I '' Ico i middle, V a ∈ Ico i middle := by
    rintro a ⟨q, within, rfl⟩
    rw [segment.tagged q within]
    exact ⟨by omega, by omega⟩
  refine ⟨?_, ?_, ?_, round.apart.refine refined.refines, ?_, le_rfl, ?_⟩
  · rw [sub_zero]
    exact (refined.frame tagged (Or.inl le_rfl) round.close.1).append refined.runs
  · rintro p ⟨lower, upper⟩
    omega
  · exact refined.frame tagged (Or.inr le_rfl) rest
  · intro a member
    by_cases inside : a ∈ closeRun i len I '' Ico i middle
    · have moved := refined.moved a inside
      have low := round.close.1.le
      have high := rest.le
      exact ⟨low.trans moved.1, by have := moved.2; omega⟩
    · rw [refined.kept a inside]
      exact round.tags a member
  · intro short
    have here : i ∈ Ico i middle := ⟨le_rfl, some⟩
    have low := (segment.mem i here).1
    have long : closeRun i len I i + h ≤ n := fits i here
    omega

/-- **A step of a round** over places that are counted. -/
theorem RoundAt.count (round : RoundAt n h i len I V) (counted : I i < 0) (more : i < n + 1) :
    RoundAt n h (i - I i) (len - I i) I V := by
  have same : i - I i - (len - I i) = i - len := by omega
  have nonneg := round.nonneg
  have short := round.short
  cases round.rest with
  | nil => exact absurd more (lt_irrefl _)
  | placed negative alone rest =>
      refine ⟨?_, ?_, rest, round.apart, round.tags, by omega, by omega⟩
      · rw [same]
        exact round.done
      · rw [same]
        rintro p ⟨lower, upper⟩
        by_cases old : p < i
        · exact round.pending p ⟨lower, old⟩
        · exact alone p ⟨not_lt.mp old, upper⟩
  | group some segment =>
      exact absurd (segment.mem i ⟨le_rfl, some⟩).1 (not_le.mpr counted)

/-- **A round** ends, and refines every group. -/
theorem roundLoop_refines {fuel : Nat} (nonneg : 0 ≤ n) (positive : 0 ≤ h)
    (round : RoundAt n h i len I V) (enough : n + 1 - i < fuel) :
    ∃ I' V', roundLoop n h fuel i len I V = some (I', V') ∧ Grouped n (h + h) I' V' ∧
      (n < h → I' 0 = -(n + 1)) := by
  induction fuel generalizing i len I V with
  | zero =>
      have high := round.rest.le
      exact absurd enough (by push_cast; omega)
  | succ fuel ih =>
      push_cast at enough
      rw [roundLoop]
      by_cases more : i < n + 1
      · rw [if_pos more]
        by_cases counted : I i < 0
        · rw [if_pos counted]
          exact ih (round.count counted more) (by omega)
        · rw [if_neg counted]
          have here := closeRun_other I round.nonneg (le_refl i)
          cases round.close.2 with
          | nil => exact absurd more (lt_irrefl _)
          | placed negative =>
              rw [here] at negative
              exact absurd negative counted
          | @group _ middle _ some segment fits rest =>
              have width : V (closeRun i len I i) + 1 - i = middle - i := by
                rw [segment.tagged i ⟨le_rfl, some⟩]
                omega
              have whole : i + (middle - i) = middle := by omega
              have ready : Splittable n h (closeRun i len I) V i (i + (middle - i))
                  (middle - 1) := by
                rw [whole]
                exact ⟨segment, fits, round.apart⟩
              obtain ⟨I', V', equation, refined⟩ := split_splits positive ready (by omega)
                (show middle - i < (((middle - i).toNat + 1 : Nat) : Int) by push_cast; omega)
              rw [whole] at refined
              have next := round.group some segment fits rest refined
              simp only [width, equation, Option.bind_eq_bind, Option.bind_some, whole]
              exact ih next (by omega)
      · have ended : i = n + 1 := le_antisymm round.rest.le (not_lt.mp more)
        have closed := round.close.1
        rw [if_neg more]
        refine ⟨_, _, rfl, ⟨?_, round.tags⟩, ?_⟩
        · rw [← ended]
          exact closed
        · intro short
          rw [round.short short, closeRun, sub_self, if_pos (by omega), Function.update_self, ended]

end Round

/-! ### All rounds -/

section Rounds

variable {n h : Int} {I V : Int → Int}

/-- Every position belongs to one suffix when the row says so. -/
theorem Grouped.placed (grouped : Grouped n h I V) (nonneg : 0 ≤ n) (all : I 0 = -(n + 1)) :
    ∀ p ∈ places n, Placed (places n) V p := by
  rintro p ⟨lower, upper⟩
  have runs := grouped.runs
  generalize whole : n + 1 = top at runs
  cases runs with
  | nil => omega
  | placed negative alone rest => exact alone p ⟨lower, by omega⟩
  | group some segment => exact absurd (segment.mem 0 ⟨le_rfl, some⟩).1 (by omega)

/-- **The rounds** end with every position belonging to one suffix. -/
theorem sortLoop_places {fuel : Nat} (nonneg : 0 ≤ n) (positive : 1 ≤ h)
    (grouped : Grouped n h I V)
    (enough : I 0 = -(n + 1) ∧ 1 ≤ fuel ∨ 2 ≤ fuel ∧ n - h + 3 ≤ fuel) :
    ∃ I' V', sortLoop n fuel h I V = some (I', V') ∧
      (∀ p ∈ places n, Placed (places n) V' p) ∧ ∀ a ∈ places n, V' a ∈ places n := by
  induction fuel generalizing h I V with
  | zero => omega
  | succ fuel ih =>
      rw [sortLoop]
      by_cases sorted : I 0 = -(n + 1)
      · rw [if_neg (not_not.mpr sorted)]
        exact ⟨I, V, rfl, grouped.placed nonneg sorted, grouped.tags⟩
      · rw [if_pos sorted]
        obtain ⟨I', V', equation, refined, last⟩ := roundLoop_refines nonneg (by omega)
          grouped.start (show n + 1 - 0 < ((n.toNat + 2 : Nat) : Int) by push_cast; omega)
        simp only [equation, Option.bind_eq_bind, Option.bind_some]
        refine ih (by omega) refined ?_
        by_cases long : n < h
        · exact Or.inl ⟨last long, by omega⟩
        · exact Or.inr ⟨by omega, by push_cast at enough; omega⟩

/-- The last loop finds the suffix of a position. -/
theorem invertLoop_place (I : Int → Int) {count : Nat} {p : Int} (held : ∃ a < count, V a = p) :
    ∃ a < count, V a = p ∧ invertLoop V count I p = a := by
  induction count with
  | zero =>
      obtain ⟨a, below, _⟩ := held
      exact absurd below (Nat.not_lt_zero a)
  | succ count ih =>
      rw [invertLoop, Function.update_apply]
      by_cases last : p = V count
      · rw [if_pos last]
        exact ⟨count, Nat.lt_succ_self count, last.symm, rfl⟩
      · rw [if_neg last]
        obtain ⟨a, below, at'⟩ := held
        have other : a ≠ count := by
          rintro rfl
          exact last at'.symm
        obtain ⟨b, before, found⟩ := ih ⟨a, by omega, at'⟩
        exact ⟨b, by omega, found⟩

end Rounds

end Upkit
