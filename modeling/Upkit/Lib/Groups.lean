/-
**Groups of members in a row, and their refinement.**

A row lists members position by position, and each member has a tag. A group is a stretch of the row
whose members share a tag, the last position of the stretch; a member that is alone in its group is
placed, and its position needs the row no longer: a negative number there counts how many positions
from it on are placed.

* `Rearranged` — the row up to an order of a stretch.
* `Segment` — members next to each other that share a tag; `Runs` — a row of groups.
* `Splits` — what refining a segment does; `Splits.trans` — one part after the other.
* `Segment.label` — the step: the first members of a segment become a group of their own.
-/

import Mathlib

namespace Upkit.Groups

open Set

/-! ### The order of a stretch -/

/-- The row has the same members between `start` and `stop`, in any order, and is the same
elsewhere. -/
def Rearranged (start stop : Int) (row row' : Int → Int) : Prop :=
  ∃ order : Equiv.Perm Int, (∀ q, q ∉ Ico start stop → order q = q) ∧ row' = row ∘ order

section Rearranged

variable {start stop : Int} {row row' row'' : Int → Int}

theorem Rearranged.refl : Rearranged start stop row row :=
  ⟨Equiv.refl Int, fun _ _ => rfl, rfl⟩

theorem Rearranged.trans (first : Rearranged start stop row row')
    (second : Rearranged start stop row' row'') : Rearranged start stop row row'' := by
  obtain ⟨order, outside, rfl⟩ := first
  obtain ⟨order', outside', rfl⟩ := second
  refine ⟨order'.trans order, fun q out => ?_, rfl⟩
  rw [Equiv.trans_apply, outside' q out, outside q out]

/-- A part of the stretch. -/
theorem Rearranged.widen {start' stop' : Int} (part : Rearranged start' stop' row row')
    (inside : Ico start' stop' ⊆ Ico start stop) : Rearranged start stop row row' := by
  obtain ⟨order, outside, rfl⟩ := part
  exact ⟨order, fun q out => outside q fun within => out (inside within), rfl⟩

theorem Rearranged.swap {i j : Int} (first : i ∈ Ico start stop) (second : j ∈ Ico start stop) :
    Rearranged start stop row (row ∘ Equiv.swap i j) := by
  refine ⟨Equiv.swap i j, fun q out => Equiv.swap_apply_of_ne_of_ne ?_ ?_, rfl⟩
  · rintro rfl
    exact out first
  · rintro rfl
    exact out second

theorem Rearranged.outside (same : Rearranged start stop row row') {q : Int}
    (out : q ∉ Ico start stop) : row' q = row q := by
  obtain ⟨order, outside, rfl⟩ := same
  rw [Function.comp_apply, outside q out]

/-- An order that leaves the outside alone stays inside. -/
theorem order_mem {order : Equiv.Perm Int} (outside : ∀ q, q ∉ Ico start stop → order q = q)
    (q : Int) : order q ∈ Ico start stop ↔ q ∈ Ico start stop := by
  constructor
  · intro within
    by_contra out
    rw [outside q out] at within
    exact out within
  · intro within
    by_contra out
    have same : order q = q := order.injective (outside _ out)
    rw [same] at out
    exact out within

theorem Rearranged.image (same : Rearranged start stop row row') :
    row' '' Ico start stop = row '' Ico start stop := by
  obtain ⟨order, outside, rfl⟩ := same
  ext member
  constructor
  · rintro ⟨q, within, rfl⟩
    exact ⟨order q, (order_mem outside q).mpr within, rfl⟩
  · rintro ⟨q, within, rfl⟩
    have back : order (order.symm q) = q := order.apply_symm_apply q
    refine ⟨order.symm q, (order_mem outside _).mp (by rw [back]; exact within), ?_⟩
    rw [Function.comp_apply, back]

theorem Rearranged.injOn (same : Rearranged start stop row row')
    (inj : InjOn row (Ico start stop)) : InjOn row' (Ico start stop) := by
  obtain ⟨order, outside, rfl⟩ := same
  intro p inP q inQ equal
  exact order.injective
    (inj ((order_mem outside p).mpr inP) ((order_mem outside q).mpr inQ) equal)

/-- How many of a stretch are of a kind does not depend on the order. -/
theorem Rearranged.card (same : Rearranged start stop row row') (kind : Int → Prop)
    [DecidablePred kind] :
    ((Finset.Ico start stop).filter fun q => kind (row' q)).card =
      ((Finset.Ico start stop).filter fun q => kind (row q)).card := by
  obtain ⟨order, outside, rfl⟩ := same
  refine Finset.card_equiv order fun q => ?_
  have within := order_mem outside q
  rw [mem_Ico, mem_Ico] at within
  rw [Finset.mem_filter, Finset.mem_filter, Finset.mem_Ico, Finset.mem_Ico, within]
  rfl

end Rearranged

/-! ### Segments and rows of groups -/

/-- Members that stand from `start` to before `stop` and share the tag `last`. No other member has a
tag in between. -/
structure Segment (members : Set Int) (row tag : Int → Int) (start stop last : Int) : Prop where
  mem : ∀ q ∈ Ico start stop, row q ∈ members
  tagged : ∀ q ∈ Ico start stop, tag (row q) = last
  inj : InjOn row (Ico start stop)
  owns : ∀ a ∈ members, tag a ∈ Ico start stop → a ∈ row '' Ico start stop
  reach : stop ≤ last + 1

/-- One member, and no other, has this position as its tag. -/
def Placed (members : Set Int) (tag : Int → Int) (position : Int) : Prop :=
  ∃ a ∈ members, tag a = position ∧ ∀ b ∈ members, tag b = position → b = a

/-- The members that share a tag with another one are of a kind. -/
def Apart (members : Set Int) (kind : Int → Prop) (tag : Int → Int) : Prop :=
  ∀ a ∈ members, ∀ b ∈ members, a ≠ b → tag a = tag b → kind a

/-- A row of groups: stretches of placed members, counted by a negative number, and groups of
members of a kind. -/
inductive Runs (members : Set Int) (kind : Int → Prop) (row tag : Int → Int) : Int → Int → Prop
  | nil (start : Int) : Runs members kind row tag start start
  | placed {start stop : Int} (negative : row start < 0)
      (alone : ∀ p ∈ Ico start (start - row start), Placed members tag p)
      (rest : Runs members kind row tag (start - row start) stop) :
      Runs members kind row tag start stop
  | group {start middle stop : Int} (some : start < middle)
      (segment : Segment members row tag start middle (middle - 1))
      (fits : ∀ q ∈ Ico start middle, kind (row q))
      (rest : Runs members kind row tag middle stop) : Runs members kind row tag start stop

variable {members : Set Int} {kind wide : Int → Prop} {row row' row'' tag tag' tag'' : Int → Int}
  {start middle stop last : Int}

theorem Runs.le (runs : Runs members kind row tag start stop) : start ≤ stop := by
  induction runs with
  | nil start => exact le_rfl
  | placed negative _ _ ih => omega
  | group some _ _ _ ih => omega

theorem Runs.append (first : Runs members kind row tag start middle)
    (second : Runs members kind row tag middle stop) : Runs members kind row tag start stop := by
  induction first with
  | nil start => exact second
  | placed negative alone _ ih => exact .placed negative alone (ih second)
  | group some segment fits _ ih => exact .group some segment fits (ih second)

/-- A single place that is counted. -/
theorem Runs.alone {position : Int} (counted : row position = -1)
    (placed : Placed members tag position) :
    Runs members kind row tag position (position + 1) := by
  have stop : position - row position = position + 1 := by
    rw [counted]
    omega
  refine .placed (by rw [counted]; omega) ?_ ?_
  · rw [stop]
    intro p within
    have here : p = position := le_antisymm (Int.lt_add_one_iff.mp within.2) within.1
    rw [here]
    exact placed
  · rw [stop]
    exact .nil _

/-- A stretch keeps its groups where neither the row nor the tags in it change. -/
theorem Segment.frame (segment : Segment members row tag start stop last)
    (rows : ∀ q ∈ Ico start stop, row' q = row q)
    (tags : ∀ a ∈ members, tag a = last ∨ tag' a ∈ Ico start stop → tag' a = tag a) :
    Segment members row' tag' start stop last where
  mem := by
    intro q within
    rw [rows q within]
    exact segment.mem q within
  tagged := by
    intro q within
    have tagged := segment.tagged q within
    rw [rows q within, tags _ (segment.mem q within) (Or.inl tagged), tagged]
  inj := by
    intro p inP q inQ equal
    rw [rows p inP, rows q inQ] at equal
    exact segment.inj inP inQ equal
  owns := by
    intro a member within
    have same := tags a member (Or.inr within)
    rw [same] at within
    obtain ⟨q, inQ, held⟩ := segment.owns a member within
    exact ⟨q, inQ, (rows q inQ).trans held⟩
  reach := segment.reach

theorem Runs.frame (runs : Runs members kind row tag start stop)
    (rows : ∀ q ∈ Ico start stop, row' q = row q)
    (tags : ∀ a ∈ members, tag a ∈ Ico start stop ∨ tag' a ∈ Ico start stop → tag' a = tag a) :
    Runs members kind row' tag' start stop := by
  induction runs with
  | nil start => exact .nil start
  | @placed start stop negative alone rest ih =>
      have further := rest.le
      have same := rows start ⟨le_rfl, by omega⟩
      refine .placed (by rw [same]; exact negative) ?_ ?_
      · intro p within
        rw [same] at within
        have inside : p ∈ Ico start stop := ⟨within.1, within.2.trans_le further⟩
        obtain ⟨a, member, tagged, only⟩ := alone p within
        refine ⟨a, member, ?_, fun b other tagged' => only b other ?_⟩
        · rw [tags a member (Or.inl (by rw [tagged]; exact inside)), tagged]
        · rw [← tags b other (Or.inr (by rw [tagged']; exact inside)), tagged']
      · rw [same]
        have widen : Ico (start - row start) stop ⊆ Ico start stop := Ico_subset_Ico_left (by omega)
        exact ih (fun q within => rows q (widen within))
          fun a member within => tags a member (within.imp (@widen _) (@widen _))
  | @group start middle stop some segment fits rest ih =>
      have further := rest.le
      have first : Ico start middle ⊆ Ico start stop := Ico_subset_Ico_right further
      have widen : Ico middle stop ⊆ Ico start stop := Ico_subset_Ico_left (le_of_lt some)
      refine .group some (segment.frame (fun q within => rows q (first within)) ?_) ?_ ?_
      · intro a member within
        refine tags a member (within.imp (fun tagged => ?_) (@first _))
        rw [tagged]
        exact ⟨by omega, by omega⟩
      · intro q within
        rw [rows q (first within)]
        exact fits q within
      · exact ih (fun q within => rows q (widen within))
          fun a member within => tags a member (within.imp (@widen _) (@widen _))

/-! ### Refining a segment -/

/-- The groups between `start` and `stop` are refined: nothing changes elsewhere, members that share
a tag shared it before, and those that still do are of the kind `wide`. -/
structure Splits (members : Set Int) (wide : Int → Prop) (start stop : Int)
    (row tag row' tag' : Int → Int) : Prop where
  rows : ∀ q, q ∉ Ico start stop → row' q = row q
  kept : ∀ a, a ∉ row '' Ico start stop → tag' a = tag a
  moved : ∀ a ∈ row '' Ico start stop, tag' a ∈ Ico start stop
  refines : ∀ a ∈ members, ∀ b ∈ members, tag' a = tag' b → tag a = tag b
  apart : Apart (row '' Ico start stop) wide tag'
  runs : Runs members wide row' tag' start stop

theorem Apart.refine (apart : Apart members kind tag)
    (refines : ∀ a ∈ members, ∀ b ∈ members, tag' a = tag' b → tag a = tag b) :
    Apart members kind tag' :=
  fun a inA b inB other same => apart a inA b inB other (refines a inA b inB same)

theorem Splits.nil : Splits members wide start start row tag row tag where
  rows := fun _ _ => rfl
  kept := fun _ _ => rfl
  moved := by
    rintro a ⟨q, within, rfl⟩
    exact absurd within.2 (not_lt.mpr within.1)
  refines := fun _ _ _ _ same => same
  apart := by
    rintro a ⟨q, within, rfl⟩
    exact absurd within.2 (not_lt.mpr within.1)
  runs := .nil start

theorem Segment.rearranged (segment : Segment members row tag start stop last)
    (same : Rearranged start stop row row') : Segment members row' tag start stop last := by
  have members' : ∀ q ∈ Ico start stop, ∃ p ∈ Ico start stop, row p = row' q := by
    intro q within
    have member : row' q ∈ row' '' Ico start stop := ⟨q, within, rfl⟩
    rw [same.image] at member
    exact member
  refine ⟨?_, ?_, same.injOn segment.inj, ?_, segment.reach⟩
  · intro q within
    obtain ⟨p, inP, equal⟩ := members' q within
    rw [← equal]
    exact segment.mem p inP
  · intro q within
    obtain ⟨p, inP, equal⟩ := members' q within
    rw [← equal]
    exact segment.tagged p inP
  · rw [same.image]
    exact segment.owns

/-- Reordering a segment first changes nothing about its refinement. -/
theorem Splits.rearranged (same : Rearranged start stop row row')
    (splits : Splits members wide start stop row' tag row'' tag') :
    Splits members wide start stop row tag row'' tag' := by
  obtain ⟨rows, kept, moved, refines, apart, runs⟩ := splits
  rw [same.image] at kept moved apart
  exact ⟨fun q out => (rows q out).trans (same.outside out), kept, moved, refines, apart, runs⟩

/-- The first part of a segment. -/
theorem Segment.first (segment : Segment members row tag start stop last)
    (short : middle < stop) : Segment members row tag start middle last := by
  have inside : Ico start middle ⊆ Ico start stop := Ico_subset_Ico_right (le_of_lt short)
  have reach := segment.reach
  refine ⟨fun q within => segment.mem q (inside within),
    fun q within => segment.tagged q (inside within), segment.inj.mono inside, ?_, by omega⟩
  intro a member within
  obtain ⟨q, inQ, rfl⟩ := segment.owns a member (inside within)
  rw [segment.tagged q inQ, mem_Ico] at within
  omega

/-- The two parts of a segment hold other members. -/
theorem Segment.parts (segment : Segment members row tag start stop last)
    (first : start ≤ middle) (second : middle ≤ stop) {a : Int}
    (inFirst : a ∈ row '' Ico start middle) : a ∉ row '' Ico middle stop := by
  obtain ⟨p, inP, rfl⟩ := inFirst
  rintro ⟨q, inQ, same⟩
  have equal := segment.inj ⟨first.trans inQ.1, inQ.2⟩ ⟨inP.1, inP.2.trans_le second⟩ same
  exact absurd inP.2 (not_lt.mpr (equal ▸ inQ.1))

/-- What is left of a segment when its first part has been refined. -/
theorem Segment.rest (segment : Segment members row tag start stop last)
    (first : start ≤ middle) (second : middle ≤ stop)
    (splits : Splits members wide start middle row tag row' tag') :
    Segment members row' tag' middle stop last := by
  have inside : Ico middle stop ⊆ Ico start stop := Ico_subset_Ico_left first
  have rows : ∀ q ∈ Ico middle stop, row' q = row q := by
    intro q within
    exact splits.rows q fun before => absurd before.2 (not_lt.mpr within.1)
  have tags : ∀ q ∈ Ico middle stop, tag' (row q) = tag (row q) := by
    intro q within
    exact splits.kept _ fun before =>
      segment.parts first second before ⟨q, within, rfl⟩
  refine ⟨?_, ?_, ?_, ?_, segment.reach⟩
  · intro q within
    rw [rows q within]
    exact segment.mem q (inside within)
  · intro q within
    rw [rows q within, tags q within]
    exact segment.tagged q (inside within)
  · intro p inP q inQ equal
    rw [rows p inP, rows q inQ] at equal
    exact segment.inj (inside inP) (inside inQ) equal
  · intro a member within
    have out : a ∉ row '' Ico start middle := by
      intro before
      exact absurd (splits.moved a before).2 (not_lt.mpr within.1)
    rw [splits.kept a out] at within
    obtain ⟨q, inQ, rfl⟩ := segment.owns a member (inside within)
    have later : q ∈ Ico middle stop := by
      refine ⟨?_, inQ.2⟩
      by_contra before
      exact out ⟨q, ⟨inQ.1, not_le.mp before⟩, rfl⟩
    exact ⟨q, later, rows q later⟩

/-- **One part after the other.** -/
theorem Splits.trans (segment : Segment members row tag start stop last)
    (first : start ≤ middle) (second : middle ≤ stop)
    (before : Splits members wide start middle row tag row' tag')
    (after : Splits members wide middle stop row' tag' row'' tag'') :
    Splits members wide start stop row tag row'' tag'' := by
  have rows : ∀ q ∈ Ico middle stop, row' q = row q := by
    intro q within
    exact before.rows q fun early => absurd early.2 (not_lt.mpr within.1)
  have image : row' '' Ico middle stop = row '' Ico middle stop := image_congr rows
  have divided : ∀ a ∈ row '' Ico start stop,
      a ∈ row '' Ico start middle ∨ a ∈ row '' Ico middle stop := by
    rintro a ⟨q, within, rfl⟩
    rcases lt_or_ge q middle with early | late
    · exact Or.inl ⟨q, ⟨within.1, early⟩, rfl⟩
    · exact Or.inr ⟨q, ⟨late, within.2⟩, rfl⟩
  have early : ∀ a ∈ row '' Ico start middle, tag'' a = tag' a := by
    intro a inFirst
    refine after.kept a ?_
    rw [image]
    exact segment.parts first second inFirst
  have late : ∀ a ∈ row '' Ico middle stop, tag'' a ∈ Ico middle stop := by
    intro a inSecond
    exact after.moved a (by rw [image]; exact inSecond)
  have crossed : ∀ a ∈ row '' Ico start middle, ∀ b ∈ row '' Ico middle stop,
      tag'' a ≠ tag'' b := by
    intro a inFirst b inSecond same
    have low := before.moved a inFirst
    have high := late b inSecond
    rw [← same, early a inFirst] at high
    exact absurd low.2 (not_lt.mpr high.1)
  refine ⟨?_, ?_, ?_, ?_, ?_, ?_⟩
  · intro q out
    rw [after.rows q fun within => out ⟨first.trans within.1, within.2⟩,
      before.rows q fun within => out ⟨within.1, within.2.trans_le second⟩]
  · intro a out
    have outFirst : a ∉ row '' Ico start middle :=
      fun within => out (image_mono (Ico_subset_Ico_right second) within)
    have outSecond : a ∉ row' '' Ico middle stop := by
      rw [image]
      exact fun within => out (image_mono (Ico_subset_Ico_left first) within)
    rw [after.kept a outSecond, before.kept a outFirst]
  · intro a within
    rcases divided a within with inFirst | inSecond
    · rw [early a inFirst]
      exact Ico_subset_Ico_right second (before.moved a inFirst)
    · exact Ico_subset_Ico_left first (late a inSecond)
  · exact fun a inA b inB same => before.refines a inA b inB (after.refines a inA b inB same)
  · intro a inA b inB other same
    rcases divided a inA with firstA | secondA
    · rcases divided b inB with firstB | secondB
      · rw [early a firstA, early b firstB] at same
        exact before.apart a firstA b firstB other same
      · exact absurd same (crossed a firstA b secondB)
    · rcases divided b inB with firstB | secondB
      · exact absurd same.symm (crossed b firstB a secondA)
      · exact after.apart a (by rw [image]; exact secondA) b (by rw [image]; exact secondB) other
          same
  · refine (before.runs.frame ?_ ?_).append after.runs
    · intro q within
      exact after.rows q fun late => absurd within.2 (not_lt.mpr late.1)
    · intro a member within
      refine after.kept a ?_
      rw [image]
      rintro ⟨q, inQ, rfl⟩
      rcases within with old | new
      · -- Before the second part its members have the tag of the whole segment.
        have tagged := (segment.rest first second before).tagged q inQ
        rw [rows q inQ] at tagged
        have reach := segment.reach
        have some := inQ.1.trans_lt inQ.2
        rw [tagged] at old
        exact absurd old.2 (by omega)
      · exact absurd new.2 (not_lt.mpr (late _ ⟨q, inQ, rfl⟩).1)

/-- **The step of a refinement.** The first members of a segment get a tag of their own, the
position of the last of them; one that is alone is placed. -/
theorem Segment.label (segment : Segment members row tag start stop last)
    (some : start < middle) (short : middle ≤ stop)
    (tagged : ∀ a ∈ row '' Ico start middle, tag' a = middle - 1)
    (others : ∀ a, a ∉ row '' Ico start middle → tag' a = tag a)
    (fits : ∀ a ∈ row '' Ico start middle, ∀ b ∈ row '' Ico start middle, a ≠ b → wide a) :
    Splits members wide start middle row tag
      (if middle = start + 1 then Function.update row start (-1) else row) tag' := by
  have inside : Ico start middle ⊆ Ico start stop := Ico_subset_Ico_right short
  have reach := segment.reach
  have end' : middle - 1 ∈ Ico start middle := ⟨by omega, by omega⟩
  -- A member outside with the new tag can only be there when the tag is the one of the segment.
  have foreign : ∀ a ∈ members, a ∉ row '' Ico start middle → tag a ∈ Ico start middle → False := by
    intro a member out within
    obtain ⟨q, inQ, rfl⟩ := segment.owns a member (inside within)
    rw [segment.tagged q inQ, mem_Ico] at within
    exact out ⟨q, ⟨inQ.1, by have := inQ.2; omega⟩, rfl⟩
  have owned : ∀ a ∈ members, tag' a ∈ Ico start middle → a ∈ row '' Ico start middle := by
    intro a member within
    by_contra out
    rw [others a out] at within
    exact foreign a member out within
  refine ⟨?_, others, ?_, ?_, ?_, ?_⟩
  · intro q out
    split
    · refine Function.update_of_ne ?_ _ _
      rintro rfl
      exact out ⟨le_rfl, some⟩
    · rfl
  · intro a within
    rw [tagged a within]
    exact end'
  · intro a inA b inB same
    have shared : ∀ c ∈ row '' Ico start middle, tag c = last := by
      rintro c ⟨q, within, rfl⟩
      exact segment.tagged q (inside within)
    by_cases firstA : a ∈ row '' Ico start middle
    · by_cases firstB : b ∈ row '' Ico start middle
      · rw [shared a firstA, shared b firstB]
      · refine absurd (owned b inB ?_) firstB
        rw [← same, tagged a firstA]
        exact end'
    · by_cases firstB : b ∈ row '' Ico start middle
      · refine absurd (owned a inA ?_) firstA
        rw [same, tagged b firstB]
        exact end'
      · rw [others a firstA, others b firstB] at same
        exact same
  · exact fun a inA b inB other _ => fits a inA b inB other
  · by_cases single : middle = start + 1
    · rw [if_pos single]
      have first : row start ∈ row '' Ico start middle := ⟨start, ⟨le_rfl, some⟩, rfl⟩
      have last : tag' (row start) = start := by
        rw [tagged _ first]
        omega
      have here : start ∈ Ico start middle := ⟨le_rfl, some⟩
      rw [single]
      refine .alone (Function.update_self _ _ _)
        ⟨row start, segment.mem start (inside here), last, ?_⟩
      intro b member same
      obtain ⟨q, inQ, rfl⟩ := owned b member (by rw [same]; exact here)
      have only : q = start := le_antisymm (Int.lt_add_one_iff.mp (single ▸ inQ.2)) inQ.1
      rw [only]
    · rw [if_neg single]
      refine .group some ⟨?_, ?_, segment.inj.mono inside, owned, by omega⟩ ?_ (.nil middle)
      · exact fun q within => segment.mem q (inside within)
      · exact fun q within => tagged _ ⟨q, within, rfl⟩
      · intro q within
        -- Another member of the group stands next to this one.
        obtain ⟨p, inP, other⟩ : ∃ p ∈ Ico start middle, p ≠ q := by
          by_cases first : q = start
          · exact ⟨start + 1, ⟨by omega, by omega⟩, by omega⟩
          · exact ⟨start, ⟨le_rfl, some⟩, Ne.symm first⟩
        exact fits _ ⟨q, within, rfl⟩ _ ⟨p, inP, rfl⟩ fun same =>
          other (segment.inj (inside inP) (inside within) same.symm)

/-! ### Rows around a segment -/

/-- Refining a segment leaves a row of groups elsewhere as it is. -/
theorem Splits.frame {low high : Int} (splits : Splits members wide start stop row tag row' tag')
    (tagged : ∀ a ∈ row '' Ico start stop, tag a ∈ Ico start stop)
    (apart : high ≤ start ∨ stop ≤ low) (runs : Runs members kind row tag low high) :
    Runs members kind row' tag' low high := by
  have outside : ∀ q, q ∈ Ico low high → q ∉ Ico start stop := by
    rintro q ⟨lower, upper⟩ ⟨first, last⟩
    omega
  refine runs.frame (fun q within => splits.rows q (outside q within)) fun a _ within => ?_
  refine splits.kept a fun segment => ?_
  rcases within with old | new
  · exact outside _ old (tagged a segment)
  · exact outside _ new (splits.moved a segment)

/-- In a row of groups two members with the same tag are of its kind. -/
theorem Runs.apart (runs : Runs members kind row tag start stop) {a b : Int} (inA : a ∈ members)
    (inB : b ∈ members) (other : a ≠ b) (same : tag a = tag b) (within : tag a ∈ Ico start stop) :
    kind a := by
  induction runs with
  | nil start => exact absurd within.2 (not_lt.mpr within.1)
  | placed negative alone rest ih =>
      rename_i start stop
      by_cases here : tag a < start - row start
      · obtain ⟨_, _, _, only⟩ := alone (tag a) ⟨within.1, here⟩
        exact absurd ((only a inA rfl).trans (only b inB same.symm).symm) other
      · exact ih ⟨not_lt.mp here, within.2⟩
  | group some segment fits rest ih =>
      rename_i start middle stop
      by_cases here : tag a < middle
      · obtain ⟨q, inQ, held⟩ := segment.owns a inA ⟨within.1, here⟩
        rw [← held]
        exact fits q inQ
      · exact ih ⟨not_lt.mp here, within.2⟩

end Upkit.Groups
