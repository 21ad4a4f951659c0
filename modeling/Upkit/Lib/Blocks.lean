/-
**Re-blocking a stream.**

A stage that collects a stream into blocks of `size` items and hands a block on only when the next
item arrives has handed on, after any input, the blocks `fullBlocks size input` and holds back
`heldBack size input`. The two are a function of the whole input, however it was split:

* `fullBlocks_flatten_append` — together they are the input.
* `heldBack_length_le` — at most `size` items are held back.
* `fullBlocks_append`, `heldBack_append` — feeding more input to what is held back.
-/

import Mathlib.Data.List.Basic

namespace Blocks

variable {α : Type} (size : Nat)

/-- The blocks handed on, and what is held back, after at most `fuel` blocks. -/
def cut : Nat → List α → List (List α) × List α
  | 0, input => ([], input)
  | fuel + 1, input =>
      if input.length ≤ size then ([], input)
      else
        let rest := cut fuel (input.drop size)
        (input.take size :: rest.1, rest.2)

/-- The blocks handed on. -/
def fullBlocks (input : List α) : List (List α) := (cut size input.length input).1

/-- What is held back. -/
def heldBack (input : List α) : List α := (cut size input.length input).2

variable {size}

theorem cut_enough (positive : 0 < size) (input : List α) :
    ∀ fuel, input.length ≤ fuel → cut size fuel input = cut size input.length input := by
  induction h : input.length using Nat.strongRecOn generalizing input with
  | ind length ih =>
      subst h
      intro fuel enough
      cases fuel with
      | zero =>
          have empty : input.length = 0 := by omega
          rw [empty]
      | succ fuel =>
          by_cases short : input.length ≤ size
          · cases length : input.length with
            | zero => simp [cut, length]
            | succ count => simp only [cut, if_pos short]
          · obtain ⟨count, length⟩ : ∃ count, input.length = count + 1 := ⟨input.length - 1, by omega⟩
            have shorter : (input.drop size).length < input.length := by
              rw [List.length_drop]
              omega
            rw [length]
            simp only [cut, if_neg short]
            rw [ih _ shorter _ rfl fuel (by rw [List.length_drop]; omega),
              ih _ shorter _ rfl count (by rw [List.length_drop]; omega)]

theorem fullBlocks_short {input : List α} (short : input.length ≤ size) :
    fullBlocks size input = [] := by
  unfold fullBlocks
  cases length : input.length with
  | zero => rfl
  | succ count => rw [cut, if_pos short]

theorem heldBack_short {input : List α} (short : input.length ≤ size) :
    heldBack size input = input := by
  unfold heldBack
  cases length : input.length with
  | zero => rfl
  | succ count => rw [cut, if_pos short]

theorem fullBlocks_long (positive : 0 < size) {input : List α} (long : size < input.length) :
    fullBlocks size input = input.take size :: fullBlocks size (input.drop size) := by
  unfold fullBlocks
  obtain ⟨count, length⟩ : ∃ count, input.length = count + 1 := ⟨input.length - 1, by omega⟩
  rw [length, cut, if_neg (by omega)]
  simp only
  rw [cut_enough positive _ count (by rw [List.length_drop]; omega)]

theorem heldBack_long (positive : 0 < size) {input : List α} (long : size < input.length) :
    heldBack size input = heldBack size (input.drop size) := by
  unfold heldBack
  obtain ⟨count, length⟩ : ∃ count, input.length = count + 1 := ⟨input.length - 1, by omega⟩
  rw [length, cut, if_neg (by omega)]
  simp only
  rw [cut_enough positive _ count (by rw [List.length_drop]; omega)]

/-- Induction along the blocks of an input. -/
theorem block_induction {motive : List α → Prop} (positive : 0 < size)
    (short : ∀ input, input.length ≤ size → motive input)
    (long : ∀ input, size < input.length → motive (input.drop size) → motive input) :
    ∀ input, motive input := by
  intro input
  induction h : input.length using Nat.strongRecOn generalizing input with
  | ind length ih =>
      subst h
      by_cases few : input.length ≤ size
      · exact short input few
      · exact long input (by omega) (ih _ (by rw [List.length_drop]; omega) _ rfl)

/-- **Nothing is lost**: the blocks and what is held back are the input. -/
theorem fullBlocks_flatten_append (positive : 0 < size) (input : List α) :
    (fullBlocks size input).flatten ++ heldBack size input = input := by
  induction input using block_induction positive with
  | short input few => rw [fullBlocks_short few, heldBack_short few]; rfl
  | long input many ih =>
      rw [fullBlocks_long positive many, heldBack_long positive many, List.flatten_cons,
        List.append_assoc, ih, List.take_append_drop]

theorem heldBack_length_le (positive : 0 < size) (input : List α) :
    (heldBack size input).length ≤ size := by
  induction input using block_induction positive with
  | short input few => rwa [heldBack_short few]
  | long input many ih => rwa [heldBack_long positive many]

/-- Something is held back of every input. -/
theorem heldBack_ne_nil (positive : 0 < size) {input : List α} (some : input ≠ []) :
    heldBack size input ≠ [] := by
  induction input using block_induction positive with
  | short input few => rwa [heldBack_short few]
  | long input many ih =>
      rw [heldBack_long positive many]
      refine ih (List.ne_nil_of_length_pos ?_)
      rw [List.length_drop]
      omega

/-- Every block handed on is full. -/
theorem fullBlocks_length (positive : 0 < size) (input : List α) :
    ∀ block ∈ fullBlocks size input, block.length = size := by
  induction input using block_induction positive with
  | short input few =>
      rw [fullBlocks_short few]
      exact fun _ member => absurd member List.not_mem_nil
  | long input many ih =>
      rw [fullBlocks_long positive many]
      intro block member
      rcases List.mem_cons.mp member with rfl | later
      · rw [List.length_take]
        omega
      · exact ih block later

/-- The blocks after more input: those handed on already, then those of what was held back. -/
theorem fullBlocks_append (positive : 0 < size) (input more : List α) :
    fullBlocks size (input ++ more) =
      fullBlocks size input ++ fullBlocks size (heldBack size input ++ more) := by
  induction input using block_induction positive with
  | short input few => rw [fullBlocks_short few, heldBack_short few, List.nil_append]
  | long input many ih =>
      rw [fullBlocks_long positive (by rw [List.length_append]; omega),
        fullBlocks_long positive many, heldBack_long positive many,
        List.take_append_of_le_length (by omega), List.drop_append_of_le_length (by omega), ih,
        List.cons_append]

theorem heldBack_append (positive : 0 < size) (input more : List α) :
    heldBack size (input ++ more) = heldBack size (heldBack size input ++ more) := by
  induction input using block_induction positive with
  | short input few => rw [heldBack_short few]
  | long input many ih =>
      rw [heldBack_long positive (by rw [List.length_append]; omega), heldBack_long positive many,
        List.drop_append_of_le_length (by omega), ih]

/-- The items handed on are a prefix of the input. -/
theorem fullBlocks_flatten_length_le (positive : 0 < size) (input : List α) :
    (fullBlocks size input).flatten.length ≤ input.length := by
  have whole := congrArg List.length (fullBlocks_flatten_append positive input)
  rw [List.length_append] at whole
  omega

/-- How many items are handed on. -/
theorem fullBlocks_flatten_length (positive : 0 < size) (input : List α) :
    (fullBlocks size input).flatten.length = (input.length - 1) / size * size := by
  induction input using block_induction positive with
  | short input few =>
      have none : (input.length - 1) / size = 0 := Nat.div_eq_of_lt (by omega)
      rw [fullBlocks_short few, none, Nat.zero_mul]
      rfl
  | long input many ih =>
      have count : input.length - 1 = (input.drop size).length - 1 + size := by
        rw [List.length_drop]
        omega
      rw [fullBlocks_long positive many, List.flatten_cons, List.length_append, ih, count,
        Nat.add_div_right _ positive, Nat.succ_mul, List.length_take,
        Nat.min_eq_left (by omega)]
      exact Nat.add_comm _ _

end Blocks
