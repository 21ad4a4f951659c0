/-
**A ring that holds the end of a text.**

A ring of `size` places is filled with a text place by place, each item at its position modulo the
size. It then holds the last `size` items that were written.

* `Holds` — an item is read back as long as it is at most `size` behind.
* `Holds.store` — writing the next item.
-/

import Mathlib.Logic.Function.Basic

namespace Window

variable {α : Type} {size : Nat} {ring text : Nat → α} {position : Nat}

/-- The ring holds the text up to a position, as far back as it reaches. -/
def Holds (size : Nat) (ring text : Nat → α) (position : Nat) : Prop :=
  ∀ place, place < position → position ≤ place + size → ring (place % size) = text place

/-- **The next item** takes the place of the oldest one. -/
theorem Holds.store (holds : Holds size ring text position) :
    Holds size (Function.update ring (position % size) (text position)) text (position + 1) := by
  intro place before near
  by_cases last : place = position
  · rw [last, Function.update_self]
  · have apart : place % size ≠ position % size := by
      intro same
      have close : (position - place) % size = 0 := Nat.sub_mod_eq_zero_of_mod_eq same.symm
      rw [Nat.mod_eq_of_lt (by omega)] at close
      omega
    rw [Function.update_of_ne apart]
    exact holds place (by omega) (by omega)

end Window
