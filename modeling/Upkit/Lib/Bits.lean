/-
**Numbers as bits, the most significant first.**

* `ofBits` — the number that bits make when they are shifted in one after the other.
* `toBits` — the bits of a number, in a given width.
* `ofBits_toBits`, `toBits_ofBits` — the two are inverse on numbers that fit.
-/

import Mathlib.Data.Nat.Basic
import Mathlib.Tactic.Ring

namespace Bits

/-- Shift bits into a number. -/
def ofBits (start : Nat) (bits : List Bool) : Nat :=
  bits.foldl (fun value bit => 2 * value + bit.toNat) start

/-- The `width` low bits of a number. -/
def toBits : (width value : Nat) → List Bool
  | 0, _ => []
  | width + 1, value => value.testBit width :: toBits width value

theorem ofBits_nil (start : Nat) : ofBits start [] = start := rfl

theorem ofBits_cons (start : Nat) (bit : Bool) (bits : List Bool) :
    ofBits start (bit :: bits) = ofBits (2 * start + bit.toNat) bits := rfl

theorem ofBits_append (start : Nat) (first second : List Bool) :
    ofBits start (first ++ second) = ofBits (ofBits start first) second := by
  rw [ofBits, ofBits, ofBits, List.foldl_append]

@[simp] theorem toBits_length (width value : Nat) : (toBits width value).length = width := by
  induction width with
  | zero => rfl
  | succ width ih => rw [toBits, List.length_cons, ih]

/-- Bits shifted in stand below what was there. -/
theorem ofBits_start (start : Nat) (bits : List Bool) :
    ofBits start bits = start * 2 ^ bits.length + ofBits 0 bits := by
  induction bits generalizing start with
  | nil => rw [ofBits_nil, ofBits_nil, List.length_nil, pow_zero, Nat.mul_one, Nat.add_zero]
  | cons bit bits ih =>
      rw [ofBits_cons, ofBits_cons, ih, ih (2 * 0 + bit.toNat), List.length_cons, pow_succ]
      ring

theorem ofBits_lt (bits : List Bool) : ofBits 0 bits < 2 ^ bits.length := by
  induction bits with
  | nil => exact Nat.one_pos
  | cons bit bits ih =>
      have digit : bit.toNat ≤ 1 := Bool.toNat_le bit
      have high : bit.toNat * 2 ^ bits.length ≤ 1 * 2 ^ bits.length :=
        Nat.mul_le_mul_right _ digit
      rw [ofBits_cons, ofBits_start, Nat.mul_zero, Nat.zero_add, List.length_cons, pow_succ]
      omega

theorem ofBits_zeros (count : Nat) : ofBits 0 (List.replicate count false) = 0 := by
  induction count with
  | zero => rfl
  | succ count ih =>
      rw [List.replicate_succ, ofBits_cons]
      exact ih

/-- **What a number's bits make.** -/
theorem ofBits_toBits (width value : Nat) : ofBits 0 (toBits width value) = value % 2 ^ width := by
  induction width with
  | zero => rw [toBits, ofBits_nil, pow_zero, Nat.mod_one]
  | succ width ih =>
      have low : value % 2 ^ (width + 1) =
          value % 2 ^ width + 2 ^ width * (value.testBit width).toNat := by
        rw [Nat.mod_pow_succ, Nat.toNat_testBit]
      rw [toBits, ofBits_cons, ofBits_start, ih, toBits_length, low]
      ring

theorem ofBits_toBits_small {width value : Nat} (small : value < 2 ^ width) :
    ofBits 0 (toBits width value) = value := by
  rw [ofBits_toBits, Nat.mod_eq_of_lt small]

/-- The low bits do not depend on what stands above them. -/
theorem toBits_add (width high low : Nat) :
    toBits width (high * 2 ^ width + low) = toBits width low := by
  induction width generalizing high with
  | zero => rfl
  | succ width ih =>
      have shifted : high * 2 ^ (width + 1) + low = (2 * high) * 2 ^ width + low := by
        rw [pow_succ]
        ring
      have bit : (high * 2 ^ (width + 1) + low).testBit width = low.testBit width := by
        rw [Nat.add_comm, Nat.mul_comm, Nat.testBit_eq_decide_div_mod_eq,
          Nat.testBit_eq_decide_div_mod_eq, pow_succ, Nat.mul_assoc,
          Nat.add_mul_div_left _ _ (Nat.two_pow_pos width), Nat.add_mul_mod_self_left]
      rw [toBits, toBits, bit, shifted, ih]

/-- **The bits that made a number.** -/
theorem toBits_ofBits (bits : List Bool) : toBits bits.length (ofBits 0 bits) = bits := by
  induction bits with
  | nil => rfl
  | cons bit bits ih =>
      have top : (ofBits 0 (bit :: bits)).testBit bits.length = bit := by
        rw [ofBits_cons, ofBits_start, Nat.mul_zero, Nat.zero_add, Nat.testBit_eq_decide_div_mod_eq,
          Nat.mul_comm, Nat.add_comm, Nat.add_mul_div_left _ _ (Nat.two_pow_pos _),
          Nat.div_eq_of_lt (ofBits_lt bits), Nat.zero_add]
        cases bit with
        | false => rfl
        | true => rfl
      rw [List.length_cons, toBits, top, ofBits_cons, ofBits_start, toBits_add, ih]

end Bits
