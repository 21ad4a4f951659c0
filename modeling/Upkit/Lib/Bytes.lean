/-
**Byte strings: little-endian numbers, ranges of an address space, and splices.**

Two views of stored bytes are used throughout. A *byte string* is a `List UInt8`; an *address
space* is a function `Nat → UInt8`. The module relates the two:

* `ofLE`, `toLE` — little-endian numbers and their bytes; `ofLE_toLE` and `toLE_ofLE` are the
  round trips.
* `readRange`, `writeRange` — the bytes of a range and the space with a range overwritten;
  `readRange_writeRange_self`, `readRange_writeRange_disjoint` and `writeRange_append` say how they
  compose.
* `splice` — a byte string with a range overwritten in place; `splice_splice_adjacent` joins two
  adjacent splices.
-/

import Mathlib.Data.List.GetD
import Mathlib.Tactic.Ring

namespace Bytes

/-! ### Little-endian numbers -/

/-- The number a byte string spells, least significant byte first. -/
def ofLE : List UInt8 → Nat
  | [] => 0
  | byte :: rest => byte.toNat + 256 * ofLE rest

/-- The `width` low bytes of a number, least significant byte first. -/
def toLE : Nat → Nat → List UInt8
  | 0, _ => []
  | width + 1, value => UInt8.ofNat (value % 256) :: toLE width (value / 256)

@[simp] theorem toLE_length (width value : Nat) : (toLE width value).length = width := by
  induction width generalizing value with
  | zero => rfl
  | succ width ih => simp [toLE, ih]

theorem toLE_four (value : Nat) : (toLE 4 value).length = 4 :=
  toLE_length 4 value

theorem ofLE_lt (bytes : List UInt8) : ofLE bytes < 256 ^ bytes.length := by
  induction bytes with
  | nil => simp [ofLE]
  | cons byte rest ih =>
      have small : byte.toNat < 256 := byte.toNat_lt
      rw [ofLE, List.length_cons, pow_succ]
      omega

/-- A number below `256 ^ width` is spelled by its `width` low bytes. -/
theorem ofLE_toLE {width value : Nat} (small : value < 256 ^ width) :
    ofLE (toLE width value) = value := by
  induction width generalizing value with
  | zero => simp [pow_zero] at small; simp [toLE, ofLE, small]
  | succ width ih =>
      have low : value / 256 < 256 ^ width := by
        rw [pow_succ] at small
        exact Nat.div_lt_of_lt_mul (by omega)
      have byte : (UInt8.ofNat (value % 256)).toNat = value % 256 :=
        UInt8.toNat_ofNat_of_lt' (Nat.mod_lt _ (by norm_num))
      rw [toLE, ofLE, ih low, byte]
      omega

/-- A number that is too large for its bytes is cut. -/
theorem ofLE_toLE_mod (width value : Nat) : ofLE (toLE width value) = value % 256 ^ width := by
  induction width generalizing value with
  | zero => rw [pow_zero, Nat.mod_one]; rfl
  | succ width ih =>
      have low : (UInt8.ofNat (value % 256)).toNat = value % 256 := by
        rw [UInt8.toNat_ofNat', Nat.mod_mod]
      rw [toLE, ofLE, low, ih, pow_succ, Nat.mul_comm (256 ^ width) 256, Nat.mod_mul]

theorem toLE_ofLE (bytes : List UInt8) : toLE bytes.length (ofLE bytes) = bytes := by
  induction bytes with
  | nil => rfl
  | cons byte rest ih =>
      have small : byte.toNat < 256 := byte.toNat_lt
      have low : (byte.toNat + 256 * ofLE rest) % 256 = byte.toNat := by omega
      have high : (byte.toNat + 256 * ofLE rest) / 256 = ofLE rest := by omega
      rw [ofLE, List.length_cons, toLE, low, high, ih, UInt8.ofNat_toNat]

/-- The number of two strings one after the other. -/
theorem ofLE_append (first second : List UInt8) :
    ofLE (first ++ second) = ofLE first + 256 ^ first.length * ofLE second := by
  induction first with
  | nil => simp [ofLE]
  | cons byte first ih =>
      rw [List.cons_append, ofLE, ofLE, ih, List.length_cons, pow_succ]
      ring

/-- Two strings of one length that spell the same number are equal. -/
theorem ofLE_injective {first second : List UInt8} (width : first.length = second.length)
    (same : ofLE first = ofLE second) : first = second := by
  rw [← toLE_ofLE first, ← toLE_ofLE second, width, same]

/-! ### Ranges of an address space -/

/-- The `size` bytes of an address space from `offset` on. -/
def readRange (space : Nat → UInt8) (offset : Nat) : Nat → List UInt8
  | 0 => []
  | size + 1 => space offset :: readRange space (offset + 1) size

/-- The address space with `data` stored from `offset` on. -/
def writeRange (space : Nat → UInt8) (offset : Nat) (data : List UInt8) : Nat → UInt8 :=
  fun address =>
    if offset ≤ address ∧ address < offset + data.length then data.getD (address - offset) 0
    else space address

variable (space : Nat → UInt8)

@[simp] theorem readRange_length (offset size : Nat) : (readRange space offset size).length = size := by
  induction size generalizing offset with
  | zero => rfl
  | succ size ih => simp [readRange, ih]

theorem readRange_getD (offset size index : Nat) (inside : index < size) :
    (readRange space offset size).getD index 0 = space (offset + index) := by
  induction size generalizing offset index with
  | zero => omega
  | succ size ih =>
      cases index with
      | zero => rfl
      | succ index =>
          rw [readRange, List.getD_cons_succ, ih (offset + 1) index (by omega)]
          congr 1
          omega

/-- A range holds a list when each of its bytes does. -/
theorem readRange_eq_iff (offset : Nat) (data : List UInt8) :
    readRange space offset data.length = data ↔
      ∀ index < data.length, space (offset + index) = data.getD index 0 := by
  constructor
  · intro same index inside
    rw [← readRange_getD space offset data.length index inside, same]
  · intro bytes
    refine List.ext_getElem (readRange_length space _ _) fun index inRange inside => ?_
    rw [← List.getD_eq_getElem _ 0 inRange, ← List.getD_eq_getElem _ 0 inside,
      readRange_getD space _ _ _ inside, bytes index inside]

theorem readRange_add (offset first second : Nat) :
    readRange space offset (first + second) =
      readRange space offset first ++ readRange space (offset + first) second := by
  induction first generalizing offset with
  | zero => simp [readRange]
  | succ first ih =>
      rw [Nat.add_right_comm, readRange, ih, readRange, List.cons_append]
      congr 3
      omega

theorem readRange_shift (base offset size : Nat) :
    readRange space (base + offset) size =
      readRange (fun index => space (base + index)) offset size := by
  induction size generalizing offset with
  | zero => rfl
  | succ size ih => rw [readRange, readRange, Nat.add_assoc, ih]

theorem readRange_congr {other : Nat → UInt8} {offset size : Nat}
    (same : ∀ address, offset ≤ address → address < offset + size → space address = other address) :
    readRange space offset size = readRange other offset size := by
  induction size generalizing offset with
  | zero => rfl
  | succ size ih =>
      rw [readRange, readRange, same offset le_rfl (by omega),
        ih fun address low high => same address (by omega) (by omega)]

theorem writeRange_inside {offset address : Nat} {data : List UInt8} (low : offset ≤ address)
    (high : address < offset + data.length) :
    writeRange space offset data address = data.getD (address - offset) 0 :=
  if_pos ⟨low, high⟩

theorem writeRange_outside {offset address : Nat} {data : List UInt8}
    (out : address < offset ∨ offset + data.length ≤ address) :
    writeRange space offset data address = space address :=
  if_neg (by omega)

@[simp] theorem writeRange_nil (offset : Nat) : writeRange space offset [] = space := by
  funext address
  exact writeRange_outside space (by simp; omega)

/-- Reading back what was just stored. -/
theorem readRange_writeRange_self (offset : Nat) (data : List UInt8) :
    readRange (writeRange space offset data) offset data.length = data := by
  refine List.ext_getElem (readRange_length _ _ _) fun index inside inData => ?_
  have got := readRange_getD (writeRange space offset data) offset data.length index inData
  rw [List.getD_eq_getElem _ _ inside, writeRange_inside space (by omega) (by omega),
    Nat.add_sub_cancel_left, List.getD_eq_getElem _ _ inData] at got
  exact got

/-- A range the store does not meet is read as before. -/
theorem readRange_writeRange_disjoint {offset size start : Nat} {data : List UInt8}
    (apart : offset + size ≤ start ∨ start + data.length ≤ offset) :
    readRange (writeRange space start data) offset size = readRange space offset size :=
  readRange_congr _ fun _ _ _ => writeRange_outside space (by omega)

/-- Two adjacent stores are one. -/
theorem writeRange_append (offset : Nat) (first second : List UInt8) :
    writeRange (writeRange space offset first) (offset + first.length) second =
      writeRange space offset (first ++ second) := by
  funext address
  simp only [writeRange, List.length_append]
  by_cases inFirst : offset ≤ address ∧ address < offset + first.length
  · rw [if_neg (by omega), if_pos inFirst, if_pos (by omega),
      List.getD_append _ _ _ _ (by omega)]
  · by_cases inSecond : offset + first.length ≤ address ∧
        address < offset + first.length + second.length
    · rw [if_pos inSecond, if_pos (by omega), List.getD_append_right _ _ _ _ (by omega)]
      congr 1
      omega
    · rw [if_neg inSecond, if_neg inFirst, if_neg (by omega)]

/-- Storing what is already there changes nothing. -/
theorem writeRange_readRange_self (offset size : Nat) :
    writeRange space offset (readRange space offset size) = space := by
  funext address
  by_cases inside : offset ≤ address ∧ address < offset + size
  · rw [writeRange_inside space inside.1 (by simpa using inside.2),
      readRange_getD space offset size _ (by omega)]
    congr 1
    omega
  · exact writeRange_outside space (by rw [readRange_length]; omega)

/-! ### Splices of a byte string -/

/-- A byte string with `data` stored from `offset` on. -/
def splice (bytes : List UInt8) (offset : Nat) (data : List UInt8) : List UInt8 :=
  bytes.take offset ++ data ++ bytes.drop (offset + data.length)

/-- The `size` bytes of a byte string from `offset` on. -/
def slice (bytes : List UInt8) (offset size : Nat) : List UInt8 :=
  (bytes.drop offset).take size

theorem splice_length {bytes data : List UInt8} {offset : Nat}
    (fits : offset + data.length ≤ bytes.length) : (splice bytes offset data).length = bytes.length := by
  simp only [splice, List.length_append, List.length_take, List.length_drop]
  omega

@[simp] theorem splice_nil (bytes : List UInt8) (offset : Nat) : splice bytes offset [] = bytes := by
  simp [splice]

theorem slice_length {bytes : List UInt8} {offset size : Nat} (fits : offset + size ≤ bytes.length) :
    (slice bytes offset size).length = size := by
  simp only [slice, List.length_take, List.length_drop]
  omega

/-- A number in a range of a byte string is no longer than the range. -/
theorem ofLE_slice_lt (bytes : List UInt8) (offset size : Nat) :
    ofLE (slice bytes offset size) < 256 ^ size :=
  lt_of_lt_of_le (ofLE_lt _) (Nat.pow_le_pow_right (by norm_num) (List.length_take_le _ _))

/-- The spliced range holds the data. -/
theorem slice_splice_self {bytes data : List UInt8} {offset : Nat} (fits : offset ≤ bytes.length) :
    slice (splice bytes offset data) offset data.length = data := by
  have head : (bytes.take offset).length = offset := by simpa using fits
  rw [slice, splice, List.append_assoc, List.drop_append_of_le_length (by omega),
    List.drop_of_length_le (by omega), List.nil_append, List.take_left']
  rfl

/-- A range the splice does not meet keeps its bytes. -/
theorem slice_splice_disjoint {bytes data : List UInt8} {offset start size : Nat}
    (fits : start + data.length ≤ bytes.length)
    (apart : offset + size ≤ start ∨ start + data.length ≤ offset) :
    slice (splice bytes start data) offset size = slice bytes offset size := by
  refine List.ext_getElem? fun index => ?_
  simp only [slice, List.getElem?_take, List.getElem?_drop]
  by_cases inside : index < size
  · rw [if_pos inside, if_pos inside, splice]
    have head : (bytes.take start).length = start := by simp; omega
    rcases apart with before | after
    · rw [List.append_assoc, List.getElem?_append_left (by omega), List.getElem?_take,
        if_pos (by omega)]
    · rw [List.getElem?_append_right (by rw [List.length_append]; omega), List.getElem?_drop,
        List.length_append, head]
      congr 1
      omega
  · rw [if_neg inside, if_neg inside]

/-- A splice, byte by byte. -/
theorem getElem?_splice {bytes data : List UInt8} {offset : Nat}
    (fits : offset + data.length ≤ bytes.length) (index : Nat) :
    (splice bytes offset data)[index]? =
      if offset ≤ index ∧ index < offset + data.length then data[index - offset]?
      else bytes[index]? := by
  have head : (bytes.take offset).length = offset := by
    rw [List.length_take]
    omega
  rw [splice, List.append_assoc]
  by_cases before : index < offset
  · rw [List.getElem?_append_left (by omega), List.getElem?_take, if_pos before,
      if_neg (by omega)]
  · rw [List.getElem?_append_right (by omega), head]
    by_cases inside : index < offset + data.length
    · rw [List.getElem?_append_left (by omega), if_pos (by omega)]
    · rw [List.getElem?_append_right (by omega), List.getElem?_drop, if_neg (by omega)]
      congr 1
      omega

/-- Splices that do not meet can be made in either order. -/
theorem splice_comm {bytes first second : List UInt8} {offset start : Nat}
    (fits : offset + first.length ≤ bytes.length) (fits' : start + second.length ≤ bytes.length)
    (apart : offset + first.length ≤ start ∨ start + second.length ≤ offset) :
    splice (splice bytes offset first) start second =
      splice (splice bytes start second) offset first := by
  refine List.ext_getElem? fun index => ?_
  rw [getElem?_splice (by rw [splice_length fits]; exact fits'), getElem?_splice fits,
    getElem?_splice (by rw [splice_length fits']; exact fits), getElem?_splice fits']
  by_cases inFirst : offset ≤ index ∧ index < offset + first.length
  · rw [if_pos inFirst, if_neg (by omega), if_pos inFirst]
  · rw [if_neg inFirst, if_neg inFirst]

/-- Two adjacent splices are one. -/
theorem splice_splice_adjacent {bytes first second : List UInt8} {offset : Nat}
    (fits : offset + first.length + second.length ≤ bytes.length) :
    splice (splice bytes offset first) (offset + first.length) second =
      splice bytes offset (first ++ second) := by
  have head : (bytes.take offset ++ first).length = offset + first.length := by
    simp only [List.length_append, List.length_take]
    omega
  have tail : (splice bytes offset first).drop (offset + first.length + second.length) =
      bytes.drop (offset + first.length + second.length) := by
    rw [splice, List.drop_append, List.drop_of_length_le (by omega), List.nil_append, head,
      List.drop_drop]
    congr 1
    omega
  have front : (splice bytes offset first).take (offset + first.length) =
      bytes.take offset ++ first := by
    rw [splice, List.take_append_of_le_length (by omega), List.take_of_length_le (by omega)]
  rw [splice, front, tail, splice, List.length_append, Nat.add_assoc]
  simp only [List.append_assoc]

/-- A slice of a range is a range. -/
theorem slice_readRange (space : Nat → UInt8) {offset size start width : Nat}
    (fits : start + width ≤ size) :
    slice (readRange space offset size) start width = readRange space (offset + start) width := by
  obtain ⟨rest, rfl⟩ : ∃ rest, size = start + (width + rest) := ⟨size - start - width, by omega⟩
  rw [slice, readRange_add, readRange_add, List.drop_left' (readRange_length _ _ _),
    List.take_left' (readRange_length _ _ _)]

/-- A range inside a store is a slice of what was stored. -/
theorem readRange_writeRange_inside (space : Nat → UInt8) {data : List UInt8} {offset size : Nat}
    (inside : offset + size ≤ data.length) :
    readRange (writeRange space 0 data) offset size = slice data offset size := by
  have whole : slice (readRange (writeRange space 0 data) 0 data.length) offset size =
      readRange (writeRange space 0 data) (0 + offset) size := slice_readRange _ inside
  rw [readRange_writeRange_self, Nat.zero_add] at whole
  exact whole.symm

/-- A slice of a slice is a slice. -/
theorem slice_slice (bytes : List UInt8) {offset size start width : Nat}
    (fits : start + width ≤ size) :
    slice (slice bytes offset size) start width = slice bytes (offset + start) width := by
  rw [slice, slice, slice, List.drop_take, List.take_take, List.drop_drop,
    min_eq_left (by omega)]

/-- Storing what is there changes nothing. -/
theorem splice_slice (bytes : List UInt8) {offset size : Nat} (fits : offset + size ≤ bytes.length) :
    splice bytes offset (slice bytes offset size) = bytes := by
  rw [splice, slice_length fits, slice, List.append_assoc, ← List.drop_drop,
    List.take_append_drop, List.take_append_drop]

/-- Overwriting bytes inside a prefix leaves what follows it. -/
theorem splice_append {bytes data : List UInt8} {offset : Nat}
    (fits : offset + data.length ≤ bytes.length) (more : List UInt8) :
    splice (bytes ++ more) offset data = splice bytes offset data ++ more := by
  rw [splice, splice, List.take_append_of_le_length (by omega), List.drop_append_of_le_length fits,
    List.append_assoc, List.append_assoc, List.append_assoc]

/-- A splice of a whole prefix is that prefix followed by the old rest. -/
theorem splice_zero (bytes data : List UInt8) :
    splice bytes 0 data = data ++ bytes.drop data.length := by
  simp [splice]

/-- What is stored from the start of a byte string begins it. -/
theorem take_splice_zero (bytes data : List UInt8) :
    (splice bytes 0 data).take data.length = data := by
  rw [splice_zero, List.take_left']
  rfl

/-- Byte strings that agree on a prefix still do after the same store. -/
theorem take_splice_congr {bytes other : List UInt8} {keep : Nat}
    (agree : bytes.take keep = other.take keep) (data : List UInt8) :
    (splice bytes 0 data).take keep = (splice other 0 data).take keep := by
  rw [splice_zero, splice_zero, List.take_append, List.take_append, ← List.drop_take,
    ← List.drop_take, agree]

end Bytes
