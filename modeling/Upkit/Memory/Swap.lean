/-
**Swapping two slots through a third object.**

`swap_chunk` copies a range from one object to another through the caller's buffer, and
`swap_slots` exchanges a prefix of two objects chunk by chunk through a swap object. The length of
the prefix is the larger of the two images; the results of the second and third copy of a round
are not looked at.

On a plain memory:

* `moved_add` — copying forwards in two steps is copying at once, also inside one object, when the
  destination does not begin inside the source.
* `swapChunk_plain` — `swap_chunk` is one `moved`.
* `swapSlots_separate` — with a swap object of its own, the prefixes are exchanged and nothing but
  the swap object changes otherwise.
* `swapSlots_installed` — whatever the swap object is, the second object ends as `installed`.
* `swapSlotsLoop_success`, `swapSlotsLoop_stuck` — a length that does not fit, or a swap size of
  zero, never ends in success.
-/

import Upkit.Security.Verifier

namespace Upkit

open Bytes

/-- A 32-bit `int`, given by its bits, as the `size_t` it converts to. -/
def sizeOfInt (bits : Nat) : Nat := if bits < 2 ^ 31 then bits else bits + (2 ^ 64 - 2 ^ 32)

theorem sizeOfInt_small {bits : Nat} (small : bits < 2 ^ 31) : sizeOfInt bits = bits :=
  if_pos small

/-- A step is cut down to what is left. -/
theorem cutDown_eq_min (size : Nat) {done step : Nat} (small : done < 2 ^ 31)
    (narrow : done + step < 2 ^ 64) :
    (if size < (sizeOfInt done + step) % 2 ^ 64 then size - done else step) =
      min step (size - done) := by
  rw [sizeOfInt_small small, Nat.mod_eq_of_lt narrow]
  split
  · exact (Nat.min_eq_right (by omega)).symm
  · exact (Nat.min_eq_left (by omega)).symm

section Functions

variable {σ : Type} (M : MemoryInterface σ)

/-- The loop of `swap_chunk`: the result, the caller's buffer and the memory. -/
def swapChunkLoop (src dst : MemObject) (swapSize : Nat) (readSwap writeSwap : Bool) :
    (fuel swapFull offset step : Nat) → List UInt8 → σ → PullError × List UInt8 × σ
  | 0, _, _, _, buffer, memory => (.outOfFuel, buffer, memory)
  | fuel + 1, swapFull, offset, step, buffer, memory =>
      if swapFull < swapSize then
        let step :=
          if swapSize < (sizeOfInt swapFull + step) % 2 ^ 64 then swapSize - swapFull else step
        let (done, data, memory) :=
          M.memoryRead src step (if readSwap then swapFull else offset) memory
        let buffer := splice buffer 0 data
        if done ≠ step then (.memoryRead, buffer, memory)
        else
          let (done, memory) :=
            M.memoryWrite dst (buffer.take step) (if writeSwap then swapFull else offset) memory
          if done ≠ step then (.memoryWrite, buffer, memory)
          else
            swapChunkLoop src dst swapSize readSwap writeSwap fuel ((swapFull + step) % 2 ^ 32)
              ((offset + step) % 2 ^ 32) step buffer memory
      else (.success, buffer, memory)

/-- `swap_chunk`. -/
def swapChunk (src dst : MemObject) (offset swapSize : Nat) (buffer : List UInt8)
    (bufferSize : Nat) (readSwap writeSwap : Bool) (memory : σ) : PullError × List UInt8 × σ :=
  swapChunkLoop M src dst swapSize readSwap writeSwap loopFuel 0 offset bufferSize buffer memory

/-- The loop of `swap_slots`. -/
def swapSlotsLoop (obj1 obj2 objSwap : MemObject) (size bufferSize : Nat) :
    (fuel offset swapSize : Nat) → List UInt8 → σ → PullError × List UInt8 × σ
  | 0, _, _, buffer, memory => (.outOfFuel, buffer, memory)
  | fuel + 1, offset, swapSize, buffer, memory =>
      if offset < size then
        let swapSize :=
          if size < (sizeOfInt offset + swapSize) % 2 ^ 64 then size - offset else swapSize
        let (err, buffer, memory) :=
          swapChunk M obj1 objSwap offset (swapSize % 2 ^ 32) buffer bufferSize false true memory
        if err ≠ .success then (err, buffer, memory)
        else
          -- `err` keeps the result of the first copy: these two are not checked.
          let (_, buffer, memory) :=
            swapChunk M obj2 obj1 offset (swapSize % 2 ^ 32) buffer bufferSize false false memory
          let (_, buffer, memory) :=
            swapChunk M objSwap obj2 offset (swapSize % 2 ^ 32) buffer bufferSize true false memory
          swapSlotsLoop obj1 obj2 objSwap size bufferSize fuel ((offset + swapSize) % 2 ^ 32)
            swapSize buffer memory
      else (.success, buffer, memory)

/-- `get_size` plus `get_offset`, an `address_t`. -/
def Manifest.extent (mt : Manifest) : Nat := (mt.getSize + mt.getOffset) % 2 ^ 32

/-- `swap_slots`, without the assertion on `swap_size` that no build compiles in. -/
def swapSlots (obj1 obj2 objSwap : MemObject) (swapSize : Nat) (buffer : List UInt8)
    (bufferSize : Nat) (memory : σ) : PullError × List UInt8 × σ :=
  let (err, mt, memory) := readFirmwareManifest M obj1 memory
  if err ≠ .success then (err, buffer, memory)
  else
    let size := mt.extent
    let (err, mt, memory) := readFirmwareManifest M obj2 memory
    if err ≠ .success then (err, buffer, memory)
    else
      let size := if size < mt.extent then mt.extent else size
      swapSlotsLoop M obj1 obj2 objSwap size bufferSize loopFuel 0 swapSize buffer memory

end Functions

/-- Two objects with images of 200 and 100 bytes. -/
def twoImages : Contents := fun id address =>
  if address = 64 then (if id = 0 then 200 else 100)
  else if address < 64 then UInt8.ofNat (address + id.toNat) else 0

/-- Objects of 1024 bytes. -/
def smallLayout : PlainLayout where
  limit := fun _ => 1024
  limit_lt := fun _ => by decide
  erased := none

/-! ### Moving a range -/

/-- A plain memory with `size` bytes of `src` from `start` on copied to `dst` from `target` on. -/
def moved (memory : Contents) (src : MemId) (start : Nat) (dst : MemId) (target size : Nat) :
    Contents :=
  Function.update memory dst
    (writeRange (memory dst) target (readRange (memory src) start size))

theorem moved_other (memory : Contents) {src dst id : MemId} (start target size : Nat)
    (other : id ≠ dst) : moved memory src start dst target size id = memory id :=
  Function.update_of_ne other _ _

theorem moved_target (memory : Contents) (src dst : MemId) (start target size : Nat) :
    moved memory src start dst target size dst =
      writeRange (memory dst) target (readRange (memory src) start size) :=
  Function.update_self _ _ _

@[simp] theorem moved_zero (memory : Contents) (src dst : MemId) (start target : Nat) :
    moved memory src start dst target 0 = memory := by
  simp [moved, readRange]

/-- **Forwards in two steps**: the source of the second step has not been written by the first. -/
theorem moved_add (memory : Contents) (src dst : MemId) (start target first second : Nat)
    (forward : src ≠ dst ∨ target ≤ start ∨ start + (first + second) ≤ target) :
    moved (moved memory src start dst target first) src (start + first) dst (target + first)
        second = moved memory src start dst target (first + second) := by
  have kept : readRange (moved memory src start dst target first src) (start + first) second =
      readRange (memory src) (start + first) second := by
    by_cases same : src = dst
    · subst same
      rw [moved_target]
      refine readRange_writeRange_disjoint _ ?_
      rw [readRange_length]
      rcases forward with apart | before
      · exact absurd rfl apart
      · omega
    · rw [moved_other memory _ _ _ same]
  have width : target + first = target + (readRange (memory src) start first).length := by
    rw [readRange_length]
  unfold moved at kept ⊢
  rw [kept, Function.update_self, Function.update_idem, readRange_add]
  congr 1
  conv_lhs => rw [width]
  exact writeRange_append _ _ _ _

/-! ### `swap_chunk` on a plain memory -/

section Chunk

variable (layout : PlainLayout)

/-- One round of the loop that succeeds. -/
theorem swapChunkLoop_round {src dst : MemObject} {swapSize : Nat} {readSwap writeSwap : Bool}
    {fuel swapFull offset step : Nat} {buffer : List UInt8} {memory : Contents} (piece : Nat)
    (more : swapFull < swapSize)
    (cutDown : (if swapSize < (sizeOfInt swapFull + step) % 2 ^ 64 then swapSize - swapFull
      else step) = piece)
    (readable : (if readSwap then swapFull else offset) + piece ≤ layout.limit src.id)
    (writable : (if writeSwap then swapFull else offset) + piece ≤ layout.limit dst.id) :
    ∃ buffer', swapChunkLoop (plain layout) src dst swapSize readSwap writeSwap (fuel + 1) swapFull
        offset step buffer memory =
      swapChunkLoop (plain layout) src dst swapSize readSwap writeSwap fuel
        ((swapFull + piece) % 2 ^ 32) ((offset + piece) % 2 ^ 32) piece buffer'
        (moved memory src.id (if readSwap then swapFull else offset) dst.id
          (if writeSwap then swapFull else offset) piece) := by
  have data : (splice buffer 0 (readRange (memory src.id) (if readSwap then swapFull else offset)
      piece)).take piece =
        readRange (memory src.id) (if readSwap then swapFull else offset) piece := by
    rw [splice_zero, List.take_append_of_le_length (by simp), List.take_of_length_le (by simp)]
  refine ⟨splice buffer 0 (readRange (memory src.id) (if readSwap then swapFull else offset)
    piece), ?_⟩
  rw [swapChunkLoop, if_pos more]
  simp only [cutDown, plain_read layout memory readable, data,
    @plain_write layout memory _ (readRange (memory src.id)
      (if readSwap then swapFull else offset) piece) _
      (by rw [readRange_length]; exact writable), readRange_length]
  simp only [ne_eq, not_true_eq_false, if_false]
  rfl

/-- The loop copies what is left of the chunk. -/
theorem swapChunkLoop_plain (src dst : MemObject) (swapSize : Nat) (readSwap writeSwap : Bool)
    (fuel swapFull offset step : Nat) (buffer : List UInt8) (memory : Contents)
    (stepPositive : 0 < step) (stepSmall : step < 2 ^ 32) (below : swapFull ≤ swapSize)
    (small : swapSize ≤ 2 ^ 31)
    (offsetSmall : offset + (swapSize - swapFull) ≤ 2 ^ 31)
    (readable : (if readSwap then swapFull else offset) + (swapSize - swapFull) ≤
      layout.limit src.id)
    (writable : (if writeSwap then swapFull else offset) + (swapSize - swapFull) ≤
      layout.limit dst.id)
    (forward : src.id ≠ dst.id ∨
      (if writeSwap then swapFull else offset) ≤ (if readSwap then swapFull else offset) ∨
      (if readSwap then swapFull else offset) + (swapSize - swapFull) ≤
        (if writeSwap then swapFull else offset))
    (enough : swapSize - swapFull < fuel) :
    ∃ buffer', swapChunkLoop (plain layout) src dst swapSize readSwap writeSwap fuel swapFull
        offset step buffer memory =
      (.success, buffer', moved memory src.id (if readSwap then swapFull else offset) dst.id
        (if writeSwap then swapFull else offset) (swapSize - swapFull)) := by
  induction fuel generalizing swapFull offset step buffer memory with
  | zero => omega
  | succ fuel ih =>
      by_cases more : swapFull < swapSize
      · obtain ⟨piece, cutDown, positive, room⟩ : ∃ piece,
            (if swapSize < (sizeOfInt swapFull + step) % 2 ^ 64 then swapSize - swapFull
              else step) = piece ∧ 0 < piece ∧ swapFull + piece ≤ swapSize :=
          ⟨_, cutDown_eq_min swapSize (by omega) (by omega), by omega, by omega⟩
        obtain ⟨between, round⟩ := @swapChunkLoop_round layout src dst _
          readSwap writeSwap _ _ offset _ _ _ piece more cutDown (by omega) (by omega)
        have full : (swapFull + piece) % 2 ^ 32 = swapFull + piece :=
          Nat.mod_eq_of_lt (by omega)
        have next : (offset + piece) % 2 ^ 32 = offset + piece := Nat.mod_eq_of_lt (by omega)
        have source : (if readSwap then swapFull + piece else offset + piece) =
            (if readSwap then swapFull else offset) + piece := by
          split
          · rfl
          · rfl
        have target : (if writeSwap then swapFull + piece else offset + piece) =
            (if writeSwap then swapFull else offset) + piece := by
          split
          · rfl
          · rfl
        have left : swapSize - swapFull = piece + (swapSize - (swapFull + piece)) := by omega
        rw [round, full, next]
        obtain ⟨buffer', done⟩ := ih (swapFull + piece) (offset + piece) piece between
          (moved memory src.id (if readSwap then swapFull else offset) dst.id
            (if writeSwap then swapFull else offset) piece) positive (by omega) room (by omega)
          (by rw [source]; omega) (by rw [target]; omega)
          (forward.imp_right fun before => by rw [source, target]; omega) (by omega)
        refine ⟨buffer', ?_⟩
        rw [done, source, target,
          moved_add _ _ _ _ _ _ _ (forward.imp_right fun before => by omega), ← left]
      · have nothing : swapSize - swapFull = 0 := by omega
        refine ⟨buffer, ?_⟩
        rw [swapChunkLoop, if_neg more, nothing, moved_zero]

/-- **`swap_chunk` copies one range.** -/
theorem swapChunk_plain (src dst : MemObject) (offset swapSize : Nat) (buffer : List UInt8)
    (bufferSize : Nat) (readSwap writeSwap : Bool) (memory : Contents)
    (bufferPositive : 0 < bufferSize) (bufferSmall : bufferSize < 2 ^ 32)
    (small : offset + swapSize ≤ 2 ^ 31)
    (readable : (if readSwap then 0 else offset) + swapSize ≤ layout.limit src.id)
    (writable : (if writeSwap then 0 else offset) + swapSize ≤ layout.limit dst.id)
    (forward : src.id ≠ dst.id ∨
      (if writeSwap then 0 else offset) ≤ (if readSwap then 0 else offset) ∨
      (if readSwap then 0 else offset) + swapSize ≤ (if writeSwap then 0 else offset)) :
    ∃ buffer', swapChunk (plain layout) src dst offset swapSize buffer bufferSize readSwap
        writeSwap memory =
      (.success, buffer', moved memory src.id (if readSwap then 0 else offset) dst.id
        (if writeSwap then 0 else offset) swapSize) := by
  have whole : swapSize - 0 = swapSize := Nat.sub_zero _
  have copied := swapChunkLoop_plain layout src dst swapSize readSwap writeSwap loopFuel 0 offset
    bufferSize buffer memory bufferPositive bufferSmall (Nat.zero_le _) (by omega)
    (by omega) (by omega) (by omega) (forward.imp_right fun before => by omega)
    (by unfold loopFuel; omega)
  rwa [whole] at copied

end Chunk

/-! ### `swap_slots` on a plain memory -/

section Slots

variable (layout : PlainLayout) (obj1 obj2 objSwap : MemObject)

/-- One round of the exchange: first into the swap object, second into first, swap object into
second. -/
def exchangeRound (offset piece : Nat) (memory : Contents) : Contents :=
  moved
    (moved (moved memory obj1.id offset objSwap.id 0 piece) obj2.id offset obj1.id offset piece)
    objSwap.id 0 obj2.id offset piece

variable {obj1 obj2 objSwap}

/-- One round of the loop. -/
theorem swapSlotsLoop_round {size bufferSize fuel offset swapSize : Nat} {buffer : List UInt8}
    {memory : Contents} (piece : Nat) (apart : obj2.id ≠ obj1.id) (more : offset < size)
    (cutDown : (if size < (sizeOfInt offset + swapSize) % 2 ^ 64 then size - offset
      else swapSize) = piece)
    (small : offset + piece ≤ 2 ^ 31) (fits1 : offset + piece ≤ layout.limit obj1.id)
    (fits2 : offset + piece ≤ layout.limit obj2.id) (fitsSwap : piece ≤ layout.limit objSwap.id)
    (bufferPositive : 0 < bufferSize) (bufferSmall : bufferSize < 2 ^ 32)
    (behind : offset = 0 ∨ piece ≤ offset) :
    ∃ buffer', swapSlotsLoop (plain layout) obj1 obj2 objSwap size bufferSize (fuel + 1) offset
        swapSize buffer memory =
      swapSlotsLoop (plain layout) obj1 obj2 objSwap size bufferSize fuel (offset + piece) piece
        buffer' (exchangeRound obj1 obj2 objSwap offset piece memory) := by
  have narrow : piece % 2 ^ 32 = piece := Nat.mod_eq_of_lt (by omega)
  have next : (offset + piece) % 2 ^ 32 = offset + piece := Nat.mod_eq_of_lt (by omega)
  obtain ⟨buffer1, first⟩ := swapChunk_plain layout obj1 objSwap offset piece buffer bufferSize
    false true memory bufferPositive bufferSmall small (by simpa using fits1)
    (by simpa using fitsSwap) (Or.inr (Or.inl (Nat.zero_le _)))
  obtain ⟨buffer2, second⟩ := swapChunk_plain layout obj2 obj1 offset piece buffer1 bufferSize
    false false (moved memory obj1.id offset objSwap.id 0 piece) bufferPositive bufferSmall small
    (by simpa using fits2) (by simpa using fits1) (Or.inl apart)
  obtain ⟨buffer3, third⟩ := swapChunk_plain layout objSwap obj2 offset piece buffer2 bufferSize
    true false
    (moved (moved memory obj1.id offset objSwap.id 0 piece) obj2.id offset obj1.id offset piece)
    bufferPositive bufferSmall small (by simpa using fitsSwap) (by simpa using fits2)
    (Or.inr (by simpa using behind))
  simp only [Bool.false_eq_true, if_false, if_true] at first second third
  refine ⟨buffer3, ?_⟩
  rw [swapSlotsLoop, if_pos more]
  simp only [cutDown, narrow, next, first, second, third, ne_eq, not_true_eq_false, if_false]
  rfl

/-- **The loop keeps what every round keeps.** The rounds begin at multiples of `swapSize`, and
only the last one may be shorter. -/
theorem swapSlotsLoop_rule {size bufferSize swapSize : Nat} (Inv : Nat → Contents → Prop)
    (apart : obj2.id ≠ obj1.id) (small : size ≤ 2 ^ 31) (fits1 : size ≤ layout.limit obj1.id)
    (fits2 : size ≤ layout.limit obj2.id) (fitsSwap : min swapSize size ≤ layout.limit objSwap.id)
    (swapPositive : 0 < swapSize) (swapSmall : swapSize < 2 ^ 64)
    (bufferPositive : 0 < bufferSize) (bufferSmall : bufferSize < 2 ^ 32)
    (round : ∀ count piece memory, count * swapSize < size →
      piece = min swapSize (size - count * swapSize) → Inv (count * swapSize) memory →
      Inv (count * swapSize + piece)
        (exchangeRound obj1 obj2 objSwap (count * swapSize) piece memory))
    (fuel count : Nat) (buffer : List UInt8) (memory : Contents)
    (enough : size - count * swapSize < fuel) (below : count * swapSize ≤ size)
    (holds : Inv (count * swapSize) memory) :
    ∃ buffer' memory', swapSlotsLoop (plain layout) obj1 obj2 objSwap size bufferSize fuel
        (count * swapSize) swapSize buffer memory = (.success, buffer', memory') ∧
      Inv size memory' := by
  induction fuel generalizing count buffer memory with
  | zero => omega
  | succ fuel ih =>
      by_cases more : count * swapSize < size
      · have behind : count * swapSize = 0 ∨ swapSize ≤ count * swapSize := by
          cases count with
          | zero => exact Or.inl (Nat.zero_mul _)
          | succ count => exact Or.inr (Nat.le_mul_of_pos_left _ (Nat.succ_pos _))
        have narrow : count * swapSize + swapSize < 2 ^ 64 := by
          rcases behind with first | later
          · omega
          · omega
        have piece := cutDown_eq_min size (by omega : count * swapSize < 2 ^ 31) narrow
        obtain ⟨between, step⟩ := @swapSlotsLoop_round layout _ _ objSwap
          _ _ _ _ _ _ _ _ apart more piece (by omega) (by omega)
          (by omega) (by omega) bufferPositive bufferSmall
          (by rcases behind with first | later <;> omega)
        have kept := round count _ memory more rfl holds
        rw [step]
        by_cases whole : count * swapSize + swapSize ≤ size
        · have full : min swapSize (size - count * swapSize) = swapSize := by omega
          have next : count * swapSize + swapSize = (count + 1) * swapSize := by
            rw [Nat.add_mul, Nat.one_mul]
          rw [full, next] at kept ⊢
          exact ih (count + 1) between _ (by omega) (by omega) kept
        · -- The last round was cut down, so the loop ends.
          have rest : min swapSize (size - count * swapSize) = size - count * swapSize := by omega
          have ends : count * swapSize + (size - count * swapSize) = size := by omega
          rw [rest, ends] at kept ⊢
          refine ⟨between, _, ?_, kept⟩
          cases fuel with
          | zero => omega
          | succ fuel => rw [swapSlotsLoop, if_neg (by omega)]
      · have done : count * swapSize = size := by omega
        rw [done] at holds
        refine ⟨buffer, memory, ?_, holds⟩
        rw [swapSlotsLoop, if_neg more]

/-- The length `swap_slots` exchanges. -/
def swapLength (memory : Contents) (id1 id2 : MemId) : Nat :=
  max (manifestAt memory id1).extent (manifestAt memory id2).extent

theorem swapLength_eq_ite (memory : Contents) (id1 id2 : MemId) :
    (if (manifestAt memory id1).extent < (manifestAt memory id2).extent then
      (manifestAt memory id2).extent else (manifestAt memory id1).extent) =
        swapLength memory id1 id2 := by
  unfold swapLength
  split
  · omega
  · omega

/-- Once both manifests are read, `swap_slots` is its loop. -/
theorem swapSlots_loop {swapSize bufferSize : Nat} {buffer : List UInt8} {memory : Contents}
    (fits1 : sizeofManifest ≤ layout.limit obj1.id)
    (fits2 : sizeofManifest ≤ layout.limit obj2.id) :
    swapSlots (plain layout) obj1 obj2 objSwap swapSize buffer bufferSize memory =
      swapSlotsLoop (plain layout) obj1 obj2 objSwap (swapLength memory obj1.id obj2.id)
        bufferSize loopFuel 0 swapSize buffer memory := by
  rw [swapSlots, readFirmwareManifest_plain layout memory fits1]
  simp only [readFirmwareManifest_plain layout memory fits2, ne_eq, not_true_eq_false, if_false,
    swapLength_eq_ite]

end Slots

/-! ### What the swap leaves behind -/

/-- The first `size` bytes of two objects have changed places. -/
def Exchanged (before after : Contents) (id1 id2 : MemId) (size : Nat) : Prop :=
  ∀ address < size,
    after id1 address = before id2 address ∧ after id2 address = before id1 address

section Result

variable (layout : PlainLayout) {obj1 obj2 objSwap : MemObject}

/-- A round with a swap object of its own exchanges one more piece. -/
theorem exchangeRound_separate {memory : Contents} {offset piece : Nat}
    (apart : obj2.id ≠ obj1.id) (apart1 : objSwap.id ≠ obj1.id) (apart2 : objSwap.id ≠ obj2.id) :
    exchangeRound obj1 obj2 objSwap offset piece memory obj1.id =
        writeRange (memory obj1.id) offset (readRange (memory obj2.id) offset piece) ∧
      exchangeRound obj1 obj2 objSwap offset piece memory obj2.id =
        writeRange (memory obj2.id) offset (readRange (memory obj1.id) offset piece) ∧
      ∀ id, id ≠ obj1.id → id ≠ obj2.id → id ≠ objSwap.id →
        exchangeRound obj1 obj2 objSwap offset piece memory id = memory id := by
  have parked : readRange (writeRange (memory objSwap.id) 0
      (readRange (memory obj1.id) offset piece)) 0 piece =
        readRange (memory obj1.id) offset piece := by
    have self := readRange_writeRange_self (memory objSwap.id) 0
      (readRange (memory obj1.id) offset piece)
    rwa [readRange_length] at self
  refine ⟨?_, ?_, fun id other1 other2 otherSwap => ?_⟩
  · rw [exchangeRound, moved_other _ _ _ _ apart.symm, moved_target,
      moved_other _ _ _ _ apart1.symm, moved_other _ _ _ _ apart2.symm]
  · rw [exchangeRound, moved_target, moved_other _ _ _ _ apart, moved_other _ _ _ _ apart2.symm,
      moved_other _ _ _ _ apart1, moved_target, parked]
  · rw [exchangeRound, moved_other _ _ _ _ other2, moved_other _ _ _ _ other1,
      moved_other _ _ _ _ otherSwap]

/-- An exchanged prefix and one more piece. -/
theorem writeRange_readRange_extend {own other own' other' : Nat → UInt8} {offset piece : Nat}
    (ownThen : own' = writeRange own 0 (readRange other 0 offset))
    (otherThen : other' = writeRange other 0 (readRange own 0 offset)) :
    writeRange own' offset (readRange other' offset piece) =
      writeRange own 0 (readRange other 0 (offset + piece)) := by
  have fresh : readRange other' offset piece = readRange other offset piece := by
    rw [otherThen]
    exact readRange_writeRange_disjoint _ (by rw [readRange_length]; omega)
  have joined := writeRange_append own 0 (readRange other 0 offset)
    (readRange other offset piece)
  rw [readRange_length, Nat.zero_add] at joined
  rw [fresh, ownThen, joined, readRange_add, Nat.zero_add]

/-- Inside an exchanged prefix stands the other object, behind it the object itself. -/
theorem prefix_taken (own other : Nat → UInt8) {size address : Nat} (inside : address < size) :
    writeRange own 0 (readRange other 0 size) address = other address := by
  have taken := writeRange_inside own (Nat.zero_le address)
    (show address < 0 + (readRange other 0 size).length by rw [readRange_length]; omega)
  rw [taken, Nat.sub_zero, readRange_getD other 0 size address inside, Nat.zero_add]

theorem prefix_kept (own other : Nat → UInt8) {size address : Nat} (behind : size ≤ address) :
    writeRange own 0 (readRange other 0 size) address = own address :=
  writeRange_outside own (Or.inr (by rw [readRange_length]; omega))

/-- **With a swap object of its own** `swap_slots` succeeds, exchanges the two prefixes and changes
no other object but the swap object. -/
theorem swapSlots_separate {swapSize bufferSize : Nat} {buffer : List UInt8} {memory : Contents}
    (apart : obj2.id ≠ obj1.id) (apart1 : objSwap.id ≠ obj1.id) (apart2 : objSwap.id ≠ obj2.id)
    (manifest1 : sizeofManifest ≤ layout.limit obj1.id)
    (manifest2 : sizeofManifest ≤ layout.limit obj2.id)
    (small : swapLength memory obj1.id obj2.id ≤ 2 ^ 31)
    (fits1 : swapLength memory obj1.id obj2.id ≤ layout.limit obj1.id)
    (fits2 : swapLength memory obj1.id obj2.id ≤ layout.limit obj2.id)
    (fitsSwap : min swapSize (swapLength memory obj1.id obj2.id) ≤ layout.limit objSwap.id)
    (swapPositive : 0 < swapSize) (swapSmall : swapSize < 2 ^ 64)
    (bufferPositive : 0 < bufferSize) (bufferSmall : bufferSize < 2 ^ 32) :
    ∃ buffer' memory', swapSlots (plain layout) obj1 obj2 objSwap swapSize buffer bufferSize
        memory = (.success, buffer', memory') ∧
      memory' obj1.id = writeRange (memory obj1.id) 0
        (readRange (memory obj2.id) 0 (swapLength memory obj1.id obj2.id)) ∧
      memory' obj2.id = writeRange (memory obj2.id) 0
        (readRange (memory obj1.id) 0 (swapLength memory obj1.id obj2.id)) ∧
      ∀ id, id ≠ obj1.id → id ≠ obj2.id → id ≠ objSwap.id → memory' id = memory id := by
  rw [swapSlots_loop layout manifest1 manifest2]
  have start := swapSlotsLoop_rule layout
    (fun offset memory' =>
      memory' obj1.id = writeRange (memory obj1.id) 0 (readRange (memory obj2.id) 0 offset) ∧
      memory' obj2.id = writeRange (memory obj2.id) 0 (readRange (memory obj1.id) 0 offset) ∧
      ∀ id, id ≠ obj1.id → id ≠ obj2.id → id ≠ objSwap.id → memory' id = memory id)
    apart small fits1 fits2 fitsSwap swapPositive swapSmall bufferPositive bufferSmall
    (fun count piece between _ _ holds => by
      obtain ⟨first, second, others⟩ := holds
      obtain ⟨first', second', others'⟩ := exchangeRound_separate
        apart apart1 apart2
      refine ⟨?_, ?_, fun id other1 other2 otherSwap => ?_⟩
      · rw [first']
        exact writeRange_readRange_extend first second
      · rw [second']
        exact writeRange_readRange_extend second first
      · rw [others' id other1 other2 otherSwap, others id other1 other2 otherSwap])
    loopFuel 0 buffer memory (by unfold loopFuel; omega) (by omega)
    ⟨by simp [readRange], by simp [readRange], fun _ _ _ _ => rfl⟩
  rwa [Nat.zero_mul] at start

/-- **`swap_slots` exchanges two images**: it ends in success, the two prefixes have changed places,
and behind them nothing has changed. -/
theorem swapSlots_exchanges {swapSize bufferSize : Nat} (buffer : List UInt8) (memory : Contents)
    (apart : obj2.id ≠ obj1.id) (apart1 : objSwap.id ≠ obj1.id) (apart2 : objSwap.id ≠ obj2.id)
    (manifest1 : sizeofManifest ≤ layout.limit obj1.id)
    (manifest2 : sizeofManifest ≤ layout.limit obj2.id)
    (bufferPositive : 0 < bufferSize) (larger : bufferSize < swapSize)
    (small : swapLength memory obj1.id obj2.id < 2 ^ 31)
    (fits1 : swapLength memory obj1.id obj2.id ≤ layout.limit obj1.id)
    (fits2 : swapLength memory obj1.id obj2.id ≤ layout.limit obj2.id)
    (fitsSwap : swapSize ≤ layout.limit objSwap.id) :
    ∃ buffer' memory', swapSlots (plain layout) obj1 obj2 objSwap swapSize buffer bufferSize
        memory = (.success, buffer', memory') ∧
      ∀ address,
        (address < swapLength memory obj1.id obj2.id →
          memory' obj1.id address = memory obj2.id address ∧
            memory' obj2.id address = memory obj1.id address) ∧
        (swapLength memory obj1.id obj2.id ≤ address →
          memory' obj1.id address = memory obj1.id address ∧
            memory' obj2.id address = memory obj2.id address) := by
  have bounded := layout.limit_lt objSwap.id
  obtain ⟨buffer', memory', ran, first, second, _⟩ := swapSlots_separate layout
    apart apart1 apart2 manifest1 manifest2 (le_of_lt small) fits1 fits2
    (le_trans (min_le_left _ _) fitsSwap) (lt_trans bufferPositive larger) (by omega)
    bufferPositive (by omega)
  refine ⟨buffer', memory', ran, fun address => ⟨fun inside => ?_, fun behind => ?_⟩⟩
  · rw [first, second]
    exact ⟨prefix_taken _ _ inside, prefix_taken _ _ inside⟩
  · rw [first, second]
    exact ⟨prefix_kept _ _ behind, prefix_kept _ _ behind⟩

/-- A swap of `200` bytes in pieces of `64`. -/
theorem twoImages_exchanged :
    swapLength twoImages 0 1 = 200 ∧
    ∃ buffer' memory', swapSlots (plain smallLayout) ⟨0, .writeChunk⟩ ⟨1, .writeChunk⟩
        ⟨2, .writeChunk⟩ 64 (List.replicate 16 0) 16 twoImages = (.success, buffer', memory') ∧
      ∀ address,
        (address < swapLength twoImages 0 1 →
          memory' 0 address = twoImages 1 address ∧ memory' 1 address = twoImages 0 address) ∧
        (swapLength twoImages 0 1 ≤ address →
          memory' 0 address = twoImages 0 address ∧ memory' 1 address = twoImages 1 address) :=
  ⟨by decide +kernel, swapSlots_exchanges smallLayout _ twoImages (by decide) (by decide)
    (by decide) (by decide) (by decide) (by decide) (by decide) (by decide +kernel)
    (by decide +kernel) (by decide +kernel) (by decide)⟩

/-- What `swap_slots` leaves in its second object, given the swap object it was run with: the
prefix of the first one, unless the swap object is one of the two. Then the first piece is lost:
a first object that parks pieces in itself hands the second its own first piece back, and a second
object that parks them in itself keeps the last piece parked at each place. -/
def installed (src dst swap : MemId) (swapSize size : Nat) (memory : Contents) : Nat → UInt8 :=
  fun address =>
    if size ≤ address then memory dst address
    else if swap = dst ∧ address < swapSize then
      memory src (address + (size - 1 - address) / swapSize * swapSize)
    else if swap = src ∧ address < swapSize then memory dst address
    else memory src address

theorem moved_apply (memory : Contents) (src dst id : MemId) (start target size address : Nat) :
    moved memory src start dst target size id address =
      if id = dst ∧ target ≤ address ∧ address < target + size then
        memory src (start + (address - target))
      else memory id address := by
  by_cases same : id = dst
  · subst same
    rw [moved_target]
    by_cases inside : target ≤ address ∧ address < target + size
    · rw [if_pos ⟨rfl, inside⟩, writeRange_inside _ inside.1 (by rw [readRange_length]; omega),
        readRange_getD _ _ _ _ (by omega)]
    · rw [if_neg (fun both => inside both.2),
        writeRange_outside _ (by rw [readRange_length]; omega)]
  · rw [moved_other _ _ _ _ same, if_neg (fun both => same both.1)]

/-- A place of the parking range holds the piece that was parked there last. -/
theorem parked_last {swapSize count piece address : Nat} (positive : 0 < swapSize)
    (short : piece ≤ swapSize) (inside : address < piece) :
    (count * swapSize + piece - 1 - address) / swapSize * swapSize = count * swapSize := by
  have split : count * swapSize + piece - 1 - address =
      (piece - 1 - address) + count * swapSize := by omega
  rw [split, Nat.add_mul_div_right _ _ positive, Nat.div_eq_of_lt (by omega), Nat.zero_add]

/-- A short piece leaves the rest of the parking range as the piece before left it. -/
theorem parked_before {swapSize count piece address : Nat} (positive : 0 < swapSize)
    (beyond : piece ≤ address) (inside : address < swapSize) (parked : 0 < count) :
    (count * swapSize + piece - 1 - address) / swapSize * swapSize =
      (count * swapSize - 1 - address) / swapSize * swapSize := by
  obtain ⟨before, rfl⟩ : ∃ before, count = before + 1 := ⟨count - 1, by omega⟩
  have grown : (before + 1) * swapSize = before * swapSize + swapSize := by
    rw [Nat.add_mul, Nat.one_mul]
  have left : (before + 1) * swapSize + piece - 1 - address =
      (swapSize + piece - 1 - address) + before * swapSize := by omega
  have right : (before + 1) * swapSize - 1 - address =
      (swapSize - 1 - address) + before * swapSize := by omega
  rw [left, right, Nat.add_mul_div_right _ _ positive, Nat.add_mul_div_right _ _ positive,
    Nat.div_eq_of_lt (by omega), Nat.div_eq_of_lt (by omega)]

/-- One round of the exchange, seen from the second object. -/
theorem exchangeRound_second (memory : Contents) (offset piece address : Nat)
    (apart : obj2.id ≠ obj1.id) (behind : offset = 0 ∨ piece ≤ offset) :
    exchangeRound obj1 obj2 objSwap offset piece memory obj2.id address =
      if offset ≤ address ∧ address < offset + piece then
        if objSwap.id = obj1.id ∧ offset = 0 then memory obj2.id address
        else memory obj1.id address
      else if objSwap.id = obj2.id ∧ address < piece then memory obj1.id (offset + address)
      else memory obj2.id address := by
  rw [exchangeRound, moved_apply]
  by_cases inside : offset ≤ address ∧ address < offset + piece
  · have index : offset + (address - offset) = address := by omega
    rw [if_pos ⟨rfl, inside⟩, if_pos inside, moved_apply, Nat.zero_add]
    by_cases first : objSwap.id = obj1.id ∧ offset = 0
    · obtain ⟨parks, zero⟩ := first
      rw [if_pos ⟨parks, by omega, by omega⟩, if_pos ⟨parks, zero⟩, moved_apply,
        if_neg (fun both => apart (both.1.trans parks))]
      congr 1
      omega
    · have fresh : ¬ (objSwap.id = obj1.id ∧ offset ≤ address - offset ∧
          address - offset < offset + piece) := by
        rintro ⟨parks, low, high⟩
        exact first ⟨parks, by omega⟩
      rw [if_neg fresh, if_neg first, moved_apply, if_pos ⟨rfl, Nat.zero_le _, by omega⟩]
      congr 1
  · rw [if_neg (fun both => inside both.2), if_neg inside, moved_apply,
      if_neg (fun both => apart both.1), moved_apply, Nat.sub_zero, Nat.zero_add]
    by_cases parks : objSwap.id = obj2.id ∧ address < piece
    · rw [if_pos ⟨parks.1.symm, Nat.zero_le _, parks.2⟩, if_pos parks]
    · rw [if_neg (fun both => parks ⟨both.1.symm, both.2.2⟩), if_neg parks]

/-- A round leaves what is left of the first object alone. -/
theorem exchangeRound_first (memory : Contents) (offset piece address : Nat)
    (apart : obj2.id ≠ obj1.id) (beyond : offset + piece ≤ address) :
    exchangeRound obj1 obj2 objSwap offset piece memory obj1.id address =
      memory obj1.id address := by
  rw [exchangeRound, moved_apply, if_neg (fun both => apart both.1.symm), moved_apply,
    if_neg (by omega), moved_apply, if_neg (by omega)]

/-- A round installs one more piece. -/
theorem exchangeRound_installed {swapSize count piece : Nat} {memory between : Contents}
    (apart : obj2.id ≠ obj1.id) (positive : 0 < swapSize) (short : piece ≤ swapSize)
    (rest : ∀ address, count * swapSize ≤ address →
      between obj1.id address = memory obj1.id address)
    (before : between obj2.id =
      installed obj1.id obj2.id objSwap.id swapSize (count * swapSize) memory) :
    exchangeRound obj1 obj2 objSwap (count * swapSize) piece between obj2.id =
      installed obj1.id obj2.id objSwap.id swapSize (count * swapSize + piece) memory := by
  have behind : count = 0 ∨ swapSize ≤ count * swapSize := by
    cases count with
    | zero => exact Or.inl rfl
    | succ count => exact Or.inr (Nat.le_mul_of_pos_left _ (Nat.succ_pos _))
  have start : count * swapSize = 0 ∨ piece ≤ count * swapSize := by
    rcases behind with zero | later
    · exact Or.inl (by rw [zero, Nat.zero_mul])
    · exact Or.inr (by omega)
  funext address
  rw [exchangeRound_second between _ _ _ apart start, before]
  unfold installed
  by_cases inside : count * swapSize ≤ address ∧ address < count * swapSize + piece
  · have present : ¬ count * swapSize + piece ≤ address := by omega
    rw [if_pos inside, if_pos inside.1, rest address inside.1, if_neg present]
    by_cases own : objSwap.id = obj1.id ∧ count * swapSize = 0
    · have other : objSwap.id ≠ obj2.id := fun same => apart (same.symm.trans own.1)
      rw [if_pos own, if_neg (fun both => other both.1), if_pos ⟨own.1, by omega⟩]
    · rw [if_neg own]
      by_cases parks : objSwap.id = obj2.id ∧ address < swapSize
      · have zero : count * swapSize = 0 := by
          rcases behind with zero | later
          · rw [zero, Nat.zero_mul]
          · omega
        have index : (count * swapSize + piece - 1 - address) / swapSize * swapSize =
            count * swapSize := parked_last positive short (by omega)
        rw [if_pos parks, index, zero, Nat.add_zero]
      · have far : ¬ (objSwap.id = obj1.id ∧ address < swapSize) := by
          rintro ⟨parks', near⟩
          rcases behind with zero | later
          · exact own ⟨parks', by rw [zero, Nat.zero_mul]⟩
          · omega
        rw [if_neg parks, if_neg far]
  · rw [if_neg inside]
    by_cases done : count * swapSize ≤ address
    · have beyond : count * swapSize + piece ≤ address := by omega
      rw [if_pos done, if_pos beyond]
      by_cases parks : objSwap.id = obj2.id ∧ address < piece
      · omega
      · rw [if_neg parks]
    · have later : 0 < count := by
        rcases Nat.eq_zero_or_pos count with zero | positive
        · rw [zero, Nat.zero_mul] at done
          omega
        · exact positive
      rw [if_neg done, if_neg (by omega : ¬ count * swapSize + piece ≤ address)]
      by_cases parks : objSwap.id = obj2.id ∧ address < piece
      · rw [if_pos parks, if_pos ⟨parks.1, by omega⟩, parked_last positive short parks.2,
          rest _ (by omega), Nat.add_comm]
      · rw [if_neg parks]
        by_cases parking : objSwap.id = obj2.id ∧ address < swapSize
        · have left : piece ≤ address := by
            by_contra near
            exact parks ⟨parking.1, by omega⟩
          rw [if_pos parking, if_pos parking, parked_before positive left parking.2 later]
        · rw [if_neg parking, if_neg parking]

/-- **Whatever the swap object is**, `swap_slots` leaves `installed` in its second object. -/
theorem swapSlots_installed {swapSize bufferSize : Nat} {buffer : List UInt8} {memory : Contents}
    (apart : obj2.id ≠ obj1.id) (manifest1 : sizeofManifest ≤ layout.limit obj1.id)
    (manifest2 : sizeofManifest ≤ layout.limit obj2.id)
    (small : swapLength memory obj1.id obj2.id ≤ 2 ^ 31)
    (fits1 : swapLength memory obj1.id obj2.id ≤ layout.limit obj1.id)
    (fits2 : swapLength memory obj1.id obj2.id ≤ layout.limit obj2.id)
    (fitsSwap : min swapSize (swapLength memory obj1.id obj2.id) ≤ layout.limit objSwap.id)
    (swapPositive : 0 < swapSize) (swapSmall : swapSize < 2 ^ 64)
    (bufferPositive : 0 < bufferSize) (bufferSmall : bufferSize < 2 ^ 32) :
    ∃ buffer' memory', swapSlots (plain layout) obj1 obj2 objSwap swapSize buffer bufferSize
        memory = (.success, buffer', memory') ∧
      memory' obj2.id = installed obj1.id obj2.id objSwap.id swapSize
        (swapLength memory obj1.id obj2.id) memory := by
  rw [swapSlots_loop layout manifest1 manifest2]
  obtain ⟨buffer', memory', ran, _, second⟩ := swapSlotsLoop_rule layout
    (fun offset memory' =>
      (∀ address, offset ≤ address → memory' obj1.id address = memory obj1.id address) ∧
      memory' obj2.id = installed obj1.id obj2.id objSwap.id swapSize offset memory)
    apart small fits1 fits2 fitsSwap swapPositive swapSmall bufferPositive bufferSmall
    (fun count piece between _ size holds => by
      obtain ⟨rest, before⟩ := holds
      refine ⟨fun address beyond => ?_,
        exchangeRound_installed apart swapPositive (by omega) rest before⟩
      rw [exchangeRound_first _ _ _ _ apart beyond]
      exact rest address (by omega))
    loopFuel 0 buffer memory (by unfold loopFuel; omega) (by omega)
    ⟨fun _ _ => rfl, by
      funext address
      simp [installed]⟩
  rw [Nat.zero_mul] at ran
  exact ⟨buffer', memory', ran, second⟩

/-! ### When the swap cannot succeed -/

/-- A chunk that was copied lies inside the source. -/
theorem swapChunkLoop_success {src dst : MemObject} {swapSize : Nat} {writeSwap : Bool}
    (small : layout.limit src.id ≤ 2 ^ 31) (fuel swapFull offset step : Nat)
    (buffer : List UInt8) (memory : Contents) (more : swapFull < swapSize)
    (narrow : swapFull < 2 ^ 32)
    (copied : (swapChunkLoop (plain layout) src dst swapSize false writeSwap fuel swapFull offset
      step buffer memory).1 = .success) :
    offset + (swapSize - swapFull) ≤ layout.limit src.id := by
  induction fuel generalizing swapFull offset step buffer memory with
  | zero => exact absurd copied (by simp [swapChunkLoop])
  | succ fuel ih =>
      obtain ⟨piece, cutDown⟩ : ∃ piece,
          (if swapSize < (sizeOfInt swapFull + step) % 2 ^ 64 then swapSize - swapFull
            else step) = piece := ⟨_, rfl⟩
      obtain ⟨address, target⟩ : ∃ address, (if writeSwap then swapFull else offset) = address :=
        ⟨_, rfl⟩
      rw [swapChunkLoop, if_pos more] at copied
      by_cases readable : offset + piece ≤ layout.limit src.id
      · simp only [cutDown, target, Bool.false_eq_true, if_false, ne_eq, not_true_eq_false,
          plain_read layout memory readable] at copied
        split at copied
        · exact absurd copied (by simp)
        · have next : (offset + piece) % 2 ^ 32 = offset + piece := Nat.mod_eq_of_lt (by omega)
          rw [next] at copied
          by_cases still : (swapFull + piece) % 2 ^ 32 < swapSize
          · have rest := ih _ _ _ _ _ still (Nat.mod_lt _ (by norm_num)) copied
            omega
          · omega
      · have failed : ¬ (-1 : Int) = piece := by omega
        simp only [cutDown, Bool.false_eq_true, if_false, @plain_read_outside layout memory
          src piece offset (by omega), ne_eq, failed,
          not_false_eq_true, if_true] at copied
        exact absurd copied (by simp)

/-- **A swap that succeeds has read all of its length** from the first object. -/
theorem swapSlotsLoop_success {size bufferSize : Nat} (small : layout.limit obj1.id ≤ 2 ^ 31)
    (fuel offset swapSize : Nat) (buffer : List UInt8) (memory : Contents) (more : offset < size)
    (sizeSmall : size < 2 ^ 32)
    (swapSmall : offset = 0 ∧ swapSize < 2 ^ 64 ∨ swapSize < 2 ^ 32)
    (swapped : (swapSlotsLoop (plain layout) obj1 obj2 objSwap size bufferSize fuel offset swapSize
      buffer memory).1 = .success) :
    size ≤ layout.limit obj1.id := by
  induction fuel generalizing offset swapSize buffer memory with
  | zero => exact absurd swapped (by simp [swapSlotsLoop])
  | succ fuel ih =>
      obtain ⟨piece, cutDown, narrow⟩ : ∃ piece,
          (if size < (sizeOfInt offset + swapSize) % 2 ^ 64 then size - offset
            else swapSize) = piece ∧ piece < 2 ^ 32 := by
        refine ⟨_, rfl, ?_⟩
        split
        · omega
        · rename_i uncut
          rcases swapSmall with ⟨rfl, wide⟩ | narrow
          · rw [sizeOfInt_small (by norm_num)] at uncut
            omega
          · exact narrow
      have truncated : piece % 2 ^ 32 = piece := Nat.mod_eq_of_lt narrow
      rw [swapSlotsLoop, if_pos more] at swapped
      simp only [cutDown, truncated] at swapped
      split at swapped
      · exact absurd swapped (by assumption)
      · rename_i copied
        by_cases empty : piece = 0
        · subst empty
          have same : (offset + 0) % 2 ^ 32 = offset := Nat.mod_eq_of_lt (by omega)
          rw [same] at swapped
          exact ih offset 0 _ _ more (Or.inr (by norm_num)) swapped
        · have inside : offset + (piece - 0) ≤ layout.limit obj1.id :=
            swapChunkLoop_success layout small loopFuel 0 offset bufferSize buffer memory
              (by omega) (by norm_num) (not_not.mp copied)
          have next : (offset + piece) % 2 ^ 32 = offset + piece := Nat.mod_eq_of_lt (by omega)
          rw [next] at swapped
          by_cases still : offset + piece < size
          · exact ih _ _ _ _ still (Or.inr narrow) swapped
          · omega

/-- A swap object of size zero: the loop stays where it is. -/
theorem swapSlotsLoop_stuck {size bufferSize : Nat} (fuel : Nat) (buffer : List UInt8)
    (memory : Contents) (more : 0 < size) :
    (swapSlotsLoop (plain layout) obj1 obj2 objSwap size bufferSize fuel 0 0 buffer memory).1 ≠
      .success := by
  have nothing : ∀ (src dst : MemObject) (readSwap writeSwap : Bool) (buffer : List UInt8)
      (memory : Contents), swapChunk (plain layout) src dst 0 0 buffer bufferSize readSwap
        writeSwap memory = (.success, buffer, memory) := by
    intro src dst readSwap writeSwap buffer memory
    have fuel : loopFuel = (2 ^ 32 - 1) + 1 := by decide
    rw [swapChunk, fuel, swapChunkLoop, if_neg (lt_irrefl 0)]
  induction fuel with
  | zero => simp [swapSlotsLoop]
  | succ fuel ih =>
      have uncut : (if size < (sizeOfInt 0 + 0) % 2 ^ 64 then size - 0 else 0) = 0 := by
        rw [sizeOfInt_small (by norm_num), if_neg (by omega)]
      rw [swapSlotsLoop, if_pos more]
      simp only [uncut, Nat.zero_mod, nothing, ne_eq, not_true_eq_false, if_false]
      exact ih

end Result

end Upkit
