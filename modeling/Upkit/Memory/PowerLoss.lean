/-
**A swap that loses power.**

`swap_slots` on a plain memory that is cut off after any number of byte writes. Every intermediate
state of a round is described by three counts: how much of the chunk is parked in the swap object,
how much of the first object and how much of the second one has been overwritten.

* `interrupted` — plain memory with a number of byte writes left; an operation that fails ends the
  run as well.
* `Midway` — an intermediate state, and what one more copied range makes of it.
* `swapSlots_recoverable` — at every cut each byte of the two images is still stored: in its own
  object, in the other one or, for the first image, in the swap object.
-/

import Upkit.Memory.Swap
import Upkit.Memory.Effects

namespace Upkit

open Bytes

/-! ### Power for a number of bytes -/

/-- Plain memory with power for a number of byte writes. The first operation that fails ends the
run too. -/
def interrupted (layout : PlainLayout) : MemoryInterface (Contents × Nat) where
  memoryOpen := fun id mode state => (.success, ⟨id, mode⟩, state)
  memoryRead := fun obj size offset state =>
    if offset + size ≤ layout.limit obj.id then
      ((size : Int), readRange (state.1 obj.id) offset size, state)
    else (-1, [], state.1, 0)
  memoryWrite := fun obj data offset state =>
    if offset + data.length ≤ layout.limit obj.id then
      ((data.length : Int), Function.update state.1 obj.id
        (writeRange (state.1 obj.id) offset (data.take state.2)), state.2 - data.length)
    else (-1, state.1, 0)
  memoryClose := fun _ state => (.success, state)
  open_id := fun _ _ _ _ => rfl
  read_length := by
    intro obj size offset state reported
    split at reported
    · rename_i fits
      rw [if_pos fits]
      exact readRange_length _ _ _
    · exact absurd reported (by simp only; omega)

/-- Without power nothing changes any more. -/
theorem interrupted_frames (layout : PlainLayout) :
    Frames (interrupted layout) (fun before after => before.2 = 0 → after = before)
      (fun _ _ => True) (fun _ => True) where
  refl := fun _ _ => rfl
  trans := by
    intro first second third before after dead
    have same := before dead
    rw [after (by rw [same]; exact dead), same]
  opening := fun _ _ _ _ _ => rfl
  reading := by
    intro obj size offset state dead
    obtain ⟨memory, budget⟩ := state
    subst dead
    simp only [interrupted]
    split
    · rfl
    · rfl
  writing := by
    intro obj data offset state _ dead
    obtain ⟨memory, budget⟩ := state
    subst dead
    simp only [interrupted]
    split
    · simp
    · rfl
  closing := fun _ _ _ => rfl

/-! ### Copies that stay within a frame -/

section Frames

variable {σ : Type} {M : MemoryInterface σ} {R : σ → σ → Prop} {opens : MemId → MemMode → Prop}
  {writes : MemObject → Prop} (frames : Frames M R opens writes)

include frames

theorem swapChunkLoop_frames (src dst : MemObject) (swapSize : Nat) (readSwap writeSwap : Bool)
    (allowed : writes dst) (fuel swapFull offset step : Nat) (buffer : List UInt8) (memory : σ) :
    R memory (swapChunkLoop M src dst swapSize readSwap writeSwap fuel swapFull offset step buffer
      memory).2.2 := by
  induction fuel generalizing swapFull offset step buffer memory with
  | zero => exact frames.refl _
  | succ fuel ih =>
      rw [swapChunkLoop]
      split
      · obtain ⟨piece, cutDown⟩ : ∃ piece, (if swapSize < (sizeOfInt swapFull + step) % 2 ^ 64 then
            swapSize - swapFull else step) = piece := ⟨_, rfl⟩
        obtain ⟨start, source⟩ : ∃ start, (if readSwap then swapFull else offset) = start :=
          ⟨_, rfl⟩
        obtain ⟨place, target⟩ : ∃ place, (if writeSwap then swapFull else offset) = place :=
          ⟨_, rfl⟩
        simp only [cutDown, source, target]
        have read := frames.reading src piece start memory
        split
        · exact read
        · split
          · exact frames.trans read (frames.writing _ _ _ _ allowed)
          · exact frames.trans (frames.trans read (frames.writing _ _ _ _ allowed)) (ih _ _ _ _ _)
      · exact frames.refl _

theorem swapSlotsLoop_frames (obj1 obj2 objSwap : MemObject) (allowed : ∀ obj, writes obj)
    (size bufferSize fuel offset swapSize : Nat) (buffer : List UInt8) (memory : σ) :
    R memory (swapSlotsLoop M obj1 obj2 objSwap size bufferSize fuel offset swapSize buffer
      memory).2.2 := by
  have chunk := fun src dst offset swapSize readSwap writeSwap buffer memory =>
    swapChunkLoop_frames frames src dst swapSize readSwap writeSwap (allowed dst) loopFuel 0 offset
      bufferSize buffer memory
  induction fuel generalizing offset swapSize buffer memory with
  | zero => exact frames.refl _
  | succ fuel ih =>
      rw [swapSlotsLoop]
      split
      · obtain ⟨piece, cutDown⟩ : ∃ piece, (if size < (sizeOfInt offset + swapSize) % 2 ^ 64 then
            size - offset else swapSize) = piece := ⟨_, rfl⟩
        simp only [cutDown]
        split
        · exact chunk _ _ _ _ _ _ _ _
        · exact frames.trans (frames.trans (frames.trans (chunk _ _ _ _ _ _ _ _)
            (chunk _ _ _ _ _ _ _ _)) (chunk _ _ _ _ _ _ _ _)) (ih _ _ _ _)
      · exact frames.refl _

end Frames

/-! ### One chunk -/

section Chunk

variable (layout : PlainLayout)

/-- A read that succeeds. -/
theorem interrupted_read {obj : MemObject} {size offset : Nat} (state : Contents × Nat)
    (fits : offset + size ≤ layout.limit obj.id) :
    (interrupted layout).memoryRead obj size offset state =
      ((size : Int), readRange (state.1 obj.id) offset size, state) :=
  if_pos fits

theorem interrupted_read_outside {obj : MemObject} {size offset : Nat} (state : Contents × Nat)
    (out : ¬ offset + size ≤ layout.limit obj.id) :
    (interrupted layout).memoryRead obj size offset state = (-1, [], state.1, 0) :=
  if_neg out

/-- Writing what was read moves as much of it as the power lasts for. -/
theorem interrupted_write {src dst : MemObject} {size start target budget : Nat}
    (memory : Contents) (fits : target + size ≤ layout.limit dst.id) :
    (interrupted layout).memoryWrite dst (readRange (memory src.id) start size) target
        (memory, budget) =
      ((size : Int), moved memory src.id start dst.id target (min size budget),
        budget - size) := by
  have length : (readRange (memory src.id) start size).length = size := readRange_length _ _ _
  have part : (readRange (memory src.id) start size).take budget =
      readRange (memory src.id) start (min size budget) := by
    by_cases short : budget ≤ size
    · have cut : size = budget + (size - budget) := by omega
      rw [min_eq_right short, cut, readRange_add,
        List.take_left' (readRange_length _ _ _)]
    · rw [min_eq_left (by omega), List.take_of_length_le (by rw [length]; omega)]
  show (if _ then _ else _) = _
  rw [if_pos (by rw [length]; exact fits)]
  simp only [part, length]
  rfl

theorem interrupted_write_outside {obj : MemObject} {data : List UInt8} {offset : Nat}
    (state : Contents × Nat) (out : ¬ offset + data.length ≤ layout.limit obj.id) :
    (interrupted layout).memoryWrite obj data offset state = (-1, state.1, 0) :=
  if_neg out

/-- **A copy that loses power** has moved a part of the chunk. -/
theorem swapChunkLoop_interrupted {src dst : MemObject} (apart : src.id ≠ dst.id) {chunk : Nat}
    (narrow : chunk < 2 ^ 32) {readSwap writeSwap : Bool}
    (once : readSwap = false ∨ writeSwap = false) (fuel swapFull offset step : Nat)
    (buffer : List UInt8) (memory : Contents) (budget : Nat) (stepPositive : 0 < step)
    (stepSmall : step < 2 ^ 64) (below : swapFull ≤ chunk) (behind : swapFull ≤ offset)
    (offsetSmall : offset < 2 ^ 32) (enough : chunk - swapFull < fuel) :
    ∃ count err buffer' budget',
      swapChunkLoop (interrupted layout) src dst chunk readSwap writeSwap fuel swapFull offset step
          buffer (memory, budget) =
        (err, buffer', moved memory src.id (if readSwap then swapFull else offset) dst.id
          (if writeSwap then swapFull else offset) count, budget') ∧
      count ≤ chunk - swapFull ∧ budget' + count ≤ budget ∧ err ≠ .outOfFuel ∧
      ((err = .success ∧ count = chunk - swapFull ∧ offset + (chunk - swapFull) < 2 ^ 32) ∨
        budget' = 0) := by
  induction fuel generalizing swapFull offset step buffer memory budget with
  | zero => omega
  | succ fuel ih =>
      rw [swapChunkLoop]
      by_cases more : swapFull < chunk
      · obtain ⟨piece, cutDown⟩ : ∃ piece, (if chunk < (sizeOfInt swapFull + step) % 2 ^ 64 then
            chunk - swapFull else step) = piece := ⟨_, rfl⟩
        obtain ⟨start, source⟩ : ∃ start, (if readSwap then swapFull else offset) = start :=
          ⟨_, rfl⟩
        obtain ⟨place, target⟩ : ∃ place, (if writeSwap then swapFull else offset) = place :=
          ⟨_, rfl⟩
        rw [if_pos more]
        simp only [cutDown, source, target]
        by_cases readable : start + piece ≤ layout.limit src.id
        · have data : (splice buffer 0 (readRange (memory src.id) start piece)).take piece =
              readRange (memory src.id) start piece := by
            have whole := take_splice_zero buffer (readRange (memory src.id) start piece)
            rwa [readRange_length] at whole
          by_cases writable : place + piece ≤ layout.limit dst.id
          · -- The addresses do not wrap, so the step was cut down where it had to be.
            have low : offset + piece < 2 ^ 32 := by
              have limits := layout.limit_lt src.id
              have limitd := layout.limit_lt dst.id
              rcases once with straight | straight
              · rw [straight, if_neg Bool.false_ne_true] at source
                omega
              · rw [straight, if_neg Bool.false_ne_true] at target
                omega
            have room : 0 < piece ∧ swapFull + piece ≤ chunk := by
              by_cases cut : chunk < (sizeOfInt swapFull + step) % 2 ^ 64
              · rw [if_pos cut] at cutDown
                omega
              · rw [if_neg cut] at cutDown
                unfold sizeOfInt at cut
                split at cut
                · omega
                · omega
            have full : (swapFull + piece) % 2 ^ 32 = swapFull + piece :=
              Nat.mod_eq_of_lt (by omega)
            have next : (offset + piece) % 2 ^ 32 = offset + piece := Nat.mod_eq_of_lt low
            have nextSource : (if readSwap then swapFull + piece else offset + piece) =
                start + piece := by
              rw [← source]
              split
              · rfl
              · rfl
            have nextTarget : (if writeSwap then swapFull + piece else offset + piece) =
                place + piece := by
              rw [← target]
              split
              · rfl
              · rfl
            simp only [interrupted_read layout (memory, budget) readable, data,
              interrupted_write layout memory writable, ne_eq, not_true_eq_false, if_false, full,
              next]
            obtain ⟨count, err, buffer', budget', ran, short, paid, ended, outcome⟩ :=
              ih (swapFull + piece) (offset + piece) piece
                (splice buffer 0 (readRange (memory src.id) start piece))
                (moved memory src.id start dst.id place (min piece budget)) (budget - piece)
                room.1 (by omega) room.2 (by omega) low (by omega)
            rw [nextSource, nextTarget] at ran
            refine ⟨min piece budget + count, err, buffer', budget', ?_, by omega, by omega, ended,
              ?_⟩
            · rw [ran]
              by_cases last : piece ≤ budget
              · rw [min_eq_left last, moved_add _ _ _ _ _ _ _ (Or.inl apart)]
              · have none : count = 0 := by omega
                rw [none, moved_zero, Nat.add_zero]
            · rcases outcome with ⟨success, complete, inside⟩ | dead
              · by_cases last : piece ≤ budget
                · exact Or.inl ⟨success, by omega, by omega⟩
                · exact Or.inr (by omega)
              · exact Or.inr dead
          · have outside : ¬ place + (readRange (memory src.id) start piece).length ≤
                layout.limit dst.id := by
              rw [readRange_length]
              exact writable
            have failed : ¬ (-1 : Int) = piece := by omega
            simp only [interrupted_read layout (memory, budget) readable, data,
              interrupted_write_outside layout (memory, budget) outside, ne_eq, not_true_eq_false,
              if_false, failed, not_false_eq_true, if_true]
            exact ⟨0, .memoryWrite, _, 0, by rw [moved_zero], Nat.zero_le _, Nat.zero_le _,
              by decide, Or.inr rfl⟩
        · have failed : ¬ (-1 : Int) = piece := by omega
          simp only [interrupted_read_outside layout (memory, budget) readable, ne_eq, failed,
            not_false_eq_true, if_true]
          exact ⟨0, .memoryRead, _, 0, by rw [moved_zero], Nat.zero_le _, Nat.zero_le _,
            by decide, Or.inr rfl⟩
      · rw [if_neg more]
        refine ⟨0, .success, buffer, budget, ?_, Nat.zero_le _, Nat.le_refl _, by decide,
          Or.inl ⟨rfl, by omega, by omega⟩⟩
        rw [moved_zero]

end Chunk

/-! ### Inside a round -/

/-- The state inside a round that began at `start`: so many bytes of the round have been
overwritten in the first object and in the second one, and so many bytes of the first image are
parked in the swap object. -/
structure Midway (original memory : Contents) (id1 id2 idSwap : MemId)
    (start first second parked : Nat) : Prop where
  firstAt : ∀ address, memory id1 address =
    if address < start + first then original id2 address else original id1 address
  secondAt : ∀ address, memory id2 address =
    if address < start + second then original id1 address else original id2 address
  parkedAt : ∀ place, place < parked → memory idSwap place = original id1 (start + place)

/-- Each byte of the two images below `size` is still stored somewhere. `startOf` is the start of
the chunk a byte belongs to. -/
def Recoverable (original memory : Contents) (id1 id2 idSwap : MemId) (startOf : Nat → Nat)
    (size : Nat) : Prop :=
  ∀ address, address < size →
    (memory id1 address = original id1 address ∨ memory id2 address = original id1 address ∨
      memory idSwap (address - startOf address) = original id1 address) ∧
    (memory id2 address = original id2 address ∨ memory id1 address = original id2 address)

section Midway

variable {original memory : Contents} {id1 id2 idSwap : MemId} {start : Nat}

theorem midway_begin : Midway memory memory id1 id2 idSwap 0 0 0 0 where
  firstAt := fun _ => (if_neg (Nat.not_lt_zero _)).symm
  secondAt := fun _ => (if_neg (Nat.not_lt_zero _)).symm
  parkedAt := fun _ none => absurd none (Nat.not_lt_zero _)

/-- Parking. -/
theorem Midway.park (midway : Midway original memory id1 id2 idSwap start 0 0 0)
    (apart1 : id1 ≠ idSwap) (apart2 : id2 ≠ idSwap) (count : Nat) :
    Midway original (moved memory id1 start idSwap 0 count) id1 id2 idSwap start 0 0 count where
  firstAt := by
    rw [moved_other _ _ _ _ apart1]
    exact midway.firstAt
  secondAt := by
    rw [moved_other _ _ _ _ apart2]
    exact midway.secondAt
  parkedAt := by
    intro place inside
    rw [moved_apply, if_pos ⟨rfl, Nat.zero_le _, by omega⟩, midway.firstAt, if_neg (by omega),
      Nat.sub_zero]

/-- The second image into the first object. -/
theorem Midway.overwriteFirst {parked : Nat}
    (midway : Midway original memory id1 id2 idSwap start 0 0 parked)
    (apart : id2 ≠ id1) (apart1 : id1 ≠ idSwap) (count : Nat) :
    Midway original (moved memory id2 start id1 start count) id1 id2 idSwap start count 0
      parked where
  firstAt := by
    intro address
    have own := midway.firstAt address
    rw [moved_apply]
    by_cases inside : start ≤ address ∧ address < start + count
    · rw [if_pos ⟨rfl, inside⟩, if_pos inside.2, midway.secondAt, if_neg (by omega)]
      congr 1
      omega
    · rw [if_neg (fun both => inside both.2), own]
      by_cases done : address < start + 0
      · rw [if_pos done, if_pos (by omega)]
      · rw [if_neg done, if_neg (by omega)]
  secondAt := by
    rw [moved_other _ _ _ _ apart]
    exact midway.secondAt
  parkedAt := by
    rw [moved_other _ _ _ _ apart1.symm]
    exact midway.parkedAt

/-- What was parked into the second object. -/
theorem Midway.overwriteSecond {first parked : Nat}
    (midway : Midway original memory id1 id2 idSwap start first 0 parked)
    (apart : id2 ≠ id1) (apart2 : id2 ≠ idSwap) {count : Nat} (kept : count ≤ parked) :
    Midway original (moved memory idSwap 0 id2 start count) id1 id2 idSwap start first count
      parked where
  firstAt := by
    rw [moved_other _ _ _ _ apart.symm]
    exact midway.firstAt
  secondAt := by
    intro address
    have own := midway.secondAt address
    rw [moved_apply]
    by_cases inside : start ≤ address ∧ address < start + count
    · rw [if_pos ⟨rfl, inside⟩, if_pos inside.2, midway.parkedAt _ (by omega)]
      congr 1
      omega
    · rw [if_neg (fun both => inside both.2), own]
      by_cases done : address < start + 0
      · rw [if_pos done, if_pos (by omega)]
      · rw [if_neg done, if_neg (by omega)]
  parkedAt := by
    rw [moved_other _ _ _ _ apart2.symm]
    exact midway.parkedAt

/-- The round is over. -/
theorem Midway.next {piece parked : Nat}
    (midway : Midway original memory id1 id2 idSwap start piece piece parked) :
    Midway original memory id1 id2 idSwap (start + piece) 0 0 0 where
  firstAt := midway.firstAt
  secondAt := midway.secondAt
  parkedAt := fun _ none => absurd none (Nat.not_lt_zero _)

/-- **Nothing is lost inside a round**: the second object is overwritten only where the first one
is, and the first one only where it has been parked. -/
theorem Midway.recoverable {first second parked size : Nat} {startOf : Nat → Nat}
    (midway : Midway original memory id1 id2 idSwap start first second parked)
    (behind : second ≤ first) (saved : first ≤ parked)
    (starts : ∀ address, start ≤ address → address < start + parked → address < size →
      startOf address = start) :
    Recoverable original memory id1 id2 idSwap startOf size := by
  intro address below
  constructor
  · by_cases untouched : address < start + first
    · by_cases passed : address < start + second
      · refine Or.inr (Or.inl ?_)
        rw [midway.secondAt, if_pos passed]
      · refine Or.inr (Or.inr ?_)
        by_cases before : start ≤ address
        · rw [starts address before (by omega) below, midway.parkedAt _ (by omega)]
          congr 1
          omega
        · omega
    · refine Or.inl ?_
      rw [midway.firstAt, if_neg untouched]
  · by_cases passed : address < start + first
    · refine Or.inr ?_
      rw [midway.firstAt, if_pos passed]
    · refine Or.inl ?_
      rw [midway.secondAt, if_neg (by omega)]

end Midway

/-! ### Where the chunks start -/

/-- The start of the chunk that holds an address. From `2 ^ 31` on the `int` offset is negative,
and the first chunk that starts there takes all the rest. -/
def chunkStart (swapSize address : Nat) : Nat :=
  min (address / swapSize * swapSize) ((2 ^ 31 + swapSize - 1) / swapSize * swapSize)

section Starts

variable {swapSize count : Nat}

theorem div_of_chunk {address : Nat} (above : count * swapSize ≤ address)
    (below : address < count * swapSize + swapSize) : address / swapSize = count := by
  refine Nat.div_eq_of_lt_le ?_ ?_
  · exact above
  · rw [Nat.succ_mul]
    exact below

/-- Below `2 ^ 31` the chunks are the multiples of their size. -/
theorem chunkStart_low {address : Nat} (positive : 0 < swapSize) (low : count * swapSize < 2 ^ 31)
    (above : count * swapSize ≤ address) (below : address < count * swapSize + swapSize) :
    chunkStart swapSize address = count * swapSize := by
  have lastChunk : count ≤ (2 ^ 31 + swapSize - 1) / swapSize :=
    (Nat.le_div_iff_mul_le positive).mpr (by omega)
  have order := Nat.mul_le_mul_right swapSize lastChunk
  rw [chunkStart, div_of_chunk above below]
  exact min_eq_left order

/-- The chunk that starts at or above `2 ^ 31` has no end. -/
theorem chunkStart_high {address : Nat} (positive : 0 < swapSize)
    (high : 2 ^ 31 ≤ count * swapSize) (first : count * swapSize < 2 ^ 31 + swapSize)
    (above : count * swapSize ≤ address) : chunkStart swapSize address = count * swapSize := by
  have lastChunk : (2 ^ 31 + swapSize - 1) / swapSize = count :=
    div_of_chunk (by omega) (by omega)
  have later : count ≤ address / swapSize := (Nat.le_div_iff_mul_le positive).mpr above
  have order := Nat.mul_le_mul_right swapSize later
  rw [chunkStart, lastChunk]
  exact min_eq_right order

/-- What the loop of `swap_slots` makes of the size of a chunk. -/
theorem chunk_piece {size piece : Nat} (positive : 0 < swapSize) (small : swapSize < 2 ^ 64)
    (sizeSmall : size < 2 ^ 32) (first : count * swapSize < 2 ^ 31 + swapSize)
    (more : count * swapSize < size)
    (cutDown : (if size < (sizeOfInt (count * swapSize) + swapSize) % 2 ^ 64 then
      size - count * swapSize else swapSize) = piece) :
    0 < piece ∧ piece < 2 ^ 32 ∧
      (count * swapSize + piece = size ∨ piece = swapSize ∧
        (2 ^ 32 ≤ count * swapSize + swapSize ∨ count * swapSize < 2 ^ 31)) ∧
      ∀ address, count * swapSize ≤ address → address < count * swapSize + piece →
        address < size → chunkStart swapSize address = count * swapSize := by
  have behind : count = 0 ∨ swapSize ≤ count * swapSize := by
    cases count with
    | zero => exact Or.inl rfl
    | succ count => exact Or.inr (Nat.le_mul_of_pos_left _ (Nat.succ_pos _))
  by_cases high : 2 ^ 31 ≤ count * swapSize
  · have narrow : swapSize ≤ count * swapSize := by
      rcases behind with start | later
      · rw [start] at high
        omega
      · exact later
    have starts := fun address above =>
      @chunkStart_high swapSize count address positive high first above
    by_cases cut : size < (sizeOfInt (count * swapSize) + swapSize) % 2 ^ 64
    · rw [if_pos cut] at cutDown
      exact ⟨by omega, by omega, Or.inl (by omega), fun address above _ _ => starts address above⟩
    · rw [if_neg cut] at cutDown
      rw [sizeOfInt, if_neg (by omega)] at cut
      exact ⟨by omega, by omega, Or.inr ⟨by omega, by omega⟩,
        fun address above _ _ => starts address above⟩
  · have starts := fun address above below =>
      @chunkStart_low swapSize count address positive (by omega) above below
    have unwrapped : (sizeOfInt (count * swapSize) + swapSize) % 2 ^ 64 =
        count * swapSize + swapSize := by
      rw [sizeOfInt_small (by omega)]
      refine Nat.mod_eq_of_lt ?_
      rcases behind with start | later
      · rw [start]
        omega
      · omega
    rw [unwrapped] at cutDown
    by_cases cut : size < count * swapSize + swapSize
    · rw [if_pos cut] at cutDown
      exact ⟨by omega, by omega, Or.inl (by omega),
        fun address above _ below => starts address above (by omega)⟩
    · rw [if_neg cut] at cutDown
      exact ⟨by omega, by omega, Or.inr ⟨by omega, by omega⟩,
        fun address above _ below => starts address above (by omega)⟩

end Starts

/-! ### One round -/

section Rounds

variable (layout : PlainLayout) {obj1 obj2 objSwap : MemObject}

/-- `swapChunkLoop_interrupted` for a whole chunk. -/
theorem swapChunk_interrupted {src dst : MemObject} (apart : src.id ≠ dst.id)
    {chunk bufferSize : Nat} (narrow : chunk < 2 ^ 32) (offset : Nat) (readSwap writeSwap : Bool)
    (once : readSwap = false ∨ writeSwap = false) (buffer : List UInt8) (memory : Contents)
    (budget : Nat) (bufferPositive : 0 < bufferSize) (bufferSmall : bufferSize < 2 ^ 64)
    (offsetSmall : offset < 2 ^ 32) :
    ∃ count err buffer' budget',
      swapChunk (interrupted layout) src dst offset (chunk % 2 ^ 32) buffer bufferSize readSwap
          writeSwap (memory, budget) =
        (err, buffer', moved memory src.id (if readSwap then 0 else offset) dst.id
          (if writeSwap then 0 else offset) count, budget') ∧
      count ≤ chunk ∧ err ≠ .outOfFuel ∧
      ((err = .success ∧ count = chunk ∧ offset + chunk < 2 ^ 32) ∨ budget' = 0) := by
  obtain ⟨count, err, buffer', budget', ran, short, _, ended, outcome⟩ :=
    swapChunkLoop_interrupted layout apart narrow once loopFuel 0 offset bufferSize buffer memory
      budget bufferPositive bufferSmall (Nat.zero_le _) (Nat.zero_le _) offsetSmall
      (by unfold loopFuel; omega)
  rw [swapChunk, Nat.mod_eq_of_lt narrow]
  exact ⟨count, err, buffer', budget', ran, short, ended, outcome⟩

/-- **A round that loses power** is complete, or it leaves the memory inside it. -/
theorem swapSlotsLoop_roundInterrupted {original memory : Contents}
    {size bufferSize fuel offset swapSize piece budget : Nat} {buffer : List UInt8}
    (apart : obj2.id ≠ obj1.id) (apart1 : obj1.id ≠ objSwap.id) (apart2 : obj2.id ≠ objSwap.id)
    (more : offset < size) (sizeSmall : size < 2 ^ 32)
    (cutDown : (if size < (sizeOfInt offset + swapSize) % 2 ^ 64 then size - offset
      else swapSize) = piece)
    (narrow : piece < 2 ^ 32) (bufferPositive : 0 < bufferSize) (bufferSmall : bufferSize < 2 ^ 64)
    (begun : Midway original memory obj1.id obj2.id objSwap.id offset 0 0 0) :
    (offset + piece < 2 ^ 32 ∧ ∃ buffer' memory' budget',
      swapSlotsLoop (interrupted layout) obj1 obj2 objSwap size bufferSize (fuel + 1) offset
          swapSize buffer (memory, budget) =
        swapSlotsLoop (interrupted layout) obj1 obj2 objSwap size bufferSize fuel (offset + piece)
          piece buffer' (memory', budget') ∧
      Midway original memory' obj1.id obj2.id objSwap.id (offset + piece) 0 0 0) ∨
    ∃ memory' first second parked,
      (swapSlotsLoop (interrupted layout) obj1 obj2 objSwap size bufferSize (fuel + 1) offset
        swapSize buffer (memory, budget)).2.2 = (memory', 0) ∧
      Midway original memory' obj1.id obj2.id objSwap.id offset first second parked ∧
      second ≤ first ∧ first ≤ parked ∧ parked ≤ piece := by
  have chunkFrozen := fun src dst readSwap writeSwap buffer memory =>
    swapChunkLoop_frames (interrupted_frames layout) src dst (piece % 2 ^ 32) readSwap writeSwap
      trivial loopFuel 0 offset bufferSize buffer (memory, 0) rfl
  have loopFrozen := fun next buffer memory =>
    swapSlotsLoop_frames (interrupted_frames layout) obj1 obj2 objSwap (fun _ => trivial) size
      bufferSize fuel next piece buffer (memory, 0) rfl
  obtain ⟨count1, err1, buffer1, budget1, ran1, short1, -, outcome1⟩ :=
    swapChunk_interrupted layout apart1 narrow offset false true (Or.inl rfl) buffer memory budget
      bufferPositive bufferSmall (by omega)
  obtain ⟨memory1, park⟩ : ∃ memory1, moved memory obj1.id offset objSwap.id 0 count1 = memory1 :=
    ⟨_, rfl⟩
  have parked := begun.park apart1 apart2 count1
  simp only [Bool.false_eq_true, if_false, if_true, park] at ran1 parked
  rw [swapSlotsLoop, if_pos more]
  simp only [cutDown, ran1]
  rcases outcome1 with ⟨rfl, rfl, inside⟩ | rfl
  · rw [if_neg (by decide)]
    obtain ⟨count2, err2, buffer2, budget2, ran2, short2, -, outcome2⟩ :=
      swapChunk_interrupted layout apart narrow offset false false (Or.inl rfl) buffer1 memory1
        budget1 bufferPositive bufferSmall (by omega)
    obtain ⟨memory2, overwrite⟩ :
        ∃ memory2, moved memory1 obj2.id offset obj1.id offset count2 = memory2 := ⟨_, rfl⟩
    have first := parked.overwriteFirst apart apart1 count2
    simp only [Bool.false_eq_true, if_false, overwrite] at ran2 first
    simp only [ran2]
    rcases outcome2 with ⟨rfl, rfl, -⟩ | rfl
    · obtain ⟨count3, err3, buffer3, budget3, ran3, short3, -, outcome3⟩ :=
        swapChunk_interrupted layout apart2.symm narrow offset true false (Or.inr rfl) buffer2
          memory2 budget2 bufferPositive bufferSmall (by omega)
      obtain ⟨memory3, restore⟩ :
          ∃ memory3, moved memory2 objSwap.id 0 obj2.id offset count3 = memory3 := ⟨_, rfl⟩
      have second := first.overwriteSecond apart apart2 short3
      simp only [Bool.false_eq_true, if_false, if_true, restore] at ran3 second
      simp only [ran3]
      rcases outcome3 with ⟨rfl, rfl, -⟩ | rfl
      · rw [Nat.mod_eq_of_lt inside]
        exact Or.inl ⟨inside, buffer3, memory3, budget3, rfl, second.next⟩
      · exact Or.inr ⟨memory3, _, _, _, loopFrozen _ _ _, second, short3, Nat.le_refl _,
          Nat.le_refl _⟩
    · refine Or.inr ⟨memory2, _, _, _, ?_, first, Nat.zero_le _, short2, Nat.le_refl _⟩
      have third := chunkFrozen objSwap obj2 true false buffer2 memory2
      rw [swapChunk, third]
      exact loopFrozen _ _ _
  · refine Or.inr ⟨memory1, _, _, _, ?_, parked, Nat.le_refl _, Nat.zero_le _, short1⟩
    split
    · rfl
    · rw [swapChunk, swapChunk, chunkFrozen obj2 obj1 false false buffer1 memory1,
        chunkFrozen objSwap obj2 true false _ memory1]
      exact loopFrozen _ _ _

/-- **The loop**: wherever the power ends, nothing is lost. The induction is on the rounds left;
they begin at multiples of the chunk size. -/
theorem swapSlotsLoop_interrupted {original : Contents} {size bufferSize swapSize : Nat}
    (apart : obj2.id ≠ obj1.id) (apart1 : obj1.id ≠ objSwap.id) (apart2 : obj2.id ≠ objSwap.id)
    (sizeSmall : size < 2 ^ 32) (swapPositive : 0 < swapSize) (swapSmall : swapSize < 2 ^ 64)
    (bufferPositive : 0 < bufferSize) (bufferSmall : bufferSize < 2 ^ 64)
    (fuel count : Nat) (buffer : List UInt8) (memory : Contents) (budget : Nat)
    (enough : size - count * swapSize < fuel) (first : count * swapSize < 2 ^ 31 + swapSize)
    (begun : Midway original memory obj1.id obj2.id objSwap.id (count * swapSize) 0 0 0) :
    ∃ err buffer' memory' budget', swapSlotsLoop (interrupted layout) obj1 obj2 objSwap size
        bufferSize fuel (count * swapSize) swapSize buffer (memory, budget) =
      (err, buffer', memory', budget') ∧
      Recoverable original memory' obj1.id obj2.id objSwap.id (chunkStart swapSize) size ∧
      (err = .outOfFuel → budget' = 0) := by
  induction fuel generalizing count buffer memory budget with
  | zero => omega
  | succ fuel ih =>
      by_cases more : count * swapSize < size
      · obtain ⟨piece, cutDown⟩ : ∃ piece, (if size < (sizeOfInt (count * swapSize) + swapSize) %
            2 ^ 64 then size - count * swapSize else swapSize) = piece := ⟨_, rfl⟩
        obtain ⟨positive, narrow, shape, starts⟩ :=
          chunk_piece swapPositive swapSmall sizeSmall first more cutDown
        rcases @swapSlotsLoop_roundInterrupted layout obj1 obj2 objSwap original memory size
            bufferSize fuel _ swapSize piece budget buffer apart apart1 apart2 more sizeSmall
            cutDown narrow bufferPositive bufferSmall begun with
          ⟨inside, buffer', memory', budget', round, next⟩ |
          ⟨memory', first, second, parked, cut, midway, behind, saved, short⟩
        · rw [round]
          rcases shape with ends | ⟨rfl, wrapped | low⟩
          · -- The last round was cut down, so the loop ends.
            rw [ends] at next ⊢
            cases fuel with
            | zero => omega
            | succ fuel =>
                rw [swapSlotsLoop, if_neg (Nat.lt_irrefl _)]
                refine ⟨.success, buffer', memory', budget', rfl, ?_, PullError.noConfusion⟩
                exact next.recoverable (Nat.le_refl _) (Nat.le_refl _) (by omega)
          · omega
          · have step : count * piece + piece = (count + 1) * piece := by
              rw [Nat.add_mul, Nat.one_mul]
            rw [step] at next inside ⊢
            exact ih (count + 1) buffer' memory' budget' (by omega) (by omega) next
        · obtain ⟨err, ended⟩ : ∃ err, (swapSlotsLoop (interrupted layout) obj1 obj2 objSwap size
              bufferSize (fuel + 1) (count * swapSize) swapSize buffer (memory, budget)).1 = err :=
            ⟨_, rfl⟩
          refine ⟨err, _, memory', 0, Prod.ext ended (Prod.ext rfl cut), ?_, fun _ => rfl⟩
          exact midway.recoverable behind saved
            (fun address above below inside => starts address above (by omega) inside)
      · rw [swapSlotsLoop, if_neg more]
        refine ⟨.success, buffer, memory, budget, rfl, ?_, PullError.noConfusion⟩
        exact begun.recoverable (Nat.le_refl _) (Nat.le_refl _) (by omega)

theorem readFirmwareManifest_interrupted (obj : MemObject) (memory : Contents) (budget : Nat) :
    readFirmwareManifest (interrupted layout) obj (memory, budget) =
        (.success, manifestAt memory obj.id, memory, budget) ∨
      ∃ err mt, readFirmwareManifest (interrupted layout) obj (memory, budget) =
        (err, mt, memory, 0) ∧ err ≠ .success := by
  by_cases fits : 0 + sizeofManifest ≤ layout.limit obj.id
  · refine Or.inl ?_
    rw [readFirmwareManifest, interrupted_read layout (memory, budget) fits]
    rfl
  · refine Or.inr ?_
    rw [readFirmwareManifest, interrupted_read_outside layout (memory, budget) fits]
    exact ⟨_, _, rfl, by decide⟩

/-- **No byte is lost.** However many byte writes the power lasts for, each byte of the first image
is in one of the two objects or in the swap object, at its place in its chunk, and each byte of the
second image is in one of the two objects. The loop ends whenever the power lasts. -/
theorem swapSlots_recoverable {swapSize bufferSize : Nat} (apart : obj2.id ≠ obj1.id)
    (apart1 : obj1.id ≠ objSwap.id) (apart2 : obj2.id ≠ objSwap.id) (bufferPositive : 0 < bufferSize)
    (larger : bufferSize < swapSize) (swapSmall : swapSize < 2 ^ 64) (buffer : List UInt8)
    (memory : Contents) (cut : Nat) :
    ∃ err buffer' memory' left, swapSlots (interrupted layout) obj1 obj2 objSwap swapSize buffer
        bufferSize (memory, cut) = (err, buffer', memory', left) ∧
      Recoverable memory memory' obj1.id obj2.id objSwap.id (chunkStart swapSize)
        (swapLength memory obj1.id obj2.id) ∧
      (err = .outOfFuel → left = 0) := by
  have untouched : Recoverable memory memory obj1.id obj2.id objSwap.id (chunkStart swapSize)
      (swapLength memory obj1.id obj2.id) :=
    fun _ _ => ⟨Or.inl rfl, Or.inl rfl⟩
  rw [swapSlots]
  rcases readFirmwareManifest_interrupted layout obj1 memory cut with
    read1 | ⟨err, mt, read1, failed⟩
  · simp only [read1, ne_eq, not_true_eq_false, if_false]
    rcases readFirmwareManifest_interrupted layout obj2 memory cut with
      read2 | ⟨err, mt, read2, failed⟩
    · have small : swapLength memory obj1.id obj2.id < 2 ^ 32 :=
        max_lt (Nat.mod_lt _ (by decide)) (Nat.mod_lt _ (by decide))
      have looped := swapSlotsLoop_interrupted layout apart apart1 apart2 small (by omega)
        swapSmall bufferPositive (by omega) loopFuel 0 buffer memory cut
        (by unfold loopFuel; omega) (by omega) (by rw [Nat.zero_mul]; exact midway_begin)
      simp only [read2, not_true_eq_false, if_false, swapLength_eq_ite]
      rwa [Nat.zero_mul] at looped
    · simp only [read2, failed, not_false_eq_true, if_true]
      exact ⟨err, buffer, memory, 0, rfl, untouched, fun _ => rfl⟩
  · simp only [read1, ne_eq, failed, not_false_eq_true, if_true]
    exact ⟨err, buffer, memory, 0, rfl, untouched, fun _ => rfl⟩

end Rounds

/-- A swap of 200 bytes that is cut off in its second round. -/
theorem twoImages_recoverable :
    swapLength twoImages 0 1 = 200 ∧
    ∃ err buffer memory left, swapSlots (interrupted smallLayout) ⟨0, .writeChunk⟩
        ⟨1, .writeChunk⟩ ⟨2, .writeChunk⟩ 64 (List.replicate 16 0) 16 (twoImages, 250) =
        (err, buffer, memory, left) ∧
      Recoverable twoImages memory 0 1 2 (chunkStart 64) (swapLength twoImages 0 1) ∧
      (err = .outOfFuel → left = 0) :=
  ⟨by decide +kernel, swapSlots_recoverable smallLayout (by decide) (by decide) (by decide)
    (by decide) (by decide) (by decide) _ twoImages 250⟩

end Upkit
