/-
**Swapping over a memory whose operations fail.**

`swap_slots` checks the result of the first copy of a round and drops those of the second and the
third. Over a memory in which each read and each write of each object may fail or be short, it
therefore reports an error exactly when one of the checked operations fails; where one of the others
does, the last byte of that chunk stays as it was and the walk goes on.

* `faulty` — plain memory with a verdict for the `k`-th read and the `k`-th write of each object.
* `swapChunk_outcome` — one copy: it succeeds exactly when none of its operations fails, and a
  copy that fails leaves the last byte of its target.
* `Walked` — what the rounds so far have done; `swapSlotsLoop_walked` — the whole walk.
* `swapSlots_reports` — the failures that `swap_slots` reports, and those that it does not.
-/

import Mathlib.Data.Finset.Card
import Upkit.Memory.Swap

namespace Upkit

open Bytes

/-! ### Failing memory -/

/-- What becomes of an operation: it is carried out, it fails, or it is short. -/
inductive Verdict
  | ok
  | fails
  | short (count : Nat)
  deriving DecidableEq, Repr

/-- What becomes of the reads and the writes of each object, in the order in which they are made. -/
structure Faults where
  read : MemId → Nat → Verdict
  write : MemId → Nat → Verdict

/-- The contents of a memory, with the numbers of reads and writes made so far. -/
structure FaultState where
  contents : Contents
  reads : MemId → Nat
  writes : MemId → Nat

/-- Nothing read or written yet. -/
def FaultState.start (contents : Contents) : FaultState := ⟨contents, fun _ => 0, fun _ => 0⟩

def FaultState.noteRead (state : FaultState) (id : MemId) : FaultState :=
  { state with reads := Function.update state.reads id (state.reads id + 1) }

/-- A write of an object, of which `data` is stored. -/
def FaultState.store (state : FaultState) (id : MemId) (offset : Nat) (data : List UInt8) : FaultState where
  contents := Function.update state.contents id (writeRange (state.contents id) offset data)
  reads := state.reads
  writes := Function.update state.writes id (state.writes id + 1)

/-- Objects of `limit` bytes with operations that may fail. A short operation moves fewer bytes than
it was asked to, and returns their number. -/
def faulty (limit : Nat) (faults : Faults) : MemoryInterface FaultState where
  memoryOpen := fun id mode state => (.success, ⟨id, mode⟩, state)
  memoryRead := fun obj size offset state =>
    if offset + size ≤ limit then
      match faults.read obj.id (state.reads obj.id) with
      | .ok =>
          ((size : Int), readRange (state.contents obj.id) offset size, state.noteRead obj.id)
      | .fails => (-1, [], state.noteRead obj.id)
      | .short count =>
          ((min count (size - 1) : Nat),
            readRange (state.contents obj.id) offset (min count (size - 1)),
            state.noteRead obj.id)
    else (-1, [], state.noteRead obj.id)
  memoryWrite := fun obj data offset state =>
    if offset + data.length ≤ limit then
      match faults.write obj.id (state.writes obj.id) with
      | .ok => ((data.length : Int), state.store obj.id offset data)
      | .fails => (-1, state.store obj.id offset [])
      | .short count =>
          ((min count (data.length - 1) : Nat),
            state.store obj.id offset (data.take (min count (data.length - 1))))
    else (-1, state.store obj.id offset [])
  memoryClose := fun _ state => (.success, state)
  open_id := fun _ _ _ _ => rfl
  read_length := by
    intro obj size offset state reported
    by_cases fits : offset + size ≤ limit
    · rw [if_pos fits] at reported ⊢
      cases verdict : faults.read obj.id (state.reads obj.id) with
      | ok => exact readRange_length _ _ _
      | fails =>
          rw [verdict] at reported
          exact absurd reported (by simp only; omega)
      | short count =>
          rw [verdict] at reported
          simp only at reported ⊢
          rw [readRange_length]
          exact_mod_cast reported
    · rw [if_neg fits] at reported
      exact absurd reported (by simp only; omega)

section Operations

variable {limit : Nat} {faults : Faults}

theorem faulty_read {obj : MemObject} {size offset : Nat} {state : FaultState}
    (fits : offset + size ≤ limit) (ok : faults.read obj.id (state.reads obj.id) = .ok) :
    (faulty limit faults).memoryRead obj size offset state =
      ((size : Int), readRange (state.contents obj.id) offset size, state.noteRead obj.id) := by
  simp only [faulty, if_pos fits, ok]

/-- A read that is not carried out does not return what it was asked for. -/
theorem faulty_read_fails {obj : MemObject} {size offset : Nat} {state : FaultState}
    (positive : 0 < size)
    (bad : ¬(offset + size ≤ limit ∧ faults.read obj.id (state.reads obj.id) = .ok)) :
    ((faulty limit faults).memoryRead obj size offset state).1 ≠ size ∧
      ((faulty limit faults).memoryRead obj size offset state).2.2 = state.noteRead obj.id := by
  by_cases fits : offset + size ≤ limit
  · simp only [faulty, if_pos fits]
    cases verdict : faults.read obj.id (state.reads obj.id) with
    | ok => exact absurd ⟨fits, verdict⟩ bad
    | fails => exact ⟨by simp only; omega, rfl⟩
    | short count => exact ⟨by simp only; omega, rfl⟩
  · simp only [faulty, if_neg fits]
    exact ⟨by omega, trivial⟩

theorem faulty_write {obj : MemObject} {data : List UInt8} {offset : Nat} {state : FaultState}
    (fits : offset + data.length ≤ limit)
    (ok : faults.write obj.id (state.writes obj.id) = .ok) :
    (faulty limit faults).memoryWrite obj data offset state =
      ((data.length : Int), state.store obj.id offset data) := by
  simp only [faulty, if_pos fits, ok]

/-- A write that is not carried out stores less than it was asked to, and says so. -/
theorem faulty_write_fails {obj : MemObject} {data : List UInt8} {offset : Nat} {state : FaultState}
    (positive : 0 < data.length)
    (bad : ¬(offset + data.length ≤ limit ∧
      faults.write obj.id (state.writes obj.id) = .ok)) :
    ((faulty limit faults).memoryWrite obj data offset state).1 ≠ data.length ∧
      ∃ stored : List UInt8, stored.length < data.length ∧
        ((faulty limit faults).memoryWrite obj data offset state).2 =
          state.store obj.id offset stored := by
  by_cases fits : offset + data.length ≤ limit
  · simp only [faulty, if_pos fits]
    cases verdict : faults.write obj.id (state.writes obj.id) with
    | ok => exact absurd ⟨fits, verdict⟩ bad
    | fails => exact ⟨by simp only; omega, [], positive, rfl⟩
    | short count =>
        refine ⟨by simp only; omega, _, ?_, rfl⟩
        rw [List.length_take]
        omega
  · simp only [faulty, if_neg fits]
    exact ⟨by omega, [], positive, rfl⟩

end Operations

/-! ### One copy -/

/-- What a copy may change: a range of its target, and the numbers of its own reads and writes. -/
structure Touched (src dst : MemId) (low high : Nat) (before after : FaultState) : Prop where
  others : ∀ id, id ≠ dst → after.contents id = before.contents id
  outside : ∀ address, address < low ∨ high ≤ address →
    after.contents dst address = before.contents dst address
  reads : ∀ id, id ≠ src → after.reads id = before.reads id
  writes : ∀ id, id ≠ dst → after.writes id = before.writes id

theorem Touched.trans {src dst : MemId} {low middle high : Nat} {before between after : FaultState}
    (first : Touched src dst low middle before between)
    (second : Touched src dst middle high between after) (ordered : low ≤ middle)
    (ordered' : middle ≤ high) : Touched src dst low high before after where
  others := fun id other => (second.others id other).trans (first.others id other)
  outside := fun address out =>
    (second.outside address (by omega)).trans (first.outside address (by omega))
  reads := fun id other => (second.reads id other).trans (first.reads id other)
  writes := fun id other => (second.writes id other).trans (first.writes id other)

theorem Touched.mono {src dst : MemId} {low high high' : Nat} {before after : FaultState}
    (touched : Touched src dst low high before after) (longer : high ≤ high') :
    Touched src dst low high' before after where
  others := touched.others
  outside := fun address out => touched.outside address (by omega)
  reads := touched.reads
  writes := touched.writes

theorem FaultState.stored_touched (state : FaultState) (src dst : MemId) (offset : Nat)
    (data : List UInt8) :
    Touched src dst offset (offset + data.length) state
      ((state.noteRead src).store dst offset data) where
  others := fun _ other => Function.update_of_ne other _ _
  outside := by
    intro address out
    have here : ((state.noteRead src).store dst offset data).contents dst =
        writeRange (state.contents dst) offset data := Function.update_self _ _ _
    rw [here]
    exact writeRange_outside _ (by omega)
  reads := fun _ other => Function.update_of_ne other _ _
  writes := fun _ other => Function.update_of_ne other _ _

/-- The state after a copy of `size` bytes in `count` steps. -/
def FaultState.copied (state : FaultState) (src : MemId) (start : Nat) (dst : MemId)
    (target size count : Nat) : FaultState where
  contents := moved state.contents src start dst target size
  reads := Function.update state.reads src (state.reads src + count)
  writes := Function.update state.writes dst (state.writes dst + count)

theorem FaultState.copied_touched (state : FaultState) (src : MemId) (start : Nat) (dst : MemId)
    (target size count : Nat) :
    Touched src dst target (target + size) state
      (state.copied src start dst target size count) where
  others := fun _ other => moved_other _ _ _ _ other
  outside := by
    intro address out
    show moved _ _ _ _ _ _ _ _ = _
    rw [moved_target]
    exact writeRange_outside _ (by rw [readRange_length]; omega)
  reads := fun _ other => Function.update_of_ne other _ _
  writes := fun _ other => Function.update_of_ne other _ _

section Copy

variable {limit : Nat} {faults : Faults} {src dst : MemObject} {swapSize : Nat}
  {readSwap writeSwap : Bool}

/-- One step of a copy that is carried out. -/
theorem swapChunkLoop_carried {fuel swapFull offset step : Nat} {buffer : List UInt8}
    {state : FaultState} (piece : Nat) (more : swapFull < swapSize)
    (cutDown : (if swapSize < (sizeOfInt swapFull + step) % 2 ^ 64 then swapSize - swapFull
      else step) = piece)
    (readable : (if readSwap then swapFull else offset) + piece ≤ limit)
    (writable : (if writeSwap then swapFull else offset) + piece ≤ limit)
    (readOk : faults.read src.id (state.reads src.id) = .ok)
    (writeOk : faults.write dst.id (state.writes dst.id) = .ok) :
    ∃ buffer', swapChunkLoop (faulty limit faults) src dst swapSize readSwap writeSwap (fuel + 1)
        swapFull offset step buffer state =
      swapChunkLoop (faulty limit faults) src dst swapSize readSwap writeSwap fuel
        ((swapFull + piece) % 2 ^ 32) ((offset + piece) % 2 ^ 32) piece buffer'
        (state.copied src.id (if readSwap then swapFull else offset) dst.id
          (if writeSwap then swapFull else offset) piece 1) := by
  obtain ⟨start, source⟩ : ∃ start, (if readSwap then swapFull else offset) = start := ⟨_, rfl⟩
  obtain ⟨place, target⟩ : ∃ place, (if writeSwap then swapFull else offset) = place := ⟨_, rfl⟩
  rw [source] at readable ⊢
  rw [target] at writable ⊢
  have data : (splice buffer 0 (readRange (state.contents src.id) start piece)).take piece =
      readRange (state.contents src.id) start piece := by
    rw [splice_zero, List.take_append_of_le_length (by rw [readRange_length]),
      List.take_of_length_le (by rw [readRange_length])]
  have wrote := @faulty_write limit faults dst (readRange (state.contents src.id) start piece)
    place (state.noteRead src.id) (by rw [readRange_length]; exact writable) writeOk
  rw [readRange_length] at wrote
  refine ⟨splice buffer 0 (readRange (state.contents src.id) start piece), ?_⟩
  rw [swapChunkLoop, if_pos more]
  simp only [cutDown, source, target, faulty_read readable readOk, data, wrote, ne_eq,
    not_true_eq_false, if_false]
  rfl

/-- One step of a copy that is not carried out: the copy ends, and the last byte of the step is not
written. -/
theorem swapChunkLoop_broken {fuel swapFull offset step : Nat} {buffer : List UInt8}
    {state : FaultState} (piece : Nat) (more : swapFull < swapSize) (positive : 0 < piece)
    (cutDown : (if swapSize < (sizeOfInt swapFull + step) % 2 ^ 64 then swapSize - swapFull
      else step) = piece)
    (bad : ¬((if readSwap then swapFull else offset) + piece ≤ limit ∧
      (if writeSwap then swapFull else offset) + piece ≤ limit ∧
      faults.read src.id (state.reads src.id) = .ok ∧
      faults.write dst.id (state.writes dst.id) = .ok)) :
    (swapChunkLoop (faulty limit faults) src dst swapSize readSwap writeSwap (fuel + 1) swapFull
        offset step buffer state).1 ≠ .success ∧
      Touched src.id dst.id (if writeSwap then swapFull else offset)
        ((if writeSwap then swapFull else offset) + piece - 1) state
        (swapChunkLoop (faulty limit faults) src dst swapSize readSwap writeSwap (fuel + 1)
          swapFull offset step buffer state).2.2 := by
  obtain ⟨start, source⟩ : ∃ start, (if readSwap then swapFull else offset) = start := ⟨_, rfl⟩
  obtain ⟨place, target⟩ : ∃ place, (if writeSwap then swapFull else offset) = place := ⟨_, rfl⟩
  rw [source, target] at bad
  rw [target, swapChunkLoop, if_pos more]
  simp only [cutDown, source, target]
  by_cases readFine : start + piece ≤ limit ∧ faults.read src.id (state.reads src.id) = .ok
  · have data : (splice buffer 0 (readRange (state.contents src.id) start piece)).take piece =
        readRange (state.contents src.id) start piece := by
      rw [splice_zero, List.take_append_of_le_length (by rw [readRange_length]),
        List.take_of_length_le (by rw [readRange_length])]
    obtain ⟨reported, stored, shorter, after⟩ := @faulty_write_fails limit faults dst
      (readRange (state.contents src.id) start piece) place (state.noteRead src.id)
      (by rw [readRange_length]; exact positive) (by
        rw [readRange_length]
        exact fun fine => bad ⟨readFine.1, fine.1, readFine.2, fine.2⟩)
    rw [readRange_length] at reported shorter
    simp only [faulty_read readFine.1 readFine.2, data, ne_eq, not_true_eq_false, if_false,
      reported, not_false_eq_true, if_true, after]
    exact ⟨by simp, (state.stored_touched src.id dst.id place stored).mono (by omega)⟩
  · obtain ⟨reported, after⟩ := @faulty_read_fails limit faults src piece start state positive
      readFine
    simp only [ne_eq, reported, not_false_eq_true, if_true, after]
    exact ⟨by simp, fun _ _ => rfl, fun _ _ => rfl,
      fun id other => Function.update_of_ne other _ _, fun _ _ => rfl⟩

/-- The steps of a copy. -/
def steps (size step : Nat) : Nat := (size + step - 1) / step

theorem steps_zero {step : Nat} (positive : 0 < step) : steps 0 step = 0 := by
  rw [steps, Nat.zero_add]
  exact Nat.div_eq_of_lt (by omega)

theorem steps_last {size step : Nat} (some_ : 0 < size) (last : size ≤ step) :
    steps size step = 1 := by
  rw [steps, show size + step - 1 = (size - 1) + step by omega,
    Nat.add_div_right _ (by omega), Nat.div_eq_of_lt (by omega)]

theorem steps_next {size step : Nat} (positive : 0 < step) (enough : step ≤ size) :
    steps size step = steps (size - step) step + 1 := by
  rw [steps, steps, show size + step - 1 = (size - step + step - 1) + step by omega,
    Nat.add_div_right _ positive]

/-- The operations of a copy are all carried out: `count` reads and `count` writes from the ones
made so far on. -/
def CopyOk (faults : Faults) (src dst : MemId) (state : FaultState) (count : Nat) : Prop :=
  ∀ index < count, faults.read src (state.reads src + index) = .ok ∧
    faults.write dst (state.writes dst + index) = .ok

theorem copyOk_succ {src dst : MemId} {state : FaultState} {start target size count : Nat} :
    CopyOk faults src dst state (count + 1) ↔
      (faults.read src (state.reads src) = .ok ∧ faults.write dst (state.writes dst) = .ok) ∧
        CopyOk faults src dst (state.copied src start dst target size 1) count := by
  have reads : (state.copied src start dst target size 1).reads src = state.reads src + 1 :=
    Function.update_self _ _ _
  have writes : (state.copied src start dst target size 1).writes dst = state.writes dst + 1 :=
    Function.update_self _ _ _
  unfold CopyOk
  rw [reads, writes]
  constructor
  · intro all
    refine ⟨all 0 (Nat.succ_pos _), fun index inside => ?_⟩
    have later := all (index + 1) (Nat.succ_lt_succ inside)
    rwa [Nat.add_comm index, ← Nat.add_assoc, ← Nat.add_assoc] at later
  · rintro ⟨first, rest⟩ index inside
    cases index with
    | zero => exact first
    | succ index =>
        rw [Nat.add_comm index, ← Nat.add_assoc, ← Nat.add_assoc]
        exact rest index (Nat.lt_of_succ_lt_succ inside)

/-- Two copies one behind the other. -/
theorem FaultState.copied_add (state : FaultState) {src dst : MemId} (apart : src ≠ dst)
    (start target first second count more : Nat) :
    (state.copied src start dst target first count).copied src (start + first) dst
        (target + first) second more =
      state.copied src start dst target (first + second) (count + more) := by
  have contents := moved_add state.contents src dst start target first second (Or.inl apart)
  simp only [FaultState.copied, contents, Function.update_self, Function.update_idem, Nat.add_assoc]

theorem FaultState.copied_zero (state : FaultState) (src start dst target) :
    state.copied src start dst target 0 0 = state := by
  simp only [FaultState.copied, moved_zero, Nat.add_zero, Function.update_eq_self]

/-- The loop of a copy inside the objects. -/
theorem swapChunkLoop_outcome {fuel swapFull offset step : Nat} {buffer : List UInt8}
    {state : FaultState} (apart : src.id ≠ dst.id) (stepPositive : 0 < step)
    (stepSmall : step < 2 ^ 32) (below : swapFull ≤ swapSize)
    (small : swapSize ≤ 2 ^ 31) (offsetSmall : offset + (swapSize - swapFull) ≤ 2 ^ 31)
    (readable : (if readSwap then swapFull else offset) + (swapSize - swapFull) ≤ limit)
    (writable : (if writeSwap then swapFull else offset) + (swapSize - swapFull) ≤ limit)
    (enough : swapSize - swapFull < fuel) :
    (CopyOk faults src.id dst.id state (steps (swapSize - swapFull) step) →
      ∃ buffer', swapChunkLoop (faulty limit faults) src dst swapSize readSwap writeSwap fuel
          swapFull offset step buffer state =
        (.success, buffer', state.copied src.id (if readSwap then swapFull else offset) dst.id
          (if writeSwap then swapFull else offset) (swapSize - swapFull)
          (steps (swapSize - swapFull) step))) ∧
      (¬CopyOk faults src.id dst.id state (steps (swapSize - swapFull) step) →
        (swapChunkLoop (faulty limit faults) src dst swapSize readSwap writeSwap fuel swapFull
            offset step buffer state).1 ≠ .success ∧
          Touched src.id dst.id (if writeSwap then swapFull else offset)
            ((if writeSwap then swapFull else offset) + (swapSize - swapFull) - 1) state
            (swapChunkLoop (faulty limit faults) src dst swapSize readSwap writeSwap fuel
              swapFull offset step buffer state).2.2) := by
  induction fuel generalizing swapFull offset step buffer state with
  | zero => omega
  | succ fuel ih =>
      by_cases more : swapFull < swapSize
      · obtain ⟨piece, cutDown, positive, room, counted⟩ : ∃ piece,
            (if swapSize < (sizeOfInt swapFull + step) % 2 ^ 64 then swapSize - swapFull
              else step) = piece ∧ 0 < piece ∧ swapFull + piece ≤ swapSize ∧
              steps (swapSize - swapFull) step =
                steps (swapSize - (swapFull + piece)) piece + 1 := by
          refine ⟨_, cutDown_eq_min swapSize (by omega) (by omega), by omega, by omega, ?_⟩
          by_cases last : swapSize - swapFull < step
          · rw [Nat.min_eq_right last.le, steps_last (by omega) (by omega),
              show swapSize - (swapFull + (swapSize - swapFull)) = 0 by omega,
              steps_zero (by omega)]
          · rw [Nat.min_eq_left (Nat.le_of_not_lt last), steps_next stepPositive (by omega),
              Nat.sub_sub]
        by_cases fine : faults.read src.id (state.reads src.id) = .ok ∧
            faults.write dst.id (state.writes dst.id) = .ok
        · obtain ⟨between, round⟩ := @swapChunkLoop_carried limit faults src dst swapSize readSwap
            writeSwap fuel swapFull offset step buffer state piece more cutDown (by omega)
            (by omega) fine.1 fine.2
          have full : (swapFull + piece) % 2 ^ 32 = swapFull + piece :=
            Nat.mod_eq_of_lt (by omega)
          have next : (offset + piece) % 2 ^ 32 = offset + piece := Nat.mod_eq_of_lt (by omega)
          have source : (if readSwap then swapFull + piece else offset + piece) =
              (if readSwap then swapFull else offset) + piece := by
            split <;> rfl
          have target : (if writeSwap then swapFull + piece else offset + piece) =
              (if writeSwap then swapFull else offset) + piece := by
            split <;> rfl
          have left : swapSize - swapFull = piece + (swapSize - (swapFull + piece)) := by omega
          obtain ⟨succeeds, fails⟩ := @ih (swapFull + piece) (offset + piece) piece between
            (state.copied src.id (if readSwap then swapFull else offset) dst.id
              (if writeSwap then swapFull else offset) piece 1) positive (by omega) room (by omega)
            (by rw [source]; omega) (by rw [target]; omega) (by omega)
          rw [source, target] at succeeds
          rw [target] at fails
          rw [round, full, next, counted,
            @copyOk_succ faults src.id dst.id state (if readSwap then swapFull else offset)
              (if writeSwap then swapFull else offset) piece]
          refine ⟨fun ok => ?_, fun bad => ?_⟩
          · obtain ⟨buffer', done⟩ := succeeds ok.2
            refine ⟨buffer', ?_⟩
            rw [done, FaultState.copied_add _ apart, ← left, Nat.add_comm 1]
          · obtain ⟨err, touched⟩ := fails (fun rest => bad ⟨fine, rest⟩)
            have rest : swapFull + piece < swapSize := by
              by_contra last
              have none_ : swapSize - (swapFull + piece) = 0 := by omega
              rw [none_, steps_zero positive] at bad
              exact bad ⟨fine, fun index inside => by omega⟩
            have copied := state.copied_touched src.id (if readSwap then swapFull else offset)
              dst.id (if writeSwap then swapFull else offset) piece 1
            exact ⟨err, (copied.trans touched (by omega) (by omega)).mono (by omega)⟩
        · obtain ⟨err, touched⟩ := @swapChunkLoop_broken limit faults src dst swapSize readSwap
            writeSwap fuel swapFull offset step buffer state piece more positive cutDown
            (fun all => fine all.2.2)
          rw [counted]
          refine ⟨fun ok => absurd (ok 0 (Nat.succ_pos _)) fine, fun _ => ⟨err, touched.mono ?_⟩⟩
          omega
      · have nothing : swapSize - swapFull = 0 := by omega
        have trivially : CopyOk faults src.id dst.id state 0 := by
          intro index inside
          omega
        rw [nothing, steps_zero stepPositive, swapChunkLoop, if_neg more, FaultState.copied_zero]
        exact ⟨fun _ => ⟨buffer, rfl⟩, fun never => absurd trivially never⟩

/-- A copy that reads behind the end of its source does not succeed. -/
theorem swapChunkLoop_beyond {fuel swapFull offset step : Nat} {buffer : List UInt8}
    {state : FaultState} (stepPositive : 0 < step) (stepSmall : step < 2 ^ 32)
    (more : swapFull < swapSize) (small : swapSize ≤ 2 ^ 31)
    (offsetSmall : offset ≤ limit) (limitSmall : limit ≤ 2 ^ 31)
    (out : limit < offset + (swapSize - swapFull)) :
    (swapChunkLoop (faulty limit faults) src dst swapSize false writeSwap fuel swapFull offset step
      buffer state).1 ≠ .success := by
  induction fuel generalizing swapFull offset step buffer state with
  | zero => simp [swapChunkLoop]
  | succ fuel ih =>
      obtain ⟨piece, cutDown, positive, room⟩ : ∃ piece,
          (if swapSize < (sizeOfInt swapFull + step) % 2 ^ 64 then swapSize - swapFull
            else step) = piece ∧ 0 < piece ∧ swapFull + piece ≤ swapSize :=
        ⟨_, cutDown_eq_min swapSize (by omega) (by omega), by omega, by omega⟩
      by_cases fine : (if false then swapFull else offset) + piece ≤ limit ∧
          (if writeSwap then swapFull else offset) + piece ≤ limit ∧
          faults.read src.id (state.reads src.id) = .ok ∧
          faults.write dst.id (state.writes dst.id) = .ok
      · obtain ⟨between, round⟩ := @swapChunkLoop_carried limit faults src dst swapSize false
          writeSwap fuel swapFull offset step buffer state piece more cutDown fine.1 fine.2.1
          fine.2.2.1 fine.2.2.2
        have inside : offset + piece ≤ limit := fine.1
        have full : (swapFull + piece) % 2 ^ 32 = swapFull + piece := Nat.mod_eq_of_lt (by omega)
        have next : (offset + piece) % 2 ^ 32 = offset + piece := Nat.mod_eq_of_lt (by omega)
        rw [round, full, next]
        exact ih positive (by omega) (by omega) inside (by omega)
      · exact (@swapChunkLoop_broken limit faults src dst swapSize false writeSwap fuel swapFull
          offset step buffer state piece more positive cutDown fine).1

/-- What a copy leaves: all of it, or less than its last byte. -/
def CopyLeaves (faults : Faults) (src dst : MemId) (start target size count : Nat)
    (before after : FaultState) : Prop :=
  CopyOk faults src dst before count ∧ after = before.copied src start dst target size count ∨
    ¬CopyOk faults src dst before count ∧ Touched src dst target (target + size - 1) before after

theorem CopyLeaves.touched {src dst : MemId} {start target size count : Nat}
    {before after : FaultState}
    (leaves : CopyLeaves faults src dst start target size count before after) :
    Touched src dst target (target + size) before after := by
  rcases leaves with ⟨_, rfl⟩ | ⟨_, touched⟩
  · exact before.copied_touched src start dst target size count
  · exact touched.mono (by omega)

/-- **One copy**: it succeeds exactly when all its operations are carried out. -/
theorem swapChunk_outcome {offset bufferSize : Nat} (buffer : List UInt8) (state : FaultState)
    (apart : src.id ≠ dst.id) (bufferPositive : 0 < bufferSize) (bufferSmall : bufferSize < 2 ^ 32)
    (small : offset + swapSize ≤ 2 ^ 31)
    (readable : (if readSwap then 0 else offset) + swapSize ≤ limit)
    (writable : (if writeSwap then 0 else offset) + swapSize ≤ limit) :
    ∃ err buffer' after, swapChunk (faulty limit faults) src dst offset swapSize buffer bufferSize
        readSwap writeSwap state = (err, buffer', after) ∧
      (err = .success ↔ CopyOk faults src.id dst.id state (steps swapSize bufferSize)) ∧
      CopyLeaves faults src.id dst.id (if readSwap then 0 else offset)
        (if writeSwap then 0 else offset) swapSize (steps swapSize bufferSize) state after := by
  have whole : swapSize - 0 = swapSize := Nat.sub_zero _
  obtain ⟨succeeds, fails⟩ := @swapChunkLoop_outcome limit faults src dst swapSize readSwap
    writeSwap loopFuel 0 offset bufferSize buffer state apart bufferPositive bufferSmall
    (Nat.zero_le _) (by omega) (by omega) (by omega) (by omega) (by unfold loopFuel; omega)
  rw [whole] at succeeds fails
  by_cases ok : CopyOk faults src.id dst.id state (steps swapSize bufferSize)
  · obtain ⟨buffer', done⟩ := succeeds ok
    exact ⟨_, _, _, done, ⟨fun _ => ok, fun _ => rfl⟩, .inl ⟨ok, rfl⟩⟩
  · obtain ⟨err, touched⟩ := fails ok
    exact ⟨_, _, _, rfl, ⟨fun success => absurd success err, fun good => absurd good ok⟩,
      .inr ⟨ok, touched⟩⟩

end Copy

/-! ### The walk -/

section Walk

variable (faults : Faults) (id1 id2 idSwap : MemId)

/-- Step `index` of the copies into the swap object, which `swap_slots` checks. The manifest is the
first thing it reads. -/
def CheckedOk (index : Nat) : Prop :=
  faults.read id1 (1 + index) = .ok ∧ faults.write idSwap index = .ok

/-- Step `index` of the copies into the two images, which `swap_slots` does not check. -/
def UncheckedOk (index : Nat) : Prop :=
  (faults.read id2 (1 + index) = .ok ∧ faults.write id1 index = .ok) ∧
    faults.read idSwap index = .ok ∧ faults.write id2 index = .ok

variable (memory : Contents) (offset count : Nat) (state : FaultState)

/-- The images have changed places up to `offset`. -/
structure Clean : Prop where
  reads2 : state.reads id2 = 1 + count
  writes1 : state.writes id1 = count
  readsSwap : state.reads idSwap = count
  writes2 : state.writes id2 = count
  unchecked : ∀ index < count, UncheckedOk faults id1 id2 idSwap index
  first : state.contents id1 = writeRange (memory id1) 0 (readRange (memory id2) 0 offset)
  second : state.contents id2 = writeRange (memory id2) 0 (readRange (memory id1) 0 offset)

/-- A copy has failed unnoticed, and a byte is still where it was. -/
structure Dirty : Prop where
  failed : ∃ index < count, ¬UncheckedOk faults id1 id2 idSwap index
  left : ∃ address < offset, state.contents id1 address = memory id1 address ∨
    state.contents id2 address = memory id2 address

/-- What `count` steps up to `offset` have done, when none of the checked ones has failed. -/
structure Walked : Prop where
  reads1 : state.reads id1 = 1 + count
  writesSwap : state.writes idSwap = count
  checked : ∀ index < count, CheckedOk faults id1 idSwap index
  outcome : Clean faults id1 id2 idSwap memory offset count state ∨
    Dirty faults id1 id2 idSwap memory offset count state

end Walk

section Round

variable {limit : Nat} {faults : Faults} {obj1 obj2 objSwap : MemObject} {memory : Contents}

theorem forall_lt_add {P : Nat → Prop} {count more : Nat} :
    (∀ index < count + more, P index) ↔
      (∀ index < count, P index) ∧ ∀ index < more, P (count + index) := by
  constructor
  · intro all
    exact ⟨fun index inside => all index (by omega), fun index inside => all _ (by omega)⟩
  · rintro ⟨early, late⟩ index inside
    by_cases before : index < count
    · exact early index before
    · have later := late (index - count) (by omega)
      rwa [Nat.add_sub_cancel' (by omega)] at later

/-- Three copies of a round that begins clean. -/
theorem Clean.round {offset count piece more : Nat} {state first second third : FaultState}
    (apart : obj2.id ≠ obj1.id) (apart1 : objSwap.id ≠ obj1.id) (apart2 : objSwap.id ≠ obj2.id)
    (clean : Clean faults obj1.id obj2.id objSwap.id memory offset count state)
    (positive : 0 < piece)
    (firstIs : first = state.copied obj1.id offset objSwap.id 0 piece more)
    (secondLeaves : CopyLeaves faults obj2.id obj1.id offset offset piece more first second)
    (thirdLeaves : CopyLeaves faults objSwap.id obj2.id 0 offset piece more second third) :
    Clean faults obj1.id obj2.id objSwap.id memory (offset + piece) (count + more) third ∨
      Dirty faults obj1.id obj2.id objSwap.id memory (offset + piece) (count + more) third := by
  have touched1 : Touched obj1.id objSwap.id 0 (0 + piece) state first :=
    firstIs ▸ state.copied_touched obj1.id offset objSwap.id 0 piece more
  have touched2 := secondLeaves.touched
  have touched3 := thirdLeaves.touched
  have reads2 : first.reads obj2.id = 1 + count := (touched1.reads _ apart).trans clean.reads2
  have writes1 : first.writes obj1.id = count :=
    (touched1.writes _ apart1.symm).trans clean.writes1
  have readsSwap : second.reads objSwap.id = count :=
    (touched2.reads _ apart2).trans ((touched1.reads _ apart1).trans clean.readsSwap)
  have writes2 : second.writes obj2.id = count :=
    (touched2.writes _ apart).trans ((touched1.writes _ apart2.symm).trans clean.writes2)
  rcases secondLeaves with ⟨ok2, secondIs⟩ | ⟨bad2, short2⟩
  · rcases thirdLeaves with ⟨ok3, thirdIs⟩ | ⟨bad3, short3⟩
    · -- Every operation of the round has been carried out.
      refine .inl ?_
      obtain ⟨first', second', -⟩ := @exchangeRound_separate obj1 obj2 objSwap state.contents
        offset piece apart apart1 apart2
      have contents : third.contents =
          exchangeRound obj1 obj2 objSwap offset piece state.contents := by
        rw [thirdIs, secondIs, firstIs]
        rfl
      refine ⟨?_, ?_, ?_, ?_, ?_, ?_, ?_⟩
      · rw [touched3.reads _ apart2.symm, secondIs]
        show Function.update _ _ _ _ = _
        rw [Function.update_self, reads2, Nat.add_assoc]
      · rw [touched3.writes _ apart.symm, secondIs]
        show Function.update _ _ _ _ = _
        rw [Function.update_self, writes1]
      · rw [thirdIs]
        show Function.update _ _ _ _ = _
        rw [Function.update_self, readsSwap]
      · rw [thirdIs]
        show Function.update _ _ _ _ = _
        rw [Function.update_self, writes2]
      · refine forall_lt_add.mpr ⟨clean.unchecked, fun index inside => ⟨?_, ?_⟩⟩
        · have fine := ok2 index inside
          rwa [reads2, writes1, Nat.add_assoc] at fine
        · have fine := ok3 index inside
          rwa [readsSwap, writes2] at fine
      · rw [contents, first']
        exact writeRange_readRange_extend clean.first clean.second
      · rw [contents, second']
        exact writeRange_readRange_extend clean.second clean.first
    · refine .inr ⟨?_, offset + piece - 1, by omega, .inr ?_⟩
      · by_contra none_
        push Not at none_
        refine bad3 fun index inside => ?_
        rw [readsSwap, writes2]
        exact (none_ (count + index) (by omega)).2
      · rw [short3.outside _ (by omega), touched2.others _ apart, touched1.others _ apart2.symm,
          clean.second]
        exact prefix_kept _ _ (by omega)
  · refine .inr ⟨?_, offset + piece - 1, by omega, .inl ?_⟩
    · by_contra none_
      push Not at none_
      refine bad2 fun index inside => ?_
      rw [reads2, writes1, Nat.add_assoc]
      exact (none_ (count + index) (by omega)).1
    · rw [touched3.others _ apart.symm, short2.outside _ (by omega),
        touched1.others _ apart1.symm, clean.first]
      exact prefix_kept _ _ (by omega)

/-- A round whose first copy succeeds. -/
theorem Walked.round {offset count piece more : Nat} {state first second third : FaultState}
    (apart : obj2.id ≠ obj1.id) (apart1 : objSwap.id ≠ obj1.id) (apart2 : objSwap.id ≠ obj2.id)
    (walked : Walked faults obj1.id obj2.id objSwap.id memory offset count state)
    (positive : 0 < piece) (ok : CopyOk faults obj1.id objSwap.id state more)
    (firstIs : first = state.copied obj1.id offset objSwap.id 0 piece more)
    (secondLeaves : CopyLeaves faults obj2.id obj1.id offset offset piece more first second)
    (thirdLeaves : CopyLeaves faults objSwap.id obj2.id 0 offset piece more second third) :
    Walked faults obj1.id obj2.id objSwap.id memory (offset + piece) (count + more) third := by
  have touched1 : Touched obj1.id objSwap.id 0 (0 + piece) state first :=
    firstIs ▸ state.copied_touched obj1.id offset objSwap.id 0 piece more
  have touched2 := secondLeaves.touched
  have touched3 := thirdLeaves.touched
  refine ⟨?_, ?_, ?_, ?_⟩
  · rw [touched3.reads _ apart1.symm, touched2.reads _ apart.symm, firstIs]
    show Function.update _ _ _ _ = _
    rw [Function.update_self, walked.reads1, Nat.add_assoc]
  · rw [touched3.writes _ apart2, touched2.writes _ apart1, firstIs]
    show Function.update _ _ _ _ = _
    rw [Function.update_self, walked.writesSwap]
  · refine forall_lt_add.mpr ⟨walked.checked, fun index inside => ?_⟩
    have fine := ok index inside
    rw [walked.reads1, walked.writesSwap, Nat.add_assoc] at fine
    exact fine
  · rcases walked.outcome with clean | ⟨⟨index, before, failed⟩, address, inside, left⟩
    · exact clean.round apart apart1 apart2 positive firstIs secondLeaves thirdLeaves
    · -- Later rounds do not come back to a byte that was left behind.
      refine .inr ⟨⟨index, by omega, failed⟩, address, by omega, ?_⟩
      rw [touched3.others _ apart.symm, touched2.outside _ (by omega),
        touched1.others _ apart1.symm, touched3.outside _ (by omega), touched2.others _ apart,
        touched1.others _ apart2.symm]
      exact left

/-- **One round of the walk**: its first copy fails and is reported, or the walk goes on. -/
theorem swapSlotsLoop_walkedRound {size bufferSize fuel offset swapSize count piece : Nat}
    {buffer : List UInt8} {state : FaultState} (apart : obj2.id ≠ obj1.id)
    (apart1 : objSwap.id ≠ obj1.id) (apart2 : objSwap.id ≠ obj2.id)
    (walked : Walked faults obj1.id obj2.id objSwap.id memory offset count state)
    (more : offset < size) (positive : 0 < piece)
    (cutDown : (if size < (sizeOfInt offset + swapSize) % 2 ^ 64 then size - offset
      else swapSize) = piece)
    (fits : offset + piece ≤ limit) (limitSmall : limit ≤ 2 ^ 31)
    (bufferPositive : 0 < bufferSize) (bufferSmall : bufferSize < 2 ^ 32) :
    ((swapSlotsLoop (faulty limit faults) obj1 obj2 objSwap size bufferSize (fuel + 1) offset
          swapSize buffer state).1 ≠ .success ∧
        ∃ index < count + steps piece bufferSize, ¬CheckedOk faults obj1.id objSwap.id index) ∨
      ∃ buffer' third, swapSlotsLoop (faulty limit faults) obj1 obj2 objSwap size bufferSize
          (fuel + 1) offset swapSize buffer state =
            swapSlotsLoop (faulty limit faults) obj1 obj2 objSwap size bufferSize fuel
              (offset + piece) piece buffer' third ∧
        Walked faults obj1.id obj2.id objSwap.id memory (offset + piece)
          (count + steps piece bufferSize) third := by
  have narrow : piece % 2 ^ 32 = piece := Nat.mod_eq_of_lt (by omega)
  have next : (offset + piece) % 2 ^ 32 = offset + piece := Nat.mod_eq_of_lt (by omega)
  obtain ⟨err1, buffer1, first, copy1, success, leaves1⟩ := @swapChunk_outcome limit faults obj1
    objSwap piece false true offset bufferSize buffer state apart1.symm bufferPositive bufferSmall
    (by omega) fits (by simp only [if_true]; omega)
  obtain ⟨err2, buffer2, second, copy2, -, leaves2⟩ := @swapChunk_outcome limit faults obj2 obj1
    piece false false offset bufferSize buffer1 first apart bufferPositive bufferSmall (by omega)
    fits fits
  obtain ⟨err3, buffer3, third, copy3, -, leaves3⟩ := @swapChunk_outcome limit faults objSwap obj2
    piece true false offset bufferSize buffer2 second apart2 bufferPositive bufferSmall (by omega)
    (by simp only [if_true]; omega) fits
  simp only [Bool.false_eq_true, if_false, if_true] at leaves1 leaves2 leaves3
  rcases leaves1 with ⟨ok, firstIs⟩ | ⟨bad, -⟩
  · refine .inr ⟨buffer3, third, ?_,
      walked.round apart apart1 apart2 positive ok firstIs leaves2 leaves3⟩
    rw [swapSlotsLoop, if_pos more]
    simp only [cutDown, narrow, next, copy1, copy2, copy3, success.mpr ok, ne_eq,
      not_true_eq_false, if_false]
  · have failed : err1 ≠ .success := fun fine => bad (success.mp fine)
    refine .inl ⟨?_, ?_⟩
    · rw [swapSlotsLoop, if_pos more]
      simp only [cutDown, narrow, copy1, ne_eq, failed, not_false_eq_true, if_true]
    · by_contra none_
      push Not at none_
      refine bad fun index inside => ?_
      rw [walked.reads1, walked.writesSwap, Nat.add_assoc]
      exact none_ (count + index) (by omega)

/-- The steps of one of the three copies over a whole walk. -/
def walkSteps (size swapSize bufferSize : Nat) : Nat :=
  size / swapSize * steps swapSize bufferSize + steps (size % swapSize) bufferSize

/-- **The whole walk** inside the objects: a checked operation fails and is reported, or it ends in
success. -/
theorem swapSlotsLoop_walked {size bufferSize swapSize : Nat} (apart : obj2.id ≠ obj1.id)
    (apart1 : objSwap.id ≠ obj1.id) (apart2 : objSwap.id ≠ obj2.id) (fits : size ≤ limit)
    (limitSmall : limit < 2 ^ 31) (swapPositive : 0 < swapSize) (swapFits : swapSize ≤ limit)
    (bufferPositive : 0 < bufferSize) (bufferSmall : bufferSize < 2 ^ 32) (fuel round : Nat)
    (buffer : List UInt8) (state : FaultState) (enough : size - round * swapSize < fuel)
    (below : round * swapSize ≤ size)
    (walked : Walked faults obj1.id obj2.id objSwap.id memory (round * swapSize)
      (round * steps swapSize bufferSize) state) :
    ((swapSlotsLoop (faulty limit faults) obj1 obj2 objSwap size bufferSize fuel
          (round * swapSize) swapSize buffer state).1 ≠ .success ∧
        ∃ index < walkSteps size swapSize bufferSize,
          ¬CheckedOk faults obj1.id objSwap.id index) ∨
      ∃ buffer' after, swapSlotsLoop (faulty limit faults) obj1 obj2 objSwap size bufferSize fuel
          (round * swapSize) swapSize buffer state = (.success, buffer', after) ∧
        Walked faults obj1.id obj2.id objSwap.id memory size
          (walkSteps size swapSize bufferSize) after := by
  induction fuel generalizing round buffer state with
  | zero => omega
  | succ fuel ih =>
      by_cases more : round * swapSize < size
      · have grown : (round + 1) * swapSize = round * swapSize + swapSize := by
          rw [Nat.add_mul, Nat.one_mul]
        have grown' : (round + 1) * steps swapSize bufferSize =
            round * steps swapSize bufferSize + steps swapSize bufferSize := by
          rw [Nat.add_mul, Nat.one_mul]
        have piece := @cutDown_eq_min size (round * swapSize) swapSize (by omega) (by omega)
        by_cases whole : round * swapSize + swapSize ≤ size
        · have full : min swapSize (size - round * swapSize) = swapSize := by omega
          have counted : (round + 1) * steps swapSize bufferSize ≤
              walkSteps size swapSize bufferSize := by
            refine le_trans (Nat.mul_le_mul_right _ ?_) (Nat.le_add_right _ _)
            exact (Nat.le_div_iff_mul_le swapPositive).mpr (grown ▸ whole)
          rw [full] at piece
          have step := @swapSlotsLoop_walkedRound limit faults obj1 obj2 objSwap memory size
            bufferSize fuel _ swapSize _ _ buffer state apart apart1 apart2 walked more
            swapPositive piece (by omega) limitSmall.le bufferPositive bufferSmall
          rw [← grown, ← grown'] at step
          rcases step with ⟨err, index, inside, failed⟩ | ⟨buffer', third, eq, walked'⟩
          · exact .inl ⟨err, index, lt_of_lt_of_le inside counted, failed⟩
          · rw [eq]
            exact ih (round + 1) buffer' third (by omega) (by omega) walked'
        · -- The last round is shorter, so that the loop ends after it.
          have last : min swapSize (size - round * swapSize) = size - round * swapSize := by omega
          have ends : round * swapSize + (size - round * swapSize) = size := by omega
          have quotient : size / swapSize = round :=
            Nat.div_eq_of_lt_le (by omega) (by omega)
          have counted : round * steps swapSize bufferSize +
              steps (size - round * swapSize) bufferSize =
                walkSteps size swapSize bufferSize := by
            rw [walkSteps, Nat.mod_eq_sub_div_mul, quotient]
          rw [last] at piece
          have step := @swapSlotsLoop_walkedRound limit faults obj1 obj2 objSwap memory size
            bufferSize fuel _ swapSize _ _ buffer state apart apart1 apart2 walked more
            (by omega) piece (by omega) limitSmall.le bufferPositive bufferSmall
          rw [ends, counted] at step
          rcases step with fails | ⟨buffer', third, eq, walked'⟩
          · exact .inl fails
          · refine .inr ⟨buffer', third, ?_, walked'⟩
            rw [eq]
            cases fuel with
            | zero => omega
            | succ fuel => rw [swapSlotsLoop, if_neg (by omega)]
      · have done : round * swapSize = size := by omega
        have counted : round * steps swapSize bufferSize = walkSteps size swapSize bufferSize := by
          rw [walkSteps, ← done, Nat.mul_div_cancel _ swapPositive, Nat.mul_mod_left,
            steps_zero bufferPositive, Nat.add_zero]
        rw [done, counted] at walked
        exact .inr ⟨buffer, state, by rw [swapSlotsLoop, if_neg more], walked⟩

/-- A walk that is longer than the objects is always reported. -/
theorem swapSlotsLoop_beyond {size bufferSize swapSize : Nat} (apart : obj2.id ≠ obj1.id)
    (apart1 : objSwap.id ≠ obj1.id) (apart2 : objSwap.id ≠ obj2.id) (out : limit < size)
    (limitSmall : limit < 2 ^ 31) (swapPositive : 0 < swapSize) (swapFits : swapSize ≤ limit)
    (bufferPositive : 0 < bufferSize) (bufferSmall : bufferSize < 2 ^ 32) (fuel round : Nat)
    (buffer : List UInt8) (state : FaultState) (below : round * swapSize ≤ limit)
    {count : Nat}
    (walked : Walked faults obj1.id obj2.id objSwap.id memory (round * swapSize) count state) :
    (swapSlotsLoop (faulty limit faults) obj1 obj2 objSwap size bufferSize fuel (round * swapSize)
      swapSize buffer state).1 ≠ .success := by
  induction fuel generalizing round count buffer state with
  | zero => simp [swapSlotsLoop]
  | succ fuel ih =>
      have more : round * swapSize < size := by omega
      have grown : (round + 1) * swapSize = round * swapSize + swapSize := by
        rw [Nat.add_mul, Nat.one_mul]
      have piece := @cutDown_eq_min size (round * swapSize) swapSize (by omega) (by omega)
      by_cases inside : round * swapSize + min swapSize (size - round * swapSize) ≤ limit
      · have full : min swapSize (size - round * swapSize) = swapSize := by omega
        have step := @swapSlotsLoop_walkedRound limit faults obj1 obj2 objSwap memory size
          bufferSize fuel _ swapSize _ _ buffer state apart apart1 apart2 walked more (by omega)
          piece inside limitSmall.le bufferPositive bufferSmall
        rw [full, ← grown] at step
        rcases step with ⟨err, -⟩ | ⟨buffer', third, eq, walked'⟩
        · exact err
        · rw [eq]
          exact ih (round + 1) buffer' third (by omega) walked'
      · have narrow : min swapSize (size - round * swapSize) % 2 ^ 32 =
            min swapSize (size - round * swapSize) := Nat.mod_eq_of_lt (by omega)
        have fails := @swapChunkLoop_beyond limit faults obj1 objSwap
          (min swapSize (size - round * swapSize)) true loopFuel 0 (round * swapSize) bufferSize
          buffer state bufferPositive bufferSmall (by omega) (by omega) below limitSmall.le
          (by omega)
        rw [swapSlotsLoop, if_pos more]
        simp only [piece, narrow, swapChunk, ne_eq, fails, not_false_eq_true, if_true]

/-- Once both manifests are read, `swap_slots` is its walk. -/
theorem swapSlots_faulty {swapSize bufferSize : Nat} {buffer : List UInt8}
    (apart : obj2.id ≠ obj1.id) (manifests : sizeofManifest ≤ limit)
    (read1 : faults.read obj1.id 0 = .ok) (read2 : faults.read obj2.id 0 = .ok) :
    swapSlots (faulty limit faults) obj1 obj2 objSwap swapSize buffer bufferSize
        (FaultState.start memory) =
      swapSlotsLoop (faulty limit faults) obj1 obj2 objSwap (swapLength memory obj1.id obj2.id)
        bufferSize loopFuel 0 swapSize buffer
        (((FaultState.start memory).noteRead obj1.id).noteRead obj2.id) := by
  have first := @faulty_read limit faults obj1 sizeofManifest 0 (FaultState.start memory)
    (by omega) read1
  have count2 : ((FaultState.start memory).noteRead obj1.id).reads obj2.id = 0 :=
    Function.update_of_ne apart _ _
  have second := @faulty_read limit faults obj2 sizeofManifest 0
    ((FaultState.start memory).noteRead obj1.id) (by omega) (by rw [count2]; exact read2)
  simp only [swapSlots, readFirmwareManifest, first, second, ne_eq, not_true_eq_false, if_false]
  exact congrArg (fun size => swapSlotsLoop (faulty limit faults) obj1 obj2 objSwap size bufferSize
    loopFuel 0 swapSize buffer (((FaultState.start memory).noteRead obj1.id).noteRead obj2.id))
    (swapLength_eq_ite memory obj1.id obj2.id)

theorem swapSlots_manifestFails {swapSize bufferSize : Nat} {buffer : List UInt8}
    (apart : obj2.id ≠ obj1.id) (manifests : sizeofManifest ≤ limit)
    (bad : ¬(faults.read obj1.id 0 = .ok ∧ faults.read obj2.id 0 = .ok)) :
    (swapSlots (faulty limit faults) obj1 obj2 objSwap swapSize buffer bufferSize
      (FaultState.start memory)).1 ≠ .success := by
  by_cases read1 : faults.read obj1.id 0 = .ok
  · have first := @faulty_read limit faults obj1 sizeofManifest 0 (FaultState.start memory)
      (by omega) read1
    have count2 : ((FaultState.start memory).noteRead obj1.id).reads obj2.id = 0 :=
      Function.update_of_ne apart _ _
    have second := (@faulty_read_fails limit faults obj2 sizeofManifest 0
      ((FaultState.start memory).noteRead obj1.id) (by decide)
      (fun fine => bad ⟨read1, by rw [count2] at fine; exact fine.2⟩)).1
    simp only [swapSlots, readFirmwareManifest, first, second, ne_eq, not_true_eq_false, if_false,
      not_false_eq_true, if_true, reduceCtorEq]
  · have first := (@faulty_read_fails limit faults obj1 sizeofManifest 0 (FaultState.start memory)
      (by decide) (fun fine => read1 fine.2)).1
    simp only [swapSlots, readFirmwareManifest, first, ne_eq, not_false_eq_true, if_true,
      reduceCtorEq]

/-- The walk begins with both manifests read. -/
theorem walked_start (apart : obj2.id ≠ obj1.id) (apart1 : objSwap.id ≠ obj1.id)
    (apart2 : objSwap.id ≠ obj2.id) :
    Walked faults obj1.id obj2.id objSwap.id memory 0 0
      (((FaultState.start memory).noteRead obj1.id).noteRead obj2.id) := by
  have reads1 : (((FaultState.start memory).noteRead obj1.id).noteRead obj2.id).reads obj1.id = 1 := by
    show Function.update _ _ _ _ = _
    rw [Function.update_of_ne apart.symm]
    exact Function.update_self _ _ _
  have reads2 : (((FaultState.start memory).noteRead obj1.id).noteRead obj2.id).reads obj2.id = 1 := by
    show Function.update _ _ _ _ = _
    rw [Function.update_self]
    exact congrArg (· + 1) (Function.update_of_ne apart _ _)
  have readsSwap :
      (((FaultState.start memory).noteRead obj1.id).noteRead obj2.id).reads objSwap.id = 0 := by
    show Function.update _ _ _ _ = _
    rw [Function.update_of_ne apart2]
    exact Function.update_of_ne apart1 _ _
  refine ⟨reads1, rfl, fun index none_ => absurd none_ (Nat.not_lt_zero _), .inl ?_⟩
  exact ⟨reads2, rfl, readsSwap, rfl, fun index none_ => absurd none_ (Nat.not_lt_zero _),
    (writeRange_nil _ _).symm, (writeRange_nil _ _).symm⟩

end Round

/-! ### Images that differ everywhere -/

section Unlike

/-- An image of `extent` bytes: the offset of its manifest is `extent`, everything else is zero. -/
def plainImage (extent address : Nat) : UInt8 :=
  if 68 ≤ address ∧ address < 72 then (toLE 4 extent).getD (address - 68) 0 else 0

/-- An image whose size and offset add up to nothing in `32` bits. -/
def otherImage (byte : UInt8) (address : Nat) : UInt8 :=
  if address < 64 then 1
  else if address < 68 then byte
  else if address = 68 then 0 - byte
  else if address < 72 then 255 - byte
  else 1

/-- The two images in two objects. -/
def unlike (id1 : MemId) (extent : Nat) (byte : UInt8) : Contents := fun id =>
  if id = id1 then plainImage extent else otherImage byte

theorem plainImage_extent {memory : Contents} {id : MemId} {extent : Nat}
    (small : extent < 2 ^ 32) (holds : memory id = plainImage extent) :
    (manifestAt memory id).extent = extent := by
  have size : (manifestAt memory id).getSize = 0 := by
    rw [Manifest.getSize, manifestAt_get, holds]
    rfl
  have offset : (manifestAt memory id).getOffset = extent := by
    have bytes : readRange (plainImage extent) 68 4 = toLE 4 extent := rfl
    rw [Manifest.getOffset, manifestAt_get, holds]
    exact (congrArg ofLE bytes).trans (ofLE_toLE (lt_of_lt_of_le small (by norm_num)))
  rw [Manifest.extent, size, offset, Nat.zero_add, Nat.mod_eq_of_lt small]

/-- Small bytes are enough to choose from. -/
def choices : Finset UInt8 := {1, 2, 3, 4, 5}

theorem otherImage_extent {memory : Contents} {id : MemId} {byte : UInt8} (choice : byte ∈ choices)
    (holds : memory id = otherImage byte) : (manifestAt memory id).extent = 0 := by
  have sum : ∀ byte ∈ choices, (ofLE (readRange (otherImage byte) 64 4) +
      ofLE (readRange (otherImage byte) 68 4)) % 2 ^ 32 = 0 := by
    simp only [choices, Finset.forall_mem_insert, Finset.mem_singleton, forall_eq]
    decide
  rw [Manifest.extent, Manifest.getSize, Manifest.getOffset, manifestAt_get, manifestAt_get, holds]
  exact sum byte choice

/-- A byte of the second image is none of the first when its bytes are not met by the offset. -/
theorem plainImage_ne {extent : Nat} {byte : UInt8} (choice : byte ∈ choices)
    (free : byte ∉ ({0 - (toLE 4 extent).getD 0 0, 255 - (toLE 4 extent).getD 1 0,
      255 - (toLE 4 extent).getD 2 0, 255 - (toLE 4 extent).getD 3 0} : Finset UInt8))
    (address : Nat) : plainImage extent address ≠ otherImage byte address := by
  have nonzero : ∀ byte ∈ choices, 0 ≠ byte := by
    simp only [choices, Finset.forall_mem_insert, Finset.mem_singleton, forall_eq]
    decide
  have back : ∀ {top other : UInt8}, other = top - byte → byte = top - other := by
    rintro top other rfl
    grind
  simp only [Finset.mem_insert, Finset.mem_singleton, not_or] at free
  obtain ⟨free0, free1, free2, free3⟩ := free
  by_cases offset : 68 ≤ address ∧ address < 72
  · rw [plainImage, if_pos offset]
    obtain rfl | rfl | rfl | rfl : address = 68 ∨ address = 69 ∨ address = 70 ∨ address = 71 := by
      omega
    · exact fun same => free0 (back same)
    · exact fun same => free1 (back same)
    · exact fun same => free2 (back same)
    · exact fun same => free3 (back same)
  · rw [plainImage, if_neg offset, otherImage]
    by_cases low : address < 64
    · rw [if_pos low]
      decide
    · rw [if_neg low]
      by_cases size : address < 68
      · rw [if_pos size]
        exact nonzero byte choice
      · rw [if_neg size, if_neg (by omega), if_neg (by omega)]
        decide

/-- **Two images that differ in every byte**, the larger one of any length. -/
theorem exists_unlike {id1 id2 : MemId} (apart : id2 ≠ id1) {extent : Nat}
    (small : extent < 2 ^ 32) :
    ∃ memory : Contents, swapLength memory id1 id2 = extent ∧
      ∀ address, memory id1 address ≠ memory id2 address := by
  obtain ⟨byte, choice, free⟩ : ∃ byte ∈ choices, byte ∉ ({0 - (toLE 4 extent).getD 0 0,
      255 - (toLE 4 extent).getD 1 0, 255 - (toLE 4 extent).getD 2 0,
      255 - (toLE 4 extent).getD 3 0} : Finset UInt8) :=
    Finset.exists_mem_notMem_of_card_lt_card (lt_of_le_of_lt Finset.card_le_four (by decide))
  have first : unlike id1 extent byte id1 = plainImage extent := if_pos rfl
  have second : unlike id1 extent byte id2 = otherImage byte := if_neg apart
  refine ⟨unlike id1 extent byte, ?_, fun address same => ?_⟩
  · rw [swapLength, plainImage_extent small first, otherImage_extent choice second]
    exact Nat.max_eq_left (Nat.zero_le _)
  · rw [first, second] at same
    exact plainImage_ne choice free address same

end Unlike

/-! ### What is reported -/

/-- One of the operations whose result `swap_slots` looks at fails: the read of a manifest, or a
step of a copy into the swap object. -/
def CheckedFails (faults : Faults) (id1 id2 idSwap : MemId) (count : Nat) : Prop :=
  ¬(faults.read id1 0 = .ok ∧ faults.read id2 0 = .ok) ∨
    ∃ index < count, ¬CheckedOk faults id1 idSwap index

section Reports

variable {limit : Nat} {faults : Faults} {obj1 obj2 objSwap : MemObject}

/-- A swap in which no checked operation fails ends in success, clean or not. -/
theorem swapSlots_walked {swapSize bufferSize : Nat} (buffer : List UInt8) (memory : Contents)
    (apart : obj2.id ≠ obj1.id) (apart1 : objSwap.id ≠ obj1.id) (apart2 : objSwap.id ≠ obj2.id)
    (manifests : sizeofManifest ≤ limit) (limitSmall : limit < 2 ^ 31)
    (bufferPositive : 0 < bufferSize) (larger : bufferSize < swapSize) (swapFits : swapSize ≤ limit)
    (fits : swapLength memory obj1.id obj2.id ≤ limit) :
    ((swapSlots (faulty limit faults) obj1 obj2 objSwap swapSize buffer bufferSize
          (FaultState.start memory)).1 ≠ .success ∧
        CheckedFails faults obj1.id obj2.id objSwap.id
          (walkSteps (swapLength memory obj1.id obj2.id) swapSize bufferSize)) ∨
      ∃ buffer' after, swapSlots (faulty limit faults) obj1 obj2 objSwap swapSize buffer bufferSize
          (FaultState.start memory) = (.success, buffer', after) ∧
        Walked faults obj1.id obj2.id objSwap.id memory (swapLength memory obj1.id obj2.id)
          (walkSteps (swapLength memory obj1.id obj2.id) swapSize bufferSize) after := by
  by_cases manifestsRead : faults.read obj1.id 0 = .ok ∧ faults.read obj2.id 0 = .ok
  · rw [swapSlots_faulty apart manifests manifestsRead.1 manifestsRead.2]
    have walk := @swapSlotsLoop_walked limit faults obj1 obj2 objSwap memory _ bufferSize swapSize
      apart apart1 apart2 fits limitSmall (by omega) swapFits bufferPositive (by omega) loopFuel 0
      buffer (((FaultState.start memory).noteRead obj1.id).noteRead obj2.id)
      (by unfold loopFuel; omega) (by omega)
      (by rw [Nat.zero_mul, Nat.zero_mul]; exact walked_start apart apart1 apart2)
    rw [Nat.zero_mul] at walk
    rcases walk with ⟨err, failed⟩ | success
    · exact .inl ⟨err, .inr failed⟩
    · exact .inr success
  · exact .inl ⟨swapSlots_manifestFails apart manifests manifestsRead, .inl manifestsRead⟩

/-- **The failures that `swap_slots` reports.** Over objects of `limit` bytes, a success means that
the images have been exchanged, for all contents of a given length, if and only if the length does
not fit the objects, or a checked operation fails, or every operation of the second and third copies
is carried out. -/
theorem swapSlots_reports {swapSize bufferSize : Nat} (faults : Faults) (buffer : List UInt8)
    (size : Nat) (apart : obj2.id ≠ obj1.id) (apart1 : objSwap.id ≠ obj1.id)
    (apart2 : objSwap.id ≠ obj2.id) (manifests : sizeofManifest ≤ limit)
    (limitSmall : limit < 2 ^ 31) (bufferPositive : 0 < bufferSize)
    (larger : bufferSize < swapSize) (swapFits : swapSize ≤ limit) :
    (∀ memory : Contents, swapLength memory obj1.id obj2.id = size →
        (swapSlots (faulty limit faults) obj1 obj2 objSwap swapSize buffer bufferSize
          (FaultState.start memory)).1 = .success →
        Exchanged memory (swapSlots (faulty limit faults) obj1 obj2 objSwap swapSize buffer
          bufferSize (FaultState.start memory)).2.2.contents obj1.id obj2.id size) ↔
      limit < size ∨
        CheckedFails faults obj1.id obj2.id objSwap.id (walkSteps size swapSize bufferSize) ∨
        ∀ index < walkSteps size swapSize bufferSize,
          UncheckedOk faults obj1.id obj2.id objSwap.id index := by
  constructor
  · intro reports
    by_contra not_
    push Not at not_
    obtain ⟨fits, noChecked, index, inside, failed⟩ := not_
    -- Images that differ everywhere show a byte that was left behind.
    obtain ⟨memory, length, differ⟩ := exists_unlike apart (by omega : size < 2 ^ 32)
    have walk := @swapSlots_walked limit faults obj1 obj2 objSwap swapSize bufferSize buffer memory
      apart apart1 apart2 manifests limitSmall bufferPositive larger swapFits (by omega)
    rw [length] at walk
    rcases walk with ⟨-, checked⟩ | ⟨buffer', after, ran, walked⟩
    · exact noChecked checked
    · have exchanged := reports memory length (by rw [ran])
      rw [ran] at exchanged
      rcases walked.outcome with clean | ⟨-, address, below, left⟩
      · exact failed (clean.unchecked index inside)
      · obtain ⟨first, second⟩ := exchanged address below
        rcases left with kept | kept
        · exact differ address (kept.symm.trans first)
        · exact differ address (second.symm.trans kept)
  · intro condition memory length success
    have manifestsRead : faults.read obj1.id 0 = .ok ∧ faults.read obj2.id 0 = .ok := by
      by_contra bad
      exact swapSlots_manifestFails apart manifests bad success
    by_cases fits : size ≤ limit
    · have walk := @swapSlots_walked limit faults obj1 obj2 objSwap swapSize bufferSize buffer
        memory apart apart1 apart2 manifests limitSmall bufferPositive larger swapFits (by omega)
      rw [length] at walk
      rcases walk with ⟨err, -⟩ | ⟨buffer', after, ran, walked⟩
      · exact absurd success err
      · rcases condition with out | ⟨bad | ⟨index, inside, bad⟩⟩ | fine
        · omega
        · exact absurd manifestsRead bad
        · exact absurd (walked.checked index inside) bad
        · rw [ran]
          rcases walked.outcome with clean | ⟨⟨index, inside, failed⟩, -⟩
          · intro address inside
            rw [clean.first, clean.second]
            exact ⟨prefix_taken _ _ inside, prefix_taken _ _ inside⟩
          · exact absurd (fine index inside) failed
    · have walk := @swapSlotsLoop_beyond limit faults obj1 obj2 objSwap memory size bufferSize
        swapSize apart apart1 apart2 (by omega) limitSmall (by omega) swapFits bufferPositive
        (by omega) loopFuel 0 buffer (((FaultState.start memory).noteRead obj1.id).noteRead obj2.id)
        (by omega) 0 (by rw [Nat.zero_mul]; exact walked_start apart apart1 apart2)
      rw [swapSlots_faulty apart manifests manifestsRead.1 manifestsRead.2, length] at success
      rw [Nat.zero_mul] at walk
      exact absurd success walk

/-- Nothing fails. -/
def noFaults : Faults := ⟨fun _ _ => .ok, fun _ _ => .ok⟩

/-- The first write of the second copy is short. -/
def shortWrite : Faults where
  read := fun _ _ => .ok
  write := fun id index => if id = 0 ∧ index = 0 then .short 3 else .ok

theorem noFaults_reported :
    (swapSlots (faulty 1024 noFaults) ⟨0, .writeChunk⟩ ⟨1, .writeChunk⟩ ⟨2, .writeChunk⟩ 64
        (List.replicate 16 0) 16 (FaultState.start twoImages)).1 = .success ∧
      Exchanged twoImages (swapSlots (faulty 1024 noFaults) ⟨0, .writeChunk⟩ ⟨1, .writeChunk⟩
        ⟨2, .writeChunk⟩ 64 (List.replicate 16 0) 16 (FaultState.start twoImages)).2.2.contents 0 1
        200 := by
  have succeeds : (swapSlots (faulty 1024 noFaults) ⟨0, .writeChunk⟩ ⟨1, .writeChunk⟩
      ⟨2, .writeChunk⟩ 64 (List.replicate 16 0) 16 (FaultState.start twoImages)).1 = .success := by
    decide +kernel
  have reports := (@swapSlots_reports 1024 ⟨0, .writeChunk⟩ ⟨1, .writeChunk⟩ ⟨2, .writeChunk⟩ 64 16
    noFaults (List.replicate 16 0) 200 (by decide) (by decide) (by decide) (by decide) (by decide)
    (by decide) (by decide) (by decide)).mpr (.inr (.inr fun _ _ => ⟨⟨rfl, rfl⟩, rfl, rfl⟩))
  exact ⟨succeeds, reports twoImages (by decide +kernel) succeeds⟩

end Reports

/-- **A short write that is not reported**: `swap_slots` returns success, and byte `63` of the first
object is still its own. -/
theorem shortWrite_unreported :
    (swapSlots (faulty 1024 shortWrite) ⟨0, .writeChunk⟩ ⟨1, .writeChunk⟩ ⟨2, .writeChunk⟩ 64
        (List.replicate 16 0) 16 (FaultState.start twoImages)).1 = .success ∧
      ¬Exchanged twoImages (swapSlots (faulty 1024 shortWrite) ⟨0, .writeChunk⟩ ⟨1, .writeChunk⟩
        ⟨2, .writeChunk⟩ 64 (List.replicate 16 0) 16 (FaultState.start twoImages)).2.2.contents 0 1
        (swapLength twoImages 0 1) := by
  refine ⟨by decide +kernel, fun exchanged => ?_⟩
  have taken := (exchanged 63 (by decide +kernel)).1
  revert taken
  decide +kernel

end Upkit
