/-
**Copying a firmware.**

`copy_firmware` copies an image from one object to another in pieces as large as the buffer. A read
may be short, so the offset moves by what was read and the last piece is cut down to what is left;
the first piece is not, so a buffer longer than the image also copies what lies behind it. A write is
as long as the read has reported, even where that is more than the buffer holds (`bytesFrom`).

The memory underneath is any that keeps to the text of `memory_interface.h` (`Contract`): a read
that reports bytes has read them, and a write that reports all its bytes has written them.

* `copyFirmwareLoop_ends` — one loop, from any offset on.
* `copyFirmware_whole` — the whole firmware or an error, and no write outside.
-/

import Upkit.Memory.Swap
import Upkit.Memory.Effects

namespace Upkit

open Bytes

section Functions

/-- The `size` bytes that begin where a buffer does: those of the buffer, and of what lies `behind` it
in the memory of the program. -/
def bytesFrom (behind : Nat → UInt8) (buffer : List UInt8) (size : Nat) : List UInt8 :=
  (List.range size).map fun index => buffer.getD index (behind index)

theorem bytesFrom_length (behind : Nat → UInt8) (buffer : List UInt8) (size : Nat) :
    (bytesFrom behind buffer size).length = size := by
  rw [bytesFrom, List.length_map, List.length_range]

/-- Inside the buffer these are its first bytes. -/
theorem bytesFrom_inside (behind : Nat → UInt8) {buffer : List UInt8} {size : Nat}
    (inside : size ≤ buffer.length) : bytesFrom behind buffer size = buffer.take size := by
  refine List.ext_getElem (by rw [bytesFrom_length, List.length_take, min_eq_left inside])
    fun index low _ => ?_
  rw [bytesFrom_length] at low
  simp only [bytesFrom, List.getElem_map, List.getElem_range, List.getElem_take]
  exact List.getD_eq_getElem _ _ (by omega)

variable {σ : Type} (M : MemoryInterface σ) (behind : Nat → UInt8)

/-- The loop of `copy_firmware`: `offset`, `step` and `readed` are of type `int`. As many bytes are
written as the read has reported, also when the buffer is shorter. -/
def copyFirmwareLoop (src dst : MemObject) (firmwareSize : Int) :
    (fuel : Nat) → (offset step readed : Int) → List UInt8 → σ → PullError × List UInt8 × σ
  | 0, _, _, _, buffer, memory => (.outOfFuel, buffer, memory)
  | fuel + 1, offset, step, readed, buffer, memory =>
      if offset < firmwareSize then
        let (readed, data, memory) :=
          M.memoryRead src (sizeOfInt (wrap32 step)) (wrap32 offset) memory
        let buffer := splice buffer 0 data
        if 0 < readed then
          let (written, memory) :=
            M.memoryWrite dst (bytesFrom behind buffer readed.toNat) (wrap32 offset) memory
          if written ≠ readed then (.copyFirmware, buffer, memory)
          else
            let offset := toInt32 (wrap32 (offset + readed))
            let step :=
              if firmwareSize < toInt32 (wrap32 (offset + step)) then
                toInt32 (wrap32 (firmwareSize - offset))
              else step
            copyFirmwareLoop src dst firmwareSize fuel offset step readed buffer memory
        -- The loop ends, and `readed` is not positive.
        else (.copyFirmware, buffer, memory)
      else if readed ≤ 0 then (.copyFirmware, buffer, memory)
      else (.success, buffer, memory)

/-- `copy_firmware`. -/
def copyFirmware (src dst : MemObject) (buffer : List UInt8) (bufferSize : Nat) (memory : σ) :
    PullError × List UInt8 × σ :=
  let (err, mt, memory) := readFirmwareManifest M src memory
  if err ≠ .success then (.copyFirmware, buffer, memory)
  else
    copyFirmwareLoop M behind src dst (toInt32 mt.extent) loopFuel 0 (toInt32 bufferSize) 0 buffer memory

/-- What `memory_interface.h` says of reading and writing, `view` being what the objects hold: the
result of a read is the number of bytes read, a write touches nothing but its range, and one that
reports all bytes has written them. -/
structure Contract (view : σ → Contents) : Prop where
  read_le : ∀ obj size offset memory, (M.memoryRead obj size offset memory).1 ≤ size
  read_data : ∀ obj size offset memory, 0 ≤ (M.memoryRead obj size offset memory).1 →
    (M.memoryRead obj size offset memory).2.1 =
      readRange (view memory obj.id) offset (M.memoryRead obj size offset memory).1.toNat
  read_view : ∀ obj size offset memory,
    view (M.memoryRead obj size offset memory).2.2 = view memory
  write_other : ∀ obj data offset memory id, id ≠ obj.id →
    view (M.memoryWrite obj data offset memory).2 id = view memory id
  write_outside : ∀ obj data offset memory address,
    address < offset ∨ offset + data.length ≤ address →
      view (M.memoryWrite obj data offset memory).2 obj.id address = view memory obj.id address
  write_all : ∀ obj data offset memory,
    (M.memoryWrite obj data offset memory).1 = data.length →
      view (M.memoryWrite obj data offset memory).2 obj.id =
        writeRange (view memory obj.id) offset data

end Functions

/-- Plain memory keeps to the contract. -/
theorem plain_contract (layout : PlainLayout) : Contract (plain layout) id where
  read_le := by
    intro obj size offset memory
    by_cases fits : offset + size ≤ layout.limit obj.id
    · rw [plain_read layout memory fits]
    · rw [plain_read_outside layout memory (by omega)]
      omega
  read_data := by
    intro obj size offset memory succeeded
    by_cases fits : offset + size ≤ layout.limit obj.id
    · rw [plain_read layout memory fits]
      rfl
    · rw [plain_read_outside layout memory (by omega)] at succeeded
      exact absurd succeeded (by simp only; omega)
  read_view := fun obj size offset memory => plain_read_memory layout memory obj size offset
  write_other := by
    intro obj data offset memory id other
    simp only [plain, id_eq]
    split
    · exact Function.update_of_ne other _ memory
    · rfl
  write_outside := by
    intro obj data offset memory address outside
    simp only [plain, id_eq]
    split
    · simp only [Function.update_self]
      exact writeRange_outside _ outside
    · rfl
  write_all := by
    intro obj data offset memory all
    by_cases fits : offset + data.length ≤ layout.limit obj.id
    · rw [plain_write layout memory fits]
      exact Function.update_self _ _ _
    · have failed : ((plain layout).memoryWrite obj data offset memory).1 = -1 := by
        simp only [plain, if_neg fits]
      rw [failed] at all
      omega

section Logged

variable {σ : Type} (M : MemoryInterface σ) (obj : MemObject) (state : σ × List MemEvent)

theorem logged_read (size offset : Nat) : (logged M).memoryRead obj size offset state =
    ((M.memoryRead obj size offset state.1).1, (M.memoryRead obj size offset state.1).2.1,
      (M.memoryRead obj size offset state.1).2.2, state.2) := rfl

theorem logged_write (data : List UInt8) (offset : Nat) :
    (logged M).memoryWrite obj data offset state =
      ((M.memoryWrite obj data offset state.1).1, (M.memoryWrite obj data offset state.1).2,
        state.2 ++ [.wrote obj.id offset data]) := rfl

end Logged

section Copy

variable {σ : Type} {M : MemoryInterface σ} (behind : Nat → UInt8) {view : σ → Contents}
  {src dst : MemObject}

/-- A write to the destination that ends below `limit`. -/
def WritesBelow (dst : MemObject) (limit : Nat) (event : MemEvent) : Prop :=
  ∃ offset data, event = .wrote dst.id offset data ∧ offset + data.length ≤ limit

/-- How a copy may end: in success with the first `size` bytes copied, or in an error, and either
way the source is as before and only the destination was written, below `limit`. -/
structure CopyEnds (view : σ → Contents) (src dst : MemObject) (size : Int) (limit : Nat)
    (before : σ × List MemEvent) (result : PullError × List UInt8 × σ × List MemEvent) : Prop where
  ended : result.1 = .success ∨ result.1 = .copyFirmware
  copied : result.1 = .success → 0 < size ∧ ∀ address : Nat, address < size →
    view result.2.2.1 dst.id address = view before.1 src.id address
  source : view result.2.2.1 src.id = view before.1 src.id
  writes : Extends (WritesBelow dst limit) before result.2.2

/-- A write to the destination is one more allowed event. -/
theorem extends_write {limit offset : Nat} {data : List UInt8} {before : σ × List MemEvent}
    {after : σ} (below : offset + data.length ≤ limit) :
    Extends (WritesBelow dst limit) before (after, before.2 ++ [.wrote dst.id offset data]) :=
  Extends.one rfl ⟨offset, data, rfl, below⟩

/-- **The loop from an offset on**, the bytes before it already copied. -/
theorem copyFirmwareLoop_ends (contract : Contract M view) (apart : dst.id ≠ src.id)
    {size : Int} {bufferSize : Nat} (small : size + bufferSize < 2 ^ 31)
    (fuel offset : Nat) (step readed : Int) (buffer : List UInt8) (memory : σ × List MemEvent)
    (enough : (size - offset).toNat < fuel)
    (begun : offset = 0 ∧ readed ≤ 0 ∨ 0 < readed ∧ 0 < size ∧ offset ≤ max size bufferSize)
    (ahead : offset < size → 0 < step ∧ step ≤ bufferSize ∧ (offset + step ≤ size ∨ offset = 0))
    (copied : ∀ address < offset, view memory.1 dst.id address = view memory.1 src.id address) :
    CopyEnds view src dst size (max size bufferSize).toNat memory
      (copyFirmwareLoop (logged M) behind src dst size fuel offset step readed buffer memory) := by
  induction fuel generalizing offset step readed buffer memory with
  | zero => exact absurd enough (Nat.not_lt_zero _)
  | succ fuel ih =>
      rw [copyFirmwareLoop]
      by_cases more : (offset : Int) < size
      · obtain ⟨positive, narrow, room⟩ := ahead more
        have width : sizeOfInt (wrap32 step) = step.toNat := by
          have low : wrap32 step = step.toNat := by
            unfold wrap32
            omega
          rw [low]
          exact sizeOfInt_small (by omega)
        have place : wrap32 (offset : Int) = offset := wrap32_natCast (by omega)
        have readLe := contract.read_le src step.toNat offset memory.1
        have readData := contract.read_data src step.toNat offset memory.1
        have readView := contract.read_view src step.toNat offset memory.1
        simp only [if_pos more, width, place, logged_read, logged_write]
        generalize M.memoryRead src step.toNat offset memory.1 = read at readLe readData readView
        obtain ⟨got, data, between⟩ := read
        simp only at readLe readData readView ⊢
        by_cases some : 0 < got
        · have whole := readData (le_of_lt some)
          have length : data.length = got.toNat := by rw [whole, readRange_length]
          have stored : bytesFrom behind (splice buffer 0 data) got.toNat = data := by
            have reaches : data.length ≤ (splice buffer 0 data).length := by
              rw [splice_zero, List.length_append]
              omega
            rw [← length, bytesFrom_inside behind reaches, take_splice_zero]
          have other := contract.write_other dst data offset between src.id apart.symm
          have outside := contract.write_outside dst data offset between
          have all := contract.write_all dst data offset between
          rw [if_pos some, stored]
          generalize M.memoryWrite dst data offset between = wrote at other outside all
          obtain ⟨written, after⟩ := wrote
          simp only at other outside all ⊢
          have kept : view after src.id = view memory.1 src.id := by rw [other, readView]
          have below : offset + data.length ≤ (max size bufferSize).toNat := by omega
          by_cases short : written ≠ got
          · rw [if_pos short]
            exact ⟨Or.inr rfl, nofun, kept, extends_write below⟩
          · have full : written = data.length := by omega
            have next : toInt32 (wrap32 ((offset : Int) + got)) =
                ((offset + data.length : Nat) : Int) := by
              rw [toInt32_wrap32 (by omega) (by omega)]
              omega
            rw [if_neg short, next]
            have rest := ih (offset + data.length)
              (if size < toInt32 (wrap32 (((offset + data.length : Nat) : Int) + step)) then
                toInt32 (wrap32 (size - ((offset + data.length : Nat) : Int))) else step) got
              (splice buffer 0 data) (after, memory.2 ++ [.wrote dst.id offset data]) (by omega)
              (Or.inr ⟨some, by omega, by omega⟩) ?_ ?_
            · exact ⟨rest.ended, fun success => ⟨(rest.copied success).1, fun address inside =>
                ((rest.copied success).2 address inside).trans (congrFun kept address)⟩,
                rest.source.trans kept, (logged_frames M _).trans (extends_write below) rest.writes⟩
            · intro left
              rw [toInt32_wrap32 (by omega) (by omega), toInt32_wrap32 (by omega) (by omega)]
              split
              · exact ⟨by omega, by omega, Or.inl (by omega)⟩
              · exact ⟨positive, narrow, Or.inl (by omega)⟩
            · intro address before
              simp only at before ⊢
              rw [all full, kept]
              by_cases old : address < offset
              · rw [writeRange_outside _ (Or.inl old), readView]
                exact copied address old
              · rw [writeRange_inside _ (by omega) (by omega), whole,
                  readRange_getD _ _ _ _ (by omega)]
                congr 1
                omega
        · rw [if_neg some]
          exact ⟨Or.inr rfl, fun success => PullError.noConfusion success, congrFun readView _,
      Extends.none rfl⟩
      · rw [if_neg more]
        by_cases failed : readed ≤ 0
        · rw [if_pos failed]
          exact ⟨Or.inr rfl, nofun, rfl, Extends.none rfl⟩
        · rw [if_neg failed]
          refine ⟨Or.inl rfl, fun _ => ⟨?_, fun address inside => copied address (by omega)⟩, rfl,
            Extends.none rfl⟩
          rcases begun with ⟨_, none⟩ | ⟨_, positive, _⟩
          · omega
          · exact positive

/-- **`copy_firmware` copies the whole firmware or fails**, on every memory that keeps to its
contract: it ends, success means a positive length and that many bytes copied, and no write leaves
the image or the buffer. -/
theorem copyFirmware_whole (contract : Contract M view) (apart : dst.id ≠ src.id)
    (buffer : List UInt8) (bufferSize : Nat) (positive : 1 ≤ bufferSize) (memory : σ)
    (small : toInt32 (manifestAt (view memory) src.id).extent + bufferSize < 2 ^ 31) :
    CopyEnds view src dst (toInt32 (manifestAt (view memory) src.id).extent)
      (max (toInt32 (manifestAt (view memory) src.id).extent) bufferSize).toNat (memory, [])
      (copyFirmware (logged M) behind src dst buffer bufferSize (memory, [])) := by
  have readData := contract.read_data src sizeofManifest 0 memory
  have readView := contract.read_view src sizeofManifest 0 memory
  by_cases whole : (M.memoryRead src sizeofManifest 0 memory).1 = sizeofManifest
  · have mt : Manifest.ofBytes (M.memoryRead src sizeofManifest 0 memory).2.1 =
        manifestAt (view memory) src.id := by
      rw [readData (by omega), whole]
      rfl
    simp only [copyFirmware, readFirmwareManifest, logged_read, whole, ne_eq, not_true_eq_false,
      if_false, mt]
    have fuel : (toInt32 (manifestAt (view memory) src.id).extent - (0 : Nat)).toNat < loopFuel := by
      unfold toInt32 loopFuel
      omega
    have ends := copyFirmwareLoop_ends behind contract apart small loopFuel 0 (toInt32 bufferSize) 0 buffer
      ((M.memoryRead src sizeofManifest 0 memory).2.2, []) fuel (Or.inl ⟨rfl, le_rfl⟩)
      (fun some => by
        have unsigned : toInt32 bufferSize = bufferSize := by
          unfold toInt32
          omega
        rw [unsigned]
        omega)
      (fun _ before => absurd before (Nat.not_lt_zero _))
    rw [Int.natCast_zero] at ends
    exact ⟨ends.ended, fun success => ⟨(ends.copied success).1, fun address inside =>
      ((ends.copied success).2 address inside).trans (congrFun (congrFun readView _) address)⟩,
      ends.source.trans (congrFun readView _), ends.writes⟩
  · simp only [copyFirmware, readFirmwareManifest, logged_read, ne_eq, whole, not_false_eq_true,
      if_true]
    exact ⟨Or.inr rfl, fun success => PullError.noConfusion success, congrFun readView _,
      Extends.none rfl⟩

end Copy

/-- The image of `200` bytes is copied in pieces of `16`. -/
theorem twoImages_copied :
    CopyEnds id ⟨0, .readOnly⟩ ⟨1, .writeChunk⟩
      (toInt32 (manifestAt twoImages 0).extent)
      (max (toInt32 (manifestAt twoImages 0).extent) (16 : Nat)).toNat (twoImages, [])
      (copyFirmware (logged (plain smallLayout)) (fun _ => 0) ⟨0, .readOnly⟩ ⟨1, .writeChunk⟩
        (List.replicate 16 0) 16 (twoImages, [])) :=
  copyFirmware_whole (fun _ => 0) (plain_contract smallLayout) (by decide) _ 16 (by decide) twoImages
    (by decide +kernel)

end Upkit
