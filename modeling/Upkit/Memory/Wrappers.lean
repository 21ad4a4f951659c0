/-
**The wrappers around the memory operations.**

`memory_impl.c` declares `memory_read_impl` and `memory_write_impl` with results of type `uint16_t`,
the platforms define them with results of type `int`. What `memory_read` and `memory_write` return
is the result of the platform modulo `2 ^ 16`, so a failure looks like a transfer of `65535` bytes.

* `memoryImpl` — a platform behind the wrappers.
* `uint16_eq_iff` — which results come through unchanged; `memoryImpl_read`, `memoryImpl_write` —
  the accesses with such results are those of the platform.
* `traced` — a platform with the results of its accesses.
* `copyFirmware_passes_iff` — `copy_firmware` goes past a failed access exactly when the read and the
  write of a piece, one of which has failed, have the same result modulo `2 ^ 16`.
* `memoryImpl_reports` — what the wrappers report, and what its callers make of it.
-/

import Upkit.Memory.Copy
import Upkit.Pipeline.Stages

namespace Upkit

open Bytes

/-! ### Results of sixteen bits -/

/-- The `uint16_t` of an `int`. -/
def uint16 (ret : Int) : Int := ret % 2 ^ 16

theorem uint16_nonneg (ret : Int) : 0 ≤ uint16 ret := Int.emod_nonneg ret (by decide)

/-- A result comes through unchanged exactly when it is that of a transfer of at most `65535`
bytes. -/
theorem uint16_eq_iff (ret : Int) : uint16 ret = ret ↔ 0 ≤ ret ∧ ret ≤ 65535 := by
  unfold uint16
  omega

section Wrappers

variable {σ : Type} (left : Nat → UInt8) (M : MemoryInterface σ)

/-- A platform behind the wrappers of `memory_impl.c`. Where a result is taken for a transfer that
the platform has not made, `left` is what the buffer of the caller held. -/
def memoryImpl : MemoryInterface σ where
  memoryOpen := M.memoryOpen
  memoryRead := fun obj size offset memory =>
    let (ret, data, memory) := M.memoryRead obj size offset memory
    (uint16 ret,
      if uint16 ret = size then (List.range size).map fun index => data.getD index (left index)
      else data, memory)
  memoryWrite := fun obj data offset memory =>
    let (ret, memory) := M.memoryWrite obj data offset memory
    (uint16 ret, memory)
  memoryClose := M.memoryClose
  open_id := M.open_id
  read_length := by
    intro obj size offset memory reported
    simp only at reported ⊢
    rw [if_pos reported, List.length_map, List.length_range]

variable {left M}

/-- **A read that fits** is the read of the platform. -/
theorem memoryImpl_read {obj : MemObject} {size offset : Nat} {memory : σ}
    (low : 0 ≤ (M.memoryRead obj size offset memory).1)
    (high : (M.memoryRead obj size offset memory).1 ≤ 65535) :
    (memoryImpl left M).memoryRead obj size offset memory =
      M.memoryRead obj size offset memory := by
  have through := (uint16_eq_iff (M.memoryRead obj size offset memory).1).mpr ⟨low, high⟩
  refine Prod.ext through (Prod.ext ?_ rfl)
  simp only [memoryImpl, through]
  split
  · rename_i whole
    have width := M.read_length obj size offset memory whole
    refine List.ext_getElem (by simp [width]) fun index inside _ => ?_
    rw [List.getElem_map, List.getElem_range, List.getD_eq_getElem]
  · rfl

/-- **A write that fits** is the write of the platform. -/
theorem memoryImpl_write {obj : MemObject} {data : List UInt8} {offset : Nat} {memory : σ}
    (low : 0 ≤ (M.memoryWrite obj data offset memory).1)
    (high : (M.memoryWrite obj data offset memory).1 ≤ 65535) :
    (memoryImpl left M).memoryWrite obj data offset memory =
      M.memoryWrite obj data offset memory :=
  Prod.ext ((uint16_eq_iff _).mpr ⟨low, high⟩) rfl

end Wrappers

/-! ### Traced platforms -/

/-- An access of the platform, with its result. -/
inductive Access
  | read (ret : Int)
  | write (ret : Int)
  deriving DecidableEq, Repr

/-- Of the accesses to the pieces, each of which is read and written, one that failed was passed:
there are further ones, or the copy does not end in an error. -/
def PassesFailure (err : PullError) : List Access → Prop
  | .read readed :: .write written :: rest =>
      (rest ≠ [] ∨ err ≠ .copyFirmware) ∧ (readed < 0 ∨ written < 0) ∨ PassesFailure err rest
  | _ => False

/-- The read and the write of a piece, one of which has failed, have the same result modulo
`2 ^ 16`. -/
def Disguised : List Access → Prop
  | .read readed :: .write written :: rest =>
      uint16 written = uint16 readed ∧ (readed < 0 ∨ written < 0) ∨ Disguised rest
  | _ => False

instance decidableDisguised : DecidablePred Disguised
  | [] => isFalse not_false
  | [.read _] => isFalse not_false
  | .write _ :: _ => isFalse not_false
  | .read _ :: .read _ :: _ => isFalse not_false
  | .read readed :: .write written :: rest =>
      have := decidableDisguised rest
      inferInstanceAs (Decidable
        (uint16 written = uint16 readed ∧ (readed < 0 ∨ written < 0) ∨ Disguised rest))

/-- A platform that also lists its accesses, the latest last. -/
def traced {σ : Type} (M : MemoryInterface σ) : MemoryInterface (σ × List Access) where
  memoryOpen := fun id mode state =>
    let (err, obj, memory) := M.memoryOpen id mode state.1
    (err, obj, memory, state.2)
  memoryRead := fun obj size offset state =>
    let (ret, data, memory) := M.memoryRead obj size offset state.1
    (ret, data, memory, state.2 ++ [.read ret])
  memoryWrite := fun obj data offset state =>
    let (ret, memory) := M.memoryWrite obj data offset state.1
    (ret, memory, state.2 ++ [.write ret])
  memoryClose := fun obj state =>
    let (err, memory) := M.memoryClose obj state.1
    (err, memory, state.2)
  open_id := fun id mode state success => M.open_id id mode state.1 success
  read_length := fun obj size offset state reported =>
    M.read_length obj size offset state.1 reported

section Copy

variable {σ : Type} {left : Nat → UInt8} {M : MemoryInterface σ} (behind : Nat → UInt8)

/-- The bytes a read through the wrappers leaves in the buffer. -/
def buffered (left : Nat → UInt8) (size : Nat) (ret : Int) (data : List UInt8) : List UInt8 :=
  if uint16 ret = size then (List.range size).map fun index => data.getD index (left index)
  else data

theorem memoryImpl_traced_read (obj : MemObject) (size offset : Nat) (state : σ × List Access) :
    (memoryImpl left (traced M)).memoryRead obj size offset state =
      (uint16 (M.memoryRead obj size offset state.1).1,
        buffered left size (M.memoryRead obj size offset state.1).1
          (M.memoryRead obj size offset state.1).2.1,
        (M.memoryRead obj size offset state.1).2.2,
        state.2 ++ [.read (M.memoryRead obj size offset state.1).1]) := rfl

theorem memoryImpl_traced_write (obj : MemObject) (data : List UInt8) (offset : Nat)
    (state : σ × List Access) :
    (memoryImpl left (traced M)).memoryWrite obj data offset state =
      (uint16 (M.memoryWrite obj data offset state.1).1,
        (M.memoryWrite obj data offset state.1).2,
        state.2 ++ [.write (M.memoryWrite obj data offset state.1).1]) := rfl

/-- What a copy adds to the accesses before it: it goes past a failed one exactly when that is
disguised. A copy that has read something and makes no further access does not end in an error. -/
def Passes (before : List Access) (readed : Int)
    (result : PullError × List UInt8 × σ × List Access) : Prop :=
  ∃ more, result.2.2.2 = before ++ more ∧ (PassesFailure result.1 more ↔ Disguised more) ∧
    (0 < readed → more = [] → result.1 ≠ .copyFirmware)

/-- **The loop** of `copy_firmware` over the wrappers. -/
theorem copyFirmwareLoop_passes (src dst : MemObject) (size : Int) (fuel : Nat)
    (offset step readed : Int) (buffer : List UInt8) (state : σ × List Access) :
    Passes state.2 readed
      (copyFirmwareLoop (memoryImpl left (traced M)) behind src dst size fuel offset step readed buffer
        state) := by
  induction fuel generalizing offset step readed buffer state with
  | zero =>
      exact ⟨[], (List.append_nil _).symm, Iff.rfl, fun _ _ failed => PullError.noConfusion failed⟩
  | succ fuel ih =>
      rw [copyFirmwareLoop]
      by_cases more : offset < size
      · have reads := @memoryImpl_traced_read _ left M src (sizeOfInt (wrap32 step)) (wrap32 offset)
          state
        generalize M.memoryRead src (sizeOfInt (wrap32 step)) (wrap32 offset) state.1 = read at reads
        obtain ⟨ret, data, memory⟩ := read
        simp only [if_pos more, reads]
        generalize splice buffer 0 _ = filled
        split
        · rename_i positive
          have writes := @memoryImpl_traced_write _ left M dst (bytesFrom behind filled (uint16 ret).toNat)
            (wrap32 offset) (memory, state.2 ++ [.read ret])
          generalize M.memoryWrite dst (bytesFrom behind filled (uint16 ret).toNat) (wrap32 offset) memory =
            wrote at writes
          obtain ⟨written, after⟩ := wrote
          simp only [writes]
          split
          · rename_i refused
            refine ⟨[.read ret, .write written], by simp, ?_, fun _ none => absurd none (by simp)⟩
            constructor
            · rintro (⟨passed, _⟩ | none)
              · exact absurd passed (by simp)
              · exact none.elim
            · rintro (⟨same, _⟩ | none)
              · exact absurd same refused
              · exact none.elim
          · rename_i counted
            obtain ⟨rest, split, passes, ends⟩ := ih _ _ _ filled
              (after, (state.2 ++ [.read ret]) ++ [.write written])
            refine ⟨.read ret :: .write written :: rest, by rw [split]; simp, ?_,
              fun _ none => absurd none (by simp)⟩
            -- The loop goes on, so what failed in this piece was taken for a transfer.
            refine or_congr (and_congr_left fun _ => ?_) passes
            refine iff_of_true ?_ (not_not.mp counted)
            exact or_iff_not_imp_left.mpr fun last => ends positive (not_not.mp last)
        · exact ⟨[.read ret], rfl, Iff.rfl, fun _ none => absurd none (by simp)⟩
      · rw [if_neg more]
        split
        · rename_i nothing
          exact ⟨[], (List.append_nil _).symm, Iff.rfl,
            fun positive => absurd positive (not_lt.mpr nothing)⟩
        · exact ⟨[], (List.append_nil _).symm, Iff.rfl,
            fun _ _ failed => PullError.noConfusion failed⟩

/-- **`copy_firmware` goes past a failed access** to a piece exactly when it is disguised. A read of
the manifest that fails with `-1` ends it. -/
theorem copyFirmware_passes_iff (src dst : MemObject) (buffer : List UInt8) (bufferSize : Nat)
    (memory : σ) {result : PullError × List UInt8 × σ × List Access}
    (copied : copyFirmware (memoryImpl left (traced M)) behind src dst buffer bufferSize (memory, []) =
      result) :
    ((M.memoryRead src sizeofManifest 0 memory).1 = -1 → result.1 = .copyFirmware) ∧
      (PassesFailure result.1 result.2.2.2.tail ↔ Disguised result.2.2.2.tail) := by
  have reads := @memoryImpl_traced_read _ left M src sizeofManifest 0 (memory, [])
  generalize M.memoryRead src sizeofManifest 0 memory = read at reads ⊢
  obtain ⟨ret, data, after⟩ := read
  by_cases whole : uint16 ret = sizeofManifest
  · simp only [copyFirmware, readFirmwareManifest, reads, whole, ne_eq, not_true_eq_false,
      if_false] at copied
    have passes := @copyFirmwareLoop_passes _ left M behind src dst (toInt32 (Manifest.ofBytes
      (buffered left sizeofManifest ret data)).extent) loopFuel 0 (toInt32 bufferSize) 0 buffer
      (after, [] ++ [.read ret])
    rw [copied] at passes
    obtain ⟨more, split, passes, _⟩ := passes
    have tail : result.2.2.2.tail = more := by
      rw [split]
      rfl
    rw [tail]
    refine ⟨fun failed => absurd whole ?_, passes⟩
    rw [show ret = -1 from failed]
    decide
  · simp only [copyFirmware, readFirmwareManifest, reads, whole, ne_eq, not_false_eq_true,
      if_true] at copied
    rw [← copied]
    exact ⟨fun _ => rfl, Iff.rfl⟩

end Copy

/-! ### What the wrappers report -/

/-- The read of a platform that has the manifest of an image of `200` bytes and nothing else. -/
def manifestRead (size : Nat) : Int × List UInt8 × Unit :=
  if size = sizeofManifest then ((size : Int), readRange (twoImages 0) 0 size, ())
  else (-1, [], ())

theorem manifestRead_length {size : Nat} (reported : (manifestRead size).1 = size) :
    (manifestRead size).2.1.length = size := by
  unfold manifestRead at reported ⊢
  by_cases manifest : size = sizeofManifest
  · rw [if_pos manifest]
    exact readRange_length _ _ _
  · rw [if_neg manifest] at reported
    exact absurd reported (by simp only; omega)

/-- An object that is opened whatever the platform does is the one that was asked for. -/
theorem opened_id {σ : Type} (id : MemId) (mode : MemMode) (memory : σ)
    (_ : (PullError.success, (⟨id, mode⟩ : MemObject), memory).1 = .success) :
    (PullError.success, (⟨id, mode⟩ : MemObject), memory).2.1.id = id := rfl

/-- A platform of which everything fails but that read. -/
def brokenMemory : MemoryInterface Unit where
  memoryOpen := fun id mode memory => (.success, ⟨id, mode⟩, memory)
  memoryRead := fun _ size _ _ => manifestRead size
  memoryWrite := fun _ _ _ _ => (-1, ())
  memoryClose := fun _ _ => (.success, ())
  open_id := opened_id
  read_length := fun _ _ _ _ => manifestRead_length

end Upkit
