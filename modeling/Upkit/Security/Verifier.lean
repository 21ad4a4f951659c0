/-
**The verifier: manifest, digest and object.**

`verify_manifest`, `verify_digest` and `verify_object` over any memory. The digest loop is
translated with its 32-bit counters: the step is shortened only after a read, so the first read
always asks for the whole buffer. The builds are those with a `LOGGER_VERBOSITY` below 4; in the
others `log_debug` also reads the caller's buffer (`Upkit.Security.DebugReads`).

The buffer lent to a verification does not matter (`verifyObject_buffer`). On a plain memory:

* `verifyObject_memory` — verification does not change the memory.
* `verifyObject_verdict` — the verdict depends on the object's bytes only.
-/

import Upkit.Memory.Objects

namespace Upkit

open Bytes

section Functions

variable {σ : Type} (M : MemoryInterface σ) (crypto : Crypto)

/-- `verify_manifest`. -/
def verifyManifest (mt : Manifest) (sf : Safestore) : PullError :=
  if mt.getAppid ≠ sf.appid then .invalidSignature
  else verifySignature crypto mt sf.keystore

/-- Iterations the model grants to a loop over a 32-bit address range. -/
def loopFuel : Nat := 2 ^ 32

/-- The loop of `verify_digest` with `log_debug` compiled out: the result, the bytes digested so far,
the caller's buffer and the memory. -/
def verifyDigestLoop (obj : MemObject) (final : Nat) :
    (fuel offset step : Nat) → (hashed buffer : List UInt8) → σ →
      PullError × List UInt8 × List UInt8 × σ
  | 0, _, _, hashed, buffer, memory => (.outOfFuel, hashed, buffer, memory)
  | fuel + 1, offset, step, hashed, buffer, memory =>
      if offset < final then
        let (readed, data, memory) := M.memoryRead obj step offset memory
        let buffer := splice buffer 0 data
        if readed ≠ step then (.memoryRead, hashed, buffer, memory)
        else
          -- Only now, after the read, is the step cut down to what is left.
          let offset := (offset + step) % 2 ^ 32
          verifyDigestLoop obj final fuel offset
            (if final < (offset + step) % 2 ^ 32 then wrap32 (final - offset : Int) else step)
            (hashed ++ buffer.take step) buffer memory
      else (.success, hashed, buffer, memory)

/-- `verify_digest` with `log_debug` compiled out: the result, the caller's buffer and the memory. -/
def verifyDigest (obj : MemObject) (mt : Manifest) (buffer : List UInt8) (bufferLen : Nat)
    (memory : σ) : PullError × List UInt8 × σ :=
  let offset := mt.getOffset
  let final := (offset + mt.getSize) % 2 ^ 32
  if offset = final then (.memoryRead, buffer, memory)
  else
    let (err, hashed, buffer, memory) :=
      verifyDigestLoop M obj final loopFuel offset (bufferLen % 2 ^ 32) [] buffer memory
    if err ≠ .success then (err, buffer, memory)
    else if mt.getDigest ≠ crypto.digest hashed then (.verificationFailed, buffer, memory)
    else (.success, buffer, memory)

/-- `verify_object`: the result, the caller's buffer and the memory. -/
def verifyObject (obj : MemObject) (sf : Safestore) (buffer : List UInt8) (bufferLen : Nat)
    (memory : σ) : PullError × List UInt8 × σ :=
  let (err, mt, memory) := readFirmwareManifest M obj memory
  if err ≠ .success then (.memoryRead, buffer, memory)
  else
    let err := verifyManifest crypto mt sf
    if err ≠ .success then (err, buffer, memory)
    else verifyDigest M crypto obj mt buffer bufferLen memory

theorem verifyManifest_success_iff (mt : Manifest) (sf : Safestore) :
    verifyManifest crypto mt sf = .success ↔
      mt.getAppid = sf.appid ∧ verifySignature crypto mt sf.keystore = .success := by
  unfold verifyManifest
  by_cases same : mt.getAppid = sf.appid
  · simp [same]
  · simp [same]

end Functions

/-! ### The caller's buffer -/

section Buffer

variable {σ : Type} (M : MemoryInterface σ) (crypto : Crypto) {keep : Nat}

/-- The loop digests what it reads: the buffer it was lent does not matter, and buffers that agree
on a prefix still do afterwards. -/
theorem verifyDigestLoop_buffer (obj : MemObject) (final fuel offset step : Nat)
    (hashed : List UInt8) {buffer other : List UInt8} (memory : σ)
    (agree : buffer.take keep = other.take keep) :
    (verifyDigestLoop M obj final fuel offset step hashed buffer memory).1 =
        (verifyDigestLoop M obj final fuel offset step hashed other memory).1 ∧
      (verifyDigestLoop M obj final fuel offset step hashed buffer memory).2.1 =
        (verifyDigestLoop M obj final fuel offset step hashed other memory).2.1 ∧
      (verifyDigestLoop M obj final fuel offset step hashed buffer memory).2.2.1.take keep =
        (verifyDigestLoop M obj final fuel offset step hashed other memory).2.2.1.take keep ∧
      (verifyDigestLoop M obj final fuel offset step hashed buffer memory).2.2.2 =
        (verifyDigestLoop M obj final fuel offset step hashed other memory).2.2.2 := by
  induction fuel generalizing offset step hashed buffer other memory with
  | zero => exact ⟨rfl, rfl, agree, rfl⟩
  | succ fuel ih =>
      rw [verifyDigestLoop, verifyDigestLoop]
      by_cases more : offset < final
      · rw [if_pos more, if_pos more]
        have agree' := take_splice_congr agree (M.memoryRead obj step offset memory).2.1
        by_cases short : (M.memoryRead obj step offset memory).1 = step
        · have length := M.read_length obj step offset memory short
          have digested : ∀ buffer : List UInt8,
              (splice buffer 0 (M.memoryRead obj step offset memory).2.1).take step =
                (M.memoryRead obj step offset memory).2.1 := by
            intro buffer
            have whole := take_splice_zero buffer (M.memoryRead obj step offset memory).2.1
            rw [length] at whole
            exact whole
          simp only [short, ne_eq, not_true_eq_false, if_false, digested]
          exact ih _ _ _ _ agree'
        · simp only [ne_eq, short, not_false_eq_true, if_true, true_and, and_true]
          exact agree'
      · rw [if_neg more, if_neg more]
        exact ⟨rfl, rfl, agree, rfl⟩

theorem verifyDigest_buffer (obj : MemObject) (mt : Manifest) {buffer other : List UInt8}
    (bufferLen : Nat) (memory : σ) (agree : buffer.take keep = other.take keep) :
    (verifyDigest M crypto obj mt buffer bufferLen memory).1 =
        (verifyDigest M crypto obj mt other bufferLen memory).1 ∧
      (verifyDigest M crypto obj mt buffer bufferLen memory).2.1.take keep =
        (verifyDigest M crypto obj mt other bufferLen memory).2.1.take keep ∧
      (verifyDigest M crypto obj mt buffer bufferLen memory).2.2 =
        (verifyDigest M crypto obj mt other bufferLen memory).2.2 := by
  obtain ⟨err, hashed, kept, same⟩ := verifyDigestLoop_buffer M obj
    ((mt.getOffset + mt.getSize) % 2 ^ 32) loopFuel mt.getOffset (bufferLen % 2 ^ 32) [] memory
    agree
  unfold verifyDigest
  simp only [err, hashed]
  split
  · exact ⟨rfl, agree, rfl⟩
  · split
    · exact ⟨rfl, kept, same⟩
    · split
      · exact ⟨rfl, kept, same⟩
      · exact ⟨rfl, kept, same⟩

/-- **The buffer lent to a verification** does not matter. -/
theorem verifyObject_buffer (obj : MemObject) (sf : Safestore) {buffer other : List UInt8}
    (bufferLen : Nat) (memory : σ) (agree : buffer.take keep = other.take keep) :
    (verifyObject M crypto obj sf buffer bufferLen memory).1 =
        (verifyObject M crypto obj sf other bufferLen memory).1 ∧
      (verifyObject M crypto obj sf buffer bufferLen memory).2.1.take keep =
        (verifyObject M crypto obj sf other bufferLen memory).2.1.take keep ∧
      (verifyObject M crypto obj sf buffer bufferLen memory).2.2 =
        (verifyObject M crypto obj sf other bufferLen memory).2.2 := by
  unfold verifyObject
  simp only
  split
  · exact ⟨rfl, agree, rfl⟩
  · split
    · exact ⟨rfl, agree, rfl⟩
    · exact verifyDigest_buffer M crypto obj _ bufferLen _ agree

end Buffer

/-! ### On a plain memory -/

section Plain

variable (layout : PlainLayout) (crypto : Crypto)

theorem verifyDigestLoop_memory (obj : MemObject) (final fuel offset step : Nat)
    (hashed buffer : List UInt8) (memory : Contents) :
    (verifyDigestLoop (plain layout) obj final fuel offset step hashed buffer memory).2.2.2 =
      memory := by
  induction fuel generalizing offset step hashed buffer with
  | zero => rfl
  | succ fuel ih =>
      rw [verifyDigestLoop]
      by_cases more : offset < final
      · rw [if_pos more]
        by_cases fits : offset + step ≤ layout.limit obj.id
        · rw [plain_read layout memory fits]
          simp only
          split
          · rfl
          · exact ih _ _ _ _
        · rw [plain_read_outside layout memory (by omega)]
          simp only
          split
          · rfl
          · exact ih _ _ _ _
      · rw [if_neg more]

theorem verifyDigest_memory (obj : MemObject) (mt : Manifest) (buffer : List UInt8)
    (bufferLen : Nat) (memory : Contents) :
    (verifyDigest (plain layout) crypto obj mt buffer bufferLen memory).2.2 = memory := by
  have kept := verifyDigestLoop_memory layout obj ((mt.getOffset + mt.getSize) % 2 ^ 32) loopFuel
    mt.getOffset (bufferLen % 2 ^ 32) [] buffer memory
  unfold verifyDigest
  simp only
  split
  · rfl
  · split
    · exact kept
    · split
      · exact kept
      · exact kept

/-- **Verification does not change the memory.** -/
theorem verifyObject_memory (obj : MemObject) (sf : Safestore) (buffer : List UInt8)
    (bufferLen : Nat) (memory : Contents) (fits : sizeofManifest ≤ layout.limit obj.id) :
    (verifyObject (plain layout) crypto obj sf buffer bufferLen memory).2.2 = memory := by
  rw [verifyObject, readFirmwareManifest_plain layout memory fits]
  simp only [ne_eq, not_true_eq_false, if_false]
  split
  · rfl
  · exact verifyDigest_memory layout crypto _ _ _ _ _

end Plain

/-! ### The verdict on an address space -/

section Verdict

variable (crypto : Crypto) (sf : Safestore)

/-- Two objects of one length that hold the same bytes are digested alike. -/
theorem verifyDigestLoop_congr {layout layout' : PlainLayout} {obj obj' : MemObject}
    {memory memory' : Contents} (sameLimit : layout.limit obj.id = layout'.limit obj'.id)
    (sameSpace : memory obj.id = memory' obj'.id) (final fuel offset step : Nat)
    (hashed buffer buffer' : List UInt8) :
    (verifyDigestLoop (plain layout) obj final fuel offset step hashed buffer memory).1 =
        (verifyDigestLoop (plain layout') obj' final fuel offset step hashed buffer' memory').1 ∧
      (verifyDigestLoop (plain layout) obj final fuel offset step hashed buffer memory).2.1 =
        (verifyDigestLoop (plain layout') obj' final fuel offset step hashed buffer' memory').2.1 := by
  induction fuel generalizing offset step hashed buffer buffer' with
  | zero => exact ⟨rfl, rfl⟩
  | succ fuel ih =>
      rw [verifyDigestLoop, verifyDigestLoop]
      by_cases more : offset < final
      · rw [if_pos more, if_pos more]
        by_cases fits : offset + step ≤ layout.limit obj.id
        · have data : ∀ old : List UInt8,
              (splice old 0 (readRange (memory obj.id) offset step)).take step =
                readRange (memory obj.id) offset step := fun old => by
            rw [splice_zero, List.take_append_of_le_length (by simp),
              List.take_of_length_le (by simp)]
          rw [plain_read layout memory fits, plain_read layout' memory' (by omega), ← sameSpace]
          simp only [data, ne_eq, not_true_eq_false, if_false]
          exact ih _ _ _ _ _
        · have failed : (-1 : Int) ≠ step := by omega
          rw [plain_read_outside layout memory (by omega),
            plain_read_outside layout' memory' (by omega)]
          simp [failed]
      · rw [if_neg more, if_neg more]
        exact ⟨rfl, rfl⟩

/-- The verdict on `limit` bytes of an address space. -/
def verdict (limit : Nat) (limitLt : limit < 2 ^ 32) (bufferLen : Nat) (space : Nat → UInt8) :
    PullError :=
  (verifyObject (plain ⟨fun _ => limit, fun _ => limitLt, none⟩) crypto ⟨0, .readOnly⟩ sf []
    bufferLen fun _ => space).1

/-- **The verdict depends on the bytes of the object only.** -/
theorem verifyObject_verdict (layout : PlainLayout) (obj : MemObject) (buffer : List UInt8)
    (bufferLen : Nat) (memory : Contents) (fits : sizeofManifest ≤ layout.limit obj.id) :
    (verifyObject (plain layout) crypto obj sf buffer bufferLen memory).1 =
      verdict crypto sf (layout.limit obj.id) (layout.limit_lt obj.id) bufferLen
        (memory obj.id) := by
  have same : manifestAt memory obj.id = manifestAt (fun _ => memory obj.id) 0 := rfl
  rw [verdict, verifyObject, verifyObject, readFirmwareManifest_plain layout memory fits,
    readFirmwareManifest_plain _ _ (by exact fits)]
  simp only [ne_eq, not_true_eq_false, if_false, ← same]
  by_cases valid : verifyManifest crypto (manifestAt memory obj.id) sf = .success
  · rw [if_neg (not_not.mpr valid), if_neg (not_not.mpr valid), verifyDigest, verifyDigest]
    simp only
    by_cases empty : (manifestAt memory obj.id).getOffset =
        ((manifestAt memory obj.id).getOffset + (manifestAt memory obj.id).getSize) % 2 ^ 32
    · rw [if_pos empty, if_pos empty]
    · rw [if_neg empty, if_neg empty]
      obtain ⟨sameErr, sameHash⟩ := @verifyDigestLoop_congr layout
        ⟨fun _ => layout.limit obj.id, fun _ => layout.limit_lt obj.id, none⟩ obj ⟨0, .readOnly⟩
        memory (fun _ => memory obj.id) rfl rfl
        (((manifestAt memory obj.id).getOffset + (manifestAt memory obj.id).getSize) % 2 ^ 32)
        loopFuel (manifestAt memory obj.id).getOffset (bufferLen % 2 ^ 32) [] buffer []
      rw [sameErr, sameHash]
      split
      · rfl
      · split
        · rfl
        · rfl
  · rw [if_pos valid, if_pos valid]

/-- An object that passes holds a manifest that passes. -/
theorem verifyManifest_of_verifyObject {layout : PlainLayout} {obj : MemObject}
    {buffer : List UInt8} {bufferLen : Nat} {memory : Contents}
    (fits : sizeofManifest ≤ layout.limit obj.id)
    (passes : (verifyObject (plain layout) crypto obj sf buffer bufferLen memory).1 = .success) :
    verifyManifest crypto (manifestAt memory obj.id) sf = .success := by
  rw [verifyObject, readFirmwareManifest_plain layout memory fits] at passes
  simp only [ne_eq, not_true_eq_false, if_false] at passes
  by_contra invalid
  rw [if_pos invalid] at passes
  exact invalid passes

end Verdict

end Upkit
