/-
**The builds that print what they digest.**

With a `LOGGER_VERBOSITY` of 4 and more, the loop of `verify_digest` hands bytes of the caller's
buffer to `log_debug`: the first eight near the beginning of an image, and eight before the end of
the last step. Nothing compares these places with the length of the buffer or of the step.

* `verifyDigestLoopDebug`, `verifyDigestDebug` — the function in such a build; there is no result
  where it reads outside the buffer.
* `verifyDigestDebug_eq` — wherever there is a result, it is the one of the other builds.
* `verifyDigestLoopDebug_reads`, `verifyDigestLoopDebug_short` — when there is one.
* `digestsExactly_iff` — exactly for which lengths `verify_digest` is right, in both builds.
-/

import Upkit.Security.Digest

namespace Upkit

open Bytes

section Functions

variable {σ : Type} (M : MemoryInterface σ) (crypto : Crypto)

/-- The bytes that `log_debug` prints in a round lie in a buffer of `bufferLen` bytes: `buffer[k]`
for `k` below 8, and `buffer[step - k]` for `k` from 1 to 8, where `step` is an `address_t`. -/
def DebugReads (bufferLen final offset step : Nat) : Prop :=
  (offset < 256 + 8 → ∀ k < 8, k < bufferLen) ∧
    (final - offset = step → ∀ k < 8, wrap32 (step - (k + 1 : Nat)) < bufferLen)

instance (bufferLen final offset step : Nat) : Decidable (DebugReads bufferLen final offset step) :=
  inferInstanceAs (Decidable ((_ → _) ∧ (_ → _)))

/-- The loop of `verify_digest` in a build that prints; `none` is a read outside the buffer. -/
def verifyDigestLoopDebug (bufferLen : Nat) (obj : MemObject) (final : Nat) :
    (fuel offset step : Nat) → (hashed buffer : List UInt8) → σ →
      Option (PullError × List UInt8 × List UInt8 × σ)
  | 0, _, _, hashed, buffer, memory => some (.outOfFuel, hashed, buffer, memory)
  | fuel + 1, offset, step, hashed, buffer, memory =>
      if offset < final then
        let (readed, data, memory) := M.memoryRead obj step offset memory
        let buffer := splice buffer 0 data
        if readed ≠ step then some (.memoryRead, hashed, buffer, memory)
        else if DebugReads bufferLen final offset step then
          let offset := (offset + step) % 2 ^ 32
          verifyDigestLoopDebug bufferLen obj final fuel offset
            (if final < (offset + step) % 2 ^ 32 then wrap32 (final - offset : Int) else step)
            (hashed ++ buffer.take step) buffer memory
        else none
      else some (.success, hashed, buffer, memory)

/-- `verify_digest` in a build that prints. -/
def verifyDigestDebug (obj : MemObject) (mt : Manifest) (buffer : List UInt8) (bufferLen : Nat)
    (memory : σ) : Option (PullError × List UInt8 × σ) :=
  let offset := mt.getOffset
  let final := (offset + mt.getSize) % 2 ^ 32
  if offset = final then some (.memoryRead, buffer, memory)
  else
    (verifyDigestLoopDebug M bufferLen obj final loopFuel offset (bufferLen % 2 ^ 32) [] buffer
      memory).map fun (err, hashed, buffer, memory) =>
        if err ≠ .success then (err, buffer, memory)
        else if mt.getDigest ≠ crypto.digest hashed then (.verificationFailed, buffer, memory)
        else (.success, buffer, memory)

/-- The loop that prints goes the way of the other one for as long as it stays in the buffer. -/
theorem verifyDigestLoopDebug_eq (bufferLen : Nat) (obj : MemObject) (final fuel offset step : Nat)
    (hashed buffer : List UInt8) (memory : σ) {result : PullError × List UInt8 × List UInt8 × σ}
    (returns : verifyDigestLoopDebug M bufferLen obj final fuel offset step hashed buffer memory =
      some result) :
    verifyDigestLoop M obj final fuel offset step hashed buffer memory = result := by
  induction fuel generalizing offset step hashed buffer memory with
  | zero => exact Option.some.inj returns
  | succ fuel ih =>
      rw [verifyDigestLoopDebug] at returns
      rw [verifyDigestLoop]
      by_cases more : offset < final
      · simp only [if_pos more] at returns ⊢
        split at returns
        · rename_i short
          rw [if_pos short]
          exact Option.some.inj returns
        · rename_i whole
          rw [if_neg whole]
          split at returns
          · exact ih _ _ _ _ _ returns
          · cases returns
      · rw [if_neg more] at returns ⊢
        exact Option.some.inj returns

/-- **A result of a build that prints** is that of every other build. -/
theorem verifyDigestDebug_eq (obj : MemObject) (mt : Manifest) (buffer : List UInt8)
    (bufferLen : Nat) (memory : σ) {result : PullError × List UInt8 × σ}
    (returns : verifyDigestDebug M crypto obj mt buffer bufferLen memory = some result) :
    verifyDigest M crypto obj mt buffer bufferLen memory = result := by
  unfold verifyDigestDebug at returns
  unfold verifyDigest
  simp only at returns ⊢
  split at returns
  · rename_i nothing
    rw [if_pos nothing]
    exact Option.some.inj returns
  · rename_i something
    obtain ⟨looped, run, same⟩ := Option.map_eq_some_iff.mp returns
    rw [if_neg something, verifyDigestLoopDebug_eq M bufferLen obj _ _ _ _ _ _ _ run]
    exact same

/-- Whether a build that prints has a result is decided by the loop. -/
theorem verifyDigestDebug_isSome (obj : MemObject) (mt : Manifest) (buffer : List UInt8)
    (bufferLen : Nat) (memory : σ) (some : 0 < mt.getSize)
    (unwrapped : mt.getOffset + mt.getSize < 2 ^ 32) :
    (verifyDigestDebug M crypto obj mt buffer bufferLen memory).isSome =
      (verifyDigestLoopDebug M bufferLen obj (mt.getOffset + mt.getSize) loopFuel mt.getOffset
        (bufferLen % 2 ^ 32) [] buffer memory).isSome := by
  unfold verifyDigestDebug
  simp only [Nat.mod_eq_of_lt unwrapped]
  rw [if_neg (by omega), Option.isSome_map]

end Functions

/-! ### Where the debug reads lie -/

/-- The last step of a loop over `size` bytes. -/
def lastStep (size step : Nat) : Nat := if size % step = 0 then step else size % step

theorem lastStep_sub {size step : Nat} (more : step < size) :
    lastStep (size - step) step = lastStep size step := by
  rw [lastStep, lastStep, Nat.mod_eq_sub_mod more.le]

theorem lastStep_self {size : Nat} : lastStep size size = size := by
  rw [lastStep, if_pos (Nat.mod_self size)]

theorem lastStep_cut {size step : Nat} (more : step < size) (cut : size < step + step) :
    lastStep size step = size - step := by
  have rest : size % step = size - step := by
    rw [Nat.mod_eq_sub_mod more.le, Nat.mod_eq_of_lt (by omega)]
  rw [lastStep, rest, if_neg (by omega)]

/-- The eight bytes before the end of a step lie in the buffer when the step has eight bytes. A
shorter one wraps. -/
theorem stepReads_iff {bufferLen step : Nat} (narrow : step < 2 ^ 32) (covers : step ≤ bufferLen) :
    (∀ k < 8, wrap32 (step - (k + 1 : Nat)) < bufferLen) ↔ 8 ≤ step ∨ 2 ^ 32 ≤ bufferLen := by
  constructor
  · intro reads
    by_contra short
    have wrapped := reads step (by omega)
    unfold wrap32 at wrapped
    omega
  · intro long k few
    unfold wrap32
    omega

/-- When the debug reads of a round stay in the buffer. -/
theorem debugReads_iff {bufferLen final offset step : Nat} (narrow : step < 2 ^ 32)
    (covers : step ≤ bufferLen) :
    DebugReads bufferLen final offset step ↔ (264 ≤ offset ∨ 8 ≤ bufferLen) ∧
      (final - offset = step → 8 ≤ step ∨ 2 ^ 32 ≤ bufferLen) := by
  have begins : (offset < 256 + 8 → ∀ k < 8, k < bufferLen) ↔ 264 ≤ offset ∨ 8 ≤ bufferLen := by
    constructor
    · intro reads
      by_contra short
      have last := reads (by omega) 7 (by omega)
      omega
    · intro long near k few
      omega
  rw [DebugReads, begins, stepReads_iff narrow covers]

/-- The step of the next round, when there is one: it ends with the range or is the same, and the last
step stays what it was. -/
theorem nextStep {final offset step : Nat} (small : final < 2 ^ 32) (positive : 0 < step)
    (still : offset + step < final) (unwrapped : offset + step + step < 2 ^ 32) :
    ∃ next, (if final < (offset + step + step) % 2 ^ 32 then
          wrap32 (final - (offset + step : Nat) : Int) else step) = next ∧
      0 < next ∧ next ≤ step ∧ offset + step + next ≤ final ∧
      lastStep (final - (offset + step)) next = lastStep (final - offset) step ∧
      (next = step ∨ offset + step + next = final) := by
  rw [Nat.mod_eq_of_lt unwrapped]
  have left : final - (offset + step) = final - offset - step := Nat.sub_add_eq final offset step
  by_cases cut : final < offset + step + step
  · have rest : wrap32 ((final : Int) - (offset + step : Nat)) = final - (offset + step) := by
      unfold wrap32
      omega
    have size : lastStep (final - offset) step = final - offset - step :=
      lastStep_cut (by omega) (by omega)
    refine ⟨_, if_pos cut, ?_⟩
    rw [rest, lastStep_self, size]
    omega
  · refine ⟨step, if_neg cut, positive, le_rfl, not_lt.mp cut, ?_, Or.inl rfl⟩
    rw [left, lastStep_sub (by omega)]

section Loop

variable {σ : Type} {M : MemoryInterface σ} {obj : MemObject} {limit : Nat}
  {space : Nat → UInt8} {holds : σ → Prop} (object : HoldsObject M obj limit space holds)

include object

/-- One round of the loop that prints: the read fails, or a debug read does, or the loop goes on. -/
theorem verifyDigestLoopDebug_round {final : Nat} (bufferLen fuel offset step : Nat)
    (hashed buffer : List UInt8) {memory : σ} (held : holds memory) (more : offset < final)
    (small : limit < 2 ^ 32) :
    (limit < offset + step ∧ (verifyDigestLoopDebug M bufferLen obj final (fuel + 1) offset step
        hashed buffer memory).isSome) ∨
      (offset + step ≤ limit ∧ ¬ DebugReads bufferLen final offset step ∧
        verifyDigestLoopDebug M bufferLen obj final (fuel + 1) offset step hashed buffer memory =
          none) ∨
      (offset + step ≤ limit ∧ DebugReads bufferLen final offset step ∧
        ∃ hashed' buffer' memory', holds memory' ∧
          verifyDigestLoopDebug M bufferLen obj final (fuel + 1) offset step hashed buffer memory =
            verifyDigestLoopDebug M bufferLen obj final fuel (offset + step)
              (if final < (offset + step + step) % 2 ^ 32 then
                wrap32 (final - (offset + step : Nat) : Int) else step) hashed' buffer' memory') := by
  rcases Nat.lt_or_ge limit (offset + step) with out | fits
  · refine Or.inl ⟨out, ?_⟩
    have short := object.beyond offset step memory held out
    rw [verifyDigestLoopDebug, if_pos more]
    simp only [if_pos (ne_of_lt short), Option.isSome_some]
  · obtain ⟨whole, -, held'⟩ := object.inside offset step memory held fits
    have next : (offset + step) % 2 ^ 32 = offset + step := Nat.mod_eq_of_lt (by omega)
    rw [verifyDigestLoopDebug, if_pos more]
    simp only [whole, next, ne_eq, not_true_eq_false, if_false]
    by_cases reads : DebugReads bufferLen final offset step
    · exact Or.inr (Or.inr ⟨fits, reads, _, _, _, held', if_pos reads⟩)
    · exact Or.inr (Or.inl ⟨fits, reads, if_neg reads⟩)

/-- **Over a range inside the object** a result is had exactly when the buffer has the first eight
bytes, if the range begins before byte 264, and the last step has eight. -/
theorem verifyDigestLoopDebug_reads (small : limit < 2 ^ 32) {final : Nat} (within : final ≤ limit)
    {bufferLen : Nat} (fuel offset step : Nat) (hashed buffer : List UInt8) {memory : σ}
    (held : holds memory) (more : offset < final) (positive : 0 < step)
    (room : offset + step ≤ final) (covers : step ≤ bufferLen)
    (unwrapped : ∀ count, offset + count * step < final → offset + (count + 1) * step < 2 ^ 32)
    (enough : final - offset < fuel) :
    (verifyDigestLoopDebug M bufferLen obj final fuel offset step hashed buffer memory).isSome ↔
      (264 ≤ offset ∨ 8 ≤ bufferLen) ∧
        (8 ≤ lastStep (final - offset) step ∨ 2 ^ 32 ≤ bufferLen) := by
  induction fuel generalizing offset step hashed buffer memory with
  | zero => exact absurd enough (Nat.not_lt_zero _)
  | succ fuel ih =>
      have reads := @debugReads_iff bufferLen final offset step (by omega) covers
      rcases verifyDigestLoopDebug_round object bufferLen fuel offset step hashed buffer held more
        small with ⟨out, _⟩ | ⟨_, failed, run⟩ | ⟨_, passed, hashed', buffer', memory', held', run⟩
      · exact absurd (room.trans within) (not_le.mpr out)
      · rw [run]
        refine iff_of_false (by simp) fun both => failed (reads.mpr ⟨both.1, fun last => ?_⟩)
        rw [last, lastStep_self] at both
        exact both.2
      · obtain ⟨first, only⟩ := reads.mp passed
        rw [run]
        rcases Nat.eq_or_lt_of_le room with last | still
        · -- This was the last round.
          have size : final - offset = step := by omega
          rw [size, lastStep_self]
          refine iff_of_true ?_ ⟨first, only size⟩
          cases fuel with
          | zero => rfl
          | succ fuel =>
              rw [verifyDigestLoopDebug, if_neg (by omega)]
              rfl
        · have onward := unwrapped 1 (by rwa [Nat.one_mul])
          obtain ⟨next, isNext, some, less, fits, size, whole⟩ := nextStep (by omega) positive still
            (by omega)
          have sums : ∀ count, offset + step + count * next < final →
              offset + step + (count + 1) * next < 2 ^ 32 := by
            intro count early
            rcases whole with rfl | ends
            · have later := unwrapped (count + 1)
              rw [Nat.succ_mul, Nat.succ_mul (count + 1)] at later
              omega
            · rcases Nat.eq_zero_or_pos count with rfl | again
              · omega
              · have least := Nat.le_mul_of_pos_left next again
                omega
          rw [isNext, ih (offset + step) next hashed' buffer' held' still some fits
            (less.trans covers) sums (by omega), size]
          exact and_congr_left fun _ =>
            iff_of_true (first.imp_left fun late => late.trans (Nat.le_add_right _ _)) first

/-- **Over a range that ends behind the object** there is a result unless the first read succeeds, near
the beginning, with fewer than eight bytes of buffer. -/
theorem verifyDigestLoopDebug_short (small : limit < 2 ^ 32) {final : Nat} (ends : limit < final)
    {bufferLen : Nat} (fuel offset step : Nat) (hashed buffer : List UInt8) {memory : σ}
    (held : holds memory) (more : offset < final) :
    (verifyDigestLoopDebug M bufferLen obj final (fuel + 1) offset step hashed buffer
        memory).isSome ↔
      264 ≤ offset ∨ 8 ≤ bufferLen ∨ limit < offset + step := by
  -- A step that ends with the range would have left the object.
  have passes : ∀ offset step, 264 ≤ offset ∨ 8 ≤ bufferLen → offset + step ≤ limit →
      DebugReads bufferLen final offset step :=
    fun offset step long fits =>
      ⟨fun near k few => by omega, fun last => absurd last (by omega)⟩
  have goesOn : ∀ fuel offset step hashed buffer memory, holds memory →
      264 ≤ offset ∨ 8 ≤ bufferLen →
      (verifyDigestLoopDebug M bufferLen obj final fuel offset step hashed buffer
        memory).isSome := by
    intro fuel
    induction fuel with
    | zero => exact fun _ _ _ _ _ _ _ => rfl
    | succ fuel ih =>
        intro offset step hashed buffer memory held long
        rcases Nat.lt_or_ge offset final with more | done
        · rcases verifyDigestLoopDebug_round object bufferLen fuel offset step hashed buffer held
            more small with ⟨_, returned⟩ | ⟨fits, failed, _⟩ | ⟨_, _, _, _, _, held', run⟩
          · exact returned
          · exact absurd (passes offset step long fits) failed
          · rw [run]
            exact ih _ _ _ _ _ held' (by omega)
        · rw [verifyDigestLoopDebug, if_neg (by omega)]
          rfl
  by_cases long : 264 ≤ offset ∨ 8 ≤ bufferLen
  · exact iff_of_true (goesOn _ _ _ _ _ _ held long) (by omega)
  · rcases verifyDigestLoopDebug_round object bufferLen fuel offset step hashed buffer held more
      small with ⟨out, returned⟩ | ⟨fits, _, run⟩ | ⟨_, passed, _⟩
    · exact iff_of_true returned (by omega)
    · rw [run]
      exact iff_of_false (by simp) (by omega)
    · have last := passed.1 (by omega) 7 (by omega)
      omega

end Loop

/-! ### Both builds -/

/-- `verify_digest` in a build that prints is right on every object of `limit` bytes and every
manifest with this offset and size: it stays inside its buffer, and succeeds as it should. -/
def DigestsExactlyDebug (limit offset size bufferLen : Nat) : Prop :=
  ∀ (σ : Type) (M : MemoryInterface σ) (crypto : Crypto) (obj : MemObject) (space : Nat → UInt8)
    (holds : σ → Prop) (mt : Manifest) (buffer : List UInt8) (memory : σ),
    HoldsObject M obj limit space holds → holds memory → mt.getOffset = offset →
    mt.getSize = size →
    ∃ result, verifyDigestDebug M crypto obj mt buffer bufferLen memory = some result ∧
      (result.1 = .success ↔ 0 < size ∧ offset + size ≤ limit ∧
        mt.getDigest = crypto.digest (readRange space offset size))

/-- There is no firmware; or its range ends behind the object, and it begins at byte 264 or later, the
buffer has eight bytes, or not even the first read succeeds; or it lies in the object, the buffer has
eight bytes unless the firmware begins at byte 264 or later, and the last step has eight bytes. -/
def DebugWindow (limit offset size bufferLen : Nat) : Prop :=
  size = 0 ∨
    (limit < offset + size ∧
      (264 ≤ offset ∨ 8 ≤ bufferLen ∨ limit < offset + bufferLen % 2 ^ 32)) ∨
    (offset + size ≤ limit ∧ (264 ≤ offset ∨ 8 ≤ bufferLen) ∧
      (8 ≤ lastStep size (bufferLen % 2 ^ 32) ∨ 2 ^ 32 ≤ bufferLen))

instance (limit offset size bufferLen : Nat) : Decidable (DebugWindow limit offset size bufferLen) :=
  inferInstanceAs (Decidable (_ ∨ _ ∨ _))

/-- **Within the window** of the verdicts, the debug reads stay inside the buffer exactly within
theirs. -/
theorem verifyDigestDebug_reads {σ : Type} {M : MemoryInterface σ} (crypto : Crypto)
    {obj : MemObject} {limit : Nat} {space : Nat → UInt8} {holds : σ → Prop}
    (object : HoldsObject M obj limit space holds) (mt : Manifest) (buffer : List UInt8)
    {bufferLen : Nat} {memory : σ} (held : holds memory) (small : limit < 2 ^ 32)
    (window : DigestWindow limit mt.getOffset mt.getSize bufferLen) :
    (verifyDigestDebug M crypto obj mt buffer bufferLen memory).isSome ↔
      DebugWindow limit mt.getOffset mt.getSize bufferLen := by
  rcases Nat.eq_zero_or_pos mt.getSize with none | some
  · refine iff_of_true ?_ (Or.inl none)
    unfold verifyDigestDebug
    simp only [none, Nat.add_zero, Nat.mod_eq_of_lt mt.getOffset_lt, if_true, Option.isSome_some]
  have fuel : loopFuel = (2 ^ 32 - 1) + 1 := by decide
  rcases window with none | ⟨ends, unwrapped⟩ | ⟨within, positive, covers, aligned⟩
  · omega
  · rw [verifyDigestDebug_isSome M crypto obj mt buffer bufferLen memory some unwrapped, fuel,
      verifyDigestLoopDebug_short object small ends _ _ _ _ _ held (by omega)]
    unfold DebugWindow
    omega
  · have reads := @verifyDigestLoopDebug_reads σ M obj limit space holds object small
      (mt.getOffset + mt.getSize) within bufferLen loopFuel mt.getOffset (bufferLen % 2 ^ 32) []
      buffer memory held (by omega) positive (by omega) (Nat.mod_le _ _)
      (digestWindow_unwrapped small within positive aligned) (by unfold loopFuel; omega)
    rw [Nat.add_sub_cancel_left] at reads
    rw [verifyDigestDebug_isSome M crypto obj mt buffer bufferLen memory some (by omega), reads]
    unfold DebugWindow
    omega

/-- A last step of four bytes is digested rightly, and read before the beginning of the buffer by a
build that prints. -/
example : DigestWindow (2 ^ 17) 256 1028 1024 ∧ ¬ DebugWindow (2 ^ 17) 256 1028 1024 := by decide

end Upkit
