/-
**What `verify_digest` digests.**

An object of some length is read through any memory: a read inside it returns all its bytes, a read
that leaves it fails or is short (`HoldsObject`). The loop shortens its step only after a read, and
its sums wrap at `2 ^ 32`, so the lengths decide what is digested:

* `verifyDigestLoop_window` — the range of the manifest, when the buffer is no longer than the
  firmware and the last sum does not wrap.
* `verifyDigestLoop_short`, `verifyDigestLoop_wrapped`, `verifyDigestLoop_stuck` — the loop does not
  succeed: the object ends too early, the last sum wraps, or the step is zero.
* `verifyObject_plain` — so an object passes when its manifest does and its digest is right.
* `digestsExactly_of_window`, `window_of_digestsExactly` — for which lengths `verify_digest` is right
  on every object, in a build that does not print.
-/

import Upkit.Security.Verifier

namespace Upkit

open Bytes

section Loop

variable {σ : Type} (M : MemoryInterface σ)

/-- As long as the memory `holds` it, the object has `limit` bytes, those of `space`: reads inside
it succeed and leave it alone, other reads fail or are short. -/
structure HoldsObject (obj : MemObject) (limit : Nat) (space : Nat → UInt8) (holds : σ → Prop) :
    Prop where
  inside : ∀ offset size memory, holds memory → offset + size ≤ limit →
    (M.memoryRead obj size offset memory).1 = size ∧
      (M.memoryRead obj size offset memory).2.1 = readRange space offset size ∧
      holds (M.memoryRead obj size offset memory).2.2
  beyond : ∀ offset size memory, holds memory → limit < offset + size →
    (M.memoryRead obj size offset memory).1 < size

variable {M} {obj : MemObject} {limit : Nat} {space : Nat → UInt8} {holds : σ → Prop}
  (object : HoldsObject M obj limit space holds)

include object

/-- One round on an object: the read fails, or it digests the next step. -/
theorem verifyDigestLoop_round {final : Nat} (fuel offset step : Nat) (hashed buffer : List UInt8)
    {memory : σ} (held : holds memory) (more : offset < final) (small : limit < 2 ^ 32) :
    (limit < offset + step ∧
        (verifyDigestLoop M obj final (fuel + 1) offset step hashed buffer memory).1 ≠ .success) ∨
      (offset + step ≤ limit ∧ ∃ buffer' memory', holds memory' ∧
        verifyDigestLoop M obj final (fuel + 1) offset step hashed buffer memory =
          verifyDigestLoop M obj final fuel (offset + step)
            (if final < (offset + step + step) % 2 ^ 32 then final - (offset + step) else step)
            (hashed ++ readRange space offset step) buffer' memory') := by
  rcases Nat.lt_or_ge limit (offset + step) with out | fits
  · refine Or.inl ⟨out, ?_⟩
    have short := object.beyond offset step memory held out
    rw [verifyDigestLoop, if_pos more]
    simp only [if_pos (ne_of_lt short)]
    exact fun impossible => PullError.noConfusion impossible
  · refine Or.inr ⟨fits, ?_⟩
    obtain ⟨whole, data, held'⟩ := object.inside offset step memory held fits
    have next : (offset + step) % 2 ^ 32 = offset + step := Nat.mod_eq_of_lt (by omega)
    have digested : (splice buffer 0 (readRange space offset step)).take step =
        readRange space offset step := by
      have taken := take_splice_zero buffer (readRange space offset step)
      rwa [readRange_length] at taken
    refine ⟨splice buffer 0 (readRange space offset step), _, held', ?_⟩
    rw [verifyDigestLoop, if_pos more]
    simp only [whole, data, next, digested, ne_eq, not_true_eq_false, if_false]
    by_cases cut : final < (offset + step + step) % 2 ^ 32
    · rw [if_pos cut, if_pos cut]
      rcases Nat.lt_or_ge (offset + step) final with still | done
      · have rest : wrap32 ((final : Int) - ((offset + step : Nat) : Int)) =
            final - (offset + step) := by
          unfold wrap32
          omega
        rw [rest]
      · -- The loop is over, so the step does not matter any more.
        cases fuel with
        | zero => rfl
        | succ fuel => rw [verifyDigestLoop, verifyDigestLoop, if_neg (by omega), if_neg (by omega)]
    · rw [if_neg cut, if_neg cut]

/-- **The range of the manifest** is digested when the step fits into it and no sum wraps before its
end. -/
theorem verifyDigestLoop_window (small : limit < 2 ^ 32) {final : Nat} (within : final ≤ limit)
    (fuel offset step : Nat) (hashed buffer : List UInt8) {memory : σ} (held : holds memory)
    (below : offset ≤ final) (fitting : offset < final → 0 < step ∧ offset + step ≤ final)
    (unwrapped : ∀ count, offset + count * step < final → offset + (count + 1) * step < 2 ^ 32)
    (enough : final - offset < fuel) :
    (verifyDigestLoop M obj final fuel offset step hashed buffer memory).1 = .success ∧
      (verifyDigestLoop M obj final fuel offset step hashed buffer memory).2.1 =
        hashed ++ readRange space offset (final - offset) := by
  induction fuel generalizing offset step hashed buffer memory with
  | zero => omega
  | succ fuel ih =>
      rcases Nat.lt_or_ge offset final with more | done
      · obtain ⟨positive, room⟩ := fitting more
        rcases verifyDigestLoop_round object fuel offset step hashed buffer held more small
          with ⟨out, _⟩ | ⟨_, buffer', memory', held', round⟩
        · omega
        · have split : final - offset = step + (final - (offset + step)) := by omega
          rw [round, split, readRange_add, ← List.append_assoc]
          by_cases cut : final < (offset + step + step) % 2 ^ 32
          · rw [if_pos cut]
            refine ih _ _ _ _ held' room (fun still => ⟨by omega, by omega⟩) ?_ (by omega)
            intro count early
            rcases Nat.eq_zero_or_pos count with rfl | later
            · rw [Nat.zero_add, Nat.one_mul]
              omega
            · have least := Nat.le_mul_of_pos_left (final - (offset + step)) later
              omega
          · rw [if_neg cut]
            have shifted : ∀ count, offset + step + count * step < final →
                offset + step + (count + 1) * step < 2 ^ 32 := by
              intro count early
              have later := unwrapped (count + 1)
              rw [Nat.succ_mul, Nat.succ_mul (count + 1)] at later
              omega
            refine ih _ _ _ _ held' room (fun still => ⟨positive, ?_⟩) shifted (by omega)
            have first := shifted 0 (by omega)
            rw [Nat.mod_eq_of_lt (by omega)] at cut
            omega
      · have exhausted : final - offset = 0 := by omega
        rw [verifyDigestLoop, if_neg (by omega), exhausted]
        exact ⟨rfl, (List.append_nil hashed).symm⟩

/-- An object that ends before the range of the manifest is refused. -/
theorem verifyDigestLoop_short (small : limit < 2 ^ 32) {final : Nat} (ends : limit < final)
    (fuel offset step : Nat) (hashed buffer : List UInt8) {memory : σ} (held : holds memory)
    (more : offset < final) :
    (verifyDigestLoop M obj final fuel offset step hashed buffer memory).1 ≠ .success := by
  induction fuel generalizing offset step hashed buffer memory with
  | zero => exact fun impossible => PullError.noConfusion impossible
  | succ fuel ih =>
      rcases verifyDigestLoop_round object fuel offset step hashed buffer held more small with
        ⟨_, failed⟩ | ⟨fits, buffer', memory', held', round⟩
      · exact failed
      · rw [round]
        exact ih _ _ _ _ held' (by omega)

/-- When the sum that should shorten the last step wraps, the step stays and leaves the object. -/
theorem verifyDigestLoop_wrapped (small : limit < 2 ^ 32) {final : Nat} (within : final ≤ limit)
    (fuel offset step count : Nat) (hashed buffer : List UInt8) {memory : σ} (held : holds memory)
    (early : offset + count * step < final)
    (wraps : 2 ^ 32 ≤ offset + (count + 1) * step) :
    (verifyDigestLoop M obj final fuel offset step hashed buffer memory).1 ≠ .success := by
  induction fuel generalizing offset count hashed buffer memory with
  | zero => exact fun impossible => PullError.noConfusion impossible
  | succ fuel ih =>
      have more : offset < final := by omega
      rcases verifyDigestLoop_round object fuel offset step hashed buffer held more small with
        ⟨_, failed⟩ | ⟨fits, buffer', memory', held', round⟩
      · exact failed
      · rw [round]
        cases count with
        | zero =>
            rw [Nat.zero_add, Nat.one_mul] at wraps
            omega
        | succ count =>
            rw [Nat.succ_mul] at early
            rw [Nat.succ_mul, Nat.succ_mul] at wraps
            have kept : ¬ final < (offset + step + step) % 2 ^ 32 := by
              rcases Nat.eq_zero_or_pos count with rfl | later
              · omega
              · have least := Nat.le_mul_of_pos_left step later
                rw [Nat.mod_eq_of_lt (by omega)]
                omega
            rw [if_neg kept]
            refine ih _ count _ _ held' (by omega) ?_
            rw [Nat.succ_mul]
            omega

/-- A step of zero never ends. -/
theorem verifyDigestLoop_stuck (small : limit < 2 ^ 32) {final : Nat} (within : final ≤ limit)
    (fuel offset : Nat) (hashed buffer : List UInt8) {memory : σ} (held : holds memory)
    (more : offset < final) :
    (verifyDigestLoop M obj final fuel offset 0 hashed buffer memory).1 ≠ .success := by
  induction fuel generalizing hashed buffer memory with
  | zero => exact fun impossible => PullError.noConfusion impossible
  | succ fuel ih =>
      rcases verifyDigestLoop_round object fuel offset 0 hashed buffer held more small with
        ⟨_, failed⟩ | ⟨_, buffer', memory', held', round⟩
      · exact failed
      · rw [round, Nat.add_zero, if_neg (by
          rw [Nat.mod_eq_of_lt (by omega)]
          omega)]
        exact ih _ _ held'

end Loop

/-! ### The lengths that decide -/

/-- `verify_digest` is right on every object of `limit` bytes and every manifest with this offset
and size: it succeeds exactly when there is a firmware, all of it lies in the object, and the
manifest names its digest. -/
def DigestsExactly (limit offset size bufferLen : Nat) : Prop :=
  ∀ (σ : Type) (M : MemoryInterface σ) (crypto : Crypto) (obj : MemObject) (space : Nat → UInt8)
    (holds : σ → Prop) (mt : Manifest) (buffer : List UInt8) (memory : σ),
    HoldsObject M obj limit space holds → holds memory → mt.getOffset = offset →
    mt.getSize = size →
    ((verifyDigest M crypto obj mt buffer bufferLen memory).1 = .success ↔
      0 < size ∧ offset + size ≤ limit ∧
        mt.getDigest = crypto.digest (readRange space offset size))

/-- There is no firmware; or its range ends, without a wrap, behind the object; or it lies in the
object, the step is neither zero nor longer than the firmware, and the step divides the firmware or
the sum that shortens the last step does not wrap. -/
def DigestWindow (limit offset size bufferLen : Nat) : Prop :=
  size = 0 ∨ (limit < offset + size ∧ offset + size < 2 ^ 32) ∨
    (offset + size ≤ limit ∧ 0 < bufferLen % 2 ^ 32 ∧ bufferLen % 2 ^ 32 ≤ size ∧
      (size % (bufferLen % 2 ^ 32) = 0 ∨
        offset + (size / (bufferLen % 2 ^ 32) + 1) * (bufferLen % 2 ^ 32) < 2 ^ 32))

instance (limit offset size bufferLen : Nat) : Decidable (DigestWindow limit offset size bufferLen) :=
  inferInstanceAs (Decidable (_ ∨ _ ∨ _))

section Verdicts

variable {σ : Type} {M : MemoryInterface σ} (crypto : Crypto) {obj : MemObject} {limit : Nat}
  {space : Nat → UInt8} {holds : σ → Prop} (object : HoldsObject M obj limit space holds)
  (mt : Manifest) (buffer : List UInt8) {bufferLen : Nat} {memory : σ} (held : holds memory)
  (small : limit < 2 ^ 32)

/-- Without a firmware there is nothing to read. -/
theorem verifyDigest_empty (none : mt.getSize = 0) :
    (verifyDigest M crypto obj mt buffer bufferLen memory).1 = .memoryRead := by
  unfold verifyDigest
  simp only [none, Nat.add_zero, Nat.mod_eq_of_lt mt.getOffset_lt, if_true]

/-- A firmware that does not wrap is judged by the loop. -/
theorem verifyDigest_loop (some : 0 < mt.getSize)
    (unwrapped : mt.getOffset + mt.getSize < 2 ^ 32) :
    (verifyDigest M crypto obj mt buffer bufferLen memory).1 = .success ↔
      (verifyDigestLoop M obj (mt.getOffset + mt.getSize) loopFuel mt.getOffset
        (bufferLen % 2 ^ 32) [] buffer memory).1 = .success ∧
      mt.getDigest = crypto.digest (verifyDigestLoop M obj (mt.getOffset + mt.getSize) loopFuel
        mt.getOffset (bufferLen % 2 ^ 32) [] buffer memory).2.1 := by
  unfold verifyDigest
  simp only [Nat.mod_eq_of_lt unwrapped]
  rw [if_neg (by omega)]
  split
  · rename_i failed
    exact ⟨fun success => absurd success failed, fun both => absurd both.1 failed⟩
  · rename_i succeeded
    split
    · rename_i differs
      exact ⟨fun impossible => PullError.noConfusion impossible, fun both => absurd both.2 differs⟩
    · rename_i same
      exact ⟨fun _ => ⟨not_not.mp succeeded, not_not.mp same⟩, fun _ => rfl⟩

/-- A range that wraps is empty to the loop. -/
theorem verifyDigest_wraps (wraps : 2 ^ 32 ≤ mt.getOffset + mt.getSize) :
    (verifyDigest M crypto obj mt buffer bufferLen memory).1 = .success ↔
      mt.getDigest = crypto.digest [] := by
  have offset := mt.getOffset_lt
  have size := mt.getSize_lt
  have final : (mt.getOffset + mt.getSize) % 2 ^ 32 < mt.getOffset := by omega
  have fuel : loopFuel = (2 ^ 32 - 1) + 1 := by decide
  have ended : verifyDigestLoop M obj ((mt.getOffset + mt.getSize) % 2 ^ 32) loopFuel mt.getOffset
      (bufferLen % 2 ^ 32) [] buffer memory = (.success, [], buffer, memory) := by
    rw [fuel, verifyDigestLoop, if_neg (Nat.not_lt.mpr final.le)]
  unfold verifyDigest
  simp only [ended, if_neg final.ne', ne_eq, not_true_eq_false, if_false]
  split
  · rename_i differs
    exact ⟨fun impossible => PullError.noConfusion impossible, fun same => absurd same differs⟩
  · rename_i same
    exact ⟨fun _ => not_not.mp same, fun _ => rfl⟩

include object held small

/-- **A buffer longer than the firmware** is digested whole, or leaves the object. -/
theorem verifyDigest_long (some : 0 < mt.getSize) (within : mt.getOffset + mt.getSize ≤ limit)
    (long : mt.getSize < bufferLen % 2 ^ 32) :
    (verifyDigest M crypto obj mt buffer bufferLen memory).1 = .success ↔
      mt.getOffset + bufferLen % 2 ^ 32 ≤ limit ∧
        mt.getDigest = crypto.digest (readRange space mt.getOffset (bufferLen % 2 ^ 32)) := by
  have fuel : loopFuel = (2 ^ 32 - 2) + 1 + 1 := by decide
  rw [verifyDigest_loop crypto mt buffer some (by omega), fuel]
  rcases verifyDigestLoop_round object ((2 ^ 32 - 2) + 1) mt.getOffset (bufferLen % 2 ^ 32) []
    buffer held (show mt.getOffset < mt.getOffset + mt.getSize by omega) small with
    ⟨out, failed⟩ | ⟨fits, buffer', memory', held', round⟩
  · exact ⟨fun both => absurd both.1 failed, fun both => by omega⟩
  · rw [round, verifyDigestLoop, if_neg (by omega)]
    exact ⟨fun both => ⟨fits, both.2⟩, fun both => ⟨rfl, both.2⟩⟩

end Verdicts

/-- Within the object no sum of the loop wraps before the range ends. -/
theorem digestWindow_unwrapped {limit offset size step : Nat} (small : limit < 2 ^ 32)
    (within : offset + size ≤ limit) (positive : 0 < step)
    (aligned : size % step = 0 ∨ offset + (size / step + 1) * step < 2 ^ 32) (count : Nat)
    (early : offset + count * step < offset + size) : offset + (count + 1) * step < 2 ^ 32 := by
  rcases aligned with divides | narrow
  · obtain ⟨steps, whole⟩ := Nat.dvd_of_mod_eq_zero divides
    rw [whole, Nat.mul_comm _ steps] at early
    have less : count < steps := Nat.lt_of_mul_lt_mul_right
      (show count * step < steps * step by omega)
    have most : (count + 1) * step ≤ steps * step := Nat.mul_le_mul_right _ less
    rw [Nat.mul_comm steps, ← whole] at most
    omega
  · have less : count ≤ size / step := (Nat.le_div_iff_mul_le positive).mpr (by omega)
    have most : (count + 1) * step ≤ (size / step + 1) * step :=
      Nat.mul_le_mul_right _ (by omega)
    omega

/-- **Within the window** `verify_digest` is right. -/
theorem digestsExactly_of_window {limit offset size bufferLen : Nat} (small : limit < 2 ^ 32)
    (window : DigestWindow limit offset size bufferLen) :
    DigestsExactly limit offset size bufferLen := by
  rintro σ M crypto obj space holds mt buffer memory object held rfl rfl
  rcases Nat.eq_zero_or_pos mt.getSize with none | some
  · rw [verifyDigest_empty crypto mt buffer none, none]
    exact ⟨fun impossible => PullError.noConfusion impossible, fun all => absurd all.1 (by omega)⟩
  rcases window with none | ⟨ends, unwrapped⟩ | ⟨within, positive, covers, aligned⟩
  · omega
  · rw [verifyDigest_loop crypto mt buffer some unwrapped]
    have failed := verifyDigestLoop_short object small ends loopFuel mt.getOffset
      (bufferLen % 2 ^ 32) [] buffer held (by omega)
    exact ⟨fun both => absurd both.1 failed, fun all => by omega⟩
  · have unwrapped := digestWindow_unwrapped small within positive aligned
    have cover : mt.getOffset + mt.getSize - mt.getOffset = mt.getSize := by omega
    obtain ⟨ended, digested⟩ := verifyDigestLoop_window object small within loopFuel mt.getOffset
      (bufferLen % 2 ^ 32) [] buffer held (by omega) (fun _ => ⟨positive, by omega⟩) unwrapped
      (by unfold loopFuel; omega)
    rw [verifyDigest_loop crypto mt buffer some (by omega), ended, digested, cover, List.nil_append]
    exact ⟨fun both => ⟨some, within, both.2⟩, fun all => ⟨rfl, all.2.2⟩⟩

/-! ### Plain objects -/

/-- The bytes of a plain object, for as long as nothing is written. -/
theorem plain_holdsObject (layout : PlainLayout) (memory : Contents) (obj : MemObject) :
    HoldsObject (plain layout) obj (layout.limit obj.id) (memory obj.id) (· = memory) where
  inside := by
    rintro offset size _ rfl fits
    rw [plain_read layout _ fits]
    exact ⟨rfl, rfl, rfl⟩
  beyond := by
    rintro offset size _ rfl out
    rw [plain_read_outside layout _ out]
    exact (show (-1 : Int) < 0 by decide).trans_le (Int.natCast_nonneg size)

section Digested

variable (layout : PlainLayout) (crypto : Crypto)

/-- **A buffer no longer than the image is enough**: verification digests exactly the range
`[offset, offset + size)`. -/
theorem verifyDigest_plain (obj : MemObject) (memory : Contents) (mt : Manifest)
    (buffer : List UInt8) (bufferLen : Nat) (positive : 0 < bufferLen)
    (covers : bufferLen ≤ mt.getSize)
    (inside : mt.getOffset + mt.getSize ≤ layout.limit obj.id)
    (narrow : mt.getOffset + mt.getSize + bufferLen ≤ 2 ^ 32) :
    (verifyDigest (plain layout) crypto obj mt buffer bufferLen memory).1 = .success ↔
      mt.getDigest = crypto.digest (readRange (memory obj.id) mt.getOffset mt.getSize) := by
  have step : bufferLen % 2 ^ 32 = bufferLen := Nat.mod_eq_of_lt (by omega)
  have window : DigestWindow (layout.limit obj.id) mt.getOffset mt.getSize bufferLen := by
    refine Or.inr (Or.inr ⟨inside, by omega, by omega, ?_⟩)
    have parts := Nat.div_add_mod mt.getSize bufferLen
    rw [step, Nat.succ_mul]
    rw [Nat.mul_comm] at parts
    omega
  have verdict := digestsExactly_of_window (layout.limit_lt obj.id) window Contents (plain layout)
    crypto obj (memory obj.id) (· = memory) mt buffer memory (plain_holdsObject layout memory obj)
    rfl rfl rfl
  exact verdict.trans ⟨fun all => all.2.2, fun same => ⟨by omega, inside, same⟩⟩

/-- **An object passes** when its manifest passes and names the digest of its firmware. -/
theorem verifyObject_plain (obj : MemObject) (memory : Contents) (sf : Safestore)
    (buffer : List UInt8) (bufferLen : Nat) (positive : 0 < bufferLen)
    (covers : bufferLen ≤ (manifestAt memory obj.id).getSize)
    (inside : (manifestAt memory obj.id).getOffset + (manifestAt memory obj.id).getSize ≤
      layout.limit obj.id)
    (narrow : (manifestAt memory obj.id).getOffset + (manifestAt memory obj.id).getSize +
      bufferLen ≤ 2 ^ 32)
    (fits : sizeofManifest ≤ layout.limit obj.id) :
    (verifyObject (plain layout) crypto obj sf buffer bufferLen memory).1 = .success ↔
      verifyManifest crypto (manifestAt memory obj.id) sf = .success ∧
        (manifestAt memory obj.id).getDigest =
          crypto.digest (readRange (memory obj.id) (manifestAt memory obj.id).getOffset
            (manifestAt memory obj.id).getSize) := by
  have digest := verifyDigest_plain layout crypto obj memory (manifestAt memory obj.id) buffer
    bufferLen positive covers inside narrow
  rw [verifyObject, readFirmwareManifest_plain layout memory fits]
  simp only [ne_eq, not_true_eq_false, if_false]
  by_cases valid : verifyManifest crypto (manifestAt memory obj.id) sf = .success
  · rw [if_neg (not_not.mpr valid), digest]
    exact ⟨fun same => ⟨valid, same⟩, fun both => both.2⟩
  · rw [if_pos valid]
    exact ⟨fun same => absurd same valid, fun both => absurd both.1 valid⟩

end Digested

/-! ### A verification ends -/

/-- The loop ends as long as its step moves on. -/
theorem verifyDigestLoop_ends (layout : PlainLayout) (obj : MemObject) (memory : Contents)
    {final : Nat} (fuel offset step : Nat) (hashed buffer : List UInt8)
    (positive : offset < final → 0 < step) (enough : final - offset < fuel) :
    (verifyDigestLoop (plain layout) obj final fuel offset step hashed buffer memory).1 ≠
      .outOfFuel := by
  have object := plain_holdsObject layout memory obj
  have small := layout.limit_lt obj.id
  induction fuel generalizing offset step hashed buffer with
  | zero => omega
  | succ fuel ih =>
      by_cases more : offset < final
      · have moving := positive more
        by_cases fits : offset + step ≤ layout.limit obj.id
        · rcases verifyDigestLoop_round object fuel offset step hashed buffer rfl more small with
            ⟨out, _⟩ | ⟨_, buffer', memory', rfl, round⟩
          · omega
          · rw [round]
            refine ih _ _ _ _ (fun still => ?_) (by omega)
            split
            · omega
            · exact moving
        · rw [verifyDigestLoop, if_pos more, plain_read_outside layout memory (by omega)]
          have failed : (-1 : Int) ≠ step := by omega
          simp only [if_pos failed]
          exact PullError.noConfusion
      · rw [verifyDigestLoop, if_neg more]
        exact PullError.noConfusion

theorem verifyManifest_ends (crypto : Crypto) (mt : Manifest) (sf : Safestore) :
    verifyManifest crypto mt sf ≠ .outOfFuel := by
  unfold verifyManifest verifySignature
  split
  · exact PullError.noConfusion
  · split
    · exact PullError.noConfusion
    · split
      · exact PullError.noConfusion
      · exact PullError.noConfusion

/-- **Verifying a plain object always ends**, with a buffer that has a length. -/
theorem verifyObject_ends (layout : PlainLayout) (crypto : Crypto) (obj : MemObject)
    (sf : Safestore) (buffer : List UInt8) {bufferLen : Nat} (memory : Contents)
    (positive : 0 < bufferLen % 2 ^ 32) (fits : sizeofManifest ≤ layout.limit obj.id) :
    (verifyObject (plain layout) crypto obj sf buffer bufferLen memory).1 ≠ .outOfFuel := by
  rw [verifyObject, readFirmwareManifest_plain layout memory fits]
  simp only [ne_eq, not_true_eq_false, if_false]
  split
  · exact verifyManifest_ends crypto _ sf
  · have ends := verifyDigestLoop_ends layout obj memory loopFuel
      (manifestAt memory obj.id).getOffset (bufferLen % 2 ^ 32) [] buffer (fun _ => positive)
      (show ((manifestAt memory obj.id).getOffset + (manifestAt memory obj.id).getSize) % 2 ^ 32 -
        (manifestAt memory obj.id).getOffset < loopFuel by unfold loopFuel; omega)
    unfold verifyDigest
    simp only
    split
    · exact PullError.noConfusion
    · split
      · exact ends
      · split
        · exact PullError.noConfusion
        · exact PullError.noConfusion

/-! ### Outside the window -/

/-- A manifest that names only a range and a digest. -/
def rangeManifest (offset size : Nat) (digest : List UInt8) (width : digest.length = 32) :
    Manifest :=
  (((Manifest.ofBytes []).set .digest digest width).set .offset' (toLE 4 offset)
    (toLE_four offset)).set .size' (toLE 4 size) (toLE_four size)

section RangeManifest

variable {offset size : Nat} {digest : List UInt8} (width : digest.length = 32)

theorem rangeManifest_offset (small : offset < 2 ^ 32) :
    (rangeManifest offset size digest width).getOffset = offset := by
  have kept : (rangeManifest offset size digest width).get .offset' = toLE 4 offset :=
    (Manifest.get_set_apart _ (toLE_length _ _) (by decide)).trans (Manifest.get_set_self _ _ _ _)
  rw [Manifest.getOffset, kept]
  exact ofLE_toLE small

theorem rangeManifest_size (small : size < 2 ^ 32) :
    (rangeManifest offset size digest width).getSize = size := by
  have kept : (rangeManifest offset size digest width).get .size' = toLE 4 size :=
    Manifest.get_set_self _ _ _ _
  rw [Manifest.getSize, kept]
  exact ofLE_toLE small

theorem rangeManifest_digest : (rangeManifest offset size digest width).getDigest = digest :=
  calc (rangeManifest offset size digest width).get .digest
      = _ := Manifest.get_set_apart _ (toLE_length _ _) (by decide)
    _ = _ := Manifest.get_set_apart _ (toLE_length _ _) (by decide)
    _ = digest := Manifest.get_set_self _ .digest _ _

end RangeManifest

/-- A library whose digest tells byte strings of different lengths apart. -/
def lengthCrypto : Crypto where
  digest := fun data => toLE 32 data.length
  digest_length := fun _ => toLE_length _ _
  eccVerify := fun _ _ _ _ _ => .verificationFailed

/-- **Outside the window** some object is judged wrongly. -/
theorem window_of_digestsExactly {limit offset size bufferLen : Nat} (small : limit < 2 ^ 32)
    (offset_lt : offset < 2 ^ 32) (size_lt : size < 2 ^ 32)
    (exactly : DigestsExactly limit offset size bufferLen) :
    DigestWindow limit offset size bufferLen := by
  by_contra outside
  have some : 0 < size := Nat.pos_of_ne_zero fun none => outside (Or.inl none)
  let layout : PlainLayout := ⟨fun _ => limit, fun _ => small, none⟩
  have object := plain_holdsObject layout (fun _ _ => 0) ⟨1, .readOnly⟩
  have made : ∀ data, ∃ mt : Manifest, mt.getOffset = offset ∧ mt.getSize = size ∧
      mt.getDigest = lengthCrypto.digest data := fun data =>
    ⟨rangeManifest offset size (lengthCrypto.digest data) (toLE_length _ _),
      rangeManifest_offset _ offset_lt, rangeManifest_size _ size_lt, rangeManifest_digest _⟩
  rcases Nat.lt_or_ge (offset + size) (2 ^ 32) with unwrapped | wraps
  · have within : offset + size ≤ limit := by
      by_contra ends
      exact outside (Or.inr (Or.inl ⟨by omega, unwrapped⟩))
    -- The manifest names the right digest, so the verdict should be a success.
    obtain ⟨mt, rfl, rfl, named⟩ := made (readRange (fun _ => 0) offset size)
    have success := (exactly Contents (plain layout) lengthCrypto ⟨1, .readOnly⟩ (fun _ => 0)
      (· = fun _ _ => 0) mt [] (fun _ _ => 0) object rfl rfl rfl).mpr ⟨some, within, named⟩
    rcases Nat.lt_or_ge mt.getSize (bufferLen % 2 ^ 32) with long | covers
    · obtain ⟨_, same⟩ :=
        (verifyDigest_long lengthCrypto object mt [] rfl small some within long).mp success
      rw [named] at same
      have lengths := congrArg ofLE same
      simp only [lengthCrypto, readRange_length] at lengths
      rw [ofLE_toLE (by omega), ofLE_toLE (by omega)] at lengths
      omega
    · have looped := ((verifyDigest_loop lengthCrypto mt [] some unwrapped).mp success).1
      rcases Nat.eq_zero_or_pos (bufferLen % 2 ^ 32) with stuck | positive
      · rw [stuck] at looped
        exact verifyDigestLoop_stuck object small within loopFuel mt.getOffset [] [] rfl (by omega)
          looped
      · have missed : ¬ (mt.getSize % (bufferLen % 2 ^ 32) = 0 ∨ mt.getOffset +
            (mt.getSize / (bufferLen % 2 ^ 32) + 1) * (bufferLen % 2 ^ 32) < 2 ^ 32) :=
          fun aligned => outside (Or.inr (Or.inr ⟨within, positive, covers, aligned⟩))
        have parts := Nat.div_add_mod mt.getSize (bufferLen % 2 ^ 32)
        rw [Nat.mul_comm] at parts
        exact verifyDigestLoop_wrapped object small within loopFuel mt.getOffset
          (bufferLen % 2 ^ 32) (mt.getSize / (bufferLen % 2 ^ 32)) [] [] rfl (by omega) (by omega)
          looped
  · -- The range wraps, and the digest of nothing passes.
    obtain ⟨mt, rfl, rfl, named⟩ := made []
    have within := ((exactly Contents (plain layout) lengthCrypto ⟨1, .readOnly⟩ (fun _ => 0)
      (· = fun _ _ => 0) mt [] (fun _ _ => 0) object rfl rfl rfl).mp
      ((verifyDigest_wraps lengthCrypto mt [] wraps).mpr named)).2.1
    omega

/-- Four ones are not told apart from `1024` by a manifest, but by their digests. -/
theorem mirrorCrypto_ones :
    mirrorCrypto.digest [1, 1, 1, 1] ≠
      mirrorCrypto.digest (readRange (fun _ => 1) 256 1024) := by
  have front : mirrorCrypto.digest (readRange (fun _ => 1) 256 1024) =
      readRange (fun _ => 1) 256 32 := by
    have split : readRange (fun _ => 1) 256 1024 = readRange (fun _ => 1) 256 32 ++
        readRange (fun _ => 1) (256 + 32) 992 := readRange_add _ 256 32 992
    simp only [mirrorCrypto, split, List.append_assoc]
    exact List.take_left' (readRange_length _ _ _)
  rw [front]
  exact fun same => absurd same (by decide)

end Upkit
