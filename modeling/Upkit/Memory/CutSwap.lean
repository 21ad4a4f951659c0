/-
**Swapping two slots of one length.**

A slot may hold a manifest that announces more than the slot is long: what is left of an aborted
download, or anything at all. `swap_slots` then stops at the first piece that leaves the first slot,
with the whole pieces before it exchanged.

* `swapChunkLoop_ends` — a copy always ends, on any memory.
* `swapSlotsLoop_cut` — the walk over a length that does not fit.
* `swapSlots_sameLength` — the two outcomes of a swap: both leave a prefix of the slots exchanged
  that is at least as long as a manifest.
-/

import Upkit.Memory.PowerLoss

namespace Upkit

open Bytes

/-! ### One copy -/

section Copy

variable {σ : Type} {M : MemoryInterface σ}

/-- **A copy always ends.** -/
theorem swapChunkLoop_ends (src dst : MemObject) {swapSize : Nat} (readSwap writeSwap : Bool)
    (small : swapSize < 2 ^ 31) {fuel swapFull step : Nat} (positive : 0 < step)
    (narrow : step < 2 ^ 32) (below : swapFull ≤ swapSize) (enough : swapSize - swapFull < fuel)
    (offset : Nat) (buffer : List UInt8) (memory : σ) :
    (swapChunkLoop M src dst swapSize readSwap writeSwap fuel swapFull offset step buffer
      memory).1 ≠ .outOfFuel := by
  induction fuel generalizing swapFull offset step buffer memory with
  | zero => omega
  | succ fuel ih =>
      rw [swapChunkLoop]
      by_cases more : swapFull < swapSize
      · have piece : (if swapSize < (sizeOfInt swapFull + step) % 2 ^ 64 then swapSize - swapFull
            else step) = min step (swapSize - swapFull) :=
          cutDown_eq_min swapSize (by omega) (by omega)
        have next : (swapFull + min step (swapSize - swapFull)) % 2 ^ 32 =
            swapFull + min step (swapSize - swapFull) := Nat.mod_eq_of_lt (by omega)
        obtain ⟨source, readsAt⟩ : ∃ source, (if readSwap then swapFull else offset) = source :=
          ⟨_, rfl⟩
        obtain ⟨target, writesAt⟩ : ∃ target, (if writeSwap then swapFull else offset) = target :=
          ⟨_, rfl⟩
        rw [if_pos more]
        simp only [piece, next, readsAt, writesAt]
        split
        · exact PullError.noConfusion
        · split
          · exact PullError.noConfusion
          · exact ih (by omega) (by omega) (by omega) (by omega) _ _ _
      · rw [if_neg more]
        exact PullError.noConfusion

end Copy

/-! ### The walk -/

section Walk

variable (layout : PlainLayout) {obj1 obj2 objSwap : MemObject}

/-- What a walk up to `offset` leaves: the prefixes have changed places, and no object but the swap
object has changed otherwise. -/
structure WalkedTo (before after : Contents) (id1 id2 idSwap : MemId) (offset : Nat) : Prop where
  first : after id1 = writeRange (before id1) 0 (readRange (before id2) 0 offset)
  second : after id2 = writeRange (before id2) 0 (readRange (before id1) 0 offset)
  others : ∀ id, id ≠ id1 → id ≠ id2 → id ≠ idSwap → after id = before id

/-- Two objects that have exchanged their prefixes, while no object but the swap object has changed
inside otherwise. -/
structure Traded (limit : MemId → Nat) (before after : Contents) (id1 id2 idSwap : MemId)
    (size : Nat) : Prop where
  exchanged : Exchanged before after id1 id2 size
  others : ∀ id, id ≠ id1 → id ≠ id2 → id ≠ idSwap → ∀ address < limit id,
    after id address = before id address

/-- After a walk each object has taken over the prefix of the other. -/
theorem WalkedTo.traded {before after : Contents} {id1 id2 idSwap : MemId} {offset : Nat}
    (walked : WalkedTo before after id1 id2 idSwap offset) (limit : MemId → Nat) :
    Traded limit before after id1 id2 idSwap offset := by
  refine ⟨fun address inside => ⟨?_, ?_⟩, fun id other1 other2 otherSwap address _ => ?_⟩
  · rw [walked.first]
    exact prefix_taken _ _ inside
  · rw [walked.second]
    exact prefix_taken _ _ inside
  · rw [walked.others id other1 other2 otherSwap]

/-- A walk goes on with a round. -/
theorem WalkedTo.round {before between : Contents} {offset piece : Nat} (apart : obj2.id ≠ obj1.id)
    (apart1 : objSwap.id ≠ obj1.id) (apart2 : objSwap.id ≠ obj2.id)
    (walked : WalkedTo before between obj1.id obj2.id objSwap.id offset) :
    WalkedTo before (exchangeRound obj1 obj2 objSwap offset piece between) obj1.id obj2.id
      objSwap.id (offset + piece) := by
  obtain ⟨first, second, others⟩ := @exchangeRound_separate obj1 obj2 objSwap between offset piece
    apart apart1 apart2
  refine ⟨?_, ?_, fun id other1 other2 otherSwap => ?_⟩
  · rw [first]
    exact writeRange_readRange_extend walked.first walked.second
  · rw [second]
    exact writeRange_readRange_extend walked.second walked.first
  · rw [others id other1 other2 otherSwap, walked.others id other1 other2 otherSwap]

/-- A walk does not see what happens to the swap object. -/
theorem WalkedTo.parked {before between after : Contents} {id1 id2 idSwap : MemId} {offset : Nat}
    (apart1 : idSwap ≠ id1) (apart2 : idSwap ≠ id2)
    (walked : WalkedTo before between id1 id2 idSwap offset)
    (kept : ∀ id, id ≠ idSwap → after id = between id) :
    WalkedTo before after id1 id2 idSwap offset where
  first := (kept id1 apart1.symm).trans walked.first
  second := (kept id2 apart2.symm).trans walked.second
  others := fun id other1 other2 otherSwap =>
    (kept id otherSwap).trans (walked.others id other1 other2 otherSwap)

/-- **A length that does not fit**: the walk fails at the first piece that leaves the first object,
and the pieces before it have been exchanged. -/
theorem swapSlotsLoop_cut {size bufferSize swapSize length : Nat} {before : Contents}
    (apart : obj2.id ≠ obj1.id) (apart1 : objSwap.id ≠ obj1.id) (apart2 : objSwap.id ≠ obj2.id)
    (limit1 : layout.limit obj1.id = length) (limit2 : layout.limit obj2.id = length)
    (small : length < 2 ^ 31) (long : length < size) (sizeSmall : size < 2 ^ 32)
    (swapPositive : 0 < swapSize) (swapFits : swapSize ≤ length)
    (parks : swapSize ≤ layout.limit objSwap.id) (bufferPositive : 0 < bufferSize)
    (bufferSmall : bufferSize < 2 ^ 32) (fuel count : Nat) (buffer : List UInt8)
    (memory : Contents) (enough : length - count * swapSize < fuel)
    (below : count * swapSize ≤ length)
    (walked : WalkedTo before memory obj1.id obj2.id objSwap.id (count * swapSize)) :
    ∃ err buffer' after, swapSlotsLoop (plain layout) obj1 obj2 objSwap size bufferSize fuel
        (count * swapSize) swapSize buffer memory = (err, buffer', after) ∧
      err ≠ .success ∧ err ≠ .outOfFuel ∧
      WalkedTo before after obj1.id obj2.id objSwap.id (length / swapSize * swapSize) := by
  induction fuel generalizing count buffer memory with
  | zero => omega
  | succ fuel ih =>
      have piece := cutDown_eq_min size (by omega : count * swapSize < 2 ^ 31)
        (by omega : count * swapSize + swapSize < 2 ^ 64)
      have more : count * swapSize < size := by omega
      have grown : (count + 1) * swapSize = count * swapSize + swapSize := Nat.succ_mul _ _
      by_cases fits : count * swapSize + swapSize ≤ length
      · have whole : min swapSize (size - count * swapSize) = swapSize := by omega
        rw [whole] at piece
        have behind : count * swapSize = 0 ∨ swapSize ≤ count * swapSize := by
          cases count with
          | zero => exact Or.inl (Nat.zero_mul _)
          | succ count => exact Or.inr (Nat.le_mul_of_pos_left _ (Nat.succ_pos _))
        obtain ⟨buffer', round⟩ := @swapSlotsLoop_round layout obj1 obj2 objSwap size bufferSize fuel
          (count * swapSize) swapSize buffer memory swapSize apart more piece (by omega)
          (by omega) (by omega) parks bufferPositive bufferSmall behind
        rw [round, ← grown]
        refine ih (count + 1) buffer' _ (by omega) (by omega) ?_
        rw [grown]
        exact walked.round apart apart1 apart2
      · -- The first copy of this round leaves the first object.
        have last : length / swapSize = count :=
          Nat.div_eq_of_lt_le (by omega) (by omega)
        have narrow : min swapSize (size - count * swapSize) % 2 ^ 32 =
            min swapSize (size - count * swapSize) := Nat.mod_eq_of_lt (by omega)
        have fails : (swapChunk (plain layout) obj1 objSwap (count * swapSize)
            (min swapSize (size - count * swapSize)) buffer bufferSize false true memory).1 ≠
              .success := by
          intro copied
          have inside := swapChunkLoop_success layout (by omega) loopFuel 0 (count * swapSize)
            bufferSize buffer memory (by omega) (by norm_num) copied
          omega
        have ends : (swapChunk (plain layout) obj1 objSwap (count * swapSize)
            (min swapSize (size - count * swapSize)) buffer bufferSize false true memory).1 ≠
              .outOfFuel :=
          swapChunkLoop_ends obj1 objSwap false true (by omega) bufferPositive bufferSmall
            (Nat.zero_le _) (by unfold loopFuel; omega) _ _ _
        have kept := swapChunkLoop_frames (plain_frames layout objSwap.id) obj1 objSwap
          (min swapSize (size - count * swapSize)) false true rfl loopFuel 0 (count * swapSize)
          bufferSize buffer memory
        generalize copied : swapChunk (plain layout) obj1 objSwap (count * swapSize)
          (min swapSize (size - count * swapSize)) buffer bufferSize false true memory = outcome
          at fails ends
        rw [show swapChunkLoop _ _ _ _ _ _ _ _ _ _ _ _ = outcome from copied] at kept
        refine ⟨outcome.1, outcome.2.1, outcome.2.2, ?_, fails, ends, ?_⟩
        · rw [swapSlotsLoop, if_pos more]
          simp only [piece, narrow, copied]
          rw [if_pos fails]
        · rw [last]
          exact walked.parked apart1 apart2 kept

/-- **A swap of two slots of one length** always ends. It succeeds exactly when the longer of the two
images fits, and otherwise it has exchanged the whole pieces of the slots. -/
theorem swapSlots_sameLength {bufferSize swapSize length : Nat} {buffer : List UInt8}
    {memory : Contents} (apart : obj2.id ≠ obj1.id) (apart1 : objSwap.id ≠ obj1.id)
    (apart2 : objSwap.id ≠ obj2.id) (limit1 : layout.limit obj1.id = length)
    (limit2 : layout.limit obj2.id = length) (manifests : sizeofManifest ≤ length)
    (small : length < 2 ^ 31) (swapPositive : 0 < swapSize) (swapFits : swapSize ≤ length)
    (parks : swapSize ≤ layout.limit objSwap.id) (bufferPositive : 0 < bufferSize)
    (bufferSmall : bufferSize < 2 ^ 32) :
    ∃ err buffer' after, swapSlots (plain layout) obj1 obj2 objSwap swapSize buffer bufferSize
        memory = (err, buffer', after) ∧
      ((swapLength memory obj1.id obj2.id ≤ length ∧ err = .success ∧
          WalkedTo memory after obj1.id obj2.id objSwap.id (swapLength memory obj1.id obj2.id)) ∨
        (length < swapLength memory obj1.id obj2.id ∧ err ≠ .success ∧ err ≠ .outOfFuel ∧
          WalkedTo memory after obj1.id obj2.id objSwap.id (length / swapSize * swapSize))) := by
  have manifest1 : sizeofManifest ≤ layout.limit obj1.id := by rw [limit1]; exact manifests
  have manifest2 : sizeofManifest ≤ layout.limit obj2.id := by rw [limit2]; exact manifests
  rcases Nat.lt_or_ge length (swapLength memory obj1.id obj2.id) with long | fits
  · have bounded : swapLength memory obj1.id obj2.id < 2 ^ 32 :=
      max_lt (Nat.mod_lt _ (by norm_num)) (Nat.mod_lt _ (by norm_num))
    have start := swapSlotsLoop_cut layout apart apart1 apart2 limit1 limit2 small long bounded
      swapPositive swapFits parks bufferPositive bufferSmall loopFuel 0 buffer memory
      (by unfold loopFuel; omega) (by omega)
      ⟨by simp [readRange], by simp [readRange], fun _ _ _ _ => rfl⟩
    rw [Nat.zero_mul] at start
    obtain ⟨err, buffer', after, ran, fails, ends, walked⟩ := start
    exact ⟨err, buffer', after, (swapSlots_loop layout manifest1 manifest2).trans ran,
      Or.inr ⟨long, fails, ends, walked⟩⟩
  · obtain ⟨buffer', after, ran, first, second, others⟩ := @swapSlots_separate layout obj1 obj2
      objSwap swapSize bufferSize buffer memory apart apart1 apart2 manifest1 manifest2 (by omega)
      (by omega) (by omega) (le_trans (min_le_left _ _) parks) swapPositive (by omega)
      bufferPositive bufferSmall
    exact ⟨.success, buffer', after, ran, Or.inl ⟨fits, rfl, first, second, others⟩⟩

end Walk

end Upkit
