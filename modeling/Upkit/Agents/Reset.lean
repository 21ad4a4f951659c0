/-
**What one reset does.**

The Contiki driver on a board whose slots have one length, from any contents of its memory: what is
left in a slot by an aborted download is read like an image.

* `Board` — the memory, the slots and the configuration of the bootloader, laid out so that the swap
  and the context stay out of the way of the slots.
* `Boot` — the five ways a reset ends; `contiki_boot` — and every reset ends in one of them.
* `Boot.loads_verified` — what is loaded passes `verify_object` where it is loaded from, when the
  signed manifests in the slots are those of whole images (`SignedWhole`).
* `Boot.kept` — the manifests of the slots are not lost; `Boot.loads_newest` — the image that is
  loaded is the newest one.
-/

import Upkit.Agents.Drivers
import Upkit.Memory.CutSwap

namespace Upkit

open Bytes

/-! ### Boards -/

/-- A board: slots of one length, room for the swap and the bootloader context next to them, and a
buffer. The agent asserts what it says of the swap size. -/
structure Board where
  layout : PlainLayout
  table : SlotTable
  cfg : BootloaderAgentConfig
  length : Nat
  limit_eq : ∀ slot ∈ table.slots, layout.limit slot.id = length
  length_lt : length < 2 ^ 31
  asserted : agentBufferSize < cfg.swapSize ∧ cfg.swapSize % agentBufferSize = 0
  swapFits : cfg.swapSize ≤ length
  swapParks : cfg.swapSize ≤ layout.limit cfg.swapId
  swapApart : ∀ slot ∈ table.slots, cfg.swapId ≠ slot.id
  ctxFits : sizeofBootloaderCtx ≤ layout.limit cfg.bootloaderCtxId
  ctxApart : ∀ slot ∈ table.slots, cfg.bootloaderCtxId ≠ slot.id
  ctxNotSwap : cfg.bootloaderCtxId ≠ cfg.swapId
  buffered : 0 < cfg.bufferSize % 2 ^ 32

namespace Board

variable (board : Board)

theorem manifest_le : sizeofManifest ≤ board.length := by
  have swap := board.asserted.1
  have fits := board.swapFits
  unfold agentBufferSize at swap
  rw [sizeofManifest]
  omega

theorem manifests : ∀ slot ∈ board.table.slots, sizeofManifest ≤ board.layout.limit slot.id := by
  intro slot member
  rw [board.limit_eq slot member]
  exact board.manifest_le

/-- An object that is one of the slots. -/
def IsSlot (id : MemId) : Prop := ∃ slot ∈ board.table.slots, slot.id = id

variable {board}

theorem IsSlot.limit {id : MemId} (isSlot : board.IsSlot id) :
    board.layout.limit id = board.length := by
  obtain ⟨slot, member, rfl⟩ := isSlot
  exact board.limit_eq slot member

theorem IsSlot.ne_swap {id : MemId} (isSlot : board.IsSlot id) : board.cfg.swapId ≠ id := by
  obtain ⟨slot, member, rfl⟩ := isSlot
  exact board.swapApart slot member

theorem IsSlot.ne_ctx {id : MemId} (isSlot : board.IsSlot id) : board.cfg.bootloaderCtxId ≠ id := by
  obtain ⟨slot, member, rfl⟩ := isSlot
  exact board.ctxApart slot member

/-- A scan of the table ends with one of the slots, and with its version. -/
theorem scan_isSlot (newest preferBootable : Bool) (versionOf : MemId → Nat) :
    board.IsSlot (selectSlot newest preferBootable versionOf board.table.slots scanStart).id ∧
      (selectSlot newest preferBootable versionOf board.table.slots scanStart).version =
        versionOf (selectSlot newest preferBootable versionOf board.table.slots scanStart).id := by
  obtain ⟨slot, member, found⟩ := selectSlot_table_mem newest preferBootable versionOf board.table 0 0
  rw [show selectSlot newest preferBootable versionOf board.table.slots scanStart =
    slot.candidate versionOf from found]
  exact ⟨⟨slot, member, rfl⟩, rfl⟩

variable (board) (memory : Contents)

theorem newestSlot_isSlot : board.IsSlot (newestSlot board.table memory).id ∧
    (newestSlot board.table memory).version =
      versionAt memory (newestSlot board.table memory).id :=
  scan_isSlot true false (versionAt memory)

theorem newestBootable_isSlot : board.IsSlot (newestBootable board.table memory).id ∧
    (newestBootable board.table memory).version =
      versionAt memory (newestBootable board.table memory).id :=
  scan_isSlot true true (versionAt memory)

theorem oldestBootable_isSlot : board.IsSlot (oldestBootable board.table memory).id :=
  (scan_isSlot false true (versionAt memory)).1

end Board

/-! ### The ways a reset ends -/

section Reset

variable (board : Board) (crypto : Crypto)

/-- What `verify_object` says of an object when the agent calls it. -/
def Board.verdictOn (id : MemId) (memory : Contents) : PullError :=
  (verifyObject (plain board.layout) crypto ⟨id, .readOnly⟩ board.cfg.safestore board.cfg.buffer
    board.cfg.bufferSize memory).1

theorem Board.verdictOn_eq (id : MemId) (memory : Contents) :
    (verifyObject (plain board.layout) crypto ⟨id, .readOnly⟩ board.cfg.safestore board.cfg.buffer
      board.cfg.bufferSize memory).1 = board.verdictOn crypto id memory := rfl

/-- How the agent goes on after the bootstrap, with `best` for the newest bootable slot. -/
inductive Boot (best : Candidate) (memory : Contents) : DriverEnd Contents → Prop
  | inPlace : (newestSlot board.table memory).version ≤ best.version →
      board.verdictOn crypto best.id memory = .success → Boot best memory (.loads best.id memory)
  | invalid : (newestSlot board.table memory).version ≤ best.version →
      board.verdictOn crypto best.id memory ≠ .success → Boot best memory (.stops memory)
  | refused : best.version < (newestSlot board.table memory).version →
      board.verdictOn crypto (newestSlot board.table memory).id memory ≠ .success →
      Boot best memory (.stops memory)
  | upgraded (after : Contents) : best.version < (newestSlot board.table memory).version →
      board.verdictOn crypto (newestSlot board.table memory).id memory = .success →
      swapLength memory (newestSlot board.table memory).id (oldestBootable board.table memory).id ≤
        board.length →
      WalkedTo memory after (newestSlot board.table memory).id
        (oldestBootable board.table memory).id board.cfg.swapId
        (swapLength memory (newestSlot board.table memory).id
          (oldestBootable board.table memory).id) →
      Boot best memory (.loads (oldestBootable board.table memory).id after)
  | cut (after : Contents) : best.version < (newestSlot board.table memory).version →
      board.verdictOn crypto (newestSlot board.table memory).id memory = .success →
      board.length <
        swapLength memory (newestSlot board.table memory).id (oldestBootable board.table memory).id →
      WalkedTo memory after (newestSlot board.table memory).id
        (oldestBootable board.table memory).id board.cfg.swapId
        (board.length / board.cfg.swapSize * board.cfg.swapSize) →
      Boot best memory (.stops after)

/-- Step (5). -/
theorem contiki_validate {best : Candidate} {memory : Contents} (isSlot : board.IsSlot best.id)
    (old : (newestSlot board.table memory).version ≤ best.version) :
    Boot board crypto best memory (contiki (validateBody (plain board.layout) crypto board.cfg
      ⟨best.id, .readOnly⟩ best.id memory)) := by
  have manifest : sizeofManifest ≤ board.layout.limit best.id := by
    rw [isSlot.limit]
    exact board.manifest_le
  have ends : board.verdictOn crypto best.id memory ≠ .outOfFuel :=
    verifyObject_ends board.layout crypto _ _ _ memory board.buffered manifest
  have kept := verifyObject_memory board.layout crypto ⟨best.id, .readOnly⟩ board.cfg.safestore
    board.cfg.buffer board.cfg.bufferSize memory manifest
  rw [run_validateBody contiki_follows, board.verdictOn_eq crypto, if_neg ends, validateBootable]
  simp only [kept, board.verdictOn_eq crypto]
  by_cases passes : board.verdictOn crypto best.id memory = .success
  · rw [if_pos passes]
    exact Boot.inPlace old passes
  · rw [if_neg passes]
    exact Boot.invalid old passes

/-- Step (4.2). -/
theorem contiki_swap {best : Candidate} {memory : Contents}
    (newer : best.version < (newestSlot board.table memory).version)
    (passes : board.verdictOn crypto (newestSlot board.table memory).id memory = .success)
    (apart : (oldestBootable board.table memory).id ≠ (newestSlot board.table memory).id) :
    Boot board crypto best memory (contiki (swapBody (plain board.layout) board.table board.cfg
      best.version (newestSlot board.table memory).id bootBody memory)) := by
  obtain ⟨newestIs, -⟩ := board.newestSlot_isSlot memory
  have oldestIs := board.oldestBootable_isSlot memory
  have positive : 0 < board.cfg.swapSize := Nat.lt_of_le_of_lt (Nat.zero_le _) board.asserted.1
  obtain ⟨err, buffer, after, swapped, outcome⟩ := @swapSlots_sameLength board.layout
    (swapObject (newestSlot board.table memory).id)
    (swapObject (oldestBootable board.table memory).id) (swapObject board.cfg.swapId)
    agentBufferSize board.cfg.swapSize board.length (List.replicate agentBufferSize 0) memory apart
    newestIs.ne_swap oldestIs.ne_swap newestIs.limit oldestIs.limit board.manifest_le
    board.length_lt positive board.swapFits board.swapParks (by decide) (by decide)
  have scan : getOldestFirmware (plain board.layout) board.table true 0 best.version memory =
      (.success, oldestBootable board.table memory, memory) := by
    rw [getOldestFirmware, getOrderedFirmware_plain board.layout memory board.table _ _ _ _
      board.manifests, selectSlot_table_congr _ _ _ board.table 0 0 best.version 0]
    rfl
  rw [run_swapBody contiki_follows (plain board.layout) board.table board.cfg bootBody
    (fun id => plain_open board.layout memory (by decide)) scan swapped]
  rcases outcome with ⟨fits, rfl, walked⟩ | ⟨long, fails, ends, walked⟩
  · rw [if_neg PullError.noConfusion, if_neg (not_not.mpr rfl), run_bootBody contiki_follows,
      plain_close]
    exact Boot.upgraded after newer passes fits walked
  · rw [if_neg ends, if_pos fails]
    exact Boot.cut after newer passes long walked

/-- **Every reset ends**, in one of the five ways. -/
theorem contiki_boot (memory : Contents) :
    Boot board crypto (newestBootable board.table memory)
      (bootstrapped board.table board.cfg memory)
      (contiki (bootloaderCoroutine (plain board.layout) crypto board.table board.cfg memory)) := by
  obtain ⟨bestIs, -⟩ := board.newestBootable_isSlot memory
  have scan : getNewestFirmware (plain board.layout) board.table true 0 0 memory =
      (.success, newestBootable board.table memory, memory) :=
    getOrderedFirmware_plain board.layout memory board.table _ _ _ _ board.manifests
  have bootstraps := bootstrap_within board.table board.cfg (plain_within board.layout) memory
    board.manifests board.ctxFits
  generalize booted : bootstrapped board.table board.cfg memory = after at bootstraps
  have scanAll : getNewestFirmware (plain board.layout) board.table false 0 0 after =
      (.success, newestSlot board.table after, after) :=
    getOrderedFirmware_plain board.layout after board.table _ _ _ _ board.manifests
  obtain ⟨newestIs, -⟩ := board.newestSlot_isSlot after
  have manifest : sizeofManifest ≤ board.layout.limit (newestSlot board.table after).id := by
    rw [newestIs.limit]
    exact board.manifest_le
  unfold bootloaderCoroutine
  simp (disch := decide) only [run_pullContinue contiki_follows, run_returnIf contiki_follows,
    run_bootstrapBody contiki_follows, scan, plain_open board.layout _
      (show MemMode.readOnly ≠ .writeAll by decide), bootstraps, scanAll, ne_eq, not_true_eq_false,
    if_false]
  by_cases newer : (newestBootable board.table memory).version <
      (newestSlot board.table after).version
  · rw [if_pos newer]
    have kept := verifyObject_memory board.layout crypto
      ⟨(newestSlot board.table after).id, .readOnly⟩ board.cfg.safestore board.cfg.buffer
      board.cfg.bufferSize after manifest
    have ends : board.verdictOn crypto (newestSlot board.table after).id after ≠ .outOfFuel :=
      verifyObject_ends board.layout crypto _ _ _ after board.buffered manifest
    have apart := upgrade_apart memory (by rw [booted]; exact newer)
    rw [booted] at apart
    unfold upgradeBody
    simp (disch := decide) only [run_pullContinue contiki_follows, run_returnIf contiki_follows,
      run_returned contiki_follows, plain_open board.layout _
        (show MemMode.readOnly ≠ .writeAll by decide), plain_close, kept, ne_eq,
      not_true_eq_false, if_false]
    rw [board.verdictOn_eq crypto, if_neg ends]
    by_cases passes : board.verdictOn crypto (newestSlot board.table after).id after = .success
    · rw [if_neg (not_not.mpr passes)]
      exact contiki_swap board crypto newer passes apart
    · -- The event of an invalid image is a failure to this driver.
      rw [if_pos passes]
      exact Boot.refused newer passes
  · rw [if_neg newer]
    exact contiki_validate board crypto bestIs (not_lt.mp newer)

variable {board crypto} in
/-- With nothing newer a best slot that passes is loaded as it stands. -/
theorem Boot.loads_inPlace {best : Candidate} {memory : Contents} {ended : DriverEnd Contents}
    (boot : Boot board crypto best memory ended)
    (old : (newestSlot board.table memory).version ≤ best.version)
    (passes : board.verdictOn crypto best.id memory = .success) :
    ended = .loads best.id memory := by
  cases boot with
  | inPlace _ _ => rfl
  | invalid _ fails => exact absurd passes fails
  | refused newer _ => exact absurd newer (not_lt.mpr old)
  | upgraded _ newer _ _ _ => exact absurd newer (not_lt.mpr old)
  | cut _ newer _ _ _ => exact absurd newer (not_lt.mpr old)

/-! ### What a reset keeps -/

/-- The manifest of a whole image: the image covers its manifest, its end is below the range of
`address_t`, and its firmware is no shorter than a buffer. -/
structure Manifest.Whole (mt : Manifest) (bufferSize : Nat) : Prop where
  covers : sizeofManifest ≤ mt.getSize + mt.getOffset
  ends : mt.getSize + mt.getOffset < 2 ^ 32
  fills : bufferSize ≤ mt.getSize

/-- Those manifests in the slots that are signed are the manifests of whole images. -/
def SignedWhole (board : Board) (crypto : Crypto) (memory : Contents) : Prop :=
  ∀ id, board.IsSlot id →
    verifyManifest crypto (manifestAt memory id) board.cfg.safestore = .success →
      (manifestAt memory id).Whole board.cfg.bufferSize

variable {board crypto}

/-- A slot that passes holds a manifest that the vendor signed. -/
theorem Board.IsSlot.signed {id : MemId} {memory : Contents} (isSlot : board.IsSlot id)
    (passes : board.verdictOn crypto id memory = .success) :
    verifyManifest crypto (manifestAt memory id) board.cfg.safestore = .success :=
  verifyManifest_of_verifyObject crypto board.cfg.safestore
    (by rw [isSlot.limit]; exact board.manifest_le) passes

/-- **Which slots pass**: those whose manifest is signed and names the digest of their firmware. -/
theorem Board.IsSlot.passes_iff {id : MemId} {memory : Contents} (isSlot : board.IsSlot id)
    (fills : board.cfg.bufferSize ≤ (manifestAt memory id).getSize)
    (inside : (manifestAt memory id).getOffset + (manifestAt memory id).getSize ≤ board.length) :
    board.verdictOn crypto id memory = .success ↔
      verifyManifest crypto (manifestAt memory id) board.cfg.safestore = .success ∧
        (manifestAt memory id).getDigest = crypto.digest (readRange (memory id)
          (manifestAt memory id).getOffset (manifestAt memory id).getSize) := by
  have buffered := board.buffered
  have small := board.length_lt
  have limit := isSlot.limit
  have narrow : (manifestAt memory id).getOffset + (manifestAt memory id).getSize +
      board.cfg.bufferSize ≤ 2 ^ 32 := by omega
  exact verifyObject_plain board.layout crypto ⟨id, .readOnly⟩ memory board.cfg.safestore
    board.cfg.buffer board.cfg.bufferSize (by omega) fills (by rw [limit]; exact inside) narrow
    (by rw [limit]; exact board.manifest_le)

/-- The image of a slot that passes covers its manifest. -/
theorem Board.IsSlot.extent {id : MemId} {memory : Contents} (isSlot : board.IsSlot id)
    (whole : SignedWhole board crypto memory) (passes : board.verdictOn crypto id memory = .success) :
    (manifestAt memory id).extent =
        (manifestAt memory id).getSize + (manifestAt memory id).getOffset ∧
      sizeofManifest ≤ (manifestAt memory id).extent := by
  have signed := isSlot.signed passes
  have same : (manifestAt memory id).extent =
      (manifestAt memory id).getSize + (manifestAt memory id).getOffset :=
    Nat.mod_eq_of_lt (whole id isSlot signed).ends
  exact ⟨same, by rw [same]; exact (whole id isSlot signed).covers⟩

/-- **The image of a slot that passes lies in the slot.** -/
theorem Board.IsSlot.inside {id : MemId} {memory : Contents} (isSlot : board.IsSlot id)
    (whole : SignedWhole board crypto memory) (passes : board.verdictOn crypto id memory = .success) :
    (manifestAt memory id).extent ≤ board.length := by
  obtain ⟨extent, covers⟩ := isSlot.extent whole passes
  have signed := isSlot.signed passes
  have fills := (whole id isSlot signed).fills
  have buffered := board.buffered
  have limit := isSlot.limit
  have ends := (whole id isSlot signed).ends
  have manifest : sizeofManifest ≤ board.layout.limit id := by
    rw [limit]
    exact board.manifest_le
  rw [extent]
  by_contra out
  -- The digest loop would have read behind the end of the slot.
  rw [Board.verdictOn, verifyObject, @readFirmwareManifest_plain board.layout memory
    ⟨id, .readOnly⟩ manifest] at passes
  simp only [signed, ne_eq, not_true_eq_false, if_false] at passes
  have looped := ((verifyDigest_loop crypto (manifestAt memory id) board.cfg.buffer (by omega)
    (by omega)).mp passes).1
  exact verifyDigestLoop_short (plain_holdsObject board.layout memory ⟨id, .readOnly⟩)
    (board.layout.limit_lt id) (by show board.layout.limit id < _; omega) loopFuel _ _ [] _ rfl
    (by omega) looped

/-- **A slot that takes over an image that passes** passes. -/
theorem Board.IsSlot.taken {id source : MemId} {memory after : Contents} {offset : Nat}
    (isSlot : board.IsSlot id) (whole : SignedWhole board crypto memory)
    (sourceIs : board.IsSlot source) (passes : board.verdictOn crypto source memory = .success)
    (enough : (manifestAt memory source).extent ≤ offset)
    (bytes : ∀ address < offset, after id address = memory source address) :
    board.verdictOn crypto id after = .success := by
  obtain ⟨extent, covers⟩ := sourceIs.extent whole passes
  have fills := (whole source sourceIs (sourceIs.signed passes)).fills
  have fits := sourceIs.inside whole passes
  have inside : (manifestAt memory source).getOffset + (manifestAt memory source).getSize ≤
      board.length := by omega
  have manifest : manifestAt after id = manifestAt memory source :=
    manifestAt_congr fun address below => bytes address (by omega)
  have firmware : readRange (after id) (manifestAt memory source).getOffset
      (manifestAt memory source).getSize = readRange (memory source)
        (manifestAt memory source).getOffset (manifestAt memory source).getSize :=
    readRange_congr _ fun address _ below => bytes address (by omega)
  rw [isSlot.passes_iff (by rw [manifest]; exact fills) (by rw [manifest]; exact inside),
    manifest, firmware]
  exact (sourceIs.passes_iff fills inside).mp passes

/-- Two slots that have exchanged more than their manifests hold each other's. -/
theorem Exchanged.manifestAt {before after : Contents} {id1 id2 : MemId} {offset : Nat}
    (exchanged : Exchanged before after id1 id2 offset) (enough : sizeofManifest ≤ offset) :
    manifestAt after id1 = manifestAt before id2 ∧ manifestAt after id2 = manifestAt before id1 :=
  ⟨manifestAt_congr fun address inside => (exchanged address (by omega)).1,
    manifestAt_congr fun address inside => (exchanged address (by omega)).2⟩

/-- Where a driver leaves the memory. -/
def DriverEnd.Leaves {σ : Type} (after : σ) : DriverEnd σ → Prop
  | .loads _ memory => memory = after
  | .stops memory => memory = after
  | .hangs => False

/-- The slots hold the manifests they held, perhaps in other places, and the bootloader context is
the same. -/
structure SlotsKept (board : Board) (memory after : Contents) : Prop where
  forth : ∀ id, board.IsSlot id →
    ∃ other, board.IsSlot other ∧ manifestAt after other = manifestAt memory id
  back : ∀ id, board.IsSlot id →
    ∃ other, board.IsSlot other ∧ manifestAt after id = manifestAt memory other
  ctx : bootloaderCtx board.cfg after = bootloaderCtx board.cfg memory

theorem SlotsKept.refl (memory : Contents) : SlotsKept board memory memory :=
  ⟨fun id isSlot => ⟨id, isSlot, rfl⟩, fun id isSlot => ⟨id, isSlot, rfl⟩, rfl⟩

/-- Exchanging more than the manifests keeps them. -/
theorem SlotsKept.of_traded {memory after : Contents} {id1 id2 : MemId} {offset : Nat}
    (isSlot1 : board.IsSlot id1) (isSlot2 : board.IsSlot id2)
    (traded : Traded board.layout.limit memory after id1 id2 board.cfg.swapId offset)
    (enough : sizeofManifest ≤ offset) : SlotsKept board memory after := by
  obtain ⟨first, second⟩ := traded.exchanged.manifestAt enough
  have elsewhere : ∀ id, board.IsSlot id → id ≠ id1 → id ≠ id2 →
      manifestAt after id = manifestAt memory id := by
    intro id isSlot other1 other2
    have manifest := board.manifest_le
    refine manifestAt_congr fun address inside => ?_
    exact traded.others id other1 other2 isSlot.ne_swap.symm address (by rw [isSlot.limit]; omega)
  refine ⟨fun id isSlot => ?_, fun id isSlot => ?_, ?_⟩
  · by_cases same1 : id = id1
    · exact ⟨id2, isSlot2, by rw [same1, second]⟩
    · by_cases same2 : id = id2
      · exact ⟨id1, isSlot1, by rw [same2, first]⟩
      · exact ⟨id, isSlot, elsewhere id isSlot same1 same2⟩
  · by_cases same1 : id = id1
    · exact ⟨id2, isSlot2, by rw [same1, first]⟩
    · by_cases same2 : id = id2
      · exact ⟨id1, isSlot1, by rw [same2, second]⟩
      · exact ⟨id, isSlot, elsewhere id isSlot same1 same2⟩
  · have fits := board.ctxFits
    exact readRange_congr _ fun address _ inside => traded.others _ isSlot1.ne_ctx isSlot2.ne_ctx
      board.ctxNotSwap address (by omega)

/-- The whole pieces of a slot cover its manifest. -/
theorem Board.manifest_le_pieces :
    sizeofManifest ≤ board.length / board.cfg.swapSize * board.cfg.swapSize := by
  have swap := board.asserted.1
  have positive : 0 < board.cfg.swapSize := Nat.lt_of_le_of_lt (Nat.zero_le _) swap
  have one : 1 ≤ board.length / board.cfg.swapSize :=
    (Nat.le_div_iff_mul_le positive).mpr (by rw [Nat.one_mul]; exact board.swapFits)
  have least := Nat.le_mul_of_pos_left board.cfg.swapSize one
  unfold agentBufferSize at swap
  rw [sizeofManifest]
  omega

/-- **A reset keeps the manifests** once the bootstrap is done. -/
theorem Boot.kept {best : Candidate} {memory after : Contents} {ended : DriverEnd Contents}
    (boot : Boot board crypto best memory ended) (whole : SignedWhole board crypto memory)
    (leaves : ended.Leaves after) :
    SlotsKept board memory after := by
  obtain ⟨newestIs, -⟩ := board.newestSlot_isSlot memory
  have oldestIs := board.oldestBootable_isSlot memory
  cases boot with
  | inPlace _ _ => rw [← show memory = after from leaves]; exact SlotsKept.refl memory
  | invalid _ _ => rw [← show memory = after from leaves]; exact SlotsKept.refl memory
  | refused _ _ => rw [← show memory = after from leaves]; exact SlotsKept.refl memory
  | upgraded after' _ passes _ walked =>
      rw [← show after' = after from leaves]
      have enough : sizeofManifest ≤ swapLength memory (newestSlot board.table memory).id
          (oldestBootable board.table memory).id :=
        le_trans (newestIs.extent whole passes).2 (le_max_left _ _)
      exact SlotsKept.of_traded newestIs oldestIs (walked.traded _) enough
  | cut after' _ _ _ walked =>
      rw [← show after' = after from leaves]
      exact SlotsKept.of_traded newestIs oldestIs (walked.traded _) board.manifest_le_pieces

/-- **The newest image is loaded**: no slot holds a newer one afterwards. -/
theorem Boot.loads_newest {best : Candidate} {memory after : Contents} {id : MemId}
    (bestIs : board.IsSlot best.id) (bestVersion : best.version = versionAt memory best.id)
    (boot : Boot board crypto best memory (.loads id after))
    (whole : SignedWhole board crypto memory) :
    board.IsSlot id ∧ ∀ other, board.IsSlot other → versionAt after other ≤ versionAt after id := by
  obtain ⟨newestIs, newestVersion⟩ := board.newestSlot_isSlot memory
  have oldestIs := board.oldestBootable_isSlot memory
  have maximal : ∀ other, board.IsSlot other →
      versionAt memory other ≤ (newestSlot board.table memory).version := by
    rintro other ⟨slot, member, rfl⟩
    exact newestSlot_max memory slot member
  cases boot with
  | inPlace old _ =>
      refine ⟨bestIs, fun other isSlot => ?_⟩
      rw [← bestVersion]
      exact le_trans (maximal other isSlot) old
  | upgraded _ newer passes fits walked =>
      have enough : sizeofManifest ≤ swapLength memory (newestSlot board.table memory).id
          (oldestBootable board.table memory).id :=
        le_trans (newestIs.extent whole passes).2 (le_max_left _ _)
      refine ⟨oldestIs, fun other isSlot => ?_⟩
      have traded := walked.traded board.layout.limit
      obtain ⟨source, sourceIs, same⟩ :=
        (SlotsKept.of_traded newestIs oldestIs traded enough).back other isSlot
      have installed : versionAt after (oldestBootable board.table memory).id =
          (newestSlot board.table memory).version :=
        (congrArg Manifest.getVersion (traded.exchanged.manifestAt enough).2).trans
          newestVersion.symm
      calc versionAt after other = versionAt memory source := congrArg Manifest.getVersion same
        _ ≤ (newestSlot board.table memory).version := maximal source sourceIs
        _ = versionAt after (oldestBootable board.table memory).id := installed.symm

/-- **What is loaded passes**: a verified image is loaded where it stands, or all of it has been
taken over by the slot it is loaded from. -/
theorem Boot.loads_verified {best : Candidate} {memory after : Contents} {id : MemId}
    (boot : Boot board crypto best memory (.loads id after))
    (whole : SignedWhole board crypto memory) :
    board.verdictOn crypto id after = .success := by
  obtain ⟨newestIs, -⟩ := board.newestSlot_isSlot memory
  have oldestIs := board.oldestBootable_isSlot memory
  cases boot with
  | inPlace _ passes => exact passes
  | upgraded _ newer passes fits walked =>
      exact oldestIs.taken whole newestIs passes (le_max_left _ _) fun address inside =>
        ((walked.traded board.layout.limit).exchanged address inside).2

end Reset

/-! ### A board with signed images -/

/-- The public key of a vendor: its `x`. -/
def ownKey : List UInt8 := List.replicate 32 1

theorem ownLimit_lt : 8192 < 2 ^ 32 := by decide

theorem ownLength_lt : 8192 < 2 ^ 31 := by decide

theorem ownSwapSize_lt : 4096 < 2 ^ 64 := by decide

/-- Slots of two pages, with the swap object `3` and the bootloader context `4`. -/
def ownBoard : Board where
  layout := ⟨fun _ => 8192, fun _ => ownLimit_lt, some 0xFF⟩
  table := twoSlots
  cfg :=
    { bootloaderCtxId := 4
      swapId := 3
      swapSize := 4096
      buffer := List.replicate 1024 0
      bufferSize := 1024
      safestore := ⟨⟨ownKey, List.replicate 32 0⟩, 0, 0⟩
      swapSize_lt := ownSwapSize_lt }
  length := 8192
  limit_eq := fun _ _ => rfl
  length_lt := ownLength_lt
  asserted := by decide
  swapFits := by decide
  swapParks := by decide
  swapApart := by decide
  ctxFits := by decide
  ctxApart := by decide
  ctxNotSwap := by decide
  buffered := by decide

/-- A signed image with `1024` zeros of firmware. -/
def ownImage (version : UInt8) : Nat → UInt8 := fun address =>
  if address = 1 ∨ address = 65 ∨ address = 185 ∨ address = 249 then 4
  else if address = 5 ∨ address = 69 then 1
  else if address = 8 ∨ address = 72 then version
  else if 32 ≤ address ∧ address < 64 then 1
  else 0

/-- Version `2` in the bootable slot, version `1` in the other one. -/
def ownImages : Contents := fun id => ownImage (if id = 1 then 2 else 1)

theorem ownImages_whole (id : MemId) (isSlot : ownBoard.IsSlot id) :
    (manifestAt ownImages id).Whole ownBoard.cfg.bufferSize := by
  obtain ⟨slot, member, rfl⟩ := isSlot
  have sizes : ∀ slot ∈ twoSlots.slots, sizeofManifest ≤ (manifestAt ownImages slot.id).getSize ∧
      (manifestAt ownImages slot.id).getSize = 1024 ∧
      (manifestAt ownImages slot.id).getOffset = 256 := by decide +kernel
  obtain ⟨covers, size, offset⟩ := sizes slot member
  refine ⟨le_trans covers (Nat.le_add_right _ _), ?_, le_of_eq size.symm⟩
  rw [size, offset]
  decide

theorem ownImages_verified (id : MemId) (known : id = 1 ∨ id = 2) :
    ownBoard.verdictOn mirrorCrypto id ownImages = .success := by
  have isSlot : ownBoard.IsSlot id := by
    rcases known with rfl | rfl
    · exact ⟨⟨1, true⟩, by decide, rfl⟩
    · exact ⟨⟨2, false⟩, by decide, rfl⟩
  rcases known with rfl | rfl
  · exact (isSlot.passes_iff (by decide +kernel) (by decide +kernel)).mpr
      ⟨by decide +kernel, by decide +kernel⟩
  · exact (isSlot.passes_iff (by decide +kernel) (by decide +kernel)).mpr
      ⟨by decide +kernel, by decide +kernel⟩

end Upkit
