/-
**The bootloader agent in the build without coroutines.**

One plain call of `bootloader_agent`: `PULL_CONTINUE` is empty and `PULL_RETURN` returns, so the
event that reports an invalid image (`EVENT_VALIDATE_NON_BOOTABLE_INVALID`) does not exist and the
upgrade goes on. No build defines `FACTORY_IMAGE`.

* `bootloaderAgent` — the agent over any memory, cut at its numbered steps.
* `bootloaderAgent_plain` — on a plain memory, what one call does: the bootstrap, then the upgrade
  or the validation of the newest bootable image.
-/

import Upkit.Memory.Swap

namespace Upkit

open Bytes

/-- `agent_event_t`, with the event data: the events a plain call returns. -/
inductive AgentEvent
  | boot (id : MemId)
  | getNewestFirmwareFailure (err : PullError)
  | getNewestFirmwareFailure2 (err : PullError)
  | bootstrapFailure (err : PullError)
  | bootstrapFailure2 (err : PullError)
  | firstBootFailure (err : PullError)
  | storeBootloaderCtxFailure (err : PullError)
  | getNewestNonBootableFailure (err : PullError)
  | validateNonBootableFailure (err : PullError)
  | upgradeFailure (err : PullError)
  | upgradeFailure2 (err : PullError)
  | upgradeFailure3 (err : PullError)
  | upgradeFailure4 (err : PullError)
  | upgradeCopyFailure (err : PullError)
  | validateBootableFailure (err : PullError)
  deriving DecidableEq, Repr

/-- `bootloader_agent_config`, without the `recovery_id` that the agent does not read. -/
structure BootloaderAgentConfig where
  bootloaderCtxId : MemId
  swapId : MemId
  swapSize : Nat
  buffer : List UInt8
  bufferSize : Nat
  safestore : Safestore
  swapSize_lt : swapSize < 2 ^ 64

/-- `sizeof(bootloader_ctx)`: the vendor key, a buffer and the flags. -/
def sizeofBootloaderCtx : Nat := 128

/-- `BUFFER_SIZE` of the agent. -/
def agentBufferSize : Nat := 1024

/-- `(bctx.startup_flags & FIRST_BOOT) == FIRST_BOOT`; the flags are the last byte. -/
def firstBoot (bctx : List UInt8) : Bool := bctx.getD 127 0 &&& 1 = 1

section Functions

variable {σ : Type} (M : MemoryInterface σ) (crypto : Crypto) (table : SlotTable)
  (cfg : BootloaderAgentConfig)

/-- Step (2.1): every slot but the newest bootable one is invalidated. -/
def eraseSlots (keep : MemId) : List MemSlot → σ → PullError × σ
  | [], memory => (.success, memory)
  | slot :: rest, memory =>
      if slot.id ≠ keep then
        let (err, memory) := invalidateObject M slot.id memory
        if err ≠ .success then (err, memory) else eraseSlots keep rest memory
      else eraseSlots keep rest memory

/-- Step (2), the bootstrap: the failure it ends the call with, if any. -/
def bootstrap (idNewestBootable : MemId) (memory : σ) : Option AgentEvent × σ :=
  let (err, bootloaderObject, memory) := M.memoryOpen cfg.bootloaderCtxId .writeChunk memory
  if err ≠ .success then (some (.bootstrapFailure err), memory)
  else
    let (ret, data, memory) := M.memoryRead bootloaderObject sizeofBootloaderCtx 0 memory
    let bctx := splice (List.replicate sizeofBootloaderCtx 0) 0 data
    if ret ≠ sizeofBootloaderCtx then (some (.bootstrapFailure2 .memoryRead), memory)
    else if firstBoot bctx then
      let (err, memory) := eraseSlots M idNewestBootable table.slots memory
      if err ≠ .success then (some (.firstBootFailure err), memory)
      else
        let (ret, memory) := M.memoryWrite bootloaderObject (splice bctx 127 [0]) 0 memory
        if ret ≠ sizeofBootloaderCtx then (some (.storeBootloaderCtxFailure .memoryWrite), memory)
        else (none, (M.memoryClose bootloaderObject memory).2)
    else (none, (M.memoryClose bootloaderObject memory).2)

/-- Step (4), the upgrade to the image in `idNewestNonBootable`: the slot to boot, or the failure
that ends the call. -/
def upgrade (versionBootable : Nat) (idNewestNonBootable : MemId) (memory : σ) :
    Except AgentEvent MemId × σ :=
  let (err, sourceSlot, memory) := M.memoryOpen idNewestNonBootable .readOnly memory
  if err ≠ .success then (.error (.validateNonBootableFailure err), memory)
  else
    -- The verdict is only reported by an event that this build does not have.
    let (_, _, memory) := verifyObject M crypto sourceSlot cfg.safestore cfg.buffer cfg.bufferSize
      memory
    let (_, memory) := M.memoryClose sourceSlot memory
    let (err, oldest, memory) := getOldestFirmware M table true 0 versionBootable memory
    if err ≠ .success then (.error (.upgradeFailure err), memory)
    else
      let (err, destinationSlot, memory) := M.memoryOpen oldest.id .sequentialRewrite memory
      if err ≠ .success then (.error (.upgradeFailure2 err), memory)
      else
        let (err, sourceSlot, memory) := M.memoryOpen idNewestNonBootable .sequentialRewrite memory
        if err ≠ .success then (.error (.upgradeFailure3 err), memory)
        else
          let (err, swapSlot, memory) := M.memoryOpen cfg.swapId .sequentialRewrite memory
          if err ≠ .success then (.error (.upgradeFailure4 err), memory)
          else
            let (err, _, memory) := swapSlots M sourceSlot destinationSlot swapSlot cfg.swapSize
              (List.replicate agentBufferSize 0) agentBufferSize memory
            if err ≠ .success then (.error (.upgradeCopyFailure err), memory)
            else (.ok oldest.id, (M.memoryClose destinationSlot memory).2)

/-- Step (5): the newest bootable image is validated. -/
def validateBootable (newestBootable : MemObject) (idNewestBootable : MemId) (memory : σ) :
    AgentEvent × σ :=
  let (err, _, memory) :=
    verifyObject M crypto newestBootable cfg.safestore cfg.buffer cfg.bufferSize memory
  if err = .success then (.boot idNewestBootable, memory)
  else (.validateBootableFailure err, memory)

/-- `bootloader_agent`, called once with its static variables as they start. -/
def bootloaderAgent (memory : σ) : AgentEvent × σ :=
  let (err, newest, memory) := getNewestFirmware M table true 0 0 memory
  if err ≠ .success then (.getNewestFirmwareFailure err, memory)
  else
    let (err, newestBootable, memory) := M.memoryOpen newest.id .readOnly memory
    if err ≠ .success then (.getNewestFirmwareFailure2 err, memory)
    else
      match bootstrap M table cfg newest.id memory with
      | (some failure, memory) => (failure, memory)
      | (none, memory) =>
          let (err, nonBootable, memory) := getNewestFirmware M table false 0 0 memory
          if err ≠ .success then (.getNewestNonBootableFailure err, memory)
          else if newest.version < nonBootable.version then
            match upgrade M crypto table cfg newest.version nonBootable.id memory with
            | (.error failure, memory) => (failure, memory)
            -- `already_validated_flag` is set: step (5) is skipped.
            | (.ok bootId, memory) => (.boot bootId, memory)
          else validateBootable M crypto cfg newestBootable newest.id memory

end Functions

/-! ### On a plain memory -/

section Plain

variable (layout : PlainLayout) (crypto : Crypto) (table : SlotTable)
  (cfg : BootloaderAgentConfig)

/-- The candidate every scan of the agent starts with. -/
def scanStart : Candidate := ⟨0, 0, false, true⟩

/-- The newest bootable slot of step (1). -/
def newestBootable (memory : Contents) : Candidate :=
  selectSlot true true (versionAt memory) table.slots scanStart

/-- The newest slot of step (3). -/
def newestSlot (memory : Contents) : Candidate :=
  selectSlot true false (versionAt memory) table.slots scanStart

/-- The oldest bootable slot of step (4.2). -/
def oldestBootable (memory : Contents) : Candidate :=
  selectSlot false true (versionAt memory) table.slots scanStart

/-- The memory with the manifests of all slots but one overwritten with zeros. -/
def erasedSlots (keep : MemId) (slots : List MemSlot) (memory : Contents) : Contents :=
  slots.foldl (fun memory slot =>
    if slot.id ≠ keep then
      Function.update memory slot.id
        (writeRange (memory slot.id) 0 (Manifest.ofBytes []).bytes)
    else memory) memory

/-- The bootloader context in a memory. -/
def bootloaderCtx (memory : Contents) : List UInt8 :=
  readRange (memory cfg.bootloaderCtxId) 0 sizeofBootloaderCtx

/-- The memory after the bootstrap: on the first boot the other slots are invalidated and the flag
is cleared. -/
def bootstrapped (memory : Contents) : Contents :=
  if firstBoot (bootloaderCtx cfg memory) then
    Function.update (erasedSlots (newestBootable table memory).id table.slots memory)
      cfg.bootloaderCtxId
      (writeRange
        (erasedSlots (newestBootable table memory).id table.slots memory cfg.bootloaderCtxId) 0
        (splice (bootloaderCtx cfg memory) 127 [0]))
  else memory

theorem eraseSlots_eq {M : MemoryInterface Contents} (keep : MemId) (slots : List MemSlot)
    (memory : Contents)
    (invalidates : ∀ slot ∈ slots, ∀ memory, invalidateObject M slot.id memory =
      (.success, Function.update memory slot.id
        (writeRange (memory slot.id) 0 (Manifest.ofBytes []).bytes))) :
    eraseSlots M keep slots memory = (.success, erasedSlots keep slots memory) := by
  induction slots generalizing memory with
  | nil => rfl
  | cons slot rest ih =>
      have invalidatesRest := fun other member =>
        invalidates other (List.mem_cons_of_mem slot member)
      rw [eraseSlots, erasedSlots, List.foldl_cons]
      by_cases other : slot.id ≠ keep
      · rw [if_pos other, if_pos other, invalidates slot List.mem_cons_self]
        exact ih _ invalidatesRest
      · rw [if_neg other, if_neg other]
        exact ih _ invalidatesRest

/-- The context as the bootstrap stores it. -/
theorem clearedCtx_length (memory : Contents) :
    (splice (bootloaderCtx cfg memory) 127 [0]).length = sizeofBootloaderCtx := by
  rw [splice_length (by rw [bootloaderCtx, readRange_length]; decide), bootloaderCtx,
    readRange_length]

/-- **The bootstrap** of a memory whose operations do what they are asked. -/
theorem bootstrap_eq {M : MemoryInterface Contents} {keep : MemId} {memory : Contents}
    (chosen : (newestBootable table memory).id = keep)
    (opens : M.memoryOpen cfg.bootloaderCtxId .writeChunk memory =
      (.success, ⟨cfg.bootloaderCtxId, .writeChunk⟩, memory))
    (reads : M.memoryRead ⟨cfg.bootloaderCtxId, .writeChunk⟩ sizeofBootloaderCtx 0 memory =
      ((sizeofBootloaderCtx : Int), bootloaderCtx cfg memory, memory))
    (erases : eraseSlots M keep table.slots memory =
      (.success, erasedSlots keep table.slots memory))
    (writes : M.memoryWrite ⟨cfg.bootloaderCtxId, .writeChunk⟩
        (splice (bootloaderCtx cfg memory) 127 [0]) 0 (erasedSlots keep table.slots memory) =
      ((sizeofBootloaderCtx : Int),
        Function.update (erasedSlots keep table.slots memory) cfg.bootloaderCtxId
          (writeRange (erasedSlots keep table.slots memory cfg.bootloaderCtxId) 0
            (splice (bootloaderCtx cfg memory) 127 [0]))))
    (closes : ∀ obj memory, M.memoryClose obj memory = (.success, memory)) :
    bootstrap M table cfg keep memory = (none, bootstrapped table cfg memory) := by
  have context : splice (List.replicate sizeofBootloaderCtx 0) 0 (bootloaderCtx cfg memory) =
      bootloaderCtx cfg memory := by
    rw [splice_zero, List.drop_of_length_le
      (by rw [bootloaderCtx, readRange_length, List.length_replicate]), List.append_nil]
  rw [bootstrap, opens]
  simp only [reads, context, ne_eq, not_true_eq_false, if_false]
  rw [bootstrapped, chosen]
  by_cases first : firstBoot (bootloaderCtx cfg memory) = true
  · rw [if_pos first, if_pos first, erases]
    simp only [writes, closes, not_true_eq_false, if_false]
  · rw [if_neg first, if_neg first, closes]

theorem bootstrap_within {M : MemoryInterface Contents} {limit : MemId → Nat}
    (within : PlainWithin M limit) (memory : Contents)
    (fits : ∀ slot ∈ table.slots, sizeofManifest ≤ limit slot.id)
    (fitsCtx : sizeofBootloaderCtx ≤ limit cfg.bootloaderCtxId) :
    bootstrap M table cfg (newestBootable table memory).id memory =
      (none, bootstrapped table cfg memory) := by
  have width := clearedCtx_length cfg memory
  refine bootstrap_eq table cfg rfl (within.opens _ memory (by decide))
    (within.reads memory (by rw [Nat.zero_add]; exact fitsCtx))
    (eraseSlots_eq _ _ memory fun slot member memory =>
      invalidateObject_within within memory (fits slot member)) ?_ within.closes
  rw [within.writes _ (by rw [width, Nat.zero_add]; exact fitsCtx), width]

variable {layout}

/-- The objects `swap_slots` is called with. -/
def swapObject (id : MemId) : MemObject := ⟨id, .sequentialRewrite⟩

/-- The swap of an upgrade. -/
def upgradeSwap (layout : PlainLayout) (idNewestNonBootable : MemId) (memory : Contents) :
    PullError × List UInt8 × Contents :=
  swapSlots (plain layout) (swapObject idNewestNonBootable)
    (swapObject (oldestBootable table memory).id) (swapObject cfg.swapId) cfg.swapSize
    (List.replicate agentBufferSize 0) agentBufferSize memory

theorem upgrade_plain (versionBootable : Nat) (id : MemId) (memory : Contents)
    (fits : ∀ slot ∈ table.slots, sizeofManifest ≤ layout.limit slot.id)
    (fitsSource : sizeofManifest ≤ layout.limit id) :
    upgrade (plain layout) crypto table cfg versionBootable id memory =
      (if (upgradeSwap table cfg layout id memory).1 ≠ .success then
          .error (.upgradeCopyFailure (upgradeSwap table cfg layout id memory).1)
        else .ok (oldestBootable table memory).id,
        (upgradeSwap table cfg layout id memory).2.2) := by
  have kept := verifyObject_memory layout crypto ⟨id, .readOnly⟩ cfg.safestore cfg.buffer
    cfg.bufferSize memory fitsSource
  have scan : getOldestFirmware (plain layout) table true 0 versionBootable memory =
      (.success, oldestBootable table memory, memory) := by
    rw [getOldestFirmware, getOrderedFirmware_plain layout memory table _ _ _ _ fits,
      selectSlot_table_congr _ _ _ table 0 0 versionBootable 0]
    rfl
  rw [upgrade, plain_open layout memory (by decide)]
  simp only [kept, plain_close, scan, plain_open layout memory
    (show MemMode.sequentialRewrite ≠ .writeAll by decide), ne_eq, not_true_eq_false, if_false]
  unfold upgradeSwap swapObject
  split
  · rfl
  · rfl

/-- **One call on a plain memory**: the bootstrap, then the swap, whatever the newest image is
worth, or the validation of the newest bootable one. -/
theorem bootloaderAgent_plain (memory : Contents)
    (fits : ∀ slot ∈ table.slots, sizeofManifest ≤ layout.limit slot.id)
    (fitsCtx : sizeofBootloaderCtx ≤ layout.limit cfg.bootloaderCtxId) :
    bootloaderAgent (plain layout) crypto table cfg memory =
      if (newestBootable table memory).version <
          (newestSlot table (bootstrapped table cfg memory)).version then
        (if (upgradeSwap table cfg layout (newestSlot table (bootstrapped table cfg memory)).id
            (bootstrapped table cfg memory)).1 ≠ .success then
          .upgradeCopyFailure (upgradeSwap table cfg layout
            (newestSlot table (bootstrapped table cfg memory)).id
              (bootstrapped table cfg memory)).1
        else .boot (oldestBootable table (bootstrapped table cfg memory)).id,
        (upgradeSwap table cfg layout (newestSlot table (bootstrapped table cfg memory)).id
          (bootstrapped table cfg memory)).2.2)
      else validateBootable (plain layout) crypto cfg ⟨(newestBootable table memory).id, .readOnly⟩
        (newestBootable table memory).id (bootstrapped table cfg memory) := by
  obtain ⟨slot, member, found⟩ := selectSlot_table_mem true false
    (versionAt (bootstrapped table cfg memory)) table 0 0
  have fitsSource : sizeofManifest ≤
      layout.limit (newestSlot table (bootstrapped table cfg memory)).id := by
    rw [show newestSlot table (bootstrapped table cfg memory) = slot.candidate _ from found]
    exact fits slot member
  have scan : getNewestFirmware (plain layout) table true 0 0 memory =
      (.success, newestBootable table memory, memory) :=
    getOrderedFirmware_plain layout memory table _ _ _ _ fits
  have scanAll : getNewestFirmware (plain layout) table false 0 0
      (bootstrapped table cfg memory) = (.success,
        newestSlot table (bootstrapped table cfg memory), bootstrapped table cfg memory) :=
    getOrderedFirmware_plain layout _ table _ _ _ _ fits
  rw [bootloaderAgent, scan]
  simp only [plain_open layout memory (show MemMode.readOnly ≠ .writeAll by decide),
    bootstrap_within table cfg (plain_within layout) memory fits fitsCtx, scanAll, ne_eq,
    not_true_eq_false, if_false]
  split
  · rw [upgrade_plain crypto table cfg _ _ _ fits fitsSource]
    split
    · rename_i failed
      split at failed
      · rename_i unsuccessful
        cases failed
        rw [if_pos unsuccessful]
      · cases failed
    · rename_i swapped
      split at swapped
      · cases swapped
      · rename_i successful
        cases swapped
        rw [if_neg successful]
  · rfl

end Plain

end Upkit
