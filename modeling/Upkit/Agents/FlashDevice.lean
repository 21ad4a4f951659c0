/-
**A device with flash follows its releases.**

The same device over `memory_flash.c`: the state machine writes to erased flash, and the bootloader
exchanges the slots page by page.

* `swapSlots_traded` — when a swap takes whole pages, the two slots are exchanged and no other object
  but the swap object has changed.
* `flash_loads` — a reset of an intact device loads its newest image, as from plain memory.
* `flash_answers` — the state machine answers as on plain memory, over any calls.
* `taken_loaded` — a reset once a release has been taken in; `flash_take` — one release from
  `fsm_init` on.
* `releases_induction` — what holds release after release.
* `flash_follows` — any number of releases, each newer than the one before.
-/

import Upkit.Agents.Generations
import Upkit.Memory.FlashSwap
import Upkit.Network.BackedRuns

namespace Upkit

open Bytes Pages

/-! ### The state machine -/

/-- **The state machine on flash** answers as on plain memory: from `fsm_init` on, over any calls
that accept no manifest but those of images that fit in the slots, it returns the same errors, leaves
the same buffers and the same context, and what the objects of the flash hold is what they hold
there. -/
theorem flash_answers {layout : FlashLayout} {crypto : Crypto} {table : SlotTable} {sf : Safestore}
    (hold : SlotsHold table layout.asPlain) (rngInit : PullError) (inputs : List FsmInput)
    (ctx : FsmCtx) {space : Nat → UInt8} {contents : Contents} (seen : Sees layout space contents)
    (fits : RunFits crypto table sf layout.asPlain inputs
      (fsmInit (plain layout.asPlain) table rngInit ctx contents).2.1
      (fsmInit (plain layout.asPlain) table rngInit ctx contents).2.2) :
    let begun := fsmInit (paged layout) table rngInit ctx space
    let plainly := fsmInit (plain layout.asPlain) table rngInit ctx contents
    let run := replies (paged layout) crypto table sf inputs begun.2.1 begun.2.2
    let plainRun := replies (plain layout.asPlain) crypto table sf inputs plainly.2.1 plainly.2.2
    begun.1 = plainly.1 ∧ run.1 = plainRun.1 ∧ run.2.1 = plainRun.2.1 ∧
      Sees layout run.2.2 plainRun.2.2 := by
  intro begun plainly run plainRun
  obtain ⟨between, starts, seen, prepared⟩ :=
    fsmInit_backed (paged_backs layout) hold rngInit ctx seen
  obtain ⟨space', ran, seen'⟩ :=
    replies_backed (paged_backs layout) hold rfl inputs fits seen prepared
  have isBegun : begun = (plainly.1, plainly.2.1, between) := starts
  have isRun : run = (plainRun.1, plainRun.2.1, space') := by
    simp only [run, isBegun]
    exact ran
  rw [isBegun, isRun]
  exact ⟨rfl, rfl, rfl, seen'⟩

/-! ### Swapping whole pages -/

section Swap

variable {layout : FlashLayout} {obj1 obj2 objSwap : MemObject} {swapSize bufferSize : Nat}

/-- The loop touches the two slots and the swap object only, from the round `count` on. -/
theorem swapSlotsLoop_pagedOthers {size : Nat} (apart : obj2.id ≠ obj1.id)
    (apart1 : objSwap.id ≠ obj1.id) (apart2 : objSwap.id ≠ obj2.id)
    (mode1 : obj1.mode = .sequentialRewrite) (mode2 : obj2.mode = .sequentialRewrite)
    (modeSwap : objSwap.mode = .sequentialRewrite) (bufferPositive : 0 < bufferSize)
    (whole : bufferSize ∣ layout.pageSize) (wholeSwap : bufferSize ∣ swapSize)
    (bufferSmall : bufferSize < 2 ^ 32) (swapSmall : swapSize < 2 ^ 32) (small : size ≤ 2 ^ 31)
    (fits1 : size ≤ layout.length obj1.id) (fits2 : size ≤ layout.length obj2.id)
    (fitsSwap : swapSize ≤ layout.length objSwap.id) {id : MemId} (other1 : id ≠ obj1.id)
    (other2 : id ≠ obj2.id) (otherSwap : id ≠ objSwap.id) (fuel count : Nat) (buffer : List UInt8)
    (space : Nat → UInt8) (below : count * swapSize ≤ size) {address : Nat}
    (inside : address < layout.length id) :
    layout.view (swapSlotsLoop (paged layout) obj1 obj2 objSwap size bufferSize fuel
      (count * swapSize) swapSize buffer space).2.2 id address = layout.view space id address := by
  induction fuel generalizing count buffer space with
  | zero => rfl
  | succ fuel ih =>
      by_cases more : count * swapSize < size
      · have cutDown := @cutDown_eq_min size (count * swapSize) swapSize (by omega) (by omega)
        have short : min swapSize (size - count * swapSize) ≤ swapSize := Nat.min_le_left _ _
        have rest : min swapSize (size - count * swapSize) ≤ size - count * swapSize :=
          Nat.min_le_right _ _
        have aligned : bufferSize ∣ count * swapSize := Dvd.dvd.mul_left wholeSwap count
        obtain ⟨piece, isPiece⟩ : ∃ piece, min swapSize (size - count * swapSize) = piece := ⟨_, rfl⟩
        rw [isPiece] at cutDown short rest
        have narrow : piece % 2 ^ 32 = piece := Nat.mod_eq_of_lt (by omega)
        have next : (count * swapSize + piece) % 2 ^ 32 = count * swapSize + piece :=
          Nat.mod_eq_of_lt (by omega)
        have room1 : count * swapSize + piece ≤ layout.length obj1.id := by omega
        have room2 : count * swapSize + piece ≤ layout.length obj2.id := by omega
        have roomSwap : piece ≤ layout.length objSwap.id := le_trans short fitsSwap
        obtain ⟨buffer1, space1, first, sees1⟩ := @swapChunk_paged layout space _ obj1 objSwap
          piece bufferSize false true (sees_view layout space) apart1.symm modeSwap bufferPositive
          whole bufferSmall _ buffer aligned (by omega) (by simpa using room1) (by simpa using roomSwap)
        obtain ⟨buffer2, space2, second, sees2⟩ := @swapChunk_paged layout space1 _ obj2 obj1 piece
          bufferSize false false sees1 apart mode1 bufferPositive whole bufferSmall _ buffer1 aligned
          (by omega) (by simpa using room2) (by simpa using room1)
        obtain ⟨buffer3, space3, third, sees3⟩ := @swapChunk_paged layout space2 _ objSwap obj2 piece
          bufferSize true false sees2 apart2 mode2 bufferPositive whole bufferSmall _ buffer2 aligned
          (by omega) (by simpa using roomSwap) (by simpa using room2)
        have kept : layout.view space3 id address = layout.view space id address := by
          rw [sees3 id address inside, rewriting_other _ _ _ _ other2,
            rewriting_other _ _ _ _ other1, rewriting_other _ _ _ _ otherSwap]
        rw [← kept, swapSlotsLoop, if_pos more]
        simp only [cutDown, narrow, next, first, second, third, ne_eq, not_true_eq_false, if_false]
        by_cases full : count * swapSize + swapSize ≤ size
        · have isFull : piece = swapSize := by omega
          have again : count * swapSize + swapSize = (count + 1) * swapSize := by
            rw [Nat.add_mul, Nat.one_mul]
          rw [isFull, again]
          exact ih (count + 1) buffer3 space3 (by omega)
        · -- The last round was cut down, so the loop ends.
          have done : count * swapSize + piece = size := by omega
          rw [done]
          cases fuel with
          | zero => rfl
          | succ fuel => rw [swapSlotsLoop, if_neg (lt_irrefl _)]
      · rw [swapSlotsLoop, if_neg more]

/-- A page lies in one chunk, if the chunks consist of whole pages. -/
theorem pageStart_chunk {page : Nat} (pages : page ∣ swapSize) (address : Nat) :
    pageStart page address / swapSize = address / swapSize := by
  obtain ⟨count, isSwap⟩ := pages
  rw [isSwap, ← Nat.div_div_eq_div_mul, ← Nat.div_div_eq_div_mul, pageStart]
  rcases Nat.eq_zero_or_pos page with zero | positive
  · rw [zero, Nat.div_zero, Nat.div_zero]
  · rw [Nat.mul_div_cancel _ positive]

/-- **Swapping whole pages** exchanges the two slots and changes no other object but the swap
object. -/
theorem swapSlots_traded (apart : obj2.id ≠ obj1.id) (apart1 : objSwap.id ≠ obj1.id)
    (apart2 : objSwap.id ≠ obj2.id) (mode1 : obj1.mode = .sequentialRewrite)
    (mode2 : obj2.mode = .sequentialRewrite) (modeSwap : objSwap.mode = .sequentialRewrite)
    (positive : 0 < swapSize) (wholeSwap : bufferSize ∣ swapSize)
    (whole : bufferSize ∣ layout.pageSize) (pages : layout.pageSize ∣ swapSize)
    (fitsSwap : swapSize ≤ layout.length objSwap.id) (buffer : List UInt8) (space : Nat → UInt8)
    (fits1 : swapLength (layout.view space) obj1.id obj2.id ≤ layout.length obj1.id)
    (fits2 : swapLength (layout.view space) obj1.id obj2.id ≤ layout.length obj2.id) :
    ∃ buffer' space',
      swapSlots (paged layout) obj1 obj2 objSwap swapSize buffer bufferSize space =
        (.success, buffer', space') ∧
      Traded layout.length (layout.view space) (layout.view space') obj1.id obj2.id objSwap.id
        (swapLength (layout.view space) obj1.id obj2.id) := by
  obtain ⟨buffer', space', swapped, exchanged⟩ := swapSlots_paged apart apart1 apart2 mode1 mode2
    modeSwap positive wholeSwap whole fitsSwap buffer space fits1 fits2
  refine ⟨buffer', space', swapped, fun address inside => ?_,
    fun id other1 other2 otherSwap address inside => ?_⟩
  · have now := exchanged address inside
    rw [if_pos (pageStart_chunk pages address), if_pos (pageStart_chunk pages address)] at now
    exact now
  · -- The objects share an address space of 32 bits.
    have end1 := layout.stop_lt obj1.id
    have end2 := layout.stop_lt obj2.id
    have endSwap := layout.stop_lt objSwap.id
    have length : ∀ id, layout.length id = layout.stop id - layout.start id := fun _ => rfl
    have disjoint := layout.apart obj2.id obj1.id apart
    have bufferPositive : 0 < bufferSize := Nat.pos_of_dvd_of_pos wholeSwap positive
    have bufferSmall : bufferSize ≤ swapSize := Nat.le_of_dvd positive wholeSwap
    rw [length] at fits1 fits2
    have looped := @swapSlotsLoop_pagedOthers layout obj1 obj2 objSwap swapSize bufferSize
      (swapLength (layout.view space) obj1.id obj2.id) apart apart1 apart2 mode1 mode2 modeSwap
      bufferPositive whole wholeSwap (by rw [length] at fitsSwap; omega)
      (by rw [length] at fitsSwap; omega) (by omega) (by rw [length]; exact fits1)
      (by rw [length]; exact fits2) fitsSwap id other1 other2 otherSwap loopFuel 0 buffer space
      (by omega) address inside
    rw [swapSlots, readFirmwareManifest_paged] at swapped
    simp only [readFirmwareManifest_paged, ne_eq, not_true_eq_false, if_false, swapLength_eq_ite]
      at swapped
    rw [Nat.zero_mul, swapped] at looped
    exact looped

end Swap

/-! ### The calls that bring a release -/

theorem Board.slotsHold (board : Board) : SlotsHold board.table board.layout where
  manifests := board.manifests
  narrow := fun slot member => by
    have small := board.length_lt
    rw [board.limit_eq slot member]
    unfold fsmBufferSize
    omega

/-- **A release that is newer than every slot** and fits in them, from `fsm_init` on. -/
theorem release_runFits {board : Board} {crypto : Crypto}
    (release : Release crypto board.cfg.safestore) (nonce : Nonce) {memory : Contents}
    (newer : ∀ slot ∈ board.table.slots, versionAt memory slot.id < release.version)
    (fits : release.stream.length ≤ board.length) (ctx : FsmCtx) :
    RunFits crypto board.table board.cfg.safestore board.layout (release.calls nonce)
      (fsmInit (plain board.layout) board.table .success ctx memory).2.1
      (fsmInit (plain board.layout) board.table .success ctx memory).2.2 := by
  obtain ⟨idle, _, _, kept⟩ := fsmInit_board board ctx memory
  obtain ⟨announced, asked, session, older⟩ := release_begun release nonce newer ctx
  have within : ∀ slot ∈ board.table.slots, release.stream.length ≤ board.layout.limit slot.id :=
    fun slot member => le_trans fits (le_of_eq (board.limit_eq slot member).symm)
  rw [kept, Release.calls, RunFits, RunFits, announced, asked]
  refine ⟨acceptsFit_of_state _ (by rw [idle]; decide), acceptsFit_of_state _ FsmState.noConfusion,
    ?_⟩
  exact Release.Downloaded.runFits board.slotsHold within
    (.collecting session List.nil_prefix older) release.nonempty rfl release.begins

/-! ### A reset -/

/-- A board with flash: a swap takes whole pages, and the pages consist of whole buffers. -/
structure FlashBoard where
  board : Board
  flash : FlashLayout
  layout_eq : board.layout = flash.asPlain
  pages : flash.pageSize ∣ board.cfg.swapSize
  whole : agentBufferSize ∣ flash.pageSize

namespace FlashBoard

variable (device : FlashBoard)

theorem limit_eq (id : MemId) : device.board.layout.limit id = device.flash.length id := by
  rw [device.layout_eq]
  rfl

theorem backs : Backs (paged device.flash) device.board.layout (Sees device.flash) := by
  rw [device.layout_eq]
  exact paged_backs device.flash

/-- A scan of the slots on flash. -/
theorem scan (newest preferBootable : Bool) (version : Nat) (space : Nat → UInt8) :
    getOrderedFirmware (paged device.flash) device.board.table newest preferBootable 0 version
        space =
      (.success, selectSlot newest preferBootable (versionAt (device.flash.view space))
        device.board.table.slots scanStart, space) := by
  obtain ⟨space', found, _⟩ := getOrderedFirmware_backed device.backs device.board.table newest
    preferBootable 0 version device.board.manifests (sees_view device.flash space)
  have kept := getOrderedFirmware_frames (paged_reads device.flash) (fun _ => by decide)
    device.board.table newest preferBootable 0 version space
  rw [found] at kept
  rw [found, show space' = space from kept,
    selectSlot_table_congr _ _ _ device.board.table 0 0 version 0]
  rfl

/-- The agent opens for reading and for sequential rewriting without an erasure. -/
theorem opens (id : MemId) {mode : MemMode} (keeps : mode ≠ .writeAll) (space : Nat → UInt8) :
    (paged device.flash).memoryOpen id mode space = (.success, ⟨id, mode⟩, space) := by
  simp only [paged, if_neg keeps]

variable {device} {crypto : Crypto}

/-- A slot that passes as the flash is seen is verified there. -/
theorem verifies {space : Nat → UInt8} {id : MemId} (isSlot : device.board.IsSlot id)
    (whole : SignedWhole device.board crypto (device.flash.view space))
    (passes : device.board.verdictOn crypto id (device.flash.view space) = .success) :
    ∃ buffer, verifyObject (paged device.flash) crypto ⟨id, .readOnly⟩ device.board.cfg.safestore
      device.board.cfg.buffer device.board.cfg.bufferSize space = (.success, buffer, space) := by
  have fills := (whole id isSlot (isSlot.signed passes)).fills
  have inside := isSlot.inside whole passes
  have limit := isSlot.limit
  have manifest := device.board.manifest_le
  have small := device.board.length_lt
  rw [(isSlot.extent whole passes).1] at inside
  have within : (manifestAt (device.flash.view space) id).getOffset +
      (manifestAt (device.flash.view space) id).getSize ≤ device.board.layout.limit id := by omega
  obtain ⟨space', verified, _⟩ := @verifyObject_backed _ _ _ _ device.backs space
    (device.flash.view space) crypto device.board.cfg.safestore ⟨id, .readOnly⟩
    device.board.cfg.bufferSize device.board.cfg.buffer (by rw [limit]; exact manifest)
    (by rw [limit]; omega) (fun _ => ⟨fills, within⟩) (sees_view _ _)
  have kept := verifyObject_frames (paged_reads device.flash) crypto ⟨id, .readOnly⟩
    device.board.cfg.safestore device.board.cfg.buffer device.board.cfg.bufferSize space
  rw [verified] at kept
  rw [device.board.verdictOn_eq crypto, passes, show space' = space from kept] at verified
  exact ⟨_, verified⟩

/-- The bootstrap of a device whose first boot is over. -/
theorem bootstraps {space : Nat → UInt8}
    (cleared : firstBoot (bootloaderCtx device.board.cfg (device.flash.view space)) = false)
    (keep : MemId) :
    bootstrap (paged device.flash) device.board.table device.board.cfg keep space =
      (none, space) := by
  have fits := device.board.ctxFits
  rw [device.limit_eq] at fits
  have read := @paged_read device.flash space (device.flash.view space) (sees_view _ _)
    ⟨device.board.cfg.bootloaderCtxId, .writeChunk⟩ sizeofBootloaderCtx 0
    (by rw [Nat.zero_add]; exact fits)
  have context : splice (List.replicate sizeofBootloaderCtx 0) 0
      (bootloaderCtx device.board.cfg (device.flash.view space)) =
        bootloaderCtx device.board.cfg (device.flash.view space) := by
    rw [splice_zero, List.drop_of_length_le
      (by rw [bootloaderCtx, readRange_length, List.length_replicate]), List.append_nil]
  rw [bootstrap, device.opens _ (by decide)]
  simp only [read, ne_eq, not_true_eq_false, if_false]
  rw [← bootloaderCtx, context, if_neg (by rw [cleared]; decide)]
  rfl

/-- **A reset of an intact device with flash** loads its newest image. -/
theorem flash_loads {space : Nat → UInt8}
    (intact : Intact device.board crypto (device.flash.view space)) :
    ∃ id space', contiki (bootloaderCoroutine (paged device.flash) crypto device.board.table
        device.board.cfg space) = .loads id space' ∧
      Loads device.board (device.flash.view space) (device.flash.view space') id := by
  obtain ⟨newestIs, -⟩ := device.board.newestSlot_isSlot (device.flash.view space)
  obtain ⟨bestIs, -⟩ := device.board.newestBootable_isSlot (device.flash.view space)
  have oldestIs := device.board.oldestBootable_isSlot (device.flash.view space)
  have scanBest : getNewestFirmware (paged device.flash) device.board.table true 0 0 space =
      (.success, newestBootable device.board.table (device.flash.view space), space) :=
    device.scan true true 0 space
  have scanAll : getNewestFirmware (paged device.flash) device.board.table false 0 0 space =
      (.success, newestSlot device.board.table (device.flash.view space), space) :=
    device.scan true false 0 space
  unfold bootloaderCoroutine
  simp (disch := decide) only [run_pullContinue contiki_follows, run_returnIf contiki_follows,
    run_bootstrapBody contiki_follows, scanBest, device.opens _
      (show MemMode.readOnly ≠ .writeAll by decide), bootstraps intact.cleared, scanAll, ne_eq,
    not_true_eq_false, if_false]
  by_cases newer : (newestBootable device.board.table (device.flash.view space)).version <
      (newestSlot device.board.table (device.flash.view space)).version
  · rw [if_pos newer]
    obtain ⟨buffer, verified⟩ := verifies newestIs intact.signedWhole
      (intact.verified _ newestIs)
    have cleared : bootstrapped device.board.table device.board.cfg (device.flash.view space) =
      device.flash.view space := intact.bootstrapped_eq
    have apart : (oldestBootable device.board.table (device.flash.view space)).id ≠
        (newestSlot device.board.table (device.flash.view space)).id := by
      have differ := @upgrade_apart device.board.table device.board.cfg (device.flash.view space)
      rw [cleared] at differ
      exact differ newer
    have scanOldest : getOldestFirmware (paged device.flash) device.board.table true 0
        (newestBootable device.board.table (device.flash.view space)).version space =
          (.success, oldestBootable device.board.table (device.flash.view space), space) :=
      device.scan false true _ space
    have positive : 0 < device.board.cfg.swapSize :=
      Nat.lt_of_le_of_lt (Nat.zero_le _) device.board.asserted.1
    have first := newestIs.inside intact.signedWhole (intact.verified _ newestIs)
    have second := oldestIs.inside intact.signedWhole (intact.verified _ oldestIs)
    have fits : swapLength (device.flash.view space)
        (newestSlot device.board.table (device.flash.view space)).id
        (oldestBootable device.board.table (device.flash.view space)).id ≤ device.board.length :=
      max_le first second
    obtain ⟨buffer', space', swapped, traded⟩ := @swapSlots_traded device.flash
      (swapObject (newestSlot device.board.table (device.flash.view space)).id)
      (swapObject (oldestBootable device.board.table (device.flash.view space)).id)
      (swapObject device.board.cfg.swapId) device.board.cfg.swapSize agentBufferSize apart
      newestIs.ne_swap oldestIs.ne_swap rfl rfl rfl positive
      (Nat.dvd_of_mod_eq_zero device.board.asserted.2) device.whole device.pages
      (by rw [← device.limit_eq]; exact device.board.swapParks) (List.replicate agentBufferSize 0)
      space (by rw [← device.limit_eq]; exact newestIs.limit ▸ fits)
      (by rw [← device.limit_eq]; exact oldestIs.limit ▸ fits)
    unfold upgradeBody
    simp (disch := decide) only [run_pullContinue contiki_follows, run_returnIf contiki_follows,
      run_returned contiki_follows, device.opens _ (show MemMode.readOnly ≠ .writeAll by decide),
      verified, ne_eq, not_true_eq_false, if_false]
    rw [if_neg PullError.noConfusion, show ((paged device.flash).memoryClose
      ⟨(newestSlot device.board.table (device.flash.view space)).id, .readOnly⟩ space).2 = space
        from rfl, run_swapBody contiki_follows (paged device.flash) device.board.table
      device.board.cfg bootBody (fun id => device.opens id (by decide) space) scanOldest swapped,
      if_neg PullError.noConfusion, if_neg (not_not.mpr rfl), run_bootBody contiki_follows]
    refine ⟨_, space', rfl, .upgraded newer ?_⟩
    rw [device.layout_eq]
    exact traded
  · rw [if_neg newer]
    obtain ⟨buffer, verified⟩ := verifies bestIs intact.signedWhole (intact.verified _ bestIs)
    rw [run_validateBody contiki_follows, verified, if_neg PullError.noConfusion, validateBootable]
    simp only [verified, if_true]
    exact ⟨_, space, rfl, .inPlace (not_lt.mp newer) rfl⟩

/-! ### Release after release -/

/-- A device with flash takes a release: its state machine starts, the calls are made, and the
machine that asks for a reboot gets it. -/
def take (device : FlashBoard) (nonce : Nonce)
    (release : Release crypto device.board.cfg.safestore) (space : Nat → UInt8) :
    Option (MemId × (Nat → UInt8)) :=
  let begun := fsmInit (paged device.flash) device.board.table .success FsmCtx.zero space
  match deliver (paged device.flash) crypto device.board.table device.board.cfg.safestore
    (release.calls nonce) begun.2.1 begun.2.2 with
  | none => none
  | some (ctx, space) =>
      if ctx.state ≠ .reboot then none
      else
        match contiki (bootloaderCoroutine (paged device.flash) crypto device.board.table
          device.board.cfg space) with
        | .loads id after => some (id, after)
        | _ => none

/-- Release after release, each with a nonce of its own: the versions that are loaded, and the flash
after the last one. -/
def follow (device : FlashBoard) :
    List (Nonce × Release crypto device.board.cfg.safestore) → (Nat → UInt8) →
      Option (List Nat × (Nat → UInt8))
  | [], space => some ([], space)
  | (nonce, release) :: rest, space =>
      (device.take nonce release space).bind fun (id, space) =>
        (follow device rest space).map fun (versions, after) =>
          (versionAt (device.flash.view space) id :: versions, after)

/-- What the flash of a device runs. -/
def Runs (device : FlashBoard) (release : Release crypto device.board.cfg.safestore)
    (space : Nat → UInt8) : Prop :=
  ∃ slot ∈ device.board.table.slots, slot.bootable = true ∧
    imageAt (device.flash.view space) slot.id = release.image ∧
    ∀ other ∈ device.board.table.slots,
      versionAt (device.flash.view space) other.id ≤ release.version

/-- A device that has taken a release and has loaded it from a slot is intact, and that slot holds
its newest image. -/
structure Took (device : FlashBoard) (release : Release crypto device.board.cfg.safestore)
    (slot : MemSlot) (space : Nat → UInt8) : Prop where
  member : slot ∈ device.board.table.slots
  bootable : slot.bootable = true
  intact : Intact device.board crypto (device.flash.view space)
  version : versionAt (device.flash.view space) slot.id = release.version
  image : imageAt (device.flash.view space) slot.id = release.image
  maximal : ∀ other ∈ device.board.table.slots,
    versionAt (device.flash.view space) other.id ≤ release.version

theorem Took.runs {release : Release crypto device.board.cfg.safestore} {slot : MemSlot}
    {space : Nat → UInt8} (took : device.Took release slot space) : device.Runs release space :=
  ⟨slot, took.member, took.bootable, took.image, took.maximal⟩

/-- **A reset of a device that has taken a release in** loads it. -/
theorem taken_loaded (boots : ∀ slot ∈ device.board.table.slots.head?, slot.bootable = true)
    {release : Release crypto device.board.cfg.safestore} {memory : Contents} {space : Nat → UInt8}
    (taken : TakenIn device.board release memory (device.flash.view space))
    (intact : Intact device.board crypto memory)
    (newer : ∀ slot ∈ device.board.table.slots, versionAt memory slot.id < release.version)
    (suits : release.Suits device.board) :
    ∃ slot space', contiki (bootloaderCoroutine (paged device.flash) crypto device.board.table
        device.board.cfg space) = .loads slot.id space' ∧ device.Took release slot space' := by
  obtain ⟨oldest, member, isOldest⟩ := oldestSlot_mem device.board.table memory
  have stored := intact.stored ⟨oldest, member, isOldest⟩ release suits
  obtain ⟨id, space', ends, loads⟩ := flash_loads (taken.intact stored)
  obtain ⟨intact', version, slot, inTable, rfl, bootable, image, maximal⟩ :=
    taken.loaded boots intact newer suits loads
  exact ⟨slot, space', ends, inTable, bootable, intact', version, image, maximal⟩

/-- **One release on flash**: an intact device takes it, loads it from a bootable slot and is intact
again. -/
theorem flash_take (boots : ∀ slot ∈ device.board.table.slots.head?, slot.bootable = true)
    (nonce : Nonce) (release : Release crypto device.board.cfg.safestore) {space : Nat → UInt8}
    (intact : Intact device.board crypto (device.flash.view space))
    (newer : ∀ slot ∈ device.board.table.slots,
      versionAt (device.flash.view space) slot.id < release.version)
    (suits : release.Suits device.board) :
    ∃ slot space', device.take nonce release space = some (slot.id, space') ∧
      device.Took release slot space' := by
  obtain ⟨ctx', delivered, reboot⟩ := release_delivered release nonce newer suits.fits FsmCtx.zero
  obtain ⟨begun, starts, seen, prepared⟩ := fsmInit_backed device.backs device.board.slotsHold
    .success FsmCtx.zero (sees_view device.flash space)
  obtain ⟨space1, flashed, seen⟩ := deliver_backed device.backs device.board.slotsHold
    (by rw [device.layout_eq]; rfl) (release_runFits release nonce newer suits.fits FsmCtx.zero)
    seen prepared delivered
  have taken : TakenIn device.board release (device.flash.view space)
      (device.flash.view space1) := by
    intro id address inside
    rw [device.limit_eq] at inside
    exact seen id address inside
  obtain ⟨slot, space', ends, took⟩ := taken_loaded boots taken intact newer suits
  refine ⟨slot, space', ?_, took⟩
  unfold take
  simp only [starts, flashed, reboot, ne_eq, not_true_eq_false, if_false, ends]

/-- **Release after release**: a device that has taken the first of the releases can take the
others. -/
theorem releases_induction
    {motive : List (Nonce × Release crypto device.board.cfg.safestore) → (Nat → UInt8) → Prop}
    (done : ∀ space, Intact device.board crypto (device.flash.view space) → motive [] space)
    (next : ∀ nonce release rest space slot between,
      device.take nonce release space = some (slot.id, between) →
      device.Took release slot between → motive rest between →
      motive ((nonce, release) :: rest) space)
    (boots : ∀ slot ∈ device.board.table.slots.head?, slot.bootable = true)
    (releases : List (Nonce × Release crypto device.board.cfg.safestore)) {space : Nat → UInt8}
    (intact : Intact device.board crypto (device.flash.view space))
    (newer : ∀ release ∈ releases, ∀ slot ∈ device.board.table.slots,
      versionAt (device.flash.view space) slot.id < release.2.version)
    (ascending : releases.Pairwise fun earlier later => earlier.2.version < later.2.version)
    (suits : ∀ release ∈ releases, release.2.Suits device.board) : motive releases space := by
  induction releases generalizing space with
  | nil => exact done space intact
  | cons first rest ih =>
      obtain ⟨nonce, release⟩ := first
      obtain ⟨above, ascending⟩ := List.pairwise_cons.mp ascending
      obtain ⟨slot, between, taken, took⟩ := flash_take boots nonce release intact
        (newer _ List.mem_cons_self) (suits _ List.mem_cons_self)
      -- No slot is newer than the release that has just been taken.
      have newer' : ∀ later ∈ rest, ∀ other ∈ device.board.table.slots,
          versionAt (device.flash.view between) other.id < later.2.version :=
        fun later member other inTable =>
          lt_of_le_of_lt (took.maximal other inTable) (above later member)
      have others := ih took.intact newer' ascending
        (fun later member => suits later (List.mem_cons_of_mem _ member))
      exact next nonce release rest space slot between taken took others

/-- **Any number of releases on flash**, each newer than the one before: the device loads every one
of them in this order, and runs the last one. -/
theorem flash_follows (boots : ∀ slot ∈ device.board.table.slots.head?, slot.bootable = true)
    (releases : List (Nonce × Release crypto device.board.cfg.safestore)) {space : Nat → UInt8}
    (intact : Intact device.board crypto (device.flash.view space))
    (newer : ∀ release ∈ releases, ∀ slot ∈ device.board.table.slots,
      versionAt (device.flash.view space) slot.id < release.2.version)
    (ascending : releases.Pairwise fun earlier later => earlier.2.version < later.2.version)
    (suits : ∀ release ∈ releases, release.2.Suits device.board) :
    ∃ space', device.follow releases space =
        some (releases.map fun release => release.2.version, space') ∧
      Intact device.board crypto (device.flash.view space') ∧
      ∀ release ∈ releases.getLast?, device.Runs release.2 space' := by
  refine releases_induction (motive := fun releases space => ∃ space',
    device.follow releases space = some (releases.map fun release => release.2.version, space') ∧
      Intact device.board crypto (device.flash.view space') ∧
      ∀ release ∈ releases.getLast?, device.Runs release.2 space')
    ?_ ?_ boots releases intact newer ascending suits
  · intro space intact
    exact ⟨space, rfl, intact, fun release none => by cases none⟩
  · rintro nonce release rest space slot between taken took ⟨space', followed, intact', last⟩
    refine ⟨space', ?_, intact', fun final isLast => ?_⟩
    · simp only [follow, taken, Option.bind_some, followed, Option.map_some, took.version,
        List.map_cons]
    · cases rest with
      | nil =>
          have same : between = space' := congrArg Prod.snd (Option.some.inj followed)
          rw [← same, ← Option.some.inj isLast]
          exact took.runs
      | cons next rest => exact last final isLast

end FlashBoard

/-! ### A device with two slots of flash -/

/-- The objects of a flash: the slots `1` and `2` of two pages each, the swap object `3` and the
bootloader context `4`. -/
def pagesStart (id : Int) : Nat :=
  if id = 1 then 0x1000 else if id = 2 then 0x3000 else if id = 3 then 0x5000
  else if id = 4 then 0x6000 else 0

def pagesStop (id : Int) : Nat :=
  if id = 1 then 0x3000 else if id = 2 then 0x5000 else if id = 3 then 0x6000
  else if id = 4 then 0x7000 else 0

theorem pages_aligned (id : Int) : 0x1000 ∣ pagesStart id ∧ 0x1000 ∣ pagesStop id := by
  unfold pagesStart pagesStop
  split_ifs <;> decide

theorem pages_within (id : Int) : pagesStart id ≤ pagesStop id ∧ pagesStop id < 2 ^ 32 := by
  unfold pagesStart pagesStop
  split_ifs <;> omega

theorem pages_apart (id other : Int) (differ : id ≠ other) :
    pagesStop id ≤ pagesStart other ∨ pagesStop other ≤ pagesStart id := by
  unfold pagesStart pagesStop
  split_ifs <;> omega

def twoSlotFlash : FlashLayout where
  pageSize := 0x1000
  start := pagesStart
  stop := pagesStop
  positive := nrf52840_page
  start_aligned := fun id => (pages_aligned id).1
  stop_aligned := fun id => (pages_aligned id).2
  ordered := fun id => (pages_within id).1
  stop_lt := fun id => (pages_within id).2
  apart := pages_apart

theorem twoSlotFlash_length : ∀ slot ∈ twoSlots.slots, twoSlotFlash.length slot.id = 8192 := by
  decide

theorem twoSlotFlash_parks : 4096 ≤ twoSlotFlash.length 3 := by decide

theorem twoSlotFlash_ctx : sizeofBootloaderCtx ≤ twoSlotFlash.length 4 := by decide

/-- The configuration of `ownBoard` on that flash. -/
def flashBoard : FlashBoard where
  board :=
    { ownBoard with
      layout := twoSlotFlash.asPlain
      limit_eq := twoSlotFlash_length
      swapParks := twoSlotFlash_parks
      ctxFits := twoSlotFlash_ctx }
  flash := twoSlotFlash
  layout_eq := rfl
  pages := dvd_refl _
  whole := ⟨4, rfl⟩

/-- Version `2` in the bootable slot and version `1` in the other one. -/
def flashImages : Nat → UInt8 := fun address =>
  if 0x1000 ≤ address ∧ address < 0x3000 then ownImage 2 (address - 0x1000)
  else if 0x3000 ≤ address ∧ address < 0x5000 then ownImage 1 (address - 0x3000)
  else 0

theorem flashImages_intact :
    Intact flashBoard.board mirrorCrypto (flashBoard.flash.view flashImages) := by
  refine ⟨fun target isSlot => ?_, fun target isSlot => ?_, by decide +kernel⟩
  · rcases isSlot.ofTwo rfl with rfl | rfl
    · exact (isSlot.passes_iff (by decide +kernel) (by decide +kernel)).mpr
        ⟨by decide +kernel, by decide +kernel⟩
    · exact (isSlot.passes_iff (by decide +kernel) (by decide +kernel)).mpr
        ⟨by decide +kernel, by decide +kernel⟩
  · rcases isSlot.ofTwo rfl with rfl | rfl
    · exact ⟨by decide +kernel, by decide +kernel, by decide +kernel⟩
    · exact ⟨by decide +kernel, by decide +kernel, by decide +kernel⟩

/-- Versions `3` and `4` for that board, whose key is the one of `ownBoard`. -/
def thirdOnFlash : Release mirrorCrypto flashBoard.board.cfg.safestore := thirdRelease

def fourthOnFlash : Release mirrorCrypto flashBoard.board.cfg.safestore := fourthRelease

theorem flashRelease_versions : thirdOnFlash.version = 3 ∧ fourthOnFlash.version = 4 := by
  decide +kernel

theorem flashImages_older : ∀ slot ∈ flashBoard.board.table.slots,
    versionAt (flashBoard.flash.view flashImages) slot.id < 3 := by
  decide +kernel

/-- The releases of that board. -/
def flashReleases : List (Nonce × Release mirrorCrypto flashBoard.board.cfg.safestore) :=
  [(zeroNonce, thirdOnFlash), (zeroNonce, fourthOnFlash)]

theorem flashReleases_newer : ∀ release ∈ flashReleases, ∀ slot ∈ flashBoard.board.table.slots,
    versionAt (flashBoard.flash.view flashImages) slot.id < release.2.version := by
  obtain ⟨third, fourth⟩ := flashRelease_versions
  intro release member slot inTable
  have older := flashImages_older slot inTable
  rcases List.mem_pair.mp member with rfl | rfl
  · exact lt_of_lt_of_eq older third.symm
  · exact lt_trans older (lt_of_lt_of_eq (by decide) fourth.symm)

theorem flashReleases_ascending :
    flashReleases.Pairwise fun earlier later => earlier.2.version < later.2.version := by
  obtain ⟨third, fourth⟩ := flashRelease_versions
  rw [flashReleases, List.pairwise_pair]
  show thirdOnFlash.version < fourthOnFlash.version
  rw [third, fourth]
  decide

theorem flashReleases_suit : ∀ release ∈ flashReleases, release.2.Suits flashBoard.board := by
  intro release member
  rcases List.mem_pair.mp member with rfl | rfl
  · exact ⟨by decide +kernel, by decide +kernel⟩
  · exact ⟨by decide +kernel, by decide +kernel⟩

/-- The board takes version `3` and version `4` into its flash. -/
theorem flashBoard_follows :
    ∃ space', flashBoard.follow [(zeroNonce, thirdOnFlash), (zeroNonce, fourthOnFlash)] flashImages =
        some ([3, 4], space') ∧ flashBoard.Runs fourthOnFlash space' := by
  obtain ⟨third, fourth⟩ := flashRelease_versions
  obtain ⟨space', followed, _, runs⟩ := @FlashBoard.flash_follows flashBoard mirrorCrypto
    (by rintro slot ⟨⟩; rfl) flashReleases flashImages flashImages_intact flashReleases_newer
    flashReleases_ascending flashReleases_suit
  refine ⟨space', ?_, runs _ rfl⟩
  rw [flashReleases, List.map_cons, List.map_cons, List.map_nil, third, fourth] at followed
  exact followed

/-- The calls that bring version `3` to that board are answered as on plain memory. -/
theorem flashBoard_answers :
    let begun := fsmInit (paged twoSlotFlash) twoSlots .success FsmCtx.zero flashImages
    let plainly := fsmInit (plain twoSlotFlash.asPlain) twoSlots .success FsmCtx.zero
      (twoSlotFlash.view flashImages)
    (replies (paged twoSlotFlash) mirrorCrypto twoSlots flashBoard.board.cfg.safestore
        (thirdOnFlash.calls zeroNonce) begun.2.1 begun.2.2).1 =
      (replies (plain twoSlotFlash.asPlain) mirrorCrypto twoSlots flashBoard.board.cfg.safestore
        (thirdOnFlash.calls zeroNonce) plainly.2.1 plainly.2.2).1 :=
  (@flash_answers twoSlotFlash mirrorCrypto twoSlots flashBoard.board.cfg.safestore
    flashBoard.board.slotsHold .success (thirdOnFlash.calls zeroNonce) FsmCtx.zero flashImages _
    (sees_view twoSlotFlash flashImages)
    (@release_runFits flashBoard.board mirrorCrypto thirdOnFlash zeroNonce _
      (by rw [flashRelease_versions.1]; exact flashImages_older)
      (flashReleases_suit _ List.mem_cons_self).fits
      FsmCtx.zero)).2.1

end Upkit
