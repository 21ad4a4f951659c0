/-
**A device follows its releases.**

A device of which every slot holds an image that passes: it takes a release in, reboots into it, and
is again such a device, so this goes on for as long as there are releases.

* `Intact` — every slot passes, and the first boot is over.
* `release_delivered` — a release that is newer than every slot is taken in, and leaves the device
  intact with that release as its newest image.
* `intact_loads` — an intact device loads its newest image, from a bootable slot, and stays intact.
* `TakenIn.boots` — a reset once a release has been taken in.
* `releases_followed` — any number of releases, each newer than the one before.
-/

import Upkit.Agents.Lifetime
import Upkit.Network.BoundedDelivery

namespace Upkit

open Bytes

section Generations

variable {board : Board} {crypto : Crypto}

/-- A device that nothing is wrong with: every slot passes, and what it holds is a whole image. -/
structure Intact (board : Board) (crypto : Crypto) (memory : Contents) : Prop where
  verified : ∀ id, board.IsSlot id → board.verdictOn crypto id memory = .success
  whole : ∀ id, board.IsSlot id → (manifestAt memory id).Whole board.cfg.bufferSize
  cleared : firstBoot (bootloaderCtx board.cfg memory) = false

theorem Intact.signedWhole {memory : Contents} (intact : Intact board crypto memory) :
    SignedWhole board crypto memory :=
  fun id isSlot _ => intact.whole id isSlot

theorem Intact.bootstrapped_eq {memory : Contents} (intact : Intact board crypto memory) :
    bootstrapped board.table board.cfg memory = memory :=
  if_neg (by rw [intact.cleared]; decide)

/-! ### A reset -/

/-- Two intact slots that change places stay intact. -/
theorem Intact.traded {memory after : Contents} {id1 id2 : MemId}
    (intact : Intact board crypto memory) (isSlot1 : board.IsSlot id1) (isSlot2 : board.IsSlot id2)
    (traded : Traded board.layout.limit memory after id1 id2 board.cfg.swapId
      (swapLength memory id1 id2)) : Intact board crypto after := by
  have passes1 := intact.verified id1 isSlot1
  have passes2 := intact.verified id2 isSlot2
  have covers : sizeofManifest ≤ swapLength memory id1 id2 :=
    le_trans (isSlot1.extent intact.signedWhole passes1).2 (le_max_left _ _)
  have kept : SlotsKept board memory after := SlotsKept.of_traded isSlot1 isSlot2 traded covers
  refine ⟨fun id isSlot => ?_, fun id isSlot => ?_, ?_⟩
  · by_cases same1 : id = id1
    · subst same1
      exact isSlot.taken intact.signedWhole isSlot2 passes2 (le_max_right _ _) fun address inside =>
        (traded.exchanged address inside).1
    · by_cases same2 : id = id2
      · subst same2
        exact isSlot.taken intact.signedWhole isSlot1 passes1 (le_max_left _ _) fun address inside =>
          (traded.exchanged address inside).2
      · refine isSlot.taken intact.signedWhole isSlot (intact.verified id isSlot)
          (isSlot.inside intact.signedWhole (intact.verified id isSlot)) fun address inside => ?_
        exact traded.others id same1 same2 isSlot.ne_swap.symm address
          (by rw [isSlot.limit]; exact inside)
  · obtain ⟨other, otherIs, same⟩ := kept.back id isSlot
    rw [same]
    exact intact.whole other otherIs
  · rw [kept.ctx]
    exact intact.cleared

/-- What a reset of an intact memory loads, and what it leaves: the newest bootable image where it
lies, or the newest one, which has changed places with the oldest bootable one. -/
inductive Loads (board : Board) (memory after : Contents) : MemId → Prop
  | inPlace :
      (newestSlot board.table memory).version ≤ (newestBootable board.table memory).version →
      after = memory → Loads board memory after (newestBootable board.table memory).id
  | upgraded :
      (newestBootable board.table memory).version < (newestSlot board.table memory).version →
      Traded board.layout.limit memory after (newestSlot board.table memory).id
        (oldestBootable board.table memory).id board.cfg.swapId
        (swapLength memory (newestSlot board.table memory).id
          (oldestBootable board.table memory).id) →
      Loads board memory after (oldestBootable board.table memory).id

/-- **What is loaded from an intact memory** is its newest image, in a bootable slot, and the memory
stays intact. -/
theorem Loads.newest (boots : ∀ slot ∈ board.table.slots.head?, slot.bootable = true)
    {memory after : Contents} {id : MemId} (intact : Intact board crypto memory)
    (loads : Loads board memory after id) :
    Intact board crypto after ∧ (∃ slot ∈ board.table.slots, slot.id = id ∧ slot.bootable = true) ∧
      ∃ newest, board.IsSlot newest ∧
        (∀ slot ∈ board.table.slots, versionAt memory slot.id ≤ versionAt memory newest) ∧
        versionAt after id = versionAt memory newest ∧
        (∀ slot ∈ board.table.slots, versionAt after slot.id ≤ versionAt after id) ∧
        imageAt after id = imageAt memory newest := by
  obtain ⟨newestIs, newestVersion⟩ := board.newestSlot_isSlot memory
  obtain ⟨bestIs, bestVersion⟩ := board.newestBootable_isSlot memory
  have oldestIs := board.oldestBootable_isSlot memory
  have maximal : ∀ slot ∈ board.table.slots,
      versionAt memory slot.id ≤ (newestSlot board.table memory).version := newestSlot_max memory
  cases loads with
  | inPlace old same =>
      subst same
      obtain ⟨best, member, bootable, found⟩ := selectSlot_bootable true (versionAt after) boots
      have isBest : (newestBootable board.table after).id = best.id := by
        rw [newestBootable, found]
        rfl
      have highest : ∀ slot ∈ board.table.slots,
          versionAt after slot.id ≤ versionAt after (newestBootable board.table after).id := by
        intro slot inTable
        rw [← bestVersion]
        exact le_trans (maximal slot inTable) old
      exact ⟨intact, ⟨best, member, isBest.symm, bootable⟩,
        (newestBootable board.table after).id, bestIs, highest, rfl, highest, rfl⟩
  | upgraded newer traded =>
      obtain ⟨oldest, member, bootable, found⟩ :=
        selectSlot_bootable false (versionAt memory) boots
      have isOldest : (oldestBootable board.table memory).id = oldest.id := by
        rw [oldestBootable, found]
        rfl
      have covers : sizeofManifest ≤ swapLength memory (newestSlot board.table memory).id
          (oldestBootable board.table memory).id :=
        le_trans (newestIs.extent intact.signedWhole (intact.verified _ newestIs)).2
          (le_max_left _ _)
      have manifest := (traded.exchanged.manifestAt covers).2
      have version : versionAt after (oldestBootable board.table memory).id =
          versionAt memory (newestSlot board.table memory).id :=
        congrArg Manifest.getVersion manifest
      refine ⟨intact.traded newestIs oldestIs traded,
        ⟨oldest, member, isOldest.symm, bootable⟩, (newestSlot board.table memory).id, newestIs,
        fun slot inTable => ?_, version, fun slot inTable => ?_, ?_⟩
      · rw [← newestVersion]
        exact maximal slot inTable
      · obtain ⟨other, ⟨source, inTable', isOther⟩, same⟩ :=
          (SlotsKept.of_traded newestIs oldestIs traded covers).back slot.id ⟨slot, inTable, rfl⟩
        calc versionAt after slot.id = versionAt memory source.id := by
              rw [isOther]
              exact congrArg Manifest.getVersion same
          _ ≤ versionAt memory (newestSlot board.table memory).id := by
              rw [← newestVersion]
              exact maximal source inTable'
          _ = versionAt after (oldestBootable board.table memory).id := version.symm
      · rw [imageAt, imageAt, manifest]
        refine readRange_congr _ fun address _ inside => (traded.exchanged address ?_).2
        exact lt_of_lt_of_le inside (by rw [Nat.zero_add]; exact le_max_left _ _)

/-- **A reset of an intact device** loads its newest image. -/
theorem intact_loads {memory : Contents} (intact : Intact board crypto memory) :
    ∃ id after, contiki (bootloaderCoroutine (plain board.layout) crypto board.table board.cfg
        memory) = .loads id after ∧ Loads board memory after id := by
  have boot := contiki_boot board crypto memory
  rw [intact.bootstrapped_eq] at boot
  obtain ⟨newestIs, -⟩ := board.newestSlot_isSlot memory
  obtain ⟨bestIs, -⟩ := board.newestBootable_isSlot memory
  have oldestIs := board.oldestBootable_isSlot memory
  generalize contiki (bootloaderCoroutine (plain board.layout) crypto board.table board.cfg memory) =
    ended at boot
  cases boot with
  | inPlace old passes => exact ⟨_, memory, rfl, .inPlace old rfl⟩
  | invalid _ fails => exact absurd (intact.verified _ bestIs) fails
  | refused _ fails => exact absurd (intact.verified _ newestIs) fails
  | upgraded after newer passes fits walked =>
      exact ⟨_, after, rfl, .upgraded newer (walked.traded _)⟩
  | cut after newer passes long _ =>
      have first := newestIs.inside intact.signedWhole passes
      have second := oldestIs.inside intact.signedWhole (intact.verified _ oldestIs)
      exact absurd long (not_lt.mpr (max_le first second))

/-! ### A release -/

/-- A release that a board can take: it fits in a slot, and its firmware is no shorter than the
buffer of the bootloader. -/
structure Release.Suits {sf : Safestore} (release : Release crypto sf) (board : Board) : Prop where
  fits : release.stream.length ≤ board.length
  fills : board.cfg.bufferSize ≤ release.manifest.getSize

/-- Its manifest is that of a whole image. -/
theorem Release.Suits.whole {sf : Safestore} {release : Release crypto sf}
    (suits : release.Suits board) : release.manifest.Whole board.cfg.bufferSize := by
  have small := board.length_lt
  have fits := suits.fits
  have fills : fsmBufferSize ≤ release.manifest.getSize := release.fills
  have inside : release.manifest.getOffset + release.manifest.getSize ≤ release.stream.length :=
    release.inside
  unfold fsmBufferSize at fills
  refine ⟨?_, by omega, suits.fills⟩
  rw [sizeofManifest]
  omega

/-- A release that is stored leaves a device intact. -/
theorem Intact.stored {memory : Contents} (intact : Intact board crypto memory) {id : MemId}
    (isSlot : board.IsSlot id) (release : Release crypto board.cfg.safestore)
    (suits : release.Suits board) :
    Intact board crypto (storedIn board.layout id release.stream memory) := by
  have buffered := board.buffered
  have small := board.length_lt
  have fits := suits.fits
  have fills := suits.fills
  have inside : release.manifest.getOffset + release.manifest.getSize ≤ release.stream.length :=
    release.inside
  have elsewhere : ∀ other, other ≠ id →
      storedIn board.layout id release.stream memory other = memory other := by
    intro other apart
    rw [storedIn, Function.update_of_ne apart]
  refine ⟨fun other otherIs => ?_, fun other otherIs => ?_, ?_⟩
  · by_cases same : other = id
    · subst same
      exact release.passes (by rw [isSlot.limit]; exact fits) (by omega) fills
        (by rw [isSlot.limit]; omega) _
    · exact otherIs.taken intact.signedWhole otherIs (intact.verified other otherIs) le_rfl
        fun address _ => congrFun (elsewhere other same) address
  · by_cases same : other = id
    · subst same
      rw [release.manifestAt_stored]
      exact suits.whole
    · rw [manifestAt, elsewhere other same]
      exact intact.whole other otherIs
  · rw [bootloaderCtx, storedIn, Function.update_of_ne isSlot.ne_ctx]
    exact intact.cleared

/-- The call that announces a version. -/
def announceCall (version : Nat) (nonce : Nonce) : FsmInput :=
  ⟨⟨toLE 2 version, by rw [toLE_length]; decide⟩, .ok nonce⟩

/-- The call with a message to be filled in. -/
def requestCall (nonce : Nonce) : FsmInput :=
  ⟨⟨List.replicate sizeofReceiverMsg 0, by rw [List.length_replicate]; decide⟩, .ok nonce⟩

/-- The calls that announce and bring a release. -/
def Release.calls {sf : Safestore} (release : Release crypto sf) (nonce : Nonce) : List FsmInput :=
  announceCall release.version nonce :: requestCall nonce :: release.inputs

/-- The image of a release: as many of its bytes as its manifest says. -/
def Release.image {sf : Safestore} (release : Release crypto sf) : List UInt8 :=
  release.stream.take (release.manifest.getOffset + release.manifest.getSize)

/-- The slot that is written next is as long as the others. -/
theorem Board.limit_oldestSlot (board : Board) (memory : Contents) :
    board.layout.limit (oldestSlot board.table memory).id = board.length := by
  obtain ⟨oldest, member, isOldest⟩ := oldestSlot_mem board.table memory
  rw [← isOldest]
  exact board.limit_eq oldest member

/-- The scan of `fsm_init` on a board. -/
theorem getNewestFirmware_board (board : Board) (id : MemId) (version : Nat) (memory : Contents) :
    getNewestFirmware (plain board.layout) board.table true id version memory =
      (.success, newestBootable board.table memory, memory) := by
  rw [getNewestFirmware, getOrderedFirmware_plain board.layout memory board.table _ _ _ _
    board.manifests, selectSlot_table_congr _ _ _ board.table id 0 version 0]
  rfl

/-- **`fsm_init` on a board**: it waits, with the version of the newest bootable slot. -/
theorem fsmInit_board (board : Board) (ctx : FsmCtx) (memory : Contents) :
    (fsmInit (plain board.layout) board.table .success ctx memory).2.1.state = .idle ∧
      (fsmInit (plain board.layout) board.table .success ctx memory).2.1.processed = 0 ∧
      (fsmInit (plain board.layout) board.table .success ctx memory).2.1.version =
        versionAt memory (newestBootable board.table memory).id ∧
      (fsmInit (plain board.layout) board.table .success ctx memory).2.2 = memory := by
  obtain ⟨state, processed⟩ := fsmInit_state (plain board.layout) board.table .success ctx memory
  obtain ⟨_, version, kept⟩ := fsmInit_found (plain board.layout) board.table .success ctx memory
  rw [getNewestFirmware_board] at version kept
  exact ⟨state, processed, version.trans (board.newestBootable_isSlot memory).2, kept⟩

theorem fsmInit_board_success (board : Board) (ctx : FsmCtx) (memory : Contents) :
    (fsmInit (plain board.layout) board.table .success ctx memory).1 = .success := by
  simp only [fsmInit, getNewestFirmware_board, ne_eq, not_true_eq_false, if_false]

/-- **Announcing a release** that is newer than every slot begins a session. -/
theorem release_begun (release : Release crypto board.cfg.safestore) (nonce : Nonce)
    {memory : Contents}
    (newer : ∀ slot ∈ board.table.slots, versionAt memory slot.id < release.version)
    (ctx : FsmCtx) :
    let begun := (fsmInit (plain board.layout) board.table .success ctx memory).2.1
    let told := { begun with state := .startUpdate }
    fsm (plain board.layout) crypto board.table board.cfg.safestore
        (announceCall release.version nonce) begun memory =
      ⟨.success, toLE 2 release.version, told, memory⟩ ∧
      fsm (plain board.layout) crypto board.table board.cfg.safestore (requestCall nonce) told
          memory =
        ⟨.success, fillReceiverMsg (requestCall nonce).buf.data board.cfg.safestore.udid
          begun.version nonce, told.begun nonce, memory⟩ ∧
      Collecting (told.begun nonce) [] ∧ begun.version < release.version := by
  intro begun told
  obtain ⟨state, processed, version, _⟩ := fsmInit_board board ctx memory
  obtain ⟨⟨best, member, isBest⟩, _⟩ := board.newestBootable_isSlot memory
  have older : begun.version < release.version := by
    show (fsmInit (plain board.layout) board.table .success ctx memory).2.1.version < _
    rw [version, ← isBest]
    exact newer best member
  have bound : release.version < 256 ^ 2 := release.manifest.getVersion_lt
  have parsed : ofLE (announceCall release.version nonce).buf.data = release.version :=
    ofLE_toLE bound
  exact ⟨fsm_idle_newer (plain board.layout) crypto board.table board.cfg.safestore memory state
      (toLE_length 2 release.version) (by rw [parsed]; exact older),
    @fsm_startUpdate_begun _ (plain board.layout) crypto board.table board.cfg.safestore
      (requestCall nonce) told nonce memory rfl (le_of_eq (List.length_replicate).symm) rfl,
    ⟨rfl, processed, by decide, rfl⟩, older⟩

/-- **A release that is newer than every slot** is taken in from `fsm_init` on. -/
theorem release_delivered (release : Release crypto board.cfg.safestore) (nonce : Nonce)
    {memory : Contents}
    (newer : ∀ slot ∈ board.table.slots, versionAt memory slot.id < release.version)
    (fits : release.stream.length ≤ board.length) (ctx : FsmCtx) :
    ∃ ctx', deliver (plain board.layout) crypto board.table board.cfg.safestore
        (release.calls nonce) (fsmInit (plain board.layout) board.table .success ctx memory).2.1
        (fsmInit (plain board.layout) board.table .success ctx memory).2.2 =
          some (ctx', storedIn board.layout (oldestSlot board.table memory).id release.stream
            memory) ∧ ctx'.state = .reboot := by
  have small := board.length_lt
  obtain ⟨_, _, _, kept⟩ := fsmInit_board board ctx memory
  obtain ⟨announced, asked, session, older⟩ := release_begun release nonce newer ctx
  have limit := board.limit_oldestSlot memory
  obtain ⟨ctx', delivered, reboot, _⟩ := release.deliver_release session older board.manifests
    (by rw [limit]; exact fits) (by rw [limit]; unfold fsmBufferSize; omega)
  rw [kept, Release.calls, deliver, announced]
  refine ⟨ctx', ?_, reboot⟩
  rw [if_neg (not_not.mpr rfl), deliver, asked]
  exact delivered

/-! ### Loading a release -/

/-- A memory that holds a release in place of the oldest image of another one. What lies behind the
end of an object does not matter. -/
def TakenIn (board : Board) (release : Release crypto board.cfg.safestore)
    (memory stored : Contents) : Prop :=
  ∀ id, ∀ address < board.layout.limit id, stored id address =
    storedIn board.layout (oldestSlot board.table memory).id release.stream memory id address

/-- The memory is intact, if the other one would be. -/
theorem TakenIn.intact {release : Release crypto board.cfg.safestore} {memory stored : Contents}
    (taken : TakenIn board release memory stored)
    (wholly : Intact board crypto (storedIn board.layout (oldestSlot board.table memory).id
      release.stream memory)) : Intact board crypto stored := by
  have manifest_le := board.manifest_le
  refine ⟨fun id isSlot => ?_, fun id isSlot => ?_, ?_⟩
  · exact isSlot.taken wholly.signedWhole isSlot (wholly.verified id isSlot)
      (isSlot.inside wholly.signedWhole (wholly.verified id isSlot))
      fun address inside => taken id address (by rw [isSlot.limit]; exact inside)
  · rw [@manifestAt_congr _ _ id id fun address inside =>
      taken id address (by rw [isSlot.limit]; omega)]
    exact wholly.whole id isSlot
  · have ctxFits := board.ctxFits
    rw [show bootloaderCtx board.cfg stored = bootloaderCtx board.cfg _ from
      readRange_congr _ fun address _ inside => taken _ address (by omega)]
    exact wholly.cleared

/-- **What is loaded once a release has been taken in** is the release, if it is newer than every
slot was. -/
theorem TakenIn.loaded (boots : ∀ slot ∈ board.table.slots.head?, slot.bootable = true)
    {release : Release crypto board.cfg.safestore} {memory stored after : Contents} {id : MemId}
    (taken : TakenIn board release memory stored) (intact : Intact board crypto memory)
    (newer : ∀ slot ∈ board.table.slots, versionAt memory slot.id < release.version)
    (suits : release.Suits board) (loads : Loads board stored after id) :
    Intact board crypto after ∧ versionAt after id = release.version ∧
      ∃ slot ∈ board.table.slots, slot.id = id ∧ slot.bootable = true ∧
        imageAt after id = release.image ∧
        ∀ other ∈ board.table.slots, versionAt after other.id ≤ release.version := by
  obtain ⟨oldest, oldestMember, isOldest⟩ := oldestSlot_mem board.table memory
  have oldestIs : board.IsSlot (oldestSlot board.table memory).id := ⟨oldest, oldestMember, isOldest⟩
  have whollyStored := intact.stored oldestIs release suits
  have manifest_le := board.manifest_le
  have manifests : ∀ id, board.IsSlot id → manifestAt stored id = manifestAt
      (storedIn board.layout (oldestSlot board.table memory).id release.stream memory) id :=
    fun id isSlot => manifestAt_congr fun address inside =>
      taken id address (by rw [isSlot.limit]; omega)
  obtain ⟨intact', ⟨slot, member, isSlot, bootable⟩, newest, newestIs, highest, version, maximal,
    image⟩ := loads.newest boots (taken.intact whollyStored)
  have manifest : manifestAt stored (oldestSlot board.table memory).id = release.manifest :=
    (manifests _ oldestIs).trans release.manifestAt_stored
  have held : versionAt stored (oldestSlot board.table memory).id = release.version :=
    congrArg Manifest.getVersion manifest
  -- Every other slot is older, so the newest image is the release.
  have isRelease : newest = (oldestSlot board.table memory).id := by
    by_contra other
    have above := highest oldest oldestMember
    obtain ⟨source, inTable, isSource⟩ := newestIs
    have older := newer source inTable
    have kept : versionAt stored newest = versionAt memory newest := by
      rw [versionAt, manifests newest ⟨source, inTable, isSource⟩, manifestAt, storedIn,
        Function.update_of_ne other]
      rfl
    rw [isOldest, held, kept, ← isSource] at above
    exact absurd older (not_lt.mpr above)
  rw [isRelease] at version image
  rw [held] at version
  rw [version] at maximal
  refine ⟨intact', version, slot, member, isSlot, bootable, image.trans ?_, maximal⟩
  have inside : release.manifest.getOffset + release.manifest.getSize ≤ release.stream.length :=
    release.inside
  have small := board.length_lt
  have fits := suits.fits
  have extent : release.manifest.extent =
      release.manifest.getOffset + release.manifest.getSize := by
    rw [Manifest.extent, Nat.add_comm, Nat.mod_eq_of_lt (by omega)]
  have bytes : readRange (stored (oldestSlot board.table memory).id) 0
      (release.manifest.getOffset + release.manifest.getSize) =
        readRange (storedIn board.layout (oldestSlot board.table memory).id release.stream memory
          (oldestSlot board.table memory).id) 0
            (release.manifest.getOffset + release.manifest.getSize) :=
    readRange_congr _ fun address _ below => taken _ address (by rw [oldestIs.limit]; omega)
  rw [imageAt, manifest, extent, bytes, storedIn, Function.update_self,
    readRange_writeRange_inside _ (by rw [Nat.zero_add]; exact inside)]
  rfl

/-- **A reset once a release has been taken in** loads it, and leaves the device intact. -/
theorem TakenIn.boots (boots : ∀ slot ∈ board.table.slots.head?, slot.bootable = true)
    {release : Release crypto board.cfg.safestore} {memory stored : Contents}
    (taken : TakenIn board release memory stored) (intact : Intact board crypto memory)
    (newer : ∀ slot ∈ board.table.slots, versionAt memory slot.id < release.version)
    (suits : release.Suits board) :
    ∃ slot ∈ board.table.slots, ∃ after, contiki (bootloaderCoroutine (plain board.layout) crypto
        board.table board.cfg stored) = .loads slot.id after ∧
      Intact board crypto after ∧ versionAt after slot.id = release.version ∧
      slot.bootable = true ∧ imageAt after slot.id = release.image ∧
      ∀ other ∈ board.table.slots, versionAt after other.id ≤ release.version := by
  obtain ⟨oldest, member, isOldest⟩ := oldestSlot_mem board.table memory
  have ready := taken.intact (intact.stored ⟨oldest, member, isOldest⟩ release suits)
  obtain ⟨id, after, ends, loads⟩ := intact_loads ready
  obtain ⟨intact', version, slot, inTable, rfl, bootable, image, maximal⟩ :=
    taken.loaded boots intact newer suits loads
  exact ⟨slot, inTable, after, ends, intact', version, bootable, image, maximal⟩

/-! ### Release after release -/

/-- A device takes a release: its state machine starts, the calls are made, and the machine that asks
for a reboot gets it. -/
def Device.take (board : Board) (nonce : Nonce) (release : Release crypto board.cfg.safestore)
    (device : Device) : Option Device :=
  let begun := fsmInit (plain board.layout) board.table .success FsmCtx.zero device.memory
  match deliver (plain board.layout) crypto board.table board.cfg.safestore (release.calls nonce)
    begun.2.1 begun.2.2 with
  | none => none
  | some (ctx, memory) =>
      if ctx.state ≠ .reboot then none
      else
        match contiki (bootloaderCoroutine (plain board.layout) crypto board.table board.cfg
          memory) with
        | .loads id after => some ⟨after, some FsmCtx.zero, versionAt after id :: device.booted⟩
        | _ => none

/-- Release after release, each with a nonce of its own. -/
def Device.follow (board : Board) : List (Nonce × Release crypto board.cfg.safestore) → Device →
    Option Device
  | [], device => some device
  | (nonce, release) :: rest, device => (device.take board nonce release).bind (follow board rest)

/-- A delivery is a part of a life. -/
theorem deliver_steps {sf : Safestore} {inputs : List FsmInput} {device : Device} {ctx ctx' : FsmCtx}
    {memory' : Contents} (running : device.app = some ctx)
    (delivered : deliver (plain board.layout) crypto board.table sf inputs ctx device.memory =
      some (ctx', memory')) :
    Relation.ReflTransGen (Device.Step board crypto sf) device
      ⟨memory', some ctx', device.booted⟩ := by
  induction inputs generalizing device ctx with
  | nil =>
      obtain ⟨memory, app, booted⟩ := device
      obtain ⟨rfl, rfl⟩ := Prod.mk.inj (Option.some.inj delivered)
      rw [show app = some ctx from running]
  | cons input rest ih =>
      rw [deliver] at delivered
      split at delivered
      · cases delivered
      · exact .head (.calls input running) (ih rfl delivered)

/-- **Taking a release is a part of a life.** -/
theorem take_steps {nonce : Nonce} {release : Release crypto board.cfg.safestore}
    {device device' : Device} (running : device.app = some FsmCtx.zero)
    (intact : Intact board crypto device.memory)
    (newer : ∀ slot ∈ board.table.slots, versionAt device.memory slot.id < release.version)
    (suits : release.Suits board) (taken : device.take board nonce release = some device') :
    Relation.ReflTransGen (Device.Step board crypto board.cfg.safestore) device device' ∧
      device'.app = some FsmCtx.zero := by
  obtain ⟨ctx', stores, _⟩ := release_delivered release nonce newer suits.fits FsmCtx.zero
  obtain ⟨oldest, member, isOldest⟩ := oldestSlot_mem board.table device.memory
  have ready : Intact board crypto (storedIn board.layout (oldestSlot board.table device.memory).id
      release.stream device.memory) := intact.stored ⟨oldest, member, isOldest⟩ release suits
  unfold Device.take at taken
  simp only at taken
  split at taken
  · cases taken
  · rename_i ctx memory delivered
    obtain ⟨-, isStored⟩ := Prod.mk.inj (Option.some.inj (delivered.symm.trans stores))
    have whole : SignedWhole board crypto (bootstrapped board.table board.cfg memory) := by
      rw [isStored, ready.bootstrapped_eq]
      exact ready.signedWhole
    have called := @deliver_steps board crypto board.cfg.safestore (release.calls nonce)
      ⟨(fsmInit (plain board.layout) board.table .success FsmCtx.zero device.memory).2.2,
        some (fsmInit (plain board.layout) board.table .success FsmCtx.zero device.memory).2.1,
        device.booted⟩ _ ctx memory rfl delivered
    split at taken
    · cases taken
    · split at taken
      · rename_i id after loads
        rw [← Option.some.inj taken]
        exact ⟨.tail (.head (.inits .success running) called) (.loads whole loads), rfl⟩
      · cases taken

/-- The image that was loaded last. -/
def Device.Runs (board : Board) (device : Device) (release : Release crypto board.cfg.safestore) :
    Prop :=
  ∃ slot ∈ board.table.slots, slot.bootable = true ∧
    imageAt device.memory slot.id = release.image ∧ device.booted.head? = some release.version ∧
    ∀ other ∈ board.table.slots, versionAt device.memory other.id ≤ release.version

/-- **One release**: an intact device takes it, loads it and is intact again. -/
theorem take_release (boots : ∀ slot ∈ board.table.slots.head?, slot.bootable = true)
    (nonce : Nonce) (release : Release crypto board.cfg.safestore) {device : Device}
    (intact : Intact board crypto device.memory)
    (newer : ∀ slot ∈ board.table.slots, versionAt device.memory slot.id < release.version)
    (suits : release.Suits board) :
    ∃ device', device.take board nonce release = some device' ∧
      Intact board crypto device'.memory ∧ device'.booted = release.version :: device.booted ∧
      device'.Runs board release := by
  obtain ⟨ctx', delivered, reboot⟩ := release_delivered release nonce newer suits.fits FsmCtx.zero
  obtain ⟨slot, member, after, ends, intact', version, bootable, image, maximal⟩ :=
    TakenIn.boots boots (fun _ _ _ => rfl) intact newer suits
  have taken : device.take board nonce release =
      some ⟨after, some FsmCtx.zero, versionAt after slot.id :: device.booted⟩ := by
    unfold Device.take
    simp only [delivered, reboot, ne_eq, not_true_eq_false, if_false, ends]
  rw [version] at taken
  exact ⟨_, taken, intact', rfl, slot, member, bootable, image, rfl, maximal⟩

/-- **Any number of releases**, each newer than the one before: the device takes every one of them,
ends with the last one loaded, and has loaded all of them in this order. -/
theorem releases_followed (boots : ∀ slot ∈ board.table.slots.head?, slot.bootable = true)
    (releases : List (Nonce × Release crypto board.cfg.safestore)) {device : Device}
    (running : device.app = some FsmCtx.zero) (intact : Intact board crypto device.memory)
    (newer : ∀ release ∈ releases, ∀ slot ∈ board.table.slots,
      versionAt device.memory slot.id < release.2.version)
    (ascending : releases.Pairwise fun earlier later => earlier.2.version < later.2.version)
    (suits : ∀ release ∈ releases, release.2.Suits board) :
    ∃ device', device.follow board releases = some device' ∧
      Relation.ReflTransGen (Device.Step board crypto board.cfg.safestore) device device' ∧
      Intact board crypto device'.memory ∧
      device'.booted = (releases.map fun release => release.2.version).reverse ++ device.booted ∧
      ∀ release ∈ releases.getLast?, device'.Runs board release.2 := by
  induction releases generalizing device with
  | nil => exact ⟨device, rfl, .refl, intact, rfl, fun release none => by cases none⟩
  | cons first rest ih =>
      obtain ⟨nonce, release⟩ := first
      obtain ⟨above, ascending⟩ := List.pairwise_cons.mp ascending
      obtain ⟨device', taken, intact', booted, runs⟩ := take_release boots nonce release intact
        (newer _ List.mem_cons_self) (suits _ List.mem_cons_self)
      obtain ⟨steps, running'⟩ := take_steps running intact (newer _ List.mem_cons_self)
        (suits _ List.mem_cons_self) taken
      obtain ⟨_, _, _, _, _, below⟩ := id runs
      obtain ⟨device'', followed, steps', intact'', booted', last⟩ := ih running' intact'
        (fun later member slot inTable =>
          lt_of_le_of_lt (below slot inTable) (above later member)) ascending
        (fun later member => suits later (List.mem_cons_of_mem _ member))
      refine ⟨device'', ?_, steps.trans steps', intact'', ?_, fun final isLast => ?_⟩
      · rw [Device.follow, taken]
        exact followed
      · rw [booted', booted, List.map_cons, List.reverse_cons, List.append_assoc]
        rfl
      · cases rest with
        | nil =>
            rw [show device' = device'' from Option.some.inj followed] at runs
            rw [← Option.some.inj isLast]
            exact runs
        | cons next rest => exact last final isLast

end Generations

theorem ownManifest_short (version : UInt8) :
    ((List.range 256).map (ownImage version)).length < 2 ^ 31 := by
  rw [List.length_map, List.length_range]
  decide

theorem zeroFirmware_short : zeroFirmware.length < 2 ^ 31 := by
  rw [zeroFirmware, List.length_replicate]
  decide

/-- A signed update in two calls: its manifest, and `1024` zeros. -/
def ownCalls (version : UInt8) : List FsmInput :=
  [callWith ((List.range 256).map (ownImage version)) (ownManifest_short version),
    callWith zeroFirmware zeroFirmware_short]

/-- Version `3`. -/
def thirdRelease : Release mirrorCrypto ownBoard.cfg.safestore where
  inputs := ownCalls 3
  nonempty := by decide +kernel
  begins := by decide +kernel
  full := by decide +kernel
  signed := by decide +kernel
  announced := by decide +kernel
  inside := by decide +kernel
  fills := by decide +kernel
  digest := by decide +kernel

/-- Version `4`. -/
def fourthRelease : Release mirrorCrypto ownBoard.cfg.safestore where
  inputs := ownCalls 4
  nonempty := by decide +kernel
  begins := by decide +kernel
  full := by decide +kernel
  signed := by decide +kernel
  announced := by decide +kernel
  inside := by decide +kernel
  fills := by decide +kernel
  digest := by decide +kernel

/-- The slots of a board with two of them. -/
theorem Board.IsSlot.ofTwo {board : Board} (two : board.table = twoSlots) {id : MemId}
    (isSlot : board.IsSlot id) : id = 1 ∨ id = 2 := by
  obtain ⟨slot, member, rfl⟩ := isSlot
  rw [two] at member
  have ids : ∀ slot ∈ twoSlots.slots, slot.id = 1 ∨ slot.id = 2 := by decide
  exact ids slot member

theorem ownImages_intact : Intact ownBoard mirrorCrypto ownImages := by
  refine ⟨fun id isSlot => ownImages_verified id ?_, ownImages_whole, by decide +kernel⟩
  exact isSlot.ofTwo rfl

/-- The board takes version `3` and version `4`. -/
theorem ownBoard_follows :
    ∃ device', (Device.mk ownImages (some FsmCtx.zero) [2]).follow ownBoard
        [(zeroNonce, thirdRelease), (zeroNonce, fourthRelease)] = some device' ∧
      device'.booted = [4, 3, 2] ∧ device'.Runs ownBoard fourthRelease := by
  have third : thirdRelease.version = 3 := by decide +kernel
  have fourth : fourthRelease.version = 4 := by decide +kernel
  have versions : ∀ slot ∈ ownBoard.table.slots, versionAt ownImages slot.id < 3 := by
    decide +kernel
  obtain ⟨device', followed, _, _, booted, last⟩ := @releases_followed ownBoard mirrorCrypto
    (by decide) [(zeroNonce, thirdRelease), (zeroNonce, fourthRelease)]
    ⟨ownImages, some FsmCtx.zero, [2]⟩ rfl ownImages_intact
    (by
      intro release member slot inTable
      have older := versions slot inTable
      rcases List.mem_pair.mp member with rfl | rfl
      · exact lt_of_lt_of_eq older third.symm
      · exact lt_trans older (by rw [fourth]; decide))
    (by
      rw [List.pairwise_pair]
      show thirdRelease.version < fourthRelease.version
      rw [third, fourth]
      decide)
    (by
      intro release member
      rcases List.mem_pair.mp member with rfl | rfl
      · exact ⟨by decide +kernel, by decide +kernel⟩
      · exact ⟨by decide +kernel, by decide +kernel⟩)
  refine ⟨device', followed, ?_, last _ rfl⟩
  rw [booted]
  show [fourthRelease.version, thirdRelease.version, 2] = [4, 3, 2]
  rw [third, fourth]

end Upkit
