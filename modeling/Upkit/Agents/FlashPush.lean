/-
**Pushing a release onto flash.**

The handlers of `zephyr_ble.c` meet the memory of the device in the state machine only, so a client
cannot tell flash from plain memory.

* `gattStep_backed` — one operation leaves the machine it leaves on plain memory, and notifies the
  same.
* `gatt_refines` — any operations from `libpull_gatt_init` on.
* `flash_pushed` — a release that is pushed onto flash is loaded by the next reset, and the processor
  enters it.
-/

import Upkit.Agents.Loader
import Upkit.Agents.Push

namespace Upkit

open Bytes Pages

/-! ### What operations accept -/

section Fits

variable (crypto : Crypto) (table : SlotTable) (sf : Safestore) (layout : PlainLayout)

/-- If an operation completes a manifest that passes, its image fits in the slots, and so does what
the session has brought. -/
def GattOp.AcceptsFit (op : GattOp) (fsmc : FsmCtx) : Prop :=
  ∀ input, op.call fsmc.state = some input → Upkit.AcceptsFit crypto sf table layout input fsmc

/-- Operations that accept no manifest but those of images that fit in the slots, as they go on a
plain memory. -/
def GattFits : List GattOp → FsmCtx → Contents → Prop
  | [], _, _ => True
  | op :: ops, fsmc, memory => op.AcceptsFit crypto table sf layout fsmc ∧
      GattFits ops (gattStep (plain layout) crypto table sf op fsmc memory).1
        (gattStep (plain layout) crypto table sf op fsmc memory).2

variable {crypto table sf layout}

/-- Only a state machine that collects a manifest can complete one. -/
theorem GattOp.acceptsFit_of_state {fsmc : FsmCtx} (other : fsmc.state ≠ .receiveManifest)
    (op : GattOp) : op.AcceptsFit crypto table sf layout fsmc :=
  fun input _ => Upkit.acceptsFit_of_state input other

/-- **The rest of a push** of a release that fits. -/
theorem Release.Pushed.gattFits {release : Release crypto sf} {memory memory' : Contents}
    {handed : List UInt8} {told : List FsmState} {fsmc : FsmCtx}
    (pushed : release.Pushed layout table memory handed told fsmc memory')
    (hold : SlotsHold table layout)
    (fits : ∀ slot ∈ table.slots, release.stream.length ≤ layout.limit slot.id) {ops : List GattOp}
    (more : handed ++ gattImage ops <+: release.stream) (writable : ∀ op ∈ ops, op.Writable) :
    GattFits crypto table sf layout ops fsmc memory' := by
  induction ops generalizing handed told fsmc memory' with
  | nil => trivial
  | cons op ops ih =>
      rw [gattImage, List.flatMap_cons, ← List.append_assoc] at more
      have first : handed ++ op.image <+: release.stream := (List.prefix_append _ _).trans more
      obtain ⟨oldest, member, isOldest⟩ := oldestSlot_mem table memory
      have narrow := hold.narrow oldest member
      have oldestFits := fits oldest member
      rw [isOldest] at narrow oldestFits
      obtain ⟨_, pushed'⟩ := pushed.step hold.manifests oldestFits narrow first
        (writable op List.mem_cons_self)
      refine ⟨fun input called collects => ?_, ih pushed' more fun later among =>
        writable later (List.mem_cons_of_mem _ among)⟩
      rw [collects] at called
      cases op with
      | writeVersion given => cases called
      | readReceiverMsg given whole => cases called
      | writeImage given =>
          rw [← Option.some.inj called]
          exact pushed.downloaded.acceptsFit fits first collects

end Fits

/-! ### One operation and a whole run -/

section Runs

variable {σ : Type} {M : MemoryInterface σ} {layout : PlainLayout} {sees : σ → Contents → Prop}
  (backs : Backs M layout sees) {crypto : Crypto} {table : SlotTable} {sf : Safestore}
  (hold : SlotsHold table layout) {value : UInt8} (erases : layout.erased = some value)
  (notifyStateFlag : Bool)

include backs hold erases

/-- **An operation** on such a memory is the one on the plain memory. -/
theorem gattStep_backed {op : GattOp} {fsmc : FsmCtx} {space : σ} {contents : Contents}
    (accepts : op.AcceptsFit crypto table sf layout fsmc) (seen : sees space contents)
    (prepared : Prepared table layout fsmc contents) :
    let after := gattStep (plain layout) crypto table sf op fsmc contents
    ∃ space', gattStep M crypto table sf op fsmc space = (after.1, space') ∧ sees space' after.2 ∧
      Prepared table layout after.1 after.2 ∧
      gattNotified M crypto table sf notifyStateFlag op fsmc space =
        gattNotified (plain layout) crypto table sf notifyStateFlag op fsmc contents := by
  intro after
  simp only [after, gattStep_eq, gattNotified_eq]
  cases called : op.call fsmc.state with
  | none => exact ⟨space, rfl, seen, prepared, rfl⟩
  | some input =>
      obtain ⟨space', answered, seen', prepared'⟩ := fsm_backed backs hold erases input
        (accepts input called) seen prepared
      simp only [answered]
      exact ⟨space', rfl, seen', prepared', trivial⟩

/-- **Any operations** leave the same machine and notify the same states. -/
theorem gattRun_backed (ops : List GattOp) {fsmc : FsmCtx} {space : σ} {contents : Contents}
    (fits : GattFits crypto table sf layout ops fsmc contents) (seen : sees space contents)
    (prepared : Prepared table layout fsmc contents) :
    let after := gattRun (plain layout) crypto table sf ops fsmc contents
    ∃ space', gattRun M crypto table sf ops fsmc space = (after.1, space') ∧ sees space' after.2 ∧
      gattTold M crypto table sf notifyStateFlag ops fsmc space =
        gattTold (plain layout) crypto table sf notifyStateFlag ops fsmc contents := by
  induction ops generalizing fsmc space contents with
  | nil => exact ⟨space, rfl, seen, rfl⟩
  | cons op ops ih =>
      obtain ⟨between, stepped, seen, prepared, notified⟩ := gattStep_backed backs hold erases
        notifyStateFlag fits.1 seen prepared
      obtain ⟨space', runs, seen', told⟩ := ih fits.2 seen prepared
      refine ⟨space', ?_, seen', ?_⟩
      · rw [gattRun, stepped]
        exact runs
      · rw [gattTold, gattTold, notified, stepped, told]

end Runs

/-- **A client cannot tell flash from plain memory**: from `libpull_gatt_init` on, after any
operations that accept no manifest but those of images that fit in the slots, the machine is the same,
the same states have been notified, and the objects of the flash hold what they hold there. -/
theorem gatt_refines {layout : FlashLayout} {crypto : Crypto} {table : SlotTable} {sf : Safestore}
    (hold : SlotsHold table layout.asPlain) (rngInit : PullError) (registered : Int)
    (notifyStateFlag : Bool) (statics : FsmCtx) (ops : List GattOp) {space : Nat → UInt8}
    {contents : Contents} (seen : Sees layout space contents)
    (fits : GattFits crypto table sf layout.asPlain ops
      (libpullGattInit (plain layout.asPlain) table rngInit registered statics contents).2.1
      (libpullGattInit (plain layout.asPlain) table rngInit registered statics contents).2.2) :
    let begun := libpullGattInit (paged layout) table rngInit registered statics space
    let plainly := libpullGattInit (plain layout.asPlain) table rngInit registered statics contents
    let after := gattRun (paged layout) crypto table sf ops begun.2.1 begun.2.2
    let plainAfter := gattRun (plain layout.asPlain) crypto table sf ops plainly.2.1 plainly.2.2
    begun.1 = plainly.1 ∧ after.1 = plainAfter.1 ∧
      gattTold (paged layout) crypto table sf notifyStateFlag ops begun.2.1 begun.2.2 =
        gattTold (plain layout.asPlain) crypto table sf notifyStateFlag ops plainly.2.1
          plainly.2.2 ∧ Sees layout after.2 plainAfter.2 := by
  intro begun plainly after plainAfter
  obtain ⟨between, starts, seen, prepared⟩ :=
    fsmInit_backed (paged_backs layout) hold rngInit statics seen
  have begins : begun = (plainly.1, plainly.2.1, between) ∧
      plainly.2 = (fsmInit (plain layout.asPlain) table rngInit statics contents).2 := by
    simp only [begun, plainly, libpullGattInit, starts]
    split
    · exact ⟨rfl, rfl⟩
    · split
      · exact ⟨rfl, rfl⟩
      · exact ⟨rfl, rfl⟩
  obtain ⟨isBegun, same⟩ := begins
  rw [← same] at seen prepared
  obtain ⟨space', runs, seen', told⟩ := gattRun_backed (paged_backs layout) hold rfl
    notifyStateFlag ops fits seen prepared
  have isAfter : after = (plainAfter.1, space') := by
    simp only [after, isBegun]
    exact runs
  rw [isAfter, isBegun]
  exact ⟨rfl, rfl, told, seen'⟩

/-! ### From the client to the processor -/

namespace FlashBoard

variable {device : FlashBoard} {crypto : Crypto}

/-- A push of a release that is newer than every slot and fits in them. -/
theorem push_gattFits {board : Board} (release : Release crypto board.cfg.safestore) (nonce : Nonce)
    {memory : Contents}
    (newer : ∀ slot ∈ board.table.slots, versionAt memory slot.id < release.version)
    (fits : release.stream.length ≤ board.length) (statics : FsmCtx) {ops : List GattOp}
    (begins : gattImage ops <+: release.stream) (writable : ∀ op ∈ ops, op.Writable) :
    GattFits crypto board.table board.cfg.safestore board.layout (release.push nonce ops)
      (libpullGattInit (plain board.layout) board.table .success 0 statics memory).2.1
      (libpullGattInit (plain board.layout) board.table .success 0 statics memory).2.2 := by
  obtain ⟨idle, told, opened, downloaded⟩ := push_opens release nonce newer statics
  have within : ∀ slot ∈ board.table.slots, release.stream.length ≤ board.layout.limit slot.id :=
    fun slot member => le_trans fits (le_of_eq (board.limit_eq slot member).symm)
  have pushed : release.Pushed board.layout board.table memory [] (release.toldAt 0) _ memory :=
    ⟨downloaded, rfl⟩
  rw [libpullGattInit_board, Release.push, GattFits, GattFits, told, opened]
  exact ⟨GattOp.acceptsFit_of_state (by rw [idle]; decide) _,
    GattOp.acceptsFit_of_state FsmState.noConfusion _,
    pushed.gattFits board.slotsHold within begins writable⟩

/-- **A release that is pushed onto flash**: whatever a subscribed client does besides, an intact
device counts the bytes that have been written and notifies the states they lead to; once all of them
have been written, the reset loads the release from a bootable slot, the device is intact again, and
the processor enters the release through the two words its firmware begins with. -/
theorem flash_pushed (boots : ∀ slot ∈ device.board.table.slots.head?, slot.bootable = true)
    (release : Release crypto device.board.cfg.safestore) (nonce : Nonce) {space : Nat → UInt8}
    (intact : Intact device.board crypto (device.flash.view space))
    (newer : ∀ slot ∈ device.board.table.slots,
      versionAt (device.flash.view space) slot.id < release.version)
    (suits : release.Suits device.board) (statics : FsmCtx) {ops : List GattOp}
    (begins : gattImage ops <+: release.stream) (writable : ∀ op ∈ ops, op.Writable) :
    let begun := libpullGattInit (paged device.flash) device.board.table .success 0 statics space
    let after := gattRun (paged device.flash) crypto device.board.table device.board.cfg.safestore
      (release.push nonce ops) begun.2.1 begun.2.2
    begun.1 = .success ∧
      gattTold (paged device.flash) crypto device.board.table device.board.cfg.safestore true
        (release.push nonce ops) begun.2.1 begun.2.2 = release.toldAt (gattImage ops).length ∧
      (∀ msg : List UInt8, msg.length = sizeofReceiverMsg →
        ofLE (gattReadReceived msg after.1) = (gattImage ops).length) ∧
      (gattImage ops = release.stream →
        ∃ slot loaded jump, contiki (bootloaderCoroutine (paged device.flash) crypto
            device.board.table device.board.cfg after.2) = .loads slot.id loaded ∧
          device.Took release slot loaded ∧
          loadObject device.flash slot.id loaded = some jump ∧ device.Enters release jump) := by
  intro begun after
  have isPlain := device.layout_eq
  have ready := push_ready release nonce newer suits.fits statics begins writable
  have accepts := push_gattFits release nonce newer suits.fits statics begins writable
  have hold := device.board.slotsHold
  have succeeds := congrArg Prod.fst
    (libpullGattInit_board device.board statics (device.flash.view space))
  rw [isPlain] at hold accepts ready succeeds
  obtain ⟨inits, same, told, seen⟩ := gatt_refines hold .success 0 true statics
    (release.push nonce ops) (sees_view device.flash space) accepts
  refine ⟨inits.trans succeeds, told.trans ready.told, ?_, ?_⟩
  · intro msg length
    show ofLE (gattReadReceived msg after.1) = _
    rw [same]
    exact ready.received length (lt_of_le_of_lt suits.fits device.board.length_lt)
  · intro all
    have taken : TakenIn device.board release (device.flash.view space)
        (device.flash.view after.2) := by
      intro id address inside
      rw [device.limit_eq] at inside
      rw [isPlain]
      exact (seen id address inside).trans
        (congrFun (congrFun (ready.downloaded.stored all) id) address)
    obtain ⟨slot, loaded, ends, took⟩ := taken_loaded boots taken intact newer suits
    obtain ⟨jump, found, enters⟩ := took.enters
    exact ⟨slot, loaded, jump, ends, took, found, enters⟩

end FlashBoard

/-- The board with two slots of flash that has version `3` pushed onto it notifies four states, and
enters it. -/
theorem flashBoard_pushed :
    let begun := libpullGattInit (paged flashBoard.flash) flashBoard.board.table .success 0
      FsmCtx.zero flashImages
    let after := gattRun (paged flashBoard.flash) mirrorCrypto flashBoard.board.table
      flashBoard.board.cfg.safestore (thirdOnFlash.push zeroNonce ownPush) begun.2.1 begun.2.2
    gattTold (paged flashBoard.flash) mirrorCrypto flashBoard.board.table
        flashBoard.board.cfg.safestore true (thirdOnFlash.push zeroNonce ownPush) begun.2.1
          begun.2.2 = [.startUpdate, .receiveManifest, .receiveFirmware, .reboot] ∧
      ∃ (slot : MemSlot) (loaded : Nat → UInt8) (jump : Jump), contiki (bootloaderCoroutine
          (paged flashBoard.flash) mirrorCrypto flashBoard.board.table flashBoard.board.cfg
          after.2) = .loads slot.id loaded ∧
        loadObject flashBoard.flash slot.id loaded = some jump ∧
        flashBoard.Enters thirdOnFlash jump := by
  have image : gattImage ownPush = thirdOnFlash.stream := ownPush_image
  have older : ∀ slot ∈ flashBoard.board.table.slots,
      versionAt (flashBoard.flash.view flashImages) slot.id < thirdOnFlash.version :=
    flashReleases_newer _ List.mem_cons_self
  obtain ⟨_, told, _, installs⟩ := @FlashBoard.flash_pushed flashBoard mirrorCrypto
    (by rintro slot ⟨⟩; rfl) thirdOnFlash zeroNonce flashImages flashImages_intact older
    (flashReleases_suit _ List.mem_cons_self) FsmCtx.zero ownPush (by rw [image]) ownPush_writable
  obtain ⟨slot, loaded, jump, ends, -, found, enters⟩ := installs image
  refine ⟨told.trans ?_, slot, loaded, jump, ends, found, enters⟩
  rw [image]
  decide +kernel

end Upkit
