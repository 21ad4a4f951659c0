/-
**What the processor runs.**

The bootloader ends in `load_object`, which reads where the firmware of an object begins, makes that
the vector table, takes the stack pointer from its first word and jumps to the address in its second
one. The board of the nRF52840 has a `load_object` of its own.

* `loadObject`, `loadObjectNrf52840` — the two of them; `loadObjectNrf52840_eq` — they jump to one
  address, but the second one takes the address of the table for the stack pointer.
* `loadObject_eq` — the words that are read are the first two of the firmware in the object.
* `flash_enters` — release after release, the processor enters each one through the two words that
  its signed digest covers.
-/

import Upkit.Agents.FlashDevice

namespace Upkit

open Bytes Pages

/-! ### The loaders -/

/-- What `load_object` hands over with: the vector table, if it is set, the stack pointer, and where
it jumps to. -/
structure Jump where
  vtor : Option Nat
  stack : Nat
  loadAddr : Nat

/-- `RESET_VECTOR`. -/
def resetVector : Nat := 0x4

/-- A `uint32_t` of the address space. -/
def wordAt (space : Nat → UInt8) (address : Nat) : Nat := ofLE (readRange space address 4)

section Loaders

variable (layout : FlashLayout)

/-- How both loaders begin: `destination_address`. They return when the object cannot be read. -/
def destinationAddress (id : MemId) (space : Nat → UInt8) : Option (Nat × (Nat → UInt8)) :=
  let (err, obj, space) := (paged layout).memoryOpen id .readOnly space
  if err ≠ .success then none
  else
    let (err, mt, space) := readFirmwareManifest (paged layout) obj space
    if err ≠ .success then none
    else
      let (_, space) := (paged layout).memoryClose obj space
      some ((layout.start id + mt.getOffset) % 2 ^ 32, space)

/-- `load_object` of `arm_cortex_loader.c`. -/
def loadObject (id : MemId) (space : Nat → UInt8) : Option Jump :=
  (destinationAddress layout id space).map fun (address, space) =>
    ⟨some address, wordAt space address, wordAt space ((address + resetVector) % 2 ^ 32)⟩

/-- `load_object` of the nRF52840: it sets no vector table, and the stack pointer to its address. -/
def loadObjectNrf52840 (id : MemId) (space : Nat → UInt8) : Option Jump :=
  (destinationAddress layout id space).map fun (address, space) =>
    ⟨none, address, wordAt space ((address + resetVector) % 2 ^ 32)⟩

variable {layout} {id : MemId} {space : Nat → UInt8}

/-- **The loader of the nRF52840** jumps where the other one does, with another stack pointer. -/
theorem loadObjectNrf52840_eq : loadObjectNrf52840 layout id space =
    (loadObject layout id space).map fun jump =>
      ⟨none, jump.vtor.getD 0, jump.loadAddr⟩ := by
  unfold loadObjectNrf52840 loadObject
  cases destinationAddress layout id space with
  | none => rfl
  | some destination => rfl

/-- The address is the one that the manifest names. -/
theorem destinationAddress_eq (fits : sizeofManifest ≤ layout.length id)
    (inside : (manifestAt (layout.view space) id).getOffset ≤ layout.length id) :
    destinationAddress layout id space =
      some (layout.start id + (manifestAt (layout.view space) id).getOffset, space) := by
  have ordered := layout.ordered id
  have small := layout.stop_lt id
  have length : layout.length id = layout.stop id - layout.start id := rfl
  have opened : (paged layout).memoryOpen id .readOnly space =
      (.success, ⟨id, .readOnly⟩, space) := rfl
  have read : (paged layout).memoryRead ⟨id, .readOnly⟩ sizeofManifest 0 space =
      ((sizeofManifest : Int), readRange (layout.view space id) 0 sizeofManifest, space) :=
    paged_read (sees_view layout space) (by rw [Nat.zero_add]; exact fits)
  have manifest : readFirmwareManifest (paged layout) ⟨id, .readOnly⟩ space =
      (.success, manifestAt (layout.view space) id, space) := by
    rw [readFirmwareManifest, read]
    simp only [ne_eq, not_true_eq_false, if_false]
    rfl
  have closed : (paged layout).memoryClose ⟨id, .readOnly⟩ space = (.success, space) := rfl
  unfold destinationAddress
  simp only [opened, manifest, closed, ne_eq, not_true_eq_false, if_false]
  rw [Nat.mod_eq_of_lt (by omega)]

/-- A word in an object. -/
theorem wordAt_view (offset : Nat) : wordAt space (layout.start id + offset) =
    ofLE (readRange (layout.view space id) offset 4) :=
  congrArg ofLE (readRange_shift space (layout.start id) offset 4)

/-- **The two words** that an object is entered through are the first ones of its firmware. -/
theorem loadObject_eq (fits : sizeofManifest ≤ layout.length id)
    (inside : (manifestAt (layout.view space) id).getOffset + 8 ≤ layout.length id) :
    loadObject layout id space =
      some ⟨some (layout.start id + (manifestAt (layout.view space) id).getOffset),
        ofLE (readRange (layout.view space id) (manifestAt (layout.view space) id).getOffset 4),
        ofLE (readRange (layout.view space id)
          ((manifestAt (layout.view space) id).getOffset + resetVector) 4)⟩ := by
  have ordered := layout.ordered id
  have small := layout.stop_lt id
  have length : layout.length id = layout.stop id - layout.start id := rfl
  have reset : (layout.start id + (manifestAt (layout.view space) id).getOffset + resetVector) %
      2 ^ 32 = layout.start id + ((manifestAt (layout.view space) id).getOffset + resetVector) := by
    rw [Nat.mod_eq_of_lt (by unfold resetVector; omega), Nat.add_assoc]
  rw [loadObject, destinationAddress_eq fits (by omega), Option.map_some]
  simp only [reset, wordAt_view]

end Loaders

/-! ### The firmware of a release -/

section Release

variable {crypto : Crypto} {sf : Safestore} (release : Release crypto sf)

/-- What the digest of a release is taken of. -/
def Release.firmware : List UInt8 :=
  slice release.stream release.manifest.getOffset release.manifest.getSize

variable {release} {memory : Contents} {id : MemId}
  (image : imageAt memory id = release.image)
  (covers : sizeofManifest ≤ release.manifest.getSize + release.manifest.getOffset)
  (extent : sizeofManifest ≤ (manifestAt memory id).extent)

include image in
/-- What an object that holds a release has in the range of the image. -/
theorem Release.readRange_eq {offset width : Nat}
    (held : offset + width ≤ (manifestAt memory id).extent)
    (within : offset + width ≤ release.manifest.getOffset + release.manifest.getSize) :
    readRange (memory id) offset width = slice release.stream offset width := by
  have cut : slice release.image offset width = slice release.stream offset width := by
    rw [slice, slice, Release.image, List.drop_take, List.take_take,
      Nat.min_eq_left (Nat.le_sub_of_add_le (by rw [Nat.add_comm]; exact within))]
  have whole := @slice_readRange (memory id) 0 (manifestAt memory id).extent offset width held
  rw [Nat.zero_add] at whole
  rw [← whole, ← cut, ← image]
  rfl

include image covers extent in
/-- Such an object holds the manifest of the release. -/
theorem Release.manifestAt_eq : manifestAt memory id = release.manifest := by
  apply Manifest.ext
  have bytes := @Release.readRange_eq crypto sf release memory id image 0 sizeofManifest
    (by rw [Nat.zero_add]; exact extent) (by omega)
  rw [manifestAt_bytes, bytes, Release.manifest, Manifest.ofBytes_bytes release.manifest_le]
  rfl

end Release

/-! ### Release after release -/

namespace FlashBoard

variable {device : FlashBoard} {crypto : Crypto}

/-- The processor enters a release: the vector table is the beginning of its firmware in a bootable
slot, and the stack pointer and the address of the jump are its first two words. -/
structure Enters (device : FlashBoard) (release : Release crypto device.board.cfg.safestore)
    (jump : Jump) : Prop where
  table : ∃ slot ∈ device.board.table.slots, slot.bootable = true ∧
    jump.vtor = some (device.flash.start slot.id + release.manifest.getOffset)
  stack : jump.stack = ofLE (slice release.firmware 0 4)
  reset : jump.loadAddr = ofLE (slice release.firmware resetVector 4)

/-- Release after release, each with a nonce of its own: how the processor is handed over, and the
flash after the last one. -/
def enter (device : FlashBoard) :
    List (Nonce × Release crypto device.board.cfg.safestore) → (Nat → UInt8) →
      Option (List Jump × (Nat → UInt8))
  | [], space => some ([], space)
  | (nonce, release) :: rest, space =>
      (device.take nonce release space).bind fun (id, space) =>
        (loadObject device.flash id space).bind fun jump =>
          (enter device rest space).map fun (jumps, after) => (jump :: jumps, after)

/-- **A device that has taken a release** enters it. -/
theorem Took.enters {release : Release crypto device.board.cfg.safestore} {slot : MemSlot}
    {space : Nat → UInt8} (took : device.Took release slot space) :
    ∃ jump, loadObject device.flash slot.id space = some jump ∧ device.Enters release jump := by
  have isSlot : device.board.IsSlot slot.id := ⟨slot, took.member, rfl⟩
  have passes := took.intact.verified _ isSlot
  obtain ⟨extent, covered⟩ := isSlot.extent took.intact.signedWhole passes
  have inside := isSlot.inside took.intact.signedWhole passes
  have length : device.flash.length slot.id = device.board.length := by
    rw [← device.limit_eq, device.board.limit_eq slot took.member]
  have fills : 1024 ≤ release.manifest.getSize := release.fills
  have covers : sizeofManifest ≤ release.manifest.getSize + release.manifest.getOffset := by
    rw [sizeofManifest]
    omega
  have manifest : manifestAt (device.flash.view space) slot.id = release.manifest :=
    Release.manifestAt_eq took.image covers covered
  rw [manifest] at extent inside
  -- Both words lie in the firmware, which fills a buffer of the state machine.
  have word : ∀ start, start + 4 ≤ 8 → readRange (device.flash.view space slot.id)
      (release.manifest.getOffset + start) 4 = slice release.firmware start 4 := by
    intro start low
    rw [Release.readRange_eq took.image (by rw [manifest]; omega) (by omega), Release.firmware,
      slice_slice _ (by omega)]
  have jumps := @loadObject_eq device.flash slot.id space
    (by rw [length]; exact device.board.manifest_le) (by rw [manifest, length]; omega)
  refine ⟨_, jumps, ⟨slot, took.member, took.bootable, by rw [manifest]⟩, ?_, ?_⟩
  · show ofLE _ = _
    rw [manifest]
    exact congrArg ofLE (word 0 (by decide))
  · show ofLE _ = _
    rw [manifest, word resetVector (by decide)]

/-- **What the processor runs, release after release**: with any number of releases, each newer than
the one before, it is handed over to every one of them in this order, through the stack pointer and
the reset vector that the firmware of the release begins with. -/
theorem flash_enters (boots : ∀ slot ∈ device.board.table.slots.head?, slot.bootable = true)
    (releases : List (Nonce × Release crypto device.board.cfg.safestore)) {space : Nat → UInt8}
    (intact : Intact device.board crypto (device.flash.view space))
    (newer : ∀ release ∈ releases, ∀ slot ∈ device.board.table.slots,
      versionAt (device.flash.view space) slot.id < release.2.version)
    (ascending : releases.Pairwise fun earlier later => earlier.2.version < later.2.version)
    (suits : ∀ release ∈ releases, release.2.Suits device.board) :
    ∃ jumps space', device.enter releases space = some (jumps, space') ∧
      Intact device.board crypto (device.flash.view space') ∧
      List.Forall₂ (fun release jump => device.Enters release.2 jump) releases jumps := by
  refine releases_induction (motive := fun releases space => ∃ jumps space',
    device.enter releases space = some (jumps, space') ∧
      Intact device.board crypto (device.flash.view space') ∧
      List.Forall₂ (fun release jump => device.Enters release.2 jump) releases jumps)
    ?_ ?_ boots releases intact newer ascending suits
  · intro space intact
    exact ⟨[], space, rfl, intact, .nil⟩
  · rintro nonce release rest space slot between taken took ⟨jumps, space', entered, intact', all⟩
    obtain ⟨jump, loaded, enters⟩ := took.enters
    refine ⟨jump :: jumps, space', ?_, intact', .cons enters all⟩
    simp only [enter, taken, Option.bind_some, loaded, entered, Option.map_some]

end FlashBoard

/-- The board with two slots of flash enters version `3` and then version `4`. -/
theorem flashBoard_enters :
    ∃ jumps space', flashBoard.enter [(zeroNonce, thirdOnFlash), (zeroNonce, fourthOnFlash)]
        flashImages = some (jumps, space') ∧
      List.Forall₂ (fun release jump => flashBoard.Enters release.2 jump)
        [(zeroNonce, thirdOnFlash), (zeroNonce, fourthOnFlash)] jumps := by
  obtain ⟨jumps, space', entered, _, all⟩ := @FlashBoard.flash_enters flashBoard mirrorCrypto
    (by rintro slot ⟨⟩; rfl)
    [(zeroNonce, thirdOnFlash), (zeroNonce, fourthOnFlash)] flashImages flashImages_intact
    flashReleases_newer flashReleases_ascending flashReleases_suit
  exact ⟨jumps, space', entered, all⟩

end Upkit
