/-
**Which image the bootloader boots.**

The upgrade does not look at the verdict on the newest image, so whether a booted image is
verified depends on what the swap puts together:

* `bootsVerified_iff` — exactly when everything one call boots passes `verify_object`.
* `bootloaderAgent_newest` — with a verified image in every slot, the agent boots the newest one
  and at most two images change places.
-/

import Upkit.Agents.Bootloader
import Upkit.Security.Digest

namespace Upkit

open Bytes

/-! ### Only verified images are booted -/

section Verified

variable (crypto : Crypto) (table : SlotTable) (cfg : BootloaderAgentConfig)

/-- Every object as long as the agent's `int` offsets reach. -/
def intLayout (erased : Option UInt8) : PlainLayout where
  limit := fun _ => 2 ^ 31
  limit_lt := fun _ => by decide
  erased := erased

/-- What a call boots passes `verify_object` as it stands when the call returns. -/
def BootsVerified (layout : PlainLayout) (memory : Contents) : Prop :=
  ∀ id memory', bootloaderAgent (plain layout) crypto table cfg memory = (.boot id, memory') →
    (verifyObject (plain layout) crypto ⟨id, .readOnly⟩ cfg.safestore cfg.buffer cfg.bufferSize
      memory').1 = .success

variable {table cfg}

/-- The bootstrap leaves the newest bootable slot alone. -/
theorem erasedSlots_keep (keep : MemId) (slots : List MemSlot) (memory : Contents) :
    erasedSlots keep slots memory keep = memory keep := by
  induction slots generalizing memory with
  | nil => rfl
  | cons slot rest ih =>
      rw [erasedSlots, List.foldl_cons]
      by_cases other : slot.id ≠ keep
      · rw [if_pos other]
        refine (ih _).trans ?_
        exact Function.update_of_ne (Ne.symm other) _ _
      · rw [if_neg other]
        exact ih _

/-- The bootstrap keeps the version of the newest bootable slot, even when the bootloader context
is stored in that very object. -/
theorem bootstrapped_version (memory : Contents) :
    versionAt (bootstrapped table cfg memory) (newestBootable table memory).id =
      (newestBootable table memory).version := by
  obtain ⟨slot, _, found⟩ := selectSlot_table_mem true true (versionAt memory) table 0 0
  have stored : (newestBootable table memory).version =
      versionAt memory (newestBootable table memory).id := by
    rw [show newestBootable table memory = slot.candidate _ from found]
    rfl
  rw [stored]
  refine versionAt_congr fun address low high => ?_
  unfold bootstrapped
  split
  · by_cases here : (newestBootable table memory).id = cfg.bootloaderCtxId
    · have width : (bootloaderCtx cfg memory).length = 128 := readRange_length _ _ _
      rw [here, Function.update_self, writeRange_inside _ (Nat.zero_le _)
        (by rw [splice_length (by rw [width]; decide), width]; omega), Nat.sub_zero, splice,
        List.append_assoc, List.getD_append _ _ _ _ (by rw [List.length_take, width]; omega)]
      have inContext := readRange_getD (memory cfg.bootloaderCtxId) 0 128 address (by omega)
      rw [Nat.zero_add] at inContext
      rw [← inContext, List.getD_eq_getElem?_getD, List.getElem?_take, if_pos (by omega),
        ← List.getD_eq_getElem?_getD]
      rfl
    · rw [Function.update_of_ne here, erasedSlots_keep]
  · rfl

/-- Source and destination of an upgrade are different objects. -/
theorem upgrade_apart (memory : Contents)
    (newer : (newestBootable table memory).version <
      (newestSlot table (bootstrapped table cfg memory)).version) :
    (oldestBootable table (bootstrapped table cfg memory)).id ≠
      (newestSlot table (bootstrapped table cfg memory)).id :=
  selectSlot_upgrade_ne (versionAt (bootstrapped table cfg memory)) table (versionAt memory)
    scanStart rfl (bootstrapped_version memory) newer

/-- The length of the swap that an upgrade makes. -/
def upgradeLength (table : SlotTable) (booted : Contents) : Nat :=
  swapLength booted (newestSlot table booted).id (oldestBootable table booted).id

/-- The image an upgrade puts into the oldest bootable slot. -/
def upgradeImage (table : SlotTable) (cfg : BootloaderAgentConfig) (booted : Contents) :
    Nat → UInt8 :=
  installed (newestSlot table booted).id (oldestBootable table booted).id cfg.swapId cfg.swapSize
    (upgradeLength table booted) booted

theorem upgradeLength_lt (booted : Contents) : upgradeLength table booted < 2 ^ 32 :=
  max_lt (Nat.mod_lt _ (by norm_num)) (Nat.mod_lt _ (by norm_num))

/-- On objects of one length the swap of an upgrade succeeds unless the length does not fit or
nothing is ever moved; then the destination holds the upgrade image. -/
theorem upgradeSwap_success_iff (erased : Option UInt8) (booted : Contents)
    (apart : (oldestBootable table booted).id ≠ (newestSlot table booted).id) :
    ((upgradeSwap table cfg (intLayout erased) (newestSlot table booted).id booted).1 = .success ↔
        upgradeLength table booted ≤ 2 ^ 31 ∧
          (cfg.swapSize ≠ 0 ∨ upgradeLength table booted = 0)) ∧
      ((upgradeSwap table cfg (intLayout erased) (newestSlot table booted).id booted).1 =
          .success →
        (upgradeSwap table cfg (intLayout erased) (newestSlot table booted).id booted).2.2
          (oldestBootable table booted).id = upgradeImage table cfg booted) := by
  have manifests : sizeofManifest ≤ 2 ^ 31 := by decide
  have fuel : loopFuel = (2 ^ 32 - 1) + 1 := by decide
  by_cases empty : upgradeLength table booted = 0
  · have ran : upgradeSwap table cfg (intLayout erased) (newestSlot table booted).id booted =
        (.success, List.replicate agentBufferSize 0, booted) := by
      rw [upgradeSwap, swapSlots_loop (intLayout erased) manifests manifests, fuel, swapSlotsLoop]
      exact if_neg (not_lt.mpr (le_of_eq empty))
    refine ⟨⟨fun _ => ⟨by omega, Or.inr empty⟩, fun _ => by rw [ran]⟩, fun _ => ?_⟩
    rw [ran]
    funext address
    simp [upgradeImage, installed, empty]
  · by_cases possible : upgradeLength table booted ≤ 2 ^ 31 ∧ cfg.swapSize ≠ 0
    · obtain ⟨buffer', memory', ran, image⟩ := @swapSlots_installed (intLayout erased)
        (swapObject (newestSlot table booted).id) (swapObject (oldestBootable table booted).id)
        (swapObject cfg.swapId) cfg.swapSize agentBufferSize
        (List.replicate agentBufferSize 0) booted apart manifests manifests possible.1
        possible.1 possible.1 (le_trans (min_le_right _ _) possible.1)
        (Nat.pos_of_ne_zero possible.2) cfg.swapSize_lt (by decide) (by decide)
      have swapped : upgradeSwap table cfg (intLayout erased) (newestSlot table booted).id booted =
          (.success, buffer', memory') := ran
      refine ⟨⟨fun _ => ⟨possible.1, Or.inl possible.2⟩, fun _ => by rw [swapped]⟩, fun _ => ?_⟩
      rw [swapped]
      exact image
    · have failed : (upgradeSwap table cfg (intLayout erased) (newestSlot table booted).id
          booted).1 ≠ .success := by
        intro success
        rw [upgradeSwap, swapSlots_loop (intLayout erased) manifests manifests] at success
        refine possible ⟨swapSlotsLoop_success (intLayout erased) le_rfl _ _ _ _ _
          (Nat.pos_of_ne_zero empty) (upgradeLength_lt booted) (Or.inl ⟨rfl, cfg.swapSize_lt⟩)
          success, fun zero => ?_⟩
        rw [zero] at success
        exact swapSlotsLoop_stuck (intLayout erased) _ _ _ (Nat.pos_of_ne_zero empty) success
      refine ⟨⟨fun success => absurd success failed, fun both => ?_⟩,
        fun success => absurd success failed⟩
      rcases both.2 with moving | nothing
      · exact absurd ⟨both.1, moving⟩ possible
      · exact absurd nothing empty

/-- **Exactly when only verified images are booted**: no slot is newer than the newest bootable
one, or the swap cannot succeed, or the image it puts together passes. -/
theorem bootsVerified_iff (erased : Option UInt8) (memory : Contents) :
    BootsVerified crypto table cfg (intLayout erased) memory ↔
      (newestSlot table (bootstrapped table cfg memory)).version ≤
          (newestBootable table memory).version ∨
        2 ^ 31 < upgradeLength table (bootstrapped table cfg memory) ∨
        (cfg.swapSize = 0 ∧ 0 < upgradeLength table (bootstrapped table cfg memory)) ∨
        verdict crypto cfg.safestore (2 ^ 31) (by decide) cfg.bufferSize
          (upgradeImage table cfg (bootstrapped table cfg memory)) = .success := by
  have manifests : sizeofManifest ≤ 2 ^ 31 := by decide
  have call := @bootloaderAgent_plain (intLayout erased) crypto table cfg memory
    (fun _ _ => manifests) (show sizeofBootloaderCtx ≤ 2 ^ 31 by decide)
  unfold BootsVerified
  by_cases newer : (newestBootable table memory).version <
      (newestSlot table (bootstrapped table cfg memory)).version
  · obtain ⟨succeeds, image⟩ := upgradeSwap_success_iff erased
      (bootstrapped table cfg memory) (upgrade_apart memory newer)
    rw [call, if_pos newer]
    by_cases success : (upgradeSwap table cfg (intLayout erased)
        (newestSlot table (bootstrapped table cfg memory)).id
        (bootstrapped table cfg memory)).1 = .success
    · obtain ⟨fits, moves⟩ := succeeds.mp success
      have passes := verifyObject_verdict crypto cfg.safestore (intLayout erased)
        ⟨(oldestBootable table (bootstrapped table cfg memory)).id, .readOnly⟩ cfg.buffer
        cfg.bufferSize (upgradeSwap table cfg (intLayout erased)
          (newestSlot table (bootstrapped table cfg memory)).id
          (bootstrapped table cfg memory)).2.2 manifests
      rw [image success] at passes
      rw [if_neg (not_not.mpr success)]
      constructor
      · intro holds
        refine Or.inr (Or.inr (Or.inr ?_))
        exact passes.symm.trans (holds _ _ rfl)
      · intro condition id memory' booted
        cases booted
        rcases condition with old | long | ⟨zero, positive⟩ | verified
        · exact absurd newer (not_lt.mpr old)
        · exact absurd fits (not_le.mpr long)
        · rcases moves with moving | nothing
          · exact absurd zero moving
          · omega
        · exact passes.trans verified
    · rw [if_pos success]
      refine iff_of_true (fun id memory' booted => by cases booted) ?_
      rcases Nat.lt_or_ge (2 ^ 31) (upgradeLength table (bootstrapped table cfg memory)) with
        long | fits
      · exact Or.inr (Or.inl long)
      · refine Or.inr (Or.inr (Or.inl ⟨?_, ?_⟩))
        · by_contra moving
          exact success (succeeds.mpr ⟨fits, Or.inl moving⟩)
        · by_contra nothing
          exact success (succeeds.mpr ⟨fits, Or.inr (by omega)⟩)
  · rw [call, if_neg newer]
    refine iff_of_true (fun id memory' booted => ?_) (Or.inl (not_lt.mp newer))
    rw [validateBootable] at booted
    have kept := verifyObject_memory (intLayout erased) crypto
      ⟨(newestBootable table memory).id, .readOnly⟩ cfg.safestore cfg.buffer cfg.bufferSize
      (bootstrapped table cfg memory) manifests
    simp only [kept] at booted
    split at booted
    · rename_i passes
      cases booted
      exact passes
    · cases booted

end Verified

/-- An interrupted update: slot `2` names version `2` and an image of `300` bytes, and nothing in
it is signed. -/
def unsignedUpdate : Contents := fun id address =>
  if id = 2 then
    if address = 64 then 44 else if address = 69 then 1 else if address = 72 then 2 else 0
  else if id = 1 ∧ address = 72 then 1
  else 0

/-- A library that, as every one does, accepts no signature whose `r` is zero. -/
def zeroRefusing : Crypto where
  digest := fun _ => List.replicate 32 0
  digest_length := fun _ => List.length_replicate
  eccVerify := fun _ _ r _ _ =>
    if r = List.replicate 32 0 then .verificationFailed else .success

/-- The swap object `3`, the bootloader context `4` and the agent's own buffer. -/
def twoSlotsConfig : BootloaderAgentConfig where
  bootloaderCtxId := 4
  swapId := 3
  swapSize := 4096
  buffer := List.replicate 1024 0
  bufferSize := 1024
  safestore := ⟨⟨[], []⟩, 0, 0⟩
  swapSize_lt := by decide

/-- The unsigned update is swapped in and booted. -/
theorem unsignedUpdate_booted :
    ¬ BootsVerified zeroRefusing twoSlots twoSlotsConfig (intLayout none) unsignedUpdate := by
  have manifests : sizeofManifest ≤ 2 ^ 31 := by decide
  have kept : bootstrapped twoSlots twoSlotsConfig unsignedUpdate = unsignedUpdate :=
    if_neg (by decide)
  have newer : (newestBootable twoSlots unsignedUpdate).version <
      (newestSlot twoSlots (bootstrapped twoSlots twoSlotsConfig unsignedUpdate)).version := by
    rw [kept]
    decide
  have apart := upgrade_apart unsignedUpdate newer
  have call := @bootloaderAgent_plain (intLayout none) zeroRefusing twoSlots
    twoSlotsConfig unsignedUpdate (fun _ _ => manifests)
    (show sizeofBootloaderCtx ≤ 2 ^ 31 by decide)
  rw [if_pos newer, kept] at call
  rw [kept] at apart
  obtain ⟨succeeds, image⟩ := @upgradeSwap_success_iff twoSlots twoSlotsConfig none unsignedUpdate
    apart
  have success := succeeds.mpr ⟨by decide, Or.inl (by decide)⟩
  rw [if_neg (not_not.mpr success)] at call
  intro holds
  have passes := holds _ _ call
  have valid := verifyManifest_of_verifyObject zeroRefusing twoSlotsConfig.safestore manifests
    passes
  -- The first `32` bytes, the `r` of the vendor signature, are zero in both slots.
  have zero : (manifestAt (upgradeSwap twoSlots twoSlotsConfig (intLayout none)
      (newestSlot twoSlots unsignedUpdate).id unsignedUpdate).2.2
        (oldestBootable twoSlots unsignedUpdate).id).get .vendorSignatureR =
          List.replicate 32 0 := by
    rw [manifestAt_get, image success]
    refine Eq.trans (b := readRange (fun _ => 0) _ _)
      (readRange_congr _ fun address _ high => ?_) (by decide)
    have low : ∀ id, unsignedUpdate id address = 0 := by
      intro id
      have small : address < 32 := high
      unfold unsignedUpdate
      split
      · rw [if_neg (by omega), if_neg (by omega), if_neg (by omega)]
      · rw [if_neg (by omega)]
    have alone : ¬ (twoSlotsConfig.swapId = (oldestBootable twoSlots unsignedUpdate).id ∧
        address < twoSlotsConfig.swapSize) := by
      have other : twoSlotsConfig.swapId ≠ (oldestBootable twoSlots unsignedUpdate).id := by decide
      exact fun both => other both.1
    unfold upgradeImage installed
    rw [if_neg alone]
    split
    · exact low _
    · split
      · exact low _
      · exact low _
  have signed := ((verifyManifest_success_iff _ _ _).mp valid).2
  rw [verifySignature_success_iff, vendorSigned, zero] at signed
  exact absurd signed.1 (by decide)

/-! ### The newest image is booted -/

section Newest

variable (crypto : Crypto) {table : SlotTable} {cfg : BootloaderAgentConfig}

/-- The image in an object: as many bytes as its manifest says. -/
def imageAt (memory : Contents) (id : MemId) : List UInt8 :=
  readRange (memory id) 0 (manifestAt memory id).extent

/-- No slot is newer than the newest one. -/
theorem newestSlot_max (memory : Contents) :
    ∀ slot ∈ table.slots, versionAt memory slot.id ≤ (newestSlot table memory).version := by
  obtain ⟨first, rest, split⟩ := List.exists_cons_of_ne_nil table.nonempty
  obtain ⟨above, rests⟩ := selectSlot_newest (versionAt memory) rest
    (first.candidate (versionAt memory)) rfl
  intro slot member
  rw [newestSlot, split, scanStart, selectSlot_first]
  rw [split] at member
  rcases List.mem_cons.mp member with rfl | inRest
  · exact above
  · exact rests slot inRest

/-- A preferring scan of a table that begins with a bootable slot ends with a bootable slot. -/
theorem selectSlot_bootable (newest : Bool) (versionOf : MemId → Nat)
    (boots : ∀ slot ∈ table.slots.head?, slot.bootable = true) :
    ∃ slot ∈ table.slots, slot.bootable = true ∧
      selectSlot newest true versionOf table.slots scanStart = slot.candidate versionOf := by
  obtain ⟨first, rest, split⟩ := List.exists_cons_of_ne_nil table.nonempty
  have bootable : first.bootable = true := boots first (by rw [split]; rfl)
  rw [split, scanStart, selectSlot_first,
    selectSlot_prefer versionOf newest rest (first.candidate versionOf) rfl bootable]
  rcases selectSlot_mem newest false versionOf (rest.filter (·.bootable))
    (first.candidate versionOf) with ⟨found, member, same⟩ | same
  · obtain ⟨inRest, found_boots⟩ := List.mem_filter.mp member
    exact ⟨found, List.mem_cons_of_mem _ inRest, found_boots, same⟩
  · exact ⟨first, List.mem_cons_self, bootable, same⟩

/-- An object that took over a prefix with a whole image holds that image. -/
theorem imageAt_exchanged {memory memory' : Contents} {id source : MemId} {size : Nat}
    (covers : sizeofManifest ≤ size) (whole : (manifestAt memory source).extent ≤ size)
    (taken : memory' id = writeRange (memory id) 0 (readRange (memory source) 0 size)) :
    manifestAt memory' id = manifestAt memory source ∧
      imageAt memory' id = imageAt memory source := by
  have bytes : ∀ address < size, memory' id address = memory source address := by
    intro address inside
    rw [taken, writeRange_inside _ (Nat.zero_le _) (by rw [readRange_length]; omega),
      readRange_getD _ _ _ _ (by omega)]
    congr 1
    omega
  have manifest : manifestAt memory' id = manifestAt memory source :=
    manifestAt_congr fun address inside => bytes address (by omega)
  refine ⟨manifest, ?_⟩
  rw [imageAt, imageAt, manifest]
  exact readRange_congr _ fun address _ inside => bytes address (by omega)

/-- **The newest image is booted and no image is lost.** The slots are at most as long as the
agent's `int` offsets reach, and the swap, when there is one, stays inside the two slots. -/
theorem bootloaderAgent_newest (layout : PlainLayout) (memory : Contents)
    (boots : ∀ slot ∈ table.slots.head?, slot.bootable = true)
    (verified : ∀ slot ∈ table.slots, (verifyObject (plain layout) crypto ⟨slot.id, .readOnly⟩
      cfg.safestore cfg.buffer cfg.bufferSize memory).1 = .success)
    (covers : ∀ slot ∈ table.slots, sizeofManifest ≤
      (manifestAt memory slot.id).getSize + (manifestAt memory slot.id).getOffset)
    (fits : ∀ slot ∈ table.slots, (manifestAt memory slot.id).getSize +
      (manifestAt memory slot.id).getOffset ≤ layout.limit slot.id)
    (indexable : ∀ slot ∈ table.slots, layout.limit slot.id ≤ 2 ^ 31)
    (notFirst : firstBoot (bootloaderCtx cfg memory) = false)
    (fitsCtx : sizeofBootloaderCtx ≤ layout.limit cfg.bootloaderCtxId)
    (asserted : agentBufferSize < cfg.swapSize ∧ cfg.swapSize % agentBufferSize = 0)
    (fitsSwap : cfg.swapSize ≤ layout.limit cfg.swapId)
    (separate : ∀ slot ∈ table.slots, cfg.swapId ≠ slot.id)
    (noFault : (newestBootable table memory).version < (newestSlot table memory).version →
      upgradeLength table memory ≤ layout.limit (newestSlot table memory).id ∧
        upgradeLength table memory ≤ layout.limit (oldestBootable table memory).id) :
    ∃ id memory', bootloaderAgent (plain layout) crypto table cfg memory = (.boot id, memory') ∧
      (∃ slot ∈ table.slots, slot.id = id ∧ slot.bootable = true) ∧
      (∃ slot ∈ table.slots, versionAt memory slot.id = versionAt memory' id) ∧
      (∀ slot ∈ table.slots, versionAt memory slot.id ≤ versionAt memory' id) ∧
      ((∀ slot ∈ table.slots, imageAt memory' slot.id = imageAt memory slot.id) ∨
        ∃ newest ∈ table.slots,
          (∀ slot ∈ table.slots, versionAt memory slot.id ≤ versionAt memory newest.id) ∧
          imageAt memory' id = imageAt memory newest.id ∧
          imageAt memory' newest.id = imageAt memory id ∧
          ∀ slot ∈ table.slots, slot.id ≠ id → slot.id ≠ newest.id →
            imageAt memory' slot.id = imageAt memory slot.id) := by
  have manifests : ∀ slot ∈ table.slots, sizeofManifest ≤ layout.limit slot.id :=
    fun slot member => le_trans (covers slot member) (fits slot member)
  have kept : bootstrapped table cfg memory = memory := by
    unfold bootstrapped
    rw [if_neg (by rw [notFirst]; decide)]
  have call := bootloaderAgent_plain crypto table cfg memory manifests fitsCtx
  rw [kept] at call
  obtain ⟨newest, newestMember, isNewest⟩ := selectSlot_table_mem true false (versionAt memory)
    table 0 0
  have newestIs : newestSlot table memory = newest.candidate (versionAt memory) := isNewest
  by_cases newer : (newestBootable table memory).version < (newestSlot table memory).version
  · obtain ⟨oldest, oldestMember, oldestBoots, isOldest⟩ := selectSlot_bootable
      false (versionAt memory) boots
    have oldestIs : oldestBootable table memory = oldest.candidate (versionAt memory) := isOldest
    have apart : oldest.id ≠ newest.id := by
      have differ := upgrade_apart memory (by rw [kept]; exact newer)
      rw [kept, oldestIs, newestIs] at differ
      exact differ
    have extents : ∀ slot ∈ table.slots, (manifestAt memory slot.id).extent =
        (manifestAt memory slot.id).getSize + (manifestAt memory slot.id).getOffset := by
      intro slot member
      have small := layout.limit_lt slot.id
      have inside := fits slot member
      exact Nat.mod_eq_of_lt (by omega)
    have length : upgradeLength table memory = swapLength memory newest.id oldest.id := by
      rw [upgradeLength, newestIs, oldestIs]
      rfl
    have noFault := noFault newer
    have noFaultNewest : swapLength memory newest.id oldest.id ≤ layout.limit newest.id := by
      rw [← length]
      rw [newestIs] at noFault
      exact noFault.1
    have noFaultOldest : swapLength memory newest.id oldest.id ≤ layout.limit oldest.id := by
      rw [← length]
      rw [oldestIs] at noFault
      exact noFault.2
    obtain ⟨buffer', memory', ran, first, second, others⟩ := @swapSlots_separate layout
      (swapObject newest.id) (swapObject oldest.id) (swapObject cfg.swapId) cfg.swapSize
      agentBufferSize (List.replicate agentBufferSize 0) memory apart
      (separate newest newestMember) (separate oldest oldestMember)
      (manifests newest newestMember) (manifests oldest oldestMember)
      (le_trans noFaultNewest (indexable newest newestMember)) noFaultNewest noFaultOldest
      (le_trans (min_le_left _ _) fitsSwap) (by omega) cfg.swapSize_lt (by decide) (by decide)
    have swapped : upgradeSwap table cfg layout (newestSlot table memory).id memory =
        (.success, buffer', memory') := by
      rw [upgradeSwap, newestIs, oldestIs]
      exact ran
    have long : sizeofManifest ≤ swapLength memory newest.id oldest.id := by
      refine le_trans ?_ (le_max_left _ _)
      rw [extents newest newestMember]
      exact covers newest newestMember
    obtain ⟨manifest, image⟩ := imageAt_exchanged long (le_max_left _ _) second
    obtain ⟨_, image'⟩ := imageAt_exchanged long (le_max_right _ _) first
    have version : versionAt memory' oldest.id = versionAt memory newest.id :=
      congrArg Manifest.getVersion manifest
    have maximal : ∀ slot ∈ table.slots, versionAt memory slot.id ≤ versionAt memory newest.id := by
      intro slot member
      have bound := newestSlot_max memory slot member
      rw [newestIs] at bound
      exact bound
    refine ⟨oldest.id, memory', ?_, ⟨oldest, oldestMember, rfl, oldestBoots⟩,
      ⟨newest, newestMember, version.symm⟩, ?_, Or.inr ⟨newest, newestMember, maximal, image,
        image', ?_⟩⟩
    · rw [call, if_pos newer, swapped, oldestIs]
      rfl
    · intro slot member
      rw [version]
      exact maximal slot member
    · intro slot member notOldest notNewest
      have same := others slot.id notNewest notOldest (separate slot member).symm
      rw [imageAt, imageAt, manifestAt, manifestAt, same]
  · obtain ⟨best, bestMember, bestBoots, isBest⟩ := selectSlot_bootable true
      (versionAt memory) boots
    have bestIs : newestBootable table memory = best.candidate (versionAt memory) := isBest
    refine ⟨best.id, memory, ?_, ⟨best, bestMember, rfl, bestBoots⟩, ⟨best, bestMember, rfl⟩, ?_,
      Or.inl fun _ _ => rfl⟩
    · have unchanged := verifyObject_memory layout crypto ⟨best.id, .readOnly⟩ cfg.safestore
        cfg.buffer cfg.bufferSize memory (manifests best bestMember)
      rw [call, if_neg newer, bestIs, validateBootable]
      simp only [MemSlot.candidate, verified best bestMember, if_true]
      rw [unchanged]
    · intro slot member
      have bound := le_trans (newestSlot_max memory slot member) (not_lt.mp newer)
      rw [bestIs] at bound
      exact bound

end Newest

/-- A signed image of version `id` in every object, small enough for a buffer of `32` bytes. -/
def signedImages : Contents := fun id address =>
  if address = 0 ∨ address = 64 then 44
  else if address = 5 ∨ address = 69 then 1
  else if address = 8 ∨ address = 72 then UInt8.ofNat id.toNat
  else 0

/-- The swap object `3` and the bootloader context `4`, with a key of zeros. -/
def signedConfig : BootloaderAgentConfig where
  bootloaderCtxId := 4
  swapId := 3
  swapSize := 4096
  buffer := List.replicate 32 0
  bufferSize := 32
  safestore := ⟨⟨List.replicate 32 0, List.replicate 32 0⟩, 0, 0⟩
  swapSize_lt := by decide

theorem signedImages_verified (id : MemId) (known : id = 1 ∨ id = 2) :
    (verifyObject (plain (intLayout none)) mirrorCrypto ⟨id, .readOnly⟩ signedConfig.safestore
      signedConfig.buffer signedConfig.bufferSize signedImages).1 = .success := by
  have size : (manifestAt signedImages id).getSize = 44 := by
    rcases known with rfl | rfl <;> decide
  have offset : (manifestAt signedImages id).getOffset = 256 := by
    rcases known with rfl | rfl <;> decide
  refine (verifyObject_plain (intLayout none) mirrorCrypto ⟨id, .readOnly⟩ signedImages
    signedConfig.safestore signedConfig.buffer signedConfig.bufferSize (by decide) ?_ ?_ ?_
    (show sizeofManifest ≤ 2 ^ 31 by decide)).mpr ⟨?_, ?_⟩
  · show 32 ≤ (manifestAt signedImages id).getSize
    rw [size]
    decide
  · show _ ≤ 2 ^ 31
    rw [size, offset]
    decide
  · rw [size, offset]
    decide
  · rcases known with rfl | rfl <;> decide
  · rcases known with rfl | rfl <;> decide

/-- The image of slot `2` is exchanged with that of slot `1` and booted there. -/
theorem signedImages_booted :
    ∃ id memory', bootloaderAgent (plain (intLayout none)) mirrorCrypto twoSlots signedConfig
      signedImages = (.boot id, memory') ∧
        ∀ slot ∈ twoSlots.slots, versionAt signedImages slot.id ≤ versionAt memory' id := by
  have known : ∀ slot ∈ twoSlots.slots, slot.id = 1 ∨ slot.id = 2 := by decide
  have length : upgradeLength twoSlots signedImages ≤ 2 ^ 31 := by decide
  obtain ⟨id, memory', booted, _, _, maximal, _⟩ := bootloaderAgent_newest
    mirrorCrypto (intLayout none) signedImages (by decide)
    (fun slot member => signedImages_verified slot.id (known slot member)) (by decide) (by decide)
    (fun _ _ => le_rfl) (by decide) (by decide) (by decide) (by decide) (by decide)
    (fun _ => ⟨length, length⟩)
  exact ⟨id, memory', booted, maximal⟩

end Upkit
