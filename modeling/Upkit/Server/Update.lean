/-
**From the server to the device.**

A device begins a session, sends the message `fsm` filled in, and passes what `resource_firmware`
serves for it to `fsm`, block by block.

* `reboots_inBlocks_iff` — a file of manifest and firmware that arrives in blocks of `256` bytes ends
  in a reboot exactly when both signatures pass, the server's also with `diff_version = 0`, and as much
  is announced as arrives (or the slot already holds what is not announced).
* `served_accepted_iff` — so a file signed for the request is accepted by a device of version `0`
  and by no other: the server signs the version of the device as `diff_version`, and the device
  sets it to `0` before it stores the manifest.
-/

import Upkit.Server.Firmware
import Upkit.Network.Sessions

namespace Upkit

open Bytes Blocks

/-! ### Assumptions on the cryptographic library -/

/-- What is assumed of the library for the server's key pair: signing succeeds, a signature passes
for the hash and the key it was made with and under that key for no other hash, and no two server
parts have one hash. -/
structure KeyLaws (crypto : Crypto) (signer : Signer) (x y : List UInt8) : Prop where
  signs : ∀ hash, (signer.eccSign hash).1 = .success
  verifies : ∀ hash, hash.length = 32 → crypto.eccVerify x y ((signer.eccSign hash).2.take 32)
    ((signer.eccSign hash).2.drop 32) hash = .success
  one_hash : ∀ r s hash other, crypto.eccVerify x y r s hash = .success →
    crypto.eccVerify x y r s other = .success → hash = other
  collision_free : ∀ part other : List UInt8, part.length = Field.server.size →
    other.length = Field.server.size → crypto.digest part = crypto.digest other → part = other

/-- An update for a device of some version: a manifest that the vendor has signed for its
application and that names the key of the server, and the firmware it describes. Both and one more
read of the verification buffer fit into the address space. -/
structure UpdateFile (crypto : Crypto) (sf : Safestore) (x y : List UInt8) (version : Nat) where
  mt : Manifest
  firmware : List UInt8
  vendor_signed : vendorSigned crypto mt sf.keystore = true
  offset : mt.getOffset = sizeofManifest
  newer : version < mt.getVersion
  appid : mt.getAppid = sf.appid
  key_x : mt.getServerKeyX = x
  key_y : mt.getServerKeyY = y
  long : fsmBufferSize ≤ firmware.length
  size : mt.getSize = firmware.length
  digest : mt.getDigest = crypto.digest firmware
  addressable : sizeofManifest + firmware.length + fsmBufferSize ≤ 2 ^ 32

/-! ### The stored manifest -/

section Stored

/-- A manifest without a diff version is stored as it is. -/
theorem full_of_getDiffVersion {mt : Manifest} (none : mt.getDiffVersion = 0) : mt.full = mt := by
  have zeros : mt.get .diffVersion = toLE 2 0 := by
    apply ofLE_injective
    · rw [Manifest.get_length, toLE_length]
      rfl
    · exact none.trans (by decide)
  apply Manifest.ext
  show splice mt.bytes Field.diffVersion.offset (toLE 2 0) = mt.bytes
  rw [← zeros]
  exact splice_slice mt.bytes (by rw [mt.length_eq]; decide)

/-- The diff version lies in the server part. -/
theorem get_diffVersion_server (mt : Manifest) :
    mt.get .diffVersion = slice (mt.get .server) 8 2 :=
  (@slice_slice mt.bytes 236 20 8 2 (by decide)).symm

variable {crypto : Crypto} {signer : Signer} {x y : List UInt8}

/-- **The stored manifest passes** the server's check like the one that was received exactly when
it is the same. -/
theorem serverSigned_full_iff (laws : KeyLaws crypto signer x y) {mt : Manifest}
    (keyX : mt.getServerKeyX = x) (keyY : mt.getServerKeyY = y)
    (signed : serverSigned crypto mt = true) :
    serverSigned crypto mt.full = true ↔ mt.getDiffVersion = 0 := by
  constructor
  · intro stored
    unfold serverSigned at signed stored
    rw [decide_eq_true_eq] at signed stored
    have fullX : mt.full.getServerKeyX = x := (mt.full_get (by decide)).trans keyX
    have fullY : mt.full.getServerKeyY = y := (mt.full_get (by decide)).trans keyY
    rw [keyX, keyY] at signed
    rw [fullX, fullY, mt.full_get (by decide), mt.full_get (by decide)] at stored
    have parts : mt.full.get .server = mt.get .server :=
      laws.collision_free _ _ (Manifest.get_length _ _) (Manifest.get_length _ _)
        (laws.one_hash _ _ _ _ stored signed)
    rw [Manifest.getDiffVersion, get_diffVersion_server, ← parts, ← get_diffVersion_server]
    exact mt.full_getDiffVersion
  · intro none
    rw [full_of_getDiffVersion none]
    exact signed

end Stored

/-! ### Files that arrive in blocks -/

section Arrival

variable {file : List UInt8} {inputs : List FsmInput}

/-- The calls that deliver a file in blocks. -/
def InBlocks (file : List UInt8) (inputs : List FsmInput) : Prop :=
  inputs.map (fun input => input.buf.data) = fullBlocks blockBytes file ++ [heldBack blockBytes file]

theorem streamOf_inBlocks (arriving : InBlocks file inputs) : streamOf inputs = file := by
  rw [streamOf, List.flatMap_def, arriving, List.flatten_append,
    List.flatten_singleton, fullBlocks_flatten_append blockBytes_pos]

theorem inBlocks_nonempty (arriving : InBlocks file inputs) (some : file ≠ []) :
    ∀ input ∈ inputs, input.buf.data ≠ [] := by
  intro input member
  have block : input.buf.data ∈ fullBlocks blockBytes file ++ [heldBack blockBytes file] := by
    rw [← arriving]
    exact List.mem_map_of_mem member
  rcases List.mem_append.mp block with full | last
  · have length := fullBlocks_length blockBytes_pos file _ full
    intro empty
    rw [empty] at length
    exact absurd length (by decide)
  · rw [List.mem_singleton.mp last]
    exact heldBack_ne_nil blockBytes_pos some

/-- Calls end at every multiple of `256` and at the end of the file. -/
theorem mem_cuts_inBlocks (arriving : InBlocks file inputs) {start cut : Nat} :
    cut ∈ cuts start inputs ↔ cut = start + file.length ∨
      ∃ count, 0 < count ∧ cut = start + count * blockBytes ∧ cut ≤ start + file.length := by
  induction file using block_induction blockBytes_pos generalizing inputs start with
  | short file few =>
      rw [InBlocks, fullBlocks_short few, heldBack_short few, List.nil_append,
        List.map_eq_singleton_iff] at arriving
      obtain ⟨input, rfl, data⟩ := arriving
      rw [cuts, cuts, data, List.mem_singleton]
      refine ⟨Or.inl, ?_⟩
      rintro (last | ⟨count, positive, rfl, within⟩)
      · exact last
      · have least : 1 * blockBytes ≤ count * blockBytes := Nat.mul_le_mul_right _ positive
        omega
  | long file many ih =>
      rw [InBlocks, fullBlocks_long blockBytes_pos many, heldBack_long blockBytes_pos many,
        List.cons_append, List.map_eq_cons_iff] at arriving
      obtain ⟨input, rest, rfl, data, later⟩ := arriving
      have length : input.buf.data.length = blockBytes := by
        rw [data, List.length_take]
        omega
      rw [cuts, List.mem_cons, length, ih later, List.length_drop]
      constructor
      · rintro (rfl | last | ⟨count, positive, rfl, within⟩)
        · exact Or.inr ⟨1, one_pos, by omega, by omega⟩
        · exact Or.inl (by omega)
        · refine Or.inr ⟨count + 1, Nat.succ_pos _, ?_, by omega⟩
          rw [Nat.succ_mul]
          omega
      · rintro (last | ⟨count, positive, rfl, within⟩)
        · exact Or.inr (Or.inl (by omega))
        · obtain ⟨before, rfl⟩ : ∃ before, count = before + 1 := ⟨count - 1, by omega⟩
          rw [Nat.succ_mul] at within ⊢
          rcases Nat.eq_zero_or_pos before with rfl | more
          · exact Or.inl (by omega)
          · exact Or.inr (Or.inr ⟨before, more, by omega, by omega⟩)

end Arrival

/-! ### When a delivered file is accepted -/

section Accepted

variable (erased : Option UInt8) (crypto : Crypto) (table : SlotTable) (sf : Safestore)

/-- The calls end in a reboot. -/
def Reboots (inputs : List FsmInput) (ctx : FsmCtx) (memory : Contents) : Prop :=
  ∃ ctx' memory', deliver (plain (fullLayout erased)) crypto table sf inputs ctx memory =
    some (ctx', memory') ∧ ctx'.state = .reboot

theorem reboots_iff_outcome (inputs : List FsmInput) (ctx : FsmCtx) (memory : Contents) :
    Reboots erased crypto table sf inputs ctx memory ↔
      ∃ memory', outcome erased crypto table sf inputs ctx memory = some (.reboot, memory') := by
  unfold Reboots outcome
  constructor
  · rintro ⟨ctx', memory', delivered, state⟩
    exact ⟨memory', by rw [delivered, Option.map_some, state]⟩
  · rintro ⟨memory', ended⟩
    obtain ⟨final, delivered, same⟩ := Option.map_eq_some_iff.mp ended
    exact ⟨final.1, final.2, delivered, congrArg Prod.fst same⟩

/-- A stream whose first call ends with the manifest ends in a reboot exactly when the manifest
passes, a later call ends where it announces the end, and the slot passes then. -/
theorem outcomeOf_reboot {version : Nat} {memory : Contents} {stream : List UInt8}
    {ends : List Nat} (long : sizeofManifest < stream.length) (first : sizeofManifest ∈ ends) :
    (∃ memory', outcomeOf erased crypto table sf version memory stream ends =
        some (.reboot, memory')) ↔
      Accepted crypto sf version (Manifest.ofBytes stream) ∧
        ((Manifest.ofBytes stream).announced ≤ stream.length ∧
          sizeofManifest < (Manifest.ofBytes stream).announced ∧
          (Manifest.ofBytes stream).announced ∈ ends) ∧
        slotVerdict crypto sf (announcedImage erased table memory stream) = .success := by
  have early : ¬ LastCompletes stream.length ends := by
    intro last
    exact absurd (last _ first le_rfl) (ne_of_lt long)
  have exactly : EndsExactly (Manifest.ofBytes stream).announced ends ↔
      sizeofManifest < (Manifest.ofBytes stream).announced ∧
        (Manifest.ofBytes stream).announced ∈ ends := by
    constructor
    · rintro ⟨member, cut, _, enough, below⟩
      exact ⟨lt_of_le_of_lt enough below, member⟩
    · rintro ⟨behind, member⟩
      exact ⟨member, sizeofManifest, first, le_rfl, behind⟩
  unfold outcomeOf
  rw [if_neg (not_lt.mpr (le_of_lt long))]
  by_cases accepted : Accepted crypto sf version (Manifest.ofBytes stream)
  · rw [if_neg (not_not.mpr accepted)]
    by_cases more : stream.length < (Manifest.ofBytes stream).announced
    · rw [if_pos (Or.inr more)]
      constructor
      · rintro ⟨memory', waiting⟩
        cases waiting
      · rintro ⟨_, ⟨within, _⟩, _⟩
        omega
    · rw [if_neg (not_or.mpr ⟨early, more⟩)]
      constructor
      · rintro ⟨memory', ended⟩
        split at ended
        · rename_i both
          exact ⟨accepted, ⟨not_lt.mp more, exactly.mp both.1⟩, both.2⟩
        · cases ended
      · rintro ⟨_, ⟨_, ends'⟩, passes⟩
        exact ⟨_, if_pos ⟨exactly.mpr ends', passes⟩⟩
  · rw [if_pos accepted]
    constructor
    · rintro ⟨memory', failed⟩
      cases failed
    · rintro ⟨accepts, _⟩
      exact absurd accepts accepted

/-- What the slot that will be written holds behind some address once it is open. -/
def slotTail (memory : Contents) (address count : Nat) : List UInt8 :=
  readRange (opened erased (oldestSlot table memory).id memory (oldestSlot table memory).id)
    address count

/-- As much is announced as arrives; or less, cut between two blocks, and the slot already holds
bytes that make up a firmware of the right digest. -/
def Announces (memory : Contents) (mt : Manifest) (firmware : List UInt8) : Prop :=
  mt.getPropSize = firmware.length ∨
    (blockBytes ∣ mt.getPropSize ∧ 0 < mt.getPropSize ∧ mt.getPropSize < firmware.length ∧
      mt.getDigest = crypto.digest (firmware.take mt.getPropSize ++
        slotTail erased table memory (sizeofManifest + mt.getPropSize)
          (firmware.length - mt.getPropSize)))

section File

variable {crypto sf} {x y : List UInt8} {version : Nat} (file : UpdateFile crypto sf x y version)

/-- The bytes of an update file. -/
def UpdateFile.bytes : List UInt8 := file.mt.bytes ++ file.firmware

theorem UpdateFile.bytes_length : file.bytes.length = sizeofManifest + file.firmware.length := by
  rw [UpdateFile.bytes, List.length_append, file.mt.length_eq]

theorem UpdateFile.bytes_manifest : Manifest.ofBytes file.bytes = file.mt := by
  rw [UpdateFile.bytes, Manifest.ofBytes_append (le_of_eq file.mt.length_eq.symm),
    Manifest.ofBytes_self]

/-- The update with another server part. -/
def UpdateFile.withManifest (mt : Manifest)
    (vendorSide : ∀ field : Field, field.offset + field.size ≤ Field.serverSignatureR.offset →
      mt.get field = file.mt.get field) : UpdateFile crypto sf x y version where
  mt := mt
  firmware := file.firmware
  vendor_signed := by
    have signed := file.vendor_signed
    unfold vendorSigned at signed ⊢
    rwa [vendorSide _ (by decide), vendorSide _ (by decide), vendorSide _ (by decide)]
  offset := (congrArg ofLE (vendorSide _ (by decide))).trans file.offset
  newer := lt_of_lt_of_eq file.newer (congrArg ofLE (vendorSide _ (by decide))).symm
  appid := (congrArg ofLE (vendorSide _ (by decide))).trans file.appid
  key_x := (vendorSide _ (by decide)).trans file.key_x
  key_y := (vendorSide _ (by decide)).trans file.key_y
  long := file.long
  size := (congrArg ofLE (vendorSide _ (by decide))).trans file.size
  digest := (vendorSide _ (by decide)).trans file.digest
  addressable := file.addressable

/-- The update as it is stored. -/
def UpdateFile.stored : UpdateFile crypto sf x y version :=
  file.withManifest file.mt.full fun field vendorSide => file.mt.full_get
    (Or.inr (le_trans vendorSide (by decide)))

/-- The manifest of an update passes when its server signature does. -/
theorem UpdateFile.verifyManifest_iff :
    verifyManifest crypto file.mt sf = .success ↔ serverSigned crypto file.mt = true := by
  rw [verifyManifest_success_iff, verifySignature_success_iff]
  exact ⟨fun all => all.2.2, fun signed => ⟨file.appid, file.vendor_signed, signed⟩⟩

/-- **The verdict on a slot** that holds an update up to some byte of its firmware. -/
theorem UpdateFile.slotVerdict_cut (space : Nat → UInt8) {count : Nat}
    (within : count ≤ file.firmware.length) :
    slotVerdict crypto sf
        (writeRange space 0 (file.stored.mt.bytes ++ file.firmware.take count)) = .success ↔
      serverSigned crypto file.mt.full = true ∧ file.mt.getDigest =
        crypto.digest (file.firmware.take count ++
          readRange space (sizeofManifest + count) (file.firmware.length - count)) := by
  have taken : (file.firmware.take count).length = count := by
    rw [List.length_take, min_eq_left within]
  have image : (file.stored.mt.bytes ++ file.firmware.take count).length =
      sizeofManifest + count := by
    rw [List.length_append, file.stored.mt.length_eq, taken]
  have manifest : readRange (writeRange space 0 (file.stored.mt.bytes ++ file.firmware.take count))
      0 sizeofManifest = file.stored.mt.bytes := by
    rw [readRange_writeRange_inside space (by omega), slice, List.drop_zero,
      List.take_left' file.stored.mt.length_eq]
  have firmware : readRange
      (writeRange space 0 (file.stored.mt.bytes ++ file.firmware.take count)) sizeofManifest
        file.firmware.length = file.firmware.take count ++
          readRange space (sizeofManifest + count) (file.firmware.length - count) := by
    have split : file.firmware.length = count + (file.firmware.length - count) := by omega
    conv_lhs => rw [split]
    rw [readRange_add, readRange_writeRange_inside space (by omega), slice,
      List.drop_left' file.stored.mt.length_eq, List.take_of_length_le (le_of_eq taken),
      readRange_writeRange_disjoint space (Or.inr (by omega))]
  rw [slotVerdict_space crypto sf manifest (by rw [file.stored.size]; exact file.long)
    (by rw [file.stored.offset, file.stored.size]; exact file.addressable),
    file.stored.verifyManifest_iff, file.stored.offset, file.stored.size]
  show serverSigned crypto file.mt.full = true ∧ file.mt.full.getDigest = crypto.digest (readRange
    (writeRange space 0 (file.stored.mt.bytes ++ file.firmware.take count)) sizeofManifest
      file.firmware.length) ↔ _
  rw [firmware, Manifest.getDigest, file.mt.full_get (by decide)]
  rfl

variable {file} {ctx : FsmCtx} {inputs : List FsmInput}

/-- **A file that arrives in blocks** ends in a reboot exactly when the server's signature passes,
still passes on the stored manifest, and as much is announced as arrives. -/
theorem reboots_inBlocks_iff (memory : Contents) (session : Collecting ctx [])
    (same : ctx.version = version) (arriving : InBlocks file.bytes inputs) :
    Reboots erased crypto table sf inputs ctx memory ↔
      serverSigned crypto file.mt = true ∧ serverSigned crypto file.mt.full = true ∧
        Announces erased crypto table memory file.mt file.firmware := by
  have long := file.long
  have bufferSize : fsmBufferSize = 1024 := rfl
  have manifestSize : sizeofManifest = 256 := rfl
  have block : blockBytes = 256 := rfl
  have total := file.bytes_length
  have addressable := file.addressable
  have nonempty := inBlocks_nonempty arriving
    (List.ne_nil_of_length_pos (by omega))
  have first : sizeofManifest ∈ cuts 0 inputs :=
    (mem_cuts_inBlocks arriving).mpr (Or.inr ⟨1, one_pos, by omega, by omega⟩)
  have prop := file.mt.getPropSize_lt
  have announced : file.mt.announced = (sizeofManifest + file.mt.getPropSize) % 2 ^ 32 := by
    rw [Manifest.announced, file.offset]
  have image : ∀ count, count ≤ file.firmware.length → sizeofManifest + count < 2 ^ 32 →
      file.mt.getPropSize = count → announcedImage erased table memory file.bytes =
        writeRange (opened erased (oldestSlot table memory).id memory
          (oldestSlot table memory).id) 0
            (file.stored.mt.bytes ++ file.firmware.take count) := by
    intro count within small size
    have ends : file.mt.announced = sizeofManifest + count := by
      rw [announced, size, Nat.mod_eq_of_lt small]
    rw [announcedImage, imageIn, file.bytes_manifest, ends, storedStream, file.bytes_manifest,
      UpdateFile.bytes, List.drop_left' file.mt.length_eq, ← file.mt.full.length_eq,
      List.take_length_add_append]
    rfl
  rw [reboots_iff_outcome, outcome_collecting erased crypto table sf inputs nonempty memory session,
    streamOf_inBlocks arriving, List.nil_append, List.length_nil, same,
    outcomeOf_reboot erased crypto table sf (by omega) first, file.bytes_manifest, total]
  have accepted : Accepted crypto sf version file.mt ↔ serverSigned crypto file.mt = true := by
    rw [Accepted, file.verifyManifest_iff]
    exact and_iff_right file.newer
  rw [accepted, mem_cuts_inBlocks arriving, total]
  refine and_congr_right fun _ => ?_
  constructor
  · rintro ⟨⟨within, behind, ends⟩, passes⟩
    -- The address space does not wrap around: a manifest that does announces less than itself.
    have size : file.mt.announced = sizeofManifest + file.mt.getPropSize := by
      rw [announced] at behind ⊢
      omega
    rw [size] at within behind ends
    rw [image _ (by omega) (by omega) rfl, file.slotVerdict_cut _ (by omega)] at passes
    refine ⟨passes.1, ?_⟩
    rcases ends with whole | ⟨count, positive, cut, _⟩
    · exact Or.inl (by omega)
    · by_cases whole : file.mt.getPropSize = file.firmware.length
      · exact Or.inl whole
      · refine Or.inr ⟨⟨count - 1, ?_⟩, by omega, by omega, passes.2⟩
        rw [block] at cut ⊢
        omega
  · rintro ⟨stored, whole | ⟨⟨count, multiple⟩, positive, below, digest⟩⟩
    · have size : file.mt.announced = sizeofManifest + file.firmware.length := by
        rw [announced, whole]
        omega
      rw [size, image _ le_rfl (by omega) whole, file.slotVerdict_cut _ le_rfl]
      refine ⟨⟨by omega, by omega, Or.inl (by omega)⟩, stored, ?_⟩
      rw [Nat.sub_self, List.take_length, readRange, List.append_nil]
      exact file.digest
    · have size : file.mt.announced = sizeofManifest + file.mt.getPropSize := by
        rw [announced]
        omega
      rw [size, image _ (by omega) (by omega) rfl, file.slotVerdict_cut _ (by omega)]
      refine ⟨⟨by omega, by omega, Or.inr ⟨count + 1, Nat.succ_pos _, ?_, by omega⟩⟩, stored, digest⟩
      rw [multiple, block]
      omega

end File

/-! ### What a device is served -/

section Served

variable {ctx : FsmCtx} {nonce : Nonce} {input : FsmInput}

/-- The message a session sends: the buffer `fsm` has filled in, with the offset to go on from. -/
def sentMsg (input : FsmInput) (ctx : FsmCtx) (memory : Contents) : List UInt8 :=
  updateReceiverMsg (fsm (plain (fullLayout erased)) crypto table sf input ctx memory).ctx
    (fsm (plain (fullLayout erased)) crypto table sf input ctx memory).buf

/-- **The message** names the device, its version and the nonce, and asks for the whole file. -/
theorem sentMsg_fields (memory : Contents) (starting : ctx.state = .startUpdate)
    (fresh : ctx.processed = 0) (room : input.buf.data.length = sizeofReceiverMsg)
    (generated : input.rng = .ok nonce) :
    (sentMsg erased crypto table sf input ctx memory).length = sizeofReceiverMsg ∧
      msgOffset (sentMsg erased crypto table sf input ctx memory) = 0 ∧
      msgUdid (sentMsg erased crypto table sf input ctx memory) = ofLE (toLE 2 sf.udid) ∧
      msgNonce (sentMsg erased crypto table sf input ctx memory) = ofLE nonce.bytes ∧
      msgVersion (sentMsg erased crypto table sf input ctx memory) =
        ofLE (toLE 2 ctx.version) := by
  have size : input.buf.data.length = 16 := room
  have sent : sentMsg erased crypto table sf input ctx memory =
      splice (splice (splice (splice input.buf.data 0 (toLE 2 sf.udid)) 8 (toLE 2 ctx.version)) 4
        nonce.bytes) 12 (toLE 4 0) := by
    rw [sentMsg, fsm_startUpdate_begun (plain (fullLayout erased)) crypto table sf memory starting
      (by omega) generated]
    show splice _ 12 (toLE 4 ctx.processed) = _
    rw [fresh]
    rfl
  have length1 : (splice input.buf.data 0 (toLE 2 sf.udid)).length = 16 := by
    rw [splice_length (by rw [toLE_length]; omega), size]
  have length2 : (splice (splice input.buf.data 0 (toLE 2 sf.udid)) 8
      (toLE 2 ctx.version)).length = 16 := by
    rw [splice_length (by rw [toLE_length]; omega), length1]
  have length3 : (splice (splice (splice input.buf.data 0 (toLE 2 sf.udid)) 8
      (toLE 2 ctx.version)) 4 nonce.bytes).length = 16 := by
    rw [splice_length (by rw [nonce.length_eq]; omega), length2]
  have fits3 : 4 + nonce.bytes.length ≤ (splice (splice input.buf.data 0 (toLE 2 sf.udid)) 8
      (toLE 2 ctx.version)).length := by
    rw [nonce.length_eq]
    omega
  have fits4 : 12 + (toLE 4 0).length ≤ (splice (splice (splice input.buf.data 0
      (toLE 2 sf.udid)) 8 (toLE 2 ctx.version)) 4 nonce.bytes).length := by
    rw [toLE_length]
    omega
  rw [sent]
  refine ⟨?_, ?_, ?_, ?_, ?_⟩
  · rw [splice_length fits4, length3]
    rfl
  · exact (congrArg ofLE (slice_splice_self (by omega))).trans (by decide)
  · refine congrArg ofLE ?_
    rw [slice_splice_disjoint fits4 (Or.inl (by decide)),
      slice_splice_disjoint fits3 (Or.inl (by decide)),
      slice_splice_disjoint (by rw [toLE_length]; omega) (Or.inl (by decide))]
    exact slice_splice_self (Nat.zero_le _)
  · refine congrArg ofLE ?_
    rw [slice_splice_disjoint fits4 (Or.inl (by decide)), ← nonce.length_eq]
    exact slice_splice_self (by omega)
  · refine congrArg ofLE ?_
    rw [slice_splice_disjoint fits4 (Or.inl (by decide)),
      slice_splice_disjoint fits3 (Or.inr (by rw [nonce.length_eq]))]
    exact slice_splice_self (by omega)

/-- The file names the device and the nonce of the session already. -/
def Current (nonce : Nonce) (mt : Manifest) : Prop :=
  mt.get .udid = toLE 2 sf.udid ∧ mt.get .nonce = nonce.bytes

instance (nonce : Nonce) (mt : Manifest) : Decidable (Current sf nonce mt) :=
  inferInstanceAs (Decidable (_ ∧ _))

theorem sentMsg_stale_iff (memory : Contents) (mt : Manifest) (starting : ctx.state = .startUpdate)
    (fresh : ctx.processed = 0) (room : input.buf.data.length = sizeofReceiverMsg)
    (generated : input.rng = .ok nonce) :
    Stale (sentMsg erased crypto table sf input ctx memory) mt ↔ ¬ Current sf nonce mt := by
  obtain ⟨_, _, udid, number, _⟩ :=
    sentMsg_fields erased crypto table sf memory starting fresh room generated
  have sameUdid : mt.getUdid = ofLE (toLE 2 sf.udid) ↔ mt.get .udid = toLE 2 sf.udid :=
    ⟨ofLE_injective (by rw [Manifest.get_length, toLE_length]; rfl), congrArg ofLE⟩
  have sameNonce : mt.getNonce = ofLE nonce.bytes ↔ mt.get .nonce = nonce.bytes :=
    ⟨ofLE_injective (by rw [Manifest.get_length, nonce.length_eq]; rfl), congrArg ofLE⟩
  rw [Stale, udid, number, Current, not_and_or, ne_eq, ne_eq, sameUdid, sameNonce]

variable {signer : Signer} {x y : List UInt8} {inputs : List FsmInput}

section Session

variable {crypto sf} (ctx) (file : UpdateFile crypto sf x y ctx.version)

/-- The manifest that is served to a session. -/
def sentManifest (signer : Signer) (input : FsmInput) (memory : Contents) : Manifest :=
  servedManifest crypto signer (sentMsg erased crypto table sf input ctx memory)
    (sizeofManifest + file.firmware.length) file.mt

/-- The calls that pass on what the server answers to the message of a session. -/
def PassesOn (signer : Signer) (coap : Coap) (input : FsmInput) (memory : Contents)
    (inputs : List FsmInput) : Prop :=
  inputs.map (fun call => call.buf.data) =
    served crypto signer coap (sentMsg erased crypto table sf input ctx memory)
      (ServerCtx.ofParts file.mt file.firmware)

variable {ctx}

variable (laws : KeyLaws crypto signer x y) (coap : Coap) (memory : Contents)
  (starting : ctx.state = .startUpdate) (fresh : ctx.processed = 0)
  (room : input.buf.data.length = sizeofReceiverMsg) (generated : input.rng = .ok nonce)

include laws starting fresh room generated

/-- What is served can be passed on: every block is short. -/
theorem passesOn_exists :
    ∃ inputs, PassesOn erased table ctx file signer coap input memory inputs := by
  obtain ⟨length, offset, _⟩ :=
    sentMsg_fields erased crypto table sf memory starting fresh room generated
  have blocks := served_blocks crypto signer coap file.mt file.firmware laws.signs length offset
  have short : ∀ block ∈ served crypto signer coap
      (sentMsg erased crypto table sf input ctx memory)
      (ServerCtx.ofParts file.mt file.firmware), block.length < 2 ^ 31 := by
    rw [blocks]
    intro block member
    have width : blockBytes = 256 := rfl
    rcases List.mem_append.mp member with full | last
    · rw [fullBlocks_length blockBytes_pos _ _ full]
      decide
    · rw [List.mem_singleton.mp last]
      exact lt_of_le_of_lt (heldBack_length_le blockBytes_pos _) (by decide)
  refine ⟨List.pmap callWith _ short, ?_⟩
  rw [PassesOn, List.map_pmap]
  exact List.pmap_eq_self.mpr fun _ _ => rfl

/-- **What a session is served** ends in a reboot exactly when the manifest it is served passes,
before and after it is stored, and announces what arrives. -/
theorem reboots_served_iff
    (passed : PassesOn erased table ctx file signer coap input memory inputs) :
    Reboots erased crypto table sf inputs
        (fsm (plain (fullLayout erased)) crypto table sf input ctx memory).ctx
        (fsm (plain (fullLayout erased)) crypto table sf input ctx memory).memory ↔
      serverSigned crypto (sentManifest erased table ctx file signer input memory) = true ∧
        (sentManifest erased table ctx file signer input memory).getDiffVersion = 0 ∧
        Announces erased crypto table memory (sentManifest erased table ctx file signer input memory)
          file.firmware := by
  obtain ⟨length, offset, _⟩ :=
    sentMsg_fields erased crypto table sf memory starting fresh room generated
  let sent := file.withManifest (sentManifest erased table ctx file signer input memory)
    fun field vendorSide => servedManifest_get crypto signer _ _ _ vendorSide
  have arriving : InBlocks sent.bytes inputs :=
    passed.trans (served_blocks crypto signer coap file.mt file.firmware laws.signs length offset)
  have call := fsm_startUpdate_begun (plain (fullLayout erased)) crypto table sf memory starting
    (le_of_eq room.symm) generated
  have session : Collecting (ctx.begun nonce) [] := ⟨rfl, fresh, by decide, rfl⟩
  rw [call, reboots_inBlocks_iff erased table memory session rfl arriving]
  refine and_congr_right fun signed => ?_
  rw [serverSigned_full_iff laws sent.key_x sent.key_y signed]
  rfl

/-- **A file signed for the session** is accepted by a device of version `0` only. -/
theorem reboots_resigned_iff
    (passed : PassesOn erased table ctx file signer coap input memory inputs)
    (stale : ¬ Current sf nonce file.mt) :
    Reboots erased crypto table sf inputs
        (fsm (plain (fullLayout erased)) crypto table sf input ctx memory).ctx
        (fsm (plain (fullLayout erased)) crypto table sf input ctx memory).memory ↔
      ctx.version = 0 := by
  obtain ⟨_, _, _, _, version⟩ :=
    sentMsg_fields erased crypto table sf memory starting fresh room generated
  have small : ctx.version < 256 ^ 2 := lt_of_lt_of_le file.newer (le_of_lt file.mt.getVersion_lt)
  rw [ofLE_toLE small] at version
  have resigned : sentManifest erased table ctx file signer input memory = (signManifestServer crypto
      signer (assignServer (sentMsg erased crypto table sf input ctx memory)
        (sizeofManifest + file.firmware.length) file.mt)).2 :=
    if_pos ((sentMsg_stale_iff erased crypto table sf memory file.mt starting fresh room
      generated).mpr stale)
  have addressable := file.addressable
  have manifestSize : sizeofManifest = 256 := rfl
  have served := reboots_served_iff erased table file laws coap memory starting fresh room
    generated passed
  generalize sentMsg erased crypto table sf input ctx memory = msg at *
  obtain ⟨_, _, diffVersion, propSize⟩ :=
    assignServer_fields msg (sizeofManifest + file.firmware.length) file.mt
  rw [resigned] at served
  have signed : serverSigned crypto (signManifestServer crypto signer (assignServer msg
      (sizeofManifest + file.firmware.length) file.mt)).2 = true :=
    serverSigned_signManifestServer laws.verifies
      ((assignServer_get msg _ _ (by decide) (by decide) (by decide) (by decide)).trans file.key_x)
      ((assignServer_get msg _ _ (by decide) (by decide) (by decide) (by decide)).trans file.key_y)
  have diff : (signManifestServer crypto signer (assignServer msg
      (sizeofManifest + file.firmware.length) file.mt)).2.getDiffVersion = ctx.version := by
    rw [Manifest.getDiffVersion, signManifestServer,
      setServerSignature_get _ _ (by decide) (by decide), diffVersion, version, ofLE_toLE small]
  have announced : (signManifestServer crypto signer (assignServer msg
      (sizeofManifest + file.firmware.length) file.mt)).2.getPropSize = file.firmware.length := by
    rw [Manifest.getPropSize, signManifestServer,
      setServerSignature_get _ _ (by decide) (by decide), propSize, Nat.add_sub_cancel_left,
      ofLE_toLE (by omega)]
  rw [served, diff]
  exact ⟨fun all => all.2.1, fun zero => ⟨signed, zero, Or.inl announced⟩⟩

/-- **Exactly when a device accepts what the server serves it**: the file is signed for the session
and the device has version `0`; or the file names the session already, is signed, has no diff
version and announces what arrives. -/
theorem served_accepted_iff
    (passed : PassesOn erased table ctx file signer coap input memory inputs) :
    Reboots erased crypto table sf inputs
        (fsm (plain (fullLayout erased)) crypto table sf input ctx memory).ctx
        (fsm (plain (fullLayout erased)) crypto table sf input ctx memory).memory ↔
      if Current sf nonce file.mt then
        serverSigned crypto file.mt = true ∧ file.mt.getDiffVersion = 0 ∧
          Announces erased crypto table memory file.mt file.firmware
      else ctx.version = 0 := by
  split
  · rename_i current
    have unchanged : sentManifest erased table ctx file signer input memory = file.mt := by
      refine if_neg fun stale => ?_
      exact (sentMsg_stale_iff erased crypto table sf memory file.mt starting fresh room
        generated).mp stale current
    rw [reboots_served_iff erased table file laws coap memory starting fresh room generated passed,
      unchanged]
  · rename_i stale
    exact reboots_resigned_iff erased table file laws coap memory starting fresh room generated
      passed stale

end Session

end Served

end Accepted

/-! ### The signed update from a server -/

/-- The signer of `mirrorCrypto` for a key of zeros. -/
def mirrorSigner : Signer where
  eccSign := fun hash => (.success, (hash ++ List.replicate 32 0).take 32 ++ List.replicate 32 0)
  width := fun hash => by simp

theorem mirrorSigner_laws : KeyLaws mirrorCrypto mirrorSigner (List.replicate 32 0)
    (List.replicate 32 0) where
  signs := fun _ => rfl
  verifies := by
    intro hash length
    have signature : ((hash ++ List.replicate 32 0).take 32 : List UInt8) = hash :=
      List.take_left' length
    show (if _ ∧ _ then _ else _) = _
    refine if_pos ⟨?_, ?_⟩
    · show ((hash ++ List.replicate 32 0).take 32 ++ List.replicate 32 0).take 32 = hash
      rw [signature, List.take_left' length]
    · show ((hash ++ List.replicate 32 0).take 32 ++ List.replicate 32 0).drop 32 = _
      rw [signature, List.drop_left' length]
  one_hash := by
    intro r s hash other first second
    have passes : ∀ hash, mirrorCrypto.eccVerify (List.replicate 32 0) (List.replicate 32 0) r s
        hash = .success → r = hash := by
      intro hash success
      by_contra differ
      have failed : mirrorCrypto.eccVerify (List.replicate 32 0) (List.replicate 32 0) r s hash =
          .verificationFailed := if_neg fun both => differ both.1
      rw [failed] at success
      cases success
    exact (passes hash first).symm.trans (passes other second)
  collision_free := by
    intro part other length length' same
    have prefix' : ∀ data : List UInt8, data.length = Field.server.size →
        (mirrorCrypto.digest data).take 20 = data := by
      intro data size
      have width : data.length = 20 := size
      show ((data ++ List.replicate 32 0).take 32).take 20 = data
      rw [List.take_take, min_eq_left (by decide), List.take_left' width]
    rw [← prefix' part length, ← prefix' other length', same]

/-- Block-wise transfer for blocks of any size. -/
def plainCoap : Coap where
  addBlock := fun block data =>
    if block.num * 2 ^ (block.szx + 4) < data.length then
      some ((data.drop (block.num * 2 ^ (block.szx + 4))).take (2 ^ (block.szx + 4)),
        decide (block.num * 2 ^ (block.szx + 4) + 2 ^ (block.szx + 4) < data.length))
    else none
  addBlock_inside := by
    intro num data inside
    have size : 2 ^ (blockSize + 4) = blockBytes := by decide
    simp only [size, if_pos inside]

/-- The signed update, for a device of an older version. -/
def signedFile {version : Nat} (old : version < 2) :
    UpdateFile mirrorCrypto zeroSafestore (List.replicate 32 0) (List.replicate 32 0) version where
  mt := Manifest.ofBytes signedManifest
  firmware := zeroFirmware
  vendor_signed := by decide
  offset := by decide
  newer := lt_of_lt_of_eq old (by decide)
  appid := by decide
  key_x := by decide
  key_y := by decide
  long := by rw [zeroFirmware, List.length_replicate]; decide
  size := by
    rw [zeroFirmware, List.length_replicate]
    decide
  digest := by decide
  addressable := by
    rw [zeroFirmware, List.length_replicate]
    decide

/-- A call for a message, and a generator that answers ones. -/
def onesCall : FsmInput :=
  ⟨messageCall.buf, .ok ⟨List.replicate 4 1, rfl⟩⟩

/-- A device that has been told of a newer version. -/
def toldCtx (version : Nat) : FsmCtx :=
  { FsmCtx.zero with state := .startUpdate, version := version }

theorem signedFile_passesOn {version : Nat} (old : version < 2) : ∃ inputs,
    PassesOn none twoSlots (toldCtx version) (signedFile old) mirrorSigner plainCoap onesCall
      (fun _ _ => 0) inputs :=
  passesOn_exists none twoSlots (signedFile old) mirrorSigner_laws plainCoap (fun _ _ => 0) rfl rfl
    rfl rfl

/-- **A device without a firmware accepts the update**, signed for its nonce. -/
theorem served_first_install : ∃ inputs,
    PassesOn none twoSlots (toldCtx 0) (signedFile (by decide)) mirrorSigner plainCoap onesCall
        (fun _ _ => 0) inputs ∧
      Reboots none mirrorCrypto twoSlots zeroSafestore inputs
        (fsm (plain (fullLayout none)) mirrorCrypto twoSlots zeroSafestore onesCall (toldCtx 0)
          fun _ _ => 0).ctx
        (fsm (plain (fullLayout none)) mirrorCrypto twoSlots zeroSafestore onesCall (toldCtx 0)
          fun _ _ => 0).memory := by
  obtain ⟨inputs, passed⟩ := signedFile_passesOn (show 0 < 2 by decide)
  refine ⟨inputs, passed, (served_accepted_iff none twoSlots (signedFile (by decide))
    mirrorSigner_laws plainCoap (fun _ _ => 0) rfl rfl rfl rfl passed).mpr ?_⟩
  rw [if_neg (by decide)]
  rfl

/-- **A device of version `1` refuses** the update that the server has signed for it. -/
theorem served_update_refused :
    KeyLaws mirrorCrypto mirrorSigner (List.replicate 32 0) (List.replicate 32 0) ∧
      ¬ ∀ inputs, PassesOn none twoSlots (toldCtx 1) (signedFile (by decide)) mirrorSigner plainCoap
          onesCall (fun _ _ => 0) inputs →
        Reboots none mirrorCrypto twoSlots zeroSafestore inputs
          (fsm (plain (fullLayout none)) mirrorCrypto twoSlots zeroSafestore onesCall (toldCtx 1)
            fun _ _ => 0).ctx
          (fsm (plain (fullLayout none)) mirrorCrypto twoSlots zeroSafestore onesCall (toldCtx 1)
            fun _ _ => 0).memory := by
  refine ⟨mirrorSigner_laws, fun every => ?_⟩
  obtain ⟨inputs, passed⟩ := signedFile_passesOn (show 1 < 2 by decide)
  exact absurd ((reboots_resigned_iff none twoSlots (signedFile (by decide)) mirrorSigner_laws
    plainCoap (fun _ _ => 0) rfl rfl rfl rfl passed (by decide)).mp (every inputs passed))
    (by decide)

end Upkit
