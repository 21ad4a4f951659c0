/-
**From the tool to the running image.**

The vendor packages a binary with `firmware_tool`, the server serves the file and answers whatever it
is asked, a device of version `0` asks it for an update, passes every block on to its state machine
and reboots.

* `UpdateFile.release` — a file that is signed for a session, cut into blocks, is a release.
* `message_eq` — the message that a device sends; `Offers.sent` — what the server prepares for it.
* `served_runs` — after any requests to the server, a device takes what it is served and loads it.
* `packaged_runs` — the same for what `manifest generate` has written in front of its binary.
-/

import Upkit.Agents.Generations
import Upkit.Tool.Manifest

namespace Upkit

open Bytes Blocks

/-! ### A served file as a release -/

section Release

variable {crypto : Crypto} {sf : Safestore} {x y : List UInt8} {version : Nat}

theorem UpdateFile.bytes_ne_nil (file : UpdateFile crypto sf x y version) : file.bytes ≠ [] := by
  apply List.ne_nil_of_length_pos
  rw [file.bytes_length, sizeofManifest]
  omega

/-- Any file can be passed on in blocks. -/
theorem exists_inBlocks (file : List UInt8) : ∃ inputs, InBlocks file inputs := by
  have short : ∀ block ∈ fullBlocks blockBytes file ++ [heldBack blockBytes file],
      block.length < 2 ^ 31 := by
    intro block member
    rcases List.mem_append.mp member with full | last
    · rw [fullBlocks_length blockBytes_pos _ _ full]
      decide
    · rw [List.mem_singleton.mp last]
      exact lt_of_le_of_lt (heldBack_length_le blockBytes_pos _) (by decide)
  refine ⟨List.pmap callWith _ short, ?_⟩
  rw [InBlocks, List.map_pmap]
  exact List.pmap_eq_self.mpr fun _ _ => rfl

/-- In blocks a call begins behind the manifest. -/
theorem inBlocks_behind {file : List UInt8} {inputs : List FsmInput}
    (arriving : InBlocks file inputs) (long : sizeofManifest + blockBytes ≤ file.length) :
    sizeofManifest ≤ (streamOf inputs.dropLast).length := by
  have sent : streamOf inputs.dropLast = (fullBlocks blockBytes file).flatten := by
    rw [streamOf, List.flatMap_def, List.map_dropLast, show inputs.map _ = _ from arriving,
      List.dropLast_concat]
  have split := congrArg List.length (fullBlocks_flatten_append blockBytes_pos file)
  have short := heldBack_length_le blockBytes_pos file
  rw [List.length_append] at split
  rw [sent]
  omega

section Arriving

variable (file : UpdateFile crypto sf x y version) {inputs : List FsmInput}
  (arriving : InBlocks file.bytes inputs)

include arriving

theorem UpdateFile.arriving_manifest : Manifest.ofBytes (streamOf inputs) = file.mt := by
  rw [streamOf_inBlocks arriving, file.bytes_manifest]

theorem UpdateFile.arriving_begins : sizeofManifest ≤ (streamOf inputs.dropLast).length := by
  have long : fsmBufferSize ≤ file.firmware.length := file.long
  have width : fsmBufferSize = 1024 := rfl
  have block : blockBytes = 256 := rfl
  apply inBlocks_behind arriving
  rw [file.bytes_length]
  omega

theorem UpdateFile.arriving_signed (signed : serverSigned crypto file.mt = true) :
    verifyManifest crypto (Manifest.ofBytes (streamOf inputs)) sf = .success := by
  rw [file.arriving_manifest arriving]
  exact file.verifyManifest_iff.mpr signed

theorem UpdateFile.arriving_announced (whole : file.mt.getPropSize = file.firmware.length) :
    (Manifest.ofBytes (streamOf inputs)).announced = (streamOf inputs).length := by
  have addressable := file.addressable
  have width : fsmBufferSize = 1024 := rfl
  rw [file.arriving_manifest arriving, streamOf_inBlocks arriving, file.bytes_length,
    Manifest.announced, file.offset, whole]
  exact Nat.mod_eq_of_lt (by omega)

theorem UpdateFile.arriving_inside : (Manifest.ofBytes (streamOf inputs)).getOffset +
    (Manifest.ofBytes (streamOf inputs)).getSize ≤ (streamOf inputs).length := by
  rw [file.arriving_manifest arriving, streamOf_inBlocks arriving, file.bytes_length, file.offset,
    file.size]

theorem UpdateFile.arriving_fills :
    fsmBufferSize ≤ (Manifest.ofBytes (streamOf inputs)).getSize := by
  rw [file.arriving_manifest arriving, file.size]
  exact file.long

theorem UpdateFile.arriving_digest : (Manifest.ofBytes (streamOf inputs)).getDigest =
    crypto.digest (slice (streamOf inputs) (Manifest.ofBytes (streamOf inputs)).getOffset
      (Manifest.ofBytes (streamOf inputs)).getSize) := by
  rw [file.arriving_manifest arriving, streamOf_inBlocks arriving, file.digest, file.offset,
    file.size, UpdateFile.bytes, slice, List.drop_left' file.mt.length_eq, List.take_length]

end Arriving

/-- **A file in blocks is a release**, if the server's signature passes, there is no diff version and
as much is announced as arrives. -/
def UpdateFile.release (file : UpdateFile crypto sf x y version)
    (signed : serverSigned crypto file.mt = true) (none : file.mt.getDiffVersion = 0)
    (whole : file.mt.getPropSize = file.firmware.length) {inputs : List FsmInput}
    (arriving : InBlocks file.bytes inputs) : Release crypto sf where
  inputs := inputs
  nonempty := inBlocks_nonempty arriving file.bytes_ne_nil
  begins := file.arriving_begins arriving
  full := (congrArg Manifest.getDiffVersion (file.arriving_manifest arriving)).trans none
  signed := file.arriving_signed arriving signed
  announced := file.arriving_announced arriving whole
  inside := file.arriving_inside arriving
  fills := file.arriving_fills arriving
  digest := file.arriving_digest arriving

variable {file : UpdateFile crypto sf x y version} {signed : serverSigned crypto file.mt = true}
  {none : file.mt.getDiffVersion = 0} {whole : file.mt.getPropSize = file.firmware.length}
  {inputs : List FsmInput} {arriving : InBlocks file.bytes inputs}

theorem UpdateFile.release_stream :
    (file.release signed none whole arriving).stream = file.bytes := streamOf_inBlocks arriving

theorem UpdateFile.release_manifest :
    (file.release signed none whole arriving).manifest = file.mt := by
  rw [Release.manifest, UpdateFile.release_stream, file.bytes_manifest]

theorem UpdateFile.release_image :
    (file.release signed none whole arriving).image = file.bytes := by
  rw [Release.image, UpdateFile.release_manifest, UpdateFile.release_stream, file.offset, file.size,
    ← file.bytes_length, List.take_length]

end Release

/-! ### The message of a device -/

section Message

variable (board : Board) (crypto : Crypto) (nonce : Nonce)

/-- The message that a device sends once it has started its state machine, been told of a version
and asked to fill in a message. -/
def Device.message (version : Nat) (device : Device) : List UInt8 :=
  let begun := fsmInit (plain board.layout) board.table .success FsmCtx.zero device.memory
  let told := fsm (plain board.layout) crypto board.table board.cfg.safestore
    (announceCall version nonce) begun.2.1 begun.2.2
  let asked := fsm (plain board.layout) crypto board.table board.cfg.safestore (requestCall nonce)
    told.ctx told.memory
  updateReceiverMsg asked.ctx asked.buf

/-- **The message** is that of a session which begins with the version of the newest bootable
slot. -/
theorem message_eq {version : Nat} (small : version < 2 ^ 16) {device : Device}
    (newer : versionAt device.memory (newestBootable board.table device.memory).id < version) :
    ∃ ctx : FsmCtx, ctx.state = .startUpdate ∧ ctx.processed = 0 ∧
      ctx.version = versionAt device.memory (newestBootable board.table device.memory).id ∧
      device.message board crypto nonce version = sentMsg none crypto board.table
        board.cfg.safestore (requestCall nonce) ctx device.memory := by
  obtain ⟨state, processed, begins, kept⟩ := fsmInit_board board FsmCtx.zero device.memory
  unfold Device.message
  simp only [kept]
  generalize (fsmInit (plain board.layout) board.table .success FsmCtx.zero device.memory).2.1 =
    begun at *
  have parsed : ofLE (announceCall version nonce).buf.data = version := ofLE_toLE small
  have announced := fsm_idle_newer (plain board.layout) crypto board.table board.cfg.safestore
    device.memory state (toLE_length 2 version) (by rw [parsed, begins]; exact newer)
  have room : sizeofReceiverMsg ≤ (requestCall nonce).buf.data.length :=
    le_of_eq (List.length_replicate).symm
  rw [announced]
  refine ⟨{ begun with state := .startUpdate }, rfl, processed, begins, ?_⟩
  rw [sentMsg]
  simp only
  rw [@fsm_startUpdate_begun _ (plain board.layout) crypto board.table board.cfg.safestore
      (requestCall nonce) { begun with state := .startUpdate } nonce device.memory rfl room rfl,
    @fsm_startUpdate_begun _ (plain (fullLayout none)) crypto board.table board.cfg.safestore
      (requestCall nonce) { begun with state := .startUpdate } nonce device.memory rfl room rfl]

end Message

/-! ### From the server to the running image -/

section Served

variable {crypto : Crypto} {signer : Signer} {x y : List UInt8}

/-- What the server part holds once it has been signed for a message. -/
theorem resigned_fields {sf : Safestore} {version : Nat} (laws : KeyLaws crypto signer x y)
    (file : UpdateFile crypto sf x y version) (msg : List UInt8) :
    let mt := (signManifestServer crypto signer
      (assignServer msg (sizeofManifest + file.firmware.length) file.mt)).2
    serverSigned crypto mt = true ∧ mt.getDiffVersion = msgVersion msg ∧
      mt.getPropSize = file.firmware.length := by
  intro mt
  have addressable := file.addressable
  have width : fsmBufferSize = 1024 := rfl
  obtain ⟨_, _, diffVersion, propSize⟩ :=
    assignServer_fields msg (sizeofManifest + file.firmware.length) file.mt
  refine ⟨?_, ?_, ?_⟩
  · exact serverSigned_signManifestServer laws.verifies
      ((assignServer_get msg _ _ (by decide) (by decide) (by decide) (by decide)).trans file.key_x)
      ((assignServer_get msg _ _ (by decide) (by decide) (by decide) (by decide)).trans file.key_y)
  · have small : msgVersion msg < 256 ^ 2 := ofLE_slice_lt msg 8 2
    rw [Manifest.getDiffVersion, show mt = (signManifestServer crypto signer _).2 from rfl,
      signManifestServer, setServerSignature_get _ _ (by decide) (by decide), diffVersion,
      ofLE_toLE small]
  · rw [Manifest.getPropSize, show mt = (signManifestServer crypto signer _).2 from rfl,
      signManifestServer, setServerSignature_get _ _ (by decide) (by decide), propSize,
      Nat.add_sub_cancel_left, ofLE_toLE (by omega)]

/-- **What the server prepares for a message** without a version: the file as it is offered, with a
server part of its own, which is signed and announces the whole firmware. -/
theorem Offers.sent {sf : Safestore} {file : Packaged crypto sf x y} {state : Service}
    (offers : Offers file state) (isSealed : state.sealed = true) {version : Nat}
    (older : version < state.server.manifest.getVersion) (laws : KeyLaws crypto signer x y)
    {msg : List UInt8} (stale : Stale msg state.server.manifest) (zero : msgVersion msg = 0) :
    ∃ sent : UpdateFile crypto sf x y version,
      prepare crypto signer msg state.server =
          (.success, ServerCtx.ofParts sent.mt sent.firmware) ∧
        (serverSigned crypto sent.mt = true ∧ sent.mt.getDiffVersion = 0 ∧
          sent.mt.getPropSize = sent.firmware.length) ∧
        sent.mt.getVersion = state.server.manifest.getVersion ∧ sent.firmware = file.firmware := by
  let update := offers.update isSealed older
  obtain ⟨signed, diff, announced⟩ := resigned_fields laws update msg
  have length : state.server.mappedFile.length = sizeofManifest + update.firmware.length := by
    rw [show update.firmware = state.server.firmware from rfl,
      ← ServerCtx.ofParts_length state.server.manifest, state.server.ofParts_self]
  have vendorSide := signManifestServer_vendorSide crypto signer
    (assignServer_vendorSide msg (sizeofManifest + update.firmware.length) update.mt)
  refine ⟨update.withManifest _ vendorSide, ?_, ⟨signed, diff.trans zero, announced⟩,
    congrArg ofLE (vendorSide .version (by decide)), offers.firmware⟩
  rw [prepare_eq crypto signer msg state.server laws.signs, servedManifest, if_pos stale, length]
  rfl

variable {board : Board} (boots : ∀ slot ∈ board.table.slots.head?, slot.bootable = true)
  (laws : KeyLaws crypto signer x y)

include boots laws

/-- **A device takes what it is served**, after any requests to the server, and loads it: a device of
version `0` of which every slot passes, and a file that is newer than all of them. -/
theorem served_runs {coap : Coap} {file : Packaged crypto board.cfg.safestore x y} {state : Service}
    (reached : (service crypto coap board.cfg.safestore file).Reachable state)
    (isSealed : state.sealed = true) (nonce : Nonce) {device : Device}
    (intact : Intact board crypto device.memory)
    (first : versionAt device.memory (newestBootable board.table device.memory).id = 0)
    (newer : ∀ slot ∈ board.table.slots,
      versionAt device.memory slot.id < (file.mt.getVersion + state.raised) % 2 ^ 16)
    (fresh : ¬ Current board.cfg.safestore nonce state.server.manifest)
    (fits : sizeofManifest + file.firmware.length ≤ board.length)
    (fills : board.cfg.bufferSize ≤ file.firmware.length) :
    ∃ release : Release crypto board.cfg.safestore,
      release.inputs.map (fun call => call.buf.data) = served crypto signer coap
          (device.message board crypto nonce ((file.mt.getVersion + state.raised) % 2 ^ 16))
          state.server ∧
        ∃ device', device.take board nonce release = some device' ∧
          Intact board crypto device'.memory ∧
          device'.booted = (file.mt.getVersion + state.raised) % 2 ^ 16 :: device.booted ∧
          ∃ slot ∈ board.table.slots, slot.bootable = true ∧
            (imageAt device'.memory slot.id).drop sizeofManifest = file.firmware := by
  have offers := service_offers reached
  obtain ⟨⟨best, member, isBest⟩, _⟩ := board.newestBootable_isSlot device.memory
  obtain ⟨ctx, starting, begins, version, message⟩ := message_eq board crypto nonce
    (Nat.mod_lt (file.mt.getVersion + state.raised) (by decide)) (isBest ▸ newer best member)
  have older : ctx.version < state.server.manifest.getVersion := by
    rw [version, ← isBest, offers.version]
    exact newer best member
  have room : (requestCall nonce).buf.data.length = sizeofReceiverMsg := List.length_replicate
  let update := offers.update isSealed older
  obtain ⟨inputs, passes⟩ := passesOn_exists none board.table update laws coap device.memory starting
    begins room rfl
  have passed := (offers.passesOn_iff none board.table device.memory isSealed older).mp passes
  obtain ⟨length, offset, _, _, diffVersion⟩ :=
    sentMsg_fields none crypto board.table board.cfg.safestore device.memory starting begins room rfl
  have stale := (sentMsg_stale_iff none crypto board.table board.cfg.safestore device.memory
    update.mt starting begins room rfl).mpr fresh
  have blocks := served_blocks crypto signer coap update.mt update.firmware laws.signs length offset
  unfold PassesOn at passes
  unfold PassesFrom at passed
  rw [message]
  generalize sentMsg none crypto board.table board.cfg.safestore (requestCall nonce) ctx
    device.memory = msg at *
  have zero : msgVersion msg = 0 := by
    rw [diffVersion, version, first]
    decide
  obtain ⟨sent, prepared, ⟨signed, diff, announced⟩, sentVersion, sentFirmware⟩ :=
    offers.sent isSealed older laws stale zero
  have file_eq : (servedManifest crypto signer msg (sizeofManifest + update.firmware.length)
      update.mt).bytes ++ update.firmware = sent.bytes := by
    have same := prepare_eq crypto signer msg (ServerCtx.ofParts update.mt update.firmware) laws.signs
    rw [ServerCtx.ofParts_length, ServerCtx.ofParts_manifest, ServerCtx.ofParts_firmware,
      show ServerCtx.ofParts update.mt update.firmware = state.server from
        state.server.ofParts_self, prepared] at same
    exact (congrArg ServerCtx.mappedFile (congrArg Prod.snd same)).symm
  rw [file_eq] at blocks
  have arriving : InBlocks sent.bytes inputs := passes.trans blocks
  let release := sent.release signed diff announced arriving
  have releaseVersion : release.version = (file.mt.getVersion + state.raised) % 2 ^ 16 := by
    rw [← offers.version, ← sentVersion]
    exact congrArg Manifest.getVersion UpdateFile.release_manifest
  have suits : release.Suits board := by
    refine ⟨?_, ?_⟩
    · rw [show release.stream = sent.bytes from UpdateFile.release_stream, sent.bytes_length,
        sentFirmware]
      exact fits
    · rw [show release.manifest = sent.mt from UpdateFile.release_manifest, sent.size, sentFirmware]
      exact fills
  obtain ⟨device', taken, intact', booted, slot, inTable, bootable, image, _⟩ :=
    take_release boots nonce release intact (by rw [releaseVersion]; exact newer) suits
  refine ⟨release, passed, device', taken, intact', ?_, slot, inTable, bootable, ?_⟩
  · rw [booted, releaseVersion]
  · rw [image, show release.image = sent.bytes from UpdateFile.release_image, UpdateFile.bytes,
      List.drop_left' sent.mt.length_eq, sentFirmware]

end Served

/-! ### From the tool to the running image -/

section Packaged

variable {board : Board} {crypto : Crypto} {signer : Signer} {x y : List UInt8}
  {sign : List UInt8 → Signer} {fresh : Fresh} {tool : ToolContext}

/-- **What the tool has written, with its binary behind it, can be served**: the binary lies where
the manifest says, it is no shorter than the buffer of the state machine and fits into a slot. -/
theorem packaged_exists {out binary : List UInt8}
    (generated : (manifestGenerateCommand crypto sign fresh tool).outFile = some out)
    (isBinary : tool.binary = some binary)
    (vendorPair : ∀ file ∈ tool.vendorPrivKey, (signerOf sign fresh file).Reports crypto
      board.cfg.safestore.keystore.x board.cfg.safestore.keystore.y)
    (serverKey : ∀ file ∈ tool.serverPubKey,
      (keyHalves fresh file).1.1 = x ∧ (keyHalves fresh file).2.1 = y)
    (behind : tool.offset = sizeofManifest) (appid : tool.appid = board.cfg.safestore.appid)
    (long : fsmBufferSize ≤ binary.length)
    (fits : sizeofManifest + binary.length ≤ board.length) :
    ∃ file : Packaged crypto board.cfg.safestore x y, file.mt = Manifest.ofBytes out ∧
      file.firmware = binary ∧ file.mt.getVersion = tool.version := by
  obtain ⟨serverPubKey, binary', vendorPrivKey, serverPrivKey, generates⟩ :=
    generates_of_outFile generated
  have same : binary' = binary := Option.some.inj (generates.isBinary.symm.trans isBinary)
  subst same
  obtain ⟨version, appid', offset, size, _, digest, keyX, keyY⟩ := generated_fields generates
  obtain ⟨isX, isY⟩ := serverKey _ generates.serverPub
  have small := board.length_lt
  have width : fsmBufferSize = 1024 := rfl
  exact ⟨
    { mt := Manifest.ofBytes out
      firmware := binary'
      vendor_signed := generated_vendorSigned generates (vendorPair _ generates.vendorPriv)
      offset := offset.trans behind
      appid := appid'.trans appid
      key_x := keyX.trans isX
      key_y := keyY.trans isY
      long := long
      size := size.trans (Nat.mod_eq_of_lt (by omega))
      digest := digest
      addressable := by omega }, rfl, rfl, version⟩

/-- **From the tool to the running image.** The vendor packages a binary, and the server answers any
requests. Then a device of version `0`, of which every slot passes and none holds as new a version,
sends its message, passes on what the server answers, reboots, and runs the binary of the vendor; the
version it runs is the one that was packaged, raised by the requests for `next_version`. -/
theorem packaged_runs
    (boots : ∀ slot ∈ board.table.slots.head?, slot.bootable = true)
    (laws : KeyLaws crypto signer x y) {out binary : List UInt8}
    (generated : (manifestGenerateCommand crypto sign fresh tool).outFile = some out)
    (isBinary : tool.binary = some binary)
    (vendorPair : ∀ file ∈ tool.vendorPrivKey, (signerOf sign fresh file).Reports crypto
      board.cfg.safestore.keystore.x board.cfg.safestore.keystore.y)
    (serverKey : ∀ file ∈ tool.serverPubKey,
      (keyHalves fresh file).1.1 = x ∧ (keyHalves fresh file).2.1 = y)
    (behind : tool.offset = sizeofManifest) (appid : tool.appid = board.cfg.safestore.appid)
    (long : fsmBufferSize ≤ binary.length)
    (fits : sizeofManifest + binary.length ≤ board.length)
    (fills : board.cfg.bufferSize ≤ binary.length) :
    ∃ file : Packaged crypto board.cfg.safestore x y,
      file.mt = Manifest.ofBytes out ∧ file.firmware = binary ∧
      ∀ (coap : Coap) (state : Service),
        (service crypto coap board.cfg.safestore file).Reachable state → state.sealed = true →
      ∀ (nonce : Nonce) (device : Device), Intact board crypto device.memory →
        versionAt device.memory (newestBootable board.table device.memory).id = 0 →
        (∀ slot ∈ board.table.slots,
          versionAt device.memory slot.id < (tool.version + state.raised) % 2 ^ 16) →
        ¬ Current board.cfg.safestore nonce state.server.manifest →
      ∃ release : Release crypto board.cfg.safestore,
        release.inputs.map (fun call => call.buf.data) = served crypto signer coap
            (device.message board crypto nonce ((tool.version + state.raised) % 2 ^ 16))
            state.server ∧
          ∃ device', device.take board nonce release = some device' ∧
            Intact board crypto device'.memory ∧
            device'.booted = (tool.version + state.raised) % 2 ^ 16 :: device.booted ∧
            ∃ slot ∈ board.table.slots, slot.bootable = true ∧
              (imageAt device'.memory slot.id).drop sizeofManifest = binary := by
  obtain ⟨file, isOut, isFirmware, version⟩ := packaged_exists generated isBinary vendorPair
    serverKey behind appid long fits
  refine ⟨file, isOut, isFirmware, fun coap state reached isSealed nonce device intact first newer
    current => ?_⟩
  rw [← version] at newer ⊢
  rw [← isFirmware] at fits fills ⊢
  exact served_runs boots laws reached isSealed nonce intact first newer current fits fills

end Packaged

/-! ### A first update -/

/-- A vendor that signs whatever it is given. -/
def ownSigner : Signer where
  eccSign := fun hash => (.success, (hash ++ List.replicate 32 0).take 32 ++ ownKey)
  width := by
    intro hash
    simp [ownKey]

theorem ownSigner_reports : ownSigner.Reports mirrorCrypto ownKey (List.replicate 32 0) := by
  intro hash length _
  have signature : (ownSigner.eccSign hash).2 = hash ++ ownKey := by
    show (hash ++ List.replicate 32 0).take 32 ++ ownKey = hash ++ ownKey
    rw [List.take_left' length]
  rw [signature, List.take_left' length, List.drop_left' length]
  exact if_pos ⟨rfl, rfl⟩

/-- The private keys of the vendor and of the server. -/
def ownSign (key : List UInt8) : Signer := if key = ownKey then ownSigner else mirrorSigner

/-- The vendor packages `1024` zeros as version `2`. -/
def ownTool : ToolContext :=
  { zeroTool with
    vendorPubKey := some (ownKey ++ List.replicate 32 0)
    vendorPrivKey := some ownKey }

/-- The manifest of that. -/
def ownManifest : List UInt8 :=
  (manifestGenerateCommand mirrorCrypto ownSign zeroFresh ownTool).outFile.getD []

theorem ownManifest_generated :
    (manifestGenerateCommand mirrorCrypto ownSign zeroFresh ownTool).outFile = some ownManifest := by
  have written : (manifestGenerateCommand mirrorCrypto ownSign zeroFresh ownTool).outFile.isSome := by
    decide +kernel
  obtain ⟨out, isOut⟩ := Option.isSome_iff_exists.mp written
  rw [ownManifest, isOut]
  rfl

/-- Version `0` in both slots. -/
def firstImages : Contents := fun _ => ownImage 0

theorem firstImages_intact : Intact ownBoard mirrorCrypto firstImages := by
  refine ⟨fun target isSlot => ?_, fun target isSlot => ?_, by decide +kernel⟩
  · rcases isSlot.ofTwo rfl with rfl | rfl
    · exact (isSlot.passes_iff (by decide +kernel) (by decide +kernel)).mpr
        ⟨by decide +kernel, by decide +kernel⟩
    · exact (isSlot.passes_iff (by decide +kernel) (by decide +kernel)).mpr
        ⟨by decide +kernel, by decide +kernel⟩
  · rcases isSlot.ofTwo rfl with rfl | rfl
    · exact ⟨by decide +kernel, by decide +kernel, by decide +kernel⟩
    · exact ⟨by decide +kernel, by decide +kernel, by decide +kernel⟩

theorem fourOnes_length : (List.replicate 4 (1 : UInt8)).length = 4 := List.length_replicate

/-- The nonce of four ones. -/
def onesNonce : Nonce := ⟨List.replicate 4 1, fourOnes_length⟩

theorem ownManifest_stale : ¬ Current ownBoard.cfg.safestore onesNonce
    (Manifest.ofBytes ownManifest) := by
  decide +kernel

theorem ownSign_vendor : signerOf ownSign zeroFresh ownKey = ownSigner := by
  unfold signerOf ownSign
  exact if_pos (by decide)

/-- **The board of version `0`** takes version `2` from the server and runs it. -/
theorem ownBoard_provisioned :
    ∃ release : Release mirrorCrypto ownBoard.cfg.safestore, ∃ device',
      (Device.mk firstImages (some FsmCtx.zero) []).take ownBoard onesNonce release =
          some device' ∧
        device'.booted = [2] ∧ ∃ slot ∈ ownBoard.table.slots, slot.bootable = true ∧
          (imageAt device'.memory slot.id).drop sizeofManifest = zeroFirmware := by
  obtain ⟨file, isOut, _, runs⟩ := @packaged_runs ownBoard mirrorCrypto mirrorSigner
    (List.replicate 32 0) (List.replicate 32 0) ownSign zeroFresh ownTool
    (by decide) mirrorSigner_laws ownManifest zeroFirmware ownManifest_generated rfl
    (by rintro file ⟨⟩; rw [ownSign_vendor]; exact ownSigner_reports)
    (by rintro file ⟨⟩; rw [zeroTool_key]; exact ⟨rfl, rfl⟩)
    rfl rfl (by rw [zeroFirmware, List.length_replicate]; decide)
    (by rw [zeroFirmware, List.length_replicate]; decide)
    (by rw [zeroFirmware, List.length_replicate]; decide)
  have newer : ∀ slot ∈ ownBoard.table.slots,
      versionAt firstImages slot.id < (ownTool.version + 0) % 2 ^ 16 := by
    decide +kernel
  obtain ⟨release, _, device', taken, _, booted, runs'⟩ := runs plainCoap
    ⟨ServerCtx.ofParts file.mt file.firmware, 0, true⟩ (.start rfl) rfl onesNonce
    (Device.mk firstImages (some FsmCtx.zero) []) firstImages_intact (by decide +kernel) newer
    (by rw [ServerCtx.ofParts_manifest, isOut]; exact ownManifest_stale)
  exact ⟨release, device', taken, booted, runs'⟩

end Upkit
