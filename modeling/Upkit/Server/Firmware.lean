/-
**The provisioning server: `resource_firmware` and its client.**

The server keeps the update file mapped. A request carries a `receiver_msg_t`; unless the file
already names its device and nonce, the server part of the manifest is rewritten and signed in
place. Then one block of the file is answered (`resourceFirmware`). `getBlockwise` is the client of
`connection_libcoap.c`: from block `0` on, as long as the answer says that more follows.

* `prepare_again` — a file that is prepared for a message stays as it is.
* `served_blocks` — the client receives the prepared file, cut into blocks of `256` bytes.

The CoAP library (`Coap`) and the signing half of the cryptographic library (`Signer`) are
parameters.
-/

import Upkit.Network.Split

namespace Upkit

open Bytes Blocks

/-! ### Libraries -/

/-- `ecc_sign` with the private key of the server: its result and the `64` bytes of its buffer. -/
structure Signer where
  eccSign : (hash : List UInt8) → PullError × List UInt8
  width : ∀ hash, (eccSign hash).2.length = 64

/-- `coap_block_t`: the number of a block, and the exponent of its size. -/
structure CoapBlock where
  num : Nat
  szx : Nat

/-- `BLOCK_SIZE` of the client: blocks of `256` bytes. -/
def blockSize : Nat := 4

/-- The bytes of such a block. -/
def blockBytes : Nat := 256

theorem blockBytes_pos : 0 < blockBytes := by decide

/-- Block-wise transfer as the CoAP library does it (`coap_write_block_opt`, `coap_add_block`):
the payload of a block and whether more follows, or a refusal. A block of `256` bytes that begins
inside the data is not refused. -/
structure Coap where
  addBlock : CoapBlock → List UInt8 → Option (List UInt8 × Bool)
  addBlock_inside : ∀ num data, num * blockBytes < data.length →
    addBlock ⟨num, blockSize⟩ data = some ((data.drop (num * blockBytes)).take blockBytes,
      decide (num * blockBytes + blockBytes < data.length))

/-- `COAP_RESPONSE_CODE`. -/
inductive ResponseCode
  | content
  | badRequest
  | notFound
  deriving DecidableEq, Repr

/-- A request: what `coap_get_data` finds in it, and its Block2 option. -/
structure Request where
  data : Option (List UInt8)
  block2 : Option CoapBlock

structure Response where
  code : ResponseCode
  payload : List UInt8
  more : Bool

/-- An answer without a payload. -/
def Response.bare (code : ResponseCode) : Response := ⟨code, [], false⟩

/-! ### The message -/

/-- The fields of a `receiver_msg_t`. -/
def msgUdid (msg : List UInt8) : Nat := ofLE (slice msg 0 2)
def msgNonce (msg : List UInt8) : Nat := ofLE (slice msg 4 4)
def msgVersion (msg : List UInt8) : Nat := ofLE (slice msg 8 2)
def msgOffset (msg : List UInt8) : Nat := ofLE (slice msg 12 4)

theorem msgUdid_lt (msg : List UInt8) : msgUdid msg < 256 ^ 2 :=
  ofLE_slice_lt msg 0 2

theorem msgNonce_lt (msg : List UInt8) : msgNonce msg < 256 ^ 4 :=
  ofLE_slice_lt msg 4 4

/-! ### The server -/

/-- `server_ctx_t`: the mapped file, which begins with a manifest. -/
structure ServerCtx where
  mappedFile : List UInt8
  holds : sizeofManifest ≤ mappedFile.length

namespace ServerCtx

/-- `mapped_file_manifest`. -/
def manifest (server : ServerCtx) : Manifest := Manifest.ofBytes server.mappedFile

/-- The file behind its manifest. -/
def firmware (server : ServerCtx) : List UInt8 := server.mappedFile.drop sizeofManifest

/-- A file of a manifest and a firmware. -/
def ofParts (mt : Manifest) (firmware : List UInt8) : ServerCtx :=
  ⟨mt.bytes ++ firmware, by
    rw [List.length_append, mt.length_eq]
    omega⟩

@[simp] theorem ofParts_manifest (mt : Manifest) (firmware : List UInt8) :
    (ofParts mt firmware).manifest = mt := by
  rw [manifest, ofParts, Manifest.ofBytes_append (le_of_eq mt.length_eq.symm),
    Manifest.ofBytes_self]

@[simp] theorem ofParts_firmware (mt : Manifest) (firmware : List UInt8) :
    (ofParts mt firmware).firmware = firmware := by
  rw [ServerCtx.firmware, ofParts, List.drop_left' mt.length_eq]

@[simp] theorem ofParts_length (mt : Manifest) (firmware : List UInt8) :
    (ofParts mt firmware).mappedFile.length = sizeofManifest + firmware.length := by
  rw [ofParts, List.length_append, mt.length_eq]

/-- The parts of a file make up the file. -/
theorem ofParts_self (server : ServerCtx) : ofParts server.manifest server.firmware = server := by
  cases server with
  | mk file holds =>
      simp only [ofParts, manifest, ServerCtx.firmware, Manifest.ofBytes_bytes holds,
        List.take_append_drop]

/-- A write through `mapped_file_manifest`. -/
def setManifest (server : ServerCtx) (mt : Manifest) : ServerCtx := ofParts mt server.firmware

end ServerCtx

section Server

variable (crypto : Crypto) (signer : Signer) (coap : Coap)

/-- `sign_manifest_server`: the signature is stored even when signing fails. -/
def signManifestServer (mt : Manifest) : PullError × Manifest :=
  let hash := crypto.digest (mt.get .server)
  (if (signer.eccSign hash).1 ≠ .success then .generic else .success,
    setServerSignature mt (signer.eccSign hash).2 (signer.width hash))

/-- The server part as `resource_firmware` writes it for a message. -/
def assignServer (msg : List UInt8) (size : Nat) (mt : Manifest) : Manifest :=
  (((mt.setUdid (msgUdid msg)).setNonce (msgNonce msg)).setDiffVersion
    (msgVersion msg)).setPropSize (size - sizeofManifest)

/-- The manifest names another device or another nonce than the message. -/
def Stale (msg : List UInt8) (mt : Manifest) : Prop :=
  mt.getUdid ≠ msgUdid msg ∨ mt.getNonce ≠ msgNonce msg

instance (msg : List UInt8) (mt : Manifest) : Decidable (Stale msg mt) :=
  inferInstanceAs (Decidable (_ ∨ _))

/-- The first half of `resource_firmware`: a stale manifest is rewritten and signed in place. -/
def prepare (msg : List UInt8) (server : ServerCtx) : PullError × ServerCtx :=
  if Stale msg server.manifest then
    let (err, mt) := signManifestServer crypto signer
      (assignServer msg server.mappedFile.length server.manifest)
    (err, server.setManifest mt)
  else (.success, server)

/-- `resource_firmware`. -/
def resourceFirmware (request : Request) (server : ServerCtx) : Response × ServerCtx :=
  match request.data with
  | none => (.bare .badRequest, server)
  | some msg =>
      if msg.length ≠ sizeofReceiverMsg then (.bare .badRequest, server)
      else
        let (err, server) := prepare crypto signer msg server
        if err ≠ .success then (.bare .badRequest, server)
        else if server.mappedFile.length ≤ msgOffset msg then (.bare .notFound, server)
        else
          match coap.addBlock (request.block2.getD ⟨0, 4⟩)
              (server.mappedFile.drop (msgOffset msg)) with
          | none => (.bare .badRequest, server)
          | some (payload, more) => (⟨.content, payload, more⟩, server)

/-- The client of a block-wise request, from a block on: what it hands to its callback. -/
def getBlockwise (msg : List UInt8) : (fuel num : Nat) → ServerCtx → List (List UInt8)
  | 0, _, _ => []
  | fuel + 1, num, server =>
      let (response, server) :=
        resourceFirmware crypto signer coap ⟨some msg, some ⟨num, blockSize⟩⟩ server
      if response.code ≠ .content then []
      else if response.more then response.payload :: getBlockwise msg fuel (num + 1) server
      else [response.payload]

/-- The blocks a client receives for a message; no block is empty, so a file has at most as many
blocks as bytes. -/
def served (msg : List UInt8) (server : ServerCtx) : List (List UInt8) :=
  getBlockwise crypto signer coap msg server.mappedFile.length 0 server

end Server

/-! ### Preparing a file -/

section Prepare

variable (crypto : Crypto) (signer : Signer) (msg : List UInt8)

/-- The manifest that is served for a message. -/
def servedManifest (size : Nat) (mt : Manifest) : Manifest :=
  if Stale msg mt then (signManifestServer crypto signer (assignServer msg size mt)).2 else mt

theorem prepare_eq (server : ServerCtx)
    (signs : ∀ hash, (signer.eccSign hash).1 = .success) :
    prepare crypto signer msg server = (.success, ServerCtx.ofParts
      (servedManifest crypto signer msg server.mappedFile.length server.manifest)
      server.firmware) := by
  unfold prepare servedManifest
  split
  · simp only [signManifestServer, signs, ne_eq, not_true_eq_false, if_false]
    rfl
  · rw [server.ofParts_self]

/-- A signature leaves the fields alone that it does not meet. -/
theorem setServerSignature_get (mt : Manifest) {signature : List UInt8}
    (width : signature.length = 64) {field : Field}
    (apartR : Field.serverSignatureR.Apart field) (apartS : Field.serverSignatureS.Apart field) :
    (setServerSignature mt signature width).get field = mt.get field := by
  rw [setServerSignature, Manifest.get_set_apart _ _ apartS, Manifest.get_set_apart _ _ apartR]

theorem setServerSignature_fields (mt : Manifest) {signature : List UInt8}
    (width : signature.length = 64) :
    (setServerSignature mt signature width).get .serverSignatureR = signature.take 32 ∧
      (setServerSignature mt signature width).get .serverSignatureS = signature.drop 32 := by
  refine ⟨?_, Manifest.get_set_self _ _ _ _⟩
  rw [setServerSignature, Manifest.get_set_apart _ _ (by decide), Manifest.get_set_self]

/-- **A manifest after signing** passes exactly when the stored bytes do, under the key it names. -/
theorem serverSigned_signManifestServer_eq (mt : Manifest) :
    serverSigned crypto (signManifestServer crypto signer mt).2 =
      decide (crypto.eccVerify mt.getServerKeyX mt.getServerKeyY
        ((signer.eccSign (crypto.digest (mt.get .server))).2.take 32)
        ((signer.eccSign (crypto.digest (mt.get .server))).2.drop 32)
        (crypto.digest (mt.get .server)) = .success) := by
  have width := signer.width (crypto.digest (mt.get .server))
  obtain ⟨signatureR, signatureS⟩ := setServerSignature_fields mt width
  have signedX : (setServerSignature mt _ width).getServerKeyX = mt.getServerKeyX :=
    setServerSignature_get mt width (by decide) (by decide)
  have signedY : (setServerSignature mt _ width).getServerKeyY = mt.getServerKeyY :=
    setServerSignature_get mt width (by decide) (by decide)
  rw [serverSigned, signManifestServer, signedX, signedY, signatureR, signatureS,
    setServerSignature_get mt width (by decide) (by decide)]

/-- What the server signs passes under its key. -/
theorem serverSigned_signManifestServer {crypto : Crypto} {signer : Signer} {x y : List UInt8}
    (verifies : ∀ hash, hash.length = 32 → crypto.eccVerify x y ((signer.eccSign hash).2.take 32)
      ((signer.eccSign hash).2.drop 32) hash = .success)
    {mt : Manifest} (keyX : mt.getServerKeyX = x) (keyY : mt.getServerKeyY = y) :
    serverSigned crypto (signManifestServer crypto signer mt).2 = true := by
  rw [serverSigned_signManifestServer_eq, decide_eq_true_eq, keyX, keyY]
  exact verifies _ (crypto.digest_length _)

/-- Writing the server part leaves the fields alone that none of its own meets. -/
theorem assignServer_get (size : Nat) (mt : Manifest) {field : Field}
    (udid : Field.udid.Apart field) (nonce : Field.nonce.Apart field)
    (diffVersion : Field.diffVersion.Apart field) (propSize : Field.propSize.Apart field) :
    (assignServer msg size mt).get field = mt.get field :=
  calc (assignServer msg size mt).get field
      = (((mt.setUdid (msgUdid msg)).setNonce (msgNonce msg)).setDiffVersion
          (msgVersion msg)).get field := Manifest.get_set_apart _ (toLE_length _ _) propSize
    _ = ((mt.setUdid (msgUdid msg)).setNonce (msgNonce msg)).get field :=
          Manifest.get_set_apart _ (toLE_length _ _) diffVersion
    _ = (mt.setUdid (msgUdid msg)).get field := Manifest.get_set_apart _ (toLE_length _ _) nonce
    _ = mt.get field := Manifest.get_set_apart _ (toLE_length _ _) udid

/-- The vendor part and its signature are served as they are. -/
theorem servedManifest_get (size : Nat) (mt : Manifest) {field : Field}
    (vendorSide : field.offset + field.size ≤ Field.serverSignatureR.offset) :
    (servedManifest crypto signer msg size mt).get field = mt.get field := by
  have apart : ∀ other : Field, Field.serverSignatureR.offset ≤ other.offset →
      other.Apart field := fun other behind => Or.inr (le_trans vendorSide behind)
  unfold servedManifest
  split
  · rw [signManifestServer, setServerSignature_get _ _ (apart _ (by decide)) (apart _ (by decide)),
      assignServer_get msg size mt (apart _ (by decide)) (apart _ (by decide))
        (apart _ (by decide)) (apart _ (by decide))]
  · rfl

/-- The fields of the server part as they are written. -/
theorem assignServer_fields (size : Nat) (mt : Manifest) :
    (assignServer msg size mt).get .udid = toLE 2 (msgUdid msg) ∧
      (assignServer msg size mt).get .nonce = toLE 4 (msgNonce msg) ∧
      (assignServer msg size mt).get .diffVersion = toLE 2 (msgVersion msg) ∧
      (assignServer msg size mt).get .propSize = toLE 4 (size - sizeofManifest) := by
  refine ⟨?_, ?_, ?_, Manifest.get_set_self _ _ _ (toLE_length _ _)⟩
  · calc (assignServer msg size mt).get .udid
        = (((mt.setUdid (msgUdid msg)).setNonce (msgNonce msg)).setDiffVersion
            (msgVersion msg)).get .udid := Manifest.get_set_apart _ (toLE_length _ _) (by decide)
      _ = ((mt.setUdid (msgUdid msg)).setNonce (msgNonce msg)).get .udid :=
            Manifest.get_set_apart _ (toLE_length _ _) (by decide)
      _ = (mt.setUdid (msgUdid msg)).get .udid :=
            Manifest.get_set_apart _ (toLE_length _ _) (by decide)
      _ = toLE 2 (msgUdid msg) := Manifest.get_set_self _ _ _ (toLE_length _ _)
  · calc (assignServer msg size mt).get .nonce
        = (((mt.setUdid (msgUdid msg)).setNonce (msgNonce msg)).setDiffVersion
            (msgVersion msg)).get .nonce := Manifest.get_set_apart _ (toLE_length _ _) (by decide)
      _ = ((mt.setUdid (msgUdid msg)).setNonce (msgNonce msg)).get .nonce :=
            Manifest.get_set_apart _ (toLE_length _ _) (by decide)
      _ = toLE 4 (msgNonce msg) := Manifest.get_set_self _ _ _ (toLE_length _ _)
  · calc (assignServer msg size mt).get .diffVersion
        = (((mt.setUdid (msgUdid msg)).setNonce (msgNonce msg)).setDiffVersion
            (msgVersion msg)).get .diffVersion :=
            Manifest.get_set_apart _ (toLE_length _ _) (by decide)
      _ = toLE 2 (msgVersion msg) := Manifest.get_set_self _ _ _ (toLE_length _ _)

/-- What is written and signed for a message names its device and nonce. -/
theorem signManifestServer_current (size : Nat) (mt : Manifest) :
    ¬ Stale msg (signManifestServer crypto signer (assignServer msg size mt)).2 := by
  obtain ⟨udid, nonce, _⟩ := assignServer_fields msg size mt
  rintro (other | other)
  · refine other ?_
    rw [Manifest.getUdid, signManifestServer,
      setServerSignature_get _ _ (by decide) (by decide), udid]
    exact ofLE_toLE (msgUdid_lt msg)
  · refine other ?_
    rw [Manifest.getNonce, signManifestServer,
      setServerSignature_get _ _ (by decide) (by decide), nonce]
    exact ofLE_toLE (msgNonce_lt msg)

/-- What is served is not stale. -/
theorem servedManifest_current (size : Nat) (mt : Manifest) :
    ¬ Stale msg (servedManifest crypto signer msg size mt) := by
  unfold servedManifest
  split
  · exact signManifestServer_current crypto signer msg size mt
  · rename_i current
    exact current

/-- **A prepared file** stays as it is. -/
theorem prepare_again (server : ServerCtx) (signs : ∀ hash, (signer.eccSign hash).1 = .success) :
    prepare crypto signer msg (prepare crypto signer msg server).2 =
      (.success, (prepare crypto signer msg server).2) := by
  rw [prepare_eq crypto signer msg server signs, prepare, ServerCtx.ofParts_manifest,
    if_neg (servedManifest_current crypto signer msg _ _)]

end Prepare

/-! ### Blocks -/

section Transfer

variable (crypto : Crypto) (signer : Signer) (coap : Coap) {msg : List UInt8}

/-- One block of a file that is prepared. -/
theorem resourceFirmware_prepared {server : ServerCtx} (num : Nat)
    (length : msg.length = sizeofReceiverMsg) (offset : msgOffset msg = 0)
    (prepared : prepare crypto signer msg server = (.success, server))
    (inside : num * blockBytes < server.mappedFile.length) :
    resourceFirmware crypto signer coap ⟨some msg, some ⟨num, blockSize⟩⟩ server =
      (⟨.content, (server.mappedFile.drop (num * blockBytes)).take blockBytes,
        decide (num * blockBytes + blockBytes < server.mappedFile.length)⟩, server) := by
  unfold resourceFirmware
  simp only [length, prepared, offset, ne_eq, not_true_eq_false, if_false, List.drop_zero,
    Option.getD_some, coap.addBlock_inside num _ inside]
  rw [if_neg (by omega)]

/-- The client reads a prepared file to its end. -/
theorem getBlockwise_prepared {server : ServerCtx} (length : msg.length = sizeofReceiverMsg)
    (offset : msgOffset msg = 0)
    (prepared : prepare crypto signer msg server = (.success, server)) (fuel num : Nat)
    (inside : num * blockBytes < server.mappedFile.length)
    (enough : server.mappedFile.length - num * blockBytes ≤ fuel) :
    getBlockwise crypto signer coap msg fuel num server =
      fullBlocks blockBytes (server.mappedFile.drop (num * blockBytes)) ++
        [heldBack blockBytes (server.mappedFile.drop (num * blockBytes))] := by
  induction fuel generalizing num with
  | zero => omega
  | succ fuel ih =>
      have next : (num + 1) * blockBytes = num * blockBytes + blockBytes := by ring
      have rest : (server.mappedFile.drop (num * blockBytes)).drop blockBytes =
          server.mappedFile.drop ((num + 1) * blockBytes) := by
        rw [List.drop_drop, next]
      rw [getBlockwise, resourceFirmware_prepared crypto signer coap num length offset prepared
        inside]
      simp only [ne_eq, not_true_eq_false, if_false, decide_eq_true_eq]
      by_cases more : num * blockBytes + blockBytes < server.mappedFile.length
      · have long : blockBytes < (server.mappedFile.drop (num * blockBytes)).length := by
          rw [List.length_drop]
          omega
        have positive := blockBytes_pos
        rw [if_pos more, ih (num + 1) (by omega) (by omega), fullBlocks_long blockBytes_pos long,
          heldBack_long blockBytes_pos long, rest, List.cons_append]
      · have short : (server.mappedFile.drop (num * blockBytes)).length ≤ blockBytes := by
          rw [List.length_drop]
          omega
        rw [if_neg more, fullBlocks_short short, heldBack_short short, List.nil_append,
          List.take_of_length_le short]

/-- The first request prepares the file. -/
theorem resourceFirmware_prepare (server : ServerCtx) (request : Option CoapBlock)
    (signs : ∀ hash, (signer.eccSign hash).1 = .success)
    (length : msg.length = sizeofReceiverMsg) :
    resourceFirmware crypto signer coap ⟨some msg, request⟩ server =
      resourceFirmware crypto signer coap ⟨some msg, request⟩
        (prepare crypto signer msg server).2 := by
  have again := prepare_again crypto signer msg server signs
  have prepared := prepare_eq crypto signer msg server signs
  rw [prepared] at again
  unfold resourceFirmware
  simp only [length, ne_eq, not_true_eq_false, if_false, prepared, again]

/-- **The client receives the prepared file**, in blocks. -/
theorem served_blocks (mt : Manifest) (firmware : List UInt8)
    (signs : ∀ hash, (signer.eccSign hash).1 = .success)
    (length : msg.length = sizeofReceiverMsg) (offset : msgOffset msg = 0) :
    served crypto signer coap msg (ServerCtx.ofParts mt firmware) =
      fullBlocks blockBytes ((servedManifest crypto signer msg
          (sizeofManifest + firmware.length) mt).bytes ++ firmware) ++
        [heldBack blockBytes ((servedManifest crypto signer msg
          (sizeofManifest + firmware.length) mt).bytes ++ firmware)] := by
  have prepared := prepare_eq crypto signer msg (ServerCtx.ofParts mt firmware) signs
  have again := prepare_again crypto signer msg (ServerCtx.ofParts mt firmware) signs
  rw [ServerCtx.ofParts_manifest, ServerCtx.ofParts_firmware, ServerCtx.ofParts_length] at prepared
  rw [prepared] at again
  obtain ⟨count, total⟩ : ∃ count, sizeofManifest + firmware.length = count + 1 :=
    ⟨255 + firmware.length, by rw [sizeofManifest]; omega⟩
  have first : served crypto signer coap msg (ServerCtx.ofParts mt firmware) =
      getBlockwise crypto signer coap msg (sizeofManifest + firmware.length) 0
        (ServerCtx.ofParts (servedManifest crypto signer msg
          (sizeofManifest + firmware.length) mt) firmware) := by
    rw [served, ServerCtx.ofParts_length, total, getBlockwise, getBlockwise,
      resourceFirmware_prepare crypto signer coap _ _ signs length, prepared, total]
  rw [first, getBlockwise_prepared crypto signer coap length offset again _ 0
    (by rw [ServerCtx.ofParts_length, sizeofManifest]; omega)
    (by rw [ServerCtx.ofParts_length]; omega), Nat.zero_mul, List.drop_zero]
  rfl

end Transfer

end Upkit
