/-
**The server over its whole life.**

Every resource of the server answers from one mapped file: `firmware` and `firmware_diff` write the
server part of its manifest and sign it, `next_version` raises the version and signs the vendor part
again, the others only read. Their requests arrive in any order.

* `serveFile` — the half that the two firmware resources share.
* `ResourceCall.handle` — one request to one of the eight resources.
* `service_offers` — the invariant of a run: of the vendor part nothing changes but the version,
  which counts the requests for `next_version`, and it is signed unless the last of these failed.
* `requests_accepted_iff` — so it is known after any requests when a session accepts what it is
  served.
-/

import Upkit.Server.FailedSigning
import Upkit.Server.Signing
import Upkit.Lib.Runs

namespace Upkit

open Bytes Blocks

/-! ### The resources -/

/-- What both firmware resources do with a request: they prepare the manifest for its message, and
answer with one block of the file from the offset of the message on. -/
def serveFile (coap : Coap) (prepare : List UInt8 → ServerCtx → PullError × ServerCtx)
    (request : Request) (server : ServerCtx) : Response × ServerCtx :=
  match request.data with
  | none => (.bare .badRequest, server)
  | some msg =>
      if msg.length ≠ sizeofReceiverMsg then (.bare .badRequest, server)
      else
        let (err, server) := prepare msg server
        if err ≠ .success then (.bare .badRequest, server)
        else if server.mappedFile.length ≤ msgOffset msg then (.bare .notFound, server)
        else
          match coap.addBlock (request.block2.getD ⟨0, 4⟩)
              (server.mappedFile.drop (msgOffset msg)) with
          | none => (.bare .badRequest, server)
          | some (payload, more) => (⟨.content, payload, more⟩, server)

section Resources

variable (crypto : Crypto) (signer : Signer) (coap : Coap)

theorem resourceFirmware_eq :
    resourceFirmware crypto signer coap = serveFile coap (prepare crypto signer) := rfl

/-- The server part as `resource_firmware_diff` writes it for a message: `prop_size` stays. -/
def assignServerDiff (msg : List UInt8) (mt : Manifest) : Manifest :=
  ((mt.setUdid (msgUdid msg)).setNonce (msgNonce msg)).setDiffVersion (msgVersion msg)

/-- The first half of `resource_firmware_diff`. -/
def prepareDiff (msg : List UInt8) (server : ServerCtx) : PullError × ServerCtx :=
  if Stale msg server.manifest then
    let (err, mt) := signManifestServer crypto signer (assignServerDiff msg server.manifest)
    (err, server.setManifest mt)
  else (.success, server)

/-- `resource_firmware_diff`. -/
def resourceFirmwareDiff (request : Request) (server : ServerCtx) : Response × ServerCtx :=
  serveFile coap (prepareDiff crypto signer) request server

/-- `resource_version`. -/
def resourceVersion (server : ServerCtx) : Response :=
  ⟨.content, toLE 2 server.manifest.getVersion, false⟩

/-- `resource_next_version`: the version is raised, and stays raised when signing fails. -/
def resourceNextVersion (server : ServerCtx) : Response × ServerCtx :=
  let currentVersion := (server.manifest.getVersion + 1) % 2 ^ 16
  let (err, mt) := signManifestVendor crypto signer (server.manifest.setVersion currentVersion)
  if err ≠ .success then (.bare .badRequest, server.setManifest mt)
  else (⟨.content, toLE 2 currentVersion, false⟩, server.setManifest mt)

/-- `resource_echo`. -/
def resourceEcho (request : Request) : Response :=
  match request.data with
  | none => .bare .badRequest
  | some data => if data.length = 0 then .bare .badRequest else ⟨.content, data, false⟩

/-- `resource_version_invalid`: the version `0`. -/
def resourceVersionInvalid : Response := ⟨.content, toLE 2 0, false⟩

/-- A block of what a testing resource answers with. -/
def answerBlock (request : Request) (data : List UInt8) : Response :=
  match coap.addBlock (request.block2.getD ⟨0, 4⟩) data with
  | none => .bare .badRequest
  | some (payload, more) => ⟨.content, payload, more⟩

/-- `invalid_manifest`. -/
def invalidManifest : Manifest :=
  (((Manifest.ofBytes []).setSize 0xffffffff).setVersion 0xffff).setAppid 0xffff

/-- `resource_firmware_invalid_size`. -/
def resourceFirmwareInvalidSize (request : Request) : Response :=
  answerBlock coap request invalidManifest.bytes

/-- `resource_firmware_invalid_signature`: every block whose number is a multiple of `42` is cut
`42` bytes too far on. The last of them may reach into what lies behind the mapped file. -/
def resourceFirmwareInvalidSignature (behind : List UInt8) (request : Request)
    (server : ServerCtx) : Response :=
  let num := (request.block2.getD ⟨0, 4⟩).num
  answerBlock coap request (if num % 42 = 0 then
    ((server.mappedFile ++ behind).drop 42).take server.mappedFile.length else server.mappedFile)

end Resources

/-- A request to one of the resources of `init_resources`, with the library as it is then. -/
inductive ResourceCall
  | echo (request : Request)
  | version
  | firmware (signer : Signer) (request : Request)
  | firmwareDiff (signer : Signer) (request : Request)
  | versionInvalid
  | firmwareInvalidSize (request : Request)
  | firmwareInvalidSignature (behind : List UInt8) (request : Request)
  | nextVersion (signer : Signer)

/-- The answer, and the file behind it. -/
def ResourceCall.handle (crypto : Crypto) (coap : Coap) (server : ServerCtx) :
    ResourceCall → Response × ServerCtx
  | echo request => (resourceEcho request, server)
  | version => (resourceVersion server, server)
  | firmware signer request => resourceFirmware crypto signer coap request server
  | firmwareDiff signer request => resourceFirmwareDiff crypto signer coap request server
  | versionInvalid => (resourceVersionInvalid, server)
  | firmwareInvalidSize request => (resourceFirmwareInvalidSize coap request, server)
  | firmwareInvalidSignature behind request =>
      (resourceFirmwareInvalidSignature coap behind request server, server)
  | nextVersion signer => resourceNextVersion crypto signer server

/-! ### What a request leaves of the vendor's side -/

section VendorSide

/-- Two manifests with one vendor part and one signature of it. -/
def SameVendorSide (mt mt' : Manifest) : Prop :=
  ∀ field : Field, field.offset + field.size ≤ Field.serverSignatureR.offset →
    mt'.get field = mt.get field

variable (crypto : Crypto) (signer : Signer) (coap : Coap)

/-- Signing the server part, whether it succeeds or not. -/
theorem signManifestServer_vendorSide {mt mt' : Manifest} (same : SameVendorSide mt mt') :
    SameVendorSide mt (signManifestServer crypto signer mt').2 := by
  intro field vendorSide
  rw [signManifestServer, setServerSignature_get _ _ (Or.inr vendorSide)
    (Or.inr (le_trans vendorSide (by decide)))]
  exact same field vendorSide

/-- A request for the file leaves of it what preparing leaves. -/
theorem serveFile_server (prepare : List UInt8 → ServerCtx → PullError × ServerCtx)
    (request : Request) (server : ServerCtx) :
    (serveFile coap prepare request server).2 = server ∨
      ∃ msg, (serveFile coap prepare request server).2 = (prepare msg server).2 := by
  unfold serveFile
  cases request.data with
  | none => exact Or.inl rfl
  | some msg =>
      simp only
      split
      · exact Or.inl rfl
      · refine Or.inr ⟨msg, ?_⟩
        split
        · rfl
        · split
          · rfl
          · split <;> rfl

/-- What preparing leaves: the firmware, and the vendor's side. -/
structure LeavesVendor (server server' : ServerCtx) : Prop where
  firmware : server'.firmware = server.firmware
  vendorSide : SameVendorSide server.manifest server'.manifest

theorem LeavesVendor.refl (server : ServerCtx) : LeavesVendor server server :=
  ⟨rfl, fun _ _ => rfl⟩

theorem LeavesVendor.sign {server : ServerCtx} {mt : Manifest}
    (same : SameVendorSide server.manifest mt) :
    LeavesVendor server (server.setManifest (signManifestServer crypto signer mt).2) where
  firmware := ServerCtx.ofParts_firmware _ _
  vendorSide := by
    rw [ServerCtx.setManifest, ServerCtx.ofParts_manifest]
    exact signManifestServer_vendorSide crypto signer same

theorem assignServerDiff_vendorSide (msg : List UInt8) (mt : Manifest) :
    SameVendorSide mt (assignServerDiff msg mt) := by
  intro field vendorSide
  have apart : ∀ other : Field, Field.serverSignatureR.offset ≤ other.offset →
      other.Apart field := fun other behind => Or.inr (le_trans vendorSide behind)
  calc (assignServerDiff msg mt).get field
      = ((mt.setUdid (msgUdid msg)).setNonce (msgNonce msg)).get field :=
        Manifest.get_set_apart _ (toLE_length _ _) (apart _ (by decide))
    _ = (mt.setUdid (msgUdid msg)).get field :=
        Manifest.get_set_apart _ (toLE_length _ _) (apart _ (by decide))
    _ = mt.get field := Manifest.get_set_apart _ (toLE_length _ _) (apart _ (by decide))

theorem assignServer_vendorSide (msg : List UInt8) (size : Nat) (mt : Manifest) :
    SameVendorSide mt (assignServer msg size mt) := by
  intro field vendorSide
  have apart : Field.propSize.Apart field := Or.inr (le_trans vendorSide (by decide))
  calc (assignServer msg size mt).get field
      = (assignServerDiff msg mt).get field := Manifest.get_set_apart _ (toLE_length _ _) apart
    _ = mt.get field := assignServerDiff_vendorSide msg mt field vendorSide

theorem prepare_leaves (msg : List UInt8) (server : ServerCtx) :
    LeavesVendor server (prepare crypto signer msg server).2 := by
  unfold prepare
  split
  · exact .sign crypto signer (assignServer_vendorSide msg _ server.manifest)
  · exact .refl server

theorem prepareDiff_leaves (msg : List UInt8) (server : ServerCtx) :
    LeavesVendor server (prepareDiff crypto signer msg server).2 := by
  unfold prepareDiff
  split
  · exact .sign crypto signer (assignServerDiff_vendorSide msg server.manifest)
  · exact .refl server

/-- **A request that is not for `next_version`** leaves the firmware and the vendor's side alone. -/
theorem handle_leaves {call : ResourceCall} (other : ∀ signer, call ≠ .nextVersion signer)
    (server : ServerCtx) : LeavesVendor server (call.handle crypto coap server).2 := by
  have served : ∀ prepare request,
      (∀ msg, LeavesVendor server (prepare msg server).2) →
        LeavesVendor server (serveFile coap prepare request server).2 := by
    intro prepare request leaves
    rcases serveFile_server coap prepare request server with same | ⟨msg, same⟩
    · rw [same]
      exact .refl server
    · rw [same]
      exact leaves msg
  cases call with
  | echo _ => exact .refl server
  | version => exact .refl server
  | firmware signer request =>
      exact served _ request fun msg => prepare_leaves crypto signer msg server
  | firmwareDiff signer request =>
      exact served _ request fun msg => prepareDiff_leaves crypto signer msg server
  | versionInvalid => exact .refl server
  | firmwareInvalidSize _ => exact .refl server
  | firmwareInvalidSignature _ _ => exact .refl server
  | nextVersion signer => exact absurd rfl (other signer)

end VendorSide

/-! ### Runs -/

section Runs

variable {crypto : Crypto} {sf : Safestore} {x y : List UInt8}

/-- A file to serve: a manifest that the vendor has signed for an application and that names the key
of the server, and the firmware it describes. -/
structure Packaged (crypto : Crypto) (sf : Safestore) (x y : List UInt8) where
  mt : Manifest
  firmware : List UInt8
  vendor_signed : vendorSigned crypto mt sf.keystore = true
  offset : mt.getOffset = sizeofManifest
  appid : mt.getAppid = sf.appid
  key_x : mt.getServerKeyX = x
  key_y : mt.getServerKeyY = y
  long : fsmBufferSize ≤ firmware.length
  size : mt.getSize = firmware.length
  digest : mt.getDigest = crypto.digest firmware
  addressable : sizeofManifest + firmware.length + fsmBufferSize ≤ 2 ^ 32

/-- The server, the number of requests for `next_version`, and whether the last of them succeeded in
signing. -/
structure Service where
  server : ServerCtx
  raised : Nat
  sealed : Bool

/-- The server behind one more request. -/
def Service.after (crypto : Crypto) (coap : Coap) (state : Service) (call : ResourceCall) :
    Service :=
  let (response, server) := call.handle crypto coap state.server
  match call with
  | .nextVersion _ => ⟨server, state.raised + 1, response.code = .content⟩
  | _ => ⟨server, state.raised, state.sealed⟩

/-- A signature of the vendor that `ecc_sign` reports as made passes. -/
def ResourceCall.Reports (crypto : Crypto) (keystore : Keystore) : ResourceCall → Prop
  | nextVersion signer => signer.Reports crypto keystore.x keystore.y
  | _ => True

/-- The server of a file, under any requests. -/
def service (crypto : Crypto) (coap : Coap) (sf : Safestore) (file : Packaged crypto sf x y) :
    TransitionSystem Service where
  starts := fun state => state = ⟨ServerCtx.ofParts file.mt file.firmware, 0, true⟩
  step := fun state state' => ∃ call : ResourceCall, call.Reports crypto sf.keystore ∧
    state' = state.after crypto coap call

/-- The fields of the vendor part but for the version. -/
def describingFields : List Field := [.size', .offset', .appid, .digest, .serverKeyX, .serverKeyY]

/-- **The invariant**: what is described is what was packaged, under a version that counts the
requests for `next_version`. -/
structure Offers (file : Packaged crypto sf x y) (state : Service) : Prop where
  firmware : state.server.firmware = file.firmware
  fields : ∀ field ∈ describingFields, state.server.manifest.get field = file.mt.get field
  version : state.server.manifest.getVersion = (file.mt.getVersion + state.raised) % 2 ^ 16
  signed : state.sealed = true → vendorSigned crypto state.server.manifest sf.keystore = true

/-- A request that leaves the vendor's side alone. -/
theorem Offers.leaves {file : Packaged crypto sf x y} {state : Service}
    (offers : Offers file state) {server : ServerCtx} (leaves : LeavesVendor state.server server) :
    Offers file ⟨server, state.raised, state.sealed⟩ where
  firmware := leaves.firmware.trans offers.firmware
  fields := by
    intro field describes
    have vendorSide : ∀ field ∈ describingFields,
        field.offset + field.size ≤ Field.serverSignatureR.offset := by decide
    rw [← offers.fields field describes]
    exact leaves.vendorSide field (vendorSide field describes)
  version := (congrArg ofLE (leaves.vendorSide .version (by decide))).trans offers.version
  signed := by
    intro isSealed
    rw [← offers.signed isSealed]
    refine vendorSigned_congr fun field part => leaves.vendorSide field ?_
    rcases part with rfl | rfl | rfl
    all_goals decide

/-- **What the vendor's signer reports as signed** passes. -/
theorem vendorSigned_signManifestVendor {keystore : Keystore} {signer : Signer}
    (reports : signer.Reports crypto keystore.x keystore.y) {mt : Manifest}
    (signs : (signManifestVendor crypto signer mt).1 = .success) :
    vendorSigned crypto (signManifestVendor crypto signer mt).2 keystore = true := by
  have success : (signer.eccSign (crypto.digest (mt.get .vendor))).1 = .success := by
    by_contra failed
    exact PullError.noConfusion ((if_pos failed).symm.trans signs)
  have passes := reports _ (crypto.digest_length _) success
  have fields : ∀ (signature : List UInt8) (width : signature.length = 64),
      (setVendorSignature mt signature width).get .vendorSignatureR = signature.take 32 ∧
        (setVendorSignature mt signature width).get .vendorSignatureS = signature.drop 32 := by
    intro signature width
    constructor
    · rw [setVendorSignature, Manifest.get_set_apart _ _ (by decide), Manifest.get_set_self]
    · rw [setVendorSignature, Manifest.get_set_self]
  unfold vendorSigned signManifestVendor
  rw [(fields _ _).1, (fields _ _).2, setVendorSignature_get _ _ (by decide) (by decide)]
  exact decide_eq_true passes

/-- **What the server's signer reports as signed** passes. -/
theorem serverSigned_of_reports {signer : Signer} (reports : signer.Reports crypto x y)
    {mt : Manifest} (keyX : mt.getServerKeyX = x) (keyY : mt.getServerKeyY = y)
    (signs : (signManifestServer crypto signer mt).1 = .success) :
    serverSigned crypto (signManifestServer crypto signer mt).2 = true := by
  have success : (signer.eccSign (crypto.digest (mt.get .server))).1 = .success := by
    by_contra failed
    exact PullError.noConfusion ((if_pos failed).symm.trans signs)
  rw [serverSigned_signManifestServer_eq, keyX, keyY]
  exact decide_eq_true (reports _ (crypto.digest_length _) success)

/-- What `next_version` leaves of the file, whether signing succeeds or not. -/
theorem resourceNextVersion_server (signer : Signer) (server : ServerCtx) :
    (resourceNextVersion crypto signer server).2 = server.setManifest
      (signManifestVendor crypto signer
        (server.manifest.setVersion ((server.manifest.getVersion + 1) % 2 ^ 16))).2 := by
  unfold resourceNextVersion
  simp only
  split <;> rfl

theorem resourceNextVersion_content {signer : Signer} {server : ServerCtx}
    (content : (resourceNextVersion crypto signer server).1.code = .content) :
    (signManifestVendor crypto signer
      (server.manifest.setVersion ((server.manifest.getVersion + 1) % 2 ^ 16))).1 = .success := by
  unfold resourceNextVersion at content
  by_contra failed
  simp only [failed, ne_eq, not_false_eq_true, if_true] at content
  cases content

/-- **A request for `next_version`.** -/
theorem Offers.nextVersion {file : Packaged crypto sf x y} {state : Service}
    (offers : Offers file state) {signer : Signer}
    (reports : signer.Reports crypto sf.keystore.x sf.keystore.y) :
    Offers file ⟨(resourceNextVersion crypto signer state.server).2, state.raised + 1,
      (resourceNextVersion crypto signer state.server).1.code = .content⟩ := by
  have left := @resourceNextVersion_server crypto signer state.server
  generalize raises : (state.server.manifest.getVersion + 1) % 2 ^ 16 = next at left
  have manifest : (resourceNextVersion crypto signer state.server).2.manifest =
      (signManifestVendor crypto signer (state.server.manifest.setVersion next)).2 := by
    rw [left, ServerCtx.setManifest, ServerCtx.ofParts_manifest]
  have kept : ∀ field : Field, Field.vendorSignatureS.Apart field →
      Field.vendorSignatureR.Apart field →
      (resourceNextVersion crypto signer state.server).2.manifest.get field =
        (state.server.manifest.setVersion next).get field := by
    intro field apartS apartR
    rw [manifest, signManifestVendor, setVendorSignature_get _ _ apartR apartS]
  refine ⟨?_, fun field describes => ?_, ?_, fun isSealed => ?_⟩
  · rw [left]
    exact (ServerCtx.ofParts_firmware _ _).trans offers.firmware
  · have apart : ∀ field ∈ describingFields, Field.vendorSignatureS.Apart field ∧
        Field.vendorSignatureR.Apart field ∧ Field.version.Apart field := by decide
    obtain ⟨apartS, apartR, apartV⟩ := apart field describes
    rw [kept field apartS apartR, ← offers.fields field describes]
    exact Manifest.get_set_apart _ (toLE_length _ _) apartV
  · have stored : (state.server.manifest.setVersion next).get .version = toLE 2 next :=
      Manifest.get_set_self _ _ _ _
    rw [Manifest.getVersion, kept .version (by decide) (by decide), stored,
      ofLE_toLE (by rw [← raises]; exact Nat.mod_lt _ (by decide)), ← raises, offers.version,
      Nat.mod_add_mod, Nat.add_assoc]
  · have signs := resourceNextVersion_content (of_decide_eq_true isSealed)
    rw [raises] at signs
    rw [manifest]
    exact vendorSigned_signManifestVendor reports signs

/-- **The invariant holds after all requests.** -/
theorem service_offers {coap : Coap} {file : Packaged crypto sf x y} {state : Service}
    (reached : (service crypto coap sf file).Reachable state) : Offers file state := by
  refine reached.holds (fun state starts => ?_) fun state state' offers step => ?_
  · rw [show state = _ from starts]
    refine ⟨ServerCtx.ofParts_firmware _ _, fun field _ => ?_, ?_, fun _ => ?_⟩
    · rw [ServerCtx.ofParts_manifest]
    · rw [ServerCtx.ofParts_manifest, Nat.add_zero, Nat.mod_eq_of_lt file.mt.getVersion_lt]
    · rw [ServerCtx.ofParts_manifest]
      exact file.vendor_signed
  · obtain ⟨call, reports, rfl⟩ := step
    by_cases next : ∃ signer, call = .nextVersion signer
    · obtain ⟨signer, rfl⟩ := next
      exact offers.nextVersion reports
    · have other : ∀ signer, call ≠ .nextVersion signer := fun signer same => next ⟨signer, same⟩
      have leaves := handle_leaves crypto coap other state.server
      have same : state.after crypto coap call =
          ⟨(call.handle crypto coap state.server).2, state.raised, state.sealed⟩ := by
        cases call with
        | nextVersion signer => exact absurd rfl (other signer)
        | _ => rfl
      rw [same]
      exact offers.leaves leaves

/-- The file as it is offered, to a device of an older version. -/
def Offers.update {file : Packaged crypto sf x y} {state : Service} (offers : Offers file state)
    (isSealed : state.sealed = true) {version : Nat}
    (newer : version < state.server.manifest.getVersion) : UpdateFile crypto sf x y version where
  mt := state.server.manifest
  firmware := state.server.firmware
  vendor_signed := offers.signed isSealed
  offset := (congrArg ofLE (offers.fields .offset' (by simp [describingFields]))).trans file.offset
  newer := newer
  appid := (congrArg ofLE (offers.fields .appid (by simp [describingFields]))).trans file.appid
  key_x := (offers.fields .serverKeyX (by simp [describingFields])).trans file.key_x
  key_y := (offers.fields .serverKeyY (by simp [describingFields])).trans file.key_y
  long := by
    rw [offers.firmware]
    exact file.long
  size := by
    rw [offers.firmware, ← file.size]
    exact congrArg ofLE (offers.fields .size' (by simp [describingFields]))
  digest := by
    rw [offers.firmware, ← file.digest]
    exact offers.fields .digest (by simp [describingFields])
  addressable := by
    rw [offers.firmware]
    exact file.addressable

end Runs

/-! ### A session after any requests -/

section Session

variable (erased : Option UInt8) (table : SlotTable) {crypto : Crypto} {sf : Safestore}
  {x y : List UInt8} {signer : Signer} {coap : Coap} (memory : Contents) {ctx : FsmCtx}
  {nonce : Nonce} {input : FsmInput} (starting : ctx.state = .startUpdate)
  (fresh : ctx.processed = 0) (room : input.buf.data.length = sizeofReceiverMsg)
  (generated : input.rng = .ok nonce)

/-- The calls that pass on what a server answers to the message of a session. -/
def PassesFrom (crypto : Crypto) (sf : Safestore) (signer : Signer) (coap : Coap)
    (input : FsmInput) (ctx : FsmCtx) (memory : Contents) (server : ServerCtx)
    (inputs : List FsmInput) : Prop :=
  inputs.map (fun call => call.buf.data) =
    served crypto signer coap (sentMsg erased crypto table sf input ctx memory) server

/-- The calls are those that pass on the file as it is offered. -/
theorem Offers.passesOn_iff {file : Packaged crypto sf x y} {state : Service}
    (offers : Offers file state) (isSealed : state.sealed = true)
    (newer : ctx.version < state.server.manifest.getVersion) {inputs : List FsmInput} :
    PassesOn erased table ctx (offers.update isSealed newer) signer coap input memory inputs ↔
      PassesFrom erased table crypto sf signer coap input ctx memory state.server inputs := by
  have same : ServerCtx.ofParts (offers.update isSealed newer).mt
      (offers.update isSealed newer).firmware = state.server := state.server.ofParts_self
  rw [PassesOn, same]
  rfl

include starting fresh room generated

/-- **Only a newer version** is accepted, whatever the file. -/
theorem reboots_newer {server : ServerCtx} {inputs : List FsmInput}
    (signs : ∀ hash, (signer.eccSign hash).1 = .success) (some : server.firmware ≠ [])
    (passed : PassesFrom erased table crypto sf signer coap input ctx memory server inputs)
    (reboots : Reboots erased crypto table sf inputs
      (fsm (plain (fullLayout erased)) crypto table sf input ctx memory).ctx
      (fsm (plain (fullLayout erased)) crypto table sf input ctx memory).memory) :
    ctx.version < server.manifest.getVersion := by
  obtain ⟨length, offset, _⟩ :=
    sentMsg_fields erased crypto table sf memory starting fresh room generated
  unfold PassesFrom at passed
  generalize sentMsg erased crypto table sf input ctx memory = msg at length offset passed
  have blocks := served_blocks crypto signer coap server.manifest server.firmware signs length
    offset
  rw [server.ofParts_self] at blocks
  generalize prepared : servedManifest crypto signer msg (sizeofManifest + server.firmware.length)
    server.manifest = sent at blocks
  have version : sent.getVersion = server.manifest.getVersion := by
    rw [← prepared]
    exact congrArg ofLE (servedManifest_get crypto signer msg _ _ (by decide))
  have arriving : InBlocks (sent.bytes ++ server.firmware) inputs := passed.trans blocks
  have long : sizeofManifest < (sent.bytes ++ server.firmware).length := by
    rw [List.length_append, sent.length_eq]
    exact Nat.lt_add_of_pos_right (List.length_pos_of_ne_nil some)
  have first : sizeofManifest ∈ cuts 0 inputs :=
    (mem_cuts_inBlocks arriving).mpr (Or.inr ⟨1, one_pos, by decide, by omega⟩)
  have session : Collecting (ctx.begun nonce) [] := ⟨rfl, fresh, by decide, rfl⟩
  rw [fsm_startUpdate_begun (plain (fullLayout erased)) crypto table sf memory starting
      (le_of_eq room.symm) generated, reboots_iff_outcome,
    outcome_collecting erased crypto table sf inputs
      (inBlocks_nonempty arriving (List.ne_nil_of_length_pos (by omega))) memory session,
    streamOf_inBlocks arriving, List.nil_append, List.length_nil,
    outcomeOf_reboot erased crypto table sf long first] at reboots
  have accepted := reboots.1.1
  rw [Manifest.ofBytes_append (le_of_eq sent.length_eq.symm), Manifest.ofBytes_self, version]
    at accepted
  exact accepted

/-- **What the server offers, and exactly when a session accepts it**, after any requests to any of
its resources. Of the vendor part only the version has changed, which counts the requests for
`next_version` and comes round after `65535`. If the last of these has signed, a session accepts
exactly when that version is newer than the device, and the file, where it names the session already,
is signed for it, has no diff version and announces what arrives; where it does not, the device has
version `0`. -/
theorem requests_accepted_iff (laws : KeyLaws crypto signer x y) {file : Packaged crypto sf x y}
    {state : Service} (reached : (service crypto coap sf file).Reachable state)
    {inputs : List FsmInput}
    (passed : PassesFrom erased table crypto sf signer coap input ctx memory state.server inputs) :
    Offers file state ∧ (state.sealed = true →
      (Reboots erased crypto table sf inputs
          (fsm (plain (fullLayout erased)) crypto table sf input ctx memory).ctx
          (fsm (plain (fullLayout erased)) crypto table sf input ctx memory).memory ↔
        ctx.version < (file.mt.getVersion + state.raised) % 2 ^ 16 ∧
          if Current sf nonce state.server.manifest then
            serverSigned crypto state.server.manifest = true ∧
              state.server.manifest.getDiffVersion = 0 ∧
              Announces erased crypto table memory state.server.manifest file.firmware
          else ctx.version = 0)) := by
  have offers := service_offers reached
  refine ⟨offers, fun isSealed => ?_⟩
  have some : state.server.firmware ≠ [] := by
    rw [offers.firmware]
    exact List.ne_nil_of_length_pos (lt_of_lt_of_le (by decide) file.long)
  have newer_of_reboots := @reboots_newer erased table crypto sf signer coap memory ctx nonce input
    starting fresh room generated state.server inputs laws.signs some passed
  rw [← offers.version]
  by_cases newer : ctx.version < state.server.manifest.getVersion
  · let update := offers.update isSealed newer
    have passes : PassesOn erased table ctx update signer coap input memory inputs :=
      (offers.passesOn_iff erased table memory isSealed newer).mpr passed
    rw [and_iff_right newer, ← offers.firmware]
    split
    · rename_i current
      have unchanged : sentManifest erased table ctx update signer input memory = update.mt :=
        if_neg fun stale => (sentMsg_stale_iff erased crypto table sf memory update.mt starting
          fresh room generated).mp stale current
      rw [reboots_served_iff erased table update laws coap memory starting fresh room generated
        passes, unchanged]
      rfl
    · rename_i stale
      exact reboots_resigned_iff erased table update laws coap memory starting fresh room generated
        passes stale
  · exact ⟨fun reboots => absurd (newer_of_reboots reboots) newer, fun both => absurd both.1 newer⟩

end Session

/-- The signed update as it is packaged. -/
def signedPackage : Packaged mirrorCrypto zeroSafestore (List.replicate 32 0)
    (List.replicate 32 0) where
  mt := (signedFile (show 0 < 2 by decide)).mt
  firmware := (signedFile (show 0 < 2 by decide)).firmware
  vendor_signed := (signedFile (show 0 < 2 by decide)).vendor_signed
  offset := (signedFile (show 0 < 2 by decide)).offset
  appid := (signedFile (show 0 < 2 by decide)).appid
  key_x := (signedFile (show 0 < 2 by decide)).key_x
  key_y := (signedFile (show 0 < 2 by decide)).key_y
  long := (signedFile (show 0 < 2 by decide)).long
  size := (signedFile (show 0 < 2 by decide)).size
  digest := (signedFile (show 0 < 2 by decide)).digest
  addressable := (signedFile (show 0 < 2 by decide)).addressable

/-- Another device has asked for the file, and the version has been raised. -/
def raisedService : Service :=
  ((⟨ServerCtx.ofParts signedPackage.mt signedPackage.firmware, 0, true⟩ : Service).after
    mirrorCrypto plainCoap (.firmware mirrorSigner (firstBlock 2 1))).after mirrorCrypto plainCoap
      (.nextVersion mirrorSigner)

theorem raisedService_reached :
    (service mirrorCrypto plainCoap zeroSafestore signedPackage).Reachable raisedService :=
  .next (.next (.start rfl) ⟨.firmware mirrorSigner (firstBlock 2 1), trivial, rfl⟩)
    ⟨.nextVersion mirrorSigner, mirrorSigner_reports, rfl⟩

/-- A device without a firmware is served version `3`. -/
theorem raisedService_accepted : ∃ inputs,
    PassesFrom none twoSlots mirrorCrypto zeroSafestore mirrorSigner plainCoap onesCall (toldCtx 0)
        (fun _ _ => 0) raisedService.server inputs ∧
      Reboots none mirrorCrypto twoSlots zeroSafestore inputs
        (fsm (plain (fullLayout none)) mirrorCrypto twoSlots zeroSafestore onesCall (toldCtx 0)
          fun _ _ => 0).ctx
        (fsm (plain (fullLayout none)) mirrorCrypto twoSlots zeroSafestore onesCall (toldCtx 0)
          fun _ _ => 0).memory := by
  have offers := service_offers raisedService_reached
  have three : (signedPackage.mt.getVersion + raisedService.raised) % 2 ^ 16 = 3 := by
    decide +kernel
  have stale : ¬ Current zeroSafestore ⟨List.replicate 4 1, rfl⟩
      raisedService.server.manifest := by
    decide +kernel
  have newer : (toldCtx 0).version < raisedService.server.manifest.getVersion := by
    rw [offers.version, three]
    decide
  obtain ⟨inputs, passes⟩ := passesOn_exists none twoSlots (offers.update rfl newer)
    mirrorSigner_laws plainCoap (fun _ _ => 0) rfl rfl rfl (show onesCall.rng = .ok _ from rfl)
  have passed := (offers.passesOn_iff none twoSlots (fun _ _ => 0) rfl newer).mp passes
  refine ⟨inputs, passed, ((requests_accepted_iff none twoSlots (fun _ _ => 0) rfl rfl rfl rfl
    mirrorSigner_laws raisedService_reached passed).2 rfl).mpr ⟨?_, ?_⟩⟩
  · exact lt_of_lt_of_eq (by decide) three.symm
  · rw [if_neg stale]
    rfl

end Upkit
