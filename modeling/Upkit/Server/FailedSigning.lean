/-
**What the server serves when signing fails.**

`resource_firmware` writes the device and the nonce of a message into the shared manifest before it
signs, and leaves them there when signing fails. They are also what it looks at to decide whether a
message needs a signature, so the same message is served afterwards without one.

* `Requests` — any sequence of requests, each with the library as it is at that moment, and the
  message for which the latest signing was spoilt.
* `requests_kept` — the invariant: unless a signing was spoilt the server part is signed, and a
  spoilt one names the device and the nonce of its message.
* `answered_signed_iff` — an answer `2.05` carries a signed server part for its message exactly when
  the message does not repeat the device and the nonce of a spoilt signing.
* `spoilt_served` — a request that fails to be signed and is sent again.
-/

import Upkit.Server.Update

namespace Upkit

/-! ### Requests -/

/-- The message of a request that carries one of the right size. -/
def Request.message (request : Request) : Option (List UInt8) :=
  request.data.filter fun msg => msg.length = sizeofReceiverMsg

section Requests

variable (crypto : Crypto) (signer : Signer) (coap : Coap) (request : Request)
  (server : ServerCtx)

/-- What a request leaves of the file. -/
theorem resourceFirmware_server :
    (resourceFirmware crypto signer coap request server).2 =
      (request.message.elim server fun msg => (prepare crypto signer msg server).2) := by
  unfold resourceFirmware Request.message
  cases request.data with
  | none => rfl
  | some msg =>
      by_cases size : msg.length = sizeofReceiverMsg
      · simp only [Option.filter, size, decide_true, if_true, Option.elim, ne_eq, not_true_eq_false,
          if_false]
        split
        · rfl
        · split
          · rfl
          · split <;> rfl
      · simp only [Option.filter, size, decide_false, Bool.false_eq_true, if_false, Option.elim,
          ne_eq, not_false_eq_true, if_true]

variable {crypto signer coap request server}

/-- An answer `2.05` is for a message that needed no signature or got one. -/
theorem resourceFirmware_content
    (content : (resourceFirmware crypto signer coap request server).1.code = .content) :
    ∃ msg, request.message = some msg ∧ (prepare crypto signer msg server).1 = .success := by
  unfold resourceFirmware at content
  unfold Request.message
  cases data : request.data with
  | none =>
      rw [data] at content
      cases content
  | some msg =>
      rw [data] at content
      by_cases size : msg.length = sizeofReceiverMsg
      · refine ⟨msg, by simp only [Option.filter, size, decide_true, if_true], ?_⟩
        by_contra failed
        simp only [size, failed, ne_eq, not_true_eq_false, not_false_eq_true, if_true, if_false]
          at content
        cases content
      · simp only [size, ne_eq, not_false_eq_true, if_true] at content
        cases content

end Requests

/-! ### Spoilt signings -/

section Spoilt

variable (crypto : Crypto) (coap : Coap) (x y : List UInt8)

/-- A signing that fails and leaves nothing in the buffer that passes under the key of the server. -/
def Spoils (signer : Signer) (hash : List UInt8) : Prop :=
  (signer.eccSign hash).1 ≠ .success ∧ crypto.eccVerify x y ((signer.eccSign hash).2.take 32)
    ((signer.eccSign hash).2.drop 32) hash ≠ .success

instance (signer : Signer) (hash : List UInt8) : Decidable (Spoils crypto x y signer hash) :=
  inferInstanceAs (Decidable (_ ∧ _))

/-- The message of the latest signing, if that was spoilt, after one more request. -/
def spoiltAfter (signer : Signer) (request : Request) (server : ServerCtx)
    (spoilt : Option (List UInt8)) : Option (List UInt8) :=
  match request.message with
  | none => spoilt
  | some msg =>
      if Stale msg server.manifest then
        let mt := assignServer msg server.mappedFile.length server.manifest
        if Spoils crypto x y signer (crypto.digest (mt.get .server)) then some msg else none
      else spoilt

/-- A signature that `ecc_sign` reports as made passes under the key of the server. -/
def Signer.Reports (signer : Signer) : Prop :=
  ∀ hash, hash.length = 32 → (signer.eccSign hash).1 = .success →
    crypto.eccVerify x y ((signer.eccSign hash).2.take 32) ((signer.eccSign hash).2.drop 32) hash =
      .success

/-- Requests to a file that begins with a signed server part and names the key of the server: the
file after them, and the message of the latest signing if that was spoilt. -/
inductive Requests : ServerCtx → Option (List UInt8) → Prop
  | start {server : ServerCtx} : serverSigned crypto server.manifest = true →
      server.manifest.getServerKeyX = x → server.manifest.getServerKeyY = y → Requests server none
  | request {server : ServerCtx} {spoilt : Option (List UInt8)} (signer : Signer)
      (request : Request) : signer.Reports crypto x y → Requests server spoilt →
      Requests (resourceFirmware crypto signer coap request server).2
        (spoiltAfter crypto x y signer request server spoilt)

/-- The invariant of the requests. -/
structure Kept (server : ServerCtx) (spoilt : Option (List UInt8)) : Prop where
  keyX : server.manifest.getServerKeyX = x
  keyY : server.manifest.getServerKeyY = y
  signed_iff : serverSigned crypto server.manifest = true ↔ spoilt = none
  named : ∀ was ∈ spoilt, ¬ Stale was server.manifest

variable {crypto coap x y}

/-- **A file that is written and signed for a message**, whether signing succeeds or not. -/
theorem Kept.sign {server : ServerCtx} {spoilt : Option (List UInt8)}
    (kept : Kept crypto x y server spoilt) {signer : Signer}
    (reports : signer.Reports crypto x y) (msg : List UInt8) :
    let mt := assignServer msg server.mappedFile.length server.manifest
    Kept crypto x y (server.setManifest (signManifestServer crypto signer mt).2)
      (if Spoils crypto x y signer (crypto.digest (mt.get .server)) then some msg else none) := by
  intro mt
  have keyX : mt.getServerKeyX = x :=
    (assignServer_get msg _ _ (by decide) (by decide) (by decide) (by decide)).trans kept.keyX
  have keyY : mt.getServerKeyY = y :=
    (assignServer_get msg _ _ (by decide) (by decide) (by decide) (by decide)).trans kept.keyY
  have width := crypto.digest_length (mt.get .server)
  have passes : serverSigned crypto (signManifestServer crypto signer mt).2 = true ↔
      ¬ Spoils crypto x y signer (crypto.digest (mt.get .server)) := by
    rw [serverSigned_signManifestServer_eq, decide_eq_true_eq, keyX, keyY, Spoils, not_and_or,
      not_not, not_not]
    refine ⟨Or.inr, ?_⟩
    rintro (success | passes)
    · exact reports _ width success
    · exact passes
  refine ⟨?_, ?_, ?_, ?_⟩
  · rw [ServerCtx.setManifest, ServerCtx.ofParts_manifest]
    exact (setServerSignature_get mt (signer.width _) (by decide) (by decide)).trans keyX
  · rw [ServerCtx.setManifest, ServerCtx.ofParts_manifest]
    exact (setServerSignature_get mt (signer.width _) (by decide) (by decide)).trans keyY
  · rw [ServerCtx.setManifest, ServerCtx.ofParts_manifest, passes]
    split
    · rename_i spoils
      exact ⟨fun intact => absurd spoils intact, fun none => nomatch none⟩
    · rename_i intact
      exact ⟨fun _ => rfl, fun _ => intact⟩
  · intro was latest
    rw [ServerCtx.setManifest, ServerCtx.ofParts_manifest]
    split at latest
    · cases latest
      exact signManifestServer_current crypto signer msg _ _
    · cases latest

/-- **One more request.** -/
theorem Kept.request {server : ServerCtx} {spoilt : Option (List UInt8)}
    (kept : Kept crypto x y server spoilt) {signer : Signer}
    (reports : signer.Reports crypto x y) (request : Request) :
    Kept crypto x y (resourceFirmware crypto signer coap request server).2
      (spoiltAfter crypto x y signer request server spoilt) := by
  rw [resourceFirmware_server]
  unfold spoiltAfter
  cases request.message with
  | none => exact kept
  | some msg =>
      simp only [Option.elim, prepare]
      split
      · exact kept.sign reports msg
      · exact kept

/-- **The invariant holds after all requests.** -/
theorem requests_kept {server : ServerCtx} {spoilt : Option (List UInt8)}
    (requests : Requests crypto coap x y server spoilt) : Kept crypto x y server spoilt := by
  induction requests with
  | start signed keyX keyY => exact ⟨keyX, keyY, ⟨fun _ => rfl, fun _ => signed⟩, nofun⟩
  | request signer request reports _ ih => exact ih.request reports request

/-- The message of a request names the device and the nonce of a spoilt signing. -/
def Repeats (request : Request) (spoilt : Option (List UInt8)) : Prop :=
  ∃ msg ∈ request.message, ∃ was ∈ spoilt, msgUdid msg = msgUdid was ∧ msgNonce msg = msgNonce was

instance (request : Request) (spoilt : Option (List UInt8)) : Decidable (Repeats request spoilt) :=
  inferInstanceAs (Decidable (∃ msg ∈ _, ∃ was ∈ _, _ ∧ _))

/-- The file holds a server part that is signed and names the device and the nonce of a request. -/
def SignedFor (crypto : Crypto) (request : Request) (server : ServerCtx) : Prop :=
  serverSigned crypto server.manifest = true ∧ ∃ msg, request.data = some msg ∧
    server.manifest.getUdid = msgUdid msg ∧ server.manifest.getNonce = msgNonce msg

/-- **An answer `2.05`** carries a signed server part for its message exactly when the message does
not repeat a spoilt signing. -/
theorem answered_signed_iff {server : ServerCtx} {spoilt : Option (List UInt8)}
    (requests : Requests crypto coap x y server spoilt) {signer : Signer}
    (reports : signer.Reports crypto x y) {request : Request}
    (content : (resourceFirmware crypto signer coap request server).1.code = .content) :
    SignedFor crypto request (resourceFirmware crypto signer coap request server).2 ↔
      ¬ Repeats request spoilt := by
  have kept := requests_kept requests
  have after : Kept crypto x y (resourceFirmware crypto signer coap request server).2
      (spoiltAfter crypto x y signer request server spoilt) := kept.request reports request
  obtain ⟨msg, message, prepared⟩ := resourceFirmware_content content
  have data : request.data = some msg := (Option.filter_eq_some_iff.mp message).1
  have current : ¬ Stale msg (resourceFirmware crypto signer coap request server).2.manifest := by
    rw [resourceFirmware_server, message]
    simp only [Option.elim, prepare]
    split
    · rw [ServerCtx.setManifest, ServerCtx.ofParts_manifest]
      exact signManifestServer_current crypto signer msg _ _
    · rename_i current
      exact current
  have named : SignedFor crypto request (resourceFirmware crypto signer coap request server).2 ↔
      serverSigned crypto (resourceFirmware crypto signer coap request server).2.manifest =
        true := by
    rw [Stale, not_or, not_not, not_not] at current
    exact ⟨fun signedFor => signedFor.1, fun signed => ⟨signed, msg, data, current⟩⟩
  have repeats : Repeats request spoilt ↔
      ∃ was ∈ spoilt, msgUdid msg = msgUdid was ∧ msgNonce msg = msgNonce was := by
    refine ⟨?_, fun same => ⟨msg, message, same⟩⟩
    rintro ⟨_, carried, same⟩
    cases message.symm.trans carried
    exact same
  rw [named, after.signed_iff, repeats, spoiltAfter, message]
  dsimp only
  split
  · rename_i stale
    -- A message that is signed now is not the one of a spoilt signing: the file named that one.
    have signs : ¬ Spoils crypto x y signer (crypto.digest
        ((assignServer msg server.mappedFile.length server.manifest).get .server)) := by
      rintro ⟨failed, -⟩
      rw [prepare, if_pos stale] at prepared
      simp only [signManifestServer, if_pos failed] at prepared
      cases prepared
    rw [if_neg signs]
    refine ⟨?_, fun _ => rfl⟩
    rintro - ⟨was, latest, udid, nonce⟩
    refine kept.named was latest ?_
    rw [Stale, ← udid, ← nonce]
    exact stale
  · rename_i current
    cases spoilt with
    | none =>
        refine ⟨?_, fun _ => rfl⟩
        rintro - ⟨was, latest, -⟩
        exact absurd latest (Option.not_mem_none was)
    | some was =>
        have named := kept.named was rfl
        rw [Stale, not_or, not_not, not_not] at current named
        refine ⟨fun none => absurd none (Option.some_ne_none was), fun other => absurd ?_ other⟩
        exact ⟨was, rfl, current.1.symm.trans named.1, current.2.symm.trans named.2⟩

end Spoilt

/-! ### A request that is sent again -/

/-- A library that cannot sign. -/
def brokenSigner : Signer where
  eccSign := fun _ => (.generic, List.replicate 64 0)
  width := fun _ => List.length_replicate

theorem brokenSigner_reports (crypto : Crypto) (x y : List UInt8) :
    brokenSigner.Reports crypto x y := by
  intro hash _ success
  cases success

theorem mirrorSigner_reports :
    mirrorSigner.Reports mirrorCrypto (List.replicate 32 0) (List.replicate 32 0) :=
  fun hash length _ => mirrorSigner_laws.verifies hash length

theorem signedFile_holds : sizeofManifest ≤ (signedManifest ++ [1, 2, 3]).length := by
  rw [List.length_append, signedManifest_length, sizeofManifest]
  omega

/-- A file that is signed for the device `0` and the nonce `0`. -/
def signedServer : ServerCtx where
  mappedFile := signedManifest ++ [1, 2, 3]
  holds := signedFile_holds

/-- The first block for a device and its nonce. -/
def firstBlock (udid nonce : UInt8) : Request :=
  ⟨some [udid, 0, 0, 0, nonce, 0, 0, 0, 0, 0, 0, 0, 0, 0, 0, 0], some ⟨0, blockSize⟩⟩

/-- A signing is spoilt for the device `1`. -/
theorem spoilt_requests : Requests mirrorCrypto plainCoap (List.replicate 32 0)
    (List.replicate 32 0)
    (resourceFirmware mirrorCrypto brokenSigner plainCoap (firstBlock 1 1) signedServer).2
    (firstBlock 1 1).data := by
  have start : Requests mirrorCrypto plainCoap (List.replicate 32 0) (List.replicate 32 0)
      signedServer none :=
    .start (by decide +kernel) (by decide +kernel) (by decide +kernel)
  have spoilt : spoiltAfter mirrorCrypto (List.replicate 32 0) (List.replicate 32 0) brokenSigner
      (firstBlock 1 1) signedServer none = (firstBlock 1 1).data := by
    decide +kernel
  rw [← spoilt]
  exact .request brokenSigner (firstBlock 1 1) (brokenSigner_reports _ _ _) start

/-- The device `2` is served next, signed. -/
theorem other_signed :
    SignedFor mirrorCrypto (firstBlock 2 1) (resourceFirmware mirrorCrypto mirrorSigner plainCoap
      (firstBlock 2 1) (resourceFirmware mirrorCrypto brokenSigner plainCoap (firstBlock 1 1)
        signedServer).2).2 :=
  (answered_signed_iff spoilt_requests mirrorSigner_reports (by decide +kernel)).mpr
    (by decide +kernel)

/-- **The device `1` asks again** and is served what could not be signed. -/
theorem spoilt_served :
    ¬ ∀ (server : ServerCtx) (spoilt : Option (List UInt8)), Requests mirrorCrypto plainCoap
        (List.replicate 32 0) (List.replicate 32 0) server spoilt →
      ∀ (signer : Signer), signer.Reports mirrorCrypto (List.replicate 32 0)
        (List.replicate 32 0) → ∀ request : Request,
      (resourceFirmware mirrorCrypto signer plainCoap request server).1.code = .content →
        SignedFor mirrorCrypto request
          (resourceFirmware mirrorCrypto signer plainCoap request server).2 := by
  intro every
  have signedFor := every _ _ spoilt_requests mirrorSigner mirrorSigner_reports (firstBlock 1 1)
    (by decide +kernel)
  exact absurd signedFor.1 (by decide +kernel)

end Upkit
