/-
**Signing a manifest, and what a signature is worth while the manifest is edited.**

A manifest is edited field by field and signed in two parts: `sign_manifest_vendor` over the vendor
part, `sign_manifest_server` over the server part. An `Edits` run is any sequence of setters and
signings, with each part as it was when it was last signed.

* `Edit.get_apart` — a setter changes no signature and no byte of the other part.
* `edits_made` — the invariant of a run: the signature fields hold the signatures that were made on
  the parts as they were.
* `signing_agrees` — both signatures pass exactly when both parts are as they were when they were
  last signed and the vendor part names the key of the server.

The signature scheme is ideal (`IdealScheme`): a signature passes exactly under the key and on the
hash that it was made with.
-/

import Upkit.Server.Firmware

namespace Upkit

open Bytes

/-! ### The setters -/

/-- The `32` bytes that the setters of digests and keys copy. -/
abbrev Bytes32 := { bytes : List UInt8 // bytes.length = 32 }

/-- A call of one of the setters of `simple_manifest.c`. -/
inductive Edit
  | version (version : Nat)
  | size (size : Nat)
  | offset (offset : Nat)
  | appid (appid : Nat)
  | digest (digest : Bytes32)
  | serverKeyX (key : Bytes32)
  | serverKeyY (key : Bytes32)
  | udid (udid : Nat)
  | nonce (nonce : Nat)
  | diffVersion (version : Nat)
  | propSize (size : Nat)

namespace Edit

/-- The manifest after the call. -/
def apply (mt : Manifest) : Edit → Manifest
  | version value => mt.setVersion value
  | size value => mt.setSize value
  | offset value => mt.setOffset value
  | appid value => mt.setAppid value
  | digest value => mt.setDigest value.1 value.2
  | serverKeyX key => mt.setServerKeyX key.1 key.2
  | serverKeyY key => mt.setServerKeyY key.1 key.2
  | udid value => mt.setUdid value
  | nonce value => mt.setNonce value
  | diffVersion value => mt.setDiffVersion value
  | propSize value => mt.setPropSize value

/-- The field it stores. -/
def field : Edit → Field
  | version _ => .version
  | size _ => .size'
  | offset _ => .offset'
  | appid _ => .appid
  | digest _ => .digest
  | serverKeyX _ => .serverKeyX
  | serverKeyY _ => .serverKeyY
  | udid _ => .udid
  | nonce _ => .nonce
  | diffVersion _ => .diffVersion
  | propSize _ => .propSize

/-- **A setter leaves every field alone** that its own does not meet. -/
theorem get_apart (edit : Edit) (mt : Manifest) {other : Field} (apart : edit.field.Apart other) :
    (edit.apply mt).get other = mt.get other := by
  cases edit with
  | version | size | offset | appid | udid | nonce | diffVersion | propSize =>
      exact mt.get_set_apart (toLE_length _ _) apart
  | digest value => exact mt.get_set_apart value.2 apart
  | serverKeyX key => exact mt.get_set_apart key.2 apart
  | serverKeyY key => exact mt.get_set_apart key.2 apart

end Edit

/-- The fields of the vendor part that setters store. -/
def vendorFields : List Field :=
  [.version, .size', .offset', .appid, .digest, .serverKeyX, .serverKeyY]

/-- The fields of the server part that setters store. -/
def serverFields : List Field := [.udid, .nonce, .diffVersion, .propSize]

theorem Edit.field_mem (edit : Edit) : edit.field ∈ vendorFields ++ serverFields := by
  cases edit <;> simp [Edit.field, vendorFields, serverFields]

/-- No setter stores into a signature. -/
theorem Edit.apart_signatures (edit : Edit) :
    edit.field.Apart .vendorSignatureR ∧ edit.field.Apart .vendorSignatureS ∧
      edit.field.Apart .serverSignatureR ∧ edit.field.Apart .serverSignatureS := by
  have every : ∀ field ∈ vendorFields ++ serverFields,
      field.Apart .vendorSignatureR ∧ field.Apart .vendorSignatureS ∧
        field.Apart .serverSignatureR ∧ field.Apart .serverSignatureS := by decide
  exact every edit.field edit.field_mem

/-- One field lies within another. -/
def Field.Inside (field whole : Field) : Prop :=
  whole.offset ≤ field.offset ∧ field.offset + field.size ≤ whole.offset + whole.size

instance (field whole : Field) : Decidable (field.Inside whole) :=
  inferInstanceAs (Decidable (_ ∧ _))

/-- Manifests that agree on a part agree on every field of it. -/
theorem Manifest.get_congr {mt other : Manifest} {field whole : Field}
    (inside : field.Inside whole) (same : mt.get whole = other.get whole) :
    mt.get field = other.get field := by
  have part : ∀ mt : Manifest, mt.get field =
      slice (mt.get whole) (field.offset - whole.offset) field.size := by
    intro mt
    have inside := inside
    unfold Field.Inside at inside
    rw [Manifest.get, Manifest.get, slice_slice _ (by omega), Nat.add_sub_cancel' inside.1]
  rw [part mt, part other, same]

/-! ### The signatures -/

/-- The bytes of the vendor's signature. -/
def Manifest.vendorSignature (mt : Manifest) : List UInt8 :=
  mt.get .vendorSignatureR ++ mt.get .vendorSignatureS

/-- The bytes of the server's signature. -/
def Manifest.serverSignature (mt : Manifest) : List UInt8 :=
  mt.get .serverSignatureR ++ mt.get .serverSignatureS

/-- `sign_manifest_vendor`: the signature is stored even when signing fails. -/
def signManifestVendor (crypto : Crypto) (signer : Signer) (mt : Manifest) : PullError × Manifest :=
  let hash := crypto.digest (mt.get .vendor)
  (if (signer.eccSign hash).1 ≠ .success then .generic else .success,
    setVendorSignature mt (signer.eccSign hash).2 (signer.width hash))

section Stored

variable (mt : Manifest) {signature : List UInt8} (width : signature.length = 64)

/-- A vendor signature leaves the fields alone that it does not meet. -/
theorem setVendorSignature_get {field : Field} (apartR : Field.vendorSignatureR.Apart field)
    (apartS : Field.vendorSignatureS.Apart field) :
    (setVendorSignature mt signature width).get field = mt.get field := by
  rw [setVendorSignature, Manifest.get_set_apart _ _ apartS, Manifest.get_set_apart _ _ apartR]

@[simp] theorem setVendorSignature_vendorSignature :
    (setVendorSignature mt signature width).vendorSignature = signature := by
  rw [Manifest.vendorSignature, setVendorSignature, Manifest.get_set_self,
    Manifest.get_set_apart _ _ (by decide), Manifest.get_set_self, List.take_append_drop]

@[simp] theorem setServerSignature_serverSignature :
    (setServerSignature mt signature width).serverSignature = signature := by
  obtain ⟨storedR, storedS⟩ := setServerSignature_fields mt width
  rw [Manifest.serverSignature, storedR, storedS, List.take_append_drop]

@[simp] theorem setServerSignature_vendorSignature :
    (setServerSignature mt signature width).vendorSignature = mt.vendorSignature := by
  rw [Manifest.vendorSignature, setServerSignature_get mt width (by decide) (by decide),
    setServerSignature_get mt width (by decide) (by decide)]
  rfl

@[simp] theorem setVendorSignature_serverSignature :
    (setVendorSignature mt signature width).serverSignature = mt.serverSignature := by
  rw [Manifest.serverSignature, setVendorSignature_get mt width (by decide) (by decide),
    setVendorSignature_get mt width (by decide) (by decide)]
  rfl

end Stored

/-- Setters change no signature. -/
@[simp] theorem Edit.apply_signatures (edit : Edit) (mt : Manifest) :
    (edit.apply mt).vendorSignature = mt.vendorSignature ∧
      (edit.apply mt).serverSignature = mt.serverSignature := by
  obtain ⟨vendorR, vendorS, serverR, serverS⟩ := edit.apart_signatures
  rw [Manifest.vendorSignature, Manifest.serverSignature, edit.get_apart mt vendorR,
    edit.get_apart mt vendorS, edit.get_apart mt serverR, edit.get_apart mt serverS]
  exact ⟨rfl, rfl⟩

/-! ### Runs -/

section Runs

variable (crypto : Crypto) (made : Keystore → List UInt8 → List UInt8 → Prop)
  (vendor server : Keystore)

/-- An ideal signature scheme: `made key hash signature` when `ecc_sign` has made the signature on
the hash with the private key that matches `key`. A signature passes exactly where it was made, and
it was made with one key and on one hash. -/
structure IdealScheme : Prop where
  passes : ∀ (key : Keystore) (r s hash : List UInt8), r.length = 32 → s.length = 32 →
    (crypto.eccVerify key.x key.y r s hash = .success ↔ made key hash (r ++ s))
  binding : ∀ {key key' : Keystore} {hash hash' signature : List UInt8},
    made key hash signature → made key' hash' signature → key = key' ∧ hash = hash'

/-- A signer holds the private key that matches `key`. -/
def Signer.Holds (signer : Signer) (key : Keystore) : Prop :=
  ∀ hash, hash.length = 32 → (signer.eccSign hash).1 = .success →
    made key hash (signer.eccSign hash).2

/-- Nobody has made what stands in the signature fields. -/
def Unsigned (mt : Manifest) : Prop :=
  ∀ key hash, ¬ made key hash mt.vendorSignature ∧ ¬ made key hash mt.serverSignature

/-- What setters and signings that succeed make of a manifest nobody has signed: the manifest, and
the manifests of which the vendor part and the server part were signed last. -/
inductive Edits : Manifest → Option Manifest → Option Manifest → Prop
  | start {mt : Manifest} : Unsigned made mt → Edits mt none none
  | edit (edit : Edit) {mt : Manifest} {vendorAt serverAt : Option Manifest} :
      Edits mt vendorAt serverAt → Edits (edit.apply mt) vendorAt serverAt
  | signVendor (signer : Signer) {mt : Manifest} {vendorAt serverAt : Option Manifest} :
      signer.Holds made vendor → (signManifestVendor crypto signer mt).1 = .success →
      Edits mt vendorAt serverAt → Edits (signManifestVendor crypto signer mt).2 (some mt) serverAt
  | signServer (signer : Signer) {mt : Manifest} {vendorAt serverAt : Option Manifest} :
      signer.Holds made server → (signManifestServer crypto signer mt).1 = .success →
      Edits mt vendorAt serverAt → Edits (signManifestServer crypto signer mt).2 vendorAt (some mt)

/-- What stands in a signature field: the signature on the part as it was, or one nobody made. -/
def MadeAt (key : Keystore) (part : Field) (signedAt : Option Manifest) (signature : List UInt8) :
    Prop :=
  match signedAt with
  | none => ∀ key hash, ¬ made key hash signature
  | some was => made key (crypto.digest (was.get part)) signature

variable {crypto made vendor server}

/-- **The invariant of a run**: the fields hold the signatures on the parts as they were. -/
theorem edits_made {mt : Manifest} {vendorAt serverAt : Option Manifest}
    (edits : Edits crypto made vendor server mt vendorAt serverAt) :
    MadeAt crypto made vendor .vendor vendorAt mt.vendorSignature ∧
      MadeAt crypto made server .server serverAt mt.serverSignature := by
  have signs : ∀ {key : Keystore} {signer : Signer} {hash : List UInt8}, signer.Holds made key →
      hash.length = 32 →
      (if (signer.eccSign hash).1 ≠ .success then PullError.generic else .success) = .success →
      made key hash (signer.eccSign hash).2 := by
    intro key signer hash holds width succeeded
    split at succeeded
    · cases succeeded
    · rename_i success
      exact holds hash width (not_not.mp success)
  induction edits with
  | start unsigned =>
      exact ⟨fun key hash => (unsigned key hash).1, fun key hash => (unsigned key hash).2⟩
  | edit edit _ ih =>
      obtain ⟨vendorKept, serverKept⟩ := edit.apply_signatures (by assumption)
      rw [vendorKept, serverKept]
      exact ih
  | signVendor signer holds succeeded _ ih =>
      rw [signManifestVendor, setVendorSignature_vendorSignature,
        setVendorSignature_serverSignature]
      exact ⟨signs holds (crypto.digest_length _) succeeded, ih.2⟩
  | signServer signer holds succeeded _ ih =>
      rw [signManifestServer, setServerSignature_vendorSignature,
        setServerSignature_serverSignature]
      exact ⟨ih.1, signs holds (crypto.digest_length _) succeeded⟩

/-- The hash does not collide on a part as it was when it was signed and as it is now. -/
def NoCollision (crypto : Crypto) (part : Field) (signedAt : Option Manifest) (mt : Manifest) :
    Prop :=
  ∀ was ∈ signedAt, crypto.digest (was.get part) = crypto.digest (mt.get part) →
    was.get part = mt.get part

/-- A part has been signed and is as it was when it was signed last. -/
def AsSigned (part : Field) (signedAt : Option Manifest) (mt : Manifest) : Prop :=
  ∃ was, signedAt = some was ∧ was.get part = mt.get part

/-- **A signature passes** exactly on the part as it was, under the key that made it. -/
theorem IdealScheme.passes_iff (ideal : IdealScheme crypto made) {mt : Manifest}
    (key : Keystore) {signerKey : Keystore} {part r s : Field} {signedAt : Option Manifest}
    (widthR : r.size = 32) (widthS : s.size = 32)
    (made' : MadeAt crypto made signerKey part signedAt (mt.get r ++ mt.get s))
    (noCollision : NoCollision crypto part signedAt mt) :
    crypto.eccVerify key.x key.y (mt.get r) (mt.get s) (crypto.digest (mt.get part)) = .success ↔
      AsSigned part signedAt mt ∧ key = signerKey := by
  rw [ideal.passes key _ _ _ (by rw [Manifest.get_length, widthR])
    (by rw [Manifest.get_length, widthS])]
  cases signedAt with
  | none =>
      refine ⟨fun passes => absurd passes (made' key _), ?_⟩
      rintro ⟨⟨_, none, _⟩, _⟩
      cases none
  | some was =>
      constructor
      · intro passes
        obtain ⟨same, hash⟩ := ideal.binding made' passes
        exact ⟨⟨was, rfl, noCollision was rfl hash⟩, same.symm⟩
      · rintro ⟨⟨_, ⟨rfl⟩, same⟩, rfl⟩
        rw [← same]
        exact made'

/-- **Both signatures pass** exactly when both parts are as they were when they were signed last, and
the vendor part names the key of the server. -/
theorem edits_verify_iff (ideal : IdealScheme crypto made) {mt : Manifest}
    {vendorAt serverAt : Option Manifest}
    (edits : Edits crypto made vendor server mt vendorAt serverAt)
    (vendorHash : NoCollision crypto .vendor vendorAt mt)
    (serverHash : NoCollision crypto .server serverAt mt) :
    verifySignature crypto mt vendor = .success ↔
      AsSigned .vendor vendorAt mt ∧ AsSigned .server serverAt mt ∧
        mt.getServerKeyX = server.x ∧ mt.getServerKeyY = server.y := by
  obtain ⟨madeVendor, madeServer⟩ := edits_made edits
  have vendorPasses := ideal.passes_iff vendor rfl rfl madeVendor vendorHash
  have serverPasses := ideal.passes_iff ⟨mt.getServerKeyX, mt.getServerKeyY⟩ rfl rfl madeServer
    serverHash
  have named : (⟨mt.getServerKeyX, mt.getServerKeyY⟩ : Keystore) = server ↔
      mt.getServerKeyX = server.x ∧ mt.getServerKeyY = server.y := by
    cases server with
    | mk x y => rw [Keystore.mk.injEq]
  rw [verifySignature_success_iff, vendorSigned, serverSigned, decide_eq_true_eq,
    decide_eq_true_eq, vendorPasses, serverPasses, named]
  constructor
  · rintro ⟨⟨vendorPart, _⟩, serverPart, key⟩
    exact ⟨vendorPart, serverPart, key⟩
  · rintro ⟨vendorPart, serverPart, key⟩
    exact ⟨⟨vendorPart, rfl⟩, serverPart, key⟩

/-- A manifest of which the vendor's side is the same passes the vendor's key as before. -/
theorem vendorSigned_congr {mt other : Manifest}
    (signature : ∀ field : Field, field = .vendorSignatureR ∨ field = .vendorSignatureS ∨
      field = .vendor → other.get field = mt.get field) :
    vendorSigned crypto other vendor = vendorSigned crypto mt vendor := by
  rw [vendorSigned, vendorSigned, signature _ (Or.inl rfl), signature _ (Or.inr (Or.inl rfl)),
    signature _ (Or.inr (Or.inr rfl))]

/-- Signing one part and then the other. -/
theorem sign_comm (vendorSigner serverSigner : Signer) (mt : Manifest) :
    (signManifestServer crypto serverSigner (signManifestVendor crypto vendorSigner mt).2).2 =
      (signManifestVendor crypto vendorSigner (signManifestServer crypto serverSigner mt).2).2 := by
  have serverPart : ∀ {signature : List UInt8} (width : signature.length = 64),
      (setVendorSignature mt signature width).get .server = mt.get .server :=
    fun width => setVendorSignature_get mt width (by decide) (by decide)
  have vendorPart : ∀ {signature : List UInt8} (width : signature.length = 64),
      (setServerSignature mt signature width).get .vendor = mt.get .vendor :=
    fun width => setServerSignature_get mt width (by decide) (by decide)
  simp only [signManifestServer, signManifestVendor, serverPart, vendorPart]
  simp only [setServerSignature, setVendorSignature]
  rw [@Manifest.set_comm _ .vendorSignatureS .serverSignatureR _ _ _ _ (by decide),
    @Manifest.set_comm _ .vendorSignatureR .serverSignatureR _ _ _ _ (by decide),
    @Manifest.set_comm _ .vendorSignatureS .serverSignatureS _ _ _ _ (by decide),
    @Manifest.set_comm _ .vendorSignatureR .serverSignatureS _ _ _ _ (by decide)]

/-- **Signing and verifying agree** in every run of setters and signings:

* both signatures pass exactly when both parts are as they were when they were signed last, and the
  vendor part names the key of the server;
* so a field that has changed since its part was signed makes the verification fail;
* setters of the server part and signing it leave the verdict on the vendor's signature alone;
* the order of two signings does not matter. -/
theorem signing_agrees (ideal : IdealScheme crypto made) {mt : Manifest}
    {vendorAt serverAt : Option Manifest}
    (edits : Edits crypto made vendor server mt vendorAt serverAt)
    (vendorHash : NoCollision crypto .vendor vendorAt mt)
    (serverHash : NoCollision crypto .server serverAt mt) :
    (verifySignature crypto mt vendor = .success ↔
      AsSigned .vendor vendorAt mt ∧ AsSigned .server serverAt mt ∧
        mt.getServerKeyX = server.x ∧ mt.getServerKeyY = server.y) ∧
    (∀ was field, (vendorAt = some was ∧ field ∈ vendorFields ∨
        serverAt = some was ∧ field ∈ serverFields) →
      was.get field ≠ mt.get field → verifySignature crypto mt vendor ≠ .success) ∧
    (∀ edit : Edit, edit.field ∈ serverFields →
      vendorSigned crypto (edit.apply mt) vendor = vendorSigned crypto mt vendor) ∧
    (∀ signer, vendorSigned crypto (signManifestServer crypto signer mt).2 vendor =
      vendorSigned crypto mt vendor) ∧
    ∀ vendorSigner serverSigner,
      (signManifestServer crypto serverSigner (signManifestVendor crypto vendorSigner mt).2).2 =
        (signManifestVendor crypto vendorSigner
          (signManifestServer crypto serverSigner mt).2).2 := by
  have verifies := edits_verify_iff ideal edits vendorHash serverHash
  refine ⟨verifies, ?_, ?_, ?_, fun _ _ => sign_comm _ _ mt⟩
  · rintro was field inPart changed passes
    obtain ⟨⟨vendorWas, rfl, vendorSame⟩, ⟨serverWas, rfl, serverSame⟩, _⟩ := verifies.mp passes
    have vendorInside : ∀ field ∈ vendorFields, field.Inside .vendor := by decide
    have serverInside : ∀ field ∈ serverFields, field.Inside .server := by decide
    rcases inPart with ⟨⟨rfl⟩, member⟩ | ⟨⟨rfl⟩, member⟩
    · exact changed (Manifest.get_congr (vendorInside field member) vendorSame)
    · exact changed (Manifest.get_congr (serverInside field member) serverSame)
  · intro edit ofServer
    have apart : ∀ field ∈ serverFields, field.Apart .vendor := by decide
    obtain ⟨apartR, apartS, _⟩ := edit.apart_signatures
    refine vendorSigned_congr ?_
    rintro field (rfl | rfl | rfl)
    · exact edit.get_apart mt apartR
    · exact edit.get_apart mt apartS
    · exact edit.get_apart mt (apart _ ofServer)
  · intro signer
    have width := signer.width (crypto.digest (mt.get .server))
    refine vendorSigned_congr ?_
    rintro field (rfl | rfl | rfl)
    · exact setServerSignature_get mt width (by decide) (by decide)
    · exact setServerSignature_get mt width (by decide) (by decide)
    · exact setServerSignature_get mt width (by decide) (by decide)

end Runs

/-! ### A manifest that is signed -/

/-- A scheme to run the model with: a key is a pair of equal halves that are not zero, and the
signature of a hash is the hash followed by the key. -/
def pairedCrypto : Crypto where
  digest := mirrorCrypto.digest
  digest_length := mirrorCrypto.digest_length
  eccVerify := fun x y r s hash =>
    if x = y ∧ x ≠ List.replicate 32 0 ∧ r = hash ∧ s = x then .success else .verificationFailed

/-- The signatures of `pairedCrypto`. -/
def pairedMade (key : Keystore) (hash signature : List UInt8) : Prop :=
  key.x = key.y ∧ key.x ≠ List.replicate 32 0 ∧ key.x.length = 32 ∧ hash.length = 32 ∧
    signature = hash ++ key.x

theorem paired_ideal : IdealScheme pairedCrypto pairedMade where
  passes := by
    intro key r s hash widthR widthS
    simp only [pairedCrypto, pairedMade]
    constructor
    · intro passes
      split at passes
      · rename_i valid
        obtain ⟨halves, some, rfl, rfl⟩ := valid
        exact ⟨halves, some, widthS, widthR, rfl⟩
      · cases passes
    · rintro ⟨halves, some, width, width', joined⟩
      obtain ⟨rfl, rfl⟩ := List.append_inj joined (by rw [widthR, width'])
      rw [if_pos ⟨halves, some, rfl, rfl⟩]
  binding := by
    rintro ⟨x, y⟩ ⟨x', y'⟩ hash hash' signature ⟨halves, _, _, width, rfl⟩
      ⟨halves', _, _, width', joined⟩
    obtain ⟨rfl, same⟩ := List.append_inj joined (by rw [width, width'])
    simp only at halves halves' same
    subst halves halves' same
    exact ⟨rfl, rfl⟩

/-- The holder of a private key of `pairedCrypto`. -/
def pairedSigner (half : Bytes32) : Signer where
  eccSign := fun hash => (.success, (hash ++ half.1 ++ List.replicate 64 0).take 64)
  width := fun hash => by
    rw [List.length_take, List.length_append, List.length_replicate]
    omega

theorem pairedSigner_holds {half : Bytes32} (some : half.1 ≠ List.replicate 32 0) :
    (pairedSigner half).Holds pairedMade ⟨half.1, half.1⟩ := by
  intro hash width _
  refine ⟨rfl, some, half.2, width, ?_⟩
  have joined : (hash ++ half.1).length = 64 := by rw [List.length_append, width, half.2]
  show (hash ++ half.1 ++ List.replicate 64 0).take 64 = hash ++ half.1
  rw [List.take_append_of_le_length (le_of_eq joined.symm), ← joined, List.take_length]

def onesHalf : Bytes32 := ⟨List.replicate 32 1, List.length_replicate⟩
def twosHalf : Bytes32 := ⟨List.replicate 32 2, List.length_replicate⟩

/-- The vendor enters a version and the key of the server, and signs. -/
def vendorEdited : Manifest :=
  (Edit.serverKeyY twosHalf).apply ((Edit.serverKeyX twosHalf).apply
    ((Edit.version 2).apply (Manifest.ofBytes [])))

/-- The server enters a nonce behind the vendor's signature, and signs. -/
def serverEdited : Manifest :=
  (Edit.nonce 7).apply (signManifestVendor pairedCrypto (pairedSigner onesHalf) vendorEdited).2

def editedManifest : Manifest :=
  (signManifestServer pairedCrypto (pairedSigner twosHalf) serverEdited).2

theorem edited_run : Edits pairedCrypto pairedMade ⟨onesHalf.1, onesHalf.1⟩
    ⟨twosHalf.1, twosHalf.1⟩ editedManifest (some vendorEdited) (some serverEdited) := by
  have unsigned : Unsigned pairedMade (Manifest.ofBytes []) := by
    have blank : (Manifest.ofBytes []).vendorSignature = List.replicate 64 0 ∧
        (Manifest.ofBytes []).serverSignature = List.replicate 64 0 := by decide +kernel
    have none : ∀ key hash, ¬ pairedMade key hash (List.replicate 64 0) := by
      rintro key hash ⟨_, some, width, width', joined⟩
      have halves : List.replicate 32 (0 : UInt8) ++ List.replicate 32 0 = hash ++ key.x := joined
      obtain ⟨_, zero⟩ := List.append_inj halves (by rw [List.length_replicate, width'])
      exact some zero.symm
    intro key hash
    rw [blank.1, blank.2]
    exact ⟨none key hash, none key hash⟩
  have vendorEdits : Edits pairedCrypto pairedMade ⟨onesHalf.1, onesHalf.1⟩
      ⟨twosHalf.1, twosHalf.1⟩ vendorEdited none none :=
    .edit (.serverKeyY twosHalf) (.edit (.serverKeyX twosHalf) (.edit (.version 2)
      (.start unsigned)))
  have serverEdits : Edits pairedCrypto pairedMade ⟨onesHalf.1, onesHalf.1⟩
      ⟨twosHalf.1, twosHalf.1⟩ serverEdited (some vendorEdited) none :=
    .edit (.nonce 7) (.signVendor _ (pairedSigner_holds (by decide)) rfl vendorEdits)
  exact .signServer _ (pairedSigner_holds (by decide)) rfl serverEdits

/-- The manifest passes. -/
theorem edited_verifies :
    verifySignature pairedCrypto editedManifest ⟨onesHalf.1, onesHalf.1⟩ = .success :=
  (signing_agrees paired_ideal edited_run (by rintro _ ⟨rfl⟩ _; decide +kernel)
    (by rintro _ ⟨rfl⟩ _; decide +kernel)).1.mpr
    ⟨⟨vendorEdited, rfl, by decide +kernel⟩, ⟨serverEdited, rfl, by decide +kernel⟩,
      by decide +kernel, by decide +kernel⟩

end Upkit
