/-
**`firmware_tool manifest`: what it generates, it validates.**

`manifest generate` describes a binary in a manifest that lies in fresh memory, signs the vendor part
and then the server part, and writes the manifest to a file. `manifest validate` reads such a file
back and checks it against a binary and the public keys.

* `digestFile_eq` — the loop over `4096` bytes at a time digests the whole file.
* `described_get` — the setters are called on fields that do not meet, so every value is found again.
* `generated_signed` — both signatures pass, under the keys that belong to the private ones.
* `generated_validates` — every check of what was generated passes, but for the size of a file of
  `4` GiB and more.
-/

import Upkit.Server.Resources

namespace Upkit

open Bytes

/-! ### Files and memory -/

/-- What memory holds before anything is written to it. -/
structure Fresh where
  bytes : Nat → List UInt8
  length : ∀ size, (bytes size).length = size

/-- `ifstream::read` into a buffer: a file that is too short leaves the end of the buffer alone. -/
def readInto (buffer file : List UInt8) : List UInt8 := splice buffer 0 (file.take buffer.length)

@[simp] theorem readInto_length (buffer file : List UInt8) :
    (readInto buffer file).length = buffer.length :=
  splice_length (by rw [List.length_take, Nat.zero_add]; exact Nat.min_le_left _ _)

/-- A file that is long enough fills the buffer. -/
theorem readInto_enough {buffer file : List UInt8} (enough : buffer.length ≤ file.length) :
    readInto buffer file = file.take buffer.length := by
  have all : (file.take buffer.length).length = buffer.length := List.length_take_of_le enough
  rw [readInto, splice_zero, all, List.drop_length, List.append_nil]

/-- `BUFFER_LEN`. -/
def toolBufferLen : Nat := 0x1000

/-- The loop that feeds a file to the digest: the flag for its end is set by the read that meets it,
so a file of whole buffers is read once more, for nothing. -/
def digestFileLoop : (fuel : Nat) → (rest hashed : List UInt8) → List UInt8
  | 0, _, hashed => hashed
  | fuel + 1, rest, hashed =>
      let read := rest.take toolBufferLen
      if read.length < toolBufferLen then hashed ++ read
      else digestFileLoop fuel (rest.drop toolBufferLen) (hashed ++ read)

/-- The digest of a file. -/
def digestFile (crypto : Crypto) (file : List UInt8) : List UInt8 :=
  crypto.digest (digestFileLoop (file.length / toolBufferLen + 1) file [])

theorem digestFileLoop_eq {fuel : Nat} {rest : List UInt8}
    (enough : rest.length / toolBufferLen < fuel) (hashed : List UInt8) :
    digestFileLoop fuel rest hashed = hashed ++ rest := by
  have positive : 0 < toolBufferLen := by decide
  induction fuel generalizing rest hashed with
  | zero => exact absurd enough (Nat.not_lt_zero _)
  | succ fuel ih =>
      rw [digestFileLoop]
      by_cases short : rest.length < toolBufferLen
      · have all : rest.take toolBufferLen = rest := List.take_of_length_le (le_of_lt short)
        simp only [all, if_pos short]
      · have whole : toolBufferLen ≤ rest.length := not_lt.mp short
        have full : (rest.take toolBufferLen).length = toolBufferLen := List.length_take_of_le whole
        have fewer : (rest.drop toolBufferLen).length / toolBufferLen < fuel := by
          have one := Nat.div_eq_sub_div positive whole
          rw [List.length_drop]
          omega
        simp only [full, lt_irrefl, if_false]
        rw [ih fewer, List.append_assoc, List.take_append_drop]

/-- **The digest of a file** is that of all its bytes. -/
theorem digestFile_eq (crypto : Crypto) (file : List UInt8) :
    digestFile crypto file = crypto.digest file := by
  rw [digestFile, digestFileLoop_eq (Nat.lt_succ_self _), List.nil_append]

/-! ### Calls of setters -/

/-- The bytes that a setter stores. -/
def Edit.bytes : Edit → List UInt8
  | version value => toLE 2 value
  | size value => toLE 4 value
  | offset value => toLE 4 value
  | appid value => toLE 2 value
  | digest value => value.1
  | serverKeyX key => key.1
  | serverKeyY key => key.1
  | udid value => toLE 2 value
  | nonce value => toLE 4 value
  | diffVersion value => toLE 2 value
  | propSize value => toLE 4 value

theorem Edit.get_self (edit : Edit) (mt : Manifest) :
    (edit.apply mt).get edit.field = edit.bytes := by
  cases edit with
  | digest value => exact Manifest.get_set_self _ _ _ value.2
  | serverKeyX key => exact Manifest.get_set_self _ _ _ key.2
  | serverKeyY key => exact Manifest.get_set_self _ _ _ key.2
  | _ => exact Manifest.get_set_self _ _ _ (toLE_length _ _)

/-- Setters that do not meet a field. -/
theorem edited_apart {edits : List Edit} {other : Field}
    (apart : ∀ edit ∈ edits, edit.field.Apart other) (mt : Manifest) :
    (edits.foldl Edit.apply mt).get other = mt.get other := by
  induction edits generalizing mt with
  | nil => rfl
  | cons edit rest ih =>
      rw [List.foldl_cons, ih fun later member => apart later (List.mem_cons_of_mem _ member)]
      exact edit.get_apart mt (apart edit List.mem_cons_self)

/-- **Setters of fields that do not meet** leave every one of them as it was set. -/
theorem edited_get {edits : List Edit} (apart : (edits.map Edit.field).Pairwise Field.Apart)
    {edit : Edit} (member : edit ∈ edits) (mt : Manifest) :
    (edits.foldl Edit.apply mt).get edit.field = edit.bytes := by
  induction edits generalizing mt with
  | nil => exact absurd member List.not_mem_nil
  | cons first rest ih =>
      obtain ⟨ahead, apart⟩ := List.pairwise_cons.mp apart
      rw [List.foldl_cons]
      rcases List.mem_cons.mp member with rfl | later
      · rw [edited_apart fun other among => (ahead _ (List.mem_map_of_mem among)).symm]
        exact edit.get_self mt
      · exact ih apart later _

/-! ### The commands -/

/-- The configuration of the tool: the numbers that its texts read as, its files as far as they can
be opened, and whether the files it writes can. -/
structure ToolContext where
  appid : Nat
  offset : Nat
  version : Nat
  binary : Option (List UInt8)
  serverPubKey : Option (List UInt8)
  serverPrivKey : Option (List UInt8)
  vendorPubKey : Option (List UInt8)
  vendorPrivKey : Option (List UInt8)
  signatureOpens : Bool
  outOpens : Bool
  appid_lt : appid < 2 ^ 16
  offset_lt : offset < 2 ^ 32
  version_lt : version < 2 ^ 16

/-- What `manifest generate` leaves: the files it has written, and whether it succeeded. -/
structure Generated where
  success : Bool
  signatureFile : Option (List UInt8)
  outFile : Option (List UInt8)

/-- A failure before anything is written. -/
def Generated.failure : Generated := ⟨false, none, none⟩

/-- A key of `64` bytes as it is read from a file: its two halves. -/
def keyHalves (fresh : Fresh) (file : List UInt8) : Bytes32 × Bytes32 :=
  let key := readInto (fresh.bytes 64) file
  (⟨key.take 32, by simp [key, fresh.length]⟩, ⟨key.drop 32, by simp [key, fresh.length]⟩)

section Commands

variable (crypto : Crypto) (sign : List UInt8 → Signer) (fresh : Fresh) (ctx : ToolContext)

/-- The setters that `manifest generate` calls, in this order. -/
def describing (serverPubKey binary : List UInt8) : List Edit :=
  [.size binary.length, .propSize binary.length, .appid ctx.appid, .offset ctx.offset,
    .version ctx.version, .serverKeyX (keyHalves fresh serverPubKey).1,
    .serverKeyY (keyHalves fresh serverPubKey).2,
    .digest ⟨digestFile crypto binary, crypto.digest_length _⟩]

/-- The manifest before it is signed. -/
def described (serverPubKey binary : List UInt8) : Manifest :=
  (describing crypto fresh ctx serverPubKey binary).foldl Edit.apply
    (Manifest.ofBytes (fresh.bytes sizeofManifest))

/-- `ecc_sign` with the private key of a file. -/
def signerOf (file : List UInt8) : Signer := sign (readInto (fresh.bytes 32) file)

/-- The second half of `manifest_generate_command`: a manifest is signed and written. -/
def signGenerated (vendorPrivKey : List UInt8) (mt : Manifest) : Generated :=
  let (err, mt) := signManifestVendor crypto (signerOf sign fresh vendorPrivKey) mt
  if err ≠ .success then .failure
  else if !ctx.signatureOpens then .failure
  else
    -- The buffer holds what was signed last.
    let signature := mt.vendorSignature
    match ctx.serverPrivKey with
    | none => ⟨false, some signature, none⟩
    | some serverPrivKey =>
        let (err, mt) := signManifestServer crypto (signerOf sign fresh serverPrivKey) mt
        if err ≠ .success then ⟨false, some signature, none⟩
        else if !ctx.outOpens then ⟨false, some signature, none⟩
        else ⟨true, some signature, some mt.bytes⟩

/-- `manifest_generate_command`. -/
def manifestGenerateCommand : Generated :=
  match ctx.serverPubKey, ctx.binary, ctx.vendorPrivKey with
  | some serverPubKey, some binary, some vendorPrivKey =>
      signGenerated crypto sign fresh ctx vendorPrivKey
        (described crypto fresh ctx serverPubKey binary)
  | _, _, _ => .failure

/-- What `manifest validate` prints. -/
structure Validation where
  size : Bool
  digest : Bool
  serverKeyX : Bool
  serverKeyY : Bool
  signature : Bool
  deriving DecidableEq

/-- `manifest_validate_command`; `stat` is `st_size` of a file that is not there. -/
def manifestValidateCommand (stat : Int) (outFile : Option (List UInt8)) : Option Validation :=
  match outFile, ctx.serverPubKey, ctx.vendorPubKey with
  | some out, some serverPubKey, some vendorPubKey =>
      let mt := Manifest.ofBytes (readInto (fresh.bytes sizeofManifest) out)
      let serverKey := keyHalves fresh serverPubKey
      let vendorKey := keyHalves fresh vendorPubKey
      some
        { size := (mt.getSize : Int) = (ctx.binary.map fun binary => (binary.length : Int)).getD stat
          digest := match ctx.binary with
            | none => false
            | some binary => mt.getDigest = digestFile crypto binary
          serverKeyX := mt.getServerKeyX = serverKey.1.1
          serverKeyY := mt.getServerKeyY = serverKey.2.1
          signature := verifySignature crypto mt ⟨vendorKey.1.1, vendorKey.2.1⟩ = .success }
  | _, _, _ => none

end Commands

/-! ### What is generated -/

section Generated

variable {crypto : Crypto} {sign : List UInt8 → Signer} {fresh : Fresh} {ctx : ToolContext}

/-- A key file that is long enough is all that a key depends on. -/
theorem keyHalves_long {file : List UInt8} (long : 64 ≤ file.length) (fresh fresh' : Fresh) :
    keyHalves fresh file = keyHalves fresh' file := by
  have same : readInto (fresh.bytes 64) file = readInto (fresh'.bytes 64) file := by
    rw [readInto_enough (by rw [fresh.length]; exact long),
      readInto_enough (by rw [fresh'.length]; exact long), fresh.length, fresh'.length]
  unfold keyHalves
  simp only [same]

/-- **Every value is found again** in the manifest before it is signed. -/
theorem described_get (serverPubKey binary : List UInt8) {edit : Edit}
    (member : edit ∈ describing crypto fresh ctx serverPubKey binary) :
    (described crypto fresh ctx serverPubKey binary).get edit.field = edit.bytes := by
  refine edited_get ?_ member _
  show List.Pairwise Field.Apart [Field.size', .propSize, .appid, .offset', .version, .serverKeyX,
    .serverKeyY, .digest]
  decide

/-- The manifest with both signatures. -/
def generatedManifest (crypto : Crypto) (sign : List UInt8 → Signer) (fresh : Fresh)
    (ctx : ToolContext) (serverPubKey binary vendorPrivKey serverPrivKey : List UInt8) :
    Manifest :=
  (signManifestServer crypto (signerOf sign fresh serverPrivKey)
    (signManifestVendor crypto (signerOf sign fresh vendorPrivKey)
      (described crypto fresh ctx serverPubKey binary)).2).2

/-- What a manifest that has been written to a file was made of. -/
structure Generates (crypto : Crypto) (sign : List UInt8 → Signer) (fresh : Fresh)
    (ctx : ToolContext) (out serverPubKey binary vendorPrivKey serverPrivKey : List UInt8) :
    Prop where
  serverPub : ctx.serverPubKey = some serverPubKey
  isBinary : ctx.binary = some binary
  vendorPriv : ctx.vendorPrivKey = some vendorPrivKey
  serverPriv : ctx.serverPrivKey = some serverPrivKey
  vendorSigns : (signManifestVendor crypto (signerOf sign fresh vendorPrivKey)
    (described crypto fresh ctx serverPubKey binary)).1 = .success
  serverSigns : (signManifestServer crypto (signerOf sign fresh serverPrivKey)
    (signManifestVendor crypto (signerOf sign fresh vendorPrivKey)
      (described crypto fresh ctx serverPubKey binary)).2).1 = .success
  out_eq : out = (generatedManifest crypto sign fresh ctx serverPubKey binary vendorPrivKey
    serverPrivKey).bytes

theorem signGenerated_outFile {vendorPrivKey out : List UInt8} {mt : Manifest}
    (written : (signGenerated crypto sign fresh ctx vendorPrivKey mt).outFile = some out) :
    (signManifestVendor crypto (signerOf sign fresh vendorPrivKey) mt).1 = .success ∧
      ∃ serverPrivKey, ctx.serverPrivKey = some serverPrivKey ∧
        (signManifestServer crypto (signerOf sign fresh serverPrivKey)
          (signManifestVendor crypto (signerOf sign fresh vendorPrivKey) mt).2).1 = .success ∧
        out = (signManifestServer crypto (signerOf sign fresh serverPrivKey)
          (signManifestVendor crypto (signerOf sign fresh vendorPrivKey) mt).2).2.bytes := by
  unfold signGenerated at written
  generalize signManifestVendor crypto (signerOf sign fresh vendorPrivKey) mt = vendor at written
  obtain ⟨err, signed⟩ := vendor
  simp only at written
  split at written
  · cases written
  · rename_i vendorSigns
    split at written
    · cases written
    · cases serverPriv : ctx.serverPrivKey with
      | none =>
          rw [serverPriv] at written
          cases written
      | some serverPrivKey =>
          rw [serverPriv] at written
          refine ⟨not_not.mp vendorSigns, serverPrivKey, rfl, ?_⟩
          show (signManifestServer crypto (signerOf sign fresh serverPrivKey) signed).1 = .success ∧
            out = (signManifestServer crypto (signerOf sign fresh serverPrivKey) signed).2.bytes
          simp only at written
          split at written
          · cases written
          · rename_i serverSigns
            split at written
            · cases written
            · exact ⟨not_not.mp serverSigns, (Option.some.inj written).symm⟩

/-- **A manifest is only written** when everything before has succeeded. -/
theorem generates_of_outFile {out : List UInt8}
    (generated : (manifestGenerateCommand crypto sign fresh ctx).outFile = some out) :
    ∃ serverPubKey binary vendorPrivKey serverPrivKey,
      Generates crypto sign fresh ctx out serverPubKey binary vendorPrivKey serverPrivKey := by
  unfold manifestGenerateCommand at generated
  split at generated
  · rename_i serverPubKey binary vendorPrivKey serverPub isBinary vendorPriv
    obtain ⟨vendorSigns, serverPrivKey, serverPriv, serverSigns, written⟩ :=
      signGenerated_outFile generated
    exact ⟨serverPubKey, binary, vendorPrivKey, serverPrivKey, serverPub, isBinary, vendorPriv,
      serverPriv, vendorSigns, serverSigns, written⟩
  · cases generated

section Fields

variable {out serverPubKey binary vendorPrivKey serverPrivKey : List UInt8}

/-- Signing leaves the fields alone that are set. -/
theorem generated_get {field : Field}
    (apart : field.Apart .vendorSignatureR ∧ field.Apart .vendorSignatureS ∧
      field.Apart .serverSignatureR ∧ field.Apart .serverSignatureS) :
    (generatedManifest crypto sign fresh ctx serverPubKey binary vendorPrivKey serverPrivKey).get
      field = (described crypto fresh ctx serverPubKey binary).get field := by
  obtain ⟨vendorR, vendorS, serverR, serverS⟩ := apart
  rw [generatedManifest, signManifestServer, setServerSignature_get _ _ serverR.symm serverS.symm,
    signManifestVendor, setVendorSignature_get _ _ vendorR.symm vendorS.symm]

/-- **The values of the configuration** in what is generated. -/
theorem generated_value {edit : Edit}
    (member : edit ∈ describing crypto fresh ctx serverPubKey binary) :
    (generatedManifest crypto sign fresh ctx serverPubKey binary vendorPrivKey serverPrivKey).get
      edit.field = edit.bytes := by
  rw [generated_get edit.apart_signatures]
  exact described_get serverPubKey binary member

/-- Every field of the configuration in what is generated. -/
theorem generated_fields
    (generates : Generates crypto sign fresh ctx out serverPubKey binary vendorPrivKey
      serverPrivKey) :
    (Manifest.ofBytes out).getVersion = ctx.version ∧ (Manifest.ofBytes out).getAppid = ctx.appid ∧
      (Manifest.ofBytes out).getOffset = ctx.offset ∧
      (Manifest.ofBytes out).getSize = binary.length % 2 ^ 32 ∧
      (Manifest.ofBytes out).getPropSize = binary.length % 2 ^ 32 ∧
      (Manifest.ofBytes out).getDigest = crypto.digest binary ∧
      (Manifest.ofBytes out).getServerKeyX = (keyHalves fresh serverPubKey).1.1 ∧
      (Manifest.ofBytes out).getServerKeyY = (keyHalves fresh serverPubKey).2.1 := by
  rw [generates.out_eq, Manifest.ofBytes_self]
  have value := fun (edit : Edit)
    (member : edit ∈ describing crypto fresh ctx serverPubKey binary) =>
      @generated_value crypto sign fresh ctx serverPubKey binary vendorPrivKey serverPrivKey edit
        member
  refine ⟨?_, ?_, ?_, ?_, ?_, ?_, ?_, ?_⟩
  · exact (congrArg ofLE (value (.version ctx.version) (by simp [describing]))).trans
      (ofLE_toLE ctx.version_lt)
  · exact (congrArg ofLE (value (.appid ctx.appid) (by simp [describing]))).trans
      (ofLE_toLE ctx.appid_lt)
  · exact (congrArg ofLE (value (.offset ctx.offset) (by simp [describing]))).trans
      (ofLE_toLE ctx.offset_lt)
  · exact (congrArg ofLE (value (.size binary.length) (by simp [describing]))).trans
      (ofLE_toLE_mod 4 binary.length)
  · exact (congrArg ofLE (value (.propSize binary.length) (by simp [describing]))).trans
      (ofLE_toLE_mod 4 binary.length)
  · exact (value (.digest ⟨digestFile crypto binary, crypto.digest_length _⟩)
      (by simp [describing])).trans (digestFile_eq crypto binary)
  · exact value (.serverKeyX (keyHalves fresh serverPubKey).1) (by simp [describing])
  · exact value (.serverKeyY (keyHalves fresh serverPubKey).2) (by simp [describing])

/-- The vendor's signature passes under the public key that belongs to the private one. -/
theorem generated_vendorSigned
    (generates : Generates crypto sign fresh ctx out serverPubKey binary vendorPrivKey
      serverPrivKey) {vendorKey : Keystore}
    (vendorPair : (signerOf sign fresh vendorPrivKey).Reports crypto vendorKey.x vendorKey.y) :
    vendorSigned crypto (Manifest.ofBytes out) vendorKey = true := by
  rw [generates.out_eq, Manifest.ofBytes_self,
    ← vendorSigned_signManifestVendor vendorPair generates.vendorSigns]
  refine vendorSigned_congr fun field part => ?_
  refine signManifestServer_vendorSide crypto _ (fun _ _ => rfl) field ?_
  rcases part with rfl | rfl | rfl
  all_goals decide

/-- **Both signatures pass** under the public keys that belong to the private ones. -/
theorem generated_signed
    (generates : Generates crypto sign fresh ctx out serverPubKey binary vendorPrivKey
      serverPrivKey) {vendorKey : Keystore}
    (vendorPair : (signerOf sign fresh vendorPrivKey).Reports crypto vendorKey.x vendorKey.y)
    (serverPair : (signerOf sign fresh serverPrivKey).Reports crypto
      (keyHalves fresh serverPubKey).1.1 (keyHalves fresh serverPubKey).2.1) :
    verifySignature crypto (Manifest.ofBytes out) vendorKey = .success := by
  obtain ⟨_, _, _, _, _, _, keyX, keyY⟩ := generated_fields generates
  refine (verifySignature_success_iff crypto _ _).mpr
    ⟨generated_vendorSigned generates vendorPair, ?_⟩
  rw [generates.out_eq, Manifest.ofBytes_self] at keyX keyY ⊢
  have kept : ∀ field : Field, field.Apart .serverSignatureR ∧ field.Apart .serverSignatureS →
      (generatedManifest crypto sign fresh ctx serverPubKey binary vendorPrivKey
        serverPrivKey).get field = (signManifestVendor crypto
          (signerOf sign fresh vendorPrivKey)
          (described crypto fresh ctx serverPubKey binary)).2.get field := by
    intro field apart
    rw [generatedManifest, signManifestServer, setServerSignature_get _ _ apart.1.symm
      apart.2.symm]
  exact serverSigned_of_reports serverPair ((kept .serverKeyX (by decide)).symm.trans keyX)
    ((kept .serverKeyY (by decide)).symm.trans keyY) generates.serverSigns

end Fields

/-- **What is generated validates**, against the same binary and the public keys that belong to the
private ones: every check passes, but for the size of a file of `4` GiB and more, which the manifest
cuts to `32` bits. -/
theorem generated_validates {out : List UInt8}
    (generated : (manifestGenerateCommand crypto sign fresh ctx).outFile = some out)
    (fresh' : Fresh) (stat : Int) {vendorPubKey : List UInt8}
    (vendorPub : ctx.vendorPubKey = some vendorPubKey)
    (serverLong : ∀ file ∈ ctx.serverPubKey, 64 ≤ file.length)
    (vendorPair : ∀ file ∈ ctx.vendorPrivKey, (signerOf sign fresh file).Reports crypto
      (keyHalves fresh' vendorPubKey).1.1 (keyHalves fresh' vendorPubKey).2.1)
    (serverPair : ∀ priv ∈ ctx.serverPrivKey, ∀ pub ∈ ctx.serverPubKey,
      (signerOf sign fresh priv).Reports crypto (keyHalves fresh pub).1.1
        (keyHalves fresh pub).2.1) :
    ∃ binary, ctx.binary = some binary ∧
      manifestValidateCommand crypto fresh' ctx stat (some out) =
        some ⟨decide (binary.length < 2 ^ 32), true, true, true, true⟩ := by
  obtain ⟨serverPubKey, binary, vendorPrivKey, serverPrivKey, generates⟩ :=
    generates_of_outFile generated
  refine ⟨binary, generates.isBinary, ?_⟩
  obtain ⟨_, _, _, size, _, digest, keyX, keyY⟩ := generated_fields generates
  have signed := @generated_signed crypto sign fresh ctx out serverPubKey binary vendorPrivKey
    serverPrivKey generates
    ⟨(keyHalves fresh' vendorPubKey).1.1, (keyHalves fresh' vendorPubKey).2.1⟩
    (vendorPair _ generates.vendorPriv)
    (serverPair _ generates.serverPriv _ generates.serverPub)
  have whole : out.length = sizeofManifest := by
    rw [generates.out_eq, Manifest.length_eq]
  have read : readInto (fresh'.bytes sizeofManifest) out = out := by
    rw [readInto_enough (by rw [fresh'.length, whole]), fresh'.length, ← whole, List.take_length]
  rw [keyHalves_long (serverLong _ generates.serverPub) fresh fresh'] at keyX keyY
  have fits : ((binary.length % 2 ^ 32 : Nat) : Int) = (binary.length : Int) ↔
      binary.length < 2 ^ 32 := by
    rw [Nat.cast_inj]
    exact ⟨fun same => same ▸ Nat.mod_lt _ (by decide), Nat.mod_eq_of_lt⟩
  unfold manifestValidateCommand
  rw [generates.serverPub, vendorPub, generates.isBinary]
  simp only [read, size, digest, digestFile_eq, keyX, keyY, signed, Option.map_some,
    Option.getD_some, fits, decide_true]

end Generated

/-- Fresh memory of zeros. -/
def zeroFresh : Fresh := ⟨fun size => List.replicate size 0, fun _ => List.length_replicate⟩

/-- A configuration with keys of zeros, for a binary of `1024` zeros. -/
def zeroTool : ToolContext where
  appid := 0
  offset := 256
  version := 2
  binary := some zeroFirmware
  serverPubKey := some (List.replicate 64 0)
  serverPrivKey := some (List.replicate 32 0)
  vendorPubKey := some (List.replicate 64 0)
  vendorPrivKey := some (List.replicate 32 0)
  signatureOpens := true
  outOpens := true
  appid_lt := by decide
  offset_lt := by decide
  version_lt := by decide

theorem zeroTool_key : keyHalves zeroFresh (List.replicate 64 0) =
    (⟨List.replicate 32 0, List.length_replicate⟩,
      ⟨List.replicate 32 0, List.length_replicate⟩) := by
  decide

/-- What is generated from it validates. -/
theorem zeroTool_validates : ∃ out,
    (manifestGenerateCommand mirrorCrypto (fun _ => mirrorSigner) zeroFresh zeroTool).outFile =
        some out ∧
      manifestValidateCommand mirrorCrypto zeroFresh zeroTool 0 (some out) =
        some ⟨true, true, true, true, true⟩ := by
  obtain ⟨out, generated⟩ : ∃ out, (manifestGenerateCommand mirrorCrypto (fun _ => mirrorSigner)
      zeroFresh zeroTool).outFile = some out := ⟨_, rfl⟩
  obtain ⟨binary, isBinary, validates⟩ := @generated_validates mirrorCrypto (fun _ => mirrorSigner)
    zeroFresh zeroTool out generated zeroFresh 0 (List.replicate 64 0) rfl
    (by rintro file ⟨⟩; decide)
    (by rw [zeroTool_key]; exact fun _ _ => mirrorSigner_reports)
    (by rintro _ _ pub ⟨⟩; rw [zeroTool_key]; exact mirrorSigner_reports)
  have small : zeroFirmware.length < 2 ^ 32 := by
    rw [zeroFirmware, List.length_replicate]
    decide
  rw [show binary = zeroFirmware from (Option.some.inj isBinary).symm, decide_eq_true small]
    at validates
  exact ⟨out, generated, validates⟩

end Upkit
