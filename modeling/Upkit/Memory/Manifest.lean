/-
**The simple manifest: layout, fields and signatures.**

A manifest is the `256` bytes of `manifest_t` as they lie in memory, little-endian and with the
padding of the structure. A `Field` is a range of these bytes, and every getter and setter of
`simple_manifest.c` is one application of `Manifest.get` or `Manifest.set`:

* `get_set_self`, `get_set_apart` — a setter stores its own field and leaves every field it does
  not meet alone.
* `verifySignature` — both signatures, each over the digest of its own part; the server key comes
  from the vendor part.

The cryptographic library is a parameter (`Crypto`): the digest of a byte string and the
verification of a signature.
-/

import Upkit.Memory.Interface

namespace Upkit

open Bytes

/-- `sizeof(manifest_t)`. -/
def sizeofManifest : Nat := 256

/-- The bytes of a `manifest_t`. -/
structure Manifest where
  bytes : List UInt8
  length_eq : bytes.length = sizeofManifest

theorem Manifest.ext {first second : Manifest} (same : first.bytes = second.bytes) :
    first = second := by
  cases first
  cases second
  cases same
  rfl

instance : DecidableEq Manifest := fun first second =>
  decidable_of_iff (first.bytes = second.bytes) ⟨Manifest.ext, fun same => same ▸ rfl⟩

/-- The manifest a buffer holds; a buffer that is too short is read as if zeros followed. -/
def Manifest.ofBytes (data : List UInt8) : Manifest :=
  ⟨(data ++ List.replicate sizeofManifest 0).take sizeofManifest, by
    simp [List.length_take, List.length_append, List.length_replicate]⟩

theorem Manifest.ofBytes_bytes {data : List UInt8} (enough : sizeofManifest ≤ data.length) :
    (Manifest.ofBytes data).bytes = data.take sizeofManifest := by
  show (data ++ List.replicate sizeofManifest 0).take sizeofManifest = data.take sizeofManifest
  rw [List.take_append_of_le_length enough]

@[simp] theorem Manifest.ofBytes_self (mt : Manifest) : Manifest.ofBytes mt.bytes = mt := by
  apply Manifest.ext
  rw [Manifest.ofBytes_bytes (le_of_eq mt.length_eq.symm), ← mt.length_eq, List.take_length]

/-- Bytes after the first `256` do not matter. -/
theorem Manifest.ofBytes_append {data : List UInt8} (enough : sizeofManifest ≤ data.length)
    (more : List UInt8) : Manifest.ofBytes (data ++ more) = Manifest.ofBytes data := by
  apply Manifest.ext
  rw [Manifest.ofBytes_bytes enough, Manifest.ofBytes_bytes (by rw [List.length_append]; omega),
    List.take_append_of_le_length enough]

/-! ### Fields -/

/-- A range of the bytes of a manifest. -/
structure Field where
  offset : Nat
  size : Nat
  within : offset + size ≤ sizeofManifest

namespace Field

def vendorSignatureR : Field := ⟨0, 32, by decide⟩
def vendorSignatureS : Field := ⟨32, 32, by decide⟩
/-- `vendor_manifest_t`: size, offset, version, appid, digest and the server key. -/
def vendor : Field := ⟨64, 108, by decide⟩
def size' : Field := ⟨64, 4, by decide⟩
def offset' : Field := ⟨68, 4, by decide⟩
def version : Field := ⟨72, 2, by decide⟩
def appid : Field := ⟨74, 2, by decide⟩
def digest : Field := ⟨76, 32, by decide⟩
def serverKeyX : Field := ⟨108, 32, by decide⟩
def serverKeyY : Field := ⟨140, 32, by decide⟩
def serverSignatureR : Field := ⟨172, 32, by decide⟩
def serverSignatureS : Field := ⟨204, 32, by decide⟩
/-- `server_manifest_t`: udid, nonce, diff_version, prop_size and flags, two of them padded. -/
def server : Field := ⟨236, 20, by decide⟩
def udid : Field := ⟨236, 2, by decide⟩
def nonce : Field := ⟨240, 4, by decide⟩
def diffVersion : Field := ⟨244, 2, by decide⟩
def propSize : Field := ⟨248, 4, by decide⟩

/-- Two fields that do not meet. -/
def Apart (first second : Field) : Prop :=
  first.offset + first.size ≤ second.offset ∨ second.offset + second.size ≤ first.offset

instance (first second : Field) : Decidable (first.Apart second) :=
  inferInstanceAs (Decidable (_ ∨ _))

end Field

/-- The bytes of a field. -/
def Manifest.get (mt : Manifest) (field : Field) : List UInt8 :=
  slice mt.bytes field.offset field.size

/-- A manifest with a field overwritten. -/
def Manifest.set (mt : Manifest) (field : Field) (data : List UInt8)
    (width : data.length = field.size) : Manifest :=
  ⟨splice mt.bytes field.offset data, by
    rw [splice_length (by rw [width, mt.length_eq]; exact field.within), mt.length_eq]⟩

@[simp] theorem Manifest.get_length (mt : Manifest) (field : Field) :
    (mt.get field).length = field.size :=
  slice_length (by rw [mt.length_eq]; exact field.within)

@[simp] theorem Manifest.get_set_self (mt : Manifest) (field : Field) (data : List UInt8)
    (width : data.length = field.size) : (mt.set field data width).get field = data := by
  have within := field.within
  rw [Manifest.get, Manifest.set, ← width]
  exact slice_splice_self (by rw [mt.length_eq]; omega)

theorem Manifest.get_set_apart (mt : Manifest) {field other : Field} {data : List UInt8}
    (width : data.length = field.size) (apart : field.Apart other) :
    (mt.set field data width).get other = mt.get other := by
  have within := field.within
  rw [Manifest.get, Manifest.set]
  refine slice_splice_disjoint (by rw [width, mt.length_eq]; exact within) ?_
  rw [width]
  exact apart.symm

/-- Fields that do not meet can be stored in either order. -/
theorem Manifest.set_comm (mt : Manifest) {field other : Field} {data data' : List UInt8}
    (width : data.length = field.size) (width' : data'.length = other.size)
    (apart : field.Apart other) :
    (mt.set field data width).set other data' width' =
      (mt.set other data' width').set field data width := by
  have within := field.within
  have within' := other.within
  refine Manifest.ext (splice_comm ?_ ?_ ?_)
  · rw [width, mt.length_eq]
    exact within
  · rw [width', mt.length_eq]
    exact within'
  · rw [width, width']
    exact apart

/-! ### Getters and setters -/

namespace Manifest

def getVersion (mt : Manifest) : Nat := ofLE (mt.get .version)
def getSize (mt : Manifest) : Nat := ofLE (mt.get .size')
def getOffset (mt : Manifest) : Nat := ofLE (mt.get .offset')
def getAppid (mt : Manifest) : Nat := ofLE (mt.get .appid)
def getDigest (mt : Manifest) : List UInt8 := mt.get .digest
def getServerKeyX (mt : Manifest) : List UInt8 := mt.get .serverKeyX
def getServerKeyY (mt : Manifest) : List UInt8 := mt.get .serverKeyY
def getDiffVersion (mt : Manifest) : Nat := ofLE (mt.get .diffVersion)
def getPropSize (mt : Manifest) : Nat := ofLE (mt.get .propSize)
def getNonce (mt : Manifest) : Nat := ofLE (mt.get .nonce)
def getUdid (mt : Manifest) : Nat := ofLE (mt.get .udid)

def setDiffVersion (mt : Manifest) (version : Nat) : Manifest :=
  mt.set .diffVersion (toLE 2 version) (toLE_length _ _)
def setNonce (mt : Manifest) (nonce : Nat) : Manifest :=
  mt.set .nonce (toLE 4 nonce) (toLE_length _ _)
def setUdid (mt : Manifest) (udid : Nat) : Manifest :=
  mt.set .udid (toLE 2 udid) (toLE_length _ _)
def setPropSize (mt : Manifest) (size : Nat) : Manifest :=
  mt.set .propSize (toLE 4 size) (toLE_length _ _)
def setAppid (mt : Manifest) (appid : Nat) : Manifest :=
  mt.set .appid (toLE 2 appid) (toLE_length _ _)
def setVersion (mt : Manifest) (version : Nat) : Manifest :=
  mt.set .version (toLE 2 version) (toLE_length _ _)
def setSize (mt : Manifest) (size : Nat) : Manifest :=
  mt.set .size' (toLE 4 size) (toLE_length _ _)
def setOffset (mt : Manifest) (offset : Nat) : Manifest :=
  mt.set .offset' (toLE 4 offset) (toLE_length _ _)
def setDigest (mt : Manifest) (digest : List UInt8) (width : digest.length = 32) : Manifest :=
  mt.set .digest digest width
def setServerKeyX (mt : Manifest) (key : List UInt8) (width : key.length = 32) : Manifest :=
  mt.set .serverKeyX key width
def setServerKeyY (mt : Manifest) (key : List UInt8) (width : key.length = 32) : Manifest :=
  mt.set .serverKeyY key width

/-- A field that a number is stored in never exceeds its bytes. -/
theorem ofLE_get_lt (mt : Manifest) (field : Field) : ofLE (mt.get field) < 256 ^ field.size := by
  have bound := ofLE_lt (mt.get field)
  rwa [get_length] at bound

theorem getVersion_lt (mt : Manifest) : mt.getVersion < 2 ^ 16 := mt.ofLE_get_lt .version
theorem getSize_lt (mt : Manifest) : mt.getSize < 2 ^ 32 := mt.ofLE_get_lt .size'
theorem getOffset_lt (mt : Manifest) : mt.getOffset < 2 ^ 32 := mt.ofLE_get_lt .offset'
theorem getPropSize_lt (mt : Manifest) : mt.getPropSize < 2 ^ 32 := mt.ofLE_get_lt .propSize

end Manifest

/-! ### Signatures -/

/-- The cryptographic library: the digest of a byte string, fed in one piece or several, and the
verification of a signature `(r, s)` on a hash under a public key `(x, y)`. -/
structure Crypto where
  digest : List UInt8 → List UInt8
  digest_length : ∀ data, (digest data).length = 32
  eccVerify : (x y r s hash : List UInt8) → PullError

/-- A library to run the model with: the digest of a string is its first `32` bytes, and the
signature of a hash is the hash with the `x` of the key. -/
def mirrorCrypto : Crypto where
  digest := fun data => (data ++ List.replicate 32 0).take 32
  digest_length := fun data => by simp
  eccVerify := fun x _ r s hash => if r = hash ∧ s = x then .success else .verificationFailed

/-- `keystore_t`: the vendor's public key. -/
structure Keystore where
  x : List UInt8
  y : List UInt8

/-- `safestore_t`, without the AES key that no modelled function reads. -/
structure Safestore where
  keystore : Keystore
  udid : Nat
  appid : Nat

section Signatures

variable (crypto : Crypto)

/-- The vendor signature is made over the vendor part with the vendor's key. -/
def vendorSigned (mt : Manifest) (keystore : Keystore) : Bool :=
  crypto.eccVerify keystore.x keystore.y (mt.get .vendorSignatureR) (mt.get .vendorSignatureS)
    (crypto.digest (mt.get .vendor)) = .success

/-- The server signature is made over the server part with the key the vendor part names. -/
def serverSigned (mt : Manifest) : Bool :=
  crypto.eccVerify mt.getServerKeyX mt.getServerKeyY (mt.get .serverSignatureR)
    (mt.get .serverSignatureS) (crypto.digest (mt.get .server)) = .success

/-- `verify_signature_impl`. -/
def verifySignature (mt : Manifest) (keystore : Keystore) : PullError :=
  if !vendorSigned crypto mt keystore then .generic
  else if !serverSigned crypto mt then .generic
  else .success

theorem verifySignature_success_iff (mt : Manifest) (keystore : Keystore) :
    verifySignature crypto mt keystore = .success ↔
      vendorSigned crypto mt keystore = true ∧ serverSigned crypto mt = true := by
  unfold verifySignature
  by_cases vendor : vendorSigned crypto mt keystore = true
  · by_cases server : serverSigned crypto mt = true
    · simp [vendor, server]
    · simp [vendor, server]
  · simp [vendor]

/-- `set_vendor_signature_r_impl` and `set_vendor_signature_s_impl`, from the `64` bytes of a
signature buffer. -/
def setVendorSignature (mt : Manifest) (signature : List UInt8) (width : signature.length = 64) :
    Manifest :=
  (mt.set .vendorSignatureR (signature.take 32)
      (by rw [List.length_take, width]; rfl)).set .vendorSignatureS (signature.drop 32)
    (by rw [List.length_drop, width]; rfl)

/-- `set_server_signature_r_impl` and `set_server_signature_s_impl`, from the `64` bytes of a
signature buffer. -/
def setServerSignature (mt : Manifest) (signature : List UInt8) (width : signature.length = 64) :
    Manifest :=
  (mt.set .serverSignatureR (signature.take 32)
      (by rw [List.length_take, width]; rfl)).set .serverSignatureS (signature.drop 32)
    (by rw [List.length_drop, width]; rfl)

end Signatures

end Upkit
