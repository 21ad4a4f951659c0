/-
**Many clients of one file.**

Clients download the update file block by block, each with its own message and block size, and the
server answers their requests in any order. It keeps a single manifest, which it signs anew
whenever the client changes, so the blocks of one client may be cut from several signings.

* `contact` — one more request of one client, with whatever signature the library makes for it.
* `Orderly` — nobody else is served while a client has a part of the signature only. Blocks of `128`
  bytes and more hold the whole signature.
* `orderly_own` — then every client puts a manifest together that is its own and passes.
* `interleaved_broken` — two clients with blocks of `64` bytes, and a signature of two halves.
-/

import Mathlib.Data.Fintype.Basic
import Mathlib.Tactic.IntervalCases
import Upkit.Server.Update

namespace Upkit

open Bytes

/-! ### Clients -/

/-- `coap_write_block_opt` and `coap_add_block` cut blocks of every size from `16` to `1024`
bytes. -/
def Coap.CutsBlocks (coap : Coap) : Prop :=
  ∀ szx, szx ≤ 6 → ∀ num data, num * 2 ^ (szx + 4) < data.length →
    coap.addBlock ⟨num, szx⟩ data = some ((data.drop (num * 2 ^ (szx + 4))).take (2 ^ (szx + 4)),
      decide (num * 2 ^ (szx + 4) + 2 ^ (szx + 4) < data.length))

/-- A client: the message it sends with each request, from offset `0` on, and the exponent of the
block size it asks for. -/
structure Client where
  msg : List UInt8
  szx : Nat
  length : msg.length = sizeofReceiverMsg
  offset : msgOffset msg = 0
  szx_le : szx ≤ 6

/-- The bytes of a block. -/
def Client.width (client : Client) : Nat := 2 ^ (client.szx + 4)

/-- What a client has received: the bytes, the number of blocks, and whether more follow. -/
structure Download where
  received : List UInt8
  blocks : Nat
  more : Bool

/-- Nothing yet. -/
def Download.start : Download := ⟨[], 0, true⟩

/-- The server and the downloads of its clients. -/
structure Traffic (ι : Type) where
  server : ServerCtx
  downloads : ι → Download

section Traffic

variable {ι : Type} [DecidableEq ι] (crypto : Crypto) (coap : Coap) (clients : ι → Client)

/-- A client asks for its next block and receives the answer. Any other answer than a block ends
its download. -/
def contact (who : ι) (signer : Signer) (traffic : Traffic ι) : Traffic ι :=
  let download := traffic.downloads who
  if download.more then
    let (response, server) := resourceFirmware crypto signer coap
      ⟨some (clients who).msg, some ⟨download.blocks, (clients who).szx⟩⟩ traffic.server
    ⟨server, Function.update traffic.downloads who
      (if response.code ≠ .content then { download with more := false }
      else ⟨download.received ++ response.payload, download.blocks + 1, response.more⟩)⟩
  else traffic

/-- Requests in some order. Each comes with the library as it is at that moment: signing one hash
twice may give two signatures. -/
def contacts : List (ι × Signer) → Traffic ι → Traffic ι
  | [], traffic => traffic
  | (who, signer) :: events, traffic =>
      contacts events (contact crypto coap clients who signer traffic)

/-- The first request for a file, and every client at its start. -/
def Traffic.start (server : ServerCtx) : Traffic ι := ⟨server, fun _ => .start⟩

/-- A client has asked for some of the bytes of the server's signature, and not for all. -/
def Client.MidSignature (client : Client) (download : Download) : Prop :=
  Field.serverSignatureR.offset < download.blocks * client.width ∧
    download.blocks * client.width < Field.server.offset

instance (client : Client) (download : Download) : Decidable (client.MidSignature download) :=
  inferInstanceAs (Decidable (_ ∧ _))

/-- No request is answered while another client is amid the signature. -/
def Orderly : List (ι × Signer) → Traffic ι → Prop
  | [], _ => True
  | (who, signer) :: events, traffic =>
      (∀ other, other ≠ who → ¬ (clients other).MidSignature (traffic.downloads other)) ∧
        Orderly events (contact crypto coap clients who signer traffic)

instance decidableOrderly [Fintype ι] : (events : List (ι × Signer)) → (traffic : Traffic ι) →
    Decidable (Orderly crypto coap clients events traffic)
  | [], _ => isTrue trivial
  | (who, signer) :: events, traffic =>
      have := decidableOrderly events (contact crypto coap clients who signer traffic)
      inferInstanceAs (Decidable (_ ∧ _))

end Traffic

/-- The first bytes a client has put together are a manifest of its own that passes. -/
def OwnManifest (crypto : Crypto) (keystore : Keystore) (client : Client) (download : Download) :
    Prop :=
  sizeofManifest ≤ download.received.length ∧
    (Manifest.ofBytes download.received).getUdid = msgUdid client.msg ∧
    (Manifest.ofBytes download.received).getNonce = msgNonce client.msg ∧
    verifySignature crypto (Manifest.ofBytes download.received) keystore = .success

/-- Blocks of `128` bytes and more never leave a client amid the signature. -/
theorem not_midSignature_of_wide {client : Client} (wide : 128 ≤ client.width)
    (download : Download) : ¬ client.MidSignature download := by
  rintro ⟨above, below⟩
  change 172 < download.blocks * 2 ^ (client.szx + 4) at above
  change download.blocks * 2 ^ (client.szx + 4) < 236 at below
  change 128 ≤ 2 ^ (client.szx + 4) at wide
  have small := client.szx_le
  interval_cases client.szx <;> omega

/-- Clients with such blocks may be served in any order. -/
theorem orderly_of_wide {ι : Type} [DecidableEq ι] (crypto : Crypto) (coap : Coap)
    {clients : ι → Client} (wide : ∀ who, 128 ≤ (clients who).width)
    (events : List (ι × Signer)) (traffic : Traffic ι) :
    Orderly crypto coap clients events traffic := by
  induction events generalizing traffic with
  | nil => exact trivial
  | cons event events ih =>
      exact ⟨fun other _ => not_midSignature_of_wide (wide other) _, ih _⟩

/-! ### The manifest of a message -/

/-- The bytes of the server part that are never written: padding and flags. -/
def idleFields : List Field := [⟨238, 2, by decide⟩, ⟨246, 2, by decide⟩, ⟨252, 4, by decide⟩]

/-- A manifest of the loaded file: vendor part and idle bytes are as they were. -/
structure Loaded (base mt : Manifest) : Prop where
  vendor : ∀ field : Field, field.offset + field.size ≤ Field.serverSignatureR.offset →
    mt.get field = base.get field
  idle : ∀ field ∈ idleFields, mt.get field = base.get field

/-- A manifest as `resource_firmware` leaves it for a message: apart from the signature it is the
manifest of the loaded file with four fields written. -/
structure WrittenFor (base : Manifest) (size : Nat) (msg : List UInt8) (mt : Manifest) : Prop
    extends Loaded base mt where
  udid : mt.get .udid = toLE 2 (msgUdid msg)
  nonce : mt.get .nonce = toLE 4 (msgNonce msg)
  diffVersion : mt.get .diffVersion = toLE 2 (msgVersion msg)
  propSize : mt.get .propSize = toLE 4 (size - sizeofManifest)

section Written

variable {base mt other : Manifest} {size : Nat} {msg : List UInt8}

/-- The server part, field by field. -/
theorem get_server_parts (mt : Manifest) :
    mt.get .server = mt.get .udid ++ mt.get ⟨238, 2, by decide⟩ ++ mt.get .nonce ++
      mt.get .diffVersion ++ mt.get ⟨246, 2, by decide⟩ ++ mt.get .propSize ++
      mt.get ⟨252, 4, by decide⟩ := by
  have join : ∀ offset first second, slice mt.bytes offset first ++
      slice mt.bytes (offset + first) second = slice mt.bytes offset (first + second) := by
    intro offset first second
    rw [slice, slice, slice, List.take_add, List.drop_drop]
  simp only [Manifest.get]
  rw [show Field.udid.offset = 236 from rfl, show Field.udid.size = 2 from rfl,
    show Field.nonce.offset = 240 from rfl, show Field.nonce.size = 4 from rfl,
    show Field.diffVersion.offset = 244 from rfl, show Field.diffVersion.size = 2 from rfl,
    show Field.propSize.offset = 248 from rfl, show Field.propSize.size = 4 from rfl,
    join 236 2 2, join 236 4 4, join 236 8 2, join 236 10 2, join 236 12 4, join 236 16 4]
  rfl

theorem WrittenFor.server_eq (written : WrittenFor base size msg mt)
    (again : WrittenFor base size msg other) : mt.get .server = other.get .server := by
  rw [get_server_parts mt, get_server_parts other, written.udid, again.udid, written.nonce,
    again.nonce, written.diffVersion, again.diffVersion, written.propSize, again.propSize,
    written.idle _ (by simp [idleFields]), again.idle _ (by simp [idleFields]),
    written.idle ⟨246, 2, by decide⟩ (by simp [idleFields]),
    again.idle ⟨246, 2, by decide⟩ (by simp [idleFields]),
    written.idle ⟨252, 4, by decide⟩ (by simp [idleFields]),
    again.idle ⟨252, 4, by decide⟩ (by simp [idleFields])]

/-- Two such manifests agree before the signature. -/
theorem WrittenFor.take_eq (written : WrittenFor base size msg mt)
    (again : WrittenFor base size msg other) (firmware : List UInt8) :
    (mt.bytes ++ firmware).take 172 = (other.bytes ++ firmware).take 172 := by
  have length : ∀ mt : Manifest, 172 ≤ mt.bytes.length := fun mt => by
    rw [mt.length_eq]
    decide
  rw [List.take_append_of_le_length (length mt), List.take_append_of_le_length (length other)]
  exact (written.vendor ⟨0, 172, by decide⟩ (by decide)).trans
    (again.vendor ⟨0, 172, by decide⟩ (by decide)).symm

/-- They agree behind the signature too. -/
theorem WrittenFor.drop_eq (written : WrittenFor base size msg mt)
    (again : WrittenFor base size msg other) (firmware : List UInt8) :
    (mt.bytes ++ firmware).drop 236 = (other.bytes ++ firmware).drop 236 := by
  have behind : ∀ mt : Manifest, (mt.bytes ++ firmware).drop 236 = mt.get .server ++ firmware := by
    intro mt
    have whole : (mt.bytes.drop 236).length ≤ 20 := by
      rw [List.length_drop, mt.length_eq]
      decide
    rw [List.drop_append_of_le_length (by rw [mt.length_eq]; decide),
      ← List.take_of_length_le whole]
    rfl
  rw [behind, behind, written.server_eq again]

/-- Writing the four fields. -/
theorem Loaded.assign (loaded : Loaded base mt) :
    WrittenFor base size msg (assignServer msg size mt) := by
  obtain ⟨udid, nonce, diffVersion, propSize⟩ := assignServer_fields msg size mt
  refine ⟨⟨?_, ?_⟩, udid, nonce, diffVersion, propSize⟩
  · intro field before
    have apart : ∀ other : Field, Field.serverSignatureR.offset ≤ other.offset →
        other.Apart field := fun other behind => Or.inr (le_trans before behind)
    rw [assignServer_get msg size mt (apart _ (by decide)) (apart _ (by decide))
      (apart _ (by decide)) (apart _ (by decide)), loaded.vendor field before]
  · intro field member
    have apart : Field.udid.Apart field ∧ Field.nonce.Apart field ∧
        Field.diffVersion.Apart field ∧ Field.propSize.Apart field := by
      simp only [idleFields, List.mem_cons, List.not_mem_nil, or_false] at member
      rcases member with rfl | rfl | rfl <;> decide
    rw [assignServer_get msg size mt apart.1 apart.2.1 apart.2.2.1 apart.2.2.2,
      loaded.idle field member]

/-- A signature is no part of what is written for a message. -/
theorem WrittenFor.sign (written : WrittenFor base size msg mt) {signature : List UInt8}
    (width : signature.length = 64) :
    WrittenFor base size msg (setServerSignature mt signature width) := by
  have kept := fun field apartR apartS =>
    @setServerSignature_get mt signature width field apartR apartS
  refine ⟨⟨?_, ?_⟩, ?_, ?_, ?_, ?_⟩
  · intro field before
    have apart : ∀ other : Field, Field.serverSignatureR.offset ≤ other.offset →
        other.Apart field := fun other behind => Or.inr (le_trans before behind)
    rw [kept field (apart _ (by decide)) (apart _ (by decide)), written.vendor field before]
  · intro field member
    have apart : Field.serverSignatureR.Apart field ∧ Field.serverSignatureS.Apart field := by
      simp only [idleFields, List.mem_cons, List.not_mem_nil, or_false] at member
      rcases member with rfl | rfl | rfl <;> decide
    rw [kept field apart.1 apart.2, written.idle field member]
  · rw [kept .udid (by decide) (by decide), written.udid]
  · rw [kept .nonce (by decide) (by decide), written.nonce]
  · rw [kept .diffVersion (by decide) (by decide), written.diffVersion]
  · rw [kept .propSize (by decide) (by decide), written.propSize]

/-- It names the device and the nonce of its message. -/
theorem WrittenFor.names (written : WrittenFor base size msg mt) :
    mt.getUdid = msgUdid msg ∧ mt.getNonce = msgNonce msg := by
  constructor
  · rw [Manifest.getUdid, written.udid]
    exact ofLE_toLE (msgUdid_lt msg)
  · rw [Manifest.getNonce, written.nonce]
    exact ofLE_toLE (msgNonce_lt msg)

end Written

/-! ### Piecing a file together -/

section Pieces

variable {file other : List UInt8} {keep count : Nat}

/-- The next block of a file that agrees with what has been received. -/
theorem take_append_front (same : file.take keep = other.take keep) (below : count ≤ keep)
    (width : Nat) :
    file.take count ++ (other.drop count).take width = other.take (count + width) := by
  have front : file.take count = other.take count := by
    rw [← min_eq_left below, ← List.take_take, same, List.take_take]
  rw [front, List.take_add]

/-- The next block of a file that agrees with what is to come. -/
theorem take_append_back (same : file.drop keep = other.drop keep) (above : keep ≤ count)
    (width : Nat) :
    file.take count ++ (other.drop count).take width = file.take (count + width) := by
  have back : other.drop count = file.drop count := by
    rw [← Nat.add_sub_cancel' above, ← List.drop_drop, ← List.drop_drop, same]
  rw [back, List.take_add]

end Pieces

/-! ### The server between requests -/

/-- What is assumed of signing with the server's key: it succeeds, and the signature passes. -/
structure SigningLaws (crypto : Crypto) (signer : Signer) (x y : List UInt8) : Prop where
  signs : ∀ hash, (signer.eccSign hash).1 = .success
  verifies : ∀ hash, hash.length = 32 → crypto.eccVerify x y ((signer.eccSign hash).2.take 32)
    ((signer.eccSign hash).2.drop 32) hash = .success

section Serving

variable {ι : Type} (crypto : Crypto) (clients : ι → Client) (base : Manifest)
  (firmware : List UInt8)

/-- The manifest of the server. Whoever it names could have had it written. -/
structure Serving (mt : Manifest) : Prop where
  loaded : Loaded base mt
  named : ∀ who, ¬ Stale (clients who).msg mt →
    WrittenFor base (sizeofManifest + firmware.length) (clients who).msg mt ∧
      serverSigned crypto mt = true

variable {crypto clients base firmware} {signer : Signer} {x y : List UInt8}
  {mt mt' : Manifest}

/-- **Preparing the file for a client.** -/
theorem Serving.prepare (serving : Serving crypto clients base firmware mt)
    (distinct : ∀ who other, msgUdid (clients who).msg = msgUdid (clients other).msg →
      msgNonce (clients who).msg = msgNonce (clients other).msg → who = other)
    (keyX : base.getServerKeyX = x) (keyY : base.getServerKeyY = y)
    (laws : SigningLaws crypto signer x y) (who : ι) :
    ∃ mt', Upkit.prepare crypto signer (clients who).msg (ServerCtx.ofParts mt firmware) =
        (.success, ServerCtx.ofParts mt' firmware) ∧
      WrittenFor base (sizeofManifest + firmware.length) (clients who).msg mt' ∧
      serverSigned crypto mt' = true ∧
      (¬ Stale (clients who).msg mt → mt' = mt) ∧ Serving crypto clients base firmware mt' := by
  rw [prepare_eq crypto signer _ _ laws.signs, ServerCtx.ofParts_manifest,
    ServerCtx.ofParts_firmware, ServerCtx.ofParts_length, servedManifest]
  by_cases stale : Stale (clients who).msg mt
  · rw [if_pos stale]
    obtain ⟨size, total⟩ : ∃ size, sizeofManifest + firmware.length = size := ⟨_, rfl⟩
    have written := @Loaded.assign base mt size (clients who).msg serving.loaded
    have keptX : (assignServer (clients who).msg size mt).getServerKeyX = x :=
      (written.vendor .serverKeyX (by decide)).trans keyX
    have keptY : (assignServer (clients who).msg size mt).getServerKeyY = y :=
      (written.vendor .serverKeyY (by decide)).trans keyY
    have passes := serverSigned_signManifestServer laws.verifies keptX keptY
    have signed : WrittenFor base size (clients who).msg
        (signManifestServer crypto signer (assignServer (clients who).msg size mt)).2 :=
      written.sign (signer.width _)
    rw [total]
    refine ⟨_, rfl, signed, passes, fun current => absurd stale current, signed.toLoaded, ?_⟩
    intro other current
    rw [Stale, not_or, not_not, not_not] at current
    have same : who = other := by
      refine distinct who other ?_ ?_
      · exact signed.names.1.symm.trans current.1
      · exact signed.names.2.symm.trans current.2
    rw [total, ← same]
    exact ⟨signed, passes⟩
  · rw [if_neg stale]
    obtain ⟨written, passes⟩ := serving.named who stale
    exact ⟨mt, rfl, written, passes, fun _ => rfl, serving⟩

/-- **One block for a client.** -/
theorem Serving.block {coap : Coap} (cuts : coap.CutsBlocks) {client : Client} {blocks : Nat}
    (prepared : Upkit.prepare crypto signer client.msg (ServerCtx.ofParts mt firmware) =
      (.success, ServerCtx.ofParts mt' firmware))
    (inside : blocks * client.width < sizeofManifest + firmware.length) :
    resourceFirmware crypto signer coap ⟨some client.msg, some ⟨blocks, client.szx⟩⟩
        (ServerCtx.ofParts mt firmware) =
      (⟨.content, ((mt'.bytes ++ firmware).drop (blocks * client.width)).take client.width,
        decide (blocks * client.width + client.width < sizeofManifest + firmware.length)⟩,
        ServerCtx.ofParts mt' firmware) := by
  have length : (mt'.bytes ++ firmware).length = sizeofManifest + firmware.length :=
    ServerCtx.ofParts_length mt' firmware
  have cut := cuts client.szx client.szx_le blocks (mt'.bytes ++ firmware)
    (lt_of_lt_of_eq inside length.symm)
  have nonempty : ¬ (ServerCtx.ofParts mt' firmware).mappedFile.length ≤ 0 := by
    rw [ServerCtx.ofParts_length, sizeofManifest]
    omega
  unfold resourceFirmware
  simp only [client.length, prepared, client.offset, ne_eq, not_true_eq_false, if_false, nonempty,
    List.drop_zero, Option.getD_some]
  simp only [show (ServerCtx.ofParts mt' firmware).mappedFile = mt'.bytes ++ firmware from rfl,
    cut, length]
  rfl

end Serving

/-! ### The downloads -/

section Downloads

variable {ι : Type} {crypto : Crypto} {base : Manifest} {firmware : List UInt8}
  {client : Client} {mt mt' : Manifest} {download : Download}

/-- How far a client has come: what it holds is the beginning of a file that was written for it,
with one signature. Amid the signature, the server still has that file. -/
def Progress (crypto : Crypto) (base : Manifest) (firmware : List UInt8) (client : Client)
    (server : Manifest) (download : Download) : Prop :=
  download.more = decide (download.blocks * client.width < sizeofManifest + firmware.length) ∧
  ∃ mt, WrittenFor base (sizeofManifest + firmware.length) client.msg mt ∧
    download.received = (mt.bytes ++ firmware).take (download.blocks * client.width) ∧
    (Field.serverSignatureR.offset < download.blocks * client.width →
      serverSigned crypto mt = true) ∧
    (client.MidSignature download → server = mt)

theorem progress_start : Progress crypto base firmware client mt .start := by
  refine ⟨?_, assignServer client.msg (sizeofManifest + firmware.length) base, ?_, ?_, ?_, ?_⟩
  · rw [Download.start, Nat.zero_mul, sizeofManifest, decide_eq_true]
    omega
  · exact Loaded.assign ⟨fun _ _ => rfl, fun _ _ => rfl⟩
  · rw [Download.start, Nat.zero_mul, List.take_zero]
  · intro some
    rw [Download.start, Nat.zero_mul] at some
    exact absurd some (Nat.not_lt_zero _)
  · intro amid
    rw [Client.MidSignature, Download.start, Nat.zero_mul] at amid
    exact absurd amid.1 (Nat.not_lt_zero _)

/-- Others are served while the client is not amid the signature. -/
theorem Progress.of_not_mid (progress : Progress crypto base firmware client mt download)
    (outside : ¬ client.MidSignature download) :
    Progress crypto base firmware client mt' download := by
  obtain ⟨more, own, written, received, passes, -⟩ := progress
  exact ⟨more, own, written, received, passes, fun amid => absurd amid outside⟩

/-- **One more block.** Before the signature the file that is served now takes the place of the
earlier one, behind it the earlier one stays, and amid it both are the same. -/
theorem Progress.block (progress : Progress crypto base firmware client mt download)
    (current : ¬ Stale client.msg mt → mt' = mt)
    (written' : WrittenFor base (sizeofManifest + firmware.length) client.msg mt')
    (passes' : serverSigned crypto mt' = true) :
    Progress crypto base firmware client mt'
      ⟨download.received ++ ((mt'.bytes ++ firmware).drop
          (download.blocks * client.width)).take client.width, download.blocks + 1,
        decide (download.blocks * client.width + client.width <
          sizeofManifest + firmware.length)⟩ := by
  obtain ⟨-, own, written, received, passes, kept⟩ := progress
  obtain ⟨count, counted⟩ : ∃ count, download.blocks * client.width = count := ⟨_, rfl⟩
  have next : (download.blocks + 1) * client.width = count + client.width := by
    rw [Nat.add_mul, Nat.one_mul, counted]
  rw [counted] at received passes
  rw [Client.MidSignature, counted] at kept
  refine ⟨?_, ?_⟩
  · simp only [next, counted]
  · by_cases before : count ≤ Field.serverSignatureR.offset
    · refine ⟨mt', written', ?_, fun _ => passes', fun _ => rfl⟩
      simp only [received, next, counted]
      exact take_append_front (written.take_eq written' firmware) before _
    · by_cases behind : Field.server.offset ≤ count
      · refine ⟨own, written, ?_, fun _ => passes (by omega), ?_⟩
        · simp only [received, next, counted]
          exact take_append_back (written.drop_eq written' firmware) behind _
        · intro amid
          rw [Client.MidSignature, next] at amid
          omega
      · have same : mt = own := kept ⟨by omega, by omega⟩
        subst same
        have names := written.names
        have unchanged : mt' = mt := by
          refine current ?_
          rw [Stale, not_or, not_not, not_not]
          exact names
        subst unchanged
        refine ⟨mt', written, ?_, fun _ => passes', fun _ => rfl⟩
        simp only [received, next, counted]
        rw [List.take_add]

/-- What a client holds once it has the manifest. -/
theorem Progress.ownManifest {keystore : Keystore}
    (progress : Progress crypto base firmware client mt download)
    (vendor : vendorSigned crypto base keystore = true)
    (far : sizeofManifest ≤ download.blocks * client.width) :
    OwnManifest crypto keystore client download := by
  obtain ⟨-, own, written, received, passes, -⟩ := progress
  have complete : sizeofManifest ≤ download.received.length := by
    rw [received, List.length_take, List.length_append, own.length_eq]
    omega
  have manifest : Manifest.ofBytes download.received = own := by
    apply Manifest.ext
    rw [Manifest.ofBytes_bytes complete, received, List.take_take, min_eq_left far,
      List.take_left' own.length_eq]
  have signed := passes (lt_of_lt_of_le (by decide) far)
  rw [OwnManifest, manifest, verifySignature_success_iff]
  refine ⟨complete, written.names.1, written.names.2, ?_, signed⟩
  rw [vendorSigned, written.vendor .vendorSignatureR (by decide),
    written.vendor .vendorSignatureS (by decide), written.vendor .vendor (by decide)]
  exact vendor

end Downloads

/-! ### Runs -/

section Runs

variable {ι : Type} [DecidableEq ι] {crypto : Crypto} {coap : Coap} {clients : ι → Client}
  {base : Manifest} {firmware : List UInt8} {x y : List UInt8}

/-- Between two requests. -/
structure InOrder (crypto : Crypto) (clients : ι → Client) (base : Manifest)
    (firmware : List UInt8) (mt : Manifest) (traffic : Traffic ι) : Prop where
  server : traffic.server = ServerCtx.ofParts mt firmware
  serving : Serving crypto clients base firmware mt
  progress : ∀ who, Progress crypto base firmware (clients who) mt (traffic.downloads who)

variable (cuts : coap.CutsBlocks)
  (distinct : ∀ who other, msgUdid (clients who).msg = msgUdid (clients other).msg →
    msgNonce (clients who).msg = msgNonce (clients other).msg → who = other)
  (keyX : base.getServerKeyX = x) (keyY : base.getServerKeyY = y)

include cuts distinct keyX keyY

/-- **One request** while no other client is amid the signature. -/
theorem InOrder.contact {mt : Manifest} {traffic : Traffic ι} {signer : Signer}
    (inOrder : InOrder crypto clients base firmware mt traffic)
    (laws : SigningLaws crypto signer x y) (who : ι)
    (free : ∀ other, other ≠ who → ¬ (clients other).MidSignature (traffic.downloads other)) :
    ∃ mt', InOrder crypto clients base firmware mt'
        (Upkit.contact crypto coap clients who signer traffic) ∧
      ∀ other, ((Upkit.contact crypto coap clients who signer traffic).downloads other).blocks =
        (traffic.downloads other).blocks +
          if other = who ∧ (traffic.downloads other).more = true then 1 else 0 := by
  have own := inOrder.progress who
  by_cases more : (traffic.downloads who).more = true
  · obtain ⟨mt', prepared, written, passes, current, serving⟩ :=
      inOrder.serving.prepare distinct keyX keyY laws who
    have inside : (traffic.downloads who).blocks * (clients who).width <
        sizeofManifest + firmware.length := of_decide_eq_true (own.1.symm.trans more)
    have answered := Serving.block cuts prepared inside
    rw [← inOrder.server] at answered
    rw [Upkit.contact, if_pos more]
    simp only [answered, ne_eq, not_true_eq_false, if_false]
    refine ⟨mt', ⟨rfl, serving, ?_⟩, ?_⟩
    · intro other
      by_cases same : other = who
      · subst same
        simp only [Function.update_self]
        exact own.block current written passes
      · simp only [Function.update_of_ne same]
        exact (inOrder.progress other).of_not_mid (free other same)
    · intro other
      by_cases same : other = who
      · subst same
        rw [Function.update_self, if_pos ⟨rfl, more⟩]
      · rw [Function.update_of_ne same, if_neg (fun both => same both.1), Nat.add_zero]
  · rw [Upkit.contact, if_neg more]
    refine ⟨mt, inOrder, ?_⟩
    intro other
    rw [if_neg, Nat.add_zero]
    rintro ⟨rfl, another⟩
    exact more another

/-- **A whole run.** A client has received all it has asked for, up to the end of the file. -/
theorem InOrder.contacts {mt : Manifest} {traffic : Traffic ι} (events : List (ι × Signer))
    (inOrder : InOrder crypto clients base firmware mt traffic)
    (laws : ∀ event ∈ events, SigningLaws crypto event.2 x y)
    (orderly : Orderly crypto coap clients events traffic) :
    ∃ mt', InOrder crypto clients base firmware mt'
        (Upkit.contacts crypto coap clients events traffic) ∧
      ∀ who, ((Upkit.contacts crypto coap clients events traffic).downloads who).more = false ∨
        (traffic.downloads who).blocks + (events.map Prod.fst).count who ≤
          ((Upkit.contacts crypto coap clients events traffic).downloads who).blocks := by
  induction events generalizing mt traffic with
  | nil => exact ⟨mt, inOrder, fun who => Or.inr (Nat.le_refl _)⟩
  | cons event events ih =>
      obtain ⟨who, signer⟩ := event
      obtain ⟨free, rest⟩ := orderly
      have signs : SigningLaws crypto signer x y := laws (who, signer) List.mem_cons_self
      obtain ⟨mt1, between, counted⟩ := inOrder.contact cuts distinct keyX keyY signs who free
      obtain ⟨mt2, after, answered⟩ := ih between
        (fun event member => laws event (List.mem_cons_of_mem _ member)) rest
      rw [Upkit.contacts]
      refine ⟨mt2, after, ?_⟩
      intro other
      obtain ⟨final, ended⟩ : ∃ final, Upkit.contacts crypto coap clients events
          (Upkit.contact crypto coap clients who signer traffic) = final := ⟨_, rfl⟩
      rw [ended] at after answered ⊢
      rcases answered other with done | some
      · exact Or.inl done
      · rw [counted other] at some
        rw [List.map_cons, List.count_cons]
        by_cases asks : other = who ∧ (traffic.downloads other).more = true
        · obtain ⟨rfl, more⟩ := asks
          rw [if_pos ⟨rfl, more⟩] at some
          rw [if_pos (beq_self_eq_true _)]
          exact Or.inr (by omega)
        · rw [if_neg asks] at some
          by_cases same : other = who
          · -- The client had the whole file already.
            have ended : (traffic.downloads other).more = false :=
              Bool.eq_false_iff.mpr fun more => asks ⟨same, more⟩
            have past := of_decide_eq_false ((inOrder.progress other).1.symm.trans ended)
            have further := Nat.mul_le_mul_right (clients other).width
              (show (traffic.downloads other).blocks ≤ (final.downloads other).blocks by omega)
            refine Or.inl ?_
            rw [(after.progress other).1, decide_eq_false]
            exact fun inside => past (lt_of_le_of_lt further inside)
          · rw [if_neg (fun equal => same (beq_iff_eq.mp equal).symm)]
            exact Or.inr (by omega)

omit [DecidableEq ι] cuts distinct keyX keyY in
/-- Before the first request. -/
theorem inOrder_start (server : ServerCtx)
    (addressed : ∀ who, ¬ Stale (clients who).msg server.manifest →
      WrittenFor server.manifest server.mappedFile.length (clients who).msg server.manifest ∧
        serverSigned crypto server.manifest = true) :
    InOrder crypto clients server.manifest server.firmware server.manifest (.start server) := by
  have parts : ServerCtx.ofParts server.manifest server.firmware = server := server.ofParts_self
  have length : sizeofManifest + server.firmware.length = server.mappedFile.length := by
    rw [← ServerCtx.ofParts_length server.manifest, parts]
  refine ⟨parts.symm, ⟨⟨fun _ _ => rfl, fun _ _ => rfl⟩, ?_⟩, fun _ => progress_start⟩
  intro who current
  rw [length]
  exact addressed who current

end Runs

/-- **Every client has a manifest of its own** once it has asked for as many bytes, when the run is
orderly, every signature passes, and the loaded file is addressed to none of the clients or has been
written and signed for them before. -/
theorem orderly_own {ι : Type} [DecidableEq ι] {crypto : Crypto} {coap : Coap}
    (cuts : coap.CutsBlocks) {clients : ι → Client}
    (distinct : ∀ who other, msgUdid (clients who).msg = msgUdid (clients other).msg →
      msgNonce (clients who).msg = msgNonce (clients other).msg → who = other)
    {keystore : Keystore} (server : ServerCtx)
    (vendor : vendorSigned crypto server.manifest keystore = true)
    (addressed : ∀ who, ¬ Stale (clients who).msg server.manifest →
      WrittenFor server.manifest server.mappedFile.length (clients who).msg server.manifest ∧
        serverSigned crypto server.manifest = true)
    (events : List (ι × Signer))
    (laws : ∀ event ∈ events, SigningLaws crypto event.2 server.manifest.getServerKeyX
      server.manifest.getServerKeyY)
    (orderly : Orderly crypto coap clients events (.start server)) (who : ι)
    (asked : sizeofManifest ≤ (events.map Prod.fst).count who * (clients who).width) :
    OwnManifest crypto keystore (clients who)
      ((contacts crypto coap clients events (.start server)).downloads who) := by
  obtain ⟨mt, after, answered⟩ := (inOrder_start server addressed).contacts cuts distinct rfl rfl
    events laws orderly
  refine (after.progress who).ownManifest vendor ?_
  rcases answered who with done | some
  · have past := of_decide_eq_false ((after.progress who).1.symm.trans done)
    omega
  · have far := Nat.mul_le_mul_right (clients who).width some
    change (0 + _) * _ ≤ _ at far
    rw [Nat.zero_add] at far
    exact le_trans asked far

/-! ### Two clients -/

/-- A library with many signatures of a hash: the hash shifted by some byte, twice. The digest of a
string is its first `32` bytes. -/
def shiftCrypto : Crypto where
  digest := mirrorCrypto.digest
  digest_length := mirrorCrypto.digest_length
  eccVerify := fun _ _ r s hash =>
    if r = hash.map (· + (r.headD 0 - hash.headD 0)) ∧ s = r then .success
    else .verificationFailed

/-- Signing by a shift. -/
def shiftSigner (shift : UInt8) : Signer where
  eccSign := fun hash => (.success, ((hash ++ List.replicate 32 0).take 32).map (· + shift) ++
    ((hash ++ List.replicate 32 0).take 32).map (· + shift))
  width := fun hash => by simp

theorem shiftSigner_first (shift : UInt8) {hash : List UInt8} (length : hash.length = 32) :
    ((shiftSigner shift).eccSign hash).2.take 32 = hash.map (· + shift) := by
  show (((hash ++ List.replicate 32 0).take 32).map (· + shift) ++ _).take 32 = _
  rw [List.take_left' length, List.take_left' (by rw [List.length_map, length])]

theorem shiftSigner_second (shift : UInt8) {hash : List UInt8} (length : hash.length = 32) :
    ((shiftSigner shift).eccSign hash).2.drop 32 = hash.map (· + shift) := by
  show (((hash ++ List.replicate 32 0).take 32).map (· + shift) ++ _).drop 32 = _
  rw [List.take_left' length, List.drop_left' (by rw [List.length_map, length])]

theorem shiftSigner_laws (shift : UInt8) (x y : List UInt8) :
    SigningLaws shiftCrypto (shiftSigner shift) x y where
  signs := fun _ => rfl
  verifies := by
    intro hash length
    rw [shiftSigner_first shift length, shiftSigner_second shift length]
    refine if_pos ⟨?_, rfl⟩
    cases hash with
    | nil => rfl
    | cons byte rest =>
        have back : byte + shift - byte = shift := by
          rw [UInt8.add_comm, UInt8.add_sub_cancel]
        simp only [List.map_cons, List.headD_cons, back]

/-- The halves of two signatures of a hash do not fit together. -/
theorem shiftSigner_halves {shift other : UInt8} (differ : shift ≠ other) (x y : List UInt8)
    {hash : List UInt8} (length : hash.length = 32) :
    shiftCrypto.eccVerify x y (((shiftSigner shift).eccSign hash).2.take 32)
      (((shiftSigner other).eccSign hash).2.drop 32) hash = .verificationFailed := by
  rw [shiftSigner_first shift length, shiftSigner_second other length]
  refine if_neg ?_
  rintro ⟨-, same⟩
  cases hash with
  | nil => exact absurd length (by decide)
  | cons byte rest =>
      rw [List.map_cons, List.map_cons, List.cons_eq_cons] at same
      exact differ ((UInt8.add_right_inj byte).mp same.1).symm

theorem plainCoap_cutsBlocks : plainCoap.CutsBlocks :=
  fun _ _ _ _ inside => if_pos inside

/-- The device `1` asks for blocks of `64` bytes, the device `2` for larger ones. -/
def twoClients (szx : Nat) (small : szx ≤ 6) : Bool → Client
  | true => ⟨[1, 0, 0, 0, 1, 0, 0, 0, 0, 0, 0, 0, 0, 0, 0, 0], 2, rfl, by decide, by decide⟩
  | false => ⟨[2, 0, 0, 0, 2, 0, 0, 0, 0, 0, 0, 0, 0, 0, 0, 0], szx, rfl, by decide, small⟩

/-- A vendor's manifest of zeros, and three bytes of firmware. -/
def zeroFile : ServerCtx where
  mappedFile := List.replicate 256 0 ++ [1, 2, 3]
  holds := by
    rw [List.length_append, List.length_replicate, sizeofManifest]
    omega

/-- Requests and the shifts they would be signed with. -/
def shiftEvents (shifts : List (Bool × UInt8)) : List (Bool × Signer) :=
  shifts.map fun shift => (shift.1, shiftSigner shift.2)

theorem shiftEvents_laws (shifts : List (Bool × UInt8)) (x y : List UInt8) :
    ∀ event ∈ shiftEvents shifts, SigningLaws shiftCrypto event.2 x y := by
  intro event member
  obtain ⟨shift, -, rfl⟩ := List.mem_map.mp member
  exact shiftSigner_laws shift.2 x y

theorem zeroFile_stale {szx : Nat} (small : szx ≤ 6) (who : Bool) :
    Stale (twoClients szx small who).msg zeroFile.manifest := by
  have named : ∀ who, zeroFile.manifest.getUdid ≠ msgUdid (twoClients 0 (by decide) who).msg := by
    decide +kernel
  cases who with
  | true => exact Or.inl (named true)
  | false => exact Or.inl (named false)

theorem zeroFile_vendorSigned : vendorSigned shiftCrypto zeroFile.manifest ⟨[], []⟩ = true := by
  decide +kernel

/-- The device `2` is served once before the device `1` comes to its signature, and once after. -/
theorem twoClients_own :
    OwnManifest shiftCrypto ⟨[], []⟩ (twoClients 4 (by decide) true)
      ((contacts shiftCrypto plainCoap (twoClients 4 (by decide)) (shiftEvents
        [(true, 1), (true, 2), (false, 3), (true, 4), (true, 5), (false, 6)])
        (.start zeroFile)).downloads true) :=
  orderly_own plainCoap_cutsBlocks (by decide) zeroFile zeroFile_vendorSigned
    (fun who current => absurd (zeroFile_stale (by decide) who) current) _
    (shiftEvents_laws _ _ _) (by decide +kernel) true (by decide)

/-- **Two signings in one manifest.** The device `2` is served between the third and the fourth
block of the device `1`, which end and begin inside the signature. -/
theorem interleaved_broken :
    plainCoap.CutsBlocks ∧ vendorSigned shiftCrypto zeroFile.manifest ⟨[], []⟩ = true ∧
    (∀ who, Stale (twoClients 2 (by decide) who).msg zeroFile.manifest) ∧
    (∀ shift other, shift ≠ other → ∀ x y hash, hash.length = 32 →
      shiftCrypto.eccVerify x y (((shiftSigner shift).eccSign hash).2.take 32)
        (((shiftSigner other).eccSign hash).2.drop 32) hash ≠ .success) ∧
    ¬ ∀ events : List (Bool × Signer), (∀ event ∈ events, SigningLaws shiftCrypto event.2
        zeroFile.manifest.getServerKeyX zeroFile.manifest.getServerKeyY) →
      ∀ who, sizeofManifest ≤
          (events.map Prod.fst).count who * (twoClients 2 (by decide) who).width →
        OwnManifest shiftCrypto ⟨[], []⟩ (twoClients 2 (by decide) who)
          ((contacts shiftCrypto plainCoap (twoClients 2 (by decide)) events
            (.start zeroFile)).downloads who) := by
  refine ⟨plainCoap_cutsBlocks, zeroFile_vendorSigned, zeroFile_stale _, ?_, ?_⟩
  · intro shift other differ x y hash length
    rw [shiftSigner_halves differ x y length]
    decide
  · intro every
    have own := every (shiftEvents [(true, 1), (true, 2), (true, 3), (false, 4), (true, 5)])
      (shiftEvents_laws _ _ _) true (by decide)
    have refused : verifySignature shiftCrypto (Manifest.ofBytes ((contacts shiftCrypto plainCoap
        (twoClients 2 (by decide)) (shiftEvents [(true, 1), (true, 2), (true, 3), (false, 4),
          (true, 5)]) (.start zeroFile)).downloads true).received) ⟨[], []⟩ = .generic := by
      decide +kernel
    rw [OwnManifest, refused] at own
    exact absurd own.2.2.2 (by decide)

end Upkit
