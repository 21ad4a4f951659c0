/-
**Delivering into slots of a length.**

On slots that end somewhere a session behaves as on boundless ones as long as what is fed to it fits:

* `fsmArm_layout`, `fsm_chunk_before`, `fsm_chunk_last` — the calls of a session, in terms of the
  bytes fed so far (`Armed`).
* `Release` — an update that is signed, whole, without a diff version and cut so that a chunk begins
  behind its manifest.
* `deliver_release` — a release that is newer than the device and fits the oldest slot ends in a
  reboot, with its bytes in that slot and every other object as it was.
* `Downloaded.next` — the same chunk by chunk: how far a session has come.
-/

import Upkit.Network.Sessions
import Upkit.Server.Update
import Mathlib.Data.List.Flatten

namespace Upkit

open Bytes

/-- The oldest slot is one of the slots. -/
theorem oldestSlot_mem (table : SlotTable) (contents : Contents) :
    ∃ slot ∈ table.slots, slot.id = (oldestSlot table contents).id := by
  obtain ⟨slot, member, found⟩ := selectSlot_table_mem false false (versionAt contents) table 0 0
  exact ⟨slot, member, by rw [oldestSlot, found]; rfl⟩

section Layout

variable (layout : PlainLayout) (crypto : Crypto) (table : SlotTable) (sf : Safestore)

theorem feedSink_layout (obj : MemObject) (memory : Contents) (fed data : List UInt8)
    (fits : (fed ++ data).length ≤ layout.limit obj.id) :
    feedSink (plain layout) data (sinkOf obj memory fed) = sinkOf obj memory (fed ++ data) := by
  rw [feedSink, sink_feed layout obj memory fed data fits]

/-! ### The calls of a session -/

/-- **Arming the oldest slot**, when the manifest and what came with it fit into it. -/
theorem fsmArm_layout (rest : List UInt8) (ctx : FsmCtx) (memory : Contents)
    (full : ctx.pipeline = .buffer) (fresh : ctx.bufferCtx = pipelineBufferInit)
    (manifests : ∀ slot ∈ table.slots, sizeofManifest ≤ layout.limit slot.id)
    (fits : sizeofManifest + rest.length ≤ layout.limit (oldestSlot table memory).id) :
    fsmArm (plain layout) table rest ctx memory =
      let id := (oldestSlot table memory).id
      let sink := sinkOf (slotObject id) (opened layout.erased id memory) (ctx.scratch.mt.bytes ++ rest)
      (.success, ctx.armed id (slotObject id) rest sink, sink.2.2) := by
  have length := ctx.scratch.mt.length_eq
  have scan : getOldestFirmware (plain layout) table false ctx.id 0 memory =
      (.success, oldestSlot table memory, memory) := by
    rw [getOldestFirmware, getOrderedFirmware_plain layout memory table _ _ _ _ manifests,
      selectSlot_table_congr _ _ _ table ctx.id 0 0 0]
    rfl
  have begun : ∀ start : Contents, armedSink (plain layout)
      (slotObject (oldestSlot table memory).id) ctx.scratch.mt rest pipelineBufferInit start =
        sinkOf (slotObject (oldestSlot table memory).id) start (ctx.scratch.mt.bytes ++ rest) := by
    intro start
    rw [armedSink, ← sinkOf_nil (slotObject (oldestSlot table memory).id) start,
      feedSink_layout layout _ start [] _ (by
        rw [List.nil_append, length]
        exact le_trans (Nat.le_add_right _ _) fits),
      List.nil_append, feedSink_layout layout _ start _ rest (by
        rw [List.length_append, length]
        exact fits)]
  rw [fsmArm_eq _ _ _ _ _ full]
  simp only [scan, plain_open_writeAll, ne_eq, not_true_eq_false, if_false, fresh]
  exact congrArg (fun sink : Sink Contents => (PullError.success,
    ctx.armed (oldestSlot table memory).id (slotObject (oldestSlot table memory).id) rest sink,
    sink.2.2)) (begun _)

/-- **The chunk that completes a manifest that passes** arms the oldest slot. -/
theorem fsm_collected_layout {ctx : FsmCtx} {memory : Contents} {got : List UInt8}
    {input : FsmInput} (session : Collecting ctx got)
    (enough : sizeofManifest ≤ got.length + input.buf.data.length)
    (accepted : Accepted crypto sf ctx.version (Manifest.ofBytes (got ++ input.buf.data)))
    (manifests : ∀ slot ∈ table.slots, sizeofManifest ≤ layout.limit slot.id)
    (fits : got.length + input.buf.data.length ≤ layout.limit (oldestSlot table memory).id) :
    ∃ ctx' memory', fsm (plain layout) crypto table sf input ctx memory =
        ⟨.success, input.buf.data, ctx', memory'⟩ ∧
      Armed ctx' memory' (opened layout.erased (oldestSlot table memory).id memory)
        (storedStream (got ++ input.buf.data)) ∧
      ctx'.id = (oldestSlot table memory).id ∧
      ctx'.expected = (Manifest.ofBytes (got ++ input.buf.data)).announced := by
  have few := session.unfinished
  obtain ⟨processed, manifest⟩ := collecting_complete session enough
  have mt : (ctx.collected input.buf.data).configured.scratch.mt =
      (Manifest.ofBytes (got ++ input.buf.data)).full := by
    show ((ctx.collected input.buf.data).scratch.setMt _).mt = _
    rw [Scratch.setMt_mt, manifest]
  have accepted' : Accepted crypto sf (ctx.collected input.buf.data).version
      (ctx.collected input.buf.data).scratch.mt := by
    rw [manifest]
    exact accepted
  have length : (input.buf.data.drop (sizeofManifest - got.length)).length =
      got.length + input.buf.data.length - sizeofManifest := by
    rw [List.length_drop]
    omega
  have short : (input.buf.data.drop (sizeofManifest - got.length)).length < 2 ^ 31 := by
    have bound := input.buf.short
    omega
  have stored : (ctx.collected input.buf.data).configured.scratch.mt.bytes ++
      input.buf.data.drop (sizeofManifest - got.length) =
        storedStream (got ++ input.buf.data) := by
    rw [mt, storedStream, List.drop_append, List.drop_of_length_le (le_of_lt few),
      List.nil_append]
  have begun := armed_begin layout.erased table (ctx.collected input.buf.data).configured memory
    rfl short processed
  rw [stored] at begun
  refine ⟨_, _, ?_, begun, rfl, ?_⟩
  · rw [fsm_collecting (plain layout) crypto table sf input session, if_neg (not_lt.mpr enough),
      fsmVerifyManifest_accepted _ _ accepted',
      fsmArm_layout layout table _ _ _ rfl rfl manifests (by omega), stored]
    rfl
  · rw [← Manifest.full_announced, ← mt]
    rfl

variable {layout crypto table sf}

/-- **A chunk that ends before** what is expected keeps the slot armed. -/
theorem fsm_chunk_before {ctx : FsmCtx} {memory start : Contents} {fed : List UInt8}
    {input : FsmInput} (session : Armed ctx memory start fed)
    (before : fed.length + input.buf.data.length < ctx.expected)
    (fits : ctx.expected ≤ layout.limit ctx.id) :
    ∃ ctx' memory', fsm (plain layout) crypto table sf input ctx memory =
        ⟨.success, input.buf.data, ctx', memory'⟩ ∧
      Armed ctx' memory' start (fed ++ input.buf.data) ∧ ctx'.id = ctx.id ∧
      ctx'.expected = ctx.expected := by
  have within : ctx.processed + input.buf.data.length ≤ ctx.expected := by
    rw [session.processed]
    exact le_of_lt before
  have bound : (fed ++ input.buf.data).length ≤ layout.limit (slotObject ctx.id).id := by
    rw [List.length_append]
    exact le_trans (le_of_lt before) fits
  refine ⟨_, _, ?_, session.received within, rfl, rfl⟩
  rw [fsm_receiveFirmware _ crypto table sf memory session.state, keepBuf, fsmReceiveFirmware,
    fsmReceiveData_eq _ _ _ _ session.pipeline]
  simp only [session.processed, session.sink, feedSink_layout layout _ start fed _ bound]
  rw [if_neg (by omega), if_pos (by omega)]

/-- What `verify_object` says of a slot when `fsm` calls it. -/
def passesIn (layout : PlainLayout) (crypto : Crypto) (sf : Safestore) (id : MemId)
    (memory : Contents) : Prop :=
  ∀ buffer, (verifyObject (plain layout) crypto ⟨id, .readOnly⟩ sf buffer fsmBufferSize memory).1 =
    .success

/-- **The chunk that completes an image that passes** ends in a reboot. -/
theorem fsm_chunk_last {ctx : FsmCtx} {memory start : Contents} {fed : List UInt8}
    {input : FsmInput} (session : Armed ctx memory start fed)
    (complete : fed.length + input.buf.data.length = ctx.expected)
    (fits : ctx.expected ≤ layout.limit ctx.id) (manifest : sizeofManifest ≤ layout.limit ctx.id)
    (passes : passesIn layout crypto sf ctx.id (Function.update start ctx.id
      (writeRange (start ctx.id) 0 (fed ++ input.buf.data)))) :
    ∃ ctx', fsm (plain layout) crypto table sf input ctx memory =
        ⟨.success, input.buf.data, ctx', Function.update start ctx.id
          (writeRange (start ctx.id) 0 (fed ++ input.buf.data))⟩ ∧
      ctx'.state = .reboot ∧ ctx'.id = ctx.id ∧ ctx'.processed = ctx.expected := by
  have bound : (fed ++ input.buf.data).length ≤ layout.limit (slotObject ctx.id).id := by
    rw [List.length_append, complete]
    exact fits
  have cleared := sink_clear layout (slotObject ctx.id) start (fed ++ input.buf.data) bound
  have written : Function.update start (slotObject ctx.id).id (writeRange (start (slotObject
      ctx.id).id) 0 (fed ++ input.buf.data)) = Function.update start ctx.id
        (writeRange (start ctx.id) 0 (fed ++ input.buf.data)) := rfl
  rw [written] at cleared
  generalize Function.update start ctx.id (writeRange (start ctx.id) 0 (fed ++ input.buf.data)) =
    after at cleared passes
  have kept := fun buffer => verifyObject_memory layout crypto ⟨ctx.id, .readOnly⟩ sf buffer
    fsmBufferSize after manifest
  have call : fsmReceiveData (plain layout) input.buf.data ctx memory =
      .falls (ctx.completed input.buf.data (pipelineBufferClear (writerPipeline (plain layout))
        (sinkOf (slotObject ctx.id) start (fed ++ input.buf.data))).2) after := by
    rw [fsmReceiveData_eq _ _ _ _ session.pipeline]
    simp only [session.processed, session.sink, feedSink_layout layout _ start fed _ bound,
      plain_close, cleared]
    rw [if_neg (by omega), if_neg (by omega)]
  rw [fsm_receiveFirmware _ crypto table sf memory session.state, fsmReceiveFirmware, call]
  simp only
  rw [fsmVerifyFirmware, plain_open layout after (by decide)]
  simp only [FsmCtx.completed, FsmCtx.received, FsmCtx.withSink, passes _, kept, plain_close, ne_eq,
    not_true_eq_false, if_false]
  refine ⟨_, rfl, rfl, rfl, ?_⟩
  show ctx.processed + input.buf.data.length = ctx.expected
  rw [session.processed, complete]

/-! ### A whole delivery -/

/-- **From an armed slot on**: chunks that end where they are expected to. -/
theorem deliver_chunks {inputs : List FsmInput} (some' : inputs ≠ [])
    (nonempty : ∀ input ∈ inputs, input.buf.data ≠ []) {ctx : FsmCtx} {memory start : Contents}
    {fed : List UInt8} (session : Armed ctx memory start fed)
    (complete : fed.length + (streamOf inputs).length = ctx.expected)
    (fits : ctx.expected ≤ layout.limit ctx.id) (manifest : sizeofManifest ≤ layout.limit ctx.id)
    (passes : passesIn layout crypto sf ctx.id (Function.update start ctx.id
      (writeRange (start ctx.id) 0 (fed ++ streamOf inputs)))) :
    ∃ ctx', deliver (plain layout) crypto table sf inputs ctx memory =
        some (ctx', Function.update start ctx.id
          (writeRange (start ctx.id) 0 (fed ++ streamOf inputs))) ∧
      ctx'.state = .reboot ∧ ctx'.id = ctx.id := by
  induction inputs generalizing ctx memory fed with
  | nil => exact absurd rfl some'
  | cons input rest ih =>
      have stream : streamOf (input :: rest) = input.buf.data ++ streamOf rest := List.flatMap_cons
      rw [stream, List.length_append] at complete
      rw [stream, ← List.append_assoc] at passes ⊢
      rw [deliver]
      cases rest with
      | nil =>
          have nothing : streamOf [] = [] := rfl
          rw [nothing, List.append_nil] at passes ⊢
          rw [nothing, List.length_nil, Nat.add_zero] at complete
          obtain ⟨ctx', call, state, id, _⟩ := @fsm_chunk_last layout crypto table sf _ _ _ _ _ session
            complete fits manifest passes
          rw [call]
          exact ⟨ctx', rfl, state, id⟩
      | cons next rest =>
          have more : 0 < (streamOf (next :: rest)).length := by
            have first := nonempty next (by simp)
            rw [show streamOf (next :: rest) = next.buf.data ++ streamOf rest from
              List.flatMap_cons, List.length_append]
            have positive := List.length_pos_of_ne_nil first
            omega
          obtain ⟨ctx', memory', call, session', id, expected⟩ := @fsm_chunk_before layout crypto
            table sf ctx memory start fed input session (by omega) fits
          rw [call]
          rw [← id] at passes fits manifest ⊢
          exact ih (List.cons_ne_nil _ _)
            (fun other member => nonempty other (List.mem_cons_of_mem _ member)) session'
            (by rw [List.length_append, expected]; omega) (by rw [expected]; exact fits) manifest
            passes

/-- The slot an image is stored in. -/
def storedIn (layout : PlainLayout) (id : MemId) (image : List UInt8) (memory : Contents) :
    Contents :=
  Function.update memory id (writeRange (layout.wipe (memory id)) 0 image)

theorem storedIn_opened (layout : PlainLayout) (id : MemId) (image : List UInt8)
    (memory : Contents) :
    Function.update (opened layout.erased id memory) id
        (writeRange (opened layout.erased id memory id) 0 image) =
      storedIn layout id image memory := by
  rw [opened, Function.update_idem, Function.update_self]
  rfl

/-- **From the first byte on**: a stream whose manifest passes and that is cut behind its manifest. -/
theorem deliver_stream {inputs : List FsmInput}
    (nonempty : ∀ input ∈ inputs, input.buf.data ≠ []) {ctx : FsmCtx} {memory : Contents}
    {got : List UInt8} (session : Collecting ctx got)
    (begins : sizeofManifest ≤ got.length + (streamOf inputs.dropLast).length)
    (accepted : Accepted crypto sf ctx.version (Manifest.ofBytes (got ++ streamOf inputs)))
    (announced : (Manifest.ofBytes (got ++ streamOf inputs)).announced =
      (got ++ streamOf inputs).length)
    (manifests : ∀ slot ∈ table.slots, sizeofManifest ≤ layout.limit slot.id)
    (fits : (got ++ streamOf inputs).length ≤ layout.limit (oldestSlot table memory).id)
    (passes : passesIn layout crypto sf (oldestSlot table memory).id
      (storedIn layout (oldestSlot table memory).id (storedStream (got ++ streamOf inputs))
        memory)) :
    ∃ ctx', deliver (plain layout) crypto table sf inputs ctx memory =
        some (ctx', storedIn layout (oldestSlot table memory).id
          (storedStream (got ++ streamOf inputs)) memory) ∧
      ctx'.state = .reboot ∧ ctx'.id = (oldestSlot table memory).id := by
  induction inputs generalizing ctx got with
  | nil =>
      have few := session.unfinished
      rw [show streamOf ([] : List FsmInput).dropLast = [] from rfl, List.length_nil] at begins
      omega
  | cons input rest ih =>
      have stream : streamOf (input :: rest) = input.buf.data ++ streamOf rest := List.flatMap_cons
      have later : ∀ other ∈ rest, other.buf.data ≠ [] :=
        fun other member => nonempty other (List.mem_cons_of_mem _ member)
      rw [stream, ← List.append_assoc] at accepted announced fits passes ⊢
      rw [deliver]
      rcases Nat.lt_or_ge (got.length + input.buf.data.length) sizeofManifest with few | enough
      · -- The manifest is still incomplete, so this is not the last chunk.
        have more : rest ≠ [] := by
          rintro rfl
          rw [show streamOf [input].dropLast = [] from rfl, List.length_nil] at begins
          omega
        rw [List.dropLast_cons_of_ne_nil more, show streamOf (input :: rest.dropLast) =
          input.buf.data ++ streamOf rest.dropLast from List.flatMap_cons, List.length_append]
          at begins
        rw [fsm_collecting (plain layout) crypto table sf input session, if_pos few]
        exact ih later (collecting_short session few)
          (by rw [List.length_append]; omega) accepted announced fits passes
      · have more : rest ≠ [] := by
          rintro rfl
          have few := session.unfinished
          rw [show streamOf [input].dropLast = [] from rfl, List.length_nil] at begins
          omega
        have behind : sizeofManifest ≤ (got ++ input.buf.data).length := by
          rw [List.length_append]
          exact enough
        have same := Manifest.ofBytes_append behind (streamOf rest)
        rw [same] at accepted announced
        rw [@List.length_append _ (got ++ input.buf.data)] at announced fits
        obtain ⟨slot, member, isOldest⟩ := oldestSlot_mem table memory
        obtain ⟨ctx', memory', call, armed, id, expected⟩ := fsm_collected_layout layout crypto
          table sf session enough accepted manifests
          (by rw [← List.length_append]; exact le_trans (Nat.le_add_right _ _) fits)
        rw [call, storedStream_append behind, ← storedIn_opened]
        rw [storedStream_append behind, ← storedIn_opened] at passes
        rw [← id] at passes fits armed ⊢
        rw [if_neg (not_not.mpr rfl)]
        exact deliver_chunks more later armed
          (by rw [storedStream_length behind, expected, announced])
          (by rw [expected, announced]; exact fits)
          (by rw [id, ← isOldest]; exact manifests slot member) passes

end Layout

/-! ### Releases -/

/-- An update as the calls that bring it: signed for the device, announced as long as it is, without
a diff version and with the digest of its firmware. A chunk begins behind the manifest. -/
structure Release (crypto : Crypto) (sf : Safestore) where
  inputs : List FsmInput
  nonempty : ∀ input ∈ inputs, input.buf.data ≠ []
  begins : sizeofManifest ≤ (streamOf inputs.dropLast).length
  full : (Manifest.ofBytes (streamOf inputs)).getDiffVersion = 0
  signed : verifyManifest crypto (Manifest.ofBytes (streamOf inputs)) sf = .success
  announced : (Manifest.ofBytes (streamOf inputs)).announced = (streamOf inputs).length
  inside : (Manifest.ofBytes (streamOf inputs)).getOffset +
    (Manifest.ofBytes (streamOf inputs)).getSize ≤ (streamOf inputs).length
  fills : fsmBufferSize ≤ (Manifest.ofBytes (streamOf inputs)).getSize
  digest : (Manifest.ofBytes (streamOf inputs)).getDigest = crypto.digest (slice (streamOf inputs)
    (Manifest.ofBytes (streamOf inputs)).getOffset (Manifest.ofBytes (streamOf inputs)).getSize)

namespace Release

variable {crypto : Crypto} {sf : Safestore} (release : Release crypto sf)

/-- The bytes of a release. -/
def stream : List UInt8 := streamOf release.inputs

/-- Its manifest. -/
def manifest : Manifest := Manifest.ofBytes release.stream

/-- Its version. -/
def version : Nat := release.manifest.getVersion

theorem manifest_le : sizeofManifest ≤ release.stream.length := by
  refine le_trans release.begins (List.Sublist.length_le ?_)
  exact (List.dropLast_sublist release.inputs).flatMap (fun input => input.buf.data)

/-- A release is stored as it is sent. -/
theorem storedStream_eq : storedStream release.stream = release.stream := by
  have same : (Manifest.ofBytes release.stream).full = Manifest.ofBytes release.stream :=
    full_of_getDiffVersion release.full
  rw [storedStream, same, Manifest.ofBytes_bytes release.manifest_le, List.take_append_drop]

variable {layout : PlainLayout} {id : MemId} {memory : Contents}

/-- The manifest of a slot that holds a release. -/
theorem manifestAt_stored : manifestAt (storedIn layout id release.stream memory) id =
    release.manifest := by
  apply Manifest.ext
  rw [manifestAt_bytes, storedIn, Function.update_self,
    readRange_writeRange_inside _ (by rw [Nat.zero_add]; exact release.manifest_le), manifest,
    Manifest.ofBytes_bytes release.manifest_le]
  rfl

/-- **A slot that holds a release passes**, whatever buffer its firmware fills. -/
theorem passes (fits : release.stream.length ≤ layout.limit id) {bufferLen : Nat}
    (positive : 0 < bufferLen) (fills : bufferLen ≤ release.manifest.getSize)
    (narrow : layout.limit id + bufferLen ≤ 2 ^ 32) (buffer : List UInt8) :
    (verifyObject (plain layout) crypto ⟨id, .readOnly⟩ sf buffer bufferLen
      (storedIn layout id release.stream memory)).1 = .success := by
  have inside : release.manifest.getOffset + release.manifest.getSize ≤ release.stream.length :=
    release.inside
  have same := @manifestAt_stored crypto sf release layout id memory
  refine (verifyObject_plain layout crypto ⟨id, .readOnly⟩ (storedIn layout id release.stream memory)
    sf buffer bufferLen positive ?_ ?_ ?_ (le_trans release.manifest_le fits)).mpr ?_
  · rw [same]
    exact fills
  · rw [same]
    exact le_trans inside fits
  · rw [same]
    omega
  · have firmware : readRange (storedIn layout id release.stream memory id)
        release.manifest.getOffset release.manifest.getSize =
          slice release.stream release.manifest.getOffset release.manifest.getSize := by
      rw [storedIn, Function.update_self, readRange_writeRange_inside _ inside]
    rw [same]
    simp only [firmware]
    exact ⟨release.signed, release.digest⟩

/-- **A release is delivered**: one that is newer than the device and fits the oldest slot ends in a
reboot, and that slot holds it. -/
theorem deliver_release {table : SlotTable} {ctx : FsmCtx} {memory : Contents}
    (session : Collecting ctx []) (newer : ctx.version < release.version)
    (manifests : ∀ slot ∈ table.slots, sizeofManifest ≤ layout.limit slot.id)
    (fits : release.stream.length ≤ layout.limit (oldestSlot table memory).id)
    (narrow : layout.limit (oldestSlot table memory).id + fsmBufferSize ≤ 2 ^ 32) :
    ∃ ctx', deliver (plain layout) crypto table sf release.inputs ctx memory =
        some (ctx', storedIn layout (oldestSlot table memory).id release.stream memory) ∧
      ctx'.state = .reboot ∧ ctx'.id = (oldestSlot table memory).id := by
  have delivered := @deliver_stream layout crypto table sf release.inputs release.nonempty ctx
    memory [] session (by rw [List.length_nil, Nat.zero_add]; exact release.begins)
    ⟨newer, release.signed⟩ release.announced manifests fits
  rw [List.nil_append, show streamOf release.inputs = release.stream from rfl,
    release.storedStream_eq] at delivered
  exact delivered fun buffer => release.passes fits (by decide) release.fills narrow buffer

/-! ### A release under way -/

/-- What has been handed over is a manifest of the release or more of it: it is stored as it is. -/
theorem storedStream_prefix {handed : List UInt8} (begins : handed <+: release.stream)
    (enough : sizeofManifest ≤ handed.length) :
    Manifest.ofBytes handed = release.manifest ∧ storedStream handed = handed := by
  obtain ⟨rest, whole⟩ := begins
  have same : Manifest.ofBytes handed = release.manifest := by
    rw [manifest, ← whole, Manifest.ofBytes_append enough]
  have stored : release.manifest.full = release.manifest := full_of_getDiffVersion release.full
  refine ⟨same, ?_⟩
  rw [storedStream, same, stored, ← same, Manifest.ofBytes_bytes enough, List.take_append_drop]

/-- How far a session has come that began with some memory: it collects the manifest, the oldest slot
is armed and takes the firmware in, or all of the release is stored and verified. -/
inductive Downloaded (layout : PlainLayout) (table : SlotTable) (memory : Contents)
    (release : Release crypto sf) : List UInt8 → FsmCtx → Contents → Prop
  | collecting {handed : List UInt8} {ctx : FsmCtx} : Collecting ctx handed →
      handed <+: release.stream → ctx.version < release.version →
      Downloaded layout table memory release handed ctx memory
  | part {handed : List UInt8} {ctx : FsmCtx} {memory' : Contents} : handed <+: release.stream →
      sizeofManifest ≤ handed.length → handed.length < release.stream.length →
      Armed ctx memory' (opened layout.erased (oldestSlot table memory).id memory) handed →
      ctx.id = (oldestSlot table memory).id → ctx.expected = release.stream.length →
      Downloaded layout table memory release handed ctx memory'
  | whole {ctx : FsmCtx} : ctx.state = .reboot → ctx.processed = release.stream.length →
      Downloaded layout table memory release release.stream ctx
        (storedIn layout (oldestSlot table memory).id release.stream memory)

variable {release}

theorem Downloaded.begins {table : SlotTable} {handed : List UInt8} {ctx : FsmCtx}
    {memory' : Contents} (downloaded : Downloaded layout table memory release handed ctx memory') :
    handed <+: release.stream := by
  cases downloaded with
  | collecting _ begins => exact begins
  | part begins => exact begins
  | whole => exact List.prefix_rfl

/-- Once the manifest is there, something has been handed over. -/
theorem Downloaded.some {table : SlotTable} {handed : List UInt8} {ctx : FsmCtx}
    {memory' : Contents} (downloaded : Downloaded layout table memory release handed ctx memory')
    (past : ctx.state ≠ .receiveManifest) : handed ≠ [] := by
  rw [← List.length_pos_iff_ne_nil]
  cases downloaded with
  | collecting session => exact absurd session.state past
  | part _ enough => exact lt_of_lt_of_le (by decide) enough
  | whole => exact lt_of_lt_of_le (by decide) release.manifest_le

/-- Until the manifest is there, it is collected. -/
theorem Downloaded.waiting {table : SlotTable} {handed : List UInt8} {ctx : FsmCtx}
    {memory' : Contents} (downloaded : Downloaded layout table memory release handed ctx memory')
    (waits : ctx.state = .receiveManifest) : Collecting ctx handed := by
  cases downloaded with
  | collecting session => exact session
  | part _ _ _ armed => exact FsmState.noConfusion (armed.state.symm.trans waits)
  | whole reboot => exact FsmState.noConfusion (reboot.symm.trans waits)

/-- The state machine counts what has been handed over. -/
theorem Downloaded.processed {table : SlotTable} {handed : List UInt8} {ctx : FsmCtx}
    {memory' : Contents} (downloaded : Downloaded layout table memory release handed ctx memory') :
    ctx.processed = handed.length := by
  cases downloaded with
  | collecting session => exact session.processed
  | part _ _ _ armed => exact armed.processed
  | whole _ processed => exact processed

/-- **One more chunk of a release**, which does not both begin inside the manifest and end the
release. -/
theorem Downloaded.next {table : SlotTable} {handed : List UInt8} {ctx : FsmCtx}
    {memory' : Contents} (downloaded : Downloaded layout table memory release handed ctx memory')
    (manifests : ∀ slot ∈ table.slots, sizeofManifest ≤ layout.limit slot.id)
    (fits : release.stream.length ≤ layout.limit (oldestSlot table memory).id)
    (narrow : layout.limit (oldestSlot table memory).id + fsmBufferSize ≤ 2 ^ 32)
    {input : FsmInput} (more : handed ++ input.buf.data <+: release.stream)
    (some : input.buf.data ≠ [])
    (cut : handed.length < sizeofManifest →
      (handed ++ input.buf.data).length < release.stream.length) :
    (fsm (plain layout) crypto table sf input ctx memory').err = .success ∧
      Downloaded layout table memory release (handed ++ input.buf.data)
        (fsm (plain layout) crypto table sf input ctx memory').ctx
        (fsm (plain layout) crypto table sf input ctx memory').memory := by
  have behind := List.length_pos_iff_ne_nil.mpr some
  have within : handed.length + input.buf.data.length ≤ release.stream.length := by
    rw [← List.length_append]
    exact more.length_le
  cases downloaded with
  | collecting session _ newer =>
      have below := cut session.unfinished
      rcases Nat.lt_or_ge (handed.length + input.buf.data.length) sizeofManifest with few | enough
      · rw [fsm_collecting (plain layout) crypto table sf input session, if_pos few]
        exact ⟨rfl, .collecting (collecting_short session few) more newer⟩
      · obtain ⟨same, stored⟩ := release.storedStream_prefix more
          (by rw [List.length_append]; exact enough)
        obtain ⟨ctx', memory', call, armed, id, expected⟩ := fsm_collected_layout layout crypto table
          sf session enough (by rw [same]; exact ⟨newer, release.signed⟩) manifests
          (le_trans within fits)
        rw [stored] at armed
        rw [same] at expected
        rw [call]
        exact ⟨rfl, .part more (by rw [List.length_append]; exact enough) below armed id
          (expected.trans release.announced)⟩
  | part begins enough below armed id expected =>
      rw [← expected] at within
      rcases Nat.lt_or_eq_of_le within with before | complete
      · obtain ⟨ctx', memory'', call, armed', id', expected'⟩ := fsm_chunk_before armed before
          (by rw [id, expected]; exact fits)
        rw [call]
        refine ⟨rfl, .part more ?_ ?_ armed' (id'.trans id) (expected'.trans expected)⟩
        · rw [List.length_append]
          exact le_trans enough (Nat.le_add_right _ _)
        · rw [List.length_append, ← expected]
          exact before
      · have all : handed ++ input.buf.data = release.stream :=
          more.eq_of_length (by rw [List.length_append, complete, expected])
        have stored := storedIn_opened layout (oldestSlot table memory).id release.stream memory
        obtain ⟨ctx', call, reboot, _, processed⟩ := fsm_chunk_last armed complete
          (by rw [id, expected]; exact fits)
          (by rw [id]; exact le_trans release.manifest_le fits)
          (by
            intro buffer
            rw [id, all, stored]
            exact release.passes fits (by decide) release.fills narrow buffer)
        rw [call, id, all, stored]
        exact ⟨rfl, .whole reboot (processed.trans expected)⟩
  | whole reboot => omega

end Release

end Upkit
