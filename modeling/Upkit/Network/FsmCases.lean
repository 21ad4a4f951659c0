/-
**What each case of the state machine does.**

Over any memory, with the dead branches gone:

* `receiveLoop_eq` — the byte loop stores one slice of the buffer.
* `fsmVerifyManifest_refused`, `fsmVerifyManifest_accepted` — the manifest checks; a manifest that
  passes is stored with `diff_version = 0` and the full-image pipeline.
* `fsmArm_eq`, `fsmReceiveData_eq` — the buffer stage never refuses a chunk, so arming fails only
  with the memory, and a chunk is refused only for its length.

On a plain memory in which every address is valid, the state of the pipeline is `sinkOf` of the
bytes fed to it: `fsmArm_plain`, `fsmReceiveData_plain`, `fsmVerifyFirmware_plain`.
-/

import Upkit.Network.Fsm
import Upkit.Security.Digest

namespace Upkit

open Bytes

/-! ### The static buffer -/

namespace Scratch

theorem ext {first second : Scratch} (same : first.bytes = second.bytes) : first = second := by
  cases first
  cases second
  cases same
  rfl

theorem mt_bytes (scratch : Scratch) : scratch.mt.bytes = scratch.bytes.take sizeofManifest := rfl

@[simp] theorem setMt_mt (scratch : Scratch) (mt : Manifest) : (scratch.setMt mt).mt = mt := by
  apply Manifest.ext
  show (splice scratch.bytes 0 mt.bytes).take sizeofManifest = mt.bytes
  rw [splice_zero, ← mt.length_eq, List.take_left']
  rfl

/-- Bytes stored behind a prefix extend it. -/
theorem take_store (scratch : Scratch) {offset : Nat} {data : List UInt8}
    (fits : offset + data.length ≤ fsmBufferSize) :
    (scratch.store offset data fits).bytes.take (offset + data.length) =
      scratch.bytes.take offset ++ data := by
  have head : (scratch.bytes.take offset ++ data).length = offset + data.length := by
    rw [List.length_append, List.length_take, scratch.length_eq]
    omega
  show (splice scratch.bytes offset data).take (offset + data.length) = _
  rw [splice, ← head, List.take_left']
  rfl

/-- Bytes stored behind the manifest leave it alone. -/
theorem store_mt (scratch : Scratch) {offset : Nat} {data : List UInt8}
    (fits : offset + data.length ≤ fsmBufferSize) (behind : sizeofManifest ≤ offset) :
    (scratch.store offset data fits).mt = scratch.mt := by
  apply Manifest.ext
  show (splice scratch.bytes offset data).take sizeofManifest = scratch.bytes.take sizeofManifest
  rw [splice, List.append_assoc, List.take_append_of_le_length, List.take_take,
    min_eq_left behind]
  rw [List.length_take, scratch.length_eq]
  exact le_min behind (by omega)

/-- A shorter prefix of the buffer is a prefix of its manifest. -/
theorem take_of_mt {scratch other : Scratch} (same : scratch.mt = other.mt) {count : Nat}
    (short : count ≤ sizeofManifest) : scratch.bytes.take count = other.bytes.take count := by
  have bytes : scratch.bytes.take sizeofManifest = other.bytes.take sizeofManifest :=
    congrArg Manifest.bytes same
  have cut := congrArg (List.take count) bytes
  rwa [List.take_take, List.take_take, min_eq_left short] at cut

/-- Buffers that agree on a manifest come back with the same one. -/
theorem ofBytes_mt_congr {bytes other : List UInt8}
    (agree : bytes.take sizeofManifest = other.take sizeofManifest) :
    (ofBytes bytes).mt = (ofBytes other).mt := by
  have padded : ∀ bytes : List UInt8, (ofBytes bytes).mt.bytes =
      (bytes.take sizeofManifest ++ List.replicate fsmBufferSize 0).take sizeofManifest := by
    intro bytes
    show ((bytes ++ List.replicate fsmBufferSize 0).take fsmBufferSize).take sizeofManifest = _
    rw [List.take_take, min_eq_left (by decide), List.take_append, List.take_append,
      List.take_take, min_self, List.length_take]
    congr 2
    omega
  apply Manifest.ext
  rw [padded, padded, agree]

end Scratch

/-- **The loop stores one slice**: as much of the buffer as the manifest still lacks. -/
theorem receiveLoop_eq (data : List UInt8) (processed : Nat) (scratch : Scratch)
    (room : processed ≤ sizeofManifest) :
    ∃ fits, receiveLoop data processed scratch =
      (processed + (data.take (sizeofManifest - processed)).length,
        scratch.store processed (data.take (sizeofManifest - processed)) fits,
        data.drop (sizeofManifest - processed)) := by
  have bound : sizeofManifest ≤ fsmBufferSize := by decide
  induction data generalizing processed scratch with
  | nil =>
      refine ⟨by simp; omega, ?_⟩
      simp only [receiveLoop, List.take_nil, List.length_nil, List.drop_nil, Nat.add_zero]
      congr 2
      exact Scratch.ext (splice_nil _ _).symm
  | cons byte rest ih =>
      rw [receiveLoop]
      by_cases more : processed < sizeofManifest
      · rw [dif_pos more]
        obtain ⟨fits, looped⟩ := ih (processed + 1)
          (scratch.store processed [byte] (by rw [List.length_singleton]; omega)) more
        have count : sizeofManifest - processed = (sizeofManifest - (processed + 1)) + 1 := by omega
        have joined := @splice_splice_adjacent scratch.bytes [byte]
          (rest.take (sizeofManifest - (processed + 1))) processed
          (by rw [scratch.length_eq, List.length_singleton]; exact fits)
        rw [looped, count, List.take_succ_cons, List.drop_succ_cons]
        refine ⟨by rw [List.length_cons]; omega, ?_⟩
        rw [Prod.mk.injEq, Prod.mk.injEq]
        refine ⟨by rw [List.length_cons]; omega, Scratch.ext joined, rfl⟩
      · have full : sizeofManifest - processed = 0 := by omega
        rw [dif_neg more, full]
        refine ⟨by simp; omega, ?_⟩
        simp only [List.take_zero, List.length_nil, Nat.add_zero, List.drop_zero]
        congr 2
        exact Scratch.ext (splice_nil _ _).symm

/-- The context with as much of a buffer as the manifest lacks. -/
def FsmCtx.collected (ctx : FsmCtx) (data : List UInt8) : FsmCtx :=
  { ctx with
    processed := (receiveLoop data ctx.processed ctx.scratch).1
    scratch := (receiveLoop data ctx.processed ctx.scratch).2.1 }

section Collect

variable {ctx : FsmCtx} (data : List UInt8) (room : ctx.processed ≤ sizeofManifest)

include room

theorem collected_processed : (ctx.collected data).processed =
    ctx.processed + (data.take (sizeofManifest - ctx.processed)).length := by
  obtain ⟨_, looped⟩ := receiveLoop_eq data ctx.processed ctx.scratch room
  show (receiveLoop data ctx.processed ctx.scratch).1 = _
  rw [looped]

theorem collected_bytes :
    (ctx.collected data).scratch.bytes.take (ctx.collected data).processed =
      ctx.scratch.bytes.take ctx.processed ++ data.take (sizeofManifest - ctx.processed) := by
  obtain ⟨fits, looped⟩ := receiveLoop_eq data ctx.processed ctx.scratch room
  rw [collected_processed data room]
  show (receiveLoop data ctx.processed ctx.scratch).2.1.bytes.take _ = _
  rw [looped]
  exact Scratch.take_store _ fits

/-- Enough bytes complete the manifest. -/
theorem collected_complete (enough : sizeofManifest ≤ ctx.processed + data.length) :
    (ctx.collected data).processed = sizeofManifest ∧
      (ctx.collected data).scratch.mt.bytes =
        ctx.scratch.bytes.take ctx.processed ++ data.take (sizeofManifest - ctx.processed) := by
  have processed : (ctx.collected data).processed = sizeofManifest := by
    rw [collected_processed data room, List.length_take]
    omega
  refine ⟨processed, ?_⟩
  rw [Scratch.mt_bytes, ← collected_bytes data room, processed]

/-- Too few bytes are all collected. -/
theorem collected_short (few : ctx.processed + data.length < sizeofManifest) :
    (ctx.collected data).processed = ctx.processed + data.length ∧
      (ctx.collected data).scratch.bytes.take (ctx.processed + data.length) =
        ctx.scratch.bytes.take ctx.processed ++ data := by
  have whole : data.take (sizeofManifest - ctx.processed) = data :=
    List.take_of_length_le (by omega)
  have processed : (ctx.collected data).processed = ctx.processed + data.length := by
    rw [collected_processed data room, whole]
  have bytes := collected_bytes data room
  rw [processed, whole] at bytes
  exact ⟨processed, bytes⟩

end Collect

/-! ### Any memory -/

section Any

variable {σ : Type} (M : MemoryInterface σ) (crypto : Crypto) (table : SlotTable)
  (sf : Safestore)

/-- A manifest that `STATE_VERIFY_MANIFEST` lets pass on a device at `version`. -/
def Accepted (version : Nat) (mt : Manifest) : Prop :=
  version < mt.getVersion ∧ verifyManifest crypto mt sf = .success

instance (version : Nat) (mt : Manifest) : Decidable (Accepted crypto sf version mt) :=
  inferInstanceAs (Decidable (_ ∧ _))

/-- The manifest as the state machine stores it. -/
def Manifest.full (mt : Manifest) : Manifest := mt.setDiffVersion 0

@[simp] theorem Manifest.full_getDiffVersion (mt : Manifest) : mt.full.getDiffVersion = 0 :=
  (congrArg ofLE (mt.get_set_self .diffVersion (toLE 2 0) (toLE_length _ _))).trans (by decide)

/-- The context a manifest that passes is armed with. -/
def FsmCtx.configured (ctx : FsmCtx) : FsmCtx :=
  { ctx with
    bufferCtx := pipelineBufferInit
    scratch := ctx.scratch.setMt ctx.scratch.mt.full
    pipeline := .buffer }

variable {crypto sf} in
theorem fsmVerifyManifest_refused {rest : List UInt8} {ctx : FsmCtx} {memory : σ}
    (refused : ¬ Accepted crypto sf ctx.version ctx.scratch.mt) :
    fsmVerifyManifest M crypto table sf rest ctx memory =
      (.invalidSignature, ctx.cleaned, memory) := by
  rw [fsmVerifyManifest]
  by_cases newer : ctx.version < ctx.scratch.mt.getVersion
  · have invalid : verifyManifest crypto ctx.scratch.mt sf ≠ .success :=
      fun valid => refused ⟨newer, valid⟩
    rw [if_neg (not_le.mpr newer), if_pos invalid]
  · rw [if_pos (not_lt.mp newer)]

variable {crypto sf} in
theorem fsmVerifyManifest_accepted {rest : List UInt8} {ctx : FsmCtx} {memory : σ}
    (accepted : Accepted crypto sf ctx.version ctx.scratch.mt) :
    fsmVerifyManifest M crypto table sf rest ctx memory =
      fsmArm M table rest ctx.configured memory := by
  have full : (ctx.scratch.setMt (ctx.scratch.mt.setDiffVersion 0)).mt.getDiffVersion = 0 := by
    rw [Scratch.setMt_mt]
    exact Manifest.full_getDiffVersion _
  rw [fsmVerifyManifest, if_neg (not_le.mpr accepted.1), if_neg (not_not.mpr accepted.2)]
  simp only [full, if_true]
  rfl

variable {crypto sf} in
/-- **Receiving the manifest**: a context that is past it is refused, a buffer that does not
complete it is collected, and otherwise the manifest is verified. -/
theorem fsmReceiveManifest_eq (data : List UInt8) (ctx : FsmCtx) (memory : σ) :
    fsmReceiveManifest M crypto table sf data ctx memory =
      if sizeofManifest < ctx.processed then (.invalidState, ctx.cleaned, memory)
      else if ctx.processed + data.length < sizeofManifest then
        (.success, ctx.collected data, memory)
      else fsmVerifyManifest M crypto table sf (data.drop (sizeofManifest - ctx.processed))
        (ctx.collected data) memory := by
  rw [fsmReceiveManifest]
  by_cases past : sizeofManifest < ctx.processed
  · rw [if_pos past, if_pos past]
  · have room : ctx.processed ≤ sizeofManifest := not_lt.mp past
    obtain ⟨_, looped⟩ := receiveLoop_eq data ctx.processed ctx.scratch room
    have rest : (receiveLoop data ctx.processed ctx.scratch).2.2 =
        data.drop (sizeofManifest - ctx.processed) := by rw [looped]
    have count : (receiveLoop data ctx.processed ctx.scratch).1 =
        ctx.processed + (data.take (sizeofManifest - ctx.processed)).length := by rw [looped]
    rw [if_neg past, if_neg past]
    simp only [rest]
    by_cases few : ctx.processed + data.length < sizeofManifest
    · rw [if_pos few, if_pos (by rw [count, List.length_take]; omega)]
      rfl
    · rw [if_neg few, if_neg (by rw [count, List.length_take]; omega)]
      rfl

/-- An empty chunk passes the buffer stage without a trace. -/
theorem sinkPipeline_nil (sink : Sink σ) : sinkPipeline M [] sink = (0, sink) := by
  obtain ⟨ctx, below⟩ := sink
  rfl

/-- The sink after a chunk. -/
def feedSink (data : List UInt8) (sink : Sink σ) : Sink σ := (sinkPipeline M data sink).2

theorem sinkPipeline_feedSink (data : List UInt8) (sink : Sink σ) :
    sinkPipeline M data sink = ((data.length : Int), feedSink M data sink) := rfl

/-- The context with the pipeline state of a sink. -/
def FsmCtx.withSink (ctx : FsmCtx) (sink : Sink σ) : FsmCtx :=
  { ctx with bufferCtx := sink.1, writerCtx := sink.2.1 }

/-- The full-image pipeline never refuses a chunk. -/
theorem runPipeline_buffer (data : List UInt8) (ctx : FsmCtx) (memory : σ)
    (full : ctx.pipeline = .buffer) :
    runPipeline M data ctx memory =
      ((data.length : Int),
        ctx.withSink (feedSink M data (ctx.bufferCtx, ctx.writerCtx, memory)),
        (feedSink M data (ctx.bufferCtx, ctx.writerCtx, memory)).2.2) := by
  unfold runPipeline
  split
  · rfl
  · rename_i differential
    rw [full] at differential
    cases differential

/-- The sink of a slot that has just been armed. -/
def armedSink (obj : MemObject) (mt : Manifest) (rest : List UInt8) (buffer : BufferCtx)
    (memory : σ) : Sink σ :=
  feedSink M rest (feedSink M mt.bytes (buffer, pipelineWriterInit obj, memory))

/-- The context of a slot that has just been armed. -/
def FsmCtx.armed (ctx : FsmCtx) (id : MemId) (obj : MemObject) (rest : List UInt8)
    (sink : Sink σ) : FsmCtx :=
  { ctx with
    id := id
    obj := obj
    bufferCtx := sink.1
    writerCtx := sink.2.1
    processed := ctx.processed + rest.length
    expected := (ctx.scratch.mt.getOffset + ctx.scratch.mt.getPropSize) % 2 ^ 32
    state := .receiveFirmware }

/-- **Arming a slot** fails only with the memory. -/
theorem fsmArm_eq (rest : List UInt8) (ctx : FsmCtx) (memory : σ)
    (full : ctx.pipeline = .buffer) :
    fsmArm M table rest ctx memory =
      let scan := getOldestFirmware M table false ctx.id 0 memory
      let opened := M.memoryOpen scan.2.1.id .writeAll scan.2.2
      if scan.1 ≠ .success then
        (scan.1, { ctx with id := scan.2.1.id, state := .clean }, scan.2.2)
      else if opened.1 ≠ .success then
        (opened.1, { ctx with id := scan.2.1.id, obj := opened.2.1, state := .clean }, opened.2.2)
      else
        let sink := armedSink M opened.2.1 ctx.scratch.mt rest ctx.bufferCtx opened.2.2
        (.success, ctx.armed scan.2.1.id opened.2.1 rest sink, sink.2.2) := by
  rw [fsmArm]
  simp only
  by_cases scanned : (getOldestFirmware M table false ctx.id 0 memory).1 = .success
  · rw [if_neg (not_not.mpr scanned), if_neg (not_not.mpr scanned)]
    by_cases opened : (M.memoryOpen (getOldestFirmware M table false ctx.id 0 memory).2.1.id
        .writeAll (getOldestFirmware M table false ctx.id 0 memory).2.2).1 = .success
    · rw [if_neg (not_not.mpr opened), if_neg (not_not.mpr opened)]
      simp only [sinkPipeline_feedSink, ctx.scratch.mt.length_eq, ne_eq, not_true_eq_false,
        if_false]
      by_cases more : 0 < rest.length
      · rw [if_pos more, runPipeline_buffer M rest]
        · simp only [not_true_eq_false, if_false]
          rfl
        · exact full
      · have empty : rest = [] := List.length_eq_zero_iff.mp (by omega)
        subst empty
        rw [if_neg more]
        rfl
    · rw [if_pos opened, if_pos opened]
      rfl
  · rw [if_pos scanned, if_pos scanned]
    rfl

/-- The context after a chunk of firmware. -/
def FsmCtx.received (ctx : FsmCtx) (data : List UInt8) (sink : Sink σ) : FsmCtx :=
  { ctx.withSink sink with processed := ctx.processed + data.length }

/-- The context after the chunk that completes the image. -/
def FsmCtx.completed (ctx : FsmCtx) (data : List UInt8) (sink : Sink σ) : FsmCtx :=
  { ctx.received data sink with state := .verifyFirmware }

/-- **A chunk of firmware** is refused only for its length. -/
theorem fsmReceiveData_eq (data : List UInt8) (ctx : FsmCtx) (memory : σ)
    (full : ctx.pipeline = .buffer) :
    fsmReceiveData M data ctx memory =
      let sink := feedSink M data (ctx.bufferCtx, ctx.writerCtx, memory)
      if ctx.expected < ctx.processed + data.length then
        .returns .invalidSize ctx.cleaned memory
      else if ctx.processed + data.length ≠ ctx.expected then
        .returns .success (ctx.received data sink) sink.2.2
      else
        let cleared := pipelineBufferClear (writerPipeline M) sink
        .falls (ctx.completed data cleared.2) (M.memoryClose ctx.obj cleared.2.2.2).2 := by
  rw [fsmReceiveData]
  simp only
  by_cases long : ctx.expected < ctx.processed + data.length
  · rw [if_pos long, if_pos long]
  · rw [if_neg long, if_neg long, runPipeline_buffer M data ctx memory full]
    simp only [ne_eq, not_true_eq_false, if_false]
    by_cases more : ctx.processed + data.length = ctx.expected
    · rw [if_neg (not_not.mpr more)]
      exact if_neg (not_not.mpr more)
    · rw [if_pos more]
      exact if_pos more

/-! ### What no call changes -/

/-- The running image and its version stay. -/
def FsmCtx.Keeps (ctx ctx' : FsmCtx) : Prop :=
  ctx'.oldId = ctx.oldId ∧ ctx'.version = ctx.version

theorem fsmVerifyFirmware_keeps (ctx : FsmCtx) (memory : σ) :
    ctx.Keeps (fsmVerifyFirmware M crypto sf ctx memory).2.1 := by
  unfold fsmVerifyFirmware
  simp only
  split
  · exact ⟨rfl, rfl⟩
  · exact ⟨rfl, rfl⟩

theorem runPipeline_keeps (data : List UInt8) (ctx : FsmCtx) (memory : σ) :
    ctx.Keeps (runPipeline M data ctx memory).2.1 := by
  unfold runPipeline
  split
  · exact ⟨rfl, rfl⟩
  · exact ⟨rfl, rfl⟩

theorem fsmReceiveFirmware_keeps (data : List UInt8) (ctx : FsmCtx) (memory : σ) :
    ctx.Keeps (fsmReceiveFirmware M crypto sf data ctx memory).2.1 := by
  obtain ⟨id, version⟩ := runPipeline_keeps M data ctx memory
  unfold fsmReceiveFirmware fsmReceiveData
  by_cases long : ctx.expected < ctx.processed + data.length
  · simp only [if_pos long]
    exact ⟨rfl, rfl⟩
  simp only [if_neg long]
  by_cases refused : (runPipeline M data ctx memory).1 ≠ data.length
  · simp only [if_pos refused]
    exact ⟨id, version⟩
  simp only [if_neg refused]
  by_cases more : (runPipeline M data ctx memory).2.1.processed + data.length ≠
      (runPipeline M data ctx memory).2.1.expected
  · simp only [if_pos more]
    exact ⟨id, version⟩
  · simp only [if_neg more]
    obtain ⟨id', version'⟩ := fsmVerifyFirmware_keeps M crypto sf _ _
    exact ⟨id'.trans id, version'.trans version⟩

theorem fsmArm_keeps (rest : List UInt8) (ctx : FsmCtx) (memory : σ) :
    ctx.Keeps (fsmArm M table rest ctx memory).2.1 := by
  unfold fsmArm
  simp only
  split
  · exact ⟨rfl, rfl⟩
  · split
    · exact ⟨rfl, rfl⟩
    · split
      · exact ⟨rfl, rfl⟩
      · split
        · have kept := runPipeline_keeps M rest
          split
          · exact kept _ _
          · exact kept _ _
        · exact ⟨rfl, rfl⟩

theorem fsmVerifyManifest_keeps (rest : List UInt8) (ctx : FsmCtx) (memory : σ) :
    ctx.Keeps (fsmVerifyManifest M crypto table sf rest ctx memory).2.1 := by
  by_cases accepted : Accepted crypto sf ctx.version ctx.scratch.mt
  · rw [fsmVerifyManifest_accepted M table accepted]
    exact fsmArm_keeps M table rest ctx.configured memory
  · rw [fsmVerifyManifest_refused M table accepted]
    exact ⟨rfl, rfl⟩

/-- A call in the manifest state. -/
theorem fsm_manifestState {input : FsmInput} {ctx : FsmCtx} (memory : σ)
    (state : ctx.state = .receiveManifest) :
    fsm M crypto table sf input ctx memory =
      keepBuf input.buf.data (if sizeofManifest < ctx.processed then
        (.invalidState, ctx.cleaned, memory)
      else if ctx.processed + input.buf.data.length < sizeofManifest then
        (.success, ctx.collected input.buf.data, memory)
      else fsmVerifyManifest M crypto table sf
        (input.buf.data.drop (sizeofManifest - ctx.processed)) (ctx.collected input.buf.data)
        memory) := by
  unfold fsm
  rw [state, ← fsmReceiveManifest_eq M table]

/-- A call in the firmware state. -/
theorem fsm_receiveFirmware {input : FsmInput} {ctx : FsmCtx} (memory : σ)
    (state : ctx.state = .receiveFirmware) :
    fsm M crypto table sf input ctx memory =
      keepBuf input.buf.data (fsmReceiveFirmware M crypto sf input.buf.data ctx memory) := by
  unfold fsm
  rw [state]

/-- A machine that reboots stays as it is. -/
theorem fsm_reboot (input : FsmInput) {ctx : FsmCtx} (memory : σ)
    (rebooting : ctx.state = .reboot) :
    fsm M crypto table sf input ctx memory = ⟨.success, input.buf.data, ctx, memory⟩ := by
  unfold fsm
  rw [rebooting]

/-- **No call changes the running image** or its version. -/
theorem fsm_keeps (input : FsmInput) (ctx : FsmCtx) (memory : σ) :
    ctx.Keeps (fsm M crypto table sf input ctx memory).ctx := by
  have idle : ∀ (data : List UInt8) (ctx : FsmCtx), ctx.Keeps (fsmIdle data ctx memory).2.1 := by
    intro data ctx
    unfold fsmIdle
    split
    · exact ⟨rfl, rfl⟩
    · split
      · exact ⟨rfl, rfl⟩
      · exact ⟨rfl, rfl⟩
  unfold fsm
  split
  · exact idle _ _
  · exact idle _ _
  · unfold fsmStartUpdate
    split
    · exact ⟨rfl, rfl⟩
    · split
      · exact ⟨rfl, rfl⟩
      · exact ⟨rfl, rfl⟩
  · simp only [fsmReceiveManifest_eq]
    split
    · exact ⟨rfl, rfl⟩
    · split
      · exact ⟨rfl, rfl⟩
      · exact fsmVerifyManifest_keeps M crypto table sf _ (ctx.collected input.buf.data) memory
  · exact fsmVerifyManifest_keeps M crypto table sf _ ctx memory
  · exact fsmReceiveFirmware_keeps M crypto sf _ ctx memory
  · exact fsmVerifyFirmware_keeps M crypto sf ctx memory
  · exact ⟨rfl, rfl⟩

end Any

/-! ### A plain memory without faults -/

section Plain

variable (erased : Option UInt8) (crypto : Crypto) (table : SlotTable) (sf : Safestore)

/-- The slot that `get_oldest_firmware` finds without a preference. -/
def oldestSlot (memory : Contents) : Candidate :=
  selectSlot false false (versionAt memory) table.slots ⟨0, 0, false, true⟩

/-- The object a slot is written through. -/
def slotObject (id : MemId) : MemObject := ⟨id, .writeAll⟩

/-- The memory once a slot has been opened for writing. -/
def opened (id : MemId) (memory : Contents) : Contents :=
  Function.update memory id ((fullLayout erased).wipe (memory id))

theorem sizeofManifest_le_full (id : MemId) : sizeofManifest ≤ (fullLayout erased).limit id := by
  show sizeofManifest ≤ 2 ^ 32 - 1
  decide

theorem feedSink_plain (obj : MemObject) (memory : Contents) (fed data : List UInt8)
    (fits : (fed ++ data).length < 2 ^ 32) :
    feedSink (plain (fullLayout erased)) data (sinkOf obj memory fed) =
      sinkOf obj memory (fed ++ data) := by
  have bound : (fed ++ data).length ≤ (fullLayout erased).limit obj.id := by
    show (fed ++ data).length ≤ 2 ^ 32 - 1
    omega
  rw [feedSink, sink_feed (fullLayout erased) obj memory fed data bound]

theorem getOldestFirmware_plain (id : MemId) (memory : Contents) :
    getOldestFirmware (plain (fullLayout erased)) table false id 0 memory =
      (.success, oldestSlot table memory, memory) := by
  rw [getOldestFirmware, getOrderedFirmware_plain _ memory table _ _ _ _
    (fun slot _ => sizeofManifest_le_full erased slot.id),
    selectSlot_table_congr _ _ _ table id 0 0 0]
  rfl

/-- **Arming a slot** on a plain memory: the oldest slot is opened, and what is fed to it are the
manifest and the rest of the buffer. -/
theorem fsmArm_plain (rest : List UInt8) (ctx : FsmCtx) (memory : Contents)
    (full : ctx.pipeline = .buffer) (fresh : ctx.bufferCtx = pipelineBufferInit)
    (short : rest.length < 2 ^ 31) :
    fsmArm (plain (fullLayout erased)) table rest ctx memory =
      let id := (oldestSlot table memory).id
      let sink := sinkOf (slotObject id) (opened erased id memory) (ctx.scratch.mt.bytes ++ rest)
      (.success, ctx.armed id (slotObject id) rest sink, sink.2.2) := by
  have length := ctx.scratch.mt.length_eq
  have begun : ∀ (obj : MemObject) (start : Contents),
      armedSink (plain (fullLayout erased)) obj ctx.scratch.mt rest pipelineBufferInit start =
        sinkOf obj start (ctx.scratch.mt.bytes ++ rest) := by
    intro obj start
    rw [armedSink, ← sinkOf_nil obj start,
      feedSink_plain erased obj start [] _ (by rw [List.nil_append, length]; decide),
      List.nil_append, feedSink_plain erased obj start _ rest (by
        rw [List.length_append, length, sizeofManifest]
        omega)]
  rw [fsmArm_eq _ _ _ _ _ full]
  simp only [getOldestFirmware_plain, plain_open_writeAll, ne_eq, not_true_eq_false, if_false,
    fresh, begun]
  rfl

/-- The context and memory of a session whose slot is armed: `fed` has gone into the pipeline,
which began on the memory `start`. -/
structure Armed (ctx : FsmCtx) (memory start : Contents) (fed : List UInt8) : Prop where
  state : ctx.state = .receiveFirmware
  pipeline : ctx.pipeline = .buffer
  obj : ctx.obj = slotObject ctx.id
  sink : (ctx.bufferCtx, ctx.writerCtx, memory) = sinkOf (slotObject ctx.id) start fed
  processed : ctx.processed = fed.length
  short : fed.length < 2 ^ 32
  expected : ctx.expected < 2 ^ 32

/-- Arming begins with the manifest and the rest of the buffer. -/
theorem armed_begin {rest : List UInt8} (ctx : FsmCtx) (memory : Contents)
    (full : ctx.pipeline = .buffer) (short : rest.length < 2 ^ 31)
    (processed : ctx.processed = sizeofManifest) :
    let id := (oldestSlot table memory).id
    let sink := sinkOf (slotObject id) (opened erased id memory) (ctx.scratch.mt.bytes ++ rest)
    Armed (ctx.armed id (slotObject id) rest sink) sink.2.2 (opened erased id memory)
      (ctx.scratch.mt.bytes ++ rest) where
  state := rfl
  pipeline := full
  obj := rfl
  sink := rfl
  processed := by
    rw [List.length_append, ctx.scratch.mt.length_eq, ← processed]
    rfl
  short := by
    rw [List.length_append, ctx.scratch.mt.length_eq, sizeofManifest]
    omega
  expected := Nat.mod_lt _ (by norm_num)

/-- **A chunk of firmware** on a plain memory. -/
theorem fsmReceiveData_plain {ctx : FsmCtx} {memory start : Contents} {fed data : List UInt8}
    (session : Armed ctx memory start fed) :
    fsmReceiveData (plain (fullLayout erased)) data ctx memory =
      let sink := sinkOf (slotObject ctx.id) start (fed ++ data)
      if ctx.expected < ctx.processed + data.length then
        .returns .invalidSize ctx.cleaned memory
      else if ctx.processed + data.length ≠ ctx.expected then
        .returns .success (ctx.received data sink) sink.2.2
      else
        let cleared := pipelineBufferClear (writerPipeline (plain (fullLayout erased))) sink
        .falls (ctx.completed data cleared.2)
          (Function.update start ctx.id (writeRange (start ctx.id) 0 (fed ++ data))) := by
  rw [fsmReceiveData_eq _ _ _ _ session.pipeline]
  by_cases long : ctx.expected < ctx.processed + data.length
  · simp only [if_pos long]
  · have bound : (fed ++ data).length < 2 ^ 32 := by
      have limit := session.expected
      have count := session.processed
      rw [List.length_append]
      omega
    have fits : (fed ++ data).length ≤ (fullLayout erased).limit (slotObject ctx.id).id := by
      show (fed ++ data).length ≤ 2 ^ 32 - 1
      omega
    have cleared := sink_clear (fullLayout erased) (slotObject ctx.id) start (fed ++ data) fits
    simp only [if_neg long, session.sink, feedSink_plain erased _ start fed data bound,
      plain_close, cleared]
    rfl

/-- A chunk that does not complete the image keeps the session armed. -/
theorem Armed.received {ctx : FsmCtx} {memory start : Contents} {fed data : List UInt8}
    (session : Armed ctx memory start fed)
    (within : ctx.processed + data.length ≤ ctx.expected) :
    let sink := sinkOf (slotObject ctx.id) start (fed ++ data)
    Armed (ctx.received data sink) sink.2.2 start (fed ++ data) where
  state := session.state
  pipeline := session.pipeline
  obj := session.obj
  sink := rfl
  processed := by
    rw [List.length_append, ← session.processed]
    rfl
  short := by
    have limit := session.expected
    have count := session.processed
    rw [List.length_append]
    omega
  expected := session.expected

/-- What `verify_object` says of a slot that holds `space`, called with the static buffer. -/
def slotVerdict (space : Nat → UInt8) : PullError :=
  verdict crypto sf (2 ^ 32 - 1) (by norm_num) fsmBufferSize space

theorem verifyObject_slotVerdict (id : MemId) (buffer : List UInt8) (memory : Contents) :
    (verifyObject (plain (fullLayout erased)) crypto ⟨id, .readOnly⟩ sf buffer fsmBufferSize
      memory).1 = slotVerdict crypto sf (memory id) :=
  verifyObject_verdict crypto sf (fullLayout erased) ⟨id, .readOnly⟩ buffer fsmBufferSize memory
    (sizeofManifest_le_full erased id)

/-- **The verdict on a slot** whose firmware is at least as long as the static buffer: its manifest
passes and names the digest of the firmware. -/
theorem slotVerdict_space {space : Nat → UInt8} {mt : Manifest}
    (manifest : readRange space 0 sizeofManifest = mt.bytes)
    (covers : fsmBufferSize ≤ mt.getSize)
    (narrow : mt.getOffset + mt.getSize + fsmBufferSize ≤ 2 ^ 32) :
    slotVerdict crypto sf space = .success ↔
      verifyManifest crypto mt sf = .success ∧
        mt.getDigest = crypto.digest (readRange space mt.getOffset mt.getSize) := by
  have same : manifestAt (fun _ => space) 0 = mt := by
    apply Manifest.ext
    rw [manifestAt_bytes, manifest]
  have size : fsmBufferSize = 1024 := rfl
  have verified := verifyObject_plain ⟨fun _ => 2 ^ 32 - 1, fun _ => by norm_num, none⟩ crypto
    ⟨0, .readOnly⟩ (fun _ => space) sf [] fsmBufferSize (by decide)
    (by rw [same]; exact covers) (by rw [same]; show _ ≤ 2 ^ 32 - 1; omega)
    (by rw [same]; exact narrow) (by show sizeofManifest ≤ 2 ^ 32 - 1; decide)
  rw [same] at verified
  exact verified

/-- **The verdict on an image** that lies in a slot. -/
theorem slotVerdict_image (space : Nat → UInt8) {image : List UInt8}
    (whole : sizeofManifest ≤ image.length)
    (covers : fsmBufferSize ≤ (Manifest.ofBytes image).getSize)
    (inside : (Manifest.ofBytes image).getOffset + (Manifest.ofBytes image).getSize ≤ image.length)
    (narrow : (Manifest.ofBytes image).getOffset + (Manifest.ofBytes image).getSize +
      fsmBufferSize ≤ 2 ^ 32) :
    slotVerdict crypto sf (writeRange space 0 image) = .success ↔
      verifyManifest crypto (Manifest.ofBytes image) sf = .success ∧
        (Manifest.ofBytes image).getDigest = crypto.digest (slice image
          (Manifest.ofBytes image).getOffset (Manifest.ofBytes image).getSize) := by
  have manifest : readRange (writeRange space 0 image) 0 sizeofManifest =
      (Manifest.ofBytes image).bytes := by
    rw [readRange_writeRange_inside space (by rw [Nat.zero_add]; exact whole),
      Manifest.ofBytes_bytes whole]
    rfl
  rw [slotVerdict_space crypto sf manifest covers narrow, readRange_writeRange_inside space inside]

/-- **The verification** on a plain memory: the memory stays, the verdict decides the state. -/
theorem fsmVerifyFirmware_plain (ctx : FsmCtx) (memory : Contents) :
    ∃ ctx', fsmVerifyFirmware (plain (fullLayout erased)) crypto sf ctx memory =
        (slotVerdict crypto sf (memory ctx.id), ctx', memory) ∧
      ctx'.state = (if slotVerdict crypto sf (memory ctx.id) = .success then .reboot else .idle) ∧
      ctx'.id = ctx.id ∧ ctx'.version = ctx.version ∧ ctx'.oldId = ctx.oldId ∧
      ctx'.processed = ctx.processed := by
  have kept := verifyObject_memory (fullLayout erased) crypto ⟨ctx.id, .readOnly⟩ sf
    ctx.scratch.bytes fsmBufferSize memory (sizeofManifest_le_full erased ctx.id)
  rw [fsmVerifyFirmware, plain_open _ memory (by decide)]
  simp only [verifyObject_slotVerdict, kept, plain_close]
  by_cases passes : slotVerdict crypto sf (memory ctx.id) = .success
  · rw [if_neg (not_not.mpr passes), if_pos passes, passes]
    exact ⟨_, rfl, rfl, rfl, rfl, rfl, rfl⟩
  · rw [if_pos passes, if_neg passes]
    exact ⟨_, rfl, rfl, rfl, rfl, rfl, rfl⟩

end Plain

end Upkit
