/-
**The update state machine.**

`fsm_init` and `fsm` over any memory. `fsm` is one `switch` whose cases fall through, so every case
is a function that ends by calling the next one where the source falls through:

* `fsmClean`, `fsmIdle` — a two-byte version starts a session.
* `fsmStartUpdate` — the caller's buffer is filled with a `receiver_msg_t`.
* `fsmReceiveManifest`, `fsmVerifyManifest` — `256` bytes are collected, checked, and the oldest
  slot is opened and armed (`fsmArm`).
* `fsmReceiveFirmware`, `fsmVerifyFirmware` — the rest goes through the pipeline; the slot is
  verified once as many bytes as expected are in it.

The manifest, the nonce and the scratch buffer of the verification share one static buffer
(`Scratch`). The random generator is an input of each call.
-/

import Upkit.Security.Verifier
import Upkit.Pipeline.Lzss
import Upkit.Pipeline.Bspatch

namespace Upkit

open Bytes

/-! ### The context -/

/-- `fsm_state_t`. -/
inductive FsmState
  | clean
  | idle
  | startUpdate
  | receiveManifest
  | verifyManifest
  | receiveFirmware
  | verifyFirmware
  | reboot
  deriving DecidableEq, Repr

/-- `BUFFER_SIZE` of `fsm.c`. -/
def fsmBufferSize : Nat := 1024

/-- The static `buffer` of `fsm.c`. The first `256` bytes are `is->mt`, the next four `is->nonce`. -/
structure Scratch where
  bytes : List UInt8
  length_eq : bytes.length = fsmBufferSize

namespace Scratch

/-- `is->mt`. -/
def mt (scratch : Scratch) : Manifest :=
  ⟨scratch.bytes.take sizeofManifest, by
    rw [List.length_take, scratch.length_eq]
    rfl⟩

/-- Bytes stored inside the buffer. -/
def store (scratch : Scratch) (offset : Nat) (data : List UInt8)
    (fits : offset + data.length ≤ fsmBufferSize) : Scratch :=
  ⟨splice scratch.bytes offset data, by
    rw [splice_length (by rw [scratch.length_eq]; exact fits), scratch.length_eq]⟩

/-- The buffer after a function that it was lent to. -/
def ofBytes (bytes : List UInt8) : Scratch :=
  ⟨(bytes ++ List.replicate fsmBufferSize 0).take fsmBufferSize, by
    rw [List.length_take, List.length_append, List.length_replicate]
    omega⟩

/-- Assignment to `is->mt`. -/
def setMt (scratch : Scratch) (mt : Manifest) : Scratch :=
  scratch.store 0 mt.bytes (by rw [mt.length_eq]; decide)

end Scratch

/-- `is->pipeline` and `is->pipeline_ctx`: the stage that the firmware is fed to. -/
inductive FsmPipeline
  | buffer
  | lzss
  deriving DecidableEq, Repr

/-- `fsm_ctx_t` with the static state of `fsm.c` and of the pipeline stages. -/
structure FsmCtx where
  state : FsmState
  version : Nat
  processed : Nat
  expected : Nat
  id : MemId
  obj : MemObject
  oldId : MemId
  oldObj : MemObject
  scratch : Scratch
  pipeline : FsmPipeline
  lzssCtx : LzssCtx
  bspatchCtx : BspatchCtx
  bufferCtx : BufferCtx
  writerCtx : WriterCtx

/-- The context and the static variables before anything has run. -/
def FsmCtx.zero : FsmCtx where
  state := .clean
  version := 0
  processed := 0
  expected := 0
  id := 0
  obj := ⟨0, .readOnly⟩
  oldId := 0
  oldObj := ⟨0, .readOnly⟩
  scratch := Scratch.ofBytes []
  pipeline := .buffer
  lzssCtx := ⟨none, 0, 0, 0, 0, 0, fun _ => 0⟩
  bspatchCtx := ⟨none, false, 0, 0, ⟨List.replicate 8 0⟩, ⟨List.replicate 8 0⟩,
    ⟨List.replicate 8 0⟩, 0, 0, ⟨List.replicate 8 0⟩⟩
  bufferCtx := ⟨[]⟩
  writerCtx := ⟨⟨0, .readOnly⟩, 0⟩

/-- A buffer passed to `fsm`: its length fits the `int` of a pipeline stage. -/
structure Buf where
  data : List UInt8
  short : data.length < 2 ^ 31

/-- A `nonce_t`. -/
structure Nonce where
  bytes : List UInt8
  length_eq : bytes.length = 4

/-- The nonce stands in the buffer right after the manifest. -/
theorem Nonce.fits (nonce : Nonce) : sizeofManifest + nonce.bytes.length ≤ fsmBufferSize := by
  rw [nonce.length_eq]
  decide

/-- One call of `fsm`: its buffer, and what `rng_generate` answers if it is asked. -/
structure FsmInput where
  buf : Buf
  rng : Except PullError Nonce

/-- What one call of `fsm` leaves: the return code, the caller's buffer, the context and the
memory. -/
structure FsmResult (σ : Type) where
  err : PullError
  buf : List UInt8
  ctx : FsmCtx
  memory : σ

/-- What a case that can fall through leaves: a return, or the context and memory the next case
begins with. -/
inductive FallThrough (σ : Type)
  | returns (err : PullError) (ctx : FsmCtx) (memory : σ)
  | falls (ctx : FsmCtx) (memory : σ)

/-! ### The cases -/

section Cases

variable {σ : Type} (M : MemoryInterface σ) (crypto : Crypto) (table : SlotTable)
  (sf : Safestore)

/-- Put a context back to `STATE_CLEAN`. -/
def FsmCtx.cleaned (ctx : FsmCtx) : FsmCtx := { ctx with state := .clean }

/-- `STATE_VERIFY_FIRMWARE`. -/
def fsmVerifyFirmware (ctx : FsmCtx) (memory : σ) : PullError × FsmCtx × σ :=
  let (_, obj, memory) := M.memoryOpen ctx.id .readOnly memory
  let (err, scratch, memory) :=
    verifyObject M crypto obj sf ctx.scratch.bytes fsmBufferSize memory
  let (_, memory) := M.memoryClose obj memory
  let ctx := { ctx with obj := obj, scratch := Scratch.ofBytes scratch }
  if err ≠ .success then (err, { ctx with state := .idle }, memory)
  else (.success, { ctx with state := .reboot }, memory)

/-- `is->pipeline(is->pipeline_ctx, buf, len)`. -/
def runPipeline (data : List UInt8) (ctx : FsmCtx) (memory : σ) : Int × FsmCtx × σ :=
  match ctx.pipeline with
  | .buffer =>
      let (ret, bufferCtx, writerCtx, memory) :=
        sinkPipeline M data (ctx.bufferCtx, ctx.writerCtx, memory)
      (ret, { ctx with bufferCtx := bufferCtx, writerCtx := writerCtx }, memory)
  | .lzss =>
      let (ret, lzssCtx, bspatchCtx, bufferCtx, writerCtx, memory) :=
        lzssPipeline (bspatchPipeline (sinkPipeline M) (readOldByte M ctx.oldObj)) data
          (ctx.lzssCtx, ctx.bspatchCtx, ctx.bufferCtx, ctx.writerCtx, memory)
      (ret, { ctx with
        lzssCtx := lzssCtx
        bspatchCtx := bspatchCtx
        bufferCtx := bufferCtx
        writerCtx := writerCtx }, memory)

/-- `STATE_RECEIVE_FIRMWARE`, up to the fall through into the verification. -/
def fsmReceiveData (data : List UInt8) (ctx : FsmCtx) (memory : σ) : FallThrough σ :=
  if ctx.expected < ctx.processed + data.length then
    .returns .invalidSize ctx.cleaned memory
  else
    let (ret, ctx, memory) := runPipeline M data ctx memory
    if ret ≠ data.length then .returns .pipeline ctx.cleaned memory
    else
      let ctx := { ctx with processed := ctx.processed + data.length }
      if ctx.processed ≠ ctx.expected then .returns .success ctx memory
      else
        let (_, bufferCtx, writerCtx, memory) :=
          pipelineBufferClear (writerPipeline M) (ctx.bufferCtx, ctx.writerCtx, memory)
        let (_, memory) := M.memoryClose ctx.obj memory
        .falls { ctx with
          bufferCtx := bufferCtx
          writerCtx := writerCtx
          state := .verifyFirmware } memory

/-- `STATE_RECEIVE_FIRMWARE`. -/
def fsmReceiveFirmware (data : List UInt8) (ctx : FsmCtx) (memory : σ) :
    PullError × FsmCtx × σ :=
  match fsmReceiveData M data ctx memory with
  | .returns err ctx memory => (err, ctx, memory)
  | .falls ctx memory => fsmVerifyFirmware M crypto sf ctx memory

/-- The end of `STATE_VERIFY_MANIFEST`: the oldest slot is opened, and the manifest and what
followed it in the buffer are fed to the pipeline. -/
def fsmArm (rest : List UInt8) (ctx : FsmCtx) (memory : σ) : PullError × FsmCtx × σ :=
  let (err, oldest, memory) := getOldestFirmware M table false ctx.id 0 memory
  let ctx := { ctx with id := oldest.id }
  if err ≠ .success then (err, ctx.cleaned, memory)
  else
    let (err, obj, memory) := M.memoryOpen ctx.id .writeAll memory
    let ctx := { ctx with obj := obj }
    if err ≠ .success then (err, ctx.cleaned, memory)
    else
      let mt := ctx.scratch.mt
      let (ret, bufferCtx, writerCtx, memory) :=
        sinkPipeline M mt.bytes (ctx.bufferCtx, pipelineWriterInit obj, memory)
      let ctx := { ctx with bufferCtx := bufferCtx, writerCtx := writerCtx }
      if ret ≠ sizeofManifest then (err, ctx.cleaned, memory)
      else
        let armed := fun (ctx : FsmCtx) => { ctx with
          expected := (mt.getOffset + mt.getPropSize) % 2 ^ 32
          state := .receiveFirmware }
        if 0 < rest.length then
          let (ret, ctx, memory) := runPipeline M rest ctx memory
          if ret ≠ rest.length then (.pipeline, ctx.cleaned, memory)
          else (.success, armed { ctx with processed := ctx.processed + rest.length }, memory)
        else (.success, armed ctx, memory)

/-- `STATE_VERIFY_MANIFEST`; `rest` is what the buffer holds behind the manifest. -/
def fsmVerifyManifest (rest : List UInt8) (ctx : FsmCtx) (memory : σ) : PullError × FsmCtx × σ :=
  if ctx.scratch.mt.getVersion ≤ ctx.version then (.invalidSignature, ctx.cleaned, memory)
  else if verifyManifest crypto ctx.scratch.mt sf ≠ .success then
    (.invalidSignature, ctx.cleaned, memory)
  else
    let ctx := { ctx with bufferCtx := pipelineBufferInit }
    -- XXX DEBUG of the source: every update is taken for a full image.
    let ctx := { ctx with scratch := ctx.scratch.setMt (ctx.scratch.mt.setDiffVersion 0) }
    if ctx.scratch.mt.getDiffVersion = 0 then
      fsmArm M table rest { ctx with pipeline := .buffer } memory
    else if ctx.scratch.mt.getDiffVersion = ctx.version then
      let ctx := { ctx with bspatchCtx := pipelineBspatchInit ctx.bspatchCtx }
      let (err, oldObj, memory) := M.memoryOpen ctx.oldId .readOnly memory
      let ctx := { ctx with oldObj := oldObj }
      if err ≠ .success then (.memoryRead, ctx, memory)
      else fsmArm M table rest { ctx with pipeline := .lzss } memory
    else (.invalidSignature, ctx.cleaned, memory)

/-- The loop of `STATE_RECEIVE_MANIFEST`: `processed`, the static buffer and the rest of the
caller's buffer. -/
def receiveLoop : List UInt8 → Nat → Scratch → Nat × Scratch × List UInt8
  | [], processed, scratch => (processed, scratch, [])
  | byte :: rest, processed, scratch =>
      if more : processed < sizeofManifest then
        receiveLoop rest (processed + 1)
          (scratch.store processed [byte] (by
            rw [List.length_singleton, fsmBufferSize]
            rw [sizeofManifest] at more
            omega))
      else (processed, scratch, byte :: rest)

/-- `STATE_RECEIVE_MANIFEST`. -/
def fsmReceiveManifest (data : List UInt8) (ctx : FsmCtx) (memory : σ) :
    PullError × FsmCtx × σ :=
  if sizeofManifest < ctx.processed then (.invalidState, ctx.cleaned, memory)
  else
    let (processed, scratch, rest) := receiveLoop data ctx.processed ctx.scratch
    let ctx := { ctx with processed := processed, scratch := scratch }
    if processed < sizeofManifest then (.success, ctx, memory)
    else fsmVerifyManifest M crypto table sf rest ctx memory

/-- `sizeof(receiver_msg_t)`. -/
def sizeofReceiverMsg : Nat := 16

/-- The caller's buffer with `udid`, `nonce` and `version` of a `receiver_msg_t` filled in. -/
def fillReceiverMsg (data : List UInt8) (udid version : Nat) (nonce : Nonce) : List UInt8 :=
  splice (splice (splice data 0 (toLE 2 udid)) 8 (toLE 2 version)) 4 nonce.bytes

/-- `update_receiver_msg`: the offset to go on from. -/
def updateReceiverMsg (ctx : FsmCtx) (msg : List UInt8) : List UInt8 :=
  splice msg 12 (toLE 4 ctx.processed)

/-- `STATE_START_UPDATE`. -/
def fsmStartUpdate (input : FsmInput) (ctx : FsmCtx) (memory : σ) : FsmResult σ :=
  if input.buf.data.length < sizeofReceiverMsg then
    ⟨.invalidState, input.buf.data, ctx.cleaned, memory⟩
  else
    match input.rng with
    | .error err => ⟨err, input.buf.data, ctx.cleaned, memory⟩
    | .ok nonce =>
        ⟨.success, fillReceiverMsg input.buf.data sf.udid ctx.version nonce,
          { ctx with
            scratch := ctx.scratch.store sizeofManifest nonce.bytes nonce.fits
            state := .receiveManifest }, memory⟩

/-- `STATE_IDLE`. -/
def fsmIdle (data : List UInt8) (ctx : FsmCtx) (memory : σ) : PullError × FsmCtx × σ :=
  if data.length ≠ 2 then (.invalidVersion, ctx.cleaned, memory)
  else if ofLE data ≤ ctx.version then (.success, ctx, memory)
  else (.success, { ctx with state := .startUpdate }, memory)

/-- `STATE_CLEAN`. -/
def fsmClean (data : List UInt8) (ctx : FsmCtx) (memory : σ) : PullError × FsmCtx × σ :=
  fsmIdle data
    { ctx with
      scratch := ctx.scratch.setMt (Manifest.ofBytes [])
      processed := 0
      id := 0
      state := .idle } memory

/-- A case that leaves the caller's buffer alone. -/
def keepBuf (data : List UInt8) (outcome : PullError × FsmCtx × σ) : FsmResult σ :=
  ⟨outcome.1, data, outcome.2.1, outcome.2.2⟩

/-- `fsm`. `STATE_VERIFY_MANIFEST` and `STATE_VERIFY_FIRMWARE` are only passed through: no call
leaves a context in them. -/
def fsm (input : FsmInput) (ctx : FsmCtx) (memory : σ) : FsmResult σ :=
  match ctx.state with
  | .clean => keepBuf input.buf.data (fsmClean input.buf.data ctx memory)
  | .idle => keepBuf input.buf.data (fsmIdle input.buf.data ctx memory)
  | .startUpdate => fsmStartUpdate sf input ctx memory
  | .receiveManifest =>
      keepBuf input.buf.data (fsmReceiveManifest M crypto table sf input.buf.data ctx memory)
  | .verifyManifest =>
      keepBuf input.buf.data (fsmVerifyManifest M crypto table sf input.buf.data ctx memory)
  | .receiveFirmware =>
      keepBuf input.buf.data (fsmReceiveFirmware M crypto sf input.buf.data ctx memory)
  | .verifyFirmware => keepBuf input.buf.data (fsmVerifyFirmware M crypto sf ctx memory)
  | .reboot => ⟨.success, input.buf.data, ctx, memory⟩

/-- `fsm_init`, on a context and static variables as they are; `rngInit` is what `rng_init`
answers. -/
def fsmInit (rngInit : PullError) (ctx : FsmCtx) (memory : σ) : PullError × FsmCtx × σ :=
  let ctx := { ctx with state := .idle, processed := 0 }
  let (err, newest, memory) := getNewestFirmware M table true ctx.oldId ctx.version memory
  let ctx := { ctx with oldId := newest.id, version := newest.version }
  if err ≠ .success then (err, ctx, memory)
  else if rngInit ≠ .success then (rngInit, ctx, memory)
  else (.success, ctx, memory)

end Cases

end Upkit
