/-
**Where a download writes.**

Runs over the flash of a device, with any drivers behind it. The announced size of a session is
`offset + prop_size` of its manifest, as an unbounded sum (`Manifest.span`).

* `WritesWithin` — a call writes below the announced size and inside the object of `ctx->id`.
* `Fits` — what the writer has been given by then ends there.
* `call_within_iff` — the two are the same for a call in which no write fails, and such a call keeps
  the count of what the sink has been fed (`Downloading`).
* `download_within_iff` — so they are for every run in which no write fails, and over drivers that
  program what they are given none does.
-/

import Upkit.Network.FlashWrites
import Upkit.Network.Residue
import Upkit.Memory.FlashSwap

namespace Upkit

open Bytes Blocks

/-! ### Announced sizes -/

/-- The size a manifest announces, before it is cut to `32` bits. -/
def Manifest.span (mt : Manifest) : Nat := mt.getOffset + mt.getPropSize

@[simp] theorem Manifest.full_span (mt : Manifest) : mt.full.span = mt.span := by
  rw [Manifest.span, Manifest.span, Manifest.getPropSize, Manifest.getOffset, Manifest.getPropSize,
    Manifest.getOffset, mt.full_get (by decide), mt.full_get (by decide)]

/-- `is->mt` of the session that a call belongs to. -/
def sessionManifest (input : FsmInput) (ctx : FsmCtx) : Manifest :=
  if ctx.state = .receiveManifest then (ctx.collected input.buf.data).scratch.mt
  else ctx.scratch.mt

/-! ### Calls -/

section Calls

variable {δ : Type} (left : Nat → UInt8) (flash : FlashTable δ) (crypto : Crypto)
  (table : SlotTable) (sf : Safestore)

/-- The slot that arming opens, if the scan and the open succeed. -/
def armedSlot (id : MemId) (state : Observed δ) : Option MemId :=
  let scan := getOldestFirmware (observed left flash) table false id 0 state
  if scan.1 = .success ∧
      ((observed left flash).memoryOpen scan.2.1.id .writeAll scan.2.2).1 = .success then
    some scan.2.1.id
  else none

/-- The accesses of a call. -/
def accessesOf (input : FsmInput) (ctx : FsmCtx) (state : Observed δ) : List MemEvent :=
  (fsm (observed left flash) crypto table sf input ctx state).memory.2.drop state.2.length

/-- A call writes below the announced size, and inside the object opened for `ctx->id`. -/
def WritesWithin (input : FsmInput) (ctx : FsmCtx) (state : Observed δ) : Prop :=
  ∀ event ∈ accessesOf left flash crypto table sf input ctx state,
    event.Within flash (fsm (observed left flash) crypto table sf input ctx state).ctx.id
      (sessionManifest input ctx).span

/-- No write has failed when a call returns. -/
def WritesStored (input : FsmInput) (ctx : FsmCtx) (state : Observed δ) : Prop :=
  (fsm (observed left flash) crypto table sf input ctx state).memory.1.2 = false

/-- What the writer has been given of a download once `fed` bytes have been fed to the pipeline. -/
def FsmCtx.given (ctx : FsmCtx) (fed : Nat) : Nat := if fed = ctx.expected then fed else flushed fed

/-- The bytes given to the writer end within: those of a manifest and what came with it, if they are
more than a block, and those of a download so far, if the call gives it any. -/
def Fits (input : FsmInput) (ctx : FsmCtx) (state : Observed δ) : Prop :=
  let fed := ctx.processed + input.buf.data.length
  (Arms crypto sf input ctx → ∀ id, armedSlot left flash table ctx.id state = some id →
    fed ≤ bufferLen ∨ (flushed fed ≤ (sessionManifest input ctx).span ∧
      flushed fed ≤ (flash id).length)) ∧
  (ctx.state = .receiveFirmware → fed ≤ ctx.expected →
    ctx.given fed = flushed ctx.processed ∨ ctx.given fed ≤ (flash ctx.id).length)

/-- **The invariant**: an armed slot is written through a sink that has been fed what `processed`
counts. -/
def Downloading (ctx : FsmCtx) : Prop :=
  ctx.state = .receiveFirmware →
    Filled (slotObject ctx.id) ctx.processed ctx.bufferCtx ctx.writerCtx ∧
      ctx.expected = ctx.scratch.mt.span % 2 ^ 32

variable {crypto sf} in
/-- A call that arms. -/
theorem fsm_arms {σ : Type} (M : MemoryInterface σ) {input : FsmInput} {ctx : FsmCtx} (memory : σ)
    (arms : Arms crypto sf input ctx) :
    fsm M crypto table sf input ctx memory =
      keepBuf input.buf.data (fsmArm M table (input.buf.data.drop (sizeofManifest - ctx.processed))
        (ctx.collected input.buf.data).configured memory) := by
  obtain ⟨state, room, enough, accepted⟩ := arms
  have accepted' : Accepted crypto sf (ctx.collected input.buf.data).version
      (ctx.collected input.buf.data).scratch.mt := accepted
  rw [fsm_manifestState M crypto table sf memory state, if_neg (not_lt.mpr room),
    if_neg (not_lt.mpr enough), fsmVerifyManifest_accepted M table accepted']

end Calls

/-! ### Arming a slot -/

/-- What opens an object lies within everything. -/
theorem opens_within {δ : Type} {flash : FlashTable δ} {id : MemId} {size : Nat}
    {events : List MemEvent} (opens : ∀ event ∈ events, event.Opens) :
    ∀ event ∈ events, event.Within flash id size := by
  intro event member
  cases event with
  | opened id mode => trivial
  | wrote id offset data => exact (opens _ member).elim

section Arming

variable {δ : Type} {left : Nat → UInt8} {flash : FlashTable δ} {table : SlotTable}
  {rest : List UInt8} {ctx : FsmCtx} {state : Observed δ} {id : MemId}

theorem scan_silent (id : MemId) (state : Observed δ) :
    Silent state (getOldestFirmware (observed left flash) table false id 0 state).2.2 :=
  getOrderedFirmware_frames (observed_silent left flash) (fun _ => trivial) table false false id 0
    state

theorem observed_object (id : MemId) (state : Observed δ) :
    ((observed left flash).memoryOpen id .writeAll state).2.1 = slotObject id := by
  show ((flashMemory flash).memoryOpen id .writeAll state.1.1).2.1 = _
  unfold flashMemory
  simp only
  split
  · rfl
  · rfl

/-- Without a slot nothing is written. -/
theorem fsmArm_unopened (full : ctx.pipeline = .buffer)
    (missing : armedSlot left flash table ctx.id state = none) :
    (fsmArm (observed left flash) table rest ctx state).2.1.state = .clean ∧
      Silent state (fsmArm (observed left flash) table rest ctx state).2.2 := by
  have silent := observed_silent left flash
  have scanned := @scan_silent _ left flash table ctx.id state
  rw [fsmArm_eq _ _ _ _ _ full]
  simp only
  by_cases found : (getOldestFirmware (observed left flash) table false ctx.id 0 state).1 = .success
  · have refused : ((observed left flash).memoryOpen
        (getOldestFirmware (observed left flash) table false ctx.id 0 state).2.1.id .writeAll
        (getOldestFirmware (observed left flash) table false ctx.id 0 state).2.2).1 ≠ .success :=
      fun success => Option.some_ne_none _ ((if_pos ⟨found, success⟩).symm.trans missing)
    rw [if_neg (not_not.mpr found), if_pos refused]
    exact ⟨rfl, silent.trans scanned (silent.opening _ _ _ trivial)⟩
  · rw [if_pos found]
    exact ⟨rfl, scanned⟩

/-- With one, the manifest and the rest of the buffer go into its sink. -/
theorem fsmArm_opened (full : ctx.pipeline = .buffer)
    (found : armedSlot left flash table ctx.id state = some id) :
    ∃ opened : Observed δ, Silent state opened ∧
      fsmArm (observed left flash) table rest ctx state =
        let sink := armedSink (observed left flash) (slotObject id) ctx.scratch.mt rest
          ctx.bufferCtx opened
        (.success, ctx.armed id (slotObject id) rest sink, sink.2.2) := by
  have silent := observed_silent left flash
  have scanned := @scan_silent _ left flash table ctx.id state
  obtain ⟨⟨success, success'⟩, same⟩ := Option.ite_none_right_eq_some.mp found
  cases same
  refine ⟨((observed left flash).memoryOpen
    (getOldestFirmware (observed left flash) table false ctx.id 0 state).2.1.id .writeAll
    (getOldestFirmware (observed left flash) table false ctx.id 0 state).2.2).2.2,
    silent.trans scanned (silent.opening _ _ _ trivial), ?_⟩
  rw [fsmArm_eq _ _ _ _ _ full]
  simp only [success, success', observed_object, ne_eq, not_true_eq_false, if_false]

/-- The sink of a slot that has just been armed, before the rest of the buffer. -/
theorem manifest_filled (mt : Manifest) :
    Filled (slotObject id) sizeofManifest ⟨mt.bytes⟩ (pipelineWriterInit (slotObject id)) :=
  ⟨rfl, mt.length_eq⟩

theorem armedSink_rest {σ : Type} (M : MemoryInterface σ) (obj : MemObject) (mt : Manifest)
    (rest : List UInt8) (memory : σ) :
    armedSink M obj mt rest pipelineBufferInit memory =
      feedSink M rest (⟨mt.bytes⟩, pipelineWriterInit obj, memory) := by
  have manifest : feedSink M mt.bytes (pipelineBufferInit, pipelineWriterInit obj, memory) =
      (⟨mt.bytes⟩, pipelineWriterInit obj, memory) := armedSink_manifest M obj mt memory
  rw [armedSink, manifest]

/-- **Arming**, as long as no write fails. -/
theorem fsmArm_filled (full : ctx.pipeline = .buffer) (fresh : ctx.bufferCtx = pipelineBufferInit)
    (found : armedSlot left flash table ctx.id state = some id)
    (fits : sizeofManifest + rest.length < 2 ^ 32)
    (stored : (fsmArm (observed left flash) table rest ctx state).2.2.1.2 = false) :
    (∃ buffer writer, Filled (slotObject id) (sizeofManifest + rest.length) buffer writer ∧
        (fsmArm (observed left flash) table rest ctx state).2.1 = { ctx with
          id := id
          obj := slotObject id
          bufferCtx := buffer
          writerCtx := writer
          processed := ctx.processed + rest.length
          expected := ctx.scratch.mt.span % 2 ^ 32
          state := .receiveFirmware }) ∧
      ∃ opens, (∀ event ∈ opens, event.Opens) ∧
        (fsmArm (observed left flash) table rest ctx state).2.2.2 =
          state.2 ++ (opens ++ chunkWrites id sizeofManifest ⟨ctx.scratch.mt.bytes⟩ rest) := by
  obtain ⟨opened, ⟨_, opens, grows, ofKind⟩, call⟩ :=
    @fsmArm_opened _ left flash table rest ctx state id full found
  rw [fresh, armedSink_rest] at call
  rw [call] at stored ⊢
  obtain ⟨filled, writes⟩ := @feedSink_filled _ left flash (slotObject id) sizeofManifest
    (⟨ctx.scratch.mt.bytes⟩, pipelineWriterInit (slotObject id), opened)
    (manifest_filled ctx.scratch.mt) rest fits stored
  refine ⟨⟨_, _, filled, rfl⟩, opens, ofKind, ?_⟩
  rw [← List.append_assoc, ← grows]
  exact writes

end Arming

/-! ### Receiving firmware -/

section Receiving

variable {δ : Type} {left : Nat → UInt8} {flash : FlashTable δ} (crypto : Crypto)
  (sf : Safestore) {data : List UInt8} {ctx : FsmCtx} {state : Observed δ}

/-- Verifying the firmware ends the session on the slot it was received in. -/
theorem fsmVerifyFirmware_ends {σ : Type} (M : MemoryInterface σ) (ctx : FsmCtx) (memory : σ) :
    (fsmVerifyFirmware M crypto sf ctx memory).2.1.id = ctx.id ∧
      (fsmVerifyFirmware M crypto sf ctx memory).2.1.state ≠ .receiveFirmware := by
  unfold fsmVerifyFirmware
  simp only
  split
  · exact ⟨rfl, FsmState.noConfusion⟩
  · exact ⟨rfl, FsmState.noConfusion⟩

/-- The chunk that completes the image: once the sink has been cleared there is only the
verification. -/
theorem fsmReceiveFirmware_clears (full : ctx.pipeline = .buffer)
    (complete : ctx.processed + data.length = ctx.expected) :
    (fsmReceiveFirmware (observed left flash) crypto sf data ctx state).2.1.id = ctx.id ∧
      (fsmReceiveFirmware (observed left flash) crypto sf data ctx state).2.1.state ≠
        .receiveFirmware ∧
      Silent (pipelineBufferClear (writerPipeline (observed left flash))
          (feedSink (observed left flash) data (ctx.bufferCtx, ctx.writerCtx, state))).2.2.2
        (fsmReceiveFirmware (observed left flash) crypto sf data ctx state).2.2 := by
  have silent := observed_silent left flash
  obtain ⟨cleared, clears⟩ : ∃ cleared, pipelineBufferClear (writerPipeline (observed left flash))
      (feedSink (observed left flash) data (ctx.bufferCtx, ctx.writerCtx, state)) = cleared :=
    ⟨_, rfl⟩
  have call : fsmReceiveFirmware (observed left flash) crypto sf data ctx state =
      fsmVerifyFirmware (observed left flash) crypto sf (ctx.completed data cleared.2)
        ((observed left flash).memoryClose ctx.obj cleared.2.2.2).2 := by
    rw [fsmReceiveFirmware, fsmReceiveData_eq _ _ _ _ full]
    simp only [clears]
    rw [if_neg (by omega), if_neg (by omega)]
  obtain ⟨id, ends⟩ := fsmVerifyFirmware_ends crypto sf (observed left flash)
    (ctx.completed data cleared.2) ((observed left flash).memoryClose ctx.obj cleared.2.2.2).2
  rw [clears, call]
  exact ⟨id, ends, silent.trans (silent.closing ctx.obj cleared.2.2.2)
    (fsmVerifyFirmware_frames silent crypto sf (fun _ => trivial) _ _)⟩

variable (full : ctx.pipeline = .buffer)
  (filled : Filled (slotObject ctx.id) ctx.processed ctx.bufferCtx ctx.writerCtx)
  (small : ctx.expected < 2 ^ 32)
  (stored : (fsmReceiveFirmware (observed left flash) crypto sf data ctx state).2.2.1.2 = false)

include full filled small stored

/-- **A chunk before the end**, as long as no write fails. -/
theorem fsmReceiveFirmware_part (before : ctx.processed + data.length < ctx.expected) :
    (∃ buffer writer,
        Filled (slotObject ctx.id) (ctx.processed + data.length) buffer writer ∧
        (fsmReceiveFirmware (observed left flash) crypto sf data ctx state).2.1 = { ctx with
          bufferCtx := buffer
          writerCtx := writer
          processed := ctx.processed + data.length }) ∧
      (fsmReceiveFirmware (observed left flash) crypto sf data ctx state).2.2.2 =
        state.2 ++ chunkWrites ctx.id ctx.processed ctx.bufferCtx data := by
  have call : fsmReceiveFirmware (observed left flash) crypto sf data ctx state =
      (.success, ctx.received data
        (feedSink (observed left flash) data (ctx.bufferCtx, ctx.writerCtx, state)),
        (feedSink (observed left flash) data (ctx.bufferCtx, ctx.writerCtx, state)).2.2) := by
    rw [fsmReceiveFirmware, fsmReceiveData_eq _ _ _ _ full]
    simp only
    rw [if_neg (by omega), if_pos (by omega)]
  rw [call] at stored ⊢
  obtain ⟨filled', writes⟩ := @feedSink_filled _ left flash (slotObject ctx.id) ctx.processed
    (ctx.bufferCtx, ctx.writerCtx, state) filled data (by omega) stored
  exact ⟨⟨_, _, filled', rfl⟩, writes⟩

/-- **The chunk that completes the image**, as long as no write fails. -/
theorem fsmReceiveFirmware_last (complete : ctx.processed + data.length = ctx.expected) :
    (fsmReceiveFirmware (observed left flash) crypto sf data ctx state).2.1.id = ctx.id ∧
      (fsmReceiveFirmware (observed left flash) crypto sf data ctx state).2.1.state ≠
        .receiveFirmware ∧
      ∃ last opens, last.length = ctx.expected - flushed ctx.expected ∧
        (∀ event ∈ opens, event.Opens) ∧
        (fsmReceiveFirmware (observed left flash) crypto sf data ctx state).2.2.2 =
          state.2 ++ (chunkWrites ctx.id ctx.processed ctx.bufferCtx data ++
            .wrote ctx.id (flushed ctx.expected) last :: opens) := by
  obtain ⟨id, ends, flag, opens, grows, ofKind⟩ :=
    @fsmReceiveFirmware_clears _ left flash crypto sf data ctx state full complete
  have cleanly := flag.symm.trans stored
  have fedCleanly := bufferClear_frames (observed_notes left flash) _ trivial cleanly
  obtain ⟨filled', writes⟩ := @feedSink_filled _ left flash (slotObject ctx.id) ctx.processed
    (ctx.bufferCtx, ctx.writerCtx, state) filled data (by omega) fedCleanly
  rw [complete] at filled'
  have last := bufferClear_filled filled' cleanly
  refine ⟨id, ends, _, opens, filled'.held, ofKind, ?_⟩
  rw [grows, last, writes, List.append_assoc, List.append_assoc, List.singleton_append]
  rfl

end Receiving

/-! ### One call -/

section Call

variable {δ : Type} (left : Nat → UInt8) (flash : FlashTable δ) (crypto : Crypto)
  (table : SlotTable) (sf : Safestore) {ctx : FsmCtx} {state : Observed δ}

/-- A call of which the accesses are known. -/
theorem writesWithin_of_call {input : FsmInput} {result : FsmResult (Observed δ)}
    {events : List MemEvent}
    (call : fsm (observed left flash) crypto table sf input ctx state = result)
    (grows : result.memory.2 = state.2 ++ events) :
    WritesWithin left flash crypto table sf input ctx state ↔
      ∀ event ∈ events, event.Within flash result.ctx.id (sessionManifest input ctx).span := by
  rw [WritesWithin, accessesOf, call, grows, List.drop_left]

/-- A call that leaves the memory alone. -/
theorem within_of_quiet {input : FsmInput}
    (quiet : (fsm (observed left flash) crypto table sf input ctx state).memory = state) :
    WritesWithin left flash crypto table sf input ctx state := by
  have grows : (fsm (observed left flash) crypto table sf input ctx state).memory.2 =
      state.2 ++ [] := by rw [quiet, List.append_nil]
  exact (writesWithin_of_call left flash crypto table sf rfl grows).mpr
    fun _ member => absurd member List.not_mem_nil

/-- **The call that completes a manifest.** -/
theorem arming_within_iff {input : FsmInput} (arms : Arms crypto sf input ctx)
    (stored : WritesStored left flash crypto table sf input ctx state) :
    Downloading (fsm (observed left flash) crypto table sf input ctx state).ctx ∧
      (WritesWithin left flash crypto table sf input ctx state ↔
        Fits left flash crypto table sf input ctx state) := by
  have call := fsm_arms table (observed left flash) state arms
  have waiting := arms.1
  have room := arms.2.1
  have enough := arms.2.2.1
  have short := input.buf.short
  have few : sizeofManifest = 256 := rfl
  have count : (ctx.collected input.buf.data).configured.processed = sizeofManifest :=
    (collected_complete input.buf.data room enough).1
  have rest : sizeofManifest + (input.buf.data.drop (sizeofManifest - ctx.processed)).length =
      ctx.processed + input.buf.data.length := by
    rw [List.length_drop]
    omega
  have vacuous : ctx.state = .receiveFirmware → False := fun armed =>
    FsmState.noConfusion (waiting.symm.trans armed)
  rw [WritesStored, call] at stored
  cases found : armedSlot left flash table ctx.id state with
  | none =>
      obtain ⟨cleaned, _, opens, grows, ofKind⟩ := @fsmArm_unopened _ left flash table
        (input.buf.data.drop (sizeofManifest - ctx.processed))
        (ctx.collected input.buf.data).configured state rfl found
      rw [writesWithin_of_call left flash crypto table sf call grows, call]
      refine ⟨fun armed => absurd (cleaned.symm.trans armed) FsmState.noConfusion,
        iff_of_true (opens_within ofKind) ⟨fun _ id same => ?_, fun armed => ?_⟩⟩
      · exact absurd (found.symm.trans same) (Option.some_ne_none id).symm
      · exact (vacuous armed).elim
  | some id =>
      obtain ⟨⟨buffer, writer, filled, after⟩, opens, ofKind, grows⟩ := @fsmArm_filled _ left flash
        table (input.buf.data.drop (sizeofManifest - ctx.processed))
        (ctx.collected input.buf.data).configured state id rfl rfl found (by omega) stored
      have writes := @chunkWrites_within_iff _ flash (slotObject id) sizeofManifest id
        (sessionManifest input ctx).span _ _
        (manifest_filled (ctx.collected input.buf.data).configured.scratch.mt)
        (input.buf.data.drop (sizeofManifest - ctx.processed)) (by omega)
      rw [writesWithin_of_call left flash crypto table sf call grows, call,
        List.forall_mem_append, and_iff_right (opens_within ofKind)]
      simp only [keepBuf, after]
      rw [writes, rest]
      refine ⟨fun _ => ⟨?_, rfl⟩, ?_, ?_⟩
      · simp only [count]
        exact filled
      · intro within
        refine ⟨fun _ other same => ?_, fun armed => (vacuous armed).elim⟩
        cases found.symm.trans same
        refine within.imp_left fun same => ?_
        unfold flushed bufferLen sizeofManifest at same
        unfold bufferLen
        omega
      · intro fits
        refine (fits.1 arms id found).imp_left fun same => ?_
        unfold bufferLen at same
        unfold flushed bufferLen sizeofManifest
        omega

/-- **A chunk of firmware.** -/
theorem receiving_within_iff {input : FsmInput} (armed : ctx.state = .receiveFirmware)
    (full : ctx.pipeline = .buffer) (downloading : Downloading ctx)
    (stored : WritesStored left flash crypto table sf input ctx state) :
    Downloading (fsm (observed left flash) crypto table sf input ctx state).ctx ∧
      (WritesWithin left flash crypto table sf input ctx state ↔
        Fits left flash crypto table sf input ctx state) := by
  have call := @fsm_receiveFirmware _ (observed left flash) crypto table sf input ctx state armed
  obtain ⟨filled, announced⟩ := downloading armed
  have waits : ¬ Arms crypto sf input ctx := fun arms =>
    FsmState.noConfusion (arms.1.symm.trans armed)
  have span : ctx.expected ≤ (sessionManifest input ctx).span := by
    rw [announced, sessionManifest, if_neg (by rw [armed]; exact FsmState.noConfusion)]
    exact Nat.mod_le _ _
  have small : ctx.expected < 2 ^ 32 := by
    rw [announced]
    exact Nat.mod_lt _ (by decide)
  have fits : Fits left flash crypto table sf input ctx state ↔
      (ctx.processed + input.buf.data.length ≤ ctx.expected →
        ctx.given (ctx.processed + input.buf.data.length) = flushed ctx.processed ∨
          ctx.given (ctx.processed + input.buf.data.length) ≤ (flash ctx.id).length) :=
    ⟨fun fits => fits.2 armed, fun fits => ⟨fun arms => absurd arms waits, fun _ => fits⟩⟩
  have below := flushed_bounds (ctx.processed + input.buf.data.length)
  rw [fits]
  rw [WritesStored, call] at stored
  rcases lt_trichotomy (ctx.processed + input.buf.data.length) ctx.expected with
    before | complete | beyond
  · obtain ⟨⟨buffer, writer, filled', after⟩, grows⟩ :=
      fsmReceiveFirmware_part crypto sf full filled small stored before
    have writes := @chunkWrites_within_iff _ flash (slotObject ctx.id) ctx.processed ctx.id
      (sessionManifest input ctx).span _ _ filled input.buf.data (by omega)
    rw [writesWithin_of_call left flash crypto table sf call grows, call]
    simp only [keepBuf, after]
    rw [writes, FsmCtx.given, if_neg (by omega)]
    refine ⟨fun _ => ⟨filled', announced⟩, ?_, ?_⟩
    · exact fun within _ => within.imp_right And.right
    · exact fun fits => (fits (by omega)).imp_right fun inside => ⟨by omega, inside⟩
  · obtain ⟨id, ends, last, opens, length, ofKind, grows⟩ :=
      fsmReceiveFirmware_last crypto sf full filled small stored complete
    have writes := @chunkWrites_within_iff _ flash (slotObject ctx.id) ctx.processed ctx.id
      (sessionManifest input ctx).span _ _ filled input.buf.data (by omega)
    have fewer := flushed_mono (Nat.le_add_right ctx.processed input.buf.data.length)
    rw [writesWithin_of_call left flash crypto table sf call grows, call]
    refine ⟨fun again => absurd again ends, ?_⟩
    simp only [keepBuf, id]
    rw [complete] at below fewer writes
    rw [List.forall_mem_append, List.forall_mem_cons, writes, and_iff_left (opens_within ofKind),
      wrote_within_iff (by omega), length, complete, FsmCtx.given, if_pos rfl]
    omega
  · have refused : fsmReceiveFirmware (observed left flash) crypto sf input.buf.data ctx state =
        (.invalidSize, ctx.cleaned, state) := by
      rw [fsmReceiveFirmware, fsmReceiveData_eq _ _ _ _ full]
      simp only
      rw [if_pos beyond]
    rw [refused] at call
    refine ⟨fun again => ?_, iff_of_true ?_ fun within => absurd within (by omega)⟩
    · rw [call] at again
      exact absurd again FsmState.noConfusion
    · exact within_of_quiet left flash crypto table sf (by rw [call]; rfl)

/-- **One call** in which no write fails: it writes within exactly when what the writer is given
fits, and it keeps the count. -/
theorem call_within_iff (input : FsmInput) (counted : Counted ctx) (downloading : Downloading ctx)
    (stored : WritesStored left flash crypto table sf input ctx state) :
    Downloading (fsm (observed left flash) crypto table sf input ctx state).ctx ∧
      (WritesWithin left flash crypto table sf input ctx state ↔
        Fits left flash crypto table sf input ctx state) := by
  -- In most states nothing is armed and nothing is received.
  have quiet : ctx.state ≠ .receiveFirmware → ¬ Arms crypto sf input ctx →
      (fsm (observed left flash) crypto table sf input ctx state).memory = state →
      (fsm (observed left flash) crypto table sf input ctx state).ctx.state ≠ .receiveFirmware →
      Downloading (fsm (observed left flash) crypto table sf input ctx state).ctx ∧
        (WritesWithin left flash crypto table sf input ctx state ↔
          Fits left flash crypto table sf input ctx state) := by
    intro resting waits same after
    exact ⟨fun armed => absurd armed after,
      iff_of_true (within_of_quiet left flash crypto table sf same)
        ⟨fun arms => absurd arms waits, fun armed => absurd armed resting⟩⟩
  have early : ctx.state = .clean ∨ ctx.state = .idle ∨ ctx.state = .startUpdate →
      Downloading (fsm (observed left flash) crypto table sf input ctx state).ctx ∧
        (WritesWithin left flash crypto table sf input ctx state ↔
          Fits left flash crypto table sf input ctx state) := by
    intro phase
    refine quiet ?_ (fun arms => ?_) (fsm_early _ crypto table sf input state phase).1 ?_
    · rcases phase with phase | phase | phase <;> rw [phase] <;> exact FsmState.noConfusion
    · have waiting := arms.1
      rcases phase with phase | phase | phase <;>
        exact FsmState.noConfusion (phase.symm.trans waiting)
    · rcases fsm_early_state (observed left flash) crypto table sf input state phase with
        after | after | after | after <;> rw [after] <;> exact FsmState.noConfusion
  unfold Counted at counted
  cases phase : ctx.state with
  | clean => exact early (Or.inl phase)
  | idle => exact early (Or.inr (Or.inl phase))
  | startUpdate => exact early (Or.inr (Or.inr phase))
  | receiveManifest =>
      by_cases arms : Arms crypto sf input ctx
      · exact arming_within_iff left flash crypto table sf arms stored
      · rcases fsm_receiveManifest_cases (observed left flash) crypto table sf state phase with
          ⟨same, cleaned | ⟨_, waits⟩⟩ | ⟨arms', _⟩
        · refine quiet (by rw [phase]; exact FsmState.noConfusion) arms same ?_
          rw [cleaned]
          exact FsmState.noConfusion
        · refine quiet (by rw [phase]; exact FsmState.noConfusion) arms same ?_
          rw [waits]
          exact FsmState.noConfusion
        · exact absurd arms' arms
  | receiveFirmware =>
      rw [phase] at counted
      exact receiving_within_iff left flash crypto table sf phase counted.1 downloading stored
  | verifyManifest =>
      rw [phase] at counted
      exact counted.elim
  | verifyFirmware =>
      rw [phase] at counted
      exact counted.elim
  | reboot =>
      have call := fsm_reboot (observed left flash) crypto table sf input state phase
      refine quiet (by rw [phase]; exact FsmState.noConfusion) (fun arms => ?_) ?_ ?_
      · exact FsmState.noConfusion (phase.symm.trans arms.1)
      · rw [call]
      · rw [call, phase]
        exact FsmState.noConfusion

variable (programs : Programs flash)

include programs in
/-- **Over drivers that program what they are given** a call fails no write. -/
theorem call_stored (input : FsmInput) (counted : Counted ctx) (downloading : Downloading ctx)
    (before : state.1.2 = false) : WritesStored left flash crypto table sf input ctx state := by
  have quiet : (fsm (observed left flash) crypto table sf input ctx state).memory = state →
      WritesStored left flash crypto table sf input ctx state := by
    intro same
    rw [WritesStored, same]
    exact before
  have early : ctx.state = .clean ∨ ctx.state = .idle ∨ ctx.state = .startUpdate →
      WritesStored left flash crypto table sf input ctx state := fun phase =>
    quiet (fsm_early _ crypto table sf input state phase).1
  unfold Counted at counted
  cases phase : ctx.state with
  | clean => exact early (Or.inl phase)
  | idle => exact early (Or.inr (Or.inl phase))
  | startUpdate => exact early (Or.inr (Or.inr phase))
  | receiveManifest =>
      rcases fsm_receiveManifest_cases (observed left flash) crypto table sf state phase with
        ⟨same, _⟩ | ⟨_, call⟩
      · exact quiet same
      · rw [WritesStored, call]
        cases found : armedSlot left flash table ctx.id state with
        | none =>
            exact (@fsmArm_unopened _ left flash table _
              (ctx.collected input.buf.data).configured state rfl found).2.1.trans before
        | some id =>
            obtain ⟨opened, ⟨flag, _⟩, armed⟩ := @fsmArm_opened _ left flash table
              (input.buf.data.drop (sizeofManifest - ctx.processed))
              (ctx.collected input.buf.data).configured state id rfl found
            rw [show (ctx.collected input.buf.data).configured.bufferCtx = pipelineBufferInit
              from rfl, armedSink_rest] at armed
            rw [keepBuf, armed]
            have fed := @feedSink_programs _ left flash programs id
              (⟨(ctx.collected input.buf.data).configured.scratch.mt.bytes⟩,
                pipelineWriterInit (slotObject id), opened) (@manifest_filled id _).short rfl
              (input.buf.data.drop (sizeofManifest - ctx.processed))
            exact (fed.trans flag).trans before
  | receiveFirmware =>
      rw [phase] at counted
      obtain ⟨filled, _⟩ := downloading phase
      have object : ctx.writerCtx.obj = slotObject ctx.id := by rw [filled.writer]
      have fed := @feedSink_programs _ left flash programs ctx.id
        (ctx.bufferCtx, ctx.writerCtx, state) filled.short object input.buf.data
      rw [WritesStored, fsm_receiveFirmware (observed left flash) crypto table sf state phase,
        keepBuf]
      by_cases complete : ctx.processed + input.buf.data.length = ctx.expected
      · obtain ⟨_, _, flag, _⟩ := @fsmReceiveFirmware_clears _ left flash crypto sf input.buf.data
          ctx state counted.1 complete
        have cleared := @bufferClear_programs _ left flash programs ctx.id _
          (feedSink_short (observed left flash) filled.short input.buf.data)
          ((feedSink_obj (observed left flash) input.buf.data
            (ctx.bufferCtx, ctx.writerCtx, state)).trans object)
        exact flag.trans (cleared.trans (fed.trans before))
      · rw [fsmReceiveFirmware, fsmReceiveData_eq _ _ _ _ counted.1]
        simp only
        by_cases beyond : ctx.expected < ctx.processed + input.buf.data.length
        · rw [if_pos beyond]
          exact before
        · rw [if_neg beyond, if_pos complete]
          exact fed.trans before
  | verifyManifest =>
      rw [phase] at counted
      exact counted.elim
  | verifyFirmware =>
      rw [phase] at counted
      exact counted.elim
  | reboot =>
      refine quiet ?_
      rw [fsm_reboot (observed left flash) crypto table sf input state phase]

end Call

/-! ### Runs -/

section Runs

/-- What holds of every call of a run, in the state it is made in. -/
def EveryStep {σ : Type} (M : MemoryInterface σ) (crypto : Crypto) (table : SlotTable)
    (sf : Safestore) (holds : FsmInput → FsmCtx → σ → Prop) : List FsmInput → FsmCtx → σ → Prop
  | [], _, _ => True
  | input :: rest, ctx, memory => holds input ctx memory ∧
      EveryStep M crypto table sf holds rest (fsm M crypto table sf input ctx memory).ctx
        (fsm M crypto table sf input ctx memory).memory

variable {δ : Type} (left : Nat → UInt8) (flash : FlashTable δ) (crypto : Crypto)
  (table : SlotTable) (sf : Safestore)

/-- **Call after call**, as long as no write fails. -/
theorem everyStep_within_iff (inputs : List FsmInput) {ctx : FsmCtx} {state : Observed δ}
    (counted : Counted ctx) (downloading : Downloading ctx)
    (stored : EveryStep (observed left flash) crypto table sf
      (WritesStored left flash crypto table sf) inputs ctx state) :
    EveryStep (observed left flash) crypto table sf (WritesWithin left flash crypto table sf)
        inputs ctx state ↔
      EveryStep (observed left flash) crypto table sf (Fits left flash crypto table sf) inputs ctx
        state := by
  induction inputs generalizing ctx state with
  | nil => exact Iff.rfl
  | cons input rest ih =>
      obtain ⟨first, later⟩ := stored
      obtain ⟨downloading', one⟩ :=
        call_within_iff left flash crypto table sf input counted downloading first
      have counted' := counted_step (observed left flash) crypto table sf input state counted
      exact and_congr one (ih counted' downloading' later)

/-- Over drivers that program what they are given no write fails in any run. -/
theorem everyStep_stored (programs : Programs flash) (inputs : List FsmInput) {ctx : FsmCtx}
    {state : Observed δ} (counted : Counted ctx) (downloading : Downloading ctx)
    (before : state.1.2 = false) :
    EveryStep (observed left flash) crypto table sf (WritesStored left flash crypto table sf) inputs
      ctx state := by
  induction inputs generalizing ctx state with
  | nil => trivial
  | cons input rest ih =>
      have first :=
        call_stored left flash crypto table sf programs input counted downloading before
      have downloading' :=
        (call_within_iff left flash crypto table sf input counted downloading first).1
      have counted' := counted_step (observed left flash) crypto table sf input state counted
      exact ⟨first, ih counted' downloading' first⟩

/-- **Where a download writes**, in every run that begins with `fsm_init`, over any drivers. While
no write fails, every call writes below the announced size and inside the slot exactly when every
call gives the writer what fits; over drivers that program what they are given no write fails. -/
theorem download_within_iff (rngInit : PullError) (ctx : FsmCtx) (start : Observed δ)
    (inputs : List FsmInput) :
    let begun := fsmInit (observed left flash) table rngInit ctx start
    Silent start begun.2.2 ∧
      (EveryStep (observed left flash) crypto table sf (WritesStored left flash crypto table sf)
          inputs begun.2.1 begun.2.2 →
        (EveryStep (observed left flash) crypto table sf
            (WritesWithin left flash crypto table sf) inputs begun.2.1 begun.2.2 ↔
          EveryStep (observed left flash) crypto table sf (Fits left flash crypto table sf) inputs
            begun.2.1 begun.2.2)) ∧
      (Programs flash → start.1.2 = false →
        EveryStep (observed left flash) crypto table sf (WritesStored left flash crypto table sf)
          inputs begun.2.1 begun.2.2) := by
  intro begun
  have silent : Silent start begun.2.2 :=
    fsmInit_frames (observed_silent left flash) table (fun _ => trivial) rngInit ctx start
  have idle : begun.2.1.state = .idle :=
    (fsmInit_state (observed left flash) table rngInit ctx start).1
  have counted : Counted begun.2.1 := counted_of_reachable (observed left flash) crypto table sf
    (Reachable.init rngInit ctx start)
  have downloading : Downloading begun.2.1 := fun armed =>
    FsmState.noConfusion (idle.symm.trans armed)
  refine ⟨silent, ?_, ?_⟩
  · exact everyStep_within_iff left flash crypto table sf inputs counted downloading
  · intro programs before
    exact everyStep_stored left flash crypto table sf programs inputs counted downloading
      (silent.1.trans before)

end Runs

/-! ### The slots of the nRF52840 -/

/-- `memory_slots` of the nRF52840: `OBJ_1` and `OBJ_2`. -/
def nrf52840Slots : SlotTable where
  slots := [⟨2, true⟩, ⟨3, false⟩]
  nonempty := by decide
  positive := by decide
  short := by decide

/-- Its flash, of which no operation fails. -/
abbrev nrf52840Flash : MemoryInterface (Observed (Nat → UInt8)) :=
  observed (fun _ => 0) nrf52840.table

/-- `fsm_init` on flash of zeros. -/
def nrf52840Begun : PullError × FsmCtx × Observed (Nat → UInt8) :=
  fsmInit nrf52840Flash nrf52840Slots .success FsmCtx.zero ((fun _ => 0, false), [])

/-- The context that waits for a manifest. -/
def nrf52840Waiting : FsmCtx :=
  FsmCtx.begun { nrf52840Begun.2.1 with state := .startUpdate } zeroNonce

theorem nrf52840_programs : Programs nrf52840.table := fun _ _ _ _ => rfl

theorem nrf52840Begun_idle : nrf52840Begun.2.1.state = .idle ∧ nrf52840Begun.2.1.processed = 0 :=
  fsmInit_state nrf52840Flash nrf52840Slots .success FsmCtx.zero ((fun _ => 0, false), [])

theorem nrf52840Begun_version : nrf52840Begun.2.1.version = 0 := by decide +kernel

theorem nrf52840_scan :
    (getOldestFirmware nrf52840Flash nrf52840Slots false nrf52840Waiting.id 0
        nrf52840Begun.2.2).1 = .success ∧
      (getOldestFirmware nrf52840Flash nrf52840Slots false nrf52840Waiting.id 0
        nrf52840Begun.2.2).2.1.id = 2 := by decide +kernel

/-- Arming opens the first slot. -/
theorem nrf52840_armedSlot :
    armedSlot (fun _ => 0) nrf52840.table nrf52840Slots nrf52840Waiting.id nrf52840Begun.2.2 =
      some 2 := by
  have opens : ∀ (id : MemId) (state : Observed (Nat → UInt8)),
      (nrf52840Flash.memoryOpen id .writeAll state).1 = .success := by
    intro id state
    show ((flashMemory nrf52840.table).memoryOpen id .writeAll state.1.1).1 = _
    rw [(flashMemory_paged nrf52840).1, paged_open_writeAll]
  obtain ⟨success, found⟩ := nrf52840_scan
  rw [armedSlot]
  simp only [success, found, opens, and_self, if_true]

/-- A version and a message begin a session. -/
theorem nrf52840_everyStep {holds : FsmInput → FsmCtx → Observed (Nat → UInt8) → Prop}
    (early : ∀ input ctx state, ¬ ctx.Receiving → holds input ctx state) (rest : List FsmInput) :
    EveryStep nrf52840Flash mirrorCrypto nrf52840Slots zeroSafestore holds
        (versionCall :: messageCall :: rest) nrf52840Begun.2.1 nrf52840Begun.2.2 ↔
      EveryStep nrf52840Flash mirrorCrypto nrf52840Slots zeroSafestore holds rest nrf52840Waiting
        nrf52840Begun.2.2 := by
  have resting : ∀ (ctx : FsmCtx), ctx.state = .idle ∨ ctx.state = .startUpdate →
      ¬ ctx.Receiving := by
    rintro ctx (state | state) (receiving | receiving)
    · exact FsmState.noConfusion (state.symm.trans receiving)
    · exact FsmState.noConfusion (state.symm.trans receiving)
    · exact FsmState.noConfusion (state.symm.trans receiving)
    · exact FsmState.noConfusion (state.symm.trans receiving)
  rw [EveryStep, fsm_idle_newer nrf52840Flash mirrorCrypto nrf52840Slots zeroSafestore _
    nrf52840Begun_idle.1 rfl (by rw [nrf52840Begun_version]; decide), EveryStep,
    fsm_startUpdate_begun nrf52840Flash mirrorCrypto nrf52840Slots zeroSafestore _ rfl (by decide)
      rfl]
  rw [and_iff_right (early _ _ _ (resting _ (Or.inl nrf52840Begun_idle.1))),
    and_iff_right (early _ _ _ (resting _ (Or.inr rfl)))]
  rfl

theorem nrf52840Waiting_collecting : Collecting nrf52840Waiting [] :=
  ⟨rfl, nrf52840Begun_idle.2, by decide, rfl⟩

section Session

variable {input : FsmInput} (enough : sizeofManifest ≤ input.buf.data.length)
  (accepted : Accepted mirrorCrypto zeroSafestore 0 (Manifest.ofBytes input.buf.data))

include enough

theorem nrf52840_sessionManifest :
    sessionManifest input nrf52840Waiting = Manifest.ofBytes input.buf.data := by
  have enough' : sizeofManifest ≤ ([] : List UInt8).length + input.buf.data.length := by
    rw [List.length_nil, Nat.zero_add]
    exact enough
  rw [sessionManifest, if_pos nrf52840Waiting_collecting.state]
  exact (collecting_complete nrf52840Waiting_collecting enough').2

include accepted

/-- A call with a manifest that passes arms. -/
theorem nrf52840_arms : Arms mirrorCrypto zeroSafestore input nrf52840Waiting := by
  have processed : nrf52840Waiting.processed = 0 := nrf52840Waiting_collecting.processed
  have manifest := nrf52840_sessionManifest enough
  rw [sessionManifest, if_pos nrf52840Waiting_collecting.state] at manifest
  refine ⟨rfl, by omega, by omega, ?_⟩
  rw [manifest, show nrf52840Waiting.version = 0 from nrf52840Begun_version]
  exact accepted

/-- The session it leaves. -/
theorem nrf52840_armed :
    let armed := (fsm nrf52840Flash mirrorCrypto nrf52840Slots zeroSafestore input nrf52840Waiting
      nrf52840Begun.2.2).ctx
    armed.state = .receiveFirmware ∧ armed.id = 2 ∧
      armed.processed = input.buf.data.length ∧
      armed.expected = (Manifest.ofBytes input.buf.data).span % 2 ^ 32 := by
  have arms := nrf52840_arms enough accepted
  have processed : nrf52840Waiting.processed = 0 := nrf52840Waiting_collecting.processed
  have count : (nrf52840Waiting.collected input.buf.data).processed = sizeofManifest :=
    (collected_complete input.buf.data arms.2.1 arms.2.2.1).1
  have manifest := nrf52840_sessionManifest enough
  rw [sessionManifest, if_pos nrf52840Waiting_collecting.state] at manifest
  obtain ⟨opened, _, armed⟩ := @fsmArm_opened _ (fun _ => 0) nrf52840.table nrf52840Slots
    (input.buf.data.drop (sizeofManifest - nrf52840Waiting.processed))
    (nrf52840Waiting.collected input.buf.data).configured nrf52840Begun.2.2 2 rfl
    nrf52840_armedSlot
  rw [fsm_arms nrf52840Slots nrf52840Flash _ arms, keepBuf, armed]
  refine ⟨rfl, rfl, ?_, ?_⟩
  · show (nrf52840Waiting.collected input.buf.data).processed +
      (input.buf.data.drop (sizeofManifest - nrf52840Waiting.processed)).length = _
    rw [count, List.length_drop]
    omega
  · show (nrf52840Waiting.collected input.buf.data).configured.scratch.mt.span % 2 ^ 32 = _
    have mt : (nrf52840Waiting.collected input.buf.data).configured.scratch.mt =
        (Manifest.ofBytes input.buf.data).full := by
      rw [← manifest]
      exact Scratch.setMt_mt _ _
    rw [mt, Manifest.full_span]

/-- What fits when it arms: a manifest alone, or blocks that are announced. -/
theorem nrf52840_fits_iff :
    Fits (fun _ => 0) nrf52840.table mirrorCrypto nrf52840Slots zeroSafestore input
        nrf52840Waiting nrf52840Begun.2.2 ↔
      input.buf.data.length ≤ bufferLen ∨
        (flushed input.buf.data.length ≤ (Manifest.ofBytes input.buf.data).span ∧
          flushed input.buf.data.length ≤ 409600) := by
  have arms := nrf52840_arms enough accepted
  have processed : nrf52840Waiting.processed = 0 := nrf52840Waiting_collecting.processed
  rw [Fits, nrf52840_sessionManifest enough, processed, Nat.zero_add]
  constructor
  · exact fun fits => fits.1 arms 2 nrf52840_armedSlot
  · intro fits
    refine ⟨fun _ id found => ?_, fun armed => FsmState.noConfusion armed⟩
    cases nrf52840_armedSlot.symm.trans found
    exact fits

end Session

/-- A call before a session fits. -/
theorem fits_early (input : FsmInput) (ctx : FsmCtx) (state : Observed (Nat → UInt8))
    (resting : ¬ ctx.Receiving) :
    Fits (fun _ => 0) nrf52840.table mirrorCrypto nrf52840Slots zeroSafestore input ctx state :=
  ⟨fun arms => absurd (Or.inl arms.1) resting, fun armed => absurd (Or.inr armed) resting⟩

/-- The signed update, from `fsm_init` to the end of its verification. -/
def signedCalls : List FsmInput := [versionCall, messageCall, manifestCall, firmwareCall]

theorem signedCalls_fit :
    EveryStep nrf52840Flash mirrorCrypto nrf52840Slots zeroSafestore
      (Fits (fun _ => 0) nrf52840.table mirrorCrypto nrf52840Slots zeroSafestore) signedCalls
      nrf52840Begun.2.1 nrf52840Begun.2.2 := by
  have length : manifestCall.buf.data.length = sizeofManifest := signedManifest_length
  have firmware : firmwareCall.buf.data.length = 1024 := List.length_replicate
  obtain ⟨armed, id, processed, expected⟩ := nrf52840_armed (le_of_eq length.symm)
    signedManifest_accepted
  have announced : (Manifest.ofBytes manifestCall.buf.data).span = 1280 := by decide
  refine (nrf52840_everyStep fits_early _).mpr ⟨?_, ⟨?_, fun _ _ => Or.inr ?_⟩, trivial⟩
  · refine (nrf52840_fits_iff (le_of_eq length.symm) signedManifest_accepted).mpr (Or.inl ?_)
    rw [length]
    decide
  · exact fun arms => FsmState.noConfusion (armed.symm.trans arms.1)
  · rw [FsmCtx.given, processed, expected, announced, firmware, length, id]
    decide

/-- The signed update on the nRF52840 is written where it should be. -/
theorem signedCalls_within :
    EveryStep nrf52840Flash mirrorCrypto nrf52840Slots zeroSafestore
        (WritesStored (fun _ => 0) nrf52840.table mirrorCrypto nrf52840Slots zeroSafestore)
        signedCalls nrf52840Begun.2.1 nrf52840Begun.2.2 ∧
      EveryStep nrf52840Flash mirrorCrypto nrf52840Slots zeroSafestore
        (WritesWithin (fun _ => 0) nrf52840.table mirrorCrypto nrf52840Slots zeroSafestore)
        signedCalls nrf52840Begun.2.1 nrf52840Begun.2.2 := by
  obtain ⟨_, within, stored⟩ := download_within_iff (fun _ => 0) nrf52840.table mirrorCrypto
    nrf52840Slots zeroSafestore .success FsmCtx.zero ((fun _ => 0, false), []) signedCalls
  have clean := stored nrf52840_programs rfl
  exact ⟨clean, (within clean).mpr signedCalls_fit⟩

/-- A manifest that announces no firmware, and `745` bytes behind it in the same chunk. -/
def overfullCall : FsmInput :=
  callWith (emptyManifest ++ List.replicate 745 0) (by
    rw [List.length_append, emptyManifest_length, List.length_replicate]
    decide)

/-- The manifest of a signed update with `409600` bytes of firmware, as many as a slot is long. -/
def slotManifest : List UInt8 :=
  (List.range 256).map fun address =>
    if address = 1 ∨ address = 65 ∨ address = 185 ∨ address = 249 then 0x40
    else if address = 2 ∨ address = 66 ∨ address = 186 ∨ address = 250 then 6
    else if address = 5 ∨ address = 69 then 1
    else if address = 8 ∨ address = 72 then 2
    else 0

theorem slotManifest_length : slotManifest.length = 256 := by
  rw [slotManifest, List.length_map, List.length_range]

def slotManifestCall : FsmInput :=
  callWith slotManifest (by rw [slotManifest_length]; decide)

def slotFirmwareCall : FsmInput :=
  callWith (List.replicate 409600 0) (by rw [List.length_replicate]; decide)

theorem slotManifest_accepted :
    Accepted mirrorCrypto zeroSafestore 0 (Manifest.ofBytes slotManifest) := by decide

/-- **Writes outside**, over drivers that do not fail. A chunk of `1001` bytes that begins with a
manifest is written up to its first block, although only the `256` bytes of the manifest are
announced. A firmware as long as the slot is written up to `256` bytes behind it. -/
theorem download_overruns :
    (EveryStep nrf52840Flash mirrorCrypto nrf52840Slots zeroSafestore
          (WritesStored (fun _ => 0) nrf52840.table mirrorCrypto nrf52840Slots zeroSafestore)
          [versionCall, messageCall, overfullCall] nrf52840Begun.2.1 nrf52840Begun.2.2 ∧
        ¬ EveryStep nrf52840Flash mirrorCrypto nrf52840Slots zeroSafestore
          (WritesWithin (fun _ => 0) nrf52840.table mirrorCrypto nrf52840Slots zeroSafestore)
          [versionCall, messageCall, overfullCall] nrf52840Begun.2.1 nrf52840Begun.2.2) ∧
      EveryStep nrf52840Flash mirrorCrypto nrf52840Slots zeroSafestore
        (WritesStored (fun _ => 0) nrf52840.table mirrorCrypto nrf52840Slots zeroSafestore)
        [versionCall, messageCall, slotManifestCall, slotFirmwareCall] nrf52840Begun.2.1
        nrf52840Begun.2.2 ∧
      ¬ EveryStep nrf52840Flash mirrorCrypto nrf52840Slots zeroSafestore
        (WritesWithin (fun _ => 0) nrf52840.table mirrorCrypto nrf52840Slots zeroSafestore)
        [versionCall, messageCall, slotManifestCall, slotFirmwareCall] nrf52840Begun.2.1
        nrf52840Begun.2.2 := by
  have counted : Counted nrf52840Begun.2.1 :=
    counted_of_reachable nrf52840Flash mirrorCrypto nrf52840Slots zeroSafestore
      (Reachable.init .success FsmCtx.zero ((fun _ => 0, false), []))
  have downloading : Downloading nrf52840Begun.2.1 := fun armed =>
    FsmState.noConfusion (nrf52840Begun_idle.1.symm.trans armed)
  have silent : Silent ((fun _ => 0, false), []) nrf52840Begun.2.2 :=
    fsmInit_frames (observed_silent (fun _ => 0) nrf52840.table) nrf52840Slots (fun _ => trivial)
      .success FsmCtx.zero ((fun _ => 0, false), [])
  have stored := fun inputs => everyStep_stored (fun _ => 0) nrf52840.table mirrorCrypto
    nrf52840Slots zeroSafestore nrf52840_programs inputs counted downloading silent.1
  refine ⟨⟨stored _, fun within => ?_⟩, stored _, fun within => ?_⟩
  · rw [everyStep_within_iff _ _ _ _ _ _ counted downloading (stored _),
      nrf52840_everyStep fits_early] at within
    have same : Manifest.ofBytes overfullCall.buf.data = Manifest.ofBytes emptyManifest :=
      Manifest.ofBytes_append (le_of_eq emptyManifest_length.symm) _
    have length : overfullCall.buf.data.length = 1001 := by
      show (emptyManifest ++ List.replicate 745 0).length = 1001
      rw [List.length_append, emptyManifest_length, List.length_replicate]
    have fits := (nrf52840_fits_iff (by rw [length]; decide)
      (by rw [same]; exact emptyManifest_accepted)).mp within.1
    rw [same, length] at fits
    exact absurd fits (by decide)
  · rw [everyStep_within_iff _ _ _ _ _ _ counted downloading (stored _),
      nrf52840_everyStep fits_early] at within
    have length : slotManifestCall.buf.data.length = sizeofManifest := slotManifest_length
    have firmware : slotFirmwareCall.buf.data.length = 409600 := List.length_replicate
    obtain ⟨armed, id, processed, expected⟩ := nrf52840_armed (le_of_eq length.symm)
      slotManifest_accepted
    have announced : (Manifest.ofBytes slotManifestCall.buf.data).span = 409856 := by decide
    obtain ⟨_, fits, _⟩ := within
    have last := fits.2 armed (by rw [processed, expected, announced, firmware, length]; decide)
    rw [FsmCtx.given, processed, expected, announced, firmware, length, id] at last
    exact absurd last (by decide)

end Upkit
