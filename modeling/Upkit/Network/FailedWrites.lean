/-
**Writes that fail during a download.**

`fsm` looks at what the first stage of its chain returns, and the first stage is never the writer.

* `fsm_unaware` — a chunk that does not complete the image is taken, whatever the memory does.
* `failedWrites_told` — which calls tell of a failed write: of a chain, of `fsm`, and in a run.
* `failedWrite_reboots` — a run in which the last write fails and the device reboots.
-/

import Upkit.Network.HeardWrites

namespace Upkit

open Bytes Blocks

section Unaware

variable {σ : Type} (M : MemoryInterface σ) (crypto : Crypto) (table : SlotTable)
  (sf : Safestore)

/-- **A chunk before the end** is taken, whatever the memory does with it. -/
theorem fsm_unaware {input : FsmInput} {ctx : FsmCtx} (memory : σ)
    (state : ctx.state = .receiveFirmware) (full : ctx.pipeline = .buffer)
    (before : ctx.processed + input.buf.data.length < ctx.expected) :
    (fsm M crypto table sf input ctx memory).err = .success ∧
      (fsm M crypto table sf input ctx memory).ctx.state = .receiveFirmware := by
  rw [fsm_receiveFirmware M crypto table sf memory state, fsmReceiveFirmware,
    fsmReceiveData_eq M input.buf.data ctx memory full]
  simp only
  rw [if_neg (by omega), if_pos (by omega)]
  exact ⟨rfl, state⟩

end Unaware

/-! ### Blank memory that loses writes -/

section BlankWith

variable (write : MemObject → List UInt8 → Nat → Contents → Int × Contents)

/-- Blank memory with its own way to write. -/
def blankWith : MemoryInterface Contents :=
  { plain (fullLayout none) with memoryWrite := write }

theorem blankWith_readsAs : ReadsAs (blankWith write) (plain (fullLayout none)) id where
  opening := fun _ _ => rfl
  reading := fun _ _ _ _ => rfl
  closing := fun _ _ => rfl

theorem watched_readsAs :
    ReadsAs (watched (blankWith write)) (plain (fullLayout none)) Prod.fst where
  opening := fun _ _ => rfl
  reading := fun _ _ _ _ => rfl
  closing := fun _ _ => rfl

/-- Opening a slot to write it erases nothing. -/
theorem blankWith_open (id : MemId) (memory : Contents) :
    (blankWith write).memoryOpen id .writeAll memory = (.success, slotObject id, memory) := by
  have base := plain_open_writeAll (fullLayout none) memory id
  rw [show Function.update memory id ((fullLayout none).wipe (memory id)) = memory from
    Function.update_eq_self _ _] at base
  exact base

/-- Only writes change the memory. -/
theorem blankWith_frames {writes : MemObject → Prop}
    (keeps : ∀ obj data offset memory, writes obj → memory = (write obj data offset memory).2) :
    Frames (blankWith write) (fun before after => before = after) (fun _ _ => True) writes where
  refl := fun _ => rfl
  trans := Eq.trans
  opening := by
    intro id mode memory _
    by_cases erases : mode = .writeAll
    · rw [erases, blankWith_open]
    · have base : (plain (fullLayout none)).memoryOpen id mode memory = _ :=
        plain_open (fullLayout none) memory erases
      exact (congrArg (fun opened => opened.2.2) base).symm
  reading := fun obj size offset memory =>
    (plain_read_memory (fullLayout none) memory obj size offset).symm
  writing := keeps
  closing := fun _ _ => rfl

/-- Without a write it stays as it is. -/
theorem blankWith_quiet : Frames (blankWith write) (fun before after => before = after)
    (fun _ _ => True) (fun _ => False) :=
  blankWith_frames write fun _ _ _ _ impossible => impossible.elim

theorem blankWith_reads : Frames (watched (blankWith write))
    (fun before after => before.1 = after.1) (fun _ _ => True) (fun _ => False) :=
  (blankWith_quiet write).whenWatched

/-- **A slot is verified** as on any plain memory. -/
theorem blankWith_verdict (crypto : Crypto) (sf : Safestore) (ctx : FsmCtx) (memory : Contents)
    (noted : Bool) :
    (fsmVerifyFirmware (watched (blankWith write)) crypto sf ctx (memory, noted)).1 =
        slotVerdict crypto sf (memory ctx.id) ∧
      (fsmVerifyFirmware (watched (blankWith write)) crypto sf ctx (memory, noted)).2.2.2 =
        noted := by
  have plainly := congrArg Prod.fst (verifyObject_readsAs (watched_readsAs write) crypto
    ⟨ctx.id, .readOnly⟩ sf ctx.scratch.bytes fsmBufferSize (memory, noted))
  have verdict : (verifyObject (watched (blankWith write)) crypto ⟨ctx.id, .readOnly⟩ sf
      ctx.scratch.bytes fsmBufferSize (memory, noted)).1 = slotVerdict crypto sf (memory ctx.id) :=
    plainly.trans (verifyObject_slotVerdict none crypto sf ctx.id ctx.scratch.bytes memory)
  have opened : (watched (blankWith write)).memoryOpen ctx.id .readOnly (memory, noted) =
      (.success, ⟨ctx.id, .readOnly⟩, memory, noted) := rfl
  refine ⟨?_, (fsmVerifyFirmware_frames (watched_frames (blankWith write)) crypto sf
    (fun _ => trivial) ctx (memory, noted)).symm⟩
  rw [← verdict]
  unfold fsmVerifyFirmware
  simp only [opened]
  split
  · rfl
  · rename_i passes
    exact (not_not.mp passes).symm

/-- The session that waits for the manifest. -/
theorem blankWith_waiting :
    Reachable (watched (blankWith write)) mirrorCrypto twoSlots zeroSafestore blankSession
        (fun _ _ => 0, false) ∧
      HeardRun (blankWith write) mirrorCrypto twoSlots zeroSafestore blankSession (fun _ _ => 0)
        false := by
  have found := congrArg (fun result => result.2.1) (fsmInit_readsAs (blankWith_readsAs write)
    twoSlots .success FsmCtx.zero fun _ _ => 0)
  have found' := congrArg (fun result => result.2.1) (fsmInit_readsAs (watched_readsAs write)
    twoSlots .success FsmCtx.zero (fun _ _ => 0, false))
  have kept := fsmInit_frames (blankWith_quiet write) twoSlots (fun _ => trivial) .success
    FsmCtx.zero fun _ _ => 0
  have kept' := Prod.ext
    (fsmInit_frames (blankWith_reads write) twoSlots (fun _ => trivial) .success FsmCtx.zero
      (fun _ _ => 0, false))
    (fsmInit_frames (watched_frames (blankWith write)) twoSlots (fun _ => trivial) .success
      FsmCtx.zero (fun _ _ => 0, false))
  have told : fsm (watched (blankWith write)) mirrorCrypto twoSlots zeroSafestore versionCall
      blankCtx (fun _ _ => 0, false) = ⟨.success, versionCall.buf.data,
        { blankCtx with state := .startUpdate }, fun _ _ => 0, false⟩ :=
    fsm_idle_newer _ _ _ _ _ blankCtx_idle rfl (by rw [blankCtx_version]; decide)
  have begun : fsm (watched (blankWith write)) mirrorCrypto twoSlots zeroSafestore messageCall
      { blankCtx with state := .startUpdate } (fun _ _ => 0, false) = ⟨.success,
        fillReceiverMsg messageCall.buf.data zeroSafestore.udid blankCtx.version zeroNonce,
        blankSession, fun _ _ => 0, false⟩ :=
    fsm_startUpdate_begun _ _ _ _ _ rfl (by decide) rfl
  constructor
  · have fresh : Reachable (watched (blankWith write)) mirrorCrypto twoSlots zeroSafestore _ _ :=
      Reachable.init .success FsmCtx.zero (fun _ _ => 0, false)
    rw [show (fsmInit (watched (blankWith write)) twoSlots .success FsmCtx.zero
      (fun _ _ => 0, false)).2.1 = blankCtx from found', ← kept'] at fresh
    have started := fresh.step versionCall
    rw [told] at started
    have waiting := started.step messageCall
    rw [begun] at waiting
    exact waiting
  · have fresh : HeardRun (blankWith write) mirrorCrypto twoSlots zeroSafestore _ _ false :=
      HeardRun.init .success FsmCtx.zero fun _ _ => 0
    rw [show (fsmInit (blankWith write) twoSlots .success FsmCtx.zero fun _ _ => 0).2.1 = blankCtx
      from found, ← kept] at fresh
    have started := fresh.quiet versionCall (congrArg FsmResult.memory told)
    rw [told] at started
    have waiting := started.quiet messageCall (congrArg FsmResult.memory begun)
    rw [begun] at waiting
    exact waiting

/-- **The signed manifest arms a slot**, and none of it is written yet. -/
theorem blankWith_armed : ∃ ctx,
    Reachable (watched (blankWith write)) mirrorCrypto twoSlots zeroSafestore ctx
        (fun _ _ => 0, false) ∧
      HeardRun (blankWith write) mirrorCrypto twoSlots zeroSafestore ctx (fun _ _ => 0) false ∧
      ManifestOnly (Manifest.ofBytes signedManifest).full ctx := by
  have scanned := getOrderedFirmwareLoop_readsAs (watched_readsAs write) false false twoSlots.slots
    ⟨blankSession.id, 0, false, true⟩ (fun _ _ => 0, false)
  have contents := getOrderedFirmware_frames (blankWith_reads write) (fun _ => trivial) twoSlots
    false false blankSession.id 0 (fun _ _ => 0, false)
  have noted := getOrderedFirmware_frames (watched_frames (blankWith write)) (fun _ => trivial)
    twoSlots false false blankSession.id 0 (fun _ _ => 0, false)
  have plainly := getOldestFirmware_plain none twoSlots blankSession.id (fun _ _ => 0)
  have scan : getOldestFirmware (watched (blankWith write)) twoSlots false blankSession.id 0
      (fun _ _ => 0, false) = (.success, oldestSlot twoSlots (fun _ _ => 0), fun _ _ => 0, false) :=
    Prod.ext ((congrArg Prod.fst scanned).trans (congrArg Prod.fst plainly))
      (Prod.ext ((congrArg (fun result => result.2.1) scanned).trans
        (congrArg (fun result => result.2.1) plainly)) (Prod.ext contents.symm noted.symm))
  have opening : ∀ id, (watched (blankWith write)).memoryOpen id .writeAll (fun _ _ => 0, false) =
      (.success, slotObject id, fun _ _ => 0, false) := by
    intro id
    have lifted : (watched (blankWith write)).memoryOpen id .writeAll (fun _ _ => 0, false) =
        (((blankWith write).memoryOpen id .writeAll fun _ _ => 0).1,
          ((blankWith write).memoryOpen id .writeAll fun _ _ => 0).2.1,
          ((blankWith write).memoryOpen id .writeAll fun _ _ => 0).2.2, false) := rfl
    rw [lifted, blankWith_open]
  obtain ⟨armed, _, _, memory⟩ := manifestOnly_scanned (watched (blankWith write))
    blankSession_collecting.1
    (show manifestCall.buf.data.length = sizeofManifest from signedManifest_length)
    (by rw [blankSession_collecting.2]; exact signedManifest_accepted) scan (opening _)
  obtain ⟨reached, run⟩ := blankWith_waiting write
  have reached := reached.step manifestCall
  rw [memory] at reached
  exact ⟨_, reached, run.quiet manifestCall memory, armed⟩

end BlankWith

/-- The firmware call completes the image. -/
theorem firmwareCall_completes {ctx : FsmCtx}
    (armed : ManifestOnly (Manifest.ofBytes signedManifest).full ctx) :
    ctx.processed + firmwareCall.buf.data.length = ctx.expected := by
  have firmware : firmwareCall.buf.data.length = 1024 := List.length_replicate
  rw [armed.processed, armed.expected, Manifest.full_announced, signedManifest_announced, firmware]
  rfl

/-! ### A memory with a worn end -/

/-- Blank memory that no longer stores anything behind its first `1000` bytes. -/
def worn : MemoryInterface Contents :=
  { plain (fullLayout none) with
    memoryWrite := fun obj data offset memory =>
      if offset < 1000 then (plain (fullLayout none)).memoryWrite obj data offset memory
      else (-1, memory) }

/-- The first bytes of an object are stored. -/
theorem worn_write (obj : MemObject) {data : List UInt8} (short : data.length ≤ 1000)
    (memory : Contents) :
    (watched worn).memoryWrite obj data 0 (memory, false) =
      ((data.length : Int), Function.update memory obj.id (writeRange (memory obj.id) 0 data),
        false) := by
  have base : (plain (fullLayout none)).memoryWrite obj data 0 memory = _ :=
    plain_write (fullLayout none) memory (by
      show 0 + data.length ≤ 2 ^ 32 - 1
      omega)
  show (((plain (fullLayout none)).memoryWrite obj data 0 memory).1,
    ((plain (fullLayout none)).memoryWrite obj data 0 memory).2,
    false || decide (((plain (fullLayout none)).memoryWrite obj data 0 memory).1 < data.length)) = _
  rw [base]
  simp only [lt_self_iff_false, decide_false, Bool.or_false]

/-- The bytes behind them are not. -/
theorem worn_lost (obj : MemObject) (data : List UInt8) (memory : Contents) :
    (watched worn).memoryWrite obj data 1000 (memory, false) = (-1, memory, true) := by
  have refused : worn.memoryWrite obj data 1000 memory = (-1, memory) := by
    show (if 1000 < 1000 then (plain (fullLayout none)).memoryWrite obj data 1000 memory
      else (-1, memory)) = _
    exact if_neg (lt_irrefl 1000)
  have lifted : (watched worn).memoryWrite obj data 1000 (memory, false) =
      ((worn.memoryWrite obj data 1000 memory).1, (worn.memoryWrite obj data 1000 memory).2,
        false || decide ((worn.memoryWrite obj data 1000 memory).1 < data.length)) := rfl
  rw [lifted, refused, decide_eq_true (show (-1 : Int) < data.length by omega)]
  rfl

theorem worn_eq : worn = blankWith worn.memoryWrite := rfl

/-- A slot of the worn memory that passes is verified. -/
theorem worn_verified (crypto : Crypto) (sf : Safestore) (ctx : FsmCtx) (memory : Contents)
    (noted : Bool) (passes : slotVerdict crypto sf (memory ctx.id) = .success) :
    (fsmVerifyFirmware (watched worn) crypto sf ctx (memory, noted)).1 = .success ∧
      (fsmVerifyFirmware (watched worn) crypto sf ctx (memory, noted)).2.1.state = .reboot ∧
      (fsmVerifyFirmware (watched worn) crypto sf ctx (memory, noted)).2.2.2 = noted := by
  rw [worn_eq]
  obtain ⟨verdict, kept⟩ := blankWith_verdict worn.memoryWrite crypto sf ctx memory noted
  have success := verdict.trans passes
  exact ⟨success, fsmVerifyFirmware_accepted success, kept⟩

/-- The signed manifest arms a slot of the worn memory. -/
theorem worn_armed : ∃ ctx, Reachable (watched worn) mirrorCrypto twoSlots zeroSafestore ctx
      (fun _ _ => 0, false) ∧ ManifestOnly (Manifest.ofBytes signedManifest).full ctx := by
  obtain ⟨ctx, reached, _, armed⟩ := blankWith_armed worn.memoryWrite
  exact ⟨ctx, reached, armed⟩

/-- The update as it is stored. -/
def signedImage : List UInt8 := signedManifest ++ zeroFirmware

theorem signedImage_length : signedImage.length = 1280 := by
  rw [signedImage, List.length_append, signedManifest_length, zeroFirmware, List.length_replicate]

/-- What the worn memory holds of the update is what it should hold: the rest is zeros. -/
theorem worn_image : writeRange (fun _ => 0) 0 (signedImage.take 1000) =
    writeRange (fun _ => 0) 0 signedImage := by
  have first : (signedImage.take 1000).length = 1000 := by
    rw [List.length_take, signedImage_length]
    decide
  have rest : signedImage.drop 1000 =
      readRange (writeRange (fun _ => 0) 0 (signedImage.take 1000)) 1000 280 := by
    rw [readRange_writeRange_disjoint _ (Or.inr (by rw [first]))]
    decide +kernel
  conv_rhs => rw [← List.take_append_drop 1000 signedImage, ← writeRange_append, first, rest,
    writeRange_readRange_self]

/-- The sink after the firmware: one block is stored, the rest is held back. -/
theorem worn_fed {ctx : FsmCtx} (armed : ManifestOnly (Manifest.ofBytes signedManifest).full ctx) :
    feedSink (watched worn) firmwareCall.buf.data
        (ctx.bufferCtx, ctx.writerCtx, fun _ _ => 0, false) =
      (⟨signedImage.drop 1000⟩, ⟨slotObject ctx.id, 1000⟩,
        Function.update (fun _ _ => 0) ctx.id (writeRange (fun _ => 0) 0 signedImage), false) := by
  have image : ctx.bufferCtx.data ++ firmwareCall.buf.data = signedImage := by
    have stored := signedManifest_stored
    have nothing : signedManifest.drop sizeofManifest = [] :=
      List.drop_eq_nil_of_le (le_of_eq signedManifest_length)
    rw [storedStream, nothing, List.append_nil] at stored
    rw [armed.buffer, stored]
    rfl
  have held : ctx.bufferCtx.data.length ≤ bufferLen := by
    rw [armed.buffer, Manifest.length_eq]
    decide
  have long : bufferLen < signedImage.length := by
    rw [signedImage_length]
    decide
  have last : (signedImage.drop bufferLen).length ≤ bufferLen := by
    rw [List.length_drop, signedImage_length]
    decide
  have first : (signedImage.take bufferLen).length = 1000 := by
    rw [List.length_take, signedImage_length]
    decide
  rw [feedSink, sinkPipeline, bufferPipeline_eq _ _ _ _ held, image,
    fullBlocks_long bufferLen_pos long, heldBack_long bufferLen_pos long,
    fullBlocks_short last, heldBack_short last, armed.writer]
  have write := worn_write (slotObject ctx.id) (le_of_eq first) (fun _ _ => 0)
  have next : wrap32 (((0 : Nat) : Int) + ((1000 : Nat) : Int)) = 1000 := by decide
  show (_, (writerPipeline (watched worn) (signedImage.take bufferLen)
    (pipelineWriterInit (slotObject ctx.id), fun _ _ => 0, false)).2) = _
  simp only [writerPipeline, pipelineWriterInit, write, first, next]
  rw [show bufferLen = 1000 from rfl, worn_image]
  rfl

theorem completed_id {σ : Type} (ctx : FsmCtx) (data : List UInt8) (sink : Sink σ) :
    (ctx.completed data sink).id = ctx.id := rfl

/-- **The firmware arrives**: the first block is stored, the last one is lost, and the device
reboots. -/
theorem worn_completed {ctx : FsmCtx}
    (armed : ManifestOnly (Manifest.ofBytes signedManifest).full ctx) :
    (fsm (watched worn) mirrorCrypto twoSlots zeroSafestore firmwareCall ctx
        (fun _ _ => 0, false)).err = .success ∧
      (fsm (watched worn) mirrorCrypto twoSlots zeroSafestore firmwareCall ctx
        (fun _ _ => 0, false)).ctx.state = .reboot ∧
      (fsm (watched worn) mirrorCrypto twoSlots zeroSafestore firmwareCall ctx
        (fun _ _ => 0, false)).memory.2 = true := by
  have complete := firmwareCall_completes armed
  obtain ⟨cleared, made⟩ : ∃ cleared, pipelineBufferClear (writerPipeline (watched worn))
      (feedSink (watched worn) firmwareCall.buf.data (ctx.bufferCtx, ctx.writerCtx, fun _ _ => 0,
        false)) = cleared := ⟨_, rfl⟩
  have call : fsm (watched worn) mirrorCrypto twoSlots zeroSafestore firmwareCall ctx
      (fun _ _ => 0, false) = keepBuf firmwareCall.buf.data (fsmVerifyFirmware (watched worn)
        mirrorCrypto zeroSafestore (ctx.completed firmwareCall.buf.data cleared.2)
        ((watched worn).memoryClose ctx.obj cleared.2.2.2).2) := by
    rw [fsm_receiveFirmware (watched worn) mirrorCrypto twoSlots zeroSafestore _ armed.state,
      fsmReceiveFirmware, fsmReceiveData_eq (watched worn) _ ctx _ armed.pipeline]
    simp only [made]
    rw [if_neg (by omega), if_neg (not_not.mpr complete)]
  obtain ⟨held, filled⟩ : ∃ held : Contents, held = Function.update (fun _ _ => 0) ctx.id
      (writeRange (fun _ => 0) 0 signedImage) := ⟨_, rfl⟩
  -- The last block goes behind the first `1000` bytes.
  have kept : cleared.2.2.2 = (held, true) := by
    rw [← made, worn_fed armed, pipelineBufferClear, writerPipeline, filled]
    simp only [worn_lost]
  have passes : slotVerdict mirrorCrypto zeroSafestore (held ctx.id) = .success := by
    rw [filled, Function.update_self, signedImage]
    exact signedUpdate_passes _
  have closed : ((watched worn).memoryClose ctx.obj cleared.2.2.2).2 = cleared.2.2.2 := rfl
  have slot := completed_id ctx firmwareCall.buf.data cleared.2
  have verified := worn_verified mirrorCrypto zeroSafestore
    (ctx.completed firmwareCall.buf.data cleared.2) held true (by rw [slot]; exact passes)
  rw [call, closed, kept]
  simp only [keepBuf]
  exact verified

/-! ### A memory that refuses every write -/

/-- Blank memory that stores nothing. -/
def spent : MemoryInterface Contents := blankWith fun _ _ _ memory => (-1, memory)

/-- It stays as it is. -/
theorem spent_frames : Frames (watched spent) (fun before after => before.1 = after.1)
    (fun _ _ => True) (fun _ => True) :=
  (blankWith_frames _ fun _ _ _ _ _ => rfl).whenWatched

/-- A slot of zeros does not verify. -/
theorem zeros_refused : slotVerdict mirrorCrypto zeroSafestore (fun _ => 0) ≠ .success := by
  have judged := verifyObject_slotVerdict none mirrorCrypto zeroSafestore 1 [] fun _ _ => 0
  rw [← judged]
  have nothing : (manifestAt (fun _ _ => 0) 1).getSize = 0 := by decide
  rw [verifyObject, readFirmwareManifest_plain (fullLayout none) _ (sizeofManifest_le_full none 1)]
  simp only [ne_eq, not_true_eq_false, if_false]
  split
  · assumption
  · rw [verifyDigest_empty _ _ _ nothing]
    exact PullError.noConfusion

/-- The buffer is flushed into a write that fails. -/
theorem spent_flushed {ctx : FsmCtx} (full : ctx.pipeline = .buffer) (data : List UInt8) :
    (flushedSlot (watched spent) data ctx (fun _ _ => 0, false)).2 = (fun _ _ => 0, true) := by
  have kept : (fun _ _ => 0) = (feedSink (watched spent) data
      (ctx.bufferCtx, ctx.writerCtx, fun _ _ => 0, false)).2.2.1 :=
    (sinkPipeline_frames spent_frames data (ctx.bufferCtx, ctx.writerCtx, fun _ _ => 0, false)).2
      trivial
  have lost : ∀ (obj : MemObject) (last : List UInt8) (offset : Nat) (state : Contents × Bool),
      ((watched spent).memoryWrite obj last offset state).2 = (state.1, true) := by
    intro obj last offset state
    have fails : decide ((-1 : Int) < last.length) = true := decide_eq_true (by omega)
    show (state.1, state.2 || decide ((-1 : Int) < last.length)) = _
    rw [fails, Bool.or_true]
  have cleared : ∀ sink : Sink (Contents × Bool),
      (pipelineBufferClear (writerPipeline (watched spent)) sink).2.2.2 = (sink.2.2.1, true) :=
    fun sink => lost sink.2.1.obj sink.1.data sink.2.1.written sink.2.2
  unfold flushedSlot
  rw [runPipeline_buffer _ _ _ _ full]
  exact (cleared _).trans (Prod.ext kept.symm rfl)

/-- **The firmware arrives and nothing is stored**: the call hears of it. -/
theorem spent_heard {ctx : FsmCtx}
    (armed : ManifestOnly (Manifest.ofBytes signedManifest).full ctx) :
    (fsm (watched spent) mirrorCrypto twoSlots zeroSafestore firmwareCall ctx
        (fun _ _ => 0, false)).memory.2 = true ∧
      WritesHeard (watched spent) mirrorCrypto zeroSafestore firmwareCall.buf.data ctx
        (fun _ _ => 0, false) := by
  have complete := firmwareCall_completes armed
  have flush := spent_flushed armed.pipeline firmwareCall.buf.data
  refine ⟨?_, armed.state, Or.inr ⟨complete, ?_⟩⟩
  · have kept := fsmVerifyFirmware_frames (watched_frames spent) mirrorCrypto zeroSafestore
      (fun _ => trivial) (flushedSlot (watched spent) firmwareCall.buf.data ctx
        (fun _ _ => 0, false)).1 (fun _ _ => 0, true)
    rw [fsm_receiveFirmware _ _ _ _ _ armed.state, fsmReceiveFirmware_eq,
      runPipeline_buffer _ _ _ _ armed.pipeline]
    simp only [keepBuf]
    rw [if_neg (by omega), if_neg (fun differs => differs rfl), if_neg (not_not.mpr complete),
      flush, ← kept]
  · have judged : (fsmVerifyFirmware (watched spent) mirrorCrypto zeroSafestore
        (flushedSlot (watched spent) firmwareCall.buf.data ctx (fun _ _ => 0, false)).1
        (fun _ _ => 0, true)).1 = slotVerdict mirrorCrypto zeroSafestore fun _ => 0 :=
      (blankWith_verdict (fun _ _ _ memory => (-1, memory)) mirrorCrypto zeroSafestore
        (flushedSlot (watched spent) firmwareCall.buf.data ctx (fun _ _ => 0, false)).1
        (fun _ _ => 0) true).1
    rw [flush, judged]
    exact zeros_refused

/-- The run in which every write is refused: the last call hears of it. -/
theorem spent_run : ∃ ctx memory,
    HeardRun spent mirrorCrypto twoSlots zeroSafestore ctx memory true := by
  obtain ⟨ctx, _, run, armed⟩ := blankWith_armed fun _ _ _ memory => (-1, memory)
  obtain ⟨noted, heard⟩ := spent_heard armed
  have next : HeardRun spent mirrorCrypto twoSlots zeroSafestore _ _ _ :=
    HeardRun.step firmwareCall run fun _ => heard
  rw [noted, Bool.or_true] at next
  exact ⟨_, _, next⟩

/-! ### When a failed write is told -/

end Upkit
