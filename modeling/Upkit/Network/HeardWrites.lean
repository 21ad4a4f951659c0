/-
**When `fsm` hears of a failed write.**

A failed write reaches the caller of `fsm` on two ways only: the differential chain returns
something other than the length of the chunk, or the slot does not verify with what the writes and
the final flush have left in it. The manifest and the chain of a full image are written without a
look.

* `fsmReceiveFirmware_refused_iff` — what makes a chunk of firmware return an error.
* `fsm_unheard` — outside the firmware state a call in which a write fails returns success.
* `fsm_heard_iff` — a call in which a write fails returns an error exactly when it is heard
  (`WritesHeard`).
* `heardRun_ends` — in a run in which every failed write is heard, the session of a failed write is
  over.
-/

import Upkit.Network.Accesses
import Upkit.Pipeline.Reports

namespace Upkit

open Bytes

section WritesHeard

variable {σ : Type} (M : MemoryInterface σ) (crypto : Crypto) (table : SlotTable)
  (sf : Safestore)

/-- The firmware goes through the differential chain, and the chain reports. -/
def DifferentialReports (data : List UInt8) (ctx : FsmCtx) (memory : σ) : Prop :=
  ctx.pipeline = .lzss ∧ Reports M ctx.oldObj [.lzss, .bspatch, .buffer] data
    (ctx.lzssCtx, ctx.bspatchCtx, ctx.bufferCtx, ctx.writerCtx, memory)

/-- The context and the memory that the verification begins with: the chunk has gone through the
chain, the buffer has been flushed, and the slot is closed. -/
def flushedSlot (data : List UInt8) (ctx : FsmCtx) (memory : σ) : FsmCtx × σ :=
  let (_, ctx, memory) := runPipeline M data ctx memory
  let (_, bufferCtx, writerCtx, memory) :=
    pipelineBufferClear (writerPipeline M) (ctx.bufferCtx, ctx.writerCtx, memory)
  let (_, memory) := M.memoryClose ctx.obj memory
  ({ ctx with
    processed := ctx.processed + data.length
    bufferCtx := bufferCtx
    writerCtx := writerCtx
    state := .verifyFirmware }, memory)

/-- The chunk completes the image, and the slot does not verify as it has been left. -/
def SlotRefused (data : List UInt8) (ctx : FsmCtx) (memory : σ) : Prop :=
  ctx.processed + data.length = ctx.expected ∧
    (fsmVerifyFirmware M crypto sf (flushedSlot M data ctx memory).1
      (flushedSlot M data ctx memory).2).1 ≠ .success

/-- **A call hears of its writes**: it takes firmware, and the differential chain reports or the
slot does not verify. -/
def WritesHeard (data : List UInt8) (ctx : FsmCtx) (memory : σ) : Prop :=
  ctx.state = .receiveFirmware ∧
    (DifferentialReports M data ctx memory ∨ SlotRefused M crypto sf data ctx memory)

variable {M crypto sf}

/-- The chain of a full image takes every chunk; the differential chain refuses what it reports. -/
theorem runPipeline_refused_iff (data : List UInt8) (ctx : FsmCtx) (memory : σ) :
    (runPipeline M data ctx memory).1 ≠ data.length ↔ DifferentialReports M data ctx memory := by
  unfold DifferentialReports
  cases full : ctx.pipeline with
  | buffer =>
      rw [runPipeline_buffer M data ctx memory full]
      exact ⟨fun differs => absurd rfl differs, fun ⟨lzss, _⟩ => FsmPipeline.noConfusion lzss⟩
  | lzss =>
      have reports := chain_reports_iff M ctx.oldObj [.lzss, .bspatch, .buffer] data
        (ctx.lzssCtx, ctx.bspatchCtx, ctx.bufferCtx, ctx.writerCtx, memory)
      have runs : (runPipeline M data ctx memory).1 =
          (chainPipeline M ctx.oldObj [.lzss, .bspatch, .buffer] data
            (ctx.lzssCtx, ctx.bspatchCtx, ctx.bufferCtx, ctx.writerCtx, memory)).1 := by
        unfold runPipeline
        rw [full]
        rfl
      rw [runs, reports]
      exact ⟨fun reported => ⟨rfl, reported⟩, fun ⟨_, reported⟩ => reported⟩

/-- A chain leaves the counts alone. -/
theorem runPipeline_counts (data : List UInt8) (ctx : FsmCtx) (memory : σ) :
    (runPipeline M data ctx memory).2.1.processed = ctx.processed ∧
      (runPipeline M data ctx memory).2.1.expected = ctx.expected := by
  unfold runPipeline
  split
  · exact ⟨rfl, rfl⟩
  · exact ⟨rfl, rfl⟩

/-- **A chunk of firmware**, on either chain. -/
theorem fsmReceiveFirmware_eq (data : List UInt8) (ctx : FsmCtx) (memory : σ) :
    fsmReceiveFirmware M crypto sf data ctx memory =
      let run := runPipeline M data ctx memory
      if ctx.expected < ctx.processed + data.length then (.invalidSize, ctx.cleaned, memory)
      else if run.1 ≠ data.length then (.pipeline, run.2.1.cleaned, run.2.2)
      else if ctx.processed + data.length ≠ ctx.expected then
        (.success, { run.2.1 with processed := run.2.1.processed + data.length }, run.2.2)
      else fsmVerifyFirmware M crypto sf (flushedSlot M data ctx memory).1
        (flushedSlot M data ctx memory).2 := by
  obtain ⟨processed, expected⟩ := @runPipeline_counts σ M data ctx memory
  unfold fsmReceiveFirmware fsmReceiveData
  by_cases long : ctx.expected < ctx.processed + data.length
  · simp only [if_pos long]
  simp only [if_neg long]
  by_cases refused : (runPipeline M data ctx memory).1 ≠ data.length
  · simp only [if_pos refused]
  simp only [if_neg refused, processed, expected]
  by_cases more : ctx.processed + data.length ≠ ctx.expected
  · simp only [if_pos more]
  · simp only [if_neg more, flushedSlot, processed, expected]

/-- A verification that fails puts the machine back. -/
theorem fsmVerifyFirmware_refused {ctx : FsmCtx} {memory : σ}
    (refused : (fsmVerifyFirmware M crypto sf ctx memory).1 ≠ .success) :
    (fsmVerifyFirmware M crypto sf ctx memory).2.1.state = .idle := by
  unfold fsmVerifyFirmware at refused ⊢
  simp only at refused ⊢
  split
  · rfl
  · rename_i passes
    rw [if_neg passes] at refused
    exact absurd rfl refused

/-- A verification that succeeds reboots. -/
theorem fsmVerifyFirmware_accepted {ctx : FsmCtx} {memory : σ}
    (success : (fsmVerifyFirmware M crypto sf ctx memory).1 = .success) :
    (fsmVerifyFirmware M crypto sf ctx memory).2.1.state = .reboot := by
  unfold fsmVerifyFirmware at success ⊢
  simp only at success ⊢
  split
  · rename_i refused
    rw [if_pos refused] at success
    exact absurd success refused
  · rfl

/-- **A chunk of firmware that fits** is refused when the differential chain reports or the slot
does not verify. -/
theorem fsmReceiveFirmware_refused_iff {data : List UInt8} {ctx : FsmCtx} {memory : σ}
    (fits : ctx.processed + data.length ≤ ctx.expected) :
    (fsmReceiveFirmware M crypto sf data ctx memory).1 ≠ .success ↔
      DifferentialReports M data ctx memory ∨ SlotRefused M crypto sf data ctx memory := by
  have reports := @runPipeline_refused_iff σ M data ctx memory
  rw [fsmReceiveFirmware_eq, SlotRefused, ← reports]
  simp only
  rw [if_neg (not_lt.mpr fits)]
  by_cases refused : (runPipeline M data ctx memory).1 ≠ data.length
  · rw [if_pos refused]
    exact ⟨fun _ => Or.inl refused, fun _ => PullError.noConfusion⟩
  rw [if_neg refused]
  by_cases more : ctx.processed + data.length ≠ ctx.expected
  · rw [if_pos more]
    refine ⟨fun failed => absurd rfl failed, ?_⟩
    rintro (reported | ⟨complete, _⟩)
    · exact absurd reported refused
    · exact absurd complete more
  · rw [if_neg more]
    refine ⟨fun failed => Or.inr ⟨not_not.mp more, failed⟩, ?_⟩
    rintro (reported | ⟨_, failed⟩)
    · exact absurd reported refused
    · exact failed

/-- A chunk that is refused puts the machine back. -/
theorem fsmReceiveFirmware_over {data : List UInt8} {ctx : FsmCtx} {memory : σ}
    (refused : (fsmReceiveFirmware M crypto sf data ctx memory).1 ≠ .success) :
    (fsmReceiveFirmware M crypto sf data ctx memory).2.1.state = .clean ∨
      (fsmReceiveFirmware M crypto sf data ctx memory).2.1.state = .idle := by
  rw [fsmReceiveFirmware_eq] at refused ⊢
  simp only at refused ⊢
  by_cases long : ctx.expected < ctx.processed + data.length
  · rw [if_pos long]
    exact Or.inl rfl
  rw [if_neg long] at refused ⊢
  by_cases reported : (runPipeline M data ctx memory).1 ≠ data.length
  · rw [if_pos reported]
    exact Or.inl rfl
  rw [if_neg reported] at refused ⊢
  by_cases more : ctx.processed + data.length ≠ ctx.expected
  · rw [if_pos more] at refused
    exact absurd rfl refused
  · rw [if_neg more] at refused ⊢
    exact Or.inr (fsmVerifyFirmware_refused refused)

end WritesHeard

/-! ### Calls in which a write fails -/

section Calls

variable {σ : Type} (M : MemoryInterface σ) (crypto : Crypto) (table : SlotTable)
  (sf : Safestore)

/-- Only writes are noted. -/
theorem watched_frames : Frames (watched M) (fun before after => before.2 = after.2)
    (fun _ _ => True) (fun _ => False) where
  refl := fun _ => rfl
  trans := Eq.trans
  opening := fun _ _ _ _ => rfl
  reading := fun _ _ _ _ => rfl
  writing := fun _ _ _ _ impossible => impossible.elim
  closing := fun _ _ => rfl

/-- What a memory keeps, it keeps when it is watched. -/
theorem Frames.whenWatched {M : MemoryInterface σ} {R : σ → σ → Prop}
    {opens : MemId → MemMode → Prop} {writes : MemObject → Prop}
    (frames : Frames M R opens writes) :
    Frames (watched M) (fun before after => R before.1 after.1) opens writes where
  refl := fun state => frames.refl state.1
  trans := fun first second => frames.trans first second
  opening := fun id mode state allowed => frames.opening id mode state.1 allowed
  reading := fun obj size offset state => frames.reading obj size offset state.1
  writing := fun obj data offset state allowed => frames.writing obj data offset state.1 allowed
  closing := fun obj state => frames.closing obj state.1

/-- **A slot is armed** whatever the writes of the manifest do. -/
theorem fsmVerifyManifest_unheard (rest : List UInt8) (ctx : FsmCtx) (memory : σ)
    (noted :
      (fsmVerifyManifest (watched M) crypto table sf rest ctx (memory, false)).2.2.2 = true) :
    (fsmVerifyManifest (watched M) crypto table sf rest ctx (memory, false)).1 = .success := by
  by_cases accepted : Accepted crypto sf ctx.version ctx.scratch.mt
  · have scanned : false = (getOldestFirmware (watched M) table false ctx.configured.id 0
        (memory, false)).2.2.2 :=
      getOrderedFirmware_frames (watched_frames M) (fun _ => trivial) table false false
        ctx.configured.id 0 (memory, false)
    rw [fsmVerifyManifest_accepted (watched M) table accepted,
      fsmArm_eq (watched M) table rest ctx.configured (memory, false) rfl] at noted ⊢
    simp only at noted ⊢
    split at noted
    · exact absurd (scanned.trans noted) Bool.false_ne_true
    · rename_i found
      rw [if_neg found]
      split at noted
      · exact absurd (scanned.trans noted) Bool.false_ne_true
      · rename_i opened
        rw [if_neg opened]
  · rw [fsmVerifyManifest_refused (watched M) table accepted] at noted
    exact absurd noted Bool.false_ne_true

/-- **Outside the firmware state** a call in which a write fails returns success. -/
theorem fsm_unheard {input : FsmInput} {ctx : FsmCtx} {memory : σ}
    (other : ctx.state ≠ .receiveFirmware)
    (noted : (fsm (watched M) crypto table sf input ctx (memory, false)).memory.2 = true) :
    (fsm (watched M) crypto table sf input ctx (memory, false)).err = .success := by
  have early : ¬ (ctx.state = .clean ∨ ctx.state = .idle ∨ ctx.state = .startUpdate) := by
    intro early
    rw [(fsm_early (watched M) crypto table sf input (memory, false) early).1] at noted
    exact absurd noted Bool.false_ne_true
  cases state : ctx.state with
  | clean => exact absurd (Or.inl state) early
  | idle => exact absurd (Or.inr (Or.inl state)) early
  | startUpdate => exact absurd (Or.inr (Or.inr state)) early
  | receiveManifest =>
      rw [fsm_manifestState (watched M) crypto table sf (memory, false) state] at noted ⊢
      simp only [keepBuf] at noted ⊢
      split at noted
      · exact absurd noted Bool.false_ne_true
      · rename_i room
        rw [if_neg room]
        split at noted
        · exact absurd noted Bool.false_ne_true
        · rename_i enough
          rw [if_neg enough]
          exact fsmVerifyManifest_unheard M crypto table sf _ _ memory noted
  | verifyManifest =>
      have call : fsm (watched M) crypto table sf input ctx (memory, false) =
          keepBuf input.buf.data
            (fsmVerifyManifest (watched M) crypto table sf input.buf.data ctx (memory, false)) := by
        unfold fsm
        rw [state]
      rw [call] at noted ⊢
      exact fsmVerifyManifest_unheard M crypto table sf _ _ memory noted
  | receiveFirmware => exact absurd state other
  | verifyFirmware =>
      have call : fsm (watched M) crypto table sf input ctx (memory, false) =
          keepBuf input.buf.data
            (fsmVerifyFirmware (watched M) crypto sf ctx (memory, false)) := by
        unfold fsm
        rw [state]
      have kept : false = (fsmVerifyFirmware (watched M) crypto sf ctx (memory, false)).2.2.2 :=
        fsmVerifyFirmware_frames (watched_frames M) crypto sf (fun _ => trivial) ctx (memory, false)
      rw [call] at noted
      exact absurd (kept.trans noted) Bool.false_ne_true
  | reboot => rw [fsm_reboot (watched M) crypto table sf input (memory, false) state]

/-- A chunk during which a write fails fits. -/
theorem fsmReceiveFirmware_noted {data : List UInt8} {ctx : FsmCtx} {memory : σ}
    (noted : (fsmReceiveFirmware (watched M) crypto sf data ctx (memory, false)).2.2.2 = true) :
    ctx.processed + data.length ≤ ctx.expected := by
  by_contra long
  rw [fsmReceiveFirmware_eq] at noted
  simp only at noted
  rw [if_pos (not_le.mp long)] at noted
  exact absurd noted Bool.false_ne_true

/-- **When a call returns an error for a failed write**: exactly if it is heard. -/
theorem fsm_refused_iff {input : FsmInput} {ctx : FsmCtx} {memory : σ}
    (noted : (fsm (watched M) crypto table sf input ctx (memory, false)).memory.2 = true) :
    (fsm (watched M) crypto table sf input ctx (memory, false)).err ≠ .success ↔
      WritesHeard (watched M) crypto sf input.buf.data ctx (memory, false) := by
  by_cases state : ctx.state = .receiveFirmware
  · rw [fsm_receiveFirmware (watched M) crypto table sf (memory, false) state] at noted ⊢
    have fits := fsmReceiveFirmware_noted M crypto sf noted
    exact (fsmReceiveFirmware_refused_iff fits).trans
      ⟨fun told => ⟨state, told⟩, fun heard => heard.2⟩
  · have success := fsm_unheard M crypto table sf state noted
    exact ⟨fun failed => absurd success failed, fun heard => absurd heard.1 state⟩

/-- A call that hears of a failed write puts the machine back. -/
theorem fsm_heard_over {input : FsmInput} {ctx : FsmCtx} {memory : σ}
    (noted : (fsm (watched M) crypto table sf input ctx (memory, false)).memory.2 = true)
    (heard : WritesHeard (watched M) crypto sf input.buf.data ctx (memory, false)) :
    (fsm (watched M) crypto table sf input ctx (memory, false)).ctx.state = .clean ∨
      (fsm (watched M) crypto table sf input ctx (memory, false)).ctx.state = .idle := by
  have refused := (fsm_refused_iff M crypto table sf noted).mpr heard
  rw [fsm_receiveFirmware (watched M) crypto table sf (memory, false) heard.1] at refused ⊢
  exact fsmReceiveFirmware_over refused

/-- **A call of `fsm`** returns an error for a failed write, and does not reboot, exactly if it is
heard. -/
theorem fsm_heard_iff (input : FsmInput) (ctx : FsmCtx) (memory : σ) :
    ((fsm (watched M) crypto table sf input ctx (memory, false)).memory.2 = true →
        (fsm (watched M) crypto table sf input ctx (memory, false)).err ≠ .success ∧
          (fsm (watched M) crypto table sf input ctx (memory, false)).ctx.state ≠ .reboot) ↔
      ((fsm (watched M) crypto table sf input ctx (memory, false)).memory.2 = true →
        WritesHeard (watched M) crypto sf input.buf.data ctx (memory, false)) := by
  refine forall_congr' fun noted => ⟨fun told => ?_, fun heard => ?_⟩
  · exact (fsm_refused_iff M crypto table sf noted).mp told.1
  · refine ⟨(fsm_refused_iff M crypto table sf noted).mpr heard, fun reboot => ?_⟩
    rcases fsm_heard_over M crypto table sf noted heard with clean | idle
    · exact FsmState.noConfusion (clean.symm.trans reboot)
    · exact FsmState.noConfusion (idle.symm.trans reboot)

/-! ### Runs -/

/-- The runs in which every call with a failed write is heard. The flag says that a write has failed
since the last call that began in `STATE_CLEAN` or `STATE_IDLE`, where sessions begin. -/
inductive HeardRun : FsmCtx → σ → Bool → Prop
  | init (rngInit : PullError) (ctx : FsmCtx) (memory : σ) :
      HeardRun (fsmInit M table rngInit ctx memory).2.1 (fsmInit M table rngInit ctx memory).2.2
        false
  | step (input : FsmInput) {ctx : FsmCtx} {memory : σ} {failed : Bool} :
      HeardRun ctx memory failed →
      ((fsm (watched M) crypto table sf input ctx (memory, false)).memory.2 = true →
        WritesHeard (watched M) crypto sf input.buf.data ctx (memory, false)) →
      HeardRun (fsm (watched M) crypto table sf input ctx (memory, false)).ctx
        (fsm (watched M) crypto table sf input ctx (memory, false)).memory.1
        (failed && decide (ctx.state ≠ .clean ∧ ctx.state ≠ .idle) ||
          (fsm (watched M) crypto table sf input ctx (memory, false)).memory.2)

variable {M crypto table sf}

/-- A call that notes no write keeps a run free of failures. -/
theorem HeardRun.quiet {ctx : FsmCtx} {memory after : σ}
    (run : HeardRun M crypto table sf ctx memory false) (input : FsmInput)
    (kept : (fsm (watched M) crypto table sf input ctx (memory, false)).memory = (after, false)) :
    HeardRun M crypto table sf (fsm (watched M) crypto table sf input ctx (memory, false)).ctx after
      false := by
  have next := run.step input fun noted => by
    rw [kept] at noted
    exact absurd noted Bool.false_ne_true
  rw [kept, Bool.false_and, Bool.or_false] at next
  exact next

/-- **The session of a failed write is over** in a run in which every failed write is heard. -/
theorem heardRun_ends {ctx : FsmCtx} {memory : σ} {failed : Bool}
    (run : HeardRun M crypto table sf ctx memory failed) (some : failed = true) :
    ctx.state = .clean ∨ ctx.state = .idle := by
  induction run with
  | init rngInit ctx memory => exact absurd some Bool.false_ne_true
  | @step input ctx memory failed _ hears ih =>
      rcases (Bool.or_eq_true _ _).mp some with earlier | noted
      · -- The session of the earlier failure was over before the call.
        obtain ⟨before, going⟩ := (Bool.and_eq_true _ _).mp earlier
        obtain ⟨notClean, notIdle⟩ := of_decide_eq_true going
        rcases ih before with clean | idle
        · exact absurd clean notClean
        · exact absurd idle notIdle
      · exact fsm_heard_over M crypto table sf noted (hears noted)

end Calls

end Upkit
