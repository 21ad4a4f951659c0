/-
**A differential update, from the host to the slot.**

`firmware_tool` compares two images and compresses the patch; the device takes the code apart with
the LZSS stage, hands each byte to the patch stage, and that one hands the bytes of the new image to
the buffer stage and the writer.

* `tracks_bspatch` — byte by byte, over any patch without an error, the patch stage is known from
  the bytes it has taken.
* `sink_supports` — the sink below it, with the old object beside it.
* `differential_roundTrip` — the whole chain, in any chunks and after any other session.
-/

import Upkit.Tool.Bsdiff
import Upkit.Tool.Compress

namespace Upkit

open Bytes

/-! ### The patch stage, byte by byte -/

section Bytewise

variable {ν : Type} {next : Stage ν} {readOld : Nat → ν → Int × List UInt8 × ν}

/-- The context of the stage, where the machine stands. -/
def BspatchCtx.Stands (ctx : BspatchCtx) : PatchNext → Prop
  | .wait state => ctx.Standing state
  | .finished => ctx.finish = true
  | .failed _ => False

theorem bspatchPipeline_idle {ctx : BspatchCtx} (ended : ctx.finish = true) (chunk : List UInt8)
    (below : ν) : bspatchPipeline next readOld chunk (ctx, below) = (0, ctx, below) := by
  simp only [bspatchPipeline, ended, if_true]

/-- One byte after others, when the machine does not fail on them. -/
theorem bspatchPipeline_byte {ctx : BspatchCtx} {before : PatchNext} (stands : ctx.Stands before)
    (byte : UInt8) (rest : List UInt8) (below : ν)
    (never : ∀ ret, (patchFrom next readOld before (byte :: rest) below).1 ≠ .failed ret) :
    0 ≤ (bspatchPipeline next readOld [byte] (ctx, below)).1 ∧
      ∃ after, (bspatchPipeline next readOld [byte] (ctx, below)).2.1.Stands after ∧
        (patchFrom next readOld after rest
            (bspatchPipeline next readOld [byte] (ctx, below)).2.2).1 =
          (patchFrom next readOld before (byte :: rest) below).1 ∧
        (patchFrom next readOld after rest
            (bspatchPipeline next readOld [byte] (ctx, below)).2.2).2.2 =
          (patchFrom next readOld before (byte :: rest) below).2.2 := by
  cases before with
  | failed ret => exact stands.elim
  | finished =>
      rw [bspatchPipeline_idle stands]
      exact ⟨le_rfl, .finished, stands, rfl, rfl⟩
  | wait state =>
      have whole := patchBytes_cons next readOld byte rest state below
      have single := patchBytes_cons next readOld byte [] state below
      obtain ⟨returned, same⟩ := bspatchPipeline_refines next readOld [byte] stands below
      simp only [patchFrom] at never ⊢
      rw [whole] at never ⊢
      rw [single] at returned same
      generalize bspatchPipeline next readOld [byte] (ctx, below) = call at returned same ⊢
      generalize patchByte next readOld byte state below = step at returned same never ⊢
      obtain ⟨ret, ctx, below⟩ := call
      obtain ⟨after, below'⟩ := step
      cases after with
      | wait state =>
          obtain ⟨rfl, standing⟩ := returned
          obtain rfl : below = below' := same
          exact ⟨Int.natCast_nonneg 1, .wait state, standing, rfl, rfl⟩
      | finished =>
          obtain ⟨rfl, ended⟩ := returned
          obtain rfl : below = below' := same
          exact ⟨Int.natCast_nonneg 1, .finished, ended, rfl, rfl⟩
      | failed ret => exact absurd rfl (never ret)

/-- The bytes of a patch handed to the stage one by one. -/
theorem handDown_bspatch (taken rest : List UInt8) {ctx : BspatchCtx} {before : PatchNext}
    (stands : ctx.Stands before) (below : ν)
    (never : ∀ ret, (patchFrom next readOld before (taken ++ rest) below).1 ≠ .failed ret) :
    ∃ after, (handDown (bspatchPipeline next readOld) (taken.map ([·])) (ctx, below)).1.Stands
        after ∧
      (patchFrom next readOld after rest
          (handDown (bspatchPipeline next readOld) (taken.map ([·])) (ctx, below)).2).1 =
        (patchFrom next readOld before (taken ++ rest) below).1 ∧
      (patchFrom next readOld after rest
          (handDown (bspatchPipeline next readOld) (taken.map ([·])) (ctx, below)).2).2.2 =
        (patchFrom next readOld before (taken ++ rest) below).2.2 := by
  induction taken generalizing ctx before below with
  | nil => exact ⟨before, stands, rfl, rfl⟩
  | cons byte taken ih =>
      obtain ⟨-, after, stands', ended, state⟩ :=
        bspatchPipeline_byte stands byte (taken ++ rest) below never
      rw [List.cons_append] at never ⊢
      rw [List.map_cons, handDown_cons, ← ended, ← state]
      exact ih stands' _ (fun ret => by rw [ended]; exact never ret)

/-- **Byte by byte** the stage takes a patch on which the machine does not fail. -/
theorem tracks_bspatch (ctx : BspatchCtx) (below : ν) {patch : List UInt8}
    (never : ∀ ret, (patchBytes next readOld patch (.header []) below).1 ≠ .failed ret) :
    Tracks (bspatchPipeline next readOld)
      (fun taken =>
        handDown (bspatchPipeline next readOld) (taken.map ([·])) (pipelineBspatchInit ctx, below))
      (· <+: patch) where
  shorter := fun longer => (List.prefix_append _ _).trans longer
  takes := by
    rintro taken byte ⟨rest, rfl⟩
    have stands : (pipelineBspatchInit ctx).Stands (.wait (.header [])) :=
      pipelineBspatchInit_standing ctx
    rw [List.append_assoc] at never
    obtain ⟨after, stands', ended, -⟩ := handDown_bspatch taken ([byte] ++ rest) stands below never
    exact (bspatchPipeline_byte stands' byte rest _
      fun ret failed => never ret (ended.symm.trans failed)).1
  after := by
    intro taken byte _
    rw [List.map_append, handDown, handDown, List.foldl_append]
    rfl

/-- A patch that the machine takes to its end leaves the stage finished. -/
theorem handDown_bspatch_finished (ctx : BspatchCtx) {below after : ν} {patch left : List UInt8}
    (run : patchBytes next readOld patch (.header []) below = (.finished, left, after)) :
    (handDown (bspatchPipeline next readOld) (patch.map ([·]))
        (pipelineBspatchInit ctx, below)).1.finish = true ∧
      (handDown (bspatchPipeline next readOld) (patch.map ([·]))
        (pipelineBspatchInit ctx, below)).2 = after := by
  have stands : (pipelineBspatchInit ctx).Stands (.wait (.header [])) :=
    pipelineBspatchInit_standing ctx
  have whole : patchFrom next readOld (.wait (.header [])) (patch ++ []) below =
      (.finished, left, after) := by
    rw [List.append_nil]
    exact run
  obtain ⟨machine, stands', ended, state⟩ := handDown_bspatch patch [] stands below
    (fun ret => by rw [whole]; exact fun never => PatchNext.noConfusion never)
  rw [whole] at ended state
  cases machine with
  | wait state => exact PatchNext.noConfusion ended
  | finished => exact ⟨stands', state⟩
  | failed ret => exact stands'.elim

end Bytewise

/-! ### The sink and the old object -/

section Chain

variable (layout : PlainLayout) {old new : List UInt8} {oldObj dst : MemObject} {memory : Contents}

/-- Below the patch stage stand the sink and the old object, which no write reaches. -/
theorem sink_supports (apart : oldObj.id ≠ dst.id)
    (held : readRange (memory oldObj.id) 0 old.length = old) (oldSmall : old.length < 2 ^ 31)
    (oldFits : old.length ≤ layout.limit oldObj.id) (newFits : new.length ≤ layout.limit dst.id) :
    Supports (sinkPipeline (plain layout)) (readOldByte (plain layout) oldObj) old new
      (sinkOf dst memory) where
  after := by
    intro taken byte begins
    rw [sink_feed layout dst memory taken [byte] (begins.length_le.trans newFits)]
  reads := by
    intro taken offset _ inside
    have byte : memory oldObj.id offset = old.getD offset 0 := by
      have read := readRange_getD (memory oldObj.id) 0 old.length offset inside
      rw [held, Nat.zero_add] at read
      exact read.symm
    have kept : (sinkOf dst memory taken).2.2 oldObj.id = memory oldObj.id :=
      Function.update_of_ne apart _ _
    rw [wrap32_natCast (by omega), readOldByte, plain_read layout _ (by omega)]
    simp only [kept, readRange, byte]
    rfl

/-- **A differential update.** The patch of two images, compressed and fed to the device in any
chunks, leaves the new image in the destination and everything else as it was; every call returns the
length of its chunk, and the patch stage is finished. -/
theorem differential_roundTrip (I : Nat → Int) (suffixes : Suffixes old I)
    (oldSmall : old.length < 2 ^ 31) (newSmall : new.length < 2 ^ 31) (signed : Bool)
    (stale : Nat → UInt8) (apart : oldObj.id ≠ dst.id)
    (held : readRange (memory oldObj.id) 0 old.length = old)
    (oldFits : old.length ≤ layout.limit oldObj.id) (newFits : new.length ≤ layout.limit dst.id) :
    ∃ patch code, pipelineDiffCommand old new (searchFrom I old new) = some patch ∧
      pipelineCompressCommand signed stale patch = some code ∧
      ∀ (chunks : List (List UInt8)) (lzss : LzssCtx) (bspatch : BspatchCtx),
        chunks.flatten = code →
        ∃ rets state,
          feed
              (lzssPipeline
                (bspatchPipeline (sinkPipeline (plain layout)) (readOldByte (plain layout) oldObj)))
              chunks
              (pipelineLzssInit lzss, pipelineBspatchInit bspatch, pipelineBufferInit,
                pipelineWriterInit dst, memory) = (rets, state) ∧
            rets = chunks.map (fun chunk => (chunk.length : Int)) ∧
            state.2.1.finish = true ∧
            (pipelineBufferClear (writerPipeline (plain layout)) state.2.2).2.2.2 =
              Function.update memory dst.id (writeRange (memory dst.id) 0 new) := by
  obtain ⟨body, written, complete⟩ :=
    pipelineDiffCommand_complete (searchFrom_searches suffixes) oldSmall newSmall
  obtain ⟨code, compressed, decodes⟩ := pipelineCompressCommand_decodes signed stale
    (List.replicate 16 0x2a ++ offtout new.length ++ body)
  refine ⟨_, code, written, compressed, fun chunks lzss bspatch split => ⟨_, _, rfl, ?_⟩⟩
  have spells : Spells (offtout new.length) new.length := offtout_spells (by omega) (by omega)
  have supports : Supports (sinkPipeline (plain layout)) (readOldByte (plain layout) oldObj) old new
      (sinkOf dst memory) := sink_supports layout apart held oldSmall oldFits newFits
  have run := complete.patchBytes spells supports
  rw [if_pos rfl] at run
  have tracks := tracks_bspatch bspatch (sinkOf dst memory []) (fun ret failed => by
    rw [run] at failed
    exact PatchNext.noConfusion failed)
  obtain ⟨finished, emitted⟩ := handDown_bspatch_finished bspatch run
  have decoded : (lzssBits collect (chunks.flatten.flatMap byteBits) .flag lzss.begin []).2.2 =
      List.replicate 16 0x2a ++ offtout new.length ++ body := by
    rw [split]
    exact decodes lzss
  obtain ⟨rets, state⟩ := feed_lzss_begins tracks chunks lzss []
    ⟨[], (List.append_nil _).trans decoded⟩
  rw [decoded] at state
  have start : handDown (bspatchPipeline (sinkPipeline (plain layout))
      (readOldByte (plain layout) oldObj)) (([] : List UInt8).map ([·]))
      (pipelineBspatchInit bspatch, sinkOf dst memory []) =
        (pipelineBspatchInit bspatch, pipelineBufferInit, pipelineWriterInit dst, memory) := by
    rw [sinkOf_nil]
    rfl
  rw [start] at rets state
  refine ⟨rets, ?_, ?_⟩
  · rw [state]
    exact finished
  · rw [state, emitted]
    exact sink_clear layout dst memory new newFits

end Chain

/-- Objects that begin with three growing bytes. -/
def growingMemory : Contents := fun _ address => [1, 2, 3].getD address 0

theorem growing_updated :
    ∃ patch code,
      pipelineDiffCommand [1, 2, 3] [1, 2, 4, 4]
          (searchFrom growingSuffixes [1, 2, 3] [1, 2, 4, 4]) = some patch ∧
      pipelineCompressCommand true (fun _ => 0) patch = some code ∧
      ∀ (chunks : List (List UInt8)) (lzss : LzssCtx) (bspatch : BspatchCtx),
        chunks.flatten = code →
        ∃ rets state,
          feed
              (lzssPipeline
                (bspatchPipeline (sinkPipeline (plain (fullLayout none)))
                  (readOldByte (plain (fullLayout none)) ⟨1, .readOnly⟩)))
              chunks
              (pipelineLzssInit lzss, pipelineBspatchInit bspatch, pipelineBufferInit,
                pipelineWriterInit ⟨2, .writeAll⟩, growingMemory) = (rets, state) ∧
            rets = chunks.map (fun chunk => (chunk.length : Int)) ∧
            state.2.1.finish = true ∧
            (pipelineBufferClear (writerPipeline (plain (fullLayout none))) state.2.2).2.2.2 =
              Function.update growingMemory 2 (writeRange (growingMemory 2) 0 [1, 2, 4, 4]) :=
  differential_roundTrip (fullLayout none) growingSuffixes growingSuffixes_ok (by decide)
    (by decide) true (fun _ => 0) (by decide) rfl (by decide) (by decide)

end Upkit
