/-
**The writer and the buffer stage.**

A pipeline stage takes a chunk and the state of itself and of everything below it (`Stage`); a
chain is built by giving a stage the next one. The writer stores at its running offset; the buffer
stage collects blocks of `1000` bytes and hands a full block on only when another byte arrives.

* `bufferPipeline_eq` — one call of the buffer stage, whatever the next stage does: the blocks of
  what it held and what it was given go down in order.
* `Sink` — the buffer stage on top of the writer. On a plain memory the state of a sink is a
  function `sinkOf` of the bytes fed to it so far (`sink_feed`), and `sink_clear` leaves them all
  in the object.
-/

import Upkit.Lib.Blocks
import Upkit.Memory.Interface

namespace Upkit

open Bytes Blocks

/-- `pipeline_stage_t` together with the context of the stage and of all stages below. -/
abbrev Stage (ν : Type) := List UInt8 → ν → Int × ν

/-! ### The writer -/

/-- `struct writer_ctx`. -/
structure WriterCtx where
  obj : MemObject
  written : Nat
  deriving DecidableEq, Repr

/-- `writer_pipeline`. -/
def writerPipeline {σ : Type} (M : MemoryInterface σ) : Stage (WriterCtx × σ) :=
  fun buf state =>
    let (ret, memory) := M.memoryWrite state.1.obj buf state.1.written state.2
    (ret, { state.1 with written := wrap32 (state.1.written + ret) }, memory)

/-- `pipeline_writer_init`. -/
def pipelineWriterInit (obj : MemObject) : WriterCtx := ⟨obj, 0⟩

/-! ### The buffer stage -/

/-- `BUFFER_LEN`. -/
def bufferLen : Nat := 1000

theorem bufferLen_pos : 0 < bufferLen := by decide

/-- `struct buffer_ctx`: the bytes before `bufferp`. -/
structure BufferCtx where
  data : List UInt8
  deriving DecidableEq, Repr

/-- `pipeline_buffer_init`. -/
def pipelineBufferInit : BufferCtx := ⟨[]⟩

section Buffer

variable {ν : Type} (next : Stage ν)

/-- The loop of `buffer_pipeline` over the rest of the chunk. -/
def bufferPipelineLoop : Nat → List UInt8 → BufferCtx × ν → BufferCtx × ν
  | 0, _, state => state
  | fuel + 1, rest, (ctx, below) =>
      if rest.length = 0 then (ctx, below)
      else
        let empty : Int := bufferLen - ctx.data.length
        if 0 < empty then
          let min := min rest.length empty.toNat
          bufferPipelineLoop fuel (rest.drop min) (⟨ctx.data ++ rest.take min⟩, below)
        else if empty = 0 then
          -- The result of the next stage is not looked at.
          let (_, below) := next ctx.data below
          bufferPipelineLoop fuel rest (⟨[]⟩, below)
        else bufferPipelineLoop fuel rest (ctx, below)

/-- `buffer_pipeline`. A byte costs at most one round to flush and one to copy. -/
def bufferPipeline : Stage (BufferCtx × ν) :=
  fun buf state => (buf.length, bufferPipelineLoop next (2 * buf.length + 2) buf state)

/-- `pipeline_buffer_clear`. -/
def pipelineBufferClear (state : BufferCtx × ν) : Int × BufferCtx × ν :=
  let (_, below) := next state.1.data state.2
  (0, state.1, below)

/-- Hand blocks down one after the other. -/
def handDown (blocks : List (List UInt8)) (below : ν) : ν :=
  blocks.foldl (fun below block => (next block below).2) below

theorem handDown_cons (block : List UInt8) (blocks : List (List UInt8)) (below : ν) :
    handDown next (block :: blocks) below = handDown next blocks (next block below).2 := rfl

/-- The loop hands down the blocks of what is held and what is left. -/
theorem bufferPipelineLoop_eq (fuel : Nat) (rest : List UInt8) (ctx : BufferCtx) (below : ν)
    (fill : ctx.data.length ≤ bufferLen)
    (enough : 2 * rest.length + (if ctx.data.length = bufferLen then 1 else 0) < fuel) :
    bufferPipelineLoop next fuel rest (ctx, below) =
      (⟨heldBack bufferLen (ctx.data ++ rest)⟩,
        handDown next (fullBlocks bufferLen (ctx.data ++ rest)) below) := by
  induction fuel generalizing rest ctx below with
  | zero => omega
  | succ fuel ih =>
      rw [bufferPipelineLoop]
      by_cases done : rest.length = 0
      · have empty : rest = [] := List.length_eq_zero_iff.mp done
        subst empty
        rw [if_pos done, List.append_nil, heldBack_short fill, fullBlocks_short fill]
        rfl
      · rw [if_neg done]
        by_cases full : ctx.data.length = bufferLen
        · -- A full buffer is flushed because there is at least one more byte.
          have many : bufferLen < (ctx.data ++ rest).length := by rw [List.length_append]; omega
          have block : (ctx.data ++ rest).take bufferLen = ctx.data := by
            rw [List.take_append_of_le_length (by omega), List.take_of_length_le (by omega)]
          have left : (ctx.data ++ rest).drop bufferLen = rest := by
            rw [← full, List.drop_left']
            rfl
          rw [if_pos full] at enough
          simp only
          rw [if_neg (by omega), if_pos (by omega),
            ih rest ⟨[]⟩ _ (Nat.zero_le _) (by
              rw [if_neg (by simp [bufferLen])]
              omega),
            fullBlocks_long bufferLen_pos many, heldBack_long bufferLen_pos many, block, left]
          rfl
        · have room : (0 : Int) < bufferLen - ctx.data.length := by omega
          have width : (bufferLen - ctx.data.length : Int).toNat =
              bufferLen - ctx.data.length := by omega
          rw [if_neg full] at enough
          simp only
          rw [if_pos room, width]
          have joined : ctx.data ++ rest =
              (ctx.data ++ rest.take (min rest.length (bufferLen - ctx.data.length))) ++
                rest.drop (min rest.length (bufferLen - ctx.data.length)) := by
            rw [List.append_assoc, List.take_append_drop]
          rw [ih _ _ _ (by simp only [List.length_append, List.length_take]; omega) (by
            simp only [List.length_append, List.length_take, List.length_drop]
            split <;> omega), ← joined]

/-- A full buffer goes down before the next byte. -/
theorem bufferPipelineLoop_full (fuel : Nat) {rest : List UInt8} (more : rest.length ≠ 0)
    {ctx : BufferCtx} (below : ν) (full : ctx.data.length = bufferLen) :
    bufferPipelineLoop next (fuel + 1) rest (ctx, below) =
      bufferPipelineLoop next fuel rest (⟨[]⟩, (next ctx.data below).2) := by
  rw [bufferPipelineLoop, if_neg more]
  simp only [full, sub_self, lt_self_iff_false, if_false, if_true]

/-- **One call of the buffer stage.** -/
theorem bufferPipeline_eq (buf : List UInt8) (ctx : BufferCtx) (below : ν)
    (fill : ctx.data.length ≤ bufferLen) :
    bufferPipeline next buf (ctx, below) =
      ((buf.length : Int), ⟨heldBack bufferLen (ctx.data ++ buf)⟩,
        handDown next (fullBlocks bufferLen (ctx.data ++ buf)) below) := by
  rw [bufferPipeline, bufferPipelineLoop_eq next _ buf ctx below fill (by split <;> omega)]

variable {holds : ν → Prop} (keeps : ∀ data below, holds below → holds (next data below).2)

include keeps

theorem bufferPipelineLoop_keeps (fuel : Nat) (rest : List UInt8) (ctx : BufferCtx) {below : ν}
    (held : holds below) : holds (bufferPipelineLoop next fuel rest (ctx, below)).2 := by
  induction fuel generalizing rest ctx below with
  | zero => exact held
  | succ fuel ih =>
      rw [bufferPipelineLoop]
      simp only
      split
      · exact held
      · split
        · exact ih _ _ held
        · split
          · exact ih _ _ (keeps _ _ held)
          · exact ih _ _ held

/-- A chunk into a full buffer writes it down. -/
theorem bufferPipeline_flushes {buf : List UInt8} (more : buf.length ≠ 0) {ctx : BufferCtx}
    {below : ν} (full : ctx.data.length = bufferLen) (written : holds (next ctx.data below).2) :
    holds (bufferPipeline next buf (ctx, below)).2.2 := by
  show holds (bufferPipelineLoop next (2 * buf.length + 1 + 1) buf (ctx, below)).2
  rw [bufferPipelineLoop_full next _ more below full]
  exact bufferPipelineLoop_keeps next keeps _ buf _ written

/-- **What the next stage keeps**, the buffer stage keeps. -/
theorem bufferPipeline_keeps (buf : List UInt8) (ctx : BufferCtx) {below : ν} (held : holds below) :
    holds (bufferPipeline next buf (ctx, below)).2.2 :=
  bufferPipelineLoop_keeps next keeps _ buf ctx held

end Buffer

/-! ### The sink: buffer stage and writer on a plain memory -/

/-- The state of the buffer stage on top of the writer. -/
abbrev Sink (σ : Type) := BufferCtx × WriterCtx × σ

/-- The buffer stage on top of the writer. -/
def sinkPipeline {σ : Type} (M : MemoryInterface σ) : Stage (Sink σ) :=
  bufferPipeline (writerPipeline M)

section Plain

variable (layout : PlainLayout)

/-- The writer stores a chunk at its offset and moves on. -/
theorem writerPipeline_plain (obj : MemObject) (chunk : List UInt8) (written : Nat)
    (memory : Contents) (fits : written + chunk.length ≤ layout.limit obj.id) :
    writerPipeline (plain layout) chunk (⟨obj, written⟩, memory) =
      ((chunk.length : Int), ⟨obj, written + chunk.length⟩,
        Function.update memory obj.id (writeRange (memory obj.id) written chunk)) := by
  have small := layout.limit_lt obj.id
  have offset : wrap32 ((written : Int) + (chunk.length : Int)) = written + chunk.length := by
    rw [← Int.natCast_add]
    exact wrap32_natCast (by omega)
  rw [writerPipeline, plain_write layout memory fits]
  simp only [offset]

/-- Handing blocks to the writer stores them one after the other. -/
theorem handDown_writer (obj : MemObject) (blocks : List (List UInt8)) (written : Nat)
    (memory : Contents) (fits : written + blocks.flatten.length ≤ layout.limit obj.id) :
    handDown (writerPipeline (plain layout)) blocks (⟨obj, written⟩, memory) =
      (⟨obj, written + blocks.flatten.length⟩,
        Function.update memory obj.id (writeRange (memory obj.id) written blocks.flatten)) := by
  induction blocks generalizing written memory with
  | nil => simp [handDown]
  | cons block blocks ih =>
      rw [List.flatten_cons, List.length_append] at fits
      rw [handDown_cons, writerPipeline_plain layout obj block written memory (by omega),
        ih _ _ (by omega), List.flatten_cons, List.length_append, Nat.add_assoc,
        Function.update_self, writeRange_append, Function.update_idem]

/-- The sink after `fed` bytes, begun on `memory` with the object `obj`. -/
def sinkOf (obj : MemObject) (memory : Contents) (fed : List UInt8) : Sink Contents :=
  (⟨heldBack bufferLen fed⟩,
    ⟨obj, (fullBlocks bufferLen fed).flatten.length⟩,
    Function.update memory obj.id
      (writeRange (memory obj.id) 0 (fullBlocks bufferLen fed).flatten))

theorem sinkOf_nil (obj : MemObject) (memory : Contents) :
    sinkOf obj memory [] = (pipelineBufferInit, pipelineWriterInit obj, memory) := by
  unfold sinkOf
  rw [fullBlocks_short (Nat.zero_le _), heldBack_short (Nat.zero_le _)]
  simp [pipelineBufferInit, pipelineWriterInit]

/-- **Feeding a sink.** -/
theorem sink_feed (obj : MemObject) (memory : Contents) (fed chunk : List UInt8)
    (fits : (fed ++ chunk).length ≤ layout.limit obj.id) :
    sinkPipeline (plain layout) chunk (sinkOf obj memory fed) =
      ((chunk.length : Int), sinkOf obj memory (fed ++ chunk)) := by
  have blocks := fullBlocks_append bufferLen_pos fed chunk
  have bound := fullBlocks_flatten_length_le bufferLen_pos (fed ++ chunk)
  rw [blocks, List.flatten_append, List.length_append] at bound
  rw [sinkPipeline, sinkOf, bufferPipeline_eq _ _ _ _ (heldBack_length_le bufferLen_pos fed),
    handDown_writer layout obj _ _ _ (by simp only; omega), Function.update_self,
    Function.update_idem]
  rw [sinkOf, blocks, heldBack_append bufferLen_pos fed chunk, List.flatten_append,
    List.length_append, ← writeRange_append, Nat.zero_add]

/-- **Clearing a sink** leaves all bytes fed to it in the object. -/
theorem sink_clear (obj : MemObject) (memory : Contents) (fed : List UInt8)
    (fits : fed.length ≤ layout.limit obj.id) :
    (pipelineBufferClear (writerPipeline (plain layout)) (sinkOf obj memory fed)).2.2.2 =
      Function.update memory obj.id (writeRange (memory obj.id) 0 fed) := by
  have whole := fullBlocks_flatten_append bufferLen_pos fed
  have lengths := congrArg List.length whole
  rw [List.length_append] at lengths
  rw [pipelineBufferClear, sinkOf, writerPipeline_plain layout obj _ _ _ (by simp only; omega)]
  simp only [Function.update_self, Function.update_idem]
  conv_rhs => rw [← whole, ← writeRange_append, Nat.zero_add]

end Plain

end Upkit
