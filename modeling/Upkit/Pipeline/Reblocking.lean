/-
**The buffer stage loses nothing.**

The loop of `buffer_pipeline` is taken round by round: a round copies what fits, or flushes a full
buffer and consumes nothing. The fill position never passes the end of the buffer, so the round of
the fatal branch is never taken, and a chunk ends after finitely many rounds.

* `bufferRound` — one round, and `bufferRounds_end` — how the rounds of a call end.
* `buffer_lossless` — a whole session of calls with a clear at its end.
-/

import Upkit.Pipeline.Feeding

namespace Upkit

open Blocks

section Reblocking

variable {ν : Type} (next : Stage ν)

/-- One round of the loop of `buffer_pipeline`: the rest of the chunk, and the state. -/
def bufferRound : List UInt8 × BufferCtx × ν → List UInt8 × BufferCtx × ν :=
  fun (rest, ctx, below) =>
    let empty : Int := bufferLen - ctx.data.length
    if 0 < empty then
      let min := min rest.length empty.toNat
      (rest.drop min, ⟨ctx.data ++ rest.take min⟩, below)
    else if empty = 0 then (rest, ⟨[]⟩, (next ctx.data below).2)
    -- `PULL_ASSERT(false)`: nothing changes.
    else (rest, ctx, below)

/-- The loop takes one round after the other until the chunk is used up. -/
theorem bufferPipelineLoop_round (fuel : Nat) (rest : List UInt8) (ctx : BufferCtx) (below : ν) :
    bufferPipelineLoop next (fuel + 1) rest (ctx, below) =
      if rest.length = 0 then (ctx, below)
      else bufferPipelineLoop next fuel (bufferRound next (rest, ctx, below)).1
        (bufferRound next (rest, ctx, below)).2 := by
  rw [bufferPipelineLoop, bufferRound]
  simp only
  split
  · rfl
  · by_cases room : (0 : Int) < bufferLen - ctx.data.length
    · simp only [if_pos room]
    · by_cases full : (bufferLen - ctx.data.length : Int) = 0
      · simp only [if_neg room, if_pos full]
      · simp only [if_neg room, if_neg full]

/-- What bounds the rounds that are left. -/
def bufferMeasure (state : List UInt8 × BufferCtx × ν) : Nat :=
  2 * state.1.length + if state.2.1.data.length = bufferLen then 1 else 0

/-- **One round** keeps the fill position within the buffer and makes progress. -/
theorem bufferRound_step {state : List UInt8 × BufferCtx × ν} (more : state.1.length ≠ 0)
    (fill : state.2.1.data.length ≤ bufferLen) :
    (bufferRound next state).2.1.data.length ≤ bufferLen ∧
      bufferMeasure (bufferRound next state) < bufferMeasure state := by
  obtain ⟨rest, ctx, below⟩ := state
  simp only [bufferRound, bufferMeasure] at more fill ⊢
  by_cases full : ctx.data.length = bufferLen
  · have unfilled : ([] : List UInt8).length ≠ bufferLen := by decide
    rw [if_neg (by omega), if_pos (by omega)]
    simp only [if_pos full, if_neg unfilled]
    exact ⟨Nat.zero_le _, by omega⟩
  · have room : (bufferLen - ctx.data.length : Int).toNat = bufferLen - ctx.data.length := by omega
    rw [if_pos (by omega), room]
    simp only [List.length_append, List.length_take, List.length_drop, if_neg full]
    refine ⟨by omega, ?_⟩
    split
    · omega
    · omega

/-- **The rounds of a call end**, the fill position in the buffer all the way, and what they leave is
what the call leaves. -/
theorem bufferRounds_end (fuel : Nat) {state : List UInt8 × BufferCtx × ν}
    (fill : state.2.1.data.length ≤ bufferLen) (enough : bufferMeasure state < fuel) :
    ∃ rounds, ((bufferRound next)^[rounds] state).1 = [] ∧
      ((bufferRound next)^[rounds] state).2 = bufferPipelineLoop next fuel state.1 state.2 ∧
      ∀ round ≤ rounds, ((bufferRound next)^[round] state).2.1.data.length ≤ bufferLen := by
  induction fuel generalizing state with
  | zero => exact absurd enough (Nat.not_lt_zero _)
  | succ fuel ih =>
      rw [show state.2 = (state.2.1, state.2.2) from rfl, bufferPipelineLoop_round]
      by_cases done : state.1.length = 0
      · refine ⟨0, List.length_eq_zero_iff.mp done, by rw [if_pos done]; rfl, ?_⟩
        intro round first
        rw [Nat.le_zero.mp first]
        exact fill
      · obtain ⟨fill', less⟩ := bufferRound_step next done fill
        obtain ⟨rounds, used, same, filled⟩ := ih fill' (by omega)
        refine ⟨rounds + 1, used, by rw [if_neg done]; exact same, ?_⟩
        intro round before
        cases round with
        | zero => exact fill
        | succ round => exact filled round (Nat.le_of_succ_le_succ before)

/-- A session leaves the blocks of all its bytes with the next stage, and the rest in the buffer. -/
theorem feed_buffer (chunks : List (List UInt8)) (held : List UInt8) (below : ν)
    (fill : held.length ≤ bufferLen) :
    feed (bufferPipeline next) chunks (⟨held⟩, below) =
      (chunks.map fun chunk => (chunk.length : Int),
        ⟨heldBack bufferLen (held ++ chunks.flatten)⟩,
        handDown next (fullBlocks bufferLen (held ++ chunks.flatten)) below) := by
  induction chunks generalizing held below with
  | nil =>
      rw [feed_nil, List.flatten_nil, List.append_nil, heldBack_short fill, fullBlocks_short fill]
      rfl
  | cons chunk chunks ih =>
      rw [feed_cons, bufferPipeline_eq next chunk ⟨held⟩ below fill,
        ih _ _ (heldBack_length_le bufferLen_pos _), List.flatten_cons, ← List.append_assoc,
        heldBack_append bufferLen_pos (held ++ chunk),
        fullBlocks_append bufferLen_pos (held ++ chunk)]
      simp only [handDown, List.foldl_append, List.map_cons]

/-- A fresh stage after a session of calls: its context, the next stage, and the blocks handed to
it. -/
def bufferSession (chunks : List (List UInt8)) (below : ν) : BufferCtx × ν × List (List UInt8) :=
  (feed (bufferPipeline (recording next)) chunks (pipelineBufferInit, below, [])).2

theorem bufferSession_eq (chunks : List (List UInt8)) (below : ν) :
    bufferSession next chunks below =
      (⟨heldBack bufferLen chunks.flatten⟩, handDown next (fullBlocks bufferLen chunks.flatten) below,
        fullBlocks bufferLen chunks.flatten) := by
  have fedAll := feed_buffer (recording next) chunks [] (below, []) (Nat.zero_le _)
  rw [List.nil_append, handDown_recording, List.nil_append] at fedAll
  exact congrArg Prod.snd fedAll

/-- **The buffer stage is a lossless re-blocker**: over a session of calls and one clear the blocks
handed down are the input, those before the clear are full, and every call ends with the fill
position in the buffer and returns its length. -/
theorem buffer_lossless (chunks : List (List UInt8)) (below : ν) :
    (pipelineBufferClear (recording next) (bufferSession next chunks below)).2.2.2.flatten =
        chunks.flatten ∧
      (∀ block ∈ (bufferSession next chunks below).2.2, block.length = bufferLen) ∧
      ∀ done chunk rest, chunks = done ++ chunk :: rest →
        (bufferPipeline (recording next) chunk (bufferSession next done below)).1 = chunk.length ∧
          ∃ rounds,
            ((bufferRound (recording next))^[rounds] (chunk, bufferSession next done below)).1 = [] ∧
            ((bufferRound (recording next))^[rounds] (chunk, bufferSession next done below)).2 =
              (bufferPipeline (recording next) chunk (bufferSession next done below)).2 ∧
            ∀ round ≤ rounds,
              ((bufferRound (recording next))^[round]
                (chunk, bufferSession next done below)).2.1.data.length ≤ bufferLen := by
  refine ⟨?_, fun block member => ?_, fun done chunk rest _ => ?_⟩
  · rw [bufferSession_eq]
    show (fullBlocks bufferLen chunks.flatten ++ [heldBack bufferLen chunks.flatten]).flatten = _
    rw [List.flatten_append, List.flatten_singleton, fullBlocks_flatten_append bufferLen_pos]
  · rw [bufferSession_eq] at member
    exact fullBlocks_length bufferLen_pos chunks.flatten block member
  · have fill : (bufferSession next done below).1.data.length ≤ bufferLen := by
      rw [bufferSession_eq]
      exact heldBack_length_le bufferLen_pos _
    refine ⟨rfl, bufferRounds_end (recording next) (2 * chunk.length + 2) fill ?_⟩
    simp only [bufferMeasure]
    split
    · omega
    · omega

end Reblocking

end Upkit
