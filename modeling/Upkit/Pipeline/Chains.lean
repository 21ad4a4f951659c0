/-
**Chains of stages, and writes that fail.**

A chain is a list of stages above the writer; the context of each stage is static in the source, so a
chain has a stage at most once. `watched` notes whether a `memory_write` of the writer has failed or
was short, and a chain is loud when a call during which that happens does not return its length.

* `chainPipeline_buffer`, `chainPipeline_differential` — the chains that `fsm` builds.
* `loud_iff` — only the writer alone is loud: every other stage drops the result of the stage below,
  except the literals of the LZSS stage, which miss a short write.
-/

import Upkit.Pipeline.Lzss
import Upkit.Pipeline.Bspatch

namespace Upkit

open Bytes

/-! ### Chains -/

/-- The stages that can stand above the writer. -/
inductive ChainStage
  | lzss
  | bspatch
  | buffer
  deriving DecidableEq, Repr

/-- The contexts of a chain, the first stage first, and the memory. -/
def ChainState (σ : Type) : List ChainStage → Type
  | [] => WriterCtx × σ
  | .lzss :: below => LzssCtx × ChainState σ below
  | .bspatch :: below => BspatchCtx × ChainState σ below
  | .buffer :: below => BufferCtx × ChainState σ below

/-- The memory below a chain. -/
def chainMemory {σ : Type} : (chain : List ChainStage) → ChainState σ chain → σ
  | [], state => state.2
  | .lzss :: below, state => chainMemory below state.2
  | .bspatch :: below, state => chainMemory below state.2
  | .buffer :: below, state => chainMemory below state.2

section Chains

variable {σ : Type} (M : MemoryInterface σ) (old : MemObject)

/-- `memory_read` of one byte of the old object, below a chain. -/
def chainRead (offset : Nat) :
    (chain : List ChainStage) → ChainState σ chain → Int × List UInt8 × ChainState σ chain
  | [], state =>
      let (ret, data, memory) := M.memoryRead old 1 offset state.2
      (ret, data, state.1, memory)
  | .lzss :: below, state =>
      let (ret, data, after) := chainRead offset below state.2
      (ret, data, state.1, after)
  | .bspatch :: below, state =>
      let (ret, data, after) := chainRead offset below state.2
      (ret, data, state.1, after)
  | .buffer :: below, state =>
      let (ret, data, after) := chainRead offset below state.2
      (ret, data, state.1, after)

/-- A call into the first stage of a chain. -/
def chainPipeline : (chain : List ChainStage) → Stage (ChainState σ chain)
  | [] => writerPipeline M
  | .lzss :: below => lzssPipeline (chainPipeline below)
  | .bspatch :: below =>
      bspatchPipeline (chainPipeline below) fun offset => chainRead M old offset below
  | .buffer :: below => bufferPipeline (chainPipeline below)

/-- The chain of a full image. -/
theorem chainPipeline_buffer : chainPipeline M old [.buffer] = sinkPipeline M := rfl

/-- The chain of a differential update. -/
theorem chainPipeline_differential : chainPipeline M old [.lzss, .bspatch, .buffer] =
    lzssPipeline (bspatchPipeline (sinkPipeline M) (readOldByte M old)) := rfl

variable {M old}

section Keeps

variable {holds : σ → Prop}
  (reads : ∀ obj size offset memory, holds memory → holds (M.memoryRead obj size offset memory).2.2)

include reads

theorem chainRead_keeps (offset : Nat) (chain : List ChainStage) {state : ChainState σ chain}
    (held : holds (chainMemory chain state)) :
    holds (chainMemory chain (chainRead M old offset chain state).2.2) := by
  induction chain with
  | nil => exact reads _ _ _ _ held
  | cons stage below ih =>
      cases stage with
      | lzss => exact @ih state.2 held
      | bspatch => exact @ih state.2 held
      | buffer => exact @ih state.2 held

/-- **What the memory operations keep**, a chain keeps. -/
theorem chainPipeline_keeps
    (writes : ∀ obj data offset memory, holds memory → holds (M.memoryWrite obj data offset memory).2)
    (chain : List ChainStage) (data : List UInt8) {state : ChainState σ chain}
    (held : holds (chainMemory chain state)) :
    holds (chainMemory chain (chainPipeline M old chain data state).2) := by
  induction chain generalizing data with
  | nil => exact writes _ _ _ _ held
  | cons stage below ih =>
      cases stage with
      | lzss =>
          exact @lzssPipeline_keeps _ _ (fun state => holds (chainMemory below state))
            (fun data _ held => ih data held) data state.1 state.2 held
      | bspatch =>
          exact @bspatchPipeline_keeps _ _ _ (fun state => holds (chainMemory below state))
            (fun data _ held => ih data held)
            (fun offset _ held => chainRead_keeps reads offset below held) data state.1 state.2 held
      | buffer =>
          exact @bufferPipeline_keeps _ _ (fun state => holds (chainMemory below state))
            (fun data _ held => ih data held) data state.1 state.2 held

end Keeps

end Chains

/-! ### Watching the writes -/

/-- An implementation that also notes whether a write has failed or was short. -/
def watched {σ : Type} (M : MemoryInterface σ) : MemoryInterface (σ × Bool) where
  memoryOpen := fun id mode state =>
    let (err, obj, memory) := M.memoryOpen id mode state.1
    (err, obj, memory, state.2)
  memoryRead := fun obj size offset state =>
    let (ret, data, memory) := M.memoryRead obj size offset state.1
    (ret, data, memory, state.2)
  memoryWrite := fun obj data offset state =>
    let (ret, memory) := M.memoryWrite obj data offset state.1
    (ret, memory, state.2 || decide (ret < data.length))
  memoryClose := fun obj state =>
    let (err, memory) := M.memoryClose obj state.1
    (err, memory, state.2)
  open_id := fun id mode state success => M.open_id id mode state.1 success
  read_length := fun obj size offset state reported =>
    M.read_length obj size offset state.1 reported

/-- A call into the chain during which a write fails or is short does not return its length, which is
what `fsm` takes for an error. -/
def Loud (chain : List ChainStage) : Prop :=
  ∀ (σ : Type) (M : MemoryInterface σ) (old : MemObject) (state : ChainState (σ × Bool) chain)
    (chunk : List UInt8),
    (chainMemory chain state).2 = false →
    (chainMemory chain (chainPipeline (watched M) old chain chunk state).2).2 = true →
    (chainPipeline (watched M) old chain chunk state).1 ≠ chunk.length

/-- The writer alone is loud. -/
theorem loud_writer : Loud [] := by
  intro σ M old state chunk before after
  have short : (M.memoryWrite state.1.obj chunk state.1.written state.2.1).1 < chunk.length := by
    have noted : (state.2.2 || decide
        ((M.memoryWrite state.1.obj chunk state.1.written state.2.1).1 < chunk.length)) = true :=
      after
    rw [show state.2.2 = false from before, Bool.false_or] at noted
    exact of_decide_eq_true noted
  exact ne_of_lt short

/-! ### A memory that stores nothing -/

/-- Writes succeed with no byte stored. -/
def deaf : MemoryInterface Unit where
  memoryOpen := fun id mode _ => (.success, ⟨id, mode⟩, ())
  memoryRead := fun _ size _ _ => ((size : Int), List.replicate size 0, ())
  memoryWrite := fun _ _ _ _ => (0, ())
  memoryClose := fun _ _ => (.success, ())
  open_id := fun _ _ _ _ => rfl
  read_length := fun _ _ _ _ _ => List.length_replicate

/-- The LZSS stage that lacks the last bit of a literal zero. -/
def lastBit : LzssCtx := ⟨some .literal, 0, 0, 0, 0, 7, fun _ => 0⟩

/-- A chain between two calls, just before a byte goes down: the LZSS stage lacks one bit of a
literal, the patch stage reads extra bytes, the buffer stage is full. -/
def aboutToWrite : (chain : List ChainStage) → ChainState (Unit × Bool) chain
  | [] => (⟨⟨1, .writeAll⟩, 0⟩, (), false)
  | .lzss :: below => (lastBit, aboutToWrite below)
  | .bspatch :: below =>
      (⟨some .extra, false, 0, 0, ⟨List.replicate 8 0⟩, ⟨[2, 0, 0, 0, 0, 0, 0, 0]⟩,
        ⟨List.replicate 8 0⟩, 0, 0, ⟨[2, 0, 0, 0, 0, 0, 0, 0]⟩⟩, aboutToWrite below)
  | .buffer :: below => (⟨List.replicate 1000 0⟩, aboutToWrite below)

theorem aboutToWrite_quiet (chain : List ChainStage) :
    (chainMemory chain (aboutToWrite chain)).2 = false := by
  induction chain with
  | nil => rfl
  | cons stage below ih =>
      cases stage with
      | lzss => exact ih
      | bspatch => exact ih
      | buffer => exact ih

/-- A write below the chain has failed or was short. -/
def Noted (chain : List ChainStage) (state : ChainState (Unit × Bool) chain) : Prop :=
  (chainMemory chain state).2 = true

/-- A noted failure stays noted. -/
theorem noted_read (chain : List ChainStage) (old : MemObject) (offset : Nat)
    {state : ChainState (Unit × Bool) chain} (noted : Noted chain state) :
    Noted chain (chainRead (watched deaf) old offset chain state).2.2 :=
  @chainRead_keeps _ _ _ (fun memory : Unit × Bool => memory.2 = true) (fun _ _ _ _ held => held)
    offset chain state noted

theorem noted_call (chain : List ChainStage) (old : MemObject) (data : List UInt8)
    {state : ChainState (Unit × Bool) chain} (noted : Noted chain state) :
    Noted chain (chainPipeline (watched deaf) old chain data state).2 := by
  refine @chainPipeline_keeps _ _ _ (fun memory : Unit × Bool => memory.2 = true)
    (fun _ _ _ _ held => held) ?_ chain data state noted
  intro obj data offset memory held
  show (memory.2 || _) = true
  rw [held, Bool.true_or]

section LastBit

variable {ν : Type} {next : Stage ν} {below : ν} (accepted : ¬ (next [0] below).1 < 0)

include accepted

/-- The literal goes down, and is followed by no other one. -/
theorem lzssBits_lastBit (bits : List Bool) :
    lzssBits next (false :: bits) .literal lastBit below =
      lzssBits next bits .flag { lastBit.store 0 with c := 0, s := 0 } (next [0] below).2 := by
  have read : lzssBit next false .literal lastBit below =
      (some .flag, { lastBit.store 0 with c := 0, s := 0 }, (next [0] below).2) :=
    if_neg accepted
  rw [lzssBits, read]

/-- A zero byte is used up. -/
theorem lzssPipeline_lastBit : (lzssPipeline next [0] (lastBit, below)).1 = 1 := by
  have bits : ([0] : List UInt8).flatMap byteBits = false :: List.replicate 7 false := by decide
  simp only [lzssPipeline, lastBit, bits]
  rw [show (⟨some .literal, 0, 0, 0, 0, 7, fun _ => 0⟩ : LzssCtx) = lastBit from rfl,
    lzssBits_lastBit accepted]
  rfl

theorem lzssPipeline_lastBit_keeps {holds : ν → Prop}
    (keeps : ∀ data below, holds below → holds (next data below).2)
    (written : holds (next [0] below).2) (rest : List UInt8) :
    holds (lzssPipeline next (0 :: rest) (lastBit, below)).2.2 := by
  have bits : (0 :: rest).flatMap byteBits =
      false :: (List.replicate 7 false ++ rest.flatMap byteBits) := rfl
  have kept := lzssBits_keeps keeps (List.replicate 7 false ++ rest.flatMap byteBits) .flag
    { lastBit.store 0 with c := 0, s := 0 } written
  rw [← lzssBits_lastBit accepted, ← bits] at kept
  simp only [lzssPipeline, lastBit]
  rw [show (⟨some .literal, 0, 0, 0, 0, 7, fun _ => 0⟩ : LzssCtx) = lastBit from rfl]
  split
  · rename_i read
    rwa [read] at kept
  · rename_i refused
    rwa [refused] at kept

end LastBit

/-- **Zeros into a chain about to write**: a write is short, and one byte returns its length above
the writer. -/
theorem aboutToWrite_zeros (chain : List ChainStage) (old : MemObject) (more : Nat) :
    Noted chain (chainPipeline (watched deaf) old chain (List.replicate (more + 1) 0)
        (aboutToWrite chain)).2 ∧
      (chainPipeline (watched deaf) old chain [0] (aboutToWrite chain)).1 =
        if chain = [] then 0 else 1 := by
  induction chain generalizing more with
  | nil =>
      refine ⟨?_, rfl⟩
      show (false || decide ((0 : Int) < (List.replicate (more + 1) (0 : UInt8)).length)) = true
      rw [Bool.false_or, List.length_replicate]
      exact decide_eq_true (Int.natCast_pos.mpr (Nat.succ_pos more))
  | cons stage below ih =>
      obtain ⟨written, returned⟩ := ih 0
      have calls := fun data state => @noted_call below old data state
      cases stage with
      | lzss =>
          have accepted : ¬ (chainPipeline (watched deaf) old below [0] (aboutToWrite below)).1 <
              0 := by
            rw [returned]
            split
            · decide
            · decide
          exact ⟨@lzssPipeline_lastBit_keeps _ _ _ accepted (Noted below) calls written
            (List.replicate more 0), lzssPipeline_lastBit accepted⟩
      | bspatch =>
          refine ⟨?_, rfl⟩
          exact @bspatchBytes_keeps _ _ _ (Noted below) calls
            (fun offset state => @noted_read below old offset state) (List.replicate more 0) 1 .extra
            _ _ written
      | buffer =>
          refine ⟨?_, rfl⟩
          exact @bufferPipeline_flushes _ _ (Noted below) calls (List.replicate (more + 1) 0)
            (Nat.succ_ne_zero _) ⟨List.replicate 1000 0⟩ (aboutToWrite below) List.length_replicate
            (ih 999).1

/-- **Only the writer alone is loud.** -/
theorem loud_iff (chain : List ChainStage) : Loud chain ↔ chain = [] := by
  refine ⟨fun loud => ?_, fun alone => alone ▸ loud_writer⟩
  by_contra some
  obtain ⟨noted, returned⟩ := aboutToWrite_zeros chain ⟨0, .readOnly⟩ 0
  rw [if_neg some] at returned
  exact loud Unit deaf ⟨0, .readOnly⟩ (aboutToWrite chain) [0] (aboutToWrite_quiet chain) noted
    returned

end Upkit
