/-
**The patch stage.**

`bspatch_pipeline` is a Duff's device over a patch: a header with the length of the new image, then
for each control triple the differences against the old image and the extra bytes. It waits for a
byte at one of four places; between two bytes it runs without waiting.

* `Ctrl` — the union `ctrl_t`: eight bytes whose first four are read as an `int32_t`.
* `bspatchByte` — one byte at the place where the device waits, up to the next wait.
* `bspatchPipeline` — one call.
-/

import Upkit.Pipeline.Stages

namespace Upkit

open Bytes

/-- `ctrl_t`: eight bytes, whose first four are also an `int32_t`. -/
structure Ctrl where
  c : List UInt8
  deriving DecidableEq, Repr

/-- The member `y`. -/
def Ctrl.y (ctrl : Ctrl) : Int := toInt32 (ofLE (ctrl.c.take 4))

/-- Store byte `index` of an integer; the last one carries the sign. -/
def Ctrl.store (ctrl : Ctrl) (index : Nat) (byte : UInt8) : Ctrl :=
  if index ≠ 7 then ⟨splice ctrl.c index [byte]⟩
  else
    let stored : Ctrl := ⟨splice ctrl.c 7 [byte &&& 0x7F]⟩
    ⟨splice stored.c 0
      (toLE 4 (wrap32 (if byte &&& 0x80 ≠ 0 then -stored.y else stored.y)))⟩

/-- Where `bspatch_pipeline` waits for a byte. -/
inductive BspatchLabel
  | header
  | ctrl
  | diff
  | extra
  deriving DecidableEq, Repr

/-- The static variables of `bspatch_pipeline` with `ctx->state` and `ctx->finish`. -/
structure BspatchCtx where
  state : Option BspatchLabel
  finish : Bool
  oldpos : Int
  newpos : Int
  ctrl0 : Ctrl
  ctrl1 : Ctrl
  ctrl2 : Ctrl
  i : Int
  j : Nat
  newsize : Ctrl
  deriving DecidableEq, Repr

/-- `pipeline_bspatch_init`, on the static variables as they are. -/
def pipelineBspatchInit (ctx : BspatchCtx) : BspatchCtx :=
  { ctx with finish := false, state := none }

/-- How the device goes on: it waits for another byte, it is finished, or it fails. -/
inductive BspatchNext
  | wait (label : BspatchLabel)
  | finished
  | failed (ret : Int)
  deriving DecidableEq, Repr

/-- The head of the `while` loop. -/
def BspatchCtx.loop (ctx : BspatchCtx) : BspatchNext × BspatchCtx :=
  if ctx.newpos < ctx.newsize.y then (.wait .ctrl, { ctx with i := 0, j := 0 })
  else (.finished, { ctx with finish := true })

/-- The head of the loop over the extra bytes. -/
def BspatchCtx.extraLoop (ctx : BspatchCtx) : BspatchNext × BspatchCtx :=
  if ctx.i < ctx.ctrl1.y then (.wait .extra, ctx)
  else
    BspatchCtx.loop
      { ctx with newpos := ctx.newpos + ctx.ctrl1.y, oldpos := ctx.oldpos + ctx.ctrl2.y }

/-- The head of the loop over the differences. -/
def BspatchCtx.diffLoop (ctx : BspatchCtx) : BspatchNext × BspatchCtx :=
  if ctx.i < ctx.ctrl0.y then (.wait .diff, ctx)
  else
    let ctx := { ctx with newpos := ctx.newpos + ctx.ctrl0.y, oldpos := ctx.oldpos + ctx.ctrl0.y }
    if ctx.newsize.y < ctx.newpos + ctx.ctrl1.y then (.failed (-1), ctx)
    else BspatchCtx.extraLoop { ctx with i := 0 }

/-- A byte of the header. -/
def BspatchCtx.headerByte (ctx : BspatchCtx) (byte : UInt8) : BspatchNext × BspatchCtx :=
  if ctx.j < 16 ∧ byte ≠ 0x2a then (.failed (-1), ctx)
  else
    let ctx :=
      if ctx.j < 16 then ctx else { ctx with newsize := ctx.newsize.store (ctx.j - 16) byte }
    let ctx := { ctx with j := ctx.j + 1 }
    if ctx.j < 24 then (.wait .header, ctx)
    else if ctx.newsize.y < 0 then (.failed (-2), ctx)
    else ctx.loop

/-- A byte of a control triple. -/
def BspatchCtx.ctrlByte (ctx : BspatchCtx) (byte : UInt8) : BspatchNext × BspatchCtx :=
  let ctx :=
    if ctx.i = 0 then { ctx with ctrl0 := ctx.ctrl0.store ctx.j byte }
    else if ctx.i = 1 then { ctx with ctrl1 := ctx.ctrl1.store ctx.j byte }
    else { ctx with ctrl2 := ctx.ctrl2.store ctx.j byte }
  let ctx := { ctx with j := ctx.j + 1 }
  if ctx.j < 8 then (.wait .ctrl, ctx)
  else
    let ctx := { ctx with i := ctx.i + 1, j := 0 }
    if ctx.i ≤ 2 then (.wait .ctrl, ctx)
    else if ctx.newsize.y < ctx.newpos + ctx.ctrl0.y then (.failed (-1), ctx)
    else BspatchCtx.diffLoop { ctx with i := 0 }

section Stage

variable {ν : Type} (next : Stage ν) (readOld : Nat → ν → Int × List UInt8 × ν)

/-- One byte at the place where the device waits. `readOld` is `memory_read` of one byte of the
old object. -/
def bspatchByte (byte : UInt8) (label : BspatchLabel) (ctx : BspatchCtx) (below : ν) :
    BspatchNext × BspatchCtx × ν :=
  match label with
  | .header => ((ctx.headerByte byte).1, (ctx.headerByte byte).2, below)
  | .ctrl => ((ctx.ctrlByte byte).1, (ctx.ctrlByte byte).2, below)
  | .diff =>
      let (ret, data, below) := readOld (wrap32 (ctx.oldpos + ctx.i)) below
      if ret ≠ 1 then (.failed (-1), ctx, below)
      else
        let (_, below) := next [byte + data.headD 0] below
        let ctx := { ctx with i := ctx.i + 1 }
        (ctx.diffLoop.1, ctx.diffLoop.2, below)
  | .extra =>
      let (_, below) := next [byte] below
      let ctx := { ctx with i := ctx.i + 1 }
      (ctx.extraLoop.1, ctx.extraLoop.2, below)

/-- The loop over the bytes at hand: the result and the state. -/
def bspatchBytes : List UInt8 → (used : Nat) → BspatchLabel → BspatchCtx → ν →
    Int × BspatchCtx × ν
  | [], used, label, ctx, below => (used, { ctx with state := some label }, below)
  | byte :: rest, used, label, ctx, below =>
      match bspatchByte next readOld byte label ctx below with
      | (.wait label, ctx, below) => bspatchBytes rest (used + 1) label ctx below
      | (.finished, ctx, below) => ((used + 1 : Nat), ctx, below)
      -- `ctx->state` is only set when the device waits.
      | (.failed ret, ctx, below) => (ret, ctx, below)

/-- `bspatch_pipeline`. -/
def bspatchPipeline : Stage (BspatchCtx × ν) :=
  fun buf (ctx, below) =>
    if ctx.finish then (0, ctx, below)
    else
      match ctx.state with
      | none =>
          bspatchBytes next readOld buf 0 .header
            { ctx with oldpos := 0, newpos := 0, j := 0 } below
      | some label => bspatchBytes next readOld buf 0 label ctx below

/-! ### What the next stage and the old object keep -/

variable {next readOld} {holds : ν → Prop}
  (keeps : ∀ data below, holds below → holds (next data below).2)
  (reads : ∀ offset below, holds below → holds (readOld offset below).2.2)

include keeps reads

theorem bspatchByte_keeps (byte : UInt8) (label : BspatchLabel) (ctx : BspatchCtx) {below : ν}
    (held : holds below) : holds (bspatchByte next readOld byte label ctx below).2.2 := by
  cases label with
  | header => exact held
  | ctrl => exact held
  | diff =>
      simp only [bspatchByte]
      split
      · exact reads _ _ held
      · exact keeps _ _ (reads _ _ held)
  | extra => exact keeps _ _ held

theorem bspatchBytes_keeps (bytes : List UInt8) (used : Nat) (label : BspatchLabel)
    (ctx : BspatchCtx) {below : ν} (held : holds below) :
    holds (bspatchBytes next readOld bytes used label ctx below).2.2 := by
  induction bytes generalizing used label ctx below with
  | nil => exact held
  | cons byte rest ih =>
      have kept := bspatchByte_keeps keeps reads byte label ctx held
      rw [bspatchBytes]
      split
      · rename_i waits
        rw [waits] at kept
        exact ih _ _ _ kept
      · rename_i finished
        rwa [finished] at kept
      · rename_i failed
        rwa [failed] at kept

/-- **What the next stage and the old object keep**, the patch stage keeps. -/
theorem bspatchPipeline_keeps (buf : List UInt8) (ctx : BspatchCtx) {below : ν}
    (held : holds below) : holds (bspatchPipeline next readOld buf (ctx, below)).2.2 := by
  rw [bspatchPipeline]
  split
  · exact held
  · split
    · exact bspatchBytes_keeps keeps reads _ _ _ _ held
    · exact bspatchBytes_keeps keeps reads _ _ _ _ held

end Stage

/-- `memory_read` of one byte of an object, below the stages that write through a sink. -/
def readOldByte {σ : Type} (M : MemoryInterface σ) (old : MemObject) (offset : Nat)
    (sink : Sink σ) : Int × List UInt8 × Sink σ :=
  let (ret, data, memory) := M.memoryRead old 1 offset sink.2.2
  (ret, data, sink.1, sink.2.1, memory)

end Upkit
