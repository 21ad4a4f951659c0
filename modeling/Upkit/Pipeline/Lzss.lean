/-
**The LZSS stage.**

`lzss_pipeline` is a Duff's device that waits for input inside `getbit`, at one of four places: the
flag of a code, a literal, the offset and the length of a match. It only waits when the byte at
hand is used up, so a call is a loop over the bits of its chunk, and the variables of `getbit` that
survive a call are the place, the number of bits read and the bits themselves.

* `lzssBit` — one bit, with what it completes.
* `lzssPipeline` — one call. When the next stage refuses a literal the call ends at once, the rest
  of the byte is lost, and the device will go on where it last waited.
-/

import Upkit.Pipeline.Stages

namespace Upkit

/-- The four uses of `getbit`. -/
inductive LzssLabel
  | flag
  | literal
  | offset
  | length
  deriving DecidableEq, Repr

/-- The static variables of `lzss_pipeline` with `ctx->state`; `none` is the state before the first
call. -/
structure LzssCtx where
  state : Option LzssLabel
  i : Nat
  j : Nat
  r : Nat
  c : Nat
  s : Nat
  buffer : Nat → UInt8

/-- `N`, the length of the ring. -/
def lzssN : Nat := 1024

/-- `F`, the length of the lookahead. -/
def lzssF : Nat := 17

/-- `pipeline_lzss_init`, on the static variables as they are. -/
def pipelineLzssInit (ctx : LzssCtx) : LzssCtx := { ctx with state := none }

/-- `buffer[r++] = c; r &= (N - 1)`. -/
def LzssCtx.store (ctx : LzssCtx) (byte : UInt8) : LzssCtx :=
  { ctx with
    buffer := Function.update ctx.buffer ctx.r byte
    r := (ctx.r + 1) % lzssN }

section Stage

variable {ν : Type} (next : Stage ν)

/-- The loop that copies a match, `count` bytes from `k` on. The result of the next stage is not
looked at. -/
def lzssCopy : (count k : Nat) → LzssCtx × ν → LzssCtx × ν
  | 0, _, state => state
  | count + 1, k, (ctx, below) =>
      let byte := ctx.buffer ((ctx.i + k) % lzssN)
      let (_, below) := next [byte] below
      lzssCopy count (k + 1) (ctx.store byte, below)

/-- One bit at the place where the device is, up to the next bit it asks for; `none` when the next
stage refuses a literal. -/
def lzssBit (bit : Bool) (label : LzssLabel) (ctx : LzssCtx) (below : ν) :
    Option LzssLabel × LzssCtx × ν :=
  match label with
  | .flag =>
      let ctx := { ctx with c := 2 * ctx.c + bit.toNat, s := ctx.s + 1 }
      if ctx.s < 1 then (some .flag, ctx, below)
      else if ctx.c ≠ 0 then (some .literal, { ctx with c := 0, s := 0 }, below)
      else (some .offset, { ctx with i := 0, s := 0 }, below)
  | .literal =>
      let ctx := { ctx with c := 2 * ctx.c + bit.toNat, s := ctx.s + 1 }
      if ctx.s < 8 then (some .literal, ctx, below)
      else
        let (ret, below) := next [UInt8.ofNat ctx.c] below
        if ret < 0 then (none, ctx, below)
        else (some .flag, { ctx.store (UInt8.ofNat ctx.c) with c := 0, s := 0 }, below)
  | .offset =>
      let ctx := { ctx with i := 2 * ctx.i + bit.toNat, s := ctx.s + 1 }
      if ctx.s < 10 then (some .offset, ctx, below)
      else (some .length, { ctx with j := 0, s := 0 }, below)
  | .length =>
      let ctx := { ctx with j := 2 * ctx.j + bit.toNat, s := ctx.s + 1 }
      if ctx.s < 4 then (some .length, ctx, below)
      else
        let (ctx, below) := lzssCopy next (ctx.j + 2) 0 (ctx, below)
        (some .flag, { ctx with c := 0, s := 0 }, below)

/-- The bits of a byte, the most significant first. -/
def byteBits (byte : UInt8) : List Bool :=
  [7, 6, 5, 4, 3, 2, 1, 0].map fun index => byte.toNat.testBit index

/-- The loop over bits that are at hand. -/
def lzssBits : List Bool → LzssLabel → LzssCtx → ν → Option LzssLabel × LzssCtx × ν
  | [], label, ctx, below => (some label, ctx, below)
  | bit :: bits, label, ctx, below =>
      match lzssBit next bit label ctx below with
      | (none, ctx, below) => (none, ctx, below)
      | (some label, ctx, below) => lzssBits bits label ctx below

/-- The variables at `case 0`: the window is blank and the device waits for the first flag. -/
def LzssCtx.begin (ctx : LzssCtx) : LzssCtx :=
  { ctx with
    buffer := fun index => if index < lzssN - lzssF then 32 else ctx.buffer index
    r := lzssN - lzssF
    c := 0
    s := 0 }

/-- `lzss_pipeline`. -/
def lzssPipeline : Stage (LzssCtx × ν) :=
  fun buf (ctx, below) =>
    let (label, ctx) := match ctx.state with
      | none => (LzssLabel.flag, ctx.begin)
      | some label => (label, ctx)
    match lzssBits next (buf.flatMap byteBits) label ctx below with
    | (some label, ctx, below) => (buf.length, { ctx with state := some label }, below)
    -- `ctx->state` is only set when the device waits.
    | (none, ctx, below) => (-1, ctx, below)

/-! ### What the next stage keeps -/

variable {next} {holds : ν → Prop} (keeps : ∀ data below, holds below → holds (next data below).2)

include keeps

theorem lzssCopy_keeps (count k : Nat) (ctx : LzssCtx) {below : ν} (held : holds below) :
    holds (lzssCopy next count k (ctx, below)).2 := by
  induction count generalizing k ctx below with
  | zero => exact held
  | succ count ih => exact ih _ _ (keeps _ _ held)

theorem lzssBit_keeps (bit : Bool) (label : LzssLabel) (ctx : LzssCtx) {below : ν}
    (held : holds below) : holds (lzssBit next bit label ctx below).2.2 := by
  cases label with
  | flag =>
      simp only [lzssBit]
      split
      · exact held
      · split
        · exact held
        · exact held
  | literal =>
      simp only [lzssBit]
      split
      · exact held
      · split
        · exact keeps _ _ held
        · exact keeps _ _ held
  | offset =>
      simp only [lzssBit]
      split
      · exact held
      · exact held
  | length =>
      simp only [lzssBit]
      split
      · exact held
      · exact lzssCopy_keeps keeps _ _ _ held

theorem lzssBits_keeps (bits : List Bool) (label : LzssLabel) (ctx : LzssCtx) {below : ν}
    (held : holds below) : holds (lzssBits next bits label ctx below).2.2 := by
  induction bits generalizing label ctx below with
  | nil => exact held
  | cons bit bits ih =>
      have kept := lzssBit_keeps keeps bit label ctx held
      rw [lzssBits]
      split
      · rename_i refused
        rwa [refused] at kept
      · rename_i read
        rw [read] at kept
        exact ih _ _ kept

/-- **What the next stage keeps**, the LZSS stage keeps. -/
theorem lzssPipeline_keeps (buf : List UInt8) (ctx : LzssCtx) {below : ν} (held : holds below) :
    holds (lzssPipeline next buf (ctx, below)).2.2 := by
  have kept := fun (start : LzssLabel × LzssCtx) =>
    lzssBits_keeps keeps (buf.flatMap byteBits) start.1 start.2 held
  simp only [lzssPipeline]
  generalize (match ctx.state with
    | none => (LzssLabel.flag, ctx.begin)
    | some label => (label, ctx)) = start
  have after := kept start
  split
  · rename_i read
    rwa [read] at after
  · rename_i refused
    rwa [refused] at after

end Stage

end Upkit
