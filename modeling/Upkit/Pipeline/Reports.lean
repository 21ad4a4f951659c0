/-
**When a chain reports a failed write.**

What the first stage of a chain returns depends on the results of the stages below at one place
only: the LZSS stage looks at the result of a literal. Everything else that makes a call return
something other than its length is decided by what comes in.

* `LiteralRefused` — a literal is complete, and the stage below refuses it.
* `PatchRefused` — the patch is refused, or ends before the chunk does; `patchRefused_congr` —
  whatever the stage below returns.
* `Reports` — how a chain reports, stage by stage; `chain_reports_iff` — a call returns something
  other than its length exactly then.
-/

import Upkit.Pipeline.Chains

namespace Upkit

/-! ### Literals -/

section Literals

variable {ν : Type} (next : Stage ν)

/-- Where a call of the LZSS stage begins. -/
def lzssStart (ctx : LzssCtx) : LzssLabel × LzssCtx :=
  match ctx.state with
  | none => (.flag, ctx.begin)
  | some label => (label, ctx)

/-- Some bits complete a literal, and the stage below refuses it. -/
def LiteralRefused (bits : List Bool) (label : LzssLabel) (ctx : LzssCtx) (below : ν) : Prop :=
  ∃ done bit rest ctx' below', bits = done ++ bit :: rest ∧
    lzssBits next done label ctx below = (some .literal, ctx', below') ∧ 7 ≤ ctx'.s ∧
    (next [UInt8.ofNat (2 * ctx'.c + bit.toNat)] below').1 < 0

variable {next}

/-- A bit ends the call exactly when it completes a literal that is refused. -/
theorem lzssBit_refused_iff (bit : Bool) (label : LzssLabel) (ctx : LzssCtx) (below : ν) :
    (lzssBit next bit label ctx below).1 = none ↔
      label = .literal ∧ 7 ≤ ctx.s ∧ (next [UInt8.ofNat (2 * ctx.c + bit.toNat)] below).1 < 0 := by
  cases label with
  | flag =>
      simp only [lzssBit, reduceCtorEq, false_and, iff_false]
      split
      · exact Option.some_ne_none _
      · split
        · exact Option.some_ne_none _
        · exact Option.some_ne_none _
  | literal =>
      simp only [lzssBit, true_and]
      by_cases more : ctx.s + 1 < 8
      · rw [if_pos more]
        refine ⟨fun none => absurd none (Option.some_ne_none _), fun ends => ?_⟩
        have full := ends.1
        omega
      · rw [if_neg more]
        by_cases refused : (next [UInt8.ofNat (2 * ctx.c + bit.toNat)] below).1 < 0
        · rw [if_pos refused]
          exact ⟨fun _ => ⟨by omega, refused⟩, fun _ => rfl⟩
        · rw [if_neg refused]
          exact ⟨fun none => absurd none (Option.some_ne_none _),
            fun ends => absurd ends.2 refused⟩
  | offset =>
      simp only [lzssBit, reduceCtorEq, false_and, iff_false]
      split
      · exact Option.some_ne_none _
      · exact Option.some_ne_none _
  | length =>
      simp only [lzssBit, reduceCtorEq, false_and, iff_false]
      split
      · exact Option.some_ne_none _
      · exact Option.some_ne_none _

/-- **The bits of a call** end it exactly when a literal among them is refused. -/
theorem lzssBits_refused_iff (bits : List Bool) (label : LzssLabel) (ctx : LzssCtx) (below : ν) :
    (lzssBits next bits label ctx below).1 = none ↔ LiteralRefused next bits label ctx below := by
  induction bits generalizing label ctx below with
  | nil =>
      refine ⟨fun none => absurd none (Option.some_ne_none _), ?_⟩
      rintro ⟨done, bit, rest, _, _, split, _⟩
      exact absurd split.symm (List.append_ne_nil_of_right_ne_nil done (List.cons_ne_nil bit rest))
  | cons bit bits ih =>
      have ends := @lzssBit_refused_iff ν next bit label ctx below
      rw [lzssBits]
      rcases read : lzssBit next bit label ctx below with ⟨none | after, ctx', below'⟩
      · -- The call ends with this bit.
        rw [read] at ends
        obtain ⟨rfl, full, negative⟩ := ends.mp rfl
        exact ⟨fun _ => ⟨[], bit, bits, ctx, below, rfl, rfl, full, negative⟩, fun _ => rfl⟩
      · rw [read] at ends
        refine Iff.trans (ih after ctx' below') ⟨?_, ?_⟩
        · rintro ⟨done, last, rest, ctx'', below'', rfl, ran, full, negative⟩
          refine ⟨bit :: done, last, rest, ctx'', below'', rfl, ?_, full, negative⟩
          rw [lzssBits, read]
          exact ran
        · rintro ⟨done, last, rest, ctx'', below'', split, ran, full, negative⟩
          cases done with
          | nil =>
              obtain ⟨rfl, rfl⟩ := List.cons.inj split
              obtain ⟨isLiteral, rfl, rfl⟩ : some label = some .literal ∧ ctx = ctx'' ∧
                  below = below'' := by
                obtain ⟨first, second⟩ := Prod.mk.inj ran
                exact ⟨first, Prod.mk.inj second⟩
              have none := ends.mpr ⟨Option.some.inj isLiteral, full, negative⟩
              exact absurd none (Option.some_ne_none _)
          | cons first done =>
              obtain ⟨rfl, rfl⟩ := List.cons.inj split
              rw [lzssBits, read] at ran
              exact ⟨done, last, rest, ctx'', below'', rfl, ran, full, negative⟩

/-- A call of the LZSS stage returns its length, unless one of its bits has ended it. -/
theorem lzssPipeline_returns (chunk : List UInt8) (ctx : LzssCtx) (below : ν) :
    (lzssPipeline next chunk (ctx, below)).1 =
      if (lzssBits next (chunk.flatMap byteBits) (lzssStart ctx).1 (lzssStart ctx).2 below).1 = none
        then -1 else (chunk.length : Int) := by
  cases begun : ctx.state with
  | none =>
      simp only [lzssPipeline, lzssStart, begun]
      split
      · rename_i read
        rw [read, if_neg (Option.some_ne_none _)]
      · rename_i read
        rw [read, if_pos rfl]
  | some label =>
      simp only [lzssPipeline, lzssStart, begun]
      split
      · rename_i read
        rw [read, if_neg (Option.some_ne_none _)]
      · rename_i read
        rw [read, if_pos rfl]

/-- **A call of the LZSS stage** does not return its length exactly when a literal is refused. -/
theorem lzssPipeline_refused_iff (chunk : List UInt8) (ctx : LzssCtx) (below : ν) :
    (lzssPipeline next chunk (ctx, below)).1 ≠ chunk.length ↔
      LiteralRefused next (chunk.flatMap byteBits) (lzssStart ctx).1 (lzssStart ctx).2 below := by
  rw [← lzssBits_refused_iff, lzssPipeline_returns]
  split
  · rename_i ended
    refine ⟨fun _ => ended, fun _ => ?_⟩
    omega
  · rename_i goesOn
    exact ⟨fun differs => absurd rfl differs, fun ended => absurd ended goesOn⟩

end Literals

/-! ### Patches -/

section Patches

variable {ν : Type} (next : Stage ν) (readOld : Nat → ν → Int × List UInt8 × ν)

/-- One of the bytes fails in the patch stage, or ends the patch before the last one. -/
def PatchStops : List UInt8 → BspatchLabel → BspatchCtx → ν → Prop
  | [], _, _, _ => False
  | byte :: rest, label, ctx, below =>
      match bspatchByte next readOld byte label ctx below with
      | (.wait label, ctx, below) => PatchStops rest label ctx below
      | (.finished, _, _) => rest ≠ []
      | (.failed _, _, _) => True

/-- The patch is refused, or ends before the chunk does, or has ended before. -/
def PatchRefused (chunk : List UInt8) (ctx : BspatchCtx) (below : ν) : Prop :=
  if ctx.finish then chunk ≠ []
  else
    match ctx.state with
    | none => PatchStops next readOld chunk .header { ctx with oldpos := 0, newpos := 0, j := 0 }
        below
    | some label => PatchStops next readOld chunk label ctx below

variable {next readOld}

theorem BspatchCtx.loop_failed {ctx ctx' : BspatchCtx} {ret : Int}
    (failed : ctx.loop = (.failed ret, ctx')) : ret < 0 := by
  unfold BspatchCtx.loop at failed
  split at failed
  · cases failed
  · cases failed

theorem BspatchCtx.extraLoop_failed {ctx ctx' : BspatchCtx} {ret : Int}
    (failed : ctx.extraLoop = (.failed ret, ctx')) : ret < 0 := by
  unfold BspatchCtx.extraLoop at failed
  split at failed
  · cases failed
  · exact loop_failed failed

theorem BspatchCtx.diffLoop_failed {ctx ctx' : BspatchCtx} {ret : Int}
    (failed : ctx.diffLoop = (.failed ret, ctx')) : ret < 0 := by
  unfold BspatchCtx.diffLoop at failed
  split at failed
  · cases failed
  · simp only at failed
    split at failed
    · cases failed
      decide
    · exact extraLoop_failed failed

theorem BspatchCtx.headerByte_failed {ctx ctx' : BspatchCtx} {byte : UInt8} {ret : Int}
    (failed : ctx.headerByte byte = (.failed ret, ctx')) : ret < 0 := by
  unfold BspatchCtx.headerByte at failed
  split at failed
  · cases failed
    decide
  · simp only at failed
    generalize (if ctx.j < 16 then ctx else
      { ctx with newsize := ctx.newsize.store (ctx.j - 16) byte }) = stored at failed
    split at failed
    · cases failed
    · split at failed
      · cases failed
        decide
      · exact loop_failed failed

theorem BspatchCtx.ctrlByte_failed {ctx ctx' : BspatchCtx} {byte : UInt8} {ret : Int}
    (failed : ctx.ctrlByte byte = (.failed ret, ctx')) : ret < 0 := by
  unfold BspatchCtx.ctrlByte at failed
  simp only at failed
  generalize (if ctx.i = 0 then { ctx with ctrl0 := ctx.ctrl0.store ctx.j byte }
    else if ctx.i = 1 then { ctx with ctrl1 := ctx.ctrl1.store ctx.j byte }
    else { ctx with ctrl2 := ctx.ctrl2.store ctx.j byte }) = stored at failed
  split at failed
  · cases failed
  · split at failed
    · cases failed
    · split at failed
      · cases failed
        decide
      · exact diffLoop_failed failed

/-- What the patch stage fails with is negative. -/
theorem bspatchByte_failed {byte : UInt8} {label : BspatchLabel} {ctx ctx' : BspatchCtx}
    {below below' : ν} {ret : Int}
    (failed : bspatchByte next readOld byte label ctx below = (.failed ret, ctx', below')) :
    ret < 0 := by
  have first := congrArg Prod.fst failed
  cases label with
  | header => exact BspatchCtx.headerByte_failed (Prod.ext first rfl)
  | ctrl => exact BspatchCtx.ctrlByte_failed (Prod.ext first rfl)
  | diff =>
      simp only [bspatchByte] at first
      split at first
      · rw [← BspatchNext.failed.inj first]
        decide
      · exact BspatchCtx.diffLoop_failed (Prod.ext first rfl)
  | extra => exact BspatchCtx.extraLoop_failed (Prod.ext first rfl)

/-- **The bytes of a call** are used up exactly when the patch does not stop. -/
theorem bspatchBytes_stops_iff (bytes : List UInt8) (used : Nat) (label : BspatchLabel)
    (ctx : BspatchCtx) (below : ν) :
    (bspatchBytes next readOld bytes used label ctx below).1 ≠ ((used + bytes.length : Nat) : Int) ↔
      PatchStops next readOld bytes label ctx below := by
  induction bytes generalizing used label ctx below with
  | nil => exact ⟨fun differs => absurd rfl differs, False.elim⟩
  | cons byte rest ih =>
      rw [bspatchBytes, PatchStops, List.length_cons]
      rcases read : bspatchByte next readOld byte label ctx below with
        ⟨label' | _ | ret, ctx', below'⟩
      · have more := ih (used + 1) label' ctx' below'
        rw [show used + 1 + rest.length = used + (rest.length + 1) by omega] at more
        exact more
      · have length : rest ≠ [] ↔ 0 < rest.length := List.length_pos_iff_ne_nil.symm
        simp only [length]
        omega
      · have negative := bspatchByte_failed read
        simp only [ne_eq, iff_true]
        omega

/-- **A call of the patch stage** does not return its length exactly when the patch is refused or
ends too early. -/
theorem bspatchPipeline_refused_iff (chunk : List UInt8) (ctx : BspatchCtx) (below : ν) :
    (bspatchPipeline next readOld chunk (ctx, below)).1 ≠ chunk.length ↔
      PatchRefused next readOld chunk ctx below := by
  have stops := @bspatchBytes_stops_iff ν next readOld chunk 0
  simp only [Nat.zero_add] at stops
  unfold PatchRefused
  by_cases finished : ctx.finish = true
  · have ended : bspatchPipeline next readOld chunk (ctx, below) = (0, ctx, below) :=
      if_pos finished
    have length : chunk ≠ [] ↔ 0 < chunk.length := List.length_pos_iff_ne_nil.symm
    rw [ended, if_pos finished, length]
    show (0 : Int) ≠ chunk.length ↔ _
    omega
  · rw [if_neg finished, bspatchPipeline, if_neg finished]
    cases ctx.state with
    | none => exact stops _ _ _
    | some label => exact stops _ _ _

/-- **What the stage below returns** does not matter to the patch stage, only what it does. -/
theorem patchStops_congr {other : Stage ν}
    (same : ∀ data below, (next data below).2 = (other data below).2) (bytes : List UInt8)
    (label : BspatchLabel) (ctx : BspatchCtx) (below : ν) :
    PatchStops next readOld bytes label ctx below ↔
      PatchStops other readOld bytes label ctx below := by
  have step : ∀ byte label ctx below, bspatchByte next readOld byte label ctx below =
      bspatchByte other readOld byte label ctx below := by
    intro byte label ctx below
    cases label with
    | header => rfl
    | ctrl => rfl
    | diff => simp only [bspatchByte, same]
    | extra => simp only [bspatchByte, same]
  induction bytes generalizing label ctx below with
  | nil => exact Iff.rfl
  | cons byte rest ih =>
      rw [PatchStops, PatchStops, step]
      split
      · exact ih _ _ _
      · exact Iff.rfl
      · exact Iff.rfl

theorem patchRefused_congr {other : Stage ν}
    (same : ∀ data below, (next data below).2 = (other data below).2) (chunk : List UInt8)
    (ctx : BspatchCtx) (below : ν) :
    PatchRefused next readOld chunk ctx below ↔ PatchRefused other readOld chunk ctx below := by
  unfold PatchRefused
  split
  · exact Iff.rfl
  · split
    · exact patchStops_congr same _ _ _ _
    · exact patchStops_congr same _ _ _ _

end Patches

/-! ### Chains -/

section Chains

variable {σ : Type} (M : MemoryInterface σ) (old : MemObject)

/-- How a call into a chain comes to return something other than its length: the writer returns what
the memory does; the LZSS stage when the stage below refuses a literal; the patch stage when the
patch is refused or ends too early; the buffer stage never. -/
def Reports : (chain : List ChainStage) → List UInt8 → ChainState σ chain → Prop
  | [], chunk, state => (M.memoryWrite state.1.obj chunk state.1.written state.2).1 ≠ chunk.length
  | .lzss :: below, chunk, state => LiteralRefused (chainPipeline M old below)
      (chunk.flatMap byteBits) (lzssStart state.1).1 (lzssStart state.1).2 state.2
  | .bspatch :: below, chunk, state => PatchRefused (chainPipeline M old below)
      (fun offset => chainRead M old offset below) chunk state.1 state.2
  | .buffer :: _, _, _ => False

/-- **A call into a chain** does not return its length exactly when the chain reports. -/
theorem chain_reports_iff (chain : List ChainStage) (chunk : List UInt8)
    (state : ChainState σ chain) :
    (chainPipeline M old chain chunk state).1 ≠ chunk.length ↔ Reports M old chain chunk state := by
  cases chain with
  | nil => exact Iff.rfl
  | cons stage below =>
      cases stage with
      | lzss => exact lzssPipeline_refused_iff chunk state.1 state.2
      | bspatch => exact bspatchPipeline_refused_iff chunk state.1 state.2
      | buffer => exact ⟨fun differs => absurd rfl differs, False.elim⟩

end Chains

end Upkit
