/-
**The decoder of `firmware_tool`, and the LZSS stage against it.**

`pipeline_decompress_command` decodes a whole file: its `getbit` reads bits from the file and reports
its end. A reader that has taken some bits of a byte stands for the list of the bits that are left
(`Reads`), and on this list the command runs code by code as the stage does bit by bit.

* `getbitLoop_enough`, `getbitLoop_short` — `getbit` takes bits, or meets the end of the file.
* `decompressLoop_eq` — the command writes what a run of the stage hands on.
* `lzss_decompresses` — a session of the stage, in any chunks, against the command.
-/

import Mathlib.Data.Nat.Bitwise
import Upkit.Pipeline.LzssRun

namespace Upkit

open Bits

/-! ### The command -/

/-- The input file and the static variables of `getbit`. `buf` is an `int` made from a `char`; no
mask reaches the bits its sign adds. -/
structure BitReader where
  input : List UInt8
  buf : UInt8
  mask : Nat

/-- A byte is fetched when the mask has run out; `none` is the end of the file. -/
def BitReader.load (reader : BitReader) : Option BitReader :=
  if reader.mask = 0 then
    match reader.input with
    | [] => none
    | c :: rest => some ⟨rest, c, 128⟩
  else some reader

/-- The loop of `getbit`; `none` is `EOF`. -/
def getbitLoop : (n x : Nat) → BitReader → Option Nat × BitReader
  | 0, x, reader => (some x, reader)
  | n + 1, x, reader =>
      match reader.load with
      | none => (none, reader)
      | some reader =>
          getbitLoop n (2 * x + if reader.buf.toNat &&& reader.mask ≠ 0 then 1 else 0)
            { reader with mask := reader.mask / 2 }

/-- `getbit`. -/
def getbit (reader : BitReader) (n : Nat) : Option Nat × BitReader := getbitLoop n 0 reader

/-- The ring of the command with its position, and the output file. -/
structure Unpacked where
  r : Nat
  buffer : Nat → UInt8
  output : List UInt8

/-- `output.put(c); buffer[r++] = c; r &= (N - 1)`. -/
def Unpacked.put (unpacked : Unpacked) (c : UInt8) : Unpacked where
  r := (unpacked.r + 1) % lzssN
  buffer := Function.update unpacked.buffer unpacked.r c
  output := unpacked.output ++ [c]

/-- The loop over a match. -/
def unpackMatch (i : Nat) : (count k : Nat) → Unpacked → Unpacked
  | 0, _, unpacked => unpacked
  | count + 1, k, unpacked =>
      unpackMatch i count (k + 1) (unpacked.put (unpacked.buffer ((i + k) % lzssN)))

/-- The loop of `pipeline_decompress_command`: the output file, or `none` when it has not ended. -/
def decompressLoop : (fuel : Nat) → BitReader → Unpacked → Option (List UInt8)
  | 0, _, _ => none
  | fuel + 1, reader, unpacked =>
      match getbit reader 1 with
      | (none, _) => some unpacked.output
      | (some c, reader) =>
          if c ≠ 0 then
            match getbit reader 8 with
            | (none, _) => some unpacked.output
            | (some c, reader) => decompressLoop fuel reader (unpacked.put (UInt8.ofNat c))
          else
            match getbit reader 10 with
            | (none, _) => some unpacked.output
            | (some i, reader) =>
                match getbit reader 4 with
                | (none, _) => some unpacked.output
                | (some j, reader) =>
                    decompressLoop fuel reader (unpackMatch i (j + 2) 0 unpacked)

/-- `pipeline_decompress_command` on a file, from a window: what it writes. A round reads at least
one bit. -/
def pipelineDecompressCommand (buffer : Nat → UInt8) (input : List UInt8) : Option (List UInt8) :=
  decompressLoop (8 * input.length + 1) ⟨input, 0, 0⟩
    ⟨lzssN - lzssF, fun index => if index < lzssN - lzssF then 32 else buffer index, []⟩

/-! ### `getbit` on the bits that are left -/

/-- The reader stands before these bits. -/
def Reads (reader : BitReader) (bits : List Bool) : Prop :=
  ∃ left ≤ 8, reader.mask = 2 ^ left / 2 ∧
    bits = toBits left reader.buf.toNat ++ reader.input.flatMap byteBits

theorem reads_file (input : List UInt8) : Reads ⟨input, 0, 0⟩ (input.flatMap byteBits) :=
  ⟨0, by decide, rfl, rfl⟩

theorem load_end {reader : BitReader} (reads : Reads reader []) : reader.load = none := by
  obtain ⟨left, _, mask, bits⟩ := reads
  obtain ⟨none, empty⟩ := List.append_eq_nil_iff.mp bits.symm
  have zero : left = 0 := by rw [← toBits_length left reader.buf.toNat, none, List.length_nil]
  have noInput : reader.input = [] := by
    have length := congrArg List.length empty
    rw [flatMap_byteBits_length, List.length_nil] at length
    exact List.length_eq_zero_iff.mp (by omega)
  rw [BitReader.load, mask, zero, noInput]
  rfl

/-- The bit under the mask. -/
theorem masked_bit (value left : Nat) :
    (if value &&& 2 ^ left ≠ 0 then 1 else 0) = (value.testBit left).toNat := by
  rw [Nat.and_two_pow]
  cases value.testBit left with
  | false => simp
  | true => simp

/-- **One bit is read.** -/
theorem load_bit {reader : BitReader} {bit : Bool} {bits : List Bool}
    (reads : Reads reader (bit :: bits)) : ∃ loaded, reader.load = some loaded ∧
      (if loaded.buf.toNat &&& loaded.mask ≠ 0 then 1 else 0) = bit.toNat ∧
      Reads { loaded with mask := loaded.mask / 2 } bits := by
  obtain ⟨left, few, mask, same⟩ := reads
  have half : ∀ count, 2 ^ (count + 1) / 2 = 2 ^ count := fun count => by
    rw [pow_succ, Nat.mul_div_cancel _ Nat.two_pos]
  cases left with
  | zero =>
      cases input : reader.input with
      | nil =>
          rw [input] at same
          exact absurd same (List.cons_ne_nil _ _)
      | cons c rest =>
          rw [input] at same
          obtain ⟨first, others⟩ := List.cons.inj same
          refine ⟨⟨rest, c, 128⟩, ?_, ?_, 7, by decide, rfl, others⟩
          · rw [BitReader.load, mask, input]
            rfl
          · rw [first]
            exact masked_bit c.toNat 7
  | succ left =>
      obtain ⟨first, others⟩ := List.cons.inj same
      rw [half] at mask
      refine ⟨reader, ?_, ?_, left, by omega, ?_, others⟩
      · rw [BitReader.load, mask, if_neg (Nat.two_pow_pos left).ne']
      · rw [first, mask]
        exact masked_bit _ left
      · simp only [mask]

/-- **Enough bits**: `getbit` takes the first `n`. -/
theorem getbitLoop_enough {reader : BitReader} {bits : List Bool} (reads : Reads reader bits)
    (n x : Nat) (enough : n ≤ bits.length) :
    ∃ reader', getbitLoop n x reader = (some (ofBits x (bits.take n)), reader') ∧
      Reads reader' (bits.drop n) := by
  induction n generalizing reader bits x with
  | zero => exact ⟨reader, rfl, reads⟩
  | succ n ih =>
      cases bits with
      | nil => exact absurd enough (Nat.not_succ_le_zero n)
      | cons bit bits =>
          obtain ⟨loaded, loads, value, reads'⟩ := load_bit reads
          obtain ⟨reader', got, reads''⟩ := ih reads' (2 * x + bit.toNat)
            (Nat.le_of_succ_le_succ enough)
          refine ⟨reader', ?_, reads''⟩
          rw [getbitLoop, loads]
          simp only [value]
          exact got

/-- **Too few bits**: `getbit` meets the end of the file. -/
theorem getbitLoop_short {reader : BitReader} {bits : List Bool} (reads : Reads reader bits)
    (n x : Nat) (few : bits.length < n) : (getbitLoop n x reader).1 = none := by
  induction n generalizing reader bits x with
  | zero => exact absurd few (Nat.not_lt_zero _)
  | succ n ih =>
      cases bits with
      | nil => rw [getbitLoop, load_end reads]
      | cons bit bits =>
          obtain ⟨loaded, loads, _, reads'⟩ := load_bit reads
          rw [getbitLoop, loads]
          exact ih reads' _ (Nat.lt_of_succ_lt_succ few)

/-! ### The command against the stage -/

/-- The ring of the command is the ring of the stage. -/
structure SameRing (unpacked : Unpacked) (ctx : LzssCtx) (seen : List UInt8) : Prop where
  r : unpacked.r = ctx.r
  buffer : unpacked.buffer = ctx.buffer
  output : unpacked.output = seen

theorem SameRing.put {unpacked : Unpacked} {ctx : LzssCtx} {seen : List UInt8}
    (same : SameRing unpacked ctx seen) (c : UInt8) :
    SameRing (unpacked.put c) (ctx.store c) (seen ++ [c]) where
  r := by rw [Unpacked.put, same.r]; rfl
  buffer := by rw [Unpacked.put, same.buffer, same.r]; rfl
  output := by rw [Unpacked.put, same.output]

theorem unpackMatch_copy (i count k : Nat) {unpacked : Unpacked} {ctx : LzssCtx}
    {seen : List UInt8} (source : ctx.i = i) (same : SameRing unpacked ctx seen) :
    SameRing (unpackMatch i count k unpacked) (lzssCopy collect count k (ctx, seen)).1
      (lzssCopy collect count k (ctx, seen)).2 := by
  induction count generalizing k unpacked ctx seen with
  | zero => exact same
  | succ count ih =>
      rw [unpackMatch, lzssCopy, same.buffer, ← source]
      exact source ▸ ih (k + 1) source (same.put _)

section Code

variable (fuel : Nat)
  (later : ∀ {reader : BitReader} {bits : List Bool} {unpacked : Unpacked} {ctx : LzssCtx}
    {seen : List UInt8}, Reads reader bits → bits.length < fuel → ctx.AtFlag →
    SameRing unpacked ctx seen →
      decompressLoop fuel reader unpacked = some (lzssBits collect bits .flag ctx seen).2.2)
  {reader : BitReader} {bits : List Bool} {unpacked : Unpacked} {ctx : LzssCtx} {seen : List UInt8}

include later

/-- The code after the flag of a literal. -/
theorem decompressLiteral (reads : Reads reader bits) (enough : bits.length < fuel)
    (start : ctx.AtFlag) (same : SameRing unpacked ctx seen) :
    (match getbit reader 8 with
      | (none, _) => some unpacked.output
      | (some c, reader) => decompressLoop fuel reader (unpacked.put (UInt8.ofNat c))) =
      some (lzssBits collect (true :: bits) .flag ctx seen).2.2 := by
  by_cases whole : 8 ≤ bits.length
  · obtain ⟨afterByte, byte, reads'⟩ := getbitLoop_enough reads 8 0 whole
    have width : (bits.take 8).length = 8 := List.length_take_of_le whole
    have cut := List.take_append_drop 8 bits
    rw [getbit, byte]
    conv_rhs => rw [← cut, lzssBits_literal start seen _ width]
    exact later reads' (by rw [List.length_drop]; omega) start (same.put _)
  · have ends := getbitLoop_short reads 8 0 (by omega)
    rw [lzssBits_cutOff start seen (Or.inr (Or.inl ⟨bits, rfl, by omega⟩)), getbit]
    generalize getbitLoop 8 0 reader = got at ends
    obtain ⟨_, _⟩ := got
    simp only at ends
    subst ends
    exact congrArg some same.output

/-- The code after the flag of a match. -/
theorem decompressMatch (reads : Reads reader bits) (enough : bits.length < fuel)
    (start : ctx.AtFlag) (same : SameRing unpacked ctx seen) :
    (match getbit reader 10 with
      | (none, _) => some unpacked.output
      | (some i, reader) =>
          match getbit reader 4 with
          | (none, _) => some unpacked.output
          | (some j, reader) => decompressLoop fuel reader (unpackMatch i (j + 2) 0 unpacked)) =
      some (lzssBits collect (false :: bits) .flag ctx seen).2.2 := by
  by_cases hasOffset : 10 ≤ bits.length
  · obtain ⟨afterOffset, offset, reads'⟩ := getbitLoop_enough reads 10 0 hasOffset
    have offsetWidth : (bits.take 10).length = 10 := List.length_take_of_le hasOffset
    have cut := List.take_append_drop 10 bits
    simp only [getbit, offset]
    by_cases whole : 4 ≤ (bits.drop 10).length
    · obtain ⟨afterLength, length, reads''⟩ := getbitLoop_enough reads' 4 0 whole
      have lengthWidth : ((bits.drop 10).take 4).length = 4 := List.length_take_of_le whole
      have cut' := List.take_append_drop 4 (bits.drop 10)
      rw [List.length_drop] at whole
      simp only [length]
      conv_rhs => rw [← cut, ← cut', lzssBits_match start seen _ offsetWidth lengthWidth]
      have begun : SameRing unpacked
          ({ ctx with
            i := ofBits 0 (bits.take 10)
            j := ofBits 0 ((bits.drop 10).take 4)
            s := 4 } : LzssCtx) seen :=
        ⟨same.r, same.buffer, same.output⟩
      have copied := unpackMatch_copy (ofBits 0 (bits.take 10))
        (ofBits 0 ((bits.drop 10).take 4) + 2) 0 rfl begun
      exact later reads'' (by rw [List.length_drop, List.length_drop]; omega) ⟨rfl, rfl⟩
        ⟨copied.r, copied.buffer, copied.output⟩
    · have ends := getbitLoop_short reads' 4 0 (by omega)
      rw [List.length_drop] at whole
      rw [lzssBits_cutOff start seen (Or.inr (Or.inr ⟨bits, rfl, by omega⟩))]
      generalize getbitLoop 4 0 afterOffset = got at ends
      obtain ⟨_, _⟩ := got
      simp only at ends
      subst ends
      exact congrArg some same.output
  · have ends := getbitLoop_short reads 10 0 (by omega)
    rw [lzssBits_cutOff start seen (Or.inr (Or.inr ⟨bits, rfl, by omega⟩)), getbit]
    generalize getbitLoop 10 0 reader = got at ends
    obtain ⟨_, _⟩ := got
    simp only at ends
    subst ends
    exact congrArg some same.output

end Code

/-- **The command writes what the stage hands on**, from any bit on where a code begins. -/
theorem decompressLoop_eq (fuel : Nat) {reader : BitReader} {bits : List Bool}
    {unpacked : Unpacked} {ctx : LzssCtx} {seen : List UInt8} (reads : Reads reader bits)
    (enough : bits.length < fuel) (start : ctx.AtFlag) (same : SameRing unpacked ctx seen) :
    decompressLoop fuel reader unpacked = some (lzssBits collect bits .flag ctx seen).2.2 := by
  induction fuel generalizing reader bits unpacked ctx seen with
  | zero => exact absurd enough (Nat.not_lt_zero _)
  | succ fuel ih =>
      cases bits with
      | nil =>
          have ends := getbitLoop_short reads 1 0 Nat.one_pos
          rw [decompressLoop, getbit]
          generalize getbitLoop 1 0 reader = got at ends
          obtain ⟨_, _⟩ := got
          simp only at ends
          subst ends
          exact congrArg some same.output
      | cons bit rest =>
          obtain ⟨afterFlag, flag, reads⟩ := getbitLoop_enough reads 1 0
            (Nat.succ_le_succ (Nat.zero_le _))
          simp only [List.length_cons] at enough
          rw [decompressLoop, getbit, flag]
          cases bit with
          | true => exact decompressLiteral fuel ih reads (by omega) start same
          | false => exact decompressMatch fuel ih reads (by omega) start same

/-- **The streaming decoder equals the one-shot one**: whatever the bytes are and however they are
split, the stage hands on what the command writes from the same window, every call returns its
length, and every window index is inside. -/
theorem lzss_decompresses {ν : Type} {next : Stage ν}
    (accepts : ∀ data below, 0 ≤ (next data below).1) (chunks : List (List UInt8)) (ctx : LzssCtx)
    (below : ν) :
    let stage := lzssPipeline (recording next)
    let fed := feed stage chunks (pipelineLzssInit ctx, below, [])
    pipelineDecompressCommand ctx.buffer chunks.flatten = some fed.2.2.2.flatten ∧
      fed.1 = chunks.map (fun chunk => (chunk.length : Int)) ∧
      ∀ done chunk rest, chunks = done ++ chunk :: rest →
        ∀ index ∈ lzssCallIndices chunk (feed stage done (pipelineLzssInit ctx, below, [])).2.1,
          index < 2 * lzssN := by
  intro stage fed
  have session := feed_lzss_begins (tracks_accepting accepts below) chunks ctx [] trivial
  have unpacked := decompressLoop_eq (8 * chunks.flatten.length + 1) (reads_file chunks.flatten)
    (by rw [flatMap_byteBits_length]; omega) (⟨rfl, rfl⟩ : ctx.begin.AtFlag)
    (⟨rfl, rfl, rfl⟩ : SameRing ⟨lzssN - lzssF, ctx.begin.buffer, []⟩ ctx.begin [])
  refine ⟨unpacked.trans (congrArg some ?_), session.1, fun done chunk rest _ index member => ?_⟩
  · rw [show fed.2.2 = _ from session.2, ← List.flatMap_def, List.flatMap_singleton']
  · have ready := feed_ready (recording next) done (below, [])
      (Or.inl rfl : (pipelineLzssInit ctx).Ready)
    have inside := lzssCallIndices_lt chunk ready index member
    omega

/-- The static variables before the first session. -/
def zeroLzss : LzssCtx := ⟨none, 0, 0, 0, 0, 0, fun _ => 0⟩

/-- A match of the blanks of the window, split inside its offset. -/
theorem blanks_decompressed :
    let stage := lzssPipeline (recording collect)
    let fed := feed stage [[0x00], [0x1C, 0x80]] (pipelineLzssInit zeroLzss, [], [])
    pipelineDecompressCommand zeroLzss.buffer [[0x00], [0x1C, 0x80]].flatten =
        some fed.2.2.2.flatten ∧
      fed.1 = [[0x00], [0x1C, 0x80]].map (fun chunk : List UInt8 => (chunk.length : Int)) ∧
      ∀ done chunk rest, [[0x00], [0x1C, 0x80]] = done ++ chunk :: rest →
        ∀ index ∈ lzssCallIndices chunk (feed stage done (pipelineLzssInit zeroLzss, [], [])).2.1,
          index < 2 * lzssN :=
  @lzss_decompresses _ collect (fun _ _ => Int.natCast_nonneg _) [[0x00], [0x1C, 0x80]] zeroLzss []

end Upkit
