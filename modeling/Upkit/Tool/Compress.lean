/-
**The encoder of `firmware_tool`, and the LZSS round trip.**

`pipeline_compress_command` looks for the longest earlier occurrence of what comes next in a buffer of
two window lengths; when the position nears the end of the buffer, the second half is moved down and
the buffer is filled up from the file. Seen from the text with the initial blanks before it (`padded`),
the buffer is a part of it at a multiple of the window length, so an index of the encoder and the
index that the decoder finds the same byte at agree modulo the window length.

* `Written` — the bits that `putbit1` and `putbit0` have put out so far.
* `searchMatch_spec` — what the search finds is an earlier occurrence.
* `Decodes` — the bits so far decode to a prefix of the text, and the ring of the decoder holds its
  end; `decodes_literal` and `decodes_match` add a code.
* `lzss_roundTrip` — every text, in any chunks.
-/

import Upkit.Lib.Window
import Upkit.Tool.Decompress

namespace Upkit

open Bits Window

/-! ### The output of bits -/

/-- `bit_buffer`, `bit_mask` and the output file. -/
structure BitWriter where
  bitBuffer : Nat
  bitMask : Nat
  outfile : List UInt8

/-- `if ((bit_mask >>= 1) == 0)`: a full byte is put out. -/
def BitWriter.advance (writer : BitWriter) : BitWriter :=
  if writer.bitMask / 2 = 0 then ⟨0, 128, writer.outfile ++ [UInt8.ofNat writer.bitBuffer]⟩
  else { writer with bitMask := writer.bitMask / 2 }

/-- `putbit1`. -/
def putbit1 (writer : BitWriter) : BitWriter :=
  BitWriter.advance { writer with bitBuffer := writer.bitBuffer ||| writer.bitMask }

/-- `putbit0`. -/
def putbit0 (writer : BitWriter) : BitWriter := writer.advance

/-- `flush_bit_buffer`. -/
def flushBitBuffer (writer : BitWriter) : BitWriter :=
  if writer.bitMask ≠ 128 then
    { writer with outfile := writer.outfile ++ [UInt8.ofNat writer.bitBuffer] }
  else writer

/-- The loop `while (mask >>= 1)` with `count` bits of `mask` left. -/
def putMasked (value : Nat) : (count : Nat) → BitWriter → BitWriter
  | 0, writer => writer
  | count + 1, writer =>
      putMasked value count
        (if value &&& 2 ^ count ≠ 0 then putbit1 writer else putbit0 writer)

/-- `output1`: no mask reaches the bits above the lowest eight. -/
def output1 (writer : BitWriter) (c : Int) : BitWriter :=
  putMasked (c % 256).toNat 8 (putbit1 writer)

/-- `output2`. -/
def output2 (writer : BitWriter) (x y : Nat) : BitWriter :=
  putMasked y 4 (putMasked x 10 (putbit0 writer))

/-! ### The command -/

/-- A byte in a variable of type `char`, which is signed or not as the platform has it. -/
def charValue (signed : Bool) (byte : UInt8) : Int :=
  if signed ∧ 128 ≤ byte.toNat then byte.toNat - 256 else byte.toNat

/-- The loop that fills the buffer from the file: the buffer, its end and the rest of the file. -/
def fillBuffer : List UInt8 → (Nat → UInt8) → Nat → (Nat → UInt8) × Nat × List UInt8
  | [], buffer, bufferend => (buffer, bufferend, [])
  | c :: rest, buffer, bufferend =>
      if bufferend < 2 * lzssN then
        fillBuffer rest (Function.update buffer bufferend c) (bufferend + 1)
      else (buffer, bufferend, c :: rest)

/-- The loop over `j`, with `count` rounds left. -/
def matchLength (buffer : Nat → UInt8) (i r : Nat) : (count j : Nat) → Nat
  | 0, j => j
  | count + 1, j => if buffer (i + j) ≠ buffer (r + j) then j else matchLength buffer i r count (j + 1)

/-- The loop over `i`, from `s + count - 1` down to `s`: `x` and `y`. -/
def searchMatch (buffer : Nat → UInt8) (c : Int) (r s f1 : Nat) : (count x y : Nat) → Nat × Nat
  | 0, x, y => (x, y)
  | count + 1, x, y =>
      if ((buffer (s + count)).toNat : Int) = c then
        let j := matchLength buffer (s + count) r (f1 - 1) 1
        if y < j then searchMatch buffer c r s f1 count (s + count) j
        else searchMatch buffer c r s f1 count x y
      else searchMatch buffer c r s f1 count x y

/-- The variables of `pipeline_compress_command`. -/
structure Packer where
  buffer : Nat → UInt8
  bufferend : Nat
  r : Nat
  s : Nat
  input : List UInt8
  writer : BitWriter

/-- The code of the next bytes, and how many they are. -/
def Packer.code (signed : Bool) (packer : Packer) : Nat × BitWriter :=
  let f1 := if lzssF ≤ packer.bufferend - packer.r then lzssF else packer.bufferend - packer.r
  let c := charValue signed (packer.buffer packer.r)
  let (x, y) := searchMatch packer.buffer c packer.r packer.s f1 (packer.r - packer.s) 0 1
  if y ≤ 1 then (1, output1 packer.writer c)
  else (y, output2 packer.writer (x % lzssN) (y - 2))

/-- The buffer moved down by its first half and filled up. -/
def Packer.shift (packer : Packer) : Packer :=
  let moved := fun index =>
    if index < lzssN then packer.buffer (index + lzssN) else packer.buffer index
  let (buffer, bufferend, input) := fillBuffer packer.input moved (packer.bufferend - lzssN)
  { packer with
    buffer := buffer
    bufferend := bufferend
    r := packer.r - lzssN
    s := packer.s - lzssN
    input := input }

/-- One round of the loop. -/
def Packer.round (signed : Bool) (packer : Packer) : Packer :=
  let (y, writer) := packer.code signed
  let packer := { packer with r := packer.r + y, s := packer.s + y, writer := writer }
  if 2 * lzssN - lzssF ≤ packer.r then packer.shift else packer

/-- The loop; `none` when it has not ended. -/
def compressLoop (signed : Bool) : (fuel : Nat) → Packer → Option Packer
  | 0, _ => none
  | fuel + 1, packer =>
      if packer.r < packer.bufferend then compressLoop signed fuel (packer.round signed)
      else some packer

/-- `pipeline_compress_command` on a file: the code it writes, before it prints its statistics. A
round takes at least one byte. -/
def pipelineCompressCommand (signed : Bool) (buffer : Nat → UInt8) (text : List UInt8) :
    Option (List UInt8) :=
  let blank := fun index => if index < lzssN - lzssF then 32 else buffer index
  let (buffer, bufferend, input) := fillBuffer text blank (lzssN - lzssF)
  let packed := compressLoop signed (text.length + 1)
    ⟨buffer, bufferend, lzssN - lzssF, 0, input, ⟨0, 128, []⟩⟩
  packed.map fun packer => (flushBitBuffer packer.writer).outfile

/-! ### The bits put out -/

/-- The bits a writer has been given: those of its file, and fewer than eight that wait. -/
def Written (writer : BitWriter) (bits : List Bool) : Prop :=
  ∃ pending, pending.length < 8 ∧ writer.bitMask = 2 ^ (7 - pending.length) ∧
    writer.bitBuffer = ofBits 0 pending * 2 ^ (8 - pending.length) ∧
    bits = writer.outfile.flatMap byteBits ++ pending

theorem written_begin : Written ⟨0, 128, []⟩ [] := ⟨[], by decide, rfl, rfl, rfl⟩

theorem byteBits_ofBits {bits : List Bool} (width : bits.length = 8) :
    byteBits (UInt8.ofNat (ofBits 0 bits)) = bits := by
  have small := ofBits_lt bits
  rw [width] at small
  rw [byteBits_eq, UInt8.toNat_ofNat_of_lt' small]
  conv_rhs => rw [← toBits_ofBits bits, width]

/-- A bit that stands in the buffer at the place of the mask. -/
theorem advance_written {writer : BitWriter} {pending : List Bool} {bit : Bool}
    (few : pending.length < 8) (mask : writer.bitMask = 2 ^ (7 - pending.length))
    (buffer : writer.bitBuffer = ofBits 0 (pending ++ [bit]) * 2 ^ (7 - pending.length)) :
    Written writer.advance (writer.outfile.flatMap byteBits ++ (pending ++ [bit])) := by
  have length : (pending ++ [bit]).length = pending.length + 1 := List.length_append
  unfold BitWriter.advance
  by_cases last : pending.length = 7
  · have full : UInt8.ofNat writer.bitBuffer = UInt8.ofNat (ofBits 0 (pending ++ [bit])) := by
      rw [buffer, last, Nat.sub_self, pow_zero, Nat.mul_one]
    rw [mask, last, Nat.sub_self, pow_zero, if_pos (by decide)]
    refine ⟨[], by decide, rfl, rfl, ?_⟩
    rw [List.append_nil, List.flatMap_append, List.flatMap_singleton, full,
      byteBits_ofBits (by omega)]
  · have shifted : 7 - pending.length = (6 - pending.length) + 1 := by omega
    have half : 2 ^ (7 - pending.length) / 2 = 2 ^ (6 - pending.length) := by
      rw [shifted, pow_succ, Nat.mul_div_cancel _ Nat.two_pos]
    rw [mask, half, if_neg (Nat.two_pow_pos _).ne']
    refine ⟨pending ++ [bit], by omega, ?_, ?_, rfl⟩
    · rw [length]
      exact congrArg (2 ^ ·) (by omega)
    · rw [length]
      exact buffer.trans (congrArg (_ * 2 ^ ·) (by omega))

theorem putbit_written {writer : BitWriter} {bits : List Bool} (written : Written writer bits)
    (bit : Bool) : Written (if bit then putbit1 writer else putbit0 writer) (bits ++ [bit]) := by
  obtain ⟨pending, few, mask, buffer, same⟩ := written
  have double : 2 ^ (8 - pending.length) = 2 * 2 ^ (7 - pending.length) := by
    rw [show 8 - pending.length = (7 - pending.length) + 1 by omega, pow_succ, Nat.mul_comm]
  have doubled : ofBits 0 pending * 2 ^ (8 - pending.length) =
      2 * ofBits 0 pending * 2 ^ (7 - pending.length) := by
    rw [double]
    ring
  rw [same, List.append_assoc]
  cases bit with
  | false =>
      refine advance_written few mask ?_
      rw [buffer, doubled, ofBits_append]
      rfl
  | true =>
      have set : writer.bitBuffer ||| writer.bitMask =
          ofBits 0 (pending ++ [true]) * 2 ^ (7 - pending.length) := by
        have small : 2 ^ (7 - pending.length) < 2 ^ (8 - pending.length) := by
          rw [double]
          have positive := Nat.two_pow_pos (7 - pending.length)
          omega
        rw [buffer, mask, Nat.mul_comm, ← Nat.two_pow_add_eq_or_of_lt small, Nat.mul_comm, doubled,
          ofBits_append]
        show _ = (2 * ofBits 0 pending + 1) * _
        ring
      exact @advance_written { writer with bitBuffer := writer.bitBuffer ||| writer.bitMask }
        pending true few mask set

/-- **The bits under the masks** are put out, the most significant first. -/
theorem putMasked_written {writer : BitWriter} {bits : List Bool} (written : Written writer bits)
    (value count : Nat) : Written (putMasked value count writer) (bits ++ toBits count value) := by
  induction count generalizing writer bits with
  | zero =>
      rw [toBits, List.append_nil]
      exact written
  | succ count ih =>
      have chosen : (if value &&& 2 ^ count ≠ 0 then putbit1 writer else putbit0 writer) =
          if value.testBit count then putbit1 writer else putbit0 writer := by
        have masked := masked_bit value count
        cases bit : value.testBit count with
        | false =>
            rw [bit] at masked
            rw [if_neg fun set => absurd ((if_pos set).symm.trans masked) one_ne_zero]
            rfl
        | true =>
            rw [bit] at masked
            rw [if_pos (by_contra fun clear => absurd ((if_neg clear).symm.trans masked) zero_ne_one)]
            rfl
      rw [putMasked, chosen, toBits, List.append_cons]
      exact ih (putbit_written written _)

theorem output1_written {writer : BitWriter} {bits : List Bool} (written : Written writer bits)
    (c : Int) : Written (output1 writer c) (bits ++ true :: toBits 8 (c % 256).toNat) := by
  rw [List.append_cons]
  exact putMasked_written (putbit_written written true) _ 8

theorem output2_written {writer : BitWriter} {bits : List Bool} (written : Written writer bits)
    (x y : Nat) : Written (output2 writer x y) (bits ++ false :: (toBits 10 x ++ toBits 4 y)) := by
  rw [List.append_cons, ← List.append_assoc]
  exact putMasked_written (putMasked_written (putbit_written written false) _ 10) _ 4

/-- **The last byte** is filled up with zeros. -/
theorem flush_written {writer : BitWriter} {bits : List Bool} (written : Written writer bits) :
    ∃ count < 8, (flushBitBuffer writer).outfile.flatMap byteBits =
      bits ++ List.replicate count false := by
  obtain ⟨pending, few, mask, buffer, same⟩ := written
  unfold flushBitBuffer
  by_cases none : pending = []
  · rw [mask, none, if_neg (by decide)]
    refine ⟨0, by decide, ?_⟩
    rw [same, none, List.replicate_zero, List.append_nil, List.append_nil]
  · have some := List.length_pos_iff.mpr none
    have waits : writer.bitMask ≠ 128 := by
      rw [mask]
      exact ((Nat.pow_lt_pow_iff_right (by decide)).mpr (show 7 - pending.length < 7 by omega)).ne
    have filled : ofBits 0 (pending ++ List.replicate (8 - pending.length) false) =
        writer.bitBuffer := by
      rw [buffer, ofBits_append, ofBits_start, ofBits_zeros, List.length_replicate, Nat.add_zero]
    rw [if_pos waits]
    refine ⟨8 - pending.length, by omega, ?_⟩
    simp only
    rw [List.flatMap_append, List.flatMap_singleton, ← filled, byteBits_ofBits (by
      rw [List.length_append, List.length_replicate]
      omega), same, List.append_assoc]

/-! ### The search -/

/-- The length found is one for which the bytes agree. -/
theorem matchLength_spec (buffer : Nat → UInt8) (i r count j : Nat) :
    j ≤ matchLength buffer i r count j ∧ matchLength buffer i r count j ≤ j + count ∧
      ∀ k, j ≤ k → k < matchLength buffer i r count j → buffer (i + k) = buffer (r + k) := by
  induction count generalizing j with
  | zero => exact ⟨le_rfl, le_rfl, fun k low high => absurd high (not_lt.mpr low)⟩
  | succ count ih =>
      rw [matchLength]
      by_cases differs : buffer (i + j) ≠ buffer (r + j)
      · rw [if_pos differs]
        exact ⟨le_rfl, by omega, fun k low high => absurd high (not_lt.mpr low)⟩
      · rw [if_neg differs]
        obtain ⟨above, below, agree⟩ := ih (j + 1)
        refine ⟨by omega, by omega, fun k low high => ?_⟩
        by_cases first : k = j
        · rw [first]
          exact not_not.mp differs
        · exact agree k (by omega) high

/-- An earlier occurrence, in the buffer, of `y` bytes from `r` on. -/
structure Occurs (buffer : Nat → UInt8) (r s f1 x y : Nat) : Prop where
  inside : s ≤ x
  earlier : x < r
  short : y ≤ f1
  agrees : ∀ k < y, buffer (x + k) = buffer (r + k)

/-- A `char` that equals a byte of the buffer was made from that byte. -/
theorem charValue_eq {signed : Bool} {byte other : UInt8}
    (same : (other.toNat : Int) = charValue signed byte) : other = byte := by
  have small : byte.toNat < 256 := byte.toNat_lt
  unfold charValue at same
  split at same
  · omega
  · exact UInt8.toNat_inj.mp (by omega)

/-- **What the search finds**: nothing, or an earlier occurrence. -/
theorem searchMatch_spec (buffer : Nat → UInt8) (signed : Bool) {r s f1 : Nat} (some : 1 ≤ f1)
    (count x y : Nat) (below : s + count ≤ r)
    (found : y = 1 ∨ 1 < y ∧ Occurs buffer r s f1 x y) :
    (searchMatch buffer (charValue signed (buffer r)) r s f1 count x y).2 = 1 ∨
      1 < (searchMatch buffer (charValue signed (buffer r)) r s f1 count x y).2 ∧
        Occurs buffer r s f1
          (searchMatch buffer (charValue signed (buffer r)) r s f1 count x y).1
          (searchMatch buffer (charValue signed (buffer r)) r s f1 count x y).2 := by
  induction count generalizing x y with
  | zero => exact found
  | succ count ih =>
      simp only [searchMatch]
      split
      · rename_i first
        split
        · rename_i longer
          obtain ⟨above, bound, agree⟩ := matchLength_spec buffer (s + count) r (f1 - 1) 1
          refine ih _ _ (by omega) (Or.inr ⟨?_, by omega, by omega, by omega, fun k inside => ?_⟩)
          · rcases found with one | ⟨many, _⟩
            · omega
            · omega
          · by_cases zero : k = 0
            · rw [zero, Nat.add_zero, Nat.add_zero]
              exact charValue_eq first
            · exact agree k (by omega) inside
        · exact ih x y (by omega) found
      · exact ih x y (by omega) found

/-! ### What the bits decode to -/

/-- The text with the blanks of the window before it. -/
def padded (text : List UInt8) (place : Nat) : UInt8 :=
  if place < lzssN - lzssF then 32 else text.getD (place - (lzssN - lzssF)) 0

/-- The ring of a decoder that has come to a position of the padded text. -/
structure RingAt (text : List UInt8) (position : Nat) (ctx : LzssCtx) : Prop where
  r : ctx.r = position % lzssN
  ring : Holds lzssN ctx.buffer (padded text) position

theorem RingAt.store {text : List UInt8} {position : Nat} {ctx : LzssCtx}
    (placed : RingAt text position ctx) :
    RingAt text (position + 1) (ctx.store (padded text position)) where
  r := by
    show (ctx.r + 1) % lzssN = _
    rw [placed.r, Nat.mod_add_mod]
  ring := by
    show Holds lzssN (Function.update ctx.buffer ctx.r _) _ _
    rw [placed.r]
    exact placed.ring.store

/-- The text up to a position, and one byte more. -/
theorem take_padded {text : List UInt8} {position : Nat} (low : lzssN - lzssF ≤ position)
    (inside : position < lzssN - lzssF + text.length) :
    text.take (position - (lzssN - lzssF)) ++ [padded text position] =
      text.take (position + 1 - (lzssN - lzssF)) := by
  have index : position - (lzssN - lzssF) < text.length := by omega
  rw [padded, if_neg (not_lt.mpr low), show position + 1 - (lzssN - lzssF) =
    position - (lzssN - lzssF) + 1 by omega, List.take_add_one, List.getElem?_eq_getElem index,
    List.getD_eq_getElem _ _ index]
  rfl

/-- **Copying** from an earlier place of the text. -/
theorem lzssCopy_text {text : List UInt8} {source position count : Nat} (k : Nat) {ctx : LzssCtx}
    (low : lzssN - lzssF ≤ position) (earlier : source < position)
    (near : position ≤ source + lzssN) (inside : position + k + count ≤ lzssN - lzssF + text.length)
    (agrees : ∀ index, k ≤ index → index < k + count →
      padded text (source + index) = padded text (position + index))
    (starts : ctx.i = source % lzssN) (placed : RingAt text (position + k) ctx) :
    RingAt text (position + k + count)
        (lzssCopy collect count k (ctx, text.take (position + k - (lzssN - lzssF)))).1 ∧
      (lzssCopy collect count k (ctx, text.take (position + k - (lzssN - lzssF)))).2 =
        text.take (position + k + count - (lzssN - lzssF)) := by
  induction count generalizing k ctx with
  | zero =>
      simp only [Nat.add_zero, lzssCopy, and_true]
      exact placed
  | succ count ih =>
      have read : ctx.buffer ((ctx.i + k) % lzssN) = padded text (position + k) := by
        rw [starts, Nat.mod_add_mod, placed.ring (source + k) (by omega) (by omega)]
        exact agrees k le_rfl (by omega)
      have next : position + k + (count + 1) = position + (k + 1) + count := by omega
      have stored : RingAt text (position + (k + 1)) (ctx.store (padded text (position + k))) :=
        placed.store
      have kept : (ctx.store (padded text (position + k))).i = source % lzssN := starts
      have rest := ih (k + 1) (by omega)
        (fun index low high => agrees index (by omega) (by omega)) kept stored
      rw [lzssCopy]
      simp only [read, collect]
      rw [take_padded (by omega) (by omega), next]
      exact rest

/-- The bits decode to the text up to a position, and the decoder waits for the next flag. -/
def Decodes (begun : LzssCtx) (text : List UInt8) (bits : List Bool) (position : Nat) : Prop :=
  ∃ ctx, lzssBits collect bits .flag begun [] =
      (some .flag, ctx, text.take (position - (lzssN - lzssF))) ∧
    ctx.AtFlag ∧ RingAt text position ctx

theorem decodes_begin (ctx : LzssCtx) (text : List UInt8) :
    Decodes ctx.begin text [] (lzssN - lzssF) := by
  refine ⟨ctx.begin, ?_, ⟨rfl, rfl⟩, rfl, fun place before _ => ?_⟩
  · rw [Nat.sub_self]
    rfl
  · rw [padded, if_pos before, Nat.mod_eq_of_lt (lt_of_lt_of_le before (Nat.sub_le _ _))]
    exact if_pos before

section Codes

variable {begun : LzssCtx} {text : List UInt8} {bits : List Bool} {position : Nat}
  (decodes : Decodes begun text bits position) (low : lzssN - lzssF ≤ position)

include decodes low

/-- **A literal** decodes to the next byte. -/
theorem decodes_literal (inside : position < lzssN - lzssF + text.length) :
    Decodes begun text (bits ++ true :: toBits 8 (padded text position).toNat) (position + 1) := by
  obtain ⟨ctx, run, start, placed⟩ := decodes
  have byte : UInt8.ofNat (ofBits 0 (toBits 8 (padded text position).toNat)) =
      padded text position := by
    rw [ofBits_toBits_small (padded text position).toNat_lt, UInt8.ofNat_toNat]
  have code := lzssBits_literal start (text.take (position - (lzssN - lzssF))) []
    (toBits_length 8 (padded text position).toNat)
  rw [List.append_nil, byte, take_padded low inside] at code
  refine ⟨ctx.store (padded text position), ?_, start, placed.store⟩
  rw [lzssBits_append, run]
  exact code

/-- **A match** decodes to a repetition. -/
theorem decodes_match {source count : Nat} (earlier : source < position)
    (near : position ≤ source + lzssN) (some : 2 ≤ count) (few : count ≤ lzssF)
    (inside : position + count ≤ lzssN - lzssF + text.length)
    (agrees : ∀ index < count, padded text (source + index) = padded text (position + index)) :
    Decodes begun text
      (bits ++ false :: (toBits 10 (source % lzssN) ++ toBits 4 (count - 2)))
      (position + count) := by
  obtain ⟨ctx, run, start, placed⟩ := decodes
  have offset : ofBits 0 (toBits 10 (source % lzssN)) = source % lzssN :=
    ofBits_toBits_small (Nat.mod_lt _ (by decide))
  have length : ofBits 0 (toBits 4 (count - 2)) + 2 = count := by
    rw [ofBits_toBits_small (by unfold lzssF at few; omega)]
    omega
  have code := lzssBits_match start (text.take (position - (lzssN - lzssF))) []
    (toBits_length 10 (source % lzssN)) (toBits_length 4 (count - 2))
  rw [List.append_nil, length] at code
  have copied := @lzssCopy_text text source position count 0
    { ctx with
      i := ofBits 0 (toBits 10 (source % lzssN))
      j := ofBits 0 (toBits 4 (count - 2))
      s := 4 }
    low earlier near (by omega) (fun index _ below => agrees index (by omega)) offset
    ⟨placed.r, placed.ring⟩
  rw [Nat.add_zero] at copied
  obtain ⟨ring, seen⟩ := copied
  simp only [seen] at code
  have whole : lzssBits collect
      (bits ++ false :: (toBits 10 (source % lzssN) ++ toBits 4 (count - 2))) .flag begun [] =
        lzssBits collect (false :: (toBits 10 (source % lzssN) ++ toBits 4 (count - 2))) .flag ctx
          (text.take (position - (lzssN - lzssF))) := by
    rw [lzssBits_append, run]
  exact ⟨_, whole.trans code, ⟨rfl, rfl⟩, ring.r, ring.ring⟩

/-- **The bits that fill up the last byte** decode to nothing. -/
theorem decodes_padding (ends : position = lzssN - lzssF + text.length) {count : Nat}
    (few : count < 8) :
    (lzssBits collect (bits ++ List.replicate count false) .flag begun []).2.2 = text := by
  obtain ⟨ctx, run, start, _⟩ := decodes
  have whole : text.take (position - (lzssN - lzssF)) = text :=
    List.take_of_length_le (by omega)
  rw [lzssBits_append, run]
  refine (lzssBits_cutOff start _ ?_).trans whole
  cases count with
  | zero => exact Or.inl rfl
  | succ count =>
      refine Or.inr (Or.inr ⟨List.replicate count false, rfl, ?_⟩)
      rw [List.length_replicate]
      omega

end Codes

/-! ### The buffer of the encoder -/

/-- The buffer is the padded text from `base` on, as far back as a match may reach; it is full, or
the file is used up. -/
structure Buffered (text : List UInt8) (base low : Nat) (buffer : Nat → UInt8) (bufferend : Nat)
    (input : List UInt8) : Prop where
  window : ∀ index, low ≤ index → index < bufferend → buffer index = padded text (base + index)
  rest : input = text.drop (base + bufferend - (lzssN - lzssF))
  position : lzssN - lzssF ≤ base + bufferend
  within : base + bufferend ≤ lzssN - lzssF + text.length
  ends : bufferend ≤ 2 * lzssN

/-- **Filling up** the buffer. -/
theorem fillBuffer_buffered {text : List UInt8} {base low : Nat} (input : List UInt8)
    (buffer : Nat → UInt8) (bufferend : Nat)
    (buffered : Buffered text base low buffer bufferend input) :
    Buffered text base low (fillBuffer input buffer bufferend).1
        (fillBuffer input buffer bufferend).2.1 (fillBuffer input buffer bufferend).2.2 ∧
      bufferend ≤ (fillBuffer input buffer bufferend).2.1 ∧
      ((fillBuffer input buffer bufferend).2.1 = 2 * lzssN ∨
        (fillBuffer input buffer bufferend).2.2 = []) := by
  induction input generalizing buffer bufferend with
  | nil => exact ⟨buffered, le_rfl, Or.inr rfl⟩
  | cons c input ih =>
      rw [fillBuffer]
      by_cases room : bufferend < 2 * lzssN
      · rw [if_pos room]
        have length := congrArg List.length buffered.rest
        rw [List.length_cons, List.length_drop] at length
        have position := buffered.position
        have index : base + bufferend - (lzssN - lzssF) < text.length := by omega
        have split := buffered.rest
        rw [List.drop_eq_getElem_cons index] at split
        obtain ⟨first, others⟩ := List.cons.inj split
        have stored : Buffered text base low (Function.update buffer bufferend c) (bufferend + 1)
            input := by
          refine ⟨fun place above below => ?_, ?_, by omega, by omega, by omega⟩
          · by_cases last : place = bufferend
            · rw [last, Function.update_self, first, padded, if_neg (not_lt.mpr position),
                List.getD_eq_getElem _ _ index]
            · rw [Function.update_of_ne last]
              exact buffered.window place above (by omega)
          · rw [others]
            exact congrArg (text.drop ·) (by omega)
        obtain ⟨filled, grows, full⟩ := ih _ _ stored
        exact ⟨filled, by omega, full⟩
      · rw [if_neg room]
        have ends := buffered.ends
        exact ⟨buffered, le_rfl, Or.inl (by simp only; omega)⟩

/-- What holds before every round of the encoder. -/
structure Packs (begun : LzssCtx) (text : List UInt8) (packer : Packer) (base : Nat)
    (bits : List Bool) : Prop where
  aligned : base % lzssN = 0
  buffered : Buffered text base packer.s packer.buffer packer.bufferend packer.input
  full : packer.bufferend = 2 * lzssN ∨ packer.input = []
  reach : packer.s + (lzssN - lzssF) = packer.r
  ahead : packer.r ≤ packer.bufferend
  early : packer.r < 2 * lzssN - lzssF
  written : Written packer.writer bits
  decodes : Decodes begun text bits (base + packer.r)

/-- The low bits of a `char` are the byte. -/
theorem charValue_low (signed : Bool) (byte : UInt8) :
    (charValue signed byte % 256).toNat = byte.toNat := by
  have small : byte.toNat < 256 := byte.toNat_lt
  unfold charValue
  split
  · omega
  · omega

section Rounds

variable {begun : LzssCtx} {text : List UInt8} {packer : Packer} {base : Nat} {bits : List Bool}
  (packs : Packs begun text packer base bits) (signed : Bool)

include packs

/-- **The code of a round** decodes to the bytes it stands for. -/
theorem Packs.code (more : packer.r < packer.bufferend) :
    1 ≤ (packer.code signed).1 ∧ (packer.code signed).1 ≤ lzssF ∧
      packer.r + (packer.code signed).1 ≤ packer.bufferend ∧
      ∃ bits', Written (packer.code signed).2 bits' ∧
        Decodes begun text bits' (base + packer.r + (packer.code signed).1) := by
  have reach := packs.reach
  have within := packs.buffered.within
  have low : lzssN - lzssF ≤ base + packer.r := by omega
  have here : ∀ index, packer.s ≤ index → index < packer.bufferend →
      packer.buffer index = padded text (base + index) := packs.buffered.window
  obtain ⟨f1, cutDown, some, few, room⟩ : ∃ f1,
      (if lzssF ≤ packer.bufferend - packer.r then lzssF else packer.bufferend - packer.r) = f1 ∧
        1 ≤ f1 ∧ f1 ≤ lzssF ∧ packer.r + f1 ≤ packer.bufferend := by
    refine ⟨_, rfl, ?_⟩
    have positive : 1 ≤ lzssF := by decide
    split
    · omega
    · omega
  have found := @searchMatch_spec packer.buffer signed packer.r packer.s f1 some
    (packer.r - packer.s) 0 1 (by omega) (Or.inl rfl)
  simp only [Packer.code, cutDown]
  generalize searchMatch packer.buffer (charValue signed (packer.buffer packer.r)) packer.r
    packer.s f1 (packer.r - packer.s) 0 1 = best at found
  obtain ⟨x, y⟩ := best
  simp only at found ⊢
  rcases found with one | ⟨many, occurs⟩
  · rw [if_pos (le_of_eq one)]
    have literal := decodes_literal packs.decodes low (by omega)
    have byte : (charValue signed (packer.buffer packer.r) % 256).toNat =
        (padded text (base + packer.r)).toNat := by
      rw [charValue_low, here packer.r (by omega) more]
    rw [← byte] at literal
    exact ⟨le_rfl, show 1 ≤ lzssF by decide, more, _, output1_written packs.written _, literal⟩
  · rw [if_neg (by omega)]
    have inside := occurs.inside
    have earlier := occurs.earlier
    have short := occurs.short
    have repeats := @decodes_match begun text bits (base + packer.r) packs.decodes low (base + x) y
      (by omega) (by unfold lzssN lzssF at *; omega) many (by omega) (by omega)
      (fun index below => by
        rw [Nat.add_assoc, Nat.add_assoc, ← here (x + index) (by omega) (by omega),
          ← here (packer.r + index) (by omega) (by omega)]
        exact occurs.agrees index below)
    have source : (base + x) % lzssN = x % lzssN := by
      rw [Nat.add_mod, packs.aligned, Nat.zero_add, Nat.mod_mod]
    rw [source] at repeats
    exact ⟨le_of_lt many, by simp only; omega, by simp only; omega, _,
      output2_written packs.written _ _, repeats⟩

/-- **One round** keeps the invariant and moves on. -/
theorem Packs.round (more : packer.r < packer.bufferend) :
    ∃ base' bits', Packs begun text (packer.round signed) base' bits' ∧
      base + packer.r < base' + (packer.round signed).r := by
  obtain ⟨some, few, room, bits', written, decodes⟩ := packs.code signed more
  have reach := packs.reach
  have early := packs.early
  have buffered := packs.buffered
  have ends := buffered.ends
  simp only [Packer.round]
  generalize packer.code signed = code at some few room written decodes
  obtain ⟨y, writer⟩ := code
  simp only at some few room written decodes ⊢
  by_cases late : 2 * lzssN - lzssF ≤ packer.r + y
  · rw [if_pos late]
    have lengths : lzssN = 1024 ∧ lzssF = 17 := ⟨rfl, rfl⟩
    have moved : Buffered text (base + lzssN) (packer.s + y - lzssN)
        (fun index => if index < lzssN then packer.buffer (index + lzssN) else packer.buffer index)
        (packer.bufferend - lzssN) packer.input := by
      refine ⟨fun index above below => ?_, ?_, ?_, ?_, by omega⟩
      · rw [if_pos (by omega), buffered.window (index + lzssN) (by omega) (by omega)]
        exact congrArg (padded text) (by omega)
      · rw [buffered.rest]
        exact congrArg (text.drop ·) (by omega)
      · have position := buffered.position
        omega
      · have within := buffered.within
        omega
    obtain ⟨filled, grows, full⟩ := fillBuffer_buffered _ _ _ moved
    refine ⟨base + lzssN, bits', ⟨?_, filled, full, ?_, ?_, ?_, written, ?_⟩, ?_⟩
    · rw [Nat.add_mod_right]
      exact packs.aligned
    · show packer.s + y - lzssN + (lzssN - lzssF) = packer.r + y - lzssN
      omega
    · show packer.r + y - lzssN ≤ _
      exact le_trans (by omega) grows
    · show packer.r + y - lzssN < 2 * lzssN - lzssF
      omega
    · have place : base + packer.r + y = base + lzssN + (packer.r + y - lzssN) := by omega
      rw [place] at decodes
      exact decodes
    · show base + packer.r < base + lzssN + (packer.r + y - lzssN)
      omega
  · rw [if_neg late]
    refine ⟨base, bits', ⟨packs.aligned, ?_, packs.full, by simp only; omega, room,
      by simp only; omega, written, ?_⟩, by simp only; omega⟩
    · exact ⟨fun index above below => buffered.window index (by simp only at above; omega) below,
        buffered.rest, buffered.position, buffered.within, ends⟩
    · rw [Nat.add_assoc] at decodes
      exact decodes

end Rounds

/-- **The loop ends** with bits that decode to the whole text. -/
theorem compressLoop_packs {begun : LzssCtx} {text : List UInt8} (signed : Bool) (fuel : Nat)
    {packer : Packer} {base : Nat} {bits : List Bool} (packs : Packs begun text packer base bits)
    (enough : lzssN - lzssF + text.length < base + packer.r + fuel) :
    ∃ packer' bits', compressLoop signed fuel packer = some packer' ∧
      Written packer'.writer bits' ∧
      Decodes begun text bits' (lzssN - lzssF + text.length) := by
  induction fuel generalizing packer base bits with
  | zero =>
      have ahead := packs.ahead
      have within := packs.buffered.within
      omega
  | succ fuel ih =>
      rw [compressLoop]
      by_cases more : packer.r < packer.bufferend
      · obtain ⟨base', bits', packs', further⟩ := packs.round signed more
        rw [if_pos more]
        exact ih packs' (by omega)
      · rw [if_neg more]
        have ahead := packs.ahead
        have early := packs.early
        have within := packs.buffered.within
        have position := packs.buffered.position
        have used : packer.input = [] := by
          refine packs.full.resolve_left fun full => ?_
          have lengths : lzssN = 1024 ∧ lzssF = 17 := ⟨rfl, rfl⟩
          omega
        have length := congrArg List.length packs.buffered.rest
        rw [used, List.length_nil, List.length_drop] at length
        have whole : base + packer.r = lzssN - lzssF + text.length := by omega
        have decodes := packs.decodes
        rw [whole] at decodes
        exact ⟨packer, bits, rfl, packs.written, decodes⟩

/-- The encoder before its first round. -/
theorem packs_begin (ctx : LzssCtx) (stale : Nat → UInt8) (text : List UInt8) :
    let filled := fillBuffer text
      (fun index => if index < lzssN - lzssF then 32 else stale index) (lzssN - lzssF)
    Packs ctx.begin text ⟨filled.1, filled.2.1, lzssN - lzssF, 0, filled.2.2, ⟨0, 128, []⟩⟩ 0
      [] := by
  intro filled
  have blank : Buffered text 0 0
      (fun index => if index < lzssN - lzssF then 32 else stale index) (lzssN - lzssF) text := by
    refine ⟨fun index _ below => ?_, ?_, by omega, by omega, by decide⟩
    · rw [if_pos below, padded, Nat.zero_add, if_pos below]
    · rw [Nat.zero_add, Nat.sub_self, List.drop_zero]
  obtain ⟨buffered, grows, full⟩ := fillBuffer_buffered _ _ _ blank
  refine ⟨rfl, buffered, full, Nat.zero_add _, grows,
    show lzssN - lzssF < 2 * lzssN - lzssF by decide, written_begin, ?_⟩
  rw [Nat.zero_add]
  exact decodes_begin ctx text

/-- **The command ends**, and a run over the bits of its code hands on the text. -/
theorem pipelineCompressCommand_decodes (signed : Bool) (stale : Nat → UInt8) (text : List UInt8) :
    ∃ code, pipelineCompressCommand signed stale text = some code ∧
      ∀ ctx : LzssCtx,
        (lzssBits collect (code.flatMap byteBits) .flag ctx.begin []).2.2 = text := by
  have runs : ∀ ctx : LzssCtx, ∃ (packer : Packer) (bits : List Bool),
      pipelineCompressCommand signed stale text = some (flushBitBuffer packer.writer).outfile ∧
        Written packer.writer bits ∧ Decodes ctx.begin text bits (lzssN - lzssF + text.length) := by
    intro ctx
    obtain ⟨packer, bits, ends, written, decodes⟩ := compressLoop_packs signed (text.length + 1)
      (packs_begin ctx stale text) (by simp only; omega)
    refine ⟨packer, bits, ?_, written, decodes⟩
    simp only [pipelineCompressCommand]
    rw [ends]
    rfl
  obtain ⟨packer, _, command, _, _⟩ := runs zeroLzss
  refine ⟨_, command, fun ctx => ?_⟩
  obtain ⟨packer', bits, command', written, decodes⟩ := runs ctx
  have same := Option.some.inj (command.symm.trans command')
  obtain ⟨count, few, padding⟩ := flush_written written
  rw [same, padding]
  exact decodes_padding decodes (Nat.le_add_right _ _) rfl few

/-- **The LZSS round trip**: what `firmware_tool` writes for a text, handed to the stage in any
chunks, comes out as the text. -/
theorem lzss_roundTrip (signed : Bool) (stale : Nat → UInt8) (text : List UInt8) :
    ∃ code, pipelineCompressCommand signed stale text = some code ∧
      ∀ {ν : Type} (next : Stage ν), (∀ data below, 0 ≤ (next data below).1) →
        ∀ (chunks : List (List UInt8)) (ctx : LzssCtx) (below : ν), chunks.flatten = code →
          (feed (lzssPipeline (recording next)) chunks
            (pipelineLzssInit ctx, below, [])).2.2.2.flatten = text := by
  obtain ⟨code, command, decodes⟩ := pipelineCompressCommand_decodes signed stale text
  refine ⟨code, command, fun next accepts chunks ctx below parts => ?_⟩
  have session := (feed_lzss_begins (tracks_accepting accepts below) chunks ctx [] trivial).2
  rw [parts, decodes ctx] at session
  rw [show (feed (lzssPipeline (recording next)) chunks
      (pipelineLzssInit ctx, below, [])).2.2 = _ from session, ← List.flatMap_def,
    List.flatMap_singleton']

end Upkit
