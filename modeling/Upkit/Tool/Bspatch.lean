/-
**The patcher of `firmware_tool`, and the patch stage against it.**

`bspatch` applies a patch from a file to an image in memory: it reads the control values as 64-bit
integers and the strings of a block straight into the new image. The stage on the device reads the
same values byte by byte and through `32` bits. On a patch that is complete (`Complete`) both build
the same image; where a length goes beyond the announced one both stop at the same place.

* `ctrlValue_offtin` — the two readings of eight bytes agree below `2 ^ 31`.
* `Complete` — the blocks of a patch, with the bytes they stand for.
* `Complete.patchFrom` — the run of the stage over them; `Complete.bspatchLoop` — that of `bspatch`.
* `bspatch_agrees` — sessions of the stage in any chunks, and the tool.
-/

import Upkit.Pipeline.BspatchRun

namespace Upkit

open Bytes

/-! ### The tool -/

/-- `offtin`. -/
def offtin (buf : List UInt8) : Int :=
  let y := (buf.getD 7 0 &&& 0x7F).toNat
  let y := [6, 5, 4, 3, 2, 1, 0].foldl (fun y index => y * 256 + (buf.getD index 0).toNat) y
  if buf.getD 7 0 &&& 0x80 ≠ 0 then -(y : Int) else y

/-- The input file behind a `bspatch_stream`. -/
structure PatchFile where
  rest : List UInt8
  eof : Bool
  deriving DecidableEq, Repr

/-- `patch_read`: its result and the bytes it has put into the buffer. The file is at its end when
a read has asked for more than there was. -/
def patchRead (length : Int) (file : PatchFile) : Int × List UInt8 × PatchFile :=
  -- The parameter is an `int`.
  let length := toInt32 (wrap32 length)
  if file.eof then (-1, [], file)
  else
    let data := file.rest.take length.toNat
    (0, data, ⟨file.rest.drop length.toNat, decide ((data.length : Int) ≠ length)⟩)

/-- One control value: `buf` is read and converted. `none` is the error. -/
def readCtrl (buf : List UInt8) (file : PatchFile) : Option (Int × List UInt8 × PatchFile) :=
  let (ret, data, file) := patchRead 8 file
  if ret ≠ 0 then none
  else
    let buf := splice buf 0 data
    some (offtin buf, buf, file)

/-- The loop that adds the old data to the diff string. -/
def addOld (old : List UInt8) (oldpos nnewpos : Int) : (count i : Nat) → List UInt8 → List UInt8
  | 0, _, nnew => nnew
  | count + 1, i, nnew =>
      addOld old oldpos nnewpos count (i + 1)
        (if 0 ≤ oldpos + i ∧ oldpos + i < old.length then
          nnew.set (nnewpos + i).toNat
            (nnew.getD (nnewpos + i).toNat 0 + old.getD (oldpos + i).toNat 0)
        else nnew)

/-- The loop of `bspatch`: its result and the new image, or `none` when it has not ended. -/
def bspatchLoop (old : List UInt8) (nnewsize : Int) :
    (fuel : Nat) → (oldpos nnewpos : Int) → (buf nnew : List UInt8) → PatchFile →
      Option (Int × List UInt8)
  | 0, _, _, _, _, _ => none
  | fuel + 1, oldpos, nnewpos, buf, nnew, file =>
      if nnewpos < nnewsize then
        match readCtrl buf file with
        | none => some (-1, nnew)
        | some (ctrl0, buf, file) =>
        match readCtrl buf file with
        | none => some (-1, nnew)
        | some (ctrl1, buf, file) =>
        match readCtrl buf file with
        | none => some (-1, nnew)
        | some (ctrl2, buf, file) =>
          if nnewsize < nnewpos + ctrl0 then some (-1, nnew)
          else
            let (ret, data, file) := patchRead ctrl0 file
            if ret ≠ 0 then some (-1, nnew)
            else
              let nnew := splice nnew nnewpos.toNat data
              let nnew := addOld old oldpos nnewpos ctrl0.toNat 0 nnew
              let nnewpos := nnewpos + ctrl0
              let oldpos := oldpos + ctrl0
              if nnewsize < nnewpos + ctrl1 then some (-1, nnew)
              else
                let (ret, data, file) := patchRead ctrl1 file
                if ret ≠ 0 then some (-1, nnew)
                else
                  let nnew := splice nnew nnewpos.toNat data
                  bspatchLoop old nnewsize fuel (oldpos + ctrl2) (nnewpos + ctrl1) buf nnew file
      else some (0, nnew)

/-- `bspatch`. Every block takes bytes from the file, and past its end a read fails. -/
def bspatch (old nnew buf : List UInt8) (nnewsize : Int) (file : PatchFile) :
    Option (Int × List UInt8) :=
  bspatchLoop old nnewsize (file.rest.length + 2) 0 0 buf nnew file

/-! ### The two readings of an integer -/

/-- Eight bytes as a number with a sign: the magnitude is that of the first seven bytes and the low
bits of the last. -/
theorem offtin_eq {buf : List UInt8} (width : buf.length = 8) :
    offtin buf =
      if buf.getD 7 0 &&& 0x80 ≠ 0 then -(ofLE (buf.take 7 ++ [buf.getD 7 0 &&& 0x7F]) : Int)
      else ofLE (buf.take 7 ++ [buf.getD 7 0 &&& 0x7F]) := by
  obtain ⟨b0, b1, b2, b3, b4, b5, b6, b7, rfl⟩ :
      ∃ b0 b1 b2 b3 b4 b5 b6 b7, buf = [b0, b1, b2, b3, b4, b5, b6, b7] := by
    match buf, width with
    | [b0, b1, b2, b3, b4, b5, b6, b7], _ => exact ⟨b0, b1, b2, b3, b4, b5, b6, b7, rfl⟩
  simp only [offtin, List.getD_cons_succ, List.getD_cons_zero, List.foldl_cons, List.foldl_nil,
    List.take_succ_cons, List.take_zero, List.cons_append, List.nil_append, ofLE]
  split <;> · push_cast; ring

/-- **Below `2 ^ 31` the device reads the same number**, although it only looks at the first four
bytes and at the sign. -/
theorem ctrlValue_offtin {buf : List UInt8} (width : buf.length = 8)
    (low : -2 ^ 31 < offtin buf) (high : offtin buf < 2 ^ 31) : ctrlValue buf = offtin buf := by
  rw [offtin_eq width] at low high ⊢
  have halves : buf.take 7 ++ [buf.getD 7 0 &&& 0x7F] =
      buf.take 4 ++ ((buf.drop 4).take 3 ++ [buf.getD 7 0 &&& 0x7F]) := by
    rw [← List.append_assoc, ← List.take_add]
  have four : (buf.take 4).length = 4 := by rw [List.length_take, width]; rfl
  have magnitude : ofLE (buf.take 7 ++ [buf.getD 7 0 &&& 0x7F]) = ofLE (buf.take 4) ∧
      ofLE (buf.take 4) < 2 ^ 31 := by
    rw [halves, ofLE_append, four] at low high ⊢
    by_cases negative : buf.getD 7 0 &&& 0x80 ≠ 0
    · rw [if_pos negative] at low
      omega
    · rw [if_neg negative] at high
      omega
  rw [magnitude.1] at low high ⊢
  have first : toInt32 (ofLE (buf.take 4)) = ofLE (buf.take 4) := by
    unfold toInt32
    omega
  simp only [ctrlValue, first]
  exact toInt32_wrap32 low.le high

/-! ### Complete patches -/

/-- Eight bytes that stand for a number below `2 ^ 31` in magnitude. -/
structure Spells (bytes : List UInt8) (value : Int) : Prop where
  width : bytes.length = 8
  reads : offtin bytes = value
  low : -2 ^ 31 < value
  high : value < 2 ^ 31

theorem Spells.ctrlValue {bytes : List UInt8} {value : Int} (spells : Spells bytes value) :
    ctrlValue bytes = value := by
  obtain ⟨width, rfl, low, high⟩ := spells
  exact ctrlValue_offtin width low high

/-- The body of a patch from a position in the two images on: no byte is missing, the values are
below `2 ^ 31` in magnitude, the lengths not negative, and differences are read inside the old
image. `out` are the bytes that it stands for and `left` those that follow its last block; without
`ok` that block is longer than the announced length. -/
inductive Complete (old : List UInt8) (newsize : Nat) :
    (oldpos : Int) → (newpos : Nat) → (body out left : List UInt8) → (ok : Bool) → Prop
  | done {oldpos : Int} {newpos : Nat} {left : List UInt8} (enough : newsize ≤ newpos) :
      Complete old newsize oldpos newpos left [] left true
  | longDiff {oldpos seek : Int} {newpos diff extra : Nat} {c0 c1 c2 left : List UInt8}
      (more : newpos < newsize) (spells0 : Spells c0 diff) (spells1 : Spells c1 extra)
      (spells2 : Spells c2 seek) (tooLong : newsize < newpos + diff) :
      Complete old newsize oldpos newpos (c0 ++ c1 ++ c2 ++ left) [] left false
  | longExtra {oldpos seek : Int} {newpos extra : Nat} {c0 c1 c2 diff left : List UInt8}
      (more : newpos < newsize) (spells0 : Spells c0 diff.length) (spells1 : Spells c1 extra)
      (spells2 : Spells c2 seek) (inside : InsideOld old oldpos diff.length)
      (fits : newpos + diff.length ≤ newsize) (tooLong : newsize < newpos + diff.length + extra) :
      Complete old newsize oldpos newpos (c0 ++ c1 ++ c2 ++ (diff ++ left))
        (sumOld old oldpos diff) left false
  | block {oldpos seek : Int} {newpos : Nat} {c0 c1 c2 diff extra body out left : List UInt8}
      {ok : Bool} (more : newpos < newsize) (spells0 : Spells c0 diff.length)
      (spells1 : Spells c1 extra.length) (spells2 : Spells c2 seek)
      (inside : InsideOld old oldpos diff.length)
      (fits : newpos + diff.length + extra.length ≤ newsize)
      (rest : Complete old newsize (oldpos + diff.length + seek)
        (newpos + diff.length + extra.length) body out left ok) :
      Complete old newsize oldpos newpos (c0 ++ c1 ++ c2 ++ (diff ++ (extra ++ body)))
        (sumOld old oldpos diff ++ (extra ++ out)) left ok

section Device

variable {ν : Type} {next : Stage ν} {readOld : Nat → ν → Int × List UInt8 × ν}
  {old total : List UInt8} {state : List UInt8 → ν}

theorem tripleOf_spells {c0 c1 c2 : List UInt8} {v0 v1 v2 : Int} (spells0 : Spells c0 v0)
    (spells1 : Spells c1 v1) (spells2 : Spells c2 v2) :
    tripleOf (c0 ++ c1 ++ c2) = ⟨v0, v1, v2⟩ := by
  have width : (c0 ++ c1).length = 16 := by
    rw [List.length_append, spells0.width, spells1.width]
  rw [tripleOf, List.drop_left' width, spells2.ctrlValue, List.append_assoc,
    List.drop_left' spells0.width, ctrlValue_append spells0.width.ge, spells0.ctrlValue,
    ctrlValue_append spells1.width.ge, spells1.ctrlValue]

/-- The stage takes the control values of a block. -/
theorem patchFrom_loop {c0 c1 c2 : List UInt8} {v0 v1 v2 : Int} (spells0 : Spells c0 v0)
    (spells1 : Spells c1 v1) (spells2 : Spells c2 v2) {pos : PatchPos}
    (more : pos.newpos < pos.newsize) (rest : List UInt8) (below : ν) :
    patchFrom next readOld pos.loop (c0 ++ c1 ++ c2 ++ rest) below =
      patchFrom next readOld (pos.startBlock ⟨v0, v1, v2⟩) rest below := by
  have width : (c0 ++ c1 ++ c2).length = 24 := by
    rw [List.length_append, List.length_append, spells0.width, spells1.width, spells2.width]
  have some_ : c0 ++ c1 ++ c2 ≠ [] := by
    intro empty
    rw [empty] at width
    exact absurd width (by decide)
  rw [PatchPos.loop, if_pos more]
  show patchBytes next readOld (c0 ++ c1 ++ c2 ++ rest) (.ctrl pos []) below = _
  rw [patchBytes_ctrl next readOld _ [] _ _ _ some_ (by rw [width]; rfl), List.nil_append,
    tripleOf_spells spells0 spells1 spells2]

/-- The stage takes the differences of a block. -/
theorem patchFrom_startBlock (supports : Supports next readOld old total state) {pos : PatchPos}
    {diff taken : List UInt8} {extra seek : Int} (inside : InsideOld old pos.oldpos diff.length)
    (fits : pos.newpos + diff.length ≤ pos.newsize)
    (begins : taken ++ sumOld old pos.oldpos diff <+: total) (rest : List UInt8) :
    patchFrom next readOld (pos.startBlock ⟨diff.length, extra, seek⟩) (diff ++ rest)
        (state taken) =
      patchFrom next readOld (pos.diffFrom ⟨diff.length, extra, seek⟩ diff.length) rest
        (state (taken ++ sumOld old pos.oldpos diff)) := by
  have run := patchFrom_diff supports pos ⟨diff.length, extra, seek⟩ diff rest taken 0
    (by rw [Nat.cast_zero, zero_add]) (by rwa [Nat.cast_zero, add_zero])
    (by rwa [Nat.cast_zero, add_zero])
  rw [PatchPos.startBlock, if_neg (not_lt.mpr fits)]
  rwa [Nat.cast_zero, add_zero, Nat.zero_add] at run

/-- **The run of the stage over the blocks of a patch.** -/
theorem Complete.patchFrom {newsize newpos : Nat} {oldpos : Int} {body out left : List UInt8}
    {ok : Bool} (complete : Complete old newsize oldpos newpos body out left ok)
    (supports : Supports next readOld old total state) {taken : List UInt8}
    (begins : taken ++ out <+: total) :
    patchFrom next readOld (PatchPos.loop ⟨newsize, oldpos, newpos⟩) body (state taken) =
      (if ok then .finished else .failed (-1), left, state (taken ++ out)) := by
  induction complete generalizing taken with
  | done enough =>
      rw [PatchPos.loop, if_neg (by simpa using enough), List.append_nil]
      rfl
  | longDiff more spells0 spells1 spells2 tooLong =>
      rw [patchFrom_loop spells0 spells1 spells2 (by simpa using more), PatchPos.startBlock,
        if_pos (by simp only; omega), List.append_nil]
      rfl
  | longExtra more spells0 spells1 spells2 inside fits tooLong =>
      rw [patchFrom_loop spells0 spells1 spells2 (by simpa using more),
        patchFrom_startBlock supports inside (by simp only; omega) begins, PatchPos.diffFrom,
        if_neg (lt_irrefl _), if_pos (by simp only; omega)]
      rfl
  | @block oldpos seek newpos c0 c1 c2 diff extra body out left ok more spells0 spells1 spells2
      inside fits rest ih =>
      have begins' : taken ++ sumOld old oldpos diff ++ extra ++ out <+: total := by
        rw [List.append_assoc, List.append_assoc]
        exact begins
      have toExtra := (List.prefix_append _ _).trans begins'
      have toDiff := (List.prefix_append _ _).trans toExtra
      have run := patchFrom_extra supports
        ⟨newsize, oldpos + diff.length, newpos + diff.length⟩ ⟨diff.length, extra.length, seek⟩
        extra body (taken ++ sumOld old oldpos diff) 0 (by rw [Nat.cast_zero, zero_add]) toExtra
      have later := ih begins'
      rw [patchFrom_loop spells0 spells1 spells2 (by simpa using more),
        patchFrom_startBlock supports inside (by simp only; omega) toDiff, PatchPos.diffFrom,
        if_neg (lt_irrefl _), if_neg (by simp only; omega), run, PatchPos.extraFrom,
        if_neg (by simp), ← List.append_assoc, ← List.append_assoc, ← later]
      push_cast
      rfl

/-- The run over a whole patch. -/
theorem Complete.patchBytes {newsize : Nat} {size body out left : List UInt8} {ok : Bool}
    (complete : Complete old newsize 0 0 body out left ok) (spells : Spells size newsize)
    (supports : Supports next readOld old out state) :
    patchBytes next readOld (List.replicate 16 0x2a ++ size ++ body) (.header []) (state []) =
      (if ok then .finished else .failed (-1), left, state out) := by
  have width : (List.replicate 16 0x2a ++ size).length = 24 := by
    rw [List.length_append, List.length_replicate, spells.width]
  have some_ : List.replicate 16 0x2a ++ size ≠ [] := by
    intro empty
    rw [empty] at width
    exact absurd width (by decide)
  have magic : ∀ index, index < 16 → (List.replicate 16 0x2a ++ size).getD index 0 = 0x2a := by
    intro index low
    rw [List.getD_append _ _ _ _ (by rwa [List.length_replicate]), List.getD_replicate _ low]
  rw [patchBytes_header next readOld _ [] _ _ some_ (by rw [width]; rfl) magic, List.nil_append,
    List.drop_left' (List.length_replicate ..), spells.ctrlValue, startPatch,
    if_neg (by omega)]
  exact complete.patchFrom supports (List.prefix_refl _)

/-- A session over a whole patch, in any chunks. -/
theorem Complete.session {newsize : Nat} {size body out left : List UInt8} {ok : Bool}
    (complete : Complete old newsize 0 0 body out left ok) (spells : Spells size newsize)
    (supports : Supports next readOld old out state) {chunks : List (List UInt8)}
    (patch : chunks.flatten = List.replicate 16 0x2a ++ size ++ body) (ctx : BspatchCtx) :
    (bspatchSession next readOld chunks 0 (pipelineBspatchInit ctx, state [])).1 =
        (if ok then .finished else .failed (-1)) ∧
      (bspatchSession next readOld chunks 0 (pipelineBspatchInit ctx, state [])).2.2 = state out ∧
      (ok = true → (bspatchSession next readOld chunks 0 (pipelineBspatchInit ctx, state [])).2.1 =
        chunks.flatten.length - left.length) := by
  obtain ⟨status, same, count⟩ := bspatchSession_eq next readOld chunks 0
    (pipelineBspatchInit_standing ctx) (state [])
  rw [patch, complete.patchBytes spells supports] at status same count
  refine ⟨status.trans ?_, same, ?_⟩
  · cases ok <;> rfl
  · rintro rfl
    rw [count (fun ret failed => PatchNext.noConfusion failed), zero_add, patch]

end Device

/-! ### The tool on complete patches -/

/-- A read of what is there. -/
theorem patchRead_enough (data rest : List UInt8) (small : (data.length : Int) < 2 ^ 31) :
    patchRead data.length ⟨data ++ rest, false⟩ = (0, data, ⟨rest, false⟩) := by
  have same : toInt32 (wrap32 data.length) = data.length :=
    toInt32_wrap32 (by omega) small
  simp only [patchRead, same, Int.toNat_natCast, List.take_left, List.drop_left, ne_eq,
    not_true_eq_false, decide_false, Bool.false_eq_true, if_false]

theorem readCtrl_spells {c buf : List UInt8} {value : Int} (spells : Spells c value)
    (width : buf.length = 8) (rest : List UInt8) :
    readCtrl buf ⟨c ++ rest, false⟩ = some (value, c, ⟨rest, false⟩) := by
  have read : patchRead 8 ⟨c ++ rest, false⟩ = (0, c, ⟨rest, false⟩) := by
    have enough := patchRead_enough c rest (by rw [spells.width]; decide)
    rwa [spells.width] at enough
  have whole : splice buf 0 c = c := by
    rw [splice_zero, List.drop_of_length_le (by rw [width, spells.width]), List.append_nil]
  rw [readCtrl, read]
  simp only [ne_eq, not_true_eq_false, if_false, whole, spells.reads]

/-- The loop over the differences, in the middle of the new image. -/
theorem addOld_eq {old front diff back : List UInt8} {oldpos nnewpos : Int} {i : Nat}
    (place : nnewpos + i = front.length) (inside : InsideOld old (oldpos + i) diff.length) :
    addOld old oldpos nnewpos diff.length i (front ++ (diff ++ back)) =
      front ++ (sumOld old (oldpos + i) diff ++ back) := by
  induction diff generalizing front i with
  | nil => rfl
  | cons byte diff ih =>
      have here : (nnewpos + i).toNat = front.length := by omega
      have within : 0 ≤ oldpos + i ∧ oldpos + i < old.length := by
        unfold InsideOld at inside
        rw [List.length_cons] at inside
        omega
      rw [List.length_cons] at inside
      have later := @ih (front ++ [byte + old.getD (oldpos + i).toNat 0]) (i + 1)
        (by rw [List.length_append]; push_cast; show _ = (front.length : Int) + 1; omega)
        (by push_cast; rw [← add_assoc]; exact inside.tail)
      have at_ : (front ++ (byte :: diff ++ back)).getD front.length 0 = byte := by
        rw [List.getD_append_right _ _ _ _ le_rfl, Nat.sub_self]
        rfl
      have stored : (front ++ (byte :: diff ++ back)).set front.length
          (byte + old.getD (oldpos + i).toNat 0) =
            front ++ [byte + old.getD (oldpos + i).toNat 0] ++ (diff ++ back) := by
        rw [List.set_append_right _ _ le_rfl, Nat.sub_self, List.append_assoc]
        rfl
      rw [List.length_cons, addOld, if_pos within, here, sumOld_cons inside, at_, stored, later,
        List.append_assoc]
      push_cast
      rw [← add_assoc]
      rfl

/-- A string of a block goes to its place in the new image. -/
theorem splice_blank {taken blank data : List UInt8} {nnewpos : Int}
    (place : nnewpos = taken.length) :
    splice (taken ++ blank) nnewpos.toNat data =
      taken ++ (data ++ blank.drop data.length) := by
  have here : nnewpos.toNat = taken.length := by omega
  rw [here, splice, List.take_left, List.drop_append, List.drop_of_length_le (by omega),
    List.nil_append, Nat.add_sub_cancel_left, List.append_assoc]

/-- A block up to its differences. -/
theorem bspatchLoop_diff {old c0 c1 c2 diff rest buf taken blank : List UInt8}
    {oldpos v1 v2 : Int} {newsize fuel : Nat} (more : taken.length < newsize)
    (spells0 : Spells c0 diff.length) (spells1 : Spells c1 v1) (spells2 : Spells c2 v2)
    (inside : InsideOld old oldpos diff.length) (fits : taken.length + diff.length ≤ newsize)
    (width : buf.length = 8) :
    bspatchLoop old newsize (fuel + 1) oldpos taken.length buf (taken ++ blank)
        ⟨c0 ++ c1 ++ c2 ++ (diff ++ rest), false⟩ =
      if (newsize : Int) < taken.length + diff.length + v1 then
        some (-1, taken ++ (sumOld old oldpos diff ++ blank.drop diff.length))
      else if (patchRead v1 ⟨rest, false⟩).1 ≠ 0 then
        some (-1, taken ++ (sumOld old oldpos diff ++ blank.drop diff.length))
      else
        bspatchLoop old newsize fuel (oldpos + diff.length + v2)
          (taken.length + diff.length + v1) c2
          (splice (taken ++ (sumOld old oldpos diff ++ blank.drop diff.length))
            (taken.length + diff.length : Int).toNat (patchRead v1 ⟨rest, false⟩).2.1)
          (patchRead v1 ⟨rest, false⟩).2.2 := by
  have summed : addOld old oldpos taken.length diff.length 0
      (taken ++ (diff ++ blank.drop diff.length)) =
        taken ++ (sumOld old oldpos diff ++ blank.drop diff.length) := by
    have added := @addOld_eq old taken diff (blank.drop diff.length) oldpos taken.length 0
      (by rw [Nat.cast_zero, add_zero]) (by rwa [Nat.cast_zero, add_zero])
    rwa [Nat.cast_zero, add_zero] at added
  rw [bspatchLoop, if_pos (by omega)]
  simp only [List.append_assoc, readCtrl_spells spells0 width,
    readCtrl_spells spells1 spells0.width, readCtrl_spells spells2 spells1.width]
  rw [if_neg (by omega), patchRead_enough diff rest spells0.high]
  simp only [ne_eq, not_true_eq_false, if_false, Int.toNat_natCast]
  rw [← Int.toNat_natCast taken.length, splice_blank rfl, Int.toNat_natCast, summed]

/-- **The run of the tool over the blocks of a patch**: the bytes go to their places in the new
image, which keeps its length. -/
theorem Complete.bspatchLoop {old : List UInt8} {newsize newpos : Nat} {oldpos : Int}
    {body out left : List UInt8} {ok : Bool}
    (complete : Complete old newsize oldpos newpos body out left ok) {fuel : Nat}
    {buf taken blank : List UInt8} (enough : body.length < fuel) (width : buf.length = 8)
    (place : taken.length = newpos) (size : taken.length + blank.length = newsize) :
    ∃ rest, bspatchLoop old newsize fuel oldpos newpos buf (taken ++ blank) ⟨body, false⟩ =
        some (if ok then 0 else -1, taken ++ out ++ rest) ∧
      (taken ++ out ++ rest).length = newsize ∧ (ok = true → rest = []) := by
  induction complete generalizing fuel buf taken blank with
  | done whole =>
      obtain ⟨fuel, rfl⟩ : ∃ less, fuel = less + 1 := ⟨fuel - 1, by omega⟩
      obtain rfl : blank = [] := List.eq_nil_of_length_eq_zero (by omega)
      refine ⟨[], ?_, ?_, fun _ => rfl⟩
      · rw [Upkit.bspatchLoop, if_neg (by omega), List.append_nil, List.append_nil]
        rfl
      · rw [List.append_nil, List.append_nil, ← size, List.length_nil, Nat.add_zero]
  | longDiff more spells0 spells1 spells2 tooLong =>
      obtain ⟨fuel, rfl⟩ : ∃ less, fuel = less + 1 := ⟨fuel - 1, by omega⟩
      refine ⟨blank, ?_, ?_, fun never => absurd never (by decide)⟩
      · rw [Upkit.bspatchLoop, if_pos (by omega)]
        simp only [List.append_assoc, readCtrl_spells spells0 width,
          readCtrl_spells spells1 spells0.width, readCtrl_spells spells2 spells1.width]
        rw [if_pos (by omega), List.nil_append]
        rfl
      · rw [List.append_nil, List.length_append, size]
  | @longExtra oldpos seek newpos extra c0 c1 c2 diff left more spells0 spells1 spells2 inside
      fits tooLong =>
      obtain ⟨fuel, rfl⟩ : ∃ less, fuel = less + 1 := ⟨fuel - 1, by omega⟩
      subst place
      refine ⟨blank.drop diff.length, ?_, ?_, fun never => absurd never (by decide)⟩
      · rw [bspatchLoop_diff more spells0 spells1 spells2 inside fits width, if_pos (by omega),
          ← List.append_assoc]
        rfl
      · rw [List.length_append, List.length_append, sumOld_length inside, List.length_drop]
        omega
  | @block oldpos seek newpos c0 c1 c2 diff extra body out left ok more spells0 spells1 spells2
      inside fits rest ih =>
      obtain ⟨fuel, rfl⟩ : ∃ less, fuel = less + 1 := ⟨fuel - 1, by omega⟩
      subst place
      have summed := sumOld_length inside
      have middle : (taken ++ sumOld old oldpos diff).length = taken.length + diff.length := by
        rw [List.length_append, summed]
      have after : (taken ++ sumOld old oldpos diff ++ extra).length =
          taken.length + diff.length + extra.length := by
        rw [List.length_append, middle]
      have smaller : body.length < fuel := by
        simp only [List.length_append, spells0.width] at enough
        omega
      have sizes : (taken ++ sumOld old oldpos diff ++ extra).length +
          ((blank.drop diff.length).drop extra.length).length = newsize := by
        rw [after, List.length_drop, List.length_drop]
        omega
      obtain ⟨tail, run, length, whole⟩ := ih smaller spells2.width after sizes
      refine ⟨tail, ?_, ?_, whole⟩
      · rw [bspatchLoop_diff more spells0 spells1 spells2 inside (by omega) width,
          if_neg (by omega), patchRead_enough extra body spells1.high, if_neg (by simp),
          ← List.append_assoc, splice_blank (by rw [middle]; push_cast; rfl),
          ← List.append_assoc]
        push_cast at run
        rw [run]
        simp only [List.append_assoc]
      · rw [← length]
        simp only [List.append_assoc]

/-- **The stage against the tool.** The session of a patch, valid or not, does not depend on its
chunks or on an earlier session. On a complete patch with the right magic number it ends as
`bspatch` does and hands on the bytes that `bspatch` stores. -/
theorem bspatch_agrees {ν : Type} (next : Stage ν) (readOld : Nat → ν → Int × List UInt8 × ν)
    (chunks : List (List UInt8)) (ctx other : BspatchCtx) (below : ν) :
    EndAlike (bspatchSession next readOld chunks 0 (pipelineBspatchInit ctx, below))
        (bspatchSession next readOld [chunks.flatten] 0 (pipelineBspatchInit other, below)) ∧
      ∀ (old size body out left nnew buf : List UInt8) (newsize : Nat) (ok : Bool),
        HoldsOld readOld old → Spells size newsize → Complete old newsize 0 0 body out left ok →
        chunks.flatten = List.replicate 16 0x2a ++ size ++ body →
        nnew.length = newsize → buf.length = 8 →
        ∃ ret image session,
          bspatch old nnew buf newsize ⟨body, false⟩ = some (ret, image) ∧
          bspatchSession (watchNext next) (watchOld readOld old.length) chunks 0
            (pipelineBspatchInit ctx, ⟨below, [], true⟩) = session ∧
          session.1 = (if ret = 0 then .finished else .failed (-1)) ∧
          session.2.2.emitted <+: image ∧ (ret = 0 → session.2.2.emitted = image) := by
  refine ⟨bspatchSession_chunks next readOld chunks ctx other below, ?_⟩
  intro old size body out left nnew buf newsize ok holds spells complete patch length width
  obtain ⟨status, state, -⟩ := complete.session spells (holds.supports next below out) patch ctx
  obtain ⟨rest, run, -, whole⟩ := @Complete.bspatchLoop old newsize 0 0 body out left ok complete
    (body.length + 2) buf [] nnew (by omega) width rfl (by rw [← length]; exact Nat.zero_add _)
  have start : handDown next (List.map (fun byte => [byte]) []) below = below := rfl
  rw [start] at status state
  rw [List.nil_append] at run
  refine ⟨_, _, _, run, rfl, ?_⟩
  rw [status, state]
  cases ok with
  | true =>
      rw [whole rfl, List.append_nil]
      exact ⟨rfl, List.prefix_refl _, fun _ => rfl⟩
  | false => exact ⟨rfl, List.prefix_append _ _, fun never => absurd never (by decide)⟩

/-- A patch of one block: one byte against the old image and one new byte. -/
def smallPatch : List UInt8 :=
  List.replicate 16 0x2a ++ toLE 8 2 ++ (toLE 8 1 ++ toLE 8 1 ++ toLE 8 0 ++ [2, 9])

theorem smallPatch_applied :
    ∃ ret image session,
      bspatch [5] [0, 0] (toLE 8 0) (2 : Nat)
          ⟨toLE 8 1 ++ toLE 8 1 ++ toLE 8 0 ++ [2, 9], false⟩ = some (ret, image) ∧
      bspatchSession (watchNext takeAll) (watchOld (readBytes [5]) 1) [smallPatch] 0
        (pipelineBspatchInit bootBspatchCtx, ⟨(), [], true⟩) = session ∧
      session.1 = (if ret = 0 then .finished else .failed (-1)) ∧
      session.2.2.emitted <+: image ∧ (ret = 0 → session.2.2.emitted = image) := by
  refine (bspatch_agrees _ _ [smallPatch] bootBspatchCtx bootBspatchCtx ()).2 [5] (toLE 8 2)
    (toLE 8 1 ++ toLE 8 1 ++ toLE 8 0 ++ [2, 9]) [7, 9] [] [0, 0] (toLE 8 0) 2 true ?_ ?_ ?_
    (by decide) rfl (by decide)
  · exact readBytes_holds (by decide)
  · exact ⟨by decide, by decide, by decide, by decide⟩
  · exact @Complete.block [5] 2 0 0 0 (toLE 8 1) (toLE 8 1) (toLE 8 0) [2] [9] [] [] [] true
      (by decide) ⟨by decide, by decide, by decide, by decide⟩
      ⟨by decide, by decide, by decide, by decide⟩ ⟨by decide, by decide, by decide, by decide⟩
      (.inr ⟨by decide, by decide⟩) (by decide) (.done (by decide))

end Upkit
