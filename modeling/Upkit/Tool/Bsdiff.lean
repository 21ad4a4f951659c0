/-
**The diff of `firmware_tool`, and the way back through the patch stage.**

`bsdiff_internal` walks over the new image and searches the sorted suffixes of the old one for
matches; the sorting itself is a parameter. Where it changes to another match it writes a block: the
last match is extended forwards and the new one backwards, and where the two meet the place to cut is
chosen. The blocks follow one another in the new image, and the position in the old image is written
as a difference.

* `searchFrom_searches` — the search answers inside the two images, in whatever order the suffixes
  stand.
* `DiffState.Ready` — the invariant of the walk.
* `scanLoop_sound` — the inner loop; `cut_ok` — the lengths of a block.
* `bsdiffLoop_complete` — the walk ends, and its blocks are a complete patch for the new image.
* `bsdiff_roundTrip` — the patch file of any search, in any chunks, through the patch stage.
-/

import Upkit.Tool.Bspatch

namespace Upkit

open Bytes

/-! ### The tool -/

/-- The loop of `offtout` over the bytes: each one is taken off before the division. -/
def offtoutBytes : (count y : Nat) → List UInt8
  | 0, _ => []
  | count + 1, y => UInt8.ofNat (y % 256) :: offtoutBytes count ((y - y % 256) / 256)

/-- `offtout`. -/
def offtout (x : Int) : List UInt8 :=
  let y := if x < 0 then -x else x
  let buf := offtoutBytes 8 y.toNat
  if x < 0 then buf.set 7 (buf.getD 7 0 ||| 0x80) else buf

/-- `matchlen`: how long two images agree. -/
def matchlen : (old nnew : List UInt8) → Nat
  | byte :: old, other :: nnew => if byte ≠ other then 0 else matchlen old nnew + 1
  | _, _ => 0

/-- `memcmp(first, second, count) < 0`. -/
def memcmpLess : (count : Nat) → (first second : List UInt8) → Bool
  | count + 1, byte :: first, other :: second =>
      if byte = other then memcmpLess count first second else decide (byte < other)
  | _, _, _ => false

/-- `search`, with the suffixes that `qsufsort` leaves in `I`: the length of the match and its place
in the old image. -/
def search (I : Nat → Int) (old nnew : List UInt8) (st en : Nat) : Int × Int :=
  if en - st < 2 then
    let x := matchlen (old.drop (I st).toNat) nnew
    let y := matchlen (old.drop (I en).toNat) nnew
    if y < x then (x, I st) else (y, I en)
  else
    let x := st + (en - st) / 2
    if memcmpLess (min (old.length - I x).toNat nnew.length) (old.drop (I x).toNat) nnew then
      search I old nnew x en
    else search I old nnew st x
termination_by en - st

/-- The call of `search` for the bytes of the new image from `scan` on. -/
def searchFrom (I : Nat → Int) (old new : List UInt8) (scan : Int) : Int × Int :=
  search I old (new.drop scan.toNat) 0 old.length

section Diff

variable (old new : List UInt8)

/-- `(at + lastoffset < oldsize) && (old[at + lastoffset] == nnew[at])`. -/
def sameAt (lastoffset place : Int) : Bool :=
  decide (place + lastoffset < old.length) &&
    old.getD (place + lastoffset).toNat 0 == new.getD place.toNat 0

/-- `for(;scsc<scan+len;scsc++)`: `scsc` and `oldscore` after it. -/
def scoreLoop (lastoffset : Int) : (count : Nat) → (scsc oldscore : Int) → Int × Int
  | 0, scsc, oldscore => (scsc, oldscore)
  | count + 1, scsc, oldscore =>
      scoreLoop lastoffset count (scsc + 1)
        (if sameAt old new lastoffset scsc then oldscore + 1 else oldscore)

/-- The variables of the loop over `scan`. -/
structure ScanState where
  scan : Int
  len : Int
  pos : Int
  scsc : Int
  oldscore : Int
  deriving DecidableEq, Repr

/-- The loop over `scan`, up to its `break` or the end of the new image. `search` gives `len` and
`pos` for the bytes from `scan` on. -/
def scanLoop (search : Int → Int × Int) (lastoffset : Int) : (fuel : Nat) → ScanState → ScanState
  | 0, state => state
  | fuel + 1, state =>
      if state.scan < new.length then
        let (len, pos) := search state.scan
        let (scsc, oldscore) :=
          scoreLoop old new lastoffset (state.scan + len - state.scsc).toNat state.scsc
            state.oldscore
        if len = oldscore ∧ len ≠ 0 ∨ oldscore + 8 < len then ⟨state.scan, len, pos, scsc, oldscore⟩
        else
          scanLoop search lastoffset fuel
            ⟨state.scan + 1, len, pos, scsc,
              if sameAt old new lastoffset state.scan then oldscore - 1 else oldscore⟩
      else state

/-- The loop that extends the last match forwards: `lenf`. -/
def forwardLoop (lastscan lastpos scan : Int) : (fuel : Nat) → (i s Sf lenf : Int) → Int
  | 0, _, _, _, lenf => lenf
  | fuel + 1, i, s, Sf, lenf =>
      if lastscan + i < scan ∧ lastpos + i < old.length then
        let s :=
          if old.getD (lastpos + i).toNat 0 = new.getD (lastscan + i).toNat 0 then s + 1 else s
        let i := i + 1
        if Sf * 2 - lenf < s * 2 - i then forwardLoop lastscan lastpos scan fuel i s s i
        else forwardLoop lastscan lastpos scan fuel i s Sf lenf
      else lenf

/-- The loop that extends the new match backwards: `lenb`. -/
def backwardLoop (lastscan scan pos : Int) : (fuel : Nat) → (i s Sb lenb : Int) → Int
  | 0, _, _, _, lenb => lenb
  | fuel + 1, i, s, Sb, lenb =>
      if lastscan + i ≤ scan ∧ i ≤ pos then
        let s := if old.getD (pos - i).toNat 0 = new.getD (scan - i).toNat 0 then s + 1 else s
        if Sb * 2 - lenb < s * 2 - i then backwardLoop lastscan scan pos fuel (i + 1) s s i
        else backwardLoop lastscan scan pos fuel (i + 1) s Sb lenb
      else lenb

/-- The loop over the overlap of the two: `lens`. `front` and `back` are where it starts in the new
image, for the forward and the backward match, `oldFront` and `oldBack` in the old one. -/
def overlapLoop (front oldFront back oldBack : Int) : (count : Nat) → (i s Ss lens : Int) → Int
  | 0, _, _, _, lens => lens
  | count + 1, i, s, Ss, lens =>
      let s :=
        if new.getD (front + i).toNat 0 = old.getD (oldFront + i).toNat 0 then s + 1 else s
      let s := if new.getD (back + i).toNat 0 = old.getD (oldBack + i).toNat 0 then s - 1 else s
      if Ss < s then overlapLoop front oldFront back oldBack count (i + 1) s s (i + 1)
      else overlapLoop front oldFront back oldBack count (i + 1) s Ss lens

/-- `lenf` and `lenb` of a block, with the overlap taken off. -/
def cut (lastscan lastpos scan pos : Int) : Int × Int :=
  let lenf := forwardLoop old new lastscan lastpos scan (scan - lastscan).toNat 0 0 0 0
  let lenb :=
    if scan < new.length then
      backwardLoop old new lastscan scan pos (scan - lastscan).toNat 1 0 0 0
    else 0
  if scan - lenb < lastscan + lenf then
    let overlap := lastscan + lenf - (scan - lenb)
    let lens :=
      overlapLoop old new (lastscan + lenf - overlap) (lastpos + lenf - overlap) (scan - lenb)
        (pos - lenb) overlap.toNat 0 0 0 0
    (lenf + (lens - overlap), lenb - lens)
  else (lenf, lenb)

/-- What is written for a block: the control data, the differences and the extra bytes. -/
def writeBlock (lastscan lastpos scan pos lenf lenb : Int) : List UInt8 :=
  let extra := scan - lenb - (lastscan + lenf)
  offtout lenf ++ offtout extra ++ offtout (pos - lenb - (lastpos + lenf)) ++
    ((List.range lenf.toNat).map (fun i : Nat =>
        new.getD (lastscan + i).toNat 0 - old.getD (lastpos + i).toNat 0) ++
      (List.range extra.toNat).map fun i : Nat => new.getD (lastscan + lenf + i).toNat 0)

/-- The variables of the `while` loop. -/
structure DiffState where
  scan : Int
  len : Int
  pos : Int
  lastscan : Int
  lastpos : Int
  lastoffset : Int
  deriving DecidableEq, Repr

/-- The `while` loop of `bsdiff_internal`: what it writes, or `none` when it has not ended. The
stream takes every write (`diff_write` returns `0`). -/
def bsdiffLoop (search : Int → Int × Int) : (fuel : Nat) → DiffState → Option (List UInt8)
  | 0, _ => none
  | fuel + 1, state =>
      if state.scan < new.length then
        let start := state.scan + state.len
        let scanned :=
          scanLoop old new search state.lastoffset (new.length - start).toNat
            ⟨start, state.len, state.pos, start, 0⟩
        if scanned.len ≠ scanned.oldscore ∨ scanned.scan = new.length then
          let (lenf, lenb) := cut old new state.lastscan state.lastpos scanned.scan scanned.pos
          (bsdiffLoop search fuel
              { scan := scanned.scan
                len := scanned.len
                pos := scanned.pos
                lastscan := scanned.scan - lenb
                lastpos := scanned.pos - lenb
                lastoffset := scanned.pos - scanned.scan }).map
            (writeBlock old new state.lastscan state.lastpos scanned.scan scanned.pos lenf lenb
              ++ ·)
        else
          bsdiffLoop search fuel
            { state with
              scan := scanned.scan
              len := scanned.len
              pos := scanned.pos }
      else some []

/-- `bsdiff_internal`. Two rounds of the loop take `scan` on by a byte. -/
def bsdiffInternal (search : Int → Int × Int) : Option (List UInt8) :=
  bsdiffLoop old new search (2 * new.length + 2) ⟨0, 0, 0, 0, 0, 0⟩

/-- `pipeline_diff_command`: the patch file. -/
def pipelineDiffCommand (search : Int → Int × Int) : Option (List UInt8) :=
  (bsdiffInternal old new search).map
    (List.replicate 16 0x2a ++ offtout new.length ++ ·)

end Diff

/-! ### The integers of a patch -/

theorem offtoutBytes_eq (count y : Nat) : offtoutBytes count y = toLE count y := by
  induction count generalizing y with
  | zero => rfl
  | succ count ih =>
      have step : (y - y % 256) / 256 = y / 256 := by omega
      rw [offtoutBytes, toLE, step, ih]

/-- A small number fills the first seven bytes; the last one is free for the sign. -/
theorem toLE_eight {y : Nat} (small : y < 2 ^ 31) : toLE 8 y = toLE 7 y ++ [0] := by
  refine ofLE_injective (by rw [toLE_length, List.length_append, toLE_length]; rfl) ?_
  rw [ofLE_append, ofLE_toLE (by omega), ofLE_toLE (by omega)]
  exact (Nat.add_zero y).symm

/-- **What `offtout` writes, `offtin` reads.** -/
theorem offtout_spells {x : Int} (low : -2 ^ 31 < x) (high : x < 2 ^ 31) :
    Spells (offtout x) x := by
  have seven : ∀ y, (toLE 7 y).length = 7 := toLE_length 7
  have digits : ∀ {y : Nat}, y < 2 ^ 31 → ofLE (toLE 7 y ++ [0]) = y := by
    intro y small
    rw [← toLE_eight small, ofLE_toLE (by omega)]
  by_cases negative : x < 0
  · have small : (-x).toNat < 2 ^ 31 := by omega
    have bytes : offtout x = toLE 7 (-x).toNat ++ [0x80] := by
      simp only [offtout, if_pos negative, offtoutBytes_eq, toLE_eight small]
      rw [List.set_append_right _ _ (seven _).le, List.getD_append_right _ _ _ _ (seven _).le,
        seven]
      rfl
    have width : (offtout x).length = 8 := by
      rw [bytes, List.length_append, seven]
      rfl
    have last : (toLE 7 (-x).toNat ++ [0x80]).getD 7 0 = 0x80 := by
      rw [List.getD_append_right _ _ _ _ (seven _).le, seven]
      rfl
    refine ⟨width, ?_, low, high⟩
    rw [offtin_eq width, bytes, last, if_pos (by decide), List.take_left' (seven _)]
    show -((ofLE (toLE 7 (-x).toNat ++ [0]) : Nat) : Int) = x
    rw [digits small]
    omega
  · have small : x.toNat < 2 ^ 31 := by omega
    have bytes : offtout x = toLE 7 x.toNat ++ [0] := by
      simp only [offtout, if_neg negative, offtoutBytes_eq, toLE_eight small]
    have width : (offtout x).length = 8 := by
      rw [bytes, List.length_append, seven]
      rfl
    have last : (toLE 7 x.toNat ++ [0]).getD 7 0 = 0 := by
      rw [List.getD_append_right _ _ _ _ (seven _).le, seven]
      rfl
    refine ⟨width, ?_, low, high⟩
    rw [offtin_eq width, bytes, last, if_neg (by decide), List.take_left' (seven _)]
    show ((ofLE (toLE 7 x.toNat ++ [0]) : Nat) : Int) = x
    rw [digits small]
    omega

/-! ### The lengths of a block -/

section Lengths

variable {old new : List UInt8} {lastscan lastpos scan pos : Int}

theorem forwardLoop_ok {fuel : Nat} {i s Sf lenf : Int} (low : 0 ≤ lenf) (behind : lenf ≤ i)
    (inNew : lastscan + i ≤ scan) (inOld : lastpos + i ≤ old.length) :
    0 ≤ forwardLoop old new lastscan lastpos scan fuel i s Sf lenf ∧
      lastscan + forwardLoop old new lastscan lastpos scan fuel i s Sf lenf ≤ scan ∧
      lastpos + forwardLoop old new lastscan lastpos scan fuel i s Sf lenf ≤ old.length := by
  induction fuel generalizing i s Sf lenf with
  | zero => exact ⟨low, by rw [forwardLoop]; omega, by rw [forwardLoop]; omega⟩
  | succ fuel ih =>
      rw [forwardLoop]
      by_cases goes : lastscan + i < scan ∧ lastpos + i < old.length
      · rw [if_pos goes]
        dsimp only
        generalize (if old.getD (lastpos + i).toNat 0 = new.getD (lastscan + i).toNat 0 then _
          else _) = s'
        split
        · exact ih (by omega) le_rfl (by omega) (by omega)
        · exact ih low (by omega) (by omega) (by omega)
      · rw [if_neg goes]
        exact ⟨low, by omega, by omega⟩

theorem backwardLoop_ok {fuel : Nat} {i s Sb lenb : Int} (low : 0 ≤ lenb) (first : 1 ≤ i)
    (inNew : lastscan + lenb ≤ scan) (inOld : lenb ≤ pos) :
    0 ≤ backwardLoop old new lastscan scan pos fuel i s Sb lenb ∧
      lastscan + backwardLoop old new lastscan scan pos fuel i s Sb lenb ≤ scan ∧
      backwardLoop old new lastscan scan pos fuel i s Sb lenb ≤ pos := by
  induction fuel generalizing i s Sb lenb with
  | zero => exact ⟨low, inNew, inOld⟩
  | succ fuel ih =>
      rw [backwardLoop]
      by_cases goes : lastscan + i ≤ scan ∧ i ≤ pos
      · rw [if_pos goes]
        dsimp only
        generalize (if old.getD (pos - i).toNat 0 = new.getD (scan - i).toNat 0 then _ else _) = s'
        split
        · exact ih (by omega) (by omega) goes.1 goes.2
        · exact ih low (by omega) inNew inOld
      · rw [if_neg goes]
        exact ⟨low, inNew, inOld⟩

theorem overlapLoop_ok {front oldFront back oldBack : Int} {count : Nat} {i s Ss lens : Int}
    (low : 0 ≤ lens) (behind : lens ≤ i) :
    0 ≤ overlapLoop old new front oldFront back oldBack count i s Ss lens ∧
      overlapLoop old new front oldFront back oldBack count i s Ss lens ≤ i + count := by
  induction count generalizing i s Ss lens with
  | zero => exact ⟨low, by rw [overlapLoop]; omega⟩
  | succ count ih =>
      rw [overlapLoop]
      generalize (if new.getD (back + i).toNat 0 = old.getD (oldBack + i).toNat 0 then _ else _)
        = s'
      split
      · obtain ⟨least, most⟩ := @ih (i + 1) s' s' (i + 1) (by omega) le_rfl
        exact ⟨least, by push_cast; omega⟩
      · obtain ⟨least, most⟩ := @ih (i + 1) s' Ss lens low (by omega)
        exact ⟨least, by push_cast; omega⟩

/-- **The lengths of a block** are not negative and stay inside the two images; the last block
leaves nothing for the next one. -/
theorem cut_ok (inNew : lastscan ≤ scan) (inOld : lastpos ≤ old.length) (low : 0 ≤ pos) :
    0 ≤ (cut old new lastscan lastpos scan pos).1 ∧
      lastpos + (cut old new lastscan lastpos scan pos).1 ≤ old.length ∧
      0 ≤ (cut old new lastscan lastpos scan pos).2 ∧
      (cut old new lastscan lastpos scan pos).2 ≤ pos ∧
      lastscan + (cut old new lastscan lastpos scan pos).1 ≤
        scan - (cut old new lastscan lastpos scan pos).2 ∧
      (new.length ≤ scan → (cut old new lastscan lastpos scan pos).2 = 0) := by
  unfold cut
  obtain ⟨fLow, fNew, fOld⟩ := @forwardLoop_ok old new lastscan lastpos scan
    (scan - lastscan).toNat 0 0 0 0 le_rfl le_rfl (by omega) (by omega)
  generalize forwardLoop old new lastscan lastpos scan (scan - lastscan).toNat 0 0 0 0 = lenf
    at fLow fNew fOld
  obtain ⟨lenb, eq, bLow, bNew, bOld, bLast⟩ : ∃ lenb,
      (if scan < new.length then
        backwardLoop old new lastscan scan pos (scan - lastscan).toNat 1 0 0 0 else 0) = lenb ∧
      0 ≤ lenb ∧ lastscan + lenb ≤ scan ∧ lenb ≤ pos ∧ (new.length ≤ scan → lenb = 0) := by
    by_cases more : scan < new.length
    · obtain ⟨bLow, bNew, bOld⟩ := @backwardLoop_ok old new lastscan scan pos
        (scan - lastscan).toNat 1 0 0 0 le_rfl le_rfl (by omega) low
      exact ⟨_, if_pos more, bLow, bNew, bOld, fun last => absurd more (not_lt.mpr last)⟩
    · exact ⟨_, if_neg more, le_rfl, by omega, low, fun _ => rfl⟩
  rw [eq]
  dsimp only
  by_cases meets : scan - lenb < lastscan + lenf
  · rw [if_pos meets]
    obtain ⟨sLow, sHigh⟩ := @overlapLoop_ok old new
      (lastscan + lenf - (lastscan + lenf - (scan - lenb)))
      (lastpos + lenf - (lastscan + lenf - (scan - lenb))) (scan - lenb) (pos - lenb)
      (lastscan + lenf - (scan - lenb)).toNat 0 0 0 0 le_rfl le_rfl
    generalize overlapLoop old new _ _ _ _ (lastscan + lenf - (scan - lenb)).toNat 0 0 0 0 = lens
      at sLow sHigh
    dsimp only
    refine ⟨by omega, by omega, by omega, by omega, by omega, fun last => ?_⟩
    have none_ := bLast last
    omega
  · rw [if_neg meets]
    exact ⟨fLow, fOld, bLow, bOld, by omega, bLast⟩

end Lengths

/-! ### The search -/

/-- What a suffix search may answer: a place in the old image, and a length that ends in the new
one. -/
def Searches (old new : List UInt8) (search : Int → Int × Int) : Prop :=
  ∀ scan : Int, 0 ≤ scan → scan < new.length →
    (0 ≤ (search scan).1 ∧ (search scan).1 ≤ new.length - scan) ∧
      0 ≤ (search scan).2 ∧ (search scan).2 ≤ old.length

/-- What `qsufsort` leaves in `I`: the suffixes of the old image, by where they begin. -/
def Suffixes (old : List UInt8) (I : Nat → Int) : Prop :=
  ∀ index ≤ old.length, 0 ≤ I index ∧ I index ≤ old.length

theorem matchlen_le (old nnew : List UInt8) : matchlen old nnew ≤ nnew.length := by
  induction old generalizing nnew with
  | nil => exact Nat.zero_le _
  | cons byte old ih =>
      cases nnew with
      | nil => exact Nat.zero_le _
      | cons other nnew =>
          rw [matchlen]
          split
          · exact Nat.zero_le _
          · exact Nat.succ_le_succ (ih nnew)

/-- The search ends at one of the suffixes. -/
theorem search_suffix (I : Nat → Int) (old nnew : List UInt8) {bound st en : Nat}
    (first : st ≤ bound) (last : en ≤ bound) :
    ∃ index ≤ bound, search I old nnew st en =
      ((matchlen (old.drop (I index).toNat) nnew : Int), I index) := by
  fun_induction search I old nnew st en with
  | case1 st en short x y longer => exact ⟨st, first, rfl⟩
  | case2 st en short x y shorter => exact ⟨en, last, rfl⟩
  | case3 st en wide x less ih => exact ih (by omega) last
  | case4 st en wide x less ih => exact ih first (by omega)

/-- The search answers inside the two images. -/
theorem searchFrom_searches {old new : List UInt8} {I : Nat → Int}
    (suffixes : Suffixes old I) :
    Searches old new (searchFrom I old new) := by
  intro scan low high
  obtain ⟨index, inside, answer⟩ := search_suffix I old (new.drop scan.toNat)
    (Nat.zero_le old.length) le_rfl
  have short := matchlen_le (old.drop (I index).toNat) (new.drop scan.toNat)
  rw [List.length_drop] at short
  rw [searchFrom, answer]
  refine ⟨⟨Int.natCast_nonneg _, ?_⟩, suffixes index inside⟩
  simp only
  omega

/-! ### The walk -/

section Walk

variable {old new : List UInt8} {search : Int → Int × Int}

theorem scoreLoop_le (lastoffset : Int) (count : Nat) (scsc oldscore : Int) :
    oldscore ≤ (scoreLoop old new lastoffset count scsc oldscore).2 := by
  induction count generalizing scsc oldscore with
  | zero => exact le_rfl
  | succ count ih =>
      rw [scoreLoop]
      refine le_trans ?_ (ih _ _)
      split <;> omega

/-- The variables of the loop over `scan`, begun at `start`. -/
structure ScanState.Sound (old new : List UInt8) (start : Int) (state : ScanState) : Prop where
  le : start ≤ state.scan
  inNew : state.scan ≤ new.length
  len_low : 0 ≤ state.len
  pos_low : 0 ≤ state.pos
  inOld : state.pos ≤ old.length

/-- The loop over `scan` ends with a match inside the new image, or at its end. -/
theorem scanLoop_sound (searches : Searches old new search) (lastoffset : Int) {fuel : Nat}
    {state : ScanState} {start : Int} (low : 0 ≤ start) (sound : state.Sound old new start)
    (enough : new.length - state.scan ≤ fuel) :
    (scanLoop old new search lastoffset fuel state).Sound old new start ∧
      ((scanLoop old new search lastoffset fuel state).scan < new.length →
        (scanLoop old new search lastoffset fuel state).scan +
          (scanLoop old new search lastoffset fuel state).len ≤ new.length) := by
  induction fuel generalizing state with
  | zero => exact ⟨sound, fun more => absurd more (by rw [scanLoop]; omega)⟩
  | succ fuel ih =>
      rw [scanLoop]
      by_cases more : state.scan < new.length
      · obtain ⟨⟨lenLow, lenHigh⟩, posLow, posHigh⟩ :=
          searches state.scan (low.trans sound.le) more
        have le := sound.le
        rw [if_pos more]
        dsimp only
        split
        · exact ⟨⟨le, more.le, lenLow, posLow, posHigh⟩, fun _ => by dsimp only; omega⟩
        · exact ih ⟨by dsimp only; omega, more, lenLow, posLow, posHigh⟩
            (by dsimp only; push_cast at enough; omega)
      · rw [if_neg more]
        exact ⟨sound, fun less => absurd less more⟩

/-- The loop over `scan` goes on, or its first match is not empty: a score of `0` is only left
behind by a match. -/
theorem scanLoop_progress (searches : Searches old new search) (lastoffset : Int) {fuel : Nat}
    {state : ScanState} (low : 0 ≤ state.scan) (more : state.scan < new.length)
    (enough : new.length - state.scan ≤ fuel) (score : state.oldscore = 0) :
    state.scan < (scanLoop old new search lastoffset fuel state).scan ∨
      state.scan = (scanLoop old new search lastoffset fuel state).scan ∧
        0 < (scanLoop old new search lastoffset fuel state).len := by
  cases fuel with
  | zero => omega
  | succ fuel =>
      obtain ⟨⟨lenLow, lenHigh⟩, posLow, posHigh⟩ := searches state.scan low more
      rw [scanLoop, if_pos more]
      dsimp only
      have counted := @scoreLoop_le old new lastoffset
        (state.scan + (search state.scan).1 - state.scsc).toNat state.scsc state.oldscore
      generalize scoreLoop old new lastoffset
        (state.scan + (search state.scan).1 - state.scsc).toNat state.scsc state.oldscore = scored
        at counted
      split
      · rename_i stops
        exact .inr ⟨rfl, by dsimp only; omega⟩
      · refine .inl (lt_of_lt_of_le (Int.lt_succ state.scan) ?_)
        refine (scanLoop_sound searches lastoffset (by omega) ?_ ?_).1.le
        · exact ⟨le_rfl, more, lenLow, posLow, posHigh⟩
        · dsimp only
          push_cast at enough
          omega

/-- The bytes of a range of a list, one by one. -/
theorem range_getD_eq {bytes : List UInt8} {start count : Nat}
    (fits : start + count ≤ bytes.length) :
    (List.range count).map (fun i => bytes.getD (start + i) 0) = slice bytes start count := by
  refine List.ext_getElem (by rw [List.length_map, List.length_range, slice_length fits]) ?_
  intro index inside _
  rw [List.length_map, List.length_range] at inside
  simp only [List.getElem_map, List.getElem_range, slice, List.getElem_take, List.getElem_drop]
  exact List.getD_eq_getElem _ _ (by omega)

/-- Differences added to the old image give the new one. -/
theorem sumOld_sub {lastscan lastpos count : Nat} (inNew : lastscan + count ≤ new.length)
    (inOld : lastpos + count ≤ old.length) :
    sumOld old lastpos ((List.range count).map fun i =>
        new.getD (lastscan + i) 0 - old.getD (lastpos + i) 0) = slice new lastscan count := by
  have diffs : ((List.range count).map fun i =>
      new.getD (lastscan + i) 0 - old.getD (lastpos + i) 0).length = count := by
    rw [List.length_map, List.length_range]
  refine List.ext_getElem ?_ ?_
  · rw [sumOld_length (.inr ⟨by omega, by rw [diffs]; omega⟩), diffs, slice_length inNew]
  · intro index inside inSlice
    rw [slice_length inNew] at inSlice
    simp only [sumOld, List.getElem_zipWith, List.getElem_map, List.getElem_range,
      List.getElem_drop, slice, List.getElem_take, Int.toNat_natCast]
    rw [List.getD_eq_getElem _ _ (by omega), List.getD_eq_getElem _ _ (by omega)]
    exact UInt8.sub_add_cancel _ _

theorem drop_slice (bytes : List UInt8) (start count : Nat) :
    slice bytes start count ++ bytes.drop (start + count) = bytes.drop start := by
  rw [slice, ← List.drop_drop, List.take_append_drop]

/-- **A block that is written is a block of a complete patch**: it stands for the bytes of the new
image up to where the next one begins. -/
theorem writeBlock_complete {lastscan lastpos lenf extra nextpos : Nat} {scan pos lenb : Int}
    {body : List UInt8} (oldSmall : old.length < 2 ^ 31) (newSmall : new.length < 2 ^ 31)
    (more : lastscan < new.length) (inOld : lastpos + lenf ≤ old.length)
    (nextOld : nextpos ≤ old.length) (inNew : lastscan + lenf + extra ≤ new.length)
    (toScan : scan - lenb = (lastscan + lenf + extra : Nat)) (toPos : pos - lenb = nextpos)
    (rest : Complete old new.length nextpos (lastscan + lenf + extra) body
      (new.drop (lastscan + lenf + extra)) [] true) :
    Complete old new.length lastpos lastscan
      (writeBlock old new lastscan lastpos scan pos lenf lenb ++ body) (new.drop lastscan) []
      true := by
  have length : scan - lenb - (lastscan + lenf) = (extra : Nat) := by
    rw [toScan]
    push_cast
    ring
  have written : writeBlock old new lastscan lastpos scan pos lenf lenb ++ body =
      offtout lenf ++ offtout extra ++ offtout ((nextpos : Int) - (lastpos + lenf)) ++
        ((List.range lenf).map (fun i =>
            new.getD (lastscan + i) 0 - old.getD (lastpos + i) 0) ++
          ((List.range extra).map (fun i => new.getD (lastscan + lenf + i) 0) ++ body)) := by
    simp only [writeBlock, length, toPos, List.append_assoc]
    rfl
  have summed := @sumOld_sub old new lastscan lastpos lenf (by omega) inOld
  have out : new.drop lastscan =
      sumOld old lastpos ((List.range lenf).map fun i =>
          new.getD (lastscan + i) 0 - old.getD (lastpos + i) 0) ++
        ((List.range extra).map (fun i => new.getD (lastscan + lenf + i) 0) ++
          new.drop (lastscan + lenf + extra)) := by
    rw [summed, range_getD_eq inNew, drop_slice, drop_slice]
  have diffs : ((List.range lenf).map fun i =>
      new.getD (lastscan + i) 0 - old.getD (lastpos + i) 0).length = lenf := by
    rw [List.length_map, List.length_range]
  have extras : ((List.range extra).map fun i => new.getD (lastscan + lenf + i) 0).length =
      extra := by
    rw [List.length_map, List.length_range]
  rw [written, out]
  refine .block more ?_ ?_ (offtout_spells (by omega) (by omega)) ?_ ?_ ?_
  · rw [diffs]
    exact offtout_spells (by omega) (by omega)
  · rw [extras]
    exact offtout_spells (by omega) (by omega)
  · rw [diffs]
    exact .inr ⟨by omega, by omega⟩
  · rw [diffs, extras]
    exact inNew
  · rw [diffs, extras]
    have place : (lastpos : Int) + lenf + (nextpos - (lastpos + lenf)) = nextpos := by ring
    rwa [place]

/-- The variables of the `while` loop: the last block ends before `scan`, and is the last one of all
only when nothing is left. -/
structure DiffState.Ready (old new : List UInt8) (state : DiffState) : Prop where
  len_low : 0 ≤ state.len
  fits : state.scan < new.length → state.scan + state.len ≤ new.length
  pos_low : 0 ≤ state.pos
  pos_high : state.pos ≤ old.length
  last_low : 0 ≤ state.lastscan
  last_high : state.lastscan ≤ state.scan
  lastpos_low : 0 ≤ state.lastpos
  lastpos_high : state.lastpos ≤ old.length
  whole : state.scan < new.length ∨ state.lastscan = new.length

/-- How far the walk still is from its end: a match that is not empty takes the next round on. -/
def DiffState.distance (new : List UInt8) (state : DiffState) : Nat :=
  2 * (new.length - state.scan).toNat + if state.len = 0 then 1 else 0

/-- **The walk ends**, and what it writes is a complete patch for the rest of the new image. -/
theorem bsdiffLoop_complete (searches : Searches old new search) (oldSmall : old.length < 2 ^ 31)
    (newSmall : new.length < 2 ^ 31) {fuel : Nat} {state : DiffState}
    (ready : state.Ready old new) (enough : state.distance new < fuel) :
    ∃ body, bsdiffLoop old new search fuel state = some body ∧
      Complete old new.length state.lastpos state.lastscan.toNat body
        (new.drop state.lastscan.toNat) [] true := by
  induction fuel generalizing state with
  | zero => omega
  | succ fuel ih =>
      obtain ⟨lenLow, fits, posLow, posHigh, lastLow, lastHigh, lastposLow, lastposHigh, whole⟩ :=
        ready
      rw [bsdiffLoop]
      by_cases more : state.scan < new.length
      · rw [if_pos more]
        dsimp only
        have start : state.scan + state.len ≤ new.length := fits more
        obtain ⟨sound, inside⟩ := @scanLoop_sound old new search searches state.lastoffset
          (new.length - (state.scan + state.len)).toNat
          ⟨state.scan + state.len, state.len, state.pos, state.scan + state.len, 0⟩
          (state.scan + state.len) (by omega) ⟨le_rfl, start, lenLow, posLow, posHigh⟩
          (by dsimp only; omega)
        have progress : state.scan + state.len < new.length → _ := fun less =>
          @scanLoop_progress old new search searches state.lastoffset
            (new.length - (state.scan + state.len)).toNat
            ⟨state.scan + state.len, state.len, state.pos, state.scan + state.len, 0⟩
            (by dsimp only; omega) less (by dsimp only; omega) rfl
        generalize scanLoop old new search state.lastoffset
          (new.length - (state.scan + state.len)).toNat
          ⟨state.scan + state.len, state.len, state.pos, state.scan + state.len, 0⟩ = scanned
          at sound inside progress
        obtain ⟨le, inNew, lenLow', posLow', inOld⟩ := sound
        have closer : ∀ after : DiffState, after.scan = scanned.scan → after.len = scanned.len →
            after.distance new < fuel := by
          intro after sameScan sameLen
          unfold DiffState.distance at enough ⊢
          rw [sameScan, sameLen]
          by_cases empty : state.len = 0
          · have goes := progress (by omega)
            dsimp only at goes
            rw [if_pos empty] at enough
            split <;> omega
          · rw [if_neg empty] at enough
            split <;> omega
        by_cases writes : scanned.len ≠ scanned.oldscore ∨ scanned.scan = new.length
        · rw [if_pos writes]
          obtain ⟨fLow, fOld, bLow, bHigh, meets, last⟩ := @cut_ok old new state.lastscan
            state.lastpos scanned.scan scanned.pos (by omega) lastposHigh posLow'
          generalize cut old new state.lastscan state.lastpos scanned.scan scanned.pos = lengths
            at fLow fOld bLow bHigh meets last
          obtain ⟨lenf, lenb⟩ := lengths
          dsimp only at fLow fOld bLow bHigh meets last
          have ready : DiffState.Ready old new
              { scan := scanned.scan
                len := scanned.len
                pos := scanned.pos
                lastscan := scanned.scan - lenb
                lastpos := scanned.pos - lenb
                lastoffset := scanned.pos - scanned.scan } := by
            refine ⟨lenLow', inside, posLow', inOld, ?_, ?_, ?_, ?_, ?_⟩ <;> dsimp only
            · omega
            · omega
            · omega
            · omega
            · by_cases end_ : new.length ≤ scanned.scan
              · exact .inr (by rw [last end_]; omega)
              · exact .inl (not_le.mp end_)
          obtain ⟨body, rest, complete⟩ := ih ready (closer _ rfl rfl)
          dsimp only at rest complete ⊢
          rw [rest]
          refine ⟨_, rfl, ?_⟩
          obtain ⟨first, lastscan⟩ := Int.eq_ofNat_of_zero_le lastLow
          obtain ⟨oldFirst, lastpos⟩ := Int.eq_ofNat_of_zero_le lastposLow
          obtain ⟨forward, rfl⟩ := Int.eq_ofNat_of_zero_le fLow
          obtain ⟨oldNext, nextpos⟩ : ∃ oldNext : Nat, scanned.pos - lenb = oldNext :=
            Int.eq_ofNat_of_zero_le (by omega)
          obtain ⟨extra, nextscan⟩ : ∃ extra : Nat,
              scanned.scan - lenb = (first + forward + extra : Nat) :=
            ⟨(scanned.scan - lenb - (first + forward)).toNat, by omega⟩
          rw [nextscan, nextpos, Int.toNat_natCast] at complete
          rw [lastscan, lastpos, Int.toNat_natCast]
          exact writeBlock_complete oldSmall newSmall (by omega) (by omega) (by omega) (by omega)
            nextscan nextpos complete
        · rw [if_neg writes]
          have ready : DiffState.Ready old new
              { state with
                scan := scanned.scan
                len := scanned.len
                pos := scanned.pos } := by
            refine ⟨lenLow', inside, posLow', inOld, lastLow, ?_, lastposLow, lastposHigh, .inl ?_⟩
              <;> dsimp only <;> omega
          exact ih ready (closer _ rfl rfl)
      · obtain last := whole.resolve_left more
        rw [if_neg more, last]
        exact ⟨[], rfl, by rw [Int.toNat_natCast, List.drop_length]; exact .done le_rfl⟩

/-- The patch file is a header and a complete patch for the new image. -/
theorem pipelineDiffCommand_complete (searches : Searches old new search)
    (oldSmall : old.length < 2 ^ 31) (newSmall : new.length < 2 ^ 31) :
    ∃ body, pipelineDiffCommand old new search =
        some (List.replicate 16 0x2a ++ offtout new.length ++ body) ∧
      Complete old new.length 0 0 body new [] true := by
  have ready : DiffState.Ready old new ⟨0, 0, 0, 0, 0, 0⟩ := by
    refine ⟨le_rfl, fun _ => ?_, le_rfl, ?_, le_rfl, le_rfl, le_rfl, ?_, ?_⟩ <;> dsimp only <;>
      omega
  have enough : DiffState.distance new ⟨0, 0, 0, 0, 0, 0⟩ < 2 * new.length + 2 := by
    rw [DiffState.distance, if_pos rfl]
    dsimp only
    omega
  obtain ⟨body, walk, complete⟩ := bsdiffLoop_complete searches oldSmall newSmall ready enough
  refine ⟨body, ?_, complete⟩
  rw [pipelineDiffCommand, bsdiffInternal, walk]
  rfl

end Walk

section RoundTrip

variable {ν : Type} {old new : List UInt8}

/-- A patch file in any chunks, through the stage over any next one: it is taken to its end without
an error, the new image comes out, and every read lies inside the old one. -/
def Rebuilds (old new patch : List UInt8) (next : Stage ν)
    (readOld : Nat → ν → Int × List UInt8 × ν) : Prop :=
  ∀ chunks ctx below, chunks.flatten = patch →
    ∃ session,
      bspatchSession (watchNext next) (watchOld readOld old.length) chunks 0
          (pipelineBspatchInit ctx, ⟨below, [], true⟩) = session ∧
        session.1 = .finished ∧ session.2.1 = patch.length ∧ session.2.2.emitted = new ∧
          session.2.2.inside = true

/-- A header and a complete patch rebuild the new image. -/
theorem Complete.rebuilds {body : List UInt8} (complete : Complete old new.length 0 0 body new [] true)
    (newSmall : new.length < 2 ^ 31) (next : Stage ν)
    {readOld : Nat → ν → Int × List UInt8 × ν} (holds : HoldsOld readOld old) :
    Rebuilds old new (List.replicate 16 0x2a ++ offtout new.length ++ body) next readOld := by
  refine fun chunks ctx below whole => ⟨_, rfl, ?_⟩
  have spells : Spells (offtout new.length) new.length := offtout_spells (by omega) (by omega)
  obtain ⟨status, state, count⟩ :=
    complete.session spells (holds.supports next below new) whole ctx
  refine ⟨status, ?_, ?_, ?_⟩
  · refine (count rfl).trans ?_
    rw [whole]
    exact sub_zero _
  · exact congrArg Watched.emitted state
  · exact congrArg Watched.inside state

/-- The search of the tool, over suffixes in any order. -/
theorem searchFrom_rebuilds {I : Nat → Int} (suffixes : Suffixes old I)
    (oldSmall : old.length < 2 ^ 31) (newSmall : new.length < 2 ^ 31) (next : Stage ν)
    {readOld : Nat → ν → Int × List UInt8 × ν} (holds : HoldsOld readOld old) :
    ∃ patch, pipelineDiffCommand old new (searchFrom I old new) = some patch ∧
      Rebuilds old new patch next readOld := by
  obtain ⟨body, written, complete⟩ :=
    pipelineDiffCommand_complete (searchFrom_searches suffixes) oldSmall newSmall
  exact ⟨_, written, complete.rebuilds newSmall next holds⟩

end RoundTrip

/-- **The way back**, whatever places and lengths the search answers inside the two images: the diff
ends, and the patch stage builds the new image from its patch file, in any chunks and after any other
session: it takes the whole file without an error, reads only inside the old image, and is
finished. -/
theorem bsdiff_roundTrip {ν : Type} (old new : List UInt8) (search : Int → Int × Int)
    (searches : Searches old new search) (oldSmall : old.length < 2 ^ 31)
    (newSmall : new.length < 2 ^ 31) (next : Stage ν) (readOld : Nat → ν → Int × List UInt8 × ν)
    (holds : HoldsOld readOld old) :
    ∃ patch, pipelineDiffCommand old new search = some patch ∧
      ∀ chunks ctx below, chunks.flatten = patch →
        ∃ session,
          bspatchSession (watchNext next) (watchOld readOld old.length) chunks 0
              (pipelineBspatchInit ctx, ⟨below, [], true⟩) = session ∧
            session.1 = .finished ∧ session.2.1 = patch.length ∧ session.2.2.emitted = new ∧
              session.2.2.inside = true := by
  obtain ⟨body, written, complete⟩ := pipelineDiffCommand_complete searches oldSmall newSmall
  exact ⟨_, written, complete.rebuilds newSmall next holds⟩

/-- The suffixes of three growing bytes, the shortest first. -/
def growingSuffixes (index : Nat) : Int := [3, 0, 1, 2].getD index 0

theorem growingSuffixes_ok : Suffixes [1, 2, 3] growingSuffixes := by
  intro index inside
  have few : index < 4 := Nat.lt_succ_of_le inside
  revert few
  revert index
  decide

/-- A search that finds nothing but claims the first byte. -/
theorem firstByte_searches : Searches [1, 2, 3] [1, 2, 4, 4] fun _ => (1, 0) := by
  intro scan low high
  simp only [List.length_cons, List.length_nil] at high ⊢
  omega

theorem growing_roundTrip :
    ∃ patch, pipelineDiffCommand [1, 2, 3] [1, 2, 4, 4] (fun _ => (1, 0)) = some patch ∧
      ∀ chunks ctx below, chunks.flatten = patch →
        ∃ session,
          bspatchSession (watchNext takeAll) (watchOld (readBytes [1, 2, 3]) 3) chunks 0
              (pipelineBspatchInit ctx, ⟨below, [], true⟩) = session ∧
            session.1 = .finished ∧ session.2.1 = patch.length ∧
              session.2.2.emitted = [1, 2, 4, 4] ∧ session.2.2.inside = true :=
  bsdiff_roundTrip [1, 2, 3] [1, 2, 4, 4] (fun _ => (1, 0)) firstByte_searches (by decide)
    (by decide) takeAll (readBytes [1, 2, 3]) (readBytes_holds (by decide))

end Upkit
