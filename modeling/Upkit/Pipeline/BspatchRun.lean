/-
**Runs of the patch stage.**

Between two bytes the stage keeps its position in static variables that several loops share, and a
session may find them as an earlier one left them. What they stand for is much less: the part of the
header or of a control triple that has arrived, or the block with the byte in it that comes next
(`Patching`). The stage refines the machine over these states.

* `Patching.next` — where a byte takes the machine; `patchByte`, `patchBytes` add what is read from
  the old image and handed to the next stage.
* `Represents` — the static variables at a place where the device waits, against the machine.
* `bspatchBytes_refines` — one call of the stage is a run of the machine.
* `bspatchSession_eq` — a session, in any chunks and after any other, is the run over all its bytes.
-/

import Upkit.Pipeline.Bspatch
import Upkit.Pipeline.Feeding

namespace Upkit

open Bytes

/-! ### The machine -/

/-- What eight bytes of a patch stand for: the device reads the magnitude in the first four. -/
def ctrlValue (bytes : List UInt8) : Int :=
  let magnitude := toInt32 (ofLE (bytes.take 4))
  toInt32 (wrap32 (if bytes.getD 7 0 &&& 0x80 ≠ 0 then -magnitude else magnitude))

/-- The announced length and the positions in the two images. -/
structure PatchPos where
  newsize : Int
  oldpos : Int
  newpos : Int
  deriving DecidableEq, Repr

/-- A control triple: the lengths of the two strings, and how far to go in the old image. -/
structure Triple where
  diff : Int
  extra : Int
  seek : Int
  deriving DecidableEq, Repr

/-- The triple that `24` bytes stand for. -/
def tripleOf (bytes : List UInt8) : Triple :=
  ⟨ctrlValue bytes, ctrlValue (bytes.drop 8), ctrlValue (bytes.drop 16)⟩

/-- What the machine waits for: more of the header, more of a control triple, or byte `i` of one of
the two strings of a block. -/
inductive Patching
  | header (got : List UInt8)
  | ctrl (pos : PatchPos) (got : List UInt8)
  | diff (pos : PatchPos) (triple : Triple) (i : Nat)
  | extra (pos : PatchPos) (triple : Triple) (i : Nat)
  deriving DecidableEq, Repr

/-- How the machine goes on. -/
inductive PatchNext
  | wait (state : Patching)
  | finished
  | failed (ret : Int)
  deriving DecidableEq, Repr

/-- The next block, or the end. -/
def PatchPos.loop (pos : PatchPos) : PatchNext :=
  if pos.newpos < pos.newsize then .wait (.ctrl pos []) else .finished

/-- Byte `i` of the extra bytes, or what follows them. -/
def PatchPos.extraFrom (pos : PatchPos) (triple : Triple) (i : Nat) : PatchNext :=
  if i < triple.extra then .wait (.extra pos triple i)
  else
    PatchPos.loop
      ⟨pos.newsize, pos.oldpos + triple.seek, pos.newpos + triple.extra⟩

/-- Byte `i` of the differences, or what follows them. -/
def PatchPos.diffFrom (pos : PatchPos) (triple : Triple) (i : Nat) : PatchNext :=
  if i < triple.diff then .wait (.diff pos triple i)
  else if pos.newsize < pos.newpos + triple.diff + triple.extra then .failed (-1)
  else
    PatchPos.extraFrom
      ⟨pos.newsize, pos.oldpos + triple.diff, pos.newpos + triple.diff⟩ triple 0

/-- After the header. -/
def startPatch (newsize : Int) : PatchNext :=
  if newsize < 0 then .failed (-2) else PatchPos.loop ⟨newsize, 0, 0⟩

/-- After a control triple. -/
def PatchPos.startBlock (pos : PatchPos) (triple : Triple) : PatchNext :=
  if pos.newsize < pos.newpos + triple.diff then .failed (-1) else pos.diffFrom triple 0

/-- Where a byte takes the machine. -/
def Patching.next : Patching → UInt8 → PatchNext
  | .header got, byte =>
      if got.length < 16 ∧ byte ≠ 0x2a then .failed (-1)
      else if got.length + 1 < 24 then .wait (.header (got ++ [byte]))
      else startPatch (ctrlValue ((got ++ [byte]).drop 16))
  | .ctrl pos got, byte =>
      if got.length + 1 < 24 then .wait (.ctrl pos (got ++ [byte]))
      else pos.startBlock (tripleOf (got ++ [byte]))
  | .diff pos triple i, _ => pos.diffFrom triple (i + 1)
  | .extra pos triple i, _ => pos.extraFrom triple (i + 1)

/-! Only negative codes -/

theorem PatchPos.loop_ne_failed (pos : PatchPos) (ret : Int) : pos.loop ≠ .failed ret := by
  unfold PatchPos.loop
  split <;> simp

theorem PatchPos.extraFrom_ne_failed (pos : PatchPos) (triple : Triple) (i : Nat) (ret : Int) :
    pos.extraFrom triple i ≠ .failed ret := by
  unfold PatchPos.extraFrom
  split
  · simp
  · exact PatchPos.loop_ne_failed _ ret

theorem PatchPos.diffFrom_failed {pos : PatchPos} {triple : Triple} {i : Nat} {ret : Int}
    (failed : pos.diffFrom triple i = .failed ret) : ret = -1 := by
  unfold PatchPos.diffFrom at failed
  split at failed
  · exact PatchNext.noConfusion failed
  · split at failed
    · exact (PatchNext.failed.inj failed).symm
    · exact absurd failed (PatchPos.extraFrom_ne_failed _ _ _ _)

theorem Patching.next_failed {state : Patching} {byte : UInt8} {ret : Int}
    (failed : state.next byte = .failed ret) : ret < 0 := by
  cases state with
  | header got =>
      simp only [Patching.next, startPatch] at failed
      split at failed
      · obtain rfl : -1 = ret := PatchNext.failed.inj failed
        decide
      · split at failed
        · exact PatchNext.noConfusion failed
        · split at failed
          · obtain rfl : -2 = ret := PatchNext.failed.inj failed
            decide
          · exact absurd failed (PatchPos.loop_ne_failed _ _)
  | ctrl pos got =>
      simp only [Patching.next, PatchPos.startBlock] at failed
      split at failed
      · exact PatchNext.noConfusion failed
      · split at failed
        · obtain rfl : -1 = ret := PatchNext.failed.inj failed
          decide
        · rw [PatchPos.diffFrom_failed failed]
          decide
  | diff pos triple i =>
      rw [PatchPos.diffFrom_failed failed]
      decide
  | extra pos triple i => exact absurd failed (PatchPos.extraFrom_ne_failed _ _ _ _)

section Machine

variable {ν : Type} (next : Stage ν) (readOld : Nat → ν → Int × List UInt8 × ν)

/-- One byte, with what it reads from the old image and hands on. -/
def patchByte (byte : UInt8) (state : Patching) (below : ν) : PatchNext × ν :=
  match state with
  | .header _ => (state.next byte, below)
  | .ctrl _ _ => (state.next byte, below)
  | .diff pos _ i =>
      let (ret, data, below) := readOld (wrap32 (pos.oldpos + i)) below
      if ret ≠ 1 then (.failed (-1), below)
      else
        let (_, below) := next [byte + data.headD 0] below
        (state.next byte, below)
  | .extra _ _ _ =>
      let (_, below) := next [byte] below
      (state.next byte, below)

/-- The bytes at hand, until the machine has ended: where it stands, and the bytes left. -/
def patchBytes : List UInt8 → Patching → ν → PatchNext × List UInt8 × ν
  | [], state, below => (.wait state, [], below)
  | byte :: rest, state, below =>
      match patchByte next readOld byte state below with
      | (.wait state, below) => patchBytes rest state below
      | (ended, below) => (ended, rest, below)

/-- The bytes of two chunks are taken one chunk after the other. -/
theorem patchBytes_append (first second : List UInt8) (state : Patching) (below : ν) :
    patchBytes next readOld (first ++ second) state below =
      match patchBytes next readOld first state below with
      | (.wait state, _, below) => patchBytes next readOld second state below
      | (ended, left, below) => (ended, left ++ second, below) := by
  induction first generalizing state below with
  | nil => rfl
  | cons byte first ih =>
      rw [List.cons_append, patchBytes, patchBytes]
      generalize patchByte next readOld byte state below = step
      obtain ⟨_ | _ | _, below⟩ := step
      · exact ih _ _
      · rfl
      · rfl

/-- The device only fails with a negative code. -/
theorem patchByte_failed (byte : UInt8) (state : Patching) (below : ν) {ret : Int}
    (failed : (patchByte next readOld byte state below).1 = .failed ret) : ret < 0 := by
  cases state with
  | header got =>
      simp only [patchByte] at failed
      exact Patching.next_failed failed
  | ctrl pos got =>
      simp only [patchByte] at failed
      exact Patching.next_failed failed
  | diff pos triple i =>
      simp only [patchByte] at failed
      generalize readOld (wrap32 (pos.oldpos + i)) below = got at failed
      obtain ⟨code, data, below⟩ := got
      by_cases refused : code ≠ 1
      · simp only [if_pos refused] at failed
        obtain rfl : -1 = ret := PatchNext.failed.inj failed
        decide
      · simp only [if_neg refused] at failed
        exact Patching.next_failed failed
  | extra pos triple i =>
      simp only [patchByte] at failed
      exact Patching.next_failed failed

theorem patchBytes_failed (bytes : List UInt8) (state : Patching) (below : ν) {ret : Int}
    (failed : (patchBytes next readOld bytes state below).1 = .failed ret) : ret < 0 := by
  induction bytes generalizing state below with
  | nil => exact PatchNext.noConfusion failed
  | cons byte rest ih =>
      have one := @patchByte_failed ν next readOld byte state below ret
      rw [patchBytes] at failed
      generalize patchByte next readOld byte state below = step at failed one
      obtain ⟨_ | _ | _, below⟩ := step
      · exact ih _ _ failed
      · exact one failed
      · exact one failed

theorem patchBytes_left (bytes : List UInt8) (state : Patching) (below : ν) :
    (patchBytes next readOld bytes state below).2.1.length ≤ bytes.length := by
  induction bytes generalizing state below with
  | nil => exact le_rfl
  | cons byte rest ih =>
      rw [patchBytes, List.length_cons]
      generalize patchByte next readOld byte state below = step
      obtain ⟨_ | _ | _, below⟩ := step
      · exact (ih _ _).trans (Nat.le_succ _)
      · exact Nat.le_succ _
      · exact Nat.le_succ _

/-- While the machine waits, nothing is left. -/
theorem patchBytes_wait {bytes : List UInt8} {state after : Patching} {below : ν}
    (waits : (patchBytes next readOld bytes state below).1 = .wait after) :
    (patchBytes next readOld bytes state below).2.1 = [] := by
  induction bytes generalizing state below with
  | nil => rfl
  | cons byte rest ih =>
      rw [patchBytes] at waits ⊢
      generalize patchByte next readOld byte state below = step at waits ⊢
      obtain ⟨_ | _ | _, below⟩ := step
      · exact ih waits
      · exact PatchNext.noConfusion waits
      · exact PatchNext.noConfusion waits

end Machine

/-! ### The static variables -/

/-- A `ctrl_t` in which the bytes `got` have been stored; from the eighth on it has its value. -/
def Ctrl.Stored (ctrl : Ctrl) (got : List UInt8) : Prop :=
  if got.length < 8 then ctrl.c.take got.length = got else ctrl.y = ctrlValue got

theorem Ctrl.stored_nil (ctrl : Ctrl) : ctrl.Stored [] := by
  rw [Ctrl.Stored, if_pos (by decide)]
  rfl

theorem Ctrl.Stored.value {ctrl : Ctrl} {got : List UInt8} (stored : ctrl.Stored got)
    (whole : 8 ≤ got.length) : ctrl.y = ctrlValue got := by
  rwa [Ctrl.Stored, if_neg (by omega)] at stored

/-- Only the first eight bytes count. -/
theorem ctrlValue_append {bytes : List UInt8} (whole : 8 ≤ bytes.length) (more : List UInt8) :
    ctrlValue (bytes ++ more) = ctrlValue bytes := by
  unfold ctrlValue
  rw [List.take_append_of_le_length (by omega), List.getD_append _ _ _ _ (by omega)]

theorem Ctrl.Stored.more {ctrl : Ctrl} {got : List UInt8} (stored : ctrl.Stored got)
    (whole : 8 ≤ got.length) (byte : UInt8) : ctrl.Stored (got ++ [byte]) := by
  rw [Ctrl.Stored, if_neg (by rw [List.length_append]; omega), ctrlValue_append whole]
  exact stored.value whole

theorem take_splice_next {bytes got : List UInt8} (held : bytes.take got.length = got)
    (byte : UInt8) : (splice bytes got.length [byte]).take (got.length + 1) = got ++ [byte] := by
  rw [splice, held]
  exact List.take_left' (by rw [List.length_append]; rfl)

theorem toInt32_ofLE_toLE (value : Int) :
    toInt32 (ofLE (toLE 4 (wrap32 value))) = toInt32 (wrap32 value) := by
  rw [ofLE_toLE]
  unfold wrap32
  omega

/-- Storing the next byte. The eighth one carries the sign. -/
theorem Ctrl.Stored.store {ctrl : Ctrl} {got : List UInt8} (stored : ctrl.Stored got)
    (room : got.length < 8) (byte : UInt8) :
    (ctrl.store got.length byte).Stored (got ++ [byte]) := by
  rw [Ctrl.Stored, if_pos room] at stored
  have length : (got ++ [byte]).length = got.length + 1 := List.length_append
  by_cases last : got.length = 7
  · have low : (splice ctrl.c 7 [byte &&& 0x7F]).take 4 = (got ++ [byte]).take 4 := by
      have front : (splice ctrl.c got.length [byte &&& 0x7F]).take (got.length + 1) = _ :=
        take_splice_next stored _
      rw [last] at front
      have shorter : ((splice ctrl.c 7 [byte &&& 0x7F]).take (7 + 1)).take 4 =
          (got ++ [byte &&& 0x7F]).take 4 := by rw [front]
      rw [List.take_take, List.take_append_of_le_length (by omega)] at shorter
      rw [List.take_append_of_le_length (by omega)]
      exact shorter
    have sign : (got ++ [byte]).getD 7 0 = byte := by
      rw [List.getD_append_right _ _ _ _ (by omega), last]
      rfl
    rw [Ctrl.Stored, if_neg (by omega), Ctrl.store, if_neg (by omega), ctrlValue, sign, ← low]
    have front : ∀ bytes value, (splice bytes 0 (toLE 4 value)).take 4 = toLE 4 value := by
      intro bytes value
      rw [splice_zero]
      exact List.take_left' (toLE_four value)
    rw [Ctrl.y, front, toInt32_ofLE_toLE]
    rfl
  · rw [Ctrl.Stored, if_pos (by omega), Ctrl.store, if_pos last, length]
    exact take_splice_next stored byte

/-- The positions in the static variables. -/
structure BspatchCtx.At (ctx : BspatchCtx) (pos : PatchPos) : Prop where
  newsize : ctx.newsize.y = pos.newsize
  oldpos : ctx.oldpos = pos.oldpos
  newpos : ctx.newpos = pos.newpos

/-- The control triple in the static variables. -/
structure BspatchCtx.Block (ctx : BspatchCtx) (triple : Triple) : Prop where
  diff : ctx.ctrl0.y = triple.diff
  extra : ctx.ctrl1.y = triple.extra
  seek : ctx.ctrl2.y = triple.seek

/-- The static variables at a place where the device waits, against the state of the machine. Of the
`ctrl_t` values only the bytes that have arrived matter. -/
inductive Represents (ctx : BspatchCtx) : BspatchLabel → Patching → Prop
  | header {got : List UInt8} (oldpos : ctx.oldpos = 0) (newpos : ctx.newpos = 0)
      (j : ctx.j = got.length) (room : got.length < 24)
      (stored : ctx.newsize.Stored (got.drop 16)) : Represents ctx .header (.header got)
  | ctrl {pos : PatchPos} {got : List UInt8} (at_ : ctx.At pos) (room : got.length < 24)
      (i : ctx.i = (got.length / 8 : Nat)) (j : ctx.j = got.length % 8)
      (stored0 : ctx.ctrl0.Stored got) (stored1 : ctx.ctrl1.Stored (got.drop 8))
      (stored2 : ctx.ctrl2.Stored (got.drop 16)) : Represents ctx .ctrl (.ctrl pos got)
  | diff {pos : PatchPos} {triple : Triple} {i : Nat} (at_ : ctx.At pos)
      (block : ctx.Block triple) (index : ctx.i = i) : Represents ctx .diff (.diff pos triple i)
  | extra {pos : PatchPos} {triple : Triple} {i : Nat} (at_ : ctx.At pos)
      (block : ctx.Block triple) (index : ctx.i = i) : Represents ctx .extra (.extra pos triple i)

/-- The device goes on as the machine does. -/
inductive GoesOn (ctx : BspatchCtx) : BspatchNext → PatchNext → Prop
  | wait {label : BspatchLabel} {state : Patching} (going : ctx.finish = false)
      (represents : Represents ctx label state) : GoesOn ctx (.wait label) (.wait state)
  | finished (ended : ctx.finish = true) : GoesOn ctx .finished .finished
  | failed (ret : Int) : GoesOn ctx (.failed ret) (.failed ret)

section Refinement

variable {ctx : BspatchCtx} {pos : PatchPos} {triple : Triple}

theorem BspatchCtx.loop_goesOn (going : ctx.finish = false) (at_ : ctx.At pos) :
    GoesOn ctx.loop.2 ctx.loop.1 pos.loop := by
  rw [BspatchCtx.loop, PatchPos.loop, ← at_.newsize, ← at_.newpos]
  by_cases more : ctx.newpos < ctx.newsize.y
  · rw [if_pos more, if_pos more]
    exact .wait going (.ctrl ⟨at_.newsize, at_.oldpos, at_.newpos⟩ (by decide) rfl rfl
      (Ctrl.stored_nil _) (Ctrl.stored_nil _) (Ctrl.stored_nil _))
  · rw [if_neg more, if_neg more]
    exact .finished rfl

theorem BspatchCtx.extraLoop_goesOn (going : ctx.finish = false) (at_ : ctx.At pos)
    (block : ctx.Block triple) {i : Nat} (index : ctx.i = i) :
    GoesOn ctx.extraLoop.2 ctx.extraLoop.1 (pos.extraFrom triple i) := by
  rw [BspatchCtx.extraLoop, PatchPos.extraFrom, block.extra, block.seek, index]
  by_cases more : (i : Int) < triple.extra
  · rw [if_pos more, if_pos more]
    exact .wait going (.extra at_ block index)
  · rw [if_neg more, if_neg more]
    refine BspatchCtx.loop_goesOn going ⟨at_.newsize, ?_, ?_⟩
    · exact congrArg (· + triple.seek) at_.oldpos
    · exact congrArg (· + triple.extra) at_.newpos

theorem BspatchCtx.diffLoop_goesOn (going : ctx.finish = false) (at_ : ctx.At pos)
    (block : ctx.Block triple) {i : Nat} (index : ctx.i = i) :
    GoesOn ctx.diffLoop.2 ctx.diffLoop.1 (pos.diffFrom triple i) := by
  simp only [BspatchCtx.diffLoop, PatchPos.diffFrom, block.diff, block.extra, index, at_.newsize,
    at_.newpos, at_.oldpos]
  by_cases more : (i : Int) < triple.diff
  · rw [if_pos more, if_pos more]
    exact .wait going (.diff at_ block index)
  · rw [if_neg more, if_neg more]
    by_cases tooLong : pos.newsize < pos.newpos + triple.diff + triple.extra
    · rw [if_pos tooLong, if_pos tooLong]
      exact .failed _
    · rw [if_neg tooLong, if_neg tooLong]
      apply BspatchCtx.extraLoop_goesOn
      · exact going
      · exact ⟨at_.newsize, rfl, rfl⟩
      · exact ⟨block.diff, block.extra, block.seek⟩
      · rfl

/-- A byte of the header. -/
theorem BspatchCtx.headerByte_goesOn {got : List UInt8} (going : ctx.finish = false)
    (represents : Represents ctx .header (.header got)) (byte : UInt8) :
    GoesOn (ctx.headerByte byte).2 (ctx.headerByte byte).1 (Patching.next (.header got) byte) := by
  obtain ⟨oldpos, newpos, j, room, stored⟩ := represents
  rw [BspatchCtx.headerByte, Patching.next, j]
  by_cases wrong : got.length < 16 ∧ byte ≠ 0x2a
  · rw [if_pos wrong, if_pos wrong]
    exact .failed _
  rw [if_neg wrong, if_neg wrong]
  have length : (got ++ [byte]).length = got.length + 1 := List.length_append
  by_cases magic : got.length < 16
  · -- The magic number is compared and not kept.
    simp only [if_pos magic, if_pos (show got.length + 1 < 24 by omega), j]
    refine .wait going (.header oldpos newpos (by rw [length]) (by omega) ?_)
    rw [List.drop_of_length_le (by omega)]
    exact Ctrl.stored_nil _
  · have store : (ctx.newsize.store (got.length - 16) byte).Stored ((got ++ [byte]).drop 16) := by
      have store := stored.store (by rw [List.length_drop]; omega) byte
      rwa [List.length_drop, ← List.drop_append_of_le_length (by omega)] at store
    simp only [if_neg magic]
    by_cases more : got.length + 1 < 24
    · simp only [if_pos more]
      exact .wait going (.header oldpos newpos (by rw [length]) (by omega) store)
    · have whole := store.value (by rw [List.length_drop]; omega)
      simp only [if_neg more, startPatch, whole]
      by_cases negative : ctrlValue ((got ++ [byte]).drop 16) < 0
      · simp only [if_pos negative]
        exact .failed _
      · simp only [if_neg negative]
        exact BspatchCtx.loop_goesOn going ⟨whole, oldpos, newpos⟩

/-- The static variables while a control triple arrives. -/
structure BspatchCtx.Collects (ctx : BspatchCtx) (pos : PatchPos) (got : List UInt8) : Prop where
  going : ctx.finish = false
  at_ : ctx.At pos
  stored0 : ctx.ctrl0.Stored got
  stored1 : ctx.ctrl1.Stored (got.drop 8)
  stored2 : ctx.ctrl2.Stored (got.drop 16)

/-- The byte is stored in the value it belongs to; the other two stay as they were. -/
theorem BspatchCtx.Collects.store {got : List UInt8} (collects : ctx.Collects pos got)
    (room : got.length < 24) (i : ctx.i = (got.length / 8 : Nat)) (j : ctx.j = got.length % 8)
    (byte : UInt8) : ∃ after : BspatchCtx,
      (if ctx.i = 0 then { ctx with ctrl0 := ctx.ctrl0.store ctx.j byte }
        else if ctx.i = 1 then { ctx with ctrl1 := ctx.ctrl1.store ctx.j byte }
        else { ctx with ctrl2 := ctx.ctrl2.store ctx.j byte }) = after ∧
      after.Collects pos (got ++ [byte]) ∧ after.i = ctx.i ∧ after.j = ctx.j := by
  obtain ⟨going, at_, stored0, stored1, stored2⟩ := collects
  have late : ∀ ctrl : Ctrl, ∀ start, got.length < start →
      ctrl.Stored ((got ++ [byte]).drop start) := by
    intro ctrl start before
    rw [List.drop_of_length_le (by rw [List.length_append]; exact before)]
    exact ctrl.stored_nil
  have place : ∀ (ctrl : Ctrl) start, ctrl.Stored (got.drop start) → start ≤ got.length →
      got.length < start + 8 →
      (ctrl.store (got.length - start) byte).Stored ((got ++ [byte]).drop start) := by
    intro ctrl start stored low high
    have store := stored.store (by rw [List.length_drop]; omega) byte
    rwa [List.length_drop, ← List.drop_append_of_le_length low] at store
  have early : ∀ (ctrl : Ctrl) start, ctrl.Stored (got.drop start) → start + 8 ≤ got.length →
      ctrl.Stored ((got ++ [byte]).drop start) := by
    intro ctrl start stored whole
    rw [List.drop_append_of_le_length (by omega)]
    exact stored.more (by rw [List.length_drop]; omega) byte
  rcases (by omega : got.length < 8 ∨ 8 ≤ got.length ∧ got.length < 16 ∨ 16 ≤ got.length) with
    first | second | third
  · refine ⟨_, if_pos (by omega), ⟨going, ⟨at_.newsize, at_.oldpos, at_.newpos⟩, ?_,
      late _ _ (by omega), late _ _ (by omega)⟩, rfl, rfl⟩
    rw [j, Nat.mod_eq_of_lt first]
    exact place _ 0 stored0 (by omega) (by omega)
  · refine ⟨_, (if_neg (by omega)).trans (if_pos (by omega)), ⟨going,
      ⟨at_.newsize, at_.oldpos, at_.newpos⟩, early _ 0 stored0 (by omega), ?_,
      late _ _ (by omega)⟩, rfl, rfl⟩
    rw [j, show got.length % 8 = got.length - 8 by omega]
    exact place _ 8 stored1 (by omega) (by omega)
  · refine ⟨_, (if_neg (by omega)).trans (if_neg (by omega)), ⟨going,
      ⟨at_.newsize, at_.oldpos, at_.newpos⟩, early _ 0 stored0 (by omega),
      early _ 8 stored1 (by omega), ?_⟩, rfl, rfl⟩
    rw [j, show got.length % 8 = got.length - 16 by omega]
    exact place _ 16 stored2 (by omega) (by omega)

/-- A byte of a control triple. -/
theorem BspatchCtx.ctrlByte_goesOn {got : List UInt8} (going : ctx.finish = false)
    (represents : Represents ctx .ctrl (.ctrl pos got)) (byte : UInt8) :
    GoesOn (ctx.ctrlByte byte).2 (ctx.ctrlByte byte).1 (Patching.next (.ctrl pos got) byte) := by
  cases represents with
  | ctrl at_ room i j stored0 stored1 stored2 =>
    obtain ⟨after, eq, collects, iAfter, jAfter⟩ :=
      BspatchCtx.Collects.store ⟨going, at_, stored0, stored1, stored2⟩ room i j byte
    have length : (got ++ [byte]).length = got.length + 1 := List.length_append
    obtain ⟨going, at_, stored0, stored1, stored2⟩ := collects
    rw [i] at iAfter
    rw [j] at jAfter
    simp only [BspatchCtx.ctrlByte, eq, Patching.next, iAfter, jAfter]
    by_cases inside : got.length % 8 + 1 < 8
    · have same : ((got.length / 8 : Nat) : Int) = ((got ++ [byte]).length / 8 : Nat) := by omega
      have later : got.length % 8 + 1 = (got ++ [byte]).length % 8 := by omega
      rw [if_pos inside, if_pos (by omega)]
      exact .wait going (.ctrl ⟨at_.newsize, at_.oldpos, at_.newpos⟩ (by omega) same later
        stored0 stored1 stored2)
    rw [if_neg inside]
    by_cases more : got.length + 1 < 24
    · have later : ((got.length / 8 : Nat) : Int) + 1 = ((got ++ [byte]).length / 8 : Nat) := by
        omega
      have zero : 0 = (got ++ [byte]).length % 8 := by omega
      rw [if_pos (by omega), if_pos more]
      exact .wait going (.ctrl ⟨at_.newsize, at_.oldpos, at_.newpos⟩ (by omega) later zero
        stored0 stored1 stored2)
    · have block : after.Block (tripleOf (got ++ [byte])) :=
        ⟨stored0.value (by omega), stored1.value (by rw [List.length_drop]; omega),
          stored2.value (by rw [List.length_drop]; omega)⟩
      rw [if_neg (by omega), if_neg more, PatchPos.startBlock, ← at_.newsize, ← at_.newpos,
        ← block.diff]
      by_cases tooLong : after.newsize.y < after.newpos + after.ctrl0.y
      · rw [if_pos tooLong, if_pos tooLong]
        exact .failed _
      · rw [if_neg tooLong, if_neg tooLong]
        apply BspatchCtx.diffLoop_goesOn
        · exact going
        · exact ⟨at_.newsize, at_.oldpos, at_.newpos⟩
        · exact ⟨block.diff, block.extra, block.seek⟩
        · rfl

end Refinement

/-! ### Calls and sessions -/

section Session

variable {ν : Type} (next : Stage ν) (readOld : Nat → ν → Int × List UInt8 × ν)

/-- One byte: the device goes on as the machine does, and leaves the same below. -/
theorem bspatchByte_refines {ctx : BspatchCtx} {label : BspatchLabel} {state : Patching}
    (going : ctx.finish = false) (represents : Represents ctx label state) (byte : UInt8)
    (below : ν) :
    GoesOn (bspatchByte next readOld byte label ctx below).2.1
        (bspatchByte next readOld byte label ctx below).1
        (patchByte next readOld byte state below).1 ∧
      (bspatchByte next readOld byte label ctx below).2.2 =
        (patchByte next readOld byte state below).2 := by
  cases represents with
  | header oldpos newpos j room stored =>
      exact ⟨BspatchCtx.headerByte_goesOn going (.header oldpos newpos j room stored) byte, rfl⟩
  | ctrl at_ room i j stored0 stored1 stored2 =>
      exact ⟨BspatchCtx.ctrlByte_goesOn going (.ctrl at_ room i j stored0 stored1 stored2) byte,
        rfl⟩
  | @diff pos triple i at_ block index =>
      have place : wrap32 (ctx.oldpos + ctx.i) = wrap32 (pos.oldpos + i) := by
        rw [at_.oldpos, index]
      have later : ctx.i + 1 = ((i + 1 : Nat) : Int) := by rw [index]; rfl
      simp only [bspatchByte, patchByte, place]
      generalize readOld _ below = got
      obtain ⟨ret, data, below⟩ := got
      by_cases refused : ret ≠ 1
      · simp only [if_pos refused]
        exact ⟨.failed _, trivial⟩
      · simp only [if_neg refused]
        refine ⟨?_, trivial⟩
        apply BspatchCtx.diffLoop_goesOn
        · exact going
        · exact ⟨at_.newsize, at_.oldpos, at_.newpos⟩
        · exact ⟨block.diff, block.extra, block.seek⟩
        · exact later
  | @extra pos triple i at_ block index =>
      have later : ctx.i + 1 = ((i + 1 : Nat) : Int) := by rw [index]; rfl
      simp only [bspatchByte, patchByte]
      refine ⟨?_, trivial⟩
      apply BspatchCtx.extraLoop_goesOn
      · exact going
      · exact ⟨at_.newsize, at_.oldpos, at_.newpos⟩
      · exact ⟨block.diff, block.extra, block.seek⟩
      · exact later

/-- The context between two calls, against the state of the machine. -/
def BspatchCtx.Standing (ctx : BspatchCtx) (state : Patching) : Prop :=
  ctx.finish = false ∧
    (ctx.state = none ∧ state = .header [] ∨
      ∃ label, ctx.state = some label ∧ Represents ctx label state)

/-- After the initialisation the header is waited for, whatever the static variables hold. -/
theorem pipelineBspatchInit_standing (ctx : BspatchCtx) :
    (pipelineBspatchInit ctx).Standing (.header []) :=
  ⟨rfl, .inl ⟨rfl, rfl⟩⟩

/-- The static variables at boot. -/
def bootBspatchCtx : BspatchCtx where
  state := none
  finish := false
  oldpos := 0
  newpos := 0
  ctrl0 := ⟨List.replicate 8 0⟩
  ctrl1 := ⟨List.replicate 8 0⟩
  ctrl2 := ⟨List.replicate 8 0⟩
  i := 0
  j := 0
  newsize := ⟨List.replicate 8 0⟩

/-- What a call returns and leaves, against where the machine stands after it. -/
def Returned (taken : Int) (ret : Int) (ctx : BspatchCtx) : PatchNext → Prop
  | .wait state => ret = taken ∧ ctx.Standing state
  | .finished => ret = taken ∧ ctx.finish = true
  | .failed code => ret = code

/-- **One call** is a run of the machine. -/
theorem bspatchBytes_refines (bytes : List UInt8) (used : Nat) {ctx : BspatchCtx}
    {label : BspatchLabel} {state : Patching} (going : ctx.finish = false)
    (represents : Represents ctx label state) (below : ν) :
    Returned (used + bytes.length - (patchBytes next readOld bytes state below).2.1.length)
        (bspatchBytes next readOld bytes used label ctx below).1
        (bspatchBytes next readOld bytes used label ctx below).2.1
        (patchBytes next readOld bytes state below).1 ∧
      (bspatchBytes next readOld bytes used label ctx below).2.2 =
        (patchBytes next readOld bytes state below).2.2 := by
  induction bytes generalizing used ctx label state below with
  | nil =>
      refine ⟨⟨?_, going, .inr ⟨label, rfl, ?_⟩⟩, rfl⟩
      · show (used : Int) = used + (0 : Nat) - (0 : Nat)
        omega
      · cases represents with
        | header oldpos newpos j room stored => exact .header oldpos newpos j room stored
        | ctrl at_ room i j stored0 stored1 stored2 =>
            exact .ctrl ⟨at_.newsize, at_.oldpos, at_.newpos⟩ room i j stored0 stored1 stored2
        | diff at_ block index =>
            exact .diff ⟨at_.newsize, at_.oldpos, at_.newpos⟩
              ⟨block.diff, block.extra, block.seek⟩ index
        | extra at_ block index =>
            exact .extra ⟨at_.newsize, at_.oldpos, at_.newpos⟩
              ⟨block.diff, block.extra, block.seek⟩ index
  | cons byte rest ih =>
      obtain ⟨goes, same⟩ := bspatchByte_refines next readOld going represents byte below
      rw [bspatchBytes, patchBytes]
      generalize bspatchByte next readOld byte label ctx below = device at goes same ⊢
      generalize patchByte next readOld byte state below = machine at goes same ⊢
      obtain ⟨devNext, ctx, below⟩ := device
      obtain ⟨machNext, below'⟩ := machine
      simp only at goes same
      subst same
      cases goes with
      | wait going represents =>
          have later := ih (used + 1) going represents below
          rw [List.length_cons]
          push_cast at later ⊢
          rwa [add_assoc, add_comm (1 : Int)] at later
      | finished ended =>
          refine ⟨⟨?_, ended⟩, rfl⟩
          show ((used + 1 : Nat) : Int) = used + (byte :: rest).length - rest.length
          rw [List.length_cons]
          omega
      | failed ret => exact ⟨rfl, rfl⟩

/-- A call of the stage between two calls of a session. -/
theorem bspatchPipeline_refines (chunk : List UInt8) {ctx : BspatchCtx} {state : Patching}
    (standing : ctx.Standing state) (below : ν) :
    Returned (chunk.length - (patchBytes next readOld chunk state below).2.1.length)
        (bspatchPipeline next readOld chunk (ctx, below)).1
        (bspatchPipeline next readOld chunk (ctx, below)).2.1
        (patchBytes next readOld chunk state below).1 ∧
      (bspatchPipeline next readOld chunk (ctx, below)).2.2 =
        (patchBytes next readOld chunk state below).2.2 := by
  obtain ⟨going, ⟨fresh, rfl⟩ | ⟨label, resumed, represents⟩⟩ := standing
  · have begin_ : Represents { ctx with oldpos := 0, newpos := 0, j := 0 } .header (.header []) :=
      .header rfl rfl rfl (by decide) (Ctrl.stored_nil _)
    have call := bspatchBytes_refines next readOld chunk 0 (by exact going) begin_ below
    rw [Nat.cast_zero, zero_add] at call
    simpa only [bspatchPipeline, going, fresh, Bool.false_eq_true, if_false] using call
  · have call := bspatchBytes_refines next readOld chunk 0 going represents below
    rw [Nat.cast_zero, zero_add] at call
    simpa only [bspatchPipeline, going, resumed, Bool.false_eq_true, if_false] using call

/-- Where a session stands. -/
inductive SessionStatus
  | more
  | finished
  | failed (ret : Int)
  deriving DecidableEq, Repr

/-- Where the machine stands, as a session sees it. -/
def PatchNext.status : PatchNext → SessionStatus
  | .wait _ => .more
  | .finished => .finished
  | .failed ret => .failed ret

/-- The chunks one after the other, up to and including the first error: the status, the bytes
consumed, and the state below the stage. -/
def bspatchSession : List (List UInt8) → (total : Int) → BspatchCtx × ν → SessionStatus × Int × ν
  | [], total, (ctx, below) => (if ctx.finish then .finished else .more, total, below)
  | chunk :: chunks, total, state =>
      let (ret, state) := bspatchPipeline next readOld chunk state
      if ret < 0 then (.failed ret, total, state.2)
      else bspatchSession chunks (total + ret) state

theorem bspatchSession_cons (chunk : List UInt8) (chunks : List (List UInt8)) (total : Int)
    (state : BspatchCtx × ν) :
    bspatchSession next readOld (chunk :: chunks) total state =
      if (bspatchPipeline next readOld chunk state).1 < 0 then
        (.failed (bspatchPipeline next readOld chunk state).1, total,
          (bspatchPipeline next readOld chunk state).2.2)
      else
        bspatchSession next readOld chunks (total + (bspatchPipeline next readOld chunk state).1)
          (bspatchPipeline next readOld chunk state).2 := rfl

/-- Once it is finished, the stage takes nothing more. -/
theorem bspatchSession_finished (chunks : List (List UInt8)) (total : Int) {ctx : BspatchCtx}
    (ended : ctx.finish = true) (below : ν) :
    bspatchSession next readOld chunks total (ctx, below) = (.finished, total, below) := by
  induction chunks generalizing total with
  | nil => simp only [bspatchSession, ended, if_true]
  | cons chunk chunks ih =>
      have idle : bspatchPipeline next readOld chunk (ctx, below) = (0, ctx, below) := by
        simp only [bspatchPipeline, ended, if_true]
      rw [bspatchSession_cons, idle, if_neg (lt_irrefl 0), add_zero, ih]

/-- What a session ends with, against a run of the machine over bytes of this number. -/
def SessionEnds (bytes total : Int) (session : SessionStatus × Int × ν)
    (run : PatchNext × List UInt8 × ν) : Prop :=
  session.1 = run.1.status ∧ session.2.2 = run.2.2 ∧
    ((∀ ret, run.1 ≠ .failed ret) → session.2.1 = total + bytes - run.2.1.length)

/-- **A session**, in any chunks, is the run of the machine over all its bytes. -/
theorem bspatchSession_eq (chunks : List (List UInt8)) (total : Int) {ctx : BspatchCtx}
    {state : Patching} (standing : ctx.Standing state) (below : ν) :
    SessionEnds chunks.flatten.length total
      (bspatchSession next readOld chunks total (ctx, below))
      (patchBytes next readOld chunks.flatten state below) := by
  induction chunks generalizing total ctx state below with
  | nil =>
      refine ⟨?_, rfl, fun _ => ?_⟩
      · simp only [bspatchSession, standing.1, Bool.false_eq_true, if_false]
        rfl
      · show total = total + ((0 : Nat) : Int) - ((0 : Nat) : Int)
        omega
  | cons chunk chunks ih =>
      obtain ⟨returned, same⟩ := bspatchPipeline_refines next readOld chunk standing below
      have left := patchBytes_left next readOld chunk state below
      have negative := @patchBytes_failed ν next readOld chunk state below
      have nothing := fun after => @patchBytes_wait ν next readOld chunk state after below
      rw [bspatchSession_cons, List.flatten_cons, patchBytes_append]
      generalize bspatchPipeline next readOld chunk (ctx, below) = call at returned same ⊢
      generalize patchBytes next readOld chunk state below = run at returned same left negative nothing ⊢
      obtain ⟨ret, ctx, below⟩ := call
      obtain ⟨machine, rest, below'⟩ := run
      simp only at same
      subst same
      cases machine with
      | wait state =>
          obtain rfl : rest = [] := nothing state rfl
          obtain ⟨rfl, standing⟩ := returned
          rw [if_neg (by simp only at left ⊢; omega)]
          obtain ⟨status, same, count⟩ := ih (total + (chunk.length - ([] : List UInt8).length))
            standing below
          refine ⟨status, same, fun never => (count never).trans ?_⟩
          rw [List.length_append, List.length_nil]
          push_cast
          ring
      | finished =>
          obtain ⟨rfl, ended⟩ := returned
          rw [if_neg (by simp only at left ⊢; omega), bspatchSession_finished next readOld _ _ ended]
          refine ⟨rfl, rfl, fun _ => ?_⟩
          simp only [List.length_append]
          push_cast
          omega
      | failed code =>
          obtain rfl : ret = code := returned
          rw [if_pos (negative rfl)]
          exact ⟨rfl, rfl, fun never => absurd rfl (never ret)⟩

/-- Two sessions that end alike: in the same status and with the same below them, and, without an
error, with as many bytes consumed. -/
def EndAlike (session other : SessionStatus × Int × ν) : Prop :=
  session.1 = other.1 ∧ session.2.2 = other.2.2 ∧
    ((∀ ret, session.1 ≠ .failed ret) → session.2.1 = other.2.1)

/-- **A session does not depend on its chunks**, nor on what an earlier one left in the static
variables: up to and including the first error it is as one call with the whole string. -/
theorem bspatchSession_chunks (chunks : List (List UInt8)) (ctx other : BspatchCtx) (below : ν) :
    EndAlike (bspatchSession next readOld chunks 0 (pipelineBspatchInit ctx, below))
      (bspatchSession next readOld [chunks.flatten] 0 (pipelineBspatchInit other, below)) := by
  obtain ⟨status, state, total⟩ :=
    bspatchSession_eq next readOld chunks 0 (pipelineBspatchInit_standing ctx) below
  obtain ⟨status', state', total'⟩ :=
    bspatchSession_eq next readOld [chunks.flatten] 0
      (pipelineBspatchInit_standing other) below
  rw [List.flatten_cons, List.flatten_nil, List.append_nil] at status' state' total'
  refine ⟨status.trans status'.symm, state.trans state'.symm, fun never => ?_⟩
  have machine : ∀ ret, (patchBytes next readOld chunks.flatten (.header []) below).1 ≠
      .failed ret := by
    intro ret failed
    rw [failed] at status
    exact never ret status
  exact (total machine).trans (total' machine).symm

end Session

/-! ### Runs over blocks -/

section Blocks

variable {ν : Type} (next : Stage ν) (readOld : Nat → ν → Int × List UInt8 × ν)

/-- The run from where a byte has taken the machine. -/
def patchFrom : PatchNext → List UInt8 → ν → PatchNext × List UInt8 × ν
  | .wait state, rest, below => patchBytes next readOld rest state below
  | ended, rest, below => (ended, rest, below)

theorem patchBytes_cons (byte : UInt8) (rest : List UInt8) (state : Patching) (below : ν) :
    patchBytes next readOld (byte :: rest) state below =
      patchFrom next readOld (patchByte next readOld byte state below).1 rest
        (patchByte next readOld byte state below).2 := by
  rw [patchBytes]
  generalize patchByte next readOld byte state below = step
  obtain ⟨_ | _ | _, below⟩ := step <;> rfl

/-- The bytes of a control triple are collected. -/
theorem patchBytes_ctrl (bytes got : List UInt8) (pos : PatchPos) (rest : List UInt8) (below : ν)
    (some_ : bytes ≠ []) (whole : got.length + bytes.length = 24) :
    patchBytes next readOld (bytes ++ rest) (.ctrl pos got) below =
      patchFrom next readOld (pos.startBlock (tripleOf (got ++ bytes))) rest below := by
  induction bytes generalizing got with
  | nil => exact absurd rfl some_
  | cons byte bytes ih =>
      rw [List.length_cons] at whole
      rw [List.cons_append, patchBytes_cons]
      simp only [patchByte, Patching.next]
      by_cases more : got.length + 1 < 24
      · rw [if_pos more]
        have later := ih (got ++ [byte]) (by rintro rfl; rw [List.length_nil] at whole; omega)
          (by rw [List.length_append]; show got.length + 1 + _ = _; omega)
        rwa [List.append_assoc] at later
      · obtain rfl : bytes = [] := List.eq_nil_of_length_eq_zero (by omega)
        rw [if_neg more]
        rfl

/-- The header: the magic number and the announced length. -/
theorem patchBytes_header (bytes got rest : List UInt8) (below : ν) (some_ : bytes ≠ [])
    (whole : got.length + bytes.length = 24)
    (magic : ∀ index, index < 16 → (got ++ bytes).getD index 0 = 0x2a) :
    patchBytes next readOld (bytes ++ rest) (.header got) below =
      patchFrom next readOld (startPatch (ctrlValue ((got ++ bytes).drop 16))) rest below := by
  induction bytes generalizing got with
  | nil => exact absurd rfl some_
  | cons byte bytes ih =>
      rw [List.length_cons] at whole
      rw [List.cons_append, patchBytes_cons]
      have right : ¬(got.length < 16 ∧ byte ≠ 0x2a) := by
        rintro ⟨low, wrong⟩
        have here := magic got.length low
        rw [List.getD_append_right _ _ _ _ le_rfl, Nat.sub_self] at here
        exact wrong here
      simp only [patchByte, Patching.next, if_neg right]
      by_cases more : got.length + 1 < 24
      · rw [if_pos more]
        have later := ih (got ++ [byte]) (by rintro rfl; rw [List.length_nil] at whole; omega)
          (by rw [List.length_append]; show got.length + 1 + _ = _; omega)
          (by rw [List.append_assoc]; exact magic)
        rwa [List.append_assoc] at later
      · obtain rfl : bytes = [] := List.eq_nil_of_length_eq_zero (by omega)
        rw [if_neg more]
        rfl

/-- What is below the stage while it builds `out` from `old`: a state for every beginning of `out`,
in which the old object can be read. An `address_t` has `32` bits. -/
structure Supports (old out : List UInt8) (state : List UInt8 → ν) : Prop where
  after : ∀ {taken byte}, taken ++ [byte] <+: out →
    (next [byte] (state taken)).2 = state (taken ++ [byte])
  reads : ∀ {taken offset}, taken <+: out → offset < old.length →
    readOld (wrap32 offset) (state taken) = (1, [old.getD offset 0], state taken)

/-- The bytes of the new image that differences against the old one stand for. -/
def sumOld (old : List UInt8) (oldpos : Int) (diff : List UInt8) : List UInt8 :=
  List.zipWith (· + ·) diff (old.drop oldpos.toNat)

/-- The differences are read where the old image has bytes. -/
def InsideOld (old : List UInt8) (oldpos : Int) (count : Nat) : Prop :=
  count = 0 ∨ 0 ≤ oldpos ∧ oldpos + count ≤ old.length

theorem sumOld_nil (old : List UInt8) (oldpos : Int) : sumOld old oldpos [] = [] := rfl

theorem sumOld_cons {old : List UInt8} {oldpos : Int} {byte : UInt8} {diff : List UInt8}
    (inside : InsideOld old oldpos (diff.length + 1)) :
    sumOld old oldpos (byte :: diff) =
      (byte + old.getD oldpos.toNat 0) :: sumOld old (oldpos + 1) diff := by
  obtain none_ | ⟨low, high⟩ := inside
  · omega
  have here : oldpos.toNat < old.length := by omega
  have later : (oldpos + 1).toNat = oldpos.toNat + 1 := by omega
  rw [sumOld, sumOld, later, List.drop_eq_getElem_cons here, List.zipWith_cons_cons,
    List.getD_eq_getElem _ _ here]

theorem InsideOld.tail {old : List UInt8} {oldpos : Int} {count : Nat}
    (inside : InsideOld old oldpos (count + 1)) : InsideOld old (oldpos + 1) count := by
  unfold InsideOld at *
  omega

theorem sumOld_length {old : List UInt8} {oldpos : Int} {diff : List UInt8}
    (inside : InsideOld old oldpos diff.length) : (sumOld old oldpos diff).length = diff.length := by
  rw [sumOld, List.length_zipWith, List.length_drop]
  unfold InsideOld at inside
  omega

variable {next readOld} {old out : List UInt8} {state : List UInt8 → ν}

/-- The differences of a block. -/
theorem patchFrom_diff (supports : Supports next readOld old out state) (pos : PatchPos)
    (triple : Triple) (diff rest taken : List UInt8) (i : Nat)
    (length : (i + diff.length : Int) = triple.diff)
    (inside : InsideOld old (pos.oldpos + i) diff.length)
    (begins : taken ++ sumOld old (pos.oldpos + i) diff <+: out) :
    patchFrom next readOld (pos.diffFrom triple i) (diff ++ rest) (state taken) =
      patchFrom next readOld (pos.diffFrom triple (i + diff.length)) rest
        (state (taken ++ sumOld old (pos.oldpos + i) diff)) := by
  induction diff generalizing i taken with
  | nil => rw [sumOld_nil, List.append_nil]; rfl
  | cons byte diff ih =>
      have place : wrap32 (pos.oldpos + i) = wrap32 ((pos.oldpos + i).toNat : Int) := by
        unfold InsideOld at inside
        rw [Int.toNat_of_nonneg (by rw [List.length_cons] at inside; omega)]
      rw [List.length_cons] at length inside
      rw [sumOld_cons inside, List.append_cons] at begins ⊢
      have taken_ : taken <+: out := by
        rw [List.append_assoc] at begins
        exact (List.prefix_append _ _).trans begins
      have handed := supports.after ((List.prefix_append _ _).trans begins)
      have read : readOld (wrap32 (pos.oldpos + i)) (state taken) =
          (1, [old.getD (pos.oldpos + i).toNat 0], state taken) := by
        rw [place]
        exact supports.reads taken_ (by unfold InsideOld at inside; omega)
      have step : patchByte next readOld byte (.diff pos triple i) (state taken) =
          (pos.diffFrom triple (i + 1),
            state (taken ++ [byte + old.getD (pos.oldpos + i).toNat 0])) := by
        simp only [patchByte, read, ne_eq, not_true_eq_false, if_false, List.headD_cons]
        rw [handed]
        rfl
      have later := ih (taken ++ [byte + old.getD (pos.oldpos + i).toNat 0]) (i + 1)
        (by push_cast at length ⊢; omega)
        (by push_cast; rw [← add_assoc]; exact inside.tail)
        (by push_cast; rw [← add_assoc]; exact begins)
      rw [PatchPos.diffFrom, if_pos (by push_cast at length; omega)]
      show patchBytes next readOld (byte :: (diff ++ rest)) (.diff pos triple i) (state taken) = _
      rw [patchBytes_cons, step, later]
      push_cast
      rw [← add_assoc, add_assoc i 1, add_comm 1]
      rfl

/-- The extra bytes of a block. -/
theorem patchFrom_extra (supports : Supports next readOld old out state) (pos : PatchPos)
    (triple : Triple) (extra rest taken : List UInt8) (i : Nat)
    (length : (i + extra.length : Int) = triple.extra) (begins : taken ++ extra <+: out) :
    patchFrom next readOld (pos.extraFrom triple i) (extra ++ rest) (state taken) =
      patchFrom next readOld (pos.extraFrom triple (i + extra.length)) rest
        (state (taken ++ extra)) := by
  induction extra generalizing i taken with
  | nil => rw [List.append_nil]; rfl
  | cons byte extra ih =>
      rw [List.length_cons] at length
      rw [List.append_cons] at begins ⊢
      have step : patchByte next readOld byte (.extra pos triple i) (state taken) =
          (pos.extraFrom triple (i + 1), state (taken ++ [byte])) := by
        simp only [patchByte]
        rw [supports.after ((List.prefix_append _ _).trans begins)]
        rfl
      have later := ih (taken ++ [byte]) (i + 1) (by push_cast at length ⊢; omega) begins
      rw [PatchPos.extraFrom, if_pos (by push_cast at length; omega)]
      show patchBytes next readOld (byte :: (extra ++ rest)) (.extra pos triple i) (state taken) = _
      rw [patchBytes_cons, step, later, List.length_cons, add_assoc i 1, add_comm 1]

end Blocks

/-! ### What is observed of a session -/

/-- What is below the stage, the bytes it has handed on, and whether each offset it has read was
inside the old image. -/
structure Watched (ν : Type) where
  below : ν
  emitted : List UInt8
  inside : Bool
  deriving DecidableEq, Repr

section Watch

variable {ν : Type} (next : Stage ν) (readOld : Nat → ν → Int × List UInt8 × ν)

/-- The next stage, watched. -/
def watchNext : Stage (Watched ν) :=
  fun buf state =>
    let (ret, below) := next buf state.below
    (ret, ⟨below, state.emitted ++ buf, state.inside⟩)

/-- The reads of an old object of `bound` bytes, watched. -/
def watchOld (bound : Nat) (offset : Nat) (state : Watched ν) : Int × List UInt8 × Watched ν :=
  let (ret, data, below) := readOld offset state.below
  (ret, data, ⟨below, state.emitted, state.inside && decide (offset < bound)⟩)

/-- An old object that holds `old`: its bytes can be read. -/
def HoldsOld (old : List UInt8) : Prop :=
  ∀ offset, offset < old.length → ∀ below,
    readOld (wrap32 offset) below = (1, [old.getD offset 0], below)

theorem wrap32_le (value : Nat) : wrap32 value ≤ value := by
  unfold wrap32
  omega

/-- Whatever the next stage does, its state follows from the bytes handed to it. -/
theorem HoldsOld.supports {readOld : Nat → ν → Int × List UInt8 × ν} {old : List UInt8}
    (holds : HoldsOld readOld old) (below : ν) (out : List UInt8) :
    Supports (watchNext next) (watchOld readOld old.length) old out fun taken =>
      ⟨handDown next (taken.map ([·])) below, taken, true⟩ where
  after := by
    intro taken byte _
    rw [List.map_append, handDown, handDown, List.foldl_append]
    rfl
  reads := by
    intro taken offset _ inside
    rw [watchOld, holds offset inside]
    simp only [decide_eq_true (lt_of_le_of_lt (wrap32_le offset) inside), Bool.and_self]

end Watch

/-- A next stage that takes everything. -/
def takeAll : Stage Unit := fun buf below => (buf.length, below)

/-- An old object with the bytes of a string, and zeros behind them. -/
def readBytes (old : List UInt8) (offset : Nat) (below : Unit) : Int × List UInt8 × Unit :=
  (1, [old.getD offset 0], below)

theorem readBytes_holds {old : List UInt8} (small : old.length < 2 ^ 32) :
    HoldsOld (readBytes old) old := by
  intro offset inside below
  rw [wrap32_natCast (inside.trans small)]
  rfl

end Upkit
