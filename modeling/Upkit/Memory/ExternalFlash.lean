/-
**The external flash of the CC2650.**

`memory_cc2650.c` counts in a byte how many objects of the external flash are open, powers the flash
with the first and is meant to power it down with the last. But `external_flash_descr` names
`external_flash_open` as its `close`, so every call counts up.

* `ExtFlash` — the driver of the board, with what powers the flash.
* `externalFlashDescr` — the descriptor as it stands; `externalFlashClose_balances` — the function
  that it does not name.
* `call_counts` — one `memory_open` or `memory_close` of an external object.
* `runCalls_count` — after any calls the count is their number, in a byte.
* `balanced_iff` — the count is right after every call exactly when no object is ever closed and no
  open fails.
-/

import Upkit.Memory.Descriptor

namespace Upkit

/-! ### The driver -/

/-- `ext_flash_open` and the other functions of the board, over the state `ε` of its flash. Opening
powers the flash, closing takes the power away, and the others leave it. -/
structure ExtFlash (ε : Type) where
  extOpen : ε → Bool × ε
  extClose : ε → ε
  extErase : (offset size : Nat) → ε → Bool × ε
  extWrite : (offset : Nat) → List UInt8 → ε → Bool × ε
  extRead : (offset size : Nat) → ε → Bool × List UInt8 × ε
  powered : ε → Bool
  open_powers : ∀ flash, (extOpen flash).1 = true → powered (extOpen flash).2 = true
  close_unpowers : ∀ flash, powered (extClose flash) = false
  erase_powered : ∀ offset size flash, powered (extErase offset size flash).2 = powered flash
  write_powered : ∀ offset data flash, powered (extWrite offset data flash).2 = powered flash
  read_powered : ∀ offset size flash, powered (extRead offset size flash).2.2 = powered flash
  read_length : ∀ offset size flash, (extRead offset size flash).1 = true →
    (extRead offset size flash).2.1.length = size

/-- `external_memory_open`, and the flash. -/
structure CC2650 (ε : Type) where
  externalMemoryOpen : UInt8
  flash : ε

section Driver

variable {ε : Type} (board : ExtFlash ε)

/-- `external_flash_open`. -/
def externalFlashOpen (memory : CC2650 ε) : Int × CC2650 ε :=
  if memory.externalMemoryOpen = 0 then
    let (opened, flash) := board.extOpen memory.flash
    if opened then (0, ⟨1, flash⟩)
    else (-1, ⟨memory.externalMemoryOpen, board.extClose flash⟩)
  else (0, { memory with externalMemoryOpen := memory.externalMemoryOpen + 1 })

/-- `external_flash_erase`. -/
def externalFlashErase (offset pageSize : Nat) (memory : CC2650 ε) : Int × CC2650 ε :=
  let (erased, flash) := board.extErase offset pageSize memory.flash
  (if erased then 0 else -1, { memory with flash := flash })

/-- `external_flash_program`. -/
def externalFlashProgram (data : List UInt8) (offset : Nat) (memory : CC2650 ε) : Int × CC2650 ε :=
  let (written, flash) := board.extWrite offset data memory.flash
  (if written then 0 else -1, { memory with flash := flash })

/-- `external_flash_read`. -/
def externalFlashRead (offset size : Nat) (memory : CC2650 ε) : Int × List UInt8 × CC2650 ε :=
  let (read, data, flash) := board.extRead offset size memory.flash
  (if read then 0 else -1, data, { memory with flash := flash })

/-- `external_flash_close`, which no descriptor names. -/
def externalFlashClose (memory : CC2650 ε) : Int × CC2650 ε :=
  let flash := if memory.externalMemoryOpen = 1 then board.extClose memory.flash else memory.flash
  (0, ⟨memory.externalMemoryOpen - 1, flash⟩)

/-- `external_flash_descr`. -/
def externalFlashDescr (pageSize : Nat) (positive : 0 < pageSize) : FlashDescr (CC2650 ε) where
  pageSize := pageSize
  open' := some (externalFlashOpen board)
  erase := externalFlashErase board
  program := externalFlashProgram board
  read := externalFlashRead board
  -- `.close = external_flash_open` in the source.
  close := some (externalFlashOpen board)
  rst := none
  positive := positive
  read_length := by
    intro offset size memory success
    refine board.read_length offset size memory.flash ?_
    by_contra failed
    simp only [externalFlashRead, failed] at success
    cases success

/-- An object of the external flash. -/
def External (object : FlashObject (CC2650 ε)) : Prop :=
  ∃ pageSize positive, object.descr = externalFlashDescr board pageSize positive

/-- The count is the number of open objects, and the flash is powered while there are some. -/
def Balanced (memory : CC2650 ε) (opened : Nat) : Prop :=
  memory.externalMemoryOpen.toNat = opened ∧ (board.powered memory.flash = true ↔ 0 < opened)

variable {board}

/-- Opening counts up. -/
theorem externalFlashOpen_counts (opens : ∀ flash, (board.extOpen flash).1 = true)
    (memory : CC2650 ε) :
    (externalFlashOpen board memory).1 = 0 ∧
      (externalFlashOpen board memory).2.externalMemoryOpen = memory.externalMemoryOpen + 1 := by
  unfold externalFlashOpen
  split
  · rename_i none
    simp only [opens, if_true, none]
    exact ⟨trivial, rfl⟩
  · exact ⟨rfl, rfl⟩

/-- **Opening one more object** keeps the count right while there is room in the byte. -/
theorem externalFlashOpen_balances (opens : ∀ flash, (board.extOpen flash).1 = true)
    {memory : CC2650 ε} {opened : Nat} (balanced : Balanced board memory opened)
    (room : opened < 255) : Balanced board (externalFlashOpen board memory).2 (opened + 1) := by
  obtain ⟨count, power⟩ := balanced
  refine ⟨?_, fun _ => Nat.succ_pos opened, fun _ => ?_⟩
  · rw [(externalFlashOpen_counts opens memory).2, UInt8.toNat_add, count]
    show (opened + 1) % 2 ^ 8 = opened + 1
    omega
  · unfold externalFlashOpen
    split
    · simp only [opens, if_true]
      exact board.open_powers _ (opens _)
    · rename_i some
      refine power.mpr ?_
      rw [← count]
      exact Nat.pos_of_ne_zero fun zero => some (UInt8.toNat_inj.mp zero)

/-- **What `external_flash_close` would do**: it keeps the count right as well. -/
theorem externalFlashClose_balances {memory : CC2650 ε} {opened : Nat}
    (balanced : Balanced board memory (opened + 1)) :
    Balanced board (externalFlashClose board memory).2 opened := by
  obtain ⟨count, power⟩ := balanced
  have one : (1 : UInt8) ≤ memory.externalMemoryOpen := by
    rw [UInt8.le_iff_toNat_le, count]
    exact Nat.le_add_left 1 opened
  refine ⟨?_, ?_⟩
  · show (memory.externalMemoryOpen - 1).toNat = opened
    rw [UInt8.toNat_sub_of_le _ _ one, count]
    rfl
  · unfold externalFlashClose
    by_cases last : memory.externalMemoryOpen = 1
    · have none : opened = 0 := by
        rw [last] at count
        exact (Nat.succ.inj count).symm
      simp only [if_pos last, board.close_unpowers, none]
      decide
    · have more : 0 < opened := by
        refine Nat.pos_of_ne_zero fun zero => last (UInt8.toNat_inj.mp ?_)
        rw [count, zero]
        rfl
      simp only [if_neg last]
      exact ⟨fun _ => more, fun _ => power.mpr (Nat.succ_pos opened)⟩

end Driver

/-! ### Calls -/

/-- A call of `memory_open` or `memory_close`. -/
inductive FlashCall
  | open' (id : MemId) (mode : MemMode)
  | close (obj : MemObject)

/-- The memory and the objects that are open. -/
structure Handles (ε : Type) where
  memory : CC2650 ε
  opened : List MemObject

section Calls

variable {ε : Type} (board : ExtFlash ε) (table : FlashTable (CC2650 ε))

/-- One call. An object is open from an open that succeeds to its close. -/
def Handles.call (handles : Handles ε) : FlashCall → Handles ε
  | .open' id mode =>
      let (err, obj, memory) := (flashMemory table).memoryOpen id mode handles.memory
      ⟨memory, if err = .success then obj :: handles.opened else handles.opened⟩
  | .close obj =>
      ⟨((flashMemory table).memoryClose obj handles.memory).2, handles.opened.erase obj⟩

/-- The calls of a list, one after the other. -/
def runCalls (calls : List FlashCall) (handles : Handles ε) : Handles ε :=
  calls.foldl (fun handles call => handles.call table call) handles

/-- A call opens an external object or closes one that is open, and never are more than `255`
objects open at once. -/
def Matched (call : FlashCall) (handles : Handles ε) : Prop :=
  (match call with
    | .open' id _ => External board (table id)
    | .close obj => External board (table obj.id) ∧ obj ∈ handles.opened) ∧
  (handles.call table call).opened.length ≤ 255

/-- Something holds of every call and the objects it meets. -/
def EveryCall (holds : FlashCall → Handles ε → Prop) : List FlashCall → Handles ε → Prop
  | [], _ => True
  | call :: calls, handles =>
      holds call handles ∧ EveryCall holds calls (handles.call table call)

/-- The count is right behind a call. -/
def BalancedAfter (call : FlashCall) (handles : Handles ε) : Prop :=
  Balanced board (handles.call table call).memory (handles.call table call).opened.length

/-- A call that opens an object, and does not fail in erasing it. -/
def Opens (call : FlashCall) (handles : Handles ε) : Prop :=
  ∃ id mode, call = .open' id mode ∧
    ((flashMemory table).memoryOpen id mode handles.memory).1 = .success

variable {board table}

/-- **Erasing an external object** leaves its count and its power alone. -/
theorem eraseLoop_external {object : FlashObject (CC2650 ε)} (external : External board object)
    (fuel offset : Nat) (memory : CC2650 ε) :
    (object.eraseLoop fuel offset memory).2.externalMemoryOpen = memory.externalMemoryOpen ∧
      board.powered (object.eraseLoop fuel offset memory).2.flash =
        board.powered memory.flash := by
  obtain ⟨pageSize, positive, descr⟩ := external
  refine @FlashObject.eraseLoop_holds _ object (fun after =>
    after.externalMemoryOpen = memory.externalMemoryOpen ∧
      board.powered after.flash = board.powered memory.flash) ?_ ?_ fuel offset memory ⟨rfl, rfl⟩
  · intro after kept
    rw [FlashObject.resetWatchdog, descr]
    exact kept
  · intro offset after kept
    rw [descr]
    exact ⟨kept.1, (board.erase_powered _ _ _).trans kept.2⟩

/-- An open of an external object, up to the erasing, is `external_flash_open`. -/
theorem open_external (opens : ∀ flash, (board.extOpen flash).1 = true) {id : MemId}
    (external : External board (table id)) (mode : MemMode) (memory : CC2650 ε) :
    ((flashMemory table).memoryOpen id mode memory).2.2.externalMemoryOpen =
        (externalFlashOpen board memory).2.externalMemoryOpen ∧
      board.powered ((flashMemory table).memoryOpen id mode memory).2.2.flash =
        board.powered (externalFlashOpen board memory).2.flash := by
  have openFlash : (table id).openFlash memory = externalFlashOpen board memory := by
    obtain ⟨pageSize, positive, descr⟩ := external
    rw [FlashObject.openFlash, descr]
    rfl
  simp only [flashMemory, openFlash, (externalFlashOpen_counts opens memory).1, ne_eq,
    not_true_eq_false, if_false]
  split
  · exact eraseLoop_external external _ _ _
  · exact ⟨rfl, rfl⟩

/-- A close of an external object is `external_flash_open`. -/
theorem close_external {obj : MemObject} (external : External board (table obj.id))
    (memory : CC2650 ε) : ((flashMemory table).memoryClose obj memory).2 =
      (externalFlashOpen board memory).2 := by
  obtain ⟨pageSize, positive, descr⟩ := external
  simp only [flashMemory, FlashObject.closeFlash, descr]
  rfl

/-- **Every call counts up.** -/
theorem call_counts (opens : ∀ flash, (board.extOpen flash).1 = true) {call : FlashCall}
    {handles : Handles ε} (matched : Matched board table call handles) :
    (handles.call table call).memory.externalMemoryOpen =
      handles.memory.externalMemoryOpen + 1 := by
  cases call with
  | open' id mode =>
      exact (open_external opens matched.1 mode handles.memory).1.trans
        (externalFlashOpen_counts opens handles.memory).2
  | close obj =>
      refine Eq.trans ?_ (externalFlashOpen_counts opens handles.memory).2
      exact congrArg CC2650.externalMemoryOpen (close_external matched.1.1 handles.memory)

/-- **After any calls** the count is their number, in a byte. -/
theorem runCalls_count (opens : ∀ flash, (board.extOpen flash).1 = true)
    (calls : List FlashCall) {handles : Handles ε}
    (matched : EveryCall table (Matched board table) calls handles) :
    (runCalls table calls handles).memory.externalMemoryOpen =
      handles.memory.externalMemoryOpen + UInt8.ofNat calls.length := by
  induction calls generalizing handles with
  | nil => exact (UInt8.add_zero _).symm
  | cons call calls ih =>
      obtain ⟨first, rest⟩ := matched
      calc (runCalls table (call :: calls) handles).memory.externalMemoryOpen
          = (handles.call table call).memory.externalMemoryOpen + UInt8.ofNat calls.length :=
            ih rest
        _ = handles.memory.externalMemoryOpen + (1 + UInt8.ofNat calls.length) := by
            rw [call_counts opens first, UInt8.add_assoc]
        _ = handles.memory.externalMemoryOpen + UInt8.ofNat (call :: calls).length := by
            rw [List.length_cons, UInt8.ofNat_add, UInt8.add_comm 1]
            rfl

/-- **One call**: the count stays right exactly when the call opens an object. -/
theorem call_balanced_iff (opens : ∀ flash, (board.extOpen flash).1 = true) {call : FlashCall}
    {handles : Handles ε} (matched : Matched board table call handles)
    (balanced : Balanced board handles.memory handles.opened.length) :
    BalancedAfter board table call handles ↔ Opens table call handles := by
  have counts := call_counts opens matched
  -- A call that adds no object counts up all the same.
  have drifts : (handles.call table call).opened.length ≤ handles.opened.length →
      handles.opened.length ≤ (handles.call table call).opened.length + 1 →
      ¬ BalancedAfter board table call handles := by
    rintro fewer one ⟨count, _⟩
    have small := UInt8.toNat_lt handles.memory.externalMemoryOpen
    have next : (handles.opened.length + 1) % 2 ^ 8 = (handles.call table call).opened.length := by
      rw [counts, UInt8.toNat_add, balanced.1] at count
      exact count
    rw [balanced.1] at small
    omega
  cases call with
  | open' id mode =>
      by_cases success : ((flashMemory table).memoryOpen id mode handles.memory).1 = .success
      · have more : (handles.call table (.open' id mode)).opened.length =
            handles.opened.length + 1 := by
          simp only [Handles.call, if_pos success, List.length_cons]
        have room := matched.2
        rw [more] at room
        refine ⟨fun _ => ⟨id, mode, rfl, success⟩, fun _ => ?_⟩
        obtain ⟨count, power⟩ := externalFlashOpen_balances opens balanced (by omega)
        obtain ⟨sameCount, samePower⟩ := open_external opens matched.1 mode handles.memory
        rw [BalancedAfter, more]
        refine ⟨?_, ?_⟩
        · rw [← count, ← sameCount]
          rfl
        · rw [← power, ← samePower]
          rfl
      · have same : (handles.call table (.open' id mode)).opened = handles.opened := by
          simp only [Handles.call, if_neg success]
        refine ⟨fun after => absurd after (drifts (by rw [same]) (by rw [same]; omega)), ?_⟩
        rintro ⟨_, _, ⟨rfl, rfl⟩, succeeds⟩
        exact absurd succeeds success
  | close obj =>
      have fewer : (handles.call table (.close obj)).opened.length = handles.opened.length - 1 :=
        List.length_erase_of_mem matched.1.2
      refine ⟨fun after => absurd after (drifts (by omega) (by omega)), ?_⟩
      rintro ⟨_, _, same, _⟩
      cases same

/-- **The count of the open objects** is right after every call exactly when no object is ever closed
and no open fails. -/
theorem balanced_iff (opens : ∀ flash, (board.extOpen flash).1 = true) (calls : List FlashCall)
    {handles : Handles ε} (matched : EveryCall table (Matched board table) calls handles)
    (balanced : Balanced board handles.memory handles.opened.length) :
    EveryCall table (BalancedAfter board table) calls handles ↔
      EveryCall table (Opens table) calls handles := by
  induction calls generalizing handles with
  | nil => exact Iff.rfl
  | cons call calls ih =>
      have one := call_balanced_iff opens matched.1 balanced
      constructor
      · rintro ⟨first, rest⟩
        exact ⟨one.mp first, (ih matched.2 first).mp rest⟩
      · rintro ⟨first, rest⟩
        have after := one.mpr first
        exact ⟨after, (ih matched.2 after).mpr rest⟩

end Calls

/-! ### Opening and closing an object -/

/-- A board whose flash is no more than its power. -/
def powerBoard : ExtFlash Bool where
  extOpen := fun _ => (true, true)
  extClose := fun _ => false
  extErase := fun _ _ flash => (true, flash)
  extWrite := fun _ _ flash => (true, flash)
  extRead := fun _ size flash => (true, List.replicate size 255, flash)
  powered := id
  open_powers := fun _ _ => rfl
  close_unpowers := fun _ => rfl
  erase_powered := fun _ _ _ => rfl
  write_powered := fun _ _ _ => rfl
  read_powered := fun _ _ _ => rfl
  read_length := fun _ _ _ _ => List.length_replicate

/-- `OBJ_2` of the CC2650. -/
def externalObject : FlashObject (CC2650 Bool) where
  start := 0x34000
  stop := 0x4E000
  descr := externalFlashDescr powerBoard 0x1000 (by decide)
  start_lt := by decide
  stop_lt := by decide

def externalTable : FlashTable (CC2650 Bool) := fun _ => externalObject

/-- The memory after a reset. -/
def resetHandles : Handles Bool := ⟨⟨0, false⟩, []⟩

theorem externalTable_external (id : MemId) : External powerBoard (externalTable id) :=
  ⟨0x1000, by decide, rfl⟩

def twoOpens : List FlashCall := [.open' 3 .readOnly, .open' 3 .sequentialRewrite]

theorem twoOpens_matched :
    EveryCall externalTable (Matched powerBoard externalTable) twoOpens resetHandles :=
  ⟨⟨externalTable_external 3, by decide⟩, ⟨externalTable_external 3, by decide⟩, trivial⟩

/-- Two opens, and the count is right behind both. -/
theorem twoOpens_balanced :
    EveryCall externalTable (BalancedAfter powerBoard externalTable) twoOpens resetHandles :=
  (balanced_iff (fun _ => rfl) twoOpens twoOpens_matched ⟨rfl, by decide⟩).mpr
    ⟨⟨3, .readOnly, rfl, rfl⟩, ⟨3, .sequentialRewrite, rfl, rfl⟩, trivial⟩

/-- **An object that is opened and closed**: the count is two, and the flash stays powered. -/
theorem openClose_drifts :
    EveryCall externalTable (Matched powerBoard externalTable)
        [.open' 3 .readOnly, .close ⟨3, .readOnly⟩] resetHandles ∧
      runCalls externalTable [.open' 3 .readOnly, .close ⟨3, .readOnly⟩] resetHandles =
        ⟨⟨2, true⟩, []⟩ ∧
      ¬ EveryCall externalTable (BalancedAfter powerBoard externalTable)
        [.open' 3 .readOnly, .close ⟨3, .readOnly⟩] resetHandles := by
  refine ⟨⟨⟨externalTable_external 3, by decide⟩, ⟨⟨externalTable_external 3, ?_⟩, by decide⟩,
    trivial⟩, rfl, ?_⟩
  · exact List.mem_cons_self
  · rintro ⟨_, ⟨count, _⟩, _⟩
    exact absurd count (by decide)

end Upkit
