/-
**The memory interface and two of its implementations.**

`memory_interface.h` leaves `mem_object_t` and the four operations to the platform, so every
function of the library is modelled over a `MemoryInterface` on an arbitrary platform state:

* `MemoryInterface` — open, read, write and close, with the integer results of the source and the
  bytes a read leaves in the caller's buffer.
* `plain` — byte-addressable memory: one address space per object, an operation fails exactly
  when it leaves the object (`PlainLayout.limit`), and `WRITE_ALL` erases the object or not
  (files are not erased, flash is).
* `logged` — any implementation together with the list of its opens and writes.

`SlotTable` is the table `memory_slots` of `external.h`.
-/

import Upkit.Lib.Bytes
import Mathlib.Logic.Function.Basic

namespace Upkit

open Bytes

/-! ### Errors, modes and slots -/

/-- The part of `pull_error` the modelled functions return. `outOfFuel` is not an error of the
source: a loop of the model that has not ended yields it. -/
inductive PullError
  | success
  | generic
  | memoryOpen
  | memoryClose
  | memoryRead
  | memoryWrite
  | readManifest
  | getNewest
  | copyFirmware
  | writeManifest
  | invalidSize
  | verificationFailed
  | pipeline
  | invalidVersion
  | invalidSignature
  | invalidState
  | signFailed
  | receiverOpen
  | requestError
  | requestRst
  | outOfFuel
  deriving DecidableEq, Repr

/-- `mem_mode_t`. -/
inductive MemMode
  | readOnly
  | writeChunk
  | writeAll
  | sequentialRewrite
  deriving DecidableEq, Repr

/-- `mem_id_t`, a signed byte. -/
abbrev MemId := Int

/-- An opened `mem_object_t`: which object it is and how it was opened. -/
structure MemObject where
  id : MemId
  mode : MemMode
  deriving DecidableEq, Repr

/-- `mem_slot_t`. -/
structure MemSlot where
  id : MemId
  bootable : Bool
  deriving DecidableEq, Repr

/-- The table `memory_slots`, up to its `OBJ_END`: at least one slot, positive identifiers, and
short enough for the signed byte that indexes it. -/
structure SlotTable where
  slots : List MemSlot
  nonempty : slots ≠ []
  positive : ∀ slot ∈ slots, 0 < slot.id
  short : slots.length ≤ 127

/-- The smallest table with something to choose from: a bootable slot and one that is not. -/
def twoSlots : SlotTable where
  slots := [⟨1, true⟩, ⟨2, false⟩]
  nonempty := by decide
  positive := by decide
  short := by decide

/-- The 32-bit unsigned value an integer converts to. -/
def wrap32 (value : Int) : Nat := (value % 2 ^ 32).toNat

theorem wrap32_natCast {value : Nat} (small : value < 2 ^ 32) : wrap32 value = value := by
  unfold wrap32
  omega

/-- The signed value of `32` bits. -/
def toInt32 (bits : Nat) : Int :=
  if bits % 2 ^ 32 < 2 ^ 31 then (bits % 2 ^ 32 : Nat) else (bits % 2 ^ 32 : Nat) - 2 ^ 32

theorem toInt32_wrap32 {value : Int} (low : -2 ^ 31 ≤ value) (high : value < 2 ^ 31) :
    toInt32 (wrap32 value) = value := by
  unfold toInt32 wrap32
  omega

/-! ### The interface -/

/-- The four operations of `memory_interface.h` over a platform state `σ`. An open that succeeds
gives the object that was asked for. A read returns its integer result and the bytes it has put
into the caller's buffer; when it reports all of them, they are all there. -/
structure MemoryInterface (σ : Type) where
  memoryOpen : MemId → MemMode → σ → PullError × MemObject × σ
  memoryRead : MemObject → (size offset : Nat) → σ → Int × List UInt8 × σ
  memoryWrite : MemObject → List UInt8 → (offset : Nat) → σ → Int × σ
  memoryClose : MemObject → σ → PullError × σ
  open_id : ∀ id mode memory, (memoryOpen id mode memory).1 = .success →
    (memoryOpen id mode memory).2.1.id = id
  read_length : ∀ obj size offset memory, (memoryRead obj size offset memory).1 = size →
    (memoryRead obj size offset memory).2.1.length = size

/-! ### Plain byte-addressable memory -/

/-- What every object of a plain memory holds. -/
abbrev Contents := MemId → Nat → UInt8

/-- The shape of a plain memory: the length of each object, below the range of `address_t`, and
the value `WRITE_ALL` fills an object with, if it erases at all. -/
structure PlainLayout where
  limit : MemId → Nat
  limit_lt : ∀ id, limit id < 2 ^ 32
  erased : Option UInt8

/-- An object as opening it with `WRITE_ALL` leaves it. -/
def PlainLayout.wipe (layout : PlainLayout) (space : Nat → UInt8) : Nat → UInt8 :=
  match layout.erased with
  | none => space
  | some value => fun _ => value

/-- Every object as long as `address_t` can address. -/
def fullLayout (erased : Option UInt8) : PlainLayout where
  limit := fun _ => 2 ^ 32 - 1
  limit_lt := fun _ => by norm_num
  erased := erased

/-- Plain byte-addressable memory. -/
def plain (layout : PlainLayout) : MemoryInterface Contents where
  memoryOpen := fun id mode memory =>
    (.success, ⟨id, mode⟩,
      if mode = .writeAll then Function.update memory id (layout.wipe (memory id)) else memory)
  memoryRead := fun obj size offset memory =>
    if offset + size ≤ layout.limit obj.id then
      ((size : Int), readRange (memory obj.id) offset size, memory)
    else (-1, [], memory)
  memoryWrite := fun obj data offset memory =>
    if offset + data.length ≤ layout.limit obj.id then
      ((data.length : Int),
        Function.update memory obj.id (writeRange (memory obj.id) offset data))
    else (-1, memory)
  memoryClose := fun _ memory => (.success, memory)
  open_id := fun _ _ _ _ => rfl
  read_length := by
    intro obj size offset memory reported
    split at reported
    · rename_i fits
      rw [if_pos fits]
      exact readRange_length _ _ _
    · exact absurd reported (by simp only; omega)

section Plain

variable (layout : PlainLayout) (memory : Contents)

@[simp] theorem plain_open {id : MemId} {mode : MemMode} (keeps : mode ≠ .writeAll) :
    (plain layout).memoryOpen id mode memory = (.success, ⟨id, mode⟩, memory) := by
  simp [plain, keeps]

@[simp] theorem plain_open_writeAll (id : MemId) :
    (plain layout).memoryOpen id .writeAll memory =
      (.success, ⟨id, .writeAll⟩, Function.update memory id (layout.wipe (memory id))) := by
  simp [plain]

@[simp] theorem plain_close (obj : MemObject) :
    (plain layout).memoryClose obj memory = (.success, memory) := rfl

theorem plain_read {obj : MemObject} {size offset : Nat}
    (fits : offset + size ≤ layout.limit obj.id) :
    (plain layout).memoryRead obj size offset memory =
      ((size : Int), readRange (memory obj.id) offset size, memory) :=
  if_pos fits

theorem plain_read_outside {obj : MemObject} {size offset : Nat}
    (out : layout.limit obj.id < offset + size) :
    (plain layout).memoryRead obj size offset memory = (-1, [], memory) :=
  if_neg (by omega)

theorem plain_write {obj : MemObject} {data : List UInt8} {offset : Nat}
    (fits : offset + data.length ≤ layout.limit obj.id) :
    (plain layout).memoryWrite obj data offset memory =
      ((data.length : Int),
        Function.update memory obj.id (writeRange (memory obj.id) offset data)) :=
  if_pos fits

/-- Reading never changes a plain memory. -/
theorem plain_read_memory (obj : MemObject) (size offset : Nat) :
    ((plain layout).memoryRead obj size offset memory).2.2 = memory := by
  by_cases fits : offset + size ≤ layout.limit obj.id
  · rw [plain_read layout memory fits]
  · rw [plain_read_outside layout memory (by omega)]

/-- Plain as far as the limits reach: an open or a close leaves the contents alone, and what lies
within is read and written as it stands. -/
structure PlainWithin (M : MemoryInterface Contents) (limit : MemId → Nat) : Prop where
  opens : ∀ (id : MemId) {mode : MemMode} (memory : Contents), mode ≠ .writeAll →
    M.memoryOpen id mode memory = (.success, ⟨id, mode⟩, memory)
  reads : ∀ {obj : MemObject} {size offset : Nat} (memory : Contents),
    offset + size ≤ limit obj.id → M.memoryRead obj size offset memory =
      ((size : Int), readRange (memory obj.id) offset size, memory)
  writes : ∀ {obj : MemObject} {data : List UInt8} {offset : Nat} (memory : Contents),
    offset + data.length ≤ limit obj.id → M.memoryWrite obj data offset memory =
      ((data.length : Int),
        Function.update memory obj.id (writeRange (memory obj.id) offset data))
  closes : ∀ (obj : MemObject) (memory : Contents), M.memoryClose obj memory = (.success, memory)

theorem plain_within : PlainWithin (plain layout) layout.limit where
  opens := fun _ _ memory keeps => plain_open layout memory keeps
  reads := fun memory fits => plain_read layout memory fits
  writes := fun memory fits => plain_write layout memory fits
  closes := fun obj memory => plain_close layout memory obj

end Plain

/-- Plain memory whose objects have no end: no operation fails. -/
def boundless : MemoryInterface Contents where
  memoryOpen := fun id mode memory => (.success, ⟨id, mode⟩, memory)
  memoryRead := fun obj size offset memory =>
    ((size : Int), readRange (memory obj.id) offset size, memory)
  memoryWrite := fun obj data offset memory =>
    ((data.length : Int), Function.update memory obj.id (writeRange (memory obj.id) offset data))
  memoryClose := fun _ memory => (.success, memory)
  open_id := fun _ _ _ _ => rfl
  read_length := fun _ _ _ _ _ => readRange_length _ _ _

theorem boundless_within (limit : MemId → Nat) : PlainWithin boundless limit where
  opens := fun _ _ _ _ => rfl
  reads := fun _ _ => rfl
  writes := fun _ _ => rfl
  closes := fun _ _ => rfl

/-! ### Logged memory -/

/-- A write access: an open and its mode, or a write and where it goes. -/
inductive MemEvent
  | opened (id : MemId) (mode : MemMode)
  | wrote (id : MemId) (offset : Nat) (data : List UInt8)
  deriving DecidableEq, Repr

/-- An implementation that also lists its opens and writes, the latest last. -/
def logged {σ : Type} (M : MemoryInterface σ) : MemoryInterface (σ × List MemEvent) where
  memoryOpen := fun id mode state =>
    let (err, obj, memory) := M.memoryOpen id mode state.1
    (err, obj, memory, state.2 ++ [.opened id mode])
  memoryRead := fun obj size offset state =>
    let (ret, data, memory) := M.memoryRead obj size offset state.1
    (ret, data, memory, state.2)
  memoryWrite := fun obj data offset state =>
    let (ret, memory) := M.memoryWrite obj data offset state.1
    (ret, memory, state.2 ++ [.wrote obj.id offset data])
  memoryClose := fun obj state =>
    let (err, memory) := M.memoryClose obj state.1
    (err, memory, state.2)
  open_id := fun id mode state success => M.open_id id mode state.1 success
  read_length := fun obj size offset state reported =>
    M.read_length obj size offset state.1 reported

end Upkit
