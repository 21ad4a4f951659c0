/-
**Flash behind a descriptor.**

`memory_flash.c` reaches the flash of an object through its `flash_descr_t`, a table of functions of
the platform. Each of them may fail, `open`, `close` and `rst` may be missing, and all of them work
on addresses of `32` bits; the bounds of the object are not checked.

* `FlashDescr`, `FlashTable` — `flash_descr_t` and `flash_objects`.
* `flashMemory` — the four operations of `memory_flash.c`.
* `FlashObject.eraseLoop_holds` — what every erasure keeps, the loop of `memory_open_impl` keeps.
* `flashMemory_paged` — over flash of which no operation fails these are the operations of `paged`.
-/

import Upkit.Memory.Flash

namespace Upkit

open Bytes Pages

/-! ### Descriptors -/

/-- `flash_descr_t` over the flash state `δ`. A function returns zero when it succeeds; a read that
succeeds has put all its bytes into the buffer. -/
structure FlashDescr (δ : Type) where
  pageSize : Nat
  open' : Option (δ → Int × δ)
  erase : (offset pageSize : Nat) → δ → Int × δ
  program : List UInt8 → (offset : Nat) → δ → Int × δ
  read : (offset size : Nat) → δ → Int × List UInt8 × δ
  close : Option (δ → Int × δ)
  rst : Option (δ → δ)
  positive : 0 < pageSize
  read_length : ∀ offset size flash, (read offset size flash).1 = 0 →
    (read offset size flash).2.1.length = size

/-- `mem_object_t` as `flash_objects` holds it. -/
structure FlashObject (δ : Type) where
  start : Nat
  stop : Nat
  descr : FlashDescr δ
  start_lt : start < 2 ^ 32
  stop_lt : stop < 2 ^ 32

/-- `flash_objects`. -/
abbrev FlashTable (δ : Type) := MemId → FlashObject δ

section Operations

variable {δ : Type}

namespace FlashObject

variable (object : FlashObject δ)

/-- `fdescr->open`, where there is one. -/
def openFlash (flash : δ) : Int × δ :=
  match object.descr.open' with
  | none => (0, flash)
  | some openFlash => openFlash flash

/-- `fdescr->close`, where there is one. -/
def closeFlash (flash : δ) : Int × δ :=
  match object.descr.close with
  | none => (0, flash)
  | some closeFlash => closeFlash flash

/-- `fdescr->rst`, where there is one. -/
def resetWatchdog (flash : δ) : δ :=
  match object.descr.rst with
  | none => flash
  | some rst => rst flash

/-- The address of a byte of the object. -/
def address (offset : Nat) : Nat := (object.start + offset) % 2 ^ 32

/-- The loop of `memory_open_impl`, which erases the object from `offset` on. -/
def eraseLoop : (fuel offset : Nat) → δ → PullError × δ
  | 0, _, flash => (.outOfFuel, flash)
  | fuel + 1, offset, flash =>
      if offset < object.stop then
        let (ret, flash) :=
          object.descr.erase offset object.descr.pageSize (object.resetWatchdog flash)
        if ret ≠ 0 then (.memoryOpen, flash)
        else eraseLoop fuel ((offset + object.descr.pageSize) % 2 ^ 32) flash
      else (.success, flash)

/-- **What every erasure keeps**, the loop keeps. -/
theorem eraseLoop_holds {holds : δ → Prop}
    (resets : ∀ flash, holds flash → holds (object.resetWatchdog flash))
    (erases : ∀ offset flash, holds flash →
      holds (object.descr.erase offset object.descr.pageSize flash).2)
    (fuel offset : Nat) {flash : δ} (held : holds flash) :
    holds (object.eraseLoop fuel offset flash).2 := by
  induction fuel generalizing offset flash with
  | zero => exact held
  | succ fuel ih =>
      have erased := erases offset (object.resetWatchdog flash) (resets flash held)
      rw [eraseLoop]
      by_cases more : offset < object.stop
      · simp only [if_pos more]
        split
        · exact erased
        · exact ih _ erased
      · rw [if_neg more]
        exact held

/-- Whatever opening the flash and erasing it give, the object is the one that was asked for. -/
theorem opened_id (id : MemId) (mode : MemMode) (failed erases : Prop) [Decidable failed]
    [Decidable erases] (flash : δ) (erased : PullError × δ) :
    (if failed then (PullError.memoryOpen, (⟨id, mode⟩ : MemObject), flash)
      else if erases then (erased.1, ⟨id, mode⟩, erased.2)
      else (.success, ⟨id, mode⟩, flash)).2.1.id = id := by
  by_cases fails : failed
  · rw [if_pos fails]
  · rw [if_neg fails]
    by_cases erasing : erases
    · rw [if_pos erasing]
    · rw [if_neg erasing]

/-- A read that is reported as whole has put all its bytes into the buffer. -/
theorem reported_length {address size : Nat} {flash : δ}
    (reported : (if (object.descr.read address size flash).1 = 0 then toInt32 size else -1) =
      (size : Int)) : (object.descr.read address size flash).2.1.length = size := by
  by_cases read : (object.descr.read address size flash).1 = 0
  · exact object.descr.read_length _ _ _ read
  · rw [if_neg read] at reported
    omega

end FlashObject

/-- The implementation of `memory_flash.c`. -/
def flashMemory (table : FlashTable δ) : MemoryInterface δ where
  memoryOpen := fun id mode flash =>
    let (ret, flash) := (table id).openFlash flash
    if ret ≠ 0 then (.memoryOpen, ⟨id, mode⟩, flash)
    else if mode = .writeAll then
      let (err, flash) := (table id).eraseLoop (2 ^ 32) (table id).start flash
      (err, ⟨id, mode⟩, flash)
    else (.success, ⟨id, mode⟩, flash)
  memoryRead := fun obj size offset flash =>
    let (ret, data, flash) := (table obj.id).descr.read ((table obj.id).address offset) size flash
    (if ret = 0 then toInt32 size else -1, data, flash)
  memoryWrite := fun obj data offset flash =>
    let object := table obj.id
    let (ret, flash) :=
      if obj.mode = .sequentialRewrite ∧ object.address offset % object.descr.pageSize = 0 then
        object.descr.erase (object.address offset) object.descr.pageSize flash
      else (0, flash)
    if ret ≠ 0 then (-1, flash)
    else
      let (ret, flash) := object.descr.program data (object.address offset) flash
      (if ret = 0 then toInt32 data.length else -1, flash)
  memoryClose := fun obj flash =>
    let (ret, flash) := (table obj.id).closeFlash flash
    (if ret ≠ 0 then .memoryClose else .success, flash)
  open_id := fun id mode flash _ => FlashObject.opened_id id mode _ _ _
    ((table id).eraseLoop (2 ^ 32) (table id).start ((table id).openFlash flash).2)
  read_length := fun obj _ _ _ => (table obj.id).reported_length

end Operations

/-! ### Flash that does not fail -/

/-- The driver of flash of which no operation fails. -/
def norDescr (pageSize : Nat) (positive : 0 < pageSize) : FlashDescr (Nat → UInt8) where
  pageSize := pageSize
  open' := none
  erase := fun offset pageSize space => (0, erase pageSize space offset)
  program := fun data offset space => (0, program space offset data)
  read := fun offset size space => (0, readRange space offset size, space)
  close := none
  rst := none
  positive := positive
  read_length := fun _ _ _ _ => readRange_length _ _ _

/-- The objects of a layout, all behind that driver. -/
def FlashLayout.table (layout : FlashLayout) : FlashTable (Nat → UInt8) := fun id =>
  { start := layout.start id
    stop := layout.stop id
    descr := norDescr layout.pageSize layout.positive
    start_lt := lt_of_le_of_lt (layout.ordered id) (layout.stop_lt id)
    stop_lt := layout.stop_lt id }

section Nor

variable (layout : FlashLayout)

theorem table_eraseLoop (id : MemId) (fuel offset : Nat) (space : Nat → UInt8) :
    (layout.table id).eraseLoop fuel offset space =
      layout.eraseLoop (layout.stop id) fuel offset space := by
  induction fuel generalizing offset space with
  | zero => rfl
  | succ fuel ih =>
      rw [FlashObject.eraseLoop, FlashLayout.eraseLoop, ← ih]
      rfl

/-- The signed result of a size below `2 ^ 31`. -/
theorem toInt32_natCast {value : Nat} (small : value < 2 ^ 31) : toInt32 value = value := by
  unfold toInt32
  rw [Nat.mod_eq_of_lt (by omega), if_pos small]

/-- **Over flash that does not fail** the operations are those of `paged`; sizes of `2 ^ 31` bytes
and more do not fit their results. -/
theorem flashMemory_paged :
    (∀ id mode space, (flashMemory layout.table).memoryOpen id mode space =
        (paged layout).memoryOpen id mode space) ∧
      (∀ obj size offset space, size < 2 ^ 31 →
        (flashMemory layout.table).memoryRead obj size offset space =
          (paged layout).memoryRead obj size offset space) ∧
      (∀ obj data offset space, data.length < 2 ^ 31 →
        (flashMemory layout.table).memoryWrite obj data offset space =
          (paged layout).memoryWrite obj data offset space) ∧
      ∀ obj space, (flashMemory layout.table).memoryClose obj space =
        (paged layout).memoryClose obj space := by
  refine ⟨?_, ?_, ?_, fun _ _ => rfl⟩
  · intro id mode space
    show (if mode = .writeAll then _ else _) = _
    simp only [table_eraseLoop]
    rfl
  · intro obj size offset space small
    refine Prod.ext ?_ rfl
    exact toInt32_natCast small
  · intro obj data offset space small
    have length := toInt32_natCast small
    by_cases begins : obj.mode = .sequentialRewrite ∧
        (layout.table obj.id).address offset % (layout.table obj.id).descr.pageSize = 0
    · have begins' : obj.mode = .sequentialRewrite ∧
          (layout.start obj.id + offset) % 2 ^ 32 % layout.pageSize = 0 := begins
      simp only [flashMemory, paged, if_pos begins, if_pos begins']
      exact Prod.ext length rfl
    · have begins' : ¬ (obj.mode = .sequentialRewrite ∧
          (layout.start obj.id + offset) % 2 ^ 32 % layout.pageSize = 0) := begins
      simp only [flashMemory, paged, if_neg begins, if_neg begins']
      exact Prod.ext length rfl

end Nor

end Upkit
