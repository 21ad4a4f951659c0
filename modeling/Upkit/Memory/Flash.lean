/-
**Flash.**

`memory_flash.c` implements the memory interface over the flash of the device: `flash_objects` says
where each object begins and ends, an object opened with `WRITE_ALL` is erased page by page, and a
write to an object opened with `SEQUENTIAL_REWRITE` erases the page it begins, if it begins one.
The address of a byte is computed in 32 bits, and the bounds of the object are not checked: the
assertions that would do so are not compiled in.

* `FlashLayout` — `flash_objects`, with the page size of their descriptor.
* `paged` — the four operations, none of which fails.
* `Sees` — the address space holds given contents inside every object; `paged_read`,
  `paged_write_sees` — reading and sequential rewriting inside an object.
-/

import Upkit.Lib.Pages
import Upkit.Memory.Interface

namespace Upkit

open Bytes Pages

/-- `flash_objects` and the page size of their descriptor: the objects consist of whole pages and
do not overlap. -/
structure FlashLayout where
  pageSize : Nat
  start : MemId → Nat
  stop : MemId → Nat
  positive : 0 < pageSize
  start_aligned : ∀ id, pageSize ∣ start id
  stop_aligned : ∀ id, pageSize ∣ stop id
  ordered : ∀ id, start id ≤ stop id
  stop_lt : ∀ id, stop id < 2 ^ 32
  apart : ∀ id other, id ≠ other → stop id ≤ start other ∨ stop other ≤ start id

namespace FlashLayout

variable (layout : FlashLayout)

/-- The length of an object. -/
def length (id : MemId) : Nat := layout.stop id - layout.start id

/-- What the objects hold. -/
def view (space : Nat → UInt8) : Contents := fun id offset => space (layout.start id + offset)

/-- The loop of `memory_open_impl`, which erases an object from `offset` on. -/
def eraseLoop (stop : Nat) : (fuel offset : Nat) → (Nat → UInt8) → PullError × (Nat → UInt8)
  | 0, _, space => (.outOfFuel, space)
  | fuel + 1, offset, space =>
      if offset < stop then
        eraseLoop stop fuel ((offset + layout.pageSize) % 2 ^ 32)
          (erase layout.pageSize space offset)
      else (.success, space)

end FlashLayout

/-- The implementation of `memory_flash.c`, over flash of which no operation fails. -/
def paged (layout : FlashLayout) : MemoryInterface (Nat → UInt8) where
  memoryOpen := fun id mode space =>
    if mode = .writeAll then
      let (err, space) := layout.eraseLoop (layout.stop id) (2 ^ 32) (layout.start id) space
      (err, ⟨id, mode⟩, space)
    else (.success, ⟨id, mode⟩, space)
  memoryRead := fun obj size offset space =>
    ((size : Int), readRange space ((layout.start obj.id + offset) % 2 ^ 32) size, space)
  memoryWrite := fun obj data offset space =>
    let address := (layout.start obj.id + offset) % 2 ^ 32
    let space :=
      if obj.mode = .sequentialRewrite ∧ address % layout.pageSize = 0 then
        erase layout.pageSize space address
      else space
    ((data.length : Int), program space address data)
  memoryClose := fun _ space => (.success, space)
  open_id := by
    intro id mode space _
    by_cases all : mode = .writeAll
    · simp only [if_pos all]
    · simp only [if_neg all]
  read_length := fun _ _ _ _ _ => readRange_length _ _ _

section Paged

variable {layout : FlashLayout} {space : Nat → UInt8} {contents : Contents}

/-- Inside every object the address space holds `contents`. -/
def Sees (layout : FlashLayout) (space : Nat → UInt8) (contents : Contents) : Prop :=
  ∀ id offset, offset < layout.length id → layout.view space id offset = contents id offset

theorem sees_view (layout : FlashLayout) (space : Nat → UInt8) :
    Sees layout space (layout.view space) := fun _ _ _ => rfl

/-- The loop erases the pages that are left. -/
theorem eraseLoop_pages (layout : FlashLayout) {stop : Nat} (small : stop < 2 ^ 32)
    (fuel pages offset : Nat) (space : Nat → UInt8) (enough : pages < fuel)
    (reaches : offset + pages * layout.pageSize = stop) :
    layout.eraseLoop stop fuel offset space =
      (.success, writeRange space offset (List.replicate (pages * layout.pageSize) 255)) := by
  induction fuel generalizing pages offset space with
  | zero => exact absurd enough (Nat.not_lt_zero _)
  | succ fuel ih =>
      rw [FlashLayout.eraseLoop]
      cases pages with
      | zero =>
          rw [Nat.zero_mul] at reaches ⊢
          rw [if_neg (by omega), List.replicate_zero, writeRange_nil]
      | succ pages =>
          rw [Nat.succ_mul] at reaches ⊢
          have positive := layout.positive
          have next : (offset + layout.pageSize) % 2 ^ 32 = offset + layout.pageSize :=
            Nat.mod_eq_of_lt (by omega)
          have joined := writeRange_append space offset (List.replicate layout.pageSize 255)
            (List.replicate (pages * layout.pageSize) 255)
          rw [List.length_replicate, List.replicate_append_replicate] at joined
          rw [if_pos (by omega), next, ih pages _ _ (by omega) (by omega), erase, joined,
            Nat.add_comm]

/-- Opening with `WRITE_ALL` erases the object and nothing else. -/
theorem paged_open_writeAll (id : MemId) (space : Nat → UInt8) :
    (paged layout).memoryOpen id .writeAll space =
      (.success, ⟨id, .writeAll⟩,
        writeRange space (layout.start id) (List.replicate (layout.length id) 255)) := by
  obtain ⟨pages, whole⟩ : layout.pageSize ∣ layout.length id :=
    Nat.dvd_sub (layout.stop_aligned id) (layout.start_aligned id)
  have ordered := layout.ordered id
  have small := layout.stop_lt id
  have length : layout.length id = layout.stop id - layout.start id := rfl
  have few : pages ≤ layout.pageSize * pages := Nat.le_mul_of_pos_left pages layout.positive
  have run := eraseLoop_pages layout small (2 ^ 32) pages (layout.start id) space
    (by omega) (by rw [Nat.mul_comm]; omega)
  rw [Nat.mul_comm, ← whole] at run
  simp only [paged, if_true, run]

/-- Reading inside an object. -/
theorem paged_read (sees : Sees layout space contents) {obj : MemObject} {size offset : Nat}
    (inside : offset + size ≤ layout.length obj.id) :
    (paged layout).memoryRead obj size offset space =
      ((size : Int), readRange (contents obj.id) offset size, space) := by
  have ordered := layout.ordered obj.id
  have small := layout.stop_lt obj.id
  have length : layout.length obj.id = layout.stop obj.id - layout.start obj.id := rfl
  have address : (layout.start obj.id + offset) % 2 ^ 32 = layout.start obj.id + offset :=
    Nat.mod_eq_of_lt (by omega)
  have same : readRange space (layout.start obj.id + offset) size =
      readRange (contents obj.id) offset size := by
    rw [readRange_shift]
    exact readRange_congr _ fun index low high => sees obj.id index (by omega)
  simp only [paged, address, same]

/-- **Sequential rewriting inside an object**, by a write that stays in one page. -/
theorem paged_write_sees (sees : Sees layout space contents) {obj : MemObject}
    {data : List UInt8} {offset : Nat} (mode : obj.mode = .sequentialRewrite)
    (inside : offset + data.length ≤ layout.length obj.id) (some : 0 < data.length)
    (inPage : offset % layout.pageSize + data.length ≤ layout.pageSize) :
    ((paged layout).memoryWrite obj data offset space).1 = data.length ∧
      Sees layout ((paged layout).memoryWrite obj data offset space).2
        (Function.update contents obj.id
          (rewritten layout.pageSize (contents obj.id) offset data)) := by
  have ordered := layout.ordered obj.id
  have small := layout.stop_lt obj.id
  have length : layout.length obj.id = layout.stop obj.id - layout.start obj.id := rfl
  have address : (layout.start obj.id + offset) % 2 ^ 32 = layout.start obj.id + offset :=
    Nat.mod_eq_of_lt (by omega)
  have inPage' : (layout.start obj.id + offset) % layout.pageSize + data.length ≤
      layout.pageSize := by
    obtain ⟨index, begins⟩ := layout.start_aligned obj.id
    rw [begins, Nat.mul_add_mod]
    exact inPage
  have stored : ((paged layout).memoryWrite obj data offset space).2 =
      rewritten layout.pageSize space (layout.start obj.id + offset) data := by
    rw [← rewritten_step space layout.positive some inPage']
    simp only [paged, address, mode, true_and]
  refine ⟨rfl, ?_⟩
  rw [stored]
  intro id index within
  by_cases same : id = obj.id
  · rw [same, Function.update_self, FlashLayout.view,
      rewritten_shift space (layout.start_aligned obj.id)]
    refine rewritten_congr _ ?_ offset data
    rw [same] at within
    exact sees obj.id index within
  · rw [Function.update_of_ne same, ← sees id index within]
    have length' : layout.length id = layout.stop id - layout.start id := rfl
    refine rewritten_outside space (layout.stop_aligned obj.id) (Nat.le_add_right _ _)
      (by omega) ?_
    rcases layout.apart id obj.id same with before | behind
    · exact Or.inl (by omega)
    · exact Or.inr (by omega)

end Paged

end Upkit
