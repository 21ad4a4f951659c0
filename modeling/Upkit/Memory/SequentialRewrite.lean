/-
**Sequential rewriting by writes of any lengths.**

A write to an object that is open with `SEQUENTIAL_REWRITE` erases the page that begins where the
write begins. A page that the write runs into later is programmed as it is.

* `writeSequence` — `memory_write` calls one behind the other.
* `writeSequence_paged` — on flash these are the writes of `Pages.rewriteChunks`.
* `writeSequence_stores_iff` — what is written can be read back exactly when every byte lies in a
  page that some write begins, or loses no bit to the old contents.
* `crossingWrite_lost` — a write that crosses a page boundary, over zeros.
-/

import Upkit.Memory.Flash

namespace Upkit

open Bytes Pages

/-- Calls of `memory_write` one behind the other, from `offset` on. -/
def writeSequence {σ : Type} (M : MemoryInterface σ) (obj : MemObject) :
    (offset : Nat) → List (List UInt8) → σ → σ
  | _, [], memory => memory
  | offset, chunk :: chunks, memory =>
      writeSequence M obj (offset + chunk.length) chunks (M.memoryWrite obj chunk offset memory).2

section Sequence

variable {layout : FlashLayout}

/-- **On flash** the writes are those of `rewriteChunks`, from the address of the object on. -/
theorem writeSequence_paged (id : MemId) (chunks : List (List UInt8)) {offset : Nat}
    (inside : offset + chunks.flatten.length ≤ layout.length id) (space : Nat → UInt8) :
    writeSequence (paged layout) ⟨id, .sequentialRewrite⟩ offset chunks space =
      rewriteChunks layout.pageSize (layout.start id + offset) chunks space := by
  induction chunks generalizing offset space with
  | nil => rfl
  | cons chunk chunks ih =>
      rw [List.flatten_cons, List.length_append] at inside
      have ordered := layout.ordered id
      have small := layout.stop_lt id
      have length : layout.length id = layout.stop id - layout.start id := rfl
      have address : (layout.start id + offset) % 2 ^ 32 = layout.start id + offset :=
        Nat.mod_eq_of_lt (by omega)
      have written : ((paged layout).memoryWrite ⟨id, .sequentialRewrite⟩ chunk offset space).2 =
          rewriteChunk layout.pageSize space (layout.start id + offset) chunk := by
        simp only [paged, address, true_and]
        rfl
      rw [writeSequence, rewriteChunks, written, ih (by omega), Nat.add_assoc]

/-- Reading the written range of an object returns what was written. -/
def Stored (layout : FlashLayout) (id : MemId) (chunks : List (List UInt8))
    (space : Nat → UInt8) : Prop :=
  let (_, obj, opened) := (paged layout).memoryOpen id .sequentialRewrite space
  let (ret, data, _) := (paged layout).memoryRead obj chunks.flatten.length 0
    (writeSequence (paged layout) obj 0 chunks opened)
  ret = chunks.flatten.length ∧ data = chunks.flatten

/-- **What is written can be read back** exactly when every byte lies in a page that some write
begins, or loses no bit to what was there before. -/
theorem writeSequence_stores_iff (layout : FlashLayout) (id : MemId) (chunks : List (List UInt8))
    (inside : chunks.flatten.length ≤ layout.length id) (space : Nat → UInt8) :
    Stored layout id chunks space ↔
      ∀ offset < chunks.flatten.length, pageStart layout.pageSize offset ∈ starts 0 chunks ∨
        layout.view space id offset &&& chunks.flatten.getD offset 0 =
          chunks.flatten.getD offset 0 := by
  have ordered := layout.ordered id
  have small := layout.stop_lt id
  have length : layout.length id = layout.stop id - layout.start id := rfl
  have address : (layout.start id + 0) % 2 ^ 32 = layout.start id :=
    Nat.mod_eq_of_lt (by omega)
  have written := @writeSequence_paged layout id chunks 0 (by omega) space
  have read : Stored layout id chunks space ↔ readRange
      (rewriteChunks layout.pageSize (layout.start id + 0) chunks space) (layout.start id)
        chunks.flatten.length = chunks.flatten := by
    rw [← written, ← address]
    exact ⟨fun stored => stored.2, fun same => ⟨rfl, same⟩⟩
  rw [read, readRange_eq_iff]
  refine forall_congr' fun offset => forall_congr' fun below => ?_
  have begun : pageStart layout.pageSize (layout.start id + offset) ∈
      starts (layout.start id + 0) chunks ↔ pageStart layout.pageSize offset ∈ starts 0 chunks := by
    rw [pageStart_add (layout.start_aligned id), mem_starts_add]
  rw [rewriteChunks_inside space layout.positive chunks (by omega) (by omega), Nat.add_zero,
    Nat.add_sub_cancel_left]
  rw [Nat.add_zero] at begun
  by_cases first : pageStart layout.pageSize offset ∈ starts 0 chunks
  · rw [if_pos (begun.mpr first)]
    exact ⟨fun _ => Or.inl first, fun _ => rfl⟩
  · rw [if_neg fun other => first (begun.mp other)]
    exact ⟨fun same => Or.inr same, fun either => either.resolve_left first⟩

end Sequence

/-! ### Writes that cross a page boundary -/

/-- An object of two pages of four bytes, the only one that is not empty. -/
def smallPages : FlashLayout where
  pageSize := 4
  start := fun _ => 0
  stop := fun id => if id = 1 then 8 else 0
  positive := by decide
  start_aligned := fun _ => Nat.dvd_zero 4
  stop_aligned := fun id => by
    split
    · exact ⟨2, rfl⟩
    · exact Nat.dvd_zero 4
  ordered := fun _ => Nat.zero_le _
  stop_lt := fun id => by
    split
    · decide
    · decide
  apart := by
    intro id other differ
    by_cases first : id = 1
    · have second : ¬ other = 1 := fun second => differ (first.trans second.symm)
      exact Or.inr (le_of_eq (if_neg second))
    · exact Or.inl (le_of_eq (if_neg first))

/-- A write that ends at the page boundary and one that begins there, over zeros. -/
theorem wholePages_stored : Stored smallPages 1 [[1], [2, 3, 4], [5, 6]] fun _ => 0 :=
  (writeSequence_stores_iff smallPages 1 [[1], [2, 3, 4], [5, 6]] (by decide) fun _ => 0).mpr
    (by decide)

/-- **A write that crosses the page boundary**, over zeros: the bytes behind the boundary are
lost. -/
theorem crossingWrite_lost : ¬ Stored smallPages 1 [[1, 2, 3], [4, 5, 6]] fun _ => 0 := by
  rintro ⟨_, stored⟩
  exact absurd stored (by decide)

end Upkit
