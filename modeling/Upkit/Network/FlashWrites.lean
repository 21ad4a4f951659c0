/-
**Where a sink writes on flash.**

The buffer stage and the writer over `memory_flash.c` behind the wrappers, with the failed writes of
the platform noted and the accesses listed (`observed`).

* `writesOf_within_iff` — writes that follow each other lie within a size and within an object
  exactly when the last of them ends there.
* `Filled` — a sink that has been fed a number of bytes. `feedSink_filled`, `bufferClear_filled` —
  unless a write fails, the blocks handed down are written one behind the other.
* `feedSink_programs`, `bufferClear_programs` — over drivers that program what they are given, no
  write fails.
-/

import Upkit.Network.FsmCases
import Upkit.Memory.Effects
import Upkit.Memory.Descriptor
import Upkit.Memory.Wrappers
import Upkit.Pipeline.Chains

namespace Upkit

open Bytes Blocks

/-! ### Writes within an object -/

section Within

variable {δ : Type}

/-- The number of bytes of an object. -/
def FlashObject.length (object : FlashObject δ) : Nat := object.stop - object.start

/-- Addresses wrap around, but not back into the object. -/
theorem FlashObject.address_inside_iff (object : FlashObject δ) {offset index : Nat}
    (small : offset + index < 2 ^ 32) :
    (object.start ≤ object.address offset + index ∧
      object.address offset + index < object.stop) ↔ offset + index < object.length := by
  have start := object.start_lt
  have stop := object.stop_lt
  unfold FlashObject.address FlashObject.length
  omega

/-- Every byte of a write lies below an offset of the object and at an address of it. -/
def MemEvent.Within (flash : FlashTable δ) (id : MemId) (size : Nat) : MemEvent → Prop
  | .opened _ _ => True
  | .wrote other offset data => other = id ∧ ∀ index < data.length, offset + index < size ∧
      (flash id).start ≤ (flash id).address offset + index ∧
      (flash id).address offset + index < (flash id).stop

/-- Blocks written to an object one behind the other. -/
def writesOf (id : MemId) : (offset : Nat) → List (List UInt8) → List MemEvent
  | _, [] => []
  | offset, block :: blocks => .wrote id offset block :: writesOf id (offset + block.length) blocks

variable {flash : FlashTable δ} {id : MemId} {size : Nat}

theorem wrote_within_iff {offset : Nat} {data : List UInt8}
    (small : offset + data.length ≤ 2 ^ 32) :
    (MemEvent.wrote id offset data).Within flash id size ↔ data.length = 0 ∨
      (offset + data.length ≤ size ∧ offset + data.length ≤ (flash id).length) := by
  have inside : ∀ index < data.length, ((flash id).start ≤ (flash id).address offset + index ∧
      (flash id).address offset + index < (flash id).stop) ↔
        offset + index < (flash id).length :=
    fun index bound => (flash id).address_inside_iff (by omega)
  constructor
  · rintro ⟨_, bytes⟩
    by_cases empty : data.length = 0
    · exact Or.inl empty
    · -- The last byte decides.
      obtain ⟨below, address⟩ := bytes (data.length - 1) (by omega)
      have last := (inside (data.length - 1) (by omega)).mp address
      exact Or.inr ⟨by omega, by omega⟩
  · intro ends
    refine ⟨rfl, fun index bound => ⟨by omega, ?_⟩⟩
    exact (inside index bound).mpr (by omega)

/-- **Writes that follow each other** lie within exactly when they end within. -/
theorem writesOf_within_iff (blocks : List (List UInt8)) {offset : Nat}
    (small : offset + blocks.flatten.length ≤ 2 ^ 32) :
    (∀ event ∈ writesOf id offset blocks, event.Within flash id size) ↔
      blocks.flatten.length = 0 ∨ (offset + blocks.flatten.length ≤ size ∧
        offset + blocks.flatten.length ≤ (flash id).length) := by
  induction blocks generalizing offset with
  | nil => exact ⟨fun _ => Or.inl rfl, fun _ _ member => absurd member List.not_mem_nil⟩
  | cons block blocks ih =>
      rw [List.flatten_cons, List.length_append] at small ⊢
      rw [writesOf, List.forall_mem_cons, wrote_within_iff (by omega), ih (by omega)]
      omega

end Within

/-! ### The flash of a device -/

/-- The state of flash, whether a write has failed, and the accesses. -/
abbrev Observed (δ : Type) := (δ × Bool) × List MemEvent

/-- `memory_flash.c` behind the wrappers, observed. -/
abbrev observed {δ : Type} (left : Nat → UInt8) (flash : FlashTable δ) :
    MemoryInterface (Observed δ) :=
  logged (memoryImpl left (watched (flashMemory flash)))

/-- An access that writes nothing. -/
def MemEvent.Opens : MemEvent → Prop
  | .opened _ _ => True
  | .wrote _ _ _ => False

/-- Objects have been opened and read, and nothing has been written. -/
def Silent {δ : Type} (before after : Observed δ) : Prop :=
  after.1.2 = before.1.2 ∧ Extends MemEvent.Opens before after

section Observed

variable {δ : Type} (left : Nat → UInt8) (flash : FlashTable δ)

/-- Opening, reading and closing write nothing. -/
theorem observed_silent :
    Frames (observed left flash) Silent (fun _ _ => True) (fun _ => False) where
  refl := fun _ => ⟨rfl, Extends.none rfl⟩
  trans := fun first second => ⟨second.1.trans first.1,
    (logged_frames (memoryImpl left (watched (flashMemory flash))) MemEvent.Opens).trans first.2
      second.2⟩
  opening := fun _ _ _ _ => ⟨rfl, Extends.one rfl trivial⟩
  reading := fun _ _ _ _ => ⟨rfl, Extends.none rfl⟩
  writing := fun _ _ _ _ impossible => impossible.elim
  closing := fun _ _ => ⟨rfl, Extends.none rfl⟩

/-- A failed write stays noted. -/
theorem observed_notes :
    Frames (observed left flash) (fun before after => after.1.2 = false → before.1.2 = false)
      (fun _ _ => True) (fun _ => True) where
  refl := fun _ => id
  trans := fun first second stored => first (second stored)
  opening := fun _ _ _ _ => id
  reading := fun _ _ _ _ => id
  writing := fun _ _ _ _ _ stored => (Bool.or_eq_false_iff.mp stored).1
  closing := fun _ _ => id

/-- What `memory_write_impl` returns. -/
theorem flashMemory_write_ret (obj : MemObject) (data : List UInt8) (offset : Nat) (state : δ) :
    ((flashMemory flash).memoryWrite obj data offset state).1 = toInt32 data.length ∨
      ((flashMemory flash).memoryWrite obj data offset state).1 = -1 := by
  unfold flashMemory
  simp only
  split
  · split
    · exact Or.inr rfl
    · split
      · exact Or.inl rfl
      · exact Or.inr rfl
  · simp only [ne_eq, not_true_eq_false, if_false]
    split
    · exact Or.inl rfl
    · exact Or.inr rfl

/-- **A block that is stored** is reported as such. -/
theorem observed_write {obj : MemObject} {data : List UInt8} (short : data.length ≤ bufferLen)
    {offset : Nat} {state : Observed δ}
    (stored : ((observed left flash).memoryWrite obj data offset state).2.1.2 = false) :
    ((observed left flash).memoryWrite obj data offset state).1 = data.length ∧
      ((observed left flash).memoryWrite obj data offset state).2.2 =
        state.2 ++ [.wrote obj.id offset data] := by
  have few : data.length ≤ 1000 := short
  have whole : ¬ ((flashMemory flash).memoryWrite obj data offset state.1.1).1 < data.length :=
    of_decide_eq_false (Bool.or_eq_false_iff.mp stored).2
  have ret : ((flashMemory flash).memoryWrite obj data offset state.1.1).1 = data.length := by
    rcases flashMemory_write_ret flash obj data offset state.1.1 with reported | failed
    · rw [reported, toInt32_natCast (by omega)]
    · omega
  refine ⟨?_, rfl⟩
  show uint16 ((flashMemory flash).memoryWrite obj data offset state.1.1).1 = data.length
  rw [ret]
  exact (uint16_eq_iff _).mpr ⟨by omega, by omega⟩

variable {left flash}

/-- A failed block stays noted while others are handed down. -/
theorem handDown_notes (blocks : List (List UInt8)) (below : WriterCtx × Observed δ)
    (stored : (handDown (writerPipeline (observed left flash)) blocks below).2.1.2 = false) :
    below.2.1.2 = false := by
  induction blocks generalizing below with
  | nil => exact stored
  | cons block blocks ih =>
      exact (writerPipeline_frames (observed_notes left flash) block below).2 trivial (ih _ stored)

/-- **Blocks that are all stored** are written one behind the other. -/
theorem handDown_writes (obj : MemObject) (blocks : List (List UInt8))
    (short : ∀ block ∈ blocks, block.length ≤ bufferLen) {written : Nat} {state : Observed δ}
    (fits : written + blocks.flatten.length < 2 ^ 32)
    (stored : (handDown (writerPipeline (observed left flash)) blocks
      (⟨obj, written⟩, state)).2.1.2 = false) :
    (handDown (writerPipeline (observed left flash)) blocks (⟨obj, written⟩, state)).1 =
        ⟨obj, written + blocks.flatten.length⟩ ∧
      (handDown (writerPipeline (observed left flash)) blocks (⟨obj, written⟩, state)).2.2 =
        state.2 ++ writesOf obj.id written blocks := by
  induction blocks generalizing written state with
  | nil => exact ⟨rfl, (List.append_nil _).symm⟩
  | cons block blocks ih =>
      rw [List.flatten_cons, List.length_append] at fits ⊢
      rw [handDown_cons] at stored ⊢
      have first : ((observed left flash).memoryWrite obj block written state).2.1.2 = false :=
        handDown_notes blocks _ stored
      obtain ⟨ret, logs⟩ :=
        observed_write left flash (short block List.mem_cons_self) first
      have moved : wrap32 ((written : Int) + (block.length : Int)) = written + block.length := by
        rw [← Int.natCast_add]
        exact wrap32_natCast (by omega)
      have next : (writerPipeline (observed left flash) block (⟨obj, written⟩, state)).2 =
          (⟨obj, written + block.length⟩,
            ((observed left flash).memoryWrite obj block written state).2) := by
        refine Prod.ext ?_ rfl
        show WriterCtx.mk obj (wrap32 ((written : Int) +
          ((observed left flash).memoryWrite obj block written state).1)) = _
        rw [ret, moved]
      rw [next] at stored ⊢
      obtain ⟨writer, grows⟩ := ih (fun later member => short later (List.mem_cons_of_mem _ member))
        (by omega) stored
      refine ⟨?_, ?_⟩
      · rw [writer, Nat.add_assoc]
      · rw [grows, logs, writesOf, List.append_assoc, List.singleton_append]

end Observed

/-! ### A sink and what it has been fed -/

/-- The number of bytes the buffer stage has handed down once it has been fed `fed`. -/
def flushed (fed : Nat) : Nat := (fed - 1) / bufferLen * bufferLen

/-- It holds back at most a block, and something of whatever it has been fed. -/
theorem flushed_bounds (fed : Nat) :
    flushed fed ≤ fed ∧ fed - flushed fed ≤ bufferLen ∧ (0 < fed → flushed fed < fed) := by
  unfold flushed bufferLen
  omega

theorem flushed_mono {fed more : Nat} (le : fed ≤ more) : flushed fed ≤ flushed more := by
  unfold flushed bufferLen
  omega

/-- What is handed down of more bytes, with what was held back. -/
theorem flushed_add (fed more : Nat) :
    flushed fed + flushed (fed - flushed fed + more) = flushed (fed + more) := by
  unfold flushed bufferLen
  omega

/-- A sink that has been fed `fed` bytes for an object. -/
structure Filled (obj : MemObject) (fed : Nat) (buffer : BufferCtx) (writer : WriterCtx) :
    Prop where
  writer : writer = ⟨obj, flushed fed⟩
  held : buffer.data.length = fed - flushed fed

section Sink

variable {δ : Type} {left : Nat → UInt8} {flash : FlashTable δ} {obj : MemObject} {fed : Nat}

theorem Filled.short {buffer : BufferCtx} {writer : WriterCtx}
    (filled : Filled obj fed buffer writer) : buffer.data.length ≤ bufferLen := by
  rw [filled.held]
  exact (flushed_bounds fed).2.1

/-- The number of bytes handed down with a chunk. -/
theorem Filled.handed {buffer : BufferCtx} {writer : WriterCtx}
    (filled : Filled obj fed buffer writer) (data : List UInt8) :
    flushed fed + (fullBlocks bufferLen (buffer.data ++ data)).flatten.length =
      flushed (fed + data.length) := by
  rw [fullBlocks_flatten_length bufferLen_pos, List.length_append, filled.held]
  exact flushed_add fed data.length

theorem Filled.whole {buffer : BufferCtx} {writer : WriterCtx}
    (filled : Filled obj fed buffer writer) (data : List UInt8) :
    (heldBack bufferLen (buffer.data ++ data)).length =
      fed + data.length - flushed (fed + data.length) := by
  have lengths := congrArg List.length
    (fullBlocks_flatten_append bufferLen_pos (buffer.data ++ data))
  have handed := filled.handed data
  have held := filled.held
  have bounds := flushed_bounds fed
  rw [List.length_append, List.length_append] at lengths
  omega

/-- The writes of a chunk. -/
def chunkWrites (id : MemId) (fed : Nat) (buffer : BufferCtx) (data : List UInt8) :
    List MemEvent :=
  writesOf id (flushed fed) (fullBlocks bufferLen (buffer.data ++ data))

/-- **Feeding a sink**, as long as no write fails. -/
theorem feedSink_filled {sink : Sink (Observed δ)} (filled : Filled obj fed sink.1 sink.2.1)
    {data : List UInt8} (fits : fed + data.length < 2 ^ 32)
    (stored : (feedSink (observed left flash) data sink).2.2.1.2 = false) :
    Filled obj (fed + data.length) (feedSink (observed left flash) data sink).1
        (feedSink (observed left flash) data sink).2.1 ∧
      (feedSink (observed left flash) data sink).2.2.2 =
        sink.2.2.2 ++ chunkWrites obj.id fed sink.1 data := by
  obtain ⟨buffer, writer, state⟩ := sink
  obtain rfl : writer = ⟨obj, flushed fed⟩ := filled.writer
  have handed : flushed fed + (fullBlocks bufferLen (buffer.data ++ data)).flatten.length =
      flushed (fed + data.length) := filled.handed data
  have below := (flushed_bounds (fed + data.length)).1
  have call : feedSink (observed left flash) data (buffer, ⟨obj, flushed fed⟩, state) =
      (⟨heldBack bufferLen (buffer.data ++ data)⟩,
        handDown (writerPipeline (observed left flash))
          (fullBlocks bufferLen (buffer.data ++ data)) (⟨obj, flushed fed⟩, state)) := by
    rw [feedSink, sinkPipeline, bufferPipeline_eq _ _ _ _ filled.short]
  rw [call] at stored ⊢
  obtain ⟨written, grows⟩ := handDown_writes obj _
    (fun block member => le_of_eq (fullBlocks_length bufferLen_pos _ block member))
    (by omega) stored
  rw [handed] at written
  exact ⟨⟨written, filled.whole data⟩, grows⟩

/-- **The writes of a chunk** lie within exactly when there are none, or the bytes handed down so
far end there. -/
theorem chunkWrites_within_iff {id : MemId} {size : Nat} {buffer : BufferCtx} {writer : WriterCtx}
    (filled : Filled obj fed buffer writer) {data : List UInt8}
    (fits : fed + data.length < 2 ^ 32) :
    (∀ event ∈ chunkWrites id fed buffer data, event.Within flash id size) ↔
      flushed (fed + data.length) = flushed fed ∨ (flushed (fed + data.length) ≤ size ∧
        flushed (fed + data.length) ≤ (flash id).length) := by
  have handed := filled.handed data
  have below := (flushed_bounds (fed + data.length)).1
  rw [chunkWrites, writesOf_within_iff _ (by omega), handed]
  omega

/-- **Clearing a sink** writes what it holds back. -/
theorem bufferClear_filled {sink : Sink (Observed δ)} (filled : Filled obj fed sink.1 sink.2.1)
    (stored : (pipelineBufferClear (writerPipeline (observed left flash)) sink).2.2.2.1.2 = false) :
    (pipelineBufferClear (writerPipeline (observed left flash)) sink).2.2.2.2 =
      sink.2.2.2 ++ [.wrote obj.id (flushed fed) sink.1.data] := by
  obtain ⟨buffer, writer, state⟩ := sink
  obtain rfl : writer = ⟨obj, flushed fed⟩ := filled.writer
  exact (observed_write left flash filled.short stored).2

/-- A sink never holds back more than a block. -/
theorem feedSink_short {σ : Type} (M : MemoryInterface σ) {sink : Sink σ}
    (held : sink.1.data.length ≤ bufferLen) (data : List UInt8) :
    (feedSink M data sink).1.data.length ≤ bufferLen := by
  obtain ⟨buffer, below⟩ := sink
  rw [feedSink, sinkPipeline, bufferPipeline_eq _ _ _ _ held]
  exact heldBack_length_le bufferLen_pos _

/-! ### Drivers that program what they are given -/

/-- No driver of the table ever fails to program. -/
def Programs (flash : FlashTable δ) : Prop :=
  ∀ id data offset state, ((flash id).descr.program data offset state).1 = 0

variable (programs : Programs flash) {id : MemId}

include programs

theorem observed_programs {data : List UInt8} (short : data.length ≤ bufferLen) (offset : Nat)
    (state : Observed δ) :
    ((observed left flash).memoryWrite (slotObject id) data offset state).2.1.2 = state.1.2 := by
  have few : data.length ≤ 1000 := short
  have ret : ((flashMemory flash).memoryWrite (slotObject id) data offset state.1.1).1 =
      data.length := by
    have mode : ¬ ((slotObject id).mode = .sequentialRewrite ∧
        (flash (slotObject id).id).address offset %
          (flash (slotObject id).id).descr.pageSize = 0) := fun begins => by cases begins.1
    simp only [flashMemory, if_neg mode, programs (slotObject id).id data, ne_eq,
      not_true_eq_false, if_false, if_true]
    exact toInt32_natCast (by omega)
  show (state.1.2 || decide
    (((flashMemory flash).memoryWrite (slotObject id) data offset state.1.1).1 < data.length)) = _
  rw [ret, decide_eq_false (lt_irrefl _), Bool.or_false]

theorem handDown_programs (blocks : List (List UInt8))
    (short : ∀ block ∈ blocks, block.length ≤ bufferLen) {below : WriterCtx × Observed δ}
    (object : below.1.obj = slotObject id) :
    (handDown (writerPipeline (observed left flash)) blocks below).2.1.2 = below.2.1.2 := by
  induction blocks generalizing below with
  | nil => rfl
  | cons block blocks ih =>
      have first : (writerPipeline (observed left flash) block below).2.2.1.2 = below.2.1.2 := by
        show ((observed left flash).memoryWrite below.1.obj block below.1.written below.2).2.1.2 = _
        rw [object]
        exact observed_programs programs (short block List.mem_cons_self) _ _
      rw [handDown_cons, ← first]
      exact ih (fun later member => short later (List.mem_cons_of_mem _ member)) object

/-- **Feeding a sink** over such drivers: no write fails. -/
theorem feedSink_programs {sink : Sink (Observed δ)} (held : sink.1.data.length ≤ bufferLen)
    (object : sink.2.1.obj = slotObject id) (data : List UInt8) :
    (feedSink (observed left flash) data sink).2.2.1.2 = sink.2.2.1.2 := by
  obtain ⟨buffer, below⟩ := sink
  rw [feedSink, sinkPipeline, bufferPipeline_eq _ _ _ _ held]
  exact handDown_programs programs _
    (fun block member => le_of_eq (fullBlocks_length bufferLen_pos _ block member)) object

theorem bufferClear_programs {sink : Sink (Observed δ)} (held : sink.1.data.length ≤ bufferLen)
    (object : sink.2.1.obj = slotObject id) :
    (pipelineBufferClear (writerPipeline (observed left flash)) sink).2.2.2.1.2 =
      sink.2.2.1.2 := by
  show ((observed left flash).memoryWrite sink.2.1.obj sink.1.data sink.2.1.written
    sink.2.2).2.1.2 = _
  rw [object]
  exact observed_programs programs held _ _

end Sink

end Upkit
