/-
**What the library does to a memory, whatever the memory is.**

`Frames M R opens writes` says that a preorder `R` on the platform state holds of every read and
close, of the opens in `opens` and of the writes in `writes`. The functions of the library then
keep within `R`:

* `getOrderedFirmware_frames`, `verifyObject_frames` — scanning the slots and verifying an object
  only open with `READ_ONLY` and read.
* `sinkPipeline_frames`, `bufferClear_frames` — a sink only writes to the object of its writer.

`logged_frames` is the instance for the list of accesses: the new ones are all of a kind;
`plain_frames` is the one for a plain memory of which one object is written.
-/

import Upkit.Security.Verifier
import Upkit.Pipeline.Stages

namespace Upkit

open Bytes

/-- A preorder on memories within which reading, closing and some opens and writes stay. -/
structure Frames {σ : Type} (M : MemoryInterface σ) (R : σ → σ → Prop)
    (opens : MemId → MemMode → Prop) (writes : MemObject → Prop) : Prop where
  refl : ∀ memory, R memory memory
  trans : ∀ {first second third}, R first second → R second third → R first third
  opening : ∀ id mode memory, opens id mode → R memory (M.memoryOpen id mode memory).2.2
  reading : ∀ obj size offset memory, R memory (M.memoryRead obj size offset memory).2.2
  writing : ∀ obj data offset memory, writes obj →
    R memory (M.memoryWrite obj data offset memory).2
  closing : ∀ obj memory, R memory (M.memoryClose obj memory).2

section Frames

variable {σ : Type} {M : MemoryInterface σ} {R : σ → σ → Prop} {opens : MemId → MemMode → Prop}
  {writes : MemObject → Prop} (frames : Frames M R opens writes)

include frames

/-! ### Reading -/

theorem readFirmwareManifest_frames (obj : MemObject) (memory : σ) :
    R memory (readFirmwareManifest M obj memory).2.2 := by
  unfold readFirmwareManifest
  simp only
  split
  · exact frames.reading obj _ _ memory
  · exact frames.reading obj _ _ memory

theorem getOrderedFirmwareLoop_frames (readable : ∀ id, opens id .readOnly)
    (newest preferBootable : Bool) (slots : List MemSlot) (best : Candidate) (memory : σ) :
    R memory (getOrderedFirmwareLoop M newest preferBootable slots best memory).2.2 := by
  induction slots generalizing best memory with
  | nil => exact frames.refl memory
  | cons slot rest ih =>
      have opened := frames.opening slot.id .readOnly memory (readable slot.id)
      have read := frames.trans opened (readFirmwareManifest_frames frames
        (M.memoryOpen slot.id .readOnly memory).2.1 (M.memoryOpen slot.id .readOnly memory).2.2)
      have closed := frames.trans read
        (frames.closing (M.memoryOpen slot.id .readOnly memory).2.1 _)
      rw [getOrderedFirmwareLoop]
      simp only
      split
      · exact opened
      · split
        · exact closed
        · exact frames.trans closed (ih _ _)

/-- **Scanning the slots** only reads. -/
theorem getOrderedFirmware_frames (readable : ∀ id, opens id .readOnly) (table : SlotTable)
    (newest preferBootable : Bool) (id : MemId) (version : Nat) (memory : σ) :
    R memory (getOrderedFirmware M table newest preferBootable id version memory).2.2 :=
  getOrderedFirmwareLoop_frames frames readable newest preferBootable table.slots _ memory

theorem verifyDigestLoop_frames (obj : MemObject) (final fuel offset step : Nat)
    (hashed buffer : List UInt8) (memory : σ) :
    R memory (verifyDigestLoop M obj final fuel offset step hashed buffer memory).2.2.2 := by
  induction fuel generalizing offset step hashed buffer memory with
  | zero => exact frames.refl memory
  | succ fuel ih =>
      rw [verifyDigestLoop]
      split
      · have read := frames.reading obj step offset memory
        simp only
        split
        · exact read
        · exact frames.trans read (ih _ _ _ _ _)
      · exact frames.refl memory

theorem verifyDigest_frames (crypto : Crypto) (obj : MemObject) (mt : Manifest)
    (buffer : List UInt8) (bufferLen : Nat) (memory : σ) :
    R memory (verifyDigest M crypto obj mt buffer bufferLen memory).2.2 := by
  have looped := verifyDigestLoop_frames frames obj ((mt.getOffset + mt.getSize) % 2 ^ 32) loopFuel
    mt.getOffset (bufferLen % 2 ^ 32) [] buffer memory
  unfold verifyDigest
  simp only
  split
  · exact frames.refl memory
  · split
    · exact looped
    · split
      · exact looped
      · exact looped

/-- **Verifying an object** only reads it. -/
theorem verifyObject_frames (crypto : Crypto) (obj : MemObject) (sf : Safestore)
    (buffer : List UInt8) (bufferLen : Nat) (memory : σ) :
    R memory (verifyObject M crypto obj sf buffer bufferLen memory).2.2 := by
  have read := readFirmwareManifest_frames frames obj memory
  unfold verifyObject
  simp only
  split
  · exact read
  · split
    · exact read
    · exact frames.trans read (verifyDigest_frames frames crypto obj _ _ _ _)

/-! ### Writing through a sink -/

/-- The writer stays with its object. -/
theorem writerPipeline_frames (buf : List UInt8) (below : WriterCtx × σ) :
    (writerPipeline M buf below).2.1.obj = below.1.obj ∧
      (writes below.1.obj → R below.2 (writerPipeline M buf below).2.2) :=
  ⟨rfl, fun allowed => frames.writing below.1.obj buf below.1.written below.2 allowed⟩

theorem bufferPipelineLoop_frames (fuel : Nat) (rest : List UInt8) (sink : Sink σ) :
    (bufferPipelineLoop (writerPipeline M) fuel rest sink).2.1.obj = sink.2.1.obj ∧
      (writes sink.2.1.obj →
        R sink.2.2 (bufferPipelineLoop (writerPipeline M) fuel rest sink).2.2) := by
  induction fuel generalizing rest sink with
  | zero => exact ⟨rfl, fun _ => frames.refl _⟩
  | succ fuel ih =>
      obtain ⟨ctx, below⟩ := sink
      rw [bufferPipelineLoop]
      split
      · exact ⟨rfl, fun _ => frames.refl _⟩
      · simp only
        split
        · exact ih _ _
        · split
          · obtain ⟨kept, wrote⟩ := writerPipeline_frames frames ctx.data below
            obtain ⟨keeps, writes'⟩ := ih rest (⟨[]⟩, (writerPipeline M ctx.data below).2)
            refine ⟨keeps.trans kept, fun allowed => ?_⟩
            exact frames.trans (wrote allowed) (writes' (by rw [kept]; exact allowed))
          · exact ih _ _

/-- **A chunk through a sink** goes to the object of its writer. -/
theorem sinkPipeline_frames (buf : List UInt8) (sink : Sink σ) :
    (sinkPipeline M buf sink).2.2.1.obj = sink.2.1.obj ∧
      (writes sink.2.1.obj → R sink.2.2 (sinkPipeline M buf sink).2.2.2) :=
  bufferPipelineLoop_frames frames _ buf sink

/-- **The last bytes of a sink** go to the object of its writer. -/
theorem bufferClear_frames (sink : Sink σ) (allowed : writes sink.2.1.obj) :
    R sink.2.2 (pipelineBufferClear (writerPipeline M) sink).2.2.2 :=
  (writerPipeline_frames frames sink.1.data sink.2).2 allowed

end Frames

/-! ### Reading the same -/

/-- Opening for reading, reading and closing answer as another implementation does on the part of the
memory that `view` shows. -/
structure ReadsAs {σ τ : Type} (M : MemoryInterface σ) (N : MemoryInterface τ) (view : σ → τ) :
    Prop where
  opening : ∀ id memory, ((M.memoryOpen id .readOnly memory).1,
    (M.memoryOpen id .readOnly memory).2.1, view (M.memoryOpen id .readOnly memory).2.2) =
      N.memoryOpen id .readOnly (view memory)
  reading : ∀ obj size offset memory, ((M.memoryRead obj size offset memory).1,
    (M.memoryRead obj size offset memory).2.1, view (M.memoryRead obj size offset memory).2.2) =
      N.memoryRead obj size offset (view memory)
  closing : ∀ obj memory, ((M.memoryClose obj memory).1, view (M.memoryClose obj memory).2) =
    N.memoryClose obj (view memory)

section ReadsAs

variable {σ τ : Type} {M : MemoryInterface σ} {N : MemoryInterface τ} {view : σ → τ}
  (same : ReadsAs M N view)

include same

theorem readFirmwareManifest_readsAs (obj : MemObject) (memory : σ) :
    ((readFirmwareManifest M obj memory).1, (readFirmwareManifest M obj memory).2.1,
      view (readFirmwareManifest M obj memory).2.2) =
        readFirmwareManifest N obj (view memory) := by
  rw [readFirmwareManifest, readFirmwareManifest, ← same.reading]
  simp only
  split
  · rfl
  · rfl

/-- A scan finds the same slot. -/
theorem getOrderedFirmwareLoop_readsAs (newest preferBootable : Bool) (slots : List MemSlot)
    (best : Candidate) (memory : σ) :
    ((getOrderedFirmwareLoop M newest preferBootable slots best memory).1,
      (getOrderedFirmwareLoop M newest preferBootable slots best memory).2.1,
      view (getOrderedFirmwareLoop M newest preferBootable slots best memory).2.2) =
        getOrderedFirmwareLoop N newest preferBootable slots best (view memory) := by
  induction slots generalizing best memory with
  | nil => rfl
  | cons slot rest ih =>
      rw [getOrderedFirmwareLoop, getOrderedFirmwareLoop]
      simp only [← same.opening, ← readFirmwareManifest_readsAs same, ← same.closing]
      split
      · rfl
      · split
        · rfl
        · exact ih _ _

theorem verifyDigestLoop_readsAs (obj : MemObject) (final fuel offset step : Nat)
    (hashed buffer : List UInt8) (memory : σ) :
    let verified := verifyDigestLoop M obj final fuel offset step hashed buffer memory
    (verified.1, verified.2.1, verified.2.2.1, view verified.2.2.2) =
      verifyDigestLoop N obj final fuel offset step hashed buffer (view memory) := by
  induction fuel generalizing offset step hashed buffer memory with
  | zero => rfl
  | succ fuel ih =>
      rw [verifyDigestLoop, verifyDigestLoop, ← same.reading]
      simp only
      split
      · split
        · rfl
        · exact ih _ _ _ _ _
      · rfl

theorem verifyDigest_readsAs (crypto : Crypto) (obj : MemObject) (mt : Manifest)
    (buffer : List UInt8) (bufferLen : Nat) (memory : σ) :
    let verified := verifyDigest M crypto obj mt buffer bufferLen memory
    (verified.1, verified.2.1, view verified.2.2) =
      verifyDigest N crypto obj mt buffer bufferLen (view memory) := by
  rw [verifyDigest, verifyDigest]
  simp only
  split
  · rfl
  · rw [← verifyDigestLoop_readsAs same]
    simp only
    split
    · rfl
    · split
      · rfl
      · rfl

/-- **A verification** has the same verdict. -/
theorem verifyObject_readsAs (crypto : Crypto) (obj : MemObject) (sf : Safestore)
    (buffer : List UInt8) (bufferLen : Nat) (memory : σ) :
    let verified := verifyObject M crypto obj sf buffer bufferLen memory
    (verified.1, verified.2.1, view verified.2.2) =
      verifyObject N crypto obj sf buffer bufferLen (view memory) := by
  rw [verifyObject, verifyObject, ← readFirmwareManifest_readsAs same]
  simp only
  split
  · rfl
  · split
    · rfl
    · exact verifyDigest_readsAs same crypto obj _ buffer bufferLen _

end ReadsAs

/-! ### Plain memory -/

/-- Accesses to one object of a plain memory leave the others alone. -/
theorem plain_frames (layout : PlainLayout) (target : MemId) :
    Frames (plain layout) (fun before after => ∀ id, id ≠ target → after id = before id)
      (fun id mode => mode = .writeAll → id = target) (fun obj => obj.id = target) where
  refl := fun _ _ _ => rfl
  trans := fun first second id other => (second id other).trans (first id other)
  opening := by
    intro id mode memory allowed other apart
    by_cases wipes : mode = .writeAll
    · subst wipes
      rw [plain_open_writeAll]
      exact Function.update_of_ne (by rw [allowed rfl]; exact apart) _ _
    · rw [plain_open layout memory wipes]
  reading := fun obj size offset memory id _ => by rw [plain_read_memory]
  writing := by
    intro obj data offset memory allowed other apart
    by_cases fits : offset + data.length ≤ layout.limit obj.id
    · rw [plain_write layout memory fits]
      exact Function.update_of_ne (by rw [show obj.id = target from allowed]; exact apart) _ _
    · show (if offset + data.length ≤ layout.limit obj.id then _ else _ : Int × Contents).2 other =
        memory other
      rw [if_neg fits]
  closing := fun _ _ _ _ => rfl

/-- Reading leaves a plain memory as it is. -/
theorem plain_reads (layout : PlainLayout) :
    Frames (plain layout) (fun before after => after = before) (fun _ mode => mode ≠ .writeAll)
      (fun _ => False) where
  refl := fun _ => rfl
  trans := fun first second => second.trans first
  opening := fun id mode memory keeps => by rw [plain_open layout memory keeps]
  reading := fun obj size offset memory => plain_read_memory layout memory obj size offset
  writing := fun _ _ _ _ none => none.elim
  closing := fun _ _ => rfl

/-! ### The list of accesses -/

/-- The object an access changes: one opened with `WRITE_ALL`, or one written to. -/
def MemEvent.touches : MemEvent → Option MemId
  | .opened id mode => if mode = .writeAll then some id else none
  | .wrote id _ _ => some id

/-- The accesses of a logged memory grow by some of a kind. -/
def Extends {σ : Type} (kind : MemEvent → Prop) (before after : σ × List MemEvent) : Prop :=
  ∃ fresh, after.2 = before.2 ++ fresh ∧ ∀ event ∈ fresh, kind event

theorem Extends.one {σ : Type} {kind : MemEvent → Prop} {before after : σ × List MemEvent}
    {event : MemEvent} (grows : after.2 = before.2 ++ [event]) (ofKind : kind event) :
    Extends kind before after :=
  ⟨[event], grows, fun _ member => List.mem_singleton.mp member ▸ ofKind⟩

theorem Extends.none {σ : Type} {kind : MemEvent → Prop} {before after : σ × List MemEvent}
    (same : after.2 = before.2) : Extends kind before after :=
  ⟨[], by rw [List.append_nil]; exact same, fun _ member => absurd member List.not_mem_nil⟩

/-- **A logged memory** stays within the accesses of a kind. -/
theorem logged_frames {σ : Type} (M : MemoryInterface σ) (kind : MemEvent → Prop) :
    Frames (logged M) (Extends kind) (fun id mode => kind (.opened id mode))
      (fun obj => ∀ offset data, kind (.wrote obj.id offset data)) where
  refl := fun _ => Extends.none rfl
  trans := by
    rintro first second third ⟨fresh, grows, ofKind⟩ ⟨fresh', grows', ofKind'⟩
    refine ⟨fresh ++ fresh', by rw [grows', grows, List.append_assoc], fun event member => ?_⟩
    exact (List.mem_append.mp member).elim (ofKind event) (ofKind' event)
  opening := fun _ _ _ ofKind => Extends.one rfl ofKind
  reading := fun _ _ _ _ => Extends.none rfl
  writing := fun _ data offset _ ofKind => Extends.one rfl (ofKind offset data)
  closing := fun _ _ => Extends.none rfl

/-- Listing the accesses does not change what is read. -/
theorem logged_readsAs {σ : Type} (M : MemoryInterface σ) : ReadsAs (logged M) M Prod.fst where
  opening := fun _ _ => rfl
  reading := fun _ _ _ _ => rfl
  closing := fun _ _ => rfl

/-- A scan finds the same slot when its accesses are listed. -/
theorem getOrderedFirmwareLoop_logged {σ : Type} (M : MemoryInterface σ)
    (newest preferBootable : Bool) (slots : List MemSlot) (best : Candidate)
    (state : σ × List MemEvent) :
    (getOrderedFirmwareLoop (logged M) newest preferBootable slots best state).1 =
        (getOrderedFirmwareLoop M newest preferBootable slots best state.1).1 ∧
      (getOrderedFirmwareLoop (logged M) newest preferBootable slots best state).2.1 =
        (getOrderedFirmwareLoop M newest preferBootable slots best state.1).2.1 ∧
      (getOrderedFirmwareLoop (logged M) newest preferBootable slots best state).2.2.1 =
        (getOrderedFirmwareLoop M newest preferBootable slots best state.1).2.2 := by
  have scanned := getOrderedFirmwareLoop_readsAs (logged_readsAs M) newest preferBootable slots best
    state
  rw [← scanned]
  exact ⟨rfl, rfl, rfl⟩

end Upkit
