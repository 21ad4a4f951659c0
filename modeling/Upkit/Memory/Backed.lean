/-
**Memory that passes for a plain one.**

Flash is written once after it has been erased, and nobody checks the bounds of an object. As long as
what is read lies in an object, and what is written lies in one and has been erased before, such a
memory cannot be told from a plain one.

* `Backs` — a memory and the plain contents it is seen as; `paged_backs` — the flash of
  `memory_flash.c` is seen as what its objects hold.
* `getOrderedFirmware_backed` — scanning the slots finds the same slot.
* `verifyObject_backed` — verifying an object has the same verdict and leaves the same buffer, when a
  manifest that passes describes a range inside the object that is no shorter than the buffer.
-/

import Upkit.Memory.Flash
import Upkit.Memory.Effects

namespace Upkit

open Bytes Pages

/-- A memory that is seen as plain contents: it opens, erases, reads and closes as they do inside
every object, and what was opened with `WRITE_ALL` can be written where it is erased. -/
structure Backs {σ : Type} (M : MemoryInterface σ) (layout : PlainLayout)
    (sees : σ → Contents → Prop) : Prop where
  opens : ∀ {space contents} id mode, sees space contents →
    ∃ space', M.memoryOpen id mode space = (.success, ⟨id, mode⟩, space') ∧
      sees space' ((plain layout).memoryOpen id mode contents).2.2
  reads : ∀ {space contents} {obj : MemObject} {size offset : Nat}, sees space contents →
    offset + size ≤ layout.limit obj.id →
    ∃ space', M.memoryRead obj size offset space =
        ((size : Int), readRange (contents obj.id) offset size, space') ∧ sees space' contents
  writes : ∀ {space contents} {obj : MemObject} {data : List UInt8} {offset : Nat},
    sees space contents → obj.mode = .writeAll → offset + data.length ≤ layout.limit obj.id →
    (∀ index < data.length, layout.erased = some (contents obj.id (offset + index))) →
    ∃ space', M.memoryWrite obj data offset space = ((data.length : Int), space') ∧
      sees space' (Function.update contents obj.id (writeRange (contents obj.id) offset data))
  closes : ∀ {space contents} obj, sees space contents →
    ∃ space', M.memoryClose obj space = (.success, space') ∧ sees space' contents

/-! ### Reading -/

section Reading

variable {σ : Type} {M : MemoryInterface σ} {layout : PlainLayout} {sees : σ → Contents → Prop}
  (backs : Backs M layout sees) {space : σ} {contents : Contents}

include backs

theorem readFirmwareManifest_backed {obj : MemObject} (seen : sees space contents)
    (fits : sizeofManifest ≤ layout.limit obj.id) :
    ∃ space', readFirmwareManifest M obj space =
        (.success, manifestAt contents obj.id, space') ∧ sees space' contents := by
  obtain ⟨space', read, seen'⟩ := @Backs.reads σ M layout sees backs space contents obj
    sizeofManifest 0 seen (by rw [Nat.zero_add]; exact fits)
  refine ⟨space', ?_, seen'⟩
  rw [readFirmwareManifest, read]
  simp only [ne_eq, not_true_eq_false, if_false]
  rfl

theorem getOrderedFirmwareLoop_backed (newest preferBootable : Bool) (slots : List MemSlot)
    (fits : ∀ slot ∈ slots, sizeofManifest ≤ layout.limit slot.id) (best : Candidate)
    (seen : sees space contents) :
    ∃ space', getOrderedFirmwareLoop M newest preferBootable slots best space =
        (.success, selectSlot newest preferBootable (versionAt contents) slots best, space') ∧
      sees space' contents := by
  induction slots generalizing best space with
  | nil => exact ⟨space, rfl, seen⟩
  | cons slot rest ih =>
      obtain ⟨opened, isOpened, seen⟩ := backs.opens slot.id .readOnly seen
      rw [plain_open layout contents (by decide)] at seen
      obtain ⟨read, isRead, seen⟩ := @readFirmwareManifest_backed σ M layout sees backs _ _
        ⟨slot.id, .readOnly⟩ seen (fits slot List.mem_cons_self)
      obtain ⟨closed, isClosed, seen⟩ := backs.closes ⟨slot.id, .readOnly⟩ seen
      rw [getOrderedFirmwareLoop, isOpened]
      simp only [isRead, isClosed, ne_eq, not_true_eq_false, if_false]
      exact ih (fun other member => fits other (List.mem_cons_of_mem _ member)) _ seen

/-- **A scan** finds the slot it finds in the contents. -/
theorem getOrderedFirmware_backed (table : SlotTable) (newest preferBootable : Bool) (id : MemId)
    (version : Nat) (fits : ∀ slot ∈ table.slots, sizeofManifest ≤ layout.limit slot.id)
    (seen : sees space contents) :
    ∃ space', getOrderedFirmware M table newest preferBootable id version space =
        (.success, selectSlot newest preferBootable (versionAt contents) table.slots
          ⟨id, version, false, true⟩, space') ∧ sees space' contents :=
  getOrderedFirmwareLoop_backed backs newest preferBootable table.slots fits _ seen

/-- The loop of `verify_digest` stays inside the object: a step never leaves the range it digests. -/
theorem verifyDigestLoop_backed {obj : MemObject} {final : Nat}
    (within : final ≤ layout.limit obj.id) (fuel offset step : Nat) (hashed buffer : List UInt8)
    (inside : offset < final → offset + step ≤ final)
    (narrow : layout.limit obj.id + step ≤ 2 ^ 32) (seen : sees space contents) :
    let verified := verifyDigestLoop (plain layout) obj final fuel offset step hashed buffer contents
    ∃ space', verifyDigestLoop M obj final fuel offset step hashed buffer space =
        (verified.1, verified.2.1, verified.2.2.1, space') ∧ sees space' contents := by
  induction fuel generalizing offset step hashed buffer space with
  | zero => exact ⟨space, rfl, seen⟩
  | succ fuel ih =>
      intro verified
      by_cases more : offset < final
      · have room := inside more
        have next : (offset + step) % 2 ^ 32 = offset + step :=
          Nat.mod_eq_of_lt (lt_of_le_of_lt (le_trans room within) (layout.limit_lt obj.id))
        obtain ⟨read, isRead, seen⟩ := @Backs.reads σ M layout sees backs _ _ obj step offset seen
          (le_trans room within)
        have isPlain := plain_read layout contents (le_trans room within)
        have step_le : (if final < (offset + step + step) % 2 ^ 32 then
            wrap32 ((final : Int) - ((offset + step : Nat) : Int)) else step) ≤ step ∧
            (offset + step < final → offset + step + (if final < (offset + step + step) % 2 ^ 32 then
              wrap32 ((final : Int) - ((offset + step : Nat) : Int)) else step) ≤ final) := by
          have small := layout.limit_lt obj.id
          have rest : wrap32 ((final : Int) - ((offset + step : Nat) : Int)) =
              final - (offset + step) := by
            unfold wrap32
            omega
          have wraps : (offset + step + step) % 2 ^ 32 = offset + step + step ∨
              offset + step = final := by
            rcases Nat.lt_or_ge (offset + step) final with still | done
            · exact Or.inl (Nat.mod_eq_of_lt (by omega))
            · exact Or.inr (by omega)
          rw [rest]
          split <;> omega
        have round := ih (offset + step) _ (hashed ++ (splice buffer 0
          (readRange (contents obj.id) offset step)).take step) (splice buffer 0
            (readRange (contents obj.id) offset step)) step_le.2
          (le_trans (Nat.add_le_add_left step_le.1 _) narrow) seen
        obtain ⟨space', looped, seen'⟩ := round
        refine ⟨space', ?_, seen'⟩
        simp only [verified]
        rw [verifyDigestLoop, verifyDigestLoop, if_pos more, if_pos more, isRead, isPlain]
        simp only [ne_eq, not_true_eq_false, if_false, next]
        exact looped
      · refine ⟨space, ?_, seen⟩
        simp only [verified]
        rw [verifyDigestLoop, verifyDigestLoop, if_neg more, if_neg more]

theorem verifyDigest_backed (crypto : Crypto) {obj : MemObject} {mt : Manifest}
    {bufferLen : Nat} (buffer : List UInt8) (covers : bufferLen ≤ mt.getSize)
    (inside : mt.getOffset + mt.getSize ≤ layout.limit obj.id)
    (narrow : layout.limit obj.id + bufferLen ≤ 2 ^ 32) (seen : sees space contents) :
    let verified := verifyDigest (plain layout) crypto obj mt buffer bufferLen contents
    ∃ space', verifyDigest M crypto obj mt buffer bufferLen space =
        (verified.1, verified.2.1, space') ∧ sees space' contents := by
  intro verified
  have small := layout.limit_lt obj.id
  have whole : bufferLen % 2 ^ 32 = bufferLen := Nat.mod_eq_of_lt (by omega)
  have final : (mt.getOffset + mt.getSize) % 2 ^ 32 = mt.getOffset + mt.getSize :=
    Nat.mod_eq_of_lt (by omega)
  obtain ⟨space', looped, seen'⟩ := @verifyDigestLoop_backed σ M layout sees backs space contents obj
    (mt.getOffset + mt.getSize) inside loopFuel mt.getOffset bufferLen [] buffer
    (fun _ => Nat.add_le_add_left covers _) narrow seen
  simp only [verified, verifyDigest, final, whole, looped]
  split
  · exact ⟨space, rfl, seen⟩
  · refine ⟨space', ?_, seen'⟩
    split
    · rfl
    · split
      · rfl
      · rfl

/-- **A verification** has the verdict it has on the contents, and leaves the same buffer, if the
manifest of the object does not pass or describes a range inside it. -/
theorem verifyObject_backed (crypto : Crypto) (sf : Safestore) {obj : MemObject} {bufferLen : Nat}
    (buffer : List UInt8) (fits : sizeofManifest ≤ layout.limit obj.id)
    (narrow : layout.limit obj.id + bufferLen ≤ 2 ^ 32)
    (signed : verifyManifest crypto (manifestAt contents obj.id) sf = .success →
      bufferLen ≤ (manifestAt contents obj.id).getSize ∧
        (manifestAt contents obj.id).getOffset + (manifestAt contents obj.id).getSize ≤
          layout.limit obj.id) (seen : sees space contents) :
    let verified := verifyObject (plain layout) crypto obj sf buffer bufferLen contents
    ∃ space', verifyObject M crypto obj sf buffer bufferLen space =
        (verified.1, verified.2.1, space') ∧ sees space' contents := by
  intro verified
  obtain ⟨read, isRead, seenRead⟩ := readFirmwareManifest_backed backs seen fits
  simp only [verified, verifyObject, isRead, readFirmwareManifest_plain layout contents fits]
  simp only [ne_eq, not_true_eq_false, if_false]
  by_cases passes : verifyManifest crypto (manifestAt contents obj.id) sf = .success
  · obtain ⟨covers, inside⟩ := signed passes
    obtain ⟨space', digested, seen'⟩ :=
      verifyDigest_backed backs crypto buffer covers inside narrow seenRead
    rw [if_neg (not_not.mpr passes), if_neg (not_not.mpr passes), digested]
    exact ⟨space', rfl, seen'⟩
  · rw [if_pos passes, if_pos passes]
    exact ⟨read, rfl, seenRead⟩

end Reading

/-! ### Flash -/

/-- The plain memory that flash is seen as. -/
def FlashLayout.asPlain (layout : FlashLayout) : PlainLayout where
  limit := layout.length
  limit_lt := fun id => lt_of_le_of_lt (Nat.sub_le _ _) (layout.stop_lt id)
  erased := some 255

section Flash

variable {layout : FlashLayout} {space : Nat → UInt8} {contents : Contents}

/-- What lies behind the end of an object is not seen. -/
theorem Sees.congr {contents' : Contents} (seen : Sees layout space contents)
    (same : ∀ id offset, offset < layout.length id → contents' id offset = contents id offset) :
    Sees layout space contents' :=
  fun id offset within => (seen id offset within).trans (same id offset within).symm

/-- Writing a range inside an object is seen as writing to what the object holds, and nowhere
else. -/
theorem Sees.write (seen : Sees layout space contents) {id : MemId} {offset : Nat}
    {data : List UInt8} (inside : offset + data.length ≤ layout.length id) :
    Sees layout (writeRange space (layout.start id + offset) data)
      (Function.update contents id (writeRange (contents id) offset data)) := by
  have length : ∀ id, layout.length id = layout.stop id - layout.start id := fun _ => rfl
  intro other index within
  rw [length] at inside within
  by_cases same : other = id
  · subst same
    rw [Function.update_self, FlashLayout.view]
    by_cases written : offset ≤ index ∧ index < offset + data.length
    · rw [writeRange_inside _ written.1 written.2, writeRange_inside _ (by omega) (by omega),
        Nat.add_sub_add_left]
    · rw [writeRange_outside _ (by omega), writeRange_outside _ (by omega)]
      exact seen other index within
  · rw [Function.update_of_ne same, ← seen other index within]
    refine writeRange_outside space ?_
    have ordered := layout.ordered id
    rcases layout.apart other id same with before | behind
    · exact Or.inl (by omega)
    · exact Or.inr (by omega)

/-- **Flash is seen as what its objects hold.** -/
theorem paged_backs (layout : FlashLayout) :
    Backs (paged layout) layout.asPlain (Sees layout) where
  opens := by
    intro space contents id mode seen
    by_cases wipes : mode = .writeAll
    · subst wipes
      refine ⟨_, paged_open_writeAll id space, ?_⟩
      rw [plain_open_writeAll]
      have erased := @Sees.write layout space contents seen id 0
        (List.replicate (layout.length id) 255) (by rw [List.length_replicate, Nat.zero_add])
      rw [Nat.add_zero] at erased
      refine erased.congr fun other offset within => ?_
      show Function.update contents id _ other offset = _
      by_cases same : other = id
      · subst same
        rw [Function.update_self, Function.update_self,
          writeRange_inside _ (Nat.zero_le _) (by simpa using within), Nat.sub_zero,
          List.getD_eq_getElem _ _ (by simpa using within), List.getElem_replicate]
        rfl
      · rw [Function.update_of_ne same, Function.update_of_ne same]
    · rw [plain_open _ contents wipes]
      refine ⟨space, ?_, seen⟩
      simp only [paged, if_neg wipes]
  reads := fun seen inside => ⟨_, paged_read seen inside, seen⟩
  writes := by
    intro space contents obj data offset seen mode inside blank
    have ordered := layout.ordered obj.id
    have small := layout.stop_lt obj.id
    have length : layout.length obj.id = layout.stop obj.id - layout.start obj.id := rfl
    have inside' : offset + data.length ≤ layout.length obj.id := inside
    have address : (layout.start obj.id + offset) % 2 ^ 32 = layout.start obj.id + offset :=
      Nat.mod_eq_of_lt (by omega)
    have direct : ¬ (obj.mode = .sequentialRewrite ∧
        (layout.start obj.id + offset) % layout.pageSize = 0) := by
      rw [mode]
      exact fun both => MemMode.noConfusion both.1
    have erased : ∀ index < data.length, space (layout.start obj.id + offset + index) = 255 := by
      intro index below
      rw [Nat.add_assoc]
      exact (seen obj.id (offset + index) (by omega)).trans
        (Option.some.inj (blank index below)).symm
    refine ⟨_, ?_, seen.write inside'⟩
    simp only [paged, address, if_neg direct, program_blank space erased]
  closes := fun _ seen => ⟨_, rfl, seen⟩

/-- Reading leaves flash as it is. -/
theorem paged_reads (layout : FlashLayout) :
    Frames (paged layout) (fun before after => after = before) (fun _ mode => mode ≠ .writeAll)
      (fun _ => False) where
  refl := fun _ => rfl
  trans := fun first second => second.trans first
  opening := by
    intro id mode space keeps
    simp only [paged, if_neg keeps]
  reading := fun _ _ _ _ => rfl
  writing := fun _ _ _ _ none => none.elim
  closing := fun _ _ => rfl

end Flash

end Upkit
