/-
**The first boot, cut off and started again.**

On the first boot the agent invalidates every slot but the newest bootable one and then clears the
flag in the bootloader context. The memory is flash: programming only clears bits. Power may fail
after any number of `memory_write` calls; the device then starts from the beginning.

* `firstBootStage` — steps (1) and (2) of `bootloader_agent`.
* `cutOff` — the memory a cut leaves: from the cut on no write has an effect.
* `firstBoot_resumes` — however often the stage is cut off, each start chooses the same slot and
  leaves it alone, and completing the stage gives what one uninterrupted run gives.
-/

import Upkit.Agents.BootImage
import Upkit.Lib.Pages
import Upkit.Memory.Effects

namespace Upkit

open Bytes Pages

/-! ### Flash and power -/

/-- Flash memory on which no operation fails. -/
def flash : MemoryInterface Contents where
  memoryOpen := fun id mode memory =>
    (.success, ⟨id, mode⟩,
      if mode = .writeAll then Function.update memory id (fun _ => 255) else memory)
  memoryRead := fun obj size offset memory =>
    ((size : Int), readRange (memory obj.id) offset size, memory)
  memoryWrite := fun obj data offset memory =>
    ((data.length : Int), Function.update memory obj.id (program (memory obj.id) offset data))
  memoryClose := fun _ memory => (.success, memory)
  open_id := fun _ _ _ _ => rfl
  read_length := boundless.read_length

/-- A memory whose power lasts for a number of writes. -/
def budgeted {σ : Type} (M : MemoryInterface σ) : MemoryInterface (σ × Nat) where
  memoryOpen := fun id mode state =>
    let (err, obj, memory) := M.memoryOpen id mode state.1
    (err, obj, memory, state.2)
  memoryRead := fun obj size offset state =>
    let (ret, data, memory) := M.memoryRead obj size offset state.1
    (ret, data, memory, state.2)
  memoryWrite := fun obj data offset state =>
    match state.2 with
    | 0 => (-1, state)
    | budget + 1 =>
        let (ret, memory) := M.memoryWrite obj data offset state.1
        (ret, memory, budget)
  memoryClose := fun obj state =>
    let (err, memory) := M.memoryClose obj state.1
    (err, memory, state.2)
  open_id := fun id mode state success => M.open_id id mode state.1 success
  read_length := fun obj size offset state reported =>
    M.read_length obj size offset state.1 reported

theorem flash_readsAs : ReadsAs flash boundless id where
  opening := fun _ _ => rfl
  reading := fun _ _ _ _ => rfl
  closing := fun _ _ => rfl

theorem budgeted_readsAs : ReadsAs (budgeted flash) boundless Prod.fst where
  opening := fun _ _ => rfl
  reading := fun _ _ _ _ => rfl
  closing := fun _ _ => rfl

/-! ### Programming -/

theorem program_zero (space : Nat → UInt8) (offset count : Nat) :
    program space offset (List.replicate count 0) =
      writeRange space offset (List.replicate count 0) := by
  have cleared : ∀ bytes : List UInt8, List.zipWith (· &&& ·) bytes
      (List.replicate bytes.length 0) = List.replicate bytes.length 0 := by
    intro bytes
    induction bytes with
    | nil => rfl
    | cons byte rest ih =>
        rw [List.length_cons, List.replicate_succ, List.zipWith_cons_cons, ih, UInt8.and_zero]
  have length : (readRange space offset count).length = count := readRange_length _ _ _
  have zeros := cleared (readRange space offset count)
  rw [length] at zeros
  rw [program, List.length_replicate, zeros]

theorem zipWith_and_splice (bytes : List UInt8) {index : Nat} (inside : index < bytes.length) :
    List.zipWith (· &&& ·) bytes (splice bytes index [0]) = splice bytes index [0] := by
  have same : ∀ bytes : List UInt8, List.zipWith (· &&& ·) bytes bytes = bytes := by
    intro bytes
    rw [List.zipWith_self]
    simp
  induction bytes generalizing index with
  | nil => exact absurd inside (Nat.not_lt_zero _)
  | cons byte rest ih =>
      cases index with
      | zero =>
          show (byte &&& 0) :: List.zipWith (· &&& ·) rest rest = 0 :: rest
          rw [same, UInt8.and_zero]
      | succ index =>
          have shifted : splice (byte :: rest) (index + 1) [0] = byte :: splice rest index [0] := by
            simp [splice]
          rw [shifted, List.zipWith_cons_cons, ih (by simpa using inside), UInt8.and_self]

/-- Storing back what was read, with one byte cleared, only clears bits. -/
theorem program_cleared (space : Nat → UInt8) {index size : Nat} (inside : index < size) :
    program space 0 (splice (readRange space 0 size) index [0]) =
      writeRange space 0 (splice (readRange space 0 size) index [0]) := by
  have length : (readRange space 0 size).length = size := readRange_length _ _ _
  have width : (splice (readRange space 0 size) index [0]).length = size := by
    rw [splice_length (by rw [length, List.length_singleton]; omega), length]
  rw [program, width, zipWith_and_splice _ (by rw [length]; exact inside)]

/-! ### The stage -/

section Stage

variable {σ : Type} (M : MemoryInterface σ) (table : SlotTable) (cfg : BootloaderAgentConfig)

/-- Steps (1) and (2): the failure that ends the call, if any. -/
def firstBootStage (memory : σ) : Option AgentEvent × σ :=
  let (err, newest, memory) := getNewestFirmware M table true 0 0 memory
  if err ≠ .success then (some (.getNewestFirmwareFailure err), memory)
  else
    let (err, _, memory) := M.memoryOpen newest.id .readOnly memory
    if err ≠ .success then (some (.getNewestFirmwareFailure2 err), memory)
    else bootstrap M table cfg newest.id memory

/-- A call whose stage fails goes no further. -/
theorem bootloaderAgent_stage (crypto : Crypto) {memory memory' : σ} {failure : AgentEvent}
    (failed : firstBootStage M table cfg memory = (some failure, memory')) :
    bootloaderAgent M crypto table cfg memory = (failure, memory') := by
  unfold firstBootStage at failed
  unfold bootloaderAgent
  simp only at failed ⊢
  split at failed
  · rename_i err
    rw [if_pos err]
    cases failed
    rfl
  · rename_i found
    rw [if_neg found]
    split at failed
    · rename_i err
      rw [if_pos err]
      cases failed
      rfl
    · rename_i opened
      rw [if_neg opened, failed]

end Stage

section FirstBoot

variable (table : SlotTable) (cfg : BootloaderAgentConfig)

/-- The memory after a start whose power lasts for a number of writes of the stage. -/
def cutOff (writes : Nat) (memory : Contents) : Contents :=
  (firstBootStage (budgeted flash) table cfg (memory, writes)).2.1

/-- The memory after a sequence of such starts. -/
def restarted (cuts : List Nat) (memory : Contents) : Contents :=
  cuts.foldl (fun memory writes => cutOff table cfg writes memory) memory

/-- An object with its manifest overwritten by zeros. -/
def invalidated (space : Nat → UInt8) : Nat → UInt8 :=
  writeRange space 0 (Manifest.ofBytes []).bytes

theorem invalidated_idem (space : Nat → UInt8) :
    invalidated (invalidated space) = invalidated space := by
  funext address
  unfold invalidated
  by_cases inside : address < (Manifest.ofBytes []).bytes.length
  · rw [writeRange_inside _ (Nat.zero_le _) (by omega),
      writeRange_inside _ (Nat.zero_le _) (by omega)]
  · rw [writeRange_outside _ (Or.inr (by omega))]

theorem versionAt_invalidated {memory : Contents} {id : MemId} {space : Nat → UInt8}
    (wiped : memory id = invalidated space) : versionAt memory id = 0 := by
  have zero : manifestAt memory id = Manifest.ofBytes [] := by
    have read := readRange_writeRange_self space 0 (Manifest.ofBytes []).bytes
    rw [(Manifest.ofBytes []).length_eq] at read
    apply Manifest.ext
    rw [manifestAt_bytes, wiped]
    exact read
  rw [versionAt, zero]
  decide

/-- An object that no other slot names is not erased. -/
theorem erasedSlots_other {keep id : MemId} {slots : List MemSlot} (memory : Contents)
    (other : id = keep ∨ ∀ slot ∈ slots, slot.id ≠ id) :
    erasedSlots keep slots memory id = memory id := by
  induction slots generalizing memory with
  | nil => rfl
  | cons slot rest ih =>
      rw [erasedSlots, List.foldl_cons]
      refine (ih _ (other.imp_right fun apart slot member =>
        apart slot (List.mem_cons_of_mem _ member))).trans ?_
      split
      · rename_i kept
        refine Function.update_of_ne ?_ _ _
        rcases other with rfl | apart
        · exact Ne.symm kept
        · exact Ne.symm (apart slot List.mem_cons_self)
      · rfl

/-- Every other slot is. -/
theorem erasedSlots_slot {keep id : MemId} {slots : List MemSlot} (memory : Contents)
    (named : ∃ slot ∈ slots, slot.id = id) (other : id ≠ keep) :
    erasedSlots keep slots memory id = invalidated (memory id) := by
  induction slots generalizing memory with
  | nil =>
      obtain ⟨slot, member, _⟩ := named
      cases member
  | cons slot rest ih =>
      obtain ⟨after, step⟩ : ∃ after, (if slot.id ≠ keep then Function.update memory slot.id
        (writeRange (memory slot.id) 0 (Manifest.ofBytes []).bytes) else memory) = after := ⟨_, rfl⟩
      have erased : after id = memory id ∨ after id = invalidated (memory id) := by
        rw [← step]
        split
        · by_cases here : slot.id = id
          · rw [here, Function.update_self]
            exact Or.inr rfl
          · exact Or.inl (Function.update_of_ne (Ne.symm here) _ _)
        · exact Or.inl rfl
      rw [erasedSlots, List.foldl_cons, step]
      by_cases later : ∃ slot ∈ rest, slot.id = id
      · refine (ih _ later).trans ?_
        rcases erased with same | wiped
        · rw [same]
        · rw [wiped, invalidated_idem]
      · have here : slot.id = id := by
          obtain ⟨found, member, same⟩ := named
          rcases List.mem_cons.mp member with rfl | inRest
          · exact same
          · exact absurd ⟨found, inRest, same⟩ later
        refine (erasedSlots_other _ (Or.inr fun slot member same =>
          later ⟨slot, member, same⟩)).trans ?_
        rw [← step, if_pos (by rw [here]; exact other), here, Function.update_self]
        rfl

/-- Some of the other slots are erased, and nothing else has changed. -/
def PartlyErased (keep : MemId) (slots : List MemSlot) (memory memory' : Contents) : Prop :=
  ∀ id, memory' id = memory id ∨
    ((∃ slot ∈ slots, slot.id = id) ∧ id ≠ keep ∧ memory' id = invalidated (memory id))

theorem PartlyErased.trans {keep : MemId} {slots : List MemSlot} {first second third : Contents}
    (before : PartlyErased keep slots first second)
    (after : PartlyErased keep slots second third) : PartlyErased keep slots first third := by
  intro id
  rcases before id with same | ⟨named, other, wiped⟩
  · rcases after id with same' | ⟨named, other, wiped⟩
    · exact Or.inl (same'.trans same)
    · exact Or.inr ⟨named, other, wiped.trans (congrArg invalidated same)⟩
  · rcases after id with same | ⟨_, _, again⟩
    · exact Or.inr ⟨named, other, same.trans wiped⟩
    · refine Or.inr ⟨named, other, again.trans ?_⟩
      rw [wiped, invalidated_idem]

theorem partlyErased_erasedSlots (keep : MemId) (slots : List MemSlot) (memory : Contents) :
    PartlyErased keep slots memory (erasedSlots keep slots memory) := by
  intro id
  by_cases erased : (∃ slot ∈ slots, slot.id = id) ∧ id ≠ keep
  · exact Or.inr ⟨erased.1, erased.2, erasedSlots_slot memory erased.1 erased.2⟩
  · refine Or.inl (erasedSlots_other memory ?_)
    by_cases kept : id = keep
    · exact Or.inl kept
    · exact Or.inr fun slot member same => erased ⟨⟨slot, member, same⟩, kept⟩

/-- Erasing the rest gives what erasing everything gives. -/
theorem PartlyErased.erasedSlots_eq {keep : MemId} {slots : List MemSlot}
    {memory memory' : Contents} (partly : PartlyErased keep slots memory memory') :
    erasedSlots keep slots memory' = erasedSlots keep slots memory := by
  funext id
  by_cases erased : (∃ slot ∈ slots, slot.id = id) ∧ id ≠ keep
  · rw [erasedSlots_slot memory' erased.1 erased.2, erasedSlots_slot memory erased.1 erased.2]
    rcases partly id with same | ⟨_, _, wiped⟩
    · rw [same]
    · rw [wiped, invalidated_idem]
  · have other : id = keep ∨ ∀ slot ∈ slots, slot.id ≠ id := by
      by_cases kept : id = keep
      · exact Or.inl kept
      · exact Or.inr fun slot member same => erased ⟨⟨slot, member, same⟩, kept⟩
    rw [erasedSlots_other memory' other, erasedSlots_other memory other]
    exact (partly id).resolve_right fun wiped => erased ⟨wiped.1, wiped.2.1⟩

/-! ### Erasing with limited power -/

theorem program_manifest (space : Nat → UInt8) :
    program space 0 (Manifest.ofBytes []).bytes = invalidated space := by
  have zeros : (Manifest.ofBytes []).bytes = List.replicate sizeofManifest 0 := by
    show List.take sizeofManifest ([] ++ List.replicate sizeofManifest 0) = _
    rw [List.nil_append, List.take_of_length_le (by rw [List.length_replicate])]
  rw [invalidated, zeros]
  exact program_zero space 0 sizeofManifest

theorem invalidateObject_flash (id : MemId) (memory : Contents) :
    invalidateObject flash id memory =
      (.success, Function.update memory id (invalidated (memory id))) := by
  have length := (Manifest.ofBytes []).length_eq
  rw [← program_manifest]
  simp [invalidateObject, writeFirmwareManifest, flash, length]

theorem invalidateObject_budgeted (id : MemId) (memory : Contents) (budget : Nat) :
    invalidateObject (budgeted flash) id (memory, budget + 1) =
      (.success, Function.update memory id (invalidated (memory id)), budget) := by
  have length := (Manifest.ofBytes []).length_eq
  rw [← program_manifest]
  simp [invalidateObject, writeFirmwareManifest, budgeted, flash, length]

/-- The loop of step (2.1) stops where the power ends. -/
theorem eraseSlots_budgeted (keep : MemId) (slots : List MemSlot) (memory : Contents)
    (budget : Nat) :
    PartlyErased keep slots memory
        (eraseSlots (budgeted flash) keep slots (memory, budget)).2.1 ∧
      ((eraseSlots (budgeted flash) keep slots (memory, budget)).1 = .success →
        (eraseSlots (budgeted flash) keep slots (memory, budget)).2.1 =
          erasedSlots keep slots memory) := by
  induction slots generalizing memory budget with
  | nil => exact ⟨fun _ => Or.inl rfl, fun _ => rfl⟩
  | cons slot rest ih =>
      have widen : ∀ {first second : Contents}, PartlyErased keep rest first second →
          PartlyErased keep (slot :: rest) first second := by
        intro first second partly id
        refine (partly id).imp_right fun wiped => ⟨?_, wiped.2⟩
        obtain ⟨found, member, same⟩ := wiped.1
        exact ⟨found, List.mem_cons_of_mem _ member, same⟩
      rw [eraseSlots, erasedSlots, List.foldl_cons]
      by_cases other : slot.id ≠ keep
      · rw [if_pos other, if_pos other]
        cases budget with
        | zero => exact ⟨fun _ => Or.inl rfl, fun success => by cases success⟩
        | succ budget =>
            have step : PartlyErased keep (slot :: rest) memory
                (Function.update memory slot.id (invalidated (memory slot.id))) := by
              intro id
              by_cases here : id = slot.id
              · subst here
                exact Or.inr ⟨⟨slot, List.mem_cons_self, rfl⟩, other, Function.update_self _ _ _⟩
              · exact Or.inl (Function.update_of_ne here _ _)
            rw [invalidateObject_budgeted]
            obtain ⟨partly, complete⟩ := ih
              (Function.update memory slot.id (invalidated (memory slot.id))) budget
            exact ⟨step.trans (widen partly), complete⟩
      · rw [if_neg other, if_neg other]
        obtain ⟨partly, complete⟩ := ih memory budget
        exact ⟨widen partly, complete⟩

/-! ### The stage with limited power -/

theorem getNewestFirmware_flash (memory : Contents) :
    getNewestFirmware flash table true 0 0 memory =
      (.success, newestBootable table memory, memory) :=
  (getOrderedFirmwareLoop_readsAs flash_readsAs true true table.slots _ memory).trans
    (getOrderedFirmware_within (boundless_within fun _ => sizeofManifest) memory table _ _ _ _
      fun _ _ => le_rfl)

section Apart

-- The bootloader context is an object of its own.
variable (apart : ∀ slot ∈ table.slots, slot.id ≠ cfg.bootloaderCtxId)

include apart

theorem erasedSlots_ctx (keep : MemId) (memory : Contents) :
    erasedSlots keep table.slots memory cfg.bootloaderCtxId = memory cfg.bootloaderCtxId :=
  erasedSlots_other memory (Or.inr apart)

/-- Clearing the flag is programming. -/
theorem program_ctx (keep : MemId) (memory : Contents) :
    program (erasedSlots keep table.slots memory cfg.bootloaderCtxId) 0
        (splice (bootloaderCtx cfg memory) 127 [0]) =
      writeRange (erasedSlots keep table.slots memory cfg.bootloaderCtxId) 0
        (splice (bootloaderCtx cfg memory) 127 [0]) := by
  rw [erasedSlots_ctx table cfg apart]
  exact program_cleared (memory cfg.bootloaderCtxId) (show 127 < sizeofBootloaderCtx by decide)

/-- The stage with power throughout. -/
theorem firstBootStage_flash (memory : Contents) :
    firstBootStage flash table cfg memory = (none, bootstrapped table cfg memory) := by
  have width := clearedCtx_length cfg memory
  have stage : bootstrap flash table cfg (newestBootable table memory).id memory =
      (none, bootstrapped table cfg memory) := by
    refine bootstrap_eq table cfg rfl rfl rfl
      (eraseSlots_eq _ _ memory fun slot _ memory => invalidateObject_flash slot.id memory) ?_
      fun _ _ => rfl
    rw [← program_ctx table cfg apart]
    show ((_ : Int), _) = _
    rw [width]
  rw [firstBootStage, getNewestFirmware_flash]
  exact stage

/-- Step (2) with limited power. -/
theorem bootstrap_budgeted (memory : Contents) (budget : Nat) :
    if firstBoot (bootloaderCtx cfg memory) then
      PartlyErased (newestBootable table memory).id table.slots memory
          (bootstrap (budgeted flash) table cfg (newestBootable table memory).id
            (memory, budget)).2.1 ∨
        (bootstrap (budgeted flash) table cfg (newestBootable table memory).id
          (memory, budget)).2.1 = bootstrapped table cfg memory
    else (bootstrap (budgeted flash) table cfg (newestBootable table memory).id
      (memory, budget)).2.1 = memory := by
  have context : splice (List.replicate sizeofBootloaderCtx 0) 0 (bootloaderCtx cfg memory) =
      bootloaderCtx cfg memory := by
    rw [splice_zero, List.drop_of_length_le
      (by rw [bootloaderCtx, readRange_length, List.length_replicate]), List.append_nil]
  have opens : (budgeted flash).memoryOpen cfg.bootloaderCtxId .writeChunk (memory, budget) =
      (.success, ⟨cfg.bootloaderCtxId, .writeChunk⟩, memory, budget) := rfl
  have reads : (budgeted flash).memoryRead ⟨cfg.bootloaderCtxId, .writeChunk⟩ sizeofBootloaderCtx 0
      (memory, budget) = ((sizeofBootloaderCtx : Int), bootloaderCtx cfg memory, memory, budget) :=
    rfl
  have closes : ∀ obj state, (budgeted flash).memoryClose obj state = (.success, state) :=
    fun _ _ => rfl
  obtain ⟨partly, complete⟩ := eraseSlots_budgeted (newestBootable table memory).id table.slots
    memory budget
  obtain ⟨erased, made⟩ : ∃ erased, eraseSlots (budgeted flash) (newestBootable table memory).id
    table.slots (memory, budget) = erased := ⟨_, rfl⟩
  rw [made] at partly complete
  rw [bootstrap, opens]
  simp only [reads, context, ne_eq, not_true_eq_false, if_false]
  by_cases first : firstBoot (bootloaderCtx cfg memory) = true
  · rw [if_pos first, if_pos first, made]
    by_cases success : erased.1 = .success
    · obtain ⟨err, after, left⟩ := erased
      have whole : after = erasedSlots (newestBootable table memory).id table.slots memory :=
        complete success
      have ok : err = .success := success
      simp only [ok, not_true_eq_false, if_false]
      cases left with
      | zero =>
          -- The power ends before the flag is cleared.
          have dead : (budgeted flash).memoryWrite ⟨cfg.bootloaderCtxId, .writeChunk⟩
              (splice (bootloaderCtx cfg memory) 127 [0]) 0 (after, 0) = (-1, after, 0) := rfl
          simp only [dead]
          exact Or.inl partly
      | succ left =>
          have writes : (budgeted flash).memoryWrite ⟨cfg.bootloaderCtxId, .writeChunk⟩
              (splice (bootloaderCtx cfg memory) 127 [0]) 0 (after, left + 1) =
                ((sizeofBootloaderCtx : Int), Function.update after cfg.bootloaderCtxId
                  (writeRange (after cfg.bootloaderCtxId) 0
                    (splice (bootloaderCtx cfg memory) 127 [0])), left) := by
            rw [whole, ← program_ctx table cfg apart]
            show ((_ : Int), _) = _
            rw [clearedCtx_length]
          simp only [writes, closes, not_true_eq_false, if_false]
          rw [bootstrapped, if_pos first, whole]
          exact Or.inr rfl
    · simp only [success, not_false_eq_true, if_true]
      exact Or.inl partly
  · rw [if_neg first, if_neg first, closes]

/-- **A cut** leaves the first boot undone, in part done or done. -/
theorem cutOff_cases (writes : Nat) (memory : Contents) :
    if firstBoot (bootloaderCtx cfg memory) then
      PartlyErased (newestBootable table memory).id table.slots memory
          (cutOff table cfg writes memory) ∨
        cutOff table cfg writes memory = bootstrapped table cfg memory
    else cutOff table cfg writes memory = memory := by
  obtain ⟨left, scan⟩ : ∃ left, getNewestFirmware (budgeted flash) table true 0 0
      (memory, writes) = (.success, newestBootable table memory, memory, left) := by
    have view := (getOrderedFirmwareLoop_readsAs budgeted_readsAs true true table.slots
      ⟨0, 0, false, true⟩ (memory, writes)).trans (getOrderedFirmware_within
        (boundless_within fun _ => sizeofManifest) memory table true true 0 0 fun _ _ => le_rfl)
    refine ⟨(getOrderedFirmwareLoop (budgeted flash) true true table.slots
      ⟨0, 0, false, true⟩ (memory, writes)).2.2.2, ?_⟩
    have parts := Prod.ext_iff.mp view
    have rest := Prod.ext_iff.mp parts.2
    exact Prod.ext parts.1 (Prod.ext rest.1 (Prod.ext rest.2 rfl))
  have stage : cutOff table cfg writes memory = (bootstrap (budgeted flash) table cfg
      (newestBootable table memory).id (memory, left)).2.1 := by
    rw [cutOff, firstBootStage, scan]
    rfl
  rw [stage]
  exact bootstrap_budgeted table cfg apart memory left

/-! ### Starting again -/

/-- A first boot that has been cut off in `memory` can be taken up in `memory'`: it is in part done,
or it is done. -/
def Resumable (memory memory' : Contents) : Prop :=
  (firstBoot (bootloaderCtx cfg memory) = true ∧
      PartlyErased (newestBootable table memory).id table.slots memory memory') ∨
    memory' = bootstrapped table cfg memory

omit apart in
theorem resumable_refl (memory : Contents) : Resumable table cfg memory memory := by
  by_cases first : firstBoot (bootloaderCtx cfg memory) = true
  · exact Or.inl ⟨first, fun _ => Or.inl rfl⟩
  · refine Or.inr ?_
    rw [bootstrapped, if_neg first]

omit apart in
/-- Once the bootstrap is done its flag is cleared. -/
theorem firstBoot_bootstrapped (memory : Contents) :
    firstBoot (bootloaderCtx cfg (bootstrapped table cfg memory)) = false := by
  by_cases first : firstBoot (bootloaderCtx cfg memory) = true
  · have stored : bootloaderCtx cfg (bootstrapped table cfg memory) =
        splice (bootloaderCtx cfg memory) 127 [0] := by
      rw [bootstrapped, if_pos first, bootloaderCtx, Function.update_self]
      have read := readRange_writeRange_self (erasedSlots (newestBootable table memory).id
        table.slots memory cfg.bootloaderCtxId) 0 (splice (bootloaderCtx cfg memory) 127 [0])
      rw [clearedCtx_length] at read
      exact read
    have head : ((bootloaderCtx cfg memory).take 127).length = 127 := by
      rw [List.length_take, bootloaderCtx, readRange_length]
      rfl
    have cleared : (splice (bootloaderCtx cfg memory) 127 [0]).getD 127 0 = 0 := by
      rw [splice, List.append_assoc, List.getD_append_right _ _ _ _ (by rw [head]), head]
      rfl
    rw [stored, firstBoot, cleared]
    decide
  · rw [bootstrapped, if_neg first]
    exact Bool.eq_false_iff.mpr first

/-- What the slots hold when a first boot can be taken up. -/
theorem resumable_slots {memory memory' : Contents} (resumable : Resumable table cfg memory memory')
    {slot : MemSlot} (member : slot ∈ table.slots) :
    memory' slot.id = memory slot.id ∨ (slot.id ≠ (newestBootable table memory).id ∧
      memory' slot.id = invalidated (memory slot.id)) := by
  rcases resumable with ⟨_, erased⟩ | rfl
  · exact (erased slot.id).imp_right fun wiped => wiped.2
  · have erased := partlyErased_erasedSlots (newestBootable table memory).id table.slots memory
    unfold bootstrapped
    split
    · rw [Function.update_of_ne (apart slot member)]
      exact (erased slot.id).imp_right fun wiped => wiped.2
    · exact Or.inl rfl

omit apart in
theorem newestBootable_mem (memory : Contents) :
    ∃ slot ∈ table.slots, slot.id = (newestBootable table memory).id := by
  obtain ⟨slot, member, found⟩ := selectSlot_table_mem true true (versionAt memory) table 0 0
  refine ⟨slot, member, ?_⟩
  rw [show newestBootable table memory = slot.candidate _ from found]
  rfl

/-- The slot that is kept is left alone. -/
theorem resumable_keeps {memory memory' : Contents}
    (resumable : Resumable table cfg memory memory') :
    memory' (newestBootable table memory).id = memory (newestBootable table memory).id := by
  obtain ⟨slot, member, chosen⟩ := newestBootable_mem table memory
  rw [← chosen]
  exact (resumable_slots table cfg apart resumable member).resolve_right
    fun wiped => wiped.1 chosen

/-- **The choice is stable**: every start keeps the slot that the first one kept. -/
theorem resumable_newest (bootable : (table.slots.head table.nonempty).bootable = true)
    {memory memory' : Contents} (resumable : Resumable table cfg memory memory') :
    newestBootable table memory' = newestBootable table memory := by
  have same : ∀ {id : MemId}, memory' id = memory id → versionAt memory' id = versionAt memory id :=
    fun equal => versionAt_congr fun _ _ _ => by rw [equal]
  refine selectSlot_table_lowered (versionAt memory)
    (List.cons_head_tail table.nonempty).symm bootable 0 0 (fun slot member => ?_) ?_
  · rcases resumable_slots table cfg apart resumable member with equal | ⟨_, wiped⟩
    · exact le_of_eq (same equal)
    · rw [versionAt_invalidated wiped]
      exact Nat.zero_le _
  · exact same (resumable_keeps table cfg apart resumable)

/-- Taking the first boot up ends it as if it had never been cut off. -/
theorem resumable_bootstrapped (bootable : (table.slots.head table.nonempty).bootable = true)
    {memory memory' : Contents} (resumable : Resumable table cfg memory memory') :
    bootstrapped table cfg memory' = bootstrapped table cfg memory := by
  have newest := resumable_newest table cfg apart bootable resumable
  rcases resumable with ⟨first, partly⟩ | rfl
  · have stored : memory' cfg.bootloaderCtxId = memory cfg.bootloaderCtxId :=
      (partly cfg.bootloaderCtxId).resolve_right fun ⟨⟨slot, member, same⟩, _⟩ =>
        apart slot member same
    have context : bootloaderCtx cfg memory' = bootloaderCtx cfg memory := by
      rw [bootloaderCtx, stored, bootloaderCtx]
    rw [bootstrapped, bootstrapped, context, newest, partly.erasedSlots_eq, if_pos first,
      if_pos first]
  · rw [bootstrapped, firstBoot_bootstrapped, if_neg Bool.false_ne_true]

/-- One more cut changes nothing about that. -/
theorem resumable_cutOff (bootable : (table.slots.head table.nonempty).bootable = true)
    {memory memory' : Contents} (resumable : Resumable table cfg memory memory') (writes : Nat) :
    Resumable table cfg memory (cutOff table cfg writes memory') := by
  have newest := resumable_newest table cfg apart bootable resumable
  have ended := resumable_bootstrapped table cfg apart bootable resumable
  have cut := cutOff_cases table cfg apart writes memory'
  split at cut
  · rename_i first
    rcases cut with partly | done
    · rw [newest] at partly
      rcases resumable with ⟨flagged, before⟩ | rfl
      · exact Or.inl ⟨flagged, before.trans partly⟩
      · rw [firstBoot_bootstrapped] at first
        cases first
    · exact Or.inr (done.trans ended)
  · rw [cut]
    exact resumable

theorem resumable_restarted (bootable : (table.slots.head table.nonempty).bootable = true)
    {memory memory' : Contents} (resumable : Resumable table cfg memory memory')
    (cuts : List Nat) : Resumable table cfg memory (restarted table cfg cuts memory') := by
  induction cuts generalizing memory' with
  | nil => exact resumable
  | cons writes rest ih =>
      exact ih (resumable_cutOff table cfg apart bootable resumable writes)

/-- **First boot is idempotent under interruption**: after any sequence of cuts the same slot is
chosen and holds what it held, and the stage, once it completes, leaves the memory of one
uninterrupted run, which leaves that slot alone. -/
theorem firstBoot_resumes (bootable : (table.slots.head table.nonempty).bootable = true)
    (memory : Contents) (cuts : List Nat) :
    (getNewestFirmware flash table true 0 0 (restarted table cfg cuts memory)).2.1.id =
        (getNewestFirmware flash table true 0 0 memory).2.1.id ∧
      restarted table cfg cuts memory (getNewestFirmware flash table true 0 0 memory).2.1.id =
        memory (getNewestFirmware flash table true 0 0 memory).2.1.id ∧
      firstBootStage flash table cfg (restarted table cfg cuts memory) =
        firstBootStage flash table cfg memory ∧
      (firstBootStage flash table cfg memory).1 = none ∧
      (firstBootStage flash table cfg memory).2
          (getNewestFirmware flash table true 0 0 memory).2.1.id =
        memory (getNewestFirmware flash table true 0 0 memory).2.1.id := by
  have resumable := resumable_restarted table cfg apart bootable (resumable_refl table cfg memory)
    cuts
  have done : Resumable table cfg memory (bootstrapped table cfg memory) := Or.inr rfl
  rw [getNewestFirmware_flash, getNewestFirmware_flash, firstBootStage_flash table cfg apart,
    firstBootStage_flash table cfg apart]
  refine ⟨?_, resumable_keeps table cfg apart resumable, ?_, rfl,
    resumable_keeps table cfg apart done⟩
  · rw [resumable_newest table cfg apart bootable resumable]
  · rw [resumable_bootstrapped table cfg apart bootable resumable]

end Apart

end FirstBoot

/-- A device that has never booted: both slots hold version `1`, and the flag is set. -/
def neverBooted : Contents := fun id address =>
  if id = 4 then if address = 127 then 1 else 255
  else if address = 72 then 1 else 0

/-- Two cuts, one before and one behind the write to slot `2`. -/
theorem neverBooted_resumes :
    firstBoot (bootloaderCtx twoSlotsConfig neverBooted) = true ∧
      firstBootStage flash twoSlots twoSlotsConfig
          (restarted twoSlots twoSlotsConfig [0, 1] neverBooted) =
        firstBootStage flash twoSlots twoSlotsConfig neverBooted :=
  ⟨by decide, (firstBoot_resumes twoSlots twoSlotsConfig (by decide) (by decide) neverBooted
    [0, 1]).2.2.1⟩

end Upkit
