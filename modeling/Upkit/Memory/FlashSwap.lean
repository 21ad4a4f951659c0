/-
**Swapping two slots on flash.**

On flash a page is erased when its first byte is written. When a chunk of `swap_size` bytes ends
inside a page, the rest of that page is erased in both slots before the next round has saved it, and
what that round exchanges is `0xFF`.

* `swapChunk_paged` — `swap_chunk` is one `rewriting`, if its steps divide the page.
* `afterwards` — a slot after the rounds below an offset; `rewritten_afterwards` — one more round.
* `swapSlots_paged` — what the whole swap leaves in the two slots.
* `swapSlots_flash` — the slots are exchanged exactly when the bytes behind such a place are `0xFF`
  in both of them.
-/

import Upkit.Memory.Flash
import Upkit.Memory.Swap

namespace Upkit

open Bytes Pages

/-! ### `swap_chunk` on flash -/

/-- The objects with `size` bytes of `src` from `start` on rewritten to `dst` from `target` on. -/
def rewriting (page : Nat) (contents : Contents) (src : MemId) (start : Nat) (dst : MemId)
    (target size : Nat) : Contents :=
  Function.update contents dst
    (rewritten page (contents dst) target (readRange (contents src) start size))

section Rewriting

variable {page : Nat} (contents : Contents)

theorem rewriting_other {src dst id : MemId} (start target size : Nat) (other : id ≠ dst) :
    rewriting page contents src start dst target size id = contents id :=
  Function.update_of_ne other _ _

theorem rewriting_target (src dst : MemId) (start target size : Nat) :
    rewriting page contents src start dst target size dst =
      rewritten page (contents dst) target (readRange (contents src) start size) :=
  Function.update_self _ _ _

theorem rewriting_zero (src dst : MemId) (start target : Nat) :
    rewriting page contents src start dst target 0 = contents := by
  rw [rewriting, readRange, rewritten_nil, Function.update_eq_self]

theorem rewriting_add {src dst : MemId} (apart : src ≠ dst) (start target first second : Nat) :
    rewriting page (rewriting page contents src start dst target first) src (start + first) dst
        (target + first) second =
      rewriting page contents src start dst target (first + second) := by
  have joined := @rewritten_append page (contents dst) target
    (readRange (contents src) start first) (readRange (contents src) (start + first) second)
  rw [readRange_length, ← readRange_add] at joined
  rw [rewriting, rewriting_other contents start target first apart, rewriting_target, joined,
    rewriting, Function.update_idem]
  rfl

end Rewriting

section Chunk

variable {layout : FlashLayout} {space : Nat → UInt8} {contents : Contents} {src dst : MemObject}
  {swapSize bufferSize : Nat} {readSwap writeSwap : Bool}

/-- One round of the loop, of a piece that stays in one page. -/
theorem swapChunkLoop_pagedRound (sees : Sees layout space contents)
    {fuel swapFull offset step : Nat} {buffer : List UInt8} (piece : Nat)
    (mode : dst.mode = .sequentialRewrite) (more : swapFull < swapSize)
    (cutDown : (if swapSize < (sizeOfInt swapFull + step) % 2 ^ 64 then swapSize - swapFull
      else step) = piece)
    (positive : 0 < piece)
    (readable : (if readSwap then swapFull else offset) + piece ≤ layout.length src.id)
    (writable : (if writeSwap then swapFull else offset) + piece ≤ layout.length dst.id)
    (inPage : (if writeSwap then swapFull else offset) % layout.pageSize + piece ≤
      layout.pageSize) :
    ∃ buffer' space', swapChunkLoop (paged layout) src dst swapSize readSwap writeSwap (fuel + 1)
        swapFull offset step buffer space =
      swapChunkLoop (paged layout) src dst swapSize readSwap writeSwap fuel
        ((swapFull + piece) % 2 ^ 32) ((offset + piece) % 2 ^ 32) piece buffer' space' ∧
      Sees layout space' (rewriting layout.pageSize contents src.id
        (if readSwap then swapFull else offset) dst.id
        (if writeSwap then swapFull else offset) piece) := by
  obtain ⟨from_, source⟩ : ∃ from_, (if readSwap then swapFull else offset) = from_ := ⟨_, rfl⟩
  obtain ⟨target, goal⟩ : ∃ target, (if writeSwap then swapFull else offset) = target := ⟨_, rfl⟩
  rw [source] at readable ⊢
  rw [goal] at writable inPage ⊢
  have length : (readRange (contents src.id) from_ piece).length = piece := readRange_length _ _ _
  have data : (splice buffer 0 (readRange (contents src.id) from_ piece)).take piece =
      readRange (contents src.id) from_ piece := by
    rw [splice_zero, List.take_append_of_le_length (by simp), List.take_of_length_le (by simp)]
  obtain ⟨written, sees'⟩ := @paged_write_sees layout space contents sees dst
    (readRange (contents src.id) from_ piece) target mode
    (by rw [length]; exact writable) (by rw [length]; exact positive)
    (by rw [length]; exact inPage)
  refine ⟨splice buffer 0 (readRange (contents src.id) from_ piece), _, ?_, sees'⟩
  rw [swapChunkLoop, if_pos more]
  simp only [cutDown, source, goal, paged_read sees readable, data, written, length, ne_eq,
    not_true_eq_false, if_false]

/-- The loop rewrites what is left of the chunk: only its last step may be shorter than the
buffer. -/
theorem swapChunkLoop_paged (apart : src.id ≠ dst.id) (mode : dst.mode = .sequentialRewrite)
    (positive : 0 < bufferSize) (whole : bufferSize ∣ layout.pageSize) (small : swapSize ≤ 2 ^ 31)
    (fuel swapFull offset : Nat) (buffer : List UInt8) (space : Nat → UInt8) (contents : Contents)
    (sees : Sees layout space contents) (below : swapFull ≤ swapSize)
    (bufferSmall : bufferSize < 2 ^ 32)
    (aligned : bufferSize ∣ swapFull) (aligned' : bufferSize ∣ offset)
    (offsetSmall : offset + (swapSize - swapFull) ≤ 2 ^ 31)
    (readable : (if readSwap then swapFull else offset) + (swapSize - swapFull) ≤
      layout.length src.id)
    (writable : (if writeSwap then swapFull else offset) + (swapSize - swapFull) ≤
      layout.length dst.id)
    (enough : swapSize - swapFull < fuel) :
    ∃ buffer' space', swapChunkLoop (paged layout) src dst swapSize readSwap writeSwap fuel
        swapFull offset bufferSize buffer space = (.success, buffer', space') ∧
      Sees layout space' (rewriting layout.pageSize contents src.id
        (if readSwap then swapFull else offset) dst.id
        (if writeSwap then swapFull else offset) (swapSize - swapFull)) := by
  induction fuel generalizing swapFull offset buffer space contents with
  | zero => omega
  | succ fuel ih =>
      by_cases more : swapFull < swapSize
      · have cutDown := @cutDown_eq_min swapSize swapFull bufferSize (by omega) (by omega)
        have inPage : (if writeSwap then swapFull else offset) % layout.pageSize + bufferSize ≤
            layout.pageSize := by
          refine block_inPage layout.positive whole ?_
          split
          · exact aligned
          · exact aligned'
        obtain ⟨between, space', round, sees'⟩ := @swapChunkLoop_pagedRound layout space contents
          src dst swapSize readSwap writeSwap sees fuel swapFull offset bufferSize buffer _ mode
          more cutDown (by omega) (by omega) (by omega) (by omega)
        by_cases full : swapFull + bufferSize ≤ swapSize
        · have piece : min bufferSize (swapSize - swapFull) = bufferSize := by omega
          have next : (swapFull + bufferSize) % 2 ^ 32 = swapFull + bufferSize :=
            Nat.mod_eq_of_lt (by omega)
          have next' : (offset + bufferSize) % 2 ^ 32 = offset + bufferSize :=
            Nat.mod_eq_of_lt (by omega)
          have source : (if readSwap then swapFull + bufferSize else offset + bufferSize) =
              (if readSwap then swapFull else offset) + bufferSize := by
            split
            · rfl
            · rfl
          have target : (if writeSwap then swapFull + bufferSize else offset + bufferSize) =
              (if writeSwap then swapFull else offset) + bufferSize := by
            split
            · rfl
            · rfl
          have left : swapSize - swapFull =
              bufferSize + (swapSize - (swapFull + bufferSize)) := by omega
          rw [piece] at round sees'
          obtain ⟨buffer', space'', done, sees''⟩ := ih (swapFull + bufferSize)
            (offset + bufferSize) between space' _ sees' full
            (Nat.dvd_add aligned dvd_rfl) (Nat.dvd_add aligned' dvd_rfl) (by omega)
            (by rw [source]; omega) (by rw [target]; omega) (by omega)
          rw [source, target, rewriting_add contents apart, ← left] at sees''
          exact ⟨buffer', space'', by rw [round, next, next', done], sees''⟩
        · -- The step was cut down, so the loop ends.
          have piece : min bufferSize (swapSize - swapFull) = swapSize - swapFull := by omega
          have next : (swapFull + (swapSize - swapFull)) % 2 ^ 32 = swapSize := by
            rw [Nat.add_sub_cancel' below]
            exact Nat.mod_eq_of_lt (by omega)
          rw [piece] at round sees'
          refine ⟨between, space', ?_, sees'⟩
          rw [round, next]
          cases fuel with
          | zero => omega
          | succ fuel => rw [swapChunkLoop, if_neg (lt_irrefl _)]
      · have nothing : swapSize - swapFull = 0 := by omega
        refine ⟨buffer, space, ?_, ?_⟩
        · rw [swapChunkLoop, if_neg more]
        · rw [nothing, rewriting_zero]
          exact sees

/-- **`swap_chunk` on flash rewrites one range.** -/
theorem swapChunk_paged (sees : Sees layout space contents) (apart : src.id ≠ dst.id)
    (mode : dst.mode = .sequentialRewrite) (positive : 0 < bufferSize)
    (whole : bufferSize ∣ layout.pageSize) (bufferSmall : bufferSize < 2 ^ 32) {offset : Nat}
    (buffer : List UInt8) (aligned : bufferSize ∣ offset) (small : offset + swapSize ≤ 2 ^ 31)
    (readable : (if readSwap then 0 else offset) + swapSize ≤ layout.length src.id)
    (writable : (if writeSwap then 0 else offset) + swapSize ≤ layout.length dst.id) :
    ∃ buffer' space', swapChunk (paged layout) src dst offset swapSize buffer bufferSize readSwap
        writeSwap space = (.success, buffer', space') ∧
      Sees layout space' (rewriting layout.pageSize contents src.id
        (if readSwap then 0 else offset) dst.id (if writeSwap then 0 else offset) swapSize) :=
  swapChunkLoop_paged apart mode positive whole (by omega) loopFuel 0 offset buffer space contents
    sees (Nat.zero_le _) bufferSmall (Nat.dvd_zero _) aligned (by omega) (by omega) (by omega)
    (by unfold loopFuel; omega)

end Chunk

/-! ### `swap_slots` on flash -/

section Slots

variable {layout : FlashLayout} {space : Nat → UInt8} {contents : Contents}
  {obj1 obj2 objSwap : MemObject} {swapSize bufferSize : Nat}

/-- One round of the loop: each slot is rewritten with the piece of the other. -/
theorem swapSlotsLoop_pagedRound (sees : Sees layout space contents) (apart : obj2.id ≠ obj1.id)
    (apart1 : objSwap.id ≠ obj1.id) (apart2 : objSwap.id ≠ obj2.id)
    (mode1 : obj1.mode = .sequentialRewrite) (mode2 : obj2.mode = .sequentialRewrite)
    (modeSwap : objSwap.mode = .sequentialRewrite) (positive : 0 < bufferSize)
    (whole : bufferSize ∣ layout.pageSize) (bufferSmall : bufferSize < 2 ^ 32)
    {size fuel offset : Nat} {buffer : List UInt8} (piece : Nat) (more : offset < size)
    (cutDown : (if size < (sizeOfInt offset + swapSize) % 2 ^ 64 then size - offset
      else swapSize) = piece)
    (aligned : bufferSize ∣ offset) (small : offset + piece ≤ 2 ^ 31)
    (fits1 : offset + piece ≤ layout.length obj1.id)
    (fits2 : offset + piece ≤ layout.length obj2.id) (fitsSwap : piece ≤ layout.length objSwap.id) :
    ∃ buffer' space' contents',
      swapSlotsLoop (paged layout) obj1 obj2 objSwap size bufferSize (fuel + 1) offset swapSize
          buffer space =
        swapSlotsLoop (paged layout) obj1 obj2 objSwap size bufferSize fuel (offset + piece) piece
          buffer' space' ∧
      Sees layout space' contents' ∧
      contents' obj1.id = rewritten layout.pageSize (contents obj1.id) offset
        (readRange (contents obj2.id) offset piece) ∧
      contents' obj2.id = rewritten layout.pageSize (contents obj2.id) offset
        (readRange (contents obj1.id) offset piece) := by
  have narrow : piece % 2 ^ 32 = piece := Nat.mod_eq_of_lt (by omega)
  have next : (offset + piece) % 2 ^ 32 = offset + piece := Nat.mod_eq_of_lt (by omega)
  obtain ⟨buffer1, space1, first, sees1⟩ := @swapChunk_paged layout space contents obj1 objSwap
    piece bufferSize false true sees apart1.symm modeSwap positive whole bufferSmall offset buffer
    aligned small (by simpa using fits1) (by simpa using fitsSwap)
  obtain ⟨buffer2, space2, second, sees2⟩ := @swapChunk_paged layout space1 _ obj2 obj1 piece
    bufferSize false false sees1 apart mode1 positive whole bufferSmall offset buffer1 aligned
    small (by simpa using fits2) (by simpa using fits1)
  obtain ⟨buffer3, space3, third, sees3⟩ := @swapChunk_paged layout space2 _ objSwap obj2 piece
    bufferSize true false sees2 apart2 mode2 positive whole bufferSmall offset buffer2 aligned
    small (by simpa using fitsSwap) (by simpa using fits2)
  refine ⟨buffer3, space3, _, ?_, sees3, ?_, ?_⟩
  · rw [swapSlotsLoop, if_pos more]
    simp only [cutDown, narrow, next, first, second, third, ne_eq, not_true_eq_false, if_false]
  · simp only [Bool.false_eq_true, if_false, if_true]
    rw [rewriting_other _ _ _ _ apart.symm, rewriting_target, rewriting_other _ _ _ _ apart1.symm,
      rewriting_other _ _ _ _ apart2.symm]
  · -- What was parked begins with a page, so it stands there as it was read.
    have parked : readRange (rewritten layout.pageSize (contents objSwap.id) 0
        (readRange (contents obj1.id) offset piece)) 0 piece =
          readRange (contents obj1.id) offset piece := by
      refine List.ext_getElem (by simp) fun index inParked inRead => ?_
      rw [readRange_length] at inParked
      have left := readRange_getD (rewritten layout.pageSize (contents objSwap.id) 0
        (readRange (contents obj1.id) offset piece)) 0 piece index inParked
      rw [Nat.zero_add, rewritten_begun _ (Nat.zero_le _) (by simpa using inParked), Nat.sub_zero,
        List.getD_eq_getElem _ _ (by simpa using inParked), List.getD_eq_getElem _ _ inRead] at left
      exact left
    simp only [Bool.false_eq_true, if_false, if_true]
    rw [rewriting_target, rewriting_other _ _ _ _ apart, rewriting_other _ _ _ _ apart2.symm,
      rewriting_other _ _ _ _ apart1, rewriting_target, parked]

/-- A slot after the rounds below `offset`, when it held `own` and the other one `other`: a byte of
a page that begins in an earlier round was erased before it was saved. -/
def afterwards (page swapSize : Nat) (own other : Nat → UInt8) (offset : Nat) : Nat → UInt8 :=
  fun address =>
    if address < offset then
      if pageStart page address / swapSize = address / swapSize then other address else 255
    else if pageStart page address < offset then 255
    else own address

theorem afterwards_below {page : Nat} {own other : Nat → UInt8} {offset address : Nat}
    (done : address < offset) : afterwards page swapSize own other offset address =
      if pageStart page address / swapSize = address / swapSize then other address else 255 :=
  if_pos done

theorem afterwards_above {page : Nat} {own other : Nat → UInt8} {offset address : Nat}
    (ahead : ¬ address < offset) : afterwards page swapSize own other offset address =
      if pageStart page address < offset then 255 else own address :=
  if_neg ahead

theorem afterwards_zero (page swapSize : Nat) (own other : Nat → UInt8) :
    afterwards page swapSize own other 0 = own := by
  funext address
  rw [afterwards_above (Nat.not_lt_zero _), if_neg (Nat.not_lt_zero _)]

/-- **One more round.** -/
theorem rewritten_afterwards (page : Nat) (own other : Nat → UInt8) (positive : 0 < swapSize)
    (count : Nat) {piece : Nat} (short : piece ≤ swapSize) :
    rewritten page (afterwards page swapSize own other (count * swapSize)) (count * swapSize)
        (readRange (afterwards page swapSize other own (count * swapSize)) (count * swapSize)
          piece) =
      afterwards page swapSize own other (count * swapSize + piece) := by
  funext address
  have start := pageStart_le page address
  by_cases before : address < count * swapSize
  · rw [rewritten_kept _ (Or.inl before), afterwards_below before, afterwards_below (by omega)]
  · by_cases inside : address < count * swapSize + piece
    · have index : address / swapSize = count := by
        refine Nat.div_eq_of_lt_le (by omega) ?_
        rw [Nat.add_mul, Nat.one_mul]
        omega
      have byte : (readRange (afterwards page swapSize other own (count * swapSize))
          (count * swapSize) piece).getD (address - count * swapSize) 0 =
            if pageStart page address < count * swapSize then 255 else other address := by
        rw [readRange_getD _ _ _ _ (by omega), Nat.add_sub_cancel' (by omega),
          afterwards_above before]
      rw [afterwards_below inside, index]
      by_cases begun : pageStart page address < count * swapSize
      · have earlier : pageStart page address / swapSize ≠ count := by
          have less := (Nat.div_lt_iff_lt_mul positive).mpr begun
          omega
        rw [rewritten_tail _ (by omega) begun (by rw [readRange_length]; exact inside), byte,
          if_pos begun, if_neg earlier, afterwards_above before, if_pos begun]
        rfl
      · have same : pageStart page address / swapSize = count := by
          refine Nat.div_eq_of_lt_le (by omega) ?_
          rw [Nat.add_mul, Nat.one_mul]
          omega
        rw [rewritten_begun _ (by omega) (by rw [readRange_length]; exact inside), byte,
          if_neg begun, if_pos same]
    · rw [afterwards_above inside]
      by_cases erased : count * swapSize ≤ pageStart page address ∧
          pageStart page address < count * swapSize + piece
      · rw [rewritten_erased _ erased.1 (by rw [readRange_length]; exact erased.2)
          (by rw [readRange_length]; omega), if_pos erased.2]
      · rw [rewritten_kept _ (by rw [readRange_length]; omega), afterwards_above before]
        by_cases begun : pageStart page address < count * swapSize
        · rw [if_pos begun, if_pos (by omega)]
        · rw [if_neg begun, if_neg (by omega)]

/-- The loop, from the round `count` on. -/
theorem swapSlotsLoop_paged (first second : Nat → UInt8) {size : Nat} (apart : obj2.id ≠ obj1.id)
    (apart1 : objSwap.id ≠ obj1.id) (apart2 : objSwap.id ≠ obj2.id)
    (mode1 : obj1.mode = .sequentialRewrite) (mode2 : obj2.mode = .sequentialRewrite)
    (modeSwap : objSwap.mode = .sequentialRewrite) (bufferPositive : 0 < bufferSize)
    (whole : bufferSize ∣ layout.pageSize) (wholeSwap : bufferSize ∣ swapSize)
    (bufferSmall : bufferSize < 2 ^ 32) (positive : 0 < swapSize) (swapSmall : swapSize < 2 ^ 32)
    (small : size ≤ 2 ^ 31) (fits1 : size ≤ layout.length obj1.id)
    (fits2 : size ≤ layout.length obj2.id) (fitsSwap : swapSize ≤ layout.length objSwap.id)
    (fuel count : Nat) (buffer : List UInt8) (space : Nat → UInt8) (contents : Contents)
    (sees : Sees layout space contents) (enough : size - count * swapSize < fuel)
    (below : count * swapSize ≤ size)
    (holds1 : contents obj1.id =
      afterwards layout.pageSize swapSize first second (count * swapSize))
    (holds2 : contents obj2.id =
      afterwards layout.pageSize swapSize second first (count * swapSize)) :
    ∃ buffer' space' contents',
      swapSlotsLoop (paged layout) obj1 obj2 objSwap size bufferSize fuel (count * swapSize)
        swapSize buffer space = (.success, buffer', space') ∧
      Sees layout space' contents' ∧
      contents' obj1.id = afterwards layout.pageSize swapSize first second size ∧
      contents' obj2.id = afterwards layout.pageSize swapSize second first size := by
  induction fuel generalizing count buffer space contents with
  | zero => omega
  | succ fuel ih =>
      by_cases more : count * swapSize < size
      · have cutDown := @cutDown_eq_min size (count * swapSize) swapSize (by omega) (by omega)
        obtain ⟨between, space', contents', round, sees', stored1, stored2⟩ :=
          @swapSlotsLoop_pagedRound layout space contents obj1 obj2 objSwap swapSize bufferSize
            sees apart apart1 apart2 mode1 mode2 modeSwap bufferPositive whole bufferSmall size
            fuel (count * swapSize) buffer _ more cutDown (Dvd.dvd.mul_left wholeSwap count)
            (by omega) (by omega) (by omega) (by omega)
        have short : min swapSize (size - count * swapSize) ≤ swapSize := Nat.min_le_left _ _
        rw [holds1, holds2, rewritten_afterwards _ _ _ positive count short] at stored1 stored2
        rw [round]
        by_cases full : count * swapSize + swapSize ≤ size
        · have piece : min swapSize (size - count * swapSize) = swapSize := by omega
          have next : count * swapSize + swapSize = (count + 1) * swapSize := by
            rw [Nat.add_mul, Nat.one_mul]
          rw [piece, next] at stored1 stored2 ⊢
          exact ih (count + 1) between space' contents' sees' (by omega) (by omega) stored1 stored2
        · -- The last round was cut down, so the loop ends.
          have piece : count * swapSize + min swapSize (size - count * swapSize) = size := by omega
          rw [piece] at stored1 stored2 ⊢
          refine ⟨between, space', contents', ?_, sees', stored1, stored2⟩
          cases fuel with
          | zero => omega
          | succ fuel => rw [swapSlotsLoop, if_neg (lt_irrefl _)]
      · have done : count * swapSize = size := by omega
        rw [done] at holds1 holds2
        refine ⟨buffer, space, contents, ?_, sees, holds1, holds2⟩
        rw [swapSlotsLoop, if_neg more]

/-- The manifest stands at the beginning of the object, so its address does not wrap. -/
theorem readFirmwareManifest_paged (obj : MemObject) (space : Nat → UInt8) :
    readFirmwareManifest (paged layout) obj space =
      (.success, manifestAt (layout.view space) obj.id, space) := by
  have ordered := layout.ordered obj.id
  have small := layout.stop_lt obj.id
  have address : (layout.start obj.id + 0) % 2 ^ 32 = layout.start obj.id :=
    Nat.mod_eq_of_lt (by omega)
  have same : readRange space (layout.start obj.id) sizeofManifest =
      readRange (layout.view space obj.id) 0 sizeofManifest :=
    readRange_shift space (layout.start obj.id) 0 sizeofManifest
  rw [readFirmwareManifest]
  simp only [paged, address, same, ne_eq, not_true_eq_false, if_false]
  rfl

/-- What the swap leaves in the two slots. -/
theorem swapSlots_paged (apart : obj2.id ≠ obj1.id) (apart1 : objSwap.id ≠ obj1.id)
    (apart2 : objSwap.id ≠ obj2.id) (mode1 : obj1.mode = .sequentialRewrite)
    (mode2 : obj2.mode = .sequentialRewrite) (modeSwap : objSwap.mode = .sequentialRewrite)
    (positive : 0 < swapSize) (wholeSwap : bufferSize ∣ swapSize)
    (whole : bufferSize ∣ layout.pageSize) (fitsSwap : swapSize ≤ layout.length objSwap.id)
    (buffer : List UInt8) (space : Nat → UInt8)
    (fits1 : swapLength (layout.view space) obj1.id obj2.id ≤ layout.length obj1.id)
    (fits2 : swapLength (layout.view space) obj1.id obj2.id ≤ layout.length obj2.id) :
    ∃ buffer' space',
      swapSlots (paged layout) obj1 obj2 objSwap swapSize buffer bufferSize space =
        (.success, buffer', space') ∧
      ∀ address, address < swapLength (layout.view space) obj1.id obj2.id →
        layout.view space' obj1.id address =
          (if pageStart layout.pageSize address / swapSize = address / swapSize then
            layout.view space obj2.id address else 255) ∧
        layout.view space' obj2.id address =
          (if pageStart layout.pageSize address / swapSize = address / swapSize then
            layout.view space obj1.id address else 255) := by
  obtain ⟨size, extent⟩ : ∃ size, swapLength (layout.view space) obj1.id obj2.id = size := ⟨_, rfl⟩
  rw [extent] at fits1 fits2 ⊢
  -- The objects share an address space of 32 bits, so neither takes up more than half of it.
  have small : size ≤ 2 ^ 31 := by
    have end1 := layout.stop_lt obj1.id
    have end2 := layout.stop_lt obj2.id
    have length1 : layout.length obj1.id = layout.stop obj1.id - layout.start obj1.id := rfl
    have length2 : layout.length obj2.id = layout.stop obj2.id - layout.start obj2.id := rfl
    have disjoint := layout.apart obj2.id obj1.id apart
    omega
  have swapSmall : swapSize < 2 ^ 32 := by
    have endSwap := layout.stop_lt objSwap.id
    have length : layout.length objSwap.id = layout.stop objSwap.id - layout.start objSwap.id := rfl
    omega
  have bufferPositive : 0 < bufferSize := Nat.pos_of_dvd_of_pos wholeSwap positive
  have bufferSmall : bufferSize ≤ swapSize := Nat.le_of_dvd positive wholeSwap
  obtain ⟨buffer', space', contents', ran, sees, holds1, holds2⟩ := swapSlotsLoop_paged
    (layout.view space obj1.id) (layout.view space obj2.id) apart apart1 apart2 mode1 mode2
    modeSwap bufferPositive whole wholeSwap (by omega) positive swapSmall small fits1 fits2
    fitsSwap loopFuel 0 buffer space (layout.view space)
    (sees_view layout space) (by unfold loopFuel; omega) (by omega)
    (by rw [Nat.zero_mul, afterwards_zero]) (by rw [Nat.zero_mul, afterwards_zero])
  rw [Nat.zero_mul] at ran
  refine ⟨buffer', space', ?_, fun address inside => ⟨?_, ?_⟩⟩
  · rw [swapSlots, readFirmwareManifest_paged]
    simp only [readFirmwareManifest_paged, ne_eq, not_true_eq_false, if_false, swapLength_eq_ite,
      extent]
    exact ran
  · rw [sees obj1.id address (by omega), holds1, afterwards_below inside]
  · rw [sees obj2.id address (by omega), holds2, afterwards_below inside]

end Slots

/-! ### When the slots are exchanged -/

/-- **Swapping on flash** exchanges the slots exactly when every byte of a page that begins in an
earlier chunk is `0xFF` in both. -/
theorem swapSlots_flash (layout : FlashLayout) {obj1 obj2 objSwap : MemObject}
    {swapSize bufferSize : Nat} (apart : obj2.id ≠ obj1.id) (apart1 : objSwap.id ≠ obj1.id)
    (apart2 : objSwap.id ≠ obj2.id) (mode1 : obj1.mode = .sequentialRewrite)
    (mode2 : obj2.mode = .sequentialRewrite) (modeSwap : objSwap.mode = .sequentialRewrite)
    (longer : bufferSize < swapSize) (wholeSwap : bufferSize ∣ swapSize)
    (whole : bufferSize ∣ layout.pageSize)
    (fitsSwap : max layout.pageSize swapSize ≤ layout.length objSwap.id)
    (buffer : List UInt8) (space : Nat → UInt8)
    (fits1 : swapLength (layout.view space) obj1.id obj2.id ≤ layout.length obj1.id)
    (fits2 : swapLength (layout.view space) obj1.id obj2.id ≤ layout.length obj2.id) :
    ∃ buffer' space',
      swapSlots (paged layout) obj1 obj2 objSwap swapSize buffer bufferSize space =
        (.success, buffer', space') ∧
      (Exchanged (layout.view space) (layout.view space') obj1.id obj2.id
          (swapLength (layout.view space) obj1.id obj2.id) ↔
        ∀ address, address < swapLength (layout.view space) obj1.id obj2.id →
          pageStart layout.pageSize address / swapSize ≠ address / swapSize →
          layout.view space obj1.id address = 255 ∧ layout.view space obj2.id address = 255) := by
  obtain ⟨buffer', space', ran, left⟩ := swapSlots_paged apart apart1 apart2 mode1 mode2 modeSwap
    (by omega) wholeSwap whole (by omega) buffer space fits1 fits2
  refine ⟨buffer', space', ran, ?_, ?_⟩
  · intro exchanged address inside crosses
    obtain ⟨now1, now2⟩ := left address inside
    obtain ⟨taken1, taken2⟩ := exchanged address inside
    rw [if_neg crosses] at now1 now2
    exact ⟨taken2.symm.trans now2, taken1.symm.trans now1⟩
  · intro blank address inside
    obtain ⟨now1, now2⟩ := left address inside
    by_cases crosses : pageStart layout.pageSize address / swapSize = address / swapSize
    · rw [if_pos crosses] at now1 now2
      exact ⟨now1, now2⟩
    · obtain ⟨blank1, blank2⟩ := blank address inside crosses
      rw [if_neg crosses] at now1 now2
      exact ⟨now1.trans blank2.symm, now2.trans blank1.symm⟩

/-- The beginnings and the ends of `flash_objects` on the nRF52840: the bootloader, its context,
two slots of 100 pages and a swap area of one page. -/
def nrf52840Start (id : Int) : Nat :=
  if id = 1 then 0x8000 else if id = 2 then 0x9000 else if id = 3 then 0x6d000
  else if id = 4 then 0xd1000 else 0

def nrf52840Stop (id : Int) : Nat :=
  if id = 0 then 0x8000 else if id = 1 then 0x9000 else if id = 2 then 0x6d000
  else if id = 3 then 0xd1000 else if id = 4 then 0xd2000 else 0

theorem nrf52840_aligned (id : Int) : 0x1000 ∣ nrf52840Start id ∧ 0x1000 ∣ nrf52840Stop id := by
  unfold nrf52840Start nrf52840Stop
  split_ifs <;> decide

theorem nrf52840_within (id : Int) :
    nrf52840Start id ≤ nrf52840Stop id ∧ nrf52840Stop id < 2 ^ 32 := by
  unfold nrf52840Start nrf52840Stop
  split_ifs <;> omega

theorem nrf52840_apart (id other : Int) (differ : id ≠ other) :
    nrf52840Stop id ≤ nrf52840Start other ∨ nrf52840Stop other ≤ nrf52840Start id := by
  unfold nrf52840Start nrf52840Stop
  split_ifs <;> omega

theorem nrf52840_page : 0 < 0x1000 := by decide

def nrf52840 : FlashLayout where
  pageSize := 0x1000
  start := nrf52840Start
  stop := nrf52840Stop
  positive := nrf52840_page
  start_aligned := fun id => (nrf52840_aligned id).1
  stop_aligned := fun id => (nrf52840_aligned id).2
  ordered := fun id => (nrf52840_within id).1
  stop_lt := fun id => (nrf52840_within id).2
  apart := nrf52840_apart

/-- Slots of zeroes, the first with a manifest that announces a firmware of a page. -/
def zeroImages : Nat → UInt8 := fun address => if address = 0x9041 then 16 else 0

theorem zeroImages_length : swapLength (nrf52840.view zeroImages) 2 3 = 4096 := by
  decide +kernel

/-- With a swap size of a whole page the slots are exchanged. -/
theorem pageSwap_exchanges : ∃ buffer' space',
    swapSlots (paged nrf52840) ⟨2, .sequentialRewrite⟩ ⟨3, .sequentialRewrite⟩
        ⟨4, .sequentialRewrite⟩ 4096 (List.replicate 1024 0) 1024 zeroImages =
      (.success, buffer', space') ∧
    Exchanged (nrf52840.view zeroImages) (nrf52840.view space') 2 3
      (swapLength (nrf52840.view zeroImages) 2 3) := by
  obtain ⟨buffer', space', ran, exchanged⟩ := @swapSlots_flash nrf52840 ⟨2, .sequentialRewrite⟩
    ⟨3, .sequentialRewrite⟩ ⟨4, .sequentialRewrite⟩ 4096 1024
    (by decide) (by decide) (by decide) rfl rfl rfl (by decide) (by decide) (by decide) (by decide)
    (List.replicate 1024 0) zeroImages (by rw [zeroImages_length]; decide)
    (by rw [zeroImages_length]; decide)
  refine ⟨buffer', space', ran, exchanged.mpr ?_⟩
  intro address _ crosses
  refine absurd ?_ crosses
  show address / 4096 * 4096 / 4096 = address / 4096
  omega

/-- With the shipped swap size of half a page, the second half of a page is lost in both slots. -/
theorem halfPageSwap_loses : ∃ buffer' space',
    swapSlots (paged nrf52840) ⟨2, .sequentialRewrite⟩ ⟨3, .sequentialRewrite⟩
        ⟨4, .sequentialRewrite⟩ 2048 (List.replicate 1024 0) 1024 zeroImages =
      (.success, buffer', space') ∧
    ¬ Exchanged (nrf52840.view zeroImages) (nrf52840.view space') 2 3
      (swapLength (nrf52840.view zeroImages) 2 3) := by
  obtain ⟨buffer', space', ran, left⟩ := @swapSlots_paged nrf52840 ⟨2, .sequentialRewrite⟩
    ⟨3, .sequentialRewrite⟩ ⟨4, .sequentialRewrite⟩ 2048 1024
    (by decide) (by decide) (by decide) rfl rfl rfl (by decide) (by decide) (by decide) (by decide)
    (List.replicate 1024 0) zeroImages (by rw [zeroImages_length]; decide)
    (by rw [zeroImages_length]; decide)
  refine ⟨buffer', space', ran, fun exchanged => ?_⟩
  have inside : 2048 < swapLength (nrf52840.view zeroImages) 2 3 := by
    rw [zeroImages_length]
    decide
  have now := (left 2048 inside).1
  rw [(exchanged 2048 inside).1, if_neg (by decide)] at now
  exact absurd now (by decide)

end Upkit
