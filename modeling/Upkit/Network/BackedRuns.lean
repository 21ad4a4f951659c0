/-
**The state machine on flash.**

On a memory that passes for a plain one the state machine cannot tell the difference, if what it
accepts fits in the slots: it erases the slot it has chosen, writes it from the first byte on, each
byte once, and reads back only what lies in it.

* `AcceptsFit`, `RunFits` — a call, and a run, that accepts no manifest but those of images that fit
  in the slots; `Downloaded.runFits` — the calls that bring a release that does.
* `Prepared` — a state machine that writes to no slot, or to one that is erased behind what it has
  written.
* `fsm_backed` — one call answers as on the plain memory, and leaves what is seen as the plain memory
  it leaves there; `replies_backed`, `deliver_backed` — any number of calls do.
-/

import Upkit.Memory.Backed
import Upkit.Network.BoundedDelivery

namespace Upkit

open Bytes Blocks

/-! ### The sink -/

/-- Behind what a sink has handed down it is erased, if its object was erased to begin with. -/
theorem sinkOf_blank {layout : PlainLayout} {obj : MemObject} {start : Contents}
    (erased : ∀ address, layout.erased = some (start obj.id address)) (fed : List UInt8)
    (index : Nat) : layout.erased =
      some ((sinkOf obj start fed).2.2 obj.id ((sinkOf obj start fed).2.1.written + index)) := by
  simp only [sinkOf, Function.update_self]
  rw [writeRange_outside _ (by rw [Nat.zero_add]; omega)]
  exact erased _

section Sink

variable {σ : Type} {M : MemoryInterface σ} {layout : PlainLayout} {sees : σ → Contents → Prop}
  (backs : Backs M layout sees) {obj : MemObject} (mode : obj.mode = .writeAll)

include backs mode

/-- The writer on an erased range. -/
theorem writerPipeline_backed {chunk : List UInt8} {written : Nat} {space : σ}
    {contents : Contents} (fits : written + chunk.length ≤ layout.limit obj.id)
    (blank : ∀ index < chunk.length, layout.erased = some (contents obj.id (written + index)))
    (seen : sees space contents) :
    ∃ space', writerPipeline M chunk (⟨obj, written⟩, space) =
        ((chunk.length : Int), ⟨obj, written + chunk.length⟩, space') ∧
      sees space'
        (Function.update contents obj.id (writeRange (contents obj.id) written chunk)) := by
  have small := layout.limit_lt obj.id
  have offset : wrap32 ((written : Int) + (chunk.length : Int)) = written + chunk.length := by
    rw [← Int.natCast_add]
    exact wrap32_natCast (by omega)
  obtain ⟨space', wrote, seen'⟩ := backs.writes seen mode fits blank
  refine ⟨space', ?_, seen'⟩
  rw [writerPipeline, wrote]
  simp only [offset]

/-- Blocks that are handed down one behind the other to where it is erased. -/
theorem handDown_backed (blocks : List (List UInt8)) {written : Nat} {space : σ}
    {contents : Contents} (fits : written + blocks.flatten.length ≤ layout.limit obj.id)
    (blank : ∀ index < blocks.flatten.length,
      layout.erased = some (contents obj.id (written + index))) (seen : sees space contents) :
    ∃ space', handDown (writerPipeline M) blocks (⟨obj, written⟩, space) =
        (⟨obj, written + blocks.flatten.length⟩, space') ∧
      sees space' (Function.update contents obj.id
        (writeRange (contents obj.id) written blocks.flatten)) := by
  induction blocks generalizing written space contents with
  | nil =>
      refine ⟨space, rfl, ?_⟩
      rw [List.flatten_nil, writeRange_nil, Function.update_eq_self]
      exact seen
  | cons block blocks ih =>
      rw [List.flatten_cons, List.length_append] at fits blank
      obtain ⟨between, wrote, seen⟩ := @writerPipeline_backed σ M layout sees backs obj mode block
        written space contents (by omega) (fun index below => blank index (by omega)) seen
      obtain ⟨space', rest, seen'⟩ := @ih (written + block.length) _ _ (by omega) (by
        intro index below
        rw [Function.update_self, writeRange_outside _ (Or.inr (Nat.le_add_right _ _)),
          Nat.add_assoc]
        exact blank _ (by omega)) seen
      refine ⟨space', ?_, ?_⟩
      · rw [handDown_cons, wrote, rest, List.flatten_cons, List.length_append, Nat.add_assoc]
      · rw [Function.update_self, writeRange_append, Function.update_idem] at seen'
        rw [List.flatten_cons]
        exact seen'

variable {start : Contents} (erased : ∀ address, layout.erased = some (start obj.id address))

include erased

/-- **Feeding a sink** that began on an erased object. -/
theorem feedSink_backed {space : σ} {fed data : List UInt8}
    (fits : (fed ++ data).length ≤ layout.limit obj.id)
    (seen : sees space (sinkOf obj start fed).2.2) :
    ∃ space', feedSink M data ((sinkOf obj start fed).1, (sinkOf obj start fed).2.1, space) =
        ((sinkOf obj start (fed ++ data)).1, (sinkOf obj start (fed ++ data)).2.1, space') ∧
      sees space' (sinkOf obj start (fed ++ data)).2.2 := by
  have bound := fullBlocks_flatten_length_le bufferLen_pos (fed ++ data)
  have blocks := fullBlocks_append bufferLen_pos fed data
  rw [blocks, List.flatten_append, List.length_append] at bound
  obtain ⟨space', handed, seen'⟩ := @handDown_backed σ M layout sees backs obj mode
    (fullBlocks bufferLen (heldBack bufferLen fed ++ data)) (fullBlocks bufferLen fed).flatten.length
    space (sinkOf obj start fed).2.2 (by omega)
    (fun index _ => sinkOf_blank erased fed index) seen
  have plain := sink_feed layout obj start fed data fits
  refine ⟨space', ?_, ?_⟩
  · rw [feedSink, sinkPipeline]
    simp only [sinkOf]
    rw [bufferPipeline_eq _ _ _ _ (heldBack_length_le bufferLen_pos fed), handed, blocks,
      heldBack_append bufferLen_pos fed data, List.flatten_append, List.length_append]
  · have stored : (sinkOf obj start (fed ++ data)).2.2 = Function.update (sinkOf obj start fed).2.2
        obj.id (writeRange ((sinkOf obj start fed).2.2 obj.id)
          (fullBlocks bufferLen fed).flatten.length
          (fullBlocks bufferLen (heldBack bufferLen fed ++ data)).flatten) := by
      simp only [sinkOf, Function.update_self, Function.update_idem]
      rw [blocks, List.flatten_append, ← writeRange_append, Nat.zero_add]
    rw [stored]
    exact seen'

/-- **Clearing a sink** that began on an erased object. -/
theorem bufferClear_backed {space : σ} {fed : List UInt8}
    (fits : fed.length ≤ layout.limit obj.id) (seen : sees space (sinkOf obj start fed).2.2) :
    let cleared := pipelineBufferClear (writerPipeline (plain layout)) (sinkOf obj start fed)
    ∃ space', pipelineBufferClear (writerPipeline M)
        ((sinkOf obj start fed).1, (sinkOf obj start fed).2.1, space) =
          (cleared.1, cleared.2.1, cleared.2.2.1, space') ∧ sees space' cleared.2.2.2 := by
  have whole := congrArg List.length (fullBlocks_flatten_append bufferLen_pos fed)
  rw [List.length_append] at whole
  have room : (fullBlocks bufferLen fed).flatten.length + (heldBack bufferLen fed).length ≤
      layout.limit obj.id := by omega
  obtain ⟨space', wrote, seen'⟩ := @writerPipeline_backed σ M layout sees backs obj mode
    (heldBack bufferLen fed) (fullBlocks bufferLen fed).flatten.length space
    (sinkOf obj start fed).2.2 room (fun index _ => sinkOf_blank erased fed index) seen
  have plain := writerPipeline_plain layout obj (heldBack bufferLen fed)
    (fullBlocks bufferLen fed).flatten.length (sinkOf obj start fed).2.2 room
  refine ⟨space', ?_, ?_⟩
  · simp only [pipelineBufferClear, sinkOf] at wrote plain ⊢
    rw [wrote, plain]
  · simp only [pipelineBufferClear, sinkOf] at plain seen' ⊢
    rw [plain]
    exact seen'

end Sink

/-! ### The calls -/

/-- Slots that hold a manifest and end a buffer below the range of `address_t`. -/
structure SlotsHold (table : SlotTable) (layout : PlainLayout) : Prop where
  manifests : ∀ slot ∈ table.slots, sizeofManifest ≤ layout.limit slot.id
  narrow : ∀ slot ∈ table.slots, layout.limit slot.id + fsmBufferSize ≤ 2 ^ 32

/-- The manifest of an image that fits in every slot: a firmware that is no shorter than the static
buffer, and no more bytes announced than a slot has. -/
structure FitsSlots (table : SlotTable) (layout : PlainLayout) (mt : Manifest) : Prop where
  fills : fsmBufferSize ≤ mt.getSize
  inside : ∀ slot ∈ table.slots, mt.getOffset + mt.getSize ≤ layout.limit slot.id
  announces : ∀ slot ∈ table.slots, mt.announced ≤ layout.limit slot.id

theorem FitsSlots.full {table : SlotTable} {layout : PlainLayout} {mt : Manifest}
    (fits : FitsSlots table layout mt) : FitsSlots table layout mt.full := by
  have size : mt.full.getSize = mt.getSize := by
    rw [Manifest.getSize, Manifest.getSize, mt.full_get (by decide)]
  have offset : mt.full.getOffset = mt.getOffset := by
    rw [Manifest.getOffset, Manifest.getOffset, mt.full_get (by decide)]
  refine ⟨?_, ?_, ?_⟩
  · rw [size]
    exact fits.fills
  · rw [size, offset]
    exact fits.inside
  · rw [Manifest.full_announced]
    exact fits.announces

/-- If a call completes a manifest that passes, its image fits in the slots, and so does what the
session has brought. -/
def AcceptsFit (crypto : Crypto) (sf : Safestore) (table : SlotTable) (layout : PlainLayout)
    (input : FsmInput) (ctx : FsmCtx) : Prop :=
  ctx.state = .receiveManifest → ctx.processed ≤ sizeofManifest →
    sizeofManifest ≤ ctx.processed + input.buf.data.length →
    Accepted crypto sf ctx.version (ctx.collected input.buf.data).scratch.mt →
      FitsSlots table layout (ctx.collected input.buf.data).scratch.mt ∧
        ∀ slot ∈ table.slots, ctx.processed + input.buf.data.length ≤ layout.limit slot.id

/-- Only a call that collects a manifest can complete one. -/
theorem acceptsFit_of_state {crypto : Crypto} {sf : Safestore} {table : SlotTable}
    {layout : PlainLayout} (input : FsmInput) {ctx : FsmCtx} (other : ctx.state ≠ .receiveManifest) :
    AcceptsFit crypto sf table layout input ctx :=
  fun collects => absurd collects other

/-- A state machine that writes to no slot, or to one that was erased, with as much to come as the
slot has room for, and with the manifest of an image that fits. -/
inductive Prepared (table : SlotTable) (layout : PlainLayout) (ctx : FsmCtx) (contents : Contents) :
    Prop
  | rests : Resting ctx → Prepared table layout ctx contents
  | armed {start : Contents} {fed : List UInt8} {slot : MemSlot} : Armed ctx contents start fed →
      slot ∈ table.slots → slot.id = ctx.id →
      (∀ address, layout.erased = some (start ctx.id address)) →
      fed.length ≤ layout.limit ctx.id → ctx.expected ≤ layout.limit ctx.id →
      sizeofManifest ≤ fed.length → FitsSlots table layout (Manifest.ofBytes fed) →
      Prepared table layout ctx contents

/-- The calls before a manifest have nothing to do with the memory. -/
theorem fsm_early_any {σ τ : Type} (M : MemoryInterface σ) (N : MemoryInterface τ) (crypto : Crypto)
    (table : SlotTable) (sf : Safestore) (input : FsmInput) {ctx : FsmCtx} (space : σ) (memory : τ)
    (early : ctx.state = .clean ∨ ctx.state = .idle ∨ ctx.state = .startUpdate) :
    let answer := fsm N crypto table sf input ctx memory
    fsm M crypto table sf input ctx space = ⟨answer.err, answer.buf, answer.ctx, space⟩ := by
  have idles : ∀ ctx : FsmCtx, fsmIdle input.buf.data ctx space =
      ((fsmIdle input.buf.data ctx memory).1, (fsmIdle input.buf.data ctx memory).2.1, space) := by
    intro ctx
    unfold fsmIdle
    split
    · rfl
    · split
      · rfl
      · rfl
  unfold fsm
  rcases early with state | state | state
  · simp only [state, fsmClean, keepBuf, idles]
  · simp only [state, keepBuf, idles]
  · simp only [state]
    unfold fsmStartUpdate
    split
    · rfl
    · split
      · rfl
      · rfl

/-- The manifest of an object that is written from its first byte on. -/
theorem manifestAt_written (memory : Contents) (id : MemId) {data : List UInt8}
    (enough : sizeofManifest ≤ data.length) :
    manifestAt (Function.update memory id (writeRange (memory id) 0 data)) id =
      Manifest.ofBytes data := by
  apply Manifest.ext
  rw [manifestAt_bytes, Function.update_self,
    readRange_writeRange_inside _ (by rw [Nat.zero_add]; exact enough),
    Manifest.ofBytes_bytes enough]
  rfl

/-- A verification is followed by no write. -/
theorem fsmVerifyFirmware_resting {σ : Type} (M : MemoryInterface σ) (crypto : Crypto)
    (sf : Safestore) (ctx : FsmCtx) (memory : σ) :
    Resting (fsmVerifyFirmware M crypto sf ctx memory).2.1 := by
  unfold fsmVerifyFirmware
  simp only
  split
  · exact @Resting.of_state _ .idle rfl (by decide)
  · exact @Resting.of_state _ .reboot rfl (by decide)

section Calls

variable {σ : Type} {M : MemoryInterface σ} {layout : PlainLayout} {sees : σ → Contents → Prop}
  (backs : Backs M layout sees) {crypto : Crypto} {table : SlotTable} {sf : Safestore}
  (hold : SlotsHold table layout)

include backs hold

/-- **The verification** of a slot whose manifest is that of an image that fits. -/
theorem fsmVerifyFirmware_backed {ctx : FsmCtx} {slot : MemSlot} (member : slot ∈ table.slots)
    (isSlot : slot.id = ctx.id) {space : σ} {contents : Contents}
    (image : FitsSlots table layout (manifestAt contents ctx.id)) (seen : sees space contents) :
    let answer := fsmVerifyFirmware (plain layout) crypto sf ctx contents
    ∃ space', fsmVerifyFirmware M crypto sf ctx space = (answer.1, answer.2.1, space') ∧
      sees space' answer.2.2 := by
  have manifest := hold.manifests slot member
  have narrow := hold.narrow slot member
  rw [isSlot] at manifest narrow
  obtain ⟨opened, isOpened, seen⟩ := backs.opens ctx.id .readOnly seen
  rw [plain_open layout contents (by decide)] at seen
  obtain ⟨verified, isVerified, seen⟩ := @verifyObject_backed σ M layout sees backs _ _ crypto sf
    ⟨ctx.id, .readOnly⟩ fsmBufferSize ctx.scratch.bytes manifest narrow
    (fun _ => ⟨image.fills, isSlot ▸ image.inside slot member⟩) seen
  obtain ⟨closed, isClosed, seen⟩ := backs.closes ⟨ctx.id, .readOnly⟩ seen
  have kept := verifyObject_memory layout crypto ⟨ctx.id, .readOnly⟩ sf ctx.scratch.bytes
    fsmBufferSize contents manifest
  intro answer
  simp only [answer, fsmVerifyFirmware, isOpened, isVerified, isClosed,
    plain_open layout contents (show MemMode.readOnly ≠ .writeAll by decide), plain_close, kept]
  split
  · exact ⟨closed, rfl, seen⟩
  · exact ⟨closed, rfl, seen⟩

/-- **A chunk of firmware** for a slot that is prepared. -/
theorem fsmReceiveFirmware_backed {ctx : FsmCtx} {contents start : Contents} {fed : List UInt8}
    (session : Armed ctx contents start fed) {slot : MemSlot} (member : slot ∈ table.slots)
    (isSlot : slot.id = ctx.id)
    (erased : ∀ address, layout.erased = some (start ctx.id address))
    (room : ctx.expected ≤ layout.limit ctx.id) (enough : sizeofManifest ≤ fed.length)
    (image : FitsSlots table layout (Manifest.ofBytes fed)) (data : List UInt8) {space : σ}
    (seen : sees space contents) :
    let answer := fsmReceiveFirmware (plain layout) crypto sf data ctx contents
    ∃ space', fsmReceiveFirmware M crypto sf data ctx space = (answer.1, answer.2.1, space') ∧
      sees space' answer.2.2 ∧ Prepared table layout answer.2.1 answer.2.2 := by
  have buffer : ctx.bufferCtx = (sinkOf (slotObject ctx.id) start fed).1 :=
    congrArg Prod.fst session.sink
  have writer : ctx.writerCtx = (sinkOf (slotObject ctx.id) start fed).2.1 :=
    congrArg (fun sink => sink.2.1) session.sink
  have memory : contents = (sinkOf (slotObject ctx.id) start fed).2.2 :=
    congrArg (fun sink => sink.2.2) session.sink
  intro answer
  simp only [answer, fsmReceiveFirmware, fsmReceiveData_eq _ _ _ _ session.pipeline]
  by_cases long : ctx.expected < ctx.processed + data.length
  · simp only [if_pos long]
    exact ⟨space, rfl, seen, .rests (@Resting.of_state _ .clean rfl (by decide))⟩
  have bound : (fed ++ data).length ≤ layout.limit (slotObject ctx.id).id := by
    rw [List.length_append, ← session.processed]
    exact le_trans (not_lt.mp long) room
  rw [memory] at seen
  obtain ⟨fedSpace, isFed, seen⟩ := @feedSink_backed σ M layout sees backs (slotObject ctx.id) rfl
    start erased space fed data bound seen
  have isPlain := feedSink_layout layout (slotObject ctx.id) start fed data bound
  rw [← buffer, ← writer] at isFed
  rw [← session.sink] at isPlain
  have session' := session.received (not_lt.mp long)
  have enough' : sizeofManifest ≤ (fed ++ data).length := by
    rw [List.length_append]
    omega
  have image' : FitsSlots table layout (Manifest.ofBytes (fed ++ data)) := by
    rw [Manifest.ofBytes_append enough]
    exact image
  by_cases more : ctx.processed + data.length ≠ ctx.expected
  · simp only [if_neg long, if_pos more, isFed, isPlain]
    exact ⟨fedSpace, rfl, seen, .armed session' member isSlot erased bound room enough' image'⟩
  · obtain ⟨cleared, isCleared, seen⟩ := @bufferClear_backed σ M layout sees backs
      (slotObject ctx.id) rfl start erased fedSpace (fed ++ data) bound seen
    obtain ⟨closed, isClosed, seen⟩ := backs.closes ctx.obj seen
    simp only [if_neg long, if_neg more, isFed, isPlain, isCleared, isClosed, plain_close]
    -- The manifest in the slot is the one at the beginning of what has been fed.
    have held : manifestAt (pipelineBufferClear (writerPipeline (plain layout))
        (sinkOf (slotObject ctx.id) start (fed ++ data))).2.2.2 ctx.id =
          Manifest.ofBytes (fed ++ data) := by
      rw [sink_clear layout (slotObject ctx.id) start (fed ++ data) bound]
      exact manifestAt_written start ctx.id enough'
    obtain ⟨verified, isVerified, seen⟩ := @fsmVerifyFirmware_backed σ M layout sees backs crypto
      table sf hold (ctx.completed data (pipelineBufferClear (writerPipeline (plain layout))
        (sinkOf (slotObject ctx.id) start (fed ++ data))).2) slot member isSlot closed _
      (held ▸ image') seen
    exact ⟨verified, isVerified, seen, .rests (fsmVerifyFirmware_resting _ _ _ _ _)⟩

/-- **Arming the oldest slot** for a manifest that passes and what came with it. -/
theorem fsmArm_backed {value : UInt8} (erases : layout.erased = some value) {ctx : FsmCtx}
    (full : ctx.pipeline = .buffer) (fresh : ctx.bufferCtx = pipelineBufferInit)
    (processed : ctx.processed = sizeofManifest)
    (image : FitsSlots table layout ctx.scratch.mt) {rest : List UInt8}
    (room : ∀ slot ∈ table.slots, sizeofManifest + rest.length ≤ layout.limit slot.id)
    (short : rest.length < 2 ^ 31) {space : σ} {contents : Contents} (seen : sees space contents) :
    let answer := fsmArm (plain layout) table rest ctx contents
    ∃ space', fsmArm M table rest ctx space = (answer.1, answer.2.1, space') ∧
      sees space' answer.2.2 ∧ Prepared table layout answer.2.1 answer.2.2 := by
  obtain ⟨slot, member, isOldest⟩ := oldestSlot_mem table contents
  have fits := room slot member
  have session := armed_begin layout.erased table ctx contents full short processed
  rw [isOldest] at fits
  have isPlain := fsmArm_layout layout table rest ctx contents full fresh hold.manifests fits
  obtain ⟨scanned, found, seen⟩ := getOrderedFirmware_backed backs table false false ctx.id 0
    hold.manifests seen
  rw [selectSlot_table_congr _ _ _ table ctx.id 0 0 0] at found
  have isScanned : getOldestFirmware M table false ctx.id 0 space =
      (.success, oldestSlot table contents, scanned) := found
  obtain ⟨opened', isOpened, seen⟩ := backs.opens (oldestSlot table contents).id .writeAll seen
  rw [plain_open_writeAll] at seen
  have manifest : (([] : List UInt8) ++ ctx.scratch.mt.bytes).length ≤
      layout.limit (slotObject (oldestSlot table contents).id).id := by
    rw [List.nil_append, ctx.scratch.mt.length_eq]
    exact le_trans (Nat.le_add_right _ _) fits
  have stored : (ctx.scratch.mt.bytes ++ rest).length ≤
      layout.limit (slotObject (oldestSlot table contents).id).id := by
    rw [List.length_append, ctx.scratch.mt.length_eq]
    exact fits
  have blank : ∀ address, layout.erased =
      some (opened layout.erased (oldestSlot table contents).id contents
        (slotObject (oldestSlot table contents).id).id address) := by
    intro address
    rw [slotObject, opened, Function.update_self, PlainLayout.wipe, fullLayout, erases]
  have begun : (sinkOf (slotObject (oldestSlot table contents).id)
      (opened layout.erased (oldestSlot table contents).id contents) []) =
        (pipelineBufferInit, pipelineWriterInit (slotObject (oldestSlot table contents).id),
          opened layout.erased (oldestSlot table contents).id contents) := sinkOf_nil _ _
  obtain ⟨space1, isFed1, seen⟩ := @feedSink_backed σ M layout sees backs
    (slotObject (oldestSlot table contents).id) rfl _ blank opened' [] ctx.scratch.mt.bytes manifest
    (by rw [begun]; exact seen)
  obtain ⟨space2, isFed2, seen⟩ := @feedSink_backed σ M layout sees backs
    (slotObject (oldestSlot table contents).id) rfl _ blank space1 ([] ++ ctx.scratch.mt.bytes) rest
    (by rw [List.nil_append]; exact stored) seen
  rw [begun] at isFed1
  rw [List.nil_append] at isFed1 isFed2 seen
  intro answer
  refine ⟨space2, ?_, ?_, ?_⟩
  · simp only [answer, isPlain]
    rw [fsmArm_eq M table rest ctx space full]
    simp only [isScanned, isOpened, ne_eq, not_true_eq_false, if_false, armedSink, fresh]
    rw [show (⟨(oldestSlot table contents).id, .writeAll⟩ : MemObject) =
      slotObject (oldestSlot table contents).id from rfl, isFed1, isFed2]
    rfl
  · simp only [answer, isPlain]
    exact seen
  · simp only [answer, isPlain]
    have enough : sizeofManifest ≤ ctx.scratch.mt.bytes.length :=
      le_of_eq ctx.scratch.mt.length_eq.symm
    refine .armed session member isOldest blank stored ?_ ?_ ?_
    · rw [← isOldest]
      exact image.announces slot member
    · rw [List.length_append]
      exact le_trans enough (Nat.le_add_right _ _)
    · rw [Manifest.ofBytes_append enough, Manifest.ofBytes_self]
      exact image

/-- **One call** answers as on the plain memory. -/
theorem fsm_backed {value : UInt8} (erases : layout.erased = some value) (input : FsmInput)
    {ctx : FsmCtx} (accepts : AcceptsFit crypto sf table layout input ctx) {space : σ}
    {contents : Contents} (seen : sees space contents)
    (prepared : Prepared table layout ctx contents) :
    let answer := fsm (plain layout) crypto table sf input ctx contents
    ∃ space', fsm M crypto table sf input ctx space =
        ⟨answer.err, answer.buf, answer.ctx, space'⟩ ∧
      sees space' answer.memory ∧ Prepared table layout answer.ctx answer.memory := by
  intro answer
  have early : ctx.state = .clean ∨ ctx.state = .idle ∨ ctx.state = .startUpdate →
      ∃ space', fsm M crypto table sf input ctx space =
          ⟨answer.err, answer.buf, answer.ctx, space'⟩ ∧
        sees space' answer.memory ∧ Prepared table layout answer.ctx answer.memory := by
    intro state
    have kept : answer.memory = contents :=
      (fsm_early (plain layout) crypto table sf input contents state).1
    refine ⟨space, fsm_early_any M (plain layout) crypto table sf input space contents state,
      by rw [kept]; exact seen, .rests ?_⟩
    exact fsm_early_resting (plain layout) crypto table sf input contents state
  cases prepared with
  | @armed start fed slot session member isSlot erased within bound enough image =>
      obtain ⟨space', received, seen', prepared'⟩ := @fsmReceiveFirmware_backed σ M layout sees
        backs crypto table sf hold ctx contents start fed session slot member isSlot erased bound
        enough image input.buf.data space seen
      simp only [answer, fsm_receiveFirmware _ crypto table sf _ session.state, received, keepBuf]
      exact ⟨space', rfl, seen', prepared'⟩
  | rests rests =>
      cases state : ctx.state with
      | clean => exact early (Or.inl state)
      | idle => exact early (Or.inr (Or.inl state))
      | startUpdate => exact early (Or.inr (Or.inr state))
      | receiveFirmware => exact absurd state rests.1
      | verifyManifest => exact absurd state rests.2.1
      | verifyFirmware => exact absurd state rests.2.2
      | reboot =>
          simp only [answer, fsm_reboot _ crypto table sf input _ state]
          exact ⟨space, rfl, seen, .rests rests⟩
      | receiveManifest =>
          simp only [answer, fsm_manifestState _ crypto table sf _ state, keepBuf]
          by_cases past : sizeofManifest < ctx.processed
          · simp only [if_pos past]
            exact ⟨space, rfl, seen, .rests (@Resting.of_state _ .clean rfl (by decide))⟩
          by_cases few : ctx.processed + input.buf.data.length < sizeofManifest
          · simp only [if_neg past, if_pos few]
            exact ⟨space, rfl, seen, .rests (@Resting.of_state _ .receiveManifest state (by decide))⟩
          by_cases accepted : Accepted crypto sf (ctx.collected input.buf.data).version
              (ctx.collected input.buf.data).scratch.mt
          · have whole := (collected_complete input.buf.data (not_lt.mp past) (not_lt.mp few)).1
            have mt : (ctx.collected input.buf.data).configured.scratch.mt =
                (ctx.collected input.buf.data).scratch.mt.full := Scratch.setMt_mt _ _
            have drops : (input.buf.data.drop (sizeofManifest - ctx.processed)).length =
                input.buf.data.length - (sizeofManifest - ctx.processed) := List.length_drop
            have short := input.buf.short
            obtain ⟨image, brought⟩ := accepts state (not_lt.mp past) (not_lt.mp few) accepted
            obtain ⟨space', armed, seen', prepared'⟩ := @fsmArm_backed σ M layout sees backs
              table hold value erases (ctx.collected input.buf.data).configured rfl rfl whole
              (by rw [mt]; exact image.full) (input.buf.data.drop (sizeofManifest - ctx.processed))
              (fun slot member => by
                have within := brought slot member
                omega)
              (by omega) space contents seen
            simp only [if_neg past, if_neg few, fsmVerifyManifest_accepted _ _ accepted, armed]
            exact ⟨space', rfl, seen', prepared'⟩
          · simp only [if_neg past, if_neg few, fsmVerifyManifest_refused _ _ accepted]
            exact ⟨space, rfl, seen, .rests (@Resting.of_state _ .clean rfl (by decide))⟩

/-- **`fsm_init`** finds the same slot. -/
theorem fsmInit_backed (rngInit : PullError) (ctx : FsmCtx) {space : σ} {contents : Contents}
    (seen : sees space contents) :
    let answer := fsmInit (plain layout) table rngInit ctx contents
    ∃ space', fsmInit M table rngInit ctx space = (answer.1, answer.2.1, space') ∧
      sees space' answer.2.2 ∧ Prepared table layout answer.2.1 answer.2.2 := by
  obtain ⟨scanned, found, seen⟩ := getOrderedFirmware_backed backs table true true ctx.oldId
    ctx.version hold.manifests seen
  have plain := getOrderedFirmware_plain layout contents table true true ctx.oldId ctx.version
    hold.manifests
  have isScanned : getNewestFirmware M table true ctx.oldId ctx.version space = _ := found
  have isPlain : getNewestFirmware (Upkit.plain layout) table true ctx.oldId ctx.version contents =
    _ := plain
  have idle := (fsmInit_state (Upkit.plain layout) table rngInit ctx contents).1
  intro answer
  refine ⟨scanned, ?_, ?_, .rests (.of_state idle (by decide))⟩
  · simp only [answer, fsmInit, isScanned, isPlain, ne_eq, not_true_eq_false, if_false]
    split
    · rfl
    · rfl
  · simp only [answer, fsmInit, isPlain, ne_eq, not_true_eq_false, if_false]
    split
    · exact seen
    · exact seen

end Calls

/-! ### Runs -/

/-- What any number of calls return and leave in their buffers, and the context and the memory they
end with. -/
def replies {σ : Type} (M : MemoryInterface σ) (crypto : Crypto) (table : SlotTable)
    (sf : Safestore) : List FsmInput → FsmCtx → σ → List (PullError × List UInt8) × FsmCtx × σ
  | [], ctx, memory => ([], ctx, memory)
  | input :: rest, ctx, memory =>
      let result := fsm M crypto table sf input ctx memory
      let (later, ctx, memory) := replies M crypto table sf rest result.ctx result.memory
      ((result.err, result.buf) :: later, ctx, memory)

/-- Calls that accept no manifest but those of images that fit in the slots, as they go on a plain
memory. -/
def RunFits (crypto : Crypto) (table : SlotTable) (sf : Safestore) (layout : PlainLayout) :
    List FsmInput → FsmCtx → Contents → Prop
  | [], _, _ => True
  | input :: rest, ctx, memory =>
      AcceptsFit crypto sf table layout input ctx ∧
        RunFits crypto table sf layout rest
          (fsm (plain layout) crypto table sf input ctx memory).ctx
          (fsm (plain layout) crypto table sf input ctx memory).memory

section Runs

variable {σ : Type} {M : MemoryInterface σ} {layout : PlainLayout} {sees : σ → Contents → Prop}
  (backs : Backs M layout sees) {crypto : Crypto} {table : SlotTable} {sf : Safestore}
  (hold : SlotsHold table layout) {value : UInt8} (erases : layout.erased = some value)

include backs hold erases

/-- **Any number of calls** answer as on the plain memory. -/
theorem replies_backed (inputs : List FsmInput) {ctx : FsmCtx} {space : σ} {contents : Contents}
    (fits : RunFits crypto table sf layout inputs ctx contents) (seen : sees space contents)
    (prepared : Prepared table layout ctx contents) :
    let plainly := replies (plain layout) crypto table sf inputs ctx contents
    ∃ space', replies M crypto table sf inputs ctx space = (plainly.1, plainly.2.1, space') ∧
      sees space' plainly.2.2 := by
  induction inputs generalizing ctx space contents with
  | nil => exact ⟨space, rfl, seen⟩
  | cons input rest ih =>
      obtain ⟨between, called, seen, prepared⟩ := fsm_backed backs hold erases input fits.1 seen
        prepared
      obtain ⟨space', later, seen'⟩ := ih fits.2 seen prepared
      refine ⟨space', ?_, seen'⟩
      simp only [replies, called, later]

/-- **A delivery** that does not fail on the plain memory ends the same way. -/
theorem deliver_backed {inputs : List FsmInput} {ctx ctx' : FsmCtx} {space : σ}
    {contents contents' : Contents} (fits : RunFits crypto table sf layout inputs ctx contents)
    (seen : sees space contents) (prepared : Prepared table layout ctx contents)
    (delivered : deliver (plain layout) crypto table sf inputs ctx contents =
      some (ctx', contents')) :
    ∃ space', deliver M crypto table sf inputs ctx space = some (ctx', space') ∧
      sees space' contents' := by
  induction inputs generalizing ctx space contents with
  | nil =>
      obtain ⟨rfl, rfl⟩ := Prod.mk.inj (Option.some.inj delivered)
      exact ⟨space, rfl, seen⟩
  | cons input rest ih =>
      obtain ⟨between, called, seen, prepared⟩ := fsm_backed backs hold erases input fits.1 seen
        prepared
      rw [deliver] at delivered
      by_cases failed : (fsm (plain layout) crypto table sf input ctx contents).err ≠ .success
      · rw [if_pos failed] at delivered
        cases delivered
      · rw [if_neg failed] at delivered
        obtain ⟨space', later, seen'⟩ := ih fits.2 seen prepared delivered
        refine ⟨space', ?_, seen'⟩
        simp only [deliver, called, if_neg failed, later]

end Runs

/-! ### The calls that bring a release -/

section Releases

variable {crypto : Crypto} {sf : Safestore} {layout : PlainLayout} {table : SlotTable}
  {release : Release crypto sf} (hold : SlotsHold table layout)
  (fits : ∀ slot ∈ table.slots, release.stream.length ≤ layout.limit slot.id)

include fits

theorem Release.fitsSlots : FitsSlots table layout release.manifest where
  fills := release.fills
  inside := fun slot member => le_trans release.inside (fits slot member)
  announces := fun slot member => le_trans (le_of_eq release.announced) (fits slot member)

/-- A chunk of a release that fits. -/
theorem Release.Downloaded.acceptsFit {memory memory' : Contents} {handed : List UInt8}
    {ctx : FsmCtx} (downloaded : Release.Downloaded layout table memory release handed ctx memory')
    {input : FsmInput} (more : handed ++ input.buf.data <+: release.stream) :
    AcceptsFit crypto sf table layout input ctx := by
  intro collects _ enough _
  have session := downloaded.waiting collects
  have length := more.length_le
  rw [session.processed] at enough ⊢
  rw [List.length_append] at length
  obtain ⟨_, isManifest⟩ := collecting_complete session enough
  obtain ⟨same, _⟩ := release.storedStream_prefix more (by rw [List.length_append]; exact enough)
  rw [isManifest, same]
  exact ⟨release.fitsSlots fits, fun slot member => le_trans length (fits slot member)⟩

include hold

/-- **The rest of a release that fits**: its chunks end in more than the manifest before the last one
comes. -/
theorem Release.Downloaded.runFits {memory memory' : Contents} {inputs : List FsmInput}
    {handed : List UInt8} {ctx : FsmCtx}
    (downloaded : Release.Downloaded layout table memory release handed ctx memory')
    (nonempty : ∀ input ∈ inputs, input.buf.data ≠ [])
    (rest : handed ++ streamOf inputs = release.stream)
    (begins : sizeofManifest ≤ (handed ++ streamOf inputs.dropLast).length) :
    RunFits crypto table sf layout inputs ctx memory' := by
  induction inputs generalizing handed ctx memory' with
  | nil => trivial
  | cons input inputs ih =>
      have split : streamOf (input :: inputs) = input.buf.data ++ streamOf inputs := rfl
      rw [split, ← List.append_assoc] at rest
      have more : handed ++ input.buf.data <+: release.stream := ⟨_, rest⟩
      obtain ⟨oldest, member, isOldest⟩ := oldestSlot_mem table memory
      have narrow := hold.narrow oldest member
      have oldestFits := fits oldest member
      rw [isOldest] at narrow oldestFits
      refine ⟨downloaded.acceptsFit fits more, ?_⟩
      cases inputs with
      | nil => trivial
      | cons next inputs =>
          rw [List.dropLast_cons_cons, show streamOf (input :: (next :: inputs).dropLast) =
            input.buf.data ++ streamOf (next :: inputs).dropLast from rfl, ← List.append_assoc]
            at begins
          have behind := List.length_pos_iff_ne_nil.mpr (nonempty next (by simp))
          have length := congrArg List.length rest
          have tail : (streamOf (next :: inputs)).length =
              next.buf.data.length + (streamOf inputs).length := List.length_append
          rw [List.length_append] at length
          obtain ⟨_, downloaded'⟩ := downloaded.next hold.manifests oldestFits narrow more
            (nonempty input List.mem_cons_self) (fun _ => by omega)
          exact ih downloaded' (fun later among => nonempty later (List.mem_cons_of_mem _ among))
            rest begins

end Releases

end Upkit
