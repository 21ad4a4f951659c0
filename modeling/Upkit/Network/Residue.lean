/-
**What a session leaves behind for the next one.**

Two contexts that are `Alike` answer every sequence of calls alike (`answers_alike`), over any
memory: what the static buffer holds behind the bytes collected so far, and what earlier sessions
left in the slot, the object and the pipeline, does not matter.

A context that rests is alike to a fresh one unless it rests in `STATE_IDLE` with a count: that is
what a failed verification leaves, and the next session then fails. So a resting context leaves no
trace exactly when it is in `STATE_CLEAN` or has no count (`noTrace_iff`).
-/

import Upkit.Network.Accesses

namespace Upkit

open Bytes

/-! ### Contexts that answer alike -/

/-- A scan does not depend on what it is started with. -/
theorem getOrderedFirmware_start {σ : Type} (M : MemoryInterface σ) (table : SlotTable)
    (newest preferBootable : Bool) (id id' : MemId) (version version' : Nat) (memory : σ) :
    (getOrderedFirmware M table newest preferBootable id version memory).1 =
        (getOrderedFirmware M table newest preferBootable id' version' memory).1 ∧
      (getOrderedFirmware M table newest preferBootable id version memory).2.2 =
        (getOrderedFirmware M table newest preferBootable id' version' memory).2.2 ∧
      ((getOrderedFirmware M table newest preferBootable id version memory).1 = .success →
        (getOrderedFirmware M table newest preferBootable id version memory).2.1 =
          (getOrderedFirmware M table newest preferBootable id' version' memory).2.1) := by
  obtain ⟨slot, rest, split⟩ := List.exists_cons_of_ne_nil table.nonempty
  have first : ∀ (id : MemId) (version found : Nat),
      (Candidate.mk id version false true).next newest preferBootable slot found =
        ⟨slot.id, found, slot.bootable, false⟩ := fun _ _ _ => rfl
  unfold getOrderedFirmware
  rw [split, getOrderedFirmwareLoop, getOrderedFirmwareLoop]
  simp only [first]
  split
  · exact ⟨rfl, rfl, fun success => by cases success⟩
  · split
    · exact ⟨rfl, rfl, fun success => by cases success⟩
    · exact ⟨rfl, rfl, fun _ => rfl⟩

/-- Contexts that answer alike: what the next call reads of them is the same. -/
def FsmCtx.Alike (ctx other : FsmCtx) : Prop :=
  ctx.state = other.state ∧ ctx.version = other.version ∧
    match ctx.state with
    | .clean => True
    | .idle | .startUpdate | .receiveManifest => ctx.processed = other.processed ∧
        ctx.scratch.bytes.take (min ctx.processed sizeofManifest) =
          other.scratch.bytes.take (min ctx.processed sizeofManifest)
    | .receiveFirmware => (ctx.pipeline = .buffer ∧ other.pipeline = .buffer) ∧
        (ctx.processed = other.processed ∧ ctx.expected = other.expected) ∧
        (ctx.id = other.id ∧ ctx.obj = other.obj) ∧
        (ctx.bufferCtx = other.bufferCtx ∧ ctx.writerCtx = other.writerCtx) ∧
        ctx.scratch.mt = other.scratch.mt
    | .verifyManifest => False
    | .verifyFirmware => False
    | .reboot => True

section Alike

variable {σ : Type} (M : MemoryInterface σ) (crypto : Crypto) (table : SlotTable)
  (sf : Safestore)

/-- Two results with the same code and memory, and contexts that go on alike. -/
def AlikeResults (first second : PullError × FsmCtx × σ) : Prop :=
  first.1 = second.1 ∧ first.2.2 = second.2.2 ∧ first.2.1.Alike second.2.1

/-- Contexts that wait for bytes with the same bytes collected. -/
theorem alike_waiting {ctx other : FsmCtx} (state : ctx.state = other.state)
    (waiting : ctx.state = .idle ∨ ctx.state = .startUpdate ∨ ctx.state = .receiveManifest)
    (version : ctx.version = other.version) (processed : ctx.processed = other.processed)
    (bytes : ctx.scratch.bytes.take (min ctx.processed sizeofManifest) =
      other.scratch.bytes.take (min ctx.processed sizeofManifest)) : ctx.Alike other := by
  refine ⟨state, version, ?_⟩
  rcases waiting with phase | phase | phase
  · rw [phase]
    exact ⟨processed, bytes⟩
  · rw [phase]
    exact ⟨processed, bytes⟩
  · rw [phase]
    exact ⟨processed, bytes⟩

theorem alike_cleaned {ctx other : FsmCtx} (version : ctx.version = other.version) :
    ctx.cleaned.Alike other.cleaned := ⟨rfl, version, trivial⟩

/-- `STATE_IDLE` answers alike. -/
theorem fsmIdle_alike (data : List UInt8) {ctx other : FsmCtx} (memory : σ)
    (version : ctx.version = other.version) (idle : ctx.state = .idle)
    (idle' : other.state = .idle) (processed : ctx.processed = other.processed)
    (bytes : ctx.scratch.bytes.take (min ctx.processed sizeofManifest) =
      other.scratch.bytes.take (min ctx.processed sizeofManifest)) :
    AlikeResults (fsmIdle data ctx memory) (fsmIdle data other memory) := by
  unfold fsmIdle
  by_cases length : data.length ≠ 2
  · rw [if_pos length, if_pos length]
    exact ⟨rfl, rfl, alike_cleaned version⟩
  rw [if_neg length, if_neg length]
  by_cases old : ofLE data ≤ ctx.version
  · rw [if_pos old, if_pos (version ▸ old)]
    exact ⟨rfl, rfl, alike_waiting (idle.trans idle'.symm) (Or.inl idle) version processed bytes⟩
  · rw [if_neg old, if_neg (version ▸ old)]
    exact ⟨rfl, rfl, alike_waiting rfl (Or.inr (Or.inl rfl)) version processed bytes⟩

/-- `STATE_VERIFY_FIRMWARE` answers alike: the static buffer is only lent. -/
theorem fsmVerifyFirmware_alike {ctx other : FsmCtx} (memory : σ)
    (version : ctx.version = other.version) (id : ctx.id = other.id)
    (processed : ctx.processed = other.processed) (mt : ctx.scratch.mt = other.scratch.mt) :
    AlikeResults (fsmVerifyFirmware M crypto sf ctx memory)
      (fsmVerifyFirmware M crypto sf other memory) := by
  have agree : ctx.scratch.bytes.take sizeofManifest = other.scratch.bytes.take sizeofManifest :=
    congrArg Manifest.bytes mt
  obtain ⟨err, lent, kept⟩ := verifyObject_buffer M crypto
    (M.memoryOpen ctx.id .readOnly memory).2.1 sf fsmBufferSize
    (M.memoryOpen ctx.id .readOnly memory).2.2 agree
  unfold fsmVerifyFirmware
  rw [← id]
  simp only [err, kept]
  split
  · refine ⟨rfl, rfl, alike_waiting rfl (Or.inl rfl) version processed ?_⟩
    exact Scratch.take_of_mt (Scratch.ofBytes_mt_congr lent) (min_le_right _ _)
  · exact ⟨rfl, rfl, rfl, version, trivial⟩

/-- `STATE_RECEIVE_FIRMWARE` answers alike. -/
theorem fsmReceiveFirmware_alike (data : List UInt8) {ctx other : FsmCtx} (memory : σ)
    (alike : ctx.Alike other) (state : ctx.state = .receiveFirmware) :
    AlikeResults (fsmReceiveFirmware M crypto sf data ctx memory)
      (fsmReceiveFirmware M crypto sf data other memory) := by
  obtain ⟨sameState, version, rest⟩ := alike
  rw [state] at rest
  obtain ⟨⟨full, full'⟩, ⟨processed, expected⟩, ⟨id, obj⟩, ⟨buffer, writer⟩, mt⟩ := rest
  rw [fsmReceiveFirmware, fsmReceiveFirmware, fsmReceiveData_eq M data ctx memory full,
    fsmReceiveData_eq M data other memory full', ← processed, ← expected, ← buffer, ← writer,
    ← obj]
  simp only
  by_cases long : ctx.expected < ctx.processed + data.length
  · simp only [if_pos long]
    exact ⟨rfl, rfl, alike_cleaned version⟩
  simp only [if_neg long]
  by_cases more : ctx.processed + data.length = ctx.expected
  · simp only [more, ne_eq, not_true_eq_false, if_false]
    refine fsmVerifyFirmware_alike M crypto sf _ version id ?_ mt
    show ctx.processed + data.length = other.processed + data.length
    rw [processed]
  · simp only [ne_eq, more, not_false_eq_true, if_true]
    refine ⟨rfl, rfl, sameState, version, ?_⟩
    show match ctx.state with
      | .clean => True
      | .idle | .startUpdate | .receiveManifest => _
      | .receiveFirmware => _
      | .verifyManifest => False
      | .verifyFirmware => False
      | .reboot => True
    rw [state]
    refine ⟨⟨full, full'⟩, ⟨?_, expected⟩, ⟨id, obj⟩, ⟨rfl, rfl⟩, mt⟩
    show ctx.processed + data.length = other.processed + data.length
    rw [processed]

/-- Arming answers alike: the slot that was there does not matter. -/
theorem fsmArm_alike (rest : List UInt8) {ctx other : FsmCtx} (memory : σ)
    (version : ctx.version = other.version) (full : ctx.pipeline = .buffer)
    (full' : other.pipeline = .buffer) (buffer : ctx.bufferCtx = other.bufferCtx)
    (processed : ctx.processed = other.processed) (mt : ctx.scratch.mt = other.scratch.mt) :
    AlikeResults (fsmArm M table rest ctx memory) (fsmArm M table rest other memory) := by
  obtain ⟨err, kept, found⟩ :=
    getOrderedFirmware_start M table false false ctx.id other.id 0 0 memory
  have err : (getOldestFirmware M table false ctx.id 0 memory).1 =
    (getOldestFirmware M table false other.id 0 memory).1 := err
  have kept : (getOldestFirmware M table false ctx.id 0 memory).2.2 =
    (getOldestFirmware M table false other.id 0 memory).2.2 := kept
  rw [fsmArm_eq M table rest ctx memory full, fsmArm_eq M table rest other memory full']
  simp only
  by_cases success : (getOldestFirmware M table false ctx.id 0 memory).1 = .success
  · have found : (getOldestFirmware M table false ctx.id 0 memory).2.1 =
      (getOldestFirmware M table false other.id 0 memory).2.1 := found success
    rw [← err, if_neg (not_not.mpr success), if_neg (not_not.mpr success), ← found, ← kept, ← mt,
      ← buffer]
    by_cases opened : (M.memoryOpen (getOldestFirmware M table false ctx.id 0 memory).2.1.id
        .writeAll (getOldestFirmware M table false ctx.id 0 memory).2.2).1 = .success
    · rw [if_neg (not_not.mpr opened), if_neg (not_not.mpr opened)]
      refine ⟨rfl, rfl, rfl, version, ⟨full, full'⟩, ⟨?_, ?_⟩, ⟨rfl, rfl⟩, ⟨rfl, rfl⟩, mt⟩
      · show ctx.processed + rest.length = other.processed + rest.length
        rw [processed]
      · show (ctx.scratch.mt.getOffset + ctx.scratch.mt.getPropSize) % 2 ^ 32 =
          (other.scratch.mt.getOffset + other.scratch.mt.getPropSize) % 2 ^ 32
        rw [mt]
    · rw [if_pos opened, if_pos opened]
      exact ⟨rfl, rfl, rfl, version, trivial⟩
  · rw [← err, if_pos success, if_pos success]
    exact ⟨rfl, kept, rfl, version, trivial⟩

/-- `STATE_RECEIVE_MANIFEST` answers alike. -/
theorem fsmReceiveManifest_alike (data : List UInt8) {ctx other : FsmCtx} (memory : σ)
    (alike : ctx.Alike other) (state : ctx.state = .receiveManifest) :
    AlikeResults (fsmReceiveManifest M crypto table sf data ctx memory)
      (fsmReceiveManifest M crypto table sf data other memory) := by
  obtain ⟨sameState, version, rest⟩ := alike
  rw [state] at rest
  obtain ⟨processed, bytes⟩ := rest
  rw [fsmReceiveManifest_eq, fsmReceiveManifest_eq, ← processed]
  by_cases past : sizeofManifest < ctx.processed
  · rw [if_pos past, if_pos past]
    exact ⟨rfl, rfl, alike_cleaned version⟩
  have room : ctx.processed ≤ sizeofManifest := not_lt.mp past
  have room' : other.processed ≤ sizeofManifest := processed ▸ room
  rw [min_eq_left room] at bytes
  rw [if_neg past, if_neg past]
  by_cases few : ctx.processed + data.length < sizeofManifest
  · rw [if_pos few, if_pos few]
    obtain ⟨count, collected⟩ := collected_short data room few
    obtain ⟨count', collected'⟩ := collected_short data room' (processed ▸ few)
    refine ⟨rfl, rfl, alike_waiting sameState (Or.inr (Or.inr state)) version ?_ ?_⟩
    · show (ctx.collected data).processed = (other.collected data).processed
      rw [count, count', processed]
    · show (ctx.collected data).scratch.bytes.take (min (ctx.collected data).processed _) =
        (other.collected data).scratch.bytes.take (min (ctx.collected data).processed _)
      rw [count, min_eq_left (le_of_lt few), collected, processed, collected', ← processed, bytes]
  · rw [if_neg few, if_neg few]
    have enough := not_lt.mp few
    obtain ⟨count, complete⟩ := collected_complete data room enough
    obtain ⟨count', complete'⟩ := collected_complete data room' (processed ▸ enough)
    have mt : (ctx.collected data).scratch.mt = (other.collected data).scratch.mt := by
      apply Manifest.ext
      rw [complete, complete', ← processed, bytes]
    by_cases accepted : Accepted crypto sf (ctx.collected data).version
        (ctx.collected data).scratch.mt
    · have accepted' : Accepted crypto sf (other.collected data).version
          (other.collected data).scratch.mt := by
        rw [← mt]
        exact (show (ctx.collected data).version = (other.collected data).version from version) ▸
          accepted
      rw [fsmVerifyManifest_accepted M table accepted, fsmVerifyManifest_accepted M table accepted']
      refine fsmArm_alike M table _ memory version rfl rfl rfl ?_ ?_
      · show (ctx.collected data).processed = (other.collected data).processed
        rw [count, count']
      · show ((ctx.collected data).scratch.setMt _).mt = ((other.collected data).scratch.setMt _).mt
        rw [Scratch.setMt_mt, Scratch.setMt_mt, mt]
    · have refused : ¬ Accepted crypto sf (other.collected data).version
          (other.collected data).scratch.mt := by
        rw [← mt]
        exact (show (ctx.collected data).version = (other.collected data).version from version) ▸
          accepted
      rw [fsmVerifyManifest_refused M table accepted, fsmVerifyManifest_refused M table refused]
      exact ⟨rfl, rfl, rfl, version, trivial⟩

/-- **One call answers alike** and leaves the contexts alike. -/
theorem fsm_alike (input : FsmInput) {ctx other : FsmCtx} (memory : σ)
    (alike : ctx.Alike other) :
    (fsm M crypto table sf input ctx memory).err = (fsm M crypto table sf input other memory).err ∧
      (fsm M crypto table sf input ctx memory).memory =
        (fsm M crypto table sf input other memory).memory ∧
      (fsm M crypto table sf input ctx memory).ctx.Alike
        (fsm M crypto table sf input other memory).ctx := by
  obtain ⟨sameState, version, rest⟩ := id alike
  unfold fsm
  rw [← sameState]
  cases state : ctx.state with
  | clean =>
      have none : ∀ ctx' : FsmCtx,
          ctx'.reset.scratch.bytes.take (min ctx.reset.processed sizeofManifest) = [] := by
        intro ctx'
        rw [show ctx.reset.processed = 0 from rfl, Nat.zero_min, List.take_zero]
      exact fsmIdle_alike input.buf.data memory version
        rfl rfl rfl ((none ctx).trans (none other).symm)
  | idle =>
      rw [state] at rest
      exact fsmIdle_alike input.buf.data memory version state (sameState.symm.trans state) rest.1
        rest.2
  | startUpdate =>
      rw [state] at rest
      obtain ⟨processed, bytes⟩ := rest
      simp only [fsmStartUpdate]
      split
      · exact ⟨rfl, rfl, alike_cleaned version⟩
      · split
        · exact ⟨rfl, rfl, alike_cleaned version⟩
        · rename_i nonce _
          refine ⟨rfl, rfl, alike_waiting rfl (Or.inr (Or.inr rfl)) version processed ?_⟩
          -- The nonce is stored behind the manifest.
          have kept : ∀ ctx' : FsmCtx, (ctx'.begun nonce).scratch.bytes.take
              (min ctx.processed sizeofManifest) =
                ctx'.scratch.bytes.take (min ctx.processed sizeofManifest) :=
            fun ctx' => Scratch.take_of_mt (begun_mt ctx' nonce) (min_le_right _ _)
          exact (kept ctx).trans (bytes.trans (kept other).symm)
  | receiveManifest => exact fsmReceiveManifest_alike M crypto table sf _ memory alike state
  | receiveFirmware => exact fsmReceiveFirmware_alike M crypto sf _ memory alike state
  | verifyManifest => rw [state] at rest; exact False.elim rest
  | verifyFirmware => rw [state] at rest; exact False.elim rest
  | reboot => exact ⟨rfl, rfl, alike⟩

/-- The codes a sequence of calls returns, and the state it ends in. -/
def answers : List FsmInput → FsmCtx → σ → List PullError × FsmState
  | [], ctx, _ => ([], ctx.state)
  | input :: rest, ctx, memory =>
      let result := fsm M crypto table sf input ctx memory
      let (codes, state) := answers rest result.ctx result.memory
      (result.err :: codes, state)

/-- **Alike contexts answer alike** for any number of calls. -/
theorem answers_alike (inputs : List FsmInput) {ctx other : FsmCtx} (memory : σ)
    (alike : ctx.Alike other) :
    answers M crypto table sf inputs ctx memory = answers M crypto table sf inputs other memory := by
  induction inputs generalizing ctx other memory with
  | nil => exact congrArg (Prod.mk []) alike.1
  | cons input rest ih =>
      obtain ⟨err, kept, alike'⟩ := fsm_alike M crypto table sf input memory alike
      rw [answers, answers]
      simp only [err, ih _ alike', kept]

/-- A context that failed is reset by the next call. -/
theorem answers_clean (input : FsmInput) (rest : List FsmInput) {ctx : FsmCtx} (memory : σ)
    (clean : ctx.state = .clean) :
    answers M crypto table sf (input :: rest) ctx memory =
      answers M crypto table sf (input :: rest) ctx.reset memory := by
  have call : fsm M crypto table sf input ctx memory =
      fsm M crypto table sf input ctx.reset memory := by
    unfold fsm
    rw [clean]
    rfl
  rw [answers, answers, call]

/-! ### Traces of a session -/

/-- The calls of a session: a newer version, room for the message, and chunks that are not
empty. -/
structure SessionCalls (version : Nat) where
  announce : FsmInput
  message : FsmInput
  chunks : List FsmInput
  announced : announce.buf.data.length = 2
  newer : version < ofLE announce.buf.data
  room : sizeofReceiverMsg ≤ message.buf.data.length
  nonempty : ∀ chunk ∈ chunks, chunk.buf.data ≠ []

/-- All the calls, in order. -/
def SessionCalls.inputs {version : Nat} (calls : SessionCalls version) : List FsmInput :=
  calls.announce :: calls.message :: calls.chunks

/-- **No trace**: a following session is answered as it would be from a fresh context with the same
version, running image and memory. -/
def NoTrace (ctx : FsmCtx) (memory : σ) : Prop :=
  ∀ (calls : SessionCalls ctx.version) (fresh : FsmCtx), fresh.state = .idle →
    fresh.processed = 0 → fresh.version = ctx.version → fresh.oldId = ctx.oldId →
    answers M crypto table sf calls.inputs ctx memory =
      answers M crypto table sf calls.inputs fresh memory

/-- A context without a count leaves no trace. -/
theorem noTrace_of_fresh {ctx : FsmCtx} (memory : σ)
    (rests : ctx.state = .clean ∨ (ctx.state = .idle ∧ ctx.processed = 0)) :
    NoTrace M crypto table sf ctx memory := by
  intro calls fresh idle zero version _
  rcases rests with clean | ⟨idle', zero'⟩
  · rw [SessionCalls.inputs, answers_clean M crypto table sf _ _ memory clean]
    refine answers_alike M crypto table sf _ memory (alike_waiting idle.symm
      (Or.inl rfl) version.symm zero.symm ?_)
    rw [show ctx.reset.processed = 0 from rfl, Nat.zero_min, List.take_zero, List.take_zero]
  · refine answers_alike M crypto table sf _ memory (alike_waiting (idle'.trans idle.symm)
      (Or.inl idle') version.symm (zero'.trans zero.symm) ?_)
    rw [zero', Nat.zero_min, List.take_zero, List.take_zero]

/-- A session of one byte, announced as the newest version there can be. -/
def byteSession {version : Nat} (old : version < 65535) : SessionCalls version where
  announce := lastVersion
  message := messageCall
  chunks := [byteCall]
  announced := rfl
  newer := old
  room := by decide
  nonempty := by
    intro chunk member
    rw [List.mem_singleton.mp member]
    exact List.cons_ne_nil _ _

/-- The first two calls of that session. -/
theorem byteSession_answers {ctx : FsmCtx} (memory : σ) (old : ctx.version < 65535)
    (idle : ctx.state = .idle) :
    ∃ ctx', ctx'.state = .receiveManifest ∧ ctx'.processed = ctx.processed ∧
      (answers M crypto table sf (byteSession old).inputs ctx memory).2 =
        (fsm M crypto table sf byteCall ctx' memory).ctx.state := by
  refine ⟨FsmCtx.begun { ctx with state := .startUpdate } ⟨List.replicate 4 0, rfl⟩, rfl, rfl, ?_⟩
  have started := @fsm_idle_newer _ M crypto table sf (byteSession old).announce _ memory idle
    rfl old
  have waiting := @fsm_startUpdate_begun _ M crypto table sf messageCall
    { ctx with state := .startUpdate } _ memory rfl (by decide) rfl
  rw [SessionCalls.inputs, answers, started, answers]
  simp only [show (byteSession old).message = messageCall from rfl, waiting]
  rfl

/-- A context with a count leaves a trace: one byte is not collected. -/
theorem trace_of_count {ctx : FsmCtx} (memory : σ) (idle : ctx.state = .idle)
    (count : sizeofManifest ≤ ctx.processed) (old : ctx.version < 65535) :
    ¬ NoTrace M crypto table sf ctx memory := by
  intro same
  have answered := congrArg Prod.snd
    (same (byteSession old) { ctx with processed := 0 } idle rfl rfl rfl)
  obtain ⟨ctx₁, state₁, processed₁, ends₁⟩ :=
    byteSession_answers M crypto table sf memory old idle
  obtain ⟨ctx₂, state₂, processed₂, ends₂⟩ :=
    @byteSession_answers _ M crypto table sf { ctx with processed := 0 } memory old idle
  rw [ends₁, ends₂] at answered
  have length : byteCall.buf.data.length = 1 := rfl
  -- From a fresh context the byte is collected.
  have collects : (fsm M crypto table sf byteCall ctx₂ memory).ctx.state = .receiveManifest := by
    have session : Collecting ctx₂ [] := ⟨state₂, processed₂, by decide, rfl⟩
    rw [fsm_collecting M crypto table sf byteCall session, if_pos (by decide)]
    exact state₂
  rw [collects] at answered
  rcases fsm_receiveManifest_cases M crypto table sf memory state₁ with
    ⟨_, cleaned | ⟨few, _⟩⟩ | ⟨_, call⟩
  · exact absurd (cleaned.symm.trans answered) (by decide)
  · omega
  · rw [call] at answered
    rcases (fsmArm_ctx M table _ (ctx₁.collected byteCall.buf.data).configured memory rfl).2.2 with
      cleaned | ⟨armed, _⟩
    · exact absurd (cleaned.symm.trans answered) (by decide)
    · exact absurd (armed.symm.trans answered) (by decide)

/-- The invariant: a count that outlives a session covers a manifest that was newer. -/
def Counted (ctx : FsmCtx) : Prop :=
  match ctx.state with
  | .idle | .startUpdate => ctx.processed = 0 ∨
      (sizeofManifest ≤ ctx.processed ∧ ctx.version < 65535)
  | .receiveFirmware =>
      ctx.pipeline = .buffer ∧ sizeofManifest ≤ ctx.processed ∧ ctx.version < 65535
  | .verifyManifest => False
  | .verifyFirmware => False
  | _ => True

/-- **One call keeps the invariant.** -/
theorem counted_step (input : FsmInput) {ctx : FsmCtx} (memory : σ) (counted : Counted ctx) :
    Counted (fsm M crypto table sf input ctx memory).ctx := by
  have kept := (fsm_keeps M crypto table sf input ctx memory).2
  have early : ctx.state = .clean ∨ ctx.state = .idle ∨ ctx.state = .startUpdate →
      Counted (fsm M crypto table sf input ctx memory).ctx := by
    intro phase
    unfold Counted at counted
    rcases (fsm_early M crypto table sf input memory phase).2 with
      cleaned | ⟨_, same | started⟩ | ⟨idle, same | started⟩ | ⟨_, nonce, begun⟩
    · unfold Counted
      rw [cleaned]
      trivial
    · rw [same]
      exact Or.inl rfl
    · rw [started]
      exact Or.inl rfl
    · rw [same]
      rw [idle] at counted
      unfold Counted
      rw [idle]
      exact counted
    · rw [started]
      rw [idle] at counted
      exact counted
    · rw [begun]
      trivial
  cases phase : ctx.state with
  | clean => exact early (Or.inl phase)
  | idle => exact early (Or.inr (Or.inl phase))
  | startUpdate => exact early (Or.inr (Or.inr phase))
  | receiveManifest =>
      unfold Counted
      rcases fsm_receiveManifest_cases M crypto table sf memory phase with
        ⟨_, cleaned | ⟨_, waits⟩⟩ | ⟨⟨_, room, enough, newer, _⟩, call⟩
      · rw [cleaned]
        trivial
      · rw [waits]
        trivial
      · have bound := (ctx.collected input.buf.data).scratch.mt.getVersion_lt
        have count := (collected_complete input.buf.data room enough).1
        rw [call] at kept ⊢
        rcases (fsmArm_ctx M table (input.buf.data.drop (sizeofManifest - ctx.processed))
          (ctx.collected input.buf.data).configured memory rfl).2.2 with
          cleaned | ⟨armed, full, processed, _⟩
        · rw [show (keepBuf input.buf.data (fsmArm M table _ _ memory)).ctx.state = _ from cleaned]
          trivial
        · rw [show (keepBuf input.buf.data (fsmArm M table _ _ memory)).ctx.state = _ from armed]
          refine ⟨full, ?_, ?_⟩
          · show sizeofManifest ≤ (fsmArm M table _ _ memory).2.1.processed
            rw [processed, show (ctx.collected input.buf.data).configured.processed = _ from count]
            exact Nat.le_add_right _ _
          · rw [kept]
            omega
  | receiveFirmware =>
      unfold Counted at counted
      rw [phase] at counted
      obtain ⟨full, whole, old⟩ := counted
      rw [fsm_receiveFirmware M crypto table sf memory phase] at kept ⊢
      unfold Counted
      rcases (fsmReceiveFirmware_ctx M crypto sf input.buf.data ctx memory phase full).2.2 with
        cleaned | ⟨armed, full', processed, _⟩ | ⟨complete, processed, idle | reboot⟩
      · rw [show (keepBuf input.buf.data (fsmReceiveFirmware M crypto sf _ ctx memory)).ctx.state =
          _ from cleaned]
        trivial
      · rw [show (keepBuf input.buf.data (fsmReceiveFirmware M crypto sf _ ctx memory)).ctx.state =
          _ from armed]
        refine ⟨full', ?_, ?_⟩
        · show sizeofManifest ≤ (fsmReceiveFirmware M crypto sf _ ctx memory).2.1.processed
          rw [processed]
          omega
        · rw [kept]
          exact old
      · rw [show (keepBuf input.buf.data (fsmReceiveFirmware M crypto sf _ ctx memory)).ctx.state =
          _ from idle]
        refine Or.inr ⟨?_, ?_⟩
        · show sizeofManifest ≤ (fsmReceiveFirmware M crypto sf _ ctx memory).2.1.processed
          rw [processed]
          omega
        · rw [kept]
          exact old
      · rw [show (keepBuf input.buf.data (fsmReceiveFirmware M crypto sf _ ctx memory)).ctx.state =
          _ from reboot]
        trivial
  | verifyManifest =>
      unfold Counted at counted
      rw [phase] at counted
      exact False.elim counted
  | verifyFirmware =>
      unfold Counted at counted
      rw [phase] at counted
      exact False.elim counted
  | reboot =>
      rw [fsm_reboot M crypto table sf input memory phase]
      unfold Counted
      rw [phase]
      trivial

theorem counted_of_reachable {ctx : FsmCtx} {memory : σ}
    (reached : Reachable M crypto table sf ctx memory) : Counted ctx := by
  induction reached with
  | init rngInit ctx memory =>
      obtain ⟨idle, zero⟩ := fsmInit_state M table rngInit ctx memory
      unfold Counted
      rw [idle]
      exact Or.inl zero
  | step input _ ih => exact counted_step M crypto table sf input _ ih

/-- **Exactly when a resting context leaves no trace**: it is in `STATE_CLEAN`, or has no count. -/
theorem noTrace_iff {ctx : FsmCtx} {memory : σ}
    (reached : Reachable M crypto table sf ctx memory)
    (resting : ctx.state = .idle ∨ ctx.state = .clean) :
    NoTrace M crypto table sf ctx memory ↔ ctx.state = .clean ∨ ctx.processed = 0 := by
  constructor
  · intro same
    rcases resting with idle | clean
    · have counted := counted_of_reachable M crypto table sf reached
      unfold Counted at counted
      rw [idle] at counted
      rcases counted with zero | ⟨count, old⟩
      · exact Or.inr zero
      · exact absurd same (trace_of_count M crypto table sf memory idle count old)
    · exact Or.inl clean
  · intro none
    rcases none with clean | zero
    · exact noTrace_of_fresh M crypto table sf memory (Or.inl clean)
    · rcases resting with idle | clean
      · exact noTrace_of_fresh M crypto table sf memory (Or.inr ⟨idle, zero⟩)
      · exact noTrace_of_fresh M crypto table sf memory (Or.inl clean)

end Alike

/-! ### A failed verification -/

/-- `fsm_init` leaves a context without a trace. -/
theorem blankCtx_noTrace :
    Reachable (plain (fullLayout none)) mirrorCrypto twoSlots zeroSafestore blankCtx
        (fun _ _ => 0) ∧
      NoTrace (plain (fullLayout none)) mirrorCrypto twoSlots zeroSafestore blankCtx
        (fun _ _ => 0) := by
  obtain ⟨idle, zero⟩ := fsmInit_state (plain (fullLayout none)) twoSlots .success FsmCtx.zero
    (fun _ _ => 0)
  exact ⟨blankCtx_reachable, (noTrace_iff (plain (fullLayout none)) mirrorCrypto twoSlots
    zeroSafestore blankCtx_reachable (Or.inl idle)).mpr (Or.inr zero)⟩

/-- Firmware that is not the one the signed manifest was made for. -/
def wrongFirmware : List UInt8 := List.replicate 1024 1

def wrongCall : FsmInput := callWith wrongFirmware (by
  rw [wrongFirmware, List.length_replicate]
  decide)

/-- After a download whose verification fails, the machine is idle with a count. -/
theorem wrongFirmware_fails {ctx : FsmCtx} {memory start : Contents}
    (session : Armed ctx memory start signedManifest) (expected : ctx.expected = 1280) :
    let after := (fsm (plain (fullLayout none)) mirrorCrypto twoSlots zeroSafestore wrongCall ctx
      memory).ctx
    after.state = .idle ∧ after.processed = 1280 ∧ after.version = ctx.version := by
  have firmware : wrongCall.buf.data.length = 1024 := List.length_replicate
  have complete : signedManifest.length + wrongCall.buf.data.length = ctx.expected := by
    rw [expected, signedManifest_length, firmware]
  obtain ⟨ctx', call, state, _, version, _, processed⟩ :=
    fsm_armed_exact none mirrorCrypto twoSlots zeroSafestore session complete
  have fails : slotVerdict mirrorCrypto zeroSafestore
      (writeRange (start ctx.id) 0 (signedManifest ++ wrongCall.buf.data)) ≠ .success := by
    intro passes
    exact absurd ((signedManifest_verdict _ firmware).mp passes) (by decide)
  rw [if_neg fails] at state
  rw [call]
  exact ⟨state, processed.trans expected, version⟩

/-- Not every resting context leaves no trace: a failed verification does. -/
theorem failedVerification_traced :
    ¬ ∀ (ctx : FsmCtx) (memory : Contents),
        Reachable (plain (fullLayout none)) mirrorCrypto twoSlots zeroSafestore ctx memory →
        ctx.state = .idle ∨ ctx.state = .clean →
        NoTrace (plain (fullLayout none)) mirrorCrypto twoSlots zeroSafestore ctx memory := by
  intro every
  have started := Reachable.step versionCall blankCtx_reachable
  rw [fsm_versionCall] at started
  have waiting := Reachable.step messageCall started
  rw [fsm_messageCall.1, fsm_messageCall.2] at waiting
  obtain ⟨ctx, memory, call, armed, expected⟩ := signedUpdate_armed (fun _ _ => 0)
    blankSession_collecting.1 blankSession_collecting.2
  have downloading := Reachable.step manifestCall waiting
  rw [call] at downloading
  obtain ⟨idle, count, version⟩ := wrongFirmware_fails armed expected
  have kept := (fsm_keeps (plain (fullLayout none)) mirrorCrypto twoSlots zeroSafestore
    manifestCall blankSession (fun _ _ => 0)).2
  rw [call, blankSession_collecting.2] at kept
  refine trace_of_count (plain (fullLayout none)) mirrorCrypto twoSlots zeroSafestore _ idle ?_ ?_
    (every _ _ (Reachable.step wrongCall downloading) (Or.inl idle))
  · rw [count]
    decide
  · rw [version, kept]
    decide

end Upkit
