/-
**Whole runs of the state machine: what a reboot and a download are worth.**

Runs begin with `fsm_init` on any context and memory and go on with any calls (`Reachable`). A
`Session` is a run with what it has received since it entered `STATE_RECEIVE_MANIFEST`;
`tracked_of_session` is the invariant rule for it, over any memory.

* `reachable_reboot` — a machine that reboots has verified the slot it reboots into, and the
  manifest stored there is newer than the device and meant for it.
* `download_exact` — when the verification of a download begins, the slot holds exactly the bytes
  passed to the session, and until then `processed` counts them.

Each is an invariant with one lemma for the step.
-/

import Upkit.Network.Delivery

namespace Upkit

open Bytes

/-! ### Runs -/

/-- A state machine that writes to none. -/
def Resting (ctx : FsmCtx) : Prop :=
  ctx.state ≠ .receiveFirmware ∧ ctx.state ≠ .verifyManifest ∧ ctx.state ≠ .verifyFirmware

theorem Resting.of_state {ctx : FsmCtx} {state : FsmState} (same : ctx.state = state)
    (rests : state ≠ .receiveFirmware ∧ state ≠ .verifyManifest ∧ state ≠ .verifyFirmware) :
    Resting ctx := by
  unfold Resting
  rw [same]
  exact rests

section Runs

variable {σ : Type} (M : MemoryInterface σ) (crypto : Crypto) (table : SlotTable)
  (sf : Safestore)

/-- The contexts and memories that `fsm_init` and any sequence of calls lead to. -/
inductive Reachable : FsmCtx → σ → Prop
  | init (rngInit : PullError) (ctx : FsmCtx) (memory : σ) :
      Reachable (fsmInit M table rngInit ctx memory).2.1 (fsmInit M table rngInit ctx memory).2.2
  | step (input : FsmInput) {ctx : FsmCtx} {memory : σ} : Reachable ctx memory →
      Reachable (fsm M crypto table sf input ctx memory).ctx
        (fsm M crypto table sf input ctx memory).memory

/-- What `fsm_init` leaves, whatever it returns. -/
theorem fsmInit_state (rngInit : PullError) (ctx : FsmCtx) (memory : σ) :
    (fsmInit M table rngInit ctx memory).2.1.state = .idle ∧
      (fsmInit M table rngInit ctx memory).2.1.processed = 0 := by
  unfold fsmInit
  simp only
  split
  · exact ⟨rfl, rfl⟩
  · split
    · exact ⟨rfl, rfl⟩
    · exact ⟨rfl, rfl⟩

/-- The running image, as `fsm_init` finds it. -/
theorem fsmInit_found (rngInit : PullError) (ctx : FsmCtx) (memory : σ) :
    (fsmInit M table rngInit ctx memory).2.1.oldId =
        (getNewestFirmware M table true ctx.oldId ctx.version memory).2.1.id ∧
      (fsmInit M table rngInit ctx memory).2.1.version =
        (getNewestFirmware M table true ctx.oldId ctx.version memory).2.1.version ∧
      (fsmInit M table rngInit ctx memory).2.2 =
        (getNewestFirmware M table true ctx.oldId ctx.version memory).2.2 := by
  unfold fsmInit
  simp only
  split
  · exact ⟨rfl, rfl, rfl⟩
  · split
    · exact ⟨rfl, rfl, rfl⟩
    · exact ⟨rfl, rfl, rfl⟩

/-- A delivery without an error is a run. -/
theorem Reachable.deliver {inputs : List FsmInput} {ctx ctx' : FsmCtx} {memory memory' : σ}
    (reached : Reachable M crypto table sf ctx memory)
    (delivered : deliver M crypto table sf inputs ctx memory = some (ctx', memory')) :
    Reachable M crypto table sf ctx' memory' := by
  induction inputs generalizing ctx memory with
  | nil =>
      cases delivered
      exact reached
  | cons input rest ih =>
      rw [Upkit.deliver] at delivered
      split at delivered
      · cases delivered
      · exact ih (reached.step input) delivered

/-! ### The states before a manifest -/

/-- `STATE_IDLE` in three ways: refused, nothing new, or a session. -/
theorem fsmIdle_cases (data : List UInt8) (ctx : FsmCtx) (memory : σ) :
    (fsmIdle data ctx memory).2.1 = ctx.cleaned ∨ (fsmIdle data ctx memory).2.1 = ctx ∨
      (fsmIdle data ctx memory).2.1 = { ctx with state := .startUpdate } := by
  unfold fsmIdle
  split
  · exact Or.inl rfl
  · split
    · exact Or.inr (Or.inl rfl)
    · exact Or.inr (Or.inr rfl)

theorem fsmIdle_memory (data : List UInt8) (ctx : FsmCtx) (memory : σ) :
    (fsmIdle data ctx memory).2.2 = memory := by
  unfold fsmIdle
  split
  · rfl
  · split
    · rfl
    · rfl

/-- The context `STATE_CLEAN` hands to `STATE_IDLE`. -/
def FsmCtx.reset (ctx : FsmCtx) : FsmCtx :=
  { ctx with
    scratch := ctx.scratch.setMt (Manifest.ofBytes [])
    processed := 0
    id := 0
    state := .idle }

theorem fsmClean_eq (data : List UInt8) (ctx : FsmCtx) (memory : σ) :
    fsmClean data ctx memory = fsmIdle data ctx.reset memory := rfl

/-- The context a session begins to receive with. -/
def FsmCtx.begun (ctx : FsmCtx) (nonce : Nonce) : FsmCtx :=
  { ctx with
    scratch := ctx.scratch.store sizeofManifest nonce.bytes nonce.fits
    state := .receiveManifest }

theorem begun_mt (ctx : FsmCtx) (nonce : Nonce) : (ctx.begun nonce).scratch.mt = ctx.scratch.mt :=
  Scratch.store_mt ctx.scratch nonce.fits le_rfl

/-- `STATE_START_UPDATE` in two ways: refused, or the session begins. -/
theorem fsmStartUpdate_cases (input : FsmInput) (ctx : FsmCtx) (memory : σ) :
    ((fsmStartUpdate sf input ctx memory).ctx = ctx.cleaned ∨
        ∃ nonce, (fsmStartUpdate sf input ctx memory).ctx = ctx.begun nonce) ∧
      (fsmStartUpdate sf input ctx memory).memory = memory := by
  unfold fsmStartUpdate
  split
  · exact ⟨Or.inl rfl, rfl⟩
  · split
    · exact ⟨Or.inl rfl, rfl⟩
    · exact ⟨Or.inr ⟨_, rfl⟩, rfl⟩

/-- **The calls before a manifest** leave the memory alone, and this is what they make of the
context. -/
theorem fsm_early (input : FsmInput) {ctx : FsmCtx} (memory : σ)
    (early : ctx.state = .clean ∨ ctx.state = .idle ∨ ctx.state = .startUpdate) :
    (fsm M crypto table sf input ctx memory).memory = memory ∧
      ((fsm M crypto table sf input ctx memory).ctx.state = .clean ∨
        (ctx.state = .clean ∧ ((fsm M crypto table sf input ctx memory).ctx = ctx.reset ∨
          (fsm M crypto table sf input ctx memory).ctx =
            { ctx.reset with state := .startUpdate })) ∨
        (ctx.state = .idle ∧ ((fsm M crypto table sf input ctx memory).ctx = ctx ∨
          (fsm M crypto table sf input ctx memory).ctx = { ctx with state := .startUpdate })) ∨
        (ctx.state = .startUpdate ∧
          ∃ nonce, (fsm M crypto table sf input ctx memory).ctx = ctx.begun nonce)) := by
  unfold fsm
  rcases early with state | state | state
  · rw [state]
    refine ⟨?_, ?_⟩
    · exact fsmIdle_memory _ _ _
    · rcases fsmIdle_cases input.buf.data ctx.reset memory with cleaned | kept | started
      · refine Or.inl ?_
        show (fsmIdle input.buf.data ctx.reset memory).2.1.state = _
        rw [cleaned]
        rfl
      · exact Or.inr (Or.inl ⟨rfl, Or.inl kept⟩)
      · exact Or.inr (Or.inl ⟨rfl, Or.inr started⟩)
  · rw [state]
    refine ⟨?_, ?_⟩
    · exact fsmIdle_memory _ _ _
    · rcases fsmIdle_cases input.buf.data ctx memory with cleaned | kept | started
      · refine Or.inl ?_
        show (fsmIdle input.buf.data ctx memory).2.1.state = _
        rw [cleaned]
        rfl
      · exact Or.inr (Or.inr (Or.inl ⟨rfl, Or.inl kept⟩))
      · exact Or.inr (Or.inr (Or.inl ⟨rfl, Or.inr started⟩))
  · rw [state]
    obtain ⟨outcome, kept⟩ := fsmStartUpdate_cases sf input ctx memory
    refine ⟨kept, ?_⟩
    rcases outcome with cleaned | begun
    · refine Or.inl ?_
      show (fsmStartUpdate sf input ctx memory).ctx.state = _
      rw [cleaned]
      rfl
    · exact Or.inr (Or.inr (Or.inr ⟨rfl, begun⟩))

/-- The states a call before a manifest leads to. -/
theorem fsm_early_state (input : FsmInput) {ctx : FsmCtx} (memory : σ)
    (early : ctx.state = .clean ∨ ctx.state = .idle ∨ ctx.state = .startUpdate) :
    (fsm M crypto table sf input ctx memory).ctx.state = .clean ∨
      (fsm M crypto table sf input ctx memory).ctx.state = .idle ∨
      (fsm M crypto table sf input ctx memory).ctx.state = .startUpdate ∨
      (fsm M crypto table sf input ctx memory).ctx.state = .receiveManifest := by
  rcases (fsm_early M crypto table sf input memory early).2 with
    cleaned | ⟨_, kept | started⟩ | ⟨idle, kept | started⟩ | ⟨_, nonce, begun⟩
  · exact Or.inl cleaned
  · rw [kept]; exact Or.inr (Or.inl rfl)
  · rw [started]; exact Or.inr (Or.inr (Or.inl rfl))
  · rw [kept]; exact Or.inr (Or.inl idle)
  · rw [started]; exact Or.inr (Or.inr (Or.inl rfl))
  · rw [begun]; exact Or.inr (Or.inr (Or.inr rfl))

/-- A call before a manifest writes to no slot and leaves the machine writing to none. -/
theorem fsm_early_resting (input : FsmInput) {ctx : FsmCtx} (memory : σ)
    (early : ctx.state = .clean ∨ ctx.state = .idle ∨ ctx.state = .startUpdate) :
    Resting (fsm M crypto table sf input ctx memory).ctx := by
  rcases fsm_early_state M crypto table sf input memory early with cleaned | idle | started | waits
  · exact .of_state cleaned (by decide)
  · exact .of_state idle (by decide)
  · exact .of_state started (by decide)
  · exact .of_state waits (by decide)

/-- A newer version starts a session. -/
theorem fsm_idle_newer {input : FsmInput} {ctx : FsmCtx} (memory : σ) (state : ctx.state = .idle)
    (length : input.buf.data.length = 2) (newer : ctx.version < ofLE input.buf.data) :
    fsm M crypto table sf input ctx memory =
      ⟨.success, input.buf.data, { ctx with state := .startUpdate }, memory⟩ := by
  unfold fsm
  rw [state]
  simp only [fsmIdle, length, ne_eq, not_true_eq_false, if_false, if_neg (not_le.mpr newer)]
  rfl

/-- A message and a nonce begin it. -/
theorem fsm_startUpdate_begun {input : FsmInput} {ctx : FsmCtx} {nonce : Nonce} (memory : σ)
    (state : ctx.state = .startUpdate) (room : sizeofReceiverMsg ≤ input.buf.data.length)
    (generated : input.rng = .ok nonce) :
    fsm M crypto table sf input ctx memory =
      ⟨.success, fillReceiverMsg input.buf.data sf.udid ctx.version nonce, ctx.begun nonce,
        memory⟩ := by
  unfold fsm
  rw [state]
  simp only [fsmStartUpdate, if_neg (not_lt.mpr room), generated]
  rfl

end Runs

/-! ### Sessions -/

/-- The states in which the buffer of a call is payload. -/
def FsmCtx.Receiving (ctx : FsmCtx) : Prop :=
  ctx.state = .receiveManifest ∨ ctx.state = .receiveFirmware

section Sessions

variable {σ : Type} (M : MemoryInterface σ) (crypto : Crypto) (table : SlotTable)
  (sf : Safestore)

/-- Runs on the memory `start` of which every call is allowed, with the payload since the session
entered `STATE_RECEIVE_MANIFEST` and what `processed` was then. -/
inductive Session (allowed : FsmInput → FsmCtx → σ → List UInt8 → Prop) (start : σ) :
    FsmCtx → σ → List UInt8 → Nat → Prop
  | init (rngInit : PullError) (ctx : FsmCtx) :
      Session allowed start (fsmInit M table rngInit ctx start).2.1
        (fsmInit M table rngInit ctx start).2.2 [] 0
  | early (input : FsmInput) {ctx : FsmCtx} {memory : σ} {payload : List UInt8} {began : Nat} :
      Session allowed start ctx memory payload began → ¬ ctx.Receiving →
      allowed input ctx memory payload →
      Session allowed start (fsm M crypto table sf input ctx memory).ctx
        (fsm M crypto table sf input ctx memory).memory []
        (fsm M crypto table sf input ctx memory).ctx.processed
  | chunk (input : FsmInput) {ctx : FsmCtx} {memory : σ} {payload : List UInt8} {began : Nat} :
      Session allowed start ctx memory payload began → ctx.Receiving →
      allowed input ctx memory payload →
      Session allowed start (fsm M crypto table sf input ctx memory).ctx
        (fsm M crypto table sf input ctx memory).memory (payload ++ input.buf.data) began

/-- The invariant of a session: it collects its payload or, if it began with more than a manifest
behind it, is about to be refused; what holds of an armed slot is a parameter. -/
def Tracked (armed : FsmCtx → σ → List UInt8 → Prop) (ctx : FsmCtx) (memory : σ)
    (payload : List UInt8) (began : Nat) : Prop :=
  match ctx.state with
  | .clean => True
  | .idle => ctx.processed = 0 ∨ sizeofManifest < ctx.processed
  | .startUpdate => ctx.processed = 0 ∨ sizeofManifest < ctx.processed
  | .receiveManifest => (Collecting ctx payload ∧ began = 0) ∨
      (sizeofManifest < ctx.processed ∧ sizeofManifest < began)
  | .receiveFirmware => began = 0 ∧ armed ctx memory payload
  | .verifyManifest => False
  | .verifyFirmware => False
  | .reboot => True

variable {armed : FsmCtx → σ → List UInt8 → Prop}

/-- **A call before a manifest** keeps the invariant, with no payload. -/
theorem tracked_early (input : FsmInput) {ctx : FsmCtx} {memory : σ} {payload : List UInt8}
    {began : Nat} (tracked : Tracked armed ctx memory payload began) (early : ¬ ctx.Receiving) :
    Tracked armed (fsm M crypto table sf input ctx memory).ctx
      (fsm M crypto table sf input ctx memory).memory []
      (fsm M crypto table sf input ctx memory).ctx.processed := by
  have before : ctx.state = .clean ∨ ctx.state = .idle ∨ ctx.state = .startUpdate →
      Tracked armed (fsm M crypto table sf input ctx memory).ctx
        (fsm M crypto table sf input ctx memory).memory []
        (fsm M crypto table sf input ctx memory).ctx.processed := by
    intro state
    unfold Tracked at tracked
    rcases (fsm_early M crypto table sf input memory state).2 with
      cleaned | ⟨_, kept | started⟩ | ⟨idle, kept | started⟩ | ⟨start, nonce, begun⟩
    · unfold Tracked
      rw [cleaned]
      trivial
    · rw [kept]
      exact Or.inl rfl
    · rw [started]
      exact Or.inl rfl
    · rw [kept]
      rw [idle] at tracked
      unfold Tracked
      rw [idle]
      exact tracked
    · rw [started]
      rw [idle] at tracked
      exact tracked
    · rw [begun]
      rw [start] at tracked
      exact tracked.imp (fun zero => ⟨⟨rfl, zero, by decide, rfl⟩, zero⟩) fun past => ⟨past, past⟩
  cases state : ctx.state with
  | clean => exact before (Or.inl state)
  | idle => exact before (Or.inr (Or.inl state))
  | startUpdate => exact before (Or.inr (Or.inr state))
  | receiveManifest => exact absurd (Or.inl state) early
  | receiveFirmware => exact absurd (Or.inr state) early
  | verifyManifest =>
      unfold Tracked at tracked
      rw [state] at tracked
      exact False.elim tracked
  | verifyFirmware =>
      unfold Tracked at tracked
      rw [state] at tracked
      exact False.elim tracked
  | reboot =>
      rw [fsm_reboot M crypto table sf input memory state]
      unfold Tracked
      rw [state]
      trivial

/-- A session that is past its manifest is refused. -/
theorem fsm_past (input : FsmInput) {ctx : FsmCtx} (memory : σ)
    (state : ctx.state = .receiveManifest) (past : sizeofManifest < ctx.processed) :
    fsm M crypto table sf input ctx memory =
      ⟨.invalidState, input.buf.data, ctx.cleaned, memory⟩ := by
  rw [fsm_manifestState M crypto table sf memory state, if_pos past]
  rfl

/-- **The invariant rule for sessions**: the call that arms a slot and a chunk of firmware are left
to show. -/
theorem tracked_of_session {allowed : FsmInput → FsmCtx → σ → List UInt8 → Prop} {start : σ}
    (arms : ∀ (input : FsmInput) (ctx : FsmCtx) (memory : σ) (payload : List UInt8),
      Collecting ctx payload → sizeofManifest ≤ payload.length + input.buf.data.length →
      Accepted crypto sf ctx.version (Manifest.ofBytes (payload ++ input.buf.data)) →
      allowed input ctx memory payload →
      Tracked armed (fsm M crypto table sf input ctx memory).ctx
        (fsm M crypto table sf input ctx memory).memory (payload ++ input.buf.data) 0)
    (receives : ∀ (input : FsmInput) (ctx : FsmCtx) (memory : σ) (payload : List UInt8),
      ctx.state = .receiveFirmware → armed ctx memory payload →
      allowed input ctx memory payload →
      Tracked armed (fsm M crypto table sf input ctx memory).ctx
        (fsm M crypto table sf input ctx memory).memory (payload ++ input.buf.data) 0)
    {ctx : FsmCtx} {memory : σ} {payload : List UInt8} {began : Nat}
    (session : Session M crypto table sf allowed start ctx memory payload began) :
    Tracked armed ctx memory payload began := by
  induction session with
  | init rngInit ctx =>
      obtain ⟨state, processed⟩ := fsmInit_state M table rngInit ctx start
      unfold Tracked
      rw [state]
      exact Or.inl processed
  | early input _ early _ ih => exact tracked_early M crypto table sf input ih early
  | @chunk input ctx memory payload began _ receiving granted ih =>
      unfold Tracked at ih
      rcases receiving with state | state
      · rw [state] at ih
        rcases ih with ⟨collecting, rfl⟩ | ⟨past, _⟩
        · by_cases few : payload.length + input.buf.data.length < sizeofManifest
          · rw [fsm_collecting M crypto table sf input collecting, if_pos few]
            have longer := collecting_short collecting few
            unfold Tracked
            rw [show (keepBuf input.buf.data (PullError.success, ctx.collected input.buf.data,
              memory)).ctx.state = .receiveManifest from state]
            exact Or.inl ⟨longer, rfl⟩
          · have enough := not_lt.mp few
            by_cases accepted : Accepted crypto sf ctx.version
                (Manifest.ofBytes (payload ++ input.buf.data))
            · exact arms input ctx memory payload collecting enough accepted granted
            · rw [fsm_collecting_refused M crypto table sf collecting enough accepted]
              trivial
        · rw [fsm_past M crypto table sf input memory state past]
          trivial
      · rw [state] at ih
        obtain ⟨rfl, holds⟩ := ih
        exact receives input ctx memory payload state holds granted

end Sessions

/-! ### A reboot is sound -/

section Reboot

variable (erased : Option UInt8) (crypto : Crypto) (table : SlotTable) (sf : Safestore)

/-- **A call in the manifest state**, on a plain memory: the session ends, goes on collecting, or
arms the oldest slot with a manifest that passed. -/
theorem fsm_receiveManifest (input : FsmInput) {ctx : FsmCtx} (memory : Contents)
    (state : ctx.state = .receiveManifest) :
    ((fsm (plain (fullLayout erased)) crypto table sf input ctx memory).ctx.state = .clean ∧
        (fsm (plain (fullLayout erased)) crypto table sf input ctx memory).memory = memory) ∨
      (ctx.processed + input.buf.data.length < sizeofManifest ∧
        fsm (plain (fullLayout erased)) crypto table sf input ctx memory =
          ⟨.success, input.buf.data, ctx.collected input.buf.data, memory⟩) ∨
      ∃ mt rest, Accepted crypto sf ctx.version mt ∧ ctx.processed ≤ sizeofManifest ∧
        mt = (ctx.collected input.buf.data).scratch.mt ∧
        rest = input.buf.data.drop (sizeofManifest - ctx.processed) ∧
        Armed (fsm (plain (fullLayout erased)) crypto table sf input ctx memory).ctx
          (fsm (plain (fullLayout erased)) crypto table sf input ctx memory).memory
          (opened erased (oldestSlot table memory).id memory) (mt.full.bytes ++ rest) ∧
        (fsm (plain (fullLayout erased)) crypto table sf input ctx memory).ctx.id =
          (oldestSlot table memory).id ∧
        (fsm (plain (fullLayout erased)) crypto table sf input ctx memory).ctx.version =
          ctx.version ∧
        (fsm (plain (fullLayout erased)) crypto table sf input ctx memory).ctx.oldId =
          ctx.oldId := by
  have call := @fsm_manifestState _ (plain (fullLayout erased)) crypto table sf input ctx memory
    state
  by_cases past : sizeofManifest < ctx.processed
  · rw [if_pos past] at call
    rw [call]
    exact Or.inl ⟨rfl, rfl⟩
  rw [if_neg past] at call
  by_cases few : ctx.processed + input.buf.data.length < sizeofManifest
  · rw [if_pos few] at call
    exact Or.inr (Or.inl ⟨few, call⟩)
  rw [if_neg few] at call
  have room : ctx.processed ≤ sizeofManifest := not_lt.mp past
  by_cases accepted : Accepted crypto sf (ctx.collected input.buf.data).version
      (ctx.collected input.buf.data).scratch.mt
  · have short : (input.buf.data.drop (sizeofManifest - ctx.processed)).length < 2 ^ 31 := by
      have bound := input.buf.short
      rw [List.length_drop]
      omega
    have mt : (ctx.collected input.buf.data).configured.scratch.mt =
        (ctx.collected input.buf.data).scratch.mt.full := Scratch.setMt_mt _ _
    have begun := armed_begin erased table (ctx.collected input.buf.data).configured memory
      rfl short
      (collected_complete input.buf.data room (not_lt.mp few)).1
    rw [fsmVerifyManifest_accepted _ _ accepted, fsmArm_plain erased table _ _ _ rfl rfl short]
      at call
    rw [mt] at begun
    rw [call]
    refine Or.inr (Or.inr ⟨_, _, accepted, room, rfl, rfl, ?_, rfl, rfl, rfl⟩)
    show Armed ((ctx.collected input.buf.data).configured.armed _ _ _ _) _ _ _
    rw [mt]
    exact begun
  · rw [fsmVerifyManifest_refused _ _ accepted] at call
    rw [call]
    exact Or.inl ⟨rfl, rfl⟩

/-- The slot a machine reboots into: it passes `verify_object`, and its manifest is newer than the
device and meant for it. -/
def RebootsInto (ctx : FsmCtx) (memory : Contents) : Prop :=
  (∀ buffer, (verifyObject (plain (fullLayout erased)) crypto ⟨ctx.id, .readOnly⟩ sf buffer
      fsmBufferSize memory).1 = .success) ∧
    ctx.version < (manifestAt memory ctx.id).getVersion ∧
    (manifestAt memory ctx.id).getAppid = sf.appid

/-- The invariant: an armed slot begins with a manifest that passed, and a reboot is sound. -/
def SoundState (ctx : FsmCtx) (memory : Contents) : Prop :=
  match ctx.state with
  | .receiveFirmware => ∃ start fed mt, Armed ctx memory start fed ∧
      Accepted crypto sf ctx.version mt ∧ fed.take sizeofManifest = mt.full.bytes
  | .reboot => RebootsInto erased crypto sf ctx memory
  | .verifyManifest => False
  | .verifyFirmware => False
  | _ => True

/-- A completed image that passes is a sound reboot. -/
theorem rebootsInto_image {ctx : FsmCtx} {memory : Contents} {image : List UInt8} {mt : Manifest}
    {space : Nat → UInt8} (holds : memory ctx.id = writeRange space 0 image)
    (whole : sizeofManifest ≤ image.length) (begins : image.take sizeofManifest = mt.full.bytes)
    (accepted : Accepted crypto sf ctx.version mt)
    (passes : slotVerdict crypto sf (memory ctx.id) = .success) :
    RebootsInto erased crypto sf ctx memory := by
  have verified : ∀ buffer, (verifyObject (plain (fullLayout erased)) crypto ⟨ctx.id, .readOnly⟩
      sf buffer fsmBufferSize memory).1 = .success := by
    intro buffer
    rw [verifyObject_slotVerdict]
    exact passes
  have manifest : manifestAt memory ctx.id = mt.full := by
    apply Manifest.ext
    rw [manifestAt_bytes, holds, readRange_writeRange_inside space
      (by rw [Nat.zero_add]; exact whole), ← begins]
    rfl
  have valid := verifyManifest_of_verifyObject crypto sf (sizeofManifest_le_full erased ctx.id)
    (verified [])
  refine ⟨verified, ?_, ((verifyManifest_success_iff _ _ _).mp valid).1⟩
  rw [manifest, Manifest.full_getVersion]
  exact accepted.1

/-- **One call keeps the invariant.** -/
theorem soundState_step (input : FsmInput) {ctx : FsmCtx} {memory : Contents}
    (sound : SoundState erased crypto sf ctx memory) :
    SoundState erased crypto sf
      (fsm (plain (fullLayout erased)) crypto table sf input ctx memory).ctx
      (fsm (plain (fullLayout erased)) crypto table sf input ctx memory).memory := by
  have quiet : ∀ (ctx' : FsmCtx) (memory' : Contents),
      ctx'.state = .clean ∨ ctx'.state = .idle ∨ ctx'.state = .startUpdate ∨
        ctx'.state = .receiveManifest → SoundState erased crypto sf ctx' memory' := by
    intro ctx' memory' state
    unfold SoundState
    rcases state with state | state | state | state
    · rw [state]; trivial
    · rw [state]; trivial
    · rw [state]; trivial
    · rw [state]; trivial
  have early : ctx.state = .clean ∨ ctx.state = .idle ∨ ctx.state = .startUpdate →
      SoundState erased crypto sf
        (fsm (plain (fullLayout erased)) crypto table sf input ctx memory).ctx
        (fsm (plain (fullLayout erased)) crypto table sf input ctx memory).memory := by
    intro state
    apply quiet
    exact fsm_early_state (plain (fullLayout erased)) crypto table sf input memory state
  cases state : ctx.state with
  | clean => exact early (Or.inl state)
  | idle => exact early (Or.inr (Or.inl state))
  | startUpdate => exact early (Or.inr (Or.inr state))
  | receiveManifest =>
      rcases fsm_receiveManifest erased crypto table sf input memory state with
        ⟨cleaned, _⟩ | ⟨_, call⟩ | ⟨mt, rest, accepted, _, _, _, armed, _, version, _⟩
      · exact quiet _ _ (Or.inl cleaned)
      · rw [call]
        exact quiet _ _ (Or.inr (Or.inr (Or.inr state)))
      · unfold SoundState
        rw [armed.state]
        refine ⟨_, _, mt, armed, ?_, ?_⟩
        · rw [version]
          exact accepted
        · exact List.take_left' mt.full.length_eq
  | verifyManifest =>
      unfold SoundState at sound
      rw [state] at sound
      exact False.elim sound
  | verifyFirmware =>
      unfold SoundState at sound
      rw [state] at sound
      exact False.elim sound
  | receiveFirmware =>
      unfold SoundState at sound
      rw [state] at sound
      obtain ⟨start, fed, mt, session, accepted, begins⟩ := sound
      have whole : sizeofManifest ≤ fed.length := by
        have lengths := congrArg List.length begins
        rw [List.length_take, mt.full.length_eq] at lengths
        omega
      have begins' : (fed ++ input.buf.data).take sizeofManifest = mt.full.bytes := by
        rw [List.take_append_of_le_length whole, begins]
      rcases lt_trichotomy (fed.length + input.buf.data.length) ctx.expected with
        before | complete | beyond
      · obtain ⟨ctx', memory', call, session', _, _, version⟩ :=
          fsm_armed_before erased crypto table sf session before
        rw [call]
        unfold SoundState
        rw [session'.state]
        exact ⟨start, _, mt, session', by rw [version]; exact accepted, begins'⟩
      · obtain ⟨ctx', call, rests, id, version, _, _⟩ :=
          fsm_armed_exact erased crypto table sf session complete
        rw [call]
        by_cases passes : slotVerdict crypto sf
            (writeRange (start ctx.id) 0 (fed ++ input.buf.data)) = .success
        · rw [if_pos passes] at rests
          unfold SoundState
          rw [rests]
          have image : Function.update start ctx.id
              (writeRange (start ctx.id) 0 (fed ++ input.buf.data)) ctx'.id =
                writeRange (start ctx.id) 0 (fed ++ input.buf.data) := by
            rw [id, Function.update_self]
          exact rebootsInto_image erased crypto sf image
            (by rw [List.length_append]; omega) begins' (by rw [version]; exact accepted)
            (show slotVerdict crypto sf (Function.update start ctx.id
              (writeRange (start ctx.id) 0 (fed ++ input.buf.data)) ctx'.id) = .success by
              rw [image]; exact passes)
        · rw [if_neg passes] at rests
          exact quiet _ _ (Or.inr (Or.inl rests))
      · rw [fsm_armed_beyond erased crypto table sf session beyond]
        exact quiet _ _ (Or.inl rfl)
  | reboot =>
      rw [fsm_reboot (plain (fullLayout erased)) crypto table sf input memory state]
      exact sound

/-- **A reboot is sound** after any run. -/
theorem reachable_reboot {ctx : FsmCtx} {memory : Contents}
    (reached : Reachable (plain (fullLayout erased)) crypto table sf ctx memory)
    (rebooting : ctx.state = .reboot) :
    (∀ buffer, (verifyObject (plain (fullLayout erased)) crypto ⟨ctx.id, .readOnly⟩ sf buffer
        fsmBufferSize memory).1 = .success) ∧
      ctx.version < (manifestAt memory ctx.id).getVersion ∧
      (manifestAt memory ctx.id).getAppid = sf.appid := by
  have sound : SoundState erased crypto sf ctx memory := by
    clear rebooting
    induction reached with
    | init rngInit ctx memory =>
        unfold SoundState
        rw [(fsmInit_state (plain (fullLayout erased)) table rngInit ctx memory).1]
        trivial
    | step input _ ih => exact soundState_step erased crypto table sf input ih
  unfold SoundState at sound
  rw [rebooting] at sound
  exact sound

end Reboot

/-! ### A download is exact -/

section Reaches

variable {σ : Type} (M : MemoryInterface σ) (crypto : Crypto) (table : SlotTable)
  (sf : Safestore)

/-- The context and memory with which a call reaches `verify_object`, if it does. -/
def reachesVerification (input : FsmInput) (ctx : FsmCtx) (memory : σ) : Option (FsmCtx × σ) :=
  match ctx.state with
  | .receiveFirmware =>
      match fsmReceiveData M input.buf.data ctx memory with
      | .falls ctx memory => some (ctx, memory)
      | .returns _ _ _ => none
  | .verifyFirmware => some (ctx, memory)
  | _ => none

/-- What such a call does from there on. -/
theorem fsm_reachesVerification {input : FsmInput} {ctx ctx' : FsmCtx} {memory memory' : σ}
    (reaches : reachesVerification M input ctx memory = some (ctx', memory')) :
    fsm M crypto table sf input ctx memory =
      keepBuf input.buf.data (fsmVerifyFirmware M crypto sf ctx' memory') := by
  unfold reachesVerification at reaches
  unfold fsm
  cases state : ctx.state with
  | receiveFirmware =>
      rw [state] at reaches
      simp only at reaches
      simp only [fsmReceiveFirmware]
      cases data : fsmReceiveData M input.buf.data ctx memory with
      | falls ctx₁ memory₁ =>
          rw [data] at reaches
          cases reaches
          rfl
      | returns err ctx₁ memory₁ =>
          rw [data] at reaches
          cases reaches
  | verifyFirmware =>
      rw [state] at reaches
      cases reaches
      rfl
  | clean => rw [state] at reaches; cases reaches
  | idle => rw [state] at reaches; cases reaches
  | startUpdate => rw [state] at reaches; cases reaches
  | receiveManifest => rw [state] at reaches; cases reaches
  | verifyManifest => rw [state] at reaches; cases reaches
  | reboot => rw [state] at reaches; cases reaches

end Reaches

section Download

variable (erased : Option UInt8) (crypto : Crypto) (table : SlotTable) (sf : Safestore)

/-- The slot has been fed the payload. -/
def Fed (ctx : FsmCtx) (memory : Contents) (payload : List UInt8) : Prop :=
  sizeofManifest ≤ payload.length ∧ ∃ start, Armed ctx memory start (storedStream payload)

/-- **A chunk of firmware** keeps a slot fed. -/
theorem tracked_armed {input : FsmInput} (nonempty : input.buf.data ≠ []) {ctx : FsmCtx}
    {memory start : Contents} {payload : List UInt8} (whole : sizeofManifest ≤ payload.length)
    (session : Armed ctx memory start (storedStream payload)) :
    Tracked Fed (fsm (plain (fullLayout erased)) crypto table sf input ctx memory).ctx
      (fsm (plain (fullLayout erased)) crypto table sf input ctx memory).memory
      (payload ++ input.buf.data) 0 := by
  have positive : 0 < input.buf.data.length := List.length_pos_of_ne_nil nonempty
  rcases lt_trichotomy ((storedStream payload).length + input.buf.data.length) ctx.expected with
    before | complete | beyond
  · obtain ⟨ctx', memory', call, session', _⟩ :=
      fsm_armed_before erased crypto table sf session before
    rw [← storedStream_append whole] at session'
    rw [call]
    unfold Tracked
    rw [session'.state]
    exact ⟨rfl, by rw [List.length_append]; omega, start, session'⟩
  · obtain ⟨ctx', call, rests, _, _, _, processed⟩ :=
      fsm_armed_exact erased crypto table sf session complete
    rw [storedStream_length whole] at complete
    rw [call]
    by_cases passes : slotVerdict crypto sf
        (writeRange (start ctx.id) 0 (storedStream payload ++ input.buf.data)) = .success
    · rw [if_pos passes] at rests
      unfold Tracked
      rw [rests]
      trivial
    · rw [if_neg passes] at rests
      unfold Tracked
      rw [rests]
      refine Or.inr ?_
      rw [processed]
      omega
  · rw [fsm_armed_beyond erased crypto table sf session beyond]
    trivial

/-- The payload comes in chunks that are not empty. -/
def NonemptyChunk (input : FsmInput) (ctx : FsmCtx) (_ : Contents) (_ : List UInt8) : Prop :=
  ctx.Receiving → input.buf.data ≠ []

/-- In every download the armed slot is fed the payload. -/
theorem tracked_of_download {start memory : Contents} {ctx : FsmCtx} {payload : List UInt8}
    {began : Nat} (download : Session (plain (fullLayout erased)) crypto table sf NonemptyChunk
      start ctx memory payload began) : Tracked Fed ctx memory payload began := by
  refine tracked_of_session _ _ _ _ ?_ ?_ download
  · intro input ctx memory payload session enough accepted _
    obtain ⟨ctx', memory', call, armed, _⟩ :=
      fsm_collecting_accepted erased crypto table sf session enough accepted
    rw [call]
    unfold Tracked
    rw [armed.state]
    exact ⟨rfl, by rw [List.length_append]; exact enough, _, armed⟩
  · rintro input ctx memory payload state ⟨whole, start, session⟩ nonempty
    exact tracked_armed erased crypto table sf (nonempty (Or.inr state)) whole session

/-- **A download is exact.** When the verification begins, the slot holds the payload of the
session up to `diff_version`; until then `processed` counts it. -/
theorem download_exact {start memory : Contents} {ctx : FsmCtx} {payload : List UInt8}
    {began : Nat} (download : Session (plain (fullLayout erased)) crypto table sf NonemptyChunk
      start ctx memory payload began) :
    (∀ (input : FsmInput) (ctx' : FsmCtx) (memory' : Contents), input.buf.data ≠ [] →
        reachesVerification (plain (fullLayout erased)) input ctx memory = some (ctx', memory') →
        readRange (memory' ctx'.id) 0 ctx'.expected =
          splice (payload ++ input.buf.data) Field.diffVersion.offset [0, 0]) ∧
      (ctx.Receiving → began = 0 → ctx.processed = payload.length) := by
  have tracked := tracked_of_download erased crypto table sf download
  unfold Tracked at tracked
  refine ⟨?_, ?_⟩
  · intro input ctx' memory' nonempty reaches
    unfold reachesVerification at reaches
    cases state : ctx.state with
    | receiveFirmware =>
        rw [state] at reaches tracked
        obtain ⟨_, whole, begin', session⟩ := tracked
        have whole' : sizeofManifest ≤ (payload ++ input.buf.data).length := by
          rw [List.length_append]
          omega
        simp only [fsmReceiveData_plain erased session] at reaches
        by_cases beyond : ctx.expected < ctx.processed + input.buf.data.length
        · simp only [if_pos beyond] at reaches
          cases reaches
        by_cases exact' : ctx.processed + input.buf.data.length = ctx.expected
        · simp only [if_neg beyond] at reaches
          simp only [exact', ne_eq, not_true_eq_false, if_false, Option.some.injEq,
            Prod.mk.injEq] at reaches
          obtain ⟨rfl, rfl⟩ := reaches
          have count := session.processed
          have stored := storedStream_append whole input.buf.data
          show readRange (Function.update begin' ctx.id _ ctx.id) 0 ctx.expected = _
          rw [Function.update_self, ← storedStream_splice whole', stored, ← exact', count,
            ← List.length_append, readRange_writeRange_self]
        · simp only [if_neg beyond, ne_eq, exact', not_false_eq_true, if_true] at reaches
          cases reaches
    | verifyFirmware => rw [state] at tracked; exact False.elim tracked
    | clean => rw [state] at reaches; cases reaches
    | idle => rw [state] at reaches; cases reaches
    | startUpdate => rw [state] at reaches; cases reaches
    | receiveManifest => rw [state] at reaches; cases reaches
    | verifyManifest => rw [state] at reaches; cases reaches
    | reboot => rw [state] at reaches; cases reaches
  · intro receiving zero
    rcases receiving with state | state
    · rw [state] at tracked
      rcases tracked with ⟨session, _⟩ | ⟨_, past⟩
      · exact session.processed
      · omega
    · rw [state] at tracked
      obtain ⟨_, whole, _, session⟩ := tracked
      rw [session.processed, storedStream_length whole]

end Download

/-! ### The beginning of a session on a blank device -/

/-- What `fsm_init` leaves on a device whose two slots are blank. -/
def blankCtx : FsmCtx :=
  (fsmInit (plain (fullLayout none)) twoSlots .success FsmCtx.zero (fun _ _ => 0)).2.1

/-- Version `2` is announced. -/
def versionCall : FsmInput := callWith [2, 0] (by decide)

/-- The largest version there is is announced. -/
def lastVersion : FsmInput := callWith [255, 255] (by decide)

/-- One byte, which is no version. -/
def byteCall : FsmInput := callWith [0] (by decide)

/-- Room for the message to the server. -/
def messageCall : FsmInput := callWith (List.replicate 16 0) (by decide)

/-- The context that waits for a manifest. -/
def blankSession : FsmCtx :=
  FsmCtx.begun { blankCtx with state := .startUpdate } zeroNonce

theorem blankCtx_idle : blankCtx.state = .idle :=
  (fsmInit_state (plain (fullLayout none)) twoSlots .success FsmCtx.zero (fun _ _ => 0)).1

theorem blankCtx_version : blankCtx.version = 0 := by
  refine (fsmInit_found (plain (fullLayout none)) twoSlots .success FsmCtx.zero _).2.1.trans ?_
  rw [getNewestFirmware, getOrderedFirmware_plain (fullLayout none) _ twoSlots _ _ _ _
    (fun slot _ => sizeofManifest_le_full none slot.id)]
  decide +kernel

theorem blankCtx_memory :
    (fsmInit (plain (fullLayout none)) twoSlots .success FsmCtx.zero (fun _ _ => 0)).2.2 =
      fun _ _ => 0 := by
  rw [(fsmInit_found (plain (fullLayout none)) twoSlots .success FsmCtx.zero _).2.2,
    getNewestFirmware, getOrderedFirmware_plain (fullLayout none) _ twoSlots _ _ _ _
      (fun slot _ => sizeofManifest_le_full none slot.id)]

theorem blankCtx_reachable :
    Reachable (plain (fullLayout none)) mirrorCrypto twoSlots zeroSafestore blankCtx
      (fun _ _ => 0) := by
  have fresh : Reachable (plain (fullLayout none)) mirrorCrypto twoSlots zeroSafestore _ _ :=
    Reachable.init .success FsmCtx.zero (fun _ _ => 0)
  rw [blankCtx_memory] at fresh
  exact fresh

theorem blankSession_collecting : Collecting blankSession [] ∧ blankSession.version = 0 :=
  ⟨⟨rfl, (fsmInit_state (plain (fullLayout none)) twoSlots .success FsmCtx.zero
    (fun _ _ => 0)).2, by decide, rfl⟩, blankCtx_version⟩

theorem fsm_versionCall :
    fsm (plain (fullLayout none)) mirrorCrypto twoSlots zeroSafestore versionCall blankCtx
        (fun _ _ => 0) =
      ⟨.success, versionCall.buf.data, { blankCtx with state := .startUpdate }, fun _ _ => 0⟩ :=
  fsm_idle_newer _ _ _ _ _ (fsmInit_state _ twoSlots .success FsmCtx.zero _).1 rfl
    (by rw [blankCtx_version]; decide)

theorem fsm_messageCall :
    (fsm (plain (fullLayout none)) mirrorCrypto twoSlots zeroSafestore messageCall
        { blankCtx with state := .startUpdate } (fun _ _ => 0)).ctx = blankSession ∧
      (fsm (plain (fullLayout none)) mirrorCrypto twoSlots zeroSafestore messageCall
        { blankCtx with state := .startUpdate } (fun _ _ => 0)).memory = fun _ _ => 0 := by
  rw [fsm_startUpdate_begun (plain (fullLayout none)) mirrorCrypto twoSlots zeroSafestore
    (fun _ _ => 0) rfl (by decide) rfl]
  exact ⟨rfl, rfl⟩

/-- The signed update, from `fsm_init` to the reboot. -/
theorem signedUpdate_sound :
    ∃ ctx memory, Reachable (plain (fullLayout none)) mirrorCrypto twoSlots zeroSafestore ctx
        memory ∧ ctx.state = .reboot ∧
      (∀ buffer, (verifyObject (plain (fullLayout none)) mirrorCrypto ⟨ctx.id, .readOnly⟩
        zeroSafestore buffer fsmBufferSize memory).1 = .success) ∧
      ctx.version < (manifestAt memory ctx.id).getVersion ∧
      (manifestAt memory ctx.id).getAppid = 0 := by
  have started := Reachable.step versionCall blankCtx_reachable
  rw [fsm_versionCall] at started
  have waiting := Reachable.step messageCall started
  rw [fsm_messageCall.1, fsm_messageCall.2] at waiting
  obtain ⟨armedCtx, memory, call, armed, expected⟩ := signedUpdate_armed (fun _ _ => 0)
    blankSession_collecting.1 blankSession_collecting.2
  have downloading := Reachable.step manifestCall waiting
  rw [call] at downloading
  have rebooted := Reachable.step firmwareCall downloading
  have state := signedUpdate_reboots armed expected
  exact ⟨_, _, rebooted, state,
    reachable_reboot none mirrorCrypto twoSlots zeroSafestore rebooted state⟩

/-- The signed update on its way: its manifest has gone into the slot, and its firmware reaches
the verification. -/
theorem signedUpdate_downloaded :
    ∃ ctx memory, Session (plain (fullLayout none)) mirrorCrypto twoSlots zeroSafestore
        NonemptyChunk (fun _ _ => 0) ctx memory signedManifest 0 ∧
      ctx.Receiving ∧ ctx.processed = signedManifest.length ∧
      ∃ ctx' memory', reachesVerification (plain (fullLayout none)) firmwareCall ctx memory =
          some (ctx', memory') ∧
        readRange (memory' ctx'.id) 0 ctx'.expected =
          splice (signedManifest ++ zeroFirmware) Field.diffVersion.offset [0, 0] := by
  have idle := (fsmInit_state (plain (fullLayout none)) twoSlots .success FsmCtx.zero
    (fun _ _ => 0)).1
  have fresh : Session (plain (fullLayout none)) mirrorCrypto twoSlots zeroSafestore NonemptyChunk
      (fun _ _ => 0) _ _ [] 0 := Session.init .success FsmCtx.zero
  rw [blankCtx_memory] at fresh
  have resting : ¬ FsmCtx.Receiving (fsmInit (plain (fullLayout none)) twoSlots .success
      FsmCtx.zero (fun _ _ => 0)).2.1 := by
    rintro (state | state)
    · exact absurd (idle.symm.trans state) (by decide)
    · exact absurd (idle.symm.trans state) (by decide)
  have started := Session.early versionCall fresh resting (fun receiving =>
    absurd receiving resting)
  rw [show (fsmInit (plain (fullLayout none)) twoSlots .success FsmCtx.zero
    (fun _ _ => 0)).2.1 = blankCtx from rfl, fsm_versionCall] at started
  have resting' : ¬ FsmCtx.Receiving { blankCtx with state := .startUpdate } := by
    rintro (state | state)
    · cases state
    · cases state
  have waiting := Session.early messageCall started resting' (fun receiving =>
    absurd receiving resting')
  rw [fsm_messageCall.1, fsm_messageCall.2, blankSession_collecting.1.processed] at waiting
  obtain ⟨ctx, memory, call, armed, expected⟩ := signedUpdate_armed (fun _ _ => 0)
    blankSession_collecting.1 blankSession_collecting.2
  have nonempty : ∀ (input : FsmInput) (size : Nat), input.buf.data.length = size → 0 < size →
      input.buf.data ≠ [] :=
    fun input size length positive => List.ne_nil_of_length_pos (length ▸ positive)
  have downloading := Session.chunk manifestCall waiting (Or.inl rfl) (fun _ =>
    nonempty manifestCall 256 signedManifest_length (by decide))
  rw [call, List.nil_append, show manifestCall.buf.data = signedManifest from rfl] at downloading
  have firmware : firmwareCall.buf.data.length = 1024 := List.length_replicate
  have complete : ctx.processed + firmwareCall.buf.data.length = ctx.expected := by
    rw [armed.processed, signedManifest_length, firmware, expected]
  obtain ⟨exact', counts⟩ := download_exact none mirrorCrypto twoSlots zeroSafestore downloading
  have reaches : ∃ ctx' memory', reachesVerification (plain (fullLayout none)) firmwareCall ctx
      memory = some (ctx', memory') := by
    unfold reachesVerification
    rw [armed.state]
    simp only [fsmReceiveData_plain none armed, complete, lt_irrefl, ne_eq, not_true_eq_false,
      if_false]
    exact ⟨_, _, rfl⟩
  obtain ⟨ctx', memory', reaches⟩ := reaches
  exact ⟨ctx, memory, downloading, Or.inr armed.state, counts (Or.inr armed.state) rfl, ctx',
    memory', reaches, exact' firmwareCall ctx' memory'
      (nonempty firmwareCall 1024 firmware (by decide)) reaches⟩

end Upkit
