/-
**What binds a manifest to its session.**

`STATE_START_UPDATE` puts a nonce into the message and keeps it in `is->nonce`; the comparison of the
manifest's nonce with it is commented out in the source, and nothing compares the device. Runs are
taken with the latest message (`Exchange`).

* `nonce_of_exchange` — while a manifest is received, `is->nonce` is still the nonce of the message.
* `bound_iff` — so a manifest that is taken is bound to its session exactly when it would have passed
  the comparison that is missing.
-/

import Upkit.Network.Residue
import Upkit.Server.Firmware

namespace Upkit

open Bytes

/-- `is->nonce`. -/
def Scratch.nonce (scratch : Scratch) : List UInt8 := slice scratch.bytes sizeofManifest 4

/-- What is stored in front of `is->nonce` leaves it alone. -/
theorem Scratch.nonce_store (scratch : Scratch) {offset : Nat} {data : List UInt8}
    (fits : offset + data.length ≤ fsmBufferSize) (before : offset + data.length ≤ sizeofManifest) :
    (scratch.store offset data fits).nonce = scratch.nonce :=
  slice_splice_disjoint (by rw [scratch.length_eq]; exact fits) (Or.inr before)

/-- A session begins with its nonce in `is->nonce`. -/
theorem begun_nonce (ctx : FsmCtx) (nonce : Nonce) :
    (ctx.begun nonce).scratch.nonce = nonce.bytes := by
  have stored := @slice_splice_self ctx.scratch.bytes nonce.bytes sizeofManifest
    (by rw [ctx.scratch.length_eq]; decide)
  rw [nonce.length_eq] at stored
  exact stored

/-- The nonce of a filled message. -/
theorem fillReceiverMsg_nonce (data : List UInt8) (udid version : Nat) (nonce : Nonce)
    (room : sizeofReceiverMsg ≤ data.length) :
    slice (fillReceiverMsg data udid version nonce) 4 4 = nonce.bytes := by
  have size : sizeofReceiverMsg = 16 := rfl
  have filled : (splice data 0 (toLE 2 udid)).length = data.length :=
    splice_length (by rw [toLE_length]; omega)
  have filled' : (splice (splice data 0 (toLE 2 udid)) 8 (toLE 2 version)).length = data.length :=
    (splice_length (by rw [toLE_length, filled]; omega)).trans filled
  have stored := @slice_splice_self (splice (splice data 0 (toLE 2 udid)) 8 (toLE 2 version))
    nonce.bytes 4 (by rw [filled']; omega)
  rw [nonce.length_eq] at stored
  exact stored

section Exchanges

variable {σ : Type} (M : MemoryInterface σ) (crypto : Crypto) (table : SlotTable)
  (sf : Safestore)

/-- Runs from `fsm_init` with the buffer that the latest call in `STATE_START_UPDATE` has left. -/
inductive Exchange : FsmCtx → σ → List UInt8 → Prop
  | init (rngInit : PullError) (ctx : FsmCtx) (memory : σ) :
      Exchange (fsmInit M table rngInit ctx memory).2.1 (fsmInit M table rngInit ctx memory).2.2 []
  | step (input : FsmInput) {ctx : FsmCtx} {memory : σ} {message : List UInt8} :
      Exchange ctx memory message →
      Exchange (fsm M crypto table sf input ctx memory).ctx
        (fsm M crypto table sf input ctx memory).memory
        (if ctx.state = .startUpdate then (fsm M crypto table sf input ctx memory).buf else message)

variable {M crypto table sf} in
theorem Exchange.reachable {ctx : FsmCtx} {memory : σ} {message : List UInt8}
    (run : Exchange M crypto table sf ctx memory message) :
    Reachable M crypto table sf ctx memory := by
  induction run with
  | init rngInit ctx memory => exact Reachable.init rngInit ctx memory
  | step input _ ih => exact ih.step input

/-- Receiving bytes of a manifest leaves `is->nonce` alone. -/
theorem collected_nonce {ctx : FsmCtx} (data : List UInt8)
    (room : ctx.processed ≤ sizeofManifest) :
    (ctx.collected data).scratch.nonce = ctx.scratch.nonce := by
  obtain ⟨fits, looped⟩ := receiveLoop_eq data ctx.processed ctx.scratch room
  show (receiveLoop data ctx.processed ctx.scratch).2.1.nonce = _
  rw [looped]
  refine Scratch.nonce_store _ fits ?_
  rw [List.length_take]
  omega

/-- A slot that is armed leaves the static buffer as it is. -/
theorem fsmArm_scratch (rest : List UInt8) (ctx : FsmCtx) (memory : σ)
    (full : ctx.pipeline = .buffer) :
    (fsmArm M table rest ctx memory).2.1.scratch = ctx.scratch := by
  rw [fsmArm_eq M table rest ctx memory full]
  simp only
  split
  · rfl
  · split
    · rfl
    · rfl

/-- **The transitions**: a call ends or prepares a session, begins one, receives a part of its
manifest, takes the manifest, or receives firmware. -/
theorem fsm_transitions (input : FsmInput) {ctx : FsmCtx} (memory : σ) (counted : Counted ctx) :
    ((fsm M crypto table sf input ctx memory).ctx.state ≠ .receiveManifest ∧
        (fsm M crypto table sf input ctx memory).ctx.state ≠ .receiveFirmware) ∨
      (ctx.state = .startUpdate ∧ ∃ nonce, fsm M crypto table sf input ctx memory =
        ⟨.success, fillReceiverMsg input.buf.data sf.udid ctx.version nonce, ctx.begun nonce,
          memory⟩ ∧ sizeofReceiverMsg ≤ input.buf.data.length) ∨
      (ctx.state = .receiveManifest ∧ ctx.processed ≤ sizeofManifest ∧
        (fsm M crypto table sf input ctx memory).ctx = ctx.collected input.buf.data) ∨
      (Arms crypto sf input ctx ∧ (fsm M crypto table sf input ctx memory).ctx.state ≠ .receiveManifest ∧
        (fsm M crypto table sf input ctx memory).ctx.scratch =
        (ctx.collected input.buf.data).configured.scratch) ∨
      (ctx.state = .receiveFirmware ∧
        (fsm M crypto table sf input ctx memory).ctx.state = .receiveFirmware) := by
  have early : ctx.state = .clean ∨ ctx.state = .idle →
      (fsm M crypto table sf input ctx memory).ctx.state ≠ .receiveManifest ∧
        (fsm M crypto table sf input ctx memory).ctx.state ≠ .receiveFirmware := by
    intro phase
    rcases (fsm_early M crypto table sf input memory
      (phase.imp_right Or.inl)).2 with
      cleaned | ⟨_, same | started⟩ | ⟨idle, same | started⟩ | ⟨starting, _⟩
    · rw [cleaned]
      exact ⟨FsmState.noConfusion, FsmState.noConfusion⟩
    · rw [same]
      exact ⟨FsmState.noConfusion, FsmState.noConfusion⟩
    · rw [started]
      exact ⟨FsmState.noConfusion, FsmState.noConfusion⟩
    · rw [same, idle]
      exact ⟨FsmState.noConfusion, FsmState.noConfusion⟩
    · rw [started]
      exact ⟨FsmState.noConfusion, FsmState.noConfusion⟩
    · rcases phase with clean | idle
      · exact FsmState.noConfusion (clean.symm.trans starting)
      · exact FsmState.noConfusion (idle.symm.trans starting)
  unfold Counted at counted
  cases phase : ctx.state with
  | clean => exact Or.inl (early (Or.inl phase))
  | idle => exact Or.inl (early (Or.inr phase))
  | startUpdate =>
      by_cases room : input.buf.data.length < sizeofReceiverMsg
      · refine Or.inl ?_
        have call : fsm M crypto table sf input ctx memory =
            ⟨.invalidState, input.buf.data, ctx.cleaned, memory⟩ := by
          unfold fsm
          rw [phase]
          exact if_pos room
        rw [call]
        exact ⟨FsmState.noConfusion, FsmState.noConfusion⟩
      · cases answer : input.rng with
        | error err =>
            refine Or.inl ?_
            have call : fsm M crypto table sf input ctx memory =
                ⟨err, input.buf.data, ctx.cleaned, memory⟩ := by
              unfold fsm
              rw [phase]
              simp only [fsmStartUpdate, if_neg room, answer]
            rw [call]
            exact ⟨FsmState.noConfusion, FsmState.noConfusion⟩
        | ok nonce =>
            exact Or.inr (Or.inl ⟨rfl, nonce, fsm_startUpdate_begun M crypto table sf memory phase
              (not_lt.mp room) answer, not_lt.mp room⟩)
  | receiveManifest =>
      rcases fsm_receiveManifest_cases M crypto table sf memory phase with
        ⟨_, cleaned | ⟨few, _⟩⟩ | ⟨arms, call⟩
      · refine Or.inl ?_
        rw [cleaned]
        exact ⟨FsmState.noConfusion, FsmState.noConfusion⟩
      · refine Or.inr (Or.inr (Or.inl ⟨rfl, by omega, ?_⟩))
        rw [fsm_manifestState M crypto table sf memory phase, if_neg (by omega), if_pos few]
        rfl
      · refine Or.inr (Or.inr (Or.inr (Or.inl ⟨arms, ?_, ?_⟩)))
        · rw [call]
          rcases (fsmArm_ctx M table (input.buf.data.drop (sizeofManifest - ctx.processed))
            (ctx.collected input.buf.data).configured memory rfl).2.2 with cleaned | ⟨armed, _⟩
          · simp only [keepBuf, cleaned]
            exact FsmState.noConfusion
          · simp only [keepBuf, armed]
            exact FsmState.noConfusion
        · rw [call]
          exact fsmArm_scratch M table _ _ memory rfl
  | receiveFirmware =>
      rw [phase] at counted
      rw [fsm_receiveFirmware M crypto table sf memory phase]
      rcases (fsmReceiveFirmware_ctx M crypto sf input.buf.data ctx memory phase counted.1).2.2 with
        cleaned | ⟨armed, _⟩ | ⟨_, _, idle | reboot⟩
      · refine Or.inl ?_
        simp only [keepBuf, cleaned]
        exact ⟨FsmState.noConfusion, FsmState.noConfusion⟩
      · exact Or.inr (Or.inr (Or.inr (Or.inr ⟨rfl, armed⟩)))
      · refine Or.inl ?_
        simp only [keepBuf, idle]
        exact ⟨FsmState.noConfusion, FsmState.noConfusion⟩
      · refine Or.inl ?_
        simp only [keepBuf, reboot]
        exact ⟨FsmState.noConfusion, FsmState.noConfusion⟩
  | verifyManifest =>
      rw [phase] at counted
      exact False.elim counted
  | verifyFirmware =>
      rw [phase] at counted
      exact False.elim counted
  | reboot =>
      refine Or.inl ?_
      rw [fsm_reboot M crypto table sf input memory phase, phase]
      exact ⟨FsmState.noConfusion, FsmState.noConfusion⟩

/-- **The nonce of the session**: while a manifest is received, `is->nonce` is the nonce of the
message. -/
theorem nonce_of_exchange {ctx : FsmCtx} {memory : σ} {message : List UInt8}
    (run : Exchange M crypto table sf ctx memory message) (state : ctx.state = .receiveManifest) :
    ctx.scratch.nonce = slice message 4 4 := by
  induction run with
  | init rngInit ctx memory =>
      have idle := (fsmInit_state M table rngInit ctx memory).1
      exact FsmState.noConfusion (idle.symm.trans state)
  | @step input ctx memory message run ih =>
      rcases fsm_transitions M crypto table sf input memory
        (counted_of_reachable M crypto table sf run.reachable) with
        ⟨other, _⟩ | ⟨starting, nonce, call, room⟩ | ⟨waiting, room, collected⟩ | ⟨_, other, _⟩ |
          ⟨_, armed⟩
      · exact absurd state other
      · rw [if_pos starting, call]
        exact (begun_nonce ctx nonce).trans (fillReceiverMsg_nonce _ _ _ nonce room).symm
      · have other : ctx.state ≠ .startUpdate := by
          rw [waiting]
          exact FsmState.noConfusion
        rw [if_neg other, collected, collected_nonce input.buf.data room]
        exact ih waiting
      · exact absurd state other
      · exact FsmState.noConfusion (armed.symm.trans state)

/-! ### Bound to the session -/

/-- **The manifest that is taken** is the one the call has completed, for a full image. -/
theorem fsm_takes {ctx : FsmCtx} {memory : σ} (counted : Counted ctx) (input : FsmInput)
    (before : ctx.state ≠ .receiveFirmware)
    (moves : (fsm M crypto table sf input ctx memory).ctx.state = .receiveFirmware) :
    Arms crypto sf input ctx ∧ (fsm M crypto table sf input ctx memory).ctx.scratch.mt =
      (ctx.collected input.buf.data).scratch.mt.full := by
  rcases fsm_transitions M crypto table sf input memory counted with
    ⟨_, other⟩ | ⟨_, nonce, call, _⟩ | ⟨waiting, _, collected⟩ | ⟨arms, _, scratch⟩ | ⟨armed, _⟩
  · exact absurd moves other
  · rw [call] at moves
    exact FsmState.noConfusion moves
  · rw [collected] at moves
    exact FsmState.noConfusion (waiting.symm.trans moves)
  · rw [scratch]
    exact ⟨arms, Scratch.setMt_mt _ _⟩
  · exact absurd armed before

/-- The manifest names the nonce of the message, and this device. -/
def BoundTo (message : List UInt8) (mt : Manifest) : Prop :=
  mt.getNonce = msgNonce message ∧ mt.getUdid = sf.udid

/-- The manifest as it is stored is bound to what it was bound to. -/
theorem boundTo_full (message : List UInt8) (mt : Manifest) :
    BoundTo sf message mt.full ↔ BoundTo sf message mt := by
  have nonce : mt.full.getNonce = mt.getNonce := congrArg ofLE (mt.full_get (by decide))
  have udid : mt.full.getUdid = mt.getUdid := congrArg ofLE (mt.full_get (by decide))
  rw [BoundTo, BoundTo, nonce, udid]

/-- **Bound exactly when compared**: whenever a run takes a manifest, it is bound to the session
exactly when the manifest that the call completed has the nonce in `is->nonce`, and names this
device. -/
theorem bound_iff {ctx : FsmCtx} {memory : σ} {message : List UInt8}
    (run : Exchange M crypto table sf ctx memory message) (input : FsmInput)
    (before : ctx.state ≠ .receiveFirmware)
    (moves : (fsm M crypto table sf input ctx memory).ctx.state = .receiveFirmware) :
    BoundTo sf message (fsm M crypto table sf input ctx memory).ctx.scratch.mt ↔
      (ctx.collected input.buf.data).scratch.mt.getNonce = ofLE ctx.scratch.nonce ∧
        (ctx.collected input.buf.data).scratch.mt.getUdid = sf.udid := by
  obtain ⟨arms, taken⟩ := fsm_takes M crypto table sf
    (counted_of_reachable M crypto table sf run.reachable) input before moves
  rw [taken, boundTo_full, nonce_of_exchange M crypto table sf run arms.1]
  rfl

end Exchanges

/-! ### A replay on a blank device -/

/-- A blank device that has been told of version `2` and waits for the manifest. -/
def blankWaiting (nonce : Nonce) : FsmCtx :=
  FsmCtx.begun { blankCtx with state := .startUpdate } nonce

/-- The message it has sent. -/
def blankMessage (nonce : Nonce) : List UInt8 := fillReceiverMsg (List.replicate 16 0) 0 0 nonce

theorem blank_exchange (nonce : Nonce) :
    Exchange (plain (fullLayout none)) mirrorCrypto twoSlots zeroSafestore (blankWaiting nonce)
      (fun _ _ => 0) (blankMessage nonce) := by
  have fresh : Exchange (plain (fullLayout none)) mirrorCrypto twoSlots zeroSafestore _ _ _ :=
    Exchange.init .success FsmCtx.zero (fun _ _ => 0)
  rw [blankCtx_memory] at fresh
  have started := Exchange.step versionCall fresh
  rw [if_neg (by rw [(fsmInit_state _ _ _ _ _).1]; exact FsmState.noConfusion)] at started
  have told : Exchange (plain (fullLayout none)) mirrorCrypto twoSlots zeroSafestore
      { blankCtx with state := .startUpdate } (fun _ _ => 0) [] := by
    have call := fsm_versionCall
    unfold blankCtx at call
    rw [call] at started
    exact started
  have waiting := Exchange.step ⟨⟨List.replicate 16 0, by decide⟩, .ok nonce⟩ told
  rw [if_pos rfl, fsm_startUpdate_begun (plain (fullLayout none)) mirrorCrypto twoSlots
    zeroSafestore (fun _ _ => 0) rfl (le_of_eq rfl) rfl] at waiting
  have version : ({ blankCtx with state := .startUpdate } : FsmCtx).version = 0 := blankCtx_version
  rw [version] at waiting
  exact waiting

/-- The signed manifest is taken, whatever the nonce of the session is. -/
theorem blank_takes (nonce : Nonce) :
    (fsm (plain (fullLayout none)) mirrorCrypto twoSlots zeroSafestore manifestCall
        (blankWaiting nonce) (fun _ _ => 0)).ctx.state = .receiveFirmware ∧
      (BoundTo zeroSafestore (blankMessage nonce)
        (fsm (plain (fullLayout none)) mirrorCrypto twoSlots zeroSafestore manifestCall
          (blankWaiting nonce) (fun _ _ => 0)).ctx.scratch.mt ↔ 0 = ofLE nonce.bytes) := by
  have session : Collecting (blankWaiting nonce) [] := ⟨rfl, (fsmInit_state (plain (fullLayout none))
    twoSlots .success FsmCtx.zero (fun _ _ => 0)).2, by decide, rfl⟩
  have takes : (fsm (plain (fullLayout none)) mirrorCrypto twoSlots zeroSafestore manifestCall
      (blankWaiting nonce) (fun _ _ => 0)).ctx.state = .receiveFirmware := by
    obtain ⟨ctx', memory', call, armed, _⟩ :=
      signedUpdate_armed (fun _ _ => 0) session blankCtx_version
    rw [call]
    exact armed.state
  refine ⟨takes, ?_⟩
  obtain ⟨_, taken⟩ := fsm_takes (plain (fullLayout none)) mirrorCrypto twoSlots zeroSafestore
    (counted_of_reachable _ _ _ _ (blank_exchange nonce).reachable) manifestCall
    FsmState.noConfusion takes
  have enough : sizeofManifest ≤ ([] : List UInt8).length + manifestCall.buf.data.length :=
    le_of_eq (by rw [List.length_nil, Nat.zero_add]; exact signedManifest_length.symm)
  have manifest : ((blankWaiting nonce).collected manifestCall.buf.data).scratch.mt =
      Manifest.ofBytes signedManifest := (collecting_complete session enough).2
  have named : (Manifest.ofBytes signedManifest).getNonce = 0 ∧
      (Manifest.ofBytes signedManifest).getUdid = zeroSafestore.udid := by decide
  rw [taken, boundTo_full, manifest, BoundTo, named.1, msgNonce, blankMessage,
    fillReceiverMsg_nonce _ _ _ nonce (by decide)]
  exact and_iff_left named.2

/-- **The manifest of a session** with the nonce it names. -/
theorem session_bound :
    Exchange (plain (fullLayout none)) mirrorCrypto twoSlots zeroSafestore
        (blankWaiting ⟨List.replicate 4 0, rfl⟩) (fun _ _ => 0)
        (blankMessage ⟨List.replicate 4 0, rfl⟩) ∧
      ((blankWaiting ⟨List.replicate 4 0, rfl⟩).collected
          manifestCall.buf.data).scratch.mt.getNonce =
        ofLE (blankWaiting ⟨List.replicate 4 0, rfl⟩).scratch.nonce := by
  obtain ⟨takes, bound⟩ := blank_takes ⟨List.replicate 4 0, rfl⟩
  have run := blank_exchange ⟨List.replicate 4 0, rfl⟩
  exact ⟨run, ((bound_iff (plain (fullLayout none)) mirrorCrypto twoSlots zeroSafestore run
    manifestCall FsmState.noConfusion takes).mp (bound.mpr (by decide))).1⟩

/-- **A replay**: the same manifest is taken in a session with another nonce. -/
theorem replay_taken :
    Exchange (plain (fullLayout none)) mirrorCrypto twoSlots zeroSafestore
        (blankWaiting ⟨List.replicate 4 1, rfl⟩) (fun _ _ => 0)
        (blankMessage ⟨List.replicate 4 1, rfl⟩) ∧
      (blankWaiting ⟨List.replicate 4 1, rfl⟩).state ≠ .receiveFirmware ∧
      (fsm (plain (fullLayout none)) mirrorCrypto twoSlots zeroSafestore manifestCall
        (blankWaiting ⟨List.replicate 4 1, rfl⟩) (fun _ _ => 0)).ctx.state = .receiveFirmware ∧
      ¬ BoundTo zeroSafestore (blankMessage ⟨List.replicate 4 1, rfl⟩)
        (fsm (plain (fullLayout none)) mirrorCrypto twoSlots zeroSafestore manifestCall
          (blankWaiting ⟨List.replicate 4 1, rfl⟩) (fun _ _ => 0)).ctx.scratch.mt := by
  obtain ⟨takes, bound⟩ := blank_takes ⟨List.replicate 4 1, rfl⟩
  refine ⟨blank_exchange _, FsmState.noConfusion, takes, fun named => ?_⟩
  exact absurd (bound.mp named) (by decide)

end Upkit
