/-
**The BLE front end.**

Three GATT characteristics of `zephyr_ble.c` drive one machine: `gatt_write_version` calls `fsm` only
in `STATE_IDLE`, `gatt_read_receiver_msg` only in `STATE_START_UPDATE`, and `gatt_write_image` in
every state. A client may use them in any order (`GattOp`, `gattRun`).

* `gattRun_reachable` — whatever the client does, the machine stays in states of the sessions.
* `gattRun_clean` — once in `STATE_CLEAN`, it stays there until an image is written.
* `gattStates_recovers_iff` — a resting machine takes newer versions exactly in `STATE_IDLE`.
-/

import Mathlib.Data.List.Infix
import Upkit.Network.Sessions

namespace Upkit

open Bytes

/-! ### The operations -/

/-- A GATT operation with what its `fsm` call, if it makes one, is given. The client chooses the bytes
of a write; those of a read are the stack's, before the message is filled in. -/
inductive GattOp
  | writeVersion (input : FsmInput)
  | readReceiverMsg (input : FsmInput) (whole : input.buf.data.length = sizeofReceiverMsg)
  | writeImage (input : FsmInput)

section Operations

variable {σ : Type} (M : MemoryInterface σ) (crypto : Crypto) (table : SlotTable)
  (sf : Safestore)

/-- `gatt_write_image`: the return value, the machine and the memory. -/
def gattWriteImage (input : FsmInput) (fsmc : FsmCtx) (memory : σ) : Int × FsmCtx × σ :=
  let result := fsm M crypto table sf input fsmc memory
  if result.err ≠ .success then (0, result.ctx, result.memory)
  else (input.buf.data.length, result.ctx, result.memory)

/-- `gatt_write_version`. -/
def gattWriteVersion (input : FsmInput) (fsmc : FsmCtx) (memory : σ) : Int × FsmCtx × σ :=
  if fsmc.state ≠ .idle then (-1, fsmc, memory)
  else
    let result := fsm M crypto table sf input fsmc memory
    if result.err ≠ .success then (-1, result.ctx, result.memory)
    else (input.buf.data.length, result.ctx, result.memory)

/-- `gatt_read_receiver_msg`: the message that is read, unless it fails. -/
def gattReadReceiverMsg (input : FsmInput) (fsmc : FsmCtx) (memory : σ) :
    Option (List UInt8) × FsmCtx × σ :=
  if fsmc.state = .startUpdate then
    let result := fsm M crypto table sf input fsmc memory
    if result.err ≠ .success then (none, result.ctx, result.memory)
    else (some result.buf, result.ctx, result.memory)
  else (some (updateReceiverMsg fsmc input.buf.data), fsmc, memory)

/-- `libpull_gatt_init`; `registered` is what `bt_gatt_service_register` returns. -/
def libpullGattInit (rngInit : PullError) (registered : Int) (fsmc : FsmCtx) (memory : σ) :
    PullError × FsmCtx × σ :=
  let (err, fsmc, memory) := fsmInit M table rngInit fsmc memory
  if err ≠ .success then (err, fsmc, memory)
  else if registered ≠ 0 then (.receiverOpen, fsmc, memory)
  else (.success, fsmc, memory)

/-- The machine and the memory after an operation. -/
def gattStep (op : GattOp) (fsmc : FsmCtx) (memory : σ) : FsmCtx × σ :=
  match op with
  | .writeVersion input => (gattWriteVersion M crypto table sf input fsmc memory).2
  | .readReceiverMsg input _ => (gattReadReceiverMsg M crypto table sf input fsmc memory).2
  | .writeImage input => (gattWriteImage M crypto table sf input fsmc memory).2

/-- A client's operations, the first one first. -/
def gattRun : List GattOp → FsmCtx → σ → FsmCtx × σ
  | [], fsmc, memory => (fsmc, memory)
  | op :: ops, fsmc, memory =>
      let after := gattStep M crypto table sf op fsmc memory
      gattRun ops after.1 after.2

/-! ### One step and a whole run -/

/-- The calls of `fsm` that an operation makes in a state. -/
def GattOp.call (op : GattOp) (state : FsmState) : Option FsmInput :=
  match op with
  | .writeVersion input => if state = .idle then some input else none
  | .readReceiverMsg input _ => if state = .startUpdate then some input else none
  | .writeImage input => some input

/-- **An operation** is one call of `fsm`, or nothing. -/
theorem gattStep_eq (op : GattOp) (fsmc : FsmCtx) (memory : σ) :
    gattStep M crypto table sf op fsmc memory =
      match op.call fsmc.state with
      | none => (fsmc, memory)
      | some input => ((fsm M crypto table sf input fsmc memory).ctx,
          (fsm M crypto table sf input fsmc memory).memory) := by
  cases op with
  | writeVersion input =>
      by_cases idle : fsmc.state = .idle
      · simp only [gattStep, gattWriteVersion, GattOp.call, idle, ne_eq, not_true_eq_false, if_false,
          if_true]
        split
        · rfl
        · rfl
      · simp only [gattStep, gattWriteVersion, GattOp.call, idle, ne_eq, not_false_eq_true, if_true,
          if_false]
  | readReceiverMsg input whole =>
      by_cases starting : fsmc.state = .startUpdate
      · simp only [gattStep, gattReadReceiverMsg, GattOp.call, starting, if_true]
        split
        · rfl
        · rfl
      · simp only [gattStep, gattReadReceiverMsg, GattOp.call, starting, if_false]
  | writeImage input =>
      simp only [gattStep, gattWriteImage, GattOp.call]
      split
      · rfl
      · rfl

/-- Whatever a client does, the machine is in a state that calls of `fsm` lead to. -/
theorem gattRun_reachable (ops : List GattOp) {fsmc : FsmCtx} {memory : σ}
    (reached : Reachable M crypto table sf fsmc memory) :
    Reachable M crypto table sf (gattRun M crypto table sf ops fsmc memory).1
      (gattRun M crypto table sf ops fsmc memory).2 := by
  induction ops generalizing fsmc memory with
  | nil => exact reached
  | cons op ops ih =>
      refine ih ?_
      rw [gattStep_eq]
      cases op.call fsmc.state with
      | none => exact reached
      | some input => exact reached.step input

/-- The operations of a client that does not write to the image. -/
def GattOp.Guarded : GattOp → Prop
  | .writeImage _ => False
  | _ => True

/-- **`STATE_CLEAN` is not left** by announcing versions and reading messages. -/
theorem gattRun_clean {ops : List GattOp} (guarded : ∀ op ∈ ops, op.Guarded) {fsmc : FsmCtx}
    (clean : fsmc.state = .clean) (memory : σ) :
    gattRun M crypto table sf ops fsmc memory = (fsmc, memory) := by
  induction ops with
  | nil => rfl
  | cons op ops ih =>
      have silent : op.call fsmc.state = none := by
        cases op with
        | writeVersion input => rw [GattOp.call, clean, if_neg FsmState.noConfusion]
        | readReceiverMsg input whole => rw [GattOp.call, clean, if_neg FsmState.noConfusion]
        | writeImage input => exact (guarded _ List.mem_cons_self).elim
      rw [gattRun, gattStep_eq, silent]
      exact ih fun other member => guarded other (List.mem_cons_of_mem _ member)

/-! ### A resting machine -/

/-- A version is taken: `gatt_write_version` returns its length and an update starts. -/
def TakesVersion (input : FsmInput) (fsmc : FsmCtx) (memory : σ) : Prop :=
  (gattWriteVersion M crypto table sf input fsmc memory).1 = input.buf.data.length ∧
    (gattWriteVersion M crypto table sf input fsmc memory).2.1.state = .startUpdate

/-- An idle machine takes a newer version. -/
theorem takesVersion_idle {input : FsmInput} {fsmc : FsmCtx} (memory : σ)
    (idle : fsmc.state = .idle) (two : input.buf.data.length = 2)
    (newer : fsmc.version < ofLE input.buf.data) :
    TakesVersion M crypto table sf input fsmc memory := by
  have call := fsm_idle_newer M crypto table sf memory idle two newer
  have write : gattWriteVersion M crypto table sf input fsmc memory =
      ((input.buf.data.length : Int), { fsmc with state := .startUpdate }, memory) := by
    unfold gattWriteVersion
    simp only [idle, call, ne_eq, not_true_eq_false, if_false]
  rw [TakesVersion, write]
  exact ⟨rfl, rfl⟩

/-- A clean machine takes none. -/
theorem not_takesVersion_clean {input : FsmInput} {fsmc : FsmCtx} (memory : σ)
    (clean : fsmc.state = .clean) : ¬ TakesVersion M crypto table sf input fsmc memory := by
  have write : gattWriteVersion M crypto table sf input fsmc memory = (-1, fsmc, memory) := by
    unfold gattWriteVersion
    rw [if_pos (by rw [clean]; exact FsmState.noConfusion)]
  rw [TakesVersion, write, clean]
  exact fun taken => FsmState.noConfusion taken.2

/-- The front end recovers: if the machine rests, every newer version is taken. -/
def Recovers (fsmc : FsmCtx) (memory : σ) : Prop :=
  fsmc.state = .idle ∨ fsmc.state = .clean → ∀ input : FsmInput, input.buf.data.length = 2 →
    fsmc.version < ofLE input.buf.data → TakesVersion M crypto table sf input fsmc memory

/-- The machine and the memory after `libpull_gatt_init` and after each operation of a client;
nothing, when the service could not be registered. -/
def gattStates (rngInit : PullError) (registered : Int) (statics : FsmCtx) (start : σ)
    (ops : List GattOp) : List (FsmCtx × σ) :=
  let (err, fsmc, memory) := libpullGattInit M table rngInit registered statics start
  if err ≠ .success then []
  else ops.inits.map fun done => gattRun M crypto table sf done fsmc memory

/-- What `libpull_gatt_init` leaves is what `fsm_init` leaves. -/
theorem libpullGattInit_machine (rngInit : PullError) (registered : Int) (statics : FsmCtx)
    (start : σ) :
    (libpullGattInit M table rngInit registered statics start).2 =
      (fsmInit M table rngInit statics start).2 := by
  unfold libpullGattInit
  simp only
  split
  · rfl
  · split
    · rfl
    · rfl

theorem mem_gattStates {rngInit : PullError} {registered : Int} {statics : FsmCtx} {start : σ}
    {ops : List GattOp} {reached : FsmCtx × σ} :
    reached ∈ gattStates M crypto table sf rngInit registered statics start ops ↔
      (libpullGattInit M table rngInit registered statics start).1 = .success ∧
        ∃ done, done <+: ops ∧ gattRun M crypto table sf done
          (fsmInit M table rngInit statics start).2.1
          (fsmInit M table rngInit statics start).2.2 = reached := by
  rw [← libpullGattInit_machine M table rngInit registered statics start]
  unfold gattStates
  simp only
  by_cases ready : (libpullGattInit M table rngInit registered statics start).1 = .success
  · simp only [ready, ne_eq, not_true_eq_false, if_false, List.mem_map, List.mem_inits, true_and]
  · simp only [ready, ne_eq, not_false_eq_true, if_true, List.not_mem_nil, false_and]

/-- The states of a client's operations are states of the sessions. -/
theorem gattStates_reachable {rngInit : PullError} {registered : Int} {statics : FsmCtx} {start : σ}
    {ops : List GattOp} {reached : FsmCtx × σ}
    (member : reached ∈ gattStates M crypto table sf rngInit registered statics start ops) :
    Reachable M crypto table sf reached.1 reached.2 := by
  obtain ⟨_, done, _, rfl⟩ := (mem_gattStates M crypto table sf).mp member
  exact gattRun_reachable M crypto table sf done (Reachable.init rngInit statics start)

/-- **Recovery**: in every state that a client's operations lead to, the front end recovers exactly
when the machine is not in `STATE_CLEAN`, or no version is newer. -/
theorem gattStates_recovers_iff (rngInit : PullError) (registered : Int) (statics : FsmCtx)
    (start : σ) (ops : List GattOp) :
    ∀ reached ∈ gattStates M crypto table sf rngInit registered statics start ops,
      (Recovers M crypto table sf reached.1 reached.2 ↔
        (reached.1.state = .clean → 65535 ≤ reached.1.version)) := by
  intro reached _
  constructor
  · intro recovers clean
    by_contra older
    have newer : reached.1.version < ofLE lastVersion.buf.data := Nat.not_le.mp older
    exact not_takesVersion_clean M crypto table sf reached.2 clean
      (recovers (Or.inr clean) lastVersion rfl newer)
  · intro last resting input two newer
    rcases resting with idle | clean
    · exact takesVersion_idle M crypto table sf reached.2 idle two newer
    · have bound := ofLE_lt input.buf.data
      have newest := last clean
      rw [two] at bound
      omega

end Operations

/-! ### A blank device -/

theorem blankInit_ready :
    (libpullGattInit (plain (fullLayout none)) twoSlots .success 0 FsmCtx.zero
      (fun _ _ => 0)).1 = .success := by
  have found : (getNewestFirmware (plain (fullLayout none)) twoSlots true 0 0
      (fun _ _ => 0)).1 = .success := by
    rw [getNewestFirmware, getOrderedFirmware_plain (fullLayout none) _ twoSlots _ _ _ _
      (fun slot _ => sizeofManifest_le_full none slot.id)]
  unfold libpullGattInit fsmInit
  simp only [FsmCtx.zero, found, ne_eq, not_true_eq_false, if_false]

/-- The states of a blank device under a client. -/
theorem mem_blankStates {ops done : List GattOp} (prefixed : done <+: ops) :
    gattRun (plain (fullLayout none)) mirrorCrypto twoSlots zeroSafestore done blankCtx
        (fun _ _ => 0) ∈
      gattStates (plain (fullLayout none)) mirrorCrypto twoSlots zeroSafestore .success 0
        FsmCtx.zero (fun _ _ => 0) ops := by
  refine (mem_gattStates _ _ _ _).mpr ⟨blankInit_ready, done, prefixed, ?_⟩
  rw [blankCtx_memory]
  rfl

/-- A device that has just started takes every newer version. -/
theorem blankCtx_recovers :
    (blankCtx, fun _ _ => 0) ∈ gattStates (plain (fullLayout none)) mirrorCrypto twoSlots
        zeroSafestore .success 0 FsmCtx.zero (fun _ _ => 0) [] ∧
      Recovers (plain (fullLayout none)) mirrorCrypto twoSlots zeroSafestore blankCtx
        (fun _ _ => 0) := by
  have started := @mem_blankStates [] [] List.prefix_rfl
  refine ⟨started, (gattStates_recovers_iff (plain (fullLayout none)) mirrorCrypto twoSlots
    zeroSafestore .success 0 FsmCtx.zero (fun _ _ => 0) [] _ started).mpr fun clean => ?_⟩
  exact FsmState.noConfusion (blankCtx_idle.symm.trans clean)

/-- One byte for the image. -/
def imageByte : FsmInput := byteCall

/-- **One byte to the image** of a device that has just started, and version `2` is refused although
version `0` is running. -/
theorem gattWriteVersion_refused :
    ∃ reached ∈ gattStates (plain (fullLayout none)) mirrorCrypto twoSlots zeroSafestore .success 0
        FsmCtx.zero (fun _ _ => 0) [.writeImage imageByte],
      reached.1.state = .clean ∧ versionCall.buf.data.length = 2 ∧
        reached.1.version < ofLE versionCall.buf.data ∧
        ¬ TakesVersion (plain (fullLayout none)) mirrorCrypto twoSlots zeroSafestore versionCall
          reached.1 reached.2 := by
  have call : fsm (plain (fullLayout none)) mirrorCrypto twoSlots zeroSafestore imageByte blankCtx
      (fun _ _ => 0) = ⟨.invalidVersion, [0], blankCtx.cleaned, fun _ _ => 0⟩ := by
    unfold fsm
    rw [blankCtx_idle]
    rfl
  have after : gattRun (plain (fullLayout none)) mirrorCrypto twoSlots zeroSafestore
      [.writeImage imageByte] blankCtx (fun _ _ => 0) = (blankCtx.cleaned, fun _ _ => 0) := by
    simp only [gattRun, gattStep_eq, GattOp.call, call]
  refine ⟨(blankCtx.cleaned, fun _ _ => 0), after ▸ mem_blankStates List.prefix_rfl, rfl, rfl, ?_,
    not_takesVersion_clean _ _ _ _ _ rfl⟩
  show blankCtx.version < _
  rw [blankCtx_version]
  decide

end Upkit
