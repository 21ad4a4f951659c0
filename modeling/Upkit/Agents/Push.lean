/-
**Pushing a release over BLE.**

A client of `zephyr_ble.c` announces a version, reads the message, and writes the image piece by piece,
whatever else it does with the characteristics meanwhile. It may have subscribed to the state.

* `fsm_failed` — a call that returns an error leaves the machine at rest.
* `subscribed_knows` — the last state a client was told is the state of the machine, or an operation
  has failed and the machine is at rest.
* `Release.Pushed.step` — what one operation of a push does; `Release.Pushed.run` — what all of them
  do.
* `push_installs` — a release that is pushed is counted and announced as it comes, and loaded by the
  next reset.
-/

import Upkit.Agents.Generations
import Upkit.Agents.Transfer
import Upkit.Network.Ble

namespace Upkit

open Bytes

/-! ### What a client is told -/

section Notifications

variable {σ : Type} (M : MemoryInterface σ) (crypto : Crypto) (table : SlotTable)
  (sf : Safestore)

/-- `gatt_read_received`: the bytes that have been received. -/
def gattReadReceived (msg : List UInt8) (fsmc : FsmCtx) : List UInt8 :=
  slice (updateReceiverMsg fsmc msg) 12 4

/-- The end of a handler: `bt_gatt_notify`, if `notify_state_flag` is set and the state has changed. -/
def gattNotify (notifyStateFlag : Bool) (oldState : FsmState) (fsmc : FsmCtx) : Option FsmState :=
  if notifyStateFlag = true ∧ oldState ≠ fsmc.state then some fsmc.state else none

/-- What an operation notifies. -/
def gattNotified (notifyStateFlag : Bool) (op : GattOp) (fsmc : FsmCtx) (memory : σ) :
    Option FsmState :=
  match op with
  | .writeVersion input =>
      if fsmc.state ≠ .idle then none
      else
        let result := fsm M crypto table sf input fsmc memory
        if result.err ≠ .success then none else gattNotify notifyStateFlag fsmc.state result.ctx
  | .readReceiverMsg input _ =>
      if fsmc.state = .startUpdate then
        let result := fsm M crypto table sf input fsmc memory
        if result.err ≠ .success then none else gattNotify notifyStateFlag fsmc.state result.ctx
      else gattNotify notifyStateFlag fsmc.state fsmc
  | .writeImage input =>
      let result := fsm M crypto table sf input fsmc memory
      if result.err ≠ .success then none else gattNotify notifyStateFlag fsmc.state result.ctx

/-- All that a client's operations notify, the first one first. -/
def gattTold (notifyStateFlag : Bool) : List GattOp → FsmCtx → σ → List FsmState
  | [], _, _ => []
  | op :: ops, fsmc, memory =>
      let after := gattStep M crypto table sf op fsmc memory
      (gattNotified M crypto table sf notifyStateFlag op fsmc memory).toList ++
        gattTold notifyStateFlag ops after.1 after.2

/-- An operation calls `fsm`, and the call returns an error. -/
def GattOp.Fails (op : GattOp) (fsmc : FsmCtx) (memory : σ) : Prop :=
  ∃ input, op.call fsmc.state = some input ∧
    (fsm M crypto table sf input fsmc memory).err ≠ .success

/-- One of a client's operations fails, and nothing is notified any more. -/
def FailsLast (notifyStateFlag : Bool) (ops : List GattOp) (fsmc : FsmCtx) (memory : σ) : Prop :=
  ∃ done op rest, ops = done ++ op :: rest ∧
    let before := gattRun M crypto table sf done fsmc memory
    let after := gattStep M crypto table sf op before.1 before.2
    op.Fails M crypto table sf before.1 before.2 ∧
      gattTold M crypto table sf notifyStateFlag rest after.1 after.2 = []

/-- **What an operation notifies** is the new state of a call without an error. -/
theorem gattNotified_eq (notifyStateFlag : Bool) (op : GattOp) (fsmc : FsmCtx) (memory : σ) :
    gattNotified M crypto table sf notifyStateFlag op fsmc memory =
      match op.call fsmc.state with
      | none => none
      | some input =>
          if (fsm M crypto table sf input fsmc memory).err ≠ .success then none
          else gattNotify notifyStateFlag fsmc.state (fsm M crypto table sf input fsmc memory).ctx := by
  have quiet : gattNotify notifyStateFlag fsmc.state fsmc = none := if_neg fun both => both.2 rfl
  cases op with
  | writeVersion input =>
      simp only [gattNotified, GattOp.call]
      by_cases idle : fsmc.state = .idle
      · rw [if_neg (not_not.mpr idle), if_pos idle]
      · rw [if_pos idle, if_neg idle]
  | readReceiverMsg input whole =>
      simp only [gattNotified, GattOp.call]
      by_cases begins : fsmc.state = .startUpdate
      · rw [if_pos begins, if_pos begins]
      · rw [if_neg begins, if_neg begins]
        exact quiet
  | writeImage input => rfl

/-! ### What a failure leaves -/

/-- A state in which no update is under way. -/
def FsmState.AtRest (state : FsmState) : Prop := state = .clean ∨ state = .idle

/-- An outcome that puts the machine at rest, if it is an error. -/
def RestsOnError (outcome : PullError × FsmCtx × σ) : Prop :=
  outcome.1 ≠ .success → outcome.2.1.state.AtRest

theorem fsmIdle_failed (data : List UInt8) (ctx : FsmCtx) (memory : σ) :
    RestsOnError (fsmIdle data ctx memory) := by
  intro failed
  unfold fsmIdle at failed ⊢
  split at failed
  · rename_i wrong
    rw [if_pos wrong]
    exact Or.inl rfl
  · split at failed
    · exact absurd rfl failed
    · exact absurd rfl failed

theorem fsmVerifyFirmware_failed (ctx : FsmCtx) (memory : σ) :
    RestsOnError (fsmVerifyFirmware M crypto sf ctx memory) := by
  unfold RestsOnError fsmVerifyFirmware
  simp only
  split
  · exact fun _ => Or.inr rfl
  · exact fun failed => absurd rfl failed

theorem fsmReceiveFirmware_failed (data : List UInt8) (ctx : FsmCtx) (memory : σ) :
    RestsOnError (fsmReceiveFirmware M crypto sf data ctx memory) := by
  unfold RestsOnError fsmReceiveFirmware fsmReceiveData
  by_cases long : ctx.expected < ctx.processed + data.length
  · simp only [if_pos long]
    exact fun _ => Or.inl rfl
  simp only [if_neg long]
  by_cases refused : (runPipeline M data ctx memory).1 ≠ data.length
  · simp only [if_pos refused]
    exact fun _ => Or.inl rfl
  simp only [if_neg refused]
  by_cases more : (runPipeline M data ctx memory).2.1.processed + data.length ≠
      (runPipeline M data ctx memory).2.1.expected
  · simp only [if_pos more]
    exact fun failed => absurd rfl failed
  · simp only [if_neg more]
    exact fsmVerifyFirmware_failed M crypto sf _ _

theorem fsmArm_failed (rest : List UInt8) (ctx : FsmCtx) (memory : σ) :
    RestsOnError (fsmArm M table rest ctx memory) := by
  unfold RestsOnError fsmArm
  simp only
  split
  · exact fun _ => Or.inl rfl
  · split
    · exact fun _ => Or.inl rfl
    · split
      · exact fun _ => Or.inl rfl
      · split
        · split
          · exact fun _ => Or.inl rfl
          · exact fun failed => absurd rfl failed
        · exact fun failed => absurd rfl failed

theorem fsmVerifyManifest_failed (rest : List UInt8) (ctx : FsmCtx) (memory : σ) :
    RestsOnError (fsmVerifyManifest M crypto table sf rest ctx memory) := by
  by_cases accepted : Accepted crypto sf ctx.version ctx.scratch.mt
  · rw [fsmVerifyManifest_accepted M table accepted]
    exact fsmArm_failed M table rest ctx.configured memory
  · rw [fsmVerifyManifest_refused M table accepted]
    exact fun _ => Or.inl rfl

/-- **A call that returns an error** leaves the machine at rest. -/
theorem fsm_failed (input : FsmInput) (ctx : FsmCtx) (memory : σ)
    (failed : (fsm M crypto table sf input ctx memory).err ≠ .success) :
    (fsm M crypto table sf input ctx memory).ctx.state.AtRest := by
  revert failed
  unfold fsm
  split
  · exact fsmIdle_failed _ _ memory
  · exact fsmIdle_failed _ _ memory
  · unfold fsmStartUpdate
    split
    · exact fun _ => Or.inl rfl
    · split
      · exact fun _ => Or.inl rfl
      · exact fun failed => absurd rfl failed
  · simp only [fsmReceiveManifest_eq]
    split
    · exact fun _ => Or.inl rfl
    · split
      · exact fun failed => absurd rfl failed
      · exact fsmVerifyManifest_failed M crypto table sf _ _ memory
  · exact fsmVerifyManifest_failed M crypto table sf _ _ memory
  · exact fsmReceiveFirmware_failed M crypto sf _ _ memory
  · exact fsmVerifyFirmware_failed M crypto sf _ memory
  · exact fun failed => absurd rfl failed

/-! ### What a subscribed client knows -/

/-- What a client takes for the state of the machine: the state itself, or another one, if something
has failed and the machine is at rest. -/
def Knows (known : FsmState) (failed : Prop) (state : FsmState) : Prop :=
  known = state ∨ state.AtRest ∧ failed

/-- **An operation that notifies** tells the state. -/
theorem gattNotified_some {op : GattOp} {fsmc : FsmCtx} {memory : σ} {state : FsmState}
    (notified : gattNotified M crypto table sf true op fsmc memory = some state) :
    state = (gattStep M crypto table sf op fsmc memory).1.state := by
  rw [gattNotified_eq] at notified
  rw [gattStep_eq]
  cases called : op.call fsmc.state with
  | none => rw [called] at notified; cases notified
  | some input =>
      simp only [called] at notified
      split at notified
      · cases notified
      · unfold gattNotify at notified
        split at notified
        · exact (Option.some.inj notified).symm
        · cases notified

/-- **An operation that notifies nothing** fails, or leaves the state as it was. -/
theorem gattNotified_none {op : GattOp} {fsmc : FsmCtx} {memory : σ}
    (quiet : gattNotified M crypto table sf true op fsmc memory = none) :
    (gattStep M crypto table sf op fsmc memory).1.state = fsmc.state ∨
      (gattStep M crypto table sf op fsmc memory).1.state.AtRest ∧
        op.Fails M crypto table sf fsmc memory := by
  rw [gattNotified_eq] at quiet
  rw [gattStep_eq]
  cases called : op.call fsmc.state with
  | none => exact Or.inl rfl
  | some input =>
      simp only [called] at quiet ⊢
      by_cases fails : (fsm M crypto table sf input fsmc memory).err ≠ .success
      · exact Or.inr ⟨fsm_failed M crypto table sf input fsmc memory fails, input, called, fails⟩
      · rw [if_neg fails, gattNotify] at quiet
        left
        by_contra changed
        rw [if_pos ⟨rfl, Ne.symm changed⟩] at quiet
        cases quiet

/-- Any operations of a subscribed client that knows something. -/
theorem Knows.run (ops : List GattOp) {known : FsmState} {failed : Prop} {fsmc : FsmCtx}
    {memory : σ} (knows : Knows known failed fsmc.state) :
    Knows ((gattTold M crypto table sf true ops fsmc memory).getLastD known)
      (failed ∧ gattTold M crypto table sf true ops fsmc memory = [] ∨
        FailsLast M crypto table sf true ops fsmc memory)
      (gattRun M crypto table sf ops fsmc memory).1.state := by
  induction ops generalizing known failed fsmc memory with
  | nil => exact knows.imp_right fun rests => ⟨rests.1, Or.inl ⟨rests.2, rfl⟩⟩
  | cons op ops ih =>
      rw [gattTold, gattRun]
      have later : FailsLast M crypto table sf true ops
          (gattStep M crypto table sf op fsmc memory).1
          (gattStep M crypto table sf op fsmc memory).2 →
          FailsLast M crypto table sf true (op :: ops) fsmc memory := by
        rintro ⟨done, last, rest, rfl, fails⟩
        exact ⟨op :: done, last, rest, rfl, fails⟩
      cases notified : gattNotified M crypto table sf true op fsmc memory with
      | some state =>
          rw [Option.toList_some, List.singleton_append, List.getLastD_cons]
          have told : Knows state False (gattStep M crypto table sf op fsmc memory).1.state :=
            Or.inl (gattNotified_some M crypto table sf notified)
          exact (ih told).imp_right fun rests =>
            ⟨rests.1, Or.inr (later (rests.2.resolve_left fun none => none.1))⟩
      | none =>
          rw [Option.toList_none, List.nil_append]
          have kept : Knows known (failed ∨ op.Fails M crypto table sf fsmc memory)
              (gattStep M crypto table sf op fsmc memory).1.state := by
            rcases gattNotified_none M crypto table sf notified with same | ⟨rests, fails⟩
            · rw [same]
              exact knows.imp_right fun rests => ⟨rests.1, Or.inl rests.2⟩
            · exact Or.inr ⟨rests, Or.inr fails⟩
          refine (ih kept).imp_right fun rests => ⟨rests.1, ?_⟩
          rcases rests.2 with ⟨before | fails, quiet⟩ | fails
          · exact Or.inl ⟨before, quiet⟩
          · exact Or.inr ⟨[], op, ops, rfl, fails, quiet⟩
          · exact Or.inr (later fails)

/-- **What a subscribed client knows**: after any operations, the last state it was told, or else the
one it began in, is the state of the machine, or one of its operations has failed since, nothing has
been notified any more, and the machine is in `STATE_CLEAN` or `STATE_IDLE`. -/
theorem subscribed_knows (ops : List GattOp) (fsmc : FsmCtx) (memory : σ) :
    (gattTold M crypto table sf true ops fsmc memory).getLastD fsmc.state =
        (gattRun M crypto table sf ops fsmc memory).1.state ∨
      (gattRun M crypto table sf ops fsmc memory).1.state.AtRest ∧
        FailsLast M crypto table sf true ops fsmc memory := by
  have knows := @Knows.run _ M crypto table sf ops fsmc.state False fsmc memory (Or.inl rfl)
  exact knows.imp_right fun rests => ⟨rests.1, rests.2.resolve_left fun none => none.1⟩

end Notifications

/-! ### A release that is pushed -/

/-- The longest value of an attribute. -/
def attributeMax : Nat := 512

/-- What an operation writes to the image. -/
def GattOp.image : GattOp → List UInt8
  | .writeImage input => input.buf.data
  | _ => []

/-- What a client's operations write to the image. -/
def gattImage (ops : List GattOp) : List UInt8 := ops.flatMap GattOp.image

/-- An operation that writes nothing to the image, or some bytes that an attribute can take. -/
def GattOp.Writable (op : GattOp) : Prop :=
  ∀ input, op = .writeImage input →
    input.buf.data ≠ [] ∧ input.buf.data.length ≤ attributeMax

section Push

variable {crypto : Crypto} {sf : Safestore} (release : Release crypto sf)

/-- The state in which so much of a release has been received. -/
def Release.stateAt (count : Nat) : FsmState :=
  if count < sizeofManifest then .receiveManifest
  else if count < release.stream.length then .receiveFirmware
  else .reboot

/-- What has been notified when so much of a release has been received. -/
def Release.toldAt (count : Nat) : List FsmState :=
  if count < sizeofManifest then [.startUpdate, .receiveManifest]
  else if count < release.stream.length then [.startUpdate, .receiveManifest, .receiveFirmware]
  else [.startUpdate, .receiveManifest, .receiveFirmware, .reboot]

/-- A release is longer than its manifest and an attribute. -/
theorem Release.long : sizeofManifest + attributeMax < release.stream.length := by
  have inside : release.manifest.getOffset + release.manifest.getSize ≤ release.stream.length :=
    release.inside
  have fills : fsmBufferSize ≤ release.manifest.getSize := release.fills
  have width : sizeofManifest + attributeMax < fsmBufferSize := by decide
  exact lt_of_lt_of_le width (fills.trans ((Nat.le_add_left _ _).trans inside))

/-- **What a piece of a release makes the machine notify.** -/
theorem Release.toldAt_next {count count' : Nat} (more : count ≤ count')
    (cut : count < sizeofManifest → count' < release.stream.length) (fsmc : FsmCtx)
    (state : fsmc.state = release.stateAt count') :
    release.toldAt count ++ (gattNotify true (release.stateAt count) fsmc).toList =
      release.toldAt count' := by
  have long := release.long
  have nothing : ∀ state : FsmState, release.stateAt count = state → fsmc.state = state →
      gattNotify true (release.stateAt count) fsmc = none := fun state before after =>
    if_neg fun both => both.2 (before.trans after.symm)
  have something : ∀ {before after : FsmState}, release.stateAt count = before →
      fsmc.state = after → before ≠ after →
      gattNotify true (release.stateAt count) fsmc = some after := by
    intro before after was becomes changed
    rw [gattNotify, was, becomes]
    exact if_pos ⟨rfl, changed⟩
  by_cases collecting : count < sizeofManifest
  · have unfinished := cut collecting
    have was : release.stateAt count = .receiveManifest := if_pos collecting
    rw [toldAt, if_pos collecting]
    by_cases still : count' < sizeofManifest
    · rw [nothing .receiveManifest was (state.trans (if_pos still)), toldAt, if_pos still]
      rfl
    · have becomes : release.stateAt count' = .receiveFirmware :=
        (if_neg still).trans (if_pos unfinished)
      rw [something was (state.trans becomes) (by decide), toldAt, if_neg still, if_pos unfinished]
      rfl
  · have past : ¬ count' < sizeofManifest := fun still => collecting (more.trans_lt still)
    rw [toldAt, toldAt, if_neg collecting, if_neg past]
    by_cases receiving : count < release.stream.length
    · have was : release.stateAt count = .receiveFirmware :=
        (if_neg collecting).trans (if_pos receiving)
      rw [if_pos receiving]
      by_cases unfinished : count' < release.stream.length
      · have becomes : release.stateAt count' = .receiveFirmware :=
          (if_neg past).trans (if_pos unfinished)
        rw [nothing .receiveFirmware was (state.trans becomes), if_pos unfinished]
        rfl
      · have becomes : release.stateAt count' = .reboot :=
          (if_neg past).trans (if_neg unfinished)
        rw [something was (state.trans becomes) (by decide), if_neg unfinished]
        rfl
    · have finished : ¬ count' < release.stream.length := fun still =>
        receiving (more.trans_lt still)
      have was : release.stateAt count = .reboot := (if_neg collecting).trans (if_neg receiving)
      have becomes : release.stateAt count' = .reboot := (if_neg past).trans (if_neg finished)
      rw [nothing .reboot was (state.trans becomes), if_neg receiving, if_neg finished]
      rfl

variable {release} {layout : PlainLayout} {table : SlotTable} {memory memory' : Contents}
  {handed : List UInt8} {fsmc : FsmCtx}

/-- The state of a machine that takes a release in. -/
theorem Release.Downloaded.state_eq
    (downloaded : release.Downloaded layout table memory handed fsmc memory') :
    fsmc.state = release.stateAt handed.length := by
  have long := release.long
  cases downloaded with
  | collecting session => exact session.state.trans (if_pos session.unfinished).symm
  | part _ enough below armed =>
      exact armed.state.trans ((if_neg (not_lt.mpr enough)).trans (if_pos below)).symm
  | whole reboot =>
      exact reboot.trans ((if_neg (not_lt.mpr release.manifest_le)).trans
        (if_neg (lt_irrefl _))).symm

/-- A machine that has taken all of a release in has stored it. -/
theorem Release.Downloaded.stored
    (downloaded : release.Downloaded layout table memory handed fsmc memory')
    (all : handed = release.stream) :
    memory' = storedIn layout (oldestSlot table memory).id release.stream memory := by
  cases downloaded with
  | collecting session =>
      rw [all] at session
      exact absurd session.unfinished (not_lt.mpr release.manifest_le)
  | part _ _ below =>
      rw [all] at below
      exact absurd below (lt_irrefl _)
  | whole => rfl

/-- How far a push has come: what has been handed over is in its place, and has been notified. -/
structure Release.Pushed (layout : PlainLayout) (table : SlotTable) (memory : Contents)
    (release : Release crypto sf) (handed : List UInt8) (told : List FsmState) (fsmc : FsmCtx)
    (memory' : Contents) : Prop where
  downloaded : release.Downloaded layout table memory handed fsmc memory'
  told : told = release.toldAt handed.length

/-- The bytes that have been received are counted. -/
theorem Release.Pushed.received {told : List FsmState}
    (pushed : release.Pushed layout table memory handed told fsmc memory') {msg : List UInt8}
    (length : msg.length = sizeofReceiverMsg) (small : release.stream.length < 2 ^ 31) :
    ofLE (gattReadReceived msg fsmc) = handed.length := by
  have counted : fsmc.processed = handed.length := pushed.downloaded.processed
  have short := pushed.downloaded.begins.length_le
  show msgOffset (updateReceiverMsg fsmc msg) = _
  rw [updateReceiverMsg_offset fsmc length (by omega), counted]

/-- **One operation of a push.** -/
theorem Release.Pushed.step {told : List FsmState}
    (pushed : release.Pushed layout table memory handed told fsmc memory')
    (manifests : ∀ slot ∈ table.slots, sizeofManifest ≤ layout.limit slot.id)
    (fits : release.stream.length ≤ layout.limit (oldestSlot table memory).id)
    (narrow : layout.limit (oldestSlot table memory).id + fsmBufferSize ≤ 2 ^ 32) {op : GattOp}
    (more : handed ++ op.image <+: release.stream) (writable : op.Writable) :
    ¬ op.Fails (plain layout) crypto table sf fsmc memory' ∧
      release.Pushed layout table memory (handed ++ op.image)
        (told ++ (gattNotified (plain layout) crypto table sf true op fsmc memory').toList)
        (gattStep (plain layout) crypto table sf op fsmc memory').1
        (gattStep (plain layout) crypto table sf op fsmc memory').2 := by
  have state := pushed.downloaded.state_eq
  have quiet : op.call fsmc.state = none → op.image = [] →
      ¬ op.Fails (plain layout) crypto table sf fsmc memory' ∧
        release.Pushed layout table memory (handed ++ op.image)
          (told ++ (gattNotified (plain layout) crypto table sf true op fsmc memory').toList)
          (gattStep (plain layout) crypto table sf op fsmc memory').1
          (gattStep (plain layout) crypto table sf op fsmc memory').2 := by
    intro none empty
    refine ⟨?_, ?_⟩
    · rintro ⟨input, called, _⟩
      rw [none] at called
      cases called
    · rw [gattNotified_eq, gattStep_eq, none, empty, List.append_nil, Option.toList_none,
        List.append_nil]
      exact pushed
  have receiving : fsmc.state ≠ .idle ∧ fsmc.state ≠ .startUpdate := by
    rw [state, stateAt]
    split
    · exact ⟨by decide, by decide⟩
    · split
      · exact ⟨by decide, by decide⟩
      · exact ⟨by decide, by decide⟩
  cases op with
  | writeVersion input => exact quiet (if_neg receiving.1) rfl
  | readReceiverMsg input whole => exact quiet (if_neg receiving.2) rfl
  | writeImage input =>
      obtain ⟨some, short⟩ := writable input rfl
      have cut : handed.length < sizeofManifest →
          (handed ++ input.buf.data).length < release.stream.length := by
        intro collecting
        have long := release.long
        rw [List.length_append]
        omega
      obtain ⟨success, downloaded⟩ :=
        pushed.downloaded.next manifests fits narrow more some cut
      have stepped := gattStep_eq (plain layout) crypto table sf (.writeImage input) fsmc memory'
      rw [GattOp.call] at stepped
      rw [stepped]
      refine ⟨?_, downloaded, ?_⟩
      · rintro ⟨input', called, failed⟩
        rw [← Option.some.inj called] at failed
        exact failed success
      · rw [gattNotified_eq, pushed.told, GattOp.call]
        simp only [success, ne_eq, not_true_eq_false, if_false]
        rw [state]
        exact release.toldAt_next (by rw [List.length_append]; exact Nat.le_add_right _ _) cut _
          downloaded.state_eq

/-- **All the operations of a push**, in any order that writes the image from its beginning on. -/
theorem Release.Pushed.run {told : List FsmState}
    (pushed : release.Pushed layout table memory handed told fsmc memory')
    (manifests : ∀ slot ∈ table.slots, sizeofManifest ≤ layout.limit slot.id)
    (fits : release.stream.length ≤ layout.limit (oldestSlot table memory).id)
    (narrow : layout.limit (oldestSlot table memory).id + fsmBufferSize ≤ 2 ^ 32)
    (ops : List GattOp) (more : handed ++ gattImage ops <+: release.stream)
    (writable : ∀ op ∈ ops, op.Writable) :
    release.Pushed layout table memory (handed ++ gattImage ops)
      (told ++ gattTold (plain layout) crypto table sf true ops fsmc memory')
      (gattRun (plain layout) crypto table sf ops fsmc memory').1
      (gattRun (plain layout) crypto table sf ops fsmc memory').2 := by
  induction ops generalizing handed told fsmc memory' with
  | nil =>
      rw [gattImage, List.flatMap_nil, List.append_nil, gattTold, List.append_nil]
      exact pushed
  | cons op ops ih =>
      rw [gattImage, List.flatMap_cons, ← List.append_assoc] at more ⊢
      rw [gattTold, ← List.append_assoc]
      obtain ⟨_, pushed'⟩ := pushed.step manifests fits narrow
        ((List.prefix_append _ _).trans more) (writable op List.mem_cons_self)
      exact ih pushed' more fun later member => writable later (List.mem_cons_of_mem _ member)

end Push

/-! ### From the client to the running image -/

section Install

variable {board : Board} {crypto : Crypto}

theorem requestCall_length (nonce : Nonce) :
    (requestCall nonce).buf.data.length = sizeofReceiverMsg := List.length_replicate

/-- A client pushes a release: it announces the version, reads the message, and goes on. -/
def Release.push {sf : Safestore} (release : Release crypto sf) (nonce : Nonce)
    (ops : List GattOp) : List GattOp :=
  .writeVersion (announceCall release.version nonce) ::
    .readReceiverMsg (requestCall nonce) (requestCall_length nonce) :: ops

/-- `libpull_gatt_init` on a board. -/
theorem libpullGattInit_board (board : Board) (statics : FsmCtx) (memory : Contents) :
    libpullGattInit (plain board.layout) board.table .success 0 statics memory =
      (.success, (fsmInit (plain board.layout) board.table .success statics memory).2.1, memory) := by
  have success := fsmInit_board_success board statics memory
  have kept := (fsmInit_board board statics memory).2.2.2
  unfold libpullGattInit
  simp only [success, kept, ne_eq, not_true_eq_false, if_false]

/-- The announcement and the message of a push open a session. -/
theorem push_opens (release : Release crypto board.cfg.safestore) (nonce : Nonce)
    {memory : Contents}
    (newer : ∀ slot ∈ board.table.slots, versionAt memory slot.id < release.version)
    (statics : FsmCtx) :
    let begun := (fsmInit (plain board.layout) board.table .success statics memory).2.1
    let told := { begun with state := .startUpdate }
    begun.state = .idle ∧
      gattStep (plain board.layout) crypto board.table board.cfg.safestore
        (.writeVersion (announceCall release.version nonce)) begun memory = (told, memory) ∧
      gattStep (plain board.layout) crypto board.table board.cfg.safestore
        (.readReceiverMsg (requestCall nonce) (requestCall_length nonce)) told memory =
          (told.begun nonce, memory) ∧
      release.Downloaded board.layout board.table memory [] (told.begun nonce) memory := by
  intro begun told
  obtain ⟨announced, asked, collecting, older⟩ := release_begun release nonce newer statics
  have idle : begun.state = .idle := (fsmInit_board board statics memory).1
  refine ⟨idle, ?_, ?_, .collecting collecting List.nil_prefix older⟩
  · rw [gattStep_eq, GattOp.call, if_pos idle]
    simp only
    rw [announced]
  · rw [gattStep_eq, GattOp.call, if_pos rfl]
    simp only
    rw [asked]

/-- **A push begins**: the announcement and the message are notified, and a session is open. -/
theorem push_begins (release : Release crypto board.cfg.safestore) (nonce : Nonce)
    {memory : Contents}
    (newer : ∀ slot ∈ board.table.slots, versionAt memory slot.id < release.version)
    (statics : FsmCtx) :
    let begun := libpullGattInit (plain board.layout) board.table .success 0 statics memory
    ∃ session, release.Pushed board.layout board.table memory [] [.startUpdate, .receiveManifest]
        session memory ∧
      ∀ ops, gattRun (plain board.layout) crypto board.table board.cfg.safestore
            (release.push nonce ops) begun.2.1 begun.2.2 =
          gattRun (plain board.layout) crypto board.table board.cfg.safestore ops session memory ∧
        gattTold (plain board.layout) crypto board.table board.cfg.safestore true
            (release.push nonce ops) begun.2.1 begun.2.2 =
          [.startUpdate, .receiveManifest] ++ gattTold (plain board.layout) crypto board.table
            board.cfg.safestore true ops session memory := by
  simp only [libpullGattInit_board]
  obtain ⟨announced, asked, -, -⟩ := release_begun release nonce newer statics
  obtain ⟨idle, told, opened, downloaded⟩ := push_opens release nonce newer statics
  generalize (fsmInit (plain board.layout) board.table .success statics memory).2.1 = begun at *
  refine ⟨_, ⟨downloaded, rfl⟩, fun ops => ⟨?_, ?_⟩⟩
  · rw [Release.push, gattRun, told, gattRun, opened]
  · have first : gattNotified (plain board.layout) crypto board.table board.cfg.safestore true
        (.writeVersion (announceCall release.version nonce)) begun memory = some .startUpdate := by
      rw [gattNotified_eq, GattOp.call, if_pos idle]
      simp only
      rw [announced, if_neg (not_not.mpr rfl), gattNotify, idle]
      rfl
    have second : gattNotified (plain board.layout) crypto board.table board.cfg.safestore true
        (.readReceiverMsg (requestCall nonce) (requestCall_length nonce))
          { begun with state := .startUpdate } memory = some .receiveManifest := by
      rw [gattNotified_eq, GattOp.call, if_pos rfl]
      simp only
      rw [asked, if_neg (not_not.mpr rfl), gattNotify]
      rfl
    rw [Release.push, gattTold, first, told, gattTold, second, opened]
    rfl

/-- **What a push has brought**, whatever else a subscribed client does. -/
theorem push_ready (release : Release crypto board.cfg.safestore) (nonce : Nonce)
    {memory : Contents}
    (newer : ∀ slot ∈ board.table.slots, versionAt memory slot.id < release.version)
    (fits : release.stream.length ≤ board.length) (statics : FsmCtx) {ops : List GattOp}
    (begins : gattImage ops <+: release.stream) (writable : ∀ op ∈ ops, op.Writable) :
    let begun := libpullGattInit (plain board.layout) board.table .success 0 statics memory
    let after := gattRun (plain board.layout) crypto board.table board.cfg.safestore
      (release.push nonce ops) begun.2.1 begun.2.2
    release.Pushed board.layout board.table memory (gattImage ops)
      (gattTold (plain board.layout) crypto board.table board.cfg.safestore true
        (release.push nonce ops) begun.2.1 begun.2.2) after.1 after.2 := by
  intro begun after
  have small := board.length_lt
  have limit := board.limit_oldestSlot memory
  have fits' : release.stream.length ≤ board.layout.limit (oldestSlot board.table memory).id := by
    rw [limit]
    exact fits
  have narrow : board.layout.limit (oldestSlot board.table memory).id + fsmBufferSize ≤ 2 ^ 32 := by
    rw [limit, fsmBufferSize]
    omega
  obtain ⟨session, pushed, opens⟩ := push_begins release nonce newer statics
  have ready := pushed.run board.manifests fits' narrow ops begins writable
  rw [List.nil_append, ← (opens ops).1, ← (opens ops).2] at ready
  exact ready

/-- **A release that is pushed**: whatever a subscribed client does besides, no operation fails, and
an intact board counts the bytes that have been written and notifies the states they lead to; once all
of them have been written, the reset loads the release from a bootable slot. -/
theorem push_installs
    (boots : ∀ slot ∈ board.table.slots.head?, slot.bootable = true)
    (release : Release crypto board.cfg.safestore) (nonce : Nonce) {memory : Contents}
    (intact : Intact board crypto memory)
    (newer : ∀ slot ∈ board.table.slots, versionAt memory slot.id < release.version)
    (suits : release.Suits board) (statics : FsmCtx) {ops : List GattOp}
    (begins : gattImage ops <+: release.stream) (writable : ∀ op ∈ ops, op.Writable) :
    let begun := libpullGattInit (plain board.layout) board.table .success 0 statics memory
    let after := gattRun (plain board.layout) crypto board.table board.cfg.safestore
      (release.push nonce ops) begun.2.1 begun.2.2
    begun.1 = .success ∧
      gattTold (plain board.layout) crypto board.table board.cfg.safestore true
        (release.push nonce ops) begun.2.1 begun.2.2 = release.toldAt (gattImage ops).length ∧
      (∀ msg : List UInt8, msg.length = sizeofReceiverMsg →
        ofLE (gattReadReceived msg after.1) = (gattImage ops).length) ∧
      (∀ done op rest, ops = done ++ op :: rest →
        let before := gattRun (plain board.layout) crypto board.table board.cfg.safestore
          (release.push nonce done) begun.2.1 begun.2.2
        ¬ op.Fails (plain board.layout) crypto board.table board.cfg.safestore before.1 before.2) ∧
      (gattImage ops = release.stream →
        ∃ id loaded, contiki (bootloaderCoroutine (plain board.layout) crypto board.table board.cfg
            after.2) = .loads id loaded ∧
          Intact board crypto loaded ∧ versionAt loaded id = release.version ∧
          ∃ slot ∈ board.table.slots, slot.id = id ∧ slot.bootable = true ∧
            imageAt loaded id = release.image) := by
  intro begun after
  have ready := push_ready release nonce newer suits.fits statics begins writable
  refine ⟨congrArg Prod.fst (libpullGattInit_board board statics memory), ready.told,
    fun msg length => ready.received length (lt_of_le_of_lt suits.fits board.length_lt), ?_, ?_⟩
  · rintro done op rest rfl before
    have split : gattImage (done ++ op :: rest) = gattImage done ++ op.image ++ gattImage rest := by
      rw [gattImage, List.flatMap_append, List.flatMap_cons, ← List.append_assoc]
      rfl
    rw [split] at begins
    have so := (List.prefix_append _ _).trans begins
    have until' := push_ready release nonce newer suits.fits statics
      ((List.prefix_append _ _).trans so)
      fun earlier member => writable earlier (List.mem_append_left _ member)
    exact (until'.step board.manifests (by rw [board.limit_oldestSlot]; exact suits.fits)
      (by
        have small := board.length_lt
        rw [board.limit_oldestSlot, fsmBufferSize]
        omega) so (writable op (List.mem_append_right _ List.mem_cons_self))).1
  · intro all
    have taken : TakenIn board release memory after.2 := by
      intro id address _
      rw [ready.downloaded.stored all]
    obtain ⟨slot, inTable, loaded, ends, intact', version, bootable, image, _⟩ :=
      taken.boots boots intact newer suits
    exact ⟨slot.id, loaded, ends, intact', version, slot, inTable, rfl, bootable, image⟩

end Install

/-- A piece of version `3`. -/
def thirdPiece (start count : Nat) : List UInt8 := (thirdRelease.stream.drop start).take count

theorem thirdPiece_short (start count : Nat) : (thirdPiece start count).length < 2 ^ 31 := by
  have whole : thirdRelease.stream.length < 2 ^ 31 := by decide +kernel
  rw [thirdPiece, List.length_take, List.length_drop]
  omega

/-- Version `3` in three pieces, with a version and a message in between. -/
def ownPush : List GattOp :=
  [.writeImage (callWith (thirdPiece 0 300) (thirdPiece_short 0 300)),
    .writeVersion (announceCall 9 zeroNonce),
    .writeImage (callWith (thirdPiece 300 512) (thirdPiece_short 300 512)),
    .readReceiverMsg (requestCall zeroNonce) (requestCall_length zeroNonce),
    .writeImage (callWith (thirdPiece 812 512) (thirdPiece_short 812 512))]

theorem ownPush_image : gattImage ownPush = thirdRelease.stream := by decide +kernel

theorem ownPush_writable : ∀ op ∈ ownPush, op.Writable := by
  have pieces : ∀ start count, count ≤ attributeMax →
      (callWith (thirdPiece start count) (thirdPiece_short start count)).buf.data.length ≤
        attributeMax := fun start count small => (List.length_take_le _ _).trans small
  intro op member input isImage
  subst isImage
  simp only [ownPush, List.mem_cons, GattOp.writeImage.injEq, reduceCtorEq, List.not_mem_nil,
    or_false, false_or] at member
  rcases member with rfl | rfl | rfl
  · exact ⟨by decide +kernel, pieces 0 300 (by decide)⟩
  · exact ⟨by decide +kernel, pieces 300 512 (by decide)⟩
  · exact ⟨by decide +kernel, pieces 812 512 (by decide)⟩

/-- The board that has version `3` pushed onto it notifies four states, and runs it. -/
theorem ownBoard_pushed :
    let begun := libpullGattInit (plain ownBoard.layout) ownBoard.table .success 0 FsmCtx.zero
      ownImages
    let after := gattRun (plain ownBoard.layout) mirrorCrypto ownBoard.table ownBoard.cfg.safestore
      (thirdRelease.push zeroNonce ownPush) begun.2.1 begun.2.2
    gattTold (plain ownBoard.layout) mirrorCrypto ownBoard.table ownBoard.cfg.safestore true
        (thirdRelease.push zeroNonce ownPush) begun.2.1 begun.2.2 =
      [.startUpdate, .receiveManifest, .receiveFirmware, .reboot] ∧
      ∃ id loaded, contiki (bootloaderCoroutine (plain ownBoard.layout) mirrorCrypto ownBoard.table
          ownBoard.cfg after.2) = .loads id loaded ∧ versionAt loaded id = 3 := by
  have third : thirdRelease.version = 3 := by decide +kernel
  have suits : thirdRelease.Suits ownBoard := ⟨by decide +kernel, by decide +kernel⟩
  have older : ∀ slot ∈ ownBoard.table.slots,
      versionAt ownImages slot.id < thirdRelease.version := by
    rw [third]
    decide +kernel
  obtain ⟨_, told, _, _, installs⟩ := push_installs (by decide) thirdRelease zeroNonce
    ownImages_intact older suits FsmCtx.zero (by rw [ownPush_image]) ownPush_writable
  obtain ⟨id, loaded, ends, _, version, _⟩ := installs ownPush_image
  refine ⟨told.trans ?_, id, loaded, ends, version.trans third⟩
  rw [ownPush_image]
  decide +kernel

end Upkit
