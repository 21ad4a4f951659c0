/-
**The update agent and its exchanges.**

`update_agent` between the points where the network runs. In both builds the callbacks of the
connection arrive while the agent waits for an answer (`PULL_SEND`); in the build with coroutines
the driver is also in control at every `PULL_CONTINUE`. All drivers stop at a failure.

* `UpdateAgent.resume` — the agent from one such point to the next.
* `UpdateRun` — every interleaving of callbacks and resumptions, with the steps that are allowed.
* `update_applies_verified` — when no failure is overwritten and no exchange ends before the
  manifest is complete, `EVENT_APPLY` is returned in `STATE_REBOOT` only, in every run of both
  builds.
* `timeout_applies` — a single timeout is enough for the contrary.
-/

import Upkit.Network.Residue

namespace Upkit

open Bytes

/-! ### The agent -/

/-- `agent_event_t` of the update agent, with the event data: the events a run ends with. -/
inductive UpdateEvent
  | initFailure (err : PullError)
  | initFailure2 (err : PullError)
  | initFailure3 (err : PullError)
  | subscribeFailure (err : PullError)
  | subscribeFailure2 (err : PullError)
  | getMsgFailure (err : PullError)
  | receiverFailure (err : PullError)
  | receiverFailure2 (err : PullError)
  | apply
  deriving DecidableEq, Repr

/-- Where the agent has handed over control: the events of `PULL_CONTINUE` and `PULL_SEND`, or a
return that no driver resumes. -/
inductive UpdatePoint
  | subscribe
  | subscribeSend
  | getMsg
  | receive
  | receiveSend
  | subscribeTimeout
  | returned (event : UpdateEvent)
  deriving DecidableEq, Repr

/-- The two builds of the macros. -/
inductive Build
  | coroutines
  | plain
  deriving DecidableEq, Repr

/-- Callbacks can arrive: during `loop`, and wherever the driver is in control. -/
def UpdatePoint.hears (build : Build) : UpdatePoint → Bool
  | .subscribeSend => true
  | .receiveSend => true
  | .returned _ => false
  | _ => build = .coroutines

/-- `update_agent_ctx_t` and the memory: the state machine, `reqc.err` and `msg`. -/
structure UpdateAgent (σ : Type) where
  point : UpdatePoint
  fsmc : FsmCtx
  reqcErr : PullError
  msg : List UInt8
  memory : σ

/-- The arguments of a callback; `data` is missing when it is `NULL` or `len` is negative. -/
structure Callback where
  err : PullError
  data : Option FsmInput

/-- What the environment answers when the agent goes on: `conn_request` and `rng_generate`. -/
structure Answer where
  request : PullError
  rng : Except PullError Nonce
  rng_failed : rng ≠ .error .success

section Agent

variable {σ : Type} (M : MemoryInterface σ) (crypto : Crypto) (table : SlotTable)
  (sf : Safestore)

/-- `request_cb`. `break_loop` is up to the connection: more callbacks may follow. -/
def requestCb (callback : Callback) (agent : UpdateAgent σ) : UpdateAgent σ :=
  if callback.err ≠ .success then { agent with reqcErr := callback.err }
  else
    match callback.data with
    | none => { agent with reqcErr := callback.err }
    | some input =>
        let result := fsm M crypto table sf input agent.fsmc agent.memory
        { agent with fsmc := result.ctx, reqcErr := result.err, memory := result.memory }

/-- `update_agent` up to its first `PULL_CONTINUE`. -/
def updateStart (connInit rngInit connOnData : PullError) (fsmc : FsmCtx) (reqcErr : PullError)
    (msg : List UInt8) (memory : σ) : UpdateAgent σ :=
  if connInit ≠ .success then ⟨.returned (.initFailure connInit), fsmc, reqcErr, msg, memory⟩
  else
    let (err, fsmc, memory) := fsmInit M table rngInit fsmc memory
    if err ≠ .success then ⟨.returned (.initFailure2 err), fsmc, reqcErr, msg, memory⟩
    else if connOnData ≠ .success then
      ⟨.returned (.initFailure3 connOnData), fsmc, reqcErr, msg, memory⟩
    else ⟨.subscribe, fsmc, reqcErr, msg, memory⟩

/-- The request for `/version`. -/
def subscribeRequest (request : PullError) (agent : UpdateAgent σ) : UpdateAgent σ :=
  if request ≠ .success then { agent with point := .returned (.subscribeFailure request) }
  else { agent with point := .subscribeSend }

/-- The request for `/firmware`, from where the state machine is. -/
def firmwareRequest (request : PullError) (agent : UpdateAgent σ) : UpdateAgent σ :=
  let agent := { agent with msg := updateReceiverMsg agent.fsmc agent.msg }
  if request ≠ .success then { agent with point := .returned (.receiverFailure request) }
  else { agent with point := .receiveSend }

/-- The `sizeof(receiver_msg_t)` bytes of `ctx->msg` as a buffer for `fsm`. -/
def messageInput (msg : List UInt8) (rng : Except PullError Nonce) : FsmInput :=
  ⟨⟨(msg ++ List.replicate sizeofReceiverMsg 0).take sizeofReceiverMsg, by
    rw [List.length_take]
    exact lt_of_le_of_lt (min_le_left _ _) (by decide)⟩, rng⟩

theorem messageInput_length (msg : List UInt8) (rng : Except PullError Nonce) :
    (messageInput msg rng).buf.data.length = sizeofReceiverMsg := by
  show ((msg ++ List.replicate sizeofReceiverMsg 0).take sizeofReceiverMsg).length = _
  rw [List.length_take, List.length_append, List.length_replicate]
  omega

/-- `update_agent` from one point to the next. -/
def UpdateAgent.resume (answer : Answer) (agent : UpdateAgent σ) : UpdateAgent σ :=
  match agent.point with
  | .subscribe => subscribeRequest answer.request agent
  | .subscribeSend =>
      if agent.reqcErr ≠ .success then
        { agent with point := .returned (.subscribeFailure2 agent.reqcErr) }
      else if agent.fsmc.state ≠ .startUpdate then subscribeRequest answer.request agent
      else { agent with point := .getMsg }
  | .getMsg =>
      let result := fsm M crypto table sf (messageInput agent.msg answer.rng) agent.fsmc
        agent.memory
      let agent := { agent with fsmc := result.ctx, msg := result.buf, memory := result.memory }
      if result.err ≠ .success then { agent with point := .returned (.getMsgFailure result.err) }
      else { agent with point := .receive }
  | .receive => firmwareRequest answer.request agent
  | .receiveSend =>
      if agent.reqcErr ≠ .success then
        { agent with point := .returned (.receiverFailure2 agent.reqcErr) }
      else { agent with point := .subscribeTimeout }
  | .subscribeTimeout =>
      if agent.fsmc.state = .receiveFirmware then firmwareRequest answer.request agent
      -- Any other state ends the loop, and what it is does not matter to the event.
      else { agent with point := .returned .apply }
  | .returned _ => agent

/-! ### Runs -/

/-- One step of a run. -/
inductive UpdateStep
  | callback (callback : Callback)
  | resume (answer : Answer)

/-- What a call of the agent leads to when only some steps are taken. -/
inductive UpdateRun (build : Build) (allowed : UpdateStep → UpdateAgent σ → Prop) :
    UpdateAgent σ → Prop
  | start (connInit rngInit connOnData : PullError) (fsmc : FsmCtx) (reqcErr : PullError)
      (msg : List UInt8) (memory : σ) : UpdateRun build allowed
        (updateStart M table connInit rngInit connOnData fsmc reqcErr msg memory)
  | callback (callback : Callback) {agent : UpdateAgent σ} : UpdateRun build allowed agent →
      agent.point.hears build = true → allowed (.callback callback) agent →
        UpdateRun build allowed (requestCb M crypto table sf callback agent)
  | resume (answer : Answer) {agent : UpdateAgent σ} : UpdateRun build allowed agent →
      allowed (.resume answer) agent →
        UpdateRun build allowed (agent.resume M crypto table sf answer)

/-- `EVENT_APPLY` means a verified update. -/
def AppliesVerified (agent : UpdateAgent σ) : Prop :=
  agent.point = .returned .apply → agent.fsmc.state = .reboot

/-- The session is open: its manifest or its firmware is being received, or all is verified. -/
def FsmCtx.Open (ctx : FsmCtx) : Prop :=
  ctx.state = .receiveManifest ∨ ctx.state = .receiveFirmware ∨ ctx.state = .reboot

/-- Nothing that goes wrong in an exchange gets lost:

* once the state machine has dropped the session, no callback of the exchange clears `reqc.err`;
* an exchange does not end, a failure apart, while the manifest is incomplete;
* between the check of `reqc.err` and the loop condition no data is refused. -/
def Heard (step : UpdateStep) (agent : UpdateAgent σ) : Prop :=
  match step with
  | .callback callback =>
      ((agent.point = .receive ∨ agent.point = .receiveSend) → ¬ agent.fsmc.Open →
        (requestCb M crypto table sf callback agent).reqcErr ≠ .success) ∧
      (agent.point = .subscribeTimeout → callback.err = .success → ∀ input ∈ callback.data,
        (fsm M crypto table sf input agent.fsmc agent.memory).err = .success)
  | .resume _ => agent.point = .receiveSend → agent.reqcErr = .success →
      agent.fsmc.state ≠ .receiveManifest

/-! ### What a call of the state machine leaves open -/

theorem fsmArm_open (rest : List UInt8) (ctx : FsmCtx) (memory : σ) (full : ctx.pipeline = .buffer)
    (success : (fsmArm M table rest ctx memory).1 = .success) :
    (fsmArm M table rest ctx memory).2.1.state = .receiveFirmware := by
  rw [fsmArm_eq M table rest ctx memory full] at success ⊢
  simp only at success ⊢
  split at success
  · exact absurd success (by assumption)
  · split at success
    · exact absurd success (by assumption)
    · rename_i scanned opened
      rw [if_neg scanned, if_neg opened]
      rfl

theorem fsmReceiveManifest_open (data : List UInt8) (ctx : FsmCtx) (memory : σ)
    (waiting : ctx.state = .receiveManifest)
    (success : (fsmReceiveManifest M crypto table sf data ctx memory).1 = .success) :
    (fsmReceiveManifest M crypto table sf data ctx memory).2.1.state = .receiveManifest ∨
      (fsmReceiveManifest M crypto table sf data ctx memory).2.1.state = .receiveFirmware := by
  rw [fsmReceiveManifest_eq] at success ⊢
  split at success
  · cases success
  · rename_i room
    rw [if_neg room]
    split at success
    · rename_i few
      rw [if_pos few]
      exact Or.inl waiting
    · rename_i enough
      rw [if_neg enough]
      by_cases accepted : Accepted crypto sf (ctx.collected data).version
          (ctx.collected data).scratch.mt
      · rw [fsmVerifyManifest_accepted M table accepted] at success ⊢
        exact Or.inr (fsmArm_open M table _ _ _ rfl success)
      · rw [fsmVerifyManifest_refused M table accepted] at success
        cases success

theorem fsmReceiveFirmware_open (data : List UInt8) (ctx : FsmCtx) (memory : σ)
    (receiving : ctx.state = .receiveFirmware)
    (success : (fsmReceiveFirmware M crypto sf data ctx memory).1 = .success) :
    (fsmReceiveFirmware M crypto sf data ctx memory).2.1.state = .receiveFirmware ∨
      (fsmReceiveFirmware M crypto sf data ctx memory).2.1.state = .reboot := by
  have verified : ∀ (ctx : FsmCtx) (memory : σ),
      (fsmVerifyFirmware M crypto sf ctx memory).1 = .success →
        (fsmVerifyFirmware M crypto sf ctx memory).2.1.state = .reboot := by
    intro ctx memory success
    unfold fsmVerifyFirmware at success ⊢
    simp only at success ⊢
    split at success
    · exact absurd success (by assumption)
    · rename_i valid
      rw [if_neg valid]
  have kept : (runPipeline M data ctx memory).2.1.state = ctx.state := by
    unfold runPipeline
    split
    · rfl
    · rfl
  unfold fsmReceiveFirmware fsmReceiveData at success ⊢
  by_cases long : ctx.expected < ctx.processed + data.length
  · simp only [if_pos long] at success
    cases success
  · simp only [if_neg long] at success ⊢
    by_cases taken : (runPipeline M data ctx memory).1 = data.length
    · simp only [taken, ne_eq, not_true_eq_false, if_false] at success ⊢
      split
      · rename_i returned
        split at returned
        · cases returned
          exact Or.inl (kept.trans receiving)
        · cases returned
      · rename_i falls
        rw [falls] at success
        exact Or.inr (verified _ _ success)
    · simp only [ne_eq, taken, not_false_eq_true, if_true] at success
      cases success

/-- **A call that succeeds leaves the session open**, and never goes back to the manifest. -/
theorem fsm_open (input : FsmInput) {ctx : FsmCtx} (memory : σ) (opened : ctx.Open)
    (success : (fsm M crypto table sf input ctx memory).err = .success) :
    (fsm M crypto table sf input ctx memory).ctx.Open ∧
      (ctx.state ≠ .receiveManifest →
        (fsm M crypto table sf input ctx memory).ctx.state ≠ .receiveManifest) := by
  rcases opened with waiting | receiving | rebooting
  · have call : fsm M crypto table sf input ctx memory = keepBuf input.buf.data
        (fsmReceiveManifest M crypto table sf input.buf.data ctx memory) := by
      rw [fsm, waiting]
    rw [call] at success ⊢
    refine ⟨?_, fun other => absurd waiting other⟩
    rcases fsmReceiveManifest_open M crypto table sf _ ctx memory waiting success with
      state | state
    · exact Or.inl state
    · exact Or.inr (Or.inl state)
  · rw [fsm_receiveFirmware M crypto table sf memory receiving] at success ⊢
    rcases fsmReceiveFirmware_open M crypto sf _ ctx memory receiving success with state | state
    · exact ⟨Or.inr (Or.inl state), fun _ again => FsmState.noConfusion (state.symm.trans again)⟩
    · exact ⟨Or.inr (Or.inr state), fun _ again => FsmState.noConfusion (state.symm.trans again)⟩
  · rw [fsm_reboot M crypto table sf input memory rebooting]
    exact ⟨Or.inr (Or.inr rebooting), fun other => other⟩

/-- A message that the state machine fills opens a session. -/
theorem fsm_message_open (msg : List UInt8) {rng : Except PullError Nonce}
    (failed : rng ≠ .error .success) {ctx : FsmCtx} (memory : σ)
    (resting : ctx.state ≠ .verifyManifest ∧ ctx.state ≠ .verifyFirmware)
    (success : (fsm M crypto table sf (messageInput msg rng) ctx memory).err = .success) :
    (fsm M crypto table sf (messageInput msg rng) ctx memory).ctx.Open := by
  have length := messageInput_length msg rng
  have given : (messageInput msg rng).rng = rng := rfl
  have long : ¬ (messageInput msg rng).buf.data.length = 2 := by
    rw [length]
    decide
  cases phase : ctx.state with
  | clean =>
      rw [fsm, phase] at success
      simp only [keepBuf, fsmClean, fsmIdle, ne_eq, long, not_false_eq_true, if_true] at success
      cases success
  | idle =>
      rw [fsm, phase] at success
      simp only [keepBuf, fsmIdle, ne_eq, long, not_false_eq_true, if_true] at success
      cases success
  | startUpdate =>
      rw [fsm, phase] at success ⊢
      simp only [fsmStartUpdate, length, lt_irrefl, if_false, given] at success ⊢
      cases rng with
      | error err => exact absurd (congrArg Except.error success) failed
      | ok nonce => exact Or.inl rfl
  | receiveManifest => exact (fsm_open M crypto table sf _ memory (Or.inl phase) success).1
  | verifyManifest => exact absurd phase resting.1
  | receiveFirmware => exact (fsm_open M crypto table sf _ memory (Or.inr (Or.inl phase)) success).1
  | verifyFirmware => exact absurd phase resting.2
  | reboot => exact (fsm_open M crypto table sf _ memory (Or.inr (Or.inr phase)) success).1

/-! ### The invariant of a run -/

theorem requestCb_point (callback : Callback) (agent : UpdateAgent σ) :
    (requestCb M crypto table sf callback agent).point = agent.point := by
  unfold requestCb
  split
  · rfl
  · split
    · rfl
    · rfl

/-- A callback leaves the state machine alone, or is a call of it. -/
theorem requestCb_cases (callback : Callback) (agent : UpdateAgent σ) :
    ((requestCb M crypto table sf callback agent).fsmc = agent.fsmc ∧
        (requestCb M crypto table sf callback agent).memory = agent.memory) ∨
      ∃ input ∈ callback.data, callback.err = .success ∧
        requestCb M crypto table sf callback agent =
          { agent with
            fsmc := (fsm M crypto table sf input agent.fsmc agent.memory).ctx
            reqcErr := (fsm M crypto table sf input agent.fsmc agent.memory).err
            memory := (fsm M crypto table sf input agent.fsmc agent.memory).memory } := by
  unfold requestCb
  split
  · exact Or.inl ⟨rfl, rfl⟩
  · rename_i success
    split
    · exact Or.inl ⟨rfl, rfl⟩
    · rename_i input given
      exact Or.inr ⟨input, given, not_not.mp success, rfl⟩

/-- A callback with data is the call of the state machine. -/
theorem UpdateRun.data {build : Build} {allowed : UpdateStep → UpdateAgent σ → Prop}
    {point : UpdatePoint} {fsmc : FsmCtx} {reqcErr : PullError} {msg : List UInt8} {memory : σ}
    (run : UpdateRun M crypto table sf build allowed ⟨point, fsmc, reqcErr, msg, memory⟩)
    {input : FsmInput} {result : FsmResult σ}
    (called : fsm M crypto table sf input fsmc memory = result)
    (hears : point.hears build = true)
    (ok : allowed (.callback ⟨.success, some input⟩) ⟨point, fsmc, reqcErr, msg, memory⟩) :
    UpdateRun M crypto table sf build allowed
      ⟨point, result.ctx, result.err, msg, result.memory⟩ := by
  rw [← called]
  exact run.callback ⟨.success, some input⟩ hears ok

theorem firmwareRequest_keeps (request : PullError) (agent : UpdateAgent σ) :
    (firmwareRequest request agent).fsmc = agent.fsmc ∧
      (firmwareRequest request agent).memory = agent.memory ∧
      (firmwareRequest request agent).reqcErr = agent.reqcErr ∧
      ((firmwareRequest request agent).point = .receiveSend ∨
        (firmwareRequest request agent).point = .returned (.receiverFailure request)) := by
  unfold firmwareRequest
  simp only
  split
  · exact ⟨rfl, rfl, rfl, Or.inr rfl⟩
  · exact ⟨rfl, rfl, rfl, Or.inl rfl⟩

theorem subscribeRequest_keeps (request : PullError) (agent : UpdateAgent σ) :
    (subscribeRequest request agent).fsmc = agent.fsmc ∧
      (subscribeRequest request agent).memory = agent.memory ∧
      ((subscribeRequest request agent).point = .subscribeSend ∨
        (subscribeRequest request agent).point = .returned (.subscribeFailure request)) := by
  unfold subscribeRequest
  split
  · exact ⟨rfl, rfl, Or.inr rfl⟩
  · exact ⟨rfl, rfl, Or.inl rfl⟩

/-- Going on leaves the state machine alone, or is the call that fills the message. -/
theorem resume_cases (answer : Answer) (agent : UpdateAgent σ) :
    ((agent.resume M crypto table sf answer).fsmc = agent.fsmc ∧
        (agent.resume M crypto table sf answer).memory = agent.memory) ∨
      (agent.point = .getMsg ∧ (agent.resume M crypto table sf answer).fsmc =
          (fsm M crypto table sf (messageInput agent.msg answer.rng) agent.fsmc
            agent.memory).ctx ∧
        (agent.resume M crypto table sf answer).memory =
          (fsm M crypto table sf (messageInput agent.msg answer.rng) agent.fsmc
            agent.memory).memory) := by
  obtain ⟨firmwareCtx, firmwareMemory, _⟩ := firmwareRequest_keeps answer.request agent
  obtain ⟨versionCtx, versionMemory, _⟩ := subscribeRequest_keeps answer.request agent
  unfold UpdateAgent.resume
  cases agent.point with
  | subscribe => exact Or.inl ⟨versionCtx, versionMemory⟩
  | subscribeSend =>
      simp only
      split
      · exact Or.inl ⟨rfl, rfl⟩
      · split
        · exact Or.inl ⟨versionCtx, versionMemory⟩
        · exact Or.inl ⟨rfl, rfl⟩
  | getMsg =>
      simp only
      split
      · exact Or.inr ⟨trivial, rfl, rfl⟩
      · exact Or.inr ⟨trivial, rfl, rfl⟩
  | receive => exact Or.inl ⟨firmwareCtx, firmwareMemory⟩
  | receiveSend =>
      simp only
      split
      · exact Or.inl ⟨rfl, rfl⟩
      · exact Or.inl ⟨rfl, rfl⟩
  | subscribeTimeout =>
      simp only
      split
      · exact Or.inl ⟨firmwareCtx, firmwareMemory⟩
      · exact Or.inl ⟨rfl, rfl⟩
  | returned event => exact Or.inl ⟨rfl, rfl⟩

/-- **What the agent does is a run of the state machine**, unless it never starts. -/
theorem reachable_of_updateRun {build : Build} {allowed : UpdateStep → UpdateAgent σ → Prop}
    {agent : UpdateAgent σ} (run : UpdateRun M crypto table sf build allowed agent) :
    (∃ err, agent.point = .returned (.initFailure err)) ∨
      Reachable M crypto table sf agent.fsmc agent.memory := by
  induction run with
  | start connInit rngInit connOnData fsmc reqcErr msg memory =>
      have fresh : Reachable M crypto table sf _ _ := Reachable.init rngInit fsmc memory
      unfold updateStart
      simp only
      split
      · exact Or.inl ⟨_, rfl⟩
      · split
        · exact Or.inr fresh
        · split
          · exact Or.inr fresh
          · exact Or.inr fresh
  | @callback callback agent _ hears _ ih =>
      rcases ih with ⟨err, ended⟩ | reached
      · rw [ended] at hears
        cases hears
      · refine Or.inr ?_
        rcases requestCb_cases M crypto table sf callback agent with ⟨fsmc, memory⟩ |
          ⟨input, _, _, called⟩
        · rw [fsmc, memory]
          exact reached
        · rw [called]
          exact reached.step input
  | @resume answer agent _ _ ih =>
      rcases ih with ⟨err, ended⟩ | reached
      · refine Or.inl ⟨err, ?_⟩
        rw [UpdateAgent.resume, ended]
        exact ended
      · refine Or.inr ?_
        rcases resume_cases M crypto table sf answer agent with ⟨fsmc, memory⟩ |
          ⟨_, fsmc, memory⟩
        · rw [fsmc, memory]
          exact reached
        · rw [fsmc, memory]
          exact reached.step _

/-- While an exchange is going on the session is open or a failure is noted; behind the check it is
open, and the manifest is complete. -/
def Settled (agent : UpdateAgent σ) : Prop :=
  match agent.point with
  | .receive => agent.reqcErr ≠ .success ∨ agent.fsmc.Open
  | .receiveSend => agent.reqcErr ≠ .success ∨ agent.fsmc.Open
  | .subscribeTimeout => agent.fsmc.Open ∧ agent.fsmc.state ≠ .receiveManifest
  | .returned .apply => agent.fsmc.state = .reboot
  | _ => True

theorem settled_callback {build : Build} {callback : Callback} {agent : UpdateAgent σ}
    (settled : Settled agent) (hears : agent.point.hears build = true)
    (heard : Heard M crypto table sf (.callback callback) agent) :
    Settled (requestCb M crypto table sf callback agent) := by
  obtain ⟨kept, taken⟩ := heard
  -- During an exchange: a success keeps an open session open, and clears no failure.
  have exchange : agent.point = .receive ∨ agent.point = .receiveSend →
      (agent.reqcErr ≠ .success ∨ agent.fsmc.Open) →
      ((requestCb M crypto table sf callback agent).reqcErr ≠ .success ∨
        (requestCb M crypto table sf callback agent).fsmc.Open) := by
    intro point before
    by_cases opened : agent.fsmc.Open
    · rcases requestCb_cases M crypto table sf callback agent with ⟨fsmc, _⟩ |
        ⟨input, _, _, called⟩
      · rw [fsmc]
        exact Or.inr opened
      · rw [called]
        by_cases success : (fsm M crypto table sf input agent.fsmc agent.memory).err = .success
        · exact Or.inr (fsm_open M crypto table sf input agent.memory opened success).1
        · exact Or.inl success
    · exact Or.inl (kept point opened)
  unfold Settled at settled ⊢
  rw [requestCb_point]
  cases point : agent.point with
  | receive =>
      rw [point] at settled
      exact exchange (Or.inl point) settled
  | receiveSend =>
      rw [point] at settled
      exact exchange (Or.inr point) settled
  | subscribeTimeout =>
      rw [point] at settled
      obtain ⟨opened, complete⟩ := settled
      rcases requestCb_cases M crypto table sf callback agent with ⟨fsmc, _⟩ |
        ⟨input, given, success, called⟩
      · rw [fsmc]
        exact ⟨opened, complete⟩
      · obtain ⟨still, behind⟩ := fsm_open M crypto table sf input agent.memory opened
          (taken point success input given)
        rw [called]
        exact ⟨still, behind complete⟩
  | returned event =>
      rw [point] at hears
      cases hears
  | subscribe => trivial
  | subscribeSend => trivial
  | getMsg => trivial

theorem settled_resume {answer : Answer} {agent : UpdateAgent σ} (settled : Settled agent)
    (reached : (∃ err, agent.point = .returned (.initFailure err)) ∨
      Reachable M crypto table sf agent.fsmc agent.memory)
    (heard : Heard M crypto table sf (.resume answer) agent) :
    Settled (agent.resume M crypto table sf answer) := by
  obtain ⟨firmwareCtx, _, firmwareErr, firmwarePoint⟩ := firmwareRequest_keeps answer.request agent
  obtain ⟨_, _, versionPoint⟩ := subscribeRequest_keeps answer.request agent
  have requested : agent.reqcErr ≠ .success ∨ agent.fsmc.Open →
      Settled (firmwareRequest answer.request agent) := by
    intro before
    unfold Settled
    rcases firmwarePoint with sent | failed
    · rw [sent, firmwareCtx, firmwareErr]
      exact before
    · rw [failed]
      trivial
  have subscribed : Settled (subscribeRequest answer.request agent) := by
    unfold Settled
    rcases versionPoint with sent | failed
    · rw [sent]
      trivial
    · rw [failed]
      trivial
  unfold UpdateAgent.resume
  unfold Settled at settled
  unfold Heard at heard
  cases point : agent.point with
  | subscribe => exact subscribed
  | subscribeSend =>
      simp only
      split
      · trivial
      · split
        · exact subscribed
        · trivial
  | getMsg =>
      simp only
      split
      · trivial
      · rename_i success
        have resting : agent.fsmc.state ≠ .verifyManifest ∧
            agent.fsmc.state ≠ .verifyFirmware := by
          rcases reached with ⟨err, ended⟩ | reached
          · exact absurd (point.symm.trans ended) (by simp)
          · have counted := counted_of_reachable M crypto table sf reached
            unfold Counted at counted
            constructor
            · intro state
              rw [state] at counted
              exact counted
            · intro state
              rw [state] at counted
              exact counted
        exact Or.inr (fsm_message_open M crypto table sf agent.msg answer.rng_failed agent.memory
          resting (not_not.mp success))
  | receive =>
      rw [point] at settled
      exact requested settled
  | receiveSend =>
      rw [point] at settled
      simp only
      split
      · trivial
      · rename_i unfailed
        exact ⟨settled.resolve_left unfailed, heard point (not_not.mp unfailed)⟩
  | subscribeTimeout =>
      rw [point] at settled
      obtain ⟨opened, complete⟩ := settled
      simp only
      split
      · exact requested (Or.inr opened)
      · rename_i past
        exact (opened.resolve_left complete).resolve_left past
  | returned event =>
      rw [point] at settled
      unfold Settled
      rw [point]
      exact settled

/-- **An update that is applied is verified**, in every run of both builds in which nothing that
goes wrong gets lost. -/
theorem update_applies_verified {build : Build} {agent : UpdateAgent σ}
    (run : UpdateRun M crypto table sf build (Heard M crypto table sf) agent) :
    AppliesVerified agent := by
  have settled : Settled agent := by
    induction run with
    | start connInit rngInit connOnData fsmc reqcErr msg memory =>
        unfold updateStart
        simp only
        split
        · trivial
        · split
          · trivial
          · split
            · trivial
            · trivial
    | callback callback run hears heard ih =>
        exact settled_callback M crypto table sf ih hears heard
    | resume answer run heard ih =>
        exact settled_resume M crypto table sf ih (reachable_of_updateRun M crypto table sf run)
          heard
  intro applied
  rw [Settled, applied] at settled
  exact settled

end Agent

/-! ### A blank device -/

/-- Every request is sent, and the generator answers zeros. -/
def zeroAnswer : Answer := ⟨.success, .ok zeroNonce, nofun⟩

theorem blankCtx_started :
    fsmInit (plain (fullLayout none)) twoSlots .success FsmCtx.zero (fun _ _ => 0) =
      (.success, blankCtx, fun _ _ => 0) := by
  refine Prod.ext ?_ (Prod.ext rfl blankCtx_memory)
  rw [fsmInit, getNewestFirmware, getOrderedFirmware_plain (fullLayout none) _ twoSlots _ _ _ _
    (fun slot _ => sizeofManifest_le_full none slot.id)]
  rfl

/-- The agent of the blank device once it waits for the manifest. -/
def blankWaitingAgent (msg : List UInt8) : UpdateAgent Contents :=
  ⟨.receiveSend, blankSession, .success, msg, fun _ _ => 0⟩

/-- The announced version leads it there, whatever is allowed later. -/
theorem blankWaitingAgent_run (build : Build)
    {allowed : UpdateStep → UpdateAgent Contents → Prop}
    (resumes : ∀ answer agent, agent.point ≠ .receiveSend → allowed (.resume answer) agent)
    (hears : ∀ callback agent, agent.point = .subscribeSend →
      allowed (.callback callback) agent) :
    ∃ msg, UpdateRun (plain (fullLayout none)) mirrorCrypto twoSlots zeroSafestore build allowed
      (blankWaitingAgent msg) := by
  have started : UpdateRun (plain (fullLayout none)) mirrorCrypto twoSlots zeroSafestore build
      allowed _ := .start .success .success .success FsmCtx.zero .success [] (fun _ _ => 0)
  have fresh : updateStart (plain (fullLayout none)) twoSlots .success .success .success
      FsmCtx.zero .success [] (fun _ _ => 0) =
        ⟨.subscribe, blankCtx, .success, [], fun _ _ => 0⟩ := by
    rw [updateStart, blankCtx_started]
    rfl
  rw [fresh] at started
  have asked := started.resume zeroAnswer (resumes _ _ (by simp))
  have announced := UpdateRun.data _ _ _ _ asked fsm_versionCall rfl (hears _ _ rfl)
  have found := announced.resume zeroAnswer (resumes _ _ (by simp))
  rw [show UpdateAgent.resume (plain (fullLayout none)) mirrorCrypto twoSlots zeroSafestore
    zeroAnswer ⟨.subscribeSend, { blankCtx with state := .startUpdate }, .success, [],
      fun _ _ => 0⟩ =
      ⟨.getMsg, { blankCtx with state := .startUpdate }, .success, [], fun _ _ => 0⟩ from rfl]
    at found
  have filled := found.resume zeroAnswer (resumes _ _ (by simp))
  have message : UpdateAgent.resume (plain (fullLayout none)) mirrorCrypto twoSlots zeroSafestore
      zeroAnswer ⟨.getMsg, { blankCtx with state := .startUpdate }, .success, [], fun _ _ => 0⟩ =
        ⟨.receive, blankSession, .success, fillReceiverMsg
          (messageInput [] zeroAnswer.rng).buf.data zeroSafestore.udid blankCtx.version
          ⟨List.replicate 4 0, rfl⟩, fun _ _ => 0⟩ := by
    rw [UpdateAgent.resume]
    simp only [@fsm_startUpdate_begun _ (plain (fullLayout none)) mirrorCrypto twoSlots
      zeroSafestore (messageInput [] zeroAnswer.rng) { blankCtx with state := .startUpdate }
      ⟨List.replicate 4 0, rfl⟩ (fun _ _ => 0) rfl (messageInput_length [] zeroAnswer.rng).ge rfl]
    rfl
  rw [message] at filled
  exact ⟨_, filled.resume zeroAnswer (resumes _ _ (by simp))⟩

/-- The manifest and the firmware of the signed update, then the end of the exchange. -/
theorem signedUpdate_applied :
    ∃ agent, UpdateRun (plain (fullLayout none)) mirrorCrypto twoSlots zeroSafestore .plain
        (Heard (plain (fullLayout none)) mirrorCrypto twoSlots zeroSafestore) agent ∧
      agent.point = .returned .apply ∧ agent.fsmc.state = .reboot := by
  have early : ∀ callback (agent : UpdateAgent Contents), agent.point = .subscribeSend →
      Heard (plain (fullLayout none)) mirrorCrypto twoSlots zeroSafestore (.callback callback)
        agent := by
    intro callback agent point
    refine ⟨?_, ?_⟩
    · rintro (other | other)
      · exact UpdatePoint.noConfusion (point.symm.trans other)
      · exact UpdatePoint.noConfusion (point.symm.trans other)
    · intro other
      exact UpdatePoint.noConfusion (point.symm.trans other)
  obtain ⟨msg, waiting⟩ := @blankWaitingAgent_run .plain
    (Heard (plain (fullLayout none)) mirrorCrypto twoSlots zeroSafestore)
    (fun _ _ other point => absurd point other) early
  obtain ⟨armedCtx, memory, call, armed, expected⟩ := signedUpdate_armed (fun _ _ => 0)
    blankSession_collecting.1 blankSession_collecting.2
  have collecting : blankSession.Open := Or.inl blankSession_collecting.1.state
  have receiving := waiting.data _ _ _ _ call rfl
    ⟨fun _ closed => absurd collecting closed, UpdatePoint.noConfusion⟩
  have complete : signedManifest.length + firmwareCall.buf.data.length = armedCtx.expected := by
    rw [expected, signedManifest_length, show firmwareCall.buf.data.length = 1024 from
      List.length_replicate]
  obtain ⟨ctx, verified, state, _⟩ :=
    fsm_armed_exact none mirrorCrypto twoSlots zeroSafestore armed complete
  have passes := signedUpdate_passes (((fun _ _ => 0 : Contents)) armedCtx.id)
  rw [show firmwareCall.buf.data = zeroFirmware from rfl, passes] at verified state
  have rebooting := receiving.data _ _ _ _ verified rfl
    ⟨fun _ closed => absurd (Or.inr (Or.inl armed.state)) closed, UpdatePoint.noConfusion⟩
  have rebooted : ctx.state = .reboot := state
  have checked := rebooting.resume zeroAnswer fun _ _ waiting =>
    FsmState.noConfusion (rebooted.symm.trans waiting)
  have finished := checked.resume zeroAnswer UpdatePoint.noConfusion
  have applied : (UpdateAgent.resume (plain (fullLayout none)) mirrorCrypto twoSlots zeroSafestore
      zeroAnswer ⟨.subscribeTimeout, ctx, .success, msg, Function.update (fun _ _ => 0)
        armedCtx.id (writeRange (fun _ => 0) 0 (signedManifest ++ zeroFirmware))⟩).point =
      .returned .apply := by
    rw [UpdateAgent.resume]
    simp only [rebooted]
    rfl
  exact ⟨_, finished, applied, update_applies_verified _ _ _ _ finished applied⟩

/-- **A timeout is taken for an update**: the manifest never arrives, and the agent of either build
reports `EVENT_APPLY`. -/
theorem timeout_applies :
    (¬ ∀ agent, UpdateRun (plain (fullLayout none)) mirrorCrypto twoSlots zeroSafestore .coroutines
        (fun _ _ => True) agent → AppliesVerified agent) ∧
      ¬ ∀ agent, UpdateRun (plain (fullLayout none)) mirrorCrypto twoSlots zeroSafestore .plain
        (fun _ _ => True) agent → AppliesVerified agent := by
  have silent : ∀ build, ¬ ∀ agent, UpdateRun (plain (fullLayout none)) mirrorCrypto twoSlots
      zeroSafestore build (fun _ _ => True) agent → AppliesVerified agent := by
    intro build verified
    obtain ⟨msg, waiting⟩ := @blankWaitingAgent_run build (fun _ _ => True)
      (fun _ _ _ => trivial) (fun _ _ _ => trivial)
    have finished := (waiting.resume zeroAnswer trivial).resume zeroAnswer trivial
    exact FsmState.noConfusion (verified _ finished rfl)
  exact ⟨silent .coroutines, silent .plain⟩

end Upkit
