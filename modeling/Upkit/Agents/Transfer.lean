/-
**The pull transfer: agent, connection, network and server.**

The update agent of `update.c`, the response handler of `connection_libcoap.c`, the server, and the
messages between them. No message is lost or delivered twice, but each may be delayed at will: the
agent goes on when `loop` times out, whatever is still on its way.

The request for the next block is made from the `receiver_msg_t` of the agent, whose offset the agent
sets anew when it asks again.

* `PullStep` — the agent goes on, a request is answered, or an answer is delivered.
* `Quiet` — the agent asks only when nothing is on its way.
* `quiet_prefix` — then what has been handed to the state machine is always a prefix of the file.
* `late_answer_repeats` — one answer that arrives after the timeout hands a block over twice.
-/

import Upkit.Agents.Update
import Upkit.Network.Freshness
import Upkit.Server.Update

namespace Upkit

open Bytes

/-! ### Messages -/

/-- The resources the agent asks for. -/
inductive Resource
  | version
  | firmware
  deriving DecidableEq, Repr

/-- A request on its way: the number of its block and its payload. -/
structure PullRequest where
  resource : Resource
  num : Nat
  data : List UInt8
  deriving DecidableEq

/-- An answer on its way: whether it is a reset, its code, number and More flag of its Block2 option,
and its payload. -/
structure PullResponse where
  reset : Bool
  code : ResponseCode
  block : Option (Nat × Bool)
  payload : List UInt8
  deriving DecidableEq

/-- A message on its way. -/
inductive Packet
  | request (request : PullRequest)
  | response (response : PullResponse)
  deriving DecidableEq

section Handlers

variable (crypto : Crypto) (signer : Signer) (coap : Coap)

/-- The server: `resource_version` and `resource_firmware`. -/
def serve (request : PullRequest) (server : ServerCtx) : PullResponse × ServerCtx :=
  match request.resource with
  | .version => (⟨false, .content, none, toLE 2 server.manifest.getVersion⟩, server)
  | .firmware =>
      let (response, server) := resourceFirmware crypto signer coap
        ⟨some request.data, some ⟨request.num, blockSize⟩⟩ server
      (⟨false, response.code, some (request.num, response.more), response.payload⟩, server)

/-- The callback with a payload; `coap_get_data` finds none in an answer without one. The length is
passed on as an `int`. -/
def dataCallback (payload : List UInt8) (rng : Except PullError Nonce) : Callback :=
  if payload = [] then ⟨.requestError, none⟩
  else if short : payload.length < 2 ^ 31 then ⟨.success, some ⟨⟨payload, short⟩, rng⟩⟩
  else ⟨.success, none⟩

/-- `handler_libcoap`: what it sends, and its call of `request_cb`. `enabled` and `data` are those of
the blockwise context, and `sends` says whether the next request can be made and sent. -/
def handlerLibcoap (enabled : Bool) (data : List UInt8) (sends : Bool)
    (rng : Except PullError Nonce) (received : PullResponse) : Option PullRequest × Callback :=
  if received.reset then (none, ⟨.requestRst, none⟩)
  else if received.code ≠ .content then (none, ⟨.requestError, none⟩)
  else
    match received.block with
    | none => (none, dataCallback received.payload rng)
    | some (num, more) =>
        if enabled then
          if more then
            if sends then (some ⟨.firmware, num + 1, data⟩, dataCallback received.payload rng)
            else (none, ⟨.requestError, none⟩)
          else (none, dataCallback received.payload rng)
        else (none, ⟨.requestError, none⟩)

end Handlers

/-! ### The system -/

/-- The agent, the blockwise context of its connection, the messages on their way, the server, and
the bytes handed to `fsm` since it has been in `STATE_START_UPDATE`. -/
structure Pull (σ : Type) where
  agent : UpdateAgent σ
  enabled : Bool
  packets : List Packet
  server : ServerCtx
  handed : List UInt8

/-- One step. -/
inductive PullStep
  | resume (answer : Answer)
  | serve (index : Nat) (signer : Signer)
  | deliver (index : Nat) (sends : Bool) (rng : Except PullError Nonce)

section System

variable {σ : Type} (M : MemoryInterface σ) (crypto : Crypto) (table : SlotTable)
  (sf : Safestore) (coap : Coap) (build : Build)

/-- The request `conn_request` has sent when the agent waits for an answer. -/
def UpdateAgent.asks (agent : UpdateAgent σ) : Option PullRequest :=
  match agent.point with
  | .subscribeSend => some ⟨.version, 0, []⟩
  | .receiveSend => some ⟨.firmware, 0, agent.msg⟩
  | _ => none

/-- The state machine has been in `STATE_START_UPDATE`. -/
def UpdateAgent.begun (agent : UpdateAgent σ) : Bool :=
  match agent.point with
  | .receive | .receiveSend | .subscribeTimeout => true
  | _ => agent.fsmc.state = .startUpdate

namespace Pull

/-- The agent has come to its next point, and has sent what it asks there. -/
def goOn (agent : UpdateAgent σ) (pull : Pull σ) : Pull σ :=
  match agent.asks with
  | none => { pull with agent := agent }
  | some request => { pull with
      agent := agent
      enabled := request.resource = .firmware
      packets := pull.packets ++ [.request request] }

/-- The agent goes on; `loop` has timed out or has been left. -/
def resume (answer : Answer) (pull : Pull σ) : Pull σ :=
  pull.goOn (pull.agent.resume M crypto table sf answer)

/-- The server answers a request. -/
def serve (index : Nat) (signer : Signer) (pull : Pull σ) : Pull σ :=
  match pull.packets[index]? with
  | some (.request request) =>
      let (response, server) := Upkit.serve crypto signer coap request pull.server
      { pull with packets := pull.packets.eraseIdx index ++ [.response response], server := server }
  | _ => pull

/-- The handler takes an answer while the connection is served. -/
def deliver (index : Nat) (sends : Bool) (rng : Except PullError Nonce) (pull : Pull σ) : Pull σ :=
  if pull.agent.point.hears build then
    match pull.packets[index]? with
    | some (.response response) =>
        let (next, callback) := handlerLibcoap pull.enabled pull.agent.msg sends rng response
        { pull with
          agent := requestCb M crypto table sf callback pull.agent
          packets := pull.packets.eraseIdx index ++ (next.map Packet.request).toList
          handed := pull.handed ++
            if pull.agent.begun then (callback.data.map fun input => input.buf.data).getD [] else [] }
    | _ => pull
  else pull

def step (pull : Pull σ) : PullStep → Pull σ
  | .resume answer => pull.resume M crypto table sf answer
  | .serve index signer => pull.serve crypto coap index signer
  | .deliver index sends rng => pull.deliver M crypto table sf build index sends rng

/-- The steps one after the other. -/
def run : List PullStep → Pull σ → Pull σ
  | [], pull => pull
  | step :: steps, pull => run steps (pull.step M crypto table sf coap build step)

/-- A call of `update_agent` with a new connection. -/
def start (connInit rngInit connOnData : PullError) (fsmc : FsmCtx) (reqcErr : PullError)
    (msg : List UInt8) (memory : σ) (server : ServerCtx) : Pull σ :=
  ⟨updateStart M table connInit rngInit connOnData fsmc reqcErr msg memory, false, [], server, []⟩

/-- The agent asks only when nothing is on its way. -/
def Quiet : List PullStep → Pull σ → Prop
  | [], _ => True
  | step :: steps, pull =>
      (match step with
        | .resume answer => (pull.agent.resume M crypto table sf answer).asks.isSome →
            pull.packets = []
        | _ => True) ∧
      Quiet steps (pull.step M crypto table sf coap build step)

instance decidableQuiet : (steps : List PullStep) → (pull : Pull σ) →
    Decidable (Quiet M crypto table sf coap build steps pull)
  | [], _ => isTrue trivial
  | .resume answer :: steps, pull =>
      have := decidableQuiet steps (pull.step M crypto table sf coap build (.resume answer))
      inferInstanceAs (Decidable ((_ → pull.packets = []) ∧ _))
  | .serve index signer :: steps, pull =>
      have := decidableQuiet steps (pull.step M crypto table sf coap build (.serve index signer))
      inferInstanceAs (Decidable (True ∧ _))
  | .deliver index sends rng :: steps, pull =>
      have := decidableQuiet steps
        (pull.step M crypto table sf coap build (.deliver index sends rng))
      inferInstanceAs (Decidable (True ∧ _))

end Pull

end System

/-! ### What the state machine counts -/

/-- While a session receives, `processed` is the number of bytes it has been handed. -/
def Counts (ctx : FsmCtx) (total : Nat) : Prop :=
  (ctx.state = .receiveManifest → ctx.processed = total) ∧
    (ctx.state = .receiveFirmware →
      ctx.processed = total ∧ total < 2 ^ 32 ∧ ctx.expected < 2 ^ 32)

section Counting

variable {σ : Type} (M : MemoryInterface σ) (crypto : Crypto) (table : SlotTable)
  (sf : Safestore)

/-- A session that does not receive counts nothing. -/
theorem counts_of_not_receiving {ctx : FsmCtx} (manifest : ctx.state ≠ .receiveManifest)
    (firmware : ctx.state ≠ .receiveFirmware) (total : Nat) : Counts ctx total :=
  ⟨fun waiting => absurd waiting manifest, fun receiving => absurd receiving firmware⟩

/-- Where receiving firmware goes on, the bytes are within what is expected. -/
theorem fsmReceiveFirmware_expected (data : List UInt8) (ctx : FsmCtx) (memory : σ)
    (full : ctx.pipeline = .buffer)
    (goes : (fsmReceiveFirmware M crypto sf data ctx memory).2.1.state = .receiveFirmware) :
    ctx.processed + data.length ≤ ctx.expected ∧
      (fsmReceiveFirmware M crypto sf data ctx memory).2.1.processed =
        ctx.processed + data.length ∧
      (fsmReceiveFirmware M crypto sf data ctx memory).2.1.expected = ctx.expected := by
  rw [fsmReceiveFirmware, fsmReceiveData_eq M data ctx memory full] at goes ⊢
  simp only at goes ⊢
  by_cases long : ctx.expected < ctx.processed + data.length
  · rw [if_pos long] at goes
    exact FsmState.noConfusion goes
  · rw [if_neg long] at goes ⊢
    by_cases more : ctx.processed + data.length = ctx.expected
    · rw [if_neg (not_not.mpr more)] at goes
      simp only [fsmVerifyFirmware] at goes
      split at goes
      · exact FsmState.noConfusion goes
      · exact FsmState.noConfusion goes
    · rw [if_pos more]
      exact ⟨not_lt.mp long, rfl, rfl⟩

/-- An armed slot expects what 32 bits can say. -/
theorem fsmArm_expected (rest : List UInt8) (ctx : FsmCtx) (memory : σ)
    (full : ctx.pipeline = .buffer)
    (armed : (fsmArm M table rest ctx memory).2.1.state = .receiveFirmware) :
    (fsmArm M table rest ctx memory).2.1.processed = ctx.processed + rest.length ∧
      (fsmArm M table rest ctx memory).2.1.expected < 2 ^ 32 := by
  rw [fsmArm_eq M table rest ctx memory full] at armed ⊢
  simp only at armed ⊢
  split at armed
  · exact FsmState.noConfusion armed
  · rename_i scanned
    rw [if_neg scanned]
    split at armed
    · exact FsmState.noConfusion armed
    · rename_i opened
      rw [if_neg opened]
      exact ⟨rfl, Nat.mod_lt _ (Nat.two_pow_pos _)⟩

/-- **A call counts its buffer**, unless it begins a session. -/
theorem fsm_counts (input : FsmInput) {ctx : FsmCtx} (memory : σ) (counted : Counted ctx)
    (other : ctx.state ≠ .startUpdate) {total : Nat} (counts : Counts ctx total) :
    Counts (fsm M crypto table sf input ctx memory).ctx (total + input.buf.data.length) := by
  rcases fsm_transitions M crypto table sf input memory counted with
    ⟨manifest, firmware⟩ | ⟨starting, _⟩ | ⟨waiting, room, collected⟩ | ⟨arms, still, _⟩ |
      ⟨receiving, goes⟩
  · exact counts_of_not_receiving manifest firmware _
  · exact absurd starting other
  · have state : (fsm M crypto table sf input ctx memory).ctx.state = .receiveManifest := by
      rw [collected]
      exact waiting
    refine ⟨fun _ => ?_, fun receiving => FsmState.noConfusion (state.symm.trans receiving)⟩
    rcases fsm_receiveManifest_cases M crypto table sf memory waiting with
      ⟨_, cleaned | ⟨few, _⟩⟩ | ⟨_, call⟩
    · exact FsmState.noConfusion (state.symm.trans cleaned)
    · rw [collected, (collected_short input.buf.data room few).1, counts.1 waiting]
    · rw [call] at state
      rcases (fsmArm_ctx M table (input.buf.data.drop (sizeofManifest - ctx.processed))
        (ctx.collected input.buf.data).configured memory rfl).2.2 with cleaned | ⟨armed, _⟩
      · exact FsmState.noConfusion (state.symm.trans cleaned)
      · exact FsmState.noConfusion (state.symm.trans armed)
  · refine ⟨fun waiting => absurd waiting still, fun receiving => ?_⟩
    obtain ⟨waiting, room, enough, -⟩ := arms
    have short := input.buf.short
    have size : sizeofManifest = 256 := rfl
    rcases fsm_receiveManifest_cases M crypto table sf memory waiting with
      ⟨_, cleaned | ⟨few, _⟩⟩ | ⟨_, call⟩
    · exact FsmState.noConfusion (receiving.symm.trans cleaned)
    · omega
    · rw [call] at receiving ⊢
      obtain ⟨processed, expected⟩ := fsmArm_expected M table _ _ memory rfl receiving
      have filled := (collected_complete input.buf.data room enough).1
      have start := counts.1 waiting
      have sum : (ctx.collected input.buf.data).configured.processed +
          (input.buf.data.drop (sizeofManifest - ctx.processed)).length =
            total + input.buf.data.length := by
        show (ctx.collected input.buf.data).processed + _ = _
        rw [filled, List.length_drop]
        omega
      exact ⟨processed.trans sum, by omega, expected⟩
  · refine ⟨fun waiting => FsmState.noConfusion (goes.symm.trans waiting), fun _ => ?_⟩
    unfold Counted at counted
    rw [receiving] at counted
    obtain ⟨processed, -, expected⟩ := counts.2 receiving
    rw [fsm_receiveFirmware M crypto table sf memory receiving] at goes ⊢
    obtain ⟨within, sum, same⟩ := fsmReceiveFirmware_expected M crypto sf input.buf.data ctx memory
      counted.1 goes
    refine ⟨sum.trans (by rw [processed]), by omega, ?_⟩
    exact lt_of_eq_of_lt same expected

/-- Only a version of two bytes leads to `STATE_START_UPDATE`. -/
theorem fsm_not_startUpdate (input : FsmInput) {ctx : FsmCtx} (memory : σ) (counted : Counted ctx)
    (other : ctx.state ≠ .startUpdate) (long : input.buf.data.length ≠ 2) :
    (fsm M crypto table sf input ctx memory).ctx.state ≠ .startUpdate := by
  have idle : ∀ ctx : FsmCtx, (fsmIdle input.buf.data ctx memory).2.1.state ≠ .startUpdate := by
    intro ctx
    rw [fsmIdle, if_pos long]
    exact FsmState.noConfusion
  unfold Counted at counted
  cases phase : ctx.state with
  | clean =>
      rw [fsm, phase]
      exact idle _
  | idle =>
      rw [fsm, phase]
      exact idle _
  | startUpdate => exact absurd phase other
  | receiveManifest =>
      rcases fsm_receiveManifest_cases M crypto table sf memory phase with
        ⟨_, cleaned | ⟨_, waiting⟩⟩ | ⟨_, call⟩
      · rw [cleaned]
        exact FsmState.noConfusion
      · rw [waiting]
        exact FsmState.noConfusion
      · rw [call]
        rcases (fsmArm_ctx M table (input.buf.data.drop (sizeofManifest - ctx.processed))
          (ctx.collected input.buf.data).configured memory rfl).2.2 with cleaned | ⟨armed, _⟩
        · simp only [keepBuf, cleaned]
          exact FsmState.noConfusion
        · simp only [keepBuf, armed]
          exact FsmState.noConfusion
  | receiveFirmware =>
      rw [phase] at counted
      rw [fsm_receiveFirmware M crypto table sf memory phase]
      rcases (fsmReceiveFirmware_ctx M crypto sf input.buf.data ctx memory phase counted.1).2.2 with
        cleaned | ⟨armed, _⟩ | ⟨_, _, idle | reboot⟩
      · simp only [keepBuf, cleaned]
        exact FsmState.noConfusion
      · simp only [keepBuf, armed]
        exact FsmState.noConfusion
      · simp only [keepBuf, idle]
        exact FsmState.noConfusion
      · simp only [keepBuf, reboot]
        exact FsmState.noConfusion
  | verifyManifest =>
      rw [phase] at counted
      exact False.elim counted
  | verifyFirmware =>
      rw [phase] at counted
      exact False.elim counted
  | reboot =>
      rw [fsm, phase]
      simp only [phase]
      exact FsmState.noConfusion

end Counting

/-! ### The message -/

section Message

theorem fillReceiverMsg_length (data : List UInt8) (udid version : Nat) (nonce : Nonce)
    (room : sizeofReceiverMsg ≤ data.length) :
    (fillReceiverMsg data udid version nonce).length = data.length := by
  have size : sizeofReceiverMsg = 16 := rfl
  have first : (splice data 0 (toLE 2 udid)).length = data.length :=
    splice_length (by rw [toLE_length]; omega)
  have second : (splice (splice data 0 (toLE 2 udid)) 8 (toLE 2 version)).length = data.length :=
    (splice_length (by rw [toLE_length, first]; omega)).trans first
  rw [fillReceiverMsg, splice_length (by rw [nonce.length_eq, second]; omega), second]

variable {msg : List UInt8}

/-- The offset of the message is the count of the state machine, as far as 32 bits can say it. -/
theorem updateReceiverMsg_offset (ctx : FsmCtx) (length : msg.length = sizeofReceiverMsg)
    (small : ctx.processed < 2 ^ 32) : msgOffset (updateReceiverMsg ctx msg) = ctx.processed := by
  have stored := @slice_splice_self msg (toLE 4 ctx.processed) 12 (by rw [length]; decide)
  rw [toLE_length] at stored
  rw [msgOffset, updateReceiverMsg, stored, ofLE_toLE small]

/-- The device and the nonce stay. -/
theorem updateReceiverMsg_names (ctx : FsmCtx) (length : msg.length = sizeofReceiverMsg) :
    msgUdid (updateReceiverMsg ctx msg) = msgUdid msg ∧
      msgNonce (updateReceiverMsg ctx msg) = msgNonce msg := by
  have fits : 12 + (toLE 4 ctx.processed).length ≤ msg.length := by
    rw [toLE_length, length]
    decide
  constructor
  · rw [msgUdid, updateReceiverMsg, slice_splice_disjoint fits (Or.inl (by decide))]
    rfl
  · rw [msgNonce, updateReceiverMsg, slice_splice_disjoint fits (Or.inl (by decide))]
    rfl

theorem updateReceiverMsg_length (ctx : FsmCtx) (length : msg.length = sizeofReceiverMsg) :
    (updateReceiverMsg ctx msg).length = sizeofReceiverMsg := by
  rw [updateReceiverMsg, splice_length (by rw [toLE_length, length]; decide), length]

end Message

/-! ### Answers of the server -/

section Answers

variable (crypto : Crypto) (signer : Signer) (coap : Coap)

/-- A file that names the device of a message stays. -/
theorem prepare_current {msg : List UInt8} {server : ServerCtx}
    (current : ¬ Stale msg server.manifest) : prepare crypto signer msg server = (.success, server) :=
  if_neg current

/-- Preparing leaves the length of the file, and a file that names the device of the message. -/
theorem prepare_spec (msg : List UInt8) (server : ServerCtx) :
    ¬ Stale msg (prepare crypto signer msg server).2.manifest ∧
      (prepare crypto signer msg server).2.mappedFile.length = server.mappedFile.length := by
  unfold prepare
  by_cases stale : Stale msg server.manifest
  · have length : sizeofManifest + server.firmware.length = server.mappedFile.length := by
      rw [← ServerCtx.ofParts_length server.manifest, server.ofParts_self]
    have current := servedManifest_current crypto signer msg server.mappedFile.length
      server.manifest
    rw [servedManifest, if_pos stale] at current
    rw [if_pos stale]
    refine ⟨?_, ?_⟩
    · show ¬ Stale msg (ServerCtx.ofParts _ _).manifest
      rw [ServerCtx.ofParts_manifest]
      exact current
    · show (ServerCtx.ofParts _ _).mappedFile.length = _
      rw [ServerCtx.ofParts_length, length]
  · rw [if_neg stale]
    exact ⟨stale, rfl⟩

/-- The block of a file that a message and a number ask for. -/
def blockOf (msg : List UInt8) (num : Nat) (server : ServerCtx) : PullResponse :=
  ⟨false, .content, some (num, decide (msgOffset msg + num * blockBytes + blockBytes <
      server.mappedFile.length)),
    (server.mappedFile.drop (msgOffset msg + num * blockBytes)).take blockBytes⟩

/-- **An answer about the firmware** is a refusal, or the block that was asked for. -/
theorem serve_firmware (msg : List UInt8) (num : Nat) (server : ServerCtx)
    (inside : num = 0 ∨ msgOffset msg + num * blockBytes < server.mappedFile.length) :
    ∃ response server', serve crypto signer coap ⟨.firmware, num, msg⟩ server =
        (response, server') ∧
      (¬ Stale msg server.manifest → server' = server) ∧
      (response.code ≠ .content ∨ ¬ Stale msg server'.manifest ∧
        msgOffset msg + num * blockBytes < server'.mappedFile.length ∧
        response = blockOf msg num server') := by
  obtain ⟨current, length⟩ := prepare_spec crypto signer msg server
  obtain ⟨⟨err, server'⟩, prepared⟩ : ∃ outcome, prepare crypto signer msg server = outcome :=
    ⟨_, rfl⟩
  have kept : ¬ Stale msg server.manifest → server' = server := by
    intro named
    rw [prepare_current crypto signer named] at prepared
    exact (congrArg Prod.snd prepared).symm
  rw [prepared] at current length
  change server'.mappedFile.length = _ at length
  simp only [serve, resourceFirmware, prepared]
  by_cases sized : msg.length ≠ sizeofReceiverMsg
  · rw [if_pos sized]
    exact ⟨_, _, rfl, fun _ => rfl, Or.inl ResponseCode.noConfusion⟩
  rw [if_neg sized]
  by_cases failed : err ≠ .success
  · rw [if_pos failed]
    exact ⟨_, _, rfl, kept, Or.inl ResponseCode.noConfusion⟩
  rw [if_neg failed]
  by_cases past : server'.mappedFile.length ≤ msgOffset msg
  · rw [if_pos past]
    exact ⟨_, _, rfl, kept, Or.inl ResponseCode.noConfusion⟩
  rw [if_neg past]
  have within : msgOffset msg + num * blockBytes < server'.mappedFile.length := by
    rcases inside with first | later
    · rw [first, Nat.zero_mul]
      omega
    · omega
  have cut := coap.addBlock_inside num (server'.mappedFile.drop (msgOffset msg))
    (by rw [List.length_drop]; omega)
  have more : num * blockBytes + blockBytes < server'.mappedFile.length - msgOffset msg ↔
      msgOffset msg + num * blockBytes + blockBytes < server'.mappedFile.length := by omega
  simp only [Option.getD_some, cut]
  refine ⟨_, _, rfl, kept, Or.inr ⟨current, within, ?_⟩⟩
  simp only [blockOf, List.drop_drop, List.length_drop, more]

/-- A file that names the device of a request is served as it is. -/
theorem serve_current {request : PullRequest} {server : ServerCtx}
    (current : request.resource = .firmware → ¬ Stale request.data server.manifest) :
    (serve crypto signer coap request server).2 = server := by
  obtain ⟨resource, num, data⟩ := request
  cases resource with
  | version => rfl
  | firmware =>
      simp only [serve, resourceFirmware, prepare_current crypto signer (current rfl)]
      split
      · rfl
      · split
        · rfl
        · split
          · rfl
          · split
            · rfl
            · rfl

end Answers

/-! ### The invariant -/

/-- What has been handed over is the beginning of the file; once there is something, the file is the
one for the device of the message, and so are the requests on their way. -/
structure Consistent {σ : Type} (pull : Pull σ) : Prop where
  taken : pull.handed <+: pull.server.mappedFile
  named : pull.handed ≠ [] → ¬ Stale pull.agent.msg pull.server.manifest
  asked : ∀ request, Packet.request request ∈ pull.packets → request.resource = .firmware →
    msgUdid request.data = msgUdid pull.agent.msg ∧
      msgNonce request.data = msgNonce pull.agent.msg

/-- The answer to a request for the version. -/
def versionOf (version : Nat) : PullResponse := ⟨false, .content, none, toLE 2 version⟩

/-- The one message on its way while firmware is received: a request for the block behind what has
been handed over, or the answer to it. -/
def OnItsWay {σ : Type} (pull : Pull σ) (num : Nat) : Packet → Prop
  | .request request => request = ⟨.firmware, num, pull.agent.msg⟩ ∧
      (num = 0 ∨ pull.handed.length < pull.server.mappedFile.length)
  | .response response => response.code ≠ .content ∨
      ¬ Stale pull.agent.msg pull.server.manifest ∧
      pull.handed.length < pull.server.mappedFile.length ∧
      response = blockOf pull.agent.msg num pull.server

/-- While firmware is received. -/
structure Receiving {σ : Type} (pull : Pull σ) : Prop where
  enabled : pull.enabled = true
  length : pull.agent.msg.length = sizeofReceiverMsg
  counted : Counted pull.agent.fsmc
  counts : Counts pull.agent.fsmc pull.handed.length
  chain : pull.packets = [] ∨ pull.agent.fsmc.state ≠ .startUpdate ∧
    ∃ num packet, pull.packets = [packet] ∧
      msgOffset pull.agent.msg + num * blockBytes = pull.handed.length ∧ OnItsWay pull num packet

/-- How far the agent is. -/
def Phase {σ : Type} (pull : Pull σ) : Prop :=
  match pull.agent.point with
  | .subscribe => pull.handed = [] ∧ pull.packets = [] ∧ pull.agent.fsmc.processed = 0 ∧
      pull.agent.fsmc.state = .idle
  | .subscribeSend => pull.handed = [] ∧ pull.agent.fsmc.processed = 0 ∧
      (pull.packets = [] ∧ pull.agent.fsmc.state = .startUpdate ∨
        pull.agent.fsmc.state = .idle ∧ (pull.packets = [] ∨
          pull.packets = [.request ⟨.version, 0, []⟩] ∨
          ∃ version, pull.packets = [.response (versionOf version)]))
  | .getMsg => pull.handed = [] ∧ pull.packets = [] ∧ pull.agent.fsmc.processed = 0 ∧
      pull.agent.fsmc.state = .startUpdate
  | .receive => pull.handed = [] ∧ pull.packets = [] ∧ pull.agent.fsmc.processed = 0 ∧
      pull.agent.fsmc.state = .receiveManifest ∧ pull.agent.msg.length = sizeofReceiverMsg
  | .receiveSend => Receiving pull
  | .subscribeTimeout => Receiving pull
  | .returned _ => True

theorem getElem?_singleton {α : Type} {item found : α} {index : Nat}
    (at_index : [item][index]? = some found) : index = 0 ∧ found = item := by
  cases index with
  | zero => exact ⟨rfl, (Option.some.inj at_index).symm⟩
  | succ index => cases at_index

section Invariant

variable {σ : Type} (M : MemoryInterface σ) (crypto : Crypto) (table : SlotTable)
  (sf : Safestore) (coap : Coap) (build : Build)

/-- **The server answers.** -/
theorem consistent_serve {pull : Pull σ} (consistent : Consistent pull) (index : Nat)
    (signer : Signer) : Consistent (pull.serve crypto coap index signer) := by
  unfold Pull.serve
  split
  · rename_i request found
    have member : Packet.request request ∈ pull.packets := List.mem_of_getElem? found
    have kept : pull.handed ≠ [] →
        (serve crypto signer coap request pull.server).2 = pull.server := by
      intro some
      refine serve_current crypto signer coap fun firmware => ?_
      obtain ⟨udid, nonce⟩ := consistent.asked request member firmware
      have current := consistent.named some
      rw [Stale] at current ⊢
      rw [udid, nonce]
      exact current
    refine ⟨?_, ?_, ?_⟩
    · by_cases some : pull.handed = []
      · simp only [some]
        exact List.nil_prefix
      · simp only [kept some]
        exact consistent.taken
    · intro some
      simp only [kept some]
      exact consistent.named some
    · intro other inside firmware
      rcases List.mem_append.mp inside with before | answer
      · exact consistent.asked other (List.mem_of_mem_eraseIdx before) firmware
      · cases List.mem_singleton.mp answer
  · exact consistent

theorem serve_nothing {pull : Pull σ} (none : pull.packets = []) (index : Nat) (signer : Signer) :
    pull.serve crypto coap index signer = pull := by
  unfold Pull.serve
  rw [none, List.getElem?_nil]

theorem receiving_serve {pull : Pull σ} (receiving : Receiving pull) (index : Nat)
    (signer : Signer) : Receiving (pull.serve crypto coap index signer) := by
  rcases receiving.chain with none | ⟨running, num, packet, one, position, way⟩
  · rw [serve_nothing crypto coap none]
    exact receiving
  · unfold Pull.serve
    rw [one]
    split
    · rename_i request found
      obtain ⟨rfl, rfl⟩ := getElem?_singleton found
      obtain ⟨rfl, inside⟩ := way
      obtain ⟨response, server', answered, -, outcome⟩ := serve_firmware crypto signer coap
        pull.agent.msg num pull.server (inside.imp_right fun below => lt_of_eq_of_lt position below)
      simp only [answered]
      refine ⟨receiving.enabled, receiving.length, receiving.counted, receiving.counts,
        Or.inr ⟨running, num, .response response, rfl, position, ?_⟩⟩
      rcases outcome with refused | ⟨current, below, block⟩
      · exact Or.inl refused
      · exact Or.inr ⟨current, lt_of_eq_of_lt position.symm below, block⟩
    · exact receiving

theorem phase_serve {pull : Pull σ} (phase : Phase pull) (index : Nat) (signer : Signer) :
    Phase (pull.serve crypto coap index signer) := by
  have agent : (pull.serve crypto coap index signer).agent = pull.agent ∧
      (pull.serve crypto coap index signer).handed = pull.handed := by
    unfold Pull.serve
    split
    · exact ⟨rfl, rfl⟩
    · exact ⟨rfl, rfl⟩
  unfold Phase at phase ⊢
  rw [agent.1, agent.2]
  cases point : pull.agent.point with
  | subscribe =>
      rw [point] at phase
      rw [serve_nothing crypto coap phase.2.1]
      exact phase
  | subscribeSend =>
      rw [point] at phase
      obtain ⟨handed, processed, ⟨none, starting⟩ | ⟨idle, none | asked | answered⟩⟩ := phase
      · rw [serve_nothing crypto coap none]
        exact ⟨handed, processed, Or.inl ⟨none, starting⟩⟩
      · rw [serve_nothing crypto coap none]
        exact ⟨handed, processed, Or.inr ⟨idle, Or.inl none⟩⟩
      · refine ⟨handed, processed, Or.inr ⟨idle, ?_⟩⟩
        unfold Pull.serve
        split
        · rename_i request found
          rw [asked] at found
          obtain ⟨rfl, same⟩ := getElem?_singleton found
          cases same
          rw [asked]
          exact Or.inr (Or.inr ⟨pull.server.manifest.getVersion, rfl⟩)
        · exact Or.inr (Or.inl asked)
      · refine ⟨handed, processed, Or.inr ⟨idle, ?_⟩⟩
        obtain ⟨version, one⟩ := answered
        unfold Pull.serve
        split
        · rename_i request found
          rw [one] at found
          cases (getElem?_singleton found).2
        · exact Or.inr (Or.inr ⟨version, one⟩)
  | getMsg =>
      rw [point] at phase
      rw [serve_nothing crypto coap phase.2.1]
      exact phase
  | receive =>
      rw [point] at phase
      rw [serve_nothing crypto coap phase.2.1]
      exact phase
  | receiveSend =>
      rw [point] at phase
      exact receiving_serve crypto coap phase index signer
  | subscribeTimeout =>
      rw [point] at phase
      exact receiving_serve crypto coap phase index signer
  | returned event => trivial

theorem dataCallback_eq {payload : List UInt8} (some : payload ≠ [])
    (short : payload.length < 2 ^ 31) (rng : Except PullError Nonce) :
    dataCallback payload rng = ⟨.success, .some ⟨⟨payload, short⟩, rng⟩⟩ := by
  rw [dataCallback, if_neg some, dif_pos short]

theorem deliver_nothing {pull : Pull σ} (none : pull.packets = []) (index : Nat) (sends : Bool)
    (rng : Except PullError Nonce) :
    pull.deliver M crypto table sf build index sends rng = pull := by
  unfold Pull.deliver
  rw [none, List.getElem?_nil]
  split
  · rfl
  · rfl

/-- A refusal ends the chain of requests. -/
theorem handlerLibcoap_refused {response : PullResponse} (refused : response.code ≠ .content)
    (enabled : Bool) (data : List UInt8) (sends : Bool) (rng : Except PullError Nonce) :
    ∃ err, handlerLibcoap enabled data sends rng response = (none, ⟨err, none⟩) ∧
      err ≠ .success := by
  rw [handlerLibcoap]
  split
  · exact ⟨_, rfl, PullError.noConfusion⟩
  · exact ⟨_, rfl, PullError.noConfusion⟩

/-- What the last message on its way leaves when it is delivered: its callback has run, `taken` has
been handed over, and `packets` are on their way. -/
def Pull.delivered (pull : Pull σ) (callback : Callback) (packets : List Packet)
    (taken : List UInt8) : Pull σ :=
  { pull with
    agent := requestCb M crypto table sf callback pull.agent
    packets := packets
    handed := pull.handed ++ taken }

/-- A callback without data leaves the state machine alone. -/
theorem receiving_failed {pull : Pull σ} (consistent : Consistent pull)
    (receiving : Receiving pull) {err : PullError} (failure : err ≠ .success) :
    Consistent (pull.delivered M crypto table sf ⟨err, none⟩ [] []) ∧
      Receiving (pull.delivered M crypto table sf ⟨err, none⟩ [] []) := by
  rw [Pull.delivered, requestCb, if_pos failure]
  simp only [List.append_nil]
  exact ⟨⟨consistent.taken, consistent.named, fun _ member => absurd member List.not_mem_nil⟩,
    receiving.enabled, receiving.length, receiving.counted, receiving.counts, Or.inl rfl⟩

/-- A block is handed over, and the request for the next one is on its way, if there is one, or none
is. -/
theorem receiving_handed {pull : Pull σ} (receiving : Receiving pull)
    (running : pull.agent.fsmc.state ≠ .startUpdate)
    (current : ¬ Stale pull.agent.msg pull.server.manifest) {num : Nat}
    (position : msgOffset pull.agent.msg + num * blockBytes = pull.handed.length)
    {rest payload : List UInt8} (file : pull.handed ++ rest = pull.server.mappedFile)
    (cut : rest.take blockBytes = payload) (short : payload.length < 2 ^ 31)
    (rng : Except PullError Nonce) {packets : List Packet}
    (next : packets = [] ∨ blockBytes < rest.length ∧
      packets = [.request ⟨.firmware, num + 1, pull.agent.msg⟩]) :
    Consistent (pull.delivered M crypto table sf ⟨.success, .some ⟨⟨payload, short⟩, rng⟩⟩ packets
        payload) ∧
      Receiving (pull.delivered M crypto table sf ⟨.success, .some ⟨⟨payload, short⟩, rng⟩⟩ packets
        payload) := by
  have total : pull.server.mappedFile.length = pull.handed.length + rest.length := by
    rw [← file, List.length_append]
  have size : payload.length = min blockBytes rest.length := by rw [← cut, List.length_take]
  have width : blockBytes = 256 := rfl
  have counted := counted_step M crypto table sf ⟨⟨payload, short⟩, rng⟩ pull.agent.memory
    receiving.counted
  have counts := fsm_counts M crypto table sf ⟨⟨payload, short⟩, rng⟩ pull.agent.memory
    receiving.counted running receiving.counts
  have prefixed : pull.handed ++ payload <+: pull.server.mappedFile := by
    rw [← file, ← cut]
    exact (List.prefix_append_right_inj _).mpr (List.take_prefix _ _)
  refine ⟨⟨prefixed, fun _ => current, ?_⟩, receiving.enabled, receiving.length, counted, ?_, ?_⟩
  · intro request member firmware
    change Packet.request request ∈ packets at member
    rcases next with none | ⟨-, one⟩
    · rw [none] at member
      exact absurd member List.not_mem_nil
    · rw [one, List.mem_singleton] at member
      cases member
      exact ⟨rfl, rfl⟩
  · rw [Pull.delivered, List.length_append]
    exact counts
  · rcases next with none | ⟨more, one⟩
    · exact Or.inl none
    · have full : payload.length = 256 := by omega
      refine Or.inr ⟨?_, num + 1, _, one, ?_, rfl, Or.inr ?_⟩
      · exact fsm_not_startUpdate M crypto table sf ⟨⟨payload, short⟩, rng⟩ pull.agent.memory
          receiving.counted running (by rw [full]; decide)
      · show msgOffset pull.agent.msg + (num + 1) * blockBytes = (pull.handed ++ payload).length
        rw [List.length_append, Nat.add_mul]
        omega
      · show (pull.handed ++ payload).length < pull.server.mappedFile.length
        rw [List.length_append]
        omega

/-- **An answer is delivered while firmware is received.** -/
theorem receiving_deliver {pull : Pull σ} (consistent : Consistent pull)
    (receiving : Receiving pull) (begun : pull.agent.begun = true) (index : Nat) (sends : Bool)
    (rng : Except PullError Nonce) :
    Consistent (pull.deliver M crypto table sf build index sends rng) ∧
      Receiving (pull.deliver M crypto table sf build index sends rng) := by
  rcases receiving.chain with none | ⟨running, num, packet, one, position, way⟩
  · rw [deliver_nothing M crypto table sf build none]
    exact ⟨consistent, receiving⟩
  unfold Pull.deliver
  split
  swap
  · exact ⟨consistent, receiving⟩
  rw [one]
  split
  swap
  · exact ⟨consistent, receiving⟩
  rename_i response found
  obtain ⟨rfl, rfl⟩ := getElem?_singleton found
  rcases way with refused | ⟨current, below, block⟩
  · obtain ⟨err, handled, failure⟩ := handlerLibcoap_refused refused pull.enabled pull.agent.msg
      sends rng
    simp only [handled]
    exact receiving_failed M crypto table sf consistent receiving failure
  · obtain ⟨rest, file⟩ := consistent.taken
    obtain ⟨payload, cut⟩ : ∃ payload, rest.take blockBytes = payload := ⟨_, rfl⟩
    have behind : pull.server.mappedFile.drop pull.handed.length = rest := by
      rw [← file, List.drop_left' rfl]
    have total : pull.server.mappedFile.length = pull.handed.length + rest.length := by
      rw [← file, List.length_append]
    have size : payload.length = min blockBytes rest.length := by rw [← cut, List.length_take]
    have width : blockBytes = 256 := rfl
    have some : payload ≠ [] := by
      rw [← List.length_pos_iff_ne_nil]
      omega
    have short : payload.length < 2 ^ 31 := by omega
    have handed := @receiving_handed _ M crypto table sf pull receiving running current num position rest
      payload file cut short rng
    have callback := dataCallback_eq some short rng
    have more : pull.handed.length + blockBytes < pull.server.mappedFile.length ↔
        blockBytes < rest.length := by omega
    have handler : handlerLibcoap pull.enabled pull.agent.msg sends rng response =
        if blockBytes < rest.length then
          if sends then (.some ⟨.firmware, num + 1, pull.agent.msg⟩,
            ⟨.success, .some ⟨⟨payload, short⟩, rng⟩⟩)
          else (none, ⟨.requestError, none⟩)
        else (none, ⟨.success, .some ⟨⟨payload, short⟩, rng⟩⟩) := by
      rw [block, blockOf, position, behind, cut, receiving.enabled]
      simp only [handlerLibcoap, Bool.false_eq_true, if_false, ne_eq, not_true_eq_false, if_true,
        more, decide_eq_true_eq, callback]
    simp only [handler]
    by_cases further : blockBytes < rest.length
    · rw [if_pos further]
      cases sends with
      | true => exact handed (Or.inr ⟨further, rfl⟩)
      | false =>
          exact receiving_failed M crypto table sf consistent receiving PullError.noConfusion
    · rw [if_neg further]
      exact handed (Or.inl rfl)

/-- The version while the agent waits for it. -/
theorem subscribed_deliver {pull : Pull σ} (consistent : Consistent pull) (phase : Phase pull)
    (point : pull.agent.point = .subscribeSend) (index : Nat) (sends : Bool)
    (rng : Except PullError Nonce) :
    Consistent (pull.deliver M crypto table sf build index sends rng) ∧
      Phase (pull.deliver M crypto table sf build index sends rng) := by
  have before := phase
  unfold Phase at before
  rw [point] at before
  obtain ⟨handed, processed, ⟨none, -⟩ | ⟨idle, none | asked | ⟨version, answered⟩⟩⟩ := before
  · rw [deliver_nothing M crypto table sf build none]
    exact ⟨consistent, phase⟩
  · rw [deliver_nothing M crypto table sf build none]
    exact ⟨consistent, phase⟩
  · unfold Pull.deliver
    split
    · split
      · rename_i response found
        rw [asked] at found
        cases (getElem?_singleton found).2
      · exact ⟨consistent, phase⟩
    · exact ⟨consistent, phase⟩
  · unfold Pull.deliver
    split
    swap
    · exact ⟨consistent, phase⟩
    split
    swap
    · exact ⟨consistent, phase⟩
    rename_i response found
    rw [answered] at found
    obtain ⟨rfl, same⟩ := getElem?_singleton found
    cases same
    have length : (toLE 2 version).length = 2 := toLE_length _ _
    have some : toLE 2 version ≠ [] := by
      rw [← List.length_pos_iff_ne_nil, length]
      decide
    have short : (toLE 2 version).length < 2 ^ 31 := by
      rw [length]
      decide
    have handled : handlerLibcoap pull.enabled pull.agent.msg sends rng (versionOf version) =
        (none, ⟨.success, .some ⟨⟨toLE 2 version, short⟩, rng⟩⟩) := by
      simp only [handlerLibcoap, versionOf, Bool.false_eq_true, if_false, ne_eq, not_true_eq_false,
        dataCallback_eq some short]
    have early : pull.agent.begun = false := by
      rw [UpdateAgent.begun, point]
      simp only [idle]
      decide
    simp only [handled, early, Bool.false_eq_true, if_false, List.append_nil, answered]
    refine ⟨⟨consistent.taken, consistent.named, fun _ member => absurd member List.not_mem_nil⟩, ?_⟩
    have call : (fsm M crypto table sf ⟨⟨toLE 2 version, short⟩, rng⟩ pull.agent.fsmc
          pull.agent.memory).ctx = pull.agent.fsmc ∨
        (fsm M crypto table sf ⟨⟨toLE 2 version, short⟩, rng⟩ pull.agent.fsmc
          pull.agent.memory).ctx = { pull.agent.fsmc with state := .startUpdate } := by
      rw [fsm, idle]
      simp only [keepBuf, fsmIdle, length, ne_eq, not_true_eq_false, if_false]
      split
      · exact Or.inl rfl
      · exact Or.inr rfl
    simp only [Phase, requestCb_point, point]
    refine ⟨handed, ?_⟩
    rw [requestCb]
    simp only [ne_eq, not_true_eq_false, if_false]
    rcases call with same | started
    · rw [same]
      exact ⟨processed, Or.inr ⟨idle, Or.inl rfl⟩⟩
    · rw [started]
      exact ⟨processed, Or.inl ⟨rfl, rfl⟩⟩

/-- **An answer is delivered.** -/
theorem phase_deliver {pull : Pull σ} (consistent : Consistent pull) (phase : Phase pull)
    (index : Nat) (sends : Bool) (rng : Except PullError Nonce) :
    Consistent (pull.deliver M crypto table sf build index sends rng) ∧
      Phase (pull.deliver M crypto table sf build index sends rng) := by
  have before := phase
  have agentPoint : (pull.deliver M crypto table sf build index sends rng).agent.point =
      pull.agent.point := by
    unfold Pull.deliver
    split
    · split
      · exact requestCb_point M crypto table sf _ _
      · rfl
    · rfl
  unfold Phase at before
  cases point : pull.agent.point with
  | subscribe =>
      rw [point] at before
      rw [deliver_nothing M crypto table sf build before.2.1]
      exact ⟨consistent, phase⟩
  | subscribeSend =>
      exact subscribed_deliver M crypto table sf build consistent phase point index sends rng
  | getMsg =>
      rw [point] at before
      rw [deliver_nothing M crypto table sf build before.2.1]
      exact ⟨consistent, phase⟩
  | receive =>
      rw [point] at before
      rw [deliver_nothing M crypto table sf build before.2.1]
      exact ⟨consistent, phase⟩
  | receiveSend =>
      rw [point] at before agentPoint
      have begun : pull.agent.begun = true := by rw [UpdateAgent.begun, point]
      unfold Phase
      rw [agentPoint]
      exact receiving_deliver M crypto table sf build consistent before begun index sends rng
  | subscribeTimeout =>
      rw [point] at before agentPoint
      have begun : pull.agent.begun = true := by rw [UpdateAgent.begun, point]
      unfold Phase
      rw [agentPoint]
      exact receiving_deliver M crypto table sf build consistent before begun index sends rng
  | returned event =>
      have same : pull.deliver M crypto table sf build index sends rng = pull := by
        unfold Pull.deliver
        rw [point]
        rfl
      rw [same]
      exact ⟨consistent, phase⟩

/-! ### The agent goes on -/

/-- The agent keeps the device and the nonce of its message, or nothing depends on them. -/
theorem consistent_goOn {pull : Pull σ} (consistent : Consistent pull) {agent : UpdateAgent σ}
    (names : msgUdid agent.msg = msgUdid pull.agent.msg ∧
        msgNonce agent.msg = msgNonce pull.agent.msg ∨ pull.handed = [] ∧ pull.packets = []) :
    Consistent (pull.goOn agent) := by
  have named : pull.handed ≠ [] → ¬ Stale agent.msg pull.server.manifest := by
    intro some
    rcases names with ⟨udid, nonce⟩ | ⟨none, -⟩
    · rw [Stale, udid, nonce]
      exact consistent.named some
    · exact absurd none some
  have asked : ∀ request, Packet.request request ∈ pull.packets → request.resource = .firmware →
      msgUdid request.data = msgUdid agent.msg ∧ msgNonce request.data = msgNonce agent.msg := by
    intro request member firmware
    rcases names with ⟨udid, nonce⟩ | ⟨-, none⟩
    · rw [udid, nonce]
      exact consistent.asked request member firmware
    · rw [none] at member
      exact absurd member List.not_mem_nil
  unfold Pull.goOn
  split
  · exact ⟨consistent.taken, named, asked⟩
  · rename_i request asks
    refine ⟨consistent.taken, named, ?_⟩
    intro other member firmware
    rcases List.mem_append.mp member with before | sent
    · exact asked other before firmware
    · cases List.mem_singleton.mp sent
      unfold UpdateAgent.asks at asks
      split at asks
      · cases asks
        cases firmware
      · cases asks
        exact ⟨rfl, rfl⟩
      · cases asks

/-- A return ends the phases. -/
theorem phase_goOn_returned {pull : Pull σ} {agent : UpdateAgent σ} {event : UpdateEvent}
    (returned : agent.point = .returned event) : Phase (pull.goOn agent) := by
  have asks : agent.asks = none := by rw [UpdateAgent.asks, returned]
  unfold Pull.goOn
  rw [asks]
  simp only [Phase, returned]

/-- A request for firmware, sent while nothing is on its way. -/
theorem firmwareRequest_phase {pull : Pull σ} (consistent : Consistent pull)
    (length : pull.agent.msg.length = sizeofReceiverMsg) (counted : Counted pull.agent.fsmc)
    (running : pull.agent.fsmc.state ≠ .startUpdate)
    (counts : Counts pull.agent.fsmc pull.handed.length)
    (processed : pull.agent.fsmc.processed = pull.handed.length)
    (small : pull.handed.length < 2 ^ 32) (request : PullError)
    (quiet : (firmwareRequest request pull.agent).asks.isSome → pull.packets = []) :
    Consistent (pull.goOn (firmwareRequest request pull.agent)) ∧
      Phase (pull.goOn (firmwareRequest request pull.agent)) := by
  have names := updateReceiverMsg_names pull.agent.fsmc length
  have message : (firmwareRequest request pull.agent).msg =
      updateReceiverMsg pull.agent.fsmc pull.agent.msg := by
    unfold firmwareRequest
    simp only
    split
    · rfl
    · rfl
  refine ⟨consistent_goOn consistent (Or.inl (by rw [message]; exact names)), ?_⟩
  by_cases sent : request = .success
  · have offset := updateReceiverMsg_offset pull.agent.fsmc length (by rw [processed]; exact small)
    have asks : (firmwareRequest request pull.agent) = { pull.agent with
        msg := updateReceiverMsg pull.agent.fsmc pull.agent.msg
        point := .receiveSend } := by
      rw [firmwareRequest, if_neg (not_not.mpr sent)]
    rw [asks] at quiet ⊢
    have empty := quiet rfl
    simp only [Pull.goOn, UpdateAgent.asks, Phase, empty, List.nil_append]
    refine ⟨rfl, updateReceiverMsg_length _ length, counted, counts, Or.inr ⟨running, 0, _, rfl, ?_,
      rfl, Or.inl rfl⟩⟩
    rw [Nat.zero_mul, Nat.add_zero, offset, processed]
  · have returned : (firmwareRequest request pull.agent).point =
        .returned (.receiverFailure request) := by
      rw [firmwareRequest, if_pos sent]
    exact phase_goOn_returned returned

/-- A request for the version, sent while nothing is on its way. -/
theorem subscribeRequest_phase {pull : Pull σ} (consistent : Consistent pull)
    (handed : pull.handed = []) (processed : pull.agent.fsmc.processed = 0)
    (idle : pull.agent.fsmc.state = .idle) (request : PullError)
    (quiet : (subscribeRequest request pull.agent).asks.isSome → pull.packets = []) :
    Consistent (pull.goOn (subscribeRequest request pull.agent)) ∧
      Phase (pull.goOn (subscribeRequest request pull.agent)) := by
  have message : (subscribeRequest request pull.agent).msg = pull.agent.msg := by
    unfold subscribeRequest
    split
    · rfl
    · rfl
  refine ⟨consistent_goOn consistent (Or.inl (by rw [message]; exact ⟨rfl, rfl⟩)), ?_⟩
  by_cases sent : request = .success
  · have asks : subscribeRequest request pull.agent =
        { pull.agent with point := .subscribeSend } := by
      rw [subscribeRequest, if_neg (not_not.mpr sent)]
    rw [asks] at quiet ⊢
    have empty := quiet rfl
    simp only [Pull.goOn, UpdateAgent.asks, Phase, empty, List.nil_append]
    exact ⟨handed, processed, Or.inr ⟨idle, Or.inr (Or.inl trivial)⟩⟩
  · have returned : (subscribeRequest request pull.agent).point =
        .returned (.subscribeFailure request) := by
      rw [subscribeRequest, if_pos sent]
    exact phase_goOn_returned returned

/-- **The agent goes on** and asks only while nothing is on its way. -/
theorem phase_resume {pull : Pull σ} (consistent : Consistent pull) (phase : Phase pull)
    (answer : Answer)
    (quiet : (pull.agent.resume M crypto table sf answer).asks.isSome → pull.packets = []) :
    Consistent (pull.resume M crypto table sf answer) ∧
      Phase (pull.resume M crypto table sf answer) := by
  have returns : ∀ event, Consistent (pull.goOn { pull.agent with point := .returned event }) ∧
      Phase (pull.goOn { pull.agent with point := .returned event }) := fun event =>
    ⟨consistent_goOn consistent (Or.inl ⟨rfl, rfl⟩), phase_goOn_returned rfl⟩
  unfold Pull.resume
  unfold UpdateAgent.resume at quiet ⊢
  have before := phase
  unfold Phase at before
  cases point : pull.agent.point with
  | subscribe =>
      rw [point] at before
      simp only [point] at quiet
      exact subscribeRequest_phase consistent before.1 before.2.2.1 before.2.2.2 answer.request quiet
  | subscribeSend =>
      rw [point] at before
      simp only [point] at quiet ⊢
      by_cases failed : pull.agent.reqcErr ≠ .success
      · rw [if_pos failed]
        exact returns _
      rw [if_neg failed] at quiet ⊢
      obtain ⟨handed, processed, rest⟩ := before
      by_cases waiting : pull.agent.fsmc.state ≠ .startUpdate
      · rw [if_pos waiting] at quiet ⊢
        rcases rest with ⟨-, starting⟩ | ⟨idle, -⟩
        · exact absurd starting waiting
        · exact subscribeRequest_phase consistent handed processed idle answer.request quiet
      · rw [if_neg waiting]
        have starting := not_not.mp waiting
        refine ⟨consistent_goOn consistent (Or.inl ⟨rfl, rfl⟩), ?_⟩
        rcases rest with ⟨none, -⟩ | ⟨idle, -⟩
        · exact ⟨handed, none, processed, starting⟩
        · exact FsmState.noConfusion (starting.symm.trans idle)
  | getMsg =>
      rw [point] at before
      obtain ⟨handed, none, processed, starting⟩ := before
      have length := messageInput_length pull.agent.msg answer.rng
      simp only
      cases rng : answer.rng with
      | error err =>
          have call : fsm M crypto table sf (messageInput pull.agent.msg (.error err))
              pull.agent.fsmc pull.agent.memory =
                ⟨err, (messageInput pull.agent.msg (.error err)).buf.data,
                  pull.agent.fsmc.cleaned, pull.agent.memory⟩ := by
            rw [rng] at length
            rw [fsm, starting]
            simp only [fsmStartUpdate, length, lt_irrefl, if_false]
            rfl
          have failed : err ≠ .success := fun success =>
            answer.rng_failed (rng.trans (congrArg Except.error success))
          simp only [call, ne_eq, failed, not_false_eq_true, if_true]
          exact ⟨consistent_goOn consistent (Or.inr ⟨handed, none⟩), phase_goOn_returned rfl⟩
      | ok nonce =>
          rw [rng] at length
          simp only [@fsm_startUpdate_begun _ M crypto table sf
            (messageInput pull.agent.msg (.ok nonce)) pull.agent.fsmc nonce pull.agent.memory
            starting length.ge rfl, ne_eq, not_true_eq_false, if_false]
          refine ⟨consistent_goOn consistent (Or.inr ⟨handed, none⟩), handed, none, processed, rfl,
            ?_⟩
          exact (fillReceiverMsg_length _ _ _ nonce length.ge).trans length
  | receive =>
      rw [point] at before
      obtain ⟨handed, none, processed, waiting, length⟩ := before
      simp only [point] at quiet
      have running : pull.agent.fsmc.state ≠ .startUpdate := by
        rw [waiting]
        exact FsmState.noConfusion
      have counted : Counted pull.agent.fsmc := by
        unfold Counted
        rw [waiting]
        trivial
      have total : pull.handed.length = 0 := by rw [handed, List.length_nil]
      have counts : Counts pull.agent.fsmc pull.handed.length :=
        ⟨fun _ => processed.trans total.symm, fun receiving =>
          FsmState.noConfusion (waiting.symm.trans receiving)⟩
      exact firmwareRequest_phase consistent length counted running counts
        (processed.trans total.symm) (by rw [total]; decide) answer.request quiet
  | receiveSend =>
      rw [point] at before
      simp only
      by_cases failed : pull.agent.reqcErr ≠ .success
      · rw [if_pos failed]
        exact returns _
      · rw [if_neg failed]
        exact ⟨consistent_goOn consistent (Or.inl ⟨rfl, rfl⟩), before.enabled, before.length,
          before.counted, before.counts, before.chain⟩
  | subscribeTimeout =>
      rw [point] at before
      simp only [point] at quiet ⊢
      by_cases receiving : pull.agent.fsmc.state = .receiveFirmware
      · rw [if_pos receiving] at quiet ⊢
        obtain ⟨processed, small, -⟩ := before.counts.2 receiving
        have running : pull.agent.fsmc.state ≠ .startUpdate := by
          rw [receiving]
          exact FsmState.noConfusion
        exact firmwareRequest_phase consistent before.length before.counted running before.counts
          processed small answer.request quiet
      · rw [if_neg receiving]
        exact returns _
  | returned event => 
      simp only
      exact ⟨consistent_goOn consistent (Or.inl ⟨rfl, rfl⟩), phase_goOn_returned point⟩

/-! ### Runs -/

/-- A run begins in order. -/
theorem phase_start (connInit rngInit connOnData : PullError) (fsmc : FsmCtx)
    (reqcErr : PullError) (msg : List UInt8) (memory : σ) (server : ServerCtx) :
    Consistent (Pull.start M table connInit rngInit connOnData fsmc reqcErr msg memory server) ∧
      Phase (Pull.start M table connInit rngInit connOnData fsmc reqcErr msg memory server) := by
  refine ⟨⟨List.nil_prefix, fun some => absurd rfl some,
    fun _ member => absurd member List.not_mem_nil⟩, ?_⟩
  obtain ⟨idle, zero⟩ := fsmInit_state M table rngInit fsmc memory
  unfold Pull.start updateStart
  simp only
  split
  · trivial
  · split
    · trivial
    · split
      · trivial
      · exact ⟨rfl, rfl, zero, idle⟩

/-- A run stays in order while it is quiet. -/
theorem phase_run (steps : List PullStep) {pull : Pull σ} (consistent : Consistent pull)
    (phase : Phase pull) (quiet : pull.Quiet M crypto table sf coap build steps) :
    Consistent (pull.run M crypto table sf coap build steps) := by
  induction steps generalizing pull with
  | nil => exact consistent
  | cons step steps ih =>
      obtain ⟨asks, rest⟩ := quiet
      cases step with
      | resume answer =>
          obtain ⟨consistent', phase'⟩ := phase_resume M crypto table sf consistent phase answer asks
          exact ih consistent' phase' rest
      | serve index signer =>
          exact ih (consistent_serve crypto coap consistent index signer)
            (phase_serve crypto coap phase index signer) rest
      | deliver index sends rng =>
          obtain ⟨consistent', phase'⟩ := phase_deliver M crypto table sf build consistent phase
            index sends rng
          exact ih consistent' phase' rest

/-- **The bytes handed over are a prefix of the file**, in every run in which the agent asks only
when nothing is on its way. -/
theorem quiet_prefix (connInit rngInit connOnData : PullError) (fsmc : FsmCtx)
    (reqcErr : PullError) (msg : List UInt8) (memory : σ) (server : ServerCtx)
    (steps : List PullStep)
    (quiet : (Pull.start M table connInit rngInit connOnData fsmc reqcErr msg memory server).Quiet M
      crypto table sf coap build steps) :
    ((Pull.start M table connInit rngInit connOnData fsmc reqcErr msg memory server).run M crypto
        table sf coap build steps).handed <+:
      ((Pull.start M table connInit rngInit connOnData fsmc reqcErr msg memory server).run M crypto
        table sf coap build steps).server.mappedFile := by
  obtain ⟨consistent, phase⟩ := phase_start M table connInit rngInit connOnData fsmc reqcErr msg
    memory server
  exact (phase_run M crypto table sf coap build steps consistent phase quiet).taken

end Invariant

/-! ### A file of three blocks -/

/-- The signed manifest and two blocks of firmware. -/
def threeBlocks : ServerCtx :=
  ServerCtx.ofParts (Manifest.ofBytes signedManifest)
    (List.replicate 256 1 ++ List.replicate 256 2)

/-- The agent of the blank device, before it asks for the version. -/
def blankPull : Pull Contents :=
  Pull.start (plain (fullLayout none)) twoSlots .success .success .success FsmCtx.zero .success []
    (fun _ _ => 0) threeBlocks

/-- A request is answered and the answer delivered. -/
def answered : List PullStep := [.serve 0 mirrorSigner, .deliver 0 true zeroAnswer.rng]

/-- The agent asks for the version and then for the firmware. -/
def asking : List PullStep :=
  [.resume zeroAnswer] ++ answered ++ [.resume zeroAnswer, .resume zeroAnswer, .resume zeroAnswer]

/-- Two blocks arrive in time. -/
theorem threeBlocks_handed :
    (blankPull.run (plain (fullLayout none)) mirrorCrypto twoSlots zeroSafestore plainCoap .plain
        (asking ++ answered ++ answered)).handed.length = 512 ∧
      (blankPull.run (plain (fullLayout none)) mirrorCrypto twoSlots zeroSafestore plainCoap .plain
        (asking ++ answered ++ answered)).handed <+:
      (blankPull.run (plain (fullLayout none)) mirrorCrypto twoSlots zeroSafestore plainCoap .plain
        (asking ++ answered ++ answered)).server.mappedFile := by
  constructor
  · decide +kernel
  · have quiet : blankPull.Quiet (plain (fullLayout none)) mirrorCrypto twoSlots zeroSafestore
        plainCoap .plain (asking ++ answered ++ answered) := by
      decide +kernel
    unfold blankPull at quiet ⊢
    exact quiet_prefix (plain (fullLayout none)) mirrorCrypto twoSlots zeroSafestore plainCoap
      .plain .success .success .success FsmCtx.zero .success [] (fun _ _ => 0) threeBlocks
      (asking ++ answered ++ answered) quiet

/-- The second block is answered in time and arrives late: the agent has asked again before, and the
answer to that comes after it. -/
def late : List PullStep :=
  [.serve 0 mirrorSigner, .resume zeroAnswer, .resume zeroAnswer, .deliver 0 true zeroAnswer.rng,
    .serve 0 mirrorSigner, .deliver 1 true zeroAnswer.rng]

/-- **A late answer hands a block over twice.** -/
theorem late_answer_repeats :
    ¬ ∀ steps : List PullStep,
      (blankPull.run (plain (fullLayout none)) mirrorCrypto twoSlots zeroSafestore plainCoap .plain
        steps).handed <+:
      (blankPull.run (plain (fullLayout none)) mirrorCrypto twoSlots zeroSafestore plainCoap .plain
        steps).server.mappedFile := by
  intro always
  have repeated := always (asking ++ answered ++ late)
  revert repeated
  decide +kernel

end Upkit
