/-
**The pull transfer over a network that loses messages.**

The agent goes on only when nothing is on its way any more, and a message may get lost, as long as the
state machine does not wait for the manifest: that loss would be taken for the end of the update. What
is lost later is asked for again, from the bytes on that the state machine has counted.

* `Pull.Moves` — the steps of such a transfer.
* `Underway` — the invariant: how far it has come; `Underway.awaiting` — at most one message is on its
  way.
* `underway_potential` — every step keeps it, and `Pull.rank` goes down with every step but a loss.
* `transfer_installs` — so after so many steps and losses the agent is done, and the reset then loads
  the binary that the server offers.
-/

import Upkit.Agents.Transfer
import Upkit.Agents.Provisioning
import Upkit.Lib.Faults

namespace Upkit

open Bytes Blocks

/-! ### The parties -/

section Parties

variable {σ : Type} (M : MemoryInterface σ) (crypto : Crypto) (table : SlotTable)
  (sf : Safestore) (coap : Coap) (build : Build)

/-- The server answers the one request on its way. -/
theorem Pull.serve_one {pull : Pull σ} {request : PullRequest}
    (one : pull.packets = [.request request]) (signer : Signer) {response : PullResponse}
    {server : ServerCtx}
    (served : Upkit.serve crypto signer coap request pull.server = (response, server)) :
    pull.serve crypto coap 0 signer =
      { pull with packets := [.response response], server := server } := by
  simp only [Pull.serve, one, List.getElem?_cons_zero, served]
  rfl

/-- The one answer on its way is delivered, and the data it brings is handed over. -/
theorem Pull.deliver_one {pull : Pull σ} {response : PullResponse}
    (one : pull.packets = [.response response]) (hears : pull.agent.point.hears build = true)
    (rng : Except PullError Nonce) {next : Option PullRequest} {input : FsmInput}
    (handled : handlerLibcoap pull.enabled pull.agent.msg true rng response =
      (next, ⟨.success, some input⟩)) :
    pull.deliver M crypto table sf build 0 true rng =
      let result := fsm M crypto table sf input pull.agent.fsmc pull.agent.memory
      { pull with
        agent := { pull.agent with
          fsmc := result.ctx
          reqcErr := result.err
          memory := result.memory }
        packets := (next.map Packet.request).toList
        handed := pull.handed ++ if pull.agent.begun then input.buf.data else [] } := by
  simp only [Pull.deliver, hears, if_true, one, List.getElem?_cons_zero, handled]
  rfl

variable (signer : Signer)

/-- **A block is served**, once the file can be prepared for the message. -/
theorem serve_prepared {msg : List UInt8} {num : Nat} {server server' : ServerCtx}
    (length : msg.length = sizeofReceiverMsg)
    (prepared : prepare crypto signer msg server = (.success, server'))
    (inside : msgOffset msg + num * blockBytes < server'.mappedFile.length) :
    serve crypto signer coap ⟨.firmware, num, msg⟩ server = (blockOf msg num server', server') := by
  have cut := coap.addBlock_inside num (server'.mappedFile.drop (msgOffset msg))
    (by rw [List.length_drop]; omega)
  have more : num * blockBytes + blockBytes < server'.mappedFile.length - msgOffset msg ↔
      msgOffset msg + num * blockBytes + blockBytes < server'.mappedFile.length := by omega
  have begins : ¬ server'.mappedFile.length ≤ msgOffset msg := by omega
  simp only [serve, resourceFirmware, length, prepared, ne_eq, not_true_eq_false, if_false,
    if_neg begins, Option.getD_some, cut, blockOf, List.drop_drop, List.length_drop, more]

/-- **A block is handled**: its bytes are handed over, and the next block is asked for if there is
one. -/
theorem handlerLibcoap_block {msg : List UInt8} {num start : Nat} {server : ServerCtx}
    {payload : List UInt8} {enabled : Bool} (on : enabled = true)
    (position : msgOffset msg + num * blockBytes = start)
    (inside : start < server.mappedFile.length)
    (cut : (server.mappedFile.drop start).take blockBytes = payload)
    (rng : Except PullError Nonce) :
    ∃ short : payload.length < 2 ^ 31,
      handlerLibcoap enabled msg true rng (blockOf msg num server) =
        (if start + blockBytes < server.mappedFile.length then some ⟨.firmware, num + 1, msg⟩
          else none, ⟨.success, some ⟨⟨payload, short⟩, rng⟩⟩) := by
  have size : payload.length = min blockBytes (server.mappedFile.length - start) := by
    rw [← cut, List.length_take, List.length_drop]
  have width : blockBytes = 256 := rfl
  have short : payload.length < 2 ^ 31 := by omega
  have some : payload ≠ [] := by
    rw [← List.length_pos_iff_ne_nil]
    omega
  refine ⟨short, ?_⟩
  rw [blockOf, position, cut, on]
  simp only [handlerLibcoap, Bool.false_eq_true, if_false, ne_eq, not_true_eq_false, if_true,
    decide_eq_true_eq, dataCallback_eq some short]
  split
  · rfl
  · rfl

/-- The version is handled. -/
theorem handlerLibcoap_version (enabled : Bool) (msg : List UInt8) (rng : Except PullError Nonce)
    (version : Nat) :
    ∃ short : (toLE 2 version).length < 2 ^ 31,
      handlerLibcoap enabled msg true rng (versionOf version) =
        (none, ⟨.success, some ⟨⟨toLE 2 version, short⟩, rng⟩⟩) := by
  have length : (toLE 2 version).length = 2 := toLE_length _ _
  have some : toLE 2 version ≠ [] := by
    rw [← List.length_pos_iff_ne_nil, length]
    decide
  have short : (toLE 2 version).length < 2 ^ 31 := by
    rw [length]
    decide
  refine ⟨short, ?_⟩
  simp only [handlerLibcoap, versionOf, Bool.false_eq_true, if_false, ne_eq, not_true_eq_false,
    dataCallback_eq some short]

end Parties

/-! ### Steps -/

section Moves

variable {σ : Type} (M : MemoryInterface σ) (crypto : Crypto) (table : SlotTable)
  (sf : Safestore) (coap : Coap) (build : Build) (x y : List UInt8) (nonce : Nonce)

/-- The steps of a patient agent, whose requests can be sent, and of a server whose signatures pass.
Any message may get lost while the state machine does not wait for the manifest. -/
inductive Pull.Moves : Pull σ → Bool → Pull σ → Prop
  | resume {pull : Pull σ} (answer : Answer) : answer.request = .success →
      answer.rng = .ok nonce → pull.packets = [] →
      (∀ event, pull.agent.point ≠ .returned event) →
        Moves pull false (pull.resume M crypto table sf answer)
  | serve {pull : Pull σ} (index : Nat) (signer : Signer) (request : PullRequest) :
      KeyLaws crypto signer x y → pull.packets[index]? = some (.request request) →
        Moves pull false (pull.serve crypto coap index signer)
  | deliver {pull : Pull σ} (index : Nat) (rng : Except PullError Nonce)
      (response : PullResponse) : pull.agent.point.hears build = true →
      pull.packets[index]? = some (.response response) →
        Moves pull false (pull.deliver M crypto table sf build index true rng)
  | lose {pull : Pull σ} (index : Nat) : index < pull.packets.length →
      pull.agent.fsmc.state ≠ .receiveManifest →
        Moves pull true { pull with packets := pull.packets.eraseIdx index }

end Moves

/-- The blocks of a file behind what has been handed over. -/
def blocksLeft (total handed : Nat) : Nat := (total - handed + (blockBytes - 1)) / blockBytes

/-- The next block of a file. -/
theorem prefix_block {file handed : List UInt8} (begins : handed <+: file) :
    handed ++ (file.drop handed.length).take blockBytes =
      file.take (handed.length + blockBytes) := by
  obtain ⟨rest, rfl⟩ := begins
  rw [List.drop_left' rfl, List.take_length_add_append]

theorem blocksLeft_pos {total handed : Nat} (more : handed < total) :
    0 < blocksLeft total handed := by
  have width : blockBytes = 256 := rfl
  rw [blocksLeft, width]
  omega

theorem blocksLeft_whole (total : Nat) : blocksLeft total total = 0 := by
  rw [blocksLeft, Nat.sub_self, Nat.zero_add]
  rfl

/-- A block less. -/
theorem blocksLeft_next {total handed : Nat} (more : handed < total) :
    blocksLeft total (min (handed + blockBytes) total) + 1 = blocksLeft total handed := by
  have width : blockBytes = 256 := rfl
  rw [blocksLeft, blocksLeft, width]
  omega

/-- How many steps it takes until the agent is done with a file of some length, if nothing gets lost
any more. -/
def Pull.rank {σ : Type} (total : Nat) (pull : Pull σ) : Nat :=
  let all := 2 * blocksLeft total 0
  let left := 2 * blocksLeft total pull.handed.length
  match pull.agent.point, pull.packets with
  | .subscribe, _ => all + 8
  | .subscribeSend, [] => if pull.agent.fsmc.state = .startUpdate then all + 5 else all + 8
  | .subscribeSend, .request _ :: _ => all + 7
  | .subscribeSend, .response _ :: _ => all + 6
  | .getMsg, _ => all + 4
  | .receive, _ => all + 3
  | .receiveSend, [] => if left = 0 then 2 else left + 4
  | .receiveSend, .request _ :: _ => left + 2
  | .receiveSend, .response _ :: _ => left + 1
  | .subscribeTimeout, _ => if left = 0 then 1 else left + 3
  | .returned _, _ => 0

/-! ### How far a transfer has come -/

/-- A release as the server offers it: the firmware of a file, under the version it has now. -/
structure Offered {crypto : Crypto} {sf : Safestore} {x y : List UInt8}
    (file : Packaged crypto sf x y) (version : Nat) (release : Release crypto sf) : Prop where
  version : release.version = version
  length : release.stream.length = sizeofManifest + file.firmware.length
  size : release.manifest.getSize = file.firmware.length
  image : release.image.drop sizeofManifest = file.firmware

/-- A message for which the server has to sign, of a device of version `0`, for the whole file. -/
structure Asking (server : ServerCtx) (msg : List UInt8) : Prop where
  length : msg.length = sizeofReceiverMsg
  offset : msgOffset msg = 0
  version : msgVersion msg = 0
  stale : Stale msg server.manifest

/-- Nothing has been handed over. -/
structure Pull.Unbegun (memory : Contents) (server : ServerCtx) (state : FsmState)
    (pull : Pull Contents) : Prop where
  server : pull.server = server
  memory : pull.agent.memory = memory
  clear : pull.agent.reqcErr = .success
  handed : pull.handed = []
  state : pull.agent.fsmc.state = state
  processed : pull.agent.fsmc.processed = 0
  version : pull.agent.fsmc.version = 0

/-- A release is being handed over: at most one message is on its way, a request for the block behind
what has been handed over or the answer to it, and there is one as long as there is nothing else. -/
structure Pull.Receives {crypto : Crypto} {sf : Safestore} (layout : PlainLayout) (table : SlotTable)
    (memory : Contents) (release : Release crypto sf) (pull : Pull Contents) : Prop where
  point : pull.agent.point = .receiveSend ∨
    pull.agent.point = .subscribeTimeout ∧ pull.packets = []
  clear : pull.agent.reqcErr = .success
  enabled : pull.enabled = true
  length : pull.agent.msg.length = sizeofReceiverMsg
  current : ¬ Stale pull.agent.msg pull.server.manifest
  file : pull.server.mappedFile = release.stream
  downloaded : release.Downloaded layout table memory pull.handed pull.agent.fsmc
    pull.agent.memory
  whole : pull.handed = [] ∨ sizeofManifest ≤ pull.handed.length
  chain : pull.packets = [] ∧ pull.handed ≠ [] ∨
    pull.handed.length < release.stream.length ∧
      ∃ num, msgOffset pull.agent.msg + num * blockBytes = pull.handed.length ∧
        (pull.packets = [.request ⟨.firmware, num, pull.agent.msg⟩] ∨
          pull.packets = [.response (blockOf pull.agent.msg num pull.server)])

section Underway

variable (layout : PlainLayout) (table : SlotTable) (memory : Contents) {crypto : Crypto}
  {sf : Safestore} {x y : List UInt8} (file : Packaged crypto sf x y) (server : ServerCtx)

/-- **How far a transfer has come.** -/
inductive Underway (pull : Pull Contents) : Prop
  | subscribe : pull.Unbegun memory server .idle → pull.agent.point = .subscribe →
      pull.packets = [] → Underway pull
  | version : pull.Unbegun memory server .idle → pull.agent.point = .subscribeSend →
      (pull.packets = [] ∨ pull.packets = [.request ⟨.version, 0, []⟩] ∨
        pull.packets = [.response (versionOf server.manifest.getVersion)]) → Underway pull
  | told : pull.Unbegun memory server .startUpdate → pull.agent.point = .subscribeSend →
      pull.packets = [] → Underway pull
  | getMsg : pull.Unbegun memory server .startUpdate → pull.agent.point = .getMsg →
      pull.packets = [] → Underway pull
  | begun : pull.Unbegun memory server .receiveManifest → Collecting pull.agent.fsmc [] →
      pull.agent.point = .receive → pull.packets = [] →
      Asking server (updateReceiverMsg pull.agent.fsmc pull.agent.msg) → Underway pull
  | asked : pull.Unbegun memory server .receiveManifest → Collecting pull.agent.fsmc [] →
      pull.agent.point = .receiveSend → pull.enabled = true → Asking server pull.agent.msg →
      pull.packets = [.request ⟨.firmware, 0, pull.agent.msg⟩] → Underway pull
  | receives (release : Release crypto sf) :
      Offered file server.manifest.getVersion release →
      pull.Receives layout table memory release → Underway pull
  | applied (release : Release crypto sf) :
      Offered file server.manifest.getVersion release →
      pull.agent.point = .returned .apply → pull.agent.fsmc.state = .reboot →
      pull.agent.memory = storedIn layout (oldestSlot table memory).id release.stream memory →
      pull.packets = [] → Underway pull

/-- The one message that is on its way, and where the transfer is meanwhile. -/
inductive Awaiting (pull : Pull Contents) : Packet → Prop
  | versionAsked : pull.Unbegun memory server .idle → pull.agent.point = .subscribeSend →
      Awaiting pull (.request ⟨.version, 0, []⟩)
  | versionAnswered : pull.Unbegun memory server .idle → pull.agent.point = .subscribeSend →
      Awaiting pull (.response (versionOf server.manifest.getVersion))
  | asked : pull.Unbegun memory server .receiveManifest → Collecting pull.agent.fsmc [] →
      pull.agent.point = .receiveSend → pull.enabled = true → Asking server pull.agent.msg →
      Awaiting pull (.request ⟨.firmware, 0, pull.agent.msg⟩)
  | blockAsked (release : Release crypto sf) (num : Nat) :
      Offered file server.manifest.getVersion release →
      pull.Receives layout table memory release → pull.agent.point = .receiveSend →
      pull.handed.length < release.stream.length →
      msgOffset pull.agent.msg + num * blockBytes = pull.handed.length →
      Awaiting pull (.request ⟨.firmware, num, pull.agent.msg⟩)
  | blockAnswered (release : Release crypto sf) (num : Nat) :
      Offered file server.manifest.getVersion release →
      pull.Receives layout table memory release → pull.agent.point = .receiveSend →
      pull.handed.length < release.stream.length →
      msgOffset pull.agent.msg + num * blockBytes = pull.handed.length →
      Awaiting pull (.response (blockOf pull.agent.msg num pull.server))

variable {layout table memory file server} in
/-- **At most one message is on its way.** -/
theorem Underway.awaiting {pull : Pull Contents}
    (underway : Underway layout table memory file server pull) {index : Nat} {packet : Packet}
    (found : pull.packets[index]? = some packet) :
    index = 0 ∧ pull.packets = [packet] ∧ Awaiting layout table memory file server pull packet := by
  have onItsWay : pull.packets ≠ [] := by
    intro quiet
    rw [quiet, List.getElem?_nil] at found
    cases found
  have only : ∀ {sent : Packet}, pull.packets = [sent] → index = 0 ∧ packet = sent := by
    intro sent one
    rw [one] at found
    exact getElem?_singleton found
  cases underway with
  | subscribe _ _ quiet => exact absurd quiet onItsWay
  | told _ _ quiet => exact absurd quiet onItsWay
  | getMsg _ _ quiet => exact absurd quiet onItsWay
  | begun _ _ _ quiet _ => exact absurd quiet onItsWay
  | applied _ _ _ _ _ quiet => exact absurd quiet onItsWay
  | version unbegun point one =>
      rcases one with quiet | one | one
      · exact absurd quiet onItsWay
      · obtain ⟨rfl, rfl⟩ := only one
        exact ⟨rfl, one, .versionAsked unbegun point⟩
      · obtain ⟨rfl, rfl⟩ := only one
        exact ⟨rfl, one, .versionAnswered unbegun point⟩
  | asked unbegun session point enabled asking one =>
      obtain ⟨rfl, rfl⟩ := only one
      exact ⟨rfl, one, .asked unbegun session point enabled asking⟩
  | receives release offered receives =>
      have waits : pull.agent.point = .receiveSend := by
        rcases receives.point with point | ⟨-, quiet⟩
        · exact point
        · exact absurd quiet onItsWay
      rcases receives.chain with ⟨quiet, -⟩ | ⟨below, num, position, one | one⟩
      · exact absurd quiet onItsWay
      · obtain ⟨rfl, rfl⟩ := only one
        exact ⟨rfl, one, .blockAsked release num offered receives waits below position⟩
      · obtain ⟨rfl, rfl⟩ := only one
        exact ⟨rfl, one, .blockAnswered release num offered receives waits below position⟩

/-- A step that keeps a transfer under way and brings it closer to its end. -/
structure Pull.Advances (pull pull' : Pull Contents) : Prop where
  underway : Underway layout table memory file server pull'
  lower : pull'.rank (sizeofManifest + file.firmware.length) <
    pull.rank (sizeofManifest + file.firmware.length)

end Underway

/-! ### The agent goes on -/

section Resume

variable {board : Board} {crypto : Crypto} {x y : List UInt8} {memory : Contents} {nonce : Nonce}
  {file : Packaged crypto board.cfg.safestore x y} {server : ServerCtx} {answer : Answer}
  (sent : answer.request = .success) (generated : answer.rng = .ok nonce)

include sent

/-- The agent asks for the version. -/
theorem resume_asksVersion {pull : Pull Contents} (unbegun : pull.Unbegun memory server .idle)
    (point : pull.agent.point = .subscribe ∨ pull.agent.point = .subscribeSend)
    (quiet : pull.packets = []) :
    pull.Advances board.layout board.table memory file server
      (pull.resume (plain board.layout) crypto board.table board.cfg.safestore answer) := by
  have idle := unbegun.state
  have gone : pull.resume (plain board.layout) crypto board.table board.cfg.safestore answer =
      { pull with
        agent := { pull.agent with point := .subscribeSend }
        enabled := false
        packets := [.request ⟨.version, 0, []⟩] } := by
    rcases point with point | point
    · simp only [Pull.resume, UpdateAgent.resume, point, subscribeRequest, sent, ne_eq,
        not_true_eq_false, if_false, Pull.goOn, UpdateAgent.asks, quiet, List.nil_append]
      rfl
    · simp only [Pull.resume, UpdateAgent.resume, point, unbegun.clear, idle, subscribeRequest, sent,
        ne_eq, not_true_eq_false, if_false, reduceCtorEq, not_false_eq_true, if_true, Pull.goOn,
        UpdateAgent.asks, quiet, List.nil_append]
      rfl
  rw [gone]
  constructor
  · exact .version ⟨unbegun.server, unbegun.memory, unbegun.clear, unbegun.handed, unbegun.state,
      unbegun.processed, unbegun.version⟩ rfl (Or.inr (Or.inl rfl))
  · rcases point with point | point
    · simp only [Pull.rank, point]
      omega
    · simp only [Pull.rank, point, quiet, idle, reduceCtorEq, if_false]
      omega

omit sent in
/-- The agent has been told of a newer version. -/
theorem resume_told {pull : Pull Contents} (unbegun : pull.Unbegun memory server .startUpdate)
    (point : pull.agent.point = .subscribeSend) (quiet : pull.packets = []) :
    pull.Advances board.layout board.table memory file server
      (pull.resume (plain board.layout) crypto board.table board.cfg.safestore answer) := by
  have starting := unbegun.state
  have gone : pull.resume (plain board.layout) crypto board.table board.cfg.safestore answer =
      { pull with agent := { pull.agent with point := .getMsg } } := by
    simp only [Pull.resume, UpdateAgent.resume, point, unbegun.clear, starting, ne_eq,
      not_true_eq_false, if_false, Pull.goOn, UpdateAgent.asks]
  rw [gone]
  constructor
  · exact .getMsg ⟨unbegun.server, unbegun.memory, unbegun.clear, unbegun.handed, unbegun.state,
      unbegun.processed, unbegun.version⟩ rfl quiet
  · simp only [Pull.rank, point, quiet, starting, if_true]
    omega

include generated in
omit sent in
/-- The message is filled in. -/
theorem resume_getMsg (fresh : ¬ Current board.cfg.safestore nonce server.manifest)
    {pull : Pull Contents} (unbegun : pull.Unbegun memory server .startUpdate)
    (point : pull.agent.point = .getMsg) (quiet : pull.packets = []) :
    pull.Advances board.layout board.table memory file server
      (pull.resume (plain board.layout) crypto board.table board.cfg.safestore answer) := by
  have starting := unbegun.state
  have room := messageInput_length pull.agent.msg answer.rng
  have filled := @fsm_startUpdate_begun _ (plain board.layout) crypto board.table board.cfg.safestore
    (messageInput pull.agent.msg answer.rng) pull.agent.fsmc nonce pull.agent.memory starting
    (le_of_eq room.symm) generated
  have plainly := @fsm_startUpdate_begun _ (plain (fullLayout none)) crypto board.table
    board.cfg.safestore (messageInput pull.agent.msg answer.rng) pull.agent.fsmc nonce
    pull.agent.memory starting (le_of_eq room.symm) generated
  have gone : pull.resume (plain board.layout) crypto board.table board.cfg.safestore answer =
      { pull with agent := { pull.agent with
          point := .receive
          fsmc := pull.agent.fsmc.begun nonce
          msg := fillReceiverMsg (messageInput pull.agent.msg answer.rng).buf.data
            board.cfg.safestore.udid pull.agent.fsmc.version nonce } } := by
    simp only [Pull.resume, UpdateAgent.resume, point, filled, ne_eq, not_true_eq_false, if_false,
      Pull.goOn, UpdateAgent.asks]
  have asking : Asking server (updateReceiverMsg (pull.agent.fsmc.begun nonce)
      (fillReceiverMsg (messageInput pull.agent.msg answer.rng).buf.data
        board.cfg.safestore.udid pull.agent.fsmc.version nonce)) := by
    obtain ⟨length, offset, -, -, version⟩ := sentMsg_fields none crypto board.table
      board.cfg.safestore pull.agent.memory starting unbegun.processed room generated
    have stale := (sentMsg_stale_iff none crypto board.table board.cfg.safestore pull.agent.memory
      server.manifest starting unbegun.processed room generated).mpr fresh
    have zero : ofLE (toLE 2 pull.agent.fsmc.version) = 0 := by
      rw [unbegun.version]
      rfl
    rw [sentMsg, plainly] at length offset version stale
    exact ⟨length, offset, version.trans zero, stale⟩
  have session : Collecting (pull.agent.fsmc.begun nonce) [] :=
    ⟨rfl, unbegun.processed, by decide, rfl⟩
  rw [gone]
  constructor
  · exact .begun ⟨unbegun.server, unbegun.memory, unbegun.clear, unbegun.handed, rfl,
      unbegun.processed, unbegun.version⟩ session rfl quiet asking
  · simp only [Pull.rank, point]
    omega

/-- The agent asks for the firmware. -/
theorem resume_begun {pull : Pull Contents}
    (unbegun : pull.Unbegun memory server .receiveManifest)
    (session : Collecting pull.agent.fsmc []) (point : pull.agent.point = .receive)
    (quiet : pull.packets = [])
    (asking : Asking server (updateReceiverMsg pull.agent.fsmc pull.agent.msg)) :
    pull.Advances board.layout board.table memory file server
      (pull.resume (plain board.layout) crypto board.table board.cfg.safestore answer) := by
  have gone : pull.resume (plain board.layout) crypto board.table board.cfg.safestore answer =
      { pull with
        agent := { pull.agent with
          point := .receiveSend
          msg := updateReceiverMsg pull.agent.fsmc pull.agent.msg }
        enabled := true
        packets := [.request ⟨.firmware, 0, updateReceiverMsg pull.agent.fsmc pull.agent.msg⟩] } := by
    simp only [Pull.resume, UpdateAgent.resume, point, firmwareRequest, sent, ne_eq,
      not_true_eq_false, if_false, Pull.goOn, UpdateAgent.asks, quiet, List.nil_append]
    rfl
  rw [gone]
  constructor
  · exact .asked ⟨unbegun.server, unbegun.memory, unbegun.clear, unbegun.handed, unbegun.state,
      unbegun.processed, unbegun.version⟩ session rfl rfl asking rfl
  · simp only [Pull.rank, point, unbegun.handed, List.length_nil]
    omega

/-- The agent has waited long enough, and asks again for what is missing, or is done. -/
theorem resume_receives {pull : Pull Contents} {release : Release crypto board.cfg.safestore}
    (offered : Offered file server.manifest.getVersion release)
    (receives : pull.Receives board.layout board.table memory release)
    (quiet : pull.packets = []) :
    pull.Advances board.layout board.table memory file server
      (pull.resume (plain board.layout) crypto board.table board.cfg.safestore answer) := by
  obtain ⟨point, clear, enabled, length, current, isFile, downloaded, whole, chain⟩ := receives
  have some : pull.handed ≠ [] := by
    rcases chain with ⟨-, some⟩ | ⟨-, num, -, one | one⟩
    · exact some
    · exact absurd (quiet.symm.trans one) (List.cons_ne_nil _ _).symm
    · exact absurd (quiet.symm.trans one) (List.cons_ne_nil _ _).symm
  rcases point with point | ⟨point, -⟩
  · have gone : pull.resume (plain board.layout) crypto board.table board.cfg.safestore answer =
        { pull with agent := { pull.agent with point := .subscribeTimeout } } := by
      simp only [Pull.resume, UpdateAgent.resume, point, clear, ne_eq, not_true_eq_false, if_false,
        Pull.goOn, UpdateAgent.asks]
    rw [gone]
    constructor
    · exact .receives release offered ⟨Or.inr ⟨rfl, quiet⟩, clear, enabled, length, current, isFile,
        downloaded, whole, Or.inl ⟨quiet, some⟩⟩
    · simp only [Pull.rank, point, quiet]
      split
      · omega
      · omega
  · generalize counted : pull.handed = handed at *
    generalize kept : pull.agent.memory = stored at *
    cases downloaded with
    | collecting session =>
        rcases whole with nothing | enough
        · exact absurd nothing some
        · exact absurd session.unfinished (not_lt.mpr enough)
    | part begins enough below armed id expected =>
        have gone : pull.resume (plain board.layout) crypto board.table board.cfg.safestore answer =
            { pull with
              agent := { pull.agent with
                point := .receiveSend
                msg := updateReceiverMsg pull.agent.fsmc pull.agent.msg }
              enabled := true
              packets := [.request ⟨.firmware, 0,
                updateReceiverMsg pull.agent.fsmc pull.agent.msg⟩] } := by
          simp only [Pull.resume, UpdateAgent.resume, point, armed.state, if_true, firmwareRequest,
            sent, ne_eq, not_true_eq_false, if_false, Pull.goOn, UpdateAgent.asks, quiet,
            List.nil_append]
          rfl
        have offset := updateReceiverMsg_offset pull.agent.fsmc length
          (by rw [armed.processed]; exact armed.short)
        have names := updateReceiverMsg_names pull.agent.fsmc length
        have left := blocksLeft_pos below
        rw [gone]
        constructor
        · refine .receives release offered ⟨Or.inl rfl, clear, rfl,
            updateReceiverMsg_length pull.agent.fsmc length, ?_, isFile, ?_, ?_, ?_⟩
          · rw [Stale, names.1, names.2]
            exact current
          · rw [counted, kept]
            exact .part begins enough below armed id expected
          · rw [counted]
            exact Or.inr enough
          · refine Or.inr ⟨?_, 0, ?_, Or.inl rfl⟩
            · rw [counted]
              exact below
            · rw [Nat.zero_mul, Nat.add_zero, offset, armed.processed, counted]
        · rw [offered.length] at left
          simp only [Pull.rank, point, counted]
          rw [if_neg (by omega)]
          omega
    | whole reboot =>
        have gone : pull.resume (plain board.layout) crypto board.table board.cfg.safestore answer =
            { pull with agent := { pull.agent with point := .returned .apply } } := by
          simp only [Pull.resume, UpdateAgent.resume, point, reboot, reduceCtorEq, if_false,
            Pull.goOn, UpdateAgent.asks]
        rw [gone]
        constructor
        · exact .applied release offered rfl reboot kept quiet
        · simp only [Pull.rank, point]
          split
          · omega
          · omega

end Resume

/-! ### The server -/

section Server

variable {board : Board} {crypto : Crypto} (coap : Coap) (signer : Signer) {x y : List UInt8}
  {memory : Contents} {file : Packaged crypto board.cfg.safestore x y} {state : Service}

/-- The version is answered. -/
theorem serve_version {pull : Pull Contents} (unbegun : pull.Unbegun memory state.server .idle)
    (point : pull.agent.point = .subscribeSend) (one : pull.packets = [.request ⟨.version, 0, []⟩]) :
    pull.Advances board.layout board.table memory file state.server
      (pull.serve crypto coap 0 signer) := by
  have gone := pull.serve_one crypto coap one signer
    (show serve crypto signer coap ⟨.version, 0, []⟩ pull.server =
      (versionOf state.server.manifest.getVersion, state.server) by rw [unbegun.server]; rfl)
  rw [gone]
  constructor
  · exact .version ⟨rfl, unbegun.memory, unbegun.clear, unbegun.handed, unbegun.state,
      unbegun.processed, unbegun.version⟩ point (Or.inr (Or.inr rfl))
  · simp only [Pull.rank, point, one]
    omega

/-- The first request for the firmware is answered with the release the server signs for it. -/
theorem serve_asked (offers : Offers file state) (isSealed : state.sealed = true)
    (older : 0 < state.server.manifest.getVersion) (laws : KeyLaws crypto signer x y)
    {pull : Pull Contents} (unbegun : pull.Unbegun memory state.server .receiveManifest)
    (session : Collecting pull.agent.fsmc []) (point : pull.agent.point = .receiveSend)
    (enabled : pull.enabled = true) (asking : Asking state.server pull.agent.msg)
    (one : pull.packets = [.request ⟨.firmware, 0, pull.agent.msg⟩]) :
    pull.Advances board.layout board.table memory file state.server
      (pull.serve crypto coap 0 signer) := by
  obtain ⟨sent, prepared, ⟨signed, diff, announced⟩, sentVersion, sentFirmware⟩ :=
    offers.sent isSealed older laws asking.stale asking.version
  obtain ⟨inputs, arriving⟩ := exists_inBlocks sent.bytes
  let release := sent.release signed diff announced arriving
  have stream : release.stream = sent.bytes := UpdateFile.release_stream
  have version : release.version = state.server.manifest.getVersion :=
    (congrArg Manifest.getVersion UpdateFile.release_manifest).trans sentVersion
  have total : release.stream.length = sizeofManifest + file.firmware.length := by
    rw [stream, sent.bytes_length, sentFirmware]
  have offered : Offered file state.server.manifest.getVersion release := by
    refine ⟨version, total, ?_, ?_⟩
    · rw [show release.manifest = sent.mt from UpdateFile.release_manifest, sent.size, sentFirmware]
    · rw [show release.image = sent.bytes from UpdateFile.release_image, UpdateFile.bytes,
        List.drop_left' sent.mt.length_eq, sentFirmware]
  have isFile : (ServerCtx.ofParts sent.mt sent.firmware).mappedFile = release.stream :=
    stream.symm
  have begins : msgOffset pull.agent.msg + 0 * blockBytes < release.stream.length := by
    rw [asking.offset, total, sizeofManifest]
    omega
  have current := (prepare_spec crypto signer pull.agent.msg state.server).1
  rw [prepared] at current
  have served : serve crypto signer coap ⟨.firmware, 0, pull.agent.msg⟩ pull.server =
      (blockOf pull.agent.msg 0 (ServerCtx.ofParts sent.mt sent.firmware),
        ServerCtx.ofParts sent.mt sent.firmware) := by
    rw [unbegun.server]
    exact serve_prepared crypto coap signer asking.length prepared (by
      rw [isFile]
      exact begins)
  have gone := pull.serve_one crypto coap one signer served
  rw [gone]
  constructor
  · refine .receives release offered ⟨Or.inl point, unbegun.clear, enabled, asking.length, current,
      isFile, ?_, Or.inl unbegun.handed, Or.inr ⟨?_, 0, ?_, Or.inr rfl⟩⟩
    · rw [unbegun.handed, unbegun.memory]
      refine .collecting session List.nil_prefix ?_
      rw [unbegun.version, version]
      exact older
    · rw [unbegun.handed, total, sizeofManifest, List.length_nil]
      omega
    · rw [unbegun.handed, asking.offset]
      rfl
  · simp only [Pull.rank, point, one]
    omega

/-- A later request is answered from the same file. -/
theorem serve_block {pull : Pull Contents} {release : Release crypto board.cfg.safestore} {num : Nat}
    (offered : Offered file state.server.manifest.getVersion release)
    (receives : pull.Receives board.layout board.table memory release)
    (waits : pull.agent.point = .receiveSend)
    (below : pull.handed.length < release.stream.length)
    (position : msgOffset pull.agent.msg + num * blockBytes = pull.handed.length)
    (one : pull.packets = [.request ⟨.firmware, num, pull.agent.msg⟩]) :
    pull.Advances board.layout board.table memory file state.server
      (pull.serve crypto coap 0 signer) := by
  obtain ⟨-, clear, enabled, length, current, isFile, downloaded, whole, -⟩ := receives
  have gone := pull.serve_one crypto coap one signer (serve_prepared crypto coap signer length
    (prepare_current crypto signer current) (by rw [position, isFile]; exact below))
  rw [gone]
  constructor
  · exact .receives release offered ⟨Or.inl waits, clear, enabled, length, current, isFile,
      downloaded, whole, Or.inr ⟨below, num, position, Or.inr rfl⟩⟩
  · simp only [Pull.rank, waits, one]
    omega

variable {coap signer}

/-- **A request is answered**: the first one for the firmware is what the server signs for. -/
theorem underway_serve (offers : Offers file state) (isSealed : state.sealed = true)
    (older : 0 < state.server.manifest.getVersion) (laws : KeyLaws crypto signer x y)
    {pull : Pull Contents}
    (underway : Underway board.layout board.table memory file state.server pull) {index : Nat}
    {request : PullRequest} (found : pull.packets[index]? = some (.request request)) :
    pull.Advances board.layout board.table memory file state.server
      (pull.serve crypto coap index signer) := by
  obtain ⟨rfl, one, awaiting⟩ := underway.awaiting found
  cases awaiting with
  | versionAsked unbegun point => exact serve_version coap signer unbegun point one
  | asked unbegun session point enabled asking =>
      exact serve_asked coap signer offers isSealed older laws unbegun session point enabled asking
        one
  | blockAsked release num offered receives waits below position =>
      exact serve_block coap signer offered receives waits below position one

end Server

/-! ### The network -/

section Network

variable {board : Board} {crypto : Crypto} {x y : List UInt8} {memory : Contents}
  {file : Packaged crypto board.cfg.safestore x y} {server : ServerCtx} (build : Build)

/-- The version is delivered. -/
theorem deliver_version (older : 0 < server.manifest.getVersion) {pull : Pull Contents}
    (unbegun : pull.Unbegun memory server .idle) (point : pull.agent.point = .subscribeSend)
    (one : pull.packets = [.response (versionOf server.manifest.getVersion)])
    (hears : pull.agent.point.hears build = true) (rng : Except PullError Nonce) :
    pull.Advances board.layout board.table memory file server
      (pull.deliver (plain board.layout) crypto board.table board.cfg.safestore build 0 true
        rng) := by
  obtain ⟨short, handled⟩ := handlerLibcoap_version pull.enabled pull.agent.msg rng
    server.manifest.getVersion
  have bound : server.manifest.getVersion < 256 ^ 2 := server.manifest.getVersion_lt
  have call := @fsm_idle_newer _ (plain board.layout) crypto board.table board.cfg.safestore
    ⟨⟨toLE 2 server.manifest.getVersion, short⟩, rng⟩ pull.agent.fsmc pull.agent.memory
    unbegun.state (toLE_length _ _) (by
      rw [unbegun.version, ofLE_toLE bound]
      exact older)
  have early : pull.agent.begun = false := by
    rw [UpdateAgent.begun, point]
    simp only [unbegun.state]
    rfl
  have gone := pull.deliver_one (plain board.layout) crypto board.table board.cfg.safestore
    build one hears rng handled
  rw [call, early] at gone
  rw [gone]
  constructor
  · refine .told ⟨unbegun.server, unbegun.memory, rfl, ?_, rfl, unbegun.processed,
      unbegun.version⟩ point rfl
    exact (List.append_nil _).trans unbegun.handed
  · simp only [Pull.rank, point, one, Option.map_none, Option.toList_none, if_true]
    omega

/-- **The next block of a release** is taken, and reaches behind the manifest. -/
theorem Release.Downloaded.block {release : Release crypto board.cfg.safestore}
    {handed chunk : List UInt8} {fsmc : FsmCtx} {stored : Contents}
    (downloaded : release.Downloaded board.layout board.table memory handed fsmc stored)
    (long : sizeofManifest + 1024 ≤ release.stream.length)
    (small : release.stream.length ≤ board.length) (below : handed.length < release.stream.length)
    (cut : (release.stream.drop handed.length).take blockBytes = chunk)
    (short : chunk.length < 2 ^ 31) (rng : Except PullError Nonce) :
    let called := fsm (plain board.layout) crypto board.table board.cfg.safestore
      ⟨⟨chunk, short⟩, rng⟩ fsmc stored
    called.err = .success ∧
      release.Downloaded board.layout board.table memory (handed ++ chunk) called.ctx
        called.memory ∧
      (handed ++ chunk).length = min (handed.length + blockBytes) release.stream.length ∧
      sizeofManifest ≤ (handed ++ chunk).length := by
  have width : blockBytes = 256 := rfl
  have narrow := board.length_lt
  rw [sizeofManifest] at long
  have block := prefix_block downloaded.begins
  rw [cut] at block
  have size : chunk.length = min blockBytes (release.stream.length - handed.length) := by
    rw [← cut, List.length_take, List.length_drop]
  have grown : (handed ++ chunk).length =
      min (handed.length + blockBytes) release.stream.length := by
    rw [block, List.length_take]
  have some : chunk ≠ [] := by
    rw [← List.length_pos_iff_ne_nil]
    omega
  have inner : handed.length < sizeofManifest →
      (handed ++ chunk).length < release.stream.length := by
    intro inside
    rw [sizeofManifest] at inside
    omega
  obtain ⟨succeeds, further⟩ := downloaded.next board.manifests
    (by rw [board.limit_oldestSlot]; exact small)
    (by rw [board.limit_oldestSlot, fsmBufferSize]; omega)
    (show handed ++ (FsmInput.mk ⟨chunk, short⟩ rng).buf.data <+: release.stream by
      rw [show (FsmInput.mk ⟨chunk, short⟩ rng).buf.data = chunk from rfl, block]
      exact List.take_prefix _ _) some inner
  exact ⟨succeeds, further, grown, by rw [grown, sizeofManifest]; omega⟩

/-- A block is delivered: the next one is asked for, or the release is complete. -/
theorem deliver_block (small : sizeofManifest + file.firmware.length ≤ board.length)
    {pull : Pull Contents} {release : Release crypto board.cfg.safestore} {num : Nat}
    (offered : Offered file server.manifest.getVersion release)
    (receives : pull.Receives board.layout board.table memory release)
    (waits : pull.agent.point = .receiveSend)
    (below : pull.handed.length < release.stream.length)
    (position : msgOffset pull.agent.msg + num * blockBytes = pull.handed.length)
    (one : pull.packets = [.response (blockOf pull.agent.msg num pull.server)])
    (hears : pull.agent.point.hears build = true) (rng : Except PullError Nonce) :
    pull.Advances board.layout board.table memory file server
      (pull.deliver (plain board.layout) crypto board.table board.cfg.safestore build 0 true
        rng) := by
  obtain ⟨-, clear, enabled, length, current, isFile, downloaded, whole, -⟩ := receives
  have long : sizeofManifest + 1024 ≤ release.stream.length := by
    rw [offered.length]
    exact Nat.add_le_add_left file.long _
  obtain ⟨chunk, cut⟩ : ∃ chunk,
      (release.stream.drop pull.handed.length).take blockBytes = chunk := ⟨_, rfl⟩
  have cut' : (pull.server.mappedFile.drop pull.handed.length).take blockBytes = chunk := by
    rw [isFile]
    exact cut
  obtain ⟨short, handled⟩ := handlerLibcoap_block enabled position (by rw [isFile]; exact below)
    cut' rng
  rw [isFile] at handled
  obtain ⟨succeeds, further, grown, enough⟩ := downloaded.block long
    (by rw [offered.length]; exact small) below cut short rng
  have begun : pull.agent.begun = true := by
    rw [UpdateAgent.begun, waits]
  have gone := pull.deliver_one (plain board.layout) crypto board.table board.cfg.safestore
    build one hears rng handled
  rw [begun] at gone
  have left := blocksLeft_next below
  rw [gone]
  by_cases next : pull.handed.length + blockBytes < release.stream.length
  · rw [Nat.min_eq_left (le_of_lt next)] at grown
    simp only [if_pos next]
    constructor
    · refine .receives release offered ⟨Or.inl waits, succeeds, enabled, length, current, isFile,
        further, Or.inr enough, Or.inr ⟨?_, num + 1, ?_, Or.inl rfl⟩⟩
      · exact lt_of_eq_of_lt grown next
      · show msgOffset pull.agent.msg + (num + 1) * blockBytes = (pull.handed ++ chunk).length
        rw [grown, Nat.add_mul, Nat.one_mul, ← Nat.add_assoc, position]
    · simp only [Pull.rank, waits, one, Option.map_some, Option.toList_some, if_true, grown]
      rw [Nat.min_eq_left (le_of_lt next), offered.length] at left
      omega
  · have all : min (pull.handed.length + blockBytes) release.stream.length =
        sizeofManifest + file.firmware.length := by
      rw [← offered.length]
      exact Nat.min_eq_right (not_lt.mp next)
    simp only [if_neg next]
    constructor
    · refine .receives release offered ⟨Or.inl waits, succeeds, enabled, length, current, isFile,
        further, Or.inr enough, Or.inl ⟨rfl, ?_⟩⟩
      exact List.ne_nil_of_length_pos (lt_of_lt_of_le (by decide) enough)
    · simp only [Pull.rank, waits, one, Option.map_none, Option.toList_none, if_true, grown, all,
        blocksLeft_whole]
      rw [offered.length] at left
      omega

variable {pull : Pull Contents}
  (underway : Underway board.layout board.table memory file server pull) {index : Nat}

include underway in
/-- **An answer is delivered**: the version, or the next block. -/
theorem underway_deliver (older : 0 < server.manifest.getVersion)
    (small : sizeofManifest + file.firmware.length ≤ board.length)
    {response : PullResponse} (hears : pull.agent.point.hears build = true)
    (found : pull.packets[index]? = some (.response response)) (rng : Except PullError Nonce) :
    pull.Advances board.layout board.table memory file server
      (pull.deliver (plain board.layout) crypto board.table board.cfg.safestore build index true
        rng) := by
  obtain ⟨rfl, one, awaiting⟩ := underway.awaiting found
  cases awaiting with
  | versionAnswered unbegun point =>
      exact deliver_version build older unbegun point one hears rng
  | blockAnswered release num offered receives waits below position =>
      exact deliver_block build small offered receives waits below position one hears rng

/-- The agent asks for the version again. -/
theorem lose_version (unbegun : pull.Unbegun memory server .idle)
    (point : pull.agent.point = .subscribeSend) {packet : Packet} (one : pull.packets = [packet]) :
    Underway board.layout board.table memory file server { pull with packets := [] } ∧
      Pull.rank (sizeofManifest + file.firmware.length) { pull with packets := [] } ≤
        pull.rank (sizeofManifest + file.firmware.length) + 3 := by
  have idle := unbegun.state
  constructor
  · exact .version ⟨unbegun.server, unbegun.memory, unbegun.clear, unbegun.handed,
      unbegun.state, unbegun.processed, unbegun.version⟩ point (Or.inl rfl)
  · cases packet with
    | request request =>
        simp only [Pull.rank, point, one, idle, reduceCtorEq, if_false]
        omega
    | response response =>
        simp only [Pull.rank, point, one, idle, reduceCtorEq, if_false]
        omega

/-- The agent asks for the block again, once it has waited long enough. -/
theorem lose_block {release : Release crypto board.cfg.safestore}
    (offered : Offered file server.manifest.getVersion release)
    (receives : pull.Receives board.layout board.table memory release)
    (waits : pull.agent.point = .receiveSend)
    (below : pull.handed.length < release.stream.length)
    (apart : pull.agent.fsmc.state ≠ .receiveManifest) {packet : Packet}
    (one : pull.packets = [packet]) :
    Underway board.layout board.table memory file server { pull with packets := [] } ∧
      Pull.rank (sizeofManifest + file.firmware.length) { pull with packets := [] } ≤
        pull.rank (sizeofManifest + file.firmware.length) + 3 := by
  obtain ⟨-, clear, enabled, length, current, isFile, downloaded, whole, -⟩ := receives
  have left := blocksLeft_pos below
  rw [offered.length] at left
  constructor
  · exact .receives release offered ⟨Or.inl waits, clear, enabled, length, current, isFile,
      downloaded, whole, Or.inl ⟨rfl, downloaded.some apart⟩⟩
  · cases packet with
    | request request =>
        simp only [Pull.rank, waits, one]
        rw [if_neg (by omega)]
        omega
    | response response =>
        simp only [Pull.rank, waits, one]
        rw [if_neg (by omega)]

include underway in
/-- **A message gets lost**: the agent asks again, from where the state machine is. -/
theorem underway_lose (found : index < pull.packets.length)
    (apart : pull.agent.fsmc.state ≠ .receiveManifest) :
    let pull' := { pull with packets := pull.packets.eraseIdx index }
    Underway board.layout board.table memory file server pull' ∧
      pull'.rank (sizeofManifest + file.firmware.length) ≤
        pull.rank (sizeofManifest + file.firmware.length) + 3 := by
  obtain ⟨packet, isPacket⟩ : ∃ packet, pull.packets[index]? = some packet :=
    ⟨_, List.getElem?_eq_getElem found⟩
  obtain ⟨rfl, one, awaiting⟩ := underway.awaiting isPacket
  intro pull'
  have lost : pull' = { pull with packets := [] } := by
    simp only [pull', one, List.eraseIdx_cons_zero]
  rw [lost]
  cases awaiting with
  | versionAsked unbegun point => exact lose_version unbegun point one
  | versionAnswered unbegun point => exact lose_version unbegun point one
  | asked unbegun _ _ _ _ => exact absurd unbegun.state apart
  | blockAsked release num offered receives waits below _ =>
      exact lose_block offered receives waits below apart one
  | blockAnswered release num offered receives waits below _ =>
      exact lose_block offered receives waits below apart one

end Network

/-! ### Whole transfers -/

section Transfers

variable {board : Board} {crypto : Crypto} {signer : Signer} {coap : Coap} {build : Build}
  {x y : List UInt8} {nonce : Nonce} {memory : Contents}
  {file : Packaged crypto board.cfg.safestore x y} {state : Service}

/-- **The potential of a transfer**: every step is paid for by the blocks that are left, and a loss by
three more steps. -/
theorem underway_potential (offers : Offers file state) (isSealed : state.sealed = true)
    (older : 0 < state.server.manifest.getVersion)
    (fresh : ¬ Current board.cfg.safestore nonce state.server.manifest)
    (small : sizeofManifest + file.firmware.length ≤ board.length) :
    Potential (Pull.Moves (plain board.layout) crypto board.table board.cfg.safestore coap build x y
        nonce) (Underway board.layout board.table memory file state.server)
      (Pull.rank (sizeofManifest + file.firmware.length)) 3 := by
  have resumes : ∀ {pull : Pull Contents} {answer : Answer}, answer.request = .success →
      answer.rng = .ok nonce → pull.packets = [] →
      (∀ event, pull.agent.point ≠ .returned event) →
      Underway board.layout board.table memory file state.server pull →
      pull.Advances board.layout board.table memory file state.server
        (pull.resume (plain board.layout) crypto board.table board.cfg.safestore answer) := by
    intro pull answer sent generated quiet goesOn underway
    cases underway with
    | subscribe unbegun point _ => exact resume_asksVersion sent unbegun (Or.inl point) quiet
    | version unbegun point _ => exact resume_asksVersion sent unbegun (Or.inr point) quiet
    | told unbegun point _ => exact resume_told unbegun point quiet
    | getMsg unbegun point _ => exact resume_getMsg generated fresh unbegun point quiet
    | begun unbegun session point _ asking =>
        exact resume_begun sent unbegun session point quiet asking
    | asked _ _ _ _ _ one => exact absurd (quiet.symm.trans one) (List.cons_ne_nil _ _).symm
    | receives release offered receives => exact resume_receives sent offered receives quiet
    | applied _ _ point _ _ _ => exact absurd point (goesOn _)
  refine ⟨?_, ?_, ?_⟩
  · intro pull fault pull' underway moves
    cases moves with
    | resume answer sent generated quiet goesOn =>
        exact (resumes sent generated quiet goesOn underway).underway
    | serve index signer request laws found =>
        exact (underway_serve offers isSealed older laws underway found).underway
    | deliver index rng response hears found =>
        exact (underway_deliver build underway older small hears found rng).underway
    | lose index found apart => exact (underway_lose underway found apart).1
  · intro pull pull' underway moves
    cases moves with
    | resume answer sent generated quiet goesOn =>
        exact (resumes sent generated quiet goesOn underway).lower
    | serve index signer request laws found =>
        exact (underway_serve offers isSealed older laws underway found).lower
    | deliver index rng response hears found =>
        exact (underway_deliver build underway older small hears found rng).lower
  · intro pull pull' underway moves
    cases moves with
    | lose index found apart => exact (underway_lose underway found apart).2

/-- **A transfer is never stuck**: something other than a loss can happen until the agent is done. -/
theorem underway_goesOn (laws : KeyLaws crypto signer x y) {pull : Pull Contents}
    (underway : Underway board.layout board.table memory file state.server pull)
    (unfinished : ∀ event, pull.agent.point ≠ .returned event) :
    ∃ pull', pull.Moves (plain board.layout) crypto board.table board.cfg.safestore coap build x y
      nonce false pull' := by
  have resumes : pull.packets = [] → ∃ pull', pull.Moves (plain board.layout) crypto board.table
      board.cfg.safestore coap build x y nonce false pull' := fun quiet =>
    ⟨_, .resume ⟨.success, .ok nonce, nofun⟩ rfl rfl quiet unfinished⟩
  have serves : ∀ {request : PullRequest}, pull.packets = [.request request] → ∃ pull',
      pull.Moves (plain board.layout) crypto board.table board.cfg.safestore coap build x y nonce
        false pull' := fun one =>
    ⟨_, .serve 0 signer _ laws (by rw [one]; rfl)⟩
  have delivers : ∀ {response : PullResponse}, pull.packets = [.response response] →
      pull.agent.point = .subscribeSend ∨ pull.agent.point = .receiveSend → ∃ pull',
      pull.Moves (plain board.layout) crypto board.table board.cfg.safestore coap build x y nonce
        false pull' := by
    intro response one waits
    refine ⟨_, .deliver 0 (.ok nonce) response ?_ (by rw [one]; rfl)⟩
    rcases waits with point | point
    · rw [point]
      rfl
    · rw [point]
      rfl
  by_cases quiet : pull.packets = []
  · exact resumes quiet
  obtain ⟨packet, member⟩ := List.exists_mem_of_ne_nil _ quiet
  obtain ⟨index, found⟩ := List.getElem?_of_mem member
  obtain ⟨-, one, awaiting⟩ := underway.awaiting found
  cases awaiting with
  | versionAsked _ _ => exact serves one
  | versionAnswered _ point => exact delivers one (Or.inl point)
  | asked _ _ _ _ _ => exact serves one
  | blockAsked _ _ _ _ _ _ _ => exact serves one
  | blockAnswered _ _ _ _ waits _ _ => exact delivers one (Or.inr waits)

/-- A transfer begins. -/
theorem underway_start (first : versionAt memory (newestBootable board.table memory).id = 0)
    (fsmc : FsmCtx) (msg : List UInt8) :
    let pull := Pull.start (plain board.layout) board.table .success .success .success fsmc .success
      msg memory state.server
    Underway board.layout board.table memory file state.server pull ∧
      pull.agent.point = .subscribe := by
  obtain ⟨idle, processed, version, kept⟩ := fsmInit_board board fsmc memory
  have succeeds := fsmInit_board_success board fsmc memory
  have started : updateStart (plain board.layout) board.table .success .success .success fsmc
      .success msg memory = ⟨.subscribe,
        (fsmInit (plain board.layout) board.table .success fsmc memory).2.1, .success, msg,
        (fsmInit (plain board.layout) board.table .success fsmc memory).2.2⟩ := by
    simp only [updateStart, succeeds, ne_eq, not_true_eq_false, if_false]
  rw [Pull.start, started]
  exact ⟨.subscribe ⟨rfl, kept, rfl, rfl, idle, processed, version.trans first⟩ rfl rfl, rfl⟩

/-- **A transfer that is done** has stored a release that the server offers. -/
theorem underway_returned {pull : Pull Contents}
    (underway : Underway board.layout board.table memory file state.server pull)
    {event : UpdateEvent} (returned : pull.agent.point = .returned event) :
    event = .apply ∧ pull.agent.fsmc.state = .reboot ∧
      ∃ release : Release crypto board.cfg.safestore,
        Offered file state.server.manifest.getVersion release ∧ pull.agent.memory =
          storedIn board.layout (oldestSlot board.table memory).id release.stream memory := by
  cases underway with
  | subscribe _ point _ => exact UpdatePoint.noConfusion (point.symm.trans returned)
  | version _ point _ => exact UpdatePoint.noConfusion (point.symm.trans returned)
  | told _ point _ => exact UpdatePoint.noConfusion (point.symm.trans returned)
  | getMsg _ point _ => exact UpdatePoint.noConfusion (point.symm.trans returned)
  | begun _ _ point _ _ => exact UpdatePoint.noConfusion (point.symm.trans returned)
  | asked _ _ point _ _ _ => exact UpdatePoint.noConfusion (point.symm.trans returned)
  | receives _ _ receives =>
      rcases receives.point with point | ⟨point, -⟩
      · exact UpdatePoint.noConfusion (point.symm.trans returned)
      · exact UpdatePoint.noConfusion (point.symm.trans returned)
  | applied release offered point reboot stored _ =>
      exact ⟨UpdatePoint.returned.inj (returned.symm.trans point), reboot, release, offered, stored⟩

/-- **A transfer installs what the server offers**, after any requests to the server: a device of
version `0` of which every slot passes takes no more steps than two for each block of the file, eight
more, and three for each message that gets lost; until it is done it can go on; and when it is done
the update is applied, and the reset loads the binary from a bootable slot, under the version that the
server announces. -/
theorem transfer_installs
    (boots : ∀ slot ∈ board.table.slots.head?, slot.bootable = true)
    (laws : KeyLaws crypto signer x y)
    (reached : (service crypto coap board.cfg.safestore file).Reachable state)
    (isSealed : state.sealed = true) (intact : Intact board crypto memory)
    (first : versionAt memory (newestBootable board.table memory).id = 0)
    (newer : ∀ slot ∈ board.table.slots,
      versionAt memory slot.id < (file.mt.getVersion + state.raised) % 2 ^ 16)
    (fresh : ¬ Current board.cfg.safestore nonce state.server.manifest)
    (fits : sizeofManifest + file.firmware.length ≤ board.length)
    (fills : board.cfg.bufferSize ≤ file.firmware.length) (fsmc : FsmCtx)
    (msg : List UInt8) {steps losses : Nat} {pull : Pull Contents}
    (run : FaultyRun (Pull.Moves (plain board.layout) crypto board.table board.cfg.safestore coap
        build x y nonce)
      (Pull.start (plain board.layout) board.table .success .success .success fsmc .success msg
        memory state.server) steps losses pull) :
    steps ≤ 2 * blocksLeft (sizeofManifest + file.firmware.length) 0 + 8 + 3 * losses ∧
      ((∀ event, pull.agent.point ≠ .returned event) → ∃ pull', pull.Moves (plain board.layout)
        crypto board.table board.cfg.safestore coap build x y nonce false pull') ∧
      ∀ event, pull.agent.point = .returned event →
        event = .apply ∧ pull.agent.fsmc.state = .reboot ∧
          ∃ id after, contiki (bootloaderCoroutine (plain board.layout) crypto board.table board.cfg
              pull.agent.memory) = .loads id after ∧
            Intact board crypto after ∧
            versionAt after id = (file.mt.getVersion + state.raised) % 2 ^ 16 ∧
            (∃ slot ∈ board.table.slots, slot.id = id ∧ slot.bootable = true) ∧
            (imageAt after id).drop sizeofManifest = file.firmware := by
  have offers := service_offers reached
  obtain ⟨oldest, member, isOldest⟩ := oldestSlot_mem board.table memory
  have older : 0 < state.server.manifest.getVersion := by
    rw [offers.version]
    exact lt_of_le_of_lt (Nat.zero_le _) (newer oldest member)
  obtain ⟨begins, point⟩ := @underway_start board crypto x y memory file state first fsmc msg
  have potential := @underway_potential board crypto coap build x y nonce memory file state offers
    isSealed older fresh fits
  have underway := potential.holds run begins
  have paid := potential.bounded run begins
  refine ⟨?_, underway_goesOn laws underway, ?_⟩
  · simp only [Pull.rank, point] at paid
    exact le_trans (Nat.le_add_right _ _) paid
  · intro event returned
    obtain ⟨isApply, reboot, release, ⟨version, length, size, image⟩, stored⟩ :=
      underway_returned underway returned
    rw [offers.version] at version
    rw [← version] at newer
    rw [← length] at fits
    rw [← size] at fills
    have taken : TakenIn board release memory pull.agent.memory := by
      intro id address _
      rw [stored]
    obtain ⟨slot, inTable, after, ends, intact', loaded, bootable, same, _⟩ :=
      taken.boots boots intact newer ⟨fits, fills⟩
    refine ⟨isApply, reboot, slot.id, after, ends, intact', loaded.trans version,
      ⟨slot, inTable, rfl, bootable⟩, ?_⟩
    rw [same]
    exact image

end Transfers

/-- What the vendor packages. -/
theorem ownPackage_exists :
    ∃ file : Packaged mirrorCrypto ownBoard.cfg.safestore (List.replicate 32 0) (List.replicate 32 0),
      file.mt = Manifest.ofBytes ownManifest ∧ file.firmware = zeroFirmware ∧
        file.mt.getVersion = 2 :=
  @packaged_exists ownBoard mirrorCrypto (List.replicate 32 0) (List.replicate 32 0) ownSign zeroFresh
    ownTool ownManifest zeroFirmware ownManifest_generated rfl
    (by rintro file ⟨⟩; rw [ownSign_vendor]; exact ownSigner_reports)
    (by rintro file ⟨⟩; rw [zeroTool_key]; exact ⟨rfl, rfl⟩)
    rfl rfl (by rw [zeroFirmware, List.length_replicate]; decide)
    (by rw [zeroFirmware, List.length_replicate]; decide)

/-- The board of version `0`, whose first request gets lost, runs version `2` in the end. -/
theorem ownBoard_installs :
    ∃ server steps pull, FaultyRun (Pull.Moves (plain ownBoard.layout) mirrorCrypto ownBoard.table
          ownBoard.cfg.safestore plainCoap .plain (List.replicate 32 0) (List.replicate 32 0)
          onesNonce)
        (Pull.start (plain ownBoard.layout) ownBoard.table .success .success .success FsmCtx.zero
          .success [] firstImages server) steps 1 pull ∧
      steps ≤ 21 ∧ pull.agent.point = .returned .apply ∧
      ∃ id after, contiki (bootloaderCoroutine (plain ownBoard.layout) mirrorCrypto ownBoard.table
          ownBoard.cfg pull.agent.memory) = .loads id after ∧
        versionAt after id = 2 ∧ (imageAt after id).drop sizeofManifest = zeroFirmware := by
  obtain ⟨file, isOut, isZero, version⟩ := ownPackage_exists
  let state : Service := ⟨ServerCtx.ofParts file.mt file.firmware, 0, true⟩
  have reached : (service mirrorCrypto plainCoap ownBoard.cfg.safestore file).Reachable state :=
    .start rfl
  have fresh : ¬ Current ownBoard.cfg.safestore onesNonce state.server.manifest := by
    rw [ServerCtx.ofParts_manifest, isOut]
    exact ownManifest_stale
  have fits : sizeofManifest + file.firmware.length ≤ ownBoard.length := by
    rw [isZero, zeroFirmware, List.length_replicate]
    decide
  have fills : ownBoard.cfg.bufferSize ≤ file.firmware.length := by
    rw [isZero, zeroFirmware, List.length_replicate]
    decide
  have offered : (file.mt.getVersion + state.raised) % 2 ^ 16 = 2 := by
    rw [version]
    rfl
  have older : 0 < state.server.manifest.getVersion := by
    rw [(service_offers reached).version, offered]
    decide
  obtain ⟨begins, point⟩ := @underway_start ownBoard mirrorCrypto (List.replicate 32 0)
    (List.replicate 32 0) firstImages file state (by decide +kernel) FsmCtx.zero []
  have potential := @underway_potential ownBoard mirrorCrypto plainCoap .plain (List.replicate 32 0)
    (List.replicate 32 0) onesNonce firstImages file state (service_offers reached) rfl older fresh
    fits
  generalize started : Pull.start (plain ownBoard.layout) ownBoard.table .success .success .success
    FsmCtx.zero .success [] firstImages state.server = pull at *
  have quiet : pull.packets = [] := by
    rw [← started]
    rfl
  have idle : pull.agent.fsmc.state = .idle := by
    rw [← started]
    exact (fsmInit_board ownBoard FsmCtx.zero firstImages).1
  -- The agent asks for the version, and the request gets lost.
  let answer : Answer := ⟨.success, .ok onesNonce, nofun⟩
  have asks : pull.Moves (plain ownBoard.layout) mirrorCrypto ownBoard.table ownBoard.cfg.safestore
      plainCoap .plain (List.replicate 32 0) (List.replicate 32 0) onesNonce false
      (pull.resume (plain ownBoard.layout) mirrorCrypto ownBoard.table ownBoard.cfg.safestore answer) :=
    .resume answer rfl rfl quiet fun event returned => UpdatePoint.noConfusion
      (point.symm.trans returned)
  have asked : pull.resume (plain ownBoard.layout) mirrorCrypto ownBoard.table ownBoard.cfg.safestore
      answer = { pull with
        agent := { pull.agent with point := .subscribeSend }
        enabled := false
        packets := [.request ⟨.version, 0, []⟩] } := by
    rw [Pull.resume, UpdateAgent.resume, point]
    simp only [subscribeRequest, answer, ne_eq, not_true_eq_false, if_false, Pull.goOn,
      UpdateAgent.asks, quiet, List.nil_append]
    rfl
  rw [asked] at asks
  generalize isWaiting : ({ pull with
    agent := { pull.agent with point := .subscribeSend }
    enabled := false
    packets := [.request ⟨.version, 0, []⟩] } : Pull Contents) = waiting at asks
  have loses := @Pull.Moves.lose _ (plain ownBoard.layout) mirrorCrypto ownBoard.table
    ownBoard.cfg.safestore plainCoap .plain (List.replicate 32 0) (List.replicate 32 0) onesNonce
    waiting 0 (by rw [← isWaiting]; exact Nat.zero_lt_one) (by
      rw [← isWaiting]
      exact fun waits => FsmState.noConfusion (idle.symm.trans waits))
  have lost := potential.keeps (potential.keeps begins asks) loses
  obtain ⟨steps, last, run, event, returned⟩ :
      ∃ steps last, FaultyRun _ { waiting with packets := waiting.packets.eraseIdx 0 } steps 0 last ∧
        ∃ event, last.agent.point = .returned event :=
    potential.completes (fun _ underway unfinished => underway_goesOn mirrorSigner_laws underway
      fun event returned => unfinished ⟨event, returned⟩) _ lost
  have whole := ((FaultyRun.start pull).next asks |>.fault loses).trans run
  rw [← started] at whole
  obtain ⟨bound, -, installs⟩ := transfer_installs (by decide) mirrorSigner_laws
    reached rfl firstImages_intact (by decide +kernel) (by rw [offered]; decide +kernel) fresh fits
    fills FsmCtx.zero [] whole
  obtain ⟨rfl, -, id, after, ends, -, isVersion, -, image⟩ := installs event returned
  refine ⟨state.server, _, last, whole, ?_, returned, id, after, ends, isVersion.trans offered,
    image.trans isZero⟩
  have blocks : blocksLeft (sizeofManifest + zeroFirmware.length) 0 = 5 := by
    rw [zeroFirmware, List.length_replicate]
    rfl
  rw [isZero, blocks] at bound
  omega

end Upkit
