/-
**The pull transfer of a device with flash.**

The parties of a transfer meet the memory of the device in the state machine only, so a transfer on
flash goes as it does on plain memory, message for message, and leaves what is seen as the plain
memory it leaves there.

* `pull_refines` — any steps, in any order, whatever is still on its way.
* `moves_over`, `moves_under` — the steps of a network that loses messages, in both directions.
* `flash_installs` — a device with flash installs what the server offers, in spite of the losses.
-/

import Upkit.Agents.FlashDevice
import Upkit.Agents.LossyTransfer

namespace Upkit

open Bytes Blocks Pages

/-! ### The same parties over another memory -/

/-- An agent over another memory. -/
def UpdateAgent.over {σ τ : Type} (space : τ) (agent : UpdateAgent σ) : UpdateAgent τ :=
  ⟨agent.point, agent.fsmc, agent.reqcErr, agent.msg, space⟩

/-- A transfer over another memory. -/
def Pull.over {σ τ : Type} (space : τ) (pull : Pull σ) : Pull τ :=
  ⟨pull.agent.over space, pull.enabled, pull.packets, pull.server, pull.handed⟩

section Over

variable {σ τ : Type} (space : τ)

@[simp] theorem UpdateAgent.over_point (agent : UpdateAgent σ) :
    (agent.over space).point = agent.point := rfl

@[simp] theorem UpdateAgent.over_asks (agent : UpdateAgent σ) :
    (agent.over space).asks = agent.asks := rfl

@[simp] theorem UpdateAgent.over_begun (agent : UpdateAgent σ) :
    (agent.over space).begun = agent.begun := rfl

@[simp] theorem Pull.over_packets (pull : Pull σ) : (pull.over space).packets = pull.packets := rfl

/-- Requests do not meet the memory. -/
theorem subscribeRequest_over (request : PullError) (agent : UpdateAgent σ) :
    subscribeRequest request (agent.over space) = (subscribeRequest request agent).over space := by
  unfold subscribeRequest
  split
  · rfl
  · rfl

theorem firmwareRequest_over (request : PullError) (agent : UpdateAgent σ) :
    firmwareRequest request (agent.over space) = (firmwareRequest request agent).over space := by
  unfold firmwareRequest
  simp only
  split
  · rfl
  · rfl

/-- Going on does not meet the memory, unless the message is filled in. -/
theorem UpdateAgent.resume_over (M : MemoryInterface σ) (N : MemoryInterface τ) (crypto : Crypto)
    (table : SlotTable) (sf : Safestore) (answer : Answer) {agent : UpdateAgent σ}
    (other : agent.point ≠ .getMsg) :
    (agent.over space).resume N crypto table sf answer =
        (agent.resume M crypto table sf answer).over space ∧
      (agent.resume M crypto table sf answer).fsmc = agent.fsmc ∧
      (agent.resume M crypto table sf answer).memory = agent.memory := by
  have subscribes := subscribeRequest_over space answer.request agent
  have requests := firmwareRequest_over space answer.request agent
  have kept : (subscribeRequest answer.request agent).fsmc = agent.fsmc ∧
      (subscribeRequest answer.request agent).memory = agent.memory := by
    unfold subscribeRequest
    split
    · exact ⟨rfl, rfl⟩
    · exact ⟨rfl, rfl⟩
  have kept' : (firmwareRequest answer.request agent).fsmc = agent.fsmc ∧
      (firmwareRequest answer.request agent).memory = agent.memory := by
    unfold firmwareRequest
    simp only
    split
    · exact ⟨rfl, rfl⟩
    · exact ⟨rfl, rfl⟩
  unfold UpdateAgent.resume
  rw [UpdateAgent.over_point]
  cases point : agent.point with
  | subscribe => exact ⟨subscribes, kept⟩
  | subscribeSend =>
      by_cases failed : agent.reqcErr ≠ .success
      · simp only [if_pos failed]
        exact ⟨if_pos failed, trivial, trivial⟩
      · by_cases waits : agent.fsmc.state ≠ .startUpdate
        · simp only [if_neg failed, if_pos waits]
          exact ⟨(if_neg failed).trans ((if_pos waits).trans subscribes), kept⟩
        · simp only [if_neg failed, if_neg waits]
          exact ⟨(if_neg failed).trans (if_neg waits), trivial, trivial⟩
  | getMsg => exact absurd point other
  | receive => exact ⟨requests, kept'⟩
  | receiveSend =>
      by_cases failed : agent.reqcErr ≠ .success
      · simp only [if_pos failed]
        exact ⟨if_pos failed, trivial, trivial⟩
      · simp only [if_neg failed]
        exact ⟨if_neg failed, trivial, trivial⟩
  | subscribeTimeout =>
      by_cases receives : agent.fsmc.state = .receiveFirmware
      · simp only [if_pos receives]
        exact ⟨(if_pos receives).trans requests, kept'⟩
      · simp only [if_neg receives]
        exact ⟨if_neg receives, trivial, trivial⟩
  | returned event => exact ⟨rfl, rfl, rfl⟩

theorem Pull.goOn_over (agent : UpdateAgent σ) (pull : Pull σ) (before : τ) :
    (pull.over before).goOn (agent.over space) = (pull.goOn agent).over space := by
  unfold Pull.goOn
  rw [UpdateAgent.over_asks]
  cases agent.asks with
  | none => rfl
  | some request => rfl

/-- The server does not meet the memory of the device. -/
theorem Pull.serve_over (crypto : Crypto) (coap : Coap) (index : Nat) (signer : Signer)
    (pull : Pull σ) :
    (pull.over space).serve crypto coap index signer =
      (pull.serve crypto coap index signer).over space := by
  unfold Pull.serve
  rw [Pull.over_packets]
  split
  · rfl
  · rfl

/-- An answer that is delivered. -/
theorem Pull.deliver_found (M : MemoryInterface σ) (crypto : Crypto) (table : SlotTable)
    (sf : Safestore) {build : Build} {index : Nat} (sends : Bool) (rng : Except PullError Nonce)
    {pull : Pull σ} (hears : pull.agent.point.hears build = true) {response : PullResponse}
    (found : pull.packets[index]? = some (.response response)) :
    pull.deliver M crypto table sf build index sends rng =
      let handled := handlerLibcoap pull.enabled pull.agent.msg sends rng response
      ⟨requestCb M crypto table sf handled.2 pull.agent, pull.enabled,
        pull.packets.eraseIdx index ++ (handled.1.map Packet.request).toList, pull.server,
        pull.handed ++ if pull.agent.begun then
          (handled.2.data.map fun input => input.buf.data).getD [] else []⟩ := by
  rw [Pull.deliver, if_pos hears, found]

end Over

/-! ### Steps on a memory that passes for a plain one -/

section Backed

variable {σ : Type} {M : MemoryInterface σ} {layout : PlainLayout} {sees : σ → Contents → Prop}
  (backs : Backs M layout sees) {crypto : Crypto} {table : SlotTable} {sf : Safestore}
  (hold : SlotsHold table layout) {value : UInt8} (erases : layout.erased = some value)

/-- A memory that is seen as the one of an agent, whose state machine is prepared. -/
structure BackedBy (sees : σ → Contents → Prop) (table : SlotTable) (layout : PlainLayout)
    (agent : UpdateAgent Contents) (space : σ) : Prop where
  seen : sees space agent.memory
  prepared : Prepared table layout agent.fsmc agent.memory

/-- If a step completes a manifest that passes, its image fits in the slots, and so does what the
session has brought. -/
def Pull.AcceptsFit (crypto : Crypto) (sf : Safestore) (table : SlotTable) (layout : PlainLayout)
    (build : Build) (pull : Pull Contents) : PullStep → Prop
  | .resume answer => pull.agent.point = .getMsg → Upkit.AcceptsFit crypto sf table layout
      (messageInput pull.agent.msg answer.rng) pull.agent.fsmc
  | .serve _ _ => True
  | .deliver index sends rng => pull.agent.point.hears build = true → ∀ response input,
      pull.packets[index]? = some (.response response) →
      (handlerLibcoap pull.enabled pull.agent.msg sends rng response).2.data = some input →
        Upkit.AcceptsFit crypto sf table layout input pull.agent.fsmc

/-- Only a state machine that collects a manifest can complete one. -/
theorem Pull.acceptsFit_of_state {crypto : Crypto} {sf : Safestore} {table : SlotTable}
    {layout : PlainLayout} {build : Build} {pull : Pull Contents}
    (other : pull.agent.fsmc.state ≠ .receiveManifest) (step : PullStep) :
    pull.AcceptsFit crypto sf table layout build step := by
  cases step with
  | resume answer => exact fun _ => Upkit.acceptsFit_of_state _ other
  | serve index signer => trivial
  | deliver index sends rng => exact fun _ _ input _ _ => Upkit.acceptsFit_of_state input other

/-- Steps that accept no manifest but those of images that fit in the slots, as they go on a plain
memory. -/
def Pull.RunFits (crypto : Crypto) (table : SlotTable) (sf : Safestore) (layout : PlainLayout)
    (coap : Coap) (build : Build) : List PullStep → Pull Contents → Prop
  | [], _ => True
  | step :: steps, pull => pull.AcceptsFit crypto sf table layout build step ∧
      RunFits crypto table sf layout coap build steps
        (pull.step (plain layout) crypto table sf coap build step)

/-- The data of a callback is the payload of the answer. -/
theorem handlerLibcoap_data {enabled sends : Bool} {data : List UInt8} {rng : Except PullError Nonce}
    {received : PullResponse} {input : FsmInput}
    (calls : (handlerLibcoap enabled data sends rng received).2.data = some input) :
    input.buf.data = received.payload := by
  have payload : ∀ {callback : Callback}, callback.data = some input →
      callback = dataCallback received.payload rng ∨ callback.data = none →
        input.buf.data = received.payload := by
    rintro callback isInput (rfl | none)
    · unfold dataCallback at isInput
      split at isInput
      · cases isInput
      · split at isInput
        · rw [← Option.some.inj isInput]
        · cases isInput
    · rw [none] at isInput
      cases isInput
  refine payload calls ?_
  unfold handlerLibcoap
  split
  · exact Or.inr rfl
  · split
    · exact Or.inr rfl
    · split
      · exact Or.inl rfl
      · split
        · split
          · split
            · exact Or.inl rfl
            · exact Or.inr rfl
          · exact Or.inl rfl
        · exact Or.inr rfl

include backs hold

/-- **The agent starts** as on the plain memory. -/
theorem updateStart_backed (rngInit connOnData : PullError) (fsmc : FsmCtx) (reqcErr : PullError)
    (msg : List UInt8) {space : σ} {contents : Contents} (seen : sees space contents) :
    let agent := updateStart (plain layout) table .success rngInit connOnData fsmc reqcErr msg
      contents
    ∃ space', updateStart M table .success rngInit connOnData fsmc reqcErr msg space =
        agent.over space' ∧ BackedBy sees table layout agent space' := by
  intro agent
  obtain ⟨space', begun, seen', prepared⟩ := fsmInit_backed backs hold rngInit fsmc seen
  have isAgent : agent = updateStart (plain layout) table .success rngInit connOnData fsmc reqcErr
    msg contents := rfl
  refine ⟨space', ?_⟩
  rw [isAgent]
  unfold updateStart
  simp only [begun, ne_eq, not_true_eq_false, if_false]
  split
  · exact ⟨rfl, seen', prepared⟩
  · split
    · exact ⟨rfl, seen', prepared⟩
    · exact ⟨rfl, seen', prepared⟩

include erases

/-- **A callback** does what it does on the plain memory. -/
theorem requestCb_backed (callback : Callback) {agent : UpdateAgent Contents}
    (accepts : ∀ input, callback.data = some input →
      AcceptsFit crypto sf table layout input agent.fsmc)
    {space : σ} (backed : BackedBy sees table layout agent space) :
    ∃ space', requestCb M crypto table sf callback (agent.over space) =
        (requestCb (plain layout) crypto table sf callback agent).over space' ∧
      BackedBy sees table layout (requestCb (plain layout) crypto table sf callback agent)
        space' := by
  unfold requestCb
  by_cases failed : callback.err ≠ .success
  · rw [if_pos failed, if_pos failed]
    exact ⟨space, rfl, backed.seen, backed.prepared⟩
  · rw [if_neg failed, if_neg failed]
    cases data : callback.data with
    | none => exact ⟨space, rfl, backed.seen, backed.prepared⟩
    | some input =>
        obtain ⟨space', answered, seen', prepared⟩ := fsm_backed backs hold erases input
          (accepts input data) backed.seen backed.prepared
        refine ⟨space', ?_, seen', prepared⟩
        simp only [UpdateAgent.over, answered]

/-- **The agent goes on** as on the plain memory. -/
theorem resume_backed (answer : Answer) {agent : UpdateAgent Contents}
    (accepts : agent.point = .getMsg →
      AcceptsFit crypto sf table layout (messageInput agent.msg answer.rng) agent.fsmc)
    {space : σ} (backed : BackedBy sees table layout agent space) :
    ∃ space', (agent.over space).resume M crypto table sf answer =
        (agent.resume (plain layout) crypto table sf answer).over space' ∧
      BackedBy sees table layout (agent.resume (plain layout) crypto table sf answer) space' := by
  by_cases point : agent.point = .getMsg
  · obtain ⟨space', answered, seen', prepared⟩ := fsm_backed backs hold erases
      (messageInput agent.msg answer.rng) (accepts point) backed.seen backed.prepared
    refine ⟨space', ?_⟩
    unfold UpdateAgent.resume
    simp only [point, UpdateAgent.over, answered]
    split
    · exact ⟨rfl, seen', prepared⟩
    · exact ⟨rfl, seen', prepared⟩
  · obtain ⟨goesOn, fsmc, memory⟩ := UpdateAgent.resume_over space (plain layout) M crypto table sf
      answer point
    refine ⟨space, goesOn, ?_, ?_⟩
    · rw [memory]
      exact backed.seen
    · rw [fsmc, memory]
      exact backed.prepared

/-- **The agent of a transfer goes on.** -/
theorem Pull.resume_backed (build : Build) (answer : Answer) {pull : Pull Contents}
    (accepts : pull.AcceptsFit crypto sf table layout build (.resume answer)) {space : σ}
    (backed : BackedBy sees table layout pull.agent space) :
    ∃ space', (pull.over space).resume M crypto table sf answer =
        (pull.resume (plain layout) crypto table sf answer).over space' ∧
      BackedBy sees table layout (pull.resume (plain layout) crypto table sf answer).agent
        space' := by
  obtain ⟨space', goesOn, backed'⟩ :=
    Upkit.resume_backed backs hold erases answer accepts backed
  refine ⟨space', ?_, ?_⟩
  · rw [Pull.resume, show (pull.over space).agent = pull.agent.over space from rfl, goesOn,
      Pull.goOn_over]
    rfl
  · rw [Pull.resume, Pull.goOn]
    split
    · exact backed'
    · exact backed'

/-- **An answer is delivered.** -/
theorem Pull.deliver_backed (build : Build) (index : Nat) (sends : Bool)
    (rng : Except PullError Nonce) {pull : Pull Contents} {space : σ}
    (accepts : pull.AcceptsFit crypto sf table layout build (.deliver index sends rng))
    (backed : BackedBy sees table layout pull.agent space) :
    ∃ space', (pull.over space).deliver M crypto table sf build index sends rng =
        (pull.deliver (plain layout) crypto table sf build index sends rng).over space' ∧
      BackedBy sees table layout
        (pull.deliver (plain layout) crypto table sf build index sends rng).agent space' := by
  have quiet : (∀ response, pull.agent.point.hears build = true →
      pull.packets[index]? ≠ some (.response response)) →
      (pull.over space).deliver M crypto table sf build index sends rng = pull.over space ∧
        pull.deliver (plain layout) crypto table sf build index sends rng = pull := by
    intro none
    unfold Pull.deliver
    by_cases hears : pull.agent.point.hears build = true
    · rw [if_pos (show (pull.over space).agent.point.hears build = true from hears), if_pos hears,
        Pull.over_packets]
      split
      · rename_i response found
        exact absurd found (none response hears)
      · exact ⟨rfl, rfl⟩
    · exact ⟨if_neg hears, if_neg hears⟩
  by_cases delivers : ∃ response, pull.agent.point.hears build = true ∧
      pull.packets[index]? = some (.response response)
  · obtain ⟨response, hears, found⟩ := delivers
    obtain ⟨space', calls, backed'⟩ := requestCb_backed backs hold erases
      (handlerLibcoap pull.enabled pull.agent.msg sends rng response).2
      (fun input isInput => accepts hears response input found isInput) backed
    rw [pull.deliver_found (plain layout) crypto table sf sends rng hears found,
      (pull.over space).deliver_found M crypto table sf sends rng hears found]
    refine ⟨space', ?_, backed'⟩
    exact congrArg (fun agent => Pull.mk agent _ _ _ _) calls
  · obtain ⟨stays, stays'⟩ := quiet fun response hears found => delivers ⟨response, hears, found⟩
    rw [stays, stays']
    exact ⟨space, rfl, backed⟩

/-- **Any step** of a transfer. -/
theorem Pull.step_backed (coap : Coap) (build : Build) (step : PullStep) {pull : Pull Contents}
    {space : σ} (accepts : pull.AcceptsFit crypto sf table layout build step)
    (backed : BackedBy sees table layout pull.agent space) :
    ∃ space', (pull.over space).step M crypto table sf coap build step =
        (pull.step (plain layout) crypto table sf coap build step).over space' ∧
      BackedBy sees table layout (pull.step (plain layout) crypto table sf coap build step).agent
        space' := by
  cases step with
  | resume answer => exact Pull.resume_backed backs hold erases build answer accepts backed
  | serve index signer =>
      refine ⟨space, Pull.serve_over space crypto coap index signer pull, ?_⟩
      show BackedBy sees table layout (pull.serve crypto coap index signer).agent space
      unfold Pull.serve
      split
      · exact backed
      · exact backed
  | deliver index sends rng =>
      exact Pull.deliver_backed backs hold erases build index sends rng accepts backed

end Backed

/-! ### Any steps -/

/-- **Any number of steps** of a transfer. -/
theorem Pull.run_backed {σ : Type} {M : MemoryInterface σ} {layout : PlainLayout}
    {sees : σ → Contents → Prop} (backs : Backs M layout sees) {crypto : Crypto} {table : SlotTable}
    {sf : Safestore} (hold : SlotsHold table layout) {value : UInt8}
    (erases : layout.erased = some value) (coap : Coap) (build : Build) (steps : List PullStep)
    {pull : Pull Contents} {space : σ} (fits : pull.RunFits crypto table sf layout coap build steps)
    (backed : BackedBy sees table layout pull.agent space) :
    ∃ space', (pull.over space).run M crypto table sf coap build steps =
        (pull.run (plain layout) crypto table sf coap build steps).over space' ∧
      BackedBy sees table layout
        (pull.run (plain layout) crypto table sf coap build steps).agent space' := by
  induction steps generalizing pull space with
  | nil => exact ⟨space, rfl, backed⟩
  | cons step steps ih =>
      obtain ⟨space', stepped, backed'⟩ :=
        Pull.step_backed backs hold erases coap build step fits.1 backed
      rw [Pull.run, stepped]
      exact ih fits.2 backed'

/-- **A transfer on flash refines one on plain memory**: whatever the steps are and in whatever order,
late answers included, as long as no manifest is accepted but those of images that fit in the slots,
the agent is at the same point with the same state machine and message, the same packets are on their
way, the server holds the same file, and what the objects of the flash hold is what they hold
there. -/
theorem pull_refines {layout : FlashLayout} {crypto : Crypto} {table : SlotTable} {sf : Safestore}
    (hold : SlotsHold table layout.asPlain) (coap : Coap) (build : Build) (steps : List PullStep)
    (rngInit connOnData : PullError) (fsmc : FsmCtx) (reqcErr : PullError) (msg : List UInt8)
    {space : Nat → UInt8} {contents : Contents} (seen : Sees layout space contents)
    (server : ServerCtx)
    (fits : (Pull.start (plain layout.asPlain) table .success rngInit connOnData fsmc reqcErr msg
      contents server).RunFits crypto table sf layout.asPlain coap build steps) :
    let plainly := (Pull.start (plain layout.asPlain) table .success rngInit connOnData fsmc reqcErr
      msg contents server).run (plain layout.asPlain) crypto table sf coap build steps
    ∃ space', (Pull.start (paged layout) table .success rngInit connOnData fsmc reqcErr msg space
        server).run (paged layout) crypto table sf coap build steps = plainly.over space' ∧
      Sees layout space' plainly.agent.memory := by
  have backs := paged_backs layout
  obtain ⟨space', starts, backed⟩ := updateStart_backed backs hold rngInit connOnData fsmc reqcErr
    msg seen
  have begins : Pull.start (paged layout) table .success rngInit connOnData fsmc reqcErr msg space
      server = (Pull.start (plain layout.asPlain) table .success rngInit connOnData fsmc reqcErr msg
        contents server).over space' := by
    rw [Pull.start, starts]
    rfl
  rw [begins]
  obtain ⟨space'', runs, backed'⟩ := Pull.run_backed backs hold rfl coap build steps fits backed
  exact ⟨space'', runs, backed'.seen⟩

/-! ### A network that loses messages -/

section Moves

variable {σ : Type} {M : MemoryInterface σ} {layout : PlainLayout} {sees : σ → Contents → Prop}
  (backs : Backs M layout sees) {crypto : Crypto} {table : SlotTable} {sf : Safestore}
  (hold : SlotsHold table layout) {value : UInt8} (erases : layout.erased = some value)
  {coap : Coap} {build : Build} {x y : List UInt8} {nonce : Nonce} {pull : Pull Contents}
  {space : σ} {fault : Bool} (accepts : ∀ step, pull.AcceptsFit crypto sf table layout build step)
  (backed : BackedBy sees table layout pull.agent space)

include backs hold erases accepts backed

/-- **A step over the other memory** is one over the plain memory. -/
theorem moves_over {other : Pull σ}
    (moves : (pull.over space).Moves M crypto table sf coap build x y nonce fault other) :
    ∃ pull' space', other = pull'.over space' ∧
      pull.Moves (plain layout) crypto table sf coap build x y nonce fault pull' ∧
      BackedBy sees table layout pull'.agent space' := by
  cases moves with
  | resume answer sent generated quiet goesOn =>
      obtain ⟨space', resumed, backed'⟩ := Pull.resume_backed backs hold erases build answer
        (accepts (.resume answer)) backed
      exact ⟨_, space', resumed, .resume answer sent generated quiet goesOn, backed'⟩
  | serve index signer request laws found =>
      obtain ⟨space', served, backed'⟩ := Pull.step_backed backs hold erases coap build
        (.serve index signer) (accepts (.serve index signer)) backed
      exact ⟨_, space', served, .serve index signer request laws found, backed'⟩
  | deliver index rng response hears found =>
      obtain ⟨space', delivered, backed'⟩ :=
        Pull.deliver_backed backs hold erases build index true rng
          (accepts (.deliver index true rng)) backed
      exact ⟨_, space', delivered, .deliver index rng response hears found, backed'⟩
  | lose index inside apart => exact ⟨_, space, rfl, .lose index inside apart, backed⟩

omit backs hold erases accepts backed in
/-- **A step over the plain memory** is one over the other memory. -/
theorem moves_under {pull' : Pull Contents}
    (moves : pull.Moves (plain layout) crypto table sf coap build x y nonce fault pull') :
    ∃ other, (pull.over space).Moves M crypto table sf coap build x y nonce fault other := by
  cases moves with
  | resume answer sent generated quiet goesOn =>
      exact ⟨_, .resume answer sent generated quiet goesOn⟩
  | serve index signer request laws found => exact ⟨_, .serve index signer request laws found⟩
  | deliver index rng response hears found =>
      exact ⟨_, .deliver index rng response hears found⟩
  | lose index inside apart => exact ⟨_, .lose index inside apart⟩

end Moves

section Underway

variable {layout : PlainLayout} {table : SlotTable} {memory : Contents} {crypto : Crypto}
  {sf : Safestore} {x y : List UInt8} {file : Packaged crypto sf x y} {server : ServerCtx}
  {pull : Pull Contents} (underway : Underway layout table memory file server pull)

include underway

/-- A transfer under way that waits for the manifest has been handed nothing. -/
theorem Underway.waiting (waits : pull.agent.fsmc.state = .receiveManifest) :
    Collecting pull.agent.fsmc [] := by
  have early : ∀ {state : FsmState}, pull.Unbegun memory server state →
      state ≠ .receiveManifest → Collecting pull.agent.fsmc [] := fun unbegun other =>
    absurd (unbegun.state.symm.trans waits) other
  cases underway with
  | subscribe unbegun _ _ => exact early unbegun (by decide)
  | version unbegun _ _ => exact early unbegun (by decide)
  | told unbegun _ _ => exact early unbegun (by decide)
  | getMsg unbegun _ _ => exact early unbegun (by decide)
  | begun _ session _ _ _ => exact session
  | asked _ session _ _ _ _ => exact session
  | applied _ _ _ reboot _ _ => exact FsmState.noConfusion (reboot.symm.trans waits)
  | receives release _ receives =>
      have session := receives.downloaded.waiting waits
      rcases receives.whole with none | enough
      · rw [none] at session
        exact session
      · exact absurd session.unfinished (not_lt.mpr enough)

/-- **What a transfer under way completes** is the manifest of the release, whose image fits in the
slots. -/
theorem Underway.acceptsFit
    (small : ∀ slot ∈ table.slots, sizeofManifest + file.firmware.length ≤ layout.limit slot.id)
    (build : Build) (step : PullStep) : pull.AcceptsFit crypto sf table layout build step := by
  cases step with
  | serve index signer => trivial
  | resume answer =>
      intro _ waits _ enough _
      have none := (underway.waiting waits).processed
      rw [none, messageInput_length] at enough
      exact absurd enough (by decide)
  | deliver index sends rng =>
      intro _ response input found isInput waits past enough accepted
      have payload := handlerLibcoap_data isInput
      obtain ⟨-, -, awaiting⟩ := underway.awaiting found
      cases awaiting with
      | versionAnswered unbegun _ => exact FsmState.noConfusion (unbegun.state.symm.trans waits)
      | blockAnswered release num offered receives _ _ position =>
          have fits : ∀ slot ∈ table.slots, release.stream.length ≤ layout.limit slot.id := by
            intro slot member
            rw [offered.length]
            exact small slot member
          have more : pull.handed ++ input.buf.data <+: release.stream := by
            rw [payload, blockOf, position, receives.file,
              prefix_block receives.downloaded.begins]
            exact List.take_prefix _ _
          exact receives.downloaded.acceptsFit fits more waits past enough accepted

end Underway

/-! ### Whole transfers -/

namespace FlashBoard

variable {device : FlashBoard} {crypto : Crypto} {signer : Signer} {coap : Coap} {build : Build}
  {x y : List UInt8} {nonce : Nonce} {space : Nat → UInt8}
  {file : Packaged crypto device.board.cfg.safestore x y} {state : Service}

/-- A transfer on flash goes as one on plain memory. -/
def GoesLike (device : FlashBoard) (pull : Pull (Nat → UInt8)) (plainly : Pull Contents) : Prop :=
  ∃ space, pull = plainly.over space ∧
    BackedBy (Sees device.flash) device.board.table device.board.layout plainly.agent space

/-- **The potential of a transfer on flash** is that of the transfer it goes like. -/
theorem flash_potential
    (offers : Offers file state) (isSealed : state.sealed = true)
    (older : 0 < state.server.manifest.getVersion)
    (fresh : ¬ Current device.board.cfg.safestore nonce state.server.manifest)
    (small : sizeofManifest + file.firmware.length ≤ device.board.length) {memory : Contents} :
    Potential (Pull.Moves (paged device.flash) crypto device.board.table
        device.board.cfg.safestore coap build x y nonce)
      (fun pull => ∃ plainly, device.GoesLike pull plainly ∧
        Underway device.board.layout device.board.table memory file state.server plainly)
      (Pull.rank (sizeofManifest + file.firmware.length)) 3 := by
  have erases : device.board.layout.erased = some 255 := by
    rw [device.layout_eq]
    rfl
  have small' : ∀ slot ∈ device.board.table.slots,
      sizeofManifest + file.firmware.length ≤ device.board.layout.limit slot.id := by
    intro slot inTable
    rw [device.board.limit_eq slot inTable]
    exact small
  have potential := @underway_potential device.board crypto coap build x y nonce memory file state
    offers isSealed older fresh small
  refine potential.simulated ?_ ?_
  · rintro pull plainly fault pull' ⟨space, rfl, backed⟩ underway moves
    obtain ⟨plainly', space', isOver, moves', backed'⟩ := moves_over device.backs
      device.board.slotsHold erases (underway.acceptsFit small' build) backed moves
    exact ⟨plainly', moves', space', isOver, backed'⟩
  · rintro pull plainly ⟨space, rfl, -⟩
    rfl

/-- **A transfer on flash is never stuck.** -/
theorem flash_goesOn (laws : KeyLaws crypto signer x y) {memory : Contents}
    {pull : Pull (Nat → UInt8)} {plainly : Pull Contents} (likewise : device.GoesLike pull plainly)
    (underway : Underway device.board.layout device.board.table memory file state.server plainly)
    (unfinished : ∀ event, pull.agent.point ≠ .returned event) :
    ∃ pull', pull.Moves (paged device.flash) crypto device.board.table device.board.cfg.safestore
      coap build x y nonce false pull' := by
  obtain ⟨space, rfl, -⟩ := likewise
  obtain ⟨plainly', moves⟩ := underway_goesOn laws underway unfinished
  exact moves_under moves

/-- A transfer on flash begins. -/
theorem flash_start
    (first : versionAt (device.flash.view space)
      (newestBootable device.board.table (device.flash.view space)).id = 0)
    (fsmc : FsmCtx) (msg : List UInt8) :
    let pull := Pull.start (paged device.flash) device.board.table .success .success .success fsmc
      .success msg space state.server
    pull.agent.point = .subscribe ∧ ∃ plainly, device.GoesLike pull plainly ∧
      Underway device.board.layout device.board.table (device.flash.view space) file state.server
        plainly := by
  obtain ⟨begins, point⟩ := @underway_start device.board crypto x y (device.flash.view space) file
    state first fsmc msg
  obtain ⟨space', starts, backed⟩ := updateStart_backed device.backs device.board.slotsHold .success
    .success fsmc .success msg (sees_view device.flash space)
  rw [Pull.start, starts]
  exact ⟨point, _, ⟨space', rfl, backed⟩, begins⟩

/-- **A device with flash installs what the server offers**, as `transfer_installs` says of plain
memory: it takes no more steps than two for each block of the file, eight more, and three for each
message that gets lost; until it is done it can go on; and when it is done the update is applied, and
the reset loads the binary from a bootable slot of the flash, under the version that the server
announces. -/
theorem flash_installs
    (boots : ∀ slot ∈ device.board.table.slots.head?, slot.bootable = true)
    (laws : KeyLaws crypto signer x y)
    (reached : (service crypto coap device.board.cfg.safestore file).Reachable state)
    (isSealed : state.sealed = true)
    (intact : Intact device.board crypto (device.flash.view space))
    (first : versionAt (device.flash.view space)
      (newestBootable device.board.table (device.flash.view space)).id = 0)
    (newer : ∀ slot ∈ device.board.table.slots, versionAt (device.flash.view space) slot.id <
      (file.mt.getVersion + state.raised) % 2 ^ 16)
    (fresh : ¬ Current device.board.cfg.safestore nonce state.server.manifest)
    (fits : sizeofManifest + file.firmware.length ≤ device.board.length)
    (fills : device.board.cfg.bufferSize ≤ file.firmware.length) (fsmc : FsmCtx)
    (msg : List UInt8) {steps losses : Nat} {pull : Pull (Nat → UInt8)}
    (run : FaultyRun (Pull.Moves (paged device.flash) crypto device.board.table
        device.board.cfg.safestore coap build x y nonce)
      (Pull.start (paged device.flash) device.board.table .success .success .success fsmc .success
        msg space state.server) steps losses pull) :
    steps ≤ 2 * blocksLeft (sizeofManifest + file.firmware.length) 0 + 8 + 3 * losses ∧
      ((∀ event, pull.agent.point ≠ .returned event) → ∃ pull', pull.Moves (paged device.flash)
        crypto device.board.table device.board.cfg.safestore coap build x y nonce false pull') ∧
      ∀ event, pull.agent.point = .returned event →
        event = .apply ∧ pull.agent.fsmc.state = .reboot ∧
          ∃ id after, contiki (bootloaderCoroutine (paged device.flash) crypto device.board.table
              device.board.cfg pull.agent.memory) = .loads id after ∧
            Intact device.board crypto (device.flash.view after) ∧
            versionAt (device.flash.view after) id =
              (file.mt.getVersion + state.raised) % 2 ^ 16 ∧
            (∃ slot ∈ device.board.table.slots, slot.id = id ∧ slot.bootable = true) ∧
            (imageAt (device.flash.view after) id).drop sizeofManifest = file.firmware := by
  have offers := service_offers reached
  obtain ⟨oldest, member, isOldest⟩ := oldestSlot_mem device.board.table (device.flash.view space)
  have older : 0 < state.server.manifest.getVersion := by
    rw [offers.version]
    exact lt_of_le_of_lt (Nat.zero_le _) (newer oldest member)
  obtain ⟨point, begins⟩ := flash_start first fsmc msg
  have potential := @flash_potential device crypto coap build x y nonce file state offers
    isSealed older fresh fits (device.flash.view space)
  have paid := potential.bounded run begins
  obtain ⟨plainly, likewise, underway⟩ := potential.holds run begins
  refine ⟨?_, flash_goesOn laws likewise underway, fun event returned => ?_⟩
  · simp only [Pull.rank, point] at paid
    exact le_trans (Nat.le_add_right _ _) paid
  · obtain ⟨space', rfl, backed⟩ := likewise
    obtain ⟨isApply, reboot, release, ⟨version, length, size, image⟩, stored⟩ :=
      underway_returned underway returned
    rw [offers.version] at version
    rw [← version] at newer
    rw [← length] at fits
    rw [← size] at fills
    have taken : TakenIn device.board release (device.flash.view space)
        (device.flash.view space') := by
      intro id address inside
      rw [← stored]
      rw [device.limit_eq] at inside
      exact backed.seen id address inside
    obtain ⟨slot, after, ends, took⟩ := taken_loaded boots taken intact newer ⟨fits, fills⟩
    exact ⟨isApply, reboot, slot.id, after, ends, took.intact, took.version.trans version,
      ⟨slot, took.member, rfl, took.bootable⟩, took.image ▸ image⟩

end FlashBoard

/-! ### A transfer to two slots of flash -/

/-- An exchange for the version that is answered late. -/
def lateSteps : List PullStep :=
  [.resume zeroAnswer, .serve 0 mirrorSigner, .resume zeroAnswer, .deliver 0 true (.ok zeroNonce),
    .serve 0 mirrorSigner]

/-- The board with flash goes through such an exchange as a plain memory does. -/
theorem flashBoard_refines :
    let server := ServerCtx.ofParts (Manifest.ofBytes ownManifest) zeroFirmware
    let plainly := (Pull.start (plain twoSlotFlash.asPlain) twoSlots .success .success .success
      FsmCtx.zero .success [] (twoSlotFlash.view flashImages) server).run
        (plain twoSlotFlash.asPlain) mirrorCrypto twoSlots flashBoard.board.cfg.safestore plainCoap
        .plain lateSteps
    ∃ space', (Pull.start (paged twoSlotFlash) twoSlots .success .success .success FsmCtx.zero
        .success [] flashImages server).run (paged twoSlotFlash) mirrorCrypto twoSlots
        flashBoard.board.cfg.safestore plainCoap .plain lateSteps = plainly.over space' ∧
      Sees twoSlotFlash space' plainly.agent.memory :=
  pull_refines flashBoard.board.slotsHold plainCoap .plain lateSteps .success .success FsmCtx.zero
    .success [] (sees_view twoSlotFlash flashImages) _
    ⟨Pull.acceptsFit_of_state (by decide +kernel) _, Pull.acceptsFit_of_state (by decide +kernel) _,
      Pull.acceptsFit_of_state (by decide +kernel) _, Pull.acceptsFit_of_state (by decide +kernel) _,
      Pull.acceptsFit_of_state (by decide +kernel) _, trivial⟩

/-- Version `0` in both slots of the flash. -/
def firstOnFlash : Nat → UInt8 := fun address =>
  if 0x1000 ≤ address ∧ address < 0x3000 then ownImage 0 (address - 0x1000)
  else if 0x3000 ≤ address ∧ address < 0x5000 then ownImage 0 (address - 0x3000)
  else 0

theorem firstOnFlash_intact :
    Intact flashBoard.board mirrorCrypto (flashBoard.flash.view firstOnFlash) := by
  refine ⟨fun target isSlot => ?_, fun target isSlot => ?_, by decide +kernel⟩
  · rcases isSlot.ofTwo rfl with rfl | rfl
    · exact (isSlot.passes_iff (by decide +kernel) (by decide +kernel)).mpr
        ⟨by decide +kernel, by decide +kernel⟩
    · exact (isSlot.passes_iff (by decide +kernel) (by decide +kernel)).mpr
        ⟨by decide +kernel, by decide +kernel⟩
  · rcases isSlot.ofTwo rfl with rfl | rfl
    · exact ⟨by decide +kernel, by decide +kernel, by decide +kernel⟩
    · exact ⟨by decide +kernel, by decide +kernel, by decide +kernel⟩

/-- The board with flash of version `0` takes at most `18` steps to version `2`. -/
theorem flashBoard_installs :
    ∃ server steps pull, FaultyRun (Pull.Moves (paged twoSlotFlash) mirrorCrypto twoSlots
          flashBoard.board.cfg.safestore plainCoap .plain (List.replicate 32 0)
          (List.replicate 32 0) onesNonce)
        (Pull.start (paged twoSlotFlash) twoSlots .success .success .success FsmCtx.zero .success []
          firstOnFlash server) steps 0 pull ∧
      steps ≤ 18 ∧ pull.agent.point = .returned .apply ∧
      ∃ id after, contiki (bootloaderCoroutine (paged twoSlotFlash) mirrorCrypto twoSlots
          flashBoard.board.cfg pull.agent.memory) = .loads id after ∧
        versionAt (twoSlotFlash.view after) id = 2 ∧
        (imageAt (twoSlotFlash.view after) id).drop sizeofManifest = zeroFirmware := by
  obtain ⟨file, isOut, isZero, version⟩ := ownPackage_exists
  let state : Service := ⟨ServerCtx.ofParts file.mt file.firmware, 0, true⟩
  have reached : (service mirrorCrypto plainCoap flashBoard.board.cfg.safestore file).Reachable state :=
    .start rfl
  have fresh : ¬ Current flashBoard.board.cfg.safestore onesNonce state.server.manifest := by
    rw [ServerCtx.ofParts_manifest, isOut]
    exact ownManifest_stale
  have fits : sizeofManifest + file.firmware.length ≤ flashBoard.board.length := by
    rw [isZero, zeroFirmware, List.length_replicate]
    decide
  have fills : flashBoard.board.cfg.bufferSize ≤ file.firmware.length := by
    rw [isZero, zeroFirmware, List.length_replicate]
    decide
  have offered : (file.mt.getVersion + state.raised) % 2 ^ 16 = 2 := by
    rw [version]
    rfl
  have older : 0 < state.server.manifest.getVersion := by
    rw [(service_offers reached).version, offered]
    decide
  have first : versionAt (flashBoard.flash.view firstOnFlash)
      (newestBootable flashBoard.board.table (flashBoard.flash.view firstOnFlash)).id = 0 := by
    decide +kernel
  obtain ⟨-, begins⟩ := @FlashBoard.flash_start flashBoard mirrorCrypto (List.replicate 32 0)
    (List.replicate 32 0) firstOnFlash file state first FsmCtx.zero []
  have potential := @FlashBoard.flash_potential flashBoard mirrorCrypto plainCoap .plain
    (List.replicate 32 0) (List.replicate 32 0) onesNonce file state
    (service_offers reached) rfl older fresh fits (flashBoard.flash.view firstOnFlash)
  obtain ⟨steps, last, run, event, returned⟩ := @Potential.completes _ _ _ _ _ potential
    (fun pull => ∃ event, pull.agent.point = .returned event)
    (by
      rintro pull ⟨plainly, likewise, underway⟩ unfinished
      exact FlashBoard.flash_goesOn mirrorSigner_laws likewise underway
        fun event returned => unfinished ⟨event, returned⟩) _ begins
  obtain ⟨bound, -, installs⟩ := FlashBoard.flash_installs (by decide) mirrorSigner_laws reached rfl firstOnFlash_intact first
    (by rw [offered]; decide +kernel) fresh fits fills FsmCtx.zero [] run
  obtain ⟨rfl, -, id, after, ends, -, isVersion, -, image⟩ := installs event returned
  refine ⟨state.server, steps, last, run, ?_, returned, id, after, ends, isVersion.trans offered,
    image.trans isZero⟩
  have blocks : blocksLeft (sizeofManifest + zeroFirmware.length) 0 = 5 := by
    rw [zeroFirmware, List.length_replicate]
    decide
  rw [isZero, blocks] at bound
  exact bound

end Upkit
