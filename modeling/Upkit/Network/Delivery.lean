/-
**Delivering a stream in chunks.**

A session that waits for its manifest is given a byte stream cut into non-empty chunks. What
becomes of it is a function of the stream and of where it is cut (`cuts`):

* `storedStream` — the stream as it is stored: its manifest with `diff_version = 0`, then the rest.
* `outcome_armed` — from an armed slot on: the session waits for more, reboots when a cut falls on
  the expected length and the image passes, and fails otherwise.
* `fsm_collecting_accepted`, `fsm_collecting_refused` — the chunk that completes the manifest.
-/

import Upkit.Network.FsmCases

namespace Upkit

open Bytes

/-! ### Streams and cuts -/

/-- The bytes of a list of calls. -/
def streamOf (inputs : List FsmInput) : List UInt8 := inputs.flatMap fun input => input.buf.data

/-- The positions at which calls end, the first of them beginning at `start`. -/
def cuts (start : Nat) : List FsmInput → List Nat
  | [] => []
  | input :: rest =>
      (start + input.buf.data.length) :: cuts (start + input.buf.data.length) rest

theorem cuts_bounds {start cut : Nat} {inputs : List FsmInput}
    (nonempty : ∀ input ∈ inputs, input.buf.data ≠ []) (member : cut ∈ cuts start inputs) :
    start < cut ∧ cut ≤ start + (streamOf inputs).length := by
  induction inputs generalizing start with
  | nil => exact absurd member List.not_mem_nil
  | cons input rest ih =>
      have positive : 0 < input.buf.data.length :=
        List.length_pos_of_ne_nil (nonempty input List.mem_cons_self)
      rw [streamOf, List.flatMap_cons, List.length_append]
      rcases List.mem_cons.mp member with rfl | later
      · omega
      · have bounds := ih (fun other inRest => nonempty other (List.mem_cons_of_mem _ inRest)) later
        rw [streamOf] at bounds
        omega

/-! ### The stream as it is stored -/

/-- A stream of at least a manifest, as it is stored. -/
def storedStream (stream : List UInt8) : List UInt8 :=
  (Manifest.ofBytes stream).full.bytes ++ stream.drop sizeofManifest

theorem storedStream_length {stream : List UInt8} (enough : sizeofManifest ≤ stream.length) :
    (storedStream stream).length = stream.length := by
  rw [storedStream, List.length_append, Manifest.length_eq, List.length_drop]
  omega

/-- More of a stream is stored behind what is there. -/
theorem storedStream_append {stream : List UInt8} (enough : sizeofManifest ≤ stream.length)
    (more : List UInt8) : storedStream (stream ++ more) = storedStream stream ++ more := by
  rw [storedStream, storedStream, Manifest.ofBytes_append enough,
    List.drop_append_of_le_length enough, List.append_assoc]

/-- The stored stream differs from the stream in the two bytes of `diff_version`. -/
theorem storedStream_splice {stream : List UInt8} (enough : sizeofManifest ≤ stream.length) :
    storedStream stream = splice stream Field.diffVersion.offset [0, 0] := by
  have fits : Field.diffVersion.offset + [(0 : UInt8), 0].length ≤
      (stream.take sizeofManifest).length := by
    rw [List.length_take, min_eq_left enough]
    decide
  conv_rhs => rw [← List.take_append_drop sizeofManifest stream]
  rw [splice_append fits, storedStream, ← Manifest.ofBytes_bytes enough]
  rfl

/-- The number of bytes a manifest announces. -/
def Manifest.announced (mt : Manifest) : Nat := (mt.getOffset + mt.getPropSize) % 2 ^ 32

/-- Only the diff version is changed in storage. -/
theorem Manifest.full_get (mt : Manifest) {field : Field}
    (apart : Field.diffVersion.Apart field) : mt.full.get field = mt.get field :=
  mt.get_set_apart (toLE_length _ _) apart

@[simp] theorem Manifest.full_announced (mt : Manifest) : mt.full.announced = mt.announced := by
  rw [Manifest.announced, Manifest.announced, Manifest.getOffset, Manifest.getPropSize,
    Manifest.getOffset, Manifest.getPropSize, mt.full_get (by decide), mt.full_get (by decide)]

@[simp] theorem Manifest.full_getVersion (mt : Manifest) : mt.full.getVersion = mt.getVersion := by
  rw [Manifest.getVersion, Manifest.getVersion, mt.full_get (by decide)]

/-! ### Deliveries -/

section Delivery

variable {σ : Type} (M : MemoryInterface σ) (crypto : Crypto) (table : SlotTable)
  (sf : Safestore)

/-- Call after call, until one returns an error. -/
def deliver : List FsmInput → FsmCtx → σ → Option (FsmCtx × σ)
  | [], ctx, memory => some (ctx, memory)
  | input :: rest, ctx, memory =>
      let result := fsm M crypto table sf input ctx memory
      if result.err ≠ .success then none else deliver rest result.ctx result.memory

end Delivery

/-! ### The start of a session -/

section Collecting

variable {σ : Type} (M : MemoryInterface σ) (crypto : Crypto) (table : SlotTable)
  (sf : Safestore)

/-- A session that has collected `got` of its manifest. -/
structure Collecting (ctx : FsmCtx) (got : List UInt8) : Prop where
  state : ctx.state = .receiveManifest
  processed : ctx.processed = got.length
  unfinished : got.length < sizeofManifest
  bytes : ctx.scratch.bytes.take got.length = got

/-- One call in the manifest state. -/
theorem fsm_collecting {ctx : FsmCtx} {memory : σ} {got : List UInt8} (input : FsmInput)
    (session : Collecting ctx got) :
    fsm M crypto table sf input ctx memory =
      keepBuf input.buf.data (if got.length + input.buf.data.length < sizeofManifest then
        (.success, ctx.collected input.buf.data, memory)
      else fsmVerifyManifest M crypto table sf
        (input.buf.data.drop (sizeofManifest - got.length)) (ctx.collected input.buf.data)
        memory) := by
  have few := session.unfinished
  rw [fsm_manifestState M crypto table sf memory session.state, session.processed,
    if_neg (by omega)]

/-- A chunk that does not complete the manifest. -/
theorem collecting_short {ctx : FsmCtx} {got : List UInt8} {input : FsmInput}
    (session : Collecting ctx got)
    (few : got.length + input.buf.data.length < sizeofManifest) :
    Collecting (ctx.collected input.buf.data) (got ++ input.buf.data) := by
  have room : ctx.processed ≤ sizeofManifest := by
    rw [session.processed]
    exact le_of_lt session.unfinished
  obtain ⟨processed, bytes⟩ := collected_short input.buf.data room
    (by rw [session.processed]; exact few)
  rw [session.processed] at processed bytes
  rw [session.bytes] at bytes
  refine ⟨session.state, ?_, ?_, ?_⟩
  · rw [processed, List.length_append]
  · rw [List.length_append]
    exact few
  · rw [List.length_append]
    exact bytes

/-- A chunk that completes the manifest: what is collected is the manifest of the stream. -/
theorem collecting_complete {ctx : FsmCtx} {got : List UInt8} {input : FsmInput}
    (session : Collecting ctx got)
    (enough : sizeofManifest ≤ got.length + input.buf.data.length) :
    (ctx.collected input.buf.data).processed = sizeofManifest ∧
      (ctx.collected input.buf.data).scratch.mt = Manifest.ofBytes (got ++ input.buf.data) := by
  have few := session.unfinished
  have room : ctx.processed ≤ sizeofManifest := by
    rw [session.processed]
    exact le_of_lt few
  obtain ⟨processed, bytes⟩ := collected_complete input.buf.data room
    (by rw [session.processed]; exact enough)
  rw [session.processed, session.bytes] at bytes
  refine ⟨processed, Manifest.ext ?_⟩
  rw [bytes, Manifest.ofBytes_bytes (by rw [List.length_append]; exact enough), List.take_append,
    List.take_of_length_le (le_of_lt few)]

/-- **A manifest that does not pass** ends the session. -/
theorem fsm_collecting_refused {ctx : FsmCtx} {memory : σ} {got : List UInt8}
    {input : FsmInput} (session : Collecting ctx got)
    (enough : sizeofManifest ≤ got.length + input.buf.data.length)
    (refused : ¬ Accepted crypto sf ctx.version (Manifest.ofBytes (got ++ input.buf.data))) :
    fsm M crypto table sf input ctx memory =
      ⟨.invalidSignature, input.buf.data, (ctx.collected input.buf.data).cleaned, memory⟩ := by
  obtain ⟨_, manifest⟩ := collecting_complete session enough
  have refused' : ¬ Accepted crypto sf (ctx.collected input.buf.data).version
      (ctx.collected input.buf.data).scratch.mt := by
    rw [manifest]
    exact refused
  rw [fsm_collecting M crypto table sf input session, if_neg (not_lt.mpr enough),
    fsmVerifyManifest_refused _ _ refused']
  rfl

end Collecting

section Plain

variable (erased : Option UInt8) (crypto : Crypto) (table : SlotTable) (sf : Safestore)

/-- Rebooting is final. -/
theorem deliver_reboot (inputs : List FsmInput) {ctx : FsmCtx} (memory : Contents)
    (rebooting : ctx.state = .reboot) :
    deliver (plain (fullLayout erased)) crypto table sf inputs ctx memory = some (ctx, memory) := by
  induction inputs with
  | nil => rfl
  | cons input rest ih =>
      rw [deliver, fsm_reboot (plain (fullLayout erased)) crypto table sf input memory rebooting]
      exact ih

/-- **A chunk that ends beyond** what is expected fails. -/
theorem fsm_armed_beyond {ctx : FsmCtx} {memory start : Contents} {fed : List UInt8}
    {input : FsmInput} (session : Armed ctx memory start fed)
    (beyond : ctx.expected < fed.length + input.buf.data.length) :
    fsm (plain (fullLayout erased)) crypto table sf input ctx memory =
      ⟨.invalidSize, input.buf.data, ctx.cleaned, memory⟩ := by
  rw [fsm_receiveFirmware _ crypto table sf memory session.state, keepBuf, fsmReceiveFirmware,
    fsmReceiveData_plain erased session]
  simp only [session.processed, if_pos beyond]

/-- **A chunk that ends before** what is expected keeps the slot armed. -/
theorem fsm_armed_before {ctx : FsmCtx} {memory start : Contents} {fed : List UInt8}
    {input : FsmInput} (session : Armed ctx memory start fed)
    (before : fed.length + input.buf.data.length < ctx.expected) :
    ∃ ctx' memory', fsm (plain (fullLayout erased)) crypto table sf input ctx memory =
        ⟨.success, input.buf.data, ctx', memory'⟩ ∧
      Armed ctx' memory' start (fed ++ input.buf.data) ∧ ctx'.id = ctx.id ∧
      ctx'.expected = ctx.expected ∧ ctx'.version = ctx.version := by
  have within : ctx.processed + input.buf.data.length ≤ ctx.expected := by
    rw [session.processed]
    exact le_of_lt before
  have same := session.received within
  refine ⟨_, _, ?_, same, rfl, rfl, rfl⟩
  rw [fsm_receiveFirmware _ crypto table sf memory session.state, keepBuf, fsmReceiveFirmware,
    fsmReceiveData_plain erased session]
  simp only [session.processed]
  rw [if_neg (by omega), if_pos (by omega)]

/-- **A chunk that ends where it is expected** is verified: the machine reboots or fails. -/
theorem fsm_armed_exact {ctx : FsmCtx} {memory start : Contents} {fed : List UInt8}
    {input : FsmInput} (session : Armed ctx memory start fed)
    (complete : fed.length + input.buf.data.length = ctx.expected) :
    ∃ ctx', fsm (plain (fullLayout erased)) crypto table sf input ctx memory =
        ⟨slotVerdict crypto sf (writeRange (start ctx.id) 0 (fed ++ input.buf.data)),
          input.buf.data, ctx', Function.update start ctx.id
            (writeRange (start ctx.id) 0 (fed ++ input.buf.data))⟩ ∧
      ctx'.state = (if slotVerdict crypto sf
        (writeRange (start ctx.id) 0 (fed ++ input.buf.data)) = .success then .reboot else .idle) ∧
      ctx'.id = ctx.id ∧ ctx'.version = ctx.version ∧ ctx'.oldId = ctx.oldId ∧
      ctx'.processed = ctx.expected := by
  obtain ⟨ctx', verified, state, id, version, oldId, processed⟩ :=
    fsmVerifyFirmware_plain erased crypto sf
      (ctx.completed input.buf.data (pipelineBufferClear
        (writerPipeline (plain (fullLayout erased)))
        (sinkOf (slotObject ctx.id) start (fed ++ input.buf.data))).2)
      (Function.update start ctx.id (writeRange (start ctx.id) 0 (fed ++ input.buf.data)))
  have slot : ∀ sink : Sink Contents, (ctx.completed input.buf.data sink).id = ctx.id :=
    fun _ => rfl
  have count : ctx'.processed = ctx.expected := by
    rw [processed, ← complete, ← session.processed]
    rfl
  rw [slot, Function.update_self] at verified state
  refine ⟨ctx', ?_, state, id, version, oldId, count⟩
  rw [fsm_receiveFirmware _ crypto table sf memory session.state, fsmReceiveFirmware,
    fsmReceiveData_plain erased session]
  simp only [session.processed]
  rw [if_neg (by omega), if_neg (by omega)]
  exact congrArg (keepBuf input.buf.data) verified

/-- The state and the memory a delivery ends with, if no call fails. -/
def outcome (inputs : List FsmInput) (ctx : FsmCtx) (memory : Contents) :
    Option (FsmState × Contents) :=
  (deliver (plain (fullLayout erased)) crypto table sf inputs ctx memory).map
    fun final => (final.1.state, final.2)

theorem outcome_cons_error {input : FsmInput} {ctx : FsmCtx} {memory : Contents}
    (rest : List FsmInput)
    (failed : (fsm (plain (fullLayout erased)) crypto table sf input ctx memory).err ≠ .success) :
    outcome erased crypto table sf (input :: rest) ctx memory = none := by
  rw [outcome, deliver]
  simp only [if_pos failed]
  rfl

theorem outcome_cons {input : FsmInput} {ctx ctx' : FsmCtx} {memory memory' : Contents}
    {data : List UInt8} (rest : List FsmInput)
    (call : fsm (plain (fullLayout erased)) crypto table sf input ctx memory =
      ⟨.success, data, ctx', memory'⟩) :
    outcome erased crypto table sf (input :: rest) ctx memory =
      outcome erased crypto table sf rest ctx' memory' := by
  rw [outcome, deliver, call]
  simp only [ne_eq, not_true_eq_false, if_false]
  rfl

/-- The slot with the first `size` bytes of what was to be stored in it. -/
def imageIn (start : Contents) (id : MemId) (stored : List UInt8) (size : Nat) : Nat → UInt8 :=
  writeRange (start id) 0 (stored.take size)

/-- **From an armed slot on.** -/
theorem outcome_armed (inputs : List FsmInput) (nonempty : ∀ input ∈ inputs, input.buf.data ≠ [])
    {ctx : FsmCtx} {memory start : Contents} {fed : List UInt8}
    (session : Armed ctx memory start fed) :
    outcome erased crypto table sf inputs ctx memory =
      if inputs = [] ∨ fed.length + (streamOf inputs).length < ctx.expected then
        some (.receiveFirmware,
          (sinkOf (slotObject ctx.id) start (fed ++ streamOf inputs)).2.2)
      else if ctx.expected ∈ cuts fed.length inputs ∧ slotVerdict crypto sf
          (imageIn start ctx.id (fed ++ streamOf inputs) ctx.expected) = .success then
        some (.reboot, Function.update start ctx.id
          (imageIn start ctx.id (fed ++ streamOf inputs) ctx.expected))
      else none := by
  induction inputs generalizing ctx memory fed with
  | nil =>
      have memoryEq : memory = (sinkOf (slotObject ctx.id) start fed).2.2 :=
        congrArg (fun sink : Sink Contents => sink.2.2) session.sink
      rw [if_pos (Or.inl rfl), streamOf, List.flatMap_nil, List.append_nil, ← memoryEq,
        ← session.state]
      rfl
  | cons input rest ih =>
      have later : ∀ other ∈ rest, other.buf.data ≠ [] :=
        fun other member => nonempty other (List.mem_cons_of_mem _ member)
      have stream : streamOf (input :: rest) = input.buf.data ++ streamOf rest :=
        List.flatMap_cons
      have some' : ¬ (input :: rest = []) := List.cons_ne_nil _ _
      rw [stream, ← List.append_assoc, List.length_append, cuts]
      rcases lt_trichotomy (fed.length + input.buf.data.length) ctx.expected with
        before | complete | beyond
      · obtain ⟨ctx', memory', call, session', id, expected, _⟩ :=
          fsm_armed_before erased crypto table sf session before
        rw [outcome_cons erased crypto table sf rest call, ih later session', id, expected,
          List.length_append]
        have skip : ctx.expected ∈ (fed.length + input.buf.data.length) ::
            cuts (fed.length + input.buf.data.length) rest ↔
              ctx.expected ∈ cuts (fed.length + input.buf.data.length) rest := by
          rw [List.mem_cons]
          exact or_iff_right (by omega)
        have waits : (rest = [] ∨ fed.length + input.buf.data.length + (streamOf rest).length <
            ctx.expected) ↔ (input :: rest = [] ∨
              fed.length + (input.buf.data.length + (streamOf rest).length) < ctx.expected) := by
          rw [or_iff_right some', ← Nat.add_assoc]
          refine or_iff_right_of_imp fun last => ?_
          rw [last]
          exact before
        simp only [skip, waits]
      · obtain ⟨ctx', call, state, _⟩ :=
          fsm_armed_exact erased crypto table sf session complete
        have image : imageIn start ctx.id (fed ++ input.buf.data ++ streamOf rest) ctx.expected =
            writeRange (start ctx.id) 0 (fed ++ input.buf.data) := by
          rw [imageIn, List.take_left' (by rw [List.length_append]; exact complete)]
        have long : ¬ (input :: rest = [] ∨
            fed.length + (input.buf.data.length + (streamOf rest).length) < ctx.expected) := by
          rw [or_iff_right some']
          omega
        rw [if_neg long, image, complete]
        by_cases passes : slotVerdict crypto sf
            (writeRange (start ctx.id) 0 (fed ++ input.buf.data)) = .success
        · rw [passes] at call state
          rw [if_pos ⟨List.mem_cons_self, passes⟩, outcome_cons erased crypto table sf rest call,
            outcome, deliver_reboot erased crypto table sf rest _ state]
          exact congrArg some (Prod.ext state rfl)
        · rw [if_neg (fun both => passes both.2)]
          refine outcome_cons_error erased crypto table sf rest ?_
          rw [call]
          exact passes
      · have failed : (fsm (plain (fullLayout erased)) crypto table sf input ctx memory).err =
            .invalidSize := by
          rw [fsm_armed_beyond erased crypto table sf session beyond]
        have long : ¬ (input :: rest = [] ∨
            fed.length + (input.buf.data.length + (streamOf rest).length) < ctx.expected) := by
          rw [or_iff_right some']
          omega
        have missed : ctx.expected ∉ (fed.length + input.buf.data.length) ::
            cuts (fed.length + input.buf.data.length) rest := by
          intro member
          rcases List.mem_cons.mp member with same | inRest
          · omega
          · have bounds := cuts_bounds later inRest
            omega
        rw [if_neg long, if_neg (fun both => missed both.1)]
        refine outcome_cons_error erased crypto table sf rest ?_
        rw [failed]
        decide

/-- **A manifest that passes is armed**: what is stored is the stream so far. -/
theorem fsm_collecting_accepted {ctx : FsmCtx} {memory : Contents} {got : List UInt8}
    {input : FsmInput} (session : Collecting ctx got)
    (enough : sizeofManifest ≤ got.length + input.buf.data.length)
    (accepted : Accepted crypto sf ctx.version (Manifest.ofBytes (got ++ input.buf.data))) :
    ∃ ctx' memory', fsm (plain (fullLayout erased)) crypto table sf input ctx memory =
        ⟨.success, input.buf.data, ctx', memory'⟩ ∧
      Armed ctx' memory' (opened erased (oldestSlot table memory).id memory)
        (storedStream (got ++ input.buf.data)) ∧
      ctx'.id = (oldestSlot table memory).id ∧
      ctx'.expected = (Manifest.ofBytes (got ++ input.buf.data)).announced ∧
      ctx'.version = ctx.version ∧ ctx'.oldId = ctx.oldId := by
  have few := session.unfinished
  obtain ⟨processed, manifest⟩ := collecting_complete session enough
  have mt : (ctx.collected input.buf.data).configured.scratch.mt =
      (Manifest.ofBytes (got ++ input.buf.data)).full := by
    show ((ctx.collected input.buf.data).scratch.setMt _).mt = _
    rw [Scratch.setMt_mt, manifest]
  have accepted' : Accepted crypto sf (ctx.collected input.buf.data).version
      (ctx.collected input.buf.data).scratch.mt := by
    rw [manifest]
    exact accepted
  have short : (input.buf.data.drop (sizeofManifest - got.length)).length < 2 ^ 31 := by
    have bound := input.buf.short
    rw [List.length_drop]
    omega
  have stored : (ctx.collected input.buf.data).configured.scratch.mt.bytes ++
      input.buf.data.drop (sizeofManifest - got.length) =
        storedStream (got ++ input.buf.data) := by
    rw [mt, storedStream, List.drop_append, List.drop_of_length_le (le_of_lt few),
      List.nil_append]
  have begun := armed_begin erased table (ctx.collected input.buf.data).configured memory
    rfl short processed
  rw [stored] at begun
  refine ⟨_, _, ?_, begun, rfl, ?_, rfl, rfl⟩
  · rw [fsm_collecting (plain (fullLayout erased)) crypto table sf input session,
      if_neg (not_lt.mpr enough),
      fsmVerifyManifest_accepted _ _ accepted', fsmArm_plain erased table _ _ _ rfl rfl short,
      stored]
    rfl
  · rw [← Manifest.full_announced, ← mt]
    rfl

end Plain

/-! ### A signed update -/

/-- The manifest of an update to version `2` under `mirrorCrypto` and keys of zeros: `1024` bytes
of firmware behind it, announced as such, and signatures that repeat what they sign. -/
def signedManifest : List UInt8 :=
  (List.range 256).map fun address =>
    if address = 1 ∨ address = 65 ∨ address = 185 ∨ address = 249 then 4
    else if address = 5 ∨ address = 69 then 1
    else if address = 8 ∨ address = 72 then 2
    else 0

theorem signedManifest_length : signedManifest.length = 256 := by
  rw [signedManifest, List.length_map, List.length_range]

/-- The firmware of the update. -/
def zeroFirmware : List UInt8 := List.replicate 1024 0

/-- The safestore of the device. -/
def zeroSafestore : Safestore := ⟨⟨List.replicate 32 0, List.replicate 32 0⟩, 0, 0⟩

/-- The nonce of four zeros. -/
def zeroNonce : Nonce := ⟨List.replicate 4 0, rfl⟩

/-- A call with a buffer, and a generator that answers zeros. -/
def callWith (data : List UInt8) (short : data.length < 2 ^ 31) : FsmInput :=
  ⟨⟨data, short⟩, .ok zeroNonce⟩

/-- The manifest arrives in one call. -/
def manifestCall : FsmInput := callWith signedManifest (by rw [signedManifest_length]; decide)

/-- The firmware arrives in one call. -/
def firmwareCall : FsmInput := callWith zeroFirmware (by
  rw [zeroFirmware, List.length_replicate]
  decide)

theorem signedManifest_accepted :
    Accepted mirrorCrypto zeroSafestore 0 (Manifest.ofBytes signedManifest) := by decide

theorem signedManifest_announced : (Manifest.ofBytes signedManifest).announced = 1280 := by decide

theorem signedManifest_stored : storedStream signedManifest = signedManifest := by
  decide +kernel

/-- The verdict on the signed manifest with any firmware of its size. -/
theorem signedManifest_verdict (space : Nat → UInt8) {firmware : List UInt8}
    (length : firmware.length = 1024) :
    slotVerdict mirrorCrypto zeroSafestore
        (writeRange space 0 (signedManifest ++ firmware)) = .success ↔
      List.replicate 32 0 = mirrorCrypto.digest firmware := by
  have manifest : Manifest.ofBytes (signedManifest ++ firmware) =
      Manifest.ofBytes signedManifest :=
    Manifest.ofBytes_append (le_of_eq signedManifest_length.symm) _
  have total : (signedManifest ++ firmware).length = 1280 := by
    rw [List.length_append, signedManifest_length, length]
  have size : (Manifest.ofBytes signedManifest).getSize = 1024 := by decide
  have offset : (Manifest.ofBytes signedManifest).getOffset = 256 := by decide
  have digest : (Manifest.ofBytes signedManifest).getDigest = List.replicate 32 0 := by decide
  have behind : slice (signedManifest ++ firmware) 256 1024 = firmware := by
    rw [slice, List.drop_left' signedManifest_length, List.take_of_length_le (le_of_eq length)]
  refine (slotVerdict_image mirrorCrypto zeroSafestore space ?_ ?_ ?_ ?_).trans ?_
  · rw [total]
    decide
  · rw [manifest, size]
    decide
  · rw [manifest, size, offset, total]
  · rw [manifest, size, offset]
    decide
  · rw [manifest, size, offset, digest, behind]
    exact and_iff_right signedManifest_accepted.2

/-- The signed update passes in every slot. -/
theorem signedUpdate_passes (space : Nat → UInt8) :
    slotVerdict mirrorCrypto zeroSafestore
      (writeRange space 0 (signedManifest ++ zeroFirmware)) = .success :=
  (signedManifest_verdict space List.length_replicate).mpr (by decide)

/-- The manifest call of the signed update arms a slot. -/
theorem signedUpdate_armed {ctx : FsmCtx} (memory : Contents) (session : Collecting ctx [])
    (version : ctx.version = 0) :
    ∃ ctx' memory', fsm (plain (fullLayout none)) mirrorCrypto twoSlots zeroSafestore manifestCall
        ctx memory = ⟨.success, signedManifest, ctx', memory'⟩ ∧
      Armed ctx' memory' memory signedManifest ∧ ctx'.expected = 1280 := by
  have enough : sizeofManifest ≤ ([] : List UInt8).length + manifestCall.buf.data.length :=
    le_of_eq (by rw [List.length_nil, Nat.zero_add]; exact signedManifest_length.symm)
  obtain ⟨ctx', memory', call, armed, _, expected, _, _⟩ :=
    fsm_collecting_accepted none mirrorCrypto twoSlots zeroSafestore
      session enough (by rw [version]; exact signedManifest_accepted)
  have unwiped : opened none (oldestSlot twoSlots memory).id memory = memory :=
    Function.update_eq_self _ _
  have data : manifestCall.buf.data = signedManifest := rfl
  rw [unwiped, List.nil_append, data, signedManifest_stored] at armed
  rw [List.nil_append, data, signedManifest_announced] at expected
  exact ⟨ctx', memory', call, armed, expected⟩

/-- The firmware call of the signed update ends in a reboot. -/
theorem signedUpdate_reboots {ctx : FsmCtx} {memory start : Contents}
    (session : Armed ctx memory start signedManifest) (expected : ctx.expected = 1280) :
    (fsm (plain (fullLayout none)) mirrorCrypto twoSlots zeroSafestore firmwareCall ctx
      memory).ctx.state = .reboot := by
  have firmware : firmwareCall.buf.data.length = 1024 := List.length_replicate
  have complete : signedManifest.length + firmwareCall.buf.data.length = ctx.expected := by
    rw [expected, signedManifest_length, firmware]
  obtain ⟨ctx', call, state, _⟩ :=
    fsm_armed_exact none mirrorCrypto twoSlots zeroSafestore session complete
  rw [call]
  exact state.trans (if_pos (signedUpdate_passes _))

end Upkit
