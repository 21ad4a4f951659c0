/-
**Which objects a run touches, and when.**

Over any memory, with the list of its accesses (`logged`):

* `fsmArm_frames`, `fsmReceiveFirmware_frames` — arming opens and writes the oldest slot, a chunk of
  firmware writes to the object of the writer, and nothing else is touched.
* `access_after_manifest` — a slot is only touched in a session that has received a manifest that
  passes, as long as no empty chunk ends a download of exactly a manifest.
-/

import Upkit.Network.Sessions
import Upkit.Memory.Effects

namespace Upkit

open Bytes

/-! ### The accesses of a call -/

section Frames

variable {σ : Type} {M : MemoryInterface σ} {R : σ → σ → Prop} {opens : MemId → MemMode → Prop}
  {writes : MemObject → Prop} (frames : Frames M R opens writes) (crypto : Crypto)
  (table : SlotTable) (sf : Safestore)

include frames

theorem fsmInit_frames (readable : ∀ id, opens id .readOnly) (rngInit : PullError) (ctx : FsmCtx)
    (memory : σ) : R memory (fsmInit M table rngInit ctx memory).2.2 := by
  have scanned := getOrderedFirmware_frames frames readable table true true ctx.oldId ctx.version
    memory
  unfold fsmInit getNewestFirmware
  simp only
  split
  · exact scanned
  · split
    · exact scanned
    · exact scanned

theorem fsmVerifyFirmware_frames (readable : ∀ id, opens id .readOnly) (ctx : FsmCtx)
    (memory : σ) : R memory (fsmVerifyFirmware M crypto sf ctx memory).2.2 := by
  have opened := frames.opening ctx.id .readOnly memory (readable ctx.id)
  have verified := frames.trans opened (verifyObject_frames frames crypto
    (M.memoryOpen ctx.id .readOnly memory).2.1 sf ctx.scratch.bytes fsmBufferSize
    (M.memoryOpen ctx.id .readOnly memory).2.2)
  have closed := frames.trans verified
    (frames.closing (M.memoryOpen ctx.id .readOnly memory).2.1 _)
  unfold fsmVerifyFirmware
  simp only
  split
  · exact closed
  · exact closed

/-- **A chunk of firmware** touches the object of the writer only. -/
theorem fsmReceiveFirmware_frames (readable : ∀ id, opens id .readOnly) (data : List UInt8)
    (ctx : FsmCtx) (memory : σ) (full : ctx.pipeline = .buffer)
    (target : writes ctx.writerCtx.obj) :
    R memory (fsmReceiveFirmware M crypto sf data ctx memory).2.2 := by
  obtain ⟨kept, fed⟩ := sinkPipeline_frames frames data (ctx.bufferCtx, ctx.writerCtx, memory)
  have fed : R memory (feedSink M data (ctx.bufferCtx, ctx.writerCtx, memory)).2.2 := fed target
  have cleared := frames.trans fed (bufferClear_frames frames
    (feedSink M data (ctx.bufferCtx, ctx.writerCtx, memory)) (by
      show writes (sinkPipeline M data (ctx.bufferCtx, ctx.writerCtx, memory)).2.2.1.obj
      rw [kept]
      exact target))
  rw [fsmReceiveFirmware, fsmReceiveData_eq M data ctx memory full]
  simp only
  by_cases long : ctx.expected < ctx.processed + data.length
  · rw [if_pos long]
    exact frames.refl memory
  · rw [if_neg long]
    by_cases more : ctx.processed + data.length ≠ ctx.expected
    · rw [if_pos more]
      exact fed
    · rw [if_neg more]
      exact frames.trans (frames.trans cleared (frames.closing ctx.obj _))
        (fsmVerifyFirmware_frames frames crypto sf readable _ _)

theorem armedSink_frames {obj : MemObject} (writable : writes obj) (mt : Manifest)
    (rest : List UInt8) (buffer : BufferCtx) (memory : σ) :
    R memory (armedSink M obj mt rest buffer memory).2.2 := by
  obtain ⟨kept, manifest⟩ := sinkPipeline_frames frames mt.bytes
    (buffer, pipelineWriterInit obj, memory)
  refine frames.trans (manifest writable) ((sinkPipeline_frames frames rest _).2 ?_)
  rw [kept]
  exact writable

/-- **Arming** touches the slot that the scan finds. -/
theorem fsmArm_frames (readable : ∀ id, opens id .readOnly) (rest : List UInt8) (ctx : FsmCtx)
    (memory : σ) (full : ctx.pipeline = .buffer)
    (target : (getOldestFirmware M table false ctx.id 0 memory).1 = .success →
      opens (getOldestFirmware M table false ctx.id 0 memory).2.1.id .writeAll ∧
        ∀ obj : MemObject, obj.id = (getOldestFirmware M table false ctx.id 0 memory).2.1.id →
          writes obj) :
    R memory (fsmArm M table rest ctx memory).2.2 := by
  have scanned : R memory (getOldestFirmware M table false ctx.id 0 memory).2.2 :=
    getOrderedFirmware_frames frames readable table false false ctx.id 0 memory
  rw [fsmArm_eq M table rest ctx memory full]
  simp only
  by_cases failed : (getOldestFirmware M table false ctx.id 0 memory).1 = .success
  · obtain ⟨openable, writable⟩ := target failed
    have opened := frames.trans scanned (frames.opening _ _ _ openable)
    rw [if_neg (not_not.mpr failed)]
    by_cases success : (M.memoryOpen (getOldestFirmware M table false ctx.id 0 memory).2.1.id
        .writeAll (getOldestFirmware M table false ctx.id 0 memory).2.2).1 = .success
    · have writable := writable _ (M.open_id _ _ _ success)
      rw [if_neg (not_not.mpr success)]
      exact frames.trans opened (armedSink_frames frames writable _ _ _ _)
    · rw [if_pos success]
      exact opened
  · rw [if_pos failed]
    exact scanned

end Frames

/-- A scan whose accesses are listed finds the same slot. -/
theorem getOldestFirmware_logged {σ : Type} (M : MemoryInterface σ) (table : SlotTable)
    (id : MemId) (state : σ × List MemEvent) :
    (getOldestFirmware (logged M) table false id 0 state).1 =
        (getOldestFirmware M table false id 0 state.1).1 ∧
      (getOldestFirmware (logged M) table false id 0 state).2.1 =
        (getOldestFirmware M table false id 0 state.1).2.1 ∧
      (getOldestFirmware (logged M) table false id 0 state).2.2.1 =
        (getOldestFirmware M table false id 0 state.1).2.2 :=
  getOrderedFirmwareLoop_logged M false false table.slots _ state

/-- **Arming opens the oldest slot** with `WRITE_ALL`, once the scan has found it. -/
theorem fsmArm_touches {σ : Type} (M : MemoryInterface σ) (table : SlotTable)
    (rest : List UInt8) (ctx : FsmCtx) (state : σ × List MemEvent)
    (full : ctx.pipeline = .buffer)
    (scanned : (getOldestFirmware M table false ctx.id 0 state.1).1 = .success) :
    ∃ fresh, (fsmArm (logged M) table rest ctx state).2.2.2 = state.2 ++ fresh ∧
      .opened (getOldestFirmware M table false ctx.id 0 state.1).2.1.id .writeAll ∈ fresh := by
  have every := logged_frames M (fun _ => True)
  obtain ⟨success, found, _⟩ := getOldestFirmware_logged M table ctx.id state
  obtain ⟨before, scans, _⟩ := getOrderedFirmware_frames every (fun _ => trivial) table false
    false ctx.id 0 state
  have scans : (getOldestFirmware (logged M) table false ctx.id 0 state).2.2.2 =
      state.2 ++ before := scans
  have opens : ∀ (id : MemId) (state : σ × List MemEvent),
      ((logged M).memoryOpen id .writeAll state).2.2.2 = state.2 ++ [.opened id .writeAll] :=
    fun _ _ => rfl
  rw [fsmArm_eq (logged M) table rest ctx state full]
  simp only [success, scanned, ne_eq, not_true_eq_false, if_false, found]
  split
  · refine ⟨before ++ [.opened _ .writeAll], ?_, List.mem_append_right _ List.mem_cons_self⟩
    rw [opens, scans, List.append_assoc]
  · obtain ⟨fed, feeds, _⟩ := armedSink_frames every (fun _ _ => trivial) ctx.scratch.mt rest
      ctx.bufferCtx ((logged M).memoryOpen
        (getOldestFirmware M table false ctx.id 0 state.1).2.1.id .writeAll
        (getOldestFirmware (logged M) table false ctx.id 0 state).2.2).2.2
    refine ⟨before ++ [.opened _ .writeAll] ++ fed, ?_,
      List.mem_append_left _ (List.mem_append_right _ List.mem_cons_self)⟩
    rw [feeds, opens, scans, List.append_assoc, List.append_assoc, List.append_assoc]

/-! ### The context of a call -/

section Contexts

variable {σ : Type} (M : MemoryInterface σ) (crypto : Crypto) (table : SlotTable)
  (sf : Safestore)

/-- Nothing is asked of a memory that every access is allowed on. -/
theorem trivial_frames : Frames M (fun _ _ => True) (fun _ _ => True) (fun _ => True) where
  refl := fun _ => trivial
  trans := fun _ _ => trivial
  opening := fun _ _ _ _ => trivial
  reading := fun _ _ _ _ => trivial
  writing := fun _ _ _ _ _ => trivial
  closing := fun _ _ => trivial

/-- A sink keeps writing to its object. -/
theorem feedSink_obj (data : List UInt8) (sink : Sink σ) :
    (feedSink M data sink).2.1.obj = sink.2.1.obj :=
  (sinkPipeline_frames (trivial_frames M) data sink).1

/-- What arming leaves: nothing, or a session that writes to the slot the scan found. -/
theorem fsmArm_ctx (rest : List UInt8) (ctx : FsmCtx) (memory : σ)
    (full : ctx.pipeline = .buffer) :
    (fsmArm M table rest ctx memory).2.1.oldId = ctx.oldId ∧
      (fsmArm M table rest ctx memory).2.1.version = ctx.version ∧
      ((fsmArm M table rest ctx memory).2.1.state = .clean ∨
        ((fsmArm M table rest ctx memory).2.1.state = .receiveFirmware ∧
          (fsmArm M table rest ctx memory).2.1.pipeline = .buffer ∧
          (fsmArm M table rest ctx memory).2.1.processed = ctx.processed + rest.length ∧
          (getOldestFirmware M table false ctx.id 0 memory).1 = .success ∧
          (fsmArm M table rest ctx memory).2.1.writerCtx.obj.id =
            (getOldestFirmware M table false ctx.id 0 memory).2.1.id)) := by
  rw [fsmArm_eq M table rest ctx memory full]
  simp only
  by_cases scanned : (getOldestFirmware M table false ctx.id 0 memory).1 = .success
  · rw [if_neg (not_not.mpr scanned)]
    by_cases opened : (M.memoryOpen (getOldestFirmware M table false ctx.id 0 memory).2.1.id
        .writeAll (getOldestFirmware M table false ctx.id 0 memory).2.2).1 = .success
    · rw [if_neg (not_not.mpr opened)]
      refine ⟨rfl, rfl, Or.inr ⟨rfl, full, rfl, scanned, ?_⟩⟩
      show (feedSink M rest (feedSink M ctx.scratch.mt.bytes _)).2.1.obj.id = _
      rw [feedSink_obj, feedSink_obj]
      exact M.open_id _ _ _ opened
    · rw [if_pos opened]
      exact ⟨rfl, rfl, Or.inl rfl⟩
  · rw [if_pos scanned]
    exact ⟨rfl, rfl, Or.inl rfl⟩

/-- What a chunk of firmware leaves: a failed session, one that goes on, or one whose image has
been verified. -/
theorem fsmReceiveFirmware_ctx (data : List UInt8) (ctx : FsmCtx) (memory : σ)
    (armed : ctx.state = .receiveFirmware) (full : ctx.pipeline = .buffer) :
    (fsmReceiveFirmware M crypto sf data ctx memory).2.1.oldId = ctx.oldId ∧
      (fsmReceiveFirmware M crypto sf data ctx memory).2.1.version = ctx.version ∧
      ((fsmReceiveFirmware M crypto sf data ctx memory).2.1.state = .clean ∨
        ((fsmReceiveFirmware M crypto sf data ctx memory).2.1.state = .receiveFirmware ∧
          (fsmReceiveFirmware M crypto sf data ctx memory).2.1.pipeline = .buffer ∧
          (fsmReceiveFirmware M crypto sf data ctx memory).2.1.processed =
            ctx.processed + data.length ∧
          (fsmReceiveFirmware M crypto sf data ctx memory).2.1.writerCtx.obj =
            ctx.writerCtx.obj) ∨
        (ctx.processed + data.length = ctx.expected ∧
          (fsmReceiveFirmware M crypto sf data ctx memory).2.1.processed = ctx.expected ∧
          ((fsmReceiveFirmware M crypto sf data ctx memory).2.1.state = .idle ∨
            (fsmReceiveFirmware M crypto sf data ctx memory).2.1.state = .reboot))) := by
  rw [fsmReceiveFirmware, fsmReceiveData_eq M data ctx memory full]
  simp only
  by_cases long : ctx.expected < ctx.processed + data.length
  · rw [if_pos long]
    exact ⟨rfl, rfl, Or.inl rfl⟩
  · rw [if_neg long]
    by_cases more : ctx.processed + data.length = ctx.expected
    · rw [if_neg (not_not.mpr more)]
      simp only [fsmVerifyFirmware]
      split
      · exact ⟨rfl, rfl, Or.inr (Or.inr ⟨more, more, Or.inl rfl⟩)⟩
      · exact ⟨rfl, rfl, Or.inr (Or.inr ⟨more, more, Or.inr rfl⟩)⟩
    · rw [if_pos more]
      exact ⟨rfl, rfl, Or.inr (Or.inl ⟨armed, full, rfl,
        feedSink_obj M data (ctx.bufferCtx, ctx.writerCtx, memory)⟩)⟩

/-- A call that arms a slot: it completes a manifest that passes. -/
def Arms (input : FsmInput) (ctx : FsmCtx) : Prop :=
  ctx.state = .receiveManifest ∧ ctx.processed ≤ sizeofManifest ∧
    sizeofManifest ≤ ctx.processed + input.buf.data.length ∧
    Accepted crypto sf ctx.version (ctx.collected input.buf.data).scratch.mt

/-- The manifest call, over any memory. -/
theorem fsm_receiveManifest_cases {input : FsmInput} {ctx : FsmCtx} (memory : σ)
    (state : ctx.state = .receiveManifest) :
    ((fsm M crypto table sf input ctx memory).memory = memory ∧
        ((fsm M crypto table sf input ctx memory).ctx.state = .clean ∨
          (ctx.processed + input.buf.data.length < sizeofManifest ∧
            (fsm M crypto table sf input ctx memory).ctx.state = .receiveManifest))) ∨
      (Arms crypto sf input ctx ∧ fsm M crypto table sf input ctx memory =
        keepBuf input.buf.data (fsmArm M table
          (input.buf.data.drop (sizeofManifest - ctx.processed))
          (ctx.collected input.buf.data).configured memory)) := by
  have call := @fsm_manifestState _ M crypto table sf input ctx memory state
  by_cases past : sizeofManifest < ctx.processed
  · rw [call, if_pos past]
    exact Or.inl ⟨rfl, Or.inl rfl⟩
  by_cases few : ctx.processed + input.buf.data.length < sizeofManifest
  · rw [call, if_neg past, if_pos few]
    exact Or.inl ⟨rfl, Or.inr ⟨few, state⟩⟩
  by_cases accepted : Accepted crypto sf (ctx.collected input.buf.data).version
      (ctx.collected input.buf.data).scratch.mt
  · rw [if_neg past, if_neg few, fsmVerifyManifest_accepted M table accepted] at call
    exact Or.inr ⟨⟨state, not_lt.mp past, not_lt.mp few, accepted⟩, call⟩
  · rw [call, if_neg past, if_neg few, fsmVerifyManifest_refused M table accepted]
    exact Or.inl ⟨rfl, Or.inl rfl⟩

end Contexts

/-! ### Nothing is touched before a manifest passes -/

section Authentic

variable {σ : Type} (M : MemoryInterface σ) (crypto : Crypto) (table : SlotTable)
  (sf : Safestore)

/-- What a session has received begins with a manifest that passes on a device at `version`. -/
def ManifestPasses (version : Nat) (received : List UInt8) : Prop :=
  sizeofManifest ≤ received.length ∧ Accepted crypto sf version (Manifest.ofBytes received)

/-- A call touches a slot only in a session that has received a manifest that passes. -/
def AuthenticAccess (input : FsmInput) (ctx : FsmCtx) (state : σ × List MemEvent)
    (payload : List UInt8) : Prop :=
  ∃ fresh, (fsm (logged M) crypto table sf input ctx state).memory.2 = state.2 ++ fresh ∧
    ∀ event ∈ fresh, event.touches ≠ none →
      ctx.Receiving ∧ ManifestPasses crypto sf ctx.version (payload ++ input.buf.data)

/-- A download that consists of a manifest only is not completed by an empty chunk. -/
def NoEmptyEnd (input : FsmInput) (ctx : FsmCtx) : Prop :=
  ¬ (ctx.state = .receiveFirmware ∧ input.buf.data = [] ∧ ctx.processed = sizeofManifest ∧
    ctx.expected = sizeofManifest)

/-- An armed slot of a session that has received a manifest that passes. -/
def Authentic (ctx : FsmCtx) (_ : σ) (payload : List UInt8) : Prop :=
  ManifestPasses crypto sf ctx.version payload ∧ ctx.pipeline = .buffer ∧
    sizeofManifest ≤ ctx.processed

variable {crypto sf} in
/-- More of a stream does not change its manifest. -/
theorem ManifestPasses.append {version : Nat} {received : List UInt8}
    (passes : ManifestPasses crypto sf version received) (more : List UInt8) :
    ManifestPasses crypto sf version (received ++ more) := by
  refine ⟨by rw [List.length_append]; exact Nat.le_add_right_of_le passes.1, ?_⟩
  rw [Manifest.ofBytes_append passes.1]
  exact passes.2

/-- The call that completes a manifest that passes. -/
theorem fsm_arming {input : FsmInput} {ctx : FsmCtx} {payload : List UInt8} (memory : σ)
    (session : Collecting ctx payload)
    (enough : sizeofManifest ≤ payload.length + input.buf.data.length)
    (accepted : Accepted crypto sf ctx.version (Manifest.ofBytes (payload ++ input.buf.data))) :
    fsm M crypto table sf input ctx memory =
      keepBuf input.buf.data (fsmArm M table
        (input.buf.data.drop (sizeofManifest - payload.length))
        (ctx.collected input.buf.data).configured memory) := by
  obtain ⟨_, manifest⟩ := collecting_complete session enough
  have accepted' : Accepted crypto sf (ctx.collected input.buf.data).version
      (ctx.collected input.buf.data).scratch.mt := by
    rw [manifest]
    exact accepted
  rw [fsm_collecting M crypto table sf input session, if_neg (not_lt.mpr enough),
    fsmVerifyManifest_accepted M table accepted']

/-- Arming keeps a session authentic. -/
theorem authentic_arms (input : FsmInput) (ctx : FsmCtx) (memory : σ) (payload : List UInt8)
    (session : Collecting ctx payload)
    (enough : sizeofManifest ≤ payload.length + input.buf.data.length)
    (accepted : Accepted crypto sf ctx.version (Manifest.ofBytes (payload ++ input.buf.data))) :
    Tracked (Authentic crypto sf) (fsm M crypto table sf input ctx memory).ctx
      (fsm M crypto table sf input ctx memory).memory (payload ++ input.buf.data) 0 := by
  have processed := (collecting_complete session enough).1
  obtain ⟨_, version, outcome⟩ := fsmArm_ctx M table
    (input.buf.data.drop (sizeofManifest - payload.length))
    (ctx.collected input.buf.data).configured memory rfl
  rw [fsm_arming M crypto table sf memory session enough accepted]
  unfold Tracked keepBuf
  rcases outcome with cleaned | ⟨armed, full, count, _, _⟩
  · simp only [cleaned]
  · simp only [armed]
    refine ⟨trivial, ⟨by rw [List.length_append]; exact enough, ?_⟩, full, ?_⟩
    · rw [version]
      exact accepted
    · rw [count]
      exact Nat.le_add_right_of_le (le_of_eq processed.symm)

/-- A chunk of firmware keeps a session authentic. -/
theorem authentic_receives (input : FsmInput) (ctx : FsmCtx) (memory : σ) (payload : List UInt8)
    (state : ctx.state = .receiveFirmware) (authentic : Authentic crypto sf ctx memory payload)
    (ends : NoEmptyEnd input ctx) :
    Tracked (Authentic crypto sf) (fsm M crypto table sf input ctx memory).ctx
      (fsm M crypto table sf input ctx memory).memory (payload ++ input.buf.data) 0 := by
  obtain ⟨passes, full, whole⟩ := authentic
  obtain ⟨_, version, outcome⟩ :=
    fsmReceiveFirmware_ctx M crypto sf input.buf.data ctx memory state full
  rw [fsm_receiveFirmware M crypto table sf memory state]
  unfold Tracked keepBuf
  rcases outcome with cleaned | ⟨armed, full', count, _⟩ | ⟨complete, count, idle | reboot⟩
  · simp only [cleaned]
  · simp only [armed]
    refine ⟨trivial, ?_, full', ?_⟩
    · rw [version]
      exact passes.append input.buf.data
    · rw [count]
      omega
  · simp only [idle]
    refine Or.inr ?_
    -- The count is left behind, and only an empty chunk could leave it at a manifest.
    by_contra few
    have exact' : ctx.expected = sizeofManifest := by omega
    refine ends ⟨state, List.length_eq_zero_iff.mp (by omega), by omega, exact'⟩
  · simp only [reboot]

/-- **A call of a tracked session** touches a slot only after a manifest that passes. -/
theorem authenticAccess_of_tracked (input : FsmInput) {ctx : FsmCtx} {state : σ × List MemEvent}
    {payload : List UInt8} {began : Nat}
    (tracked : Tracked (Authentic crypto sf) ctx state payload began) :
    AuthenticAccess M crypto table sf input ctx state payload := by
  have every := logged_frames M (fun _ => True)
  have quiet : (fsm (logged M) crypto table sf input ctx state).memory = state →
      AuthenticAccess M crypto table sf input ctx state payload := by
    intro same
    exact ⟨[], by rw [same, List.append_nil], fun _ member => absurd member List.not_mem_nil⟩
  unfold Tracked at tracked
  cases phase : ctx.state with
  | clean => exact quiet (fsm_early (logged M) crypto table sf input state (Or.inl phase)).1
  | idle => exact quiet (fsm_early (logged M) crypto table sf input state (Or.inr (Or.inl phase))).1
  | startUpdate =>
      exact quiet (fsm_early (logged M) crypto table sf input state (Or.inr (Or.inr phase))).1
  | receiveManifest =>
      rw [phase] at tracked
      rcases tracked with ⟨session, _⟩ | ⟨past, _⟩
      · by_cases few : payload.length + input.buf.data.length < sizeofManifest
        · refine quiet ?_
          rw [fsm_collecting (logged M) crypto table sf input session, if_pos few]
          rfl
        · have enough := not_lt.mp few
          by_cases accepted : Accepted crypto sf ctx.version
              (Manifest.ofBytes (payload ++ input.buf.data))
          · obtain ⟨fresh, grows, _⟩ := fsmArm_frames every table (fun _ => trivial)
              (input.buf.data.drop (sizeofManifest - payload.length))
              (ctx.collected input.buf.data).configured state rfl
              (fun _ => ⟨trivial, fun _ _ _ _ => trivial⟩)
            refine ⟨fresh, ?_, fun _ _ _ => ⟨Or.inl phase, ?_, accepted⟩⟩
            · rw [fsm_arming (logged M) crypto table sf state session enough accepted]
              exact grows
            · rw [List.length_append]
              exact enough
          · refine quiet ?_
            rw [fsm_collecting_refused (logged M) crypto table sf session enough accepted]
      · refine quiet ?_
        rw [fsm_past (logged M) crypto table sf input state phase past]
  | receiveFirmware =>
      rw [phase] at tracked
      obtain ⟨_, passes, full, _⟩ := tracked
      obtain ⟨fresh, grows, _⟩ := fsmReceiveFirmware_frames every crypto sf (fun _ => trivial)
        input.buf.data ctx state full (fun _ _ => trivial)
      refine ⟨fresh, ?_, fun _ _ _ => ⟨Or.inr phase, passes.append input.buf.data⟩⟩
      rw [fsm_receiveFirmware (logged M) crypto table sf state phase]
      exact grows
  | verifyManifest => rw [phase] at tracked; exact False.elim tracked
  | verifyFirmware => rw [phase] at tracked; exact False.elim tracked
  | reboot =>
      refine quiet ?_
      unfold fsm
      rw [phase]

/-- A call in a session that receives no manifest that passes. -/
def NoManifest (input : FsmInput) (ctx : FsmCtx) (_ : σ) (payload : List UInt8) : Prop :=
  ¬ (ctx.Receiving ∧ ManifestPasses crypto sf ctx.version (payload ++ input.buf.data))

/-- Without a manifest that passes no slot is ever armed. -/
theorem tracked_noManifest {start memory : σ} {ctx : FsmCtx} {payload : List UInt8} {began : Nat}
    (session : Session M crypto table sf (NoManifest crypto sf) start ctx memory payload began) :
    Tracked (fun _ _ _ => False) ctx memory payload began := by
  refine tracked_of_session M crypto table sf ?_ ?_ session
  · intro input ctx memory payload session enough accepted refused
    exact absurd ⟨Or.inl session.state, by rw [List.length_append]; exact enough, accepted⟩ refused
  · exact fun _ _ _ _ _ impossible _ => False.elim impossible

/-- A call in such a session leaves the memory alone. -/
theorem fsm_noManifest {input : FsmInput} {ctx : FsmCtx} {memory : σ} {payload : List UInt8}
    {began : Nat} (tracked : Tracked (fun _ _ _ => False) ctx memory payload began)
    (refused : NoManifest crypto sf input ctx memory payload) :
    (fsm M crypto table sf input ctx memory).memory = memory := by
  unfold Tracked at tracked
  cases phase : ctx.state with
  | clean => exact (fsm_early M crypto table sf input memory (Or.inl phase)).1
  | idle => exact (fsm_early M crypto table sf input memory (Or.inr (Or.inl phase))).1
  | startUpdate => exact (fsm_early M crypto table sf input memory (Or.inr (Or.inr phase))).1
  | receiveManifest =>
      rw [phase] at tracked
      rcases tracked with ⟨collecting, _⟩ | ⟨past, _⟩
      · by_cases few : payload.length + input.buf.data.length < sizeofManifest
        · rw [fsm_collecting M crypto table sf input collecting, if_pos few]
          rfl
        · have enough := not_lt.mp few
          rw [fsm_collecting_refused M crypto table sf collecting enough fun accepted =>
            refused ⟨Or.inl phase, by rw [List.length_append]; exact enough, accepted⟩]
      · rw [fsm_past M crypto table sf input memory phase past]
  | receiveFirmware => rw [phase] at tracked; exact False.elim tracked.2
  | verifyManifest => rw [phase] at tracked; exact False.elim tracked
  | verifyFirmware => rw [phase] at tracked; exact False.elim tracked
  | reboot =>
      unfold fsm
      rw [phase]

/-- **Nothing is touched before a manifest passes**, in every run without an empty chunk at the end
of a download of exactly a manifest. `fsm_init` touches nothing, and a run of any calls in which no
manifest passes leaves alone whatever opening for reading, reading and closing leave alone. -/
theorem access_after_manifest :
    (∀ (rngInit : PullError) (ctx : FsmCtx) (state : σ × List MemEvent),
        Extends (fun event => event.touches = none) state
          (fsmInit (logged M) table rngInit ctx state).2.2) ∧
      (∀ (start state : σ × List MemEvent) (ctx : FsmCtx) (payload : List UInt8) (began : Nat)
        (input : FsmInput),
        Session (logged M) crypto table sf (fun input ctx _ _ => NoEmptyEnd input ctx) start ctx
          state payload began →
        AuthenticAccess M crypto table sf input ctx state payload) ∧
      ∀ (α : Type) (view : σ → α),
        Frames M (fun before after => view before = view after)
          (fun _ mode => mode = .readOnly) (fun _ => False) →
        ∀ (start memory : σ) (ctx : FsmCtx) (payload : List UInt8) (began : Nat),
          Session M crypto table sf (NoManifest crypto sf) start ctx memory payload began →
          view memory = view start := by
  refine ⟨?_, ?_, ?_⟩
  · intro rngInit ctx state
    exact fsmInit_frames (logged_frames M fun event => event.touches = none) table
      (fun _ => rfl) rngInit ctx state
  · intro start state ctx payload began input session
    refine authenticAccess_of_tracked M crypto table sf input
      (tracked_of_session (logged M) crypto table sf ?_ ?_ session)
    · intro input ctx memory payload session enough accepted _
      exact authentic_arms (logged M) crypto table sf input ctx memory payload session enough
        accepted
    · exact authentic_receives (logged M) crypto table sf
  · intro α view frames start memory ctx payload began session
    induction session with
    | init rngInit ctx => exact (fsmInit_frames frames table (fun _ => rfl) rngInit ctx start).symm
    | early input session _ refused ih =>
        rw [← ih, fsm_noManifest M crypto table sf
          (tracked_noManifest M crypto table sf session) refused]
    | chunk input session _ refused ih =>
        rw [← ih, fsm_noManifest M crypto table sf
          (tracked_noManifest M crypto table sf session) refused]

end Authentic

/-! ### A manifest that outlives its session -/

/-- A plain memory whose accesses are listed. -/
abbrev loggedPlain (erased : Option UInt8) : MemoryInterface (Contents × List MemEvent) :=
  logged (plain (fullLayout erased))

/-- The manifest of an update to version `2` that announces no firmware, signed as
`signedManifest` is. -/
def emptyManifest : List UInt8 :=
  (List.range 256).map fun address =>
    if address = 5 ∨ address = 69 then 1
    else if address = 8 ∨ address = 72 then 2
    else 0

theorem emptyManifest_length : emptyManifest.length = 256 := by
  rw [emptyManifest, List.length_map, List.length_range]

def emptyManifestCall : FsmInput :=
  callWith emptyManifest (by rw [emptyManifest_length]; decide)

/-- A call without data. -/
def emptyCall : FsmInput := callWith [] (by decide)

theorem emptyManifest_accepted :
    Accepted mirrorCrypto zeroSafestore 0 (Manifest.ofBytes emptyManifest) := by decide

theorem emptyManifest_full :
    (Manifest.ofBytes emptyManifest).full = Manifest.ofBytes emptyManifest := by decide +kernel

theorem emptyManifest_bare :
    (Manifest.ofBytes emptyManifest).getSize = 0 ∧
      (Manifest.ofBytes emptyManifest).announced = sizeofManifest := by decide

/-- A session armed by a call that ends with the manifest: all of it is still held back. -/
structure ManifestOnly (mt : Manifest) (ctx : FsmCtx) : Prop where
  state : ctx.state = .receiveFirmware
  pipeline : ctx.pipeline = .buffer
  processed : ctx.processed = sizeofManifest
  expected : ctx.expected = mt.announced
  manifest : ctx.scratch.mt = mt
  buffer : ctx.bufferCtx = ⟨mt.bytes⟩
  writer : ctx.writerCtx = pipelineWriterInit (slotObject ctx.id)

/-- A manifest is too short to be handed to the writer. -/
theorem armedSink_manifest {σ : Type} (M : MemoryInterface σ) (obj : MemObject) (mt : Manifest)
    (memory : σ) :
    armedSink M obj mt [] pipelineBufferInit memory =
      (⟨mt.bytes⟩, pipelineWriterInit obj, memory) := by
  have short : mt.bytes.length ≤ bufferLen := by
    rw [mt.length_eq]
    decide
  have held : pipelineBufferInit.data ++ mt.bytes = mt.bytes := List.nil_append _
  rw [armedSink, feedSink, feedSink, sinkPipeline_nil, sinkPipeline,
    bufferPipeline_eq _ _ _ _ (Nat.zero_le _), held, Blocks.heldBack_short short,
    Blocks.fullBlocks_short short]
  rfl

/-- **A call that is the manifest** arms the slot that the scan finds, and writes nothing yet. -/
theorem manifestOnly_scanned {σ : Type} (M : MemoryInterface σ) {crypto : Crypto}
    {table : SlotTable} {sf : Safestore} {input : FsmInput} {ctx : FsmCtx} {memory scanned wiped : σ}
    {found : Candidate} (session : Collecting ctx [])
    (length : input.buf.data.length = sizeofManifest)
    (accepted : Accepted crypto sf ctx.version (Manifest.ofBytes input.buf.data))
    (scan : getOldestFirmware M table false ctx.id 0 memory = (.success, found, scanned))
    (opening : M.memoryOpen found.id .writeAll scanned = (.success, slotObject found.id, wiped)) :
    let result := fsm M crypto table sf input ctx memory
    ManifestOnly (Manifest.ofBytes input.buf.data).full result.ctx ∧
      result.ctx.version = ctx.version ∧ result.ctx.oldId = ctx.oldId ∧ result.memory = wiped := by
  have enough : sizeofManifest ≤ ([] : List UInt8).length + input.buf.data.length := by
    rw [List.length_nil, Nat.zero_add, length]
  obtain ⟨processed, manifest⟩ := collecting_complete session enough
  rw [List.nil_append] at manifest
  have rest : input.buf.data.drop (sizeofManifest - ([] : List UInt8).length) = [] :=
    List.drop_eq_nil_of_le (le_of_eq length)
  have mt : (ctx.collected input.buf.data).configured.scratch.mt =
      (Manifest.ofBytes input.buf.data).full := by
    show ((ctx.collected input.buf.data).scratch.setMt _).mt = _
    rw [Scratch.setMt_mt, manifest]
  have scan' : getOldestFirmware M table false (ctx.collected input.buf.data).configured.id 0
      memory = (.success, found, scanned) := scan
  intro result
  have call : result = keepBuf input.buf.data (fsmArm M table []
      (ctx.collected input.buf.data).configured memory) := by
    show fsm M crypto table sf input ctx memory = _
    rw [fsm_arming M crypto table sf memory session enough accepted, rest]
  rw [call, fsmArm_eq _ _ _ _ _ rfl]
  simp only [scan', opening, ne_eq, not_true_eq_false, if_false, mt,
    show (ctx.collected input.buf.data).configured.bufferCtx = pipelineBufferInit from rfl,
    armedSink_manifest]
  refine ⟨⟨rfl, rfl, processed, ?_, mt, rfl, rfl⟩, rfl, rfl, rfl⟩
  show ((ctx.collected input.buf.data).configured.scratch.mt.getOffset +
    (ctx.collected input.buf.data).configured.scratch.mt.getPropSize) % 2 ^ 32 = _
  rw [mt]
  rfl

/-- On a plain memory that is the oldest slot. -/
theorem manifestOnly_armed (erased : Option UInt8) {crypto : Crypto} {table : SlotTable}
    {sf : Safestore} {input : FsmInput} {ctx : FsmCtx} (state : Contents × List MemEvent)
    (session : Collecting ctx []) (length : input.buf.data.length = sizeofManifest)
    (accepted : Accepted crypto sf ctx.version (Manifest.ofBytes input.buf.data)) :
    let result := fsm (loggedPlain erased) crypto table sf input ctx state
    ManifestOnly (Manifest.ofBytes input.buf.data).full result.ctx ∧
      result.ctx.version = ctx.version ∧ result.ctx.oldId = ctx.oldId ∧
      result.memory.1 = opened erased (oldestSlot table state.1).id state.1 := by
  obtain ⟨success, found, memory⟩ := getOldestFirmware_logged (plain (fullLayout erased)) table
    ctx.id state
  rw [getOldestFirmware_plain] at success found memory
  have opening : ∀ (id : MemId) (state : Contents × List MemEvent),
      (loggedPlain erased).memoryOpen id .writeAll state = (.success, slotObject id,
        opened erased id state.1, state.2 ++ [.opened id .writeAll]) := by
    intro id state
    have base := plain_open_writeAll (fullLayout erased) state.1 id
    show ((plain (fullLayout erased)).memoryOpen id .writeAll state.1 |>.1, _, _, _) = _
    rw [base]
    rfl
  have scan : getOldestFirmware (loggedPlain erased) table false ctx.id 0 state =
      (.success, oldestSlot table state.1,
        (getOldestFirmware (loggedPlain erased) table false ctx.id 0 state).2.2) :=
    Prod.ext success (Prod.ext found rfl)
  obtain ⟨armed, version, running, wiped⟩ := manifestOnly_scanned (loggedPlain erased) session
    length accepted scan (opening _ _)
  refine ⟨armed, version, running, ?_⟩
  rw [wiped]
  exact congrArg (opened erased (oldestSlot table state.1).id) memory

theorem loggedPlain_open (erased : Option UInt8) (id : MemId) (state : Contents × List MemEvent) :
    (loggedPlain erased).memoryOpen id .readOnly state =
      (.success, ⟨id, .readOnly⟩, state.1, state.2 ++ [.opened id .readOnly]) := rfl

theorem loggedPlain_close (erased : Option UInt8) (obj : MemObject)
    (state : Contents × List MemEvent) :
    (loggedPlain erased).memoryClose obj state = (.success, state) := rfl

theorem readFirmwareManifest_loggedPlain (erased : Option UInt8) (obj : MemObject)
    (memory : Contents) (log : List MemEvent) :
    readFirmwareManifest (loggedPlain erased) obj (memory, log) =
      (.success, manifestAt memory obj.id, memory, log) := by
  have read : (loggedPlain erased).memoryRead obj sizeofManifest 0 (memory, log) =
      (((plain (fullLayout erased)).memoryRead obj sizeofManifest 0 memory).1,
        ((plain (fullLayout erased)).memoryRead obj sizeofManifest 0 memory).2.1,
        ((plain (fullLayout erased)).memoryRead obj sizeofManifest 0 memory).2.2, log) := rfl
  rw [plain_read (fullLayout erased) memory (by
    rw [Nat.zero_add]
    exact sizeofManifest_le_full erased obj.id)] at read
  rw [readFirmwareManifest, read]
  rfl

/-- An empty chunk has the slot verified. A manifest that covers nothing fails there, and the count
and the manifest stay. -/
theorem bareManifest_fails {crypto : Crypto} {table : SlotTable} {sf : Safestore} {mt : Manifest}
    (valid : verifyManifest crypto mt sf = .success) (bare : mt.getSize = 0)
    (announced : mt.announced = sizeofManifest) {ctx : FsmCtx}
    (state : Contents × List MemEvent) (session : ManifestOnly mt ctx) :
    let after := (fsm (loggedPlain none) crypto table sf emptyCall ctx state).ctx
    after.state = .idle ∧ after.processed = sizeofManifest ∧ after.version = ctx.version ∧
      after.scratch.mt = mt := by
  obtain ⟨memory, log⟩ := state
  have nothing : mt.getOffset = (mt.getOffset + mt.getSize) % 2 ^ 32 := by
    rw [bare, Nat.add_zero, Nat.mod_eq_of_lt mt.getOffset_lt]
  -- The slot holds the manifest, which passes but covers nothing.
  have verified : ∀ (id : MemId) (buffer : List UInt8) (log : List MemEvent),
      verifyObject (loggedPlain none) crypto ⟨id, .readOnly⟩ sf buffer fsmBufferSize
          (Function.update memory id (writeRange (memory id) 0 mt.bytes), log) =
        (.memoryRead, buffer, Function.update memory id (writeRange (memory id) 0 mt.bytes),
          log) := by
    intro id buffer log
    have manifest : manifestAt (Function.update memory id (writeRange (memory id) 0 mt.bytes)) id =
        mt := by
      apply Manifest.ext
      rw [manifestAt_bytes, Function.update_self, ← mt.length_eq, readRange_writeRange_self]
    rw [verifyObject, readFirmwareManifest_loggedPlain, manifest]
    simp only [valid, verifyDigest, if_pos nothing, ne_eq, not_true_eq_false, if_false]
  have cleared : (pipelineBufferClear (writerPipeline (loggedPlain none))
      (⟨mt.bytes⟩, pipelineWriterInit (slotObject ctx.id), memory, log)).2.2.2 =
        (Function.update memory ctx.id (writeRange (memory ctx.id) 0 mt.bytes),
          log ++ [.wrote ctx.id 0 mt.bytes]) := by
    have fits : 0 + mt.bytes.length ≤ (fullLayout none).limit (slotObject ctx.id).id := by
      rw [mt.length_eq]
      exact sizeofManifest_le_full none ctx.id
    have wrote := congrArg Prod.snd
      (plain_write (fullLayout none) memory fits)
    exact Prod.ext wrote rfl
  intro after
  have call : ∃ sink : Sink (Contents × List MemEvent), after = (fsmVerifyFirmware
      (loggedPlain none) crypto sf (ctx.completed [] sink)
      (Function.update memory ctx.id (writeRange (memory ctx.id) 0 mt.bytes),
        log ++ [.wrote ctx.id 0 mt.bytes])).2.1 := by
    show ∃ sink, (fsm (loggedPlain none) crypto table sf emptyCall ctx (memory, log)).ctx = _
    rw [fsm_receiveFirmware _ _ _ _ _ session.state, fsmReceiveFirmware,
      fsmReceiveData_eq _ _ _ _ session.pipeline,
      show emptyCall.buf.data = [] from rfl, feedSink, sinkPipeline_nil]
    simp only [session.processed, session.expected, announced, List.length_nil, Nat.add_zero, lt_irrefl,
      if_false, ne_eq, not_true_eq_false, session.buffer, session.writer, loggedPlain_close,
      cleared]
    refine ⟨(pipelineBufferClear (writerPipeline (loggedPlain none))
      (⟨mt.bytes⟩, pipelineWriterInit (slotObject ctx.id), memory, log)).2, ?_⟩
    simp only [keepBuf]
  obtain ⟨sink, call⟩ := call
  rw [call, fsmVerifyFirmware, loggedPlain_open]
  simp only [FsmCtx.completed, FsmCtx.received, FsmCtx.withSink, verified]
  refine ⟨rfl, session.processed, rfl, ?_⟩
  rw [← session.manifest]
  apply Manifest.ext
  show ((ctx.scratch.bytes ++ List.replicate fsmBufferSize 0).take fsmBufferSize).take
    sizeofManifest = ctx.scratch.bytes.take sizeofManifest
  rw [List.take_append_of_le_length (le_of_eq ctx.scratch.length_eq.symm), List.take_take]
  rfl

/-- A manifest that is still there passes again: one byte is enough to open a slot. -/
theorem staleManifest_touches {crypto : Crypto} {table : SlotTable} {sf : Safestore} {ctx : FsmCtx}
    (state : Contents × List MemEvent) (phase : ctx.state = .receiveManifest)
    (processed : ctx.processed = sizeofManifest)
    (accepted : Accepted crypto sf ctx.version ctx.scratch.mt) :
    ∃ fresh id, (fsm (loggedPlain none) crypto table sf byteCall ctx state).memory.2 =
      state.2 ++ fresh ∧ .opened id .writeAll ∈ fresh := by
  have data : byteCall.buf.data = [0] := rfl
  have room : ctx.processed ≤ sizeofManifest := le_of_eq processed
  have kept : (ctx.collected byteCall.buf.data).scratch.mt = ctx.scratch.mt := by
    obtain ⟨_, bytes⟩ := collected_complete byteCall.buf.data room
      (Nat.le_add_right_of_le (le_of_eq processed.symm))
    apply Manifest.ext
    rw [bytes, processed, Nat.sub_self, List.take_zero, List.append_nil, Scratch.mt_bytes]
  have accepted' : Accepted crypto sf (ctx.collected byteCall.buf.data).version
      (ctx.collected byteCall.buf.data).scratch.mt := by
    rw [kept]
    exact accepted
  have call : fsm (loggedPlain none) crypto table sf byteCall ctx state =
      keepBuf byteCall.buf.data (fsmArm (loggedPlain none) table
        (byteCall.buf.data.drop (sizeofManifest - ctx.processed))
        (ctx.collected byteCall.buf.data).configured state) := by
    rw [fsm_manifestState _ crypto table sf state phase,
      if_neg (by rw [processed]; exact lt_irrefl _),
      if_neg (by rw [processed]; exact Nat.not_lt.mpr (Nat.le_add_right _ _)),
      fsmVerifyManifest_accepted _ _ accepted']
  obtain ⟨fresh, grows, touched⟩ := fsmArm_touches (plain (fullLayout none)) table
    (byteCall.buf.data.drop (sizeofManifest - ctx.processed))
    (ctx.collected byteCall.buf.data).configured state rfl
    (by rw [getOldestFirmware_plain])
  refine ⟨fresh, _, ?_, touched⟩
  rw [call]
  exact grows

/-- A session begins from an idle context, with the count and the manifest that are there. -/
theorem session_begins {σ : Type} {M : MemoryInterface σ} {crypto : Crypto} {table : SlotTable}
    {sf : Safestore} {allowed : FsmInput → FsmCtx → σ → List UInt8 → Prop} {start memory : σ}
    {ctx : FsmCtx} {payload : List UInt8} {began : Nat}
    (granted : ∀ input ctx memory payload, ¬ ctx.Receiving → allowed input ctx memory payload)
    (session : Session M crypto table sf allowed start ctx memory payload began)
    (idle : ctx.state = .idle) (old : ctx.version < 2) :
    ∃ ctx', Session M crypto table sf allowed start ctx' memory [] ctx.processed ∧
      ctx'.state = .receiveManifest ∧ ctx'.processed = ctx.processed ∧
      ctx'.version = ctx.version ∧ ctx'.oldId = ctx.oldId ∧
      ctx'.scratch.mt = ctx.scratch.mt := by
  have resting : ¬ ctx.Receiving := by
    rintro (state | state)
    · exact absurd (idle.symm.trans state) (by decide)
    · exact absurd (idle.symm.trans state) (by decide)
  have resting' : ¬ FsmCtx.Receiving { ctx with state := .startUpdate } := by
    rintro (state | state)
    · cases state
    · cases state
  have started := Session.early versionCall session resting (granted _ _ _ _ resting)
  rw [@fsm_idle_newer _ M crypto table sf versionCall _ memory idle rfl old] at started
  have waiting := Session.early messageCall started resting' (granted _ _ _ _ resting')
  rw [fsm_startUpdate_begun M crypto table sf
    memory rfl (by decide) rfl] at waiting
  exact ⟨_, waiting, rfl, rfl, rfl, rfl, begun_mt _ _⟩

/-- A session begins anew after one that failed. -/
theorem session_restarts {σ : Type} {M : MemoryInterface σ} {crypto : Crypto} {table : SlotTable}
    {sf : Safestore} {start memory : σ} {ctx : FsmCtx} {payload : List UInt8} {began : Nat}
    (session : Session M crypto table sf (fun _ _ _ _ => True) start ctx memory payload began)
    (failed : ctx.state = .clean) (old : ctx.version < 2) :
    ∃ ctx', Session M crypto table sf (fun _ _ _ _ => True) start ctx' memory [] 0 ∧
      Collecting ctx' [] ∧ ctx'.version = ctx.version ∧ ctx'.oldId = ctx.oldId := by
  have resting : ¬ ctx.Receiving := by
    rintro (state | state)
    · exact absurd (failed.symm.trans state) (by decide)
    · exact absurd (failed.symm.trans state) (by decide)
  have resting' : ¬ FsmCtx.Receiving { ctx.reset with state := .startUpdate } := by
    rintro (state | state)
    · cases state
    · cases state
  have call : fsm M crypto table sf versionCall ctx memory =
      ⟨.success, versionCall.buf.data, { ctx.reset with state := .startUpdate }, memory⟩ := by
    unfold fsm
    rw [failed]
    simp only [fsmClean_eq]
    exact @fsm_idle_newer _ M crypto table sf versionCall ctx.reset memory rfl rfl
      old
  have started := Session.early versionCall session resting trivial
  rw [call] at started
  have waiting := Session.early messageCall started resting' trivial
  rw [fsm_startUpdate_begun M crypto table sf
    memory rfl (by decide) rfl] at waiting
  exact ⟨_, waiting, ⟨rfl, rfl, by decide, rfl⟩, rfl, rfl⟩

/-- `fsm_init` finds the same running image on a memory that reads the same. -/
theorem fsmInit_readsAs {σ τ : Type} {M : MemoryInterface σ} {N : MemoryInterface τ} {view : σ → τ}
    (same : ReadsAs M N view) (table : SlotTable) (rngInit : PullError) (ctx : FsmCtx) (memory : σ) :
    ((fsmInit M table rngInit ctx memory).1, (fsmInit M table rngInit ctx memory).2.1,
      view (fsmInit M table rngInit ctx memory).2.2) = fsmInit N table rngInit ctx (view memory) := by
  have scanned : ((getNewestFirmware M table true ctx.oldId ctx.version memory).1,
      (getNewestFirmware M table true ctx.oldId ctx.version memory).2.1,
      view (getNewestFirmware M table true ctx.oldId ctx.version memory).2.2) =
        getNewestFirmware N table true ctx.oldId ctx.version (view memory) :=
    getOrderedFirmwareLoop_readsAs same true true table.slots _ memory
  unfold fsmInit
  simp only [← scanned]
  split
  · rfl
  · split
    · rfl
    · rfl

/-- Listing the accesses does not change what it finds. -/
theorem fsmInit_logged {σ : Type} (M : MemoryInterface σ) (table : SlotTable)
    (rngInit : PullError) (ctx : FsmCtx) (state : σ × List MemEvent) :
    (fsmInit (logged M) table rngInit ctx state).2.1.oldId =
        (fsmInit M table rngInit ctx state.1).2.1.oldId ∧
      (fsmInit (logged M) table rngInit ctx state).2.1.version =
        (fsmInit M table rngInit ctx state.1).2.1.version ∧
      (fsmInit (logged M) table rngInit ctx state).2.2.1 =
        (fsmInit M table rngInit ctx state.1).2.2 := by
  rw [← fsmInit_readsAs (logged_readsAs M) table rngInit ctx state]
  exact ⟨rfl, rfl, rfl⟩

/-- The signed update, just before its manifest arrives: the call that brings it touches a slot, and
is entitled to. -/
theorem signedUpdate_authentic :
    ∃ ctx state, Session (logged (plain (fullLayout none))) mirrorCrypto twoSlots zeroSafestore
        (fun input ctx _ _ => NoEmptyEnd input ctx) (fun _ _ => 0, []) ctx state [] 0 ∧
      ctx.state = .receiveManifest ∧
      AuthenticAccess (plain (fullLayout none)) mirrorCrypto twoSlots zeroSafestore manifestCall
        ctx state [] := by
  obtain ⟨idle, zero⟩ :=
    fsmInit_state (loggedPlain none) twoSlots .success FsmCtx.zero (fun _ _ => 0, [])
  have version : (fsmInit (loggedPlain none) twoSlots .success FsmCtx.zero
      (fun _ _ => 0, [])).2.1.version = 0 :=
    (fsmInit_logged _ twoSlots .success FsmCtx.zero (fun _ _ => 0, [])).2.1.trans blankCtx_version
  have fresh : Session (loggedPlain none) mirrorCrypto twoSlots zeroSafestore
      (fun input ctx _ _ => NoEmptyEnd input ctx) (fun _ _ => 0, []) _ _ [] 0 :=
    Session.init .success FsmCtx.zero
  have granted : ∀ (input : FsmInput) (ctx : FsmCtx), ¬ ctx.Receiving → NoEmptyEnd input ctx :=
    fun _ _ resting ends => resting (Or.inr ends.1)
  obtain ⟨ctx, waiting, state, _⟩ := session_begins (fun input ctx _ _ => granted input ctx) fresh
    idle (by rw [version]; decide)
  rw [zero] at waiting
  exact ⟨ctx, _, waiting, state, (access_after_manifest (plain (fullLayout none)) mirrorCrypto
    twoSlots zeroSafestore).2.1 _ _ _ _ _ manifestCall waiting⟩

/-- Not every run touches slots only after a manifest that passes. A bare manifest and an empty
chunk leave the manifest and its count behind, and one byte of the next session opens a slot. -/
theorem emptyUpdate_stale :
    ¬ ∀ (ctx : FsmCtx) (state : Contents × List MemEvent) (payload : List UInt8) (began : Nat)
        (input : FsmInput),
        Session (logged (plain (fullLayout none))) mirrorCrypto twoSlots zeroSafestore
          (fun _ _ _ _ => True) (fun _ _ => 0, []) ctx state payload began →
        AuthenticAccess (plain (fullLayout none)) mirrorCrypto twoSlots zeroSafestore input ctx
          state payload := by
  intro every
  obtain ⟨idle, zero⟩ :=
    fsmInit_state (loggedPlain none) twoSlots .success FsmCtx.zero (fun _ _ => 0, [])
  have version : (fsmInit (loggedPlain none) twoSlots .success FsmCtx.zero
      (fun _ _ => 0, [])).2.1.version = 0 :=
    (fsmInit_logged _ twoSlots .success FsmCtx.zero (fun _ _ => 0, [])).2.1.trans blankCtx_version
  have fresh : Session (loggedPlain none) mirrorCrypto twoSlots zeroSafestore
      (fun _ _ _ _ => True) (fun _ _ => 0, []) _ _ [] 0 := Session.init .success FsmCtx.zero
  obtain ⟨ctx₁, waiting, state₁, processed₁, version₁, _⟩ :=
    session_begins (fun _ _ _ _ _ => trivial) fresh idle (by rw [version]; decide)
  have collecting : Collecting ctx₁ [] := ⟨state₁, processed₁.trans zero, by decide, rfl⟩
  have data : emptyManifestCall.buf.data = emptyManifest := rfl
  have old : ctx₁.version = 0 := version₁.trans version
  have accepted : Accepted mirrorCrypto zeroSafestore ctx₁.version
      (Manifest.ofBytes emptyManifestCall.buf.data) := by
    rw [old, data]
    exact emptyManifest_accepted
  obtain ⟨bare, version₂, _, _⟩ := manifestOnly_armed none
    (fsmInit (loggedPlain none) twoSlots .success FsmCtx.zero (fun _ _ => 0, [])).2.2 collecting
    (by rw [data, emptyManifest_length]; rfl) accepted
  rw [data, emptyManifest_full] at bare
  have armed := Session.chunk emptyManifestCall waiting (Or.inl state₁) trivial
  obtain ⟨rests, count, version₃, manifest⟩ := bareManifest_fails
    emptyManifest_accepted.2 emptyManifest_bare.1 emptyManifest_bare.2 _ bare
  have failed := Session.chunk emptyCall armed (Or.inr bare.state) trivial
  have version₃ := (version₃.trans version₂).trans old
  obtain ⟨ctx₄, again, state₄, processed₄, version₄, _, manifest₄⟩ :=
    session_begins (fun _ _ _ _ _ => trivial) failed rests (by rw [version₃]; decide)
  obtain ⟨opens, id, grows, touched⟩ := staleManifest_touches
    _ state₄ (processed₄.trans count) (by
      rw [version₄, version₃, manifest₄, manifest]
      exact emptyManifest_accepted)
  obtain ⟨accesses, grows', authentic⟩ := every _ _ _ _ byteCall again
  have same : opens = accesses := List.append_cancel_left (grows.symm.trans grows')
  obtain ⟨_, few, _⟩ := authentic (.opened id .writeAll) (same ▸ touched)
    (Option.some_ne_none id)
  exact absurd few (by decide)

end Upkit
