/-
**Is the running image spared?**

`fsm_init` takes the newest slot, bootable if possible, for the running image; an update goes to
the oldest slot. Nothing keeps the two apart: the scan for the oldest slot does not know the running
image, and an aborted download can leave every other slot looking newer.

* `oldestSlot_ne` — the oldest slot is not the running one when some slot is older than it, or as
  old and listed before it.
* `running_spared` — in every run in which that is so whenever a slot is armed, no call opens the
  running slot with `WRITE_ALL` or writes to it.
-/

import Upkit.Network.Accesses

namespace Upkit

open Bytes

/-! ### The oldest slot and the running one -/

theorem selectSlot_append (newest preferBootable : Bool) (versionOf : MemId → Nat)
    (front rest : List MemSlot) (best : Candidate) :
    selectSlot newest preferBootable versionOf (front ++ rest) best =
      selectSlot newest preferBootable versionOf rest
        (selectSlot newest preferBootable versionOf front best) := by
  induction front generalizing best with
  | nil => rfl
  | cons slot front ih =>
      rw [List.cons_append, selectSlot, selectSlot]
      exact ih _

/-- Some slot is older than the running one, or as old and listed before it. -/
def Spared (table : SlotTable) (memory : Contents) (running : MemId) : Prop :=
  ∃ front slot rest, table.slots = front ++ slot :: rest ∧
    (versionAt memory slot.id < versionAt memory running ∨
      (versionAt memory slot.id = versionAt memory running ∧
        ∀ other ∈ front ++ [slot], other.id ≠ running))

/-- The oldest slot of a table has the version it is said to have, and no slot is older. -/
theorem oldestSlot_spec (table : SlotTable) (memory : Contents) :
    (oldestSlot table memory).version = versionAt memory (oldestSlot table memory).id ∧
      ∀ slot ∈ table.slots, (oldestSlot table memory).version ≤ versionAt memory slot.id := by
  refine ⟨?_, ?_⟩
  · obtain ⟨slot, _, found⟩ := selectSlot_table_mem false false (versionAt memory) table 0 0
    rw [oldestSlot, found]
    rfl
  · obtain ⟨first, rest, split⟩ := List.exists_cons_of_ne_nil table.nonempty
    obtain ⟨below, above⟩ := selectSlot_oldest (versionAt memory) rest
      (first.candidate (versionAt memory)) rfl
    rw [oldestSlot, split, selectSlot_first]
    intro slot member
    rcases List.mem_cons.mp member with rfl | inRest
    · exact below
    · exact above slot inRest

/-- **The oldest slot is not the running one** when the running one is spared. -/
theorem oldestSlot_ne {table : SlotTable} {memory : Contents} {running : MemId}
    (spared : Spared table memory running) : (oldestSlot table memory).id ≠ running := by
  obtain ⟨version, minimal⟩ := oldestSlot_spec table memory
  obtain ⟨front, slot, rest, split, older | ⟨tie, before⟩⟩ := spared
  · have least := minimal slot (by rw [split]; exact List.mem_append_right _ List.mem_cons_self)
    intro same
    rw [version, same] at least
    omega
  · -- The scan of the front ends with a slot that is not the running one.
    obtain ⟨found, member, best⟩ : ∃ found ∈ front ++ [slot],
        selectSlot false false (versionAt memory) (front ++ [slot]) ⟨0, 0, false, true⟩ =
          found.candidate (versionAt memory) := by
      cases front with
      | nil => exact ⟨slot, List.mem_cons_self, rfl⟩
      | cons first front =>
          rw [List.cons_append, selectSlot_first]
          rcases selectSlot_mem false false (versionAt memory) (front ++ [slot])
            (first.candidate (versionAt memory)) with ⟨found, inFront, is⟩ | is
          · exact ⟨found, List.mem_cons_of_mem _ inFront, is⟩
          · exact ⟨first, List.mem_cons_self, is⟩
    have whole : oldestSlot table memory =
        selectSlot false false (versionAt memory) rest (found.candidate (versionAt memory)) := by
      rw [oldestSlot, split, ← best, ← selectSlot_append, List.append_assoc,
        List.singleton_append]
    rcases selectSlot_older (versionAt memory) false rest (found.candidate (versionAt memory)) rfl
      with kept | below
    · rw [whole, kept]
      exact before found member
    · -- A slot taken later is older than the running one.
      have notAbove : versionAt memory found.id ≤ versionAt memory slot.id := by
        have fold : selectSlot false false (versionAt memory) (front ++ [slot])
            ⟨0, 0, false, true⟩ = (selectSlot false false (versionAt memory) front
              ⟨0, 0, false, true⟩).next false false slot (versionAt memory slot.id) := by
          rw [selectSlot_append]
          rfl
        rw [best] at fold
        have versions := congrArg Candidate.version fold
        unfold Candidate.next at versions
        split at versions
        · exact le_of_eq versions
        · rename_i refused
          simp only [Candidate.yields, Bool.false_and, Bool.not_false, Bool.true_and,
            Bool.false_or, Bool.or_eq_true, decide_eq_true_eq, not_or] at refused
          rw [show versionAt memory found.id = _ from versions]
          exact not_lt.mp refused.2
      intro same
      rw [← whole, version, same, ← tie] at below
      exact absurd below (not_lt.mpr notAbove)

/-- A scan that succeeds has read a manifest in every slot. -/
theorem getOrderedFirmwareLoop_fits (layout : PlainLayout) (newest preferBootable : Bool)
    (slots : List MemSlot) (best : Candidate) (memory : Contents)
    (success : (getOrderedFirmwareLoop (plain layout) newest preferBootable slots best memory).1 =
      .success) : ∀ slot ∈ slots, sizeofManifest ≤ layout.limit slot.id := by
  induction slots generalizing best with
  | nil => exact fun _ member => absurd member List.not_mem_nil
  | cons slot rest ih =>
      rw [getOrderedFirmwareLoop, plain_open layout memory (by decide)] at success
      by_cases fits : sizeofManifest ≤ layout.limit slot.id
      · simp only [@readFirmwareManifest_plain layout memory ⟨slot.id, .readOnly⟩ fits,
          plain_close, ne_eq, not_true_eq_false, if_false] at success
        intro other member
        rcases List.mem_cons.mp member with rfl | inRest
        · exact fits
        · exact ih _ success other inRest
      · have fails : readFirmwareManifest (plain layout) ⟨slot.id, .readOnly⟩ memory =
            (.readManifest, Manifest.ofBytes [], memory) := by
          rw [readFirmwareManifest, plain_read_outside layout memory (by
            rw [Nat.zero_add]
            exact not_le.mp fits)]
          rfl
        simp only [fails, plain_close] at success
        cases success

/-- What `get_oldest_firmware` finds on a plain memory, if it finds anything. -/
theorem getOldestFirmware_oldestSlot (layout : PlainLayout) (table : SlotTable) (id : MemId)
    (memory : Contents)
    (success : (getOldestFirmware (plain layout) table false id 0 memory).1 = .success) :
    (getOldestFirmware (plain layout) table false id 0 memory).2.1 = oldestSlot table memory := by
  have fits := getOrderedFirmwareLoop_fits layout false false table.slots _ memory success
  rw [getOldestFirmware, getOrderedFirmware_plain layout memory table _ _ _ _ fits,
    selectSlot_table_congr _ _ _ table id 0 0 0]
  rfl

/-! ### Runs -/

section Runs

variable (layout : PlainLayout) (crypto : Crypto) (table : SlotTable) (sf : Safestore)

/-- If the call arms a slot, the running one is spared. -/
def ArmsSpared (input : FsmInput) (ctx : FsmCtx) (state : Contents × List MemEvent)
    (_ : List UInt8) : Prop :=
  Arms crypto sf input ctx → Spared table state.1 ctx.oldId

/-- A call does not touch the running slot. -/
def SparesRunning (input : FsmInput) (ctx : FsmCtx) (state : Contents × List MemEvent) : Prop :=
  Extends (fun event => event.touches ≠ some ctx.oldId) state
    (fsm (logged (plain layout)) crypto table sf input ctx state).memory

/-- The invariant: a session writes to another slot than the running one. -/
def WritesElsewhere (ctx : FsmCtx) : Prop :=
  match ctx.state with
  | .receiveFirmware => ctx.pipeline = .buffer ∧ ctx.writerCtx.obj.id ≠ ctx.oldId
  | .verifyManifest => False
  | .verifyFirmware => False
  | _ => True

/-- **One call** spares the running slot and keeps the invariant. -/
theorem writesElsewhere_step {input : FsmInput} {ctx : FsmCtx} {state : Contents × List MemEvent}
    (elsewhere : WritesElsewhere ctx)
    (spared : ArmsSpared crypto table sf input ctx state []) :
    SparesRunning layout crypto table sf input ctx state ∧
      WritesElsewhere (fsm (logged (plain layout)) crypto table sf input ctx state).ctx := by
  have frames := logged_frames (plain layout) (fun event => event.touches ≠ some ctx.oldId)
  have readable : ∀ id, MemEvent.touches (.opened id .readOnly) ≠ some ctx.oldId :=
    fun _ => Option.some_ne_none _ |>.symm
  have quiet : ∀ after, (fsm (logged (plain layout)) crypto table sf input ctx state).memory =
      after → after = state → SparesRunning layout crypto table sf input ctx state := by
    intro after same kept
    unfold SparesRunning
    rw [same, kept]
    exact frames.refl state
  have rests : ∀ ctx' : FsmCtx, ctx'.state = .clean ∨ ctx'.state = .idle ∨
      ctx'.state = .startUpdate ∨ ctx'.state = .receiveManifest ∨ ctx'.state = .reboot →
      WritesElsewhere ctx' := by
    intro ctx' states
    unfold WritesElsewhere
    rcases states with phase | phase | phase | phase | phase
    · rw [phase]; trivial
    · rw [phase]; trivial
    · rw [phase]; trivial
    · rw [phase]; trivial
    · rw [phase]; trivial
  have early : ctx.state = .clean ∨ ctx.state = .idle ∨ ctx.state = .startUpdate →
      SparesRunning layout crypto table sf input ctx state ∧
        WritesElsewhere (fsm (logged (plain layout)) crypto table sf input ctx state).ctx := by
    intro phase
    have same := (fsm_early (logged (plain layout)) crypto table sf input state phase).1
    refine ⟨quiet _ same rfl, rests _ ?_⟩
    rcases fsm_early_state (logged (plain layout)) crypto table sf input state phase with
      cleaned | idle | started | waits
    · exact Or.inl cleaned
    · exact Or.inr (Or.inl idle)
    · exact Or.inr (Or.inr (Or.inl started))
    · exact Or.inr (Or.inr (Or.inr (Or.inl waits)))
  unfold WritesElsewhere at elsewhere
  cases phase : ctx.state with
  | clean => exact early (Or.inl phase)
  | idle => exact early (Or.inr (Or.inl phase))
  | startUpdate => exact early (Or.inr (Or.inr phase))
  | receiveManifest =>
      rcases fsm_receiveManifest_cases (logged (plain layout)) crypto table sf
        state phase with ⟨same, cleaned | ⟨_, waits⟩⟩ | ⟨arms, call⟩
      · exact ⟨quiet _ same rfl, rests _ (Or.inl cleaned)⟩
      · exact ⟨quiet _ same rfl, rests _ (Or.inr (Or.inr (Or.inr (Or.inl waits))))⟩
      · -- The slot that is armed is the oldest one.
        obtain ⟨success, found, _⟩ := getOldestFirmware_logged (plain layout) table
          (ctx.collected input.buf.data).configured.id state
        have other : (getOldestFirmware (logged (plain layout)) table false
            (ctx.collected input.buf.data).configured.id 0 state).1 = .success →
            (getOldestFirmware (logged (plain layout)) table false
              (ctx.collected input.buf.data).configured.id 0 state).2.1.id ≠ ctx.oldId := by
          intro scanned
          rw [found, getOldestFirmware_oldestSlot layout table _ _ (success.symm.trans scanned)]
          exact oldestSlot_ne (spared arms)
        unfold SparesRunning
        rw [call]
        refine ⟨fsmArm_frames frames table readable _ _ state rfl ?_, ?_⟩
        · intro scanned
          refine ⟨fun same => other scanned (Option.some.inj same), ?_⟩
          intro obj same _ _ touched
          exact other scanned (same ▸ Option.some.inj touched)
        · obtain ⟨_, _, outcome⟩ := fsmArm_ctx (logged (plain layout)) table
            (input.buf.data.drop (sizeofManifest - ctx.processed))
            (ctx.collected input.buf.data).configured state rfl
          have kept := fsmArm_keeps (logged (plain layout)) table
            (input.buf.data.drop (sizeofManifest - ctx.processed))
            (ctx.collected input.buf.data).configured state
          rcases outcome with cleaned | ⟨armed, full, _, scanned, writes⟩
          · exact rests _ (Or.inl cleaned)
          · unfold WritesElsewhere keepBuf
            simp only [armed]
            refine ⟨full, ?_⟩
            rw [writes, kept.1]
            exact other scanned
  | receiveFirmware =>
      rw [phase] at elsewhere
      obtain ⟨full, apart⟩ := elsewhere
      have kept := fsmReceiveFirmware_keeps (logged (plain layout)) crypto sf input.buf.data ctx
        state
      unfold SparesRunning
      rw [fsm_receiveFirmware (logged (plain layout)) crypto table sf state phase]
      refine ⟨fsmReceiveFirmware_frames frames crypto sf readable input.buf.data ctx state full ?_,
        ?_⟩
      · intro _ _ touched
        exact apart (Option.some.inj touched)
      · obtain ⟨_, _, outcome⟩ := fsmReceiveFirmware_ctx (logged (plain layout)) crypto sf
          input.buf.data ctx state phase full
        rcases outcome with cleaned | ⟨armed, full', _, writes⟩ | ⟨_, _, idle | reboot⟩
        · exact rests _ (Or.inl cleaned)
        · unfold WritesElsewhere keepBuf
          simp only [armed]
          refine ⟨full', ?_⟩
          rw [writes, kept.1]
          exact apart
        · exact rests _ (Or.inr (Or.inl idle))
        · exact rests _ (Or.inr (Or.inr (Or.inr (Or.inr reboot))))
  | verifyManifest => rw [phase] at elsewhere; exact False.elim elsewhere
  | verifyFirmware => rw [phase] at elsewhere; exact False.elim elsewhere
  | reboot =>
      have call := fsm_reboot (logged (plain layout)) crypto table sf input state phase
      refine ⟨quiet state (by rw [call]) rfl, rests _ ?_⟩
      rw [call]
      exact Or.inr (Or.inr (Or.inr (Or.inr phase)))

/-- The invariant holds along every run that arms slots only when the running one is spared. -/
theorem writesElsewhere_of_session {start state : Contents × List MemEvent} {ctx : FsmCtx}
    {payload : List UInt8} {began : Nat}
    (session : Session (logged (plain layout)) crypto table sf (ArmsSpared crypto table sf) start
      ctx state payload began) : WritesElsewhere ctx := by
  induction session with
  | init rngInit ctx =>
      unfold WritesElsewhere
      rw [(fsmInit_state (logged (plain layout)) table rngInit ctx start).1]
      trivial
  | early input _ _ spared ih => exact (writesElsewhere_step layout crypto table sf ih spared).2
  | chunk input _ _ spared ih => exact (writesElsewhere_step layout crypto table sf ih spared).2

/-- **The running image is spared** in every run in which, whenever a slot is armed, some slot is
older than the running one, or as old and listed before it. -/
theorem running_spared {start state : Contents × List MemEvent} {ctx : FsmCtx}
    {payload : List UInt8} {began : Nat}
    (session : Session (logged (plain layout)) crypto table sf (ArmsSpared crypto table sf) start
      ctx state payload began) (input : FsmInput)
    (spared : ArmsSpared crypto table sf input ctx state payload) :
    SparesRunning layout crypto table sf input ctx state ∧
      (fsm (logged (plain layout)) crypto table sf input ctx state).ctx.oldId = ctx.oldId :=
  ⟨(writesElsewhere_step layout crypto table sf
      (writesElsewhere_of_session layout crypto table sf session) spared).1,
    (fsm_keeps (logged (plain layout)) crypto table sf input ctx state).1⟩

end Runs

/-! ### A running image that is overwritten -/

/-- A running image of version `1` in the first slot; the second one is blank. -/
def runningImage : Contents := fun id address => if id = 1 ∧ address = 72 then 1 else 0

theorem runningImage_found :
    (getNewestFirmware (plain (fullLayout (some 0xFF))) twoSlots true 0 0 runningImage).2.1 =
      ⟨1, 1, true, false⟩ := by
  rw [getNewestFirmware, getOrderedFirmware_plain (fullLayout (some 0xFF)) _ twoSlots _ _ _ _
    (fun slot _ => sizeofManifest_le_full (some 0xFF) slot.id)]
  decide +kernel

theorem runningImage_oldest : (oldestSlot twoSlots runningImage).id = 2 := by decide +kernel

/-- Once the blank slot has been erased, the running image is the oldest. -/
theorem runningImage_erased_oldest :
    (oldestSlot twoSlots (opened (some 0xFF) 2 runningImage)).id = 1 := by decide +kernel

/-- A chunk with one byte too many for the signed update. -/
def longCall : FsmInput :=
  callWith (List.replicate 1025 0) (by rw [List.length_replicate]; decide)

/-- What `fsm_init` leaves on flash with that image. -/
def runningInit : PullError × FsmCtx × Contents × List MemEvent :=
  fsmInit (loggedPlain (some 0xFF)) twoSlots .success FsmCtx.zero (runningImage, [])

theorem runningInit_ctx :
    runningInit.2.1.state = .idle ∧ runningInit.2.1.processed = 0 ∧
      runningInit.2.1.oldId = 1 ∧ runningInit.2.1.version = 1 ∧
      runningInit.2.2.1 = runningImage := by
  obtain ⟨idle, zero⟩ :=
    fsmInit_state (loggedPlain (some 0xFF)) twoSlots .success FsmCtx.zero (runningImage, [])
  obtain ⟨sameId, sameVersion, sameMemory⟩ :=
    fsmInit_logged (plain (fullLayout (some 0xFF))) twoSlots .success FsmCtx.zero (runningImage, [])
  obtain ⟨foundId, foundVersion, scanned⟩ :=
    fsmInit_found (plain (fullLayout (some 0xFF))) twoSlots .success FsmCtx.zero runningImage
  refine ⟨idle, zero, ?_, ?_, (sameMemory.trans scanned).trans ?_⟩
  · exact (sameId.trans foundId).trans (congrArg Candidate.id runningImage_found)
  · exact (sameVersion.trans foundVersion).trans (congrArg Candidate.version runningImage_found)
  · rw [getNewestFirmware, getOrderedFirmware_plain (fullLayout (some 0xFF)) _ twoSlots _ _ _ _
      (fun slot _ => sizeofManifest_le_full (some 0xFF) slot.id)]

/-- The signed update is newer than the running image. -/
theorem signedUpdate_newer {ctx : FsmCtx} (old : ctx.version = 1) :
    Accepted mirrorCrypto zeroSafestore ctx.version
      (Manifest.ofBytes manifestCall.buf.data) := by
  rw [old, show manifestCall.buf.data = signedManifest from rfl]
  decide

/-- The first download goes to the blank slot: the call that arms it spares the running one. -/
theorem runningImage_spared :
    ∃ ctx, Session (logged (plain (fullLayout (some 0xFF)))) mirrorCrypto twoSlots zeroSafestore
        (ArmsSpared mirrorCrypto twoSlots zeroSafestore) (runningImage, []) ctx runningInit.2.2
        [] 0 ∧
      Arms mirrorCrypto zeroSafestore manifestCall ctx ∧ ctx.oldId = 1 ∧
      SparesRunning (fullLayout (some 0xFF)) mirrorCrypto twoSlots zeroSafestore manifestCall ctx
        runningInit.2.2 := by
  obtain ⟨idle, zero, oldId, version, memory⟩ := runningInit_ctx
  have fresh : Session (loggedPlain (some 0xFF)) mirrorCrypto twoSlots zeroSafestore
      (ArmsSpared mirrorCrypto twoSlots zeroSafestore) (runningImage, []) runningInit.2.1
      runningInit.2.2 [] 0 := Session.init .success FsmCtx.zero
  have granted : ∀ (input : FsmInput) (ctx : FsmCtx) (state : Contents × List MemEvent)
      (payload : List UInt8), ¬ ctx.Receiving →
      ArmsSpared mirrorCrypto twoSlots zeroSafestore input ctx state payload :=
    fun _ _ _ _ resting arms => absurd (Or.inl arms.1) resting
  obtain ⟨ctx, waiting, state, processed, version', oldId', _⟩ :=
    session_begins granted fresh idle (version.trans_lt (by decide))
  have waiting : Session (loggedPlain (some 0xFF)) mirrorCrypto twoSlots zeroSafestore
      (ArmsSpared mirrorCrypto twoSlots zeroSafestore) (runningImage, []) ctx runningInit.2.2 []
      0 := zero ▸ waiting
  have collecting : Collecting ctx [] := ⟨state, processed.trans zero, by decide, rfl⟩
  have enough : sizeofManifest ≤ ([] : List UInt8).length + manifestCall.buf.data.length :=
    le_of_eq (by rw [List.length_nil, Nat.zero_add]; exact signedManifest_length.symm)
  have arms : Arms mirrorCrypto zeroSafestore manifestCall ctx := by
    refine ⟨state, ?_, ?_, ?_⟩
    · rw [collecting.processed]
      decide
    · rw [collecting.processed]
      exact enough
    · rw [(collecting_complete collecting enough).2]
      exact signedUpdate_newer (version'.trans version)
  have spared : Spared twoSlots runningInit.2.2.1 ctx.oldId := by
    refine ⟨[⟨1, true⟩], ⟨2, false⟩, [], rfl, Or.inl ?_⟩
    rw [memory, oldId'.trans oldId]
    decide +kernel
  exact ⟨ctx, waiting, arms, oldId'.trans oldId, (running_spared (fullLayout (some 0xFF))
    mirrorCrypto twoSlots zeroSafestore waiting manifestCall fun _ => spared).1⟩

/-- On flash, a download that fails leaves the slot erased, which looks newer than any image. The
next download then opens the running slot with `WRITE_ALL`. -/
theorem running_overwritten :
    ¬ ∀ (ctx : FsmCtx) (state : Contents × List MemEvent) (payload : List UInt8) (began : Nat)
        (input : FsmInput),
        Session (logged (plain (fullLayout (some 0xFF)))) mirrorCrypto twoSlots zeroSafestore
          (fun _ _ _ _ => True) (runningImage, []) ctx state payload began →
        SparesRunning (fullLayout (some 0xFF)) mirrorCrypto twoSlots zeroSafestore input ctx
          state := by
  intro every
  obtain ⟨idle, zero, oldId, version, memory⟩ := runningInit_ctx
  have fresh : Session (loggedPlain (some 0xFF)) mirrorCrypto twoSlots zeroSafestore
      (fun _ _ _ _ => True) (runningImage, []) runningInit.2.1 runningInit.2.2 [] 0 :=
    Session.init .success FsmCtx.zero
  -- The first session arms the blank slot, which erases it, and fails.
  obtain ⟨ctx₁, waiting, state₁, processed₁, version₁, oldId₁, _⟩ :=
    session_begins (fun _ _ _ _ _ => trivial) fresh idle (version.trans_lt (by decide))
  obtain ⟨armed, version₂, oldId₂, memory₂⟩ := manifestOnly_armed (some 0xFF)
    runningInit.2.2 ⟨state₁, processed₁.trans zero, by decide, rfl⟩
    signedManifest_length (signedUpdate_newer (version₁.trans version))
  rw [memory, runningImage_oldest] at memory₂
  have downloading := Session.chunk manifestCall waiting (Or.inl state₁) trivial
  have failed := Session.chunk longCall downloading (Or.inr armed.state) trivial
  have refused : ∀ (ctx : FsmCtx) (state : Contents × List MemEvent),
      ManifestOnly (Manifest.ofBytes manifestCall.buf.data).full ctx →
      fsm (loggedPlain (some 0xFF)) mirrorCrypto twoSlots zeroSafestore longCall ctx state =
        ⟨.invalidSize, longCall.buf.data, ctx.cleaned, state⟩ := by
    intro ctx state session
    have length : longCall.buf.data.length = 1025 := List.length_replicate
    have announced : ctx.expected = 1280 := by
      rw [session.expected, Manifest.full_announced,
        show manifestCall.buf.data = signedManifest from rfl, signedManifest_announced]
    rw [fsm_receiveFirmware _ _ _ _ _ session.state, fsmReceiveFirmware, fsmReceiveData]
    simp only [session.processed, announced, length, sizeofManifest]
    rfl
  rw [refused _ _ armed] at failed
  -- The second one arms the running slot.
  obtain ⟨ctx₃, again, collecting, version₃, oldId₃⟩ := session_restarts failed rfl (by
    show (fsm _ _ _ _ _ _ _).ctx.version < 2
    rw [version₂, version₁, version]
    decide)
  have old : ctx₃.version = 1 := version₃.trans (version₂.trans (version₁.trans version))
  have running : ctx₃.oldId = 1 := oldId₃.trans (oldId₂.trans (oldId₁.trans oldId))
  have enough : sizeofManifest ≤ ([] : List UInt8).length + manifestCall.buf.data.length :=
    le_of_eq (by rw [List.length_nil, Nat.zero_add]; exact signedManifest_length.symm)
  obtain ⟨accesses, grows, spares⟩ := every _ _ _ _ manifestCall again
  rw [fsm_arming _ _ _ _ _ collecting enough (signedUpdate_newer old)] at grows
  obtain ⟨opens, grows', touched⟩ := fsmArm_touches (plain (fullLayout (some 0xFF))) twoSlots
    (manifestCall.buf.data.drop (sizeofManifest - ([] : List UInt8).length))
    (ctx₃.collected manifestCall.buf.data).configured
    (fsm (loggedPlain (some 0xFF)) mirrorCrypto twoSlots zeroSafestore manifestCall ctx₁
      runningInit.2.2).memory rfl (by rw [getOldestFirmware_plain])
  rw [getOldestFirmware_plain, memory₂, runningImage_erased_oldest] at touched
  have same : opens = accesses := List.append_cancel_left (grows'.symm.trans grows)
  refine spares (.opened 1 .writeAll) (same ▸ touched) ?_
  rw [running]
  rfl

end Upkit
