/-
**The two builds of the bootloader and the drivers that call it.**

With `ENABLE_COROUTINES` every event of `bootloader_agent` returns to the caller and the next call
resumes behind it, after a failure too; without it `PULL_CONTINUE` is empty and the first
`PULL_RETURN` ends the call. The Contiki driver calls the first build in a loop, the Zephyr driver
calls the second one once.

* `bootloaderCoroutine` — the body of the agent, as the events it raises in order.
* `call_bootloaderCoroutine` — the build without coroutines is `bootloaderAgent`.
* `Follows` — what the builds and the drivers have in common: ordinary events are passed by, and a
  failure or the boot stops them. The steps of the body are read once, for all of them.
* `driversAgree_iff` — on memory that never fails they agree unless an update is refused: its event
  is a failure that `PULL_CONTINUE` raises, so one build stops and the other swaps and boots.
-/

import Upkit.Agents.BootImage
import Upkit.Memory.Effects

namespace Upkit

open Bytes

/-! ### Events -/

/-- `agent_event_t` of the bootloader, in the order of the enumeration. -/
inductive BootEvent
  | init
  | continueStart
  | boot
  | validateBootableStart
  | validateBootableStop
  | bootstrap
  | firstBoot
  | getNewestFirmware
  | getNewestNonBootable
  | storeBootloaderCtx
  | upgrade
  | upgradeCopyStart
  | upgradeCopyStop
  | upgradeSuccess
  | validateNonBootable
  | validateNonBootableStart
  | validateNonBootableStop
  | continueStop
  | failureStart
  | validateBootableFailure
  | bootstrapFailure
  | bootstrapFailure2
  | fatalFailure
  | firstBootFailure
  | getNewestFirmwareFailure
  | getNewestFirmwareFailure2
  | getNewestNonBootableFailure
  | storeBootloaderCtxFailure
  | upgradeCopyFailure
  | upgradeFailure
  | upgradeFailure2
  | upgradeFailure3
  | upgradeFailure4
  | validateNonBootableInvalid
  | validateNonBootableFailure
  | failureStop
  | finish
  deriving DecidableEq, Repr

/-- `IS_CONTINUE`. -/
def BootEvent.isContinue (event : BootEvent) : Bool :=
  BootEvent.continueStart.ctorIdx < event.ctorIdx && event.ctorIdx < BootEvent.continueStop.ctorIdx

/-- `IS_FAILURE`. -/
def BootEvent.isFailure (event : BootEvent) : Bool :=
  BootEvent.failureStart.ctorIdx < event.ctorIdx && event.ctorIdx < BootEvent.failureStop.ctorIdx

/-- What `event_data` points to. -/
inductive EventData
  | null
  | error (err : PullError)
  | bootId (id : MemId)
  deriving DecidableEq, Repr

/-- `GET_BOOT_ID`, where there is one. -/
def EventData.getBootId : EventData → MemId
  | .bootId id => id
  | _ => 0

/-- The event and the data of what a plain call returns. -/
def AgentEvent.raised : AgentEvent → BootEvent × EventData
  | .boot id => (.boot, .bootId id)
  | .getNewestFirmwareFailure err => (.getNewestFirmwareFailure, .error err)
  | .getNewestFirmwareFailure2 err => (.getNewestFirmwareFailure2, .error err)
  | .bootstrapFailure err => (.bootstrapFailure, .error err)
  | .bootstrapFailure2 err => (.bootstrapFailure2, .error err)
  | .firstBootFailure err => (.firstBootFailure, .error err)
  | .storeBootloaderCtxFailure err => (.storeBootloaderCtxFailure, .error err)
  | .getNewestNonBootableFailure err => (.getNewestNonBootableFailure, .error err)
  | .validateNonBootableFailure err => (.validateNonBootableFailure, .error err)
  | .upgradeFailure err => (.upgradeFailure, .error err)
  | .upgradeFailure2 err => (.upgradeFailure2, .error err)
  | .upgradeFailure3 err => (.upgradeFailure3, .error err)
  | .upgradeFailure4 err => (.upgradeFailure4, .error err)
  | .upgradeCopyFailure err => (.upgradeCopyFailure, .error err)
  | .validateBootableFailure err => (.validateBootableFailure, .error err)

/-! ### The body -/

/-- The macro that raises an event. -/
inductive PullMacro
  | continue
  | return
  deriving DecidableEq, Repr

/-- A body between the macros: the events it raises in order, each with the memory at that point
and what is run when the next call resumes behind it. A loop that never ends hangs the device. -/
inductive Coroutine (σ : Type)
  | raises (pull : PullMacro) (event : BootEvent) (data : EventData) (memory : σ)
      (rest : Coroutine σ)
  | hangs
  | finishes (memory : σ)

namespace Coroutine

variable {σ : Type}

/-- `PULL_CONTINUE(event, NULL)`. -/
def pullContinue (event : BootEvent) (memory : σ) (rest : Coroutine σ) : Coroutine σ :=
  .raises .continue event .null memory rest

/-- `if (err) { PULL_RETURN(event, &err); }`. -/
def returnIf (err : PullError) (event : BootEvent) (memory : σ) (rest : Coroutine σ) :
    Coroutine σ :=
  if err ≠ .success then .raises .return event (.error err) memory rest else rest

/-- What follows a call whose loop may not end. -/
def returned (err : PullError) (rest : Coroutine σ) : Coroutine σ :=
  if err = .outOfFuel then .hangs else rest

end Coroutine

section Body

open Coroutine

variable {σ : Type} (M : MemoryInterface σ) (crypto : Crypto) (table : SlotTable)
  (cfg : BootloaderAgentConfig)

/-- The loop of step (2.1). -/
def eraseSlotsBody (keep : MemId) (rest : σ → Coroutine σ) : List MemSlot → σ → Coroutine σ
  | [], memory => rest memory
  | slot :: slots, memory =>
      if slot.id ≠ keep then
        let (err, memory) := invalidateObject M slot.id memory
        returnIf err .firstBootFailure memory (eraseSlotsBody keep rest slots memory)
      else eraseSlotsBody keep rest slots memory

/-- Step (2). -/
def bootstrapBody (idNewestBootable : MemId) (rest : σ → Coroutine σ) (memory : σ) :
    Coroutine σ :=
  pullContinue .bootstrap memory <|
  let (err, bootloaderObject, memory) := M.memoryOpen cfg.bootloaderCtxId .writeChunk memory
  returnIf err .bootstrapFailure memory <|
  let (ret, data, memory) := M.memoryRead bootloaderObject sizeofBootloaderCtx 0 memory
  let bctx := splice (List.replicate sizeofBootloaderCtx 0) 0 data
  returnIf (if ret ≠ sizeofBootloaderCtx then .memoryRead else .success) .bootstrapFailure2
    memory <|
  if firstBoot bctx then
    pullContinue .firstBoot memory <|
    eraseSlotsBody M idNewestBootable (fun memory =>
      pullContinue .storeBootloaderCtx memory <|
      let (ret, memory) := M.memoryWrite bootloaderObject (splice bctx 127 [0]) 0 memory
      returnIf (if ret ≠ sizeofBootloaderCtx then .memoryWrite else .success)
        .storeBootloaderCtxFailure memory <|
      rest (M.memoryClose bootloaderObject memory).2) table.slots memory
  else rest (M.memoryClose bootloaderObject memory).2

/-- Step (4.2): the swap, whatever the image is worth. -/
def swapBody (versionBootable : Nat) (idNewestNonBootable : MemId)
    (rest : MemId → σ → Coroutine σ) (memory : σ) : Coroutine σ :=
  pullContinue .upgrade memory <|
  let (err, oldest, memory) := getOldestFirmware M table true 0 versionBootable memory
  returnIf err .upgradeFailure memory <|
  let (err, destinationSlot, memory) := M.memoryOpen oldest.id .sequentialRewrite memory
  returnIf err .upgradeFailure2 memory <|
  let (err, sourceSlot, memory) := M.memoryOpen idNewestNonBootable .sequentialRewrite memory
  returnIf err .upgradeFailure3 memory <|
  let (err, swapSlot, memory) := M.memoryOpen cfg.swapId .sequentialRewrite memory
  returnIf err .upgradeFailure4 memory <|
  pullContinue .upgradeCopyStart memory <|
  let (err, _, memory) := swapSlots M sourceSlot destinationSlot swapSlot cfg.swapSize
    (List.replicate agentBufferSize 0) agentBufferSize memory
  returned err <|
  pullContinue .upgradeCopyStop memory <|
  returnIf err .upgradeCopyFailure memory <|
  let (_, memory) := M.memoryClose destinationSlot memory
  pullContinue .upgradeSuccess memory <|
  rest oldest.id memory

/-- Step (4). The event of an invalid image is raised by `PULL_CONTINUE`. -/
def upgradeBody (versionBootable : Nat) (idNewestNonBootable : MemId)
    (rest : MemId → σ → Coroutine σ) (memory : σ) : Coroutine σ :=
  pullContinue .validateNonBootable memory <|
  let (err, sourceSlot, memory) := M.memoryOpen idNewestNonBootable .readOnly memory
  returnIf err .validateNonBootableFailure memory <|
  pullContinue .validateNonBootableStart memory <|
  let (err, _, memory) :=
    verifyObject M crypto sourceSlot cfg.safestore cfg.buffer cfg.bufferSize memory
  returned err <|
  pullContinue .validateNonBootableStop memory <|
  let upgrading := swapBody M table cfg versionBootable idNewestNonBootable rest
    (M.memoryClose sourceSlot memory).2
  if err ≠ .success then
    .raises .continue .validateNonBootableInvalid (.error err) memory upgrading
  else upgrading

/-- The last two events: the boot, and the end of the function behind it. -/
def bootBody (bootId : MemId) (memory : σ) : Coroutine σ :=
  .raises .return .boot (.bootId bootId) memory (.finishes memory)

/-- Step (5). Resumed after its failures it would boot the id that was never set. -/
def validateBody (newestBootable : MemObject) (idNewestBootable : MemId) (memory : σ) :
    Coroutine σ :=
  pullContinue .validateBootableStart memory <|
  let (err, _, memory) :=
    verifyObject M crypto newestBootable cfg.safestore cfg.buffer cfg.bufferSize memory
  returned err <|
  pullContinue .validateBootableStop memory <|
  if err = .success then bootBody idNewestBootable memory
  else
    returnIf err .validateBootableFailure memory <|
    .raises .return .fatalFailure .null memory <|
    bootBody 0 memory

/-- `bootloader_agent`. -/
def bootloaderCoroutine (memory : σ) : Coroutine σ :=
  pullContinue .getNewestFirmware memory <|
  let (err, newest, memory) := getNewestFirmware M table true 0 0 memory
  returnIf err .getNewestFirmwareFailure memory <|
  let (err, newestBootable, memory) := M.memoryOpen newest.id .readOnly memory
  returnIf err .getNewestFirmwareFailure2 memory <|
  bootstrapBody M table cfg newest.id (fun memory =>
    pullContinue .getNewestNonBootable memory <|
    let (err, nonBootable, memory) := getNewestFirmware M table false 0 0 memory
    returnIf err .getNewestNonBootableFailure memory <|
    if newest.version < nonBootable.version then
      upgradeBody M crypto table cfg newest.version nonBootable.id bootBody memory
    else validateBody M crypto cfg newestBootable newest.id memory) memory

end Body

/-! ### The builds and the drivers -/

section Drivers

variable {σ : Type}

/-- A call of the build without coroutines: the first event of a `PULL_RETURN`. -/
def Coroutine.call : Coroutine σ → Option (BootEvent × EventData × σ)
  | .raises .continue _ _ _ rest => rest.call
  | .raises .return event data memory _ => some (event, data, memory)
  | .hangs => none
  | .finishes memory => some (.finish, .null, memory)

/-- How a driver ends. -/
inductive DriverEnd (σ : Type)
  | loads (id : MemId) (memory : σ)
  | stops (memory : σ)
  | hangs

/-- The loop of the Contiki driver over the build with coroutines. `EVENT_FINISH` is neither a
failure nor a continue event: the agent would be called for ever. -/
def contiki : Coroutine σ → DriverEnd σ
  | .raises _ event data memory rest =>
      if event.isFailure then .stops memory
      else if event.isContinue then
        if event = .boot then .loads data.getBootId memory else contiki rest
      else contiki rest
  | .hangs => .hangs
  | .finishes _ => .hangs

/-- The Zephyr driver: one call of the other build. -/
def zephyr (body : Coroutine σ) : DriverEnd σ :=
  match body.call with
  | none => .hangs
  | some (event, data, memory) =>
      if event.isFailure then .stops memory
      else if event.isContinue then
        if event = .boot then .loads data.getBootId memory else .stops memory
      else .stops memory

/-! ### Following a body -/

/-- A reading of bodies that passes the ordinary `PULL_CONTINUE` events by and stops at the first
`PULL_RETURN`. -/
structure Follows {ρ : Type} (run : Coroutine σ → ρ) (stop : BootEvent → EventData → σ → ρ)
    (hang : ρ) : Prop where
  passes : ∀ {event : BootEvent} (data : EventData) (memory : σ) (rest : Coroutine σ),
    event.isFailure = false → event ≠ .boot →
      run (.raises .continue event data memory rest) = run rest
  stops : ∀ {event : BootEvent} (data : EventData) (memory : σ) (rest : Coroutine σ),
    event.isFailure = true ∨ event = .boot →
      run (.raises .return event data memory rest) = stop event data memory
  stays : run .hangs = hang

/-- How a driver ends at the event a call returns. -/
def endAt (event : BootEvent) (data : EventData) (memory : σ) : DriverEnd σ :=
  if event = .boot then .loads data.getBootId memory else .stops memory

theorem call_follows :
    Follows (@Coroutine.call σ) (fun event data memory => some (event, data, memory)) none where
  passes := fun _ _ _ _ _ => rfl
  stops := fun _ _ _ _ => rfl
  stays := rfl

theorem contiki_follows : Follows (@contiki σ) endAt .hangs where
  passes := by
    intro event data memory rest ordinary other
    rw [contiki, ordinary, if_neg Bool.false_ne_true, if_neg other, ite_self]
  stops := by
    intro event data memory rest classified
    rcases classified with failure | rfl
    · have other : event ≠ .boot := by
        rintro rfl
        cases failure
      rw [contiki, if_pos failure, endAt, if_neg other]
    · rfl
  stays := rfl

theorem zephyr_follows : Follows (@zephyr σ) endAt .hangs where
  passes := fun _ _ _ _ _ => rfl
  stops := by
    intro event data memory rest classified
    have called : (Coroutine.raises .return event data memory rest).call =
      some (event, data, memory) := rfl
    rcases classified with failure | rfl
    · have other : event ≠ .boot := by
        rintro rfl
        cases failure
      simp only [zephyr, called, failure, if_true, endAt, if_neg other]
    · rfl
  stays := rfl

section Follows

open Coroutine

variable {ρ : Type} {run : Coroutine σ → ρ} {stop : BootEvent → EventData → σ → ρ} {hang : ρ}
  (follows : Follows run stop hang)

include follows

theorem run_pullContinue {event : BootEvent} (memory : σ) (rest : Coroutine σ)
    (ordinary : event.isFailure = false) (other : event ≠ .boot) :
    run (pullContinue event memory rest) = run rest :=
  follows.passes _ _ _ ordinary other

theorem run_returnIf (err : PullError) {event : BootEvent} (memory : σ) (rest : Coroutine σ)
    (failure : event.isFailure = true) :
    run (returnIf err event memory rest) =
      if err ≠ .success then stop event (.error err) memory else run rest := by
  unfold returnIf
  split
  · exact follows.stops _ _ _ (Or.inl failure)
  · rfl

theorem run_returned (err : PullError) (rest : Coroutine σ) :
    run (returned err rest) = if err = .outOfFuel then hang else run rest := by
  unfold returned
  split
  · exact follows.stays
  · rfl

variable (M : MemoryInterface σ) (crypto : Crypto) (table : SlotTable)
  (cfg : BootloaderAgentConfig)

theorem run_eraseSlotsBody (keep : MemId) (rest : σ → Coroutine σ) (slots : List MemSlot)
    (memory : σ) :
    run (eraseSlotsBody M keep rest slots memory) =
      if (eraseSlots M keep slots memory).1 ≠ .success then
        stop .firstBootFailure (.error (eraseSlots M keep slots memory).1)
          (eraseSlots M keep slots memory).2
      else run (rest (eraseSlots M keep slots memory).2) := by
  induction slots generalizing memory with
  | nil => rfl
  | cons slot slots ih =>
      rw [eraseSlotsBody, eraseSlots]
      by_cases other : slot.id ≠ keep
      · rw [if_pos other, if_pos other]
        simp only [run_returnIf follows _ _ _ (show BootEvent.firstBootFailure.isFailure = true from
          rfl)]
        split
        · rfl
        · exact ih _
      · rw [if_neg other, if_neg other]
        exact ih _

/-- Step (2) as any reading sees it. -/
theorem run_bootstrapBody (id : MemId) (rest : σ → Coroutine σ) (memory : σ) :
    run (bootstrapBody M table cfg id rest memory) =
      match bootstrap M table cfg id memory with
      | (some failure, memory) => stop failure.raised.1 failure.raised.2 memory
      | (none, memory) => run (rest memory) := by
  unfold bootstrapBody bootstrap
  simp (disch := decide) only [run_pullContinue follows, run_returnIf follows]
  split
  · rfl
  · split
    · rfl
    · simp only [ne_eq, not_true_eq_false, if_false]
      split
      · simp (disch := decide) only [run_pullContinue follows, run_returnIf follows,
          run_eraseSlotsBody follows]
        split
        · rfl
        · split
          · rfl
          · rfl
      · rfl

/-- Step (4) to a reading that passes the event of an invalid image by. -/
theorem run_upgradeBody
    (ignores : ∀ (data : EventData) (memory : σ) (rest : Coroutine σ),
      run (.raises .continue .validateNonBootableInvalid data memory rest) = run rest)
    (version : Nat) (id : MemId) (rest : MemId → σ → Coroutine σ) (memory : σ) :
    run (upgradeBody M crypto table cfg version id rest memory) = hang ∨
      run (upgradeBody M crypto table cfg version id rest memory) =
        match upgrade M crypto table cfg version id memory with
        | (.error failure, memory) => stop failure.raised.1 failure.raised.2 memory
        | (.ok bootId, memory) => run (rest bootId memory) := by
  unfold upgradeBody upgrade swapBody
  simp (disch := decide) only [run_pullContinue follows, run_returnIf follows,
    run_returned follows]
  split
  · exact Or.inr rfl
  · split
    · exact Or.inl rfl
    · simp (disch := decide) only [apply_ite run, ignores, ite_self, run_pullContinue follows,
        run_returnIf follows, run_returned follows]
      split
      · exact Or.inr rfl
      · split
        · exact Or.inr rfl
        · split
          · exact Or.inr rfl
          · split
            · exact Or.inr rfl
            · split
              · exact Or.inl rfl
              · split
                · exact Or.inr rfl
                · exact Or.inr rfl

/-- Step (4.2) up to the result of the swap. -/
theorem run_swapBody {version : Nat} {id : MemId} (rest : MemId → σ → Coroutine σ)
    {memory : σ} {oldest : Candidate} {swapped : PullError × List UInt8 × σ}
    (opens : ∀ id, M.memoryOpen id .sequentialRewrite memory =
      (.success, swapObject id, memory))
    (scan : getOldestFirmware M table true 0 version memory = (.success, oldest, memory))
    (swaps : swapSlots M (swapObject id) (swapObject oldest.id) (swapObject cfg.swapId)
      cfg.swapSize (List.replicate agentBufferSize 0) agentBufferSize memory = swapped) :
    run (swapBody M table cfg version id rest memory) =
      if swapped.1 = .outOfFuel then hang
      else if swapped.1 ≠ .success then
        stop .upgradeCopyFailure (.error swapped.1) swapped.2.2
      else run (rest oldest.id (M.memoryClose (swapObject oldest.id) swapped.2.2).2) := by
  unfold swapBody
  simp (disch := decide) only [run_pullContinue follows, run_returnIf follows, run_returned follows,
    opens, scan, swaps, ne_eq, not_true_eq_false, if_false]

theorem run_bootBody (id : MemId) (memory : σ) :
    run (bootBody id memory) = stop .boot (.bootId id) memory :=
  follows.stops _ _ _ (Or.inr rfl)

/-- Step (5) as any reading sees it. -/
theorem run_validateBody (obj : MemObject) (id : MemId) (memory : σ) :
    run (validateBody M crypto cfg obj id memory) =
      if (verifyObject M crypto obj cfg.safestore cfg.buffer cfg.bufferSize memory).1 = .outOfFuel
      then hang
      else stop (validateBootable M crypto cfg obj id memory).1.raised.1
        (validateBootable M crypto cfg obj id memory).1.raised.2
        (validateBootable M crypto cfg obj id memory).2 := by
  unfold validateBody validateBootable
  simp (disch := decide) only [run_pullContinue follows, run_returned follows]
  split
  · rfl
  · split
    · exact run_bootBody follows _ _
    · rename_i refused
      rw [run_returnIf follows _ _ _ (by decide), if_pos refused]
      rfl

end Follows

/-- **The build without coroutines** is `bootloaderAgent`, unless a loop does not end. -/
theorem call_bootloaderCoroutine (M : MemoryInterface σ) (crypto : Crypto) (table : SlotTable)
    (cfg : BootloaderAgentConfig) (memory : σ) :
    (bootloaderCoroutine M crypto table cfg memory).call = none ∨
      (bootloaderCoroutine M crypto table cfg memory).call =
        some ((bootloaderAgent M crypto table cfg memory).1.raised.1,
          (bootloaderAgent M crypto table cfg memory).1.raised.2,
          (bootloaderAgent M crypto table cfg memory).2) := by
  unfold bootloaderCoroutine bootloaderAgent
  simp (disch := decide) only [run_pullContinue call_follows, run_returnIf call_follows,
    run_bootstrapBody call_follows]
  split
  · exact Or.inr rfl
  · split
    · exact Or.inr rfl
    · generalize bootstrap M table cfg (getNewestFirmware M table true 0 0 memory).2.1.id
        (M.memoryOpen (getNewestFirmware M table true 0 0 memory).2.1.id .readOnly
          (getNewestFirmware M table true 0 0 memory).2.2).2.2 = outcome
      obtain ⟨failure, memory'⟩ := outcome
      cases failure with
      | some failure => exact Or.inr rfl
      | none =>
        simp only
        split
        · exact Or.inr rfl
        · split
          · rcases run_upgradeBody call_follows M crypto table cfg (fun _ _ _ => rfl) _ _ bootBody _
              with hung | ended
            · exact Or.inl hung
            · rw [ended]
              generalize upgrade M crypto table cfg
                (getNewestFirmware M table true 0 0 memory).2.1.version
                (getNewestFirmware M table false 0 0 memory').2.1.id
                (getNewestFirmware M table false 0 0 memory').2.2 = outcome
              obtain ⟨result, memory''⟩ := outcome
              cases result with
              | error failure => exact Or.inr rfl
              | ok bootId => exact Or.inr rfl
          · rw [run_validateBody call_follows]
            split
            · exact Or.inl rfl
            · exact Or.inr rfl

end Drivers

/-! ### On memory that never fails -/

theorem boundless_frames : Frames boundless Eq (fun _ _ => True) (fun _ => False) where
  refl := fun _ => rfl
  trans := Eq.trans
  opening := fun _ _ _ _ => rfl
  reading := fun _ _ _ _ => rfl
  writing := fun _ _ _ _ none => none.elim
  closing := fun _ _ => rfl

/-- A copy that ends has copied. -/
theorem swapChunkLoop_boundless (src dst : MemObject) (swapSize : Nat) (readSwap writeSwap : Bool)
    (fuel swapFull offset step : Nat) (buffer : List UInt8) (memory : Contents) :
    (swapChunkLoop boundless src dst swapSize readSwap writeSwap fuel swapFull offset step buffer
        memory).1 = .success ∨
      (swapChunkLoop boundless src dst swapSize readSwap writeSwap fuel swapFull offset step buffer
        memory).1 = .outOfFuel := by
  induction fuel generalizing swapFull offset step buffer memory with
  | zero => exact Or.inr rfl
  | succ fuel ih =>
      rw [swapChunkLoop]
      split
      · obtain ⟨piece, cutDown⟩ : ∃ piece, (if swapSize < (sizeOfInt swapFull + step) % 2 ^ 64 then
            swapSize - swapFull else step) = piece := ⟨_, rfl⟩
        obtain ⟨data, read⟩ : ∃ data, readRange (memory src.id)
            (if readSwap = true then swapFull else offset) piece = data := ⟨_, rfl⟩
        have length : data.length = piece := by rw [← read, readRange_length]
        have copied : ((splice buffer 0 data).take piece).length = piece := by
          rw [← length, take_splice_zero]
        simp only [boundless, cutDown, read, copied, ne_eq, not_true_eq_false, if_false]
        exact ih _ _ _ _ _
      · exact Or.inl rfl

theorem swapSlotsLoop_boundless (obj1 obj2 objSwap : MemObject) (size bufferSize fuel offset
    swapSize : Nat) (buffer : List UInt8) (memory : Contents) :
    (swapSlotsLoop boundless obj1 obj2 objSwap size bufferSize fuel offset swapSize buffer
        memory).1 = .success ∨
      (swapSlotsLoop boundless obj1 obj2 objSwap size bufferSize fuel offset swapSize buffer
        memory).1 = .outOfFuel := by
  induction fuel generalizing offset swapSize buffer memory with
  | zero => exact Or.inr rfl
  | succ fuel ih =>
      rw [swapSlotsLoop]
      split
      · obtain ⟨piece, cutDown⟩ : ∃ piece, (if size < (sizeOfInt offset + swapSize) % 2 ^ 64 then
            size - offset else swapSize) = piece := ⟨_, rfl⟩
        simp only [cutDown]
        split
        · rename_i failed
          exact Or.inr ((swapChunkLoop_boundless _ _ _ _ _ _ _ _ _ _ _).resolve_left failed)
        · exact ih _ _ _ _
      · exact Or.inl rfl

/-- **A swap that ends succeeds.** -/
theorem swapSlots_boundless (obj1 obj2 objSwap : MemObject) (swapSize : Nat) (buffer : List UInt8)
    (bufferSize : Nat) (memory : Contents) :
    (swapSlots boundless obj1 obj2 objSwap swapSize buffer bufferSize memory).1 = .success ∨
      (swapSlots boundless obj1 obj2 objSwap swapSize buffer bufferSize memory).1 =
        .outOfFuel := by
  have read : ∀ obj, readFirmwareManifest boundless obj memory =
      (.success, manifestAt memory obj.id, memory) := fun obj =>
    readFirmwareManifest_within (boundless_within fun _ => sizeofManifest) memory le_rfl
  rw [swapSlots, read]
  simp only [read, ne_eq, not_true_eq_false, if_false]
  exact swapSlotsLoop_boundless _ _ _ _ _ _ _ _ _ _

section Boundless

variable (crypto : Crypto) (table : SlotTable) (cfg : BootloaderAgentConfig)

/-- The slots and the bootloader context are the same. -/
def SameContents (memory memory' : Contents) : Prop :=
  (∀ slot ∈ table.slots, memory slot.id = memory' slot.id) ∧
    bootloaderCtx cfg memory = bootloaderCtx cfg memory'

/-- Two drivers end alike: both load the same object or neither loads one, over the same contents;
or neither ends. -/
def SameEnd : DriverEnd Contents → DriverEnd Contents → Prop
  | .loads id memory, .loads id' memory' => id = id' ∧ SameContents table cfg memory memory'
  | .stops memory, .stops memory' => SameContents table cfg memory memory'
  | .hangs, .hangs => True
  | _, _ => False

theorem SameEnd.refl (ended : DriverEnd Contents) : SameEnd table cfg ended ended := by
  cases ended with
  | loads id memory => exact ⟨rfl, fun _ _ => rfl, rfl⟩
  | stops memory => exact ⟨fun _ _ => rfl, rfl⟩
  | hangs => trivial

/-- The drivers of the two builds end alike. -/
def DriversAgree (memory : Contents) : Prop :=
  SameEnd table cfg (contiki (bootloaderCoroutine boundless crypto table cfg memory))
    (zephyr (bootloaderCoroutine boundless crypto table cfg memory))

/-- What `verify_object` says of the newest slot after the bootstrap. -/
def updateVerdict (memory : Contents) : PullError :=
  (verifyObject boundless crypto
    ⟨(newestSlot table (bootstrapped table cfg memory)).id, .readOnly⟩ cfg.safestore cfg.buffer
    cfg.bufferSize (bootstrapped table cfg memory)).1

/-- After the bootstrap a slot is newer than the newest bootable one, and verifying the newest
returns an error. -/
def UpdateRefused (memory : Contents) : Prop :=
  (newestBootable table memory).version <
      (newestSlot table (bootstrapped table cfg memory)).version ∧
    updateVerdict crypto table cfg memory ≠ .success ∧
    updateVerdict crypto table cfg memory ≠ .outOfFuel

/-- The swap of an upgrade. -/
def boundlessSwap (idNewestNonBootable : MemId) (memory : Contents) :
    PullError × List UInt8 × Contents :=
  swapSlots boundless (swapObject idNewestNonBootable)
    (swapObject (oldestBootable table memory).id) (swapObject cfg.swapId) cfg.swapSize
    (List.replicate agentBufferSize 0) agentBufferSize memory

section Run

open Coroutine

variable {ρ : Type} {run : Coroutine Contents → ρ} {stop : BootEvent → EventData → Contents → ρ}
  {hang : ρ} (follows : Follows run stop hang)

include follows

/-- The run of an agent up to step (4). -/
theorem run_boundless (memory : Contents) :
    run (bootloaderCoroutine boundless crypto table cfg memory) =
      if (newestBootable table memory).version <
          (newestSlot table (bootstrapped table cfg memory)).version then
        run (upgradeBody boundless crypto table cfg (newestBootable table memory).version
          (newestSlot table (bootstrapped table cfg memory)).id bootBody
          (bootstrapped table cfg memory))
      else run (validateBody boundless crypto cfg ⟨(newestBootable table memory).id, .readOnly⟩
        (newestBootable table memory).id (bootstrapped table cfg memory)) := by
  have within := boundless_within fun _ => sizeofManifest
  have scan : getNewestFirmware boundless table true 0 0 memory =
      (.success, newestBootable table memory, memory) :=
    getOrderedFirmware_within within memory table _ _ _ _ fun _ _ => le_rfl
  have scanAll : getNewestFirmware boundless table false 0 0 (bootstrapped table cfg memory) =
      (.success, newestSlot table (bootstrapped table cfg memory),
        bootstrapped table cfg memory) :=
    getOrderedFirmware_within within _ table _ _ _ _ fun _ _ => le_rfl
  unfold bootloaderCoroutine
  simp (disch := decide) only [run_pullContinue follows, run_returnIf follows,
    run_bootstrapBody follows, scan, within.opens _ _ (show MemMode.readOnly ≠ .writeAll by decide),
    bootstrap_within table cfg within memory (fun _ _ => le_rfl) (by decide), scanAll, ne_eq,
    not_true_eq_false, if_false, apply_ite run]

/-- Step (4) once the newest image is verified. -/
theorem run_upgrade_boundless (version : Nat) (memory : Contents) :
    run (upgradeBody boundless crypto table cfg version
        (newestSlot table (bootstrapped table cfg memory)).id bootBody
        (bootstrapped table cfg memory)) =
      if updateVerdict crypto table cfg memory = .outOfFuel then hang
      else if updateVerdict crypto table cfg memory ≠ .success then
        run (.raises .continue .validateNonBootableInvalid
          (.error (updateVerdict crypto table cfg memory)) (bootstrapped table cfg memory)
          (swapBody boundless table cfg version
            (newestSlot table (bootstrapped table cfg memory)).id bootBody
            (bootstrapped table cfg memory)))
      else run (swapBody boundless table cfg version
        (newestSlot table (bootstrapped table cfg memory)).id bootBody
        (bootstrapped table cfg memory)) := by
  have within := boundless_within fun _ => sizeofManifest
  have kept := verifyObject_frames boundless_frames crypto
    ⟨(newestSlot table (bootstrapped table cfg memory)).id, .readOnly⟩ cfg.safestore cfg.buffer
    cfg.bufferSize (bootstrapped table cfg memory)
  unfold upgradeBody
  simp (disch := decide) only [run_pullContinue follows, run_returnIf follows, run_returned follows,
    within.opens _ _ (show MemMode.readOnly ≠ .writeAll by decide), within.closes, ← kept, ne_eq,
    not_true_eq_false, if_false, apply_ite run]
  rfl

/-- **The swap that follows boots or never ends.** -/
theorem run_swap_boundless (version : Nat) (id : MemId) (memory : Contents) :
    run (swapBody boundless table cfg version id bootBody memory) =
      if (boundlessSwap table cfg id memory).1 = .outOfFuel then hang
      else stop .boot (.bootId (oldestBootable table memory).id)
        (boundlessSwap table cfg id memory).2.2 := by
  have within := boundless_within fun _ => sizeofManifest
  have scan : getOldestFirmware boundless table true 0 version memory =
      (.success, oldestBootable table memory, memory) := by
    rw [getOldestFirmware, getOrderedFirmware_within within memory table _ _ _ _ fun _ _ => le_rfl,
      selectSlot_table_congr _ _ _ table 0 0 version 0]
    rfl
  rw [run_swapBody follows boundless table cfg bootBody (fun _ => rfl) scan
    (show _ = boundlessSwap table cfg id memory from rfl), run_bootBody follows]
  split
  · rfl
  · rename_i ended
    have success : (boundlessSwap table cfg id memory).1 = .success :=
      (swapSlots_boundless _ _ _ _ _ _ _).resolve_right ended
    rw [if_neg (not_not.mpr success), within.closes]

end Run

/-- An update that is not refused leads both builds the same way. -/
theorem driversAgree_of_accepted {memory : Contents}
    (accepted : ¬ UpdateRefused crypto table cfg memory) :
    DriversAgree crypto table cfg memory := by
  unfold DriversAgree
  rw [run_boundless crypto table cfg contiki_follows, run_boundless crypto table cfg zephyr_follows]
  by_cases newer : (newestBootable table memory).version <
      (newestSlot table (bootstrapped table cfg memory)).version
  · rw [if_pos newer, if_pos newer, run_upgrade_boundless crypto table cfg contiki_follows,
      run_upgrade_boundless crypto table cfg zephyr_follows]
    rcases eq_or_ne (updateVerdict crypto table cfg memory) .outOfFuel with hung | hung
    · rw [if_pos hung, if_pos hung]
      trivial
    · have valid : updateVerdict crypto table cfg memory = .success := by
        by_contra invalid
        exact accepted ⟨newer, invalid, hung⟩
      rw [if_neg hung, if_neg hung, if_neg (not_not.mpr valid), if_neg (not_not.mpr valid),
        run_swap_boundless table cfg contiki_follows, run_swap_boundless table cfg zephyr_follows]
      exact SameEnd.refl table cfg _
  · rw [if_neg newer, if_neg newer, run_validateBody contiki_follows,
      run_validateBody zephyr_follows]
    exact SameEnd.refl table cfg _

/-- A refused update stops one build, and the other swaps it in. -/
theorem drivers_part {memory : Contents} (refused : UpdateRefused crypto table cfg memory) :
    ¬ DriversAgree crypto table cfg memory := by
  obtain ⟨newer, invalid, ended⟩ := refused
  unfold DriversAgree
  rw [run_boundless crypto table cfg contiki_follows, run_boundless crypto table cfg zephyr_follows,
    if_pos newer, if_pos newer, run_upgrade_boundless crypto table cfg contiki_follows,
    run_upgrade_boundless crypto table cfg zephyr_follows, if_neg ended, if_neg ended,
    if_pos invalid, if_pos invalid]
  have stopped : ∀ (data : EventData) (memory : Contents) (rest : Coroutine Contents),
      contiki (.raises .continue .validateNonBootableInvalid data memory rest) =
        .stops memory := fun _ _ _ => rfl
  have passed : ∀ (data : EventData) (memory : Contents) (rest : Coroutine Contents),
      zephyr (.raises .continue .validateNonBootableInvalid data memory rest) = zephyr rest :=
    fun _ _ _ => rfl
  rw [stopped, passed, run_swap_boundless table cfg zephyr_follows]
  split
  · exact fun same => same
  · exact fun same => same

/-- **Exactly when the two builds agree**: no update is refused. -/
theorem driversAgree_iff (memory : Contents) :
    DriversAgree crypto table cfg memory ↔ ¬ UpdateRefused crypto table cfg memory :=
  ⟨fun agree refused => drivers_part crypto table cfg refused agree,
    driversAgree_of_accepted crypto table cfg⟩

end Boundless

/-- The unsigned update in slot `2`: one driver stops, the other boots it. -/
theorem unsignedUpdate_parts :
    ¬ DriversAgree zeroRefusing twoSlots twoSlotsConfig unsignedUpdate := by
  have kept : bootstrapped twoSlots twoSlotsConfig unsignedUpdate = unsignedUpdate :=
    if_neg (by decide)
  have newest : (newestSlot twoSlots unsignedUpdate).id = 2 := by decide
  have unsigned : verifyManifest zeroRefusing (manifestAt unsignedUpdate 2)
      twoSlotsConfig.safestore = .generic := by decide
  have refused : updateVerdict zeroRefusing twoSlots twoSlotsConfig unsignedUpdate =
      .generic := by
    have read : readFirmwareManifest boundless ⟨2, .readOnly⟩ unsignedUpdate =
        (.success, manifestAt unsignedUpdate 2, unsignedUpdate) :=
      readFirmwareManifest_within (boundless_within fun _ => sizeofManifest) unsignedUpdate le_rfl
    rw [updateVerdict, kept, newest, verifyObject, read]
    simp only [unsigned]
    rfl
  refine drivers_part _ _ _ ⟨?_, ?_, ?_⟩
  · rw [kept]
    decide
  · rw [refused]
    decide
  · rw [refused]
    decide

end Upkit
