/-
**A device over its whole life.**

Any contents to begin with, and then in any order: resets, whatever the device is doing at that
moment, starts of the state machine, and calls of it with any input. The library of ranked places
says what this amounts to; its places are the slots, and their ranks are the versions in them.

* `fsm_call` — what one call of the state machine does to the slots: nothing, or it opens the oldest
  slot, or it writes to the one that is open.
* `lifetime_simulated` — every step of a device is answered by steps of ranked places.
* `neverOlder` — so whatever a reset loads is verified, no slot holds anything newer, and nothing
  newer has ever been loaded before.
-/

import Upkit.Agents.Reset
import Upkit.Agents.FirstBoot
import Upkit.Network.RunningImage
import Upkit.Lib.Ranks

namespace Upkit

open Bytes

/-! ### One call of the state machine -/

section Calls

variable (layout : PlainLayout) (crypto : Crypto) (table : SlotTable) (sf : Safestore)

/-- A state machine that writes to a slot. -/
def WritesTo (ctx : FsmCtx) (target : MemId) : Prop :=
  ctx.state = .receiveFirmware ∧ ctx.pipeline = .buffer ∧ ctx.writerCtx.obj.id = target

/-- How a call treats the slots. -/
inductive SlotUse (ctx ctx' : FsmCtx) (memory memory' : Contents) : Prop
  | idles : memory' = memory → Resting ctx' → SlotUse ctx ctx' memory memory'
  | arms : (∀ id, id ≠ (oldestSlot table memory).id → memory' id = memory id) →
      Resting ctx' ∨ WritesTo ctx' (oldestSlot table memory).id → SlotUse ctx ctx' memory memory'
  | writes (target : MemId) : WritesTo ctx target → (∀ id, id ≠ target → memory' id = memory id) →
      Resting ctx' ∨ WritesTo ctx' target → SlotUse ctx ctx' memory memory'

variable {layout crypto table sf}

/-- **What a call does to the slots.** -/
theorem fsm_call (input : FsmInput) {ctx : FsmCtx} {memory : Contents}
    (settled : Resting ctx ∨ ∃ target, WritesTo ctx target) :
    SlotUse table ctx (fsm (plain layout) crypto table sf input ctx memory).ctx memory
      (fsm (plain layout) crypto table sf input ctx memory).memory := by
  rcases settled with ⟨notFirmware, notManifest, notVerify⟩ | ⟨target, phase, buffers, writer⟩
  · have early : ctx.state = .clean ∨ ctx.state = .idle ∨ ctx.state = .startUpdate →
        SlotUse table ctx (fsm (plain layout) crypto table sf input ctx memory).ctx memory
          (fsm (plain layout) crypto table sf input ctx memory).memory := by
      intro phase
      exact .idles (fsm_early (plain layout) crypto table sf input memory phase).1
        (fsm_early_resting (plain layout) crypto table sf input memory phase)
    cases phase : ctx.state with
    | clean => exact early (Or.inl phase)
    | idle => exact early (Or.inr (Or.inl phase))
    | startUpdate => exact early (Or.inr (Or.inr phase))
    | verifyManifest => exact absurd phase notManifest
    | verifyFirmware => exact absurd phase notVerify
    | receiveFirmware => exact absurd phase notFirmware
    | reboot =>
        rw [fsm_reboot (plain layout) crypto table sf input memory phase]
        exact .idles rfl (.of_state phase (by decide))
    | receiveManifest =>
        rcases fsm_receiveManifest_cases (plain layout) crypto table sf memory phase with
          ⟨same, cleaned | ⟨_, waits⟩⟩ | ⟨_, call⟩
        · exact .idles same (.of_state cleaned (by decide))
        · exact .idles same (.of_state waits (by decide))
        · -- The slot that is armed is the oldest one, if the scan gets that far.
          have found := getOldestFirmware_oldestSlot layout table
            (ctx.collected input.buf.data).configured.id memory
          have frames := fsmArm_frames (plain_frames layout (oldestSlot table memory).id) table
            (fun _ wrong => MemMode.noConfusion wrong)
            (input.buf.data.drop (sizeofManifest - ctx.processed))
            (ctx.collected input.buf.data).configured memory rfl
            (fun scanned => ⟨fun _ => congrArg Candidate.id (found scanned),
              fun obj same => same.trans (congrArg Candidate.id (found scanned))⟩)
          obtain ⟨_, _, outcome⟩ := fsmArm_ctx (plain layout) table
            (input.buf.data.drop (sizeofManifest - ctx.processed))
            (ctx.collected input.buf.data).configured memory rfl
          rw [call]
          refine .arms frames ?_
          rcases outcome with cleaned | ⟨armed, buffers, _, scanned, target⟩
          · exact Or.inl (.of_state cleaned (by decide))
          · exact Or.inr ⟨armed, buffers, target.trans (congrArg Candidate.id (found scanned))⟩
  · have frames := fsmReceiveFirmware_frames (plain_frames layout target) crypto sf
      (fun _ wrong => MemMode.noConfusion wrong) input.buf.data ctx memory buffers writer
    obtain ⟨_, _, outcome⟩ := fsmReceiveFirmware_ctx (plain layout) crypto sf input.buf.data ctx
      memory phase buffers
    rw [fsm_receiveFirmware (plain layout) crypto table sf memory phase]
    refine .writes target ⟨phase, buffers, writer⟩ frames ?_
    rcases outcome with cleaned | ⟨armed, buffers', _, kept⟩ | ⟨_, _, idle | reboot⟩
    · exact Or.inl (.of_state cleaned (by decide))
    · exact Or.inr ⟨armed, buffers', (congrArg MemObject.id kept).trans writer⟩
    · exact Or.inl (.of_state idle (by decide))
    · exact Or.inl (.of_state reboot (by decide))

end Calls

/-! ### Lives -/

/-- A device: what its memory holds, the state machine of its application, when that is running, and
the versions of the images that were loaded, the latest first. -/
structure Device where
  memory : Contents
  app : Option FsmCtx
  booted : List Nat

section Lives

variable (board : Board) (crypto : Crypto) (sf : Safestore)

/-- The driver on a device that is reset. -/
def Device.reset (device : Device) : DriverEnd Contents :=
  contiki (bootloaderCoroutine (plain board.layout) crypto board.table board.cfg device.memory)

/-- What can happen to a device: a reset, whatever it is doing, after which the application begins
with its static variables as they start or the bootloader stays where it is; and, as long as the
application runs, `fsm_init` and calls of `fsm` with any input. A reset finds no signed manifest but
those of whole images; what else the slots hold is arbitrary. -/
inductive Device.Step : Device → Device → Prop
  | loads {device : Device} {id : MemId} {after : Contents} :
      SignedWhole board crypto (bootstrapped board.table board.cfg device.memory) →
      device.reset board crypto = .loads id after →
      Device.Step device ⟨after, some FsmCtx.zero, versionAt after id :: device.booted⟩
  | stops {device : Device} {after : Contents} :
      SignedWhole board crypto (bootstrapped board.table board.cfg device.memory) →
      device.reset board crypto = .stops after →
      Device.Step device ⟨after, none, device.booted⟩
  | inits {device : Device} {ctx : FsmCtx} (rngInit : PullError) : device.app = some ctx →
      Device.Step device
        ⟨(fsmInit (plain board.layout) board.table rngInit ctx device.memory).2.2,
          some (fsmInit (plain board.layout) board.table rngInit ctx device.memory).2.1,
          device.booted⟩
  | calls {device : Device} {ctx : FsmCtx} (input : FsmInput) : device.app = some ctx →
      Device.Step device
        ⟨(fsm (plain board.layout) crypto board.table sf input ctx device.memory).memory,
          some (fsm (plain board.layout) crypto board.table sf input ctx device.memory).ctx,
          device.booted⟩

/-- The lives of a device: any contents, and nothing loaded yet. -/
def lifetime : TransitionSystem Device :=
  ⟨fun device => device.app = none ∧ device.booted = [], Device.Step board crypto sf⟩

/-! ### The slots as ranked places -/

variable {board crypto sf}

/-- The versions in the slots. -/
def slotRanks (board : Board) (memory : Contents) (place : {id // board.IsSlot id}) : Nat :=
  versionAt memory place.1

/-- A device and the ranked places it is seen as. The open place is the slot that is written to. -/
structure Mirrors (board : Board) (device : Device) (places : Ranks {id // board.IsSlot id} Nat) :
    Prop where
  rank : places.rank = slotRanks board device.memory
  drawn : places.drawn = device.booted
  cleared : device.booted ≠ [] → firstBoot (bootloaderCtx board.cfg device.memory) = false
  app : ∀ ctx, device.app = some ctx →
    Resting ctx ∨ ∃ place, places.opened = some place ∧ WritesTo ctx place.1

/-- A memory of which one slot is another. -/
theorem slotRanks_update {memory memory' : Contents} (place : {id // board.IsSlot id})
    (others : ∀ id, id ≠ place.1 → memory' id = memory id) :
    slotRanks board memory' =
      Function.update (slotRanks board memory) place (versionAt memory' place.1) := by
  funext other
  by_cases same : other = place
  · rw [same, Function.update_self]
    rfl
  · rw [Function.update_of_ne same, slotRanks, slotRanks, versionAt, versionAt, manifestAt,
      manifestAt, others other.1 fun equal => same (Subtype.ext equal)]

/-- Writing to a slot leaves the bootloader context alone. -/
theorem bootloaderCtx_others {memory memory' : Contents} (place : {id // board.IsSlot id})
    (others : ∀ id, id ≠ place.1 → memory' id = memory id) :
    bootloaderCtx board.cfg memory' = bootloaderCtx board.cfg memory := by
  rw [bootloaderCtx, bootloaderCtx, others _ place.2.ne_ctx]

/-- Some slot other than the oldest one is as new. -/
theorem oldest_outranked (memory : Contents)
    (several : ∃ first ∈ board.table.slots, ∃ second ∈ board.table.slots, first.id ≠ second.id) :
    ∃ place other : {id // board.IsSlot id}, place.1 = (oldestSlot board.table memory).id ∧
      place ≠ other ∧ slotRanks board memory place ≤ slotRanks board memory other := by
  obtain ⟨version, minimal⟩ := oldestSlot_spec board.table memory
  obtain ⟨oldest, member, found⟩ := selectSlot_table_mem false false (versionAt memory) board.table
    0 0
  have isOldest : (oldestSlot board.table memory).id = oldest.id := by
    rw [oldestSlot, found]
    rfl
  have another : ∃ slot ∈ board.table.slots, oldest.id ≠ slot.id := by
    obtain ⟨first, inTable, second, inTable', apart⟩ := several
    by_cases same : oldest.id = first.id
    · exact ⟨second, inTable', by rw [same]; exact apart⟩
    · exact ⟨first, inTable, same⟩
  obtain ⟨slot, inTable, apart⟩ := another
  refine ⟨⟨oldest.id, oldest, member, rfl⟩, ⟨slot.id, slot, inTable, rfl⟩, isOldest.symm,
    fun same => apart (congrArg Subtype.val same), ?_⟩
  have least := minimal slot inTable
  rw [version, isOldest] at least
  exact least

/-- What a reset does with the ranked places: on the first one they start anew, later their ranks are
only moved. -/
theorem reset_moves {device : Device} {places : Ranks {id // board.IsSlot id} Nat}
    {after : Contents}
    (whole : SignedWhole board crypto (bootstrapped board.table board.cfg device.memory))
    (tracks : Mirrors board device places) (leaves : (device.reset board crypto).Leaves after) :
    Ranks.Step places ⟨slotRanks board after, none, places.drawn⟩ ∧
      firstBoot (bootloaderCtx board.cfg after) = false := by
  have kept := (contiki_boot board crypto device.memory).kept whole leaves
  have cleared := firstBoot_bootstrapped board.table board.cfg device.memory
  rw [← kept.ctx] at cleared
  refine ⟨?_, cleared⟩
  by_cases first : device.booted = []
  · have nothing : places.drawn = [] := tracks.drawn.trans first
    rw [nothing]
    exact Ranks.Step.restart _ nothing
  · have same : bootstrapped board.table board.cfg device.memory = device.memory :=
      if_neg (by rw [tracks.cleared first]; decide)
    rw [same] at kept
    refine Ranks.Step.moves _ fun place => ?_
    obtain ⟨other, isSlot, holds⟩ := kept.forth place.1 place.2
    refine ⟨⟨other, isSlot⟩, le_of_eq ?_⟩
    rw [tracks.rank]
    exact (congrArg Manifest.getVersion holds).symm

/-- **A reset that loads** draws the highest rank. -/
theorem loads_draws {device : Device} {places : Ranks {id // board.IsSlot id} Nat} {id : MemId}
    {after : Contents}
    (whole : SignedWhole board crypto (bootstrapped board.table board.cfg device.memory))
    (tracks : Mirrors board device places) (loads : device.reset board crypto = .loads id after) :
    ∃ places', Relation.ReflTransGen Ranks.Step places places' ∧
      Mirrors board ⟨after, some FsmCtx.zero, versionAt after id :: device.booted⟩
        places' := by
  obtain ⟨moves, cleared⟩ := reset_moves whole tracks
    (by rw [loads]; rfl : (device.reset board crypto).Leaves after)
  have boot := contiki_boot board crypto device.memory
  rw [show contiki _ = DriverEnd.loads id after from loads] at boot
  obtain ⟨bestIs, bestVersion⟩ := board.newestBootable_isSlot device.memory
  have kept : (newestBootable board.table device.memory).version =
      versionAt (bootstrapped board.table board.cfg device.memory)
        (newestBootable board.table device.memory).id :=
    (bootstrapped_version device.memory).symm
  obtain ⟨isSlot, newest⟩ := boot.loads_newest bestIs kept whole
  have draws : Ranks.Step ⟨slotRanks board after, none, places.drawn⟩
      ⟨slotRanks board after, none, versionAt after id :: places.drawn⟩ :=
    Ranks.Step.draws (⟨id, isSlot⟩ : {id // board.IsSlot id}) rfl
      fun other => newest other.1 other.2
  refine ⟨_, .tail (.single moves) draws, rfl, ?_, fun _ => cleared, ?_⟩
  · exact congrArg (versionAt after id :: ·) tracks.drawn
  · intro ctx running
    rw [← Option.some.inj running]
    exact Or.inl (.of_state rfl (by decide))

/-- **A call of the state machine** opens a place that another one outranks, or writes to the open
one. -/
theorem calls_write
    (several : ∃ first ∈ board.table.slots, ∃ second ∈ board.table.slots, first.id ≠ second.id)
    {device : Device} {places : Ranks {id // board.IsSlot id} Nat} {ctx : FsmCtx} (input : FsmInput)
    (tracks : Mirrors board device places) (running : device.app = some ctx) :
    ∃ places', Relation.ReflTransGen Ranks.Step places places' ∧
      Mirrors board ⟨(fsm (plain board.layout) crypto board.table sf input ctx
          device.memory).memory,
        some (fsm (plain board.layout) crypto board.table sf input ctx device.memory).ctx,
        device.booted⟩ places' := by
  have settled : Resting ctx ∨ ∃ target, WritesTo ctx target :=
    (tracks.app ctx running).imp_right fun ⟨place, _, writes⟩ => ⟨place.1, writes⟩
  have call := @fsm_call board.layout crypto board.table sf input ctx device.memory settled
  generalize fsm (plain board.layout) crypto board.table sf input ctx device.memory = result at call
  -- A place is given whatever version the slot then holds.
  have written : ∀ place : {id // board.IsSlot id},
      (∀ id, id ≠ place.1 → result.memory id = device.memory id) →
      Resting result.ctx ∨ WritesTo result.ctx place.1 →
      Mirrors board ⟨result.memory, some result.ctx, device.booted⟩
        ⟨Function.update (slotRanks board device.memory) place
          (versionAt result.memory place.1), some place, device.booted⟩ := by
    intro place others outcome
    refine ⟨(slotRanks_update place others).symm, rfl, fun before => ?_, fun ctx' same => ?_⟩
    · rw [bootloaderCtx_others place others]
      exact tracks.cleared before
    · rw [← Option.some.inj same]
      exact outcome.imp_right fun writes => ⟨place, rfl, writes⟩
  obtain ⟨rank, opened, drawn⟩ := places
  obtain ⟨rfl, rfl, cleared, app⟩ := tracks
  cases call with
  | idles same rests =>
      refine ⟨_, .refl, ?_, rfl, ?_, fun ctx' running' => ?_⟩
      · rw [same]
      · rw [same]
        exact cleared
      · rw [← Option.some.inj running']
        exact Or.inl rests
  | arms others outcome =>
      obtain ⟨place, other, isOldest, apart, below⟩ := oldest_outranked device.memory several
      rw [← isOldest] at others outcome
      exact ⟨_, .tail (.single (.opens place other apart below)) (.writes place _ rfl),
        written place others outcome⟩
  | writes target writesTo others outcome =>
      rcases app ctx running with ⟨notFirmware, _⟩ | ⟨place, isOpen, _, _, writer⟩
      · exact absurd writesTo.1 notFirmware
      · have same : target = place.1 := writesTo.2.2.symm.trans writer
        subst same
        have opens : opened = some place := isOpen
        subst opens
        exact ⟨_, .single (.writes place _ rfl), written place others outcome⟩

/-- **A life is a run of ranked places.** -/
theorem lifetime_simulated
    (several : ∃ first ∈ board.table.slots, ∃ second ∈ board.table.slots, first.id ≠ second.id) :
    TransitionSystem.Simulation (lifetime board crypto sf) Ranks.system (Mirrors board) where
  starts := by
    rintro ⟨memory, app, booted⟩ ⟨off, nothing⟩
    refine ⟨⟨slotRanks board memory, none, []⟩, rfl, rfl, nothing.symm, fun before => ?_,
      fun ctx running => ?_⟩
    · exact absurd nothing before
    · rw [show app = none from off] at running
      exact absurd running (Option.some_ne_none ctx).symm
  steps := by
    intro device device' places tracks step
    cases step with
    | loads whole loaded => exact loads_draws whole tracks loaded
    | stops whole stopped =>
        obtain ⟨moves, cleared⟩ := reset_moves whole tracks
          (by rw [stopped]; rfl : (device.reset board crypto).Leaves _)
        exact ⟨_, .single moves, rfl, tracks.drawn, fun _ => cleared,
          fun ctx running => absurd running (Option.some_ne_none ctx).symm⟩
    | inits rngInit running =>
        rename_i ctx
        have same := fsmInit_frames (plain_reads board.layout) board.table
          (fun _ => MemMode.noConfusion) rngInit ctx device.memory
        refine ⟨places, .refl, ?_, tracks.drawn, ?_, fun ctx' running' => ?_⟩
        · rw [show (fsmInit (plain board.layout) board.table rngInit ctx device.memory).2.2 =
            device.memory from same]
          exact tracks.rank
        · rw [show (fsmInit (plain board.layout) board.table rngInit ctx device.memory).2.2 =
            device.memory from same]
          exact tracks.cleared
        · rw [← Option.some.inj running']
          exact Or.inl (.of_state (fsmInit_state (plain board.layout) board.table rngInit ctx
            device.memory).1 (by decide))
    | calls input running => exact calls_write several input tracks running

end Lives

theorem ownImages_bootstrapped :
    bootstrapped ownBoard.table ownBoard.cfg ownImages = ownImages := if_neg (by decide +kernel)

theorem ownImages_signedWhole : SignedWhole ownBoard mirrorCrypto
    (bootstrapped ownBoard.table ownBoard.cfg ownImages) := by
  rw [ownImages_bootstrapped]
  exact fun id isSlot _ => ownImages_whole id isSlot

/-- The board with signed images loads the one in its bootable slot. -/
theorem ownBoard_loads (app : Option FsmCtx) (booted : List Nat) :
    (Device.mk ownImages app booted).reset ownBoard mirrorCrypto = .loads 1 ownImages := by
  have boot := contiki_boot ownBoard mirrorCrypto ownImages
  have best : newestBootable ownBoard.table ownImages = ⟨1, 2, true, false⟩ := by decide +kernel
  rw [ownImages_bootstrapped, best] at boot
  exact boot.loads_inPlace (by decide +kernel) (ownImages_verified 1 (Or.inl rfl))

end Upkit
