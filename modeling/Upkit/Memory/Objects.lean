/-
**Memory objects: manifests in memory and the choice of a slot.**

`read_firmware_manifest`, `write_firmware_manifest`, `invalidate_object` and
`get_ordered_firmware`, the one loop behind `get_newest_firmware` and `get_oldest_firmware`.

On a plain memory the loop is a pure scan of the table (`getOrderedFirmware_plain`): `selectSlot`
keeps a best candidate and replaces it slot by slot. What the scan ends with:

* `selectSlot_newest`, `selectSlot_oldest` — without the preference, a slot of extreme version.
* `selectSlot_prefer` — once the candidate is bootable, preferring bootable slots is scanning the
  bootable slots only.
* `selectSlot_upgrade_ne` — an upgrade never takes its source for its destination.
-/

import Upkit.Memory.Manifest

namespace Upkit

open Bytes

section Functions

variable {σ : Type} (M : MemoryInterface σ)

/-- `read_firmware_manifest`. -/
def readFirmwareManifest (obj : MemObject) (memory : σ) : PullError × Manifest × σ :=
  let (ret, data, memory) := M.memoryRead obj sizeofManifest 0 memory
  if ret ≠ sizeofManifest then (.readManifest, Manifest.ofBytes data, memory)
  else (.success, Manifest.ofBytes data, memory)

/-- `write_firmware_manifest`. -/
def writeFirmwareManifest (obj : MemObject) (mt : Manifest) (memory : σ) : PullError × σ :=
  let (ret, memory) := M.memoryWrite obj mt.bytes 0 memory
  if ret ≠ sizeofManifest then (.writeManifest, memory) else (.success, memory)

/-- `invalidate_object`: the manifest of the object is overwritten with zeros. -/
def invalidateObject (id : MemId) (memory : σ) : PullError × σ :=
  let (err, obj, memory) := M.memoryOpen id .writeChunk memory
  if err ≠ .success then (.writeManifest, memory)
  else
    let (err, memory) := writeFirmwareManifest M obj (Manifest.ofBytes []) memory
    let (_, memory) := M.memoryClose obj memory
    if err ≠ .success then (.writeManifest, memory) else (.success, memory)

/-- The variables of the loop of `get_ordered_firmware`: the caller's `id` and `version`, and
whether a slot has been taken yet. -/
structure Candidate where
  id : MemId
  version : Nat
  bootable : Bool
  first : Bool
  deriving DecidableEq, Repr

/-- The test of the loop: take the first slot, then a slot of better version, unless that gives up
a bootable candidate for a slot that is not. -/
def Candidate.yields (newest preferBootable : Bool) (best : Candidate) (bootable : Bool)
    (version : Nat) : Bool :=
  best.first || (!(preferBootable && (best.bootable && !bootable)) &&
    ((newest && decide (best.version < version)) || (!newest && decide (version < best.version))))

/-- One slot of the scan. -/
def Candidate.next (newest preferBootable : Bool) (best : Candidate) (slot : MemSlot)
    (version : Nat) : Candidate :=
  if best.yields newest preferBootable slot.bootable version then
    ⟨slot.id, version, slot.bootable, false⟩
  else best

/-- The loop of `get_ordered_firmware` over the rest of the table. -/
def getOrderedFirmwareLoop (newest preferBootable : Bool) :
    List MemSlot → Candidate → σ → PullError × Candidate × σ
  | [], best, memory => (.success, best, memory)
  | slot :: rest, best, memory =>
      let (err, obj, memory) := M.memoryOpen slot.id .readOnly memory
      if err ≠ .success then (.getNewest, best, memory)
      else
        let (err, mt, memory) := readFirmwareManifest M obj memory
        let (_, memory) := M.memoryClose obj memory
        if err ≠ .success then (.getNewest, best, memory)
        else
          getOrderedFirmwareLoop newest preferBootable rest
            (best.next newest preferBootable slot mt.getVersion) memory

/-- `get_ordered_firmware`: `id` and `version` are the values the caller passes in. -/
def getOrderedFirmware (table : SlotTable) (newest preferBootable : Bool) (id : MemId)
    (version : Nat) (memory : σ) : PullError × Candidate × σ :=
  getOrderedFirmwareLoop M newest preferBootable table.slots ⟨id, version, false, true⟩ memory

/-- `get_newest_firmware`. -/
def getNewestFirmware (table : SlotTable) (preferBootable : Bool) (id : MemId) (version : Nat)
    (memory : σ) : PullError × Candidate × σ :=
  getOrderedFirmware M table true preferBootable id version memory

/-- `get_oldest_firmware`. -/
def getOldestFirmware (table : SlotTable) (preferBootable : Bool) (id : MemId) (version : Nat)
    (memory : σ) : PullError × Candidate × σ :=
  getOrderedFirmware M table false preferBootable id version memory

end Functions

/-! ### The pure scan -/

section Scan

variable (newest preferBootable : Bool) (versionOf : MemId → Nat)

/-- The scan of the table, given the version stored in each slot. -/
def selectSlot : List MemSlot → Candidate → Candidate
  | [], best => best
  | slot :: rest, best =>
      selectSlot rest (best.next newest preferBootable slot (versionOf slot.id))

/-- The candidate a slot becomes when it is taken. -/
def MemSlot.candidate (slot : MemSlot) : Candidate :=
  ⟨slot.id, versionOf slot.id, slot.bootable, false⟩

theorem Candidate.next_cases (best : Candidate) (slot : MemSlot) :
    best.next newest preferBootable slot (versionOf slot.id) = slot.candidate versionOf ∨
      best.next newest preferBootable slot (versionOf slot.id) = best := by
  unfold Candidate.next
  split
  · exact Or.inl rfl
  · exact Or.inr rfl

/-- The scan ends with a slot of the table, or with the candidate it began with. -/
theorem selectSlot_mem (slots : List MemSlot) (best : Candidate) :
    (∃ slot ∈ slots, selectSlot newest preferBootable versionOf slots best =
        slot.candidate versionOf) ∨
      selectSlot newest preferBootable versionOf slots best = best := by
  induction slots generalizing best with
  | nil => exact Or.inr rfl
  | cons slot rest ih =>
      rw [selectSlot]
      rcases ih (best.next newest preferBootable slot (versionOf slot.id)) with
        ⟨found, member, same⟩ | same
      · exact Or.inl ⟨found, List.mem_cons_of_mem _ member, same⟩
      · rw [same]
        rcases Candidate.next_cases newest preferBootable versionOf best slot with took | kept
        · exact Or.inl ⟨slot, List.mem_cons_self, took⟩
        · exact Or.inr kept

/-- The first slot of a table is always taken. -/
theorem selectSlot_first (slot : MemSlot) (rest : List MemSlot) (id : MemId) (version : Nat) :
    selectSlot newest preferBootable versionOf (slot :: rest) ⟨id, version, false, true⟩ =
      selectSlot newest preferBootable versionOf rest (slot.candidate versionOf) := rfl

/-- A scan of a whole table ends with a slot of the table. -/
theorem selectSlot_table_mem (table : SlotTable) (id : MemId) (version : Nat) :
    ∃ slot ∈ table.slots,
      selectSlot newest preferBootable versionOf table.slots ⟨id, version, false, true⟩ =
        slot.candidate versionOf := by
  obtain ⟨slot, rest, split⟩ := List.exists_cons_of_ne_nil table.nonempty
  rw [split, selectSlot_first]
  rcases selectSlot_mem newest preferBootable versionOf rest (slot.candidate versionOf) with
    ⟨found, member, same⟩ | same
  · exact ⟨found, List.mem_cons_of_mem _ member, same⟩
  · exact ⟨slot, List.mem_cons_self, same⟩

/-- A scan does not depend on the values it is started with. -/
theorem selectSlot_table_congr (table : SlotTable) (id id' : MemId) (version version' : Nat) :
    selectSlot newest preferBootable versionOf table.slots ⟨id, version, false, true⟩ =
      selectSlot newest preferBootable versionOf table.slots ⟨id', version', false, true⟩ := by
  obtain ⟨slot, rest, split⟩ := List.exists_cons_of_ne_nil table.nonempty
  rw [split]
  rfl

end Scan

section Extremes

variable (versionOf : MemId → Nat)

/-- **The newest slot**: without the preference the scan ends with a maximal version. -/
theorem selectSlot_newest (slots : List MemSlot) (best : Candidate) (taken : best.first = false) :
    best.version ≤ (selectSlot true false versionOf slots best).version ∧
      ∀ slot ∈ slots, versionOf slot.id ≤ (selectSlot true false versionOf slots best).version := by
  induction slots generalizing best with
  | nil => exact ⟨le_rfl, fun _ member => absurd member List.not_mem_nil⟩
  | cons slot rest ih =>
      rw [selectSlot]
      by_cases better : best.version < versionOf slot.id
      · have took : best.next true false slot (versionOf slot.id) = slot.candidate versionOf := by
          simp [Candidate.next, Candidate.yields, taken, better, MemSlot.candidate]
        obtain ⟨above, rests⟩ := ih (slot.candidate versionOf) rfl
        rw [took]
        refine ⟨le_trans (le_of_lt better) above, fun other member => ?_⟩
        rcases List.mem_cons.mp member with rfl | inRest
        · exact above
        · exact rests other inRest
      · have kept : best.next true false slot (versionOf slot.id) = best := by
          simp [Candidate.next, Candidate.yields, taken, better]
        obtain ⟨above, rests⟩ := ih best taken
        rw [kept]
        refine ⟨above, fun other member => ?_⟩
        rcases List.mem_cons.mp member with rfl | inRest
        · exact le_trans (not_lt.mp better) above
        · exact rests other inRest

/-- **The oldest slot**: without the preference the scan ends with a minimal version. -/
theorem selectSlot_oldest (slots : List MemSlot) (best : Candidate) (taken : best.first = false) :
    (selectSlot false false versionOf slots best).version ≤ best.version ∧
      ∀ slot ∈ slots, (selectSlot false false versionOf slots best).version ≤ versionOf slot.id := by
  induction slots generalizing best with
  | nil => exact ⟨le_rfl, fun _ member => absurd member List.not_mem_nil⟩
  | cons slot rest ih =>
      rw [selectSlot]
      by_cases better : versionOf slot.id < best.version
      · have took : best.next false false slot (versionOf slot.id) = slot.candidate versionOf := by
          simp [Candidate.next, Candidate.yields, taken, better, MemSlot.candidate]
        obtain ⟨below, rests⟩ := ih (slot.candidate versionOf) rfl
        rw [took]
        refine ⟨le_trans below (le_of_lt better), fun other member => ?_⟩
        rcases List.mem_cons.mp member with rfl | inRest
        · exact below
        · exact rests other inRest
      · have kept : best.next false false slot (versionOf slot.id) = best := by
          simp [Candidate.next, Candidate.yields, taken, better]
        obtain ⟨below, rests⟩ := ih best taken
        rw [kept]
        refine ⟨below, fun other member => ?_⟩
        rcases List.mem_cons.mp member with rfl | inRest
        · exact le_trans below (not_lt.mp better)
        · exact rests other inRest

/-- A bootable candidate only ever yields to bootable slots. -/
theorem selectSlot_prefer (newest : Bool) (slots : List MemSlot) (best : Candidate)
    (taken : best.first = false) (bootable : best.bootable = true) :
    selectSlot newest true versionOf slots best =
      selectSlot newest false versionOf (slots.filter (·.bootable)) best := by
  induction slots generalizing best with
  | nil => rfl
  | cons slot rest ih =>
      rw [selectSlot]
      by_cases boots : slot.bootable = true
      · have step : best.next newest true slot (versionOf slot.id) =
            best.next newest false slot (versionOf slot.id) := by
          simp [Candidate.next, Candidate.yields, boots]
        rw [List.filter_cons_of_pos boots, selectSlot, step]
        apply ih
        · rcases Candidate.next_cases newest false versionOf best slot with took | kept
          · rw [took]; rfl
          · rw [kept]; exact taken
        · rcases Candidate.next_cases newest false versionOf best slot with took | kept
          · rw [took]; exact boots
          · rw [kept]; exact bootable
      · have kept : best.next newest true slot (versionOf slot.id) = best := by
          simp [Candidate.next, Candidate.yields, taken, bootable, boots]
        rw [kept, List.filter_cons_of_neg boots]
        exact ih best taken bootable

/-- Looking for the oldest slot, a candidate is kept or given up for an older one. -/
theorem selectSlot_older (preferBootable : Bool) (slots : List MemSlot) (best : Candidate)
    (taken : best.first = false) :
    selectSlot false preferBootable versionOf slots best = best ∨
      (selectSlot false preferBootable versionOf slots best).version < best.version := by
  induction slots generalizing best with
  | nil => exact Or.inl rfl
  | cons slot rest ih =>
      rw [selectSlot]
      unfold Candidate.next
      split
      · rename_i yields
        have older : versionOf slot.id < best.version := by
          simp only [Candidate.yields, taken, Bool.false_or, Bool.false_and, Bool.not_false,
            Bool.true_and, Bool.and_eq_true, decide_eq_true_eq] at yields
          exact yields.2
        rcases ih ⟨slot.id, versionOf slot.id, slot.bootable, false⟩ rfl with same | below
        · rw [same]
          exact Or.inr older
        · exact Or.inr (lt_trans below older)
      · exact ih best taken

/-- A candidate that is not bootable is only kept when no slot is older. -/
theorem selectSlot_kept (slots : List MemSlot) (best : Candidate) (taken : best.first = false)
    (unbootable : best.bootable = false)
    (kept : selectSlot false true versionOf slots best = best) :
    ∀ slot ∈ slots, best.version ≤ versionOf slot.id := by
  induction slots with
  | nil => exact fun _ member => absurd member List.not_mem_nil
  | cons slot rest ih =>
      rw [selectSlot] at kept
      by_cases older : versionOf slot.id < best.version
      · have yields : best.next false true slot (versionOf slot.id) = slot.candidate versionOf := by
          simp [Candidate.next, Candidate.yields, taken, unbootable, older, MemSlot.candidate]
        rw [yields] at kept
        have version : best.version ≤ versionOf slot.id := by
          rcases selectSlot_older versionOf true rest (slot.candidate versionOf) rfl with
            stays | below
          · rw [stays] at kept
            exact le_of_eq (congrArg Candidate.version kept).symm
          · rw [kept] at below
            exact le_of_lt below
        omega
      · have stays : best.next false true slot (versionOf slot.id) = best := by
          simp [Candidate.next, Candidate.yields, taken, older]
        rw [stays] at kept
        intro other member
        rcases List.mem_cons.mp member with rfl | inRest
        · exact not_lt.mp older
        · exact ih kept other inRest

/-- **Source and destination of an upgrade differ.** When some slot is newer than the newest
bootable slot, found on versions `before` that the slot still has, the newest slot is not the
oldest bootable one. -/
theorem selectSlot_upgrade_ne (table : SlotTable) (before : MemId → Nat) (start : Candidate)
    (untaken : start.first = true)
    (keeps : versionOf (selectSlot true true before table.slots start).id =
      (selectSlot true true before table.slots start).version)
    (newer : (selectSlot true true before table.slots start).version <
      (selectSlot true false versionOf table.slots start).version) :
    (selectSlot false true versionOf table.slots start).id ≠
      (selectSlot true false versionOf table.slots start).id := by
  obtain ⟨slot, rest, split⟩ := List.exists_cons_of_ne_nil table.nonempty
  have took : ∀ (newest prefer : Bool) (versions : MemId → Nat),
      selectSlot newest prefer versions table.slots start =
        selectSlot newest prefer versions rest (slot.candidate versions) := by
    intro newest prefer versions
    rw [split, selectSlot]
    simp [Candidate.next, Candidate.yields, untaken, MemSlot.candidate]
  simp only [took] at keeps newer ⊢
  intro same
  -- Both candidates are slots that hold the maximal version.
  have versionEq : ∀ (newest prefer : Bool),
      (selectSlot newest prefer versionOf rest (slot.candidate versionOf)).version =
        versionOf (selectSlot newest prefer versionOf rest (slot.candidate versionOf)).id := by
    intro newest prefer
    rcases selectSlot_mem newest prefer versionOf rest (slot.candidate versionOf) with
      ⟨found, _, is⟩ | is
    · rw [is]; rfl
    · rw [is]; rfl
  have maximal : (slot.candidate versionOf).version ≤
      (selectSlot false true versionOf rest (slot.candidate versionOf)).version := by
    rw [versionEq false true, same, ← versionEq true false]
    exact (selectSlot_newest versionOf rest (slot.candidate versionOf) rfl).1
  -- So the first slot was never given up, although the newest bootable one is older.
  have first : selectSlot false true versionOf rest (slot.candidate versionOf) =
      slot.candidate versionOf := by
    rcases selectSlot_older versionOf true rest (slot.candidate versionOf) rfl with kept | below
    · exact kept
    · omega
  have old : versionOf (selectSlot true true before rest (slot.candidate before)).id <
      versionOf slot.id := by
    have top : versionOf slot.id = (selectSlot true false versionOf rest
        (slot.candidate versionOf)).version := by
      rw [versionEq true false, ← same, first]
      rfl
    omega
  by_cases boots : slot.bootable = true
  · rw [selectSlot_prefer before true rest (slot.candidate before) rfl boots] at old
    rw [selectSlot_prefer versionOf false rest (slot.candidate versionOf) rfl boots] at first
    obtain ⟨_, above⟩ := selectSlot_oldest versionOf (rest.filter (·.bootable))
      (slot.candidate versionOf) rfl
    rw [first] at above
    rcases selectSlot_mem true false before (rest.filter (·.bootable)) (slot.candidate before) with
      ⟨found, member, is⟩ | is
    · have bound := above found member
      rw [is] at old
      exact absurd old (not_lt.mpr bound)
    · rw [is] at old
      exact absurd old (lt_irrefl _)
  · -- A first slot that is not bootable yields to any older slot.
    have unbootable : (slot.candidate versionOf).bootable = false := by
      simpa [MemSlot.candidate] using boots
    have above := selectSlot_kept versionOf rest (slot.candidate versionOf) rfl unbootable first
    rcases selectSlot_mem true true before rest (slot.candidate before) with
      ⟨found, member, is⟩ | is
    · rw [is] at old
      exact absurd old (not_lt.mpr (above found member))
    · rw [is] at old
      exact absurd old (lt_irrefl _)

/-- What a scan for the newest version makes of a slot. -/
theorem Candidate.next_newest {best : Candidate} (taken : best.first = false) (slot : MemSlot) :
    best.next true false slot (versionOf slot.id) =
      if best.version < versionOf slot.id then slot.candidate versionOf else best := by
  simp [Candidate.next, Candidate.yields, taken, MemSlot.candidate]

/-- **A choice is stable**: when other slots only lose versions, the scan ends as before. -/
theorem selectSlot_lowered {lowered : MemId → Nat} (slots : List MemSlot) {best best' : Candidate}
    (taken : best.first = false) (taken' : best'.first = false)
    (lower : ∀ slot ∈ slots, lowered slot.id ≤ versionOf slot.id)
    (keeps : ∀ slot ∈ slots, slot.id = (selectSlot true false versionOf slots best).id →
      lowered slot.id = versionOf slot.id)
    (below : best'.version ≤ best.version)
    (same : selectSlot true false versionOf slots best = best → best' = best) :
    selectSlot true false lowered slots best' = selectSlot true false versionOf slots best := by
  induction slots generalizing best best' with
  | nil => exact same rfl
  | cons slot rest ih =>
      have lowerHere := lower slot List.mem_cons_self
      have keepsHere := keeps slot List.mem_cons_self
      have lowerRest := fun other member => lower other (List.mem_cons_of_mem slot member)
      have keepsRest := fun other member => keeps other (List.mem_cons_of_mem slot member)
      rw [selectSlot, Candidate.next_newest versionOf taken] at keepsHere same
      rw [selectSlot, selectSlot, Candidate.next_newest versionOf taken,
        Candidate.next_newest lowered taken']
      simp only [selectSlot, Candidate.next_newest versionOf taken] at keepsRest
      by_cases better : best.version < versionOf slot.id
      · rw [if_pos better] at keepsHere keepsRest same ⊢
        refine ih rfl ?_ lowerRest keepsRest ?_ fun final => ?_
        · split
          · rfl
          · exact taken'
        · split
          · exact lowerHere
          · exact le_of_lt (lt_of_le_of_lt below better)
        · have equal : lowered slot.id = versionOf slot.id := keepsHere (by rw [final]; rfl)
          rw [if_pos (by omega), MemSlot.candidate, MemSlot.candidate, equal]
      · rw [if_neg better] at keepsHere keepsRest same ⊢
        refine ih taken ?_ lowerRest keepsRest ?_ fun final => ?_
        · split
          · rfl
          · exact taken'
        · split
          · exact le_trans lowerHere (not_lt.mp better)
          · exact below
        · have equal := same final
          rw [if_neg (by rw [equal]; omega), equal]

/-- **The newest bootable slot is a stable choice** of a table that begins with a bootable one. -/
theorem selectSlot_table_lowered {lowered : MemId → Nat} {table : SlotTable} {first : MemSlot}
    {rest : List MemSlot} (slots : table.slots = first :: rest) (bootable : first.bootable = true)
    (id : MemId) (version : Nat)
    (lower : ∀ slot ∈ table.slots, lowered slot.id ≤ versionOf slot.id)
    (keeps : lowered (selectSlot true true versionOf table.slots ⟨id, version, false, true⟩).id =
      versionOf (selectSlot true true versionOf table.slots ⟨id, version, false, true⟩).id) :
    selectSlot true true lowered table.slots ⟨id, version, false, true⟩ =
      selectSlot true true versionOf table.slots ⟨id, version, false, true⟩ := by
  rw [slots, selectSlot_first] at keeps
  rw [slots] at lower ⊢
  rw [selectSlot_first, selectSlot_first, selectSlot_prefer lowered _ _ _ rfl bootable]
  rw [selectSlot_prefer versionOf _ _ _ rfl bootable] at keeps ⊢
  refine selectSlot_lowered versionOf _ rfl rfl (fun slot member => ?_)
    (fun slot _ chosen => by rw [chosen]; exact keeps) ?_ fun final => ?_
  · exact lower slot (List.mem_cons_of_mem _ (List.mem_filter.mp member).1)
  · exact lower first List.mem_cons_self
  · rw [final] at keeps
    have equal : lowered first.id = versionOf first.id := keeps
    rw [MemSlot.candidate, MemSlot.candidate, equal]

end Extremes

/-! ### The functions on a plain memory -/

/-- The manifest an object of a plain memory holds. -/
def manifestAt (memory : Contents) (id : MemId) : Manifest :=
  Manifest.ofBytes (readRange (memory id) 0 sizeofManifest)

/-- The version an object of a plain memory holds. -/
def versionAt (memory : Contents) (id : MemId) : Nat := (manifestAt memory id).getVersion

theorem manifestAt_bytes (memory : Contents) (id : MemId) :
    (manifestAt memory id).bytes = readRange (memory id) 0 sizeofManifest := by
  rw [manifestAt, Manifest.ofBytes_bytes (by rw [readRange_length])]
  exact List.take_of_length_le (by rw [readRange_length])

/-- Objects that agree on their first `256` bytes hold the same manifest. -/
theorem manifestAt_congr {memory other : Contents} {id id' : MemId}
    (same : ∀ address < sizeofManifest, memory id address = other id' address) :
    manifestAt memory id = manifestAt other id' := by
  rw [manifestAt, manifestAt, readRange_congr (memory id) fun address _ high =>
    same address (by omega)]

/-- A field of a manifest in memory is a range of the object. -/
theorem manifestAt_get (memory : Contents) (id : MemId) (field : Field) :
    (manifestAt memory id).get field = readRange (memory id) field.offset field.size := by
  rw [Manifest.get, manifestAt_bytes, slice_readRange _ field.within, Nat.zero_add]

/-- Objects that agree where the version is stored hold the same version. -/
theorem versionAt_congr {memory other : Contents} {id : MemId}
    (same : ∀ address, 72 ≤ address → address < 74 → memory id address = other id address) :
    versionAt memory id = versionAt other id := by
  rw [versionAt, versionAt, Manifest.getVersion, Manifest.getVersion, manifestAt_get,
    manifestAt_get]
  exact congrArg ofLE (readRange_congr _ same)

section Within

variable {M : MemoryInterface Contents} {limit : MemId → Nat} (within : PlainWithin M limit)
  (memory : Contents)

include within

theorem readFirmwareManifest_within {obj : MemObject} (fits : sizeofManifest ≤ limit obj.id) :
    readFirmwareManifest M obj memory = (.success, manifestAt memory obj.id, memory) := by
  rw [readFirmwareManifest, within.reads memory (by omega)]
  rfl

theorem writeFirmwareManifest_within {obj : MemObject} (mt : Manifest)
    (fits : sizeofManifest ≤ limit obj.id) :
    writeFirmwareManifest M obj mt memory =
      (.success, Function.update memory obj.id (writeRange (memory obj.id) 0 mt.bytes)) := by
  rw [writeFirmwareManifest, within.writes memory (by rw [mt.length_eq]; omega), mt.length_eq]
  rfl

theorem invalidateObject_within {id : MemId} (fits : sizeofManifest ≤ limit id) :
    invalidateObject M id memory =
      (.success, Function.update memory id
        (writeRange (memory id) 0 (Manifest.ofBytes []).bytes)) := by
  rw [invalidateObject, within.opens id memory (by decide)]
  simp only [@writeFirmwareManifest_within M limit within memory ⟨id, .writeChunk⟩ _ fits,
    within.closes]
  rfl

/-- **On a plain memory the loop is the pure scan.** -/
theorem getOrderedFirmwareLoop_within (newest preferBootable : Bool) (slots : List MemSlot)
    (fits : ∀ slot ∈ slots, sizeofManifest ≤ limit slot.id) (best : Candidate) :
    getOrderedFirmwareLoop M newest preferBootable slots best memory =
      (.success, selectSlot newest preferBootable (versionAt memory) slots best, memory) := by
  induction slots generalizing best with
  | nil => rfl
  | cons slot rest ih =>
      rw [getOrderedFirmwareLoop, within.opens slot.id memory (by decide)]
      simp only [@readFirmwareManifest_within M limit within memory ⟨slot.id, .readOnly⟩
        (fits slot List.mem_cons_self), within.closes]
      simp only [ne_eq, not_true_eq_false, if_false]
      exact ih (fun other member => fits other (List.mem_cons_of_mem _ member)) _

theorem getOrderedFirmware_within (table : SlotTable) (newest preferBootable : Bool) (id : MemId)
    (version : Nat) (fits : ∀ slot ∈ table.slots, sizeofManifest ≤ limit slot.id) :
    getOrderedFirmware M table newest preferBootable id version memory =
      (.success, selectSlot newest preferBootable (versionAt memory) table.slots
        ⟨id, version, false, true⟩, memory) :=
  getOrderedFirmwareLoop_within within memory newest preferBootable table.slots fits _

end Within

section Plain

variable (layout : PlainLayout) (memory : Contents)

theorem readFirmwareManifest_plain {obj : MemObject}
    (fits : sizeofManifest ≤ layout.limit obj.id) :
    readFirmwareManifest (plain layout) obj memory =
      (.success, manifestAt memory obj.id, memory) :=
  readFirmwareManifest_within (plain_within layout) memory fits

theorem getOrderedFirmware_plain (table : SlotTable) (newest preferBootable : Bool) (id : MemId)
    (version : Nat) (fits : ∀ slot ∈ table.slots, sizeofManifest ≤ layout.limit slot.id) :
    getOrderedFirmware (plain layout) table newest preferBootable id version memory =
      (.success, selectSlot newest preferBootable (versionAt memory) table.slots
        ⟨id, version, false, true⟩, memory) :=
  getOrderedFirmware_within (plain_within layout) memory table newest preferBootable id version
    fits

end Plain

end Upkit
