/-
**Which slot a scan of the table ends with.**

`get_ordered_firmware` over any memory from which the manifests of the table can be read:

* `getOrderedFirmwareLoop_readable` — the loop is then the pure scan, whatever the reads do to the
  memory.
* `selectSlot_best` — without the preference the scan ends with the first slot of extreme version.
* `selectSlot_leads`, `selectSlot_unled` — preferring bootable slots, it ends with the first bootable
  slot of extreme version if some bootable slot leads, that is, has a better version than every slot
  listed before it; if none does, the preference has no effect.
* `getOrderedFirmware_selects` — both, and exactly when the preference finds a bootable slot.
-/

import Upkit.Memory.Objects
import Mathlib.Data.List.MinMax

namespace Upkit

open Bytes

/-! ### The best slot -/

section Best

variable (newest : Bool) (versionOf : MemId → Nat)

/-- The comparison of the scan: a higher version is better when it looks for the newest slot. -/
def Better (version other : Nat) : Prop :=
  if newest = true then other < version else version < other

instance (version other : Nat) : Decidable (Better newest version other) :=
  inferInstanceAs (Decidable (if newest = true then other < version else version < other))

/-- The first slot of maximal or minimal version. -/
def bestSlot (slots : List MemSlot) : Option MemSlot :=
  if newest = true then slots.argmax fun slot => versionOf slot.id
  else slots.argmin fun slot => versionOf slot.id

variable {newest} in
theorem Better.trans {first second third : Nat} (better : Better newest first second)
    (better' : Better newest second third) : Better newest first third := by
  unfold Better at better better' ⊢
  split
  · rw [if_pos (by assumption)] at better better'
    exact lt_trans better' better
  · rw [if_neg (by assumption)] at better better'
    exact lt_trans better better'

variable {newest} in
/-- What is better than a version is better than one that is not better than it. -/
theorem Better.of_not {first second third : Nat} (better : Better newest first second)
    (notBetter : ¬ Better newest third second) : Better newest first third := by
  unfold Better at better notBetter ⊢
  split
  · rw [if_pos (by assumption)] at better notBetter
    omega
  · rw [if_neg (by assumption)] at better notBetter
    omega

/-- Of the first two slots of a list the worse one does not matter. -/
theorem bestSlot_cons_cons (slot other : MemSlot) (rest : List MemSlot) :
    bestSlot newest versionOf (slot :: other :: rest) =
      bestSlot newest versionOf
        ((if Better newest (versionOf other.id) (versionOf slot.id) then other else slot) ::
          rest) := by
  cases newest with
  | true =>
      simp only [bestSlot, Better, if_true, List.argmax, List.foldl_cons, List.argAux]
      split
      · rfl
      · rfl
  | false =>
      simp only [bestSlot, Better, Bool.false_eq_true, if_false, List.argmin, List.foldl_cons,
        List.argAux]
      split
      · rfl
      · rfl

/-- A first slot that another one beats does not matter. -/
theorem bestSlot_cons_of_better {slot other : MemSlot} {rest : List MemSlot}
    (member : other ∈ rest) (better : Better newest (versionOf other.id) (versionOf slot.id)) :
    bestSlot newest versionOf (slot :: rest) = bestSlot newest versionOf rest := by
  have some : rest ≠ [] := List.ne_nil_of_mem member
  cases newest with
  | true =>
      obtain ⟨found, is⟩ : ∃ found,
          rest.argmax (fun slot => versionOf slot.id) = Option.some found :=
        Option.ne_none_iff_exists'.mp fun none => some (List.argmax_eq_none.mp none)
      have above := List.le_of_mem_argmax member is
      have lower : versionOf slot.id < versionOf other.id := better
      simp only [bestSlot, if_true, List.argmax_cons, is, if_pos (lt_of_lt_of_le lower above)]
  | false =>
      obtain ⟨found, is⟩ : ∃ found,
          rest.argmin (fun slot => versionOf slot.id) = Option.some found :=
        Option.ne_none_iff_exists'.mp fun none => some (List.argmin_eq_none.mp none)
      have below := List.le_of_mem_argmin member is
      have higher : versionOf other.id < versionOf slot.id := better
      simp only [bestSlot, Bool.false_eq_true, if_false, List.argmin_cons, is,
        if_pos (lt_of_le_of_lt below higher)]

/-- What a scan without the preference makes of a slot. -/
theorem Candidate.next_better {best : Candidate} (taken : best.first = false) (slot : MemSlot) :
    best.next newest false slot (versionOf slot.id) =
      if Better newest (versionOf slot.id) best.version then slot.candidate versionOf
      else best := by
  cases newest with
  | true => simp [Candidate.next, Candidate.yields, taken, Better, MemSlot.candidate]
  | false => simp [Candidate.next, Candidate.yields, taken, Better, MemSlot.candidate]

/-- **Without the preference** the scan ends with the best slot. -/
theorem selectSlot_best (slot : MemSlot) (rest : List MemSlot) :
    ∃ found, bestSlot newest versionOf (slot :: rest) = some found ∧
      selectSlot newest false versionOf rest (slot.candidate versionOf) =
        found.candidate versionOf := by
  induction rest generalizing slot with
  | nil =>
      refine ⟨slot, ?_, rfl⟩
      cases newest with
      | true => rfl
      | false => rfl
  | cons other rest ih =>
      rw [selectSlot, Candidate.next_better newest versionOf rfl, bestSlot_cons_cons,
        show (slot.candidate versionOf).version = versionOf slot.id from rfl]
      by_cases better : Better newest (versionOf other.id) (versionOf slot.id)
      · rw [if_pos better, if_pos better]
        exact ih other
      · rw [if_neg better, if_neg better]
        exact ih slot

/-! ### Preferring bootable slots -/

/-- A bootable slot of the list that beats `best` and every slot listed before it. -/
def Leads (best : Nat) (slots : List MemSlot) : Prop :=
  ∃ before slot after, slots = before ++ slot :: after ∧ slot.bootable = true ∧
    Better newest (versionOf slot.id) best ∧
    ∀ other ∈ before, Better newest (versionOf slot.id) (versionOf other.id)

variable {newest versionOf}

/-- A slot that does not come before a leading one. -/
theorem leads_cons {best : Nat} {slot : MemSlot} {rest : List MemSlot}
    (behind : ¬ (slot.bootable = true ∧ Better newest (versionOf slot.id) best)) :
    Leads newest versionOf best (slot :: rest) ↔
      ∃ before lead after, rest = before ++ lead :: after ∧ lead.bootable = true ∧
        Better newest (versionOf lead.id) best ∧
        Better newest (versionOf lead.id) (versionOf slot.id) ∧
        ∀ other ∈ before, Better newest (versionOf lead.id) (versionOf other.id) := by
  constructor
  · rintro ⟨before, lead, after, split, bootable, better, beats⟩
    cases before with
    | nil =>
        obtain ⟨rfl, rfl⟩ := List.cons.inj split
        exact absurd ⟨bootable, better⟩ behind
    | cons first before =>
        obtain ⟨rfl, rfl⟩ := List.cons.inj split
        exact ⟨before, lead, after, rfl, bootable, better, beats slot List.mem_cons_self,
          fun other member => beats other (List.mem_cons_of_mem slot member)⟩
  · rintro ⟨before, lead, after, rfl, bootable, better, first, beats⟩
    refine ⟨slot :: before, lead, after, rfl, bootable, better, fun other member => ?_⟩
    rcases List.mem_cons.mp member with rfl | inRest
    · exact first
    · exact beats other inRest

/-- A slot that is neither bootable nor better than the candidate does not change who leads. -/
theorem leads_skip {best : Nat} {slot : MemSlot} {rest : List MemSlot}
    (worse : ¬ Better newest (versionOf slot.id) best) :
    Leads newest versionOf best (slot :: rest) ↔ Leads newest versionOf best rest := by
  rw [leads_cons fun both => worse both.2]
  constructor
  · rintro ⟨before, lead, after, split, bootable, better, _, beats⟩
    exact ⟨before, lead, after, split, bootable, better, beats⟩
  · rintro ⟨before, lead, after, split, bootable, better, beats⟩
    exact ⟨before, lead, after, split, bootable, better, better.of_not worse, beats⟩

/-- A better slot that is not bootable takes the place of the candidate. -/
theorem leads_take {best : Nat} {slot : MemSlot} {rest : List MemSlot}
    (unbootable : slot.bootable = false) (better : Better newest (versionOf slot.id) best) :
    Leads newest versionOf best (slot :: rest) ↔
      Leads newest versionOf (versionOf slot.id) rest := by
  rw [leads_cons fun both => by rw [unbootable] at both; exact Bool.noConfusion both.1]
  constructor
  · rintro ⟨before, lead, after, split, bootable, _, first, beats⟩
    exact ⟨before, lead, after, split, bootable, first, beats⟩
  · rintro ⟨before, lead, after, split, bootable, first, beats⟩
    exact ⟨before, lead, after, split, bootable, first.trans better, first, beats⟩

/-- What a scan with the preference makes of a slot while the candidate is not bootable. -/
theorem Candidate.next_unbootable {best : Candidate} (taken : best.first = false)
    (unbootable : best.bootable = false) (slot : MemSlot) :
    best.next newest true slot (versionOf slot.id) =
      if Better newest (versionOf slot.id) best.version then slot.candidate versionOf
      else best := by
  rw [← Candidate.next_better newest versionOf taken]
  simp [Candidate.next, Candidate.yields, unbootable]

/-- **If a bootable slot leads**, the scan ends with the best bootable slot. -/
theorem selectSlot_leads (slots : List MemSlot) (slot : MemSlot)
    (unbootable : slot.bootable = false) (leads : Leads newest versionOf (versionOf slot.id) slots) :
    ∃ found, bestSlot newest versionOf (slots.filter (·.bootable)) = some found ∧
      selectSlot newest true versionOf slots (slot.candidate versionOf) =
        found.candidate versionOf := by
  induction slots generalizing slot with
  | nil =>
      obtain ⟨before, lead, after, split, _⟩ := leads
      exact absurd split.symm (List.append_ne_nil_of_right_ne_nil before (List.cons_ne_nil _ _))
  | cons other rest ih =>
      rw [selectSlot, Candidate.next_unbootable rfl unbootable,
        show (slot.candidate versionOf).version = versionOf slot.id from rfl]
      by_cases boots : other.bootable = true
      · rw [List.filter_cons_of_pos boots]
        by_cases better : Better newest (versionOf other.id) (versionOf slot.id)
        · -- The first bootable slot that beats the candidate: from here on only these count.
          rw [if_pos better, selectSlot_prefer versionOf newest rest _ rfl boots]
          exact selectSlot_best newest versionOf other (rest.filter (·.bootable))
        · obtain ⟨before, lead, after, split, bootable, _, first, _⟩ :=
            (leads_cons fun both => better both.2).mp leads
          have member : lead ∈ rest.filter (·.bootable) := by
            rw [split]
            exact List.mem_filter.mpr ⟨List.mem_append_right _ List.mem_cons_self, bootable⟩
          rw [if_neg better, bestSlot_cons_of_better newest versionOf member first]
          exact ih slot unbootable ((leads_skip better).mp leads)
      · rw [List.filter_cons_of_neg boots]
        have unbootable' : other.bootable = false := Bool.eq_false_iff.mpr boots
        by_cases better : Better newest (versionOf other.id) (versionOf slot.id)
        · rw [if_pos better]
          exact ih other unbootable' ((leads_take unbootable' better).mp leads)
        · rw [if_neg better]
          exact ih slot unbootable ((leads_skip better).mp leads)

/-- **If none leads**, the preference makes no difference. -/
theorem selectSlot_unled (slots : List MemSlot) (slot : MemSlot)
    (unbootable : slot.bootable = false)
    (unled : ¬ Leads newest versionOf (versionOf slot.id) slots) :
    selectSlot newest true versionOf slots (slot.candidate versionOf) =
      selectSlot newest false versionOf slots (slot.candidate versionOf) := by
  induction slots generalizing slot with
  | nil => rfl
  | cons other rest ih =>
      rw [selectSlot, selectSlot, Candidate.next_unbootable rfl unbootable,
        Candidate.next_better newest versionOf rfl,
        show (slot.candidate versionOf).version = versionOf slot.id from rfl]
      by_cases better : Better newest (versionOf other.id) (versionOf slot.id)
      · rw [if_pos better]
        by_cases boots : other.bootable = true
        · exact absurd ⟨[], other, rest, rfl, boots, better,
            fun _ member => absurd member List.not_mem_nil⟩ unled
        · have unbootable' : other.bootable = false := Bool.eq_false_iff.mpr boots
          exact ih other unbootable' fun leads => unled ((leads_take unbootable' better).mpr leads)
      · rw [if_neg better]
        exact ih slot unbootable fun leads => unled ((leads_skip better).mpr leads)

end Best

/-! ### Tables whose manifests can be read -/

section Readable

variable {σ : Type} (M : MemoryInterface σ)

/-- Every manifest of the slots can be read: from a memory that `holds`, a slot is opened, its
manifest is read with the version `versionOf` says, and the memory it is closed with `holds`
again. -/
def Readable (slots : List MemSlot) (versionOf : MemId → Nat) (holds : σ → Prop) : Prop :=
  ∀ slot ∈ slots, ∀ memory, holds memory →
    let opened := M.memoryOpen slot.id .readOnly memory
    let read := readFirmwareManifest M opened.2.1 opened.2.2
    opened.1 = .success ∧ read.1 = .success ∧ read.2.1.getVersion = versionOf slot.id ∧
      holds (M.memoryClose opened.2.1 read.2.2).2

variable {M} {versionOf : MemId → Nat} {holds : σ → Prop}

/-- **The loop is the pure scan** whenever the manifests can be read. -/
theorem getOrderedFirmwareLoop_readable (newest preferBootable : Bool) (slots : List MemSlot)
    (readable : Readable M slots versionOf holds) (best : Candidate) {memory : σ}
    (held : holds memory) :
    ∃ after, holds after ∧
      getOrderedFirmwareLoop M newest preferBootable slots best memory =
        (.success, selectSlot newest preferBootable versionOf slots best, after) := by
  induction slots generalizing best memory with
  | nil => exact ⟨memory, held, rfl⟩
  | cons slot rest ih =>
      obtain ⟨opened, read, version, closed⟩ := readable slot List.mem_cons_self memory held
      obtain ⟨after, holds', scanned⟩ := ih
        (fun other member => readable other (List.mem_cons_of_mem slot member))
        (best.next newest preferBootable slot (versionOf slot.id)) closed
      refine ⟨after, holds', ?_⟩
      rw [getOrderedFirmwareLoop, selectSlot, ← scanned]
      simp only [opened, read, version, ne_eq, not_true_eq_false, if_false]

/-- On a plain memory every manifest that fits can be read. -/
theorem plain_readable (layout : PlainLayout) (slots : List MemSlot) (memory : Contents)
    (fits : ∀ slot ∈ slots, sizeofManifest ≤ layout.limit slot.id) :
    Readable (plain layout) slots (versionAt memory) (· = memory) := by
  rintro slot member _ rfl
  rw [plain_open layout _ (by decide)]
  simp only [@readFirmwareManifest_plain layout _ ⟨slot.id, .readOnly⟩ (fits slot member),
    plain_close]
  exact ⟨trivial, trivial, rfl, trivial⟩

end Readable

/-! ### The selections -/

section Selects

variable {σ : Type} {M : MemoryInterface σ} {versionOf : MemId → Nat} {holds : σ → Prop}

/-- A call that returns the best of the slots, with its version. -/
def Returns (newest : Bool) (versionOf : MemId → Nat) (slots : List MemSlot)
    (result : PullError × Candidate × σ) : Prop :=
  result.1 = .success ∧ ∃ slot, bestSlot newest versionOf slots = some slot ∧
    result.2.1.id = slot.id ∧ result.2.1.version = versionOf slot.id

/-- The table lets a scan that prefers bootable slots find the best of them: a bootable slot beats
every slot listed before it, or the best slot of all goes by the id of the best bootable one. -/
def BootableFound (newest : Bool) (versionOf : MemId → Nat) (slots : List MemSlot) : Prop :=
  (∃ before slot after, slots = before ++ slot :: after ∧ slot.bootable = true ∧
    ∀ other ∈ before, Better newest (versionOf slot.id) (versionOf other.id)) ∨
  ∃ best bootable, bestSlot newest versionOf slots = some best ∧
    bestSlot newest versionOf (slots.filter (·.bootable)) = some bootable ∧
    best.id = bootable.id

/-- Behind a first slot that is not bootable, the first alternative is that some slot leads. -/
theorem leads_of_unbootable {newest : Bool} {slot : MemSlot} {rest : List MemSlot}
    (unbootable : slot.bootable = false) :
    (∃ before lead after, slot :: rest = before ++ lead :: after ∧ lead.bootable = true ∧
      ∀ other ∈ before, Better newest (versionOf lead.id) (versionOf other.id)) ↔
    Leads newest versionOf (versionOf slot.id) rest := by
  constructor
  · rintro ⟨before, lead, after, split, bootable, beats⟩
    cases before with
    | nil =>
        obtain ⟨rfl, rfl⟩ := List.cons.inj split
        rw [unbootable] at bootable
        cases bootable
    | cons first before =>
        obtain ⟨rfl, rfl⟩ := List.cons.inj split
        exact ⟨before, lead, after, rfl, bootable, beats slot List.mem_cons_self,
          fun other member => beats other (List.mem_cons_of_mem slot member)⟩
  · rintro ⟨before, lead, after, rfl, bootable, first, beats⟩
    refine ⟨slot :: before, lead, after, rfl, bootable, fun other member => ?_⟩
    rcases List.mem_cons.mp member with rfl | inRest
    · exact first
    · exact beats other inRest

/-- **Slot selection.** Without the preference a call returns the first slot of extreme version. With
it, and some bootable slot in the table, it returns the first bootable slot of extreme version
exactly when `BootableFound`. -/
theorem getOrderedFirmware_selects (table : SlotTable)
    (readable : Readable M table.slots versionOf holds) (newest : Bool) (id : MemId)
    (version : Nat) (memory : σ) (held : holds memory) :
    Returns newest versionOf table.slots
        (getOrderedFirmware M table newest false id version memory) ∧
      ((∃ slot ∈ table.slots, slot.bootable = true) →
        (Returns newest versionOf (table.slots.filter (·.bootable))
            (getOrderedFirmware M table newest true id version memory) ↔
          BootableFound newest versionOf table.slots)) := by
  obtain ⟨slot, rest, split⟩ := List.exists_cons_of_ne_nil table.nonempty
  obtain ⟨best, isBest, scanned⟩ := selectSlot_best newest versionOf slot rest
  have plainScan := getOrderedFirmwareLoop_readable newest false table.slots readable
    ⟨id, version, false, true⟩ held
  have preferScan := getOrderedFirmwareLoop_readable newest true table.slots readable
    ⟨id, version, false, true⟩ held
  obtain ⟨_, _, plainScan⟩ := plainScan
  obtain ⟨_, _, preferScan⟩ := preferScan
  rw [split, selectSlot_first] at plainScan preferScan
  simp only [getOrderedFirmware]
  rw [split, plainScan, preferScan]
  refine ⟨⟨rfl, best, isBest, by rw [scanned]; rfl, by rw [scanned]; rfl⟩, fun _ => ?_⟩
  cases boots : slot.bootable with
  | true =>
      -- The first slot is bootable, and nothing stands before it.
      obtain ⟨found, isFound, prefers⟩ :=
        selectSlot_best newest versionOf slot (rest.filter (·.bootable))
      rw [selectSlot_prefer versionOf newest rest _ rfl boots, List.filter_cons_of_pos boots]
      refine ⟨fun _ => Or.inl ⟨[], slot, rest, rfl, boots,
        fun _ member => absurd member List.not_mem_nil⟩, fun _ => ?_⟩
      exact ⟨rfl, found, isFound, by rw [prefers]; rfl, by rw [prefers]; rfl⟩
  | false =>
      rw [List.filter_cons_of_neg (by rw [boots]; decide), BootableFound,
        List.filter_cons_of_neg (by rw [boots]; decide), leads_of_unbootable boots, isBest]
      by_cases leads : Leads newest versionOf (versionOf slot.id) rest
      · obtain ⟨found, isFound, prefers⟩ := selectSlot_leads rest slot boots leads
        refine ⟨fun _ => Or.inl leads, fun _ => ?_⟩
        exact ⟨rfl, found, isFound, by rw [prefers]; rfl, by rw [prefers]; rfl⟩
      · rw [selectSlot_unled rest slot boots leads, scanned]
        constructor
        · rintro ⟨_, bootable, isBootable, same, _⟩
          exact Or.inr ⟨best, bootable, rfl, isBootable, same⟩
        · rintro (led | ⟨_, bootable, ⟨rfl⟩, isBootable, same⟩)
          · exact absurd led leads
          · exact ⟨rfl, bootable, isBootable, same, congrArg versionOf same⟩

end Selects

/-- Every byte of an object is its id, so that a higher id holds a higher version. -/
def numberedSlots : Contents := fun id _ => UInt8.ofNat id.toNat

/-- Both selections on two slots of which the first boots. -/
theorem twoSlots_selected :
    Returns true (versionAt numberedSlots) twoSlots.slots
        (getOrderedFirmware (plain (fullLayout none)) twoSlots true false 0 0 numberedSlots) ∧
      Returns true (versionAt numberedSlots) (twoSlots.slots.filter (·.bootable))
        (getOrderedFirmware (plain (fullLayout none)) twoSlots true true 0 0 numberedSlots) := by
  have selects := getOrderedFirmware_selects twoSlots
    (plain_readable (fullLayout none) twoSlots.slots numberedSlots (by decide)) true 0 0
    numberedSlots rfl
  exact ⟨selects.1, (selects.2 ⟨⟨1, true⟩, by decide, rfl⟩).mpr
    (Or.inl ⟨[], ⟨1, true⟩, [⟨2, false⟩], rfl, rfl, by decide⟩)⟩

/-- A table that lists its bootable slot last, behind a newer one. -/
def bootableLast : SlotTable where
  slots := [⟨2, false⟩, ⟨1, true⟩]
  nonempty := by decide
  positive := by decide
  short := by decide

/-- The only bootable slot is not returned: the candidate is not bootable, and a bootable slot of
lower version does not take its place. -/
theorem bootableLast_missed :
    (∃ slot ∈ bootableLast.slots, slot.bootable = true) ∧
      ¬ Returns true (versionAt numberedSlots) (bootableLast.slots.filter (·.bootable))
        (getNewestFirmware (plain (fullLayout none)) bootableLast true 0 0 numberedSlots) := by
  refine ⟨⟨⟨1, true⟩, by decide, rfl⟩, ?_⟩
  rintro ⟨_, slot, is, same, _⟩
  have only : bestSlot true (versionAt numberedSlots)
      (bootableLast.slots.filter (·.bootable)) = some ⟨1, true⟩ := rfl
  have scanned : (selectSlot true true (versionAt numberedSlots) bootableLast.slots
      ⟨0, 0, false, true⟩).id = 2 := by decide +kernel
  rw [getNewestFirmware, getOrderedFirmware_plain _ _ _ _ _ _ _ (by decide), scanned] at same
  rw [only] at is
  cases is
  exact absurd same (by decide)

end Upkit
