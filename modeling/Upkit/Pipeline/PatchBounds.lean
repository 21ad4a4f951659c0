/-
**What a patch can make the patch stage do.**

The stage compares each of the two lengths of a block, added to the position in the new image, with
the announced length. Nothing bounds a length from below, and nothing the position in the old image:
a block of negative length takes the position back, so that more is handed on afterwards than was
announced, and the differences are read wherever the control values lead.

* `controlTriples` — the control triples of a patch, with the positions where they apply.
* `Patching.Within` — the invariant of a run whose triples are in bounds.
* `patchBytes_within` — the run; `bspatch_bounded` — sessions.
* `negativePatch_overruns` — a patch that announces one byte and makes the stage hand on two.
-/

import Upkit.Pipeline.BspatchRun

namespace Upkit

open Bytes

/-! ### Triples in bounds -/

/-- The control triple that a byte completes. -/
def Patching.completes : Patching → UInt8 → Option (PatchPos × Triple)
  | .ctrl pos got, byte =>
      if got.length + 1 < 24 then none else some (pos, tripleOf (got ++ [byte]))
  | _, _ => none

/-- The control triples of the bytes from a state on, with the positions where they apply. -/
def controlTriples : List UInt8 → Patching → List (PatchPos × Triple)
  | [], _ => []
  | byte :: rest, state =>
      (state.completes byte).toList ++
        match state.next byte with
        | .wait state => controlTriples rest state
        | _ => []

/-- The stage refuses the triple at once, or both lengths are not negative, and the differences lie
inside an old image of `bound` bytes. -/
def InBounds (bound : Nat) (block : PatchPos × Triple) : Prop :=
  block.1.newpos + block.2.diff ≤ block.1.newsize →
    0 ≤ block.2.diff ∧ 0 ≤ block.2.extra ∧
      (block.2.diff = 0 ∨ 0 ≤ block.1.oldpos ∧ block.1.oldpos + block.2.diff ≤ bound)

instance (bound : Nat) (block : PatchPos × Triple) : Decidable (InBounds bound block) :=
  inferInstanceAs (Decidable (_ → _ ∧ _ ∧ (_ ∨ _ ∧ _)))

theorem controlTriples_append (first second : List UInt8) (state : Patching) :
    controlTriples first state <+: controlTriples (first ++ second) state := by
  induction first generalizing state with
  | nil => exact List.nil_prefix
  | cons byte first ih =>
      rw [List.cons_append, controlTriples, controlTriples, List.prefix_append_right_inj]
      cases state.next byte with
      | wait state => exact ih state
      | finished => exact List.prefix_refl _
      | failed ret => exact List.prefix_refl _

/-- The announced length, once the header has arrived. -/
def announced (patch : List UInt8) : Int := ctrlValue (patch.drop 16)

theorem announced_append {patch : List UInt8} (header : 24 ≤ patch.length) (more : List UInt8) :
    announced (patch ++ more) = announced patch := by
  rw [announced, List.drop_append_of_le_length (by omega),
    ctrlValue_append (by rw [List.length_drop]; omega)]
  rfl

/-! ### The invariant -/

section Invariant

variable (bound : Nat) (seen : List UInt8) (emitted : Nat)

/-- Where the header has been read, the length it announces. -/
def HeaderSays (newsize : Int) : Prop := 24 ≤ seen.length ∧ newsize = announced seen

/-- The bytes handed on, when `seen` has been taken and the machine waits. -/
def Patching.Within : Patching → Prop
  | .header got => seen = got ∧ emitted = 0
  | .ctrl pos _ =>
      HeaderSays seen pos.newsize ∧ (emitted : Int) = pos.newpos ∧ pos.newpos ≤ pos.newsize
  | .diff pos triple i =>
      HeaderSays seen pos.newsize ∧ (emitted : Int) = pos.newpos + i ∧ i < triple.diff ∧
        pos.newpos + triple.diff ≤ pos.newsize ∧ 0 ≤ triple.extra ∧
        0 ≤ pos.oldpos ∧ pos.oldpos + triple.diff ≤ bound
  | .extra pos triple i =>
      HeaderSays seen pos.newsize ∧ (emitted : Int) = pos.newpos + i ∧ i < triple.extra ∧
        pos.newpos + triple.extra ≤ pos.newsize

/-- The bytes handed on never exceed the announced ones. -/
def AtMost : Prop := emitted = 0 ∨ 24 ≤ seen.length ∧ (emitted : Int) ≤ announced seen

/-- The bytes handed on, where the machine stands. -/
def PatchNext.Within : PatchNext → Prop
  | .wait state => state.Within bound seen emitted
  | .finished => 24 ≤ seen.length ∧ (emitted : Int) = announced seen
  | .failed _ => AtMost seen emitted

variable {bound seen emitted}

theorem HeaderSays.append {newsize : Int} (announces : HeaderSays seen newsize) (more : List UInt8) :
    HeaderSays (seen ++ more) newsize :=
  ⟨by rw [List.length_append]; exact announces.1.trans (Nat.le_add_right _ _),
    announces.2.trans (announced_append announces.1 more).symm⟩

theorem HeaderSays.atMost {newsize : Int} (announces : HeaderSays seen newsize)
    (few : (emitted : Int) ≤ newsize) : AtMost seen emitted :=
  .inr ⟨announces.1, announces.2 ▸ few⟩

theorem PatchPos.loop_within {pos : PatchPos} (announces : HeaderSays seen pos.newsize)
    (count : (emitted : Int) = pos.newpos) (few : pos.newpos ≤ pos.newsize) :
    pos.loop.Within bound seen emitted := by
  unfold PatchPos.loop
  by_cases more : pos.newpos < pos.newsize
  · rw [if_pos more]
    exact ⟨announces, count, few⟩
  · rw [if_neg more]
    exact ⟨announces.1, by rw [count, ← announces.2]; omega⟩

theorem PatchPos.extraFrom_within {pos : PatchPos} {triple : Triple} {i : Nat}
    (announces : HeaderSays seen pos.newsize) (count : (emitted : Int) = pos.newpos + i)
    (index : i ≤ triple.extra) (few : pos.newpos + triple.extra ≤ pos.newsize) :
    (pos.extraFrom triple i).Within bound seen emitted := by
  unfold PatchPos.extraFrom
  by_cases more : (i : Int) < triple.extra
  · rw [if_pos more]
    exact ⟨announces, count, more, few⟩
  · rw [if_neg more]
    exact PatchPos.loop_within announces (by simp only; omega) few

theorem PatchPos.diffFrom_within {pos : PatchPos} {triple : Triple} {i : Nat}
    (announces : HeaderSays seen pos.newsize) (count : (emitted : Int) = pos.newpos + i)
    (index : i ≤ triple.diff) (few : pos.newpos + triple.diff ≤ pos.newsize)
    (extra : 0 ≤ triple.extra)
    (inside : i < triple.diff → 0 ≤ pos.oldpos ∧ pos.oldpos + triple.diff ≤ bound) :
    (pos.diffFrom triple i).Within bound seen emitted := by
  unfold PatchPos.diffFrom
  by_cases more : (i : Int) < triple.diff
  · rw [if_pos more]
    exact ⟨announces, count, more, few, extra, inside more⟩
  · rw [if_neg more]
    by_cases tooLong : pos.newsize < pos.newpos + triple.diff + triple.extra
    · rw [if_pos tooLong]
      exact announces.atMost (by omega)
    · rw [if_neg tooLong]
      exact PatchPos.extraFrom_within announces (by simp only; omega) extra (by simp only; omega)

/-- Where a byte takes the machine, whatever is handed on with it. -/
theorem Patching.Within.next {state : Patching} (within : state.Within bound seen emitted)
    (byte : UInt8) (guarded : ∀ block ∈ state.completes byte, InBounds bound block) :
    match state with
    | .header _ => (state.next byte).Within bound (seen ++ [byte]) emitted
    | .ctrl _ _ => (state.next byte).Within bound (seen ++ [byte]) emitted
    | .diff _ _ _ => (state.next byte).Within bound (seen ++ [byte]) (emitted + 1)
    | .extra _ _ _ => (state.next byte).Within bound (seen ++ [byte]) (emitted + 1) := by
  cases state with
  | header got =>
      obtain ⟨rfl, rfl⟩ := within
      simp only [Patching.next]
      by_cases wrong : seen.length < 16 ∧ byte ≠ 0x2a
      · rw [if_pos wrong]
        exact .inl rfl
      rw [if_neg wrong]
      by_cases more : seen.length + 1 < 24
      · rw [if_pos more]
        exact ⟨rfl, rfl⟩
      · rw [if_neg more, startPatch]
        by_cases negative : ctrlValue ((seen ++ [byte]).drop 16) < 0
        · rw [if_pos negative]
          exact .inl rfl
        · rw [if_neg negative]
          refine PatchPos.loop_within ⟨?_, rfl⟩ rfl (not_lt.mp negative)
          rw [List.length_append]
          exact not_lt.mp more
  | ctrl pos got =>
      obtain ⟨announces, count, few⟩ := within
      simp only [Patching.next]
      by_cases more : got.length + 1 < 24
      · rw [if_pos more]
        exact ⟨announces.append _, count, few⟩
      · have guards := guarded (pos, tripleOf (got ++ [byte]))
          (by rw [Patching.completes, if_neg more]; rfl)
        rw [if_neg more, PatchPos.startBlock]
        by_cases tooLong : pos.newsize < pos.newpos + (tripleOf (got ++ [byte])).diff
        · rw [if_pos tooLong]
          exact (announces.append _).atMost (by omega)
        · obtain ⟨diff, extra, inside⟩ := guards (not_lt.mp tooLong)
          simp only at diff extra inside
          rw [if_neg tooLong]
          exact PatchPos.diffFrom_within (announces.append _) (by omega) diff (by omega) extra
            (by omega)
  | diff pos triple i =>
      obtain ⟨announces, count, index, few, extra, inside⟩ := within
      exact PatchPos.diffFrom_within (announces.append _) (by push_cast; omega) (by omega) few
        extra (fun _ => inside)
  | extra pos triple i =>
      obtain ⟨announces, count, index, few⟩ := within
      exact PatchPos.extraFrom_within (announces.append _) (by push_cast; omega) (by omega) few

end Invariant

/-! ### Runs and sessions -/

section Run

variable {ν : Type} (next : Stage ν) (readOld : Nat → ν → Int × List UInt8 × ν) (bound : Nat)

/-- One byte of a patch whose triples are in bounds. -/
theorem patchByte_within {state : Patching} {seen : List UInt8} {watched : Watched ν}
    (within : state.Within bound seen watched.emitted.length) (stayed : watched.inside = true)
    (byte : UInt8) (guarded : ∀ block ∈ state.completes byte, InBounds bound block) :
    (patchByte (watchNext next) (watchOld readOld bound) byte state watched).1.Within bound
        (seen ++ [byte])
        (patchByte (watchNext next) (watchOld readOld bound) byte state
          watched).2.emitted.length ∧
      (patchByte (watchNext next) (watchOld readOld bound) byte state watched).2.inside = true := by
  have step := within.next byte guarded
  cases state with
  | header got => exact ⟨step, stayed⟩
  | ctrl pos got => exact ⟨step, stayed⟩
  | diff pos triple i =>
      have counted : ((Patching.diff pos triple i).next byte).Within bound (seen ++ [byte])
          (watched.emitted.length + 1) := step
      obtain ⟨announces, count, index, few, -, low, high⟩ := within
      have inside : wrap32 (pos.oldpos + i) < bound := by
        unfold wrap32
        omega
      simp only [patchByte, watchOld]
      by_cases refused : (readOld (wrap32 (pos.oldpos + i)) watched.below).1 ≠ 1
      · simp only [if_pos refused, stayed, decide_eq_true inside, Bool.and_self, and_true]
        exact (announces.append _).atMost (by omega)
      · simp only [if_neg refused, watchNext, stayed, decide_eq_true inside, Bool.and_self,
          and_true, List.length_append]
        exact counted
  | extra pos triple i =>
      simp only [patchByte, watchNext, List.length_append]
      exact ⟨step, stayed⟩

/-- A step ends in the state that the byte leads to, or fails. -/
theorem patchByte_wait {state after : Patching} {byte : UInt8} {below : ν}
    (waits : (patchByte next readOld byte state below).1 = .wait after) :
    state.next byte = .wait after := by
  cases state with
  | header got => exact waits
  | ctrl pos got => exact waits
  | diff pos triple i =>
      simp only [patchByte] at waits
      generalize readOld (wrap32 (pos.oldpos + i)) below = got at waits
      obtain ⟨ret, data, below⟩ := got
      by_cases refused : ret ≠ 1
      · simp only [if_pos refused] at waits
        exact PatchNext.noConfusion waits
      · simp only [if_neg refused] at waits
        exact waits
  | extra pos triple i => exact waits

/-- **A run over triples in bounds** hands on no more than was announced and reads inside the old
image. -/
theorem patchBytes_within (bytes : List UInt8) {state : Patching} {seen : List UInt8}
    {watched : Watched ν} (within : state.Within bound seen watched.emitted.length)
    (stayed : watched.inside = true)
    (guarded : ∀ block ∈ controlTriples bytes state, InBounds bound block) :
    ∃ taken, taken <+: bytes ∧
      (patchBytes (watchNext next) (watchOld readOld bound) bytes state watched).1.Within bound
        (seen ++ taken)
        (patchBytes (watchNext next) (watchOld readOld bound) bytes state
          watched).2.2.emitted.length ∧
      (patchBytes (watchNext next) (watchOld readOld bound) bytes state
        watched).2.2.inside = true := by
  induction bytes generalizing state seen watched with
  | nil => exact ⟨[], List.prefix_refl _, by rw [List.append_nil]; exact within, stayed⟩
  | cons byte rest ih =>
      rw [controlTriples] at guarded
      have here : ∀ block ∈ state.completes byte, InBounds bound block := fun block completed =>
        guarded block (List.mem_append_left _ (Option.mem_toList.mpr completed))
      obtain ⟨goes, stays⟩ := patchByte_within next readOld bound within stayed byte here
      have follows := fun after =>
        @patchByte_wait _ (watchNext next) (watchOld readOld bound) state after byte watched
      rw [patchBytes]
      generalize patchByte (watchNext next) (watchOld readOld bound) byte state watched = step
        at goes stays follows
      obtain ⟨after | _ | ret, watched⟩ := step
      · have later : ∀ block ∈ controlTriples rest after, InBounds bound block := by
          intro block listed
          refine guarded block (List.mem_append_right _ ?_)
          rw [follows after rfl]
          exact listed
        obtain ⟨taken, begins, ends⟩ := ih goes stays later
        refine ⟨byte :: taken, List.cons_prefix_cons.mpr ⟨rfl, begins⟩, ?_⟩
        rwa [List.append_cons]
      · exact ⟨[byte], ⟨rest, rfl⟩, goes, stays⟩
      · exact ⟨[byte], ⟨rest, rfl⟩, goes, stays⟩

/-- What the bounds of a session come to: at most the announced bytes are handed on, every offset
read lies inside an old image of the length watched, and a finished session has handed on exactly
the announced bytes. -/
structure Bounded (patch : List UInt8) (session : SessionStatus × Int × Watched ν) : Prop where
  emitted : AtMost patch session.2.2.emitted.length
  inside : session.2.2.inside = true
  finished : session.1 = .finished → (session.2.2.emitted.length : Int) = announced patch

variable {next readOld bound}

/-- What a run within its bounds comes to for the whole patch. -/
theorem PatchNext.Within.bounded {taken patch : List UInt8} {count : Nat} {ended : PatchNext}
    (within : ended.Within bound taken count) (begins : taken <+: patch) :
    AtMost patch count ∧ (ended = .finished → (count : Int) = announced patch) := by
  obtain ⟨rest, rfl⟩ := begins
  have atMost : ∀ {newsize : Int}, HeaderSays taken newsize → (count : Int) ≤ newsize →
      AtMost (taken ++ rest) count := fun announces few => (announces.append rest).atMost few
  cases ended with
  | wait state =>
      refine ⟨?_, fun never => PatchNext.noConfusion never⟩
      cases state with
      | header got => exact .inl within.2
      | ctrl pos got =>
          obtain ⟨announces, number, few⟩ := within
          exact atMost announces (by omega)
      | diff pos triple i =>
          obtain ⟨announces, number, index, few, -⟩ := within
          exact atMost announces (by omega)
      | extra pos triple i =>
          obtain ⟨announces, number, index, few⟩ := within
          exact atMost announces (by omega)
  | finished =>
      obtain ⟨header, number⟩ := within
      refine ⟨atMost ⟨header, rfl⟩ number.le, fun _ => ?_⟩
      rw [number, announced_append header]
  | failed ret =>
      refine ⟨?_, fun never => PatchNext.noConfusion never⟩
      obtain none_ | ⟨header, few⟩ := within
      · exact .inl none_
      · exact atMost ⟨header, rfl⟩ few

/-- **Sessions over triples in bounds.** When every control triple of a patch that the stage does not
refuse at once has lengths that are not negative and differences inside the old image, every state
that a session reaches, up to its first error, keeps within the bounds, whatever the chunks, the old
object and the next stage are. -/
theorem bspatch_bounded (next : Stage ν) (readOld : Nat → ν → Int × List UInt8 × ν) (bound : Nat)
    (chunks : List (List UInt8)) (ctx : BspatchCtx) (below : ν)
    (guarded : ∀ block ∈ controlTriples chunks.flatten (.header []), InBounds bound block) :
    ∀ first, first <+: chunks →
      Bounded first.flatten
        (bspatchSession (watchNext next) (watchOld readOld bound) first 0
          (pipelineBspatchInit ctx, ⟨below, [], true⟩)) := by
  rintro first ⟨second, rfl⟩
  rw [List.flatten_append] at guarded
  have early : ∀ block ∈ controlTriples first.flatten (.header []), InBounds bound block :=
    fun block listed => guarded block ((controlTriples_append _ _ _).subset listed)
  obtain ⟨status, same, -⟩ := bspatchSession_eq (watchNext next) (watchOld readOld bound) first 0
    (pipelineBspatchInit_standing ctx) ⟨below, [], true⟩
  obtain ⟨taken, begins, within, stayed⟩ := @patchBytes_within ν next readOld bound first.flatten
    (.header []) [] ⟨below, [], true⟩ ⟨rfl, rfl⟩ rfl early
  rw [List.nil_append] at within
  obtain ⟨few, exact_⟩ := within.bounded begins
  refine ⟨by rw [same]; exact few, by rw [same]; exact stayed, fun finished => ?_⟩
  rw [same]
  refine exact_ ?_
  rw [status] at finished
  revert finished
  cases (patchBytes (watchNext next) (watchOld readOld bound) first.flatten (.header [])
    ⟨below, [], true⟩).1 with
  | wait state => exact fun never => SessionStatus.noConfusion never
  | finished => exact fun _ => rfl
  | failed ret => exact fun never => SessionStatus.noConfusion never

end Run

/-- A patch of one block of `1` byte: one difference against the first byte of the old image. -/
def oneBytePatch : List UInt8 :=
  List.replicate 16 0x2a ++ toLE 8 1 ++ (toLE 8 1 ++ toLE 8 0 ++ toLE 8 0 ++ [7])

theorem oneBytePatch_bounded :
    Bounded [oneBytePatch].flatten
      (bspatchSession (watchNext takeAll) (watchOld (readBytes [5]) 1) [oneBytePatch] 0
        (pipelineBspatchInit bootBspatchCtx, ⟨(), [], true⟩)) :=
  bspatch_bounded takeAll (readBytes [5]) 1 [oneBytePatch] bootBspatchCtx () (by decide)
    [oneBytePatch] (List.prefix_refl _)

/-- A patch that announces one byte; its block has `-1` differences and two extra bytes. -/
def negativePatch : List UInt8 :=
  List.replicate 16 0x2a ++ toLE 8 1 ++
    ([1, 0, 0, 0, 0, 0, 0, 0x80] ++ toLE 8 2 ++ toLE 8 0 ++ [1, 2])

/-- A patch that announces one byte; its first block is empty and goes to byte `100` of the old
image. -/
def farPatch : List UInt8 :=
  List.replicate 16 0x2a ++ toLE 8 1 ++
    (toLE 8 0 ++ toLE 8 0 ++ toLE 8 100 ++ (toLE 8 1 ++ toLE 8 0 ++ toLE 8 0 ++ [7]))

/-- **Two bytes where one was announced**, and a read far outside an old image of one byte. -/
theorem negativePatch_overruns :
    ¬Bounded negativePatch
        (bspatchSession (watchNext takeAll) (watchOld (readBytes [5]) 1) [negativePatch] 0
          (pipelineBspatchInit bootBspatchCtx, ⟨(), [], true⟩)) ∧
      ¬Bounded farPatch
        (bspatchSession (watchNext takeAll) (watchOld (readBytes [5]) 1) [farPatch] 0
          (pipelineBspatchInit bootBspatchCtx, ⟨(), [], true⟩)) := by
  constructor
  · intro bounded
    have emitted := bounded.finished (by decide)
    exact absurd emitted (by decide)
  · intro bounded
    have inside := bounded.inside
    exact absurd inside (by decide)

end Upkit
