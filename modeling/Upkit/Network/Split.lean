/-
**Does the outcome of an update depend on how it is split?**

It does: the tail of `STATE_RECEIVE_MANIFEST` takes the bytes behind the manifest without the size
check and the completion check of `STATE_RECEIVE_FIRMWARE`.

* `outcome_collecting` — the outcome of a delivery as a function `outcomeOf` of the stream and of
  its cuts.
* `sameOutcome_iff` — exactly when two ways to cut a stream agree.
-/

import Upkit.Network.Delivery

namespace Upkit

open Bytes

section Split

variable (erased : Option UInt8) (crypto : Crypto) (table : SlotTable) (sf : Safestore)

/-- No call ends between the manifest and the end of the stream: the call that completes the
manifest is the last one. -/
def LastCompletes (size : Nat) (ends : List Nat) : Prop :=
  ∀ cut ∈ ends, sizeofManifest ≤ cut → cut = size

/-- A call ends exactly where the manifest announces the end, and an earlier one has completed the
manifest. -/
def EndsExactly (announced : Nat) (ends : List Nat) : Prop :=
  announced ∈ ends ∧ ∃ cut ∈ ends, sizeofManifest ≤ cut ∧ cut < announced

instance (size : Nat) (ends : List Nat) : Decidable (LastCompletes size ends) :=
  inferInstanceAs (Decidable (∀ cut ∈ ends, _))

instance (announced : Nat) (ends : List Nat) : Decidable (EndsExactly announced ends) :=
  inferInstanceAs (Decidable (_ ∧ ∃ cut ∈ ends, _))

/-- The slot with the announced part of a stream in it. -/
def announcedImage (memory : Contents) (stream : List UInt8) : Nat → UInt8 :=
  imageIn (opened erased (oldestSlot table memory).id memory) (oldestSlot table memory).id
    (storedStream stream) (Manifest.ofBytes stream).announced

/-- The outcome of a stream whose calls end at `ends`. -/
def outcomeOf (version : Nat) (memory : Contents) (stream : List UInt8) (ends : List Nat) :
    Option (FsmState × Contents) :=
  if stream.length < sizeofManifest then some (.receiveManifest, memory)
  else if ¬ Accepted crypto sf version (Manifest.ofBytes stream) then none
  else if LastCompletes stream.length ends ∨
      stream.length < (Manifest.ofBytes stream).announced then
    some (.receiveFirmware, (sinkOf (slotObject (oldestSlot table memory).id)
      (opened erased (oldestSlot table memory).id memory) (storedStream stream)).2.2)
  else if EndsExactly (Manifest.ofBytes stream).announced ends ∧
      slotVerdict crypto sf (announcedImage erased table memory stream) = .success then
    some (.reboot, Function.update (opened erased (oldestSlot table memory).id memory)
      (oldestSlot table memory).id (announcedImage erased table memory stream))
  else none

/-- A call that ends inside the manifest does not count. -/
theorem lastCompletes_cons {size cut : Nat} {ends : List Nat} (few : cut < sizeofManifest) :
    LastCompletes size (cut :: ends) ↔ LastCompletes size ends := by
  constructor
  · exact fun all other member => all other (List.mem_cons_of_mem _ member)
  · intro all other member enough
    rcases List.mem_cons.mp member with rfl | later
    · omega
    · exact all other later enough

theorem endsExactly_cons {announced cut : Nat} {ends : List Nat} (few : cut < sizeofManifest) :
    EndsExactly announced (cut :: ends) ↔ EndsExactly announced ends := by
  constructor
  · rintro ⟨member, other, otherMember, enough, below⟩
    have otherLater : other ∈ ends := by
      rcases List.mem_cons.mp otherMember with rfl | later
      · omega
      · exact later
    refine ⟨?_, other, otherLater, enough, below⟩
    rcases List.mem_cons.mp member with rfl | later
    · omega
    · exact later
  · rintro ⟨member, other, otherMember, enough, below⟩
    exact ⟨List.mem_cons_of_mem _ member, other, List.mem_cons_of_mem _ otherMember, enough, below⟩

/-- Behind the call that completed the manifest, the exact end is one of the later ones. -/
theorem endsExactly_completed {announced : Nat} {input : FsmInput} {rest : List FsmInput}
    {start : Nat} (nonempty : ∀ input ∈ rest, input.buf.data ≠ [])
    (enough : sizeofManifest ≤ start + input.buf.data.length) :
    EndsExactly announced (cuts start (input :: rest)) ↔
      announced ∈ cuts (start + input.buf.data.length) rest := by
  rw [cuts]
  constructor
  · rintro ⟨member, cut, cutMember, _, below⟩
    have first : start + input.buf.data.length ≤ cut := by
      rcases List.mem_cons.mp cutMember with rfl | later
      · exact le_rfl
      · exact le_of_lt (cuts_bounds nonempty later).1
    rcases List.mem_cons.mp member with rfl | later
    · omega
    · exact later
  · intro later
    exact ⟨List.mem_cons_of_mem _ later, _, List.mem_cons_self, enough,
      (cuts_bounds nonempty later).1⟩

/-- The call that completed the manifest is the last one when nothing follows. -/
theorem lastCompletes_completed {input : FsmInput} {rest : List FsmInput} {start : Nat}
    (nonempty : ∀ input ∈ rest, input.buf.data ≠ [])
    (enough : sizeofManifest ≤ start + input.buf.data.length) :
    LastCompletes (start + (streamOf (input :: rest)).length) (cuts start (input :: rest)) ↔
      rest = [] := by
  have stream : (streamOf (input :: rest)).length =
      input.buf.data.length + (streamOf rest).length := by
    rw [streamOf, List.flatMap_cons, List.length_append]
    rfl
  rw [stream, ← Nat.add_assoc]
  constructor
  · intro all
    have last := all (start + input.buf.data.length) List.mem_cons_self enough
    cases rest with
    | nil => rfl
    | cons next rest =>
        have positive : 0 < next.buf.data.length :=
          List.length_pos_of_ne_nil (nonempty next List.mem_cons_self)
        rw [streamOf, List.flatMap_cons, List.length_append] at last
        omega
  · rintro rfl cut member _
    rcases List.mem_cons.mp member with rfl | later
    · rfl
    · exact absurd later List.not_mem_nil

/-- **The outcome of a delivery** is a function of the stream and of its cuts. -/
theorem outcome_collecting (inputs : List FsmInput)
    (nonempty : ∀ input ∈ inputs, input.buf.data ≠ []) {ctx : FsmCtx} (memory : Contents)
    {got : List UInt8} (session : Collecting ctx got) :
    outcome erased crypto table sf inputs ctx memory =
      outcomeOf erased crypto table sf ctx.version memory (got ++ streamOf inputs)
        (cuts got.length inputs) := by
  induction inputs generalizing ctx got with
  | nil =>
      have few := session.unfinished
      rw [outcomeOf, if_pos (by rw [List.length_append]; simpa [streamOf] using few),
        ← session.state]
      rfl
  | cons input rest ih =>
      have later : ∀ other ∈ rest, other.buf.data ≠ [] :=
        fun other member => nonempty other (List.mem_cons_of_mem _ member)
      have stream : got ++ streamOf (input :: rest) =
          (got ++ input.buf.data) ++ streamOf rest := by
        rw [streamOf, List.flatMap_cons, ← List.append_assoc]
        rfl
      by_cases few : got.length + input.buf.data.length < sizeofManifest
      · have call : fsm (plain (fullLayout erased)) crypto table sf input ctx memory =
            ⟨.success, input.buf.data, ctx.collected input.buf.data, memory⟩ := by
          rw [fsm_collecting (plain (fullLayout erased)) crypto table sf input session, if_pos few]
          rfl
        rw [outcome_cons erased crypto table sf rest call, ih later (collecting_short session few),
          stream, cuts, List.length_append]
        unfold outcomeOf
        simp only [lastCompletes_cons few, endsExactly_cons few]
        rfl
      · have enough : sizeofManifest ≤ got.length + input.buf.data.length := not_lt.mp few
        have enough' : sizeofManifest ≤ (got ++ input.buf.data).length := by
          rw [List.length_append]
          exact enough
        have long : ¬ (got ++ input.buf.data ++ streamOf rest).length < sizeofManifest := by
          rw [List.length_append]
          omega
        have manifest : Manifest.ofBytes (got ++ input.buf.data ++ streamOf rest) =
            Manifest.ofBytes (got ++ input.buf.data) := Manifest.ofBytes_append enough' _
        have size : (got ++ input.buf.data ++ streamOf rest).length =
            got.length + (streamOf (input :: rest)).length := by
          rw [← stream, List.length_append]
        have total : got.length + (streamOf (input :: rest)).length =
            (storedStream (got ++ input.buf.data)).length + (streamOf rest).length := by
          rw [storedStream_length enough', ← size, List.length_append]
        rw [stream, outcomeOf, if_neg long, manifest]
        by_cases accepted : Accepted crypto sf ctx.version
            (Manifest.ofBytes (got ++ input.buf.data))
        · obtain ⟨ctx', memory', call, armed, id, expected, _⟩ :=
            fsm_collecting_accepted erased crypto table sf session enough
              accepted
          have ends : EndsExactly (Manifest.ofBytes (got ++ input.buf.data)).announced
              (cuts got.length (input :: rest)) ↔
                (Manifest.ofBytes (got ++ input.buf.data)).announced ∈
                  cuts (storedStream (got ++ input.buf.data)).length rest := by
            rw [endsExactly_completed later enough, storedStream_length enough',
              List.length_append]
          rw [if_neg (not_not.mpr accepted), outcome_cons erased crypto table sf rest call,
            outcome_armed erased crypto table sf rest later armed, id, expected, size]
          simp only [lastCompletes_completed later enough, ends, announcedImage, manifest,
            storedStream_append enough']
          rw [total]
        · have call := @fsm_collecting_refused _ (plain (fullLayout erased)) crypto table sf _ memory
            _ _ session enough accepted
          rw [if_pos accepted]
          refine outcome_cons_error erased crypto table sf rest ?_
          rw [call]
          exact fun impossible => PullError.noConfusion impossible

/-! ### Two ways to cut one stream -/

/-- Two deliveries that both returned an error, or that both ended in one state with one content of
every slot. -/
def Agree : Option (FsmCtx × Contents) → Option (FsmCtx × Contents) → Prop
  | none, none => True
  | some first, some second =>
      first.1.state = second.1.state ∧ ∀ slot ∈ table.slots, first.2 slot.id = second.2 slot.id
  | _, _ => False

/-- Two ways to deliver agree. -/
@[irreducible] def SameOutcome (first second : List FsmInput) (ctx : FsmCtx) (memory : Contents) : Prop :=
  Agree table (deliver (plain (fullLayout erased)) crypto table sf first ctx memory)
    (deliver (plain (fullLayout erased)) crypto table sf second ctx memory)

theorem sameOutcome_of_outcome {first second : List FsmInput} {ctx : FsmCtx} {memory : Contents}
    (same : outcome erased crypto table sf first ctx memory =
      outcome erased crypto table sf second ctx memory) :
    SameOutcome erased crypto table sf first second ctx memory := by
  unfold outcome at same
  unfold SameOutcome
  cases delivered1 : deliver (plain (fullLayout erased)) crypto table sf first ctx memory with
  | none =>
      cases delivered2 : deliver (plain (fullLayout erased)) crypto table sf second ctx memory with
      | none => exact trivial
      | some final2 =>
          rw [delivered1, delivered2] at same
          cases same
  | some final1 =>
      cases delivered2 : deliver (plain (fullLayout erased)) crypto table sf second ctx memory with
      | none =>
          rw [delivered1, delivered2] at same
          cases same
      | some final2 =>
          rw [delivered1, delivered2] at same
          obtain ⟨state, memories⟩ := Prod.mk.inj (Option.some.inj same)
          exact ⟨state, fun slot _ => by rw [memories]⟩

theorem outcome_state_of_sameOutcome {first second : List FsmInput} {ctx : FsmCtx}
    {memory : Contents} (same : SameOutcome erased crypto table sf first second ctx memory) :
    (outcome erased crypto table sf first ctx memory).map Prod.fst =
      (outcome erased crypto table sf second ctx memory).map Prod.fst := by
  unfold SameOutcome at same
  unfold outcome
  cases delivered1 : deliver (plain (fullLayout erased)) crypto table sf first ctx memory with
  | none =>
      cases delivered2 : deliver (plain (fullLayout erased)) crypto table sf second ctx memory with
      | none => rfl
      | some final2 =>
          rw [delivered1, delivered2] at same
          exact False.elim same
  | some final1 =>
      cases delivered2 : deliver (plain (fullLayout erased)) crypto table sf second ctx memory with
      | none =>
          rw [delivered1, delivered2] at same
          exact False.elim same
      | some final2 =>
          rw [delivered1, delivered2] at same
          exact congrArg some same.1

/-- **Exactly when the split does not matter**: the stream ends inside the manifest, the manifest
is refused, fewer bytes than announced arrive, both splits leave it to the call that completes the
manifest to bring the rest, or neither does and, should the image pass, either both or none of them
have a call that ends where the image ends. -/
theorem sameOutcome_iff (first second : List FsmInput) (ctx : FsmCtx) (memory : Contents)
    (stream : List UInt8) (ofFirst : streamOf first = stream) (ofSecond : streamOf second = stream)
    (nonemptyFirst : ∀ input ∈ first, input.buf.data ≠ [])
    (nonemptySecond : ∀ input ∈ second, input.buf.data ≠ [])
    (waiting : ctx.state = .receiveManifest) (fresh : ctx.processed = 0) :
    SameOutcome erased crypto table sf first second ctx memory ↔
      stream.length < sizeofManifest ∨
      ¬ Accepted crypto sf ctx.version (Manifest.ofBytes stream) ∨
      stream.length < (Manifest.ofBytes stream).announced ∨
      (LastCompletes stream.length (cuts 0 first) ∧ LastCompletes stream.length (cuts 0 second)) ∨
      (¬ LastCompletes stream.length (cuts 0 first) ∧
        ¬ LastCompletes stream.length (cuts 0 second) ∧
        (slotVerdict crypto sf (announcedImage erased table memory stream) = .success →
          (EndsExactly (Manifest.ofBytes stream).announced (cuts 0 first) ↔
            EndsExactly (Manifest.ofBytes stream).announced (cuts 0 second)))) := by
  have session : Collecting ctx [] := ⟨waiting, fresh, by decide, rfl⟩
  have outcomes : ∀ inputs, streamOf inputs = stream →
      (∀ input ∈ inputs, input.buf.data ≠ []) →
      outcome erased crypto table sf inputs ctx memory =
        outcomeOf erased crypto table sf ctx.version memory stream (cuts 0 inputs) := by
    intro inputs ofInputs nonempty
    rw [outcome_collecting erased crypto table sf inputs nonempty memory session, ofInputs,
      List.nil_append]
    rfl
  have states : SameOutcome erased crypto table sf first second ctx memory →
      (outcomeOf erased crypto table sf ctx.version memory stream (cuts 0 first)).map Prod.fst =
        (outcomeOf erased crypto table sf ctx.version memory stream (cuts 0 second)).map
          Prod.fst := by
    intro same
    rw [← outcomes first ofFirst nonemptyFirst, ← outcomes second ofSecond nonemptySecond]
    exact outcome_state_of_sameOutcome erased crypto table sf same
  have equal : outcomeOf erased crypto table sf ctx.version memory stream (cuts 0 first) =
      outcomeOf erased crypto table sf ctx.version memory stream (cuts 0 second) →
      SameOutcome erased crypto table sf first second ctx memory := by
    intro same
    apply sameOutcome_of_outcome
    rw [outcomes first ofFirst nonemptyFirst, outcomes second ofSecond nonemptySecond, same]
  unfold outcomeOf at states equal
  by_cases short : stream.length < sizeofManifest
  · rw [if_pos short, if_pos short] at equal
    exact iff_of_true (equal rfl) (Or.inl short)
  rw [if_neg short, if_neg short] at states equal
  rw [or_iff_right short]
  by_cases accepted : Accepted crypto sf ctx.version (Manifest.ofBytes stream)
  · rw [if_neg (not_not.mpr accepted), if_neg (not_not.mpr accepted)] at states equal
    rw [or_iff_right (not_not.mpr accepted)]
    by_cases waits : stream.length < (Manifest.ofBytes stream).announced
    · rw [if_pos (Or.inr waits), if_pos (Or.inr waits)] at equal
      exact iff_of_true (equal rfl) (Or.inl waits)
    rw [or_iff_right waits]
    simp only [or_iff_left waits] at states equal
    by_cases last1 : LastCompletes stream.length (cuts 0 first)
    · rw [if_pos last1] at states equal
      by_cases last2 : LastCompletes stream.length (cuts 0 second)
      · rw [if_pos last2] at equal
        exact iff_of_true (equal rfl) (Or.inl ⟨last1, last2⟩)
      · rw [if_neg last2] at states
        refine iff_of_false (fun same => ?_) ?_
        · have impossible := states same
          split at impossible
          · cases impossible
          · cases impossible
        · rintro (⟨_, second'⟩ | ⟨first', _⟩)
          · exact last2 second'
          · exact first' last1
    · rw [if_neg last1] at states equal
      by_cases last2 : LastCompletes stream.length (cuts 0 second)
      · rw [if_pos last2] at states
        refine iff_of_false (fun same => ?_) ?_
        · have impossible := states same
          split at impossible
          · cases impossible
          · cases impossible
        · rintro (⟨first', _⟩ | ⟨_, second', _⟩)
          · exact last1 first'
          · exact second' last2
      · rw [if_neg last2] at states equal
        rw [or_iff_right (fun both => last1 both.1)]
        -- What is left is whether the calls end where the image ends.
        constructor
        · intro same
          refine ⟨last1, last2, fun passes => ?_⟩
          have together := states same
          simp only [passes, and_true] at together
          by_cases ends1 : EndsExactly (Manifest.ofBytes stream).announced (cuts 0 first)
          · by_cases ends2 : EndsExactly (Manifest.ofBytes stream).announced (cuts 0 second)
            · exact iff_of_true ends1 ends2
            · rw [if_pos ends1, if_neg ends2] at together
              cases together
          · by_cases ends2 : EndsExactly (Manifest.ofBytes stream).announced (cuts 0 second)
            · rw [if_neg ends1, if_pos ends2] at together
              cases together
            · exact iff_of_false ends1 ends2
        · rintro ⟨_, _, together⟩
          apply equal
          by_cases passes :
              slotVerdict crypto sf (announcedImage erased table memory stream) = .success
          · simp only [together passes]
          · simp only [passes, and_false, if_false]
  · rw [if_pos accepted, if_pos accepted] at equal
    exact iff_of_true (equal rfl) (Or.inl accepted)

end Split

/-- The whole update in one call. -/
def updateCall : FsmInput := callWith (signedManifest ++ zeroFirmware) (by
  rw [List.length_append, signedManifest_length, zeroFirmware, List.length_replicate]
  decide)

/-- A session on a blank device that waits for its manifest. -/
def waitingCtx : FsmCtx := { FsmCtx.zero with state := .receiveManifest }

/-- Half of the firmware in one call. -/
def halfCall : FsmInput := callWith (List.replicate 512 0) (by
  rw [List.length_replicate]
  decide)

theorem signedUpdate_lengths : updateCall.buf.data.length = 1280 ∧
    manifestCall.buf.data.length = 256 ∧ firmwareCall.buf.data.length = 1024 ∧
    halfCall.buf.data.length = 512 := by
  refine ⟨?_, signedManifest_length, List.length_replicate, List.length_replicate⟩
  show (signedManifest ++ zeroFirmware).length = 1280
  rw [List.length_append, signedManifest_length, zeroFirmware, List.length_replicate]

theorem signedUpdate_nonempty :
    (∀ input ∈ [updateCall], input.buf.data ≠ []) ∧
      (∀ input ∈ [manifestCall, firmwareCall], input.buf.data ≠ []) ∧
      ∀ input ∈ [manifestCall, halfCall, halfCall], input.buf.data ≠ [] := by
  obtain ⟨update, manifest, firmware, half⟩ := signedUpdate_lengths
  have nonempty : ∀ (input : FsmInput) (size : Nat), input.buf.data.length = size → 0 < size →
      input.buf.data ≠ [] :=
    fun input size length positive => List.ne_nil_of_length_pos (length ▸ positive)
  have manifest' := nonempty manifestCall 256 manifest (by decide)
  have half' := nonempty halfCall 512 half (by decide)
  refine ⟨?_, ?_, ?_⟩
  · exact List.forall_mem_singleton.mpr (nonempty updateCall 1280 update (by decide))
  · exact List.forall_mem_cons.mpr ⟨manifest',
      List.forall_mem_singleton.mpr (nonempty firmwareCall 1024 firmware (by decide))⟩
  · exact List.forall_mem_cons.mpr ⟨manifest',
      List.forall_mem_cons.mpr ⟨half', List.forall_mem_singleton.mpr half'⟩⟩

theorem signedUpdate_stream :
    streamOf [updateCall] = signedManifest ++ zeroFirmware ∧
      streamOf [manifestCall, firmwareCall] = signedManifest ++ zeroFirmware ∧
      streamOf [manifestCall, halfCall, halfCall] = signedManifest ++ zeroFirmware := by
  refine ⟨List.append_nil _, ?_, ?_⟩
  · show signedManifest ++ (zeroFirmware ++ []) = _
    rw [List.append_nil]
  · show signedManifest ++ (List.replicate 512 0 ++ (List.replicate 512 0 ++ [])) = _
    rw [List.append_nil, List.replicate_append_replicate]
    rfl

theorem signedUpdate_cuts :
    cuts 0 [updateCall] = [1280] ∧ cuts 0 [manifestCall, firmwareCall] = [256, 1280] ∧
      cuts 0 [manifestCall, halfCall, halfCall] = [256, 768, 1280] := by
  obtain ⟨update, manifest, firmware, half⟩ := signedUpdate_lengths
  refine ⟨?_, ?_, ?_⟩
  · rw [cuts, cuts, update]
  · rw [cuts, cuts, cuts, manifest, firmware]
  · rw [cuts, cuts, cuts, cuts, manifest, half]

/-- A complete valid update that arrives in one call is left waiting, although it reboots the
device when manifest and firmware arrive one after the other. -/
theorem signedUpdate_split :
    ¬ SameOutcome none mirrorCrypto twoSlots zeroSafestore [updateCall]
      [manifestCall, firmwareCall] waitingCtx (fun _ _ => 0) := by
  have session : Collecting waitingCtx [] := ⟨rfl, rfl, by decide, rfl⟩
  have length : (signedManifest ++ zeroFirmware).length = 1280 := by
    rw [List.length_append, signedManifest_length, zeroFirmware, List.length_replicate]
  have manifest : Manifest.ofBytes (signedManifest ++ zeroFirmware) =
      Manifest.ofBytes signedManifest :=
    Manifest.ofBytes_append (le_of_eq signedManifest_length.symm) _
  have long : ¬ (signedManifest ++ zeroFirmware).length < sizeofManifest := by
    rw [length]
    decide
  have accepted : Accepted mirrorCrypto zeroSafestore waitingCtx.version
      (Manifest.ofBytes (signedManifest ++ zeroFirmware)) := by
    rw [manifest]
    exact signedManifest_accepted
  have passes : slotVerdict mirrorCrypto zeroSafestore (announcedImage none twoSlots
      (fun _ _ => 0) (signedManifest ++ zeroFirmware)) = .success := by
    rw [announcedImage, imageIn, storedStream_append (le_of_eq signedManifest_length.symm),
      signedManifest_stored, manifest, signedManifest_announced,
      List.take_of_length_le (le_of_eq length)]
    exact signedUpdate_passes _
  intro same
  have states := outcome_state_of_sameOutcome none mirrorCrypto twoSlots zeroSafestore same
  rw [outcome_collecting none mirrorCrypto twoSlots zeroSafestore _ signedUpdate_nonempty.1 _
      session,
    outcome_collecting none mirrorCrypto twoSlots zeroSafestore _ signedUpdate_nonempty.2.1 _
      session,
    signedUpdate_stream.1, signedUpdate_stream.2.1, List.nil_append, List.length_nil,
    signedUpdate_cuts.1, signedUpdate_cuts.2.1, outcomeOf, outcomeOf, if_neg long, if_neg long,
    if_neg (not_not.mpr accepted), if_neg (not_not.mpr accepted), manifest,
    signedManifest_announced, length] at states
  rw [if_pos (Or.inl (by decide)), if_neg (by decide), if_pos ⟨by decide, passes⟩] at states
  cases states

/-- Whether the firmware comes in one call or in two, the update ends the same. -/
theorem signedUpdate_same :
    SameOutcome none mirrorCrypto twoSlots zeroSafestore [manifestCall, firmwareCall]
      [manifestCall, halfCall, halfCall] waitingCtx (fun _ _ => 0) := by
  have early : ∀ ends : List Nat, 256 ∈ ends →
      ¬ LastCompletes (signedManifest ++ zeroFirmware).length ends := by
    intro ends member last
    have impossible := last 256 member le_rfl
    rw [List.length_append, signedManifest_length, zeroFirmware, List.length_replicate]
      at impossible
    omega
  have announced : (Manifest.ofBytes (signedManifest ++ zeroFirmware)).announced = 1280 := by
    rw [Manifest.ofBytes_append (le_of_eq signedManifest_length.symm)]
    exact signedManifest_announced
  refine (sameOutcome_iff none mirrorCrypto twoSlots zeroSafestore _ _ waitingCtx (fun _ _ => 0)
    (signedManifest ++ zeroFirmware) signedUpdate_stream.2.1 signedUpdate_stream.2.2
    signedUpdate_nonempty.2.1 signedUpdate_nonempty.2.2 rfl rfl).mpr ?_
  rw [signedUpdate_cuts.2.1, signedUpdate_cuts.2.2, announced]
  exact Or.inr (Or.inr (Or.inr (Or.inr ⟨early _ (by decide), early _ (by decide),
    fun _ => by decide⟩)))

end Upkit
