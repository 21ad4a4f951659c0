/-
**Feeding a stage chunk by chunk.**

Whoever drives a pipeline hands its first stage one chunk after the other and looks at the result of
each call. What the stage hands on is observed by a `recording` stage below it, and a stage below
that only follows what it has been given is described by a function of these bytes.

* `feed` — the results of the calls, and the state after them.
* `recording` — any stage, with the list of the chunks it was given.
* `Tracks` — a stage whose state is known from the bytes it has taken so far, as long as they stay
  within a given set of byte strings.
-/

import Upkit.Pipeline.Stages

namespace Upkit

section Feed

variable {ν : Type}

/-- The chunks one after the other: what each call returns, and the state at the end. -/
def feed (stage : Stage ν) : List (List UInt8) → ν → List Int × ν
  | [], state => ([], state)
  | chunk :: chunks, state =>
      let (ret, state) := stage chunk state
      let (rets, state) := feed stage chunks state
      (ret :: rets, state)

theorem feed_nil (stage : Stage ν) (state : ν) : feed stage [] state = ([], state) := rfl

theorem feed_cons (stage : Stage ν) (chunk : List UInt8) (chunks : List (List UInt8)) (state : ν) :
    feed stage (chunk :: chunks) state =
      ((stage chunk state).1 :: (feed stage chunks (stage chunk state).2).1,
        (feed stage chunks (stage chunk state).2).2) := rfl

/-- A stage that also notes the chunks it is given. -/
def recording (next : Stage ν) : Stage (ν × List (List UInt8)) :=
  fun buf state =>
    let (ret, below) := next buf state.1
    (ret, below, state.2 ++ [buf])

theorem handDown_recording (next : Stage ν) (blocks : List (List UInt8)) (below : ν)
    (passed : List (List UInt8)) :
    handDown (recording next) blocks (below, passed) =
      (handDown next blocks below, passed ++ blocks) := by
  induction blocks generalizing below passed with
  | nil => rw [List.append_nil]; rfl
  | cons block blocks ih =>
      rw [handDown_cons, handDown_cons]
      exact (ih _ _).trans (by rw [List.append_assoc]; rfl)

/-- A stage that takes single bytes and whose state is known from the bytes taken so far. -/
structure Tracks (next : Stage ν) (state : List UInt8 → ν) (allowed : List UInt8 → Prop) :
    Prop where
  shorter : ∀ {taken more}, allowed (taken ++ more) → allowed taken
  takes : ∀ {taken byte}, allowed (taken ++ [byte]) → 0 ≤ (next [byte] (state taken)).1
  after : ∀ {taken byte}, allowed (taken ++ [byte]) →
    (next [byte] (state taken)).2 = state (taken ++ [byte])

theorem Tracks.prefix_allowed {next : Stage ν} {state : List UInt8 → ν}
    {allowed : List UInt8 → Prop} (tracks : Tracks next state allowed) {taken more : List UInt8}
    (shorter : taken <+: more) (ok : allowed more) : allowed taken := by
  obtain ⟨rest, rfl⟩ := shorter
  exact tracks.shorter ok

/-- A stage that accepts everything is tracked by what it has been handed. -/
theorem tracks_accepting {next : Stage ν} (accepts : ∀ data below, 0 ≤ (next data below).1)
    (below : ν) :
    Tracks (recording next) (fun taken => (handDown next (taken.map ([·])) below, taken.map ([·])))
      fun _ => True where
  shorter := fun _ => trivial
  takes := fun _ => accepts _ _
  after := by
    intro taken byte _
    rw [List.map_append, handDown, handDown, List.foldl_append]
    rfl

end Feed

end Upkit
