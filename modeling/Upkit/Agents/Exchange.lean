/-
**What an exchange remembers of its errors.**

Between a request and the check of `reqc.err` any number of callbacks may arrive. Each of them
stores into the same field, so only the last one counts, and a callback without data stores the
`err` it was given, which is zero.

* `runExchange` — the callbacks of one exchange, one after the other.
* `requestCb_stores_iff` — what makes a callback store an error.
* `exchange_noticed_iff` — a troubled exchange is noticed exactly when its last callback stores an
  error; an untroubled one has nothing to notice.
* `check_fails_iff` — what the agent makes of it.
* `trouble_forgotten` — a network error before good data, and a callback without data.
-/

import Mathlib.Data.List.Induction
import Upkit.Agents.Update

namespace Upkit

section Exchange

variable {σ : Type} (M : MemoryInterface σ) (crypto : Crypto) (table : SlotTable)
  (sf : Safestore)

/-- The callbacks between a request and the check of `reqc.err`. -/
def runExchange (callbacks : List Callback) (agent : UpdateAgent σ) : UpdateAgent σ :=
  callbacks.foldl (fun agent callback => requestCb M crypto table sf callback agent) agent

/-- A callback with data that the state machine refuses, as the callback finds it. -/
def Refused (callback : Callback) (agent : UpdateAgent σ) : Prop :=
  callback.err = .success ∧ ∃ input ∈ callback.data,
    (fsm M crypto table sf input agent.fsmc agent.memory).err ≠ .success

/-- A callback with a network error, without data, or with data that is refused. -/
def Bad (callback : Callback) (agent : UpdateAgent σ) : Prop :=
  callback.err ≠ .success ∨ callback.data = none ∨ Refused M crypto table sf callback agent

/-- Some callback of the exchange is bad. -/
def Troubled (callbacks : List Callback) (agent : UpdateAgent σ) : Prop :=
  ∃ before callback after, callbacks = before ++ callback :: after ∧
    Bad M crypto table sf callback (runExchange M crypto table sf before agent)

/-- The last callback of the exchange has a network error or data that is refused. -/
def EndsInError (callbacks : List Callback) (agent : UpdateAgent σ) : Prop :=
  ∃ before last, callbacks = before ++ [last] ∧ (last.err ≠ .success ∨
    Refused M crypto table sf last (runExchange M crypto table sf before agent))

theorem runExchange_concat (callbacks : List Callback) (last : Callback) (agent : UpdateAgent σ) :
    runExchange M crypto table sf (callbacks ++ [last]) agent =
      requestCb M crypto table sf last (runExchange M crypto table sf callbacks agent) := by
  rw [runExchange, List.foldl_append]
  rfl

/-- The agent stays where it waits. -/
theorem runExchange_point (callbacks : List Callback) (agent : UpdateAgent σ) :
    (runExchange M crypto table sf callbacks agent).point = agent.point := by
  induction callbacks using List.reverseRecOn with
  | nil => rfl
  | append_singleton callbacks last ih => rw [runExchange_concat, requestCb_point, ih]

/-- **A callback stores an error** for a network error and for data that is refused, and for
nothing else. -/
theorem requestCb_stores_iff (callback : Callback) (agent : UpdateAgent σ) :
    (requestCb M crypto table sf callback agent).reqcErr ≠ .success ↔
      callback.err ≠ .success ∨ Refused M crypto table sf callback agent := by
  unfold requestCb Refused
  by_cases network : callback.err = .success
  · cases data : callback.data with
    | none =>
        -- The branch without data stores `err`, which is zero here.
        simp only [network, ne_eq, not_true_eq_false, if_false, Option.mem_def, reduceCtorEq,
          false_and, exists_false, and_false, or_self]
    | some input =>
        simp only [network, ne_eq, not_true_eq_false, if_false, Option.mem_def,
          Option.some.injEq, exists_eq_left', true_and, false_or]
  · simp only [network, ne_eq, not_false_eq_true, if_true, true_or]

/-- **A troubled exchange is noticed** exactly when its last callback stores an error. -/
theorem exchange_noticed_iff (callbacks : List Callback) (agent : UpdateAgent σ) :
    (Troubled M crypto table sf callbacks agent →
        (runExchange M crypto table sf callbacks agent).reqcErr ≠ .success) ↔
      ¬ Troubled M crypto table sf callbacks agent ∨
        EndsInError M crypto table sf callbacks agent := by
  rw [imp_iff_not_or]
  cases callbacks using List.reverseRecOn with
  | nil =>
      have untroubled : ¬ Troubled M crypto table sf [] agent := by
        rintro ⟨before, callback, after, split, _⟩
        exact absurd split (by simp)
      exact ⟨fun _ => Or.inl untroubled, fun _ => Or.inl untroubled⟩
  | append_singleton before last =>
      have ends : EndsInError M crypto table sf (before ++ [last]) agent ↔
          (runExchange M crypto table sf (before ++ [last]) agent).reqcErr ≠ .success := by
        rw [runExchange_concat, requestCb_stores_iff]
        constructor
        · rintro ⟨other, callback, split, stores⟩
          obtain ⟨rfl, ⟨rfl⟩⟩ := List.append_inj' split rfl
          exact stores
        · exact fun stores => ⟨before, last, rfl, stores⟩
      rw [ends]

/-- The failure with which the check of `reqc.err` ends the agent, where it waits for an answer. -/
def UpdatePoint.checkFailure : UpdatePoint → Option (PullError → UpdateEvent)
  | .subscribeSend => some .subscribeFailure2
  | .receiveSend => some .receiverFailure2
  | _ => none

/-- **The check behind an exchange** ends the agent exactly when an error is stored. -/
theorem check_fails_iff (callbacks : List Callback) {agent : UpdateAgent σ} (answer : Answer)
    {failure : PullError → UpdateEvent} (waiting : agent.point.checkFailure = some failure) :
    ((runExchange M crypto table sf callbacks agent).resume M crypto table sf answer).point =
        .returned (failure (runExchange M crypto table sf callbacks agent).reqcErr) ↔
      (runExchange M crypto table sf callbacks agent).reqcErr ≠ .success := by
  rw [← runExchange_point M crypto table sf callbacks agent] at waiting
  generalize runExchange M crypto table sf callbacks agent = after at waiting ⊢
  obtain ⟨_, _, versionPoint⟩ := subscribeRequest_keeps answer.request after
  unfold UpdateAgent.resume
  cases point : after.point with
  | subscribeSend =>
      rw [point] at waiting
      cases waiting
      simp only
      split
      · rename_i stored
        exact ⟨fun _ => stored, fun _ => rfl⟩
      · rename_i clear
        refine ⟨fun fails => ?_, fun stored => absurd stored clear⟩
        split at fails
        · rcases versionPoint with sent | failed
          · rw [sent] at fails
            cases fails
          · rw [failed] at fails
            cases fails
        · cases fails
  | receiveSend =>
      rw [point] at waiting
      cases waiting
      simp only
      split
      · rename_i stored
        exact ⟨fun _ => stored, fun _ => rfl⟩
      · rename_i clear
        exact ⟨fun fails => UpdatePoint.noConfusion fails, fun stored => absurd stored clear⟩
  | subscribe | getMsg | receive | subscribeTimeout | returned =>
      rw [point] at waiting
      cases waiting

end Exchange

/-! ### Errors that are forgotten -/

/-- The agent of a blank device that waits for a version. -/
def blankAskingAgent : UpdateAgent Contents :=
  ⟨.subscribeSend, blankCtx, .success, [], fun _ _ => 0⟩

/-- A network error, and then a version that is accepted. -/
def errorThenVersion : List Callback := [⟨.requestError, none⟩, ⟨.success, some versionCall⟩]

/-- A callback without data. -/
def missingData : List Callback := [⟨.success, none⟩]

/-- **Errors that are forgotten**: both exchanges are troubled and end with a clear field, and behind
the first the agent goes on to the update. -/
theorem trouble_forgotten :
    (Troubled (plain (fullLayout none)) mirrorCrypto twoSlots zeroSafestore errorThenVersion
        blankAskingAgent ∧
      (runExchange (plain (fullLayout none)) mirrorCrypto twoSlots zeroSafestore errorThenVersion
        blankAskingAgent).reqcErr = .success ∧
      ((runExchange (plain (fullLayout none)) mirrorCrypto twoSlots zeroSafestore errorThenVersion
        blankAskingAgent).resume (plain (fullLayout none)) mirrorCrypto twoSlots zeroSafestore
          zeroAnswer).point = .getMsg) ∧
    Troubled (plain (fullLayout none)) mirrorCrypto twoSlots zeroSafestore missingData
        blankAskingAgent ∧
      (runExchange (plain (fullLayout none)) mirrorCrypto twoSlots zeroSafestore missingData
        blankAskingAgent).reqcErr = .success := by
  have accepted : runExchange (plain (fullLayout none)) mirrorCrypto twoSlots zeroSafestore
      errorThenVersion blankAskingAgent =
      ⟨.subscribeSend, { blankCtx with state := .startUpdate }, .success, [], fun _ _ => 0⟩ := by
    simp only [runExchange, errorThenVersion, List.foldl_cons, List.foldl_nil, requestCb,
      blankAskingAgent, ne_eq, reduceCtorEq, not_false_eq_true, not_true_eq_false, if_true,
      if_false, fsm_versionCall]
  refine ⟨⟨⟨[], _, _, rfl, Or.inl PullError.noConfusion⟩, ?_, ?_⟩,
    ⟨[], _, [], rfl, Or.inr (Or.inl rfl)⟩, rfl⟩
  · rw [accepted]
  · rw [accepted]
    rfl

end Upkit
