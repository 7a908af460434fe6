import KnowledgeKiln.Core.Retry
import KnowledgeKiln.Core.Run
import KnowledgeKiln.L1Ingest.OpenAiCompatible

/-!
# Requests to an endpoint (ingestion/embedding/openai_compatible.py, generation/openai_compatible.py)

Both adapters post with the same loop, inside a semaphore: a transport error or a retryable status
is tried again after a pause, anything else decides, and so does a pause too long for a float.
`requestWithRetry` is that loop for one call. `step` is what happens between two awaits when many
calls share an adapter; the endpoint may answer anything, in any order.

* `step_inv`: a permit is free or with a call, and a call is where the loop is after its replies.
* `step_ahead`: no step makes a call longer.
* `adapter_contained`: permits, posts, pauses and results, and that no call gets stuck.
-/
namespace KnowledgeKiln.L1.Endpoint

open KnowledgeKiln.Core

/-- How a `post` ends: with an `httpx.TransportError` of some class, with another exception (a
body that does not decode), or with a response, its body as text and what `response.json()` makes
of it. -/
inductive Reply
  | transportError (cls : Str)
  | raised (exc : PyExc)
  | response (status : Nat) (text : Str) (json : Py Json)

/-- `_RETRYABLE_STATUSES` -/
def retryableStatuses : List Nat := [408, 425, 429, 500, 502, 503, 504]

inductive Adapter
  | embedding | generation
  deriving DecidableEq

/-- A provider as its `from_url` makes it, so that the backoffs are the defaults. -/
structure Client where
  adapter : Adapter
  maxRetries : Nat
  concurrency : Nat
  concurrency_pos : 0 < concurrency

/-- What `random.random()` returns. -/
structure Draw where
  value : ℚ
  nonneg : 0 ≤ value
  lt_one : value < 1

def defaultBaseBackoffSeconds : ℚ := 1 / 2

def defaultMaxBackoffSeconds : ℚ := 10

/-- `2 ** attempt` is an integer, and from here on no float. -/
def overflowAttempt : Nat := 1024

/-- The last attempt that can be made. -/
def Client.lastAttempt (c : Client) : Nat := min c.maxRetries overflowAttempt

/-- The pause of `_sleep_backoff` before it overflows; `random.uniform(0, b)` is `b` times a
draw. -/
def sleepBackoff (adapter : Adapter) (attempt : Nat) (draw : Draw) : ℚ :=
  let delay := min (defaultBaseBackoffSeconds * 2 ^ attempt) defaultMaxBackoffSeconds
  match adapter with
  | .embedding => delay + delay * (1 / 4) * draw.value
  | .generation => delay + draw.value * (1 / 10)

/-! ## The texts of the errors -/

/-- `GeneratorRequestError` is a `RuntimeError`. -/
def failed (attempts : Nat) (cls : Str) : Adapter → PyExc
  | .embedding => .runtimeError <|
    "embedding request failed after ".toList ++ natStr attempts ++ " attempts: " ++ cls
  | .generation => .runtimeError <|
    "generation request failed after ".toList ++ natStr attempts ++ " attempts: " ++ cls

def refused (status : Nat) (body : Str) : Adapter → PyExc
  | .embedding => .runtimeError <|
    "embedding endpoint returned ".toList ++ natStr status ++ ": " ++ body
  | .generation => .runtimeError <|
    "generation request failed with status ".toList ++ natStr status ++ ": " ++ body

/-- Only the embedding adapter says how often it tried. -/
def exhausted (attempts status : Nat) (body : Str) : Adapter → PyExc
  | .embedding => .runtimeError <|
    "embedding endpoint returned ".toList ++ natStr status ++ " after " ++ natStr attempts ++
      " attempts: " ++ body
  | .generation => .runtimeError <|
    "generation request exhausted retries; last status ".toList ++ natStr status ++ ": " ++ body

/-! ## One call -/

/-- After an attempt that may be repeated: `exc` is raised if it was the last, and `_sleep_backoff`
raises if its product does not fit a float. -/
def again (c : Client) (attempt : Nat) (exc : PyExc) : Retry.Outcome (Py Json) PyExc :=
  if attempt = c.maxRetries then .transient exc
  else if overflowAttempt ≤ attempt then .fatal .overflowError
  else .transient exc

/-- One turn of the loop. An attempt that may be repeated carries what is raised if it is the
last. -/
def attemptOutcome (c : Client) (attempt : Nat) : Reply → Retry.Outcome (Py Json) PyExc
  | .transportError cls => again c attempt (failed (attempt + 1) cls c.adapter)
  | .raised exc => .fatal exc
  | .response status text json =>
    if status = 200 then .done json
    else if status ∈ retryableStatuses then
      again c attempt (exhausted (c.maxRetries + 1) status (text.take 200) c.adapter)
    else .fatal (refused status (text.take 200) c.adapter)

/-- Mirrors `_request_with_retry` (embedding :127-168, generation :140-175), followed by
`response.json()`; also how many posts were made. -/
def requestWithRetry (c : Client) (respond : Nat → Reply) : Py Json × Nat :=
  let out := Retry.run (fun attempt => attemptOutcome c attempt (respond attempt)) 0 c.maxRetries
  (out.1.bind id, out.2)

/-! ## Many calls -/

inductive Phase
  /-- at the semaphore -/
  | queued
  | posting (attempt : Nat)
  | pausing (attempt : Nat)
  | returned (result : Py Json)

/-- A call, the replies it has had and the pauses it has made. -/
structure Call where
  payload : Json
  replies : List Reply := []
  slept : List ℚ := []
  phase : Phase := .queued

structure World where
  permits : Nat
  calls : List Call := []

inductive Event
  | call (payload : Json)
  | acquire (k : Nat)
  | reply (k : Nat) (reply : Reply) (draw : Draw)
  | wake (k : Nat)

/-- `async with self._semaphore` -/
def Phase.inside : Phase → Bool
  | .posting _ | .pausing _ => true
  | .queued | .returned _ => false

/-- Where the call goes with a reply. -/
def nextPhase (c : Client) (attempt : Nat) (reply : Reply) : Phase :=
  match attemptOutcome c attempt reply with
  | .done json => .returned json
  | .fatal e => .returned (.error e)
  | .transient e => if attempt = c.maxRetries then .returned (.error e) else .pausing attempt

def afterReply (c : Client) (attempt : Nat) (reply : Reply) (draw : Draw) (call : Call) : Call :=
  let phase := nextPhase c attempt reply
  { call with
    replies := call.replies ++ [reply]
    slept := if phase.inside then call.slept ++ [sleepBackoff c.adapter attempt draw]
      else call.slept
    phase := phase }

def step (c : Client) (w : World) : Event → Option World
  | .call payload => some { w with calls := w.calls ++ [{ payload }] }
  | .acquire k =>
    match w.calls[k]? with
    | some ({ phase := .queued, .. } : Call) =>
      if 0 < w.permits then
        some
          { permits := w.permits - 1
            calls := w.calls.modify k fun call => { call with phase := .posting 0 } }
      else none
    | _ => none
  | .reply k reply draw =>
    match w.calls[k]? with
    | some ({ phase := .posting attempt, .. } : Call) =>
      some
        { permits := w.permits + if (nextPhase c attempt reply).inside then 0 else 1
          calls := w.calls.modify k (afterReply c attempt reply draw) }
    | _ => none
  | .wake k =>
    match w.calls[k]? with
    | some ({ phase := .pausing attempt, .. } : Call) =>
      some { w with
        calls := w.calls.modify k fun call => { call with phase := .posting (attempt + 1) } }
    | _ => none

/-! ## The loop of one call -/

def Reply.retryable : Reply → Bool
  | .transportError _ => true
  | .raised _ => false
  | .response status _ _ => decide (status ∈ retryableStatuses)

section
variable {c : Client} {attempt : Nat} {reply : Reply} {respond : Nat → Reply}

theorem isTransient_again {exc : PyExc} : (again c attempt exc).isTransient =
    decide (attempt = c.maxRetries ∨ attempt < overflowAttempt) := by
  unfold again
  split
  · simp_all [Retry.Outcome.isTransient]
  · split <;> simp_all [Retry.Outcome.isTransient]

theorem isTransient_attemptOutcome : (attemptOutcome c attempt reply).isTransient =
    (reply.retryable && decide (attempt = c.maxRetries ∨ attempt < overflowAttempt)) := by
  cases reply with
  | transportError cls => exact isTransient_again
  | raised exc => rfl
  | response status text json =>
    unfold attemptOutcome Reply.retryable
    dsimp only
    by_cases h : status = 200
    · subst h
      rfl
    · rw [if_neg h]
      split
      · rw [isTransient_again]
        simp_all
      · simp_all [Retry.Outcome.isTransient]

/-- An attempt leads to a pause when it may be repeated, is not the last, and the pause fits. -/
theorem inside_nextPhase : (nextPhase c attempt reply).inside =
    (reply.retryable && decide (attempt ≠ c.maxRetries ∧ attempt < overflowAttempt)) := by
  have htransient := @isTransient_attemptOutcome c attempt reply
  unfold nextPhase
  cases ho : attemptOutcome c attempt reply with
  | done json =>
    simp only [ho, Retry.Outcome.isTransient] at htransient
    simp [Phase.inside]
    grind
  | fatal e =>
    simp only [ho, Retry.Outcome.isTransient] at htransient
    simp [Phase.inside]
    grind
  | transient e =>
    simp only [ho, Retry.Outcome.isTransient] at htransient
    dsimp only
    split <;> simp_all [Phase.inside]

theorem nextPhase_pausing (h : (nextPhase c attempt reply).inside = true) :
    nextPhase c attempt reply = .pausing attempt := by
  unfold nextPhase at h ⊢
  cases ho : attemptOutcome c attempt reply with
  | done json => simp [ho, Phase.inside] at h
  | fatal e => simp [ho, Phase.inside] at h
  | transient e =>
    simp only [ho] at h ⊢
    split at h
    · cases h
    · rw [if_neg ‹_›]

/-- A reply that ends the call is the one that decides the loop. -/
theorem nextPhase_returned {result : Py Json} (h : nextPhase c attempt reply = .returned result) :
    ∃ out, result = out.bind id ∧
      Retry.Decides (attemptOutcome c attempt reply) (c.maxRetries - attempt) out := by
  unfold nextPhase at h
  cases ho : attemptOutcome c attempt reply with
  | done json =>
    simp only [ho] at h
    cases h
    exact ⟨.ok result, rfl, rfl⟩
  | fatal e =>
    simp only [ho] at h
    cases h
    exact ⟨.error e, rfl, rfl⟩
  | transient e =>
    simp only [ho] at h
    split at h
    · rename_i hlast
      cases h
      exact ⟨.error e, rfl, by omega, rfl⟩
    · cases h

/-- The loop makes an attempt for each reply when only the last of them ends it. -/
theorem requestWithRetry_eq {k : Nat} {result : Py Json} (hk : k ≤ c.lastAttempt)
    (hbefore : ∀ i < k, (respond i).retryable = true)
    (h : nextPhase c k (respond k) = .returned result) :
    requestWithRetry c respond = (result, k + 1) := by
  obtain ⟨out, rfl, hdecides⟩ := nextPhase_returned h
  have hrun : Retry.run (fun attempt => attemptOutcome c attempt (respond attempt)) 0
      c.maxRetries = (out, k + 1) := by
    refine Retry.run_eq (le_min_iff.mp hk).1 (fun i hi => ?_) ?_
    · rw [Nat.zero_add, isTransient_attemptOutcome, hbefore i hi]
      simpa using .inr (hi.trans_le (le_min_iff.mp hk).2)
    · rwa [Nat.zero_add]
  unfold requestWithRetry
  rw [hrun]

theorem again_ne_done {exc : PyExc} {json : Py Json} : again c attempt exc ≠ .done json := by
  unfold again
  split
  · simp
  · split <;> simp

/-- The JSON returned is that of the first reply not to be retried, if that one is a success. -/
theorem requestWithRetry_ok_iff {data : Json} : (requestWithRetry c respond).1 = .ok data ↔
    ∃ k ≤ c.lastAttempt, (∀ i < k, (respond i).retryable = true) ∧
      ∃ text, respond k = .response 200 text (.ok data) := by
  have hbind : (requestWithRetry c respond).1 = .ok data ↔
      (Retry.run (fun attempt => attemptOutcome c attempt (respond attempt)) 0
        c.maxRetries).1 = .ok (.ok data) := by
    unfold requestWithRetry
    dsimp only
    cases (Retry.run (fun attempt => attemptOutcome c attempt (respond attempt)) 0
      c.maxRetries).1 <;> simp [Except.bind]
  have hdone : ∀ k, attemptOutcome c k (respond k) = .done (.ok data) ↔
      ∃ text, respond k = .response 200 text (.ok data) := by
    intro k
    cases respond k with
    | transportError cls => simp [attemptOutcome, again_ne_done]
    | raised exc => simp [attemptOutcome]
    | response status text json =>
      unfold attemptOutcome
      dsimp only
      split
      · simp_all
      · split <;> simp_all [again_ne_done]
  rw [hbind, Retry.run_ok_iff]
  simp only [Nat.zero_add, isTransient_attemptOutcome, hdone, Bool.and_eq_true, decide_eq_true_iff]
  constructor
  · intro ⟨k, hk, hbefore, hlast⟩
    refine ⟨k, le_min hk ?_, fun i hi => (hbefore i hi).1, hlast⟩
    cases k with
    | zero => exact Nat.zero_le _
    | succ k =>
      have hpause := (hbefore k (Nat.lt_succ_self k)).2
      omega
  · intro ⟨k, hk, hbefore, hlast⟩
    obtain ⟨hretries, hfits⟩ := le_min_iff.mp hk
    exact ⟨k, hretries, fun i hi => ⟨hbefore i hi, .inr (hi.trans_le hfits)⟩, hlast⟩

end

/-! ## One step -/

/-- The `k`-th call, and what stands around it. -/
theorem calls_split {l : List Call} {k : Nat} {call : Call} (h : l[k]? = some call) :
    ∃ before after, l = before ++ call :: after ∧ before.length = k ∧
      ∀ f, l.modify k f = before ++ f call :: after := by
  obtain ⟨hk, hget⟩ := List.getElem?_eq_some_iff.mp h
  refine ⟨l.take k, l.drop (k + 1), ?_, List.length_take_of_le hk.le, fun f => ?_⟩
  · rw [← hget, List.getElem_cons_drop, List.take_append_drop]
  · rw [List.modify_eq_take_cons_drop hk, hget]

section
variable {c : Client} {w w' : World} {event : Event}

/-- What a step does: a call comes, or one that is there moves on. -/
theorem step_cases (h : step c w event = some w') :
    (∃ payload, event = .call payload ∧ w' = { w with calls := w.calls ++ [{ payload }] }) ∨
    ∃ before call after, w.calls = before ++ call :: after ∧
      ((call.phase = .queued ∧ 0 < w.permits ∧
        w' = ⟨w.permits - 1, before ++ { call with phase := .posting 0 } :: after⟩) ∨
      (∃ attempt reply draw, call.phase = .posting attempt ∧
        w' = ⟨w.permits + if (nextPhase c attempt reply).inside then 0 else 1,
          before ++ afterReply c attempt reply draw call :: after⟩) ∨
      (∃ attempt, call.phase = .pausing attempt ∧
        w' = ⟨w.permits, before ++ { call with phase := .posting (attempt + 1) } :: after⟩)) := by
  cases event with
  | call payload =>
    cases h
    exact .inl ⟨payload, rfl, rfl⟩
  | acquire k =>
    simp only [step] at h
    split at h
    · rename_i hk
      obtain ⟨before, after, hcalls, -, hmodify⟩ := calls_split hk
      split at h
      · rename_i hpermits
        cases h
        exact .inr ⟨before, _, after, hcalls, .inl ⟨rfl, hpermits, by rw [hmodify]⟩⟩
      · cases h
    · cases h
  | reply k reply draw =>
    simp only [step] at h
    split at h
    · rename_i hk
      obtain ⟨before, after, hcalls, -, hmodify⟩ := calls_split hk
      cases h
      exact .inr ⟨before, _, after, hcalls, .inr <| .inl ⟨_, reply, draw, rfl, by rw [hmodify]⟩⟩
    · cases h
  | wake k =>
    simp only [step] at h
    split at h
    · rename_i hk
      obtain ⟨before, after, hcalls, -, hmodify⟩ := calls_split hk
      cases h
      exact .inr ⟨before, _, after, hcalls, .inr <| .inr ⟨_, rfl, by rw [hmodify]⟩⟩
    · cases h

/-- A call that has not returned can move: it gets any reply, wakes, or takes a permit. -/
theorem exists_move {k : Nat} {call : Call} (hk : w.calls[k]? = some call)
    (hleft : ∀ result, call.phase ≠ .returned result) (hfree : call.phase = .queued → 0 < w.permits) :
    (step c w (.acquire k)).isSome = true ∨ (step c w (.wake k)).isSome = true ∨
      ∀ reply draw, (step c w (.reply k reply draw)).isSome = true := by
  obtain ⟨payload, replies, slept, phase⟩ := call
  cases phase with
  | queued => exact .inl (by simp [step, hk, hfree rfl])
  | posting attempt => exact .inr <| .inr fun reply draw => by simp [step, hk]
  | pausing attempt => exact .inr <| .inl (by simp [step, hk])
  | returned result => exact absurd rfl (hleft result)

end

/-! ## Where a call is -/

/-- No pause is longer, jitter included. -/
def longestPause : Adapter → ℚ
  | .embedding => 25 / 2
  | .generation => 101 / 10

theorem sleepBackoff_nonneg {adapter : Adapter} {attempt : Nat} {draw : Draw} :
    0 ≤ sleepBackoff adapter attempt draw := by
  have hdraw := draw.nonneg
  have hdelay : (0 : ℚ) ≤ min (defaultBaseBackoffSeconds * 2 ^ attempt)
      defaultMaxBackoffSeconds := by
    unfold defaultBaseBackoffSeconds defaultMaxBackoffSeconds
    positivity
  cases adapter with
  | embedding =>
    unfold sleepBackoff
    positivity
  | generation =>
    unfold sleepBackoff
    positivity

theorem sleepBackoff_le {adapter : Adapter} {attempt : Nat} {draw : Draw} :
    sleepBackoff adapter attempt draw ≤ longestPause adapter := by
  have hnonneg := draw.nonneg
  have hlt := draw.lt_one
  have hdelay := min_le_right (defaultBaseBackoffSeconds * 2 ^ attempt) defaultMaxBackoffSeconds
  have hmax : defaultMaxBackoffSeconds = 10 := rfl
  rw [hmax] at hdelay
  cases adapter with
  | embedding =>
    simp only [sleepBackoff, longestPause, hmax]
    nlinarith
  | generation =>
    simp only [sleepBackoff, longestPause, hmax]
    linarith

/-- So many attempts were made, and the next one is to come. -/
structure Underway (c : Client) (attempts : Nat) (call : Call) : Prop where
  few : attempts ≤ c.lastAttempt
  replies : call.replies.length = attempts
  slept : call.slept.length = attempts
  retryable : ∀ reply ∈ call.replies, reply.retryable = true

/-- The last of the replies ended the call. -/
def Ended (c : Client) (result : Py Json) (call : Call) : Prop :=
  ∃ earlier last, call.replies = earlier ++ [last] ∧ earlier.length ≤ c.lastAttempt ∧
    call.slept.length = earlier.length ∧ (∀ reply ∈ earlier, reply.retryable = true) ∧
    nextPhase c earlier.length last = .returned result

def Stands (c : Client) (call : Call) : Prop :=
  match call.phase with
  | .queued => Underway c 0 call
  | .posting attempt => Underway c attempt call
  | .pausing attempt => Underway c (attempt + 1) call
  | .returned result => Ended c result call

structure Sound (c : Client) (call : Call) : Prop where
  stands : Stands c call
  slept : ∀ pause ∈ call.slept, 0 ≤ pause ∧ pause ≤ longestPause c.adapter

structure Inv (c : Client) (w : World) : Prop where
  permits : w.permits + w.calls.countP (fun call => call.phase.inside) = c.concurrency
  calls : ∀ call ∈ w.calls, Sound c call

section
variable {c : Client} {call : Call} {attempt : Nat}

theorem afterReply_sound {reply : Reply} {draw : Draw} (h : Sound c call)
    (hphase : call.phase = .posting attempt) : Sound c (afterReply c attempt reply draw call) := by
  have hstands := h.stands
  simp only [Stands, hphase] at hstands
  obtain ⟨hfew, hreplies, hslept, hretryable⟩ := hstands
  have hinside := @inside_nextPhase c attempt reply
  cases hin : (nextPhase c attempt reply).inside with
  | true =>
    rw [hin, eq_comm, Bool.and_eq_true, decide_eq_true_iff] at hinside
    have hpausing := nextPhase_pausing hin
    refine ⟨?_, ?_⟩
    · simp only [Stands, afterReply, hpausing, Phase.inside, if_true]
      refine ⟨?_, ?_, ?_, ?_⟩
      · exact le_min (Nat.lt_of_le_of_ne (le_min_iff.mp hfew).1 hinside.2.1) hinside.2.2
      · simp [hreplies]
      · simp [hslept]
      · intro r hr
        rcases List.mem_append.mp hr with hr | hr
        · exact hretryable r hr
        · rw [List.mem_singleton.mp hr]
          exact hinside.1
    · intro pause hp
      simp only [afterReply, hin, if_true] at hp
      rcases List.mem_append.mp hp with hp | hp
      · exact h.slept pause hp
      · rw [List.mem_singleton.mp hp]
        exact ⟨sleepBackoff_nonneg, sleepBackoff_le⟩
  | false =>
    obtain ⟨result, hreturned⟩ : ∃ result, nextPhase c attempt reply = .returned result := by
      unfold nextPhase at hin ⊢
      cases ho : attemptOutcome c attempt reply with
      | done json => exact ⟨json, rfl⟩
      | fatal e => exact ⟨.error e, rfl⟩
      | transient e =>
        simp only [ho] at hin ⊢
        split at hin
        · rename_i hlast
          exact ⟨.error e, if_pos hlast⟩
        · cases hin
    refine ⟨?_, ?_⟩
    · simp only [Stands, afterReply, hreturned, Phase.inside]
      exact ⟨call.replies, reply, rfl, hreplies ▸ hfew, by simp [hslept, hreplies], hretryable,
        hreplies ▸ hreturned⟩
    · intro pause hp
      simp only [afterReply, hin] at hp
      exact h.slept pause hp

end

/-! ## Runs -/

/-- The steps a call has ahead of it, at most. -/
def Call.ahead (c : Client) (call : Call) : Nat :=
  match call.phase with
  | .queued => 2 * c.maxRetries + 2
  | .posting attempt => 2 * (c.maxRetries - attempt) + 1
  | .pausing attempt => 2 * (c.maxRetries - attempt)
  | .returned _ => 0

def World.ahead (c : Client) (w : World) : Nat := (w.calls.map (Call.ahead c)).sum

section
variable {c : Client} {w w' : World} {event : Event} {events : List Event}

theorem afterReply_ahead {attempt : Nat} {reply : Reply} {draw : Draw} {call : Call} :
    (afterReply c attempt reply draw call).ahead c ≤ 2 * (c.maxRetries - attempt) := by
  unfold afterReply nextPhase
  cases attemptOutcome c attempt reply with
  | done json => exact Nat.zero_le _
  | fatal e => exact Nat.zero_le _
  | transient e =>
    by_cases hlast : attempt = c.maxRetries
    · simp [Call.ahead, hlast]
    · simp [Call.ahead, hlast]

/-- **One step** keeps the permits counted and every call where its replies put it. -/
theorem step_inv (hi : Inv c w) (h : step c w event = some w') : Inv c w' := by
  obtain ⟨payload, -, rfl⟩ | ⟨before, call, after, hcalls, hmove⟩ := step_cases h
  · refine ⟨?_, fun call hc => ?_⟩
    · rw [List.countP_append]
      simpa [Phase.inside] using hi.permits
    · rcases List.mem_append.mp hc with hc | hc
      · exact hi.calls call hc
      · rw [List.mem_singleton.mp hc]
        exact ⟨⟨Nat.zero_le _, rfl, rfl, nofun⟩, nofun⟩
  · have hpermits := hi.permits
    have hsound := hi.calls
    simp only [hcalls, List.countP_append, List.countP_cons] at hpermits
    rw [hcalls, List.forall_mem_append, List.forall_mem_cons] at hsound
    obtain ⟨hbefore, hcall, hafter⟩ := hsound
    have hstands := hcall.stands
    obtain ⟨hphase, hfree, rfl⟩ | ⟨attempt, reply, draw, hphase, rfl⟩ | ⟨attempt, hphase, rfl⟩ :=
      hmove
    · refine ⟨?_, ?_⟩
      · simp only [List.countP_append, List.countP_cons]
        simp [hphase, Phase.inside] at hpermits ⊢
        omega
      · rw [List.forall_mem_append, List.forall_mem_cons]
        refine ⟨hbefore, ⟨?_, hcall.slept⟩, hafter⟩
        simp only [Stands, hphase] at hstands
        exact ⟨hstands.few, hstands.replies, hstands.slept, hstands.retryable⟩
    · refine ⟨?_, ?_⟩
      · have hin : call.phase.inside = true := by
          rw [hphase]
          rfl
        rw [hin] at hpermits
        simp only [List.countP_append, List.countP_cons, afterReply]
        cases (nextPhase c attempt reply).inside with
        | true =>
          simp at hpermits ⊢
          omega
        | false =>
          simp at hpermits ⊢
          omega
      · rw [List.forall_mem_append, List.forall_mem_cons]
        exact ⟨hbefore, afterReply_sound hcall hphase, hafter⟩
    · refine ⟨?_, ?_⟩
      · simp only [List.countP_append, List.countP_cons]
        simp [hphase, Phase.inside] at hpermits ⊢
        omega
      · rw [List.forall_mem_append, List.forall_mem_cons]
        refine ⟨hbefore, ⟨?_, hcall.slept⟩, hafter⟩
        simp only [Stands, hphase] at hstands
        exact ⟨hstands.few, hstands.replies, hstands.slept, hstands.retryable⟩

/-- A step brings a call nearer to its end; a new one has all its steps ahead. -/
theorem step_ahead (hi : Inv c w) (h : step c w event = some w') :
    w'.ahead c + (2 * c.maxRetries + 3) * w.calls.length + 1 ≤
      w.ahead c + (2 * c.maxRetries + 3) * w'.calls.length := by
  obtain ⟨payload, -, rfl⟩ | ⟨before, call, after, hcalls, hmove⟩ := step_cases h
  · simp [World.ahead, Call.ahead]
    ring_nf
    omega
  · have hmoved : ∀ moved : Call, moved.ahead c + 1 ≤ call.ahead c → ∀ permits,
        World.ahead c ⟨permits, before ++ moved :: after⟩ +
            (2 * c.maxRetries + 3) * w.calls.length + 1 ≤
          w.ahead c + (2 * c.maxRetries + 3) * (before ++ moved :: after).length := by
      intro moved hlt permits
      simp only [World.ahead, hcalls, List.map_append, List.map_cons, List.sum_append,
        List.sum_cons, List.length_append, List.length_cons]
      omega
    obtain ⟨hphase, -, rfl⟩ | ⟨attempt, reply, draw, hphase, rfl⟩ | ⟨attempt, hphase, rfl⟩ := hmove
    · refine hmoved _ ?_ _
      simp [Call.ahead, hphase]
    · refine hmoved _ ?_ _
      have hahead := @afterReply_ahead c attempt reply draw call
      simp only [show call.ahead c = 2 * (c.maxRetries - attempt) + 1 by simp [Call.ahead, hphase]]
      omega
    · refine hmoved _ ?_ _
      have hstands := (hi.calls call (by simp [hcalls])).stands
      simp only [Stands, hphase] at hstands
      have hfew := (le_min_iff.mp hstands.few).1
      simp only [Call.ahead, hphase]
      omega

theorem inv_init (c : Client) : Inv c ⟨c.concurrency, []⟩ := ⟨rfl, nofun⟩

theorem run_keeps : ∀ {events : List Event} {w w' : World}, Inv c w →
    exec (step c) w events = some w' → Inv c w' ∧
    w'.ahead c + (2 * c.maxRetries + 3) * w.calls.length + events.length ≤
      w.ahead c + (2 * c.maxRetries + 3) * w'.calls.length
  | [], w, w', hi, h => by
    cases h
    exact ⟨hi, le_refl _⟩
  | event :: events, w, w', hi, h => by
    obtain ⟨t, ht, h⟩ := exec_cons.mp h
    obtain ⟨hinv, hahead⟩ := run_keeps (step_inv hi ht) h
    have hstep := step_ahead hi ht
    refine ⟨hinv, ?_⟩
    rw [List.length_cons]
    omega

/-- While a call has not returned, one of them can move: no permit is lost. -/
theorem exists_mover (hi : Inv c w) {call : Call} (hcall : call ∈ w.calls)
    (hleft : ∀ result, call.phase ≠ .returned result) : ∃ k,
    (step c w (.acquire k)).isSome = true ∨ (step c w (.wake k)).isSome = true ∨
      ∀ reply draw, (step c w (.reply k reply draw)).isSome = true := by
  by_cases hinside : ∃ other ∈ w.calls, other.phase.inside = true
  · obtain ⟨other, hother, hin⟩ := hinside
    obtain ⟨k, hk⟩ := List.mem_iff_getElem?.mp hother
    refine ⟨k, exists_move hk (fun result hr => ?_) fun hq => ?_⟩
    · rw [hr] at hin
      cases hin
    · rw [hq] at hin
      cases hin
  · -- no permit is out, so the call that is left can take one
    have hfree := hi.permits
    rw [List.countP_eq_zero.mpr fun other hother hin => hinside ⟨other, hother, hin⟩] at hfree
    obtain ⟨k, hk⟩ := List.mem_iff_getElem?.mp hcall
    have hpos := c.concurrency_pos
    exact ⟨k, exists_move hk hleft fun _ => by omega⟩

/-! ## What the endpoint sees, and what a caller gets -/

/-- What is so of the calls of an adapter behind a run of so many steps. -/
structure Contained (c : Client) (steps : Nat) (w : World) : Prop where
  permits : w.permits + w.calls.countP (fun call => call.phase.inside) = c.concurrency
  posts : ∀ call ∈ w.calls, call.replies.length ≤ c.maxRetries + 1
  earlier : ∀ call ∈ w.calls, ∀ reply ∈ call.replies.dropLast, reply.retryable = true
  pauses : ∀ call ∈ w.calls, call.slept.sum ≤ c.maxRetries * longestPause c.adapter
  result : ∀ call ∈ w.calls, ∀ result, call.phase = .returned result → ∀ respond,
    (∀ i reply, call.replies[i]? = some reply → respond i = reply) →
    requestWithRetry c respond = (result, call.replies.length)
  brief : steps ≤ (2 * c.maxRetries + 3) * w.calls.length
  moves : ∀ call ∈ w.calls, (∀ result, call.phase ≠ .returned result) → ∃ k,
    (step c w (.acquire k)).isSome = true ∨ (step c w (.wake k)).isSome = true ∨
      ∀ reply draw, (step c w (.reply k reply draw)).isSome = true

theorem Stands.replies {call : Call} (h : Stands c call) :
    call.replies.length ≤ c.maxRetries + 1 ∧ call.slept.length ≤ c.maxRetries ∧
      ∀ reply ∈ call.replies.dropLast, reply.retryable = true := by
  have hunderway : ∀ {attempts}, Underway c attempts call → call.replies.length ≤ c.maxRetries + 1 ∧
      call.slept.length ≤ c.maxRetries ∧
      ∀ reply ∈ call.replies.dropLast, reply.retryable = true := by
    intro attempts hu
    have hfew := (le_min_iff.mp hu.few).1
    refine ⟨?_, hu.slept ▸ hfew, fun reply hr => hu.retryable reply (List.dropLast_subset _ hr)⟩
    rw [hu.replies]
    exact Nat.le_succ_of_le hfew
  unfold Stands at h
  split at h
  · exact hunderway h
  · exact hunderway h
  · exact hunderway h
  · obtain ⟨earlier, last, hreplies, hfew, hslept, hretryable, -⟩ := h
    rw [hreplies, List.length_append, List.length_singleton, List.dropLast_concat, hslept]
    have hretries := (le_min_iff.mp hfew).1
    exact ⟨Nat.succ_le_succ hretries, hretries, hretryable⟩

theorem Ended.result {call : Call} {result : Py Json} (h : Ended c result call)
    {respond : Nat → Reply}
    (hrespond : ∀ i reply, call.replies[i]? = some reply → respond i = reply) :
    requestWithRetry c respond = (result, call.replies.length) := by
  obtain ⟨earlier, last, hreplies, hfew, -, hretryable, hnext⟩ := h
  have hlast : respond earlier.length = last := hrespond _ _ (by simp [hreplies])
  rw [hreplies, List.length_append, List.length_singleton]
  refine requestWithRetry_eq hfew (fun i hi => ?_) (hlast ▸ hnext)
  have hreply : call.replies[i]? = some earlier[i] := by
    rw [hreplies, List.getElem?_append_left hi, List.getElem?_eq_getElem hi]
  rw [hrespond i _ hreply]
  exact hretryable _ (List.getElem_mem hi)

/-- **Requests.** However calls to an adapter come and its endpoint answers them: at most
`concurrency` of them are inside, each posts at most `max_retries + 1` times, once more only after a
transport error or a retryable status, and waits for a bounded time; a call that returned has what
the loop makes of its own replies, and as long as one has not, one can move. -/
theorem adapter_contained (h : exec (step c) ⟨c.concurrency, []⟩ events = some w) :
    Contained c events.length w := by
  obtain ⟨hi, hahead⟩ := run_keeps (inv_init c) h
  refine ⟨hi.permits, fun call hc => ?_, fun call hc => ?_, fun call hc => ?_,
    fun call hc result hphase respond hrespond => ?_, ?_, fun call hc => exists_mover hi hc⟩
  · exact (hi.calls call hc).stands.replies.1
  · exact (hi.calls call hc).stands.replies.2.2
  · have hlength := (hi.calls call hc).stands.replies.2.1
    have hsum := List.sum_le_card_nsmul call.slept (longestPause c.adapter) fun pause hp =>
      ((hi.calls call hc).slept pause hp).2
    have hpause : 0 ≤ longestPause c.adapter := by
      cases c.adapter <;> norm_num [longestPause]
    rw [nsmul_eq_mul] at hsum
    refine hsum.trans (mul_le_mul_of_nonneg_right ?_ hpause)
    exact_mod_cast hlength
  · have hstands := (hi.calls call hc).stands
    simp only [Stands, hphase] at hstands
    exact hstands.result hrespond
  · simp only [World.ahead, List.map_nil, List.sum_nil, List.length_nil, Nat.mul_zero] at hahead
    omega

end

def oneAtATime : Client where
  adapter := .generation
  maxRetries := 1
  concurrency := 1
  concurrency_pos := Nat.one_pos

/-- The first of two calls is told to come again, and keeps its permit until it is answered. -/
def comeAgain : List Event :=
  [.call .null, .call .null, .acquire 0,
    .reply 0 (.response 503 [] (.ok .null)) ⟨0, le_refl _, one_pos⟩, .wake 0,
    .reply 0 (.response 200 [] (.ok (.int 7))) ⟨0, le_refl _, one_pos⟩, .acquire 1]

theorem adapter_contained_comeAgain : ∃ w first second,
    exec (step oneAtATime) ⟨1, []⟩ comeAgain = some w ∧
    Contained oneAtATime comeAgain.length w ∧ w.permits = 0 ∧ w.calls = [first, second] ∧
    first.phase = .returned (.ok (.int 7)) ∧ second.phase = .posting 0 :=
  ⟨_, _, _, rfl, @adapter_contained oneAtATime _ comeAgain rfl, rfl, rfl, rfl, rfl⟩

end KnowledgeKiln.L1.Endpoint
