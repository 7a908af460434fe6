import KnowledgeKiln.Core.Run
import KnowledgeKiln.L4Api.Idempotency

/-!
# Keyed requests, side by side

Requests of the three routes run concurrently, each in a transaction of its
own: the lookup reads what is committed, the dispatcher reads the clock, the
handler works and reads the clock for the expiry of its row, the conditional
insert waits while another transaction holds an uncommitted row of the slot,
and the transaction ends. The framework sends a response before it ends the
transaction behind it (FastAPI from 0.118 on), or has it ended before; both
orders are runs, so a client may hold a response whose rows are not committed
yet, or never. The sweeper runs at any time, with a cutoff that is
not ahead of the clock. The clock does not go back.

A handler that raises leaves its session with a rollback, and never stores.

* `Sound`: what holds in every state of every run.
* `replay_is_safe`: a committed row stays as it is until it expires, and answers
  every request that looks it up.
* `completed_replayable_iff`: which completed requests can be replayed for the
  whole TTL. An expired row that the sweeper has left behind takes the place of
  the new one, and a 4xx of the handler is not stored.
-/
namespace KnowledgeKiln.L4.Idempotency

open KnowledgeKiln.Core

/-- How the work of a handler ends. -/
inductive Result
  /-- It returns a response. -/
  | response (resourceId : Option Str) (body : JsonDict)
  /-- A `ValueError`, re-raised as `HTTPException(400)`. -/
  | badRequest (detail : Str)
  /-- Any other exception. -/
  | crash

def Result.status : Result → Nat
  | response _ _ => 200
  | badRequest _ => 400
  | crash => 500

def Result.reply : Result → Reply
  | response _ body => .response body
  | badRequest detail =>
    .error 400 "invalid_request" (if detail = [] then "The request was invalid." else detail)
  | crash => .error 500 "internal_error" "An internal error occurred."

/-- A request, from its arrival to the end of its session; a handler's result comes with the clock it
read. The reply goes to the client unless its response was sent before. -/
inductive Phase
  | fresh
  | lookedUp (req : KeyedRequest) (row : Option IdempotencyKey)
  | running (req : KeyedRequest) (check : CheckResult)
  | produced (req : KeyedRequest) (check : CheckResult) (result : Result) (time : Nat)
  | stored (req : KeyedRequest) (check : CheckResult) (result : Result) (time : Nat)
  | answered (req : KeyedRequest) (reply : Reply)

def Phase.request? : Phase → Option KeyedRequest
  | fresh => none
  | lookedUp req _ | running req _ | produced req _ _ _ | stored req _ _ _ | answered req _ => req

structure Server where
  now : Nat
  /-- The committed rows. -/
  table : IdempotencyTable
  /-- The uncommitted rows, with the requests that inserted them. -/
  pending : Slot → Option (Nat × IdempotencyKey)
  phase : Nat → Phase
  /-- The responses that were sent before the end of their sessions. -/
  sent : Nat → Option JsonDict

def Server.start (now : Nat) : Server :=
  { now := now, table := fun _ => none, pending := fun _ => none, phase := fun _ => .fresh
    sent := fun _ => none }

def Server.setPhase (s : Server) (i : Nat) (p : Phase) : Server :=
  { s with phase := Function.update s.phase i p }

inductive Event
  | tick (now : Nat)
  | lookup (i : Nat) (req : KeyedRequest)
  | dispatch (i : Nat)
  | finish (i : Nat) (result : Result)
  /-- The handler stores its response, if it has one; `ok` says whether the database accepts it. -/
  | store (i : Nat) (ok : Bool)
  /-- The response of a handler is sent; its session is still open. -/
  | send (i : Nat)
  /-- The session ends; `ok` says whether the database commits. -/
  | close (i : Nat) (ok : Bool)
  | sweep (cutoff : Nat)

/-- The call of `store` that a handler makes with its result: the slot and the row. -/
def rowToStore (req : KeyedRequest) (check : CheckResult) (time : Nat) :
    Result → Option (Slot × IdempotencyKey)
  | .response resourceId body =>
    match check.key, check.requestHash with
    | some key, some requestHash =>
      if shouldCache 200 then
        some ((key, req.route), ⟨requestHash, resourceId, body, 200, time + defaultTtl⟩)
      else none
    | _, _ => none
  | .badRequest _ | .crash => none

/-- The uncommitted rows of the request `i` become visible. -/
def Server.commit (s : Server) (i : Nat) : IdempotencyTable := fun slot =>
  match s.pending slot with
  | some (j, row) => if j = i then some row else s.table slot
  | none => s.table slot

/-- The uncommitted rows of all other requests. -/
def Server.release (s : Server) (i : Nat) : Slot → Option (Nat × IdempotencyKey) := fun slot =>
  (s.pending slot).filter fun entry => !decide (entry.1 = i)

section
variable (digest : JsonDict → Str)

def step (s : Server) : Event → Option Server
  | .tick now => if s.now ≤ now then some { s with now := now } else none
  | .lookup i req =>
    match s.phase i with
    | .fresh => some (s.setPhase i (.lookedUp req (lookup s.table req)))
    | _ => none
  | .dispatch i =>
    match s.phase i with
    | .lookedUp req row =>
      let check := dispatch digest req row s.now
      match check.reply? with
      | some reply => some (s.setPhase i (.answered req reply))
      | none => some (s.setPhase i (.running req check))
    | _ => none
  | .finish i result =>
    match s.phase i with
    | .running req check => some (s.setPhase i (.produced req check result s.now))
    | _ => none
  | .store i ok =>
    match s.phase i with
    | .produced req check result time =>
      let s' := s.setPhase i (.stored req check result time)
      match rowToStore req check time result with
      | none => some s'
      | some (slot, row) =>
        if (s.pending slot).isSome then none
        else if ok && (createIfAbsent s.table slot row).1 then
          some { s' with pending := Function.update s.pending slot (some (i, row)) }
        else some s'
    | _ => none
  | .send i =>
    match s.phase i with
    | .stored _ _ (.response _ body) _ =>
      some { s with sent := Function.update s.sent i (some body) }
    | _ => none
  | .close i ok =>
    match s.phase i with
    | .stored req _ (.response _ body) _ =>
      if ok then
        some { s.setPhase i (.answered req (.response body)) with
          table := s.commit i, pending := s.release i }
      else some { s.setPhase i (.answered req Result.crash.reply) with pending := s.release i }
    | .stored req _ result _ =>
      some { s.setPhase i (.answered req result.reply) with pending := s.release i }
    | _ => none
  | .sweep cutoff =>
    if cutoff ≤ s.now then some { s with table := deleteExpired cutoff s.table } else none

end

/-! ## The moves of a run -/

section
variable {digest : JsonDict → Str} {s s' : Server} {slot : Slot} {row : IdempotencyKey}

@[simp] theorem Server.setPhase_now (i : Nat) (p : Phase) : (s.setPhase i p).now = s.now := rfl

@[simp] theorem Server.setPhase_table (i : Nat) (p : Phase) : (s.setPhase i p).table = s.table := rfl

@[simp] theorem Server.setPhase_pending (i : Nat) (p : Phase) :
    (s.setPhase i p).pending = s.pending := rfl

@[simp] theorem Server.setPhase_phase (i j : Nat) (p : Phase) :
    (s.setPhase i p).phase j = if j = i then p else s.phase j := by
  simp [Server.setPhase, Function.update_apply]

theorem Server.setPhase_self (s : Server) (i : Nat) (p : Phase) : (s.setPhase i p).phase i = p := by
  simp

theorem Server.commit_of_pending {i : Nat} (h : s.pending slot = some (i, row)) :
    s.commit i slot = some row := by
  simp [Server.commit, h]

theorem Server.commit_of_other {i : Nat} (h : ∀ row, s.pending slot ≠ some (i, row)) :
    s.commit i slot = s.table slot := by
  unfold Server.commit
  split
  · rename_i j row hp
    rw [if_neg]
    intro hj
    exact h row (by rw [hp, hj])
  · rfl

theorem Server.commit_some {i : Nat} (h : s.commit i slot = some row) :
    s.pending slot = some (i, row) ∨
      s.table slot = some row ∧ ∀ row', s.pending slot ≠ some (i, row') := by
  unfold Server.commit at h
  split at h
  · rename_i j row' hp
    split at h
    · rename_i hj
      cases h
      exact .inl (by rw [hp, hj])
    · rename_i hj
      exact .inr ⟨h, fun row' he => hj (by rw [hp] at he; cases he; rfl)⟩
  · rename_i hp
    exact .inr ⟨h, fun row' he => by rw [hp] at he; cases he⟩

theorem Server.release_some {i j : Nat} :
    s.release i slot = some (j, row) ↔ s.pending slot = some (j, row) ∧ j ≠ i := by
  simp [Server.release, Option.filter_eq_some_iff]

theorem Server.release_of_free {i : Nat} (h : s.pending slot = none) : s.release i slot = none := by
  simp [Server.release, h]

theorem Server.release_of_pending {i : Nat} (h : s.pending slot = some (i, row)) :
    s.release i slot = none := by
  simp [Server.release, h]

/-- The moves a server can make, one constructor for each outcome of a step. -/
inductive Move (digest : JsonDict → Str) (s : Server) : Event → Server → Prop
  | tick {now : Nat} (hnow : s.now ≤ now) : Move digest s (.tick now) { s with now := now }
  | lookup {i : Nat} {req : KeyedRequest} (hi : s.phase i = .fresh) :
    Move digest s (.lookup i req) (s.setPhase i (.lookedUp req (lookup s.table req)))
  | answer {i : Nat} {req : KeyedRequest} {cached : Option IdempotencyKey} {reply : Reply}
    (hi : s.phase i = .lookedUp req cached)
    (hr : (dispatch digest req cached s.now).reply? = some reply) :
    Move digest s (.dispatch i) (s.setPhase i (.answered req reply))
  | run {i : Nat} {req : KeyedRequest} {cached : Option IdempotencyKey}
    (hi : s.phase i = .lookedUp req cached)
    (hr : (dispatch digest req cached s.now).reply? = none) :
    Move digest s (.dispatch i) (s.setPhase i (.running req (dispatch digest req cached s.now)))
  | finish {i : Nat} {req : KeyedRequest} {check : CheckResult} {result : Result}
    (hi : s.phase i = .running req check) :
    Move digest s (.finish i result) (s.setPhase i (.produced req check result s.now))
  /-- There is nothing to store, the slot is taken, or the database refuses. -/
  | skip {i : Nat} {ok : Bool} {req : KeyedRequest} {check : CheckResult} {result : Result}
    {time : Nat} (hi : s.phase i = .produced req check result time)
    (hr : ∀ slot row, rowToStore req check time result = some (slot, row) →
      s.pending slot = none ∧ (ok = true → s.table slot ≠ none)) :
    Move digest s (.store i ok) (s.setPhase i (.stored req check result time))
  | insert {i : Nat} {req : KeyedRequest} {check : CheckResult} {result : Result} {time : Nat}
    {slot : Slot} {row : IdempotencyKey} (hi : s.phase i = .produced req check result time)
    (hr : rowToStore req check time result = some (slot, row)) (hp : s.pending slot = none)
    (ht : s.table slot = none) :
    Move digest s (.store i true)
      { s.setPhase i (.stored req check result time) with
        pending := Function.update s.pending slot (some (i, row)) }
  | send {i : Nat} {req : KeyedRequest} {check : CheckResult} {resourceId : Option Str}
    {body : JsonDict} {time : Nat}
    (hi : s.phase i = .stored req check (.response resourceId body) time) :
    Move digest s (.send i) { s with sent := Function.update s.sent i (some body) }
  | commit {i : Nat} {req : KeyedRequest} {check : CheckResult} {resourceId : Option Str}
    {body : JsonDict} {time : Nat}
    (hi : s.phase i = .stored req check (.response resourceId body) time) :
    Move digest s (.close i true)
      { s.setPhase i (.answered req (.response body)) with
        table := s.commit i, pending := s.release i }
  | rollback {i : Nat} {ok : Bool} {req : KeyedRequest} {check : CheckResult} {result : Result}
    {time : Nat} {reply : Reply} (hi : s.phase i = .stored req check result time)
    (hr : ok = true → reply = result.reply ∧ ∀ resourceId body, result ≠ .response resourceId body)
    (hn : ∀ body status, reply ≠ .replay body status) :
    Move digest s (.close i ok)
      { s.setPhase i (.answered req reply) with pending := s.release i }
  | sweep {cutoff : Nat} (hc : cutoff ≤ s.now) :
    Move digest s (.sweep cutoff) { s with table := deleteExpired cutoff s.table }

theorem Result.reply_ne_replay (result : Result) (body : JsonDict) (status : Nat) :
    result.reply ≠ .replay body status := by
  cases result <;> exact nofun

theorem move_of_step {e : Event} (h : step digest s e = some s') : Move digest s e s' := by
  cases e with
  | tick now =>
    obtain ⟨hnow, h⟩ := Option.ite_none_right_eq_some.mp h
    cases h
    exact .tick hnow
  | lookup i req =>
    simp only [step] at h
    split at h
    · rename_i hi
      cases h
      exact .lookup hi
    · cases h
  | dispatch i =>
    simp only [step] at h
    split at h
    · rename_i req row hi
      split at h
      · rename_i reply hr
        cases h
        exact .answer hi hr
      · rename_i hr
        cases h
        exact .run hi hr
    · cases h
  | finish i result =>
    simp only [step] at h
    split at h
    · rename_i req check hi
      cases h
      exact .finish hi
    · cases h
  | store i ok =>
    simp only [step] at h
    split at h
    · rename_i req check result time hi
      split at h
      · rename_i hr
        cases h
        exact .skip hi fun slot row hs => by rw [hr] at hs; cases hs
      · rename_i slot row hr
        obtain ⟨hp, h⟩ := Option.ite_none_left_eq_some.mp h
        have hp : s.pending slot = none := by simpa using hp
        split at h
        · rename_i hc
          simp only [Bool.and_eq_true] at hc
          cases h
          have ht : s.table slot = none := by
            by_contra hne
            obtain ⟨row', he⟩ := Option.ne_none_iff_exists'.mp hne
            simp [createIfAbsent, he] at hc
          rw [hc.1]
          exact .insert hi hr hp ht
        · rename_i hc
          cases h
          refine .skip hi fun slot' row' hs => ?_
          rw [hr] at hs
          cases hs
          refine ⟨hp, fun hok ht => hc ?_⟩
          simp [hok, createIfAbsent, ht]
    · cases h
  | send i =>
    simp only [step] at h
    split at h
    · rename_i req check resourceId body time hi
      cases h
      exact .send hi
    · cases h
  | close i ok =>
    simp only [step] at h
    split at h
    · rename_i req check resourceId body time hi
      split at h
      · rename_i hok
        cases h
        rw [hok]
        exact .commit hi
      · rename_i hok
        cases h
        exact .rollback hi (fun h => absurd h hok) (Result.reply_ne_replay _)
    · rename_i req check result time hne hi
      cases h
      exact .rollback hi (fun _ => ⟨rfl, hne⟩)
        (Result.reply_ne_replay _)
    · cases h
  | sweep cutoff =>
    obtain ⟨hc, h⟩ := Option.ite_none_right_eq_some.mp h
    cases h
    exact .sweep hc

theorem rowToStore_status {req : KeyedRequest} {check : CheckResult} {result : Result} {time : Nat}
    (h : rowToStore req check time result = some (slot, row)) : row.responseStatus = 200 := by
  cases result with
  | response resourceId body =>
    simp only [rowToStore] at h
    split at h
    · obtain ⟨_, h⟩ := Option.ite_none_right_eq_some.mp h
      cases h
      rfl
    · cases h
  | badRequest detail => cases h
  | crash => cases h

/-! ## What holds in every state -/

/-- The decision a request that runs its handler, or has run it, was given. -/
def Phase.check? : Phase → Option (KeyedRequest × CheckResult)
  | fresh | lookedUp _ _ | answered _ _ => none
  | running req check | produced req check _ _ | stored req check _ _ => (req, check)

structure Sound (digest : JsonDict → Str) (s : Server) : Prop where
  /-- No slot has a committed row and an uncommitted one. -/
  exclusive : ∀ {slot row}, s.table slot = some row → s.pending slot = none
  status : ∀ {slot row}, s.table slot = some row → row.responseStatus = 200
  pending : ∀ {slot i row}, s.pending slot = some (i, row) → ∃ req check result time,
    s.phase i = .stored req check result time ∧ rowToStore req check time result = some (slot, row)
  checked : ∀ {i req check}, (s.phase i).check? = some (req, check) →
    ∃ cached time, check = dispatch digest req cached time
  started : ∃ n, ∀ j, n ≤ j → s.phase j = .fresh

theorem sound_start (now : Nat) : Sound digest (Server.start now) where
  exclusive h := by cases h
  status h := by cases h
  pending h := by cases h
  checked h := by cases h
  started := ⟨0, fun _ _ => rfl⟩

theorem started_setPhase {i : Nat} {p : Phase} (h : ∃ n, ∀ j, n ≤ j → s.phase j = .fresh) :
    ∃ n, ∀ j, n ≤ j → (s.setPhase i p).phase j = .fresh := by
  obtain ⟨n, hn⟩ := h
  refine ⟨max n (i + 1), fun j hj => ?_⟩
  have hne : j ≠ i := by omega
  simpa [hne] using hn j (by omega)

theorem checked_setPhase {i : Nat} {p : Phase} (h : Sound digest s)
    (hp : ∀ req check, p.check? = some (req, check) →
      ∃ cached time, check = dispatch digest req cached time) {j : Nat} {req : KeyedRequest}
    {check : CheckResult} (hj : ((s.setPhase i p).phase j).check? = some (req, check)) :
    ∃ cached time, check = dispatch digest req cached time := by
  rw [Server.setPhase_phase] at hj
  split at hj
  · exact hp _ _ hj
  · exact h.checked hj

/-- A request that holds no uncommitted row moves on. -/
theorem Sound.setPhase {i : Nat} {p : Phase} (h : Sound digest s)
    (hi : ∀ req check result time, s.phase i ≠ .stored req check result time)
    (hp : ∀ req check, p.check? = some (req, check) →
      ∃ cached time, check = dispatch digest req cached time) : Sound digest (s.setPhase i p) where
  exclusive := h.exclusive
  status := h.status
  pending hs := by
    obtain ⟨req, check, result, time, hj, hr⟩ := h.pending hs
    refine ⟨req, check, result, time, ?_, hr⟩
    rw [Server.setPhase_phase, if_neg]
    · exact hj
    · intro e
      exact hi _ _ _ _ (e ▸ hj)
  checked := checked_setPhase h hp
  started := started_setPhase h.started

/-- A request gives up the rows it holds, which are committed or dropped. -/
theorem Sound.close {i : Nat} {req : KeyedRequest} {reply : Reply} {table : IdempotencyTable}
    (h : Sound digest s) (ht : table = s.table ∨ table = s.commit i) : Sound digest
      { s.setPhase i (.answered req reply) with table := table, pending := s.release i } where
  exclusive {slot row} hs := by
    rcases ht with rfl | rfl
    · exact Server.release_of_free (h.exclusive hs)
    · rcases Server.commit_some hs with hp | ⟨hs, _⟩
      · exact Server.release_of_pending hp
      · exact Server.release_of_free (h.exclusive hs)
  status {slot row} hs := by
    rcases ht with rfl | rfl
    · exact h.status hs
    · rcases Server.commit_some hs with hp | ⟨hs, _⟩
      · obtain ⟨_, _, _, _, _, hr⟩ := h.pending hp
        exact rowToStore_status hr
      · exact h.status hs
  pending hs := by
    obtain ⟨hs, hne⟩ := Server.release_some.mp hs
    obtain ⟨req', check, result, time, hj, hr⟩ := h.pending hs
    exact ⟨req', check, result, time, by simpa [hne] using hj, hr⟩
  checked := checked_setPhase h fun _ _ he => by cases he
  started := started_setPhase h.started

theorem Sound.insert {i : Nat} {req : KeyedRequest} {check : CheckResult} {result : Result}
    {time : Nat} (h : Sound digest s) (hi : s.phase i = .produced req check result time)
    (hr : rowToStore req check time result = some (slot, row)) (ht : s.table slot = none) :
    Sound digest { s.setPhase i (.stored req check result time) with
      pending := Function.update s.pending slot (some (i, row)) } where
  exclusive {slot' row'} hs := by
    have hs : s.table slot' = some row' := hs
    have hne : slot' ≠ slot := by
      intro e
      rw [e, ht] at hs
      cases hs
    simpa [hne] using h.exclusive hs
  status := h.status
  pending {slot' j row'} hs := by
    by_cases he : slot' = slot
    · subst he
      simp only [Function.update_self, Option.some.injEq, Prod.mk.injEq] at hs
      obtain ⟨rfl, rfl⟩ := hs
      exact ⟨req, check, result, time, by simp, hr⟩
    · simp only [ne_eq, he, not_false_eq_true, Function.update_of_ne] at hs
      obtain ⟨req', check', result', time', hj, hr'⟩ := h.pending hs
      refine ⟨req', check', result', time', ?_, hr'⟩
      have hne : j ≠ i := by
        intro e
        rw [e, hi] at hj
        cases hj
      simpa [hne] using hj
  checked := checked_setPhase h fun req' check' he => by
    cases he
    exact h.checked (by rw [hi]; rfl)
  started := started_setPhase h.started

theorem Sound.step {e : Event} (h : Sound digest s) (hs : step digest s e = some s') :
    Sound digest s' := by
  cases move_of_step hs with
  | tick _ | send _ => exact ⟨h.exclusive, h.status, h.pending, h.checked, h.started⟩
  | lookup hi => exact h.setPhase (by simp [hi]) nofun
  | answer hi _ => exact h.setPhase (by simp [hi]) nofun
  | run hi _ =>
    apply h.setPhase (by simp [hi])
    intro req check he
    cases he
    exact ⟨_, _, rfl⟩
  | finish hi =>
    apply h.setPhase (by simp [hi])
    intro req check he
    cases he
    exact h.checked (by rw [hi]; rfl)
  | skip hi _ =>
    apply h.setPhase (by simp [hi])
    intro req check he
    cases he
    exact h.checked (by rw [hi]; rfl)
  | insert hi hr _ ht => exact h.insert hi hr ht
  | commit _ => exact h.close (.inr rfl)
  | rollback _ _ _ => exact h.close (.inl rfl)
  | sweep _ =>
    exact ⟨fun ht => h.exclusive (deleteExpired_some ht), fun ht => h.status (deleteExpired_some ht),
      h.pending, h.checked, h.started⟩

theorem Sound.exec : ∀ {es : List Event} {s s' : Server}, Sound digest s →
    Core.exec (Idempotency.step digest) s es = some s' → Sound digest s'
  | [], _, _, h, he => by
    cases he
    exact h
  | _ :: _, _, _, h, he => by
    obtain ⟨_, ht, he⟩ := exec_cons.mp he
    exact (h.step ht).exec he

theorem step_now {e : Event} (h : step digest s e = some s') : s.now ≤ s'.now := by
  cases move_of_step h with
  | tick hnow => exact hnow
  | _ => exact le_rfl

theorem exec_now : ∀ {es : List Event} {s s' : Server}, exec (step digest) s es = some s' →
    s.now ≤ s'.now
  | [], _, _, h => by
    cases h
    exact le_rfl
  | _ :: _, _, _, h => by
    obtain ⟨_, ht, h⟩ := exec_cons.mp h
    exact (step_now ht).trans (exec_now h)

/-! ## The life of a row -/

/-- The request has read this row, or was answered by it. -/
def Phase.ServedBy (digest : JsonDict → Str) (row : IdempotencyKey) : Phase → Prop
  | lookedUp _ cached => cached = some row
  | answered req reply => reply = row.replyTo (req.hash digest)
  | _ => False

/-- The row stands in its slot, and serves every request for it that arrived behind `s₀`. -/
structure Serves (digest : JsonDict → Str) (s₀ : Server) (slot : Slot) (row : IdempotencyKey)
    (s : Server) : Prop where
  kept : s.table slot = some row
  later : ∀ {i req}, s₀.phase i = .fresh → (s.phase i).request? = some req →
    req.slot = some slot → (s.phase i).ServedBy digest row

variable {s₀ : Server}

/-- A request moves on, and the slot keeps its row. -/
theorem Serves.setPhase {i : Nat} {p : Phase} {t : Server} (h : Serves digest s₀ slot row s)
    (hrow : t.table slot = some row) (ht : t.phase = (s.setPhase i p).phase)
    (hp : ∀ req, s₀.phase i = .fresh → p.request? = some req → req.slot = some slot →
      p.ServedBy digest row) : Serves digest s₀ slot row t where
  kept := hrow
  later {j req} hj hr hslot := by
    rw [ht, Server.setPhase_phase] at hr ⊢
    by_cases he : j = i
    · rw [if_pos he] at hr ⊢
      exact hp req (he ▸ hj) hr hslot
    · rw [if_neg he] at hr ⊢
      exact h.later hj hr hslot

/-- A request beyond its dispatch moves on; the row does not serve it. -/
theorem Serves.proceed {i : Nat} {p : Phase} {t : Server} (h : Serves digest s₀ slot row s)
    (hrow : t.table slot = some row) (ht : t.phase = (s.setPhase i p).phase)
    (hreq : (s.phase i).request? = p.request?) (hn : ¬(s.phase i).ServedBy digest row) :
    Serves digest s₀ slot row t := by
  refine h.setPhase hrow ht fun req h₀ hr hslot => ?_
  exact absurd (h.later h₀ (hreq.trans hr) hslot) hn

/-- The row answers the requests that read it. -/
theorem Serves.reply {i : Nat} {req : KeyedRequest} {cached : Option IdempotencyKey}
    (hsound : Sound digest s) (h : Serves digest s₀ slot row s) (hlive : s.now < row.expiresAt)
    (hi : s.phase i = .lookedUp req cached) (h₀ : s₀.phase i = .fresh)
    (hslot : req.slot = some slot) :
    (dispatch digest req cached s.now).reply? = some (row.replyTo (req.hash digest)) := by
  have hserved := h.later h₀ (by rw [hi]; rfl) hslot
  rw [hi] at hserved
  obtain rfl : cached = some row := hserved
  apply reply_of_live hslot hlive
  rw [hsound.status h.kept]
  decide

theorem Serves.step {e : Event} (hsound : Sound digest s) (h : Serves digest s₀ slot row s)
    (hs : step digest s e = some s') (hlive : s'.now < row.expiresAt) :
    Serves digest s₀ slot row s' := by
  have hlive : s.now < row.expiresAt := (step_now hs).trans_lt hlive
  cases move_of_step hs with
  | tick _ | send _ => exact ⟨h.kept, h.later⟩
  | @lookup i req hi =>
    refine h.setPhase h.kept rfl fun req' _ he hslot => ?_
    cases he
    show lookup s.table req = some row
    rw [lookup_of_slot hslot, h.kept]
  | @answer i req cached reply hi hr =>
    refine h.setPhase h.kept rfl fun req' h₀ he hslot => ?_
    cases he
    rw [h.reply hsound hlive hi h₀ hslot] at hr
    exact (Option.some.inj hr).symm
  | @run i req cached hi hr =>
    refine h.setPhase h.kept rfl fun req' h₀ he hslot => ?_
    cases he
    rw [h.reply hsound hlive hi h₀ hslot] at hr
    cases hr
  | finish hi => exact h.proceed h.kept rfl (by rw [hi]; rfl) (by rw [hi]; exact id)
  | skip hi _ => exact h.proceed h.kept rfl (by rw [hi]; rfl) (by rw [hi]; exact id)
  | insert hi _ _ _ => exact h.proceed h.kept rfl (by rw [hi]; rfl) (by rw [hi]; exact id)
  | commit hi =>
    have hfree := hsound.exclusive h.kept
    exact h.proceed ((Server.commit_of_other (by simp [hfree])).trans h.kept) rfl
      (by rw [hi]; rfl) (by rw [hi]; exact id)
  | rollback hi _ _ => exact h.proceed h.kept rfl (by rw [hi]; rfl) (by rw [hi]; exact id)
  | sweep hc => exact ⟨deleteExpired_keeps h.kept (by omega), h.later⟩

theorem Serves.exec : ∀ {es : List Event} {s s' : Server}, Sound digest s →
    Serves digest s₀ slot row s → exec (Idempotency.step digest) s es = some s' → s'.now < row.expiresAt →
    Serves digest s₀ slot row s'
  | [], _, _, _, h, he, _ => by
    cases he
    exact h
  | _ :: _, _, _, hsound, h, he, hlive => by
    obtain ⟨_, ht, he⟩ := exec_cons.mp he
    have hnow := exec_now he
    exact (h.step hsound ht (by omega)).exec (hsound.step ht) he hlive

theorem serves_self (h : s.table slot = some row) : Serves digest s slot row s where
  kept := h
  later hi hr _ := by
    rw [hi] at hr
    cases hr

end

/-- **Safe replay.** In every run, from the commit of a row to its expiry: the row stays as it
is, and every request that arrives behind the commit has read it, and is answered by it at its
next step, or was answered by it: with its body and status if the hash is the row's, else by a
conflict. -/
theorem replay_is_safe (digest : JsonDict → Str) (start : Nat) (es es' : List Event)
    (s s' : Server) (slot : Slot) (row : IdempotencyKey)
    (h : exec (step digest) (Server.start start) es = some s) (hrow : s.table slot = some row)
    (h' : exec (step digest) s es' = some s') (hlive : s'.now < row.expiresAt) :
    s'.table slot = some row ∧
    ∀ i req, s.phase i = .fresh → (s'.phase i).request? = some req → req.slot = some slot →
      (s'.phase i = .lookedUp req (some row) ∧ step digest s' (.dispatch i) =
          some (s'.setPhase i (.answered req (row.replyTo (req.hash digest)))) ∨
        s'.phase i = .answered req (row.replyTo (req.hash digest))) := by
  have hsound := (sound_start start).exec h
  have hserves := (serves_self hrow).exec hsound h' hlive
  refine ⟨hserves.kept, fun i req hi hr hslot => ?_⟩
  have hserved := hserves.later hi hr hslot
  cases hp : s'.phase i with
  | lookedUp req' cached =>
    rw [hp] at hr hserved
    cases hr
    obtain rfl : cached = some row := hserved
    refine .inl ⟨rfl, ?_⟩
    simp only [step, hp, hserves.reply (hsound.exec h') hlive hp hi hslot]
  | answered req' reply =>
    rw [hp] at hr hserved
    cases hr
    exact .inr (congrArg _ hserved)
  | fresh => rw [hp] at hserved; exact hserved.elim
  | running _ _ => rw [hp] at hserved; exact hserved.elim
  | produced _ _ _ _ => rw [hp] at hserved; exact hserved.elim
  | stored _ _ _ _ => rw [hp] at hserved; exact hserved.elim

/-- The query of a request stands for its hash. -/
def queryDigest (body : JsonDict) : Str := (JsonDict.getStr body "query").getD []

def keyedSearch (query : Str) : KeyedRequest :=
  { header := some "k1".toList, route := .search, body := [("query".toList, .str query)] }

def searchSlot : Slot := ("k1".toList, .search)

def searchRow (time : Nat) : IdempotencyKey := ⟨"q", none, [], 200, time + defaultTtl⟩

/-- A request for `q`, up to the end of its handler. -/
def searchEvents (i : Nat) (result : Result) : List Event :=
  [.lookup i (keyedSearch "q"), .dispatch i, .finish i result]

/-- The state behind a list of events that are possible. -/
def Server.after (s : Server) (es : List Event) : Server :=
  (exec (step queryDigest) s es).getD s

def firstSearch : List Event :=
  searchEvents 0 (.response none []) ++ [.store 0 true, .send 0, .close 0 true]

def repeated : List Event :=
  [.lookup 1 (keyedSearch "q"), .lookup 2 (keyedSearch "p"), .dispatch 2, .tick 10, .dispatch 1]

theorem replay_is_safe_search :
    (((Server.start 5).after firstSearch).after repeated).phase 1 =
        .answered (keyedSearch "q") (.replay [] 200) ∧
      (((Server.start 5).after firstSearch).after repeated).phase 2 =
        .answered (keyedSearch "p") idempotencyConflict := by
  obtain ⟨_, h⟩ := replay_is_safe queryDigest 5 firstSearch repeated _ _ searchSlot
    (searchRow 5) rfl rfl rfl (by decide +kernel)
  have h1 := h 1 (keyedSearch "q") rfl rfl rfl
  have h2 := h 2 (keyedSearch "p") rfl rfl rfl
  constructor
  · rcases h1 with ⟨h1, _⟩ | h1
    · cases h1
    · exact h1
  · rcases h2 with ⟨h2, _⟩ | h2
    · cases h2
    · exact h2
/-! ## Which completed requests can be replayed -/

/-- Not answered yet, or answered from the cache. -/
def Phase.FromCache : Phase → Prop
  | lookedUp _ _ | answered _ (.replay _ _) => True
  | _ => False

/-- Every request for the slot with this hash that arrives behind `s` and is dispatched before the
deadline is answered from the cache, and its handler does not run. -/
def Replayable (digest : JsonDict → Str) (s : Server) (slot : Slot) (hash : Str)
    (deadline : Nat) : Prop :=
  ∀ es s', exec (step digest) s es = some s' → s'.now < deadline →
    ∀ i req, s.phase i = .fresh → (s'.phase i).request? = some req → req.slot = some slot →
      req.hash digest = hash → (s'.phase i).FromCache

section
variable {digest : JsonDict → Str} {s s' : Server} {slot : Slot} {row : IdempotencyKey}
  {req : KeyedRequest} {deadline : Nat}

theorem replayable_of_row (hsound : Sound digest s) (hrow : s.table slot = some row)
    (hdeadline : deadline ≤ row.expiresAt) :
    Replayable digest s slot row.requestHash deadline := by
  intro es s' hes hnow i req hi hr hslot hhash
  have hserved := ((serves_self hrow).exec hsound hes (by omega)).later hi hr hslot
  cases hp : s'.phase i with
  | lookedUp _ _ => trivial
  | answered req' reply =>
    rw [hp] at hr hserved
    cases hr
    have hreply : reply = row.replyTo (req.hash digest) := hserved
    rw [IdempotencyKey.replyTo, if_pos hhash.symm] at hreply
    rw [hreply]
    trivial
  | _ =>
    rw [hp] at hserved
    exact hserved

/-- A request that arrives at the time `t` and is dispatched at once. -/
theorem retry_run (digest : JsonDict → Str) (req : KeyedRequest) {i t : Nat}
    (ht : s.now ≤ t) (hi : s.phase i = .fresh) :
    ∃ s', exec (step digest) s [.tick t, .lookup i req, .dispatch i] = some s' ∧ s'.now = t ∧
      s'.phase i = match (checkOrReplay digest s.table req t).reply? with
        | some reply => .answered req reply
        | none => .running req (checkOrReplay digest s.table req t) := by
  unfold checkOrReplay
  cases hr : (dispatch digest req (lookup s.table req) t).reply? with
  | some reply => exact ⟨_, by simp [exec, step, ht, hi, hr]; rfl, rfl, by simp⟩
  | none => exact ⟨_, by simp [exec, step, ht, hi, hr]; rfl, rfl, by simp⟩

/-- A request that would run its handler, or meet a conflict, stands against replay. -/
theorem not_replayable {t : Nat} (hsound : Sound digest s) (ht : s.now ≤ t) (hd : t < deadline)
    (hslot : req.slot = some slot)
    (hreply : ∀ body status, (dispatch digest req (s.table slot) t).reply? ≠ some (.replay body status)) :
    ¬Replayable digest s slot (req.hash digest) deadline := by
  intro h
  obtain ⟨n, hn⟩ := hsound.started
  have hi := hn n le_rfl
  obtain ⟨s', hes, hnow, hp⟩ := retry_run digest req ht hi
  unfold checkOrReplay at hp
  rw [lookup_of_slot hslot] at hp
  have hcache := h _ s' hes (by omega) n req hi
  rw [hp] at hcache
  cases hr : (dispatch digest req (s.table slot) t).reply? with
  | none =>
    rw [hr] at hcache
    exact hcache rfl hslot rfl
  | some reply =>
    rw [hr] at hcache hreply
    have hcache := hcache rfl hslot rfl
    cases reply with
    | replay body status => exact hreply body status rfl
    | response _ => exact hcache
    | error _ _ _ _ => exact hcache

/-- What the slot must hold for replay up to the deadline. -/
theorem replayable_iff_row (hsound : Sound digest s) (hnow : s.now < deadline)
    (hslot : req.slot = some slot) : Replayable digest s slot (req.hash digest) deadline ↔
      ∃ row, s.table slot = some row ∧ row.requestHash = req.hash digest ∧
        deadline ≤ row.expiresAt := by
  constructor
  · intro h
    cases hrow : s.table slot with
    | none =>
      refine absurd h (not_replayable hsound le_rfl hnow hslot fun body status => ?_)
      rw [hrow, reply_of_dead fun _ he => by cases he]
      intro he
      cases he
    | some row =>
      refine ⟨row, rfl, ?_, ?_⟩
      · by_contra hhash
        refine absurd h (not_replayable hsound le_rfl hnow hslot fun body status => ?_)
        rw [hrow]
        by_cases hlive : s.now < row.expiresAt
        · rw [reply_of_live hslot hlive (by rw [hsound.status hrow]; decide),
            IdempotencyKey.replyTo, if_neg hhash]
          intro he
          cases he
        · rw [reply_of_dead fun row' he => by cases he; omega]
          intro he
          cases he
      · by_contra hexp
        -- the retry comes when the row has expired
        refine absurd h (not_replayable (t := max s.now row.expiresAt) hsound (by omega) (by omega)
          hslot fun body status => ?_)
        rw [hrow, reply_of_dead fun row' he => by cases he; omega]
        intro he
        cases he
  · rintro ⟨row, hrow, hhash, hdeadline⟩
    rw [← hhash]
    exact replayable_of_row hsound hrow hdeadline

/-! ## From the insert to the end of the session -/

/-- The request whose session takes the step. -/
def Event.actor? : Event → Option Nat
  | tick _ | sweep _ | send _ => none
  | lookup i _ | dispatch i | finish i _ | store i _ | close i _ => i

/-- A request and its uncommitted rows stay as they are while others move. -/
theorem Move.frame {e : Event} (h : Move digest s e s') {i : Nat} (hi : e.actor? ≠ some i) :
    s'.phase i = s.phase i ∧
      ∀ slot row, s'.pending slot = some (i, row) ↔ s.pending slot = some (i, row) := by
  cases h with
  | tick _ | sweep _ | send _ => exact ⟨rfl, fun _ _ => Iff.rfl⟩
  | @insert j _ _ _ _ slot' row' _ _ hp _ =>
    have hne : i ≠ j := fun e => hi (by rw [e]; rfl)
    refine ⟨by simp [hne], fun slot row => ?_⟩
    show Function.update s.pending slot' (some (j, row')) slot = _ ↔ _
    by_cases he : slot = slot'
    · subst he
      simp [hp, Ne.symm hne]
    · simp [he]
  | @commit j _ _ _ _ _ _ =>
    have hne : i ≠ j := fun e => hi (by rw [e]; rfl)
    exact ⟨by simp [hne], fun slot row => by simp [Server.release_some, hne]⟩
  | @rollback j _ _ _ _ _ _ _ _ _ =>
    have hne : i ≠ j := fun e => hi (by rw [e]; rfl)
    exact ⟨by simp [hne], fun slot row => by simp [Server.release_some, hne]⟩
  | @lookup j _ _ | @answer j _ _ _ _ _ | @run j _ _ _ _ | @finish j _ _ _ _
  | @skip j _ _ _ _ _ _ _ =>
    have hne : i ≠ j := fun e => hi (by rw [e]; rfl)
    exact ⟨by simp [hne], fun _ _ => Iff.rfl⟩

/-- A request that has stored its response can only end. -/
theorem Move.ends {e : Event} (h : Move digest s e s') {i : Nat} {check : CheckResult}
    {result : Result} {time : Nat} (hi : s.phase i = .stored req check result time)
    (he : e.actor? = some i) : ∃ reply, s'.phase i = .answered req reply := by
  cases h with
  | tick _ | sweep _ | send _ => cases he
  | commit hj =>
    cases he
    rw [hi] at hj
    cases hj
    exact ⟨_, by exact Server.setPhase_self s i _⟩
  | rollback hj _ _ =>
    cases he
    rw [hi] at hj
    cases hj
    exact ⟨_, by exact Server.setPhase_self s i _⟩
  | lookup hj | answer hj _ | run hj _ | finish hj | skip hj _ | insert hj _ _ _ =>
    cases he
    rw [hi] at hj
    cases hj

/-- A request that was answered takes no further step. -/
theorem Move.answered {e : Event} (h : Move digest s e s') {i : Nat} {reply : Reply}
    (hi : s.phase i = .answered req reply) : e.actor? ≠ some i := by
  intro he
  cases h with
  | tick _ | sweep _ | send _ => cases he
  | lookup hj | answer hj _ | run hj _ | finish hj | skip hj _ | insert hj _ _ _ | commit hj
  | rollback hj _ _ =>
    cases he
    rw [hi] at hj
    cases hj

theorem answered_exec {i : Nat} {reply : Reply} : ∀ {es : List Event} {s s' : Server},
    s.phase i = .answered req reply → exec (step digest) s es = some s' →
    s'.phase i = .answered req reply
  | [], _, _, hi, h => by
    cases h
    exact hi
  | _ :: _, _, _, hi, h => by
    obtain ⟨_, ht, h⟩ := exec_cons.mp h
    have hm := move_of_step ht
    exact answered_exec ((hm.frame (hm.answered hi)).1.trans hi) h

/-- As long as the session of a request is open, it holds the rows it inserted. -/
theorem stored_exec {i : Nat} {check check' : CheckResult} {result result' : Result}
    {time time' : Nat} {req' : KeyedRequest} : ∀ {es : List Event} {s s' : Server},
    s.phase i = .stored req check result time → exec (step digest) s es = some s' →
    s'.phase i = .stored req' check' result' time' →
    s'.phase i = .stored req check result time ∧
      ∀ slot row, s'.pending slot = some (i, row) ↔ s.pending slot = some (i, row)
  | [], _, _, hi, h, _ => by
    cases h
    exact ⟨hi, fun _ _ => Iff.rfl⟩
  | e :: _, s, s', hi, h, hi' => by
    obtain ⟨t, ht, h⟩ := exec_cons.mp h
    have hm := move_of_step ht
    by_cases he : e.actor? = some i
    · obtain ⟨reply, ha⟩ := hm.ends hi he
      rw [answered_exec ha h] at hi'
      cases hi'
    · obtain ⟨hp, hf⟩ := hm.frame he
      obtain ⟨hs, hr⟩ := stored_exec (hp.trans hi) h hi'
      exact ⟨hs, fun slot row => (hr slot row).trans (hf slot row)⟩

theorem rowToStore_response {check : CheckResult} {cached : Option IdempotencyKey} {now : Nat}
    (time : Nat) (hcheck : check = dispatch digest req cached now) (hslot : req.slot = some slot)
    (resourceId : Option Str) (body : JsonDict) :
    rowToStore req check time (.response resourceId body) =
      some (slot, ⟨req.hash digest, resourceId, body, 200, time + defaultTtl⟩) := by
  obtain ⟨hkey, hhash⟩ := dispatch_key digest cached now hslot
  rw [← hcheck] at hkey hhash
  simp [rowToStore, hkey, hhash, shouldCache, route_of_slot hslot]

/-- A request that has not stored yet holds no row. -/
theorem Sound.holds_none {i : Nat} {check : CheckResult} {result : Result} {time : Nat}
    (h : Sound digest s) (hi : s.phase i = .produced req check result time) (slot : Slot)
    (row : IdempotencyKey) : s.pending slot ≠ some (i, row) := by
  intro hp
  obtain ⟨_, _, _, _, hj, _⟩ := h.pending hp
  rw [hi] at hj
  cases hj

/-- What the end of the session makes of the slot: the row that the insert found room for, or
what was there. -/
theorem commit_of_store {i : Nat} {check check' : CheckResult} {result result' : Result}
    {req' : KeyedRequest} {time time' : Nat} {es : List Event} {s₀ s₁ : Server}
    (hsound : Sound digest s₀) (hi : s₀.phase i = .produced req check result time)
    (hr : rowToStore req check time result = some (slot, row))
    (h : exec (step digest) s₀ (.store i true :: es) = some s₁)
    (hi' : s₁.phase i = .stored req' check' result' time') :
    s₁.phase i = .stored req check result time ∧
      (s₀.table slot = none ∧ s₁.commit i slot = some row ∨
        s₀.table slot ≠ none ∧ s₁.commit i slot = s₁.table slot) := by
  obtain ⟨t, ht, h⟩ := exec_cons.mp h
  cases move_of_step ht with
  | skip hj hfull =>
    rw [hi] at hj
    cases hj
    obtain ⟨hs, hheld⟩ := stored_exec (by exact Server.setPhase_self s₀ i _) h hi'
    refine ⟨hs, .inr ⟨(hfull _ _ hr).2 rfl, Server.commit_of_other fun row' hp => ?_⟩⟩
    exact hsound.holds_none hi slot row' ((hheld slot row').mp hp)
  | insert hj hr' _ hfree =>
    rw [hi] at hj
    cases hj
    rw [hr] at hr'
    cases hr'
    obtain ⟨hs, hheld⟩ := stored_exec (by exact Server.setPhase_self s₀ i _) h hi'
    exact ⟨hs, .inl ⟨hfree, Server.commit_of_pending ((hheld _ _).mpr (by simp))⟩⟩

/-- A handler that raised has nothing to store. -/
theorem stored_of_raised {i : Nat} {check check' : CheckResult} {result result' : Result}
    {req' : KeyedRequest} {time time' : Nat} {es : List Event} {s₀ s₁ : Server}
    (hi : s₀.phase i = .produced req check result time)
    (h : exec (step digest) s₀ (.store i true :: es) = some s₁)
    (hi' : s₁.phase i = .stored req' check' result' time') :
    s₁.phase i = .stored req check result time := by
  obtain ⟨t, ht, h⟩ := exec_cons.mp h
  cases move_of_step ht with
  | skip hj _ =>
    rw [hi] at hj
    cases hj
    exact (stored_exec (by exact Server.setPhase_self s₀ i _) h hi').1
  | insert hj _ _ _ =>
    rw [hi] at hj
    cases hj
    exact (stored_exec (by exact Server.setPhase_self s₀ i _) h hi').1

end

/-- **Which completed requests can be replayed.** A handler ends with a status that may be cached,
the database accepts the insert, and the session ends: the requests for the same key, route and
body that arrive later and are dispatched within the TTL are all answered from the cache if and
only if the handler returned its response and the insert found no row, not even an expired one,
or another request has committed a row for the same body that lasts as long, or the TTL was over
when the session ended. -/
theorem completed_replayable_iff (digest : JsonDict → Str) (start : Nat) (es es' : List Event)
    (s₀ s₁ s : Server) (i : Nat) (req : KeyedRequest) (check : CheckResult) (result : Result)
    (time : Nat) (slot : Slot) (h₀ : exec (step digest) (Server.start start) es = some s₀)
    (hi : s₀.phase i = .produced req check result time) (hslot : req.slot = some slot)
    (hstatus : shouldCache result.status = true)
    (h₁ : exec (step digest) s₀ (.store i true :: es') = some s₁)
    (h : step digest s₁ (.close i true) = some s) :
    Replayable digest s slot (req.hash digest) (time + defaultTtl) ↔
      ((∃ resourceId body, result = .response resourceId body) ∧ s₀.table slot = none) ∨
      (∃ row, s₁.table slot = some row ∧ row.requestHash = req.hash digest ∧
        time + defaultTtl ≤ row.expiresAt) ∨
      time + defaultTtl ≤ s₁.now := by
  have hsound₀ := (sound_start start).exec h₀
  have hsound₁ := hsound₀.exec h₁
  have hsound := hsound₁.step h
  have hnow : s.now = s₁.now := by
    cases move_of_step h <;> rfl
  by_cases hover : time + defaultTtl ≤ s₁.now
  · refine iff_of_true (fun es' s' hes hlt => ?_) (.inr (.inr hover))
    have := exec_now hes
    omega
  rw [replayable_iff_row hsound (by omega) hslot]
  cases result with
  | response resourceId body =>
    obtain ⟨cached, now, hcheck⟩ := hsound₀.checked (i := i) (by rw [hi]; rfl)
    have hrow := rowToStore_response time hcheck hslot resourceId body
    cases move_of_step h with
    | commit hj =>
      obtain ⟨_, ⟨hfree, hc⟩ | ⟨hfull, hc⟩⟩ := commit_of_store hsound₀ hi hrow h₁ hj
      · simp [hc, hfree]
      · simp [hc, hfull, hover]
    | rollback hj hr _ =>
      obtain ⟨hs, _⟩ := commit_of_store hsound₀ hi hrow h₁ hj
      rw [hs] at hj
      cases hj
      exact absurd rfl ((hr rfl).2 resourceId body)
  | badRequest detail =>
    cases move_of_step h with
    | commit hj =>
      rw [stored_of_raised hi h₁ hj] at hj
      cases hj
    | rollback hj _ _ => simp [hover]
  | crash => cases hstatus

theorem completed_replayable_iff_first :
    Replayable queryDigest ((Server.start 5).after firstSearch) searchSlot "q" (5 + defaultTtl) :=
  (completed_replayable_iff queryDigest 5 (searchEvents 0 (.response none [])) [.send 0] _ _ _ 0
    (keyedSearch "q") _ _ 5 searchSlot rfl rfl rfl rfl rfl rfl).mpr (.inl ⟨⟨_, _, rfl⟩, rfl⟩)

/-- The first search again, when its row has expired and has not been swept. -/
def lateSearch : List Event :=
  firstSearch ++ .tick defaultTtl :: searchEvents 1 (.response none [])

/-- The expired row keeps the new one out, and a 400 is not stored. -/
theorem completed_not_replayable :
    (∃ s₀ s check, exec (step queryDigest) (Server.start 0) lateSearch = some s₀ ∧
      s₀.phase 1 = .produced (keyedSearch "q") check (.response none []) defaultTtl ∧
      exec (step queryDigest) s₀ [.store 1 true, .send 1, .close 1 true] = some s ∧
      ¬Replayable queryDigest s searchSlot "q" (defaultTtl + defaultTtl)) ∧
    ∃ s₀ s check, exec (step queryDigest) (Server.start 0) (searchEvents 0 (.badRequest "no")) =
        some s₀ ∧
      s₀.phase 0 = .produced (keyedSearch "q") check (.badRequest "no") 0 ∧
      exec (step queryDigest) s₀ [.store 0 true, .close 0 true] = some s ∧
      ¬Replayable queryDigest s searchSlot "q" (0 + defaultTtl) := by
  have hslot : (keyedSearch "q").slot = some searchSlot := rfl
  constructor
  · have h : exec (step queryDigest) (Server.start 0) (lateSearch ++ [.store 1 true, .send 1, .close 1 true]) =
        some (((Server.start 0).after lateSearch).after [.store 1 true, .send 1, .close 1 true]) := rfl
    exact ⟨_, _, _, rfl, rfl, rfl, not_replayable ((sound_start 0).exec h) le_rfl
      (by decide +kernel) hslot nofun⟩
  · have h : exec (step queryDigest) (Server.start 0)
        (searchEvents 0 (.badRequest "no") ++ [.store 0 true, .close 0 true]) =
        some (((Server.start 0).after (searchEvents 0 (.badRequest "no"))).after
          [.store 0 true, .close 0 true]) := rfl
    exact ⟨_, _, _, rfl, rfl, rfl, not_replayable ((sound_start 0).exec h) le_rfl
      (by decide +kernel) hslot nofun⟩

end KnowledgeKiln.L4.Idempotency
