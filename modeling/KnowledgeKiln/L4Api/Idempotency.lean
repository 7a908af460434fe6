import KnowledgeKiln.Core.Json

/-!
# Idempotency keys

The `Idempotency-Key` header of the three POST routes (`api/idempotency.py`),
and the table of cached responses behind it (`db/repositories/idempotency.py`).
A slot is a key on a route; the table has at most one row for it.

Times are microseconds. The digest of a request body (SHA-256 of its JSON with
sorted keys) is a parameter.

* `extractKey_wellFormed`: a key is short, not empty, and of harmless characters.
* `reply_of_live`, `reply_of_dead`: what a request is answered from the row the
  dispatcher read.
* `deleteExpired_keeps`, `deleteExpired_some`: the sweeper changes no row, and
  deletes no live one.
-/
namespace KnowledgeKiln.L4.Idempotency

open KnowledgeKiln.Core

/-! ## The header -/

/-- `_MAX_LEN` -/
def headerMaxLen : Nat := 200

/-- The characters outside `[^A-Za-z0-9._-]`. -/
def isOpaqueChar (c : Char) : Bool := c.isAlphanum || c == '.' || c == '_' || c == '-'

/-- `sanitize_opaque_header` -/
def sanitizeOpaqueHeader : Option Str → Option Str
  | none => none
  | some value =>
    let value := strip value
    if value = [] then none
    else
      let value := if headerMaxLen < value.length then value.take headerMaxLen else value
      let scrubbed := value.map fun c => if isOpaqueChar c then c else '_'
      if scrubbed = [] then none else some scrubbed

/-- `MAX_KEY_LEN` -/
def maxKeyLen : Nat := 200

/-- `extract_key`, from the value of the header. -/
def extractKey (header : Option Str) : Option Str :=
  match sanitizeOpaqueHeader header with
  | none => none
  | some sanitized => if maxKeyLen < sanitized.length then some (sanitized.take maxKeyLen) else sanitized

theorem sanitizeOpaqueHeader_wellFormed {header : Option Str} {s : Str}
    (h : sanitizeOpaqueHeader header = some s) :
    s ≠ [] ∧ s.length ≤ headerMaxLen ∧ ∀ c ∈ s, isOpaqueChar c = true := by
  cases header with
  | none => cases h
  | some value =>
    simp only [sanitizeOpaqueHeader] at h
    have hlen : (if headerMaxLen < (strip value).length then (strip value).take headerMaxLen
        else strip value).length ≤ headerMaxLen := by
      split
      · simp
      · omega
    generalize (if headerMaxLen < (strip value).length then (strip value).take headerMaxLen
        else strip value) = v at h hlen
    obtain ⟨_, h⟩ := Option.ite_none_left_eq_some.mp h
    obtain ⟨hne, h⟩ := Option.ite_none_left_eq_some.mp h
    cases h
    refine ⟨hne, by simpa using hlen, ?_⟩
    intro c hc
    obtain ⟨d, _, rfl⟩ := List.mem_map.mp hc
    by_cases hd : isOpaqueChar d = true
    · simp [hd]
    · simp only [hd]
      rfl

theorem extractKey_wellFormed {header : Option Str} {key : Str} (h : extractKey header = some key) :
    key ≠ [] ∧ key.length ≤ maxKeyLen ∧ ∀ c ∈ key, isOpaqueChar c = true := by
  unfold extractKey at h
  split at h
  · cases h
  · rename_i s hs
    have hs := sanitizeOpaqueHeader_wellFormed hs
    split at h
    · exact absurd hs.2.1 (by simpa [headerMaxLen, maxKeyLen] using ‹_›)
    · cases h
      exact hs

/-! ## The table -/

/-- The routes that honour the header. -/
inductive Route
  | search
  | contextPack
  | answer
  deriving DecidableEq, Repr

def Route.path : Route → Str
  | search => "/v1/search"
  | contextPack => "/v1/agent/context-pack"
  | answer => "/v1/answer"

/-- The primary key `(key, route)`. -/
abbrev Slot := Str × Route

/-- A row of `idempotency_keys`, without its primary key and `created_at`. -/
structure IdempotencyKey where
  requestHash : Str
  resourceId : Option Str
  responseBody : JsonDict
  responseStatus : Nat
  expiresAt : Nat

abbrev IdempotencyTable := Slot → Option IdempotencyKey

/-- `DEFAULT_TTL`, 24 hours. -/
def defaultTtl : Nat := 24 * 60 * 60 * 1000000

/-- `create_if_absent`: `INSERT … ON CONFLICT (key, route) DO NOTHING`. -/
def createIfAbsent (table : IdempotencyTable) (slot : Slot) (row : IdempotencyKey) :
    Bool × IdempotencyTable :=
  match table slot with
  | some _ => (false, table)
  | none => (true, Function.update table slot (some row))

/-- `delete_expired` -/
def deleteExpired (cutoff : Nat) (table : IdempotencyTable) : IdempotencyTable :=
  fun slot => (table slot).filter fun row => !decide (row.expiresAt < cutoff)

section
variable {table : IdempotencyTable} {slot : Slot} {row : IdempotencyKey}

theorem deleteExpired_keeps {cutoff : Nat} (h : table slot = some row)
    (hlive : cutoff ≤ row.expiresAt) : deleteExpired cutoff table slot = some row := by
  simp [deleteExpired, h, hlive]

theorem deleteExpired_some {cutoff : Nat} (h : deleteExpired cutoff table slot = some row) :
    table slot = some row :=
  (Option.filter_eq_some_iff.mp h).1

end

/-! ## The dispatcher -/

inductive Outcome
  | miss
  | hit
  | conflict
  deriving DecidableEq, Repr

structure CheckResult where
  outcome : Outcome
  key : Option Str
  requestHash : Option Str
  cachedBody : Option JsonDict
  cachedStatus : Option Nat

/-- A validated request: its header, and what `body.model_dump` gives. -/
structure KeyedRequest where
  header : Option Str
  route : Route
  body : JsonDict

def KeyedRequest.slot (req : KeyedRequest) : Option Slot :=
  (extractKey req.header).map fun key => (key, req.route)

section
variable (digest : JsonDict → Str)

/-- `canonical_body_hash` -/
def canonicalBodyHash (body : Option JsonDict) : Str := digest (body.getD [])

def KeyedRequest.hash (req : KeyedRequest) : Str := canonicalBodyHash digest (some req.body)

/-- The row that `check_or_replay` looks up. -/
def lookup (table : IdempotencyTable) (req : KeyedRequest) : Option IdempotencyKey :=
  req.slot.bind table

/-- `check_or_replay` behind its lookup, at the time `now`. -/
def dispatch (req : KeyedRequest) (cached : Option IdempotencyKey) (now : Nat) : CheckResult :=
  match extractKey req.header with
  | none => ⟨.miss, none, none, none, none⟩
  | some key =>
    let requestHash := req.hash digest
    match cached with
    | none => ⟨.miss, key, requestHash, none, none⟩
    | some row =>
      if row.expiresAt ≤ now then ⟨.miss, key, requestHash, none, none⟩
      else if row.requestHash ≠ requestHash then ⟨.conflict, key, requestHash, none, none⟩
      else
        ⟨.hit, key, requestHash, some (if row.responseBody.isEmpty then [] else row.responseBody),
          some row.responseStatus⟩

/-- `check_or_replay` -/
def checkOrReplay (table : IdempotencyTable) (req : KeyedRequest) (now : Nat) : CheckResult :=
  dispatch digest req (lookup table req) now

end

/-- `should_cache` -/
def shouldCache (status : Nat) : Bool := 200 ≤ status && status ≤ 499

/-- What a client is sent. -/
inductive Reply
  /-- The handler's own response, with status 200. -/
  | response (body : JsonDict)
  /-- A cached response, with the header `Idempotency-Replayed`. -/
  | replay (body : JsonDict) (status : Nat)
  | error (status : Nat) (code message : Str) (retryAfter : Option Nat := none)

def idempotencyConflict : Reply :=
  .error 422 "idempotency_conflict" "Idempotency-Key reuse with different body."

/-- How a handler leaves before its own work. -/
def CheckResult.reply? (check : CheckResult) : Option Reply :=
  match check.outcome with
  | .hit =>
    let status := check.cachedStatus.getD 0
    some (.replay (check.cachedBody.getD []) (if status = 0 then 200 else status))
  | .conflict => some idempotencyConflict
  | .miss => none

/-- What a live row is worth to a request with this hash. -/
def IdempotencyKey.replyTo (row : IdempotencyKey) (hash : Str) : Reply :=
  if row.requestHash = hash then .replay row.responseBody row.responseStatus
  else idempotencyConflict

section
variable {digest : JsonDict → Str} {req : KeyedRequest} {slot : Slot} {row : IdempotencyKey}
  {cached : Option IdempotencyKey} {now : Nat}

theorem lookup_of_slot (h : req.slot = some slot) (table : IdempotencyTable) :
    lookup table req = table slot := by
  simp [lookup, h]

theorem extractKey_of_slot (h : req.slot = some slot) : extractKey req.header = some slot.1 := by
  obtain ⟨key, hk, rfl⟩ := Option.map_eq_some_iff.mp h
  exact hk

theorem route_of_slot (h : req.slot = some slot) : req.route = slot.2 := by
  obtain ⟨key, _, rfl⟩ := Option.map_eq_some_iff.mp h
  rfl

theorem dispatch_key (digest : JsonDict → Str) (cached : Option IdempotencyKey) (now : Nat)
    (h : req.slot = some slot) :
    (dispatch digest req cached now).key = some slot.1 ∧
      (dispatch digest req cached now).requestHash = some (req.hash digest) := by
  simp only [dispatch, extractKey_of_slot h]
  cases cached with
  | none => simp
  | some row =>
    by_cases he : row.expiresAt ≤ now <;> by_cases hh : row.requestHash = req.hash digest <;>
      simp [he, hh]

/-- A live row answers the request, by replay or conflict. -/
theorem reply_of_live (h : req.slot = some slot) (hlive : now < row.expiresAt)
    (hstatus : row.responseStatus ≠ 0) :
    (dispatch digest req (some row) now).reply? = some (row.replyTo (req.hash digest)) := by
  have he : ¬row.expiresAt ≤ now := by omega
  simp only [dispatch, extractKey_of_slot h, he, CheckResult.reply?, IdempotencyKey.replyTo]
  by_cases hh : row.requestHash = req.hash digest
  · by_cases hb : row.responseBody = [] <;> simp [hh, hstatus, hb]
  · simp [hh]

/-- Without a live row the handler runs. -/
theorem reply_of_dead (h : ∀ row, cached = some row → row.expiresAt ≤ now) :
    (dispatch digest req cached now).reply? = none := by
  unfold dispatch
  split
  · rfl
  · cases cached with
    | none => rfl
    | some row => simp [h row rfl, CheckResult.reply?]

end

end KnowledgeKiln.L4.Idempotency
