import KnowledgeKiln.Core.Format
import KnowledgeKiln.Core.JsonDumps
import KnowledgeKiln.Core.OrderedDict
import KnowledgeKiln.L4Api.Idempotency

/-!
# The error envelope (api/errors.py, api/error_handlers.py)

Whatever a handler raises leaves as an `ErrorResponse`: an `HTTPException` with the code and the
texts of its detail or of its status, a request that does not validate, or anything else. Pydantic
checks the envelope as it is built, and `JSONResponse` has to write the detail as JSON and the
headers in Latin-1, so the first two can fail in their own handlers; they leave as an internal error
then. What Pydantic reads an integer from is a parameter.

* `JsonResponse.rendered`: what a `JSONResponse` can write.
* `httpExc_returns_iff`, `validationExc_returns_iff`: which exceptions the handlers can answer.
* `httpExc_agrees`: what an answer repeats of its exception.
* `raised_delivered`: what `raise_with_code` was given is what the client reads.
-/
namespace KnowledgeKiln.L4.Errors

open KnowledgeKiln.Core

/-! ## Codes -/

inductive ErrorCode
  | authRequired | invalidRequest | queryTooLong | invalidFilterValue | tokenBudgetTooLow
  | rateLimited | idempotencyConflict
  | dbUnreachable | embeddingUnavailable | generatorUnavailable | internalError
  deriving DecidableEq

def ErrorCode.text : ErrorCode → Str
  | .authRequired => "auth_required"
  | .invalidRequest => "invalid_request"
  | .queryTooLong => "query_too_long"
  | .invalidFilterValue => "invalid_filter_value"
  | .tokenBudgetTooLow => "token_budget_too_low"
  | .rateLimited => "rate_limited"
  | .idempotencyConflict => "idempotency_conflict"
  | .dbUnreachable => "db_unreachable"
  | .embeddingUnavailable => "embedding_unavailable"
  | .generatorUnavailable => "generator_unavailable"
  | .internalError => "internal_error"

def errorCodes : List ErrorCode :=
  [.authRequired, .invalidRequest, .queryTooLong, .invalidFilterValue, .tokenBudgetTooLow,
    .rateLimited, .idempotencyConflict, .dbUnreachable, .embeddingUnavailable,
    .generatorUnavailable, .internalError]

/-- The check of a `Literal`. -/
def ErrorCode.ofValue : PyValue → Option ErrorCode
  | .str s => errorCodes.find? fun code => code.text = s
  | _ => none

/-- `_STATUS_DEFAULTS` -/
def statusDefaults : List (Nat × ErrorCode × Bool × Option Int) :=
  [(400, .invalidRequest, false, none), (401, .authRequired, false, none),
    (403, .authRequired, false, none), (404, .invalidRequest, false, none),
    (413, .queryTooLong, false, none), (422, .invalidRequest, false, none),
    (429, .rateLimited, true, none), (500, .internalError, false, none),
    (503, .dbUnreachable, true, some 30)]

/-- mirrors api/errors.py:114-122 -/
def defaultForStatus (statusCode : Nat) : ErrorCode × Bool × Option Int :=
  (statusDefaults.lookup statusCode).getD (.internalError, false, none)

/-- The texts of `_default_message_for`; one code has none. -/
def ErrorCode.defaultMessage : ErrorCode → Option Str
  | .authRequired => some "Authentication required."
  | .invalidRequest => some "The request was invalid."
  | .queryTooLong => some "Query exceeds the maximum length."
  | .invalidFilterValue => some "One or more filter values were invalid."
  | .tokenBudgetTooLow => some "The requested token budget is too small."
  | .rateLimited => some "Too many requests. Please slow down."
  | .idempotencyConflict => none
  | .dbUnreachable => some "Database is temporarily unavailable."
  | .embeddingUnavailable => some "Embedding provider is temporarily unavailable."
  | .generatorUnavailable => some "Generator is not configured or unavailable."
  | .internalError => some "An internal error occurred."

/-- Mirrors `_default_message_for` (error_handlers.py:103-116): a dictionary that is subscripted by
whatever the code is. -/
def defaultMessageFor (code : PyValue) : Py Str :=
  match code with
  | .arr _ | .obj _ => throw (.external "TypeError: unhashable type".toList)
  | _ =>
    match (ErrorCode.ofValue code).bind ErrorCode.defaultMessage with
    | some message => pure message
    | none => throw (.keyError (match code with | .str s => s | _ => []))

/-! ## Envelopes -/

structure ErrorResponse where
  errorCode : ErrorCode
  message : Str
  retrySafe : Bool := false
  retryAfterSeconds : Option Int := none
  requestId : Option Str := none
  detail : Option (List (Str × PyValue)) := none

/-- `HTTPException.detail` -/
inductive Detail
  | none
  | text (s : Str)
  | dict (d : OrderedDict Str PyValue)
  | other (v : PyValue)

structure HttpException where
  statusCode : Nat
  detail : Detail
  /-- `dict(exc.headers or {})` -/
  headers : OrderedDict Str Str

def detailCodeKey : Str := "_error_code"
def detailMessageKey : Str := "_message"
def detailRetryAfterKey : Str := "_retry_after_seconds"

def sentinels : List Str := [detailCodeKey, detailMessageKey, detailRetryAfterKey]

/-- `d.pop(key, None)`, as far as it is read -/
def pop (d : OrderedDict Str PyValue) (key : Str) : PyValue := (d.get key).getD .null

def ofOption : Option Int → PyValue
  | some n => .int n
  | none => .null

/-- The constructor of `ErrorResponse`; `validInt` is what Pydantic reads an `int` from. -/
def buildEnvelope (validInt : PyValue → Option Int) (code message : PyValue) (retrySafe : Bool)
    (retryAfter : PyValue) (requestId : Option Str) (detail : Option (List (Str × PyValue))) :
    Py ErrorResponse :=
  match ErrorCode.ofValue code, message with
  | some errorCode, .str message =>
    match retryAfter with
    | .null => pure { errorCode, message, retrySafe, requestId, detail }
    | v =>
      match validInt v with
      | some n =>
        pure { errorCode, message, retrySafe, retryAfterSeconds := some n, requestId, detail }
      | none => throw (.validationError "ErrorResponse")
  | _, _ => throw (.validationError "ErrorResponse")

/-- The code, whether a retry is safe, and when. An override of the code overrides the whole row. -/
def rowOf (statusCode : Nat) (d : OrderedDict Str PyValue) : PyValue × Bool × PyValue :=
  let defaults := defaultForStatus statusCode
  match pop d detailCodeKey with
  | .null => (.str defaults.1.text, defaults.2.1, ofOption defaults.2.2)
  | code => (code, false, .null)

/-- The row of a detail with its sentinels (error_handlers.py:55-74). -/
def overrides (statusCode : Nat) (d : OrderedDict Str PyValue) : PyValue × Bool × PyValue :=
  let row := rowOf statusCode d
  match d.get detailRetryAfterKey with
  | some .null => (row.1, false, .null)
  | some v => (row.1, true, v)
  | none => row

/-- `override_message or _default_message_for(code)` -/
def messageOf (d : OrderedDict Str PyValue) (code : PyValue) : Py PyValue :=
  if (pop d detailMessageKey).truthy then pure (pop d detailMessageKey)
  else do
    let message ← defaultMessageFor code
    pure (.str message)

/-- `exc.detail or _default_message_for(code)` -/
def textOf (s : Str) (code : PyValue) : Py Str := if s = [] then defaultMessageFor code else pure s

/-- `rest or None` -/
def restOf (d : OrderedDict Str PyValue) : Option (List (Str × PyValue)) :=
  let rest := d.items.filter fun member => member.1 ∉ sentinels
  if rest = [] then none else some rest

/-- Mirrors `_envelope_from_http_exception` (error_handlers.py:45-100). -/
def envelopeFromHttpException (validInt : PyValue → Option Int) (exc : HttpException)
    (requestId : Option Str) : Py ErrorResponse :=
  let (default, retrySafe, retryAfter) := defaultForStatus exc.statusCode
  let code := PyValue.str default.text
  match exc.detail with
  | .dict d => do
    let (code, retrySafe, retryAfter) := overrides exc.statusCode d
    let message ← messageOf d code
    buildEnvelope validInt code message retrySafe retryAfter requestId (restOf d)
  | .text s => do
    let message ← textOf s code
    buildEnvelope validInt code (.str message) retrySafe (ofOption retryAfter) requestId none
  | .none => do
    let message ← defaultMessageFor code
    buildEnvelope validInt code (.str message) retrySafe (ofOption retryAfter) requestId none
  | .other v => do
    let message ← defaultMessageFor code
    buildEnvelope validInt code (.str message) retrySafe (ofOption retryAfter) requestId
      (some [("raw".toList, v)])

/-! ## Handlers -/

/-- Digits, with single underscores between them. -/
def digitsValue (s : Str) : Option Nat :=
  if (s.splitOn '_').all fun run => run ≠ [] && run.all Char.isDigit then
    some (Nat.ofDigitChars 10 (s.filter (· ≠ '_')) 0)
  else none

/-- `int(s)`; of the characters of a header only ASCII digits are decimal. -/
def intOfText (s : Str) : Option Int :=
  match strip s with
  | '-' :: digits => (digitsValue digits).map fun n => -(n : Int)
  | '+' :: digits => (digitsValue digits).map fun n => (n : Int)
  | digits => (digitsValue digits).map fun n => (n : Int)

/-- `JSONResponse(envelope.model_dump(), …)` -/
structure JsonResponse where
  status : Nat
  headers : OrderedDict Str Str
  body : ErrorResponse

def isLatin1 (s : Str) : Bool := s.all (·.toNat < 256)

/-- `name.lower().encode("latin-1")` works: of the letters outside Latin-1 these four have their
lower case in it. -/
def nameWritable (name : Str) : Bool :=
  name.all fun c => c.toNat < 256 || c ∈ ['\u0178', '\u1e9e', '\u212a', '\u212b']

def headersWritable (headers : OrderedDict Str Str) : Bool :=
  headers.items.all fun h => nameWritable h.1 && isLatin1 h.2

/-- `json.dumps` writes the detail, and the headers can be encoded. -/
def JsonResponse.renders (r : JsonResponse) : Bool :=
  r.body.detail.all PyValue.dumpableMembers && headersWritable r.headers

/-- `JSONResponse` writes its body and its headers as it is made. -/
def JsonResponse.rendered (r : JsonResponse) : Py JsonResponse :=
  if r.renders then pure r else throw (.external "JSONResponse")

def requestIdName : Str := "X-Request-ID"
def retryAfterName : Str := "Retry-After"

/-- The headers of an exception, and the request id if it has none (error_handlers.py:128-130). -/
def responseHeaders (headers : OrderedDict Str Str) (requestId : Option Str) :
    OrderedDict Str Str :=
  match requestId, headers.get requestIdName with
  | some i, none => headers.set requestIdName i
  | _, _ => headers

/-- A Retry-After header is the better source (error_handlers.py:131-139). -/
def withHeader (headers : OrderedDict Str Str) (envelope : ErrorResponse) : ErrorResponse :=
  match (headers.get retryAfterName).bind intOfText with
  | some n => { envelope with retryAfterSeconds := some n, retrySafe := true }
  | none => envelope

/-- mirrors error_handlers.py:122-146 -/
def httpExc (validInt : PyValue → Option Int) (exc : HttpException) (requestId : Option Str) :
    Py JsonResponse := do
  let envelope ← envelopeFromHttpException validInt exc requestId
  let headers := responseHeaders exc.headers requestId
  JsonResponse.rendered { status := exc.statusCode, headers, body := withHeader headers envelope }

/-- mirrors error_handlers.py:148-163 -/
def validationExc (errors : PyValue) (requestId : Option Str) : Py JsonResponse :=
  JsonResponse.rendered
  { status := 422
    headers := responseHeaders .empty requestId
    body :=
      { errorCode := .invalidRequest, message := "Request body validation failed.", requestId
        detail := some [("errors".toList, errors)] } }

/-- Mirrors error_handlers.py:165-188; it always renders (`genericExc_rendered`). -/
def genericExc (requestId : Option Str) : JsonResponse :=
  { status := 500
    headers := responseHeaders .empty requestId
    body := { errorCode := .internalError, message := "An internal error occurred.", requestId } }

inductive Raised
  | http (exc : HttpException)
  | validation (errors : PyValue)
  | other

/-- What the client is sent; an exception that leaves a handler is any other exception. -/
def respond (validInt : PyValue → Option Int) (requestId : Option Str) : Raised → JsonResponse
  | .http exc =>
    match httpExc validInt exc requestId with
    | .ok r => r
    | .error _ => genericExc requestId
  | .validation errors =>
    match validationExc errors requestId with
    | .ok r => r
    | .error _ => genericExc requestId
  | .other => genericExc requestId

/-- Mirrors `raise_with_code` (error_handlers.py:191-214). -/
def raiseWithCode (statusCode : Nat) (code : ErrorCode) (message : Str) (retryAfter : Option Int)
    (headers : OrderedDict Str Str) (detail : OrderedDict Str PyValue) : HttpException :=
  let payload := (detail.set detailCodeKey (.str code.text)).set detailMessageKey (.str message)
  { statusCode
    detail := .dict <| match retryAfter with
      | some n => payload.set detailRetryAfterKey (.int n)
      | none => payload
    headers }

/-! ## Which exceptions have an answer -/

/-- The code of the detail, or of the status. -/
def codeOf (exc : HttpException) : Option ErrorCode :=
  match exc.detail with
  | .dict d =>
    match pop d detailCodeKey with
    | .null => some (defaultForStatus exc.statusCode).1
    | v => ErrorCode.ofValue v
  | _ => some (defaultForStatus exc.statusCode).1

/-- A detail that the envelope can be built of. -/
def Buildable (validInt : PyValue → Option Int) (exc : HttpException) : Prop :=
  match exc.detail with
  | .dict d => ∃ code, codeOf exc = some code ∧
      ((pop d detailMessageKey).truthy = true → ∃ s, pop d detailMessageKey = .str s) ∧
      ((pop d detailMessageKey).truthy = false → code.defaultMessage ≠ none) ∧
      ∀ v, d.get detailRetryAfterKey = some v → v = .null ∨ (validInt v).isSome = true
  | _ => True

/-- A detail whose members, but for the sentinels, can be written as JSON. -/
def Detail.Dumpable : Detail → Prop
  | .dict d => ∀ member ∈ d.items, member.1 ∉ sentinels → member.2.dumpable = true
  | .other v => v.dumpable = true
  | _ => True

structure Deliverable (validInt : PyValue → Option Int) (exc : HttpException) : Prop where
  buildable : Buildable validInt exc
  dumpable : exc.detail.Dumpable
  headers : headersWritable exc.headers = true

section
variable {validInt : PyValue → Option Int} {exc : HttpException} {requestId : Option Str}

@[simp] theorem ofValue_text (code : ErrorCode) : ErrorCode.ofValue (.str code.text) = some code := by
  cases code <;> decide

theorem ofValue_eq_some {v : PyValue} {code : ErrorCode} :
    ErrorCode.ofValue v = some code ↔ v = .str code.text := by
  constructor
  · intro h
    unfold ErrorCode.ofValue at h
    split at h
    · have ht := List.find?_some h
      rw [decide_eq_true_eq] at ht
      rw [ht]
    · cases h
  · rintro rfl
    exact ofValue_text code

theorem defaultMessageFor_ok {v : PyValue} {message : Str} : defaultMessageFor v = .ok message ↔
    ∃ code : ErrorCode, v = .str code.text ∧ code.defaultMessage = some message := by
  unfold defaultMessageFor
  split
  · simp
  · simp
  · cases h : (ErrorCode.ofValue v).bind ErrorCode.defaultMessage with
    | none =>
      simp only [Py.throw_ne_ok, false_iff]
      rintro ⟨code, rfl, hm⟩
      simp [hm] at h
    | some m =>
      obtain ⟨code, hcode, hm⟩ := Option.bind_eq_some_iff.mp h
      simp only [Py.pure_ok]
      constructor
      · rintro rfl
        exact ⟨code, ofValue_eq_some.mp hcode, hm⟩
      · rintro ⟨code', rfl, hm'⟩
        rw [ofValue_text] at hcode
        cases hcode
        rw [hm] at hm'
        exact Option.some.inj hm'

/-- A status has a code with a text of its own. -/
theorem defaultMessage_defaultForStatus (statusCode : Nat) :
    (defaultForStatus statusCode).1.defaultMessage ≠ none := by
  unfold defaultForStatus
  cases h : statusDefaults.lookup statusCode with
  | none => simp [ErrorCode.defaultMessage]
  | some entry =>
    have hmem := mem_of_lookup h
    simp only [statusDefaults, List.mem_cons, List.not_mem_nil, or_false, Prod.mk.injEq] at hmem
    rcases hmem with h | h | h | h | h | h | h | h | h <;>
      simp [h.2, ErrorCode.defaultMessage]

theorem defaultMessageFor_status (statusCode : Nat) :
    ∃ message, defaultMessageFor (.str (defaultForStatus statusCode).1.text) = .ok message := by
  obtain ⟨message, hm⟩ := Option.ne_none_iff_exists'.mp (defaultMessage_defaultForStatus statusCode)
  exact ⟨message, defaultMessageFor_ok.mpr ⟨_, rfl, hm⟩⟩

/-- A bare status is safe to retry if it says when. -/
theorem retrySafe_defaultForStatus {statusCode : Nat}
    (h : (defaultForStatus statusCode).2.2.isSome = true) :
    (defaultForStatus statusCode).2.1 = true := by
  unfold defaultForStatus at h ⊢
  cases hl : statusDefaults.lookup statusCode with
  | none => simp [hl] at h
  | some entry =>
    have hmem := mem_of_lookup hl
    simp only [statusDefaults, List.mem_cons, List.not_mem_nil, or_false, Prod.mk.injEq] at hmem
    rcases hmem with e | e | e | e | e | e | e | e | e <;> simp_all

/-- What an envelope was built of. -/
structure Built (validInt : PyValue → Option Int) (code message : PyValue) (retrySafe : Bool)
    (retryAfter : PyValue) (requestId : Option Str) (detail : Option (List (Str × PyValue)))
    (e : ErrorResponse) : Prop where
  code : code = .str e.errorCode.text
  message : message = .str e.message
  retrySafe : e.retrySafe = retrySafe
  retryAfter : (retryAfter = .null ∧ e.retryAfterSeconds = none) ∨
    (retryAfter ≠ .null ∧ ∃ n, validInt retryAfter = some n ∧ e.retryAfterSeconds = some n)
  requestId : e.requestId = requestId
  detail : e.detail = detail

theorem buildEnvelope_ok {code message retryAfter : PyValue} {retrySafe : Bool}
    {detail : Option (List (Str × PyValue))} {e : ErrorResponse} :
    buildEnvelope validInt code message retrySafe retryAfter requestId detail = .ok e ↔
      Built validInt code message retrySafe retryAfter requestId detail e := by
  constructor
  · intro h
    unfold buildEnvelope at h
    split at h
    · rename_i errorCode text hcode
      rw [ofValue_eq_some] at hcode
      split at h
      · rw [← Py.pure_ok.mp h]
        exact ⟨hcode, rfl, rfl, .inl ⟨rfl, rfl⟩, rfl, rfl⟩
      · rename_i hne
        split at h
        · rename_i n hn
          rw [← Py.pure_ok.mp h]
          exact ⟨hcode, rfl, rfl, .inr ⟨hne, n, hn, rfl⟩, rfl, rfl⟩
        · simp at h
    · simp at h
  · intro ⟨hcode, hmessage, hsafe, hretry, hid, hdetail⟩
    obtain ⟨errorCode, text, safe, seconds, id, members⟩ := e
    dsimp only at hcode hmessage hsafe hretry hid hdetail
    subst hcode hmessage hsafe hid hdetail
    unfold buildEnvelope
    rw [ofValue_text]
    dsimp only
    rcases hretry with ⟨rfl, rfl⟩ | ⟨hne, n, hn, rfl⟩
    · rfl
    · split
      · exact absurd rfl hne
      · rw [hn]
        rfl

/-! ## The handler of an `HTTPException` -/

/-- A status by itself gives an envelope, with any message and detail. -/
theorem buildEnvelope_status (requestId : Option Str) (hint : ∀ n, validInt (.int n) = some n)
    (statusCode : Nat) (message : Str) (detail : Option (List (Str × PyValue))) :
    ∃ e, buildEnvelope validInt (.str (defaultForStatus statusCode).1.text) (.str message)
      (defaultForStatus statusCode).2.1 (ofOption (defaultForStatus statusCode).2.2) requestId
      detail = .ok e := by
  refine ⟨⟨_, message, _, (defaultForStatus statusCode).2.2, requestId, detail⟩,
    buildEnvelope_ok.mpr ⟨rfl, rfl, rfl, ?_, rfl, rfl⟩⟩
  cases (defaultForStatus statusCode).2.2 with
  | none => exact .inl ⟨rfl, rfl⟩
  | some n => exact .inr ⟨nofun, n, hint n, rfl⟩

/-- An envelope that names a delay is safe to retry. -/
def RetryCoherent (e : ErrorResponse) : Prop :=
  e.retryAfterSeconds.isSome = true → e.retrySafe = true

/-- The sentinels of `raise_with_code` stay inside. -/
def DetailClean (e : ErrorResponse) : Prop :=
  ∀ members, e.detail = some members → ∀ member ∈ members, member.1 ∉ sentinels

structure Sealed (requestId : Option Str) (e : ErrorResponse) : Prop where
  requestId : e.requestId = requestId
  retry : RetryCoherent e
  detail : DetailClean e

theorem ofOption_ne_null {n : Option Int} (h : ofOption n ≠ .null) : n.isSome = true := by
  cases n with
  | none => exact absurd rfl h
  | some n => rfl

theorem sealed_of_status {statusCode : Nat} {code message : PyValue}
    {detail : Option (List (Str × PyValue))} {e : ErrorResponse}
    (h : Built validInt code message (defaultForStatus statusCode).2.1
      (ofOption (defaultForStatus statusCode).2.2) requestId detail e)
    (hdetail : ∀ members, detail = some members → ∀ member ∈ members, member.1 ∉ sentinels) :
    Sealed requestId e := by
  refine ⟨h.requestId, fun hsome => ?_, fun members hm => hdetail members (h.detail ▸ hm)⟩
  rw [h.retrySafe]
  refine retrySafe_defaultForStatus ?_
  rcases h.retryAfter with ⟨-, hnone⟩ | ⟨hne, -⟩
  · rw [hnone] at hsome
    cases hsome
  · exact ofOption_ne_null hne

theorem rowOf_coherent {statusCode : Nat} {d : OrderedDict Str PyValue}
    (h : (rowOf statusCode d).2.2 ≠ .null) : (rowOf statusCode d).2.1 = true := by
  unfold rowOf at h ⊢
  dsimp only at h ⊢
  split at h
  · exact retrySafe_defaultForStatus (ofOption_ne_null h)
  · exact absurd rfl h

theorem overrides_coherent {statusCode : Nat} {d : OrderedDict Str PyValue}
    (h : (overrides statusCode d).2.2 ≠ .null) : (overrides statusCode d).2.1 = true := by
  unfold overrides at h ⊢
  dsimp only at h ⊢
  split at h
  · exact absurd rfl h
  · rfl
  · exact rowOf_coherent h

theorem overrides_fst (statusCode : Nat) (d : OrderedDict Str PyValue) :
    (overrides statusCode d).1 = (rowOf statusCode d).1 := by
  unfold overrides
  dsimp only
  split <;> rfl

theorem overrides_code {exc : HttpException} {d : OrderedDict Str PyValue} {code : ErrorCode}
    (hd : exc.detail = .dict d) :
    (overrides exc.statusCode d).1 = .str code.text ↔ codeOf exc = some code := by
  rw [overrides_fst]
  unfold rowOf codeOf
  rw [hd]
  dsimp only
  cases hcode : pop d detailCodeKey with
  | null =>
    dsimp only
    rw [← ofValue_eq_some, ofValue_text]
  | _ => exact ofValue_eq_some.symm

/-- A retry delay can be read when it is none, or the detail's own can. -/
theorem overrides_retry (statusCode : Nat) (hint : ∀ n, validInt (.int n) = some n)
    {d : OrderedDict Str PyValue} :
    ((overrides statusCode d).2.2 = .null ∨
        ((overrides statusCode d).2.2 ≠ .null ∧
          ∃ n, validInt (overrides statusCode d).2.2 = some n)) ↔
      ∀ v, d.get detailRetryAfterKey = some v → v = .null ∨ (validInt v).isSome = true := by
  have hrow : (rowOf statusCode d).2.2 = .null ∨ ((rowOf statusCode d).2.2 ≠ .null ∧
      ∃ n, validInt (rowOf statusCode d).2.2 = some n) := by
    unfold rowOf
    dsimp only
    split
    · cases (defaultForStatus statusCode).2.2 with
      | none => exact .inl rfl
      | some n => exact .inr ⟨nofun, n, hint n⟩
    · exact .inl rfl
  unfold overrides
  dsimp only
  cases hget : d.get detailRetryAfterKey with
  | none => simpa using hrow
  | some v =>
    simp only [Option.some.injEq, forall_eq']
    cases v <;> simp [Option.isSome_iff_exists]

/-! ## What the handler answers -/

theorem messageOf_ok {d : OrderedDict Str PyValue} {code : ErrorCode} {message : PyValue} :
    messageOf d (.str code.text) = .ok message ↔
      ((pop d detailMessageKey).truthy = true ∧ message = pop d detailMessageKey) ∨
      ((pop d detailMessageKey).truthy = false ∧
        ∃ s, code.defaultMessage = some s ∧ message = .str s) := by
  unfold messageOf
  split
  · rename_i h
    rw [Py.pure_ok, h]
    simp [eq_comm]
  · rename_i h
    rw [Bool.not_eq_true] at h
    constructor
    · intro hm
      obtain ⟨s, hs, he⟩ := Py.bind_ok.mp hm
      obtain ⟨code', hcode, hs⟩ := defaultMessageFor_ok.mp hs
      have hsame := congrArg ErrorCode.ofValue hcode
      rw [ofValue_text, ofValue_text] at hsame
      cases hsame
      exact .inr ⟨h, s, hs, (Py.pure_ok.mp he).symm⟩
    · rintro (⟨htrue, -⟩ | ⟨-, s, hs, rfl⟩)
      · rw [h] at htrue
        cases htrue
      · exact Py.bind_ok.mpr ⟨s, defaultMessageFor_ok.mpr ⟨code, rfl, hs⟩, rfl⟩

theorem envelope_returns_iff (requestId : Option Str)
    (hint : ∀ n, validInt (.int n) = some n) :
    (∃ e, envelopeFromHttpException validInt exc requestId = .ok e) ↔
      Buildable validInt exc := by
  obtain ⟨statusCode, detail, headers⟩ := exc
  obtain ⟨default, hdefault⟩ := defaultMessageFor_status statusCode
  unfold envelopeFromHttpException Buildable
  cases detail with
  | none =>
    obtain ⟨e, he⟩ := buildEnvelope_status requestId hint statusCode default none
    simp only [iff_true]
    exact ⟨e, Py.bind_ok.mpr ⟨default, hdefault, he⟩⟩
  | other v =>
    obtain ⟨e, he⟩ := buildEnvelope_status requestId hint statusCode default
      (some [("raw".toList, v)])
    simp only [iff_true]
    exact ⟨e, Py.bind_ok.mpr ⟨default, hdefault, he⟩⟩
  | text s =>
    simp only [iff_true]
    obtain ⟨message, hmessage⟩ : ∃ message,
        textOf s (.str (defaultForStatus statusCode).1.text) = .ok message := by
      unfold textOf
      split
      · exact ⟨default, hdefault⟩
      · exact ⟨s, rfl⟩
    obtain ⟨e, he⟩ := buildEnvelope_status requestId hint statusCode message none
    exact ⟨e, Py.bind_ok.mpr ⟨message, hmessage, he⟩⟩
  | dict d =>
    have hcode : ∀ code : ErrorCode, (overrides statusCode d).1 = .str code.text ↔
        codeOf ⟨statusCode, .dict d, headers⟩ = some code := fun code =>
      @overrides_code ⟨statusCode, .dict d, headers⟩ d code rfl
    dsimp only
    constructor
    · intro ⟨e, h⟩
      obtain ⟨message, hmessage, he⟩ := Py.bind_ok.mp h
      have hbuilt := buildEnvelope_ok.mp he
      rw [hbuilt.code, messageOf_ok] at hmessage
      refine ⟨e.errorCode, (hcode _).mp hbuilt.code, fun htruthy => ?_, fun hfalsy => ?_, ?_⟩
      · rcases hmessage with ⟨-, hm⟩ | ⟨hfalse, -⟩
        · exact ⟨e.message, hm ▸ hbuilt.message⟩
        · rw [htruthy] at hfalse
          cases hfalse
      · rcases hmessage with ⟨htrue, -⟩ | ⟨-, s, hs, -⟩
        · rw [hfalsy] at htrue
          cases htrue
        · rw [hs]
          nofun
      · rw [← overrides_retry statusCode hint]
        exact hbuilt.retryAfter.imp And.left fun ⟨hne, n, hn, _⟩ => ⟨hne, n, hn⟩
    · intro ⟨code, hc, htruthy, hfalsy, hretry⟩
      obtain ⟨s, hs⟩ : ∃ s, messageOf d (overrides statusCode d).1 = .ok (.str s) := by
        rw [(hcode code).mpr hc]
        simp only [messageOf_ok]
        cases ht : (pop d detailMessageKey).truthy with
        | true =>
          obtain ⟨s, hs⟩ := htruthy ht
          exact ⟨s, .inl ⟨rfl, hs.symm⟩⟩
        | false =>
          obtain ⟨s, hs⟩ := Option.ne_none_iff_exists'.mp (hfalsy ht)
          exact ⟨s, .inr ⟨rfl, s, hs, rfl⟩⟩
      rw [← overrides_retry statusCode hint] at hretry
      obtain ⟨seconds, hseconds⟩ : ∃ seconds : Option Int,
          ((overrides statusCode d).2.2 = .null ∧ seconds = none) ∨
          ((overrides statusCode d).2.2 ≠ .null ∧
            ∃ n, validInt (overrides statusCode d).2.2 = some n ∧ seconds = some n) := by
        rcases hretry with h | ⟨hne, n, hn⟩
        · exact ⟨none, .inl ⟨h, rfl⟩⟩
        · exact ⟨some n, .inr ⟨hne, n, hn, rfl⟩⟩
      exact ⟨⟨code, s, _, seconds, requestId, restOf d⟩, Py.bind_ok.mpr ⟨_, hs,
        buildEnvelope_ok.mpr ⟨(hcode code).mpr hc, rfl, rfl, hseconds, rfl, rfl⟩⟩⟩

theorem sealed_of_envelope {e : ErrorResponse}
    (h : envelopeFromHttpException validInt exc requestId = .ok e) : Sealed requestId e := by
  unfold envelopeFromHttpException at h
  dsimp only at h
  split at h
  · rename_i d hd
    obtain ⟨message, -, he⟩ := Py.bind_ok.mp h
    have hbuilt := buildEnvelope_ok.mp he
    refine ⟨hbuilt.requestId, fun hsome => ?_, fun members hm member hmem => ?_⟩
    · rw [hbuilt.retrySafe]
      refine overrides_coherent fun hnull => ?_
      rcases hbuilt.retryAfter with ⟨-, hnone⟩ | ⟨hne, -⟩
      · rw [hnone] at hsome
        cases hsome
      · exact hne hnull
    · rw [hbuilt.detail] at hm
      unfold restOf at hm
      dsimp only at hm
      split at hm
      · cases hm
      · cases hm
        simpa using (List.mem_filter.mp hmem).2
  · obtain ⟨message, -, he⟩ := Py.bind_ok.mp h
    exact sealed_of_status (buildEnvelope_ok.mp he) nofun
  · obtain ⟨message, -, he⟩ := Py.bind_ok.mp h
    exact sealed_of_status (buildEnvelope_ok.mp he) nofun
  · obtain ⟨message, -, he⟩ := Py.bind_ok.mp h
    refine sealed_of_status (buildEnvelope_ok.mp he) ?_
    rintro _ ⟨⟩ member hmem
    rw [List.mem_singleton.mp hmem]
    show "raw".toList ∉ sentinels
    decide

theorem withHeader_sealed {headers : OrderedDict Str Str} {e : ErrorResponse}
    (h : Sealed requestId e) : Sealed requestId (withHeader headers e) := by
  unfold withHeader
  split
  · exact ⟨h.requestId, fun _ => rfl, h.detail⟩
  · exact h

/-- The headers of the exception stay, and the request id is there. -/
theorem responseHeaders_get {headers : OrderedDict Str Str} :
    (∀ name value, headers.get name = some value →
      (responseHeaders headers requestId).get name = some value) ∧
    (∀ i, requestId = some i →
      (responseHeaders headers requestId).get requestIdName =
        some ((headers.get requestIdName).getD i)) := by
  unfold responseHeaders
  split
  · rename_i i hnone
    refine ⟨fun name value hv => ?_, ?_⟩
    · rw [OrderedDict.get_set, if_neg]
      · exact hv
      · rintro rfl
        rw [hnone] at hv
        cases hv
    · rintro _ ⟨⟩
      rw [OrderedDict.get_set, if_pos rfl, hnone]
      rfl
  · rename_i hkeep
    refine ⟨fun _ _ hv => hv, ?_⟩
    rintro i rfl
    cases hget : headers.get requestIdName with
    | none => exact absurd rfl fun h => hkeep i h hget
    | some v => rfl

/-- What every error answer satisfies. -/
structure WellFormed (requestId : Option Str) (r : JsonResponse) : Prop where
  renders : r.renders = true
  sealed : Sealed requestId r.body
  requestId : ∀ i, requestId = some i → (r.headers.get requestIdName).isSome = true
  header : ∀ n, (r.headers.get retryAfterName).bind intOfText = some n →
    r.body.retryAfterSeconds = some n

theorem withHeader_header {headers : OrderedDict Str Str} {e : ErrorResponse} {n : Int}
    (h : (headers.get retryAfterName).bind intOfText = some n) :
    (withHeader headers e).retryAfterSeconds = some n := by
  unfold withHeader
  rw [h]

theorem wellFormed_headers {headers : OrderedDict Str Str} {i : Str} (h : requestId = some i) :
    ((responseHeaders headers requestId).get requestIdName).isSome = true := by
  rw [responseHeaders_get.2 i h]
  rfl

/-! ## What can be written -/

theorem rendered_ok {r r' : JsonResponse} : r.rendered = .ok r' ↔ r.renders = true ∧ r = r' := by
  unfold JsonResponse.rendered
  split
  · rename_i h
    simp [h]
  · rename_i h
    simp [h]

theorem headersWritable_iff {headers : OrderedDict Str Str} : headersWritable headers = true ↔
    ∀ name value, headers.get name = some value →
      nameWritable name = true ∧ isLatin1 value = true := by
  simp only [headersWritable, List.all_eq_true, Bool.and_eq_true, OrderedDict.get_eq_some]
  exact ⟨fun h name value hm => h (name, value) hm, fun h p hm => h p.1 p.2 hm⟩

/-- The request id is no obstacle. -/
theorem headersWritable_responseHeaders (hid : ∀ i, requestId = some i → isLatin1 i = true)
    {headers : OrderedDict Str Str} :
    headersWritable (responseHeaders headers requestId) = headersWritable headers := by
  rw [Bool.eq_iff_iff, headersWritable_iff, headersWritable_iff]
  constructor
  · exact fun h name value hv => h name value (responseHeaders_get.1 name value hv)
  · intro h name value hv
    unfold responseHeaders at hv
    split at hv
    · rw [OrderedDict.get_set] at hv
      split at hv
      · rename_i hname
        cases hv
        exact ⟨hname ▸ (by decide), hid value rfl⟩
      · exact h name value hv
    · exact h name value hv

@[simp] theorem withHeader_detail {headers : OrderedDict Str Str} {e : ErrorResponse} :
    (withHeader headers e).detail = e.detail := by
  unfold withHeader
  split <;> rfl

theorem restOf_dumpable {d : OrderedDict Str PyValue} :
    (restOf d).all PyValue.dumpableMembers = true ↔ (Detail.dict d).Dumpable := by
  have hall : PyValue.dumpableMembers (d.items.filter fun member => member.1 ∉ sentinels) = true ↔
      (Detail.dict d).Dumpable := by
    rw [PyValue.dumpableMembers_iff]
    simp only [List.mem_filter, decide_eq_true_eq, and_imp]
    rfl
  unfold restOf
  dsimp only
  split
  · rename_i hnil
    rw [← hall, hnil]
    exact ⟨fun _ => rfl, fun _ => rfl⟩
  · exact hall

/-- The envelope repeats the detail. -/
theorem envelope_dumpable {e : ErrorResponse}
    (h : envelopeFromHttpException validInt exc requestId = .ok e) :
    e.detail.all PyValue.dumpableMembers = true ↔ exc.detail.Dumpable := by
  unfold envelopeFromHttpException at h
  dsimp only at h
  split at h
  · rename_i d hd
    obtain ⟨message, -, he⟩ := Py.bind_ok.mp h
    rw [(buildEnvelope_ok.mp he).detail, hd, restOf_dumpable]
  · rename_i hd
    obtain ⟨message, -, he⟩ := Py.bind_ok.mp h
    rw [(buildEnvelope_ok.mp he).detail, hd]
    exact ⟨fun _ => trivial, fun _ => rfl⟩
  · rename_i hd
    obtain ⟨message, -, he⟩ := Py.bind_ok.mp h
    rw [(buildEnvelope_ok.mp he).detail, hd]
    exact ⟨fun _ => trivial, fun _ => rfl⟩
  · rename_i v hd
    obtain ⟨message, -, he⟩ := Py.bind_ok.mp h
    rw [(buildEnvelope_ok.mp he).detail, hd]
    simp [PyValue.dumpableMembers, Detail.Dumpable]

theorem httpExc_wellFormed {r : JsonResponse} (h : httpExc validInt exc requestId = .ok r) :
    WellFormed requestId r := by
  obtain ⟨e, he, h⟩ := Py.bind_ok.mp h
  obtain ⟨hrenders, rfl⟩ := rendered_ok.mp h
  exact ⟨hrenders, withHeader_sealed (sealed_of_envelope he), fun _ => wellFormed_headers,
    fun _ => withHeader_header⟩

/-- The answers that carry nothing of an exception but what went wrong. -/
theorem plain_wellFormed {status : Nat} {e : ErrorResponse} (h : Sealed requestId e)
    (hrenders : JsonResponse.renders ⟨status, responseHeaders .empty requestId, e⟩ = true) :
    WellFormed requestId ⟨status, responseHeaders .empty requestId, e⟩ := by
  refine ⟨hrenders, h, fun _ => wellFormed_headers, fun n hn => ?_⟩
  have hget : (responseHeaders .empty requestId).get retryAfterName = none := by
    unfold responseHeaders
    split
    · rw [OrderedDict.get_set, if_neg (by decide)]
      rfl
    · rfl
  dsimp only at hn
  rw [hget] at hn
  cases hn

/-- The last handler can always answer. -/
theorem genericExc_rendered (hid : ∀ i, requestId = some i → isLatin1 i = true) :
    (genericExc requestId).rendered = .ok (genericExc requestId) := by
  refine rendered_ok.mpr ⟨?_, rfl⟩
  rw [JsonResponse.renders, genericExc]
  dsimp only
  rw [headersWritable_responseHeaders hid]
  rfl

theorem genericExc_wellFormed (hid : ∀ i, requestId = some i → isLatin1 i = true) :
    WellFormed requestId (genericExc requestId) :=
  plain_wellFormed ⟨rfl, nofun, nofun⟩ (rendered_ok.mp (genericExc_rendered hid)).1

theorem validationExc_wellFormed {errors : PyValue} {r : JsonResponse}
    (h : validationExc errors requestId = .ok r) : WellFormed requestId r := by
  obtain ⟨hrenders, rfl⟩ := rendered_ok.mp h
  refine plain_wellFormed ⟨rfl, nofun, ?_⟩ hrenders
  rintro _ ⟨⟩ member hmem
  rw [List.mem_singleton.mp hmem]
  show "errors".toList ∉ sentinels
  decide

theorem httpExc_returns_iff (hint : ∀ n, validInt (.int n) = some n)
    (hid : ∀ i, requestId = some i → isLatin1 i = true) :
    (∃ r, httpExc validInt exc requestId = .ok r) ↔ Deliverable validInt exc := by
  have hrenders : ∀ e, envelopeFromHttpException validInt exc requestId = .ok e →
      ((JsonResponse.mk exc.statusCode (responseHeaders exc.headers requestId)
        (withHeader (responseHeaders exc.headers requestId) e)).renders = true ↔
          exc.detail.Dumpable ∧ headersWritable exc.headers = true) := by
    intro e he
    rw [JsonResponse.renders, Bool.and_eq_true, withHeader_detail, envelope_dumpable he,
      headersWritable_responseHeaders hid]
  constructor
  · intro ⟨r, h⟩
    obtain ⟨e, he, h⟩ := Py.bind_ok.mp h
    obtain ⟨hdump, hheaders⟩ := (hrenders e he).mp (rendered_ok.mp h).1
    exact ⟨(envelope_returns_iff requestId hint).mp ⟨e, he⟩, hdump, hheaders⟩
  · intro h
    obtain ⟨e, he⟩ := (envelope_returns_iff requestId hint).mpr h.buildable
    exact ⟨_, Py.bind_ok.mpr ⟨e, he,
      rendered_ok.mpr ⟨(hrenders e he).mpr ⟨h.dumpable, h.headers⟩, rfl⟩⟩⟩

/-- What does not validate is answered when its errors can be written. -/
theorem validationExc_returns_iff (hid : ∀ i, requestId = some i → isLatin1 i = true)
    {errors : PyValue} :
    (∃ r, validationExc errors requestId = .ok r) ↔ errors.dumpable = true := by
  have hrenders : (∃ r, validationExc errors requestId = .ok r) ↔
      (Option.all PyValue.dumpableMembers (some [("errors".toList, errors)]) &&
        headersWritable (responseHeaders .empty requestId)) = true := by
    constructor
    · exact fun ⟨r, h⟩ => (rendered_ok.mp h).1
    · exact fun h => ⟨_, rendered_ok.mpr ⟨h, rfl⟩⟩
  rw [hrenders, headersWritable_responseHeaders hid]
  simp [PyValue.dumpableMembers, headersWritable, OrderedDict.empty]

/-! ## What `raise_with_code` was given -/

theorem get_raised (statusCode : Nat) (code : ErrorCode) (message : Str) (retryAfter : Option Int)
    (headers : OrderedDict Str Str) (detail : OrderedDict Str PyValue) :
    ∃ d, (raiseWithCode statusCode code message retryAfter headers detail).detail = .dict d ∧
      d.get detailCodeKey = some (.str code.text) ∧ d.get detailMessageKey = some (.str message) ∧
      d.get detailRetryAfterKey = (retryAfter.map PyValue.int).or (detail.get detailRetryAfterKey) ∧
      ∀ key ∉ sentinels, d.get key = detail.get key := by
  have hne : detailCodeKey ≠ detailMessageKey ∧ detailCodeKey ≠ detailRetryAfterKey ∧
      detailMessageKey ≠ detailRetryAfterKey := by decide
  obtain ⟨h1, h2, h3⟩ := hne
  unfold raiseWithCode
  cases retryAfter with
  | none =>
    refine ⟨_, rfl, ?_, ?_, ?_, fun key hkey => ?_⟩
    · rw [OrderedDict.get_set, if_neg h1, OrderedDict.get_set, if_pos rfl]
    · rw [OrderedDict.get_set, if_pos rfl]
    · rw [OrderedDict.get_set, if_neg h3.symm, OrderedDict.get_set, if_neg h2.symm]
      rfl
    · simp only [sentinels, List.mem_cons, List.not_mem_nil, or_false, not_or] at hkey
      rw [OrderedDict.get_set, if_neg hkey.2.1, OrderedDict.get_set, if_neg hkey.1]
  | some n =>
    refine ⟨_, rfl, ?_, ?_, ?_, fun key hkey => ?_⟩
    · rw [OrderedDict.get_set, if_neg h2, OrderedDict.get_set, if_neg h1, OrderedDict.get_set,
        if_pos rfl]
    · rw [OrderedDict.get_set, if_neg h3, OrderedDict.get_set, if_pos rfl]
    · rw [OrderedDict.get_set, if_pos rfl]
      rfl
    · simp only [sentinels, List.mem_cons, List.not_mem_nil, or_false, not_or] at hkey
      rw [OrderedDict.get_set, if_neg hkey.2.2, OrderedDict.get_set, if_neg hkey.2.1,
        OrderedDict.get_set, if_neg hkey.1]

/-- The members of a detail apart from the sentinels. -/
theorem restOf_get {d : OrderedDict Str PyValue} {key : Str} (hkey : key ∉ sentinels) :
    lookupFirst ((restOf d).getD []) key = d.get key := by
  have hfilter : lookupFirst (d.items.filter fun member => member.1 ∉ sentinels) key =
      d.get key := by
    ext v
    unfold OrderedDict.get
    constructor
    · intro h
      exact lookup_of_mem d.nodup (List.mem_filter.mp (mem_of_lookup h)).1
    · intro h
      have hnodup : ((d.items.filter fun member => member.1 ∉ sentinels).map Prod.fst).Nodup :=
        d.nodup.sublist (List.filter_sublist.map Prod.fst)
      exact lookup_of_mem hnodup (List.mem_filter.mpr ⟨mem_of_lookup h, by simpa using hkey⟩)
  unfold restOf
  dsimp only
  split
  · rename_i hnil
    rw [hnil] at hfilter
    exact hfilter
  · exact hfilter

theorem responseHeaders_get_of_ne {headers : OrderedDict Str Str} {name : Str}
    (h : name ≠ requestIdName) : (responseHeaders headers requestId).get name = headers.get name := by
  unfold responseHeaders
  split
  · rw [OrderedDict.get_set, if_neg h]
  · rfl

/-- A delay that is in the header as well is the same, so the header changes nothing. -/
theorem withHeader_eq {headers : OrderedDict Str Str} {e : ErrorResponse}
    (hsafe : e.retrySafe = e.retryAfterSeconds.isSome)
    (hheader : ∀ n, (headers.get retryAfterName).bind intOfText = some n →
      e.retryAfterSeconds = some n) : withHeader headers e = e := by
  unfold withHeader
  split
  · rename_i n hn
    have hseconds := hheader n hn
    rw [hseconds] at hsafe
    obtain ⟨code, message, safe, seconds, id, detail⟩ := e
    dsimp only at hsafe hseconds
    rw [hsafe, hseconds]
    rfl
  · rfl

/-- The response to what `raise_with_code` raises, where the detail has no delay of its own and the
header no other. -/
theorem httpExc_raised (hint : ∀ n, validInt (.int n) = some n)
    (hid : ∀ i, requestId = some i → isLatin1 i = true) {statusCode : Nat}
    {code : ErrorCode} {message : Str} {retryAfter : Option Int} {headers : OrderedDict Str Str}
    {detail : OrderedDict Str PyValue} (hdump : (Detail.dict detail).Dumpable)
    (hwritable : headersWritable headers = true) (hmessage : message ≠ [])
    (hdetail : retryAfter = none → detail.get detailRetryAfterKey = none)
    (hheader : ∀ n, (headers.get retryAfterName).bind intOfText = some n → retryAfter = some n) :
    ∃ d, (∀ key ∉ sentinels, d.get key = detail.get key) ∧
      httpExc validInt (raiseWithCode statusCode code message retryAfter headers detail) requestId =
        .ok ⟨statusCode, responseHeaders headers requestId,
          ⟨code, message, retryAfter.isSome, retryAfter, requestId, restOf d⟩⟩ := by
  obtain ⟨d, hd, hcode, hm, hr, hother⟩ :=
    get_raised statusCode code message retryAfter headers detail
  have hrow : rowOf statusCode d = (.str code.text, false, .null) := by
    simp [rowOf, pop, hcode]
  have htext : messageOf d (.str code.text) = .ok (.str message) := by
    have hpop : pop d detailMessageKey = .str message := by simp [pop, hm]
    refine messageOf_ok.mpr (.inl ⟨?_, hpop.symm⟩)
    rw [hpop]
    simpa [PyValue.truthy] using hmessage
  have hoverrides : overrides statusCode d =
      (.str code.text, retryAfter.isSome, ofOption retryAfter) := by
    unfold overrides
    rw [hrow, hr]
    cases retryAfter with
    | none =>
      rw [hdetail rfl]
      rfl
    | some n => rfl
  have hbuilt : buildEnvelope validInt (.str code.text) (.str message) retryAfter.isSome
      (ofOption retryAfter) requestId (restOf d) =
      .ok ⟨code, message, retryAfter.isSome, retryAfter, requestId, restOf d⟩ := by
    refine buildEnvelope_ok.mpr ⟨rfl, rfl, rfl, ?_, rfl, rfl⟩
    cases retryAfter with
    | none => exact .inl ⟨rfl, rfl⟩
    | some n => exact .inr ⟨by simp [ofOption], n, hint n, rfl⟩
  have henvelope : envelopeFromHttpException validInt
      (raiseWithCode statusCode code message retryAfter headers detail) requestId =
      .ok ⟨code, message, retryAfter.isSome, retryAfter, requestId, restOf d⟩ := by
    unfold envelopeFromHttpException
    rw [hd]
    show (do
      let message ← messageOf d (overrides statusCode d).1
      buildEnvelope validInt (overrides statusCode d).1 message (overrides statusCode d).2.1
        (overrides statusCode d).2.2 requestId (restOf d)) = _
    rw [hoverrides]
    exact Py.bind_ok.mpr ⟨_, htext, hbuilt⟩
  have hkeep : withHeader (responseHeaders headers requestId)
      ⟨code, message, retryAfter.isSome, retryAfter, requestId, restOf d⟩ =
      ⟨code, message, retryAfter.isSome, retryAfter, requestId, restOf d⟩ := by
    refine withHeader_eq rfl fun n hn => hheader n ?_
    rwa [responseHeaders_get_of_ne (by decide)] at hn
  have hrest : (Detail.dict d).Dumpable := by
    intro member hmem hkey
    refine hdump member (OrderedDict.get_eq_some.mp ?_) hkey
    rw [← hother member.1 hkey]
    exact OrderedDict.get_eq_some.mpr hmem
  refine ⟨d, hother, Py.bind_ok.mpr ⟨_, henvelope, ?_⟩⟩
  show JsonResponse.rendered ⟨statusCode, responseHeaders headers requestId,
    withHeader (responseHeaders headers requestId) _⟩ = _
  rw [hkeep]
  refine rendered_ok.mpr ⟨?_, rfl⟩
  rw [JsonResponse.renders, Bool.and_eq_true, headersWritable_responseHeaders hid]
  exact ⟨restOf_dumpable.mpr hrest, hwritable⟩

theorem strip_eq_self {s : Str} (h : ∀ c ∈ s, isSpace c = false) : strip s = s := by
  obtain ⟨front, back, hs, hfront, hback⟩ := exists_strip s
  have hnil : ∀ t : Str, (∀ c ∈ t, c ∈ s) → (∀ c ∈ t, isSpace c = true) → t = [] := by
    intro t hsub hspace
    refine List.eq_nil_iff_forall_not_mem.mpr fun c hc => ?_
    have hfalse := h c (hsub c hc)
    rw [hspace c hc] at hfalse
    cases hfalse
  have hf : front = [] := hnil front (fun c hc => by rw [hs]; simp [hc]) hfront
  have hb : back = [] := hnil back (fun c hc => by rw [hs]; simp [hc]) hback
  rw [hf, hb, List.nil_append, List.append_nil] at hs
  exact hs.symm

/-- The number in a header is read back. -/
theorem intOfText_natStr (n : Nat) : intOfText (natStr n) = some (n : Int) := by
  have hdigit : ∀ c ∈ natStr n, c.isDigit = true := fun c hc =>
    Nat.isDigit_of_mem_toDigits (by decide) (by decide) hc
  have hstrip : strip (natStr n) = natStr n := by
    refine strip_eq_self fun c hc => ?_
    have h := hdigit c hc
    simp only [Char.isDigit, Bool.and_eq_true, decide_eq_true_eq, UInt32.le_iff_toNat_le,
      ge_iff_le] at h
    change 48 ≤ c.toNat ∧ c.toNat ≤ 57 at h
    simp [isSpace]
    omega
  have hvalue : digitsValue (natStr n) = some n := by
    have hunder : '_' ∉ natStr n := Nat.underscore_not_in_toDigits
    have hne : natStr n ≠ [] := Nat.toDigits_ne_nil
    unfold digitsValue
    rw [List.splitOn_eq_singleton hunder, if_pos]
    · rw [List.filter_eq_self.mpr fun c hc => by
        simpa using ne_of_mem_of_not_mem hc hunder]
      exact congrArg some Nat.ofDigitChars_ten_toDigits
    · simpa [hne] using hdigit
  unfold intOfText
  rw [hstrip]
  split
  · rename_i digits he
    have := hdigit '-' (by rw [he]; simp)
    exact absurd this (by decide)
  · rename_i digits he
    have := hdigit '+' (by rw [he]; simp)
    exact absurd this (by decide)
  · rw [hvalue]
    rfl

theorem isLatin1_natStr (n : Nat) : isLatin1 (natStr n) = true := by
  refine List.all_eq_true.mpr fun c hc => ?_
  have h : c.isDigit = true := Nat.isDigit_of_mem_toDigits (by decide) (by decide) hc
  simp only [Char.isDigit, Bool.and_eq_true, decide_eq_true_eq, UInt32.le_iff_toNat_le] at h
  change 48 ≤ c.toNat ∧ c.toNat ≤ 57 at h
  rw [decide_eq_true_eq]
  omega

/-! ## Every error -/

theorem respond_ok {r : JsonResponse} (h : httpExc validInt exc requestId = .ok r) :
    respond validInt requestId (.http exc) = r := by
  simp only [respond, h]

theorem respond_error {e : PyExc} (h : httpExc validInt exc requestId = .error e) :
    respond validInt requestId (.http exc) = genericExc requestId := by
  simp only [respond, h]

theorem respond_valid {errors : PyValue} {r : JsonResponse}
    (h : validationExc errors requestId = .ok r) :
    respond validInt requestId (.validation errors) = r := by
  simp only [respond, h]

theorem respond_invalid {errors : PyValue} {e : PyExc}
    (h : validationExc errors requestId = .error e) :
    respond validInt requestId (.validation errors) = genericExc requestId := by
  simp only [respond, h]

theorem respond_wellFormed (hid : ∀ i, requestId = some i → isLatin1 i = true)
    (raised : Raised) : WellFormed requestId (respond validInt requestId raised) := by
  cases raised with
  | http exc =>
    cases h : httpExc validInt exc requestId with
    | ok r => exact respond_ok h ▸ httpExc_wellFormed h
    | error e => exact respond_error h ▸ genericExc_wellFormed hid
  | validation errors =>
    cases h : validationExc errors requestId with
    | ok r => exact respond_valid h ▸ validationExc_wellFormed h
    | error e => exact respond_invalid h ▸ genericExc_wellFormed hid
  | other => exact genericExc_wellFormed hid

theorem respond_of_deliverable (hint : ∀ n, validInt (.int n) = some n)
    (hid : ∀ i, requestId = some i → isLatin1 i = true) (h : Deliverable validInt exc) :
    (respond validInt requestId (.http exc)).status = exc.statusCode ∧
      ∀ name value, exc.headers.get name = some value →
        (respond validInt requestId (.http exc)).headers.get name = some value := by
  obtain ⟨r, hr⟩ : ∃ r, httpExc validInt exc requestId = .ok r :=
    (httpExc_returns_iff hint hid).mpr h
  rw [respond_ok hr]
  obtain ⟨e, -, he⟩ := Py.bind_ok.mp hr
  rw [← (rendered_ok.mp he).2]
  exact ⟨rfl, responseHeaders_get.1⟩

theorem respond_of_not_deliverable (hint : ∀ n, validInt (.int n) = some n)
    (hid : ∀ i, requestId = some i → isLatin1 i = true) (h : ¬Deliverable validInt exc) :
    respond validInt requestId (.http exc) = genericExc requestId := by
  cases hr : httpExc validInt exc requestId with
  | ok r => exact absurd ((httpExc_returns_iff hint hid).mp ⟨r, hr⟩) h
  | error e => exact respond_error hr

/-- What does not validate keeps its errors, or is an internal error. -/
theorem respond_validation (hid : ∀ i, requestId = some i → isLatin1 i = true)
    (errors : PyValue) :
    (errors.dumpable = true →
      (respond validInt requestId (.validation errors)).status = 422 ∧
      (respond validInt requestId (.validation errors)).body.errorCode = .invalidRequest ∧
      (respond validInt requestId (.validation errors)).body.detail =
        some [("errors".toList, errors)]) ∧
    (¬errors.dumpable = true →
      respond validInt requestId (.validation errors) = genericExc requestId) := by
  constructor
  · intro hdump
    obtain ⟨r, hr⟩ := (validationExc_returns_iff hid).mpr hdump
    rw [respond_valid hr, ← (rendered_ok.mp hr).2]
    exact ⟨rfl, rfl, rfl⟩
  · intro hdump
    cases h : validationExc errors requestId with
    | ok r => exact absurd ((validationExc_returns_iff hid).mp ⟨r, h⟩) hdump
    | error e => exact respond_invalid h

end

/-! ## The exceptions of the routes -/

/-- What the API raises itself (dependencies.py, rate_limit.py, retrieval.py, answer.py). -/
inductive Site
  | database
  | generator
  | rateLimit (retry : Nat)
  | keyReuse
  | refusedQuery (text : Str)
  | limiterMissing

def retryAfterHeader (text : Str) : OrderedDict Str Str := .set .empty retryAfterName text

def Site.exception : Site → HttpException
  | .database =>
    raiseWithCode 503 .dbUnreachable
      "Database not configured; bind a Postgres service or set KILN_DATABASE_URL." (some 30)
      (retryAfterHeader "30") .empty
  | .generator =>
    raiseWithCode 503 .generatorUnavailable
      ("Generator not configured. Enable models.generator in config/models.yaml and set ".toList ++
        "KILN_GENERATOR_BASE_URL + KILN_GENERATOR_API_KEY to bring up /v1/answer.")
      none .empty .empty
  | .rateLimit retry =>
    raiseWithCode 429 .rateLimited "Rate limit exceeded." (some retry)
      (retryAfterHeader (natStr retry)) .empty
  | .keyReuse =>
    raiseWithCode 422 .idempotencyConflict "Idempotency-Key reuse with different body." none
      .empty .empty
  | .refusedQuery text => ⟨400, .text text, .empty⟩
  | .limiterMissing => ⟨500, .text "rate limiter not initialized", .empty⟩

/-- No site is lost in the handler: a text alone always has an envelope, and the sites that name a
code give a message with it. -/
theorem site_deliverable {validInt : PyValue → Option Int}
    (hint : ∀ n, validInt (.int n) = some n) (site : Site) :
    Deliverable validInt site.exception := by
  have hid : ∀ i, (none : Option Str) = some i → isLatin1 i = true := by simp
  have hempty : (Detail.dict .empty).Dumpable := fun member hmem => by cases hmem
  have hraised : ∀ statusCode code message retryAfter headers, message ≠ [] →
      headersWritable headers = true →
      (∀ n, (OrderedDict.get headers retryAfterName).bind intOfText = some n →
        retryAfter = some n) →
      Deliverable validInt (raiseWithCode statusCode code message retryAfter headers .empty) := by
    intro statusCode code message retryAfter headers hmessage hwritable hheader
    obtain ⟨d, -, hr⟩ := @httpExc_raised _ none hint hid statusCode code message retryAfter
      headers .empty hempty hwritable hmessage (fun _ => rfl) hheader
    exact (@httpExc_returns_iff _ _ none hint hid).mp ⟨_, hr⟩
  have hhas : ∀ text, (retryAfterHeader text).get retryAfterName = some text := fun text => by
    rw [retryAfterHeader, OrderedDict.get_set, if_pos rfl]
  have hwritten : ∀ text, isLatin1 text = true → headersWritable (retryAfterHeader text) = true := by
    intro text htext
    rw [headersWritable_iff]
    intro name value hv
    rw [retryAfterHeader, OrderedDict.get_set] at hv
    split at hv
    · rename_i hname
      cases hv
      exact ⟨hname ▸ (by decide), htext⟩
    · cases hv
  have hnone : ∀ retryAfter : Option Int, ∀ n,
      (OrderedDict.get .empty retryAfterName).bind intOfText = some n → retryAfter = some n := by
    intro retryAfter n hn
    cases hn
  cases site with
  | database =>
    rw [Site.exception]
    refine hraised _ _ _ _ _ (by simp) (hwritten _ (by decide)) fun n hn => ?_
    rw [hhas] at hn
    exact hn
  | generator =>
    rw [Site.exception]
    exact hraised _ _ _ _ _ (by simp) rfl (hnone none)
  | rateLimit retry =>
    rw [Site.exception]
    refine hraised _ _ _ _ _ (by simp) (hwritten _ (isLatin1_natStr retry)) fun n hn => ?_
    rw [hhas] at hn
    exact (intOfText_natStr retry).symm.trans hn
  | keyReuse =>
    rw [Site.exception]
    exact hraised _ _ _ _ _ (by simp) rfl (hnone none)
  | refusedQuery text => exact ⟨trivial, trivial, rfl⟩
  | limiterMissing => exact ⟨trivial, trivial, rfl⟩

/-- Integers, and nothing else. -/
def onlyInt : PyValue → Option Int
  | .int n => some n
  | _ => none

/-- **What was raised arrives.** The status, the headers, the code, the message, the delay and the
rest of the detail given to `raise_with_code` are those of the answer, and a retry is called safe
when a delay is given. -/
theorem raised_delivered (validInt : PyValue → Option Int)
    (hint : ∀ n, validInt (.int n) = some n) (requestId : Option Str)
    (hid : ∀ i, requestId = some i → isLatin1 i = true) (statusCode : Nat) (code : ErrorCode)
    (message : Str) (retryAfter : Option Int) (headers : OrderedDict Str Str)
    (detail : OrderedDict Str PyValue) (hdump : (Detail.dict detail).Dumpable)
    (hwritable : headersWritable headers = true) (hmessage : message ≠ [])
    (hdetail : retryAfter = none → detail.get detailRetryAfterKey = none)
    (hheader : ∀ n, (headers.get retryAfterName).bind intOfText = some n → retryAfter = some n) :
    ∃ r, respond validInt requestId
        (.http (raiseWithCode statusCode code message retryAfter headers detail)) = r ∧
      r.status = statusCode ∧
      (∀ name value, headers.get name = some value → r.headers.get name = some value) ∧
      r.body.errorCode = code ∧ r.body.message = message ∧
      r.body.retrySafe = retryAfter.isSome ∧ r.body.retryAfterSeconds = retryAfter ∧
      ∀ key ∉ sentinels, lookupFirst (r.body.detail.getD []) key = detail.get key := by
  obtain ⟨d, hother, hr⟩ := @httpExc_raised _ requestId hint hid statusCode code message retryAfter
    headers detail hdump hwritable hmessage hdetail hheader
  exact ⟨_, respond_ok hr, rfl, responseHeaders_get.1, rfl, rfl, rfl, rfl,
    fun key hkey => (restOf_get hkey).trans (hother key hkey)⟩

/-- The limiter says when to come again, and the client reads it. -/
theorem raised_delivered_rateLimit : ∃ r,
    respond onlyInt (some "r1") (.http (Site.rateLimit 7).exception) = r ∧ r.status = 429 ∧
      r.body.errorCode = .rateLimited ∧ r.body.retryAfterSeconds = some 7 := by
  have hid : ∀ i, some "r1".toList = some i → isLatin1 i = true := by
    rintro _ ⟨⟩
    decide
  obtain ⟨r, hr, hstatus, -, hcode, -, -, hretry, -⟩ :=
    raised_delivered onlyInt (fun _ => rfl) (some "r1") hid 429 .rateLimited
      "Rate limit exceeded." (some 7) (retryAfterHeader "7") .empty nofun (by decide) (by decide)
      nofun (fun n hn => by
        have hseven : (7 : Int) = n := Option.some.inj hn
        rw [hseven])
  exact ⟨r, hr, hstatus, hcode, hretry⟩

end KnowledgeKiln.L4.Errors
