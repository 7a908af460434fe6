import KnowledgeKiln.L4Api.ErrorEnvelope
import KnowledgeKiln.L4Api.PublicPaths

/-!
# The middleware stack (api/app.py, api/request_id.py, api/csp.py, api/request_log.py)

`create_app` adds the authentication, the content security policy, the request id and the request
log, and the framework puts each one outside those before it. Innermost the handlers of
`HTTPException` and of invalid requests answer what a route raises; outside of everything the
framework answers what is left with the handler of `Exception`, and the server what that raises. The
routes are a parameter, and so is the UUID that a request without an id gets. Every scope is that of
an HTTP request; tracing and the framework's own `content-type` and `content-length` are left out.

* `setHeader_self`, `setDefault_self`: the two ways a middleware writes a header.
* `requestIdOf_plain`: the request id is short and has letters, digits and three signs only.
* `responses_stamped`: the id, the policy and the log line of every answer.
-/
namespace KnowledgeKiln.L4.App

open KnowledgeKiln.Core Idempotency

/-! ## Answers -/

/-- The body of an answer: what a route renders, or the answer of the authentication, or an
envelope. -/
inductive Content
  | page
  | auth (r : Response)
  | error (e : Errors.ErrorResponse)

/-- Header names are lower-case. -/
structure Reply where
  status : Nat
  headers : List (Str × Str)
  content : Content

/-- The request id in the body of an error. -/
def Content.requestId : Content → Option (Option Str)
  | .page => none
  | .auth r => r.envelope.map (·.requestId)
  | .error e => some e.requestId

def lowerNames (headers : List (Str × Str)) : List (Str × Str) :=
  headers.map fun h => (lower h.1, h.2)

def Reply.ofJson (r : Errors.JsonResponse) : Reply where
  status := r.status
  headers := lowerNames r.headers.items
  content := .error r.body

def Reply.ofAuth (r : Response) : Reply where
  status := r.status
  headers := lowerNames r.headers ++ (r.location.map fun l => ("location".toList, l)).toList
  content := .auth r

/-- `headers[name] = value`: the first one is replaced, and the others are dropped. -/
def setHeader (name value : Str) : List (Str × Str) → List (Str × Str)
  | [] => [(name, value)]
  | h :: headers =>
    if h.1 = name then (name, value) :: headers.filter (·.1 ≠ name)
    else h :: setHeader name value headers

/-- `headers.setdefault(name, value)` -/
def setDefault (name value : Str) (headers : List (Str × Str)) : List (Str × Str) :=
  if name ∈ headers.map Prod.fst then headers else headers ++ [(name, value)]

/-! ## The stack -/

/-- What a route does with a request. -/
inductive Handled
  | page (status : Nat) (headers : List (Str × Str))
  | raised (r : Errors.Raised)

/-- Who is let through, or the answer. -/
inductive Admission
  | admitted (username : Option Str)
  | refused (r : Response)
  | raised

def Grant.username : Grant → Option Str
  | .bearer username => username
  | .session username => some username
  | _ => none

def Admission.of : Py Outcome → Admission
  | .ok (.forward g) => .admitted (Grant.username g)
  | .ok (.respond r) => .refused r
  | .error _ => .raised

/-- `KILN_AUTH_MODE=none` has no middleware. -/
def authorize (web : Web) (w : World) (scope : Scope) : Option Mode → Admission
  | none => .admitted none
  | some mode => .of (mode.call web w scope)

/-- An application. `validInt` is what Pydantic reads an integer from. -/
structure Stack where
  web : Web
  w : World
  validInt : PyValue → Option Int
  auth : Option Mode
  /-- `KILN_CSP_REPORT_ONLY` -/
  cspReportOnly : Option Str
  routes : Scope → Option Str → Handled

/-- One line of the request log, without its duration. -/
structure Line where
  method : Str
  path : Str
  status : Nat
  deriving DecidableEq

/-- What is left of a request: `request.state.request_id`, the log, and the answer unless something
was raised. -/
structure Left where
  requestId : Option Str
  lines : List Line := []
  reply : Option Reply

def requestIdHeader : Str := "x-request-id"

/-- `_sanitize` (request_id.py:48-58) does what `sanitize_opaque_header` does. -/
def sanitize (value : Str) : Option Str := sanitizeOpaqueHeader (some value)

/-- The id of a request; `uuid` is the fresh one. -/
def requestIdOf (uuid : Str) (scope : Scope) : Str :=
  ((scope.header requestIdHeader).bind sanitize).getD uuid

def directives : List Str :=
  ["default-src 'self'".toList, "script-src 'self'".toList, "style-src 'self'".toList,
    "font-src 'self'".toList, "img-src 'self' data:".toList, "connect-src 'self'".toList,
    "frame-ancestors 'none'".toList, "base-uri 'self'".toList, "form-action 'self'".toList,
    "object-src 'none'".toList]

/-- Mirrors `build_policy` (csp.py:78-85). -/
def buildPolicy : Str := join "; " directives

/-- Mirrors `_is_report_only` (csp.py:88-96), of `KILN_CSP_REPORT_ONLY`. -/
def isReportOnly (raw : Option Str) : Bool :=
  lower (strip (raw.getD [])) ∈ ["1".toList, "true".toList, "yes".toList, "on".toList]

def policyHeaderName (reportOnly : Bool) : Str :=
  if reportOnly then "content-security-policy-report-only" else "content-security-policy"

/-- `_SKIP_PREFIXES` of the request log -/
def skipPrefixes : List Str := ["/healthz".toList, "/readyz".toList, "/static".toList]

namespace Stack

variable (stack : Stack)

def policyHeader : Str := policyHeaderName (isReportOnly stack.cspReportOnly)

/-- The handlers of `HTTPException` and of invalid requests; they can raise themselves. -/
def exceptionMiddleware (requestId : Option Str) : Handled → Option Reply
  | .page status headers => some ⟨status, headers, .page⟩
  | .raised (.http exc) => (Errors.httpExc stack.validInt exc requestId).toOption.map .ofJson
  | .raised (.validation errors) =>
    (Errors.validationExc errors requestId).toOption.map .ofJson
  | .raised .other => none

def authMiddleware (scope : Scope) : Option Reply :=
  match authorize stack.web stack.w scope stack.auth with
  | .admitted username => stack.exceptionMiddleware scope.requestId (stack.routes scope username)
  | .refused r => some (.ofAuth r)
  | .raised => none

/-- mirrors csp.py:110-120 -/
def csp (scope : Scope) : Option Reply :=
  (stack.authMiddleware scope).map fun r =>
    { r with headers := setDefault stack.policyHeader buildPolicy r.headers }

/-- mirrors request_id.py:72-88 -/
def requestId (uuid : Str) (scope : Scope) : Left :=
  let requestId := requestIdOf uuid scope
  { requestId := some requestId
    reply := (stack.csp { scope with requestId := some requestId }).map fun r =>
      { r with headers := setHeader requestIdHeader requestId r.headers } }

/-- mirrors request_log.py:39-69 -/
def logRequest (uuid : Str) (scope : Scope) : Left :=
  match requestParts stack.web scope with
  | .error _ => { requestId := scope.requestId, reply := none }
  | .ok url =>
    let left := stack.requestId uuid scope
    if skipPrefixes.any (startsWith url.path) then left
    else { left with lines :=
            [⟨scope.method, url.path, (left.reply.map Reply.status).getD 500⟩] }

/-- The handler of `Exception`; it logs the path. -/
def serverErrorMiddleware (uuid : Str) (scope : Scope) : Option Reply :=
  let left := stack.logRequest uuid scope
  match left.reply with
  | some r => some r
  | none =>
    match requestParts stack.web scope with
    | .ok _ => some (.ofJson (Errors.genericExc left.requestId))
    | .error _ => none

end Stack

/-! ## Headers -/

/-- The values of a header, in their order. -/
def valuesOf (headers : List (Str × Str)) (name : Str) : List Str :=
  (headers.filter (·.1 = name)).map Prod.snd

abbrev Reply.values (r : Reply) (name : Str) : List Str := valuesOf r.headers name

section
variable {name name' value : Str}

theorem setHeader_self : ∀ (headers : List (Str × Str)),
    valuesOf (setHeader name value headers) name = [value]
  | [] => by simp [setHeader, valuesOf]
  | h :: headers => by
    have ih := setHeader_self headers
    unfold setHeader
    split
    · simp [valuesOf, List.filter_filter]
    · rename_i hne
      rw [valuesOf, List.filter_cons_of_neg (by simpa using hne)]
      exact ih

theorem setHeader_other (hne : name' ≠ name) : ∀ (headers : List (Str × Str)),
    valuesOf (setHeader name value headers) name' = valuesOf headers name'
  | [] => by simp [setHeader, valuesOf, hne.symm]
  | h :: headers => by
    have ih := setHeader_other hne headers
    unfold setHeader
    split
    · rename_i he
      subst he
      have hskip : decide (h.1 = name') = false := by simpa using hne.symm
      simp only [valuesOf, List.filter_cons, hskip, Bool.false_eq_true, if_false,
        List.filter_filter]
      refine congrArg _ (List.filter_congr fun p _ => ?_)
      by_cases hp : p.1 = name' <;> simp [hp, hne]
    · simp only [valuesOf, List.filter_cons] at ih ⊢
      split
      · simp only [List.map_cons, ih]
      · exact ih

variable {headers : List (Str × Str)}

theorem valuesOf_eq_nil : valuesOf headers name = [] ↔ name ∉ headers.map Prod.fst := by
  simp only [valuesOf, List.map_eq_nil_iff, List.filter_eq_nil_iff, decide_eq_true_eq, List.mem_map,
    not_exists, not_and]

/-- A default is written where there is no value. -/
theorem setDefault_self : valuesOf (setDefault name value headers) name =
    if valuesOf headers name = [] then [value] else valuesOf headers name := by
  unfold setDefault
  by_cases h : name ∈ headers.map Prod.fst
  · rw [if_pos h, if_neg (valuesOf_eq_nil.not.mpr (not_not.mpr h))]
  · rw [if_neg h, if_pos (valuesOf_eq_nil.mpr h)]
    have hnil := valuesOf_eq_nil.mpr h
    simp only [valuesOf, List.map_eq_nil_iff] at hnil
    simp [valuesOf, hnil]

theorem setDefault_other (hne : name' ≠ name) :
    valuesOf (setDefault name value headers) name' = valuesOf headers name' := by
  unfold setDefault
  split
  · rfl
  · simp [valuesOf, hne.symm]

end

/-! ## The request id -/

/-- Letters, digits and three signs, not too many of them. -/
def PlainId (i : Str) : Prop :=
  i ≠ [] ∧ i.length ≤ headerMaxLen ∧ ∀ c ∈ i, isOpaqueChar c = true

section
variable {uuid i : Str} {scope : Scope}

theorem isOpaqueChar_range {c : Char} (h : isOpaqueChar c = true) :
    33 ≤ c.toNat ∧ c.toNat ≤ 126 := by
  simp only [isOpaqueChar, Char.isAlphanum, Char.isAlpha, Char.isUpper, Char.isLower,
    Char.isDigit, Bool.or_eq_true, Bool.and_eq_true, decide_eq_true_eq, UInt32.le_iff_toNat_le,
    ge_iff_le, beq_iff_eq] at h
  rcases h with ((((h | h) | h) | rfl) | rfl) | rfl
  · change 65 ≤ c.toNat ∧ c.toNat ≤ 90 at h
    omega
  · change 97 ≤ c.toNat ∧ c.toNat ≤ 122 at h
    omega
  · change 48 ≤ c.toNat ∧ c.toNat ≤ 57 at h
    omega
  · decide
  · decide
  · decide

theorem isSpace_of_isOpaqueChar {c : Char} (h : isOpaqueChar c = true) : isSpace c = false := by
  have hrange := isOpaqueChar_range h
  simp [isSpace]
  omega

theorem PlainId.isLatin1 (h : PlainId i) : Errors.isLatin1 i = true := by
  refine List.all_eq_true.mpr fun c hc => ?_
  have hrange := isOpaqueChar_range (h.2.2 c hc)
  simp only [decide_eq_true_eq]
  omega

/-- An id of this kind is left as it is. -/
theorem sanitize_of_plain (h : PlainId i) : sanitize i = some i := by
  obtain ⟨hne, hlen, hchars⟩ := h
  have hstrip : strip i = i :=
    Errors.strip_eq_self fun c hc => isSpace_of_isOpaqueChar (hchars c hc)
  have hscrub : (i.map fun c => if isOpaqueChar c then c else '_') = i := by
    refine (List.map_congr_left fun c hc => ?_).trans (List.map_id i)
    rw [if_pos (hchars c hc)]
    rfl
  simp only [sanitize, sanitizeOpaqueHeader, hstrip, if_neg hne, if_neg (not_lt.mpr hlen), hscrub]

theorem requestIdOf_plain (huuid : PlainId uuid) : PlainId (requestIdOf uuid scope) := by
  unfold requestIdOf
  cases h : (scope.header requestIdHeader).bind sanitize with
  | none => exact huuid
  | some i =>
    obtain ⟨value, -, hvalue⟩ := Option.bind_eq_some_iff.mp h
    exact sanitizeOpaqueHeader_wellFormed hvalue

theorem requestIdOf_echo (hheader : scope.header requestIdHeader = some i) (h : PlainId i) :
    requestIdOf uuid scope = i := by
  unfold requestIdOf
  rw [hheader, Option.bind_some, sanitize_of_plain h]
  rfl

end

/-! ## What the authentication says -/

/-- The answer names no other request. -/
def Names (requestId : Option Str) (r : Response) : Prop :=
  ∀ e, r.envelope = some e → e.requestId = requestId

section
variable {web : Web} {settings : OidcSettings} {signer : Signer} {w : World} {scope : Scope}
  {url : Url.SplitResult} {r : Response} {requestId : Option Str}

theorem unauthorized_names : Names requestId (unauthorized requestId) := fun _ h => by
  cases h
  rfl

theorem forbidden_names {message : Str} : Names requestId (forbidden message requestId) :=
  fun _ h => by
    cases h
    rfl

theorem rejection_names {rejection : Rejection} :
    Names requestId (rejection.response requestId) := by
  unfold Rejection.response
  split
  · exact forbidden_names
  · exact unauthorized_names

theorem handleLogin_names (h : handleLogin web settings w scope url = .ok r) :
    Names scope.requestId r := by
  obtain ⟨discovery, -, h⟩ := Py.bind_ok.mp h
  split at h
  · rw [← Py.pure_ok.mp h]
    exact unauthorized_names
  · rw [← Py.pure_ok.mp h]
    exact nofun

theorem handleCallback_names (h : handleCallback web settings signer w scope url = .ok r) :
    Names scope.requestId r := by
  obtain ⟨checked, -, h⟩ := Py.bind_ok.mp h
  split at h
  · rw [← Py.pure_ok.mp h]
    exact rejection_names
  · obtain ⟨exchanged, -, h⟩ := Py.bind_ok.mp h
    split at h
    · rw [← Py.pure_ok.mp h]
      exact rejection_names
    · obtain ⟨next, -, h⟩ := Py.bind_ok.mp h
      rw [← Py.pure_ok.mp h]
      exact nofun

theorem checkIdentity_names (h : checkIdentity web settings signer w scope url = .ok (.respond r)) :
    Names scope.requestId r := by
  unfold checkIdentity at h
  split at h
  · obtain ⟨result, -, h⟩ := Py.bind_ok.mp h
    split at h
    · cases Py.pure_ok.mp h
      exact unauthorized_names
    · cases Py.pure_ok.mp h
      exact forbidden_names
    · cases Py.pure_ok.mp h
  · split at h
    · cases h
    · split at h
      · cases h
        exact nofun
      · cases h
        exact unauthorized_names

theorem oidcCall_names (h : oidcCall web settings signer w scope = .ok (.respond r)) :
    Names scope.requestId r := by
  unfold oidcCall at h
  split at h
  · cases h
  · obtain ⟨url, -, h⟩ := Py.bind_ok.mp h
    split at h
    · cases Py.pure_ok.mp h
    · split at h
      · obtain ⟨r', hr, he⟩ := map_respond_ok.mp h
        cases he
        exact handleLogin_names hr
      · split at h
        · obtain ⟨r', hr, he⟩ := map_respond_ok.mp h
          cases he
          exact handleCallback_names hr
        · split at h
          · obtain ⟨r', hr, he⟩ := map_respond_ok.mp h
            cases he
            obtain ⟨discovery, -, hr⟩ := Py.bind_ok.mp hr
            rw [← Py.pure_ok.mp hr]
            exact nofun
          · exact checkIdentity_names h

theorem bearerCall_names {expectedToken : Str}
    (h : bearerCall web expectedToken scope = .ok (.respond r)) : Names scope.requestId r := by
  unfold bearerCall at h
  split at h
  · cases h
  · obtain ⟨url, -, h⟩ := Py.bind_ok.mp h
    split at h
    · cases Py.pure_ok.mp h
    · split at h
      · cases Py.pure_ok.mp h
        exact unauthorized_names
      · cases Py.pure_ok.mp h

theorem admission_refused {o : Py Outcome} (h : Admission.of o = .refused r) :
    o = .ok (.respond r) := by
  unfold Admission.of at h
  split at h
  · cases h
  · cases h
    rfl
  · cases h

theorem authorize_names {auth : Option Mode} (h : authorize web w scope auth = .refused r) :
    Names scope.requestId r := by
  cases auth with
  | none => cases h
  | some mode =>
    have hcall := admission_refused h
    cases mode with
    | bearer expectedToken => exact bearerCall_names hcall
    | oidc settings signer => exact oidcCall_names hcall

end

/-! ## Every answer -/

namespace Stack

variable (stack : Stack)

/-- The request with its id in the state. -/
def stamp (uuid : Str) (scope : Scope) : Scope :=
  { scope with requestId := some (requestIdOf uuid scope) }

/-- What the inner handlers have an answer to. -/
def Answerable : Errors.Raised → Prop
  | .http exc => Errors.Deliverable stack.validInt exc
  | .validation errors => errors.dumpable = true
  | .other => False

/-- Left to the handler of `Exception`: the authentication raises, or a route raises what the other
handlers have no answer to. -/
def Unhandled (scope : Scope) : Prop :=
  match authorize stack.web stack.w scope stack.auth with
  | .admitted username => ∃ r, stack.routes scope username = .raised r ∧ ¬stack.Answerable r
  | .refused _ => False
  | .raised => True

/-- The answer to a request whose URL can be read. -/
def answer (uuid : Str) (scope : Scope) : Reply :=
  match stack.authMiddleware (stamp uuid scope) with
  | some r => { r with headers := setHeader requestIdHeader (requestIdOf uuid scope)
                        (setDefault stack.policyHeader buildPolicy r.headers) }
  | none => .ofJson (Errors.genericExc (some (requestIdOf uuid scope)))

/-- What the id, the policy and the log make of an answer. -/
structure Stamped (uuid : Str) (scope : Scope) (reply : Reply) (lines : List Line) : Prop where
  /-- one id, in the header and in the body of an error -/
  id : reply.values requestIdHeader = [requestIdOf uuid scope]
  body : ∀ i, reply.content.requestId = some i → i = some (requestIdOf uuid scope)
  /-- the policy is missing from the answers of the last handler, and from no others -/
  policy : reply.values stack.policyHeader = [] ↔ stack.Unhandled (stamp uuid scope)
  /-- what a route renders is not changed otherwise -/
  page : ∀ username status headers,
    authorize stack.web stack.w (stamp uuid scope) stack.auth = .admitted username →
    stack.routes (stamp uuid scope) username = .page status headers →
    reply.status = status ∧ ∀ name, name ≠ requestIdHeader → name ≠ stack.policyHeader →
      reply.values name = valuesOf headers name
  /-- what a route raises is answered by the handlers -/
  error : ∀ username r,
    authorize stack.web stack.w (stamp uuid scope) stack.auth = .admitted username →
    stack.routes (stamp uuid scope) username = .raised r →
    reply.status = (Errors.respond stack.validInt (some (requestIdOf uuid scope)) r).status ∧
      reply.content =
        .error (Errors.respond stack.validInt (some (requestIdOf uuid scope)) r).body
  /-- one line for each request outside the probes, with the status that was sent -/
  log : lines = if skipPrefixes.any (startsWith (scope.shownPath stack.web)) then []
    else [⟨scope.method, scope.shownPath stack.web, reply.status⟩]

variable {stack} {uuid : Str} {scope : Scope}

/-- A handler answers, or leaves its exception to the last one. -/
theorem handler_answers {p : Prop} {x : Py Errors.JsonResponse} (hiff : (∃ r, x = .ok r) ↔ p) :
    (∃ r, x = .ok r ∧ p ∧ x.toOption.map Reply.ofJson = some (.ofJson r)) ∨
      ∃ e, x = .error e ∧ ¬p ∧ x.toOption.map Reply.ofJson = none := by
  cases x with
  | ok r => exact .inl ⟨r, rfl, hiff.mp ⟨r, rfl⟩, rfl⟩
  | error e =>
    refine .inr ⟨e, rfl, fun hp => ?_, rfl⟩
    obtain ⟨r, hr⟩ := hiff.mpr hp
    cases hr

/-- What is raised is answered inside, or left to the last handler. -/
theorem exceptionMiddleware_raised (hint : ∀ n, stack.validInt (.int n) = some n)
    {requestId : Option Str} (hid : ∀ i, requestId = some i → Errors.isLatin1 i = true)
    (r : Errors.Raised) :
    (stack.Answerable r ∧ stack.exceptionMiddleware requestId (.raised r) =
      some (.ofJson (Errors.respond stack.validInt requestId r))) ∨
    (¬stack.Answerable r ∧ stack.exceptionMiddleware requestId (.raised r) = none ∧
      Errors.respond stack.validInt requestId r = Errors.genericExc requestId) := by
  cases r with
  | other => exact .inr ⟨id, rfl, rfl⟩
  | validation errors =>
    rcases handler_answers (@Errors.validationExc_returns_iff requestId hid errors) with
      ⟨response, h, hp, he⟩ | ⟨e, h, hp, he⟩
    · rw [Errors.respond_valid h]
      exact .inl ⟨hp, he⟩
    · exact .inr ⟨hp, he, Errors.respond_invalid h⟩
  | http exc =>
    rcases handler_answers (@Errors.httpExc_returns_iff _ exc requestId hint hid) with
      ⟨response, h, hp, he⟩ | ⟨e, h, hp, he⟩
    · rw [Errors.respond_ok h]
      exact .inl ⟨hp, he⟩
    · exact .inr ⟨hp, he, Errors.respond_error h⟩

theorem authMiddleware_eq_none (hint : ∀ n, stack.validInt (.int n) = some n)
    (hid : ∀ i, scope.requestId = some i → Errors.isLatin1 i = true) :
    stack.authMiddleware scope = none ↔ stack.Unhandled scope := by
  unfold authMiddleware Unhandled
  cases authorize stack.web stack.w scope stack.auth with
  | refused r => simp
  | raised => simp
  | admitted username =>
    dsimp only
    cases hroute : stack.routes scope username with
    | page status headers => simp [exceptionMiddleware]
    | raised r =>
      rcases exceptionMiddleware_raised hint hid r with ⟨h, he⟩ | ⟨h, he, -⟩
      · rw [he]
        simp [h]
      · rw [he]
        simp [h]

theorem authMiddleware_names (hint : ∀ n, stack.validInt (.int n) = some n)
    (hid : ∀ i, scope.requestId = some i → Errors.isLatin1 i = true) {r : Reply}
    (h : stack.authMiddleware scope = some r) {i : Option Str}
    (hi : r.content.requestId = some i) : i = scope.requestId := by
  unfold authMiddleware at h
  split at h
  · rename_i username _
    cases hroute : stack.routes scope username with
    | page status headers =>
      rw [hroute] at h
      cases h
      cases hi
    | raised e =>
      rw [hroute] at h
      rcases exceptionMiddleware_raised hint hid e with ⟨-, he⟩ | ⟨-, he, -⟩
      · rw [he] at h
        cases h
        cases hi
        exact (Errors.respond_wellFormed hid e).sealed.requestId
      · rw [he] at h
        cases h
  · rename_i refused hadmit
    cases h
    obtain ⟨e, he, rfl⟩ := Option.map_eq_some_iff.mp hi
    exact authorize_names hadmit e he
  · cases h

theorem requestIdHeader_ne_policyHeader : requestIdHeader ≠ stack.policyHeader := by
  unfold policyHeader
  cases isReportOnly stack.cspReportOnly <;> decide

theorem genericExc_values {i name : Str} :
    (Reply.ofJson (Errors.genericExc (some i))).values name =
      if name = requestIdHeader then [i] else [] := by
  have hheaders : (Reply.ofJson (Errors.genericExc (some i))).headers = [(requestIdHeader, i)] :=
    rfl
  unfold Reply.values
  rw [hheaders]
  by_cases h : name = requestIdHeader
  · simp [valuesOf, h]
  · simp [valuesOf, h, Ne.symm h]

theorem answer_stamped (hint : ∀ n, stack.validInt (.int n) = some n) (huuid : PlainId uuid) :
    stack.Stamped uuid scope (stack.answer uuid scope)
      (if skipPrefixes.any (startsWith (scope.shownPath stack.web)) then []
        else [⟨scope.method, scope.shownPath stack.web, (stack.answer uuid scope).status⟩]) := by
  have hne := @requestIdHeader_ne_policyHeader stack
  have hid : ∀ i, (stamp uuid scope).requestId = some i → Errors.isLatin1 i = true := by
    intro i hi
    cases hi
    exact (requestIdOf_plain huuid).isLatin1
  unfold answer
  cases h : stack.authMiddleware (stamp uuid scope) with
  | none =>
    refine ⟨?_, ?_, ?_, fun username status headers hadmit hroute => ?_,
      fun username r hadmit hroute => ?_, rfl⟩
    · exact genericExc_values
    · rintro i hi
      cases hi
      rfl
    · simp only [genericExc_values, if_neg hne.symm, true_iff]
      exact (authMiddleware_eq_none hint hid).mp h
    · simp [authMiddleware, hadmit, hroute, exceptionMiddleware] at h
    · simp only [authMiddleware, hadmit, hroute] at h
      rcases exceptionMiddleware_raised hint hid r with
        ⟨-, he⟩ | ⟨-, -, he⟩
      · rw [he] at h
        cases h
      · exact ⟨(congrArg Errors.JsonResponse.status he).symm,
          congrArg (fun j => Content.error (Errors.JsonResponse.body j)) he.symm⟩
  | some r =>
    refine ⟨setHeader_self _, fun i hi => authMiddleware_names hint hid h hi, ?_,
      fun username status headers hadmit hroute => ?_, fun username e hadmit hroute => ?_, rfl⟩
    · dsimp only [Reply.values]
      rw [setHeader_other hne.symm, setDefault_self, ← authMiddleware_eq_none hint hid, h]
      simp only [reduceCtorEq, iff_false]
      split
      · exact nofun
      · assumption
    · simp only [authMiddleware, hadmit, hroute, exceptionMiddleware, Option.some.injEq] at h
      rw [← h]
      refine ⟨rfl, fun name hid hpolicy => ?_⟩
      dsimp only [Reply.values]
      rw [setHeader_other hid, setDefault_other hpolicy]
    · simp only [authMiddleware, hadmit, hroute] at h
      rcases exceptionMiddleware_raised hint hid e with
        ⟨-, he⟩ | ⟨-, he, -⟩
      · rw [he] at h
        cases h
        exact ⟨rfl, rfl⟩
      · rw [he] at h
        cases h

/-- The stack is the answer and the log, for a URL that can be read. -/
theorem serve_readable (h : scope.Readable stack.web) :
    stack.serverErrorMiddleware uuid scope = some (stack.answer uuid scope) ∧
      (stack.logRequest uuid scope).lines =
        if skipPrefixes.any (startsWith (scope.shownPath stack.web)) then []
        else [⟨scope.method, scope.shownPath stack.web, (stack.answer uuid scope).status⟩] := by
  obtain ⟨url, hurl⟩ := requestParts_ok.mpr h
  have hpath := requestParts_path hurl
  have hcsp : stack.requestId uuid scope =
      { requestId := some (requestIdOf uuid scope)
        reply := (stack.csp (stamp uuid scope)).map fun r =>
          { r with headers :=
              setHeader requestIdHeader (requestIdOf uuid scope) r.headers } } := rfl
  have hlog : stack.logRequest uuid scope =
      { stack.requestId uuid scope with
        lines := if skipPrefixes.any (startsWith (scope.shownPath stack.web)) then [] else
          [⟨scope.method, scope.shownPath stack.web,
            ((stack.requestId uuid scope).reply.map Reply.status).getD 500⟩] } := by
    unfold logRequest
    rw [hurl]
    dsimp only
    rw [hpath]
    split
    · rfl
    · rfl
  unfold serverErrorMiddleware answer
  rw [hlog, hcsp, hurl]
  unfold csp
  cases stack.authMiddleware (stamp uuid scope) with
  | none => exact ⟨rfl, rfl⟩
  | some r => exact ⟨rfl, rfl⟩

theorem serve_unreadable (h : ¬scope.Readable stack.web) :
    stack.serverErrorMiddleware uuid scope = none ∧ (stack.logRequest uuid scope).lines = [] := by
  cases hurl : requestParts stack.web scope with
  | ok url => exact absurd (requestParts_ok.mp ⟨url, hurl⟩) h
  | error e =>
    unfold serverErrorMiddleware logRequest
    rw [hurl]
    exact ⟨rfl, rfl⟩

end Stack

/-- A route that fails, behind no authentication. -/
def failing : Stack where
  web := plainWeb
  w := idleWorld
  validInt := Errors.onlyInt
  auth := .none
  cspReportOnly := none
  routes _ _ := .raised .other

/-- A request with a break in its id. -/
def brokenId : Scope where
  method := "POST"
  path := "/v1/search"
  headers := [("host".toList, "kiln".toList), (requestIdHeader, "a\nb".toList)]

end KnowledgeKiln.L4.App
