import KnowledgeKiln.Core.Json
import KnowledgeKiln.Core.Url

/-!
# Requests, public paths and the bearer middleware (api/auth.py)

An ASGI scope, the URL the web framework rebuilds from it, the list of paths
that need no credential, and the middleware of `KILN_AUTH_MODE=bearer`.

The framework builds `request.url` as `scheme://host path?query` from the Host
header and the decoded path, and reads `request.url.path` back with `urlsplit`;
the router dispatches on `scope["path"]`. Which Host headers it takes, and what it
does with cookies and query strings, is a parameter (`Web`).

* `requestParts_ok`, `requestParts_path`: the path the middlewares look at, from
  the Host header and the path alone.
* `shownPath_of_clean`: it is the path of the scope when neither holds a
  delimiter.
* `bearerCall_forward`: why the bearer middleware lets a request through.
-/
namespace KnowledgeKiln.L4

open KnowledgeKiln.Core

inductive Scheme
  | http | https
  deriving DecidableEq

def Scheme.text : Scheme → Str
  | .http => "http"
  | .https => "https"

def Scheme.defaultPort : Scheme → Nat
  | .http => 80
  | .https => 443

/-- An ASGI connection scope. Header names are lower-case; header values and the query string
are bytes, each written as the character of its code. `requestId` is what the request-id
middleware left in the state. -/
structure Scope where
  type : Str := "http"
  method : Str := "GET"
  scheme : Scheme := .https
  path : Str
  queryString : Str := []
  headers : List (Str × Str) := []
  server : Option (Str × Nat) := none
  requestId : Option Str := none

/-- What the framework and the standard library do with the strings of a request. -/
structure Web where
  /-- The Host headers that `request.url` is built of; with any other it has the server's address. -/
  takesHost : Str → Bool
  /-- The authorities that `urlsplit` raises on. -/
  refusedNetloc : Str → Bool
  /-- `query_string.decode()` -/
  decodeQuery : Str → Py Str
  /-- The pairs of the Cookie headers. -/
  cookies : List Str → List (Str × Str)
  /-- The pairs of a query string. -/
  queryParams : Str → List (Str × Str)

/-- `request.headers.get(name)` -/
def Scope.header (scope : Scope) (name : Str) : Option Str := lookupFirst scope.headers name

/-- `request.cookies` -/
def Scope.cookies (web : Web) (scope : Scope) : List (Str × Str) :=
  web.cookies ((scope.headers.filter fun h => h.1 = "cookie".toList).map Prod.snd)

/-- `request.cookies.get(name)` -/
def Scope.cookie (web : Web) (scope : Scope) (name : Str) : Option Str :=
  lookupLast (scope.cookies web) name

/-- `request.query_params.get(name)` -/
def Scope.queryParam (web : Web) (scope : Scope) (name : Str) : Option Str :=
  lookupLast (web.queryParams scope.queryString) name

/-- The authority of `request.url`: the Host header, else the server's address. -/
def Scope.authority (web : Web) (scope : Scope) : Option Str :=
  match (scope.header "host").filter web.takesHost with
  | some host => some host
  | none => scope.server.map fun (host, port) =>
      if port = scope.scheme.defaultPort then host else host ++ ":" ++ natStr port

/-- `request.url` without its query. -/
def Scope.baseUrl (web : Web) (scope : Scope) : Str :=
  match scope.authority web with
  | some authority => scope.scheme.text ++ "://" ++ (authority ++ scope.path)
  | none => scope.path

/-- `str(request.url)` -/
def requestUrl (web : Web) (scope : Scope) : Py Str :=
  if scope.queryString = [] then .ok (scope.baseUrl web)
  else do
    let query ← web.decodeQuery scope.queryString
    pure (scope.baseUrl web ++ '?' :: query)

/-- The parts of `request.url`. -/
def requestParts (web : Web) (scope : Scope) : Py Url.SplitResult := do
  let url ← requestUrl web scope
  Url.urlsplit web.refusedNetloc url

/-! ## Public paths -/

/-- One component of `posixpath.normpath`; `comps` is kept in reverse. -/
def normStep (rooted : Bool) (comps : List Str) (comp : Str) : List Str :=
  if comp = [] ∨ comp = "." then comps
  else if comp ≠ ".." ∨ (rooted = false ∧ comps = []) ∨ comps.head? = some ".." then comp :: comps
  else comps.tail

/-- `posixpath.normpath(path)` -/
def normpath (path : Str) : Str :=
  if path = [] then "."
  else
    let slashes :=
      if !startsWith path "/" then 0
      else if startsWith path "//" && !startsWith path "///" then 2 else 1
    let comps := (path.splitOn '/').foldl (normStep (slashes != 0)) []
    let joined := List.replicate slashes '/' ++ join "/" comps.reverse
    if joined = [] then "." else joined

/-- `_PUBLIC_PATHS` (auth.py:72-74) -/
def publicPaths : List Str :=
  ["/healthz".toList, "/readyz".toList, "/version".toList, "/openapi.json".toList, "/docs".toList,
    "/redoc".toList]

/-- `_PUBLIC_PREFIXES` (auth.py:75) -/
def publicPrefixes : List Str := ["/static/".toList]

/-- Mirrors `_is_public` (auth.py:202-222). -/
def isPublic (path : Str) : Bool :=
  let normalized := normpath (if path = [] then "/" else path)
  if "..".toList ∈ normalized.splitOn '/' then false
  else if normalized ∈ publicPaths then true
  else publicPrefixes.any (startsWith normalized)

/-! ## Responses -/

/-- The fields of `ErrorResponse` the middlewares fill in. -/
structure ErrorResponse where
  errorCode : Str
  message : Str
  retrySafe : Bool
  requestId : Option Str

/-- What `URLSafeTimedSerializer.dumps` signs: a dictionary, and the time of signing. -/
structure Signed where
  content : JsonDict
  time : Nat

/-- `response.set_cookie(…)` of a signed value. -/
structure SetCookie where
  name : Str
  value : Signed
  maxAge : Nat
  httponly : Bool
  secure : Bool
  samesite : Str
  path : Str

structure Response where
  status : Nat
  location : Option Str := none
  envelope : Option ErrorResponse := none
  headers : List (Str × Str) := []
  setCookies : List SetCookie := []
  deletedCookies : List Str := []

/-- The `X-Request-ID` header of an error response. -/
def requestIdHeader (requestId : Option Str) : List (Str × Str) :=
  (requestId.map fun i => ("X-Request-ID".toList, i)).toList

/-- Mirrors `_unauthorized` (auth.py:275-296). -/
def unauthorized (requestId : Option Str) : Response :=
  { status := 401
    envelope := some
      { errorCode := "auth_required", message := "Authentication required.", retrySafe := false,
        requestId := requestId }
    headers := ("WWW-Authenticate".toList, "Bearer realm=\"kiln\"".toList) ::
      requestIdHeader requestId }

/-- Mirrors `_forbidden` (auth.py:299-328). -/
def forbidden (message : Str) (requestId : Option Str) : Response :=
  { status := 403
    envelope := some
      { errorCode := "auth_required", message := message, retrySafe := false,
        requestId := requestId }
    headers := requestIdHeader requestId }

/-- On what a middleware lets a request through. A user name is what it leaves in
`request.state.username`. -/
inductive Grant
  | notHttp
  | publicPath
  | bearer (username : Option Str)
  | session (username : Str)
  deriving DecidableEq

inductive Outcome
  | forward (grant : Grant)
  | respond (response : Response)

/-! ## The bearer middleware -/

/-- Mirrors `_authorized` (auth.py:259-272). -/
def authorized (scope : Scope) (expectedToken : Str) : Bool :=
  match scope.header "authorization" with
  | none => false
  | some header =>
    if header = [] then false
    else
      let (scheme, value) := partition header ' '
      if lower scheme ≠ "bearer" ∨ value = [] then false else value = expectedToken

/-- Mirrors `_BearerAuthMiddleware.__call__` (auth.py:238-256). -/
def bearerCall (web : Web) (expected : Str) (scope : Scope) : Py Outcome :=
  if scope.type ≠ "http" then .ok (.forward .notHttp)
  else do
    let url ← requestParts web scope
    if isPublic url.path then pure (.forward .publicPath)
    else if authorized scope expected = false then
      pure (.respond (unauthorized scope.requestId))
    else pure (.forward (.bearer none))

/-! ## The path that is shown -/

/-- Authority and rest of `request.url`, as `urlsplit` sees them. -/
def Scope.shown (web : Web) (scope : Scope) : Str × Str :=
  match scope.authority web with
  | some authority => Url.splitNetloc (Url.squeeze (authority ++ scope.path))
  | none => Url.split scope.path

/-- The path between the first `/`, `?` or `#` of Host and path, and the next `?` or `#`. -/
def Scope.shownPath (web : Web) (scope : Scope) : Str := Url.cutPath (scope.shown web).2

/-- The framework can rebuild the URL. -/
def Scope.Readable (web : Web) (scope : Scope) : Prop :=
  (scope.queryString = [] ∨ ∃ q, web.decodeQuery scope.queryString = .ok q) ∧
    web.refusedNetloc (scope.shown web).1 = false

theorem split_baseUrl (web : Web) (scope : Scope) :
    Url.split (scope.baseUrl web) = scope.shown web := by
  unfold Scope.baseUrl Scope.shown
  cases scope.authority web with
  | none => rfl
  | some authority => exact Url.split_authority (by cases scope.scheme <;> decide) _

/-- The URL is split when it is readable, and its path is the shown one, for every query. -/
theorem requestParts_ok {web : Web} {scope : Scope} :
    (∃ url, requestParts web scope = .ok url) ↔ scope.Readable web := by
  unfold requestParts requestUrl Scope.Readable
  by_cases hq : scope.queryString = []
  · simp [hq, Py.bind_ok, Url.urlsplit_ok, split_baseUrl]
  · simp only [hq, if_false, Py.bind_ok, Py.pure_ok, false_or]
    constructor
    · rintro ⟨url, _, ⟨q, hd, rfl⟩, hs⟩
      obtain ⟨q', h⟩ := Url.split_query (scope.baseUrl web) q
      have hr := Url.urlsplit_ok.mp ⟨url, hs⟩
      rw [h, split_baseUrl] at hr
      exact ⟨⟨q, hd⟩, hr⟩
    · rintro ⟨⟨q, hd⟩, hr⟩
      obtain ⟨q', h⟩ := Url.split_query (scope.baseUrl web) q
      obtain ⟨url, hs⟩ := Url.urlsplit_ok.mpr (by rw [h, split_baseUrl]; exact hr)
      exact ⟨url, _, ⟨q, hd, rfl⟩, hs⟩

theorem requestParts_path {web : Web} {scope : Scope} {url : Url.SplitResult}
    (h : requestParts web scope = .ok url) : url.path = scope.shownPath web := by
  unfold requestParts requestUrl at h
  unfold Scope.shownPath
  by_cases hq : scope.queryString = []
  · simp only [hq, if_true, Py.bind_ok, Except.ok.injEq] at h
    obtain ⟨_, rfl, hs⟩ := h
    rw [Url.urlsplit_path hs, split_baseUrl]
  · simp only [hq, if_false, Py.bind_ok, Py.pure_ok] at h
    obtain ⟨_, ⟨q, _, rfl⟩, hs⟩ := h
    obtain ⟨q', hq'⟩ := Url.split_query (scope.baseUrl web) q
    rw [Url.urlsplit_path hs, hq', Url.cutPath_query, split_baseUrl]

/-- Without delimiters in the authority, and without `?`, `#` and breaks in a rooted path, the
shown path is the path of the scope. -/
theorem shownPath_of_clean {web : Web} {scope : Scope} {authority : Str}
    (ha : scope.authority web = some authority) (hc : ∀ c ∈ authority, Url.endsAuthority c = false)
    (hp : ∀ c ∈ scope.path, c ∉ ['?', '#', '\t', '\r', '\n']) (hroot : scope.path.head? = some '/') :
    scope.shownPath web = scope.path := by
  have hkeep : Url.squeeze scope.path = scope.path := by
    refine List.filter_eq_self.mpr fun c h => ?_
    have := hp c h
    simp only [List.mem_cons, List.not_mem_nil, or_false, not_or] at this
    simp [this]
  have hauth : ∀ c ∈ Url.squeeze authority, (!Url.endsAuthority c) = true := fun c h => by
    simp [hc c (List.mem_of_mem_filter h)]
  obtain ⟨rest, hrest⟩ : ∃ rest, scope.path = '/' :: rest := by
    cases h : scope.path with
    | nil => simp [h] at hroot
    | cons c rest =>
      rw [h, List.head?_cons, Option.some.injEq] at hroot
      exact ⟨rest, by rw [hroot]⟩
  have hdrop : (scope.shown web).2 = scope.path := by
    simp only [Scope.shown, ha, Url.splitNetloc]
    rw [Url.squeeze_append, hkeep, List.dropWhile_append_of_pos hauth, hrest]
    rfl
  rw [Scope.shownPath, hdrop, Url.cutPath_eq]
  refine List.takeWhile_eq_self_iff.mpr fun c h => ?_
  have := hp c h
  simp only [List.mem_cons, List.not_mem_nil, or_false, not_or] at this
  simp [this]

/-- The bearer middleware forwards a request on a public shown path or with the token. -/
theorem bearerCall_forward {web : Web} {expected : Str} {scope : Scope} {g : Grant}
    (ht : scope.type = "http") : bearerCall web expected scope = .ok (.forward g) ↔
      scope.Readable web ∧ if isPublic (scope.shownPath web) then g = .publicPath
        else authorized scope expected = true ∧ g = .bearer none := by
  unfold bearerCall
  rw [if_neg (not_not.mpr ht)]
  rw [Py.bind_ok, ← requestParts_ok]
  constructor
  · rintro ⟨url, hu, h⟩
    rw [requestParts_path hu] at h
    refine ⟨⟨url, hu⟩, ?_⟩
    by_cases hp : isPublic (scope.shownPath web) = true
    · simp only [hp, if_true, Py.pure_ok, Outcome.forward.injEq] at h ⊢
      exact h.symm
    · cases ha : authorized scope expected <;> simp [hp, ha] at h ⊢
      exact h.symm
  · rintro ⟨⟨url, hu⟩, h⟩
    refine ⟨url, hu, ?_⟩
    rw [requestParts_path hu]
    by_cases hp : isPublic (scope.shownPath web) = true
    · simp only [hp, if_true] at h ⊢
      rw [h]
      rfl
    · rw [if_neg hp] at h ⊢
      simp [h]

end KnowledgeKiln.L4
