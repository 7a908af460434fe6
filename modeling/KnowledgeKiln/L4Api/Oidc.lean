import KnowledgeKiln.L4Api.Auth

/-!
# The OIDC middleware (api/auth.py)

`OIDCAuthMiddleware`: the login redirect, the callback that turns an
authorization code into a session cookie, logout, and the check of every other
request. Both cookies are signed by one serializer under one salt.

What lies outside the repository in one request (clock, random tokens, the
issuer's answers) is a `World`; nothing ties the worlds of two requests
together, so the caches of discovery document and keys need no state. The
serializer is seen from its reading side (`Signer`).

* `loads_ok`: what a successful `loads` says about a cookie.
* `handleCallback_sets`: the conditions under which the callback sets a
  cookie, and what it signs.
* `oidcCall_forward`: why the middleware lets a request through.
-/
namespace KnowledgeKiln.L4

open KnowledgeKiln.Core

/-- The settings `_configure_oidc` requires or passes on (auth.py:147-199). -/
structure OidcSettings where
  issuer : Str
  clientId : Str
  clientSecret : Str
  audience : Option Str := none
  requiredGroups : Option Str := none
  usernameClaim : Str := "preferred_username"
  allowBearerFallback : Bool := false
  bearerToken : Option Str := none
  redirectPath : Str := "/auth/callback"

/-- Mirrors `oidc_required_groups_list` (settings.py:223-232). -/
def OidcSettings.requiredGroupsList (settings : OidcSettings) : List Str :=
  (((settings.requiredGroups.getD []).splitOn ',').map strip).filter (· ≠ [])

/-- The members of the discovery document the middleware reads. -/
structure Discovery where
  issuer : Option Str := none
  authorizationEndpoint : Option Str := none
  tokenEndpoint : Option Str := none
  endSessionEndpoint : Option Str := none

/-- The token endpoint's answer; `idToken` is `resp.json().get("id_token")`. -/
structure TokenResponse where
  statusCode : Nat
  idToken : Py (Option Str)

structure ClaimsOptions where
  iss : Str
  aud : Str

/-- What one request meets outside the repository. -/
structure World where
  /-- The clock while the request is checked, and when a callback signs its session. -/
  now : Nat
  later : Nat
  /-- `secrets.token_urlsafe(24)` and `secrets.token_urlsafe(48)` -/
  state : Str
  codeVerifier : Str
  discovery : Py Discovery
  postToken : Str → List (Str × Str) → Py TokenResponse
  /-- `jwt.decode(token, key_set)` with the six asymmetric algorithms; `none` for a `JoseError`. -/
  decodeJwt : Str → Py (Option JsonDict)
  /-- `claims.validate(…)` at this moment, for the required issuer and audience and an expiry. -/
  validClaims : ClaimsOptions → JsonDict → Bool
  /-- `urlencode(params)` and the base64 of a SHA-256 digest. -/
  urlencode : List (Str × Str) → Str
  s256 : Str → Str

/-- `x or None` for an optional string. -/
def truthy (s : Option Str) : Option Str := s.filter (· ≠ [])

theorem truthy_eq_some {s : Option Str} {x : Str} : truthy s = some x ↔ s = some x ∧ x ≠ [] := by
  unfold truthy
  cases s <;> simp

/-! ## Signed cookies -/

/-- `_SESSION_COOKIE`, `_SESSION_TTL_SECONDS`, `_STATE_COOKIE`, `_STATE_TTL_SECONDS` -/
def sessionCookie : Str := "kiln_session"
def sessionTtlSeconds : Nat := 8 * 3600
def stateCookie : Str := "kiln_oidc_state"
def stateTtlSeconds : Nat := 600

/-- The reading side of the serializer: what a string signs, if its signature is good. -/
structure Signer where
  unsign : Str → Option Signed

inductive LoadError
  | signatureExpired | badSignature

/-- `serializer.loads(signed, max_age=maxAge)` -/
def Signer.loads (signer : Signer) (signed : Str) (maxAge now : Nat) : Except LoadError JsonDict :=
  match signer.unsign signed with
  | none => .error .badSignature
  | some v =>
    if now < v.time ∨ maxAge < now - v.time then .error .signatureExpired else .ok v.content

theorem loads_ok {signer : Signer} {signed : Str} {maxAge now : Nat} {stash : JsonDict}
    (h : signer.loads signed maxAge now = .ok stash) :
    ∃ time, signer.unsign signed = some ⟨stash, time⟩ ∧ time ≤ now ∧ now ≤ time + maxAge := by
  unfold Signer.loads at h
  cases hu : signer.unsign signed with
  | none => simp [hu] at h
  | some v =>
    simp only [hu] at h
    split at h
    · cases h
    · rename_i ht
      cases h
      exact ⟨v.time, rfl, by omega, by omega⟩

/-! ## Tokens -/

/-- Mirrors `_validate_jwt` (auth.py:553-602); `none` is a `_JWTValidationError`. -/
def validateJwt (settings : OidcSettings) (w : World) (token : Str) : Py (Option JsonDict) := do
  match ← w.decodeJwt token with
  | none => pure none
  | some claims =>
    let discovery ← w.discovery
    let options :=
      { iss := (truthy discovery.issuer).getD settings.issuer
        aud := (truthy settings.audience).getD settings.clientId }
    pure (if w.validClaims options claims then some claims else none)

/-- Mirrors `_has_required_group` (auth.py:855-868). -/
def hasRequiredGroup (claims : JsonDict) (required : List Str) : Bool :=
  if required = [] then true
  else match claims.get "groups" with
    | some (.arr groups) =>
      required.any fun g => groups.any fun
        | .str s => s = g
        | _ => false
    | _ => false

inductive BearerResult
  | invalid
  | forbidden
  | accepted (username : Option Str)

/-- Mirrors `_validate_bearer` (auth.py:505-551). -/
def validateBearer (settings : OidcSettings) (w : World) (authorization : Str) :
    Py BearerResult :=
  let (scheme, value) := partition authorization ' '
  if lower scheme ≠ "bearer" ∨ value = [] then .ok .invalid
  else if settings.allowBearerFallback ∧ truthy settings.bearerToken = some value then
    .ok (.accepted none)
  else do
    match ← validateJwt settings w value with
    | none => pure .invalid
    | some claims =>
      if hasRequiredGroup claims settings.requiredGroupsList = false then pure .forbidden
      else pure (.accepted (some ((claims.getStr settings.usernameClaim).getD [])))

/-! ## The handshake -/

/-- Mirrors `_absolute_redirect_uri` (auth.py:886-894). -/
def absoluteRedirectUri (scope : Scope) (url : Url.SplitResult) (path : Str) : Str :=
  let proto := (truthy (scope.header "x-forwarded-proto")).getD url.scheme
  let host := (truthy (scope.header "x-forwarded-host")).getD
    ((truthy (scope.header "host")).getD "localhost")
  proto ++ "://" ++ host ++ path

/-- Mirrors `_cookie_secure` (auth.py:897-901). -/
def cookieSecure (scope : Scope) (url : Url.SplitResult) : Bool :=
  lower ((scope.header "x-forwarded-proto").getD []) = "https" || url.scheme = "https"

def signedCookie (scope : Scope) (url : Url.SplitResult) (name : Str) (value : Signed)
    (maxAge : Nat) : SetCookie :=
  { name := name, value := value, maxAge := maxAge, httponly := true,
    secure := cookieSecure scope url, samesite := "lax", path := "/" }

/-- The dictionary of a state cookie (auth.py:638-640). -/
def loginStash (state codeVerifier next : Str) : JsonDict :=
  [("state".toList, .str state), ("code_verifier".toList, .str codeVerifier),
    ("next".toList, .str next)]

/-- The dictionary of a session cookie (auth.py:783). -/
def sessionStash (username : Str) (iat : Nat) : JsonDict :=
  [("u".toList, .str username), ("iat".toList, .int iat)]

/-- Mirrors `_handle_login` (auth.py:606-650). -/
def handleLogin (web : Web) (settings : OidcSettings) (w : World) (scope : Scope)
    (url : Url.SplitResult) : Py Response := do
  let discovery ← w.discovery
  match truthy discovery.authorizationEndpoint with
  | none => pure (unauthorized scope.requestId)
  | some authEndpoint =>
    let nextUrl := (truthy (scope.queryParam web "next")).getD "/"
    let params : List (Str × Str) :=
      [("response_type".toList, "code".toList), ("client_id".toList, settings.clientId),
        ("redirect_uri".toList, absoluteRedirectUri scope url settings.redirectPath),
        ("scope".toList, "openid profile email".toList), ("state".toList, w.state),
        ("code_challenge".toList, w.s256 w.codeVerifier),
        ("code_challenge_method".toList, "S256".toList)]
    pure
      { status := 302
        location := some (authEndpoint ++ "?" ++ w.urlencode params)
        setCookies := [signedCookie scope url stateCookie
          ⟨loginStash w.state w.codeVerifier nextUrl, w.now⟩ stateTtlSeconds] }

/-- The rejections of the callback, under the names it logs. -/
inductive Rejection
  | stateCookieMissing
  | stateCookieExpired
  | stateCookieBadSignature
  | stateMismatch
  | codeMissing
  | discoveryNoTokenEndpoint
  | tokenExchangeFailed (statusCode : Nat)
  | idTokenMissing
  | idTokenInvalid
  | requiredGroupMissing
  deriving DecidableEq

/-- The answer to a rejected callback; the reason stays in the log. -/
def Rejection.response (r : Rejection) (requestId : Option Str) : Response :=
  if r = .requiredGroupMissing then
    forbidden "Required group membership not satisfied." requestId
  else unauthorized requestId

/-- The state cookie and the state of the query (auth.py:666-700). -/
def checkState (web : Web) (signer : Signer) (w : World) (scope : Scope) :
    Py (Except Rejection JsonDict) :=
  match truthy (scope.cookie web stateCookie) with
  | none => .ok (.error .stateCookieMissing)
  | some signed =>
    match signer.loads signed stateTtlSeconds w.now with
    | .error .signatureExpired => .ok (.error .stateCookieExpired)
    | .error .badSignature => .ok (.error .stateCookieBadSignature)
    | .ok stash =>
      match truthy (scope.queryParam web "state") with
      | none => .ok (.error .stateMismatch)
      | some inboundState => do
        let state ← stash.itemStr "state"
        pure (if inboundState ≠ state then .error .stateMismatch else .ok stash)

/-- From the authorization code to validated claims (auth.py:702-771). -/
def exchangeCode (web : Web) (settings : OidcSettings) (w : World) (scope : Scope)
    (url : Url.SplitResult) (stash : JsonDict) : Py (Except Rejection JsonDict) :=
  match truthy (scope.queryParam web "code") with
  | none => .ok (.error .codeMissing)
  | some code => do
    let discovery ← w.discovery
    match truthy discovery.tokenEndpoint with
    | none => pure (.error .discoveryNoTokenEndpoint)
    | some tokenEndpoint =>
      let codeVerifier ← stash.itemStr "code_verifier"
      let resp ← w.postToken tokenEndpoint
        [("grant_type".toList, "authorization_code".toList), ("code".toList, code),
          ("redirect_uri".toList, absoluteRedirectUri scope url settings.redirectPath),
          ("client_id".toList, settings.clientId), ("client_secret".toList, settings.clientSecret),
          ("code_verifier".toList, codeVerifier)]
      if resp.statusCode ≠ 200 then pure (.error (.tokenExchangeFailed resp.statusCode))
      else
        let idToken ← resp.idToken
        match truthy idToken with
        | none => pure (.error .idTokenMissing)
        | some idToken =>
          match ← validateJwt settings w idToken with
          | none => pure (.error .idTokenInvalid)
          | some claims =>
            pure (if hasRequiredGroup claims settings.requiredGroupsList then .ok claims
              else .error .requiredGroupMissing)

/-- `stash.get("next") or "/"`, kept to this host (auth.py:776-780). -/
def landingUrl (stash : JsonDict) : Py Str :=
  match (stash.get "next").filter Json.truthy with
  | none => .ok "/"
  | some (.str next) =>
    .ok (if startsWith next "/" && !startsWith next "//" then next else "/")
  | some _ => throw .attributeError

/-- The redirect that opens a session (auth.py:773-795). -/
def openSession (settings : OidcSettings) (w : World) (scope : Scope) (url : Url.SplitResult)
    (stash claims : JsonDict) : Py Response := do
  let username := (claims.getStr settings.usernameClaim).getD []
  let next ← landingUrl stash
  pure
    { status := 302
      location := some next
      setCookies := [signedCookie scope url sessionCookie
        ⟨sessionStash username w.later, w.later⟩ sessionTtlSeconds]
      deletedCookies := [stateCookie] }

/-- Mirrors `_handle_callback` (auth.py:652-795). -/
def handleCallback (web : Web) (settings : OidcSettings) (signer : Signer) (w : World)
    (scope : Scope) (url : Url.SplitResult) : Py Response := do
  match ← checkState web signer w scope with
  | .error r => pure (r.response scope.requestId)
  | .ok stash =>
    match ← exchangeCode web settings w scope url stash with
    | .error r => pure (r.response scope.requestId)
    | .ok claims => openSession settings w scope url stash claims

/-- Mirrors `_handle_logout` (auth.py:797-804). -/
def handleLogout (w : World) : Py Response := do
  let discovery ← w.discovery
  pure
    { status := 302
      location := some ((truthy discovery.endSessionEndpoint).getD "/")
      deletedCookies := [sessionCookie] }

/-! ## Every other request -/

/-- Mirrors `_read_session` (auth.py:808-820). -/
def readSession (web : Web) (signer : Signer) (w : World) (scope : Scope) : Option Str :=
  match truthy (scope.cookie web sessionCookie) with
  | none => none
  | some signed =>
    match signer.loads signed sessionTtlSeconds w.now with
    | .error _ => none
    | .ok stash => stash.getStr "u"

/-- Mirrors `_is_browser` (auth.py:871-883). -/
def isBrowser (scope : Scope) : Bool :=
  scope.method = "GET" && contains ((scope.header "accept").getD []) "text/html"

/-- Mirrors `_redirect_to_login` (auth.py:822-834). -/
def redirectToLogin (w : World) (url : Url.SplitResult) : Response :=
  let next := if url.query = [] then url.path else url.path ++ "?" ++ url.query
  { status := 302, location := some ("/auth/login?" ++ w.urlencode [("next".toList, next)]) }

/-- The requests that are neither public nor part of the handshake (auth.py:431-463). -/
def checkIdentity (web : Web) (settings : OidcSettings) (signer : Signer) (w : World)
    (scope : Scope) (url : Url.SplitResult) : Py Outcome :=
  match truthy (scope.header "authorization") with
  | some authorization => do
    match ← validateBearer settings w authorization with
    | .invalid => pure (.respond (unauthorized scope.requestId))
    | .forbidden =>
      pure (.respond (forbidden "Required group membership not satisfied." scope.requestId))
    | .accepted username => pure (.forward (.bearer username))
  | none =>
    match readSession web signer w scope with
    | some username => .ok (.forward (.session username))
    | none =>
      if isBrowser scope then .ok (.respond (redirectToLogin w url))
      else .ok (.respond (unauthorized scope.requestId))

/-- Mirrors `OIDCAuthMiddleware.__call__` (auth.py:401-463). -/
def oidcCall (web : Web) (settings : OidcSettings) (signer : Signer) (w : World)
    (scope : Scope) : Py Outcome :=
  if scope.type ≠ "http" then .ok (.forward .notHttp)
  else do
    let url ← requestParts web scope
    if isPublic url.path then pure (.forward .publicPath)
    else if url.path = "/auth/login" then
      .respond <$> handleLogin web settings w scope url
    else if url.path = settings.redirectPath then
      .respond <$> handleCallback web settings signer w scope url
    else if url.path = "/auth/logout" then .respond <$> handleLogout w
    else checkIdentity web settings signer w scope url

/-! ## What an answer says about its request -/

section
variable {web : Web} {settings : OidcSettings} {signer : Signer} {w : World} {scope : Scope}
  {url : Url.SplitResult}

theorem checkState_ok {stash : JsonDict} (h : checkState web signer w scope = .ok (.ok stash)) :
    ∃ signed time state, scope.cookie web stateCookie = some signed ∧
      signer.unsign signed = some ⟨stash, time⟩ ∧ time ≤ w.now ∧ w.now ≤ time + stateTtlSeconds ∧
      scope.queryParam web "state" = some state ∧ stash.getStr "state" = some state := by
  unfold checkState at h
  split at h
  · cases h
  rename_i signed hc
  split at h
  · cases h
  · cases h
  rename_i stash' hl
  split at h
  · cases h
  rename_i inbound hq
  obtain ⟨state, hs, h⟩ := Py.bind_ok.mp h
  rw [Py.pure_ok] at h
  split at h
  · cases h
  rename_i he
  cases h
  obtain ⟨time, hu, h1, h2⟩ := loads_ok hl
  rw [not_not.mp he] at hq
  exact ⟨signed, time, state, (truthy_eq_some.mp hc).1, hu, h1, h2, (truthy_eq_some.mp hq).1,
    JsonDict.itemStr_ok.mp hs⟩

theorem exchangeCode_ok {stash claims : JsonDict}
    (h : exchangeCode web settings w scope url stash = .ok (.ok claims)) :
    (∃ endpoint form resp idToken, w.postToken endpoint form = .ok resp ∧ resp.statusCode = 200 ∧
      resp.idToken = .ok (some idToken) ∧ validateJwt settings w idToken = .ok (some claims)) ∧
    hasRequiredGroup claims settings.requiredGroupsList = true := by
  unfold exchangeCode at h
  split at h
  · cases h
  obtain ⟨discovery, _, h⟩ := Py.bind_ok.mp h
  split at h
  · cases h
  rename_i endpoint _
  obtain ⟨verifier, _, h⟩ := Py.bind_ok.mp h
  obtain ⟨resp, hp, h⟩ := Py.bind_ok.mp h
  split at h
  · cases h
  rename_i hstatus
  obtain ⟨idToken?, hi, h⟩ := Py.bind_ok.mp h
  split at h
  · cases h
  rename_i idToken ht
  obtain ⟨claims?, hv, h⟩ := Py.bind_ok.mp h
  split at h
  · cases h
  rename_i claims'
  rw [Py.pure_ok] at h
  split at h
  · rename_i hg
    cases h
    refine ⟨⟨endpoint, _, resp, idToken, hp, not_not.mp hstatus, ?_, hv⟩, hg⟩
    rw [hi, (truthy_eq_some.mp ht).1]
  · cases h

/-- A callback that sets a cookie went through every check, and sets one session cookie. -/
theorem handleCallback_sets {r : Response} {c : SetCookie}
    (h : handleCallback web settings signer w scope url = .ok r) (hc : c ∈ r.setCookies) :
    ∃ stash claims username, checkState web signer w scope = .ok (.ok stash) ∧
      exchangeCode web settings w scope url stash = .ok (.ok claims) ∧
      c.name = sessionCookie ∧ c.value = ⟨sessionStash username w.later, w.later⟩ := by
  have hrej : ∀ r : Rejection, (r.response scope.requestId).setCookies = [] := by
    intro r
    unfold Rejection.response
    split <;> rfl
  unfold handleCallback at h
  obtain ⟨checked, hs, h⟩ := Py.bind_ok.mp h
  cases checked with
  | error e =>
    cases h
    rw [hrej] at hc
    cases hc
  | ok stash =>
    obtain ⟨exchanged, he, h⟩ := Py.bind_ok.mp h
    cases exchanged with
    | error e =>
      cases h
      rw [hrej] at hc
      cases hc
    | ok claims =>
      obtain ⟨next, _, h⟩ := Py.bind_ok.mp h
      cases h
      rw [List.mem_singleton.mp hc]
      exact ⟨stash, claims, _, hs, he, rfl, rfl⟩

/-- A login sets one state cookie. -/
theorem handleLogin_sets {r : Response} {c : SetCookie}
    (h : handleLogin web settings w scope url = .ok r) (hc : c ∈ r.setCookies) :
    ∃ next, c.name = stateCookie ∧ c.value = ⟨loginStash w.state w.codeVerifier next, w.now⟩ := by
  unfold handleLogin at h
  obtain ⟨discovery, _, h⟩ := Py.bind_ok.mp h
  split at h
  · cases h
    cases hc
  · cases h
    rw [List.mem_singleton.mp hc]
    exact ⟨_, rfl, rfl⟩

theorem map_respond_ok {x : Py Response} {o : Outcome} :
    (Outcome.respond <$> x) = .ok o ↔ ∃ r, x = .ok r ∧ o = .respond r := by
  cases x with
  | ok r => simp [Functor.map, Except.map, eq_comm]
  | error e => simp [Functor.map, Except.map]

/-- A cookie is set by a login or by a callback. -/
theorem oidcCall_sets {r : Response} {c : SetCookie}
    (h : oidcCall web settings signer w scope = .ok (.respond r)) (hc : c ∈ r.setCookies) :
    ∃ url, requestParts web scope = .ok url ∧
      (handleLogin web settings w scope url = .ok r ∨
        url.path = settings.redirectPath ∧
          handleCallback web settings signer w scope url = .ok r) := by
  unfold oidcCall at h
  split at h
  · cases h
  obtain ⟨url, hu, h⟩ := Py.bind_ok.mp h
  refine ⟨url, hu, ?_⟩
  split at h
  · cases h
  split at h
  · obtain ⟨r', hl, he⟩ := map_respond_ok.mp h
    cases he
    exact .inl hl
  split at h
  · rename_i hp
    obtain ⟨r', hl, he⟩ := map_respond_ok.mp h
    cases he
    exact .inr ⟨hp, hl⟩
  split at h
  · obtain ⟨r', hl, he⟩ := map_respond_ok.mp h
    cases he
    obtain ⟨discovery, _, hl⟩ := Py.bind_ok.mp hl
    cases hl
    cases hc
  · -- an identity check answers with an error or a redirect to the login
    unfold checkIdentity at h
    split at h
    · obtain ⟨res, _, h⟩ := Py.bind_ok.mp h
      cases res <;> cases h <;> cases hc
    · split at h
      · cases h
      · split at h <;> cases h <;> cases hc

/-- What lets a request through: a public shown path, a bearer credential, or a session. -/
theorem oidcCall_forward {g : Grant} (ht : scope.type = "http")
    (h : oidcCall web settings signer w scope = .ok (.forward g)) :
    scope.Readable web ∧ if isPublic (scope.shownPath web) then g = .publicPath
      else (∃ a u, truthy (scope.header "authorization") = some a ∧
          validateBearer settings w a = .ok (.accepted u) ∧ g = .bearer u) ∨
        ∃ u, readSession web signer w scope = some u ∧ g = .session u := by
  unfold oidcCall at h
  rw [if_neg (not_not.mpr ht)] at h
  obtain ⟨url, hu, h⟩ := Py.bind_ok.mp h
  refine ⟨requestParts_ok.mp ⟨url, hu⟩, ?_⟩
  rw [requestParts_path hu] at h
  split at h
  · rename_i hp
    rw [if_pos hp]
    cases h
    rfl
  rename_i hp
  rw [if_neg hp]
  split at h
  · obtain ⟨_, _, he⟩ := map_respond_ok.mp h
    cases he
  split at h
  · obtain ⟨_, _, he⟩ := map_respond_ok.mp h
    cases he
  split at h
  · obtain ⟨_, _, he⟩ := map_respond_ok.mp h
    cases he
  unfold checkIdentity at h
  split at h
  · rename_i a ha
    obtain ⟨res, hv, h⟩ := Py.bind_ok.mp h
    cases res with
    | accepted u =>
      cases h
      exact .inl ⟨a, u, ha, hv, rfl⟩
    | _ => cases h
  · split at h
    · rename_i u hs
      cases h
      exact .inr ⟨u, hs, rfl⟩
    · split at h <;> cases h

theorem oidcCall_public (ht : scope.type = "http") (hr : scope.Readable web)
    (hp : isPublic (scope.shownPath web) = true) :
    oidcCall web settings signer w scope = .ok (.forward .publicPath) := by
  obtain ⟨url, hu⟩ := requestParts_ok.mpr hr
  unfold oidcCall
  rw [if_neg (not_not.mpr ht), Py.bind_ok]
  refine ⟨url, hu, ?_⟩
  rw [requestParts_path hu, if_pos hp]
  rfl

end

end KnowledgeKiln.L4
