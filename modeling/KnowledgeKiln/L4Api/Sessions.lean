import KnowledgeKiln.Core.Run
import KnowledgeKiln.L4Api.PublicPaths

/-!
# Sessions come from completed logins

A run of the OIDC middleware is a list of exchanges (a request and its world),
sent by parties without the signing secret. They choose every string of a
request; the one thing they cannot do is to make a signature, so a cookie that
verifies, under whatever name it is presented, carries content and time of a
cookie that an earlier answer set (`Unforged`). Re-encoded copies of a signed
value are covered, since the content counts and not the string. Clocks of
different exchanges are unrelated.

* `issued_by`: what an answer sets is a login's state or a callback's session.
* `session_origin`: a session that is accepted was opened by an earlier
  callback with a good state, id_token and group.
* `state_cookie_is_no_session`: the two token languages are disjoint.
-/
namespace KnowledgeKiln.L4

open KnowledgeKiln.Core

/-- One request, and what it met outside the repository. -/
structure Exchange where
  scope : Scope
  world : World

section
variable (web : Web) (settings : OidcSettings) (signer : Signer)

def Exchange.outcome (x : Exchange) : Py Outcome :=
  oidcCall web settings signer x.world x.scope

/-- The answer sets the cookie `name` to the signed value. -/
def Exchange.Sets (x : Exchange) (name : Str) (value : Signed) : Prop :=
  ∃ r c, x.outcome web settings signer = .ok (.respond r) ∧ c ∈ r.setCookies ∧
    c.name = name ∧ c.value = value

/-- Every cookie of the request that verifies signs what an earlier answer has set. -/
def Unforged (history : List Exchange) (x : Exchange) : Prop :=
  ∀ pair ∈ x.scope.cookies web, ∀ value, signer.unsign pair.2 = some value →
    ∃ e ∈ history, ∃ name, e.Sets web settings signer name value

/-- A login answered with this state cookie. -/
def OpenedLogin (x : Exchange) (value : Signed) : Prop :=
  x.Sets web settings signer stateCookie value ∧
    value.content.getStr "state" = some x.world.state ∧ value.time = x.world.now

/-- A callback answered with this session cookie, and every check it made beforehand. -/
structure CompletedLogin (history : List Exchange) (x : Exchange) (value : Signed) : Prop where
  sets : x.Sets web settings signer sessionCookie value
  callback : x.scope.shownPath web = settings.redirectPath
  issuedAt : value.time = x.world.later
  /-- The query's state is the one in a signed state cookie that a login set at most ten
  minutes before. -/
  state : ∃ signed stash state, x.scope.cookie web stateCookie = some signed ∧
    signer.unsign signed = some stash ∧ stash.time ≤ x.world.now ∧
    x.world.now ≤ stash.time + stateTtlSeconds ∧
    x.scope.queryParam web "state" = some state ∧ stash.content.getStr "state" = some state ∧
    ∃ login ∈ history, OpenedLogin web settings signer login stash
  /-- The token endpoint's id_token validated, and its claims have a required group. -/
  token : ∃ endpoint form resp idToken claims,
    x.world.postToken endpoint form = .ok resp ∧ resp.idToken = .ok (some idToken) ∧
    validateJwt settings x.world idToken = .ok (some claims) ∧
    hasRequiredGroup claims settings.requiredGroupsList = true

end

section
variable {web : Web} {settings : OidcSettings} {signer : Signer}

@[simp] theorem getStr_loginStash_u (state verifier next : Str) :
    (loginStash state verifier next).getStr "u" = none := rfl

@[simp] theorem getStr_loginStash_state (state verifier next : Str) :
    (loginStash state verifier next).getStr "state" = some state := rfl

@[simp] theorem getStr_sessionStash_state (username : Str) (iat : Nat) :
    (sessionStash username iat).getStr "state" = none := rfl

theorem cookie_mem {scope : Scope} {name v : Str} (h : scope.cookie web name = some v) :
    (name, v) ∈ scope.cookies web := mem_of_lookupLast h

theorem readSession_some {w : World} {scope : Scope} {u : Str}
    (h : readSession web signer w scope = some u) : ∃ v value,
      scope.cookie web sessionCookie = some v ∧ signer.unsign v = some value ∧
      value.time ≤ w.now ∧ w.now ≤ value.time + sessionTtlSeconds ∧
      value.content.getStr "u" = some u := by
  unfold readSession at h
  split at h
  · cases h
  rename_i v hv
  split at h
  · cases h
  rename_i stash hl
  obtain ⟨time, hu, h1, h2⟩ := loads_ok hl
  exact ⟨v, ⟨stash, time⟩, (truthy_eq_some.mp hv).1, hu, h1, h2, h⟩

/-- A cookie is set by a login, as a state, or by a callback that passed its checks. -/
theorem issued_by {x : Exchange} {name : Str} {value : Signed}
    (h : x.Sets web settings signer name value) :
    (name = stateCookie ∧ OpenedLogin web settings signer x value ∧
      value.content.getStr "u" = none) ∨
    (name = sessionCookie ∧ value.content.getStr "state" = none ∧
      value.time = x.world.later ∧ x.scope.shownPath web = settings.redirectPath ∧
      ∃ url stash claims, checkState web signer x.world x.scope = .ok (.ok stash) ∧
        exchangeCode web settings x.world x.scope url stash = .ok (.ok claims)) := by
  have hx := h
  obtain ⟨r, c, ho, hc, hname, hvalue⟩ := h
  obtain ⟨url, hu, hlogin | ⟨hpath, hcallback⟩⟩ := oidcCall_sets ho hc
  · obtain ⟨next, hn, hv⟩ := handleLogin_sets hlogin hc
    rw [hn] at hname
    rw [hv] at hvalue
    subst hname hvalue
    exact .inl ⟨rfl, ⟨hx, rfl, rfl⟩, rfl⟩
  · obtain ⟨stash, claims, username, hs, he, hn, hv⟩ := handleCallback_sets hcallback hc
    rw [hn] at hname
    rw [hv] at hvalue
    subst hname hvalue
    refine .inr ⟨rfl, rfl, rfl, ?_, url, stash, claims, hs, he⟩
    rw [← requestParts_path hu, hpath]

/-- In a run, a session cookie is set by a callback that completes a login of the run. -/
theorem completed_of_sets {history : List Exchange} {x : Exchange} {value : Signed}
    (hadm : Unforged web settings signer history x)
    (h : x.Sets web settings signer sessionCookie value) :
    CompletedLogin web settings signer history x value := by
  rcases issued_by h with ⟨hn, _, _⟩ | ⟨_, _, ht, hpath, url, stash, claims, hs, he⟩
  · exact absurd hn (by decide)
  obtain ⟨signed, time, state, hcookie, hunsign, h1, h2, hquery, hstate⟩ := checkState_ok hs
  obtain ⟨⟨endpoint, form, resp, idToken, hpost, _, hid, hv⟩, hg⟩ := exchangeCode_ok he
  refine ⟨h, hpath, ht, ⟨signed, ⟨stash, time⟩, state, hcookie, hunsign, h1, h2, hquery, hstate, ?_⟩,
    ⟨endpoint, form, resp, idToken, claims, hpost, hid, hv, hg⟩⟩
  -- the state cookie was set before; a session has no `state`, so a login set it
  obtain ⟨login, hm, name, hset⟩ := hadm _ (cookie_mem hcookie) _ hunsign
  rcases issued_by hset with ⟨_, hlogin, _⟩ | ⟨_, hnone, _⟩
  · exact ⟨login, hm, hlogin⟩
  · rw [hnone] at hstate
    cases hstate

/-- A cookie set as a state is never read as a session. -/
theorem state_cookie_is_no_session {login : Exchange} {value : Signed}
    (hl : login.Sets web settings signer stateCookie value) {scope : Scope} {v : Str}
    (hc : scope.cookie web sessionCookie = some v) (hu : signer.unsign v = some value) (w : World) :
    readSession web signer w scope = none := by
  by_contra hne
  obtain ⟨u, hs⟩ := Option.ne_none_iff_exists'.mp hne
  obtain ⟨v', value', hc', hu', _, _, hget⟩ := readSession_some hs
  cases hc.symm.trans hc'
  cases hu.symm.trans hu'
  rcases issued_by hl with ⟨_, _, hnone⟩ | ⟨hn, _⟩
  · rw [hnone] at hget
    cases hget
  · exact absurd hn (by decide)

end

/-- **Sessions come from completed logins.** In every run of parties without the signing
secret, a request that is forwarded on a session carries a value that an earlier callback set
at most eight hours before, after all its checks; and a state cookie is never a session. -/
theorem session_origin (web : Web) (settings : OidcSettings) (signer : Signer)
    (history rest : List Exchange) (x : Exchange) (username : Str)
    (hrun : Run (Unforged web settings signer) (history ++ x :: rest))
    (ht : x.scope.type = "http")
    (hf : x.outcome web settings signer = .ok (.forward (.session username))) :
    (∃ v value before callback after, x.scope.cookie web sessionCookie = some v ∧
      signer.unsign v = some value ∧ history = before ++ callback :: after ∧
      CompletedLogin web settings signer before callback value ∧
      value.time ≤ x.world.now ∧ x.world.now ≤ value.time + 8 * 3600) ∧
    ∀ login ∈ history, ∀ value v, login.Sets web settings signer stateCookie value →
      signer.unsign v = some value → x.scope.cookie web sessionCookie ≠ some v := by
  obtain ⟨hhistory, hadm⟩ := hrun.split
  obtain ⟨_, hg⟩ := oidcCall_forward ht hf
  have hsession : readSession web signer x.world x.scope = some username := by
    split at hg
    · cases hg
    · rcases hg with ⟨_, _, _, _, he⟩ | ⟨u, hs, he⟩
      · cases he
      · cases he
        exact hs
  obtain ⟨v, value, hc, hu, h1, h2, hget⟩ := readSession_some hsession
  constructor
  · obtain ⟨callback, hm, name, hset⟩ := hadm _ (cookie_mem hc) _ hu
    obtain ⟨before, after, rfl⟩ := List.append_of_mem hm
    refine ⟨v, value, before, callback, after, hc, hu, rfl, ?_, h1, h2⟩
    refine completed_of_sets hhistory.split.2 ?_
    rcases issued_by hset with ⟨_, _, hnone⟩ | ⟨rfl, _⟩
    · rw [hnone] at hget
      cases hget
    · exact hset
  · intro login _ value' v' hl hu' hc'
    rw [state_cookie_is_no_session hl hc' hu'] at hsession
    cases hsession

/-! ## A completed login -/

def groupSettings : OidcSettings :=
  { issuer := "https://idp", clientId := "kiln", clientSecret := "s",
    requiredGroups := some "kiln-users" }

/-- The two signed strings of the run below. -/
def twoCookies : Signer :=
  { unsign := fun s =>
      if s = "STATE" then some ⟨loginStash "st" "cv" "/", 100⟩
      else if s = "SESSION" then some ⟨sessionStash "alice" 160, 160⟩
      else none }

/-- An issuer that answers for `alice`, at the given times. -/
def aliceWorld (now later : Nat) : World :=
  { now := now, later := later, state := "st", codeVerifier := "cv"
    discovery := .ok
      { authorizationEndpoint := some "https://idp/auth", tokenEndpoint := some "https://idp/token" }
    postToken := fun _ _ => .ok { statusCode := 200, idToken := .ok (some "jwt") }
    decodeJwt := fun _ => .ok (some
      [("preferred_username".toList, .str "alice"),
        ("groups".toList, .arr [.str "kiln-users"])])
    validClaims := fun _ _ => true
    urlencode := fun _ => "q", s256 := id }

def hostHeader : Str × Str := ("host".toList, "kiln.example".toList)

def loginExchange : Exchange :=
  { scope := { path := "/auth/login", headers := [hostHeader] }, world := aliceWorld 100 100 }

def callbackExchange : Exchange :=
  { scope :=
      { path := "/auth/callback", queryString := "state=st&code=c"
        headers := [hostHeader, ("cookie".toList, "kiln_oidc_state=STATE".toList)] }
    world := aliceWorld 150 160 }

def searchExchange : Exchange :=
  { scope :=
      { path := "/v1/search"
        headers := [hostHeader, ("cookie".toList, "kiln_session=SESSION".toList)] }
    world := aliceWorld 1000 1000 }

theorem session_origin_search :
    ∃ value before callback after,
      [loginExchange, callbackExchange] = before ++ callback :: after ∧
      CompletedLogin plainWeb groupSettings twoCookies before callback value := by
  have hlogin : loginExchange.Sets plainWeb groupSettings twoCookies stateCookie
      ⟨loginStash "st" "cv" "/", 100⟩ := ⟨_, _, rfl, List.mem_singleton.mpr rfl, rfl, rfl⟩
  have hcallback : callbackExchange.Sets plainWeb groupSettings twoCookies sessionCookie
      ⟨sessionStash "alice" 160, 160⟩ := ⟨_, _, rfl, List.mem_singleton.mpr rfl, rfl, rfl⟩
  have hrun : Run (Unforged plainWeb groupSettings twoCookies)
      ([loginExchange, callbackExchange] ++ searchExchange :: []) := by
    refine .snoc (.snoc (.snoc .nil ?_) ?_) ?_
    · intro pair hp
      cases hp
    · intro pair hp value hv
      obtain rfl : pair = (stateCookie, "STATE".toList) := List.mem_singleton.mp hp
      cases hv
      exact ⟨_, List.mem_singleton.mpr rfl, _, hlogin⟩
    · intro pair hp value hv
      obtain rfl : pair = (sessionCookie, "SESSION".toList) := List.mem_singleton.mp hp
      cases hv
      exact ⟨_, List.mem_cons_of_mem _ (List.mem_singleton.mpr rfl), _, hcallback⟩
  obtain ⟨_, value, before, callback, after, _, _, he, hc, _⟩ :=
    (session_origin plainWeb groupSettings twoCookies [loginExchange, callbackExchange] []
      searchExchange "alice" hrun rfl rfl).1
  exact ⟨value, before, callback, after, he, hc⟩

end KnowledgeKiln.L4
