import KnowledgeKiln.Core.QuotePlus
import KnowledgeKiln.L4Api.Sessions

/-!
# Where a login ends (api/auth.py)

A browser without a session is sent to `/auth/login?next=…`, the login keeps `next` in its signed
state cookie, and the callback goes there when it is a path of this host. Anyone may send a
`next` to the login, and the callback is the only redirect made of it.

* `oidcCall_browser`: which requests are sent to the login.
* `handleCallback_lands`, `handleLogin_keeps`: the two ends of the state cookie.
* `login_lands`: in a run, a session is opened with a redirect to where the browser was going, and
  never off the host.
-/
namespace KnowledgeKiln.L4

open KnowledgeKiln.Core

/-- A path of this host; a second slash would begin the name of another. -/
def Local (url : Str) : Prop := startsWith url "/" = true ∧ startsWith url "//" = false

/-- The guard of the callback (auth.py:776-780). -/
def kept (next : Str) : Str :=
  if startsWith next "/" && !startsWith next "//" then next else "/"

theorem kept_local (next : Str) : Local (kept next) := by
  unfold kept
  split
  · rename_i h
    rw [Bool.and_eq_true, Bool.not_eq_true'] at h
    exact h
  · exact ⟨rfl, rfl⟩

theorem kept_of_local {next : Str} (h : Local next) : kept next = next := by
  unfold kept
  rw [h.1, h.2]
  rfl

/-- What `_redirect_to_login` passes on: the path and the query of the request. -/
def destination (url : Url.SplitResult) : Str :=
  if url.query = [] then url.path else url.path ++ "?" ++ url.query

/-- The `next` a login keeps. -/
def loginNext (web : Web) (scope : Scope) : Str := (truthy (scope.queryParam web "next")).getD "/"

/-- A browser that asks for a protected page without a credential. -/
structure Stranger (web : Web) (settings : OidcSettings) (signer : Signer) (w : World)
    (scope : Scope) : Prop where
  type : scope.type = "http"
  browser : isBrowser scope = true
  authorization : truthy (scope.header "authorization") = none
  session : readSession web signer w scope = none
  guarded : isPublic (scope.shownPath web) = false
  path : scope.shownPath web ∉ ["/auth/login".toList, settings.redirectPath, "/auth/logout".toList]

section
variable {web : Web} {settings : OidcSettings} {signer : Signer} {w : World} {scope : Scope}
  {url : Url.SplitResult}

theorem oidcCall_browser (h : Stranger web settings signer w scope)
    (hu : requestParts web scope = .ok url) :
    oidcCall web settings signer w scope = .ok (.respond (redirectToLogin w url)) := by
  have hpath := requestParts_path hu
  obtain ⟨ht, hbrowser, hauth, hsession, hprotected, hother⟩ := h
  rw [← hpath] at hprotected hother
  simp only [List.mem_cons, List.not_mem_nil, or_false, not_or] at hother
  unfold oidcCall
  rw [if_neg (not_not.mpr ht), Py.bind_ok]
  refine ⟨url, hu, ?_⟩
  rw [if_neg (by simp [hprotected]), if_neg hother.1, if_neg hother.2.1, if_neg hother.2.2]
  unfold checkIdentity
  rw [hauth]
  dsimp only
  rw [hsession]
  dsimp only
  rw [if_pos hbrowser]

/-- The state cookie of a login keeps what its query names. -/
theorem handleLogin_keeps {r : Response} {c : SetCookie}
    (h : handleLogin web settings w scope url = .ok r) (hc : c ∈ r.setCookies) :
    c.value.content = loginStash w.state w.codeVerifier (loginNext web scope) := by
  unfold handleLogin at h
  obtain ⟨discovery, _, h⟩ := Py.bind_ok.mp h
  split at h
  · cases h
    cases hc
  · cases h
    rw [List.mem_singleton.mp hc]
    rfl

theorem landingUrl_loginStash {state verifier next : Str} (h : next ≠ []) :
    landingUrl (loginStash state verifier next) = .ok (kept next) := by
  have hget : (JsonDict.get (loginStash state verifier next) "next").filter Json.truthy =
      some (.str next) := by
    have htruthy : Json.truthy (.str next) = true := by simpa [Json.truthy] using h
    show (some (Json.str next)).filter Json.truthy = _
    rw [Option.filter_some, if_pos htruthy]
  unfold landingUrl
  rw [hget]
  rfl

/-- A callback that sets a cookie goes where its state cookie says. -/
theorem handleCallback_lands {r : Response} {c : SetCookie}
    (h : handleCallback web settings signer w scope url = .ok r) (hc : c ∈ r.setCookies) :
    ∃ stash next, checkState web signer w scope = .ok (.ok stash) ∧
      landingUrl stash = .ok next ∧ r.location = some next := by
  have hrej : ∀ r : Rejection, (r.response scope.requestId).setCookies = [] := by
    intro r
    unfold Rejection.response
    split <;> rfl
  unfold handleCallback at h
  obtain ⟨checked, hs, h⟩ := Py.bind_ok.mp h
  cases checked with
  | error e =>
    cases h
    rw [hrej] at hc
    cases hc
  | ok stash =>
    obtain ⟨exchanged, he, h⟩ := Py.bind_ok.mp h
    cases exchanged with
    | error e =>
      cases h
      rw [hrej] at hc
      cases hc
    | ok claims =>
      obtain ⟨next, hnext, h⟩ := Py.bind_ok.mp h
      cases h
      exact ⟨stash, next, hs, hnext, rfl⟩

/-- The content of a state cookie that was set. -/
theorem stateCookie_keeps {x : Exchange} {value : Signed}
    (h : x.Sets web settings signer stateCookie value) :
    value.content = loginStash x.world.state x.world.codeVerifier (loginNext web x.scope) := by
  obtain ⟨r, c, ho, hc, hname, rfl⟩ := h
  obtain ⟨url, hu, hlogin | ⟨hpath, hcallback⟩⟩ := oidcCall_sets ho hc
  · exact handleLogin_keeps hlogin hc
  · obtain ⟨stash, claims, username, hs, he, hn, hv⟩ := handleCallback_sets hcallback hc
    rw [hn] at hname
    exact absurd hname (by decide)

theorem loginNext_ne : loginNext web scope ≠ [] := by
  unfold loginNext
  cases h : truthy (scope.queryParam web "next") with
  | none => simp
  | some next => simpa using (truthy_eq_some.mp h).2

/-- A login that was reached through the redirect has the destination of the first request. -/
theorem loginNext_followed {replace : List UInt8 → Str} (hparse : web.queryParams scope.queryString =
      FormUrlencoded.parseQsl replace scope.queryString)
    (hencode : w.urlencode = QuotePlus.urlencode QuotePlus.alwaysSafe)
    (hfollow : (redirectToLogin w url).location = some ("/auth/login?" ++ scope.queryString)) :
    kept (loginNext web scope) = kept (destination url) := by
  have hquery : scope.queryString =
      QuotePlus.urlencode QuotePlus.alwaysSafe [("next".toList, destination url)] := by
    have h := Option.some.inj hfollow
    rw [hencode] at h
    exact (List.append_cancel_left h).symm
  have hparam : scope.queryParam web "next" = some (destination url) := by
    unfold Scope.queryParam
    rw [hparse, hquery, QuotePlus.parseQsl_urlencode QuotePlus.alwaysSafe_safeSet]
    rfl
  unfold loginNext
  rw [hparam]
  by_cases hempty : destination url = []
  · rw [hempty]
    rfl
  · rw [truthy_eq_some.mpr ⟨rfl, hempty⟩]
    rfl

end

/-- **Where a login ends.** In every run of parties without the signing secret, a callback that
opens a session redirects to a path of this host: to what the login of its state cookie kept, which
is the page a browser had asked for if its redirect led to that login. -/
theorem login_lands (web : Web) (settings : OidcSettings) (signer : Signer)
    (replace : List UInt8 → Str) (hparse : web.queryParams = FormUrlencoded.parseQsl replace)
    (history rest : List Exchange) (x : Exchange)
    (hrun : Run (Unforged web settings signer) (history ++ x :: rest)) (r : Response)
    (c : SetCookie) (hr : x.outcome web settings signer = .ok (.respond r))
    (hc : c ∈ r.setCookies) (hname : c.name = sessionCookie) :
    ∃ location signed stash, ∃ login ∈ history, r.location = some location ∧ Local location ∧
      x.scope.cookie web stateCookie = some signed ∧ signer.unsign signed = some stash ∧
      OpenedLogin web settings signer login stash ∧ location = kept (loginNext web login.scope) ∧
      ∀ (z : Exchange) url, Stranger web settings signer z.world z.scope →
        requestParts web z.scope = .ok url →
        z.outcome web settings signer = .ok (.respond (redirectToLogin z.world url)) ∧
        (z.world.urlencode = QuotePlus.urlencode QuotePlus.alwaysSafe →
          (redirectToLogin z.world url).location =
            some ("/auth/login?" ++ login.scope.queryString) →
          location = kept (destination url) ∧
            (Local (destination url) → location = destination url)) := by
  obtain ⟨-, hadm⟩ := hrun.split
  have hset : x.Sets web settings signer sessionCookie c.value := ⟨r, c, hr, hc, hname, rfl⟩
  obtain ⟨url, -, hlogin | ⟨-, hcallback⟩⟩ := oidcCall_sets hr hc
  · obtain ⟨next, hn, -⟩ := handleLogin_sets hlogin hc
    rw [hn] at hname
    exact absurd hname (by decide)
  · obtain ⟨content, next, hs, hnext, hlocation⟩ := handleCallback_lands hcallback hc
    obtain ⟨signed, time, state, hcookie, hunsign, -, -, -, hstate⟩ := checkState_ok hs
    -- the state cookie was set before; a session has no `state`, so a login set it
    obtain ⟨login, hm, name, hsets⟩ := hadm _ (cookie_mem hcookie) _ hunsign
    rcases issued_by hsets with ⟨rfl, hopened, -⟩ | ⟨-, hnone, -⟩
    · have hcontent := stateCookie_keeps hsets
      dsimp only at hcontent
      rw [hcontent, landingUrl_loginStash loginNext_ne] at hnext
      cases hnext
      refine ⟨_, signed, _, login, hm, hlocation, kept_local _, hcookie, hunsign, hopened, rfl,
        fun z url hz hu => ⟨oidcCall_browser hz hu, fun hencode hfollow => ?_⟩⟩
      have hfollowed := loginNext_followed (congrFun hparse _) hencode hfollow
      exact ⟨hfollowed, fun hlocal => hfollowed.trans (kept_of_local hlocal)⟩
    · rw [hnone] at hstate
      cases hstate

/-! ## A login from a search page -/

/-- A query string is read as the standard library does. -/
def libraryWeb : Web :=
  { plainWeb with queryParams := FormUrlencoded.parseQsl fun _ => [] }

def searchPage : Exchange :=
  { scope :=
      { path := "/search", queryString := "q=a%20b&k=3"
        headers := [hostHeader, ("accept".toList, "text/html".toList)] }
    world := { aliceWorld 90 90 with urlencode := QuotePlus.urlencode QuotePlus.alwaysSafe } }

def followedExchange : Exchange :=
  { scope :=
      { path := "/auth/login", queryString := "next=%2Fsearch%3Fq%3Da%2520b%26k%3D3"
        headers := [hostHeader] }
    world := aliceWorld 100 100 }

/-- The signed state of that login. -/
def searchState : Signer :=
  { unsign := fun s =>
      if s = "STATE" then some ⟨loginStash "st" "cv" "/search?q=a%20b&k=3", 100⟩ else none }

theorem login_lands_search : ∃ r,
    callbackExchange.outcome libraryWeb groupSettings searchState = .ok (.respond r) ∧
      r.location = some "/search?q=a%20b&k=3".toList := by
  have hnext : loginNext libraryWeb followedExchange.scope = "/search?q=a%20b&k=3".toList := by
    decide +kernel
  have hlogin : followedExchange.Sets libraryWeb groupSettings searchState stateCookie
      ⟨loginStash "st" "cv" "/search?q=a%20b&k=3", 100⟩ := by
    refine ⟨_, _, rfl, List.mem_singleton.mpr rfl, rfl, ?_⟩
    show Signed.mk (loginStash "st" "cv" (loginNext libraryWeb followedExchange.scope)) 100 = _
    rw [hnext]
  have hrun : Run (Unforged libraryWeb groupSettings searchState)
      ([followedExchange] ++ callbackExchange :: []) := by
    refine .snoc (.snoc .nil ?_) ?_
    · intro pair hp
      cases hp
    · intro pair hp value hv
      obtain rfl : pair = (stateCookie, "STATE".toList) := List.mem_singleton.mp hp
      cases hv
      exact ⟨_, List.mem_singleton.mpr rfl, _, hlogin⟩
  obtain ⟨location, _, _, login, hm, hlocation, -, -, -, -, -, hstranger⟩ :=
    login_lands libraryWeb groupSettings searchState (fun _ => []) rfl [followedExchange] []
      callbackExchange hrun _ _ rfl (List.mem_singleton.mpr rfl) rfl
  obtain rfl := List.mem_singleton.mp hm
  have hasked : Stranger libraryWeb groupSettings searchState searchPage.world searchPage.scope :=
    ⟨rfl, by decide +kernel, rfl, rfl, by decide +kernel, by decide +kernel⟩
  have hland := ((hstranger searchPage _ hasked rfl).2 rfl (by decide +kernel)).2
    ⟨by decide +kernel, by decide +kernel⟩
  refine ⟨_, rfl, ?_⟩
  rw [hlocation, hland]
  decide +kernel

end KnowledgeKiln.L4
