import KnowledgeKiln.L4Api.Oidc

/-!
# Which path is authorised, and which is routed

Both middlewares decide on `request.url.path`, the router on `scope["path"]`.
The first is cut out of the Host header, if the framework takes it, and the path at
their first `/`, `?` or `#`, so the two differ as soon as one of these characters (or a tab or a break)
stands where it should not.

* `Mode.call_forward`, `Mode.call_public`: both modes, by the shown path.
* `guarded_iff`: exactly which requests are kept from a protected route.
* `forward_of_plain`: a request with a plain Host header and path is not among
  the others.
-/
namespace KnowledgeKiln.L4

open KnowledgeKiln.Core

/-- A mode of `KILN_AUTH_MODE` that has a middleware. -/
inductive Mode
  | bearer (expectedToken : Str)
  | oidc (settings : OidcSettings) (signer : Signer)

def Mode.call (web : Web) (w : World) : Mode → Scope → Py Outcome
  | .bearer expectedToken, scope => bearerCall web expectedToken scope
  | .oidc settings signer, scope => oidcCall web settings signer w scope

/-- The request carries a valid bearer credential or session. -/
def Mode.Credentialed (web : Web) (w : World) : Mode → Scope → Prop
  | .bearer expectedToken, scope => authorized scope expectedToken = true
  | .oidc settings signer, scope =>
    (∃ a u, truthy (scope.header "authorization") = some a ∧
      validateBearer settings w a = .ok (.accepted u)) ∨
    ∃ u, readSession web signer w scope = some u

/-- A request that is forwarded without a credential is routed to a public path. -/
def Guarded (web : Web) (w : World) (mode : Mode) (scope : Scope) : Prop :=
  (∃ g, mode.call web w scope = .ok (.forward g)) → ¬ mode.Credentialed web w scope →
    isPublic scope.path = true

section
variable {web : Web} {w : World} {mode : Mode} {scope : Scope}

theorem Mode.call_public (ht : scope.type = "http") (hr : scope.Readable web)
    (hp : isPublic (scope.shownPath web) = true) :
    mode.call web w scope = .ok (.forward .publicPath) := by
  cases mode with
  | bearer expectedToken => exact (bearerCall_forward ht).mpr ⟨hr, by rw [if_pos hp]⟩
  | oidc settings signer => exact oidcCall_public ht hr hp

/-- A forwarded request has a credential or a public shown path. -/
theorem Mode.call_forward (ht : scope.type = "http") {g : Grant}
    (h : mode.call web w scope = .ok (.forward g)) :
    mode.Credentialed web w scope ∨ scope.Readable web ∧ isPublic (scope.shownPath web) = true := by
  cases mode with
  | bearer expectedToken =>
    obtain ⟨hr, h⟩ := (bearerCall_forward ht).mp h
    split at h
    · rename_i hp
      exact .inr ⟨hr, hp⟩
    · exact .inl h.1
  | oidc settings signer =>
    obtain ⟨hr, h⟩ := oidcCall_forward ht h
    split at h
    · rename_i hp
      exact .inr ⟨hr, hp⟩
    · rcases h with ⟨a, u, ha, hv, _⟩ | ⟨u, hu, _⟩
      · exact .inl (.inl ⟨a, u, ha, hv⟩)
      · exact .inl (.inr ⟨u, hu⟩)

end

/-- **Guarded routes.** A request is kept from every protected route it has no credential for
exactly when it has one, when its path is public, or when the text between the first `/`, `?`
or `#` of authority and path and the next `?` or `#` is not a public path. -/
theorem guarded_iff (web : Web) (w : World) (mode : Mode) (scope : Scope)
    (ht : scope.type = "http") :
    Guarded web w mode scope ↔
      mode.Credentialed web w scope ∨ isPublic scope.path = true ∨
        ¬ (scope.Readable web ∧ isPublic (scope.shownPath web) = true) := by
  constructor
  · intro h
    by_cases hc : mode.Credentialed web w scope
    · exact .inl hc
    by_cases hs : scope.Readable web ∧ isPublic (scope.shownPath web) = true
    · exact .inr (.inl (h ⟨_, Mode.call_public ht hs.1 hs.2⟩ hc))
    · exact .inr (.inr hs)
  · rintro h ⟨g, hg⟩ hc
    rcases h with h | h | h
    · exact absurd h hc
    · exact h
    · exact absurd ((Mode.call_forward ht hg).resolve_left hc) h

/-- A Host header without `/`, `?` and `#`, and a rooted path without `?`, `#` and breaks. -/
structure Plain (web : Web) (scope : Scope) : Prop where
  authority : ∃ a, scope.authority web = some a ∧ ∀ c ∈ a, Url.endsAuthority c = false
  path : ∀ c ∈ scope.path, c ∉ ['?', '#', '\t', '\r', '\n']
  rooted : scope.path.head? = some '/'

/-- Requests with a plain Host header and path get through on a credential or a public path. -/
theorem forward_of_plain {web : Web} {w : World} {mode : Mode} {scope : Scope} {g : Grant}
    (ht : scope.type = "http") (hp : Plain web scope)
    (h : mode.call web w scope = .ok (.forward g)) :
    mode.Credentialed web w scope ∨ isPublic scope.path = true := by
  obtain ⟨a, ha, hc⟩ := hp.authority
  rw [← shownPath_of_clean ha hc hp.path hp.rooted]
  exact (Mode.call_forward ht h).imp_right And.right

/-! ## Two requests that get through -/

/-- The framework on plain ASCII requests. -/
def plainWeb : Web :=
  { takesHost := fun host => host.all fun c => c.isAlphanum || c ∈ ['.', '-', ':', '[', ']']
    refusedNetloc := fun _ => false
    decodeQuery := .ok
    cookies := fun headers => headers.flatMap fun h =>
      (h.splitOn ';').map fun pair => (strip (partition pair '=').1, strip (partition pair '=').2)
    queryParams := fun q => (q.splitOn '&').map (partition · '=') }

/-- A framework that builds the URL of any Host header. -/
def everyHost : Web := { plainWeb with takesHost := fun _ => true }

def expectedToken : Str := "0123456789abcdef0123456789abcdef"

/-- The path decoded from `/healthz%3Fx`. -/
def queryInPath : Scope :=
  { path := "/healthz?x", headers := [("host".toList, "kiln.example".toList)] }

/-- A Host header that ends the authority early. -/
def pathInHost : Scope :=
  { path := "/v1/search", headers := [("host".toList, "kiln.example/healthz?".toList)] }

/-- A world in which the issuer cannot be reached. -/
def idleWorld : World :=
  { now := 0, later := 0, state := [], codeVerifier := []
    discovery := throw (.external "issuer"), postToken := fun _ _ => throw (.external "issuer")
    decodeJwt := fun _ => .ok none, validClaims := fun _ _ => false
    urlencode := fun _ => [], s256 := id }

/-- Neither request has a credential, both are forwarded, and neither path is public. The second
needs a framework that takes its Host header. -/
theorem shown_path_differs :
    ¬ Guarded plainWeb idleWorld (.bearer expectedToken) queryInPath ∧
    ¬ Guarded everyHost idleWorld (.bearer expectedToken) pathInHost ∧
    ¬ Guarded everyHost idleWorld
      (.oidc { issuer := "i", clientId := "c", clientSecret := "s" } ⟨fun _ => none⟩)
      pathInHost := by
  have hq : isPublic queryInPath.path = false := by decide
  have hh : isPublic pathInHost.path = false := by decide
  have nq : ¬ authorized queryInPath expectedToken = true := by decide
  have nh : ¬ authorized pathInHost expectedToken = true := by decide
  have rq : queryInPath.Readable plainWeb := ⟨.inl rfl, rfl⟩
  have rh : pathInHost.Readable everyHost := ⟨.inl rfl, rfl⟩
  refine ⟨fun h => ?_, fun h => ?_, fun h => ?_⟩
  · have := h ⟨_, Mode.call_public rfl rq (by decide)⟩ nq
    rw [hq] at this
    cases this
  · have := h ⟨_, Mode.call_public rfl rh (by decide)⟩ nh
    rw [hh] at this
    cases this
  · have := h ⟨_, Mode.call_public rfl rh (by decide)⟩ (by
      rintro (⟨a, u, ha, _⟩ | ⟨u, hu⟩)
      · cases ha
      · cases hu)
    rw [hh] at this
    cases this

theorem guarded_search : Guarded plainWeb idleWorld (.bearer expectedToken)
    { path := "/v1/search", headers := [("host".toList, "kiln.example".toList)] } :=
  (guarded_iff plainWeb idleWorld (.bearer expectedToken) _ rfl).mpr
    (.inr (.inr fun h => absurd h.2 (by decide)))

end KnowledgeKiln.L4
