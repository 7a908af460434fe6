import KnowledgeKiln.L1Ingest.DnsPin
import KnowledgeKiln.L1Ingest.HttpConnector

/-!
# The requests of one URL

`_fetch_one` with the requests it issues: each hop guards its URL, pins the host to
the addresses that passed, and calls `client.get`, which looks up the ASCII form of
the host (`httpx.URL.raw_host`). The pin is keyed on `httpx.URL.host`, in which
IDNA labels are decoded, so it does not meet that lookup when the two differ. DNS
and the server may answer differently at every hop.

* `fetchTrace_eq`: with answers that do not change, the outcome is `fetchOne`'s.
* `requests_guarded`, `requests_length`, `fetched_from`: what holds of the requests
  of any URL.
* `redirect_safe_iff`: the fetch is safe if and only if no host it requests has a
  decoded label.
-/
namespace KnowledgeKiln.L1.Http

open KnowledgeKiln.Core KnowledgeKiln.L1.Ssrf KnowledgeKiln.L1.FileProcessing
  KnowledgeKiln.L1.Pipeline

/-- What one fetch meets outside, hop by hop. -/
structure Outside where
  lib : IpLib
  /-- `httpx.URL(url)` -/
  parse : Str → Py HttpUrl
  /-- `str(url)` -/
  str : HttpUrl → Str
  /-- `url.copy_with(path=loc)` -/
  copyWith : HttpUrl → Str → Py HttpUrl
  /-- The ASCII form of the host, which `get` resolves. -/
  rawHost : HttpUrl → Str
  /-- What the guard's lookup finds at this hop. -/
  dns : Nat → GetAddrInfo
  /-- `client.get(str(url))` at this hop; `none` is an `httpx.HTTPError`. -/
  respond : Nat → HttpUrl → Py (Option Response)

/-- A call of `client.get`. -/
structure Request where
  hop : Nat
  url : HttpUrl
  pinnedIps : List Str
  /-- `socket.getaddrinfo` during the call. -/
  resolver : Resolver
  response : Py (Option Response)

section
variable (o : Outside) (caps : IngestionCaps) (source : HttpSource)

/-- `_guard_url` -/
def guardUrl (hop : Nat) (url : HttpUrl) : Except GuardError (List Str) := do
  (assertHostAllowlisted o.lib url.host source.hostAllowlist source.allowHttpHosts
    url.scheme).mapError .refused
  assertAddressesPublic o.lib (o.dns hop) url.host

/-- The world that one hop sees. -/
def Outside.web (hop : Nat) : Web where
  parse := o.parse
  str := o.str
  copyWith := o.copyWith
  guardUrl := fun source url =>
    match guardUrl o source hop url with
    | .ok _ => pure true
    | .error (.refused _) => pure false
    | .error .unicodeError => throw (.external "UnicodeError")
  get := o.respond hop
  isPrintable := o.lib.isPrintable

/-- The requests of one hop. -/
def hopRequests (hop : Nat) (url : HttpUrl) : List Request :=
  match guardUrl o source hop url with
  | .error _ => []
  | .ok pinnedIps =>
    [⟨hop, url, pinnedIps, .pinned url.host pinnedIps .original, o.respond hop url⟩]

/-- The hop loop of `_fetch_one`, with its requests. -/
def traceHops (url : Str) : Nat → Nat → HttpUrl →
    List Request × Py (Except SkippedFile FetchedFile)
  | 0, _, _ => ([], pure (.error { path := url, reason := .excludedByPattern }))
  | hops + 1, hop, current =>
    let requests := hopRequests o source hop current
    match fetchHop (o.web hop) caps source current with
    | .error exc => (requests, .error exc)
    | .ok none => (requests, pure (.error { path := url, reason := .excludedByPattern }))
    | .ok (some (.redirect next)) =>
      let rest := traceHops url hops (hop + 1) next
      (requests ++ rest.1, rest.2)
    | .ok (some (.skipped file)) => (requests, pure (.error file))
    | .ok (some (.fetched file)) => (requests, pure (.ok file))

/-- `_fetch_one`, with its requests. -/
def fetchTrace (url : Str) : List Request × Py (Except SkippedFile FetchedFile) :=
  match o.parse url with
  | .error exc => ([], .error exc)
  | .ok current => traceHops o caps source url maxRedirects 0 current

/-- The request goes to an allowlisted host, over https or to an opted-in http host, and its
lookup is answered with addresses that passed the guard at this hop, whatever DNS says by now. -/
structure SafeRequest (r : Request) : Prop where
  allowlisted : o.lib.lower r.url.host ∈ source.hostAllowlist.map o.lib.lower
  scheme : o.lib.lower r.url.scheme = "https" ∨ o.lib.lower r.url.scheme = "http" ∧
    o.lib.lower r.url.host ∈ source.allowHttpHosts.map o.lib.lower
  checked : assertAddressesPublic o.lib (o.dns r.hop) r.url.host = .ok r.pinnedIps
  pinned : ∀ dns, r.resolver.lookup dns (o.rawHost r.url) = .ok r.pinnedIps

/-- All requests are safe and at most five, and a body comes from one of them, with a status below
400 and within the cap. -/
structure FetchSafe (url : Str) : Prop where
  requests : ∀ r ∈ (fetchTrace o caps source url).1, SafeRequest o source r
  atMostFive : (fetchTrace o caps source url).1.length ≤ 5
  body : ∀ file, (fetchTrace o caps source url).2 = .ok (.ok file) →
    ∃ r ∈ (fetchTrace o caps source url).1, ∃ response, r.response = .ok (some response) ∧
      response.statusCode < 400 ∧ file.content = response.content ∧
      response.content.length ≤ caps.maxFileBytes

end

section
variable {o : Outside} {caps : IngestionCaps} {source : HttpSource} {url : Str}

/-! ## One hop -/

theorem nextRedirect_ne_fetched {web : Web} {response : Response} {current : HttpUrl}
    {file : FetchedFile} : nextRedirect web response current ≠ .ok (.fetched file) := by
  intro h
  unfold nextRedirect at h
  split at h
  · cases h
  split at h
  · cases h
  split at h
  · obtain ⟨_, _, he⟩ := Py.exists_of_map_eq h
    cases he
  · obtain ⟨_, _, he⟩ := Py.exists_of_map_eq h
    cases he

theorem fetchHop_fetched {web : Web} {current : HttpUrl} {file : FetchedFile}
    (h : fetchHop web caps source current = .ok (some (.fetched file))) :
    web.guardUrl source current = .ok true ∧ ∃ response, web.get current = .ok (some response) ∧
      response.statusCode < 400 ∧ file.content = response.content ∧
      response.content.length ≤ caps.maxFileBytes := by
  unfold fetchHop at h
  obtain ⟨passes, hguard, h⟩ := Py.bind_ok.mp h
  split at h
  · cases h
  rename_i hpasses
  obtain ⟨reply, hget, h⟩ := Py.bind_ok.mp h
  split at h
  · cases h
  rename_i response
  refine ⟨by simpa [hguard] using hpasses, response, hget, ?_⟩
  split at h
  · obtain ⟨hop, hhop, he⟩ := Py.exists_of_map_eq h
    cases he
    exact absurd hhop nextRedirect_ne_fetched
  split at h
  · cases h
  rename_i hstatus
  split at h
  · cases h
  rename_i hsize
  cases h
  exact ⟨by omega, rfl, by omega⟩

/-- A hop issues at most one request, with a URL that passed the guard. -/
theorem mem_hopRequests {hop : Nat} {current : HttpUrl} {r : Request} :
    r ∈ hopRequests o source hop current ↔ ∃ ips, guardUrl o source hop current = .ok ips ∧
      r = ⟨hop, current, ips, .pinned current.host ips .original, o.respond hop current⟩ := by
  unfold hopRequests
  cases h : guardUrl o source hop current with
  | error exc => simp
  | ok ips => simp

theorem hopRequests_length {hop : Nat} {current : HttpUrl} :
    (hopRequests o source hop current).length ≤ 1 := by
  unfold hopRequests
  split <;> simp

/-! ## The loop -/

/-- A request of a fetch went out on a hop whose guard let its URL pass. -/
def Guarded (o : Outside) (source : HttpSource) (r : Request) : Prop :=
  guardUrl o source r.hop r.url = .ok r.pinnedIps ∧
    r.resolver = .pinned r.url.host r.pinnedIps .original ∧ r.response = o.respond r.hop r.url

theorem guarded_of_mem {hop : Nat} {current : HttpUrl} {r : Request}
    (h : r ∈ hopRequests o source hop current) : Guarded o source r := by
  obtain ⟨ips, hguard, rfl⟩ := mem_hopRequests.mp h
  exact ⟨hguard, rfl, rfl⟩

/-- The loop, hop by hop: at most one guarded request for each, and a body only from the last. -/
theorem traceHops_spec : ∀ (hops hop : Nat) (current : HttpUrl),
    (∀ r ∈ (traceHops o caps source url hops hop current).1, Guarded o source r) ∧
      (traceHops o caps source url hops hop current).1.length ≤ hops ∧
      ∀ file, (traceHops o caps source url hops hop current).2 = .ok (.ok file) →
        ∃ r ∈ (traceHops o caps source url hops hop current).1, ∃ response,
          r.response = .ok (some response) ∧ response.statusCode < 400 ∧
          file.content = response.content ∧ response.content.length ≤ caps.maxFileBytes
  | 0, _, _ => ⟨nofun, le_rfl, nofun⟩
  | hops + 1, hop, current => by
    have hone : (hopRequests o source hop current).length ≤ 1 := hopRequests_length
    have hguarded : ∀ r ∈ hopRequests o source hop current, Guarded o source r :=
      fun r hr => guarded_of_mem hr
    cases hhop : fetchHop (o.web hop) caps source current with
    | error exc =>
      simp only [traceHops, hhop]
      exact ⟨hguarded, by omega, nofun⟩
    | ok outcome =>
      match outcome with
      | none =>
        simp only [traceHops, hhop]
        exact ⟨hguarded, by omega, nofun⟩
      | some (.skipped file) =>
        simp only [traceHops, hhop]
        exact ⟨hguarded, by omega, nofun⟩
      | some (.fetched file) =>
        simp only [traceHops, hhop]
        refine ⟨hguarded, by omega, fun file' he => ?_⟩
        cases he
        obtain ⟨hguard, response, hget, hbody⟩ := fetchHop_fetched hhop
        simp only [Outside.web] at hguard
        cases hips : guardUrl o source hop current with
        | error exc =>
          rw [hips] at hguard
          cases exc <;> cases hguard
        | ok ips => exact ⟨_, mem_hopRequests.mpr ⟨ips, hips, rfl⟩, response, hget, hbody⟩
      | some (.redirect next) =>
        simp only [traceHops, hhop]
        obtain ⟨ih₁, ih₂, ih₃⟩ := traceHops_spec hops (hop + 1) next
        refine ⟨fun r hr => ?_, ?_, fun file he => ?_⟩
        · rcases List.mem_append.mp hr with hr | hr
          · exact hguarded r hr
          · exact ih₁ r hr
        · rw [List.length_append]
          omega
        · obtain ⟨r, hr, hbody⟩ := ih₃ file he
          exact ⟨r, List.mem_append_right _ hr, hbody⟩

theorem requests_guarded {r : Request} (h : r ∈ (fetchTrace o caps source url).1) :
    Guarded o source r := by
  unfold fetchTrace at h
  split at h
  · cases h
  · exact (traceHops_spec _ _ _).1 r h

theorem requests_length : (fetchTrace o caps source url).1.length ≤ 5 := by
  unfold fetchTrace
  split
  · exact Nat.zero_le _
  · exact (traceHops_spec _ _ _).2.1

/-- A body comes from a request of the fetch, with a status below 400 and within the cap. -/
theorem fetched_from {file : FetchedFile} (h : (fetchTrace o caps source url).2 = .ok (.ok file)) :
    ∃ r ∈ (fetchTrace o caps source url).1, ∃ response, r.response = .ok (some response) ∧
      response.statusCode < 400 ∧ file.content = response.content ∧
      response.content.length ≤ caps.maxFileBytes := by
  unfold fetchTrace at h ⊢
  split at h
  · cases h
  · exact (traceHops_spec _ _ _).2.2 file h

/-- With answers that do not change from hop to hop, the outcome is that of `fetchOne`. -/
theorem fetchTrace_eq (hdns : ∀ hop, o.dns hop = o.dns 0)
    (hrespond : ∀ hop, o.respond hop = o.respond 0) :
    (fetchTrace o caps source url).2 = fetchOne (o.web 0) caps source url := by
  have hweb : ∀ hop, o.web hop = o.web 0 := by
    intro hop
    simp [Outside.web, guardUrl, hdns hop, hrespond hop]
  have hloop : ∀ {hops hop : Nat} {current : HttpUrl},
      (traceHops o caps source url hops hop current).2 =
        followHops (o.web 0) caps source url hops current := by
    intro hops
    induction hops with
    | zero => intro hop current; rfl
    | succ hops ih =>
      intro hop current
      rw [traceHops, followHops, hweb hop]
      cases hhop : fetchHop (o.web 0) caps source current with
      | error exc => rfl
      | ok outcome =>
        match outcome with
        | none => rfl
        | some (.skipped _) => rfl
        | some (.fetched _) => rfl
        | some (.redirect next) => exact ih
  unfold fetchTrace fetchOne
  change _ = o.parse url >>= _
  cases hp : o.parse url with
  | error exc => rfl
  | ok current => exact hloop

/-! ## When the fetch is safe -/

/-- The pin meets the lookup of a request if the host has no decoded label. -/
theorem pinned_iff {r : Request} (h : Guarded o source r) :
    (∀ dns, r.resolver.lookup dns (o.rawHost r.url) = .ok r.pinnedIps) ↔
      o.rawHost r.url = r.url.host := by
  rw [h.2.1]
  by_cases he : o.rawHost r.url = r.url.host
  · simp [Resolver.lookup, he]
  · refine iff_of_false (fun hall => ?_) he
    have := hall fun _ => .error .unicodeError
    simp [Resolver.lookup, he] at this

theorem safe_iff {r : Request} (h : Guarded o source r) :
    SafeRequest o source r ↔ o.rawHost r.url = r.url.host := by
  refine ⟨fun hs => (pinned_iff h).mp hs.pinned, fun he => ?_⟩
  have hguard := h.1
  unfold guardUrl at hguard
  cases hallow : assertHostAllowlisted o.lib r.url.host source.hostAllowlist source.allowHttpHosts
      r.url.scheme with
  | error exc =>
    rw [hallow] at hguard
    cases hguard
  | ok u =>
    rw [hallow] at hguard
    obtain ⟨hhost, hscheme⟩ := allowlisted_of_ok hallow
    exact ⟨hhost, hscheme, hguard, (pinned_iff h).mpr he⟩

end

/-- **Redirect-safe fetching.** Whatever DNS and the servers answer, hop by hop: the fetch of a URL
is safe if and only if every host it requests is its own ASCII form. -/
theorem redirect_safe_iff (o : Outside) (caps : IngestionCaps) (source : HttpSource) (url : Str) :
    FetchSafe o caps source url ↔
      ∀ r ∈ (fetchTrace o caps source url).1, o.rawHost r.url = r.url.host := by
  constructor
  · intro h r hr
    exact (safe_iff (requests_guarded hr)).mp (h.requests r hr)
  · intro h
    refine ⟨fun r hr => ?_, requests_length, fun file => fetched_from⟩
    exact (safe_iff (requests_guarded hr)).mpr (h r hr)

def bookUrl : HttpUrl := { host := "bücher.example".toList, path := "/a".toList }

def bookSource : HttpSource :=
  { name := "books", urls := ["https://bücher.example/a".toList]
    hostAllowlist := ["bücher.example".toList] }

/-- A host with an umlaut, whose address is public when the guard looks. -/
def bookWorld : Outside :=
  { lib := fourLib, parse := fun _ => .ok bookUrl, str := fun _ => "https://xn--bcher-kva.example/a"
    copyWith := fun url _ => .ok url, rawHost := fun _ => "xn--bcher-kva.example"
    dns := fun _ _ => .ok ["8.8.8.8".toList]
    respond := fun _ _ => .ok (some { statusCode := 200 }) }

def bookRequest : Request :=
  { hop := 0, url := bookUrl, pinnedIps := ["8.8.8.8".toList]
    resolver := .pinned "bücher.example" ["8.8.8.8".toList] .original
    response := .ok (some { statusCode := 200 }) }

/-- The lookup of the request goes to DNS, which may answer with a private address by now. -/
theorem idn_host_not_pinned :
    bookRequest ∈ (fetchTrace bookWorld ⟨1000, 10, 1000⟩ bookSource "https://bücher.example/a").1 ∧
      bookRequest.resolver.lookup (fun _ => .ok ["10.0.0.5".toList])
        (bookWorld.rawHost bookRequest.url) = .ok ["10.0.0.5".toList] ∧
      ¬FetchSafe bookWorld ⟨1000, 10, 1000⟩ bookSource "https://bücher.example/a" := by
  have hmem : bookRequest ∈
      (fetchTrace bookWorld ⟨1000, 10, 1000⟩ bookSource "https://bücher.example/a").1 := by
    have htrace : (fetchTrace bookWorld ⟨1000, 10, 1000⟩ bookSource
        "https://bücher.example/a").1 = [bookRequest] := rfl
    rw [htrace]
    exact List.mem_singleton.mpr rfl
  refine ⟨hmem, rfl, fun h => ?_⟩
  have hpinned := (h.requests _ hmem).pinned fun _ => .ok []
  cases hpinned

end KnowledgeKiln.L1.Http
