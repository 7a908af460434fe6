import KnowledgeKiln.Core.Format
import KnowledgeKiln.L1Ingest.Pipeline

/-!
# The HTTP connector (ingestion/_http_connector.py)

`HttpConnector.fetch` fetches the URLs of a source one after the other, follows at most
five hops of redirects by hand, and names what it fetched by host and path. `httpx` and the
address guard are a parameter (`Web`).

* `fetch_pages`: URLs that are answered at once become one file each.
-/
namespace KnowledgeKiln.L1.Http

open KnowledgeKiln.Core KnowledgeKiln.L1.FileProcessing KnowledgeKiln.L1.Pipeline

/-- The parts of an `httpx.URL`. -/
structure HttpUrl where
  scheme : Str := "https"
  userinfo : Str := []
  host : Str
  port : Option Nat := none
  path : Str
  query : Str := []
  deriving DecidableEq

structure Response where
  statusCode : Nat
  isRedirect : Bool := false
  location : Option Str := none
  content : List UInt8 := []

/-- The fields of `HttpSource` that `fetch` reads (sources.py). -/
structure HttpSource where
  name : Str
  urls : List Str
  hostAllowlist : List Str
  allowHttpHosts : List Str := []

/-- connectors.py:84-90. The settings they come from have no lower bound. -/
structure IngestionCaps where
  maxFileBytes : Int
  maxFiles : Int
  maxRepoBytes : Int

/-- `httpx`, and the guard of ssrf.py. -/
structure Web where
  /-- `httpx.URL(url)` -/
  parse : Str → Py HttpUrl
  /-- `str(url)` -/
  str : HttpUrl → Str
  /-- `url.copy_with(path=loc)` -/
  copyWith : HttpUrl → Str → Py HttpUrl
  /-- Whether `_guard_url` lets the URL pass or raises `SsrfRefused`. -/
  guardUrl : HttpSource → HttpUrl → Py Bool
  /-- `client.get(str(url))`; `none` is an `httpx.HTTPError`. -/
  get : HttpUrl → Py (Option Response)
  /-- The printable characters outside ASCII. -/
  isPrintable : Char → Bool := fun _ => true

/-- `getattr(current, "path", "") or "/"` -/
def pathOrRoot (url : HttpUrl) : Str := if url.path = [] then "/" else url.path

/-- The file of a page (_http_connector.py:145-148). -/
def pageFile (url : HttpUrl) (body : List UInt8) : FetchedFile where
  path := url.host ++ pathOrRoot url
  content := body

inductive Hop
  | redirect (url : HttpUrl)
  | skipped (file : SkippedFile)
  | fetched (file : FetchedFile)

/-- Mirrors `_next_redirect` (_http_connector.py:151-178). -/
def nextRedirect (web : Web) (response : Response) (current : HttpUrl) : Py Hop :=
  match response.location with
  | none => pure (.skipped { path := web.str current, reason := .excludedByPattern })
  | some loc =>
    if loc = [] ∨ startsWith loc "//" = true then
      pure (.skipped { path := web.str current, reason := .excludedByPattern })
    else if contains loc "://" then (web.parse loc).map .redirect
    else (web.copyWith current loc).map .redirect

/-- Mirrors `_fetch_hop` (_http_connector.py:115-148). `none` is an exception that `_fetch_one`
catches. -/
def fetchHop (web : Web) (caps : IngestionCaps) (source : HttpSource) (current : HttpUrl) :
    Py (Option Hop) := do
  if !(← web.guardUrl source current) then pure none
  else
    match ← web.get current with
    | none => pure none
    | some response =>
      if response.isRedirect then (nextRedirect web response current).map some
      else if 400 ≤ response.statusCode then
        pure (some (.skipped { path := web.str current, reason := .excludedByPattern }))
      else if caps.maxFileBytes < response.content.length then
        pure (some (.skipped { path := web.str current, reason := .tooLarge }))
      else pure (some (.fetched (pageFile current response.content)))

/-- The hop loop of `_fetch_one`. -/
def followHops (web : Web) (caps : IngestionCaps) (source : HttpSource) (url : Str) :
    Nat → HttpUrl → Py (Except SkippedFile FetchedFile)
  | 0, _ => pure (.error { path := url, reason := .excludedByPattern })
  | hops + 1, current => do
    match ← fetchHop web caps source current with
    | none => pure (.error { path := url, reason := .excludedByPattern })
    | some (.redirect next) => followHops web caps source url hops next
    | some (.skipped file) => pure (.error file)
    | some (.fetched file) => pure (.ok file)

def maxRedirects : Nat := 5

/-- Mirrors `_fetch_one` (_http_connector.py:91-113). -/
def fetchOne (web : Web) (caps : IngestionCaps) (source : HttpSource) (url : Str) :
    Py (Except SkippedFile FetchedFile) := do
  let current ← web.parse url
  followHops web caps source url maxRedirects current

/-- The URL loop of `fetch` (_http_connector.py:73-89). -/
def fetchUrls (web : Web) (caps : IngestionCaps) (source : HttpSource) :
    List Str → Nat → FetchResult → Except FetchError FetchResult
  | [], _, result => .ok result
  | url :: urls, totalBytes, result =>
    match fetchOne web caps source url with
    | .error exc => .error (.raised (.exception exc))
    | .ok (.error skipped) =>
      fetchUrls web caps source urls totalBytes { result with skipped := result.skipped ++ [skipped] }
    | .ok (.ok file) =>
      let totalBytes := totalBytes + file.content.length
      if caps.maxRepoBytes < totalBytes then
        .error <| .capExceeded <| "http source ".toList ++ strRepr web.isPrintable source.name ++
          " exceeded total cap (" ++ natStr totalBytes ++ " > " ++ intStr caps.maxRepoBytes ++
          " bytes)"
      else if caps.maxFiles ≤ result.files.length then
        .error <| .capExceeded <| "http source ".toList ++ strRepr web.isPrintable source.name ++
          " exceeded file count cap (" ++ natStr result.files.length ++ " >= " ++
          intStr caps.maxFiles ++ ")"
      else
        fetchUrls web caps source urls totalBytes { result with files := result.files ++ [file] }

/-- Mirrors `HttpConnector.fetch` (_http_connector.py:60-89). -/
def fetch (web : Web) (caps : IngestionCaps) (source : HttpSource) : Except FetchError FetchResult :=
  fetchUrls web caps source source.urls 0 {}

/-! ## Pages -/

/-- The URL is answered with 200 and this body, and no redirect. -/
structure Answered (web : Web) (caps : IngestionCaps) (source : HttpSource) (url : Str)
    (page : HttpUrl × List UInt8) : Prop where
  parse : web.parse url = .ok page.1
  guardUrl : web.guardUrl source page.1 = .ok true
  get : web.get page.1 = .ok (some { statusCode := 200, content := page.2 })
  size : page.2.length ≤ caps.maxFileBytes

section
variable {web : Web} {caps : IngestionCaps} {source : HttpSource}

theorem Answered.fetchOne {url : Str} {page : HttpUrl × List UInt8}
    (h : Answered web caps source url page) :
    fetchOne web caps source url = .ok (.ok (pageFile page.1 page.2)) := by
  have hhop : fetchHop web caps source page.1 = .ok (some (.fetched (pageFile page.1 page.2))) := by
    have hsize := not_lt.mpr h.size
    simp [fetchHop, h.guardUrl, h.get, hsize, pure, Except.pure, bind, Except.bind]
  unfold Http.fetchOne
  rw [h.parse]
  change followHops web caps source url 5 page.1 = _
  unfold followHops
  rw [hhop]
  rfl

theorem fetchUrls_pages {urls : List Str} {pages : List (HttpUrl × List UInt8)}
    (ha : List.Forall₂ (Answered web caps source) urls pages) :
    ∀ {totalBytes : Nat} {result result' : FetchResult},
      fetchUrls web caps source urls totalBytes result = .ok result' →
      result'.files = result.files ++ pages.map fun p => pageFile p.1 p.2 := by
  induction ha with
  | nil =>
    intro totalBytes result result' h
    cases h
    simp
  | cons hpage _ ih =>
    intro totalBytes result result' h
    unfold fetchUrls at h
    rw [hpage.fetchOne] at h
    dsimp only at h
    split at h
    · cases h
    · split at h
      · cases h
      · rw [ih h]
        simp

/-- A fetch whose URLs are all answered at once returns their pages. -/
theorem fetch_pages {pages : List (HttpUrl × List UInt8)} {result : FetchResult}
    (h : fetch web caps source = .ok result)
    (ha : List.Forall₂ (Answered web caps source) source.urls pages) :
    result.files = pages.map fun p => pageFile p.1 p.2 := by
  have hfiles := fetchUrls_pages ha h
  exact hfiles.trans (List.nil_append _)

end

end KnowledgeKiln.L1.Http
