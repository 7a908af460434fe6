import KnowledgeKiln.L4Api.RateLimit
import KnowledgeKiln.L4Api.Replay

/-!
# The keyed routes

The handlers of `/v1/search`, `/v1/agent/context-pack` and `/v1/answer`, with
everything they touch: the rate limiter's buckets, the cached responses, the
telemetry tables, and the calls of the retriever and the generator. The three
differ in their route, in the work they do, and in that only the last one needs
a generator.

* `replay_not_effect_free`: a replay calls nothing and writes no row, but takes
  a token first; without one, and without a generator on the third route, it is
  refused.
-/
namespace KnowledgeKiln.L4.Handlers

open KnowledgeKiln.Core KnowledgeKiln.L4.Idempotency KnowledgeKiln.L4.RateLimit

/-! ## The rate limit of a request -/

structure HttpRequest where
  idempotencyKey : Option Str
  /-- `X-Forwarded-For` -/
  xForwardedFor : Option Str
  /-- `request.client.host` -/
  clientHost : Option Str
  /-- `body.model_dump(mode="json", exclude_none=True)` -/
  body : JsonDict

/-- `s.casefold()`, for the Latin-1 characters that a header can hold. -/
def casefold (s : Str) : Str :=
  s.flatMap fun c =>
    let n := c.toNat
    if n = 0xDF then ['s', 's']
    else if n = 0xB5 then [Char.ofNat 0x3BC]
    else if (0x41 ≤ n ∧ n ≤ 0x5A) ∨ (0xC0 ≤ n ∧ n ≤ 0xDE ∧ n ≠ 0xD7) then [Char.ofNat (n + 32)]
    else [c]

/-- `_normalize_ip` -/
def normalizeIp (raw : Str) : Str :=
  let s := strip raw
  let s :=
    match s with
    | '[' :: rest => if ']' ∈ rest then rest.takeWhile (· != ']') else s
    | _ => s
  casefold s

/-- `client_ip` -/
def clientIp (req : HttpRequest) (trustXff : Bool) : Str :=
  match trustXff, req.xForwardedFor with
  | true, some (c :: xff) => normalizeIp (partition (c :: xff) ',').1
  | _, _ =>
    match req.clientHost with
    | some host => normalizeIp host
    | none => "unknown"

def rateLimited (retry : Nat) : Reply :=
  .error 429 "rate_limited" "Rate limit exceeded." retry

/-- `raise_429_if_limited`; `t` and `t'` are the clock at the hit and behind it. -/
def raise429IfLimited (l : TokenBucketLimiter) (buckets : Buckets) (key : Str) (t t' : ℚ) :
    Option Reply × Buckets :=
  let (allowed, buckets) := l.hit buckets key t
  if allowed then (none, buckets) else (rateLimited (l.retryAfter buckets key t'), buckets)

/-! ## The handlers -/

inductive Call
  | retriever
  | generator
  deriving DecidableEq, Repr

/-- What a handler touches. -/
structure Api where
  buckets : Buckets
  table : IdempotencyTable
  /-- The rows of `rag_queries`, `context_packs` and `rag_answers`, by the route that writes them. -/
  telemetry : List (Route × JsonDict)
  calls : List Call

/-- The work of a handler between its dispatch and its answer: `retriever.search`,
`retriever.context_pack` or `synthesize_answer`, and the telemetry row it gives. -/
structure Work where
  calls : List Call
  result : Result
  row : JsonDict

/-- The application as it is set up. -/
structure Setup where
  limiter : TokenBucketLimiter
  digest : JsonDict → Str
  trustXff : Bool
  /-- `app.state.generator_provider` is there. -/
  generator : Bool
  search : JsonDict → Work
  contextPack : JsonDict → Work
  synthesizeAnswer : JsonDict → Work

/-- The clocks that one request reads, and whether its two writes go through. -/
structure Moment where
  hit : ℚ
  retry : ℚ
  now : Nat
  stored : Nat
  logs : Bool := true
  stores : Bool := true

/-- The course of all three handlers. -/
def handle (setup : Setup) (route : Route) (work : JsonDict → Work) (m : Moment) (s : Api)
    (req : HttpRequest) : Reply × Api :=
  let (limited, buckets) :=
    raise429IfLimited setup.limiter s.buckets (clientIp req setup.trustXff) m.hit m.retry
  let s := { s with buckets := buckets }
  match limited with
  | some reply => (reply, s)
  | none =>
    let keyed : KeyedRequest := ⟨req.idempotencyKey, route, req.body⟩
    let check := checkOrReplay setup.digest s.table keyed m.now
    match check.reply? with
    | some reply => (reply, s)
    | none =>
      let w := work req.body
      let s := { s with calls := s.calls ++ w.calls }
      match w.result with
      | .response resourceId body =>
        let telemetry := if m.logs then s.telemetry ++ [(route, w.row)] else s.telemetry
        let table :=
          match rowToStore keyed check m.stored (.response resourceId body) with
          | some (slot, row) => if m.stores then (createIfAbsent s.table slot row).2 else s.table
          | none => s.table
        (.response body, { s with telemetry := telemetry, table := table })
      | result => (result.reply, s)

/-- `human_search` -/
def humanSearch (setup : Setup) : Moment → Api → HttpRequest → Reply × Api :=
  handle setup .search setup.search

/-- `agent_context_pack` -/
def agentContextPack (setup : Setup) : Moment → Api → HttpRequest → Reply × Api :=
  handle setup .contextPack setup.contextPack

def generatorUnavailable : Reply :=
  .error 503 "generator_unavailable" ("Generator not configured. Enable models.generator in " ++
    "config/models.yaml and set KILN_GENERATOR_BASE_URL + " ++
    "KILN_GENERATOR_API_KEY to bring up /v1/answer.")

/-- `answer`; the dependency `get_generator_provider` comes before the handler. -/
def answer (setup : Setup) (m : Moment) (s : Api) (req : HttpRequest) : Reply × Api :=
  if setup.generator then handle setup .answer setup.synthesizeAnswer m s req
  else (generatorUnavailable, s)

/-- The handler of a route. -/
def serve (setup : Setup) : Route → Moment → Api → HttpRequest → Reply × Api
  | .search => humanSearch setup
  | .contextPack => agentContextPack setup
  | .answer => answer setup

/-! ## Replays -/

/-- The request is for a slot with a live row, whose hash is the request's. -/
structure IsReplay (setup : Setup) (route : Route) (m : Moment) (s : Api) (req : HttpRequest)
    (row : IdempotencyKey) : Prop where
  found : lookup s.table ⟨req.idempotencyKey, route, req.body⟩ = some row
  live : m.now < row.expiresAt
  hash : row.requestHash = canonicalBodyHash setup.digest (some req.body)

/-- The cached response, as a handler sends it. -/
def cachedReply (row : IdempotencyKey) : Reply :=
  .replay row.responseBody (if row.responseStatus = 0 then 200 else row.responseStatus)

/-- Nothing is called and nothing is written, the buckets are as they were, and the answer is the
cached one. -/
def EffectFree (s : Api) (row : IdempotencyKey) (r : Reply × Api) : Prop :=
  r.2.calls = s.calls ∧ r.2.telemetry = s.telemetry ∧ r.2.table = s.table ∧
    r.2.buckets = s.buckets ∧ r.1 = cachedReply row

section
variable {setup : Setup} {route : Route} {m : Moment} {s : Api} {req : HttpRequest}
  {row : IdempotencyKey} {work : JsonDict → Work}

theorem IsReplay.reply (h : IsReplay setup route m s req row) :
    (checkOrReplay setup.digest s.table ⟨req.idempotencyKey, route, req.body⟩ m.now).reply? =
      some (cachedReply row) := by
  obtain ⟨hrow, hlive, hhash⟩ := h
  have he : ¬row.expiresAt ≤ m.now := by omega
  have hkey : extractKey req.idempotencyKey ≠ none := by
    intro hnone
    simp [lookup, KeyedRequest.slot, hnone] at hrow
  obtain ⟨key, hkey⟩ := Option.ne_none_iff_exists'.mp hkey
  unfold checkOrReplay
  rw [hrow]
  simp only [dispatch, hkey, he, if_false, KeyedRequest.hash, hhash, ne_eq, not_true,
    CheckResult.reply?, cachedReply]
  by_cases hb : row.responseBody = []
  · simp [hb]
  · simp [hb]

/-- A hit always leaves a trace in the buckets. -/
theorem hit_ne_self (l : TokenBucketLimiter) (buckets : Buckets) (key : Str) (t : ℚ)
    (h : (l.hit buckets key t).1 = true) : (l.hit buckets key t).2 ≠ buckets := by
  intro he
  have hself := l.get_hit_self buckets key t
  rw [he] at hself
  have hcur : l.current buckets key t =
      ((l.current buckets key t).take (l.capacity : ℚ) l.refillPerSec t).2 := by
    rw [← Option.some.injEq, ← hself, TokenBucketLimiter.current, hself]
    rfl
  rw [TokenBucketLimiter.hit_allowed_iff] at h
  -- the bucket was refilled at `t`, so this hit refills nothing and takes a token
  have hlast : (l.current buckets key t).lastRefill = t := by
    rw [hcur, Bucket.take_lastRefill]
  have htokens := congrArg Bucket.tokens hcur
  have hmin : (l.current buckets key t).refilled (l.capacity : ℚ) l.refillPerSec t ≤
      (l.current buckets key t).tokens := by
    refine (Bucket.refilled_le _ _ hlast.le).trans (le_of_eq ?_)
    rw [hlast]
    ring
  rw [Bucket.take, if_pos h] at htokens
  dsimp only at htokens
  linarith

theorem cachedReply_ne_error (row : IdempotencyKey) (status : Nat) (code message : Str)
    (retryAfter : Option Nat) : .error status code message retryAfter ≠ cachedReply row := nofun

/-- A replay touches the buckets only. -/
theorem handle_frame (work : JsonDict → Work) (h : IsReplay setup route m s req row) :
    (handle setup route work m s req).2 =
    { s with buckets := (setup.limiter.hit s.buckets (clientIp req setup.trustXff) m.hit).2 } := by
  unfold handle raise429IfLimited
  by_cases ha : (setup.limiter.hit s.buckets (clientIp req setup.trustXff) m.hit).1 = true
  · simp [ha, h.reply]
  · simp [ha]

/-- A replay is answered from the cache if there is a token for it. -/
theorem handle_reply (h : IsReplay setup route m s req row) :
    (handle setup route work m s req).1 = cachedReply row ↔
      (setup.limiter.hit s.buckets (clientIp req setup.trustXff) m.hit).1 = true := by
  unfold handle raise429IfLimited
  by_cases ha : (setup.limiter.hit s.buckets (clientIp req setup.trustXff) m.hit).1 = true
  · simp [ha, h.reply]
  · simp only [ha, if_false, rateLimited, Bool.false_eq_true]
    exact iff_of_false (cachedReply_ne_error _ _ _ _ _) id

/-- Without a token every request is refused. -/
theorem handle_of_denied
    (h : (setup.limiter.hit s.buckets (clientIp req setup.trustXff) m.hit).1 = false) :
    (handle setup route work m s req).1 = rateLimited (setup.limiter.retryAfter
      (setup.limiter.hit s.buckets (clientIp req setup.trustXff) m.hit).2
      (clientIp req setup.trustXff) m.retry) := by
  unfold handle raise429IfLimited
  simp only [h, if_false, Bool.false_eq_true]

theorem handle_not_effectFree (h : IsReplay setup route m s req row) :
    ¬EffectFree s row (handle setup route work m s req) := by
  rintro ⟨_, _, _, hbuckets, hreply⟩
  have ha := (handle_reply h).mp hreply
  rw [handle_frame _ h] at hbuckets
  exact hit_ne_self _ _ _ _ ha hbuckets

end

/-- **Replays take a token.** On every route, whatever the limiter and the cache hold: a replay
calls neither the retriever nor the generator, and writes nothing, but it is never effect-free. It
is answered from the cache if and only if there is a token for it and, on `/v1/answer`, a
generator. -/
theorem replay_not_effect_free (setup : Setup) (route : Route) (m : Moment) (s : Api)
    (req : HttpRequest) (row : IdempotencyKey) (h : IsReplay setup route m s req row) :
    ¬EffectFree s row (serve setup route m s req) ∧
    (serve setup route m s req).2.calls = s.calls ∧
    (serve setup route m s req).2.telemetry = s.telemetry ∧
    (serve setup route m s req).2.table = s.table ∧
    ((serve setup route m s req).1 = cachedReply row ↔
      (setup.limiter.hit s.buckets (clientIp req setup.trustXff) m.hit).1 = true ∧
        (route = .answer → setup.generator = true)) := by
  by_cases hg : route = .answer ∧ setup.generator = false
  · obtain ⟨rfl, hg⟩ := hg
    simp only [serve, answer, hg]
    refine ⟨?_, rfl, rfl, rfl, iff_of_false (cachedReply_ne_error _ _ _ _ _) (by simp)⟩
    exact fun he => cachedReply_ne_error _ _ _ _ _ he.2.2.2.2
  · have hserve : ∃ work, serve setup route m s req = handle setup route work m s req := by
      cases route with
      | search => exact ⟨setup.search, rfl⟩
      | contextPack => exact ⟨setup.contextPack, rfl⟩
      | answer =>
        have hg : setup.generator = true := by simpa using hg
        exact ⟨setup.synthesizeAnswer, by simp [serve, answer, hg]⟩
    obtain ⟨work, hserve⟩ := hserve
    rw [hserve]
    have hframe := handle_frame work h
    refine ⟨handle_not_effectFree h, by rw [hframe], by rw [hframe], by rw [hframe], ?_⟩
    rw [handle_reply h]
    refine ⟨fun ha => ⟨ha, fun hr => ?_⟩, And.left⟩
    by_contra hne
    exact hg ⟨hr, by simpa using hne⟩

/-- One search a second, a digest that reads the query, and work that finds nothing. -/
def smallSetup : Setup :=
  { limiter := oneASecond, digest := queryDigest, trustXff := false, generator := true
    search := fun _ => ⟨[.retriever], .response none [], []⟩
    contextPack := fun _ => ⟨[.retriever], .response none [], []⟩
    synthesizeAnswer := fun _ => ⟨[.retriever, .generator], .response none [], []⟩ }

def searchRequest : HttpRequest :=
  { idempotencyKey := some "k1".toList, xForwardedFor := none, clientHost := some "10.0.0.7".toList
    body := [("query".toList, .str "q")] }

/-- The first search has been answered; its token is the only one there was. -/
def searchedApi : Api :=
  { buckets := (oneASecond.hit .empty "10.0.0.7" 0).2
    table := ((Server.start 5).after firstSearch).table, telemetry := [(.search, [])]
    calls := [.retriever] }

/-- The same search again at once, or ten seconds later. -/
def again (t : ℚ) : Moment := { hit := t, retry := t, now := 6, stored := 6 }

theorem searchAgain_isReplay (t : ℚ) :
    IsReplay smallSetup .search (again t) searchedApi searchRequest (searchRow 5) where
  found := rfl
  live := by
    show 6 < 5 + defaultTtl
    decide
  hash := rfl

theorem replay_not_effect_free_later :
    (serve smallSetup .search (again 10) searchedApi searchRequest).1 = .replay [] 200 ∧
      ¬EffectFree searchedApi (searchRow 5)
        (serve smallSetup .search (again 10) searchedApi searchRequest) := by
  obtain ⟨hfree, -, -, -, hreply⟩ := replay_not_effect_free smallSetup .search (again 10)
    searchedApi searchRequest (searchRow 5) (searchAgain_isReplay 10)
  exact ⟨hreply.mpr ⟨by decide +kernel, nofun⟩, hfree⟩

/-- With an empty bucket the replay is refused. -/
theorem replay_refused : IsReplay smallSetup .search (again 0) searchedApi searchRequest
      (searchRow 5) ∧
    (serve smallSetup .search (again 0) searchedApi searchRequest).1 = rateLimited 1 ∧
    ¬EffectFree searchedApi (searchRow 5)
      (serve smallSetup .search (again 0) searchedApi searchRequest) := by
  have hreply : (serve smallSetup .search (again 0) searchedApi searchRequest).1 =
      rateLimited (smallSetup.limiter.retryAfter (smallSetup.limiter.hit searchedApi.buckets
        (clientIp searchRequest false) 0).2 (clientIp searchRequest false) 0) :=
    handle_of_denied (by decide +kernel)
  have hretry : smallSetup.limiter.retryAfter (smallSetup.limiter.hit searchedApi.buckets
      (clientIp searchRequest false) 0).2 (clientIp searchRequest false) 0 = 1 := by
    decide +kernel
  rw [hretry] at hreply
  exact ⟨searchAgain_isReplay 0, hreply, handle_not_effectFree (searchAgain_isReplay 0)⟩

end KnowledgeKiln.L4.Handlers
