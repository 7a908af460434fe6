import KnowledgeKiln.L4Api.Replay
import KnowledgeKiln.L4Api.ResultsPage

/-!
# The audit trail of the API

Each of the three handlers logs a row about its response, with the id the
client is sent as primary key, in the transaction of the request and before the
response is stored for replay. The insert stands in a savepoint: when it fails,
the handler goes on. It waits while another transaction holds an uncommitted
row with the same key, and fails when there is a committed one. The commit comes
when the response was sent, and may fail then.

The machine is that of `Replay` with the rows of the three tables beside it.

* `Traced`: each cached, read or replayed response is that of a request its own
  handler has answered.
* `Kept`: which rows are held and which are committed.
* `trail_sound`: what the tables tell of the requests, in every state of every run.
-/
namespace KnowledgeKiln.L4.Audit

open KnowledgeKiln.Core KnowledgeKiln.L2 KnowledgeKiln.L4.Idempotency

/-! ## What the handlers work on -/

/-- What leaves the work of a handler instead of a result. -/
inductive Raised
  | valueError (detail : Str)
  | other

/-- A validated body, and how the work on it ends. -/
inductive Work
  | search (body : SearchRequest) (result : Except Raised SearchResult)
  | contextPack (body : ContextPackRequest) (result : Except Raised ContextPackResponse)
  | answer (body : AnswerRequest) (result : Except Raised AnswerResponse)

/-- A request, as its handler sees it. -/
structure Client where
  header : Option Str
  work : Work
  /-- `request_id_for(request)` and `username_for(request)` -/
  requestId : Option Str
  requester : Option Str

/-- What Pydantic makes of the models that are stored. -/
structure Dumps where
  env : Env
  searchRequest : SearchRequest → JsonDict
  contextPackRequest : ContextPackRequest → JsonDict
  answerRequest : AnswerRequest → JsonDict
  filters : RetrievalFilters → JsonDict
  warning : Warning → JsonDict
  searchResponse : ResultsPage.SearchResponse → JsonDict
  contextPackResponse : ContextPackResponse → JsonDict
  answerResponse : AnswerResponse → JsonDict

/-! ## The rows -/

/-- mirrors db/models.py:180-198 -/
structure RagQuery where
  query : Str
  requester : Option Str
  consumerType : Str
  filters : JsonDict
  retrievedChunkIds : List Uuid
  requestId : Option Str

/-- mirrors db/models.py:221-244 -/
structure ContextPack where
  query : Str
  task : Str
  filters : JsonDict
  evidenceChunkIds : List Uuid
  tokenBudget : Nat
  tokenEstimate : Nat
  confidence : Confidence
  warnings : List JsonDict
  requiresHumanReview : Bool
  requestId : Option Str
  requester : Option Str

/-- mirrors db/models.py:247-309 -/
structure RagAnswer where
  query : Str
  task : Option Str
  filters : JsonDict
  evidenceChunkIds : List Uuid
  answerable : Bool
  requiresHumanReview : Bool
  refusalReason : Option Str
  confidence : Confidence
  generatorProvider : Option Str
  generatorModel : Option Str
  finishReason : Option Str
  promptTokens : Option Int
  completionTokens : Option Int
  totalTokens : Option Int
  requestedMaxAnswerTokens : Nat
  requestId : Option Str
  requester : Option Str

inductive Columns
  | query (row : RagQuery)
  | contextPack (row : ContextPack)
  | answer (row : RagAnswer)

def Columns.requestId : Columns → Option Str
  | query row => row.requestId
  | contextPack row => row.requestId
  | answer row => row.requestId

/-- A row with its primary key; each route has a table of its own. -/
structure AuditRow where
  route : Route
  id : Uuid
  columns : Columns

def AuditRow.key (r : AuditRow) : Route × Uuid := (r.route, r.id)

section
variable (d : Dumps)

/-- `body.filters.model_dump(exclude_none=True) if body.filters else {}` -/
def filtersOf (filters : Option RetrievalFilters) : JsonDict := (filters.map d.filters).getD []

/-- Mirrors `_log_rag_query` (api/retrieval.py:284-320). -/
def logRagQuery (c : Client) (body : SearchRequest) (result : SearchResult) (id : Uuid) :
    AuditRow where
  route := .search
  id := id
  columns := .query
    { query := body.query
      requester := c.requester
      consumerType := "human"
      filters := d.filters (body.filters.getD {})
      retrievedChunkIds := result.chunks.map (·.chunkId)
      requestId := c.requestId }

/-- Mirrors `_log_context_pack` (api/retrieval.py:323-360). -/
def logContextPack (c : Client) (body : ContextPackRequest) (pack : ContextPackResponse) :
    AuditRow where
  route := .contextPack
  id := pack.contextPackId
  columns := .contextPack
    { query := body.query
      task := body.task
      filters := filtersOf d body.filters
      evidenceChunkIds := pack.evidence.map (·.chunkId)
      tokenBudget := pack.tokenBudget.requested
      tokenEstimate := pack.tokenBudget.usedEstimate
      confidence := pack.confidence
      warnings := pack.warnings.map d.warning
      requiresHumanReview := pack.requiresHumanReview
      requestId := c.requestId
      requester := c.requester }

/-- Mirrors `_log_answer_query` (api/answer.py:142-189). -/
def logAnswerQuery (c : Client) (body : AnswerRequest) (response : AnswerResponse) :
    AuditRow where
  route := .answer
  id := response.answerId
  columns := .answer
    { query := body.query
      task := body.task
      filters := filtersOf d body.filters
      evidenceChunkIds := response.evidence.map (·.chunkId)
      answerable := response.answerable
      requiresHumanReview := response.requiresHumanReview
      refusalReason := response.refusalReason
      confidence := response.confidence
      generatorProvider := response.generatorProvider
      generatorModel := response.generatorModel
      finishReason := response.tokenBudget.finishReason
      promptTokens := response.tokenBudget.promptTokens
      completionTokens := response.tokenBudget.completionTokens
      totalTokens := response.tokenBudget.totalTokens
      requestedMaxAnswerTokens := response.tokenBudget.requestedMaxAnswerTokens
      requestId := c.requestId
      requester := c.requester }

def Raised.result : Raised → Result
  | valueError detail => .badRequest detail
  | other => .crash

/-- What the handler sends, and stores for replay. -/
def Client.result (c : Client) : Result :=
  match c.work with
  | .search body (.ok result) =>
    match ResultsPage.searchResponse d.env body.query result with
    | .ok response => .response none (d.searchResponse response)
    | .error _ => .crash
  | .contextPack _ (.ok pack) =>
    .response (some (L3.PackJson.uuidStr pack.contextPackId)) (d.contextPackResponse pack)
  | .answer _ (.ok response) =>
    .response (some (L3.PackJson.uuidStr response.answerId)) (d.answerResponse response)
  | .search _ (.error raised) | .contextPack _ (.error raised) | .answer _ (.error raised) =>
    raised.result

/-- The row the handler logs before, if it gets there; `id` is what `gen_random_uuid()` gives the
row of a search. -/
def Client.record (c : Client) (id : Uuid) : Option AuditRow :=
  match c.work with
  | .search body (.ok result) =>
    match ResultsPage.searchResponse d.env body.query result with
    | .ok _ => some (logRagQuery d c body result id)
    | .error _ => none
  | .contextPack body (.ok pack) => some (logContextPack d c body pack)
  | .answer body (.ok response) => some (logAnswerQuery d c body response)
  | .search _ (.error _) | .contextPack _ (.error _) | .answer _ (.error _) => none

/-- The request that the dispatcher sees. -/
def Client.keyed (c : Client) : KeyedRequest where
  header := c.header
  route := match c.work with
    | .search _ _ => .search
    | .contextPack _ _ => .contextPack
    | .answer _ _ => .answer
  body := match c.work with
    | .search body _ => d.searchRequest body
    | .contextPack body _ => d.contextPackRequest body
    | .answer body _ => d.answerRequest body

end

variable {d : Dumps} {c : Client} {id : Uuid} {row : AuditRow}

/-- A handler logs a row exactly if it has a response. -/
theorem record_isSome_iff : (c.record d id).isSome ↔
    ∃ resourceId body, c.result d = .response resourceId body := by
  unfold Client.record Client.result
  rcases c with ⟨header, work, requestId, requester⟩
  cases work with
  | search body result =>
    cases result with
    | ok result =>
      dsimp only
      cases ResultsPage.searchResponse d.env body.query result <;> simp
    | error raised => cases raised <;> simp [Raised.result]
  | contextPack body result =>
    cases result with
    | ok pack => simp
    | error raised => cases raised <;> simp [Raised.result]
  | answer body result =>
    cases result with
    | ok response => simp
    | error raised => cases raised <;> simp [Raised.result]

/-- What a row says of its request. -/
structure Names (d : Dumps) (c : Client) (row : AuditRow) : Prop where
  route : row.route = (c.keyed d).route
  requestId : row.columns.requestId = c.requestId
  /-- the id that was sent is the primary key -/
  contextPackId : ∀ {body pack}, c.work = .contextPack body (.ok pack) → row.id = pack.contextPackId
  answerId : ∀ {body response}, c.work = .answer body (.ok response) → row.id = response.answerId

theorem names_of_record (h : c.record d id = some row) : Names d c row := by
  rcases c with ⟨header, work, requestId, requester⟩
  cases work with
  | search body result =>
    cases result with
    | ok result =>
      simp only [Client.record] at h
      split at h
      · obtain rfl := Option.some.inj h
        exact ⟨rfl, rfl, nofun, nofun⟩
      · exact absurd h nofun
    | error raised => exact absurd h nofun
  | contextPack body result =>
    cases result with
    | ok pack =>
      obtain rfl := Option.some.inj h
      exact ⟨rfl, rfl, fun he => by cases he; rfl, nofun⟩
    | error raised => exact absurd h nofun
  | answer body result =>
    cases result with
    | ok response =>
      obtain rfl := Option.some.inj h
      exact ⟨rfl, rfl, nofun, fun he => by cases he; rfl⟩
    | error raised => exact absurd h nofun

/-! ## Where a response comes from -/

section
variable (d : Dumps) (digest : JsonDict → Str) (clients : Nat → Client)

/-- The session of the request was committed with this response of its handler. -/
def AnsweredBy (s : Server) (i : Nat) (body : JsonDict) : Prop :=
  s.phase i = .answered ((clients i).keyed d) (.response body)

/-- A request for the slot, with this hash, was committed with this response of its own handler. -/
def Origin (s : Server) (slot : Slot) (hash : Str) (body : JsonDict) : Prop :=
  ∃ j, AnsweredBy d clients s j body ∧ ((clients j).keyed d).slot = some slot ∧
    ((clients j).keyed d).hash digest = hash

/-- What the event says of a client is what the client has. -/
def Ours : Idempotency.Event → Prop
  | .lookup i req => req = (clients i).keyed d
  | .finish i result => result = (clients i).result d
  | _ => True

/-- What the phase of request `i` may say. -/
def Tells (s : Server) (i : Nat) : Phase → Prop
  | .fresh => True
  | .lookedUp req cached => req = (clients i).keyed d ∧ ∀ row, cached = some row →
    row.responseStatus = 200 ∧ ∃ slot, req.slot = some slot ∧
      Origin d digest clients s slot row.requestHash row.responseBody
  | .running req _ => req = (clients i).keyed d
  | .produced req _ result _ | .stored req _ result _ =>
    req = (clients i).keyed d ∧ result = (clients i).result d
  | .answered req (.response body) =>
    req = (clients i).keyed d ∧ ∃ resourceId, (clients i).result d = .response resourceId body
  | .answered req (.replay body status) => req = (clients i).keyed d ∧ status = 200 ∧
    ∃ slot, req.slot = some slot ∧ Origin d digest clients s slot (req.hash digest) body
  | .answered req (.error _ _ _ _) => req = (clients i).keyed d

structure Traced (s : Server) : Prop where
  phase : ∀ i, Tells d digest clients s i (s.phase i)
  table : ∀ {slot row}, s.table slot = some row →
    Origin d digest clients s slot row.requestHash row.responseBody
  sent : ∀ {i body}, s.sent i = some body → ∃ resourceId,
    (clients i).result d = .response resourceId body

end

variable {digest : JsonDict → Str} {clients : Nat → Client} {s s' : Server}

theorem Origin.step {e : Idempotency.Event} {slot : Slot} {hash : Str} {body : JsonDict}
    (hs : Idempotency.step digest s e = some s') (h : Origin d digest clients s slot hash body) :
    Origin d digest clients s' slot hash body := by
  obtain ⟨j, hj, hslot, hhash⟩ := h
  have hm := move_of_step hs
  exact ⟨j, (hm.frame (hm.answered hj)).1.trans hj, hslot, hhash⟩

/-- A response is sent once its handler has stored it. -/
theorem sent_of_step {e : Idempotency.Event} (hs : Idempotency.step digest s e = some s') (i : Nat) :
    s'.sent i = s.sent i ∨ ∃ req check resourceId body time,
      s.phase i = .stored req check (.response resourceId body) time ∧ s'.sent i = some body := by
  cases move_of_step hs with
  | @send j req check resourceId body time hj =>
    by_cases hij : i = j
    · subst hij
      exact .inr ⟨req, check, resourceId, body, time, hj, by simp⟩
    · exact .inl (by simp [hij])
  | _ => exact .inl rfl

theorem reply_ne_response {req : KeyedRequest} {cached : Option IdempotencyKey} {now : Nat}
    {body : JsonDict} : (dispatch digest req cached now).reply? ≠ some (.response body) := by
  unfold CheckResult.reply?
  split <;> exact nofun

/-- What a request replays is the row it has read, whose hash is its own. -/
theorem replay_of_dispatch {req : KeyedRequest} {cached : Option IdempotencyKey} {now : Nat}
    {body : JsonDict} {status : Nat}
    (h : (dispatch digest req cached now).reply? = some (.replay body status)) :
    ∃ row, cached = some row ∧ row.requestHash = req.hash digest ∧ row.responseBody = body ∧
      (row.responseStatus = 200 → status = 200) := by
  unfold dispatch at h
  split at h
  · cases h
  · cases cached with
    | none => cases h
    | some row =>
      dsimp only at h
      split at h
      · cases h
      · split at h
        · cases h
        · rename_i hhash
          simp only [CheckResult.reply?, Option.some.injEq, Reply.replay.injEq,
            Option.getD_some] at h
          refine ⟨row, rfl, not_not.mp hhash, ?_, fun hs => ?_⟩
          · rw [← h.1]
            cases row.responseBody <;> rfl
          · rw [← h.2, hs]
            rfl

/-- The check of a keyed request carries its slot and its hash. -/
theorem slot_of_key {req : KeyedRequest} {cached : Option IdempotencyKey} {now : Nat} {key : Str}
    (h : (dispatch digest req cached now).key = some key) : req.slot = some (key, req.route) := by
  cases hk : extractKey req.header with
  | none => simp [dispatch, hk] at h
  | some key' =>
    have hslot : req.slot = some (key', req.route) := by simp [KeyedRequest.slot, hk]
    rw [(dispatch_key digest cached now hslot).1] at h
    cases h
    exact hslot

/-- The row that a handler stores is about its own request. -/
theorem stored_names {req : KeyedRequest} {cached : Option IdempotencyKey} {now time : Nat}
    {resourceId : Option Str} {body : JsonDict} {slot : Slot} {row : IdempotencyKey}
    (h : rowToStore req (dispatch digest req cached now) time (.response resourceId body) =
      some (slot, row)) :
    req.slot = some slot ∧ row.requestHash = req.hash digest ∧ row.responseBody = body := by
  cases hk : (dispatch digest req cached now).key with
  | none => simp [rowToStore, hk] at h
  | some key =>
    have hslot := slot_of_key hk
    rw [rowToStore_response time rfl hslot] at h
    cases h
    exact ⟨hslot, rfl, rfl⟩

/-- How a session ends: its response is committed, or its rows are dropped and an error is sent. -/
theorem close_cases {i : Nat} {ok : Bool} (h : Idempotency.step digest s (.close i ok) = some s') :
    (∃ req check resourceId body time,
      s.phase i = .stored req check (.response resourceId body) time ∧ ok = true ∧
      s' = { s.setPhase i (.answered req (.response body)) with
        table := s.commit i, pending := s.release i }) ∨
    ∃ req check result time reply, s.phase i = .stored req check result time ∧
      (ok = false ∨ ∀ resourceId body, result ≠ .response resourceId body) ∧
      (∀ body, reply ≠ .response body) ∧ (∀ body status, reply ≠ .replay body status) ∧
      s' = { s.setPhase i (.answered req reply) with pending := s.release i } := by
  simp only [Idempotency.step] at h
  split at h
  · rename_i req check resourceId body time hi
    split at h
    · rename_i hok
      exact .inl ⟨req, check, resourceId, body, time, hi, hok, (Option.some.inj h).symm⟩
    · rename_i hok
      refine .inr ⟨req, check, _, time, Result.crash.reply, hi, .inl (by simpa using hok), ?_,
        Result.reply_ne_replay _, (Option.some.inj h).symm⟩
      intro body he
      cases he
  · rename_i req check result time hne hi
    refine .inr ⟨req, check, result, time, _, hi, .inr hne, fun body he => ?_, ?_,
      (Option.some.inj h).symm⟩
    · cases result with
      | response resourceId body => exact hne _ _ rfl
      | badRequest detail => cases he
      | crash => cases he
    · exact Result.reply_ne_replay result
  · cases h

theorem Tells.request {i : Nat} {p : Phase} {req : KeyedRequest} (h : Tells d digest clients s i p)
    (hp : p.request? = some req) : req = (clients i).keyed d := by
  cases p with
  | fresh => cases hp
  | running _ _ =>
    cases hp
    exact h
  | lookedUp _ _ | produced _ _ _ _ | stored _ _ _ _ =>
    cases hp
    exact h.1
  | answered _ reply =>
    cases hp
    cases reply with
    | error _ _ _ _ => exact h
    | response _ | replay _ _ => exact h.1

theorem Tells.mono {i : Nat} {p : Phase} {t : Server} (h : Tells d digest clients s i p)
    (ht : ∀ {slot hash body}, Origin d digest clients s slot hash body →
      Origin d digest clients t slot hash body) : Tells d digest clients t i p := by
  cases p with
  | lookedUp req cached =>
    refine ⟨h.1, fun row hrow => ?_⟩
    obtain ⟨hstatus, slot, hslot, ho⟩ := h.2 row hrow
    exact ⟨hstatus, slot, hslot, ht ho⟩
  | answered req reply =>
    cases reply with
    | replay body status =>
      obtain ⟨hreq, hstatus, slot, hslot, ho⟩ := h
      exact ⟨hreq, hstatus, slot, hslot, ht ho⟩
    | response _ | error _ _ _ _ => exact h
  | fresh | running _ _ | produced _ _ _ _ | stored _ _ _ _ => exact h

theorem Traced.tells {i : Nat} {p : Phase} (h : Traced d digest clients s) (hi : s.phase i = p) :
    Tells d digest clients s i p := by
  rw [← hi]
  exact h.phase i

/-- A request moves on. -/
theorem Traced.setPhase {i : Nat} {p : Phase} {t : Server} (h : Traced d digest clients s)
    (ht : t.phase = (s.setPhase i p).phase)
    (hstep : ∀ {slot hash body}, Origin d digest clients s slot hash body →
      Origin d digest clients t slot hash body)
    (htable : ∀ {slot row}, t.table slot = some row →
      Origin d digest clients t slot row.requestHash row.responseBody)
    (hsent : ∀ {j body}, t.sent j = some body → ∃ resourceId,
      (clients j).result d = .response resourceId body)
    (hp : Tells d digest clients t i p) : Traced d digest clients t where
  phase j := by
    rw [ht, Server.setPhase_phase]
    split
    · rename_i hj
      rwa [hj]
    · exact (h.phase j).mono hstep
  table := htable
  sent := hsent

/-- What was sent is a result of its handler. -/
theorem Traced.sent_step {e : Idempotency.Event} (h : Traced d digest clients s)
    (hs : Idempotency.step digest s e = some s') {i : Nat} {body : JsonDict}
    (hi : s'.sent i = some body) : ∃ resourceId, (clients i).result d = .response resourceId body := by
  rcases sent_of_step hs i with he | ⟨req, check, resourceId, body', time, hp, hbody⟩
  · exact h.sent (he.symm.trans hi)
  · obtain rfl : body' = body := Option.some.inj (hbody.symm.trans hi)
    exact ⟨resourceId, (h.tells hp).2.symm⟩

/-- The end of a session: the row that is committed is one of the response that is sent. -/
theorem Traced.close {i : Nat} {ok : Bool} (hsound : Sound digest s)
    (h : Traced d digest clients s)
    (hs : Idempotency.step digest s (.close i ok) = some s') : Traced d digest clients s' := by
  have hstep := fun {slot hash body} (ho : Origin d digest clients s slot hash body) => ho.step hs
  rcases close_cases hs with ⟨req, check, resourceId, body, time, hi, -, rfl⟩ |
    ⟨req, check, result, time, reply, hi, -, hr, hn, rfl⟩
  · obtain ⟨hreq, hresult⟩ := h.tells hi
    refine h.setPhase rfl hstep (fun {slot row} hrow => ?_) (h.sent_step hs)
      ⟨hreq, resourceId, hresult.symm⟩
    rcases Server.commit_some hrow with hp | ⟨hrow, -⟩
    · -- the row that becomes visible is that of the request itself
      obtain ⟨req', check', result, time', hi', hr⟩ := hsound.pending hp
      rw [hi] at hi'
      obtain ⟨rfl, rfl, rfl, rfl⟩ := Phase.stored.inj hi'
      obtain ⟨cached, now, rfl⟩ := hsound.checked (i := i) (by rw [hi]; rfl)
      obtain ⟨hslot, hhash, hbody⟩ := stored_names hr
      rw [hhash, hbody]
      subst hreq
      exact ⟨i, Server.setPhase_self s i _, hslot, rfl⟩
    · exact hstep (h.table hrow)
  · refine h.setPhase rfl hstep (fun hrow => hstep (h.table hrow)) (h.sent_step hs) ?_
    cases reply with
    | response body => exact absurd rfl (hr body)
    | replay body status => exact absurd rfl (hn body status)
    | error _ _ _ _ => exact (h.tells hi).1

theorem Traced.step {e : Idempotency.Event} (hsound : Sound digest s)
    (h : Traced d digest clients s) (hours : Ours d clients e)
    (hs : Idempotency.step digest s e = some s') : Traced d digest clients s' := by
  by_cases hclose : ∃ i ok, e = .close i ok
  · obtain ⟨i, ok, rfl⟩ := hclose
    exact h.close hsound hs
  have hstep := fun {slot hash body} (ho : Origin d digest clients s slot hash body) => ho.step hs
  cases move_of_step hs with
  | tick _ | send _ => exact ⟨fun i => (h.phase i).mono hstep, h.table, h.sent_step hs⟩
  | sweep _ =>
    exact ⟨fun i => (h.phase i).mono hstep, fun hrow => h.table (deleteExpired_some hrow),
      h.sent_step hs⟩
  | @lookup i req hi =>
    refine h.setPhase rfl hstep (fun hrow => hstep (h.table hrow)) (h.sent_step hs) ⟨hours, fun row he => ?_⟩
    obtain ⟨slot, hslot, hrow⟩ := Option.bind_eq_some_iff.mp he
    exact ⟨hsound.status hrow, slot, hslot, hstep (h.table hrow)⟩
  | @answer i req cached reply hi hr =>
    refine h.setPhase rfl hstep (fun hrow => hstep (h.table hrow)) (h.sent_step hs) ?_
    cases reply with
    | response body => exact absurd hr reply_ne_response
    | error _ _ _ _ => exact (h.tells hi).1
    | replay body status =>
      obtain ⟨row, rfl, hhash, rfl, hstatus⟩ := replay_of_dispatch hr
      obtain ⟨hreq, hread⟩ := h.tells hi
      obtain ⟨h200, slot, hslot, ho⟩ := hread row rfl
      rw [hhash] at ho
      exact ⟨hreq, hstatus h200, slot, hslot, hstep ho⟩
  | @run i req cached hi _ =>
    exact h.setPhase rfl hstep (fun hrow => hstep (h.table hrow)) (h.sent_step hs) (h.tells hi).1
  | @finish i req check result hi =>
    exact h.setPhase rfl hstep (fun hrow => hstep (h.table hrow)) (h.sent_step hs) ⟨h.tells hi, hours⟩
  | @skip i ok req check result time hi _ =>
    exact h.setPhase rfl hstep (fun hrow => hstep (h.table hrow)) (h.sent_step hs) (h.tells hi)
  | @insert i req check result time slot row hi _ _ _ =>
    exact h.setPhase rfl hstep (fun hrow => hstep (h.table hrow)) (h.sent_step hs) (h.tells hi)
  | commit _ => exact absurd ⟨_, _, rfl⟩ hclose
  | rollback _ _ _ => exact absurd ⟨_, _, rfl⟩ hclose

/-! ## The tables -/

structure State where
  server : Server
  /-- Whether the insert of a request went through, once its handler has tried it. -/
  logged : Nat → Option Bool
  /-- The uncommitted rows, with the requests that inserted them. -/
  held : List (Nat × AuditRow)
  /-- The committed rows, with the requests that inserted them, as `xmin` tells. -/
  rows : List (Nat × AuditRow)

def State.start (now : Nat) : State where
  server := .start now
  logged := fun _ => none
  held := []
  rows := []

inductive Event
  | tick (now : Nat)
  | lookup (i : Nat)
  | dispatch (i : Nat)
  | finish (i : Nat)
  /-- `gen_random_uuid()` gives `id`; `ok` says whether the database accepts the row. -/
  | log (i : Nat) (id : Uuid) (ok : Bool)
  | store (i : Nat) (ok : Bool)
  | send (i : Nat)
  | close (i : Nat) (ok : Bool)
  | sweep (cutoff : Nat)

def hasKey (rows : List (Nat × AuditRow)) (key : Route × Uuid) : Bool :=
  rows.any fun r => r.2.key == key

/-- The handler is between its work and the end of its session. -/
def working : Phase → Bool
  | .produced _ _ _ _ | .stored _ _ _ _ => true
  | _ => false

/-- The session ends in a commit. -/
def commits (p : Phase) (ok : Bool) : Bool :=
  match p with
  | .stored _ _ (.response _ _) _ => ok
  | _ => false

section
variable (d : Dumps) (digest : JsonDict → Str) (clients : Nat → Client)

def State.serve (s : State) (e : Idempotency.Event) : Option State :=
  (Idempotency.step digest s.server e).map fun t => { s with server := t }

def step (s : State) : Event → Option State
  | .tick now => s.serve digest (.tick now)
  | .lookup i => s.serve digest (.lookup i ((clients i).keyed d))
  | .dispatch i => s.serve digest (.dispatch i)
  | .finish i => s.serve digest (.finish i ((clients i).result d))
  | .log i id ok =>
    match s.server.phase i, (clients i).record d id with
    | .produced _ _ _ _, some row =>
      if (s.logged i).isSome then none
      -- the insert waits for the transaction that holds the key
      else if hasKey s.held row.key then none
      else if ok && !hasKey s.rows row.key then
        some { s with
          logged := Function.update s.logged i (some true), held := s.held ++ [(i, row)] }
      else some { s with logged := Function.update s.logged i (some false) }
    | _, _ => none
  | .store i ok =>
    -- a handler with a response has logged it
    if ((clients i).record d 0).isSome && (s.logged i).isNone then none
    else s.serve digest (.store i ok)
  | .send i => s.serve digest (.send i)
  | .close i ok => (s.serve digest (.close i ok)).map fun t =>
    { t with
      held := s.held.filter fun r => !decide (r.1 = i)
      rows := if commits (s.server.phase i) ok then s.rows ++ s.held.filter (·.1 = i) else s.rows }
  | .sweep cutoff => s.serve digest (.sweep cutoff)

end

/-- The session was committed with its response. -/
def committed : Phase → Bool
  | .answered _ (.response _) => true
  | _ => false

/-- The handler has done its work, or was not asked to. -/
def past : Phase → Bool
  | .produced _ _ _ _ | .stored _ _ _ _ | .answered _ _ => true
  | _ => false

theorem exists_of_committed {p : Phase} (h : committed p = true) :
    ∃ req body, p = .answered req (.response body) := by
  unfold committed at h
  split at h
  · exact ⟨_, _, rfl⟩
  · cases h

theorem past_of_working {p : Phase} (h : working p = true) : past p = true := by
  cases p <;> first | rfl | cases h

/-- What the phases tell of the logging stays true while a request moves on within its session. -/
structure Within (p q : Phase) : Prop where
  committed : Audit.committed q = Audit.committed p
  working : past p = true → Audit.working q = Audit.working p
  past : past p = true → Audit.past q = true

theorem Within.refl (p : Phase) : Within p p := ⟨rfl, fun _ => rfl, id⟩

theorem within_of_step {e : Idempotency.Event} (hs : Idempotency.step digest s e = some s')
    (he : ∀ i ok, e ≠ .close i ok) (j : Nat) : Within (s.phase j) (s'.phase j) := by
  have hmove : ∀ {i : Nat} {p : Phase}, Within (s.phase i) p →
      Within (s.phase j) ((s.setPhase i p).phase j) := fun {i p} h => by
    rw [Server.setPhase_phase]
    split
    · rename_i hj
      rwa [hj]
    · exact .refl _
  cases move_of_step hs with
  | tick _ | sweep _ | send _ => exact .refl _
  | lookup hi =>
    refine hmove ?_
    rw [hi]
    exact ⟨rfl, nofun, nofun⟩
  | @answer i req cached reply hi hr =>
    refine hmove ?_
    rw [hi]
    refine ⟨?_, nofun, nofun⟩
    cases reply with
    | response body => exact absurd hr reply_ne_response
    | replay _ _ | error _ _ _ _ => rfl
  | run hi _ | finish hi =>
    refine hmove ?_
    rw [hi]
    exact ⟨rfl, nofun, nofun⟩
  | skip hi _ | insert hi _ _ _ =>
    refine hmove ?_
    rw [hi]
    exact ⟨rfl, fun _ => rfl, fun _ => rfl⟩
  | commit _ | rollback _ _ _ => exact absurd rfl (he _ _)

theorem stored_of_step {e : Idempotency.Event} (hs : Idempotency.step digest s e = some s')
    (he : ∀ i ok, e ≠ .close i ok) {j : Nat} {req : KeyedRequest} {check : CheckResult}
    {result : Result} {time : Nat} (hj : s'.phase j = .stored req check result time) :
    s.phase j = .stored req check result time ∨
      ∃ ok, e = .store j ok ∧ s.phase j = .produced req check result time := by
  have hmove : ∀ {i : Nat} {p : Phase}, (s.setPhase i p).phase j = .stored req check result time →
      s.phase j = .stored req check result time ∨ j = i ∧ p = .stored req check result time :=
    fun {i p} h => by
      rw [Server.setPhase_phase] at h
      split at h
      · exact .inr ⟨‹_›, h⟩
      · exact .inl h
  cases move_of_step hs with
  | tick _ | sweep _ | send _ => exact .inl hj
  | lookup hi | answer hi _ | run hi _ | finish hi =>
    rcases hmove hj with h | ⟨-, h⟩
    · exact .inl h
    · cases h
  | skip hi _ | insert hi _ _ _ =>
    rcases hmove hj with h | ⟨rfl, h⟩
    · exact .inl h
    · rw [hi]
      obtain ⟨rfl, rfl, rfl, rfl⟩ := Phase.stored.inj h
      exact .inr ⟨_, rfl, rfl⟩
  | commit _ | rollback _ _ _ => exact absurd rfl (he _ _)

/-- Which rows are held, and which are committed. -/
structure Kept (d : Dumps) (clients : Nat → Client) (s : State) : Prop where
  held : ∀ {i row}, (i, row) ∈ s.held → s.logged i = some true ∧
    working (s.server.phase i) = true ∧ ∃ id, (clients i).record d id = some row
  holds : ∀ {i}, s.logged i = some true → working (s.server.phase i) = true →
    ∃ row, (i, row) ∈ s.held
  rows : ∀ {i row}, (i, row) ∈ s.rows → s.logged i = some true ∧
    committed (s.server.phase i) = true ∧ ∃ id, (clients i).record d id = some row
  lands : ∀ {i}, s.logged i = some true → committed (s.server.phase i) = true →
    ∃ row, (i, row) ∈ s.rows
  past : ∀ {i}, s.logged i ≠ none → past (s.server.phase i) = true
  logs : ∀ {i req check resourceId body time},
    s.server.phase i = .stored req check (.response resourceId body) time → s.logged i ≠ none
  sends : ∀ {i}, committed (s.server.phase i) = true → s.logged i ≠ none
  told : ∀ {i}, s.server.sent i ≠ none → s.logged i ≠ none
  keys : ((s.rows ++ s.held).map fun r => r.2.key).Nodup
  requests : ((s.rows ++ s.held).map Prod.fst).Nodup

variable {st : State}

theorem kept_start (now : Nat) : Kept d clients (State.start now) where
  held h := by cases h
  holds h := by cases h
  rows h := by cases h
  lands h := by cases h
  past h := absurd rfl h
  logs h := by cases h
  sends h := by cases h
  told h := absurd rfl h
  keys := List.nodup_nil
  requests := List.nodup_nil

/-- A request moves on within its session. -/
theorem Kept.serve {e : Idempotency.Event} (h : Kept d clients st)
    (htraced : Traced d digest clients st.server)
    (hs : Idempotency.step digest st.server e = some s') (he : ∀ i ok, e ≠ .close i ok)
    (hlog : ∀ i ok, e = .store i ok → ((clients i).record d 0).isSome → st.logged i ≠ none) :
    Kept d clients { st with server := s' } where
  held hr := by
    obtain ⟨hl, hw, hrec⟩ := h.held hr
    exact ⟨hl, ((within_of_step hs he _).working (past_of_working hw)).trans hw, hrec⟩
  holds {i} hl hw := by
    have hpast := h.past (i := i) (by rw [hl]; exact nofun)
    exact h.holds hl (((within_of_step hs he i).working hpast).symm.trans hw)
  rows {i row} hr := by
    obtain ⟨hl, hcommitted, hrec⟩ := h.rows hr
    exact ⟨hl, ((within_of_step hs he i).committed).trans hcommitted, hrec⟩
  lands {i} hl hcommitted := h.lands hl ((within_of_step hs he i).committed.symm.trans hcommitted)
  past {i} hl := (within_of_step hs he i).past (h.past hl)
  logs {i req check resourceId body time} hi := by
    rcases stored_of_step hs he hi with hi | ⟨ok, rfl, hi⟩
    · exact h.logs hi
    · exact hlog i ok rfl (record_isSome_iff.mpr ⟨_, _, (htraced.tells hi).2.symm⟩)
  sends {i} hcommitted := h.sends ((within_of_step hs he i).committed.symm.trans hcommitted)
  told {i} hi := by
    rcases sent_of_step hs i with h' | ⟨req, check, resourceId, body, time, hp, -⟩
    · exact h.told (h' ▸ hi)
    · exact h.logs hp
  keys := h.keys
  requests := h.requests

theorem key_notMem {rows : List (Nat × AuditRow)} {key : Route × Uuid}
    (h : hasKey rows key = false) : key ∉ rows.map fun r => r.2.key := by
  intro hm
  obtain ⟨r, hr, hk⟩ := List.mem_map.mp hm
  have := List.any_eq_false.mp h r hr
  simp [hk] at this

/-- The insert of a row. -/
theorem Kept.insert {i : Nat} {id : Uuid} {row : AuditRow} (h : Kept d clients st)
    (hw : working (st.server.phase i) = true) (hn : st.logged i = none)
    (hrec : (clients i).record d id = some row) (hheld : hasKey st.held row.key = false)
    (hrows : hasKey st.rows row.key = false) :
    Kept d clients { st with
      logged := Function.update st.logged i (some true), held := st.held ++ [(i, row)] } := by
  -- a request that has not logged has no row
  have hother : ∀ {j r}, (j, r) ∈ st.rows ++ st.held → j ≠ i := by
    intro j r hr hji
    subst hji
    rcases List.mem_append.mp hr with hr | hr
    · rw [(h.rows hr).1] at hn
      cases hn
    · rw [(h.held hr).1] at hn
      cases hn
  have hnew : ∀ {β : Type} (f : Nat × AuditRow → β), ((st.rows ++ st.held).map f).Nodup →
      f (i, row) ∉ (st.rows ++ st.held).map f →
      ((st.rows ++ (st.held ++ [(i, row)])).map f).Nodup := fun f hf hm => by
    rw [← List.append_assoc, List.map_append, List.map_singleton, ← List.concat_eq_append]
    exact List.Nodup.concat hm hf
  refine ⟨fun {j r} hr => ?_, fun {j} hl hj => ?_, fun {j r} hr => ?_, fun {j} hl hcommitted => ?_,
    fun {j} hl => ?_, fun {j _ _ _ _ _} hj => ?_, fun {j} hj => ?_, fun {j} hj => ?_, ?_, ?_⟩
  · rcases List.mem_append.mp hr with hr | hr
    · obtain ⟨hl, hrest⟩ := h.held hr
      exact ⟨by simp [hother (List.mem_append_right _ hr), hl], hrest⟩
    · obtain ⟨rfl, rfl⟩ := Prod.mk.inj (List.mem_singleton.mp hr)
      exact ⟨by simp, hw, id, hrec⟩
  · by_cases hji : j = i
    · exact ⟨row, List.mem_append_right _ (by simp [hji])⟩
    · obtain ⟨r, hr⟩ := h.holds (by simpa [hji] using hl) hj
      exact ⟨r, List.mem_append_left _ hr⟩
  · obtain ⟨hl, hrest⟩ := h.rows hr
    exact ⟨by simp [hother (List.mem_append_left _ hr), hl], hrest⟩
  · by_cases hji : j = i
    · rw [hji] at hcommitted
      exact absurd hn (h.sends hcommitted)
    · exact h.lands (by simpa [hji] using hl) hcommitted
  · by_cases hji : j = i
    · rw [hji]
      exact past_of_working hw
    · exact h.past (by simpa [hji] using hl)
  · by_cases hji : j = i
    · simp [hji]
    · simpa [hji] using h.logs hj
  · by_cases hji : j = i
    · simp [hji]
    · simpa [hji] using h.sends hj
  · by_cases hji : j = i
    · simp [hji]
    · simpa [hji] using h.told hj
  · refine hnew _ h.keys ?_
    rw [List.map_append, List.mem_append]
    exact not_or.mpr ⟨key_notMem hrows, key_notMem hheld⟩
  · refine hnew _ h.requests fun hm => ?_
    obtain ⟨⟨j, r⟩, hr, rfl⟩ := List.mem_map.mp hm
    exact hother hr rfl

/-- An insert that fails, in its savepoint. -/
theorem Kept.refuse {i : Nat} (h : Kept d clients st)
    (hw : working (st.server.phase i) = true) (hn : st.logged i = none) :
    Kept d clients { st with logged := Function.update st.logged i (some false) } := by
  have hlogged : ∀ {j}, Function.update st.logged i (some false) j = some true →
      st.logged j = some true := fun {j} hl => by
    by_cases hji : j = i
    · subst hji
      simp at hl
    · simpa [hji] using hl
  have hkept : ∀ {j}, st.logged j = some true →
      Function.update st.logged i (some false) j = some true := fun {j} hl => by
    have hji : j ≠ i := by
      rintro rfl
      rw [hn] at hl
      cases hl
    simpa [hji] using hl
  have hnone : ∀ {j}, st.logged j ≠ none → Function.update st.logged i (some false) j ≠ none :=
    fun {j} hl => by
      by_cases hji : j = i
      · simp [hji]
      · simpa [hji] using hl
  exact
    { held := fun hr => ⟨hkept (h.held hr).1, (h.held hr).2⟩
      holds := fun hl => h.holds (hlogged hl)
      rows := fun hr => ⟨hkept (h.rows hr).1, (h.rows hr).2⟩
      lands := fun hl => h.lands (hlogged hl)
      past := fun {j} hl => by
        by_cases hji : j = i
        · rw [hji]
          exact past_of_working hw
        · exact h.past (by simpa [hji] using hl)
      logs := fun hi => hnone (h.logs hi)
      sends := fun hcommitted => hnone (h.sends hcommitted)
      told := fun hi => hnone (h.told hi)
      keys := h.keys
      requests := h.requests }

section
variable {i : Nat} {req : KeyedRequest} {check : CheckResult} {time : Nat} {t : Server}

theorem phase_of_closed {p : Phase} (ht : t.phase = (st.server.setPhase i p).phase) :
    t.phase i = p ∧ ∀ {j}, j ≠ i → t.phase j = st.server.phase j := by
  rw [ht]
  exact ⟨Server.setPhase_self _ i _, fun hj => by rw [Server.setPhase_phase, if_neg hj]⟩

/-- The rows of the other requests stay held. -/
theorem Kept.held_closed (h : Kept d clients st)
    (hne : ∀ {j}, j ≠ i → t.phase j = st.server.phase j) {j : Nat} {row : AuditRow}
    (hr : (j, row) ∈ st.held.filter fun r => !decide (r.1 = i)) : st.logged j = some true ∧
      working (t.phase j) = true ∧ ∃ id, (clients j).record d id = some row := by
  obtain ⟨hr, hj⟩ := List.mem_filter.mp hr
  obtain ⟨hl, hw, hrec⟩ := h.held hr
  exact ⟨hl, (congrArg working (hne (by simpa using hj))).trans hw, hrec⟩

theorem Kept.holds_closed (h : Kept d clients st) (hself : working (t.phase i) = false)
    (hne : ∀ {j}, j ≠ i → t.phase j = st.server.phase j) {j : Nat}
    (hl : st.logged j = some true) (hw : working (t.phase j) = true) :
    ∃ row, (j, row) ∈ st.held.filter fun r => !decide (r.1 = i) := by
  have hji : j ≠ i := by
    rintro rfl
    rw [hself] at hw
    cases hw
  obtain ⟨r, hr⟩ := h.holds hl ((congrArg working (hne hji)).symm.trans hw)
  exact ⟨r, List.mem_filter.mpr ⟨hr, by simpa using hji⟩⟩

/-- The session ends in a commit: its row is there with its response. -/
theorem Kept.commit {resourceId : Option Str} {body : JsonDict}
    (h : Kept d clients st)
    (hi : st.server.phase i = .stored req check (.response resourceId body) time)
    (ht : t.phase = (st.server.setPhase i (.answered req (.response body))).phase)
    (hsent : t.sent = st.server.sent) :
    Kept d clients { st with
      server := t
      held := st.held.filter fun r => !decide (r.1 = i)
      rows := st.rows ++ st.held.filter fun r => decide (r.1 = i) } := by
  obtain ⟨hself, hne⟩ := phase_of_closed ht
  have hperm : ((st.rows ++ st.held.filter fun r => decide (r.1 = i)) ++
      st.held.filter fun r => !decide (r.1 = i)).Perm (st.rows ++ st.held) := by
    rw [List.append_assoc]
    exact (List.filter_append_perm _ st.held).append_left st.rows
  refine ⟨h.held_closed hne, h.holds_closed (congrArg working hself) hne, fun {j r} hr => ?_,
    fun {j} hl hcommitted => ?_, fun {j} hl => ?_, fun {j _ _ _ _ _} hj => ?_, fun {j} hj => ?_,
    fun hj => h.told (hsent ▸ hj), ?_, ?_⟩
  · rcases List.mem_append.mp hr with hr | hr
    · obtain ⟨hl, hcommitted, hrec⟩ := h.rows hr
      have hji : j ≠ i := by
        rintro rfl
        rw [hi] at hcommitted
        cases hcommitted
      exact ⟨hl, (congrArg Audit.committed (hne hji)).trans hcommitted, hrec⟩
    · obtain ⟨hrow, hj⟩ := List.mem_filter.mp hr
      obtain rfl : j = i := by simpa using hj
      obtain ⟨hl, -, hrec⟩ := h.held hrow
      exact ⟨hl, congrArg Audit.committed hself, hrec⟩
  · by_cases hji : j = i
    · subst hji
      obtain ⟨r, hr⟩ := h.holds hl (congrArg working hi)
      exact ⟨r, List.mem_append_right _ (List.mem_filter.mpr ⟨hr, by simp⟩)⟩
    · obtain ⟨r, hr⟩ := h.lands hl ((congrArg Audit.committed (hne hji)).symm.trans hcommitted)
      exact ⟨r, List.mem_append_left _ hr⟩
  · by_cases hji : j = i
    · exact congrArg Audit.past (hji ▸ hself)
    · exact (congrArg Audit.past (hne hji)).trans (h.past hl)
  · by_cases hji : j = i
    · rw [hji]
      exact h.logs hi
    · exact h.logs ((hne hji).symm.trans hj)
  · by_cases hji : j = i
    · rw [hji]
      exact h.logs hi
    · exact h.sends ((congrArg Audit.committed (hne hji)).symm.trans hj)
  · exact (hperm.map _).nodup_iff.mpr h.keys
  · exact (hperm.map _).nodup_iff.mpr h.requests

/-- The session ends in a rollback: its row is gone, and an error is sent. -/
theorem Kept.rollback {result : Result} {reply : Reply} (h : Kept d clients st)
    (hi : st.server.phase i = .stored req check result time)
    (hr : ∀ body, reply ≠ .response body)
    (ht : t.phase = (st.server.setPhase i (.answered req reply)).phase)
    (hsent : t.sent = st.server.sent) :
    Kept d clients { st with
      server := t, held := st.held.filter fun r => !decide (r.1 = i) } := by
  obtain ⟨hself, hne⟩ := phase_of_closed ht
  have hsub : (st.rows ++ st.held.filter fun r => !decide (r.1 = i)).Sublist
      (st.rows ++ st.held) := List.filter_sublist.append_left st.rows
  have hnot : Audit.committed (t.phase i) = false := by
    rw [hself]
    cases reply with
    | response body => exact absurd rfl (hr body)
    | replay _ _ | error _ _ _ _ => rfl
  have hcommitted : ∀ {j}, Audit.committed (t.phase j) = true → Audit.committed (st.server.phase j) = true :=
    fun {j} hj => by
      by_cases hji : j = i
      · rw [hji, hnot] at hj
        cases hj
      · exact (congrArg Audit.committed (hne hji)).symm.trans hj
  refine ⟨h.held_closed hne, h.holds_closed (congrArg working hself) hne, fun {j r} hr => ?_,
    fun hl hj => h.lands hl (hcommitted hj), fun {j} hl => ?_, fun {j _ _ _ _ _} hj => ?_,
    fun hj => h.sends (hcommitted hj), fun hj => h.told (hsent ▸ hj), h.keys.sublist (hsub.map _), h.requests.sublist (hsub.map _)⟩
  · obtain ⟨hl, hj, hrec⟩ := h.rows hr
    have hji : j ≠ i := by
      rintro rfl
      rw [hi] at hj
      cases hj
    exact ⟨hl, (congrArg Audit.committed (hne hji)).trans hj, hrec⟩
  · by_cases hji : j = i
    · exact congrArg Audit.past (hji ▸ hself)
    · exact (congrArg Audit.past (hne hji)).trans (h.past hl)
  · by_cases hji : j = i
    · rw [hji, hself] at hj
      cases hj
    · exact h.logs ((hne hji).symm.trans hj)

end

/-! ## Every run -/

structure Inv (d : Dumps) (digest : JsonDict → Str) (clients : Nat → Client) (s : State) :
    Prop where
  sound : Sound digest s.server
  traced : Traced d digest clients s.server
  kept : Kept d clients s

theorem inv_start (now : Nat) : Inv d digest clients (State.start now) where
  sound := sound_start now
  traced := ⟨fun _ => trivial, fun h => (by cases h), fun h => (by cases h)⟩
  kept := kept_start now

theorem Inv.serve {e : Idempotency.Event} {st' : State} (h : Inv d digest clients st)
    (hs : st.serve digest e = some st') (hours : Ours d clients e) (he : ∀ i ok, e ≠ .close i ok)
    (hlog : ∀ i ok, e = .store i ok → ((clients i).record d 0).isSome → st.logged i ≠ none) :
    Inv d digest clients st' := by
  obtain ⟨t, ht, rfl⟩ := Option.map_eq_some_iff.mp hs
  exact ⟨h.sound.step ht, h.traced.step h.sound hours ht, h.kept.serve h.traced ht he hlog⟩

theorem Inv.log {i : Nat} {id : Uuid} {ok : Bool} {st' : State} (h : Inv d digest clients st)
    (hs : step d digest clients st (.log i id ok) = some st') : Inv d digest clients st' := by
  simp only [step] at hs
  split at hs
  · rename_i req check result time row hi hrec
    have hw : working (st.server.phase i) = true := congrArg working hi
    obtain ⟨hn, hs⟩ := Option.ite_none_left_eq_some.mp hs
    obtain ⟨hheld, hs⟩ := Option.ite_none_left_eq_some.mp hs
    have hn : st.logged i = none := by simpa using hn
    split at hs
    · rename_i hok
      simp only [Bool.and_eq_true, Bool.not_eq_true'] at hok
      cases hs
      exact ⟨h.sound, h.traced, h.kept.insert hw hn hrec (by simpa using hheld) hok.2⟩
    · cases hs
      exact ⟨h.sound, h.traced, h.kept.refuse hw hn⟩
  · cases hs

theorem Inv.close {i : Nat} {ok : Bool} {st' : State} (h : Inv d digest clients st)
    (hs : step d digest clients st (.close i ok) = some st') : Inv d digest clients st' := by
  obtain ⟨u, hu, rfl⟩ := Option.map_eq_some_iff.mp hs
  obtain ⟨t, ht, rfl⟩ := Option.map_eq_some_iff.mp hu
  refine ⟨h.sound.step ht, h.traced.close h.sound ht, ?_⟩
  rcases close_cases ht with ⟨req, check, resourceId, body, time, hi, rfl, rfl⟩ |
    ⟨req, check, result, time, reply, hi, hok, hr, -, rfl⟩
  · have hc : commits (st.server.phase i) true = true := by rw [hi]; rfl
    simp only [hc, if_true]
    exact h.kept.commit hi rfl rfl
  · have hc : commits (st.server.phase i) ok = false := by
      rw [hi]
      rcases hok with rfl | hne
      · cases result <;> rfl
      · cases result with
        | response resourceId body => exact absurd rfl (hne resourceId body)
        | badRequest _ | crash => rfl
    simp only [hc, Bool.false_eq_true, if_false]
    exact h.kept.rollback hi hr rfl rfl

theorem Inv.step {e : Event} {st' : State} (h : Inv d digest clients st)
    (hs : step d digest clients st e = some st') : Inv d digest clients st' := by
  cases e with
  | tick now => exact h.serve hs trivial nofun nofun
  | lookup i => exact h.serve hs rfl nofun nofun
  | dispatch i => exact h.serve hs trivial nofun nofun
  | finish i => exact h.serve hs rfl nofun nofun
  | send i => exact h.serve hs trivial nofun nofun
  | sweep cutoff => exact h.serve hs trivial nofun nofun
  | log i id ok => exact h.log hs
  | close i ok => exact h.close hs
  | store i ok =>
    obtain ⟨hlog, hs⟩ := Option.ite_none_left_eq_some.mp hs
    refine h.serve hs trivial nofun fun j ok' he hrec hn => hlog ?_
    cases he
    simp [hrec, hn]

theorem Inv.exec : ∀ {es : List Event} {st st' : State}, Inv d digest clients st →
    Core.exec (Audit.step d digest clients) st es = some st' → Inv d digest clients st'
  | [], _, _, h, he => by
    cases he
    exact h
  | _ :: _, _, _, h, he => by
    obtain ⟨_, ht, he⟩ := exec_cons.mp he
    exact (h.step ht).exec he

/-- The client has an answer with status 200 and this body, which may have been sent before the
session of the request has ended. -/
def Received (d : Dumps) (clients : Nat → Client) (s : Server) (i : Nat) (body : JsonDict) : Prop :=
  s.sent i = some body ∨ ∃ reply, s.phase i = .answered ((clients i).keyed d) reply ∧
    (reply = .response body ∨ reply = .replay body 200)

/-- What the tables tell of the requests. -/
structure Audited (d : Dumps) (digest : JsonDict → Str) (clients : Nat → Client) (s : State) :
    Prop where
  /-- A row is about a request that its own handler has answered, and about that response. -/
  truthful : ∀ i row, (i, row) ∈ s.rows → ∃ id resourceId body,
    (clients i).record d id = some row ∧ Names d (clients i) row ∧
    (clients i).result d = .response resourceId body ∧ AnsweredBy d clients s.server i body
  /-- A request has one row at most, and so has an id. -/
  requests : (s.rows.map Prod.fst).Nodup
  keys : (s.rows.map fun r => r.2.key).Nodup
  /-- What a client has received was made by the handler of one request: its own, or a committed one
  for the same slot with the same hash. That handler has tried its insert; if it went through and
  its session was committed the row is there, and the only one with its key. -/
  traced : ∀ i body, Received d clients s.server i body → ∃ j ok resourceId,
    (clients j).result d = .response resourceId body ∧ s.logged j = some ok ∧
    (j = i ∨ AnsweredBy d clients s.server j body ∧
      ((clients j).keyed d).slot = ((clients i).keyed d).slot ∧
      ((clients j).keyed d).hash digest = ((clients i).keyed d).hash digest) ∧
    (ok = true ∧ AnsweredBy d clients s.server j body ↔ ∃ row, (j, row) ∈ s.rows) ∧
    ∀ row, (j, row) ∈ s.rows → ∀ r ∈ s.rows, r.2.key = row.key → r = (j, row)
  /-- A replay leaves no row of its own. -/
  replayed : ∀ i req body status, s.server.phase i = .answered req (.replay body status) →
    Received d clients s.server i body ∧ ∀ row, (i, row) ∉ s.rows

theorem committed_of_answeredBy {i : Nat} {body : JsonDict} (h : AnsweredBy d clients s i body) :
    committed (s.phase i) = true := by
  rw [h]
  rfl

/-- A committed session has the response of its handler. -/
theorem Inv.answeredBy (h : Inv d digest clients st) {i : Nat}
    (hi : committed (st.server.phase i) = true) : ∃ resourceId body,
      (clients i).result d = .response resourceId body ∧ AnsweredBy d clients st.server i body := by
  obtain ⟨req, body, hp⟩ := exists_of_committed hi
  obtain ⟨rfl, resourceId, hresult⟩ := h.traced.tells hp
  exact ⟨resourceId, body, hresult, hp⟩

theorem Inv.truthful (h : Inv d digest clients st) {i : Nat} {row : AuditRow}
    (hr : (i, row) ∈ st.rows) : ∃ id resourceId body, (clients i).record d id = some row ∧
      Names d (clients i) row ∧ (clients i).result d = .response resourceId body ∧
      AnsweredBy d clients st.server i body := by
  obtain ⟨-, hcommitted, id, hrec⟩ := h.kept.rows hr
  obtain ⟨resourceId, body, hresult, hp⟩ := h.answeredBy hcommitted
  exact ⟨id, resourceId, body, hrec, names_of_record hrec, hresult, hp⟩

/-- Where a received response comes from. -/
theorem Inv.source (h : Inv d digest clients st) {i : Nat} {body : JsonDict}
    (hi : Received d clients st.server i body) : ∃ j resourceId,
      (clients j).result d = .response resourceId body ∧ st.logged j ≠ none ∧
      (j = i ∨ AnsweredBy d clients st.server j body ∧
        ((clients j).keyed d).slot = ((clients i).keyed d).slot ∧
        ((clients j).keyed d).hash digest = ((clients i).keyed d).hash digest) := by
  rcases hi with hsent | ⟨reply, hp, rfl | rfl⟩
  · obtain ⟨resourceId, hresult⟩ := h.traced.sent hsent
    exact ⟨i, resourceId, hresult, h.kept.told (by rw [hsent]; exact nofun), .inl rfl⟩
  · obtain ⟨-, resourceId, hresult⟩ := h.traced.tells hp
    exact ⟨i, resourceId, hresult, h.kept.sends (committed_of_answeredBy hp), .inl rfl⟩
  · obtain ⟨-, -, slot, hslot, j, hj, hjslot, hhash⟩ := h.traced.tells hp
    obtain ⟨-, resourceId, hresult⟩ := h.traced.tells hj
    exact ⟨j, resourceId, hresult, h.kept.sends (committed_of_answeredBy hj),
      .inr ⟨hj, hjslot.trans hslot.symm, hhash⟩⟩

/-- A row is there exactly if its insert went through and its session was committed. -/
theorem Inv.row_iff (h : Inv d digest clients st) {j : Nat} {ok : Bool} {resourceId : Option Str}
    {body : JsonDict} (hresult : (clients j).result d = .response resourceId body)
    (hok : st.logged j = some ok) :
    ok = true ∧ AnsweredBy d clients st.server j body ↔ ∃ row, (j, row) ∈ st.rows := by
  constructor
  · rintro ⟨rfl, hj⟩
    exact h.kept.lands hok (committed_of_answeredBy hj)
  · rintro ⟨row, hr⟩
    obtain ⟨hl, hcommitted, -⟩ := h.kept.rows hr
    obtain ⟨resourceId', body', hresult', hj⟩ := h.answeredBy hcommitted
    rw [hresult] at hresult'
    cases hresult'
    rw [hok] at hl
    exact ⟨Option.some.inj hl, hj⟩

theorem Inv.audited (h : Inv d digest clients st) : Audited d digest clients st where
  truthful _ _ hr := h.truthful hr
  requests := h.kept.requests.sublist ((List.sublist_append_left _ _).map _)
  keys := h.kept.keys.sublist ((List.sublist_append_left _ _).map _)
  traced i body hi := by
    obtain ⟨j, resourceId, hresult, hlogged, hsame⟩ := h.source hi
    obtain ⟨ok, hok⟩ := Option.ne_none_iff_exists'.mp hlogged
    refine ⟨j, ok, resourceId, hresult, hok, hsame, h.row_iff hresult hok,
      fun row hr r hr' hk => ?_⟩
    have hkeys := h.kept.keys.sublist ((List.sublist_append_left st.rows st.held).map _)
    exact List.inj_on_of_nodup_map hkeys hr' hr hk
  replayed i req body status hp := by
    obtain ⟨rfl, rfl, -⟩ := h.traced.tells hp
    refine ⟨.inr ⟨_, hp, .inr rfl⟩, fun row hr => ?_⟩
    obtain ⟨-, hcommitted, -⟩ := h.kept.rows hr
    rw [hp] at hcommitted
    cases hcommitted

/-- **The audit trail.** In every state of every run of the three handlers, with lookups, inserts,
responses, commits, rollbacks and sweeps in any order: the rows are truthful, a request and an id
have one row at most, and what a client has received, afresh or by replay, leads to the handler that
made it, and to its row if the insert went through and the session was committed. -/
theorem trail_sound (d : Dumps) (digest : JsonDict → Str) (clients : Nat → Client) (start : Nat)
    (es : List Event) (s : State)
    (h : exec (step d digest clients) (State.start start) es = some s) :
    Audited d digest clients s :=
  ((inv_start start).exec h).audited

def plainDumps : Dumps where
  env := L3.ContextPack.asciiEnv
  searchRequest := fun body => [("query".toList, .str body.query)]
  contextPackRequest := fun body => [("query".toList, .str body.query)]
  answerRequest := fun body => [("query".toList, .str body.query)]
  filters := fun _ => []
  warning := fun w => [("message".toList, .str w.message)]
  searchResponse := fun response => [("query".toList, .str response.query)]
  contextPackResponse := fun pack =>
    [("context_pack_id".toList, .str (L3.PackJson.uuidStr pack.contextPackId))]
  answerResponse := fun response =>
    [("answer_id".toList, .str (L3.PackJson.uuidStr response.answerId))]

def emptyPack (id : Uuid) : ContextPackResponse where
  contextPackId := id
  answerable := false
  confidence := .none
  evidence := []
  warnings := []
  conflicts := []
  tokenBudget := ⟨3000, 0⟩
  requiresHumanReview := true
  reviewReasons := []
  untrustedContentNotice := L3.Serializers.untrustedContentNotice
  untrustedContentNoticeId := L3.Serializers.untrustedContentNoticeId
  untrustedContentNoticePinnedPhrases := L3.Serializers.untrustedContentNoticePinnedPhrases

def packRequest : ContextPackRequest := { task := "deploy", query := "setup" }

/-- An agent asks for a pack under a key, and asks again. -/
def agents (i : Nat) : Client where
  header := some "k1".toList
  work := .contextPack packRequest (.ok (emptyPack i))
  requestId := some ("r".toList ++ natStr i)
  requester := none

def askedTwice : List Event :=
  [.lookup 0, .dispatch 0, .finish 0, .log 0 0 true, .store 0 true, .send 0, .close 0 true,
    .lookup 1, .dispatch 1]

def State.after (s : State) (es : List Event) : State :=
  (exec (step plainDumps queryDigest agents) s es).getD s

/-- A client can hold a response whose commit fails behind it, and then there is no row. -/
example :
    let s := (State.start 5).after
      [.lookup 0, .dispatch 0, .finish 0, .log 0 0 true, .store 0 true, .send 0, .close 0 false]
    Received plainDumps agents s.server 0 (plainDumps.contextPackResponse (emptyPack 0)) ∧
      s.rows = [] :=
  ⟨.inl rfl, rfl⟩

/-- The second answer leads to the row of the first. -/
theorem trail_sound_replayed :
    Received plainDumps agents ((State.start 5).after askedTwice).server 1
        (plainDumps.contextPackResponse (emptyPack 0)) ∧
      ((State.start 5).after askedTwice).rows =
        [(0, logContextPack plainDumps (agents 0) packRequest (emptyPack 0))] := by
  have h := trail_sound plainDumps queryDigest agents 5 askedTwice
    ((State.start 5).after askedTwice) rfl
  exact ⟨(h.replayed 1 _ _ 200 rfl).1, rfl⟩

end KnowledgeKiln.L4.Audit
