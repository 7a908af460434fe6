import KnowledgeKiln.Core.Date
import KnowledgeKiln.Core.Schema

/-!
# Retrieval types

The rows that leave the database and the shapes of the responses
(retrieval/types.py, db/repositories/_hybrid.py, retrieval/ranking.py).

* A UUID is its 128-bit value, so `str(uuid)` orders UUIDs as the numbers do.
* A score is an exact rational. Where the code computes with doubles the model
  applies `Env.fl`, the rounding of one operation.
* A value Pydantic refuses cannot be built: the bounds of a model are fields
  of its structure.
-/
namespace KnowledgeKiln.L2

open KnowledgeKiln.Core

/-! ## Closed vocabularies -/

/-- retrieval/types.py:31-53 -/
inductive WarningType
  | staleSource | deprecatedSource | conflictingSources | weakEvidence | promptInjectionPattern
  | sensitiveContent | queryNormalized | isolatedMatch | answerTruncated
  deriving DecidableEq, Repr

/-- The wire name of a warning type. -/
def WarningType.value : WarningType → Str
  | .staleSource => "stale_source"
  | .deprecatedSource => "deprecated_source"
  | .conflictingSources => "conflicting_sources"
  | .weakEvidence => "weak_evidence"
  | .promptInjectionPattern => "prompt_injection_pattern"
  | .sensitiveContent => "sensitive_content"
  | .queryNormalized => "query_normalized"
  | .isolatedMatch => "isolated_match"
  | .answerTruncated => "answer_truncated"

/-- retrieval/types.py:61-70 -/
inductive Severity
  | advisory | warning | blocking
  deriving DecidableEq, Repr

/-- retrieval/types.py:77-88 -/
inductive Action
  | inform | preferOtherSources | requestHumanReview | rewriteQuery | refuseToSynthesize
  deriving DecidableEq, Repr

inductive Confidence
  | high | medium | low | none
  deriving DecidableEq, Repr

/-- The statuses the kiln recommends; a stored status may be any text. -/
inductive Status
  | active | approved | draft | deprecated | archived | superseded
  deriving DecidableEq, Repr

def Status.value : Status → Str
  | .active => "active"
  | .approved => "approved"
  | .draft => "draft"
  | .deprecated => "deprecated"
  | .archived => "archived"
  | .superseded => "superseded"

/-! ## Requests -/

def maxQueryLength : Nat := 4096
def maxTaskLength : Nat := 2048
def maxFilterItems : Nat := 100

/-- A filter list, at most `MAX_FILTER_ITEMS` long. -/
abbrev FilterList (α : Type) := { l : List α // l.length ≤ maxFilterItems }

/-- retrieval/types.py:124-146 -/
structure RetrievalFilters where
  status : Option (FilterList Status) := none
  docType : Option (FilterList Str) := none
  repo : Option (FilterList Str) := none
  pathPrefix : Option (FilterList Str) := none
  owner : Option (FilterList Str) := none
  system : Option (FilterList Str) := none
  authority : Option (FilterList Str) := none
  sensitivity : Option (FilterList Str) := none
  controlId : Option (FilterList Str) := none
  tags : Option (FilterList Str) := none
  lastReviewedAfter : Option Date := none

/-- retrieval/types.py:183-190 -/
structure SearchRequest where
  query : Str
  filters : Option RetrievalFilters := none
  maxResults : Nat := 10
  query_length : 1 ≤ query.length ∧ query.length ≤ maxQueryLength := by decide
  maxResults_mem : 1 ≤ maxResults ∧ maxResults ≤ 50 := by decide

/-- retrieval/types.py:267-297, without the `include_*` and `require_citations`
switches, which no function reads. -/
structure ContextPackRequest where
  task : Str
  query : Str
  filters : Option RetrievalFilters := none
  maxChunks : Nat := 8
  maxTokens : Nat := 3000
  embedWarningsInText : Bool := false
  task_length : task.length ≤ maxTaskLength := by decide
  query_length : query.length ≤ maxQueryLength := by decide
  maxChunks_mem : 1 ≤ maxChunks ∧ maxChunks ≤ 50 := by decide
  maxTokens_mem : 100 ≤ maxTokens ∧ maxTokens ≤ 32000 := by decide

/-- retrieval/types.py:392-407 -/
structure AnswerRequest where
  query : Str
  task : Option Str := none
  filters : Option RetrievalFilters := none
  maxChunks : Nat := 8
  maxAnswerTokens : Nat := 1024
  query_length : 1 ≤ query.length ∧ query.length ≤ maxQueryLength := by decide
  task_length : ∀ t ∈ task, t.length ≤ maxTaskLength := by decide
  maxChunks_mem : 1 ≤ maxChunks ∧ maxChunks ≤ 20 := by decide
  maxAnswerTokens_mem : 64 ≤ maxAnswerTokens ∧ maxAnswerTokens ≤ 4096 := by decide

/-! ## Rows -/

/-- One row of hybrid-retrieval output, mirrors db/repositories/_hybrid.py:48-88. -/
structure SearchRow where
  chunkId : Uuid
  documentId : Uuid
  content : Str
  headingPath : List Str
  chunkMetadata : ChunkMetadata
  status : Str
  authority : Option Str
  owner : Option Str
  lastReviewed : Option Date
  commitSha : Option Str
  repo : Str
  path : Str
  title : Str
  sourceUrl : Option Str
  score : ℚ
  hasPromptInjection : Bool
  hasSensitiveContent : Bool
  chunkIndex : Nat
  chunkCount : Nat
  deriving DecidableEq

/-- One ranked candidate, mirrors retrieval/ranking.py:55-85. -/
structure RankedChunk where
  chunkId : Uuid
  documentId : Uuid
  score : ℚ
  status : Str
  headingPath : List Str
  authority : Option Str
  lastReviewed : Option Date
  hasPromptInjection : Bool
  hasSensitiveContent : Bool
  chunkMetadata : ChunkMetadata
  chunkIndex : Nat
  chunkCount : Nat
  deriving DecidableEq

/-- Document-level fields of a row, mirrors agent/serializers.py:92-112. -/
structure DocumentRef where
  documentId : Uuid
  title : Str
  repo : Option Str := none
  path : Option Str := none
  sourceUrl : Option Str := none
  commitSha : Option Str := none
  authority : Option Str := none
  owner : Option Str := none
  deriving DecidableEq

/-! ## Responses -/

/-- retrieval/types.py:149-180 -/
structure Warning where
  type : WarningType
  message : Str
  sourceId : Option Uuid := none
  severity : Severity := .advisory
  action : Action := .inform
  deriving DecidableEq, Repr

/-- retrieval/types.py:249-261 -/
structure Conflict where
  topic : Str
  sourceIds : List Uuid
  description : Option Str
  two_le_sourceIds : 2 ≤ sourceIds.length
  deriving DecidableEq

/-- retrieval/types.py:300-323 -/
structure EvidenceChunk where
  chunkId : Uuid
  documentId : Uuid
  title : Str
  repo : Option Str
  path : Option Str
  headingPath : Option (List Str)
  sourceUrl : Option Str
  commitSha : Option Str
  status : Str
  authority : Option Str
  owner : Option Str
  lastReviewed : Option Date
  score : ℚ
  text : Str
  deriving DecidableEq

structure TokenBudget where
  requested : Nat
  usedEstimate : Nat
  deriving DecidableEq, Repr

/-- retrieval/types.py:345-386; `related_sources` is always empty, `summary` and
`recommended_use` are never set. -/
structure ContextPackResponse where
  contextPackId : Uuid
  answerable : Bool
  confidence : Confidence
  evidence : List EvidenceChunk
  warnings : List Warning
  conflicts : List Conflict
  tokenBudget : TokenBudget
  requiresHumanReview : Bool
  reviewReasons : List Str
  untrustedContentNotice : Str
  untrustedContentNoticeId : Str
  untrustedContentNoticePinnedPhrases : List Str
  deriving DecidableEq

/-- retrieval/types.py:410-424 -/
structure AnswerTokenBudget where
  requestedMaxAnswerTokens : Nat
  promptTokens : Option Int := none
  completionTokens : Option Int := none
  totalTokens : Option Int := none
  finishReason : Option Str := none
  deriving DecidableEq, Repr

/-- retrieval/types.py:427-471 -/
structure AnswerResponse where
  answerId : Uuid
  answer : Option Str
  answerable : Bool
  confidence : Confidence
  refusalReason : Option Str
  evidence : List EvidenceChunk
  warnings : List Warning
  conflicts : List Conflict
  tokenBudget : AnswerTokenBudget
  requiresHumanReview : Bool
  reviewReasons : List Str
  generatorProvider : Option Str
  generatorModel : Option Str
  untrustedContentNotice : Str
  untrustedContentNoticeId : Str
  untrustedContentNoticePinnedPhrases : List Str
  deriving DecidableEq

/-- retrieval/engine.py:104-125 -/
structure SearchResult where
  chunks : List RankedChunk
  warnings : List Warning
  documentRefs : Uuid → Option DocumentRef
  chunkText : Uuid → Option Str

/-! ## The surroundings of a call -/

/-- Third-party code and tables of the runtime. -/
structure Env where
  /-- The double nearest to the exact result of one operation. -/
  fl : ℚ → ℚ
  /-- `str(x)` of a float. -/
  floatStr : ℚ → Str
  /-- `str.isprintable` of a character outside ASCII. -/
  isPrintable : Char → Bool
  /-- `\w` in a `str` pattern. -/
  isWord : Char → Bool
  /-- Equal under `re.IGNORECASE`. -/
  sameLetter : Char → Char → Bool
  /-- `count_tokens`: tiktoken may refuse a text. -/
  countTokens : Str → Py Nat
  /-- `pack.model_dump_json()` -/
  dumpJson : ContextPackResponse → Str
  /-- Validation of an `AnyUrl` field; the text is the validated URL. -/
  anyUrl : Str → Py Str

end KnowledgeKiln.L2
