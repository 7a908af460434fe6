import KnowledgeKiln.Core.Str
import KnowledgeKiln.Core.Substitution
import KnowledgeKiln.Core.CodedText
import KnowledgeKiln.Core.Html
import KnowledgeKiln.Core.Py
import KnowledgeKiln.Core.Sorted
import KnowledgeKiln.Core.RankFusion
import KnowledgeKiln.Core.Selection
import KnowledgeKiln.Core.Counter
import KnowledgeKiln.Core.Packing
import KnowledgeKiln.Core.FileTree
import KnowledgeKiln.Core.OrderedDict
import KnowledgeKiln.Core.Recency
import KnowledgeKiln.Core.TokenBucket
import KnowledgeKiln.Core.Date
import KnowledgeKiln.Core.IsoDate
import KnowledgeKiln.Core.Format
import KnowledgeKiln.Core.Lines
import KnowledgeKiln.Core.Url
import KnowledgeKiln.Core.FormUrlencoded
import KnowledgeKiln.Core.QuotePlus
import KnowledgeKiln.Core.PercentDecoding
import KnowledgeKiln.Core.Schema
import KnowledgeKiln.Core.Table
import KnowledgeKiln.Core.Txn
import KnowledgeKiln.Core.Json
import KnowledgeKiln.Core.Sql
import KnowledgeKiln.Core.Retry
import KnowledgeKiln.Core.Run
import KnowledgeKiln.L1Ingest.GitCredentials
import KnowledgeKiln.L1Ingest.GithubHost
import KnowledgeKiln.L1Ingest.Redaction
import KnowledgeKiln.L1Ingest.Connectors
import KnowledgeKiln.L1Ingest.Markdown
import KnowledgeKiln.L1Ingest.Chunking
import KnowledgeKiln.L1Ingest.FileProcessing
import KnowledgeKiln.L1Ingest.Conservation
import KnowledgeKiln.L1Ingest.HeadingPath
import KnowledgeKiln.L1Ingest.ChunkSize
import KnowledgeKiln.L1Ingest.Fences
import KnowledgeKiln.L1Ingest.Frontmatter
import KnowledgeKiln.L1Ingest.Title
import KnowledgeKiln.L1Ingest.JsonSafe
import KnowledgeKiln.L1Ingest.StoredMetadata
import KnowledgeKiln.L1Ingest.ReviewDate
import KnowledgeKiln.L1Ingest.Ingested
import KnowledgeKiln.L1Ingest.KnowledgeBase
import KnowledgeKiln.L1Ingest.FileLoop
import KnowledgeKiln.L1Ingest.Reingest
import KnowledgeKiln.L1Ingest.Embedding
import KnowledgeKiln.L1Ingest.FanOut
import KnowledgeKiln.L1Ingest.Gather
import KnowledgeKiln.L1Ingest.OpenAiCompatible
import KnowledgeKiln.L1Ingest.Retries
import KnowledgeKiln.L1Ingest.EndpointCalls
import KnowledgeKiln.L1Ingest.LocalModel
import KnowledgeKiln.L1Ingest.EmbedPass
import KnowledgeKiln.L1Ingest.Pipeline
import KnowledgeKiln.L1Ingest.Pending
import KnowledgeKiln.L1Ingest.RunRow
import KnowledgeKiln.L1Ingest.Idempotence
import KnowledgeKiln.L1Ingest.Accounting
import KnowledgeKiln.L1Ingest.Reembed
import KnowledgeKiln.L1Ingest.Interleaving
import KnowledgeKiln.L1Ingest.SourceSync
import KnowledgeKiln.L1Ingest.HttpConnector
import KnowledgeKiln.L1Ingest.Walk
import KnowledgeKiln.L1Ingest.Ssrf
import KnowledgeKiln.L1Ingest.DnsPin
import KnowledgeKiln.L1Ingest.RedirectSafety
import KnowledgeKiln.L1Ingest.DocumentKeys
import KnowledgeKiln.L1Ingest.Worker
import KnowledgeKiln.L1Ingest.JobQueue
import KnowledgeKiln.L1Ingest.QueueOrder
import KnowledgeKiln.L1Ingest.JobOutcome
import KnowledgeKiln.L4Api.Auth
import KnowledgeKiln.L4Api.Oidc
import KnowledgeKiln.L4Api.PublicPaths
import KnowledgeKiln.L4Api.Sessions
import KnowledgeKiln.L4Api.LoginLanding
import KnowledgeKiln.L4Api.Idempotency
import KnowledgeKiln.L4Api.Replay
import KnowledgeKiln.L4Api.RateLimit
import KnowledgeKiln.L4Api.RetryAfter
import KnowledgeKiln.L4Api.Handlers
import KnowledgeKiln.L4Api.ErrorEnvelope
import KnowledgeKiln.L4Api.Stack
import KnowledgeKiln.L4Api.UrlState
import KnowledgeKiln.L4Api.FormFilters
import KnowledgeKiln.L4Api.FilterBadge
import KnowledgeKiln.L4Api.Registry
import KnowledgeKiln.L4Api.Connection
import KnowledgeKiln.L4Api.ResultCards
import KnowledgeKiln.L2Retrieval.Types
import KnowledgeKiln.L2Retrieval.Config
import KnowledgeKiln.L2Retrieval.Warnings
import KnowledgeKiln.L2Retrieval.Ranking
import KnowledgeKiln.L2Retrieval.Staleness
import KnowledgeKiln.L2Retrieval.Fusion
import KnowledgeKiln.L2Retrieval.Conflicts
import KnowledgeKiln.L2Retrieval.EngineHelpers
import KnowledgeKiln.L2Retrieval.PhraseMatch
import KnowledgeKiln.L2Retrieval.HydeCache
import KnowledgeKiln.L2Retrieval.HydeEngine
import KnowledgeKiln.L2Retrieval.Hybrid
import KnowledgeKiln.L2Retrieval.HybridSelect
import KnowledgeKiln.L2Retrieval.Filters
import KnowledgeKiln.L2Retrieval.Sections
import KnowledgeKiln.L4Api.Vocabulary
import KnowledgeKiln.L3Agent.Serializers
import KnowledgeKiln.L3Agent.ContextPack
import KnowledgeKiln.L3Agent.QueryNormalization
import KnowledgeKiln.L3Agent.RowOrder
import KnowledgeKiln.L3Agent.EvidenceSlots
import KnowledgeKiln.L3Agent.BudgetTrim
import KnowledgeKiln.L3Agent.PackBudget
import KnowledgeKiln.L3Agent.Review
import KnowledgeKiln.L3Agent.NonInterference
import KnowledgeKiln.L3Agent.Answer
import KnowledgeKiln.L3Agent.FilteredEvidence
import KnowledgeKiln.L3Agent.Injection
import KnowledgeKiln.L3Agent.Policy
import KnowledgeKiln.L3Agent.Exclusion
import KnowledgeKiln.L3Agent.PackTotal
import KnowledgeKiln.L4Api.ResultsPage
import KnowledgeKiln.L4Api.AuditTrail
import KnowledgeKiln.L5Eval.Scoring
import KnowledgeKiln.L5Eval.Harness
import KnowledgeKiln.Core.JsonDumps
