import KnowledgeKiln.Core.Sorted
import KnowledgeKiln.L1Ingest.Embedding

/-!
# One ingestion run (ingestion/pipeline.py)

`runSource` creates and commits the row of the run, fetches, runs the file loop,
embeds, and records the outcome in the row. Only a breached cap and an exception
of the embedding pass are caught.
-/
namespace KnowledgeKiln.L1.Pipeline

open KnowledgeKiln.Core KnowledgeKiln.L1.Chunking KnowledgeKiln.L1.FileProcessing
  KnowledgeKiln.L1.Embedding

/-! ## Fetching -/

/-- `SkipReason` (connectors.py:50-56) -/
inductive SkipReason
  | excludedByPattern | unsupportedFileType | tooLarge | binaryContent | symlinkEscape
  deriving DecidableEq

def SkipReason.value : SkipReason → Str
  | .excludedByPattern => "excluded_by_pattern"
  | .unsupportedFileType => "unsupported_file_type"
  | .tooLarge => "too_large"
  | .binaryContent => "binary_content"
  | .symlinkEscape => "symlink_escape"

structure SkippedFile where
  path : Str
  reason : SkipReason

structure FetchResult where
  files : List FetchedFile := []
  skipped : List SkippedFile := []
  commitSha : Option Str := none

/-- What leaves `fetch_source` instead of a result. -/
inductive FetchError
  /-- `IngestionCapExceeded(msg)` -/
  | capExceeded (msg : Str)
  | raised (exc : Raised)

/-! ## The steps of a run -/

/-- What a run takes from its caller. -/
structure RunArgs where
  worker : Worker
  source : Source
  settings : IngestSettings
  provider : Option EmbeddingProvider := none
  filters : ContentFilters := {}
  /-- How the set of the touched documents is iterated. -/
  touchedOrder : SetOrder := fun _ => Equiv.refl _

/-- The row of a run, under the name of its data source. -/
def createRun (source : Source) (db : Db) : Py (Nat × Db) := do
  let name ← requiredTextColumn (.str source.name)
  let _ ← requiredTextColumn (.str (repoLabel source))
  pure (db.runs.length, { db with runs := db.runs ++ [{ sourceName := name }] })

/-- No text the run records holds a NUL character. Skip reasons are literals. -/
def recordable (summary : IngestionSummary) (commitSha : Option Str) : Bool :=
  (summary.errors ++ summary.warnings ++ commitSha.toList).all fun s => !s.contains '\x00'

/-- Mirrors `_runs_update` (pipeline.py:197-232). -/
def runsUpdate (runId : Nat) (status : RunStatus) (summary : IngestionSummary)
    (commitSha : Option Str) (db : Db) : Py (Unit × Db) :=
  if recordable summary commitSha then
    .ok ((), { db with
      runs := db.runs.modify runId fun run =>
        { run with status := status, stats := summary, commitSha := commitSha } })
  else .error .dataError

/-- The summary before the file loop. -/
def scanned (runId : Nat) (fetch : FetchResult) : IngestionSummary where
  runId := some runId
  filesScanned := fetch.files.length + fetch.skipped.length
  filesSkipped := fetch.skipped.length
  skipReasons := fetch.skipped.foldl (fun d s => bump s.reason.value d) []

/-- The store after the file loop; embeddings go with their chunks (`ON DELETE CASCADE`). -/
def Db.withStore (db : Db) (st : Store) : Db :=
  { db with
    store := st
    embeddings := db.embeddings.delete fun e => !st.chunks.rows.any (·.id = e.key) }

def indexFetched (args : RunArgs) (files : List FetchedFile) (summary : IngestionSummary)
    (db : Db) : Py ((IngestionSummary × List Uuid) × Db) := do
  let p ← processFiles args.worker args.filters args.source
    { store := db.store, summary := summary.toSummary } files
  pure (({ summary with toSummary := p.summary }, p.touchedDocIds), Db.withStore db p.store)

/-- The pass that an exception of a statement has ended. -/
def ended (summary : IngestionSummary) : Except Raised EmbedPass → EmbedPass
  | .ok pass => pass
  | .error exc => { summary := summary, outcome := .error exc }

/-- `except Exception`: a cancelled pass leaves the run, any other error is recorded. -/
def caught (settings : IngestSettings) (pass : EmbedPass) : Txn Db EmbedPass :=
  match pass.outcome with
  | .ok _ => pure pass
  | .error .cancelled => Txn.raise .cancelled
  | .error exc => pure { pass with
      summary.errors := pass.summary.errors ++ [passFailed settings exc] }

/-- The embedding pass inside its `try`, if there is a provider. -/
def embedPhase (settings : IngestSettings) (provider : Option EmbeddingProvider)
    (docIds : List Uuid) (summary : IngestionSummary) : Txn Db EmbedPass :=
  match provider with
  | none => pure { summary := summary }
  | some provider => do
    let pass ← Txn.attempt (embedTouchedDocuments settings provider docIds summary)
    caught settings (ended summary pass)

/-- The summary `run_source` returns, and what its embedding pass did. -/
structure RunReport where
  summary : IngestionSummary
  pass : EmbedPass

/-- The last update of the row. -/
def finishRun (runId : Nat) (commitSha : Option Str) (pass : EmbedPass) : Txn Db RunReport := do
  let status := if pass.summary.errors = [] then RunStatus.succeeded else .partialSuccess
  Txn.execute (runsUpdate runId status pass.summary commitSha)
  Txn.commit
  pure { summary := pass.summary, pass := pass }

/-- Mirrors `run_source` (pipeline.py:62-163). -/
def runSource (args : RunArgs) (fetch : Except FetchError FetchResult) : Txn Db RunReport := do
  let runId ← Txn.execute (createRun args.source)
  Txn.commit
  match fetch with
  | .error (.raised exc) => Txn.raise exc
  | .error (.capExceeded msg) =>
    let summary : IngestionSummary := { runId := some runId, errors := [msg] }
    Txn.execute (runsUpdate runId .failed summary none)
    Txn.commit
    pure { summary := summary, pass := { summary := summary } }
  | .ok fetched =>
    let (summary, docIds) ←
      Txn.execute (indexFetched args fetched.files (scanned runId fetched))
    let pass ← embedPhase args.settings args.provider (args.touchedOrder.visit docIds) summary
    finishRun runId fetched.commitSha pass

end KnowledgeKiln.L1.Pipeline
