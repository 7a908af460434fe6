import KnowledgeKiln.Core.Table
import KnowledgeKiln.Core.Url
import KnowledgeKiln.L1Ingest.Chunking

/-!
# One fetched file into the database (ingestion/_file_processing.py)

`processFile` decodes and parses a file, upserts its `documents` row by
`(repo, path)` and its chunks by `(document_id, chunk_index)`, and deletes the
chunks the new version no longer has. Chunks are scanned for prompt-injection
phrases and sensitive patterns as they are written; a chunk whose hash is
unchanged is neither scanned nor written.

`ingest` runs the file loop of `run_source` over the sources of a corpus.

* `processFile_ok`: a file that is processed is skipped, or indexed.
* `indexFile_ok`: what indexing does to the two tables (`Indexed`).
* `chunkSecurityMetadata_sensitive`: a chunk is flagged sensitive exactly when a
  pattern matches its content.
-/
namespace KnowledgeKiln.L1.FileProcessing

open KnowledgeKiln.Core KnowledgeKiln.L1.Chunking

/-! ## Sources and files -/

inductive SourceStatus
  | active | inactive

inductive SourceAuthority
  | standard | reference | informational

inductive Sensitivity
  | «public» | internal | restricted

def SourceStatus.value : SourceStatus → Str
  | .active => "active"
  | .inactive => "inactive"

def SourceAuthority.value : SourceAuthority → Str
  | .standard => "standard"
  | .reference => "reference"
  | .informational => "informational"

def Sensitivity.value : Sensitivity → Str
  | .public => "public"
  | .internal => "internal"
  | .restricted => "restricted"

/-- The fields of a `Source` that file processing reads (sources.py:29-64); `repo` is that of a
`GitSource`. -/
structure Source where
  name : Str
  repo : Option Str := none
  status : SourceStatus := .active
  authority : SourceAuthority := .standard
  defaultOwner : Option Str := none
  defaultSensitivity : Sensitivity := .internal

/-- Mirrors `_repo_label` (_file_processing.py:374-379). -/
def repoLabel (source : Source) : Str :=
  match source.repo with
  | some repo => if repo ≠ [] then repo else source.name
  | none => source.name

/-- connectors.py:94-100 -/
structure FetchedFile where
  path : Str
  content : List UInt8
  commitSha : Option Str := none

/-! ## Scanners -/

/-- A compiled pattern of `sensitive_patterns`: its source, and `compiled.search`. -/
structure Pattern where
  source : Str
  search : Str → Bool

/-- `content_filters` of the security config, and what the runtime makes of them. -/
structure ContentFilters where
  promptInjectionPhrases : List Str := []
  sensitivePatterns : List Pattern := []
  /-- `s.lower()`, for all of Unicode. -/
  lower : Str → Str := Core.lower

/-- Mirrors `scan` (prompt_injection.py:68-85): the first phrase in the text. -/
def scanPromptInjection (lower : Str → Str) (text : Str) (phrases : List Str) : Option Str :=
  if phrases = [] ∨ text = [] then none
  else phrases.find? fun phrase => contains (lower text) (lower phrase)

/-- Mirrors `scan` (sensitive_content.py:86-97): the source of the first pattern that matches. -/
def scanSensitiveContent (text : Str) (patterns : List Pattern) : Option Str :=
  if patterns.isEmpty ∨ text = [] then none
  else (patterns.find? (·.search text)).map (·.source)

/-- Mirrors `_chunk_security_metadata` (_file_processing.py:222-257). -/
def chunkSecurityMetadata (filters : ContentFilters) (content : Str) : ChunkMetadata :=
  let piMatch := scanPromptInjection filters.lower content filters.promptInjectionPhrases
  let scMatch := scanSensitiveContent content filters.sensitivePatterns
  { hasPromptInjection := piMatch.isSome
    matchedPattern := piMatch
    hasSensitiveContent := scMatch.isSome
    matchedSensitivePattern := scMatch }

/-- A pattern of the list matches the text. -/
def Matched (filters : ContentFilters) (text : Str) : Prop :=
  ∃ p ∈ filters.sensitivePatterns, p.search text = true

theorem chunkSecurityMetadata_sensitive {filters : ContentFilters} {content : Str}
    (h : content ≠ []) : (chunkSecurityMetadata filters content).hasSensitiveContent = true ↔
      Matched filters content := by
  unfold chunkSecurityMetadata scanSensitiveContent Matched
  by_cases hp : filters.sensitivePatterns = []
  · simp [hp]
  · simp [h, hp]

/-! ## Rows -/

/-- The columns `_upsert_document` writes beside the key `(repo, path)`. -/
structure Document where
  title : Str
  metadata : JsonDict
  commitSha : Option Str
  status : Str
  owner : Option Str
  authority : Option Str
  sensitivity : Option Str
  docType : Option Str
  sourceUrl : Option Str
  lastReviewed : Option Date

/-- The columns `_upsert_chunk` writes beside the key `(document_id, chunk_index)`. -/
structure DocumentChunk where
  content : Str
  contentTokens : Nat
  contentHash : Str
  headingPath : List Str
  metadata : ChunkMetadata
  deriving DecidableEq

structure Store where
  documents : Table (Str × Str) Document := .empty
  chunks : Table (Uuid × Nat) DocumentChunk := .empty

/-! ## Values the database takes -/

/-- A value bound to a nullable `text` column: a `str` without NUL. -/
def textColumn : Json → Py (Option Str)
  | .null => .ok none
  | .str s => if '\x00' ∈ s then throw .dataError else .ok (some s)
  | _ => throw .dataError

/-- A value bound to a `text NOT NULL` column. -/
def requiredTextColumn (v : Json) : Py Str := do
  match ← textColumn v with
  | some s => pure s
  | none => throw .dataError

/-- An object bound to a `jsonb` column. -/
def jsonbColumn (members : JsonDict) : Py JsonDict :=
  if Json.storable (.obj members) then .ok members else throw .dataError

def optionalStr (s : Option Str) : Json := (s.map Json.str).getD .null

theorem requiredTextColumn_ok {v : Json} {t : Str} (h : requiredTextColumn v = .ok t) :
    v = .str t := by
  obtain ⟨o, ho, h⟩ := Py.bind_ok.mp h
  cases o with
  | none => simp at h
  | some s =>
    cases h
    cases v <;> simp [textColumn] at ho
    split at ho
    · simp at ho
    · cases ho
      rfl

theorem requiredTextColumn_str {s t : Str} :
    requiredTextColumn (.str s) = .ok t ↔ '\x00' ∉ s ∧ s = t := by
  by_cases h : '\x00' ∈ s <;> simp [requiredTextColumn, textColumn, h, bind, Except.bind]

/-! ## Document columns -/

/-- `_FRONTMATTER_ALIASES["last_reviewed"]` -/
def lastReviewedAliases : List Str :=
  ["last_reviewed".toList, "last-reviewed".toList, "last_verified".toList, "last-verified".toList,
    "reviewed".toList, "verified".toList]

/-- `_FRONTMATTER_ALIASES["doc_type"]` -/
def docTypeAliases : List Str := ["doc_type".toList, "doc-type".toList, "type".toList]

/-- `value is not None and value != ""` -/
def present : Json → Bool
  | .null => false
  | .str s => s != []
  | _ => true

/-- Mirrors `_first_present` (_file_processing.py:73-84). -/
def firstPresent (metadata : JsonDict) (keys : List Str) : Json :=
  ((keys.filterMap metadata.get).find? present).getD .null

/-- `metadata.get(key) or default` -/
def getOr (metadata : JsonDict) (key : Str) (default : Json) : Json :=
  match metadata.get key with
  | some v => if v.truthy then v else default
  | none => default

/-- Mirrors `_coerce_iso_date` on JSON values (_file_processing.py:124-145). -/
def coerceIsoDate (w : Worker) : Json → Option Date
  | .str s => w.fromIsoformat s
  | _ => none

/-- Mirrors `_safe_source_url` (_file_processing.py:148-173); `urlparse` may raise. -/
def safeSourceUrl (w : Worker) : Json → Py (Option Str)
  | .str raw =>
    let cleaned := strip raw
    if cleaned = [] then .ok none
    else do
      let parsed ← Url.urlsplit w.refusedNetloc cleaned
      if lower parsed.scheme ∉ ["http".toList, "https".toList] then pure none
      else if parsed.netloc = [] then pure none
      else pure (some cleaned)
  | _ => .ok none

/-- The dict `_resolve_doc_defaults` returns. -/
structure DocDefaults where
  status : Json
  owner : Json
  authority : Json
  sensitivity : Json
  docType : Json
  sourceUrl : Option Str
  lastReviewed : Option Date

/-- Mirrors `_resolve_doc_defaults` (_file_processing.py:87-121). -/
def resolveDocDefaults (w : Worker) (metadata : JsonDict) (source : Source) : Py DocDefaults := do
  let sourceUrl ← safeSourceUrl w ((metadata.get "source_url").getD .null)
  pure
    { status := getOr metadata "status" (.str source.status.value)
      owner := getOr metadata "owner" (optionalStr source.defaultOwner)
      authority := getOr metadata "authority" (.str source.authority.value)
      sensitivity := getOr metadata "sensitivity" (.str source.defaultSensitivity.value)
      docType := firstPresent metadata docTypeAliases
      sourceUrl := sourceUrl
      lastReviewed := coerceIsoDate w (firstPresent metadata lastReviewedAliases) }

/-- `title=parsed.title or file.path` -/
def titleOr (title : Json) (path : Str) : Json := if title.truthy then title else .str path

/-- The row of a parsed file, or the error the database raises on one of its values. -/
def documentRow (w : Worker) (source : Source) (file : FetchedFile) (parsed : ParsedDocument) :
    Py Document := do
  let defaults ← resolveDocDefaults w parsed.metadata source
  let title ← requiredTextColumn (titleOr parsed.title file.path)
  let metadata ← jsonbColumn parsed.metadata
  let commitSha ← textColumn (optionalStr file.commitSha)
  let status ← requiredTextColumn defaults.status
  let owner ← textColumn defaults.owner
  let authority ← textColumn defaults.authority
  let sensitivity ← textColumn defaults.sensitivity
  let docType ← textColumn defaults.docType
  let sourceUrl ← textColumn (optionalStr defaults.sourceUrl)
  pure
    { title := title
      metadata := metadata
      commitSha := commitSha
      status := status
      owner := owner
      authority := authority
      sensitivity := sensitivity
      docType := docType
      sourceUrl := sourceUrl
      lastReviewed := defaults.lastReviewed }

theorem documentRow_title {w : Worker} {source : Source} {file : FetchedFile}
    {parsed : ParsedDocument} {row : Document} (h : documentRow w source file parsed = .ok row) :
    titleOr parsed.title file.path = .str row.title := by
  unfold documentRow at h
  obtain ⟨defaults, -, h⟩ := Py.bind_ok.mp h
  obtain ⟨title, ht, h⟩ := Py.bind_ok.mp h
  obtain ⟨_, -, h⟩ := Py.bind_ok.mp h
  obtain ⟨_, -, h⟩ := Py.bind_ok.mp h
  obtain ⟨_, -, h⟩ := Py.bind_ok.mp h
  obtain ⟨_, -, h⟩ := Py.bind_ok.mp h
  obtain ⟨_, -, h⟩ := Py.bind_ok.mp h
  obtain ⟨_, -, h⟩ := Py.bind_ok.mp h
  obtain ⟨_, -, h⟩ := Py.bind_ok.mp h
  obtain ⟨_, -, h⟩ := Py.bind_ok.mp h
  rw [Py.pure_ok] at h
  subst h
  exact requiredTextColumn_ok ht

/-- Mirrors `_upsert_document` (_file_processing.py:176-219): the store, and the row's id. -/
def upsertDocument (st : Store) (repo path : Str) (doc : Document) : Py (Store × Uuid) := do
  let repo ← requiredTextColumn (.str repo)
  let path ← requiredTextColumn (.str path)
  pure ({ st with documents := st.documents.upsert (repo, path) doc },
    st.documents.idFor (repo, path))

/-! ## Summary -/

/-- The fields of `IngestionSummary` that file processing writes (_summary.py). -/
structure Summary where
  filesIndexed : Nat := 0
  filesSkipped : Nat := 0
  chunksCreated : Nat := 0
  chunksUnchanged : Nat := 0
  chunksWithPromptInjection : Nat := 0
  chunksWithSensitiveContent : Nat := 0
  warnings : List Str := []
  errors : List Str := []
  skipReasons : List (Str × Nat) := []
  deriving DecidableEq

/-- Mirrors `_bump` (_summary.py). -/
def bump (key : Str) : List (Str × Nat) → List (Str × Nat)
  | [] => [(key, 1)]
  | (k, n) :: d => if k = key then (k, n + 1) :: d else (k, n) :: bump key d

/-- A file is recorded as skipped, with an error and a reason. -/
def Summary.skip (s : Summary) (error reason : Str) : Summary :=
  { s with
    errors := s.errors ++ [error]
    filesSkipped := s.filesSkipped + 1
    skipReasons := bump reason s.skipReasons }

/-- The counters after a chunk with this metadata was written. -/
def Summary.wrote (s : Summary) (metadata : ChunkMetadata) : Summary :=
  { s with
    chunksCreated := s.chunksCreated + 1
    chunksWithPromptInjection :=
      s.chunksWithPromptInjection + metadata.hasPromptInjection.toNat
    chunksWithSensitiveContent :=
      s.chunksWithSensitiveContent + metadata.hasSensitiveContent.toNat }

/-- What the file loop of one run carries along. -/
structure Progress where
  store : Store := {}
  summary : Summary := {}
  touchedDocIds : List Uuid := []

/-! ## Chunks -/

/-- Mirrors `_existing_chunks_by_index` (_file_processing.py:37-49). -/
def existingChunksByIndex (st : Store) (documentId : Uuid) : List (Nat × Uuid × Str) :=
  (st.chunks.rows.filter fun r => r.key.1 = documentId).map
    fun r => (r.key.2, r.id, r.value.contentHash)

/-- The row of a parsed chunk. -/
def chunkRow (filters : ContentFilters) (chunk : Chunk) : DocumentChunk where
  content := chunk.content
  contentTokens := chunk.contentTokens
  contentHash := chunk.contentHash
  headingPath := chunk.headingPath
  metadata := chunkSecurityMetadata filters chunk.content

/-- No column of the row holds a NUL character. -/
def DocumentChunk.storable (row : DocumentChunk) : Bool :=
  (row.content :: row.contentHash :: row.headingPath ++ row.metadata.matchedPattern.toList ++
    row.metadata.matchedSensitivePattern.toList).all fun s => !s.contains '\x00'

/-- Mirrors `_upsert_chunk` (_file_processing.py:260-305). -/
def upsertChunk (filters : ContentFilters) (documentId : Uuid) (p : Progress) (chunk : Chunk) :
    Py Progress :=
  let row := chunkRow filters chunk
  if row.storable = false then throw .dataError
  else
    pure { p with
      store := { p.store with chunks := p.store.chunks.upsert (documentId, chunk.chunkIndex) row }
      summary := p.summary.wrote row.metadata }

/-- `prev is not None and prev[1] == chunk.content_hash` -/
def unchanged (existing : List (Nat × Uuid × Str)) (chunk : Chunk) : Bool :=
  (lookupLast existing chunk.chunkIndex).any (·.2 = chunk.contentHash)

/-- The chunk loop of `_process_file` (_file_processing.py:352-365). -/
def writeChunks (filters : ContentFilters) (documentId : Uuid)
    (existing : List (Nat × Uuid × Str)) (p : Progress) : List Chunk → Py Progress
  | [] => .ok p
  | chunk :: chunks =>
    if unchanged existing chunk then
      writeChunks filters documentId existing
        { p with summary.chunksUnchanged := p.summary.chunksUnchanged + 1 } chunks
    else do
      let p ← upsertChunk filters documentId p chunk
      writeChunks filters documentId existing p chunks

/-- The ids of the chunks whose index the new version does not have. -/
def orphanIds (existing : List (Nat × Uuid × Str)) (seenIndices : List Nat) : List Uuid :=
  (existing.filter fun e => e.1 ∉ seenIndices).map (·.2.1)

/-! ## Files -/

/-- `_process_file` from the first database call on (_file_processing.py:340-371). -/
def indexFile (w : Worker) (filters : ContentFilters) (source : Source) (p : Progress)
    (file : FetchedFile) (parsed : ParsedDocument) : Py Progress := do
  let row ← documentRow w source file parsed
  let (store, documentId) ← upsertDocument p.store (repoLabel source) file.path row
  let existing := existingChunksByIndex store documentId
  let p ← writeChunks filters documentId existing
    { p with
      store := store
      touchedDocIds := p.touchedDocIds.insert documentId }
    parsed.chunks
  let orphans := orphanIds existing (parsed.chunks.map (·.chunkIndex))
  pure { p with
    store := { p.store with chunks := p.store.chunks.delete (·.id ∈ orphans) }
    summary.filesIndexed := p.summary.filesIndexed + 1 }

/-- Mirrors `_process_file` (_file_processing.py:308-371). -/
def processFile (w : Worker) (filters : ContentFilters) (source : Source) (p : Progress)
    (file : FetchedFile) : Py Progress :=
  match w.decodeUtf8 file.content with
  | .error exc => .ok { p with
      summary := p.summary.skip (file.path ++ ": not utf-8: " ++ exc) "binary_content" }
  | .ok text =>
    match parseDocument w text defaultMaxTokens with
    | .error (.frontmatterTooLarge exc) => .ok { p with
        summary := p.summary.skip (file.path ++ ": frontmatter too large: " ++ exc)
          "frontmatter_too_large" }
    | .error exc => .error exc
    | .ok parsed =>
      if parsed.chunks = [] then
        .ok { p with
          summary.warnings := p.summary.warnings ++
            [file.path ++ ": no chunks (empty or parse error)"]
          summary.filesSkipped := p.summary.filesSkipped + 1 }
      else indexFile w filters source p file parsed

/-- The file loop of `run_source` (pipeline.py). -/
def processFiles (w : Worker) (filters : ContentFilters) (source : Source) (p : Progress) :
    List FetchedFile → Py Progress
  | [] => .ok p
  | file :: files => do
    let p ← processFile w filters source p file
    processFiles w filters source p files

/-- The runs of the sources of a corpus, one after the other. -/
def ingest (w : Worker) (filters : ContentFilters) (st : Store) :
    List (Source × List FetchedFile) → Py Store
  | [] => .ok st
  | (source, files) :: corpus => do
    let p ← processFiles w filters source { store := st } files
    ingest w filters p.store corpus

/-! ## What processing a file does -/

/-- The document of a file that decodes, parses and has a chunk. -/
def indexable (w : Worker) (file : FetchedFile) : Option ParsedDocument :=
  match w.decodeUtf8 file.content with
  | .error _ => none
  | .ok text =>
    match parseDocument w text defaultMaxTokens with
    | .error _ => none
    | .ok parsed => if parsed.chunks = [] then none else some parsed

/-- The key of a file's row in `documents`. -/
def documentKey (source : Source) (file : FetchedFile) : Str × Str := (repoLabel source, file.path)

/-- The rows of parsed chunks, by their keys. -/
def chunkRows (filters : ContentFilters) (documentId : Uuid) (chunks : List Chunk) :
    List ((Uuid × Nat) × DocumentChunk) :=
  chunks.map fun c => ((documentId, c.chunkIndex), chunkRow filters c)

section
variable {w : Worker} {filters : ContentFilters} {source : Source} {file : FetchedFile}
  {p q : Progress}

theorem indexable_ok {parsed : ParsedDocument} (h : indexable w file = some parsed) :
    ∃ text, w.decodeUtf8 file.content = .ok text ∧
      parseDocument w text defaultMaxTokens = .ok parsed ∧ parsed.chunks ≠ [] := by
  unfold indexable at h
  split at h
  · cases h
  · rename_i text ht
    split at h
    · cases h
    · rename_i parsed' hp
      by_cases hc : parsed'.chunks = []
      · rw [if_pos hc] at h
        cases h
      · rw [if_neg hc] at h
        cases h
        exact ⟨text, ht, hp, hc⟩

/-- A file that is processed is skipped, and leaves the store as it is, or it is indexed. -/
theorem processFile_ok (h : processFile w filters source p file = .ok q) :
    (indexable w file = none ∧ q.store = p.store) ∨
      ∃ parsed, indexable w file = some parsed ∧ indexFile w filters source p file parsed = .ok q := by
  unfold processFile at h
  unfold indexable
  cases hd : w.decodeUtf8 file.content with
  | error exc =>
    rw [hd] at h
    cases h
    exact .inl ⟨rfl, rfl⟩
  | ok text =>
    simp only [hd] at h ⊢
    cases hp : parseDocument w text defaultMaxTokens with
    | error exc =>
      rw [hp] at h
      cases exc <;> cases h
      exact .inl ⟨rfl, rfl⟩
    | ok parsed =>
      simp only [hp] at h ⊢
      by_cases hc : parsed.chunks = []
      · rw [if_pos hc] at h ⊢
        cases h
        exact .inl ⟨rfl, rfl⟩
      · rw [if_neg hc] at h ⊢
        exact .inr ⟨parsed, rfl, h⟩

theorem writeChunks_ok {documentId : Uuid} {existing : List (Nat × Uuid × Str)} :
    ∀ {chunks : List Chunk} {p q : Progress},
      writeChunks filters documentId existing p chunks = .ok q →
        q.store.documents = p.store.documents ∧
        q.store.chunks = p.store.chunks.upsertAll
          (chunkRows filters documentId (chunks.filter (!unchanged existing ·)))
  | [], p, q, h => by
    cases h
    exact ⟨rfl, rfl⟩
  | chunk :: chunks, p, q, h => by
    unfold writeChunks at h
    by_cases hu : unchanged existing chunk = true
    · rw [if_pos hu] at h
      obtain ⟨hd, hc⟩ := writeChunks_ok h
      rw [List.filter_cons_of_neg (by simp [hu])]
      exact ⟨hd, hc⟩
    · rw [if_neg hu] at h
      obtain ⟨p', hp, h⟩ := Py.bind_ok.mp h
      unfold upsertChunk at hp
      dsimp only at hp
      split at hp
      · simp at hp
      · cases hp
        obtain ⟨hd, hc⟩ := writeChunks_ok h
        rw [List.filter_cons_of_pos (by simpa using hu)]
        exact ⟨hd, hc⟩

/-- Processing turned `p` into `q` by indexing `file` as `parsed` under the row `row`. -/
structure Indexed (w : Worker) (filters : ContentFilters) (source : Source) (file : FetchedFile)
    (parsed : ParsedDocument) (row : Document) (p q : Progress) : Prop where
  row_eq : documentRow w source file parsed = .ok row
  documents : q.store.documents = p.store.documents.upsert (documentKey source file) row
  chunks : q.store.chunks =
    let documentId := p.store.documents.idFor (documentKey source file)
    let existing := existingChunksByIndex p.store documentId
    (p.store.chunks.upsertAll
      (chunkRows filters documentId (parsed.chunks.filter (!unchanged existing ·)))).delete
        (·.id ∈ orphanIds existing (parsed.chunks.map (·.chunkIndex)))

theorem indexFile_ok {parsed : ParsedDocument}
    (h : indexFile w filters source p file parsed = .ok q) :
    ∃ row, Indexed w filters source file parsed row p q := by
  unfold indexFile at h
  obtain ⟨row, hrow, h⟩ := Py.bind_ok.mp h
  obtain ⟨⟨store, documentId⟩, hdoc, h⟩ := Py.bind_ok.mp h
  unfold upsertDocument at hdoc
  obtain ⟨repo, hr, hdoc⟩ := Py.bind_ok.mp hdoc
  obtain ⟨path, hpath, hdoc⟩ := Py.bind_ok.mp hdoc
  obtain ⟨-, rfl⟩ := requiredTextColumn_str.mp hr
  obtain ⟨-, rfl⟩ := requiredTextColumn_str.mp hpath
  rw [Py.pure_ok] at hdoc
  cases hdoc
  obtain ⟨p', hw, h⟩ := Py.bind_ok.mp h
  rw [Py.pure_ok] at h
  subst h
  obtain ⟨hd, hc⟩ := writeChunks_ok hw
  refine ⟨row, hrow, hd, ?_⟩
  dsimp only
  rw [hc]
  rfl

end

/-! ## A concrete worker

ASCII files without frontmatter, tokens counted as characters, and a digest
without collisions. -/

def asciiBytes (s : Str) : List UInt8 := s.map fun c => c.toNat.toUInt8

def asciiWorker : Worker where
  isDecimal := Char.isDigit
  countTokens := fun s => .ok s.length
  sha256 := id
  decodeUtf8 := fun bytes =>
    if bytes.all (· < 0x80) then .ok (bytes.map fun b => Char.ofNat b.toNat)
    else .error "invalid start byte"
  frontmatter := fun s => .ok (strip s, [])
  mistune := fun _ => true
  refusedNetloc := fun _ => false
  fromIsoformat := fun _ => none

end KnowledgeKiln.L1.FileProcessing
