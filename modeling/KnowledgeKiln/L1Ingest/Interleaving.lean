import KnowledgeKiln.Core.Run
import KnowledgeKiln.L1Ingest.Idempotence
import KnowledgeKiln.L1Ingest.Reembed

/-!
# Ingestion runs and re-embed runs on one store

Any number of processes work on one database. Each has a transaction of its own, in which it sees
what is committed and what it wrote itself. A run writes documents and chunks, reads the chunks of
the documents it touched and, in a second statement, the hashes of their embeddings; it commits,
embeds, and commits the vectors. A re-embed loads all chunks and commits their vectors. Between any
two steps of a process the others may commit what they like.

* `processFiles_statements`: the file loop is a series of statements of such a process.
* `pass_alone`: a process that no other disturbs does what `embedTouchedDocuments` does.
* `labels_truthful`: whatever the order of the steps, an embedding is that of a text with the hash
  it is labelled with.
-/
namespace KnowledgeKiln.L1.Embedding

open KnowledgeKiln.Core KnowledgeKiln.L1.Chunking KnowledgeKiln.L1.FileProcessing
  KnowledgeKiln.L1.Pipeline

/-! ## Statements of a file loop -/

/-- A chunk some document was cut into. -/
structure ParsedChunk (sha256 : Str → Str) where
  chunk : Chunk
  parsed : ∃ w text maxTokens doc, w.sha256 = sha256 ∧
    parseDocument w text maxTokens = .ok doc ∧ chunk ∈ doc.chunks

/-- What a file loop writes. An upsert comes with the id of the row should it be new. -/
inductive Statement (sha256 : Str → Str)
  | document (id : Uuid) (key : Str × Str) (row : Document)
  | chunk (id documentId : Uuid) (filters : ContentFilters) (c : ParsedChunk sha256)
  | deleteChunks (ids : List Uuid)

/-- The effect of a statement; embeddings go with their chunks (`ON DELETE CASCADE`). -/
def Statement.apply {sha256 : Str → Str} (db : Db) : Statement sha256 → Db
  | .document id key row =>
    { db with store := { db.store with documents := db.store.documents.upsertAs id key row } }
  | .chunk id documentId filters c =>
    { db with
      store := { db.store with
        chunks := db.store.chunks.upsertAs id (documentId, c.chunk.chunkIndex)
          (chunkRow filters c.chunk) } }
  | .deleteChunks ids =>
    { db with
      store := { db.store with chunks := db.store.chunks.delete (·.id ∈ ids) }
      embeddings := db.embeddings.delete (·.key ∈ ids) }

/-! ## Processes -/

/-- Where a process stands. -/
inductive Phase
  /-- in the file loop -/
  | files
  /-- before the chunks of the next document; what was gathered so far -/
  | gathering (docIds : List Uuid) (toEmbed : List ChunkOf) (summary : IngestionSummary)
  /-- between the chunks of a document and the hashes of their embeddings -/
  | comparing (docId : Uuid) (chunks : List ChunkOf) (docIds : List Uuid) (toEmbed : List ChunkOf)
    (summary : IngestionSummary)
  /-- behind the commit, before the vectors -/
  | gathered (toEmbed : List ChunkOf) (summary : IngestionSummary)
  /-- a re-embed before its `SELECT`, and behind it -/
  | loading
  | loaded (chunks : List ChunkOf)
  | finished

structure Process (sha256 : Str → Str) (providers : Set EmbeddingProvider) where
  provider : providers
  settings : IngestSettings
  /-- What its transaction wrote and has not committed. -/
  pending : List (Statement sha256) := []
  phase : Phase

section
variable {sha256 : Str → Str} {providers : Set EmbeddingProvider}

/-- What the process sees of the database. -/
def Process.view (p : Process sha256 providers) (db : Db) : Db := p.pending.foldl Statement.apply db

/-- The database behind a call that ends with a commit, or raises and is rolled back. -/
def committed {α : Type} (db : Db) (out : Except Raised α × Session Db) : Db :=
  match out.1 with
  | .ok _ => if out.2.aborted then db else out.2.working
  | .error _ => db

/-- The next step of a process that has left its file loop. -/
def Process.next (p : Process sha256 providers) (db : Db) :
    Option (Db × Process sha256 providers) :=
  match p.phase with
  | .files => none
  | .gathering [] toEmbed summary =>
    some (p.view db, { p with pending := [], phase := .gathered toEmbed summary })
  | .gathering (docId :: docIds) toEmbed summary =>
    let chunks := chunksForDocument (p.view db).store docId
    if chunks = [] then some (db, { p with phase := .gathering docIds toEmbed summary })
    else some (db, { p with phase := .comparing docId chunks docIds toEmbed summary })
  | .comparing docId chunks docIds toEmbed summary =>
    let fresh := chunks.filter (needsEmbed (existingHashesForDocument (p.view db) docId))
    let summary := { summary with
      embeddingsUnchanged := summary.embeddingsUnchanged + (chunks.length - fresh.length) }
    some (db, { p with phase := .gathering docIds (toEmbed ++ fresh) summary })
  | .gathered toEmbed summary =>
    some (committed db (embedGathered p.settings p.provider toEmbed summary
      { Session.begin db with commits := [db] }), { p with phase := .finished })
  | .loading => some (db, { p with phase := .loaded (loadAllChunks db.store) })
  | .loaded chunks =>
    if chunks = [] then some (db, { p with phase := .finished })
    else some (committed db (reembedLoaded p.settings p.provider chunks (Session.begin db)),
      { p with phase := .finished })
  | .finished => none

/-! ## The system -/

/-- The committed database and the processes, in the order they were started in. -/
structure World (sha256 : Str → Str) (providers : Set EmbeddingProvider) where
  db : Db := {}
  processes : List (Process sha256 providers) := []

inductive Event (sha256 : Str → Str) (providers : Set EmbeddingProvider)
  /-- A run begins. -/
  | ingest (provider : providers) (settings : IngestSettings)
  | reembed (provider : providers) (settings : IngestSettings)
  /-- The file loop of a run executes a statement. -/
  | execute (i : Nat) (e : Statement sha256)
  /-- The file loop is over, and has touched these documents. -/
  | touched (i : Nat) (docIds : List Uuid)
  | next (i : Nat)
  /-- The process is cancelled or raises, and its transaction is rolled back. -/
  | abort (i : Nat)

/-- Process `i` goes on as `f` says. -/
def World.process (w : World sha256 providers) (i : Nat)
    (f : Process sha256 providers → Option (Db × Process sha256 providers)) :
    Option (World sha256 providers) :=
  match w.processes[i]? with
  | none => none
  | some p => (f p).map fun out => { db := out.1, processes := w.processes.set i out.2 }

def step (w : World sha256 providers) : Event sha256 providers → Option (World sha256 providers)
  | .ingest provider settings =>
    some { w with processes :=
      w.processes ++ [{ provider := provider, settings := settings, phase := .files }] }
  | .reembed provider settings =>
    some { w with processes :=
      w.processes ++ [{ provider := provider, settings := settings, phase := .loading }] }
  | .execute i e => w.process i fun p =>
    match p.phase with
    | .files => some (w.db, { p with pending := p.pending ++ [e] })
    | _ => none
  | .touched i docIds => w.process i fun p =>
    match p.phase with
    | .files => some (w.db, { p with phase := .gathering docIds [] {} })
    | _ => none
  | .next i => w.process i fun p => p.next w.db
  | .abort i => w.process i fun p => some (w.db, { p with pending := [], phase := .finished })

/-! ## Labels -/

/-- The digest of a text (`_content_hash`). -/
def contentHash (sha256 : Str → Str) (text : Str) : Str := "sha256:" ++ sha256 text

/-- The provider returned the vector for the text, in a call that answered every text. -/
def Answered (provider : EmbeddingProvider) (text : Str) (vector : Vec) : Prop :=
  ∃ start texts vectors, provider.embedDocuments start texts = .ok vectors ∧
    vectors.length = texts.length ∧ (text, vector) ∈ texts.zip vectors

/-- The label is the hash of a text for which a provider returned the vector. -/
def Truthful (sha256 : Str → Str) (providers : Set EmbeddingProvider) (row : ChunkEmbedding) :
    Prop :=
  ∃ provider ∈ providers, ∃ text, contentHash sha256 text = row.contentHash ∧
    Answered provider text row.embedding

/-- The chunk carries the hash of its content. -/
def Hashed (sha256 : Str → Str) (c : ChunkOf) : Prop :=
  c.value.contentHash = contentHash sha256 c.value.content

variable (sha256 providers) in
structure Db.Labelled (db : Db) : Prop where
  chunks : ∀ c ∈ db.store.chunks.rows, Hashed sha256 c
  embeddings : ∀ e ∈ db.embeddings.rows, Truthful sha256 providers e.value

/-- The chunks a process has read. -/
def Phase.read : Phase → List ChunkOf
  | .gathering _ toEmbed _ => toEmbed
  | .comparing _ chunks _ toEmbed _ => chunks ++ toEmbed
  | .gathered toEmbed _ => toEmbed
  | .loaded chunks => chunks
  | _ => []

/-- The step hands the chunks that were read to the provider, all of them. -/
def Phase.handsOver : Phase → Bool
  | .gathered _ _ | .loaded _ => true
  | _ => false

/-- The invariant: in the database, and in what the processes have read. -/
structure World.Labelled (w : World sha256 providers) : Prop where
  db : Db.Labelled sha256 providers w.db
  processes : ∀ p ∈ w.processes, ∀ c ∈ p.phase.read, Hashed sha256 c

variable {db : Db} {p : Process sha256 providers}

theorem ParsedChunk.hashed (c : ParsedChunk sha256) :
    c.chunk.contentHash = contentHash sha256 c.chunk.content := by
  obtain ⟨w, text, maxTokens, doc, rfl, hparse, hc⟩ := c.parsed
  exact parseDocument_hash hparse _ hc

theorem apply_labelled (h : Db.Labelled sha256 providers db) (e : Statement sha256) :
    Db.Labelled sha256 providers (e.apply db) := by
  cases e with
  | document id key row => exact ⟨h.chunks, h.embeddings⟩
  | chunk id documentId filters c =>
    refine ⟨fun r hr => ?_, h.embeddings⟩
    rcases Table.mem_upsertAs hr with hr | hr
    · exact h.chunks r hr
    · unfold Hashed
      rw [hr]
      exact c.hashed
  | deleteChunks ids =>
    constructor
    · intro r hr
      exact h.chunks r (Table.mem_delete.mp hr).1
    · intro r hr
      exact h.embeddings r (Table.mem_delete.mp hr).1

theorem view_labelled (h : Db.Labelled sha256 providers db) :
    Db.Labelled sha256 providers (p.view db) := by
  unfold Process.view
  induction p.pending generalizing db with
  | nil => exact h
  | cons e pending ih =>
    rw [List.foldl_cons]
    exact ih (apply_labelled h e)

/-- The rows of chunks that carry the hash of their content are truthful. -/
theorem answers_truthful {settings : IngestSettings} {provider : EmbeddingProvider}
    (hp : provider ∈ providers) {chunks : List ChunkOf} (h : ∀ c ∈ chunks, Hashed sha256 c) :
    Answers (Truthful sha256 providers) settings provider chunks := by
  intro result hr ⟨chunkId, row⟩ hw
  obtain ⟨c, vector, hm, -, rfl⟩ := mem_written.mp hw
  have hslot : (c.value.content, some vector) ∈
      (chunks.map (·.value.content)).zip result.vectors := by
    rw [List.zip_map_left]
    exact List.mem_map_of_mem (f := Prod.map (·.value.content) id) hm
  obtain ⟨b, -, vectors, hrun, hv⟩ := embedChunksConcurrently_answers hr hslot
  refine ⟨provider, hp, c.value.content, (h c (List.of_mem_zip hm).1).symm, ?_⟩
  refine ⟨b.start, b.texts, vectors, ?_, runOne_length hrun, hv⟩
  unfold runOne at hrun
  split at hrun
  · cases hrun
  · rename_i hembed
    split at hrun
    · cases hrun
    · cases hrun
      exact hembed

theorem committed_labelled {α : Type} {x : Txn Db α} {s : Session Db}
    (hx : Txn.Keeps (Carries (Truthful sha256 providers) db.store) x) (hs : s.working = db)
    (h : Db.Labelled sha256 providers db) : Db.Labelled sha256 providers (committed db (x s)) := by
  have hcarries : Carries (Truthful sha256 providers) db.store s := by
    refine ⟨by rw [hs], ?_⟩
    rw [hs]
    exact h.embeddings
  have hafter := hx s hcarries
  unfold committed
  split
  · split
    · exact h
    · refine ⟨?_, hafter.rows⟩
      rw [hafter.store]
      exact h.chunks
  · exact h

theorem next_labelled {out : Db × Process sha256 providers} (hd : Db.Labelled sha256 providers db)
    (hp : ∀ c ∈ p.phase.read, Hashed sha256 c) (h : p.next db = some out) :
    Db.Labelled sha256 providers out.1 ∧ ∀ c ∈ out.2.phase.read, Hashed sha256 c := by
  have hview : Db.Labelled sha256 providers (p.view db) := view_labelled hd
  unfold Process.next at h
  split at h
  · cases h
  · rename_i toEmbed summary hphase
    cases h
    rw [hphase] at hp
    exact ⟨hview, hp⟩
  · rename_i docId docIds toEmbed summary hphase
    rw [hphase] at hp
    dsimp only at h
    split at h
    · cases h
      exact ⟨hd, hp⟩
    · cases h
      refine ⟨hd, fun c hc => ?_⟩
      rcases List.mem_append.mp hc with hc | hc
      · exact hview.chunks c (mem_chunksForDocument.mp hc).1
      · exact hp c hc
  · rename_i docId chunks docIds toEmbed summary hphase
    cases h
    rw [hphase] at hp
    refine ⟨hd, fun c hc => hp c ?_⟩
    rcases List.mem_append.mp hc with hc | hc
    · exact List.mem_append_right _ hc
    · exact List.mem_append_left _ (List.mem_of_mem_filter hc)
  · rename_i toEmbed summary hphase
    cases h
    rw [hphase] at hp
    refine ⟨?_, by simp [Phase.read]⟩
    exact committed_labelled (keeps_embedGathered_rows (answers_truthful p.provider.2 hp)) rfl hd
  · cases h
    exact ⟨hd, fun c hc => hd.chunks c (mem_loadAllChunks.mp hc)⟩
  · rename_i chunks hphase
    rw [hphase] at hp
    split at h
    · cases h
      exact ⟨hd, by simp [Phase.read]⟩
    · cases h
      refine ⟨?_, by simp [Phase.read]⟩
      exact committed_labelled (keeps_reembedLoaded (answers_truthful p.provider.2 hp)) rfl hd
  · cases h

/-- What a process leaves out of the chunks it has read has an embedding of its hash. -/
theorem next_skipped {out : Db × Process sha256 providers} (h : p.next db = some out) {c : ChunkOf}
    (hread : c ∈ p.phase.read) (hleft : c ∉ out.2.phase.read) (hover : p.phase.handsOver = false) :
    Embedded (p.view db) c := by
  unfold Process.next at h
  split at h
  · cases h
  · rename_i toEmbed summary hphase
    cases h
    rw [hphase] at hread
    exact absurd hread hleft
  · rename_i docId docIds toEmbed summary hphase
    rw [hphase] at hread
    dsimp only at h
    split at h
    · cases h
      exact absurd hread hleft
    · cases h
      exact absurd (List.mem_append_right _ hread) hleft
  · rename_i docId chunks docIds toEmbed summary hphase
    cases h
    rw [hphase] at hread
    obtain ⟨hgathered, hfresh⟩ := not_or.mp (mt List.mem_append.mpr hleft)
    have hc : c ∈ chunks := (List.mem_append.mp hread).resolve_right hgathered
    have hskip : needsEmbed (existingHashesForDocument (p.view db) docId) c = false := by
      simpa using fun hn => hfresh (List.mem_filter.mpr ⟨hc, hn⟩)
    unfold needsEmbed at hskip
    rw [decide_eq_false_iff_not, not_not] at hskip
    obtain ⟨-, -, -, -, hlabel⟩ := mem_existingHashes.mp (mem_of_lookupLast hskip)
    exact hlabel
  · rename_i toEmbed summary hphase
    rw [hphase] at hover
    cases hover
  · rename_i hphase
    rw [hphase] at hread
    cases hread
  · rename_i chunks hphase
    rw [hphase] at hover
    cases hover
  · cases h

/-- The pass behind its commit hands the text of every gathered chunk to the provider. -/
theorem embedGathered_calls {settings : IngestSettings} {provider : EmbeddingProvider}
    {gathered : List ChunkOf} {summary : IngestionSummary} {s s' : Session Db} {pass : EmbedPass}
    (hb : 0 < settings.batchSize) (hc : 0 < settings.concurrency)
    (h : embedGathered settings provider gathered summary s = (.ok pass, s')) :
    pass.calls.flatten = gathered.map (·.value.content) := by
  have htexts : ((batches (gathered.map (·.value.content)) settings.batchSize).map
      (·.texts)).flatten = gathered.map (·.value.content) := by
    rw [← List.flatMap_def]
    exact batches_texts hb
  unfold embedGathered at h
  by_cases hnil : gathered = []
  · rw [if_pos hnil] at h
    cases h
    rw [hnil]
    rfl
  rw [if_neg hnil] at h
  dsimp only at h
  cases hfan : embedChunksConcurrently provider (gathered.map (·.value.content))
    settings.batchSize settings.concurrency with
  | error exc =>
    unfold embedChunksConcurrently at hfan
    rw [if_neg hb.ne', if_neg hc.ne'] at hfan
    split at hfan <;> cases hfan
  | ok result =>
    rw [hfan] at h
    dsimp only at h
    cases hhopeless : hopeless result with
    | some exc =>
      rw [hhopeless] at h
      cases h
      exact htexts
    | none =>
      rw [hhopeless] at h
      dsimp only at h
      cases hw : writeEmbeddings provider (recordBatchFailures settings summary result.failures)
        gathered result.vectors s with
      | mk written s₁ =>
        cases written with
        | error exc =>
          rw [Txn.bind_of_error hw] at h
          cases h
        | ok out =>
          rw [Txn.bind_of_ok hw] at h
          cases h
          exact htexts

/-- A step of one process keeps what holds of all. -/
theorem process_labelled {w w' : World sha256 providers} {i : Nat}
    {f : Process sha256 providers → Option (Db × Process sha256 providers)} (hw : w.Labelled)
    (hf : ∀ p out, (∀ c ∈ p.phase.read, Hashed sha256 c) → f p = some out →
      Db.Labelled sha256 providers out.1 ∧ ∀ c ∈ out.2.phase.read, Hashed sha256 c)
    (h : w.process i f = some w') : w'.Labelled := by
  unfold World.process at h
  split at h
  · cases h
  · rename_i p hp
    obtain ⟨out, hout, rfl⟩ := Option.map_eq_some_iff.mp h
    obtain ⟨hdb, hread⟩ := hf p out (hw.processes p (List.mem_of_getElem? hp)) hout
    refine ⟨hdb, fun q hq => ?_⟩
    rcases List.mem_or_eq_of_mem_set hq with hq | rfl
    · exact hw.processes q hq
    · exact hread

theorem step_labelled {w w' : World sha256 providers} {e : Event sha256 providers}
    (hw : w.Labelled) (h : step w e = some w') : w'.Labelled := by
  cases e with
  | ingest provider settings =>
    cases h
    refine ⟨hw.db, fun p hp => ?_⟩
    rcases List.mem_append.mp hp with hp | hp
    · exact hw.processes p hp
    · rw [List.mem_singleton.mp hp]
      simp [Phase.read]
  | reembed provider settings =>
    cases h
    refine ⟨hw.db, fun p hp => ?_⟩
    rcases List.mem_append.mp hp with hp | hp
    · exact hw.processes p hp
    · rw [List.mem_singleton.mp hp]
      simp [Phase.read]
  | execute i e =>
    apply process_labelled hw _ h
    intro p out hp hout
    split at hout
    · cases hout
      exact ⟨hw.db, hp⟩
    · cases hout
  | touched i docIds =>
    apply process_labelled hw _ h
    intro p out hp hout
    split at hout
    · cases hout
      exact ⟨hw.db, by simp [Phase.read]⟩
    · cases hout
  | next i =>
    apply process_labelled hw _ h
    intro p out hp hout
    exact next_labelled hw.db hp hout
  | abort i =>
    apply process_labelled hw _ h
    intro p out _ hout
    cases hout
    exact ⟨hw.db, by simp [Phase.read]⟩

theorem exec_labelled {events : List (Event sha256 providers)} {w w' : World sha256 providers}
    (hw : w.Labelled) (h : exec step w events = some w') : w'.Labelled := by
  have hguard : Guarded step (fun _ _ => True) w events := guarded_of_forall fun _ _ _ => trivial
  exact exec_invariant (fun _ _ _ hi _ hs => step_labelled hi hs) hw hguard h

/-! ## A file loop as statements -/

variable (sha256) in
/-- Some statements turn the one store into the other. -/
def Writes (st st' : Store) : Prop :=
  ∃ es : List (Statement sha256), ∀ db : Db, db.store = st →
    (es.foldl Statement.apply db).store = st'

theorem writes_refl (st : Store) : Writes sha256 st st := ⟨[], fun _ h => h⟩

theorem Writes.trans {st st' st'' : Store} (h : Writes sha256 st st')
    (h' : Writes sha256 st' st'') : Writes sha256 st st'' := by
  obtain ⟨es, hes⟩ := h
  obtain ⟨es', hes'⟩ := h'
  refine ⟨es ++ es', fun db hdb => ?_⟩
  rw [List.foldl_append]
  exact hes' _ (hes db hdb)

theorem writes_document (st : Store) (key : Str × Str) (row : Document) :
    Writes sha256 st { st with documents := st.documents.upsert key row } := by
  refine ⟨[.document (st.documents.idFor key) key row], fun db hdb => ?_⟩
  subst hdb
  simp only [List.foldl_cons, List.foldl_nil, Statement.apply, Table.upsertAs_idFor]

theorem writes_chunks {filters : ContentFilters} {documentId : Uuid} :
    ∀ {chunks : List Chunk} {st : Store},
      (∀ c ∈ chunks, ∃ w text maxTokens doc, w.sha256 = sha256 ∧
        parseDocument w text maxTokens = .ok doc ∧ c ∈ doc.chunks) →
      Writes sha256 st
        { st with chunks := st.chunks.upsertAll (chunkRows filters documentId chunks) }
  | [], st, _ => writes_refl st
  | c :: chunks, st, h => by
    obtain ⟨hc, hchunks⟩ := List.forall_mem_cons.mp h
    have hfirst : Writes sha256 st { st with
        chunks := st.chunks.upsert (documentId, c.chunkIndex) (chunkRow filters c) } := by
      refine ⟨[.chunk (st.chunks.idFor (documentId, c.chunkIndex)) documentId filters ⟨c, hc⟩],
        fun db hdb => ?_⟩
      subst hdb
      simp only [List.foldl_cons, List.foldl_nil, Statement.apply, Table.upsertAs_idFor]
    exact hfirst.trans (writes_chunks hchunks)

theorem writes_delete (st : Store) (ids : List Uuid) :
    Writes sha256 st { st with chunks := st.chunks.delete (·.id ∈ ids) } := by
  refine ⟨[.deleteChunks ids], fun db hdb => ?_⟩
  subst hdb
  rfl

section
variable {w : Worker} {filters : ContentFilters} {source : Source}

theorem processFile_statements {file : FetchedFile} {p q : Progress}
    (h : processFile w filters source p file = .ok q) : Writes w.sha256 p.store q.store := by
  rcases processFile_ok h with ⟨-, he⟩ | ⟨parsed, hi, hindex⟩
  · rw [he]
    exact writes_refl p.store
  · obtain ⟨row, i⟩ := indexFile_ok hindex
    obtain ⟨text, -, hparse, -⟩ := indexable_ok hi
    have hchunks : ∀ c ∈ parsed.chunks.filter (!unchanged
        (existingChunksByIndex p.store i.documentId) ·), ∃ w' text maxTokens doc,
          w'.sha256 = w.sha256 ∧ parseDocument w' text maxTokens = .ok doc ∧ c ∈ doc.chunks :=
      fun c hc => ⟨w, text, _, parsed, rfl, hparse, List.mem_of_mem_filter hc⟩
    have hdocuments := i.documents
    have hrows := i.chunks
    cases hq : q.store
    rw [hq] at hdocuments hrows
    dsimp only at hdocuments hrows
    rw [hdocuments, hrows]
    exact ((writes_document p.store (documentKey source file) row).trans
      (writes_chunks hchunks)).trans (writes_delete _ _)

/-- **The file loop is a series of statements.** -/
theorem processFiles_statements : ∀ {files : List FetchedFile} {p q : Progress},
    processFiles w filters source p files = .ok q → Writes w.sha256 p.store q.store
  | [], p, q, h => by
    cases h
    exact writes_refl p.store
  | file :: files, p, q, h => by
    obtain ⟨p', hp, h⟩ := Py.bind_ok.mp h
    exact (processFile_statements hp).trans (processFiles_statements h)

end

/-! ## A process alone -/

/-- The steps of a process while no other commits. -/
def alone (s : Db × Process sha256 providers) (_ : Unit) : Option (Db × Process sha256 providers) :=
  s.2.next s.1

theorem gather_alone (db : Db) (p : Process sha256 providers) : ∀ (docIds : List Uuid)
    (read : List ChunkOf) (summary : IngestionSummary), ∃ es,
      exec alone (db, { p with phase := .gathering docIds read summary }) es =
        some (db, { p with phase := (.gathering [] (read ++ toEmbed (p.view db) docIds)
          (gatherChunksNeedingEmbed (p.view db) summary docIds).2) })
  | [], read, summary => ⟨[], by simp [exec, toEmbed, gatherChunksNeedingEmbed]⟩
  | docId :: docIds, read, summary => by
    by_cases hn : chunksForDocument (p.view db).store docId = []
    · obtain ⟨es, hes⟩ := gather_alone db p docIds read summary
      have hstep : alone (db, { p with phase := .gathering (docId :: docIds) read summary }) () =
          some (db, { p with phase := .gathering docIds read summary }) := if_pos hn
      have hnone : toEmbed (p.view db) (docId :: docIds) = toEmbed (p.view db) docIds := by
        rw [toEmbed, List.flatMap_cons, hn]
        rfl
      refine ⟨() :: es, exec_cons.mpr ⟨_, hstep, ?_⟩⟩
      rw [hes, hnone, gatherChunksNeedingEmbed, if_pos hn]
    · obtain ⟨es, hes⟩ := gather_alone db p docIds
        (read ++ (chunksForDocument (p.view db).store docId).filter
          (needsEmbed (existingHashesForDocument (p.view db) docId)))
        { summary with embeddingsUnchanged := summary.embeddingsUnchanged +
          ((chunksForDocument (p.view db).store docId).length -
            ((chunksForDocument (p.view db).store docId).filter
              (needsEmbed (existingHashesForDocument (p.view db) docId))).length) }
      let compared : Phase :=
        .comparing docId (chunksForDocument (p.view db).store docId) docIds read summary
      have hselect : alone (db, { p with phase := .gathering (docId :: docIds) read summary }) () =
          some (db, { p with phase := compared }) := if_neg hn
      have hcompare : alone (db, { p with phase := compared }) () = some _ := rfl
      refine ⟨() :: () :: es, exec_cons.mpr ⟨_, hselect, exec_cons.mpr ⟨_, hcompare, ?_⟩⟩⟩
      refine hes.trans ?_
      rw [List.append_assoc, gatherChunksNeedingEmbed, if_neg hn]
      rfl

/-- **Alone**, a process that has touched these documents commits what it wrote, and then what
`embedTouchedDocuments` makes of that. -/
theorem pass_alone (db : Db) (p : Process sha256 providers) (docIds : List Uuid) : ∃ es,
    exec alone (db, { p with phase := .gathering docIds [] {} }) es =
      some (committed (p.view db) (embedTouchedDocuments p.settings p.provider docIds {}
        (Session.begin (p.view db))), { p with pending := [], phase := .finished }) := by
  obtain ⟨es, hes⟩ := gather_alone db p docIds [] {}
  refine ⟨es ++ [(), ()], exec_append.mpr ⟨_, hes, ?_⟩⟩
  change some _ = some _
  by_cases hd : docIds = []
  · subst hd
    rfl
  · rw [embedTouched_gathered p.settings p.provider {} rfl hd]
    rfl

/-! ## Truthful labels -/

variable (sha256 providers) in
/-- **Labels are truthful.** After any steps of any number of runs and re-embeds, in any order,
from an empty database: an embedding labelled with a hash is the vector that a provider returned
for a text of that hash. When a process goes on, a chunk that it has read before the step and not
behind it is handed to the provider, or has an embedding whose label is the hash that was read;
and what a run has gathered is handed over with the text of every chunk. -/
theorem labels_truthful (events : List (Event sha256 providers)) (w : World sha256 providers)
    (h : exec step {} events = some w) :
    (∀ e ∈ w.db.embeddings.rows, Truthful sha256 providers e.value) ∧
    (∀ i w', step w (.next i) = some w' → ∀ p p', w.processes[i]? = some p →
      w'.processes[i]? = some p' → ∀ c ∈ p.phase.read, c ∉ p'.phase.read →
        p.phase.handsOver = true ∨ ((p.view w.db).embeddings.value c.id).map (·.contentHash) =
          some c.value.contentHash) ∧
    ∀ p ∈ w.processes, ∀ gathered summary, p.phase = .gathered gathered summary →
      0 < p.settings.batchSize → 0 < p.settings.concurrency → ∀ s pass s',
        embedGathered p.settings p.provider gathered summary s = (.ok pass, s') →
          pass.calls.flatten = gathered.map (·.value.content) := by
  have hempty : (({} : World sha256 providers)).Labelled :=
    ⟨⟨by simp [Table.empty], by simp [Table.empty]⟩, by simp⟩
  have hw := exec_labelled hempty h
  refine ⟨hw.db.embeddings, fun i w' hstep p p' hp hp' c hread hleft => ?_,
    fun p _ gathered summary _ hb hc s pass s' => embedGathered_calls hb hc⟩
  have hnext : w.process i (fun p => p.next w.db) = some w' := hstep
  unfold World.process at hnext
  rw [hp] at hnext
  obtain ⟨out, hout, rfl⟩ := Option.map_eq_some_iff.mp hnext
  have hi : i < w.processes.length := (List.getElem?_eq_some_iff.mp hp).1
  rw [List.getElem?_set_self hi] at hp'
  cases hp'
  cases hover : p.phase.handsOver with
  | true => exact .inl rfl
  | false => exact .inr (next_skipped hout hread hleft hover)

end

/-! ## A run and an edit behind its back -/

theorem parsed_line (text : Str) (h : (do
      let doc ← parseDocument asciiWorker text defaultMaxTokens
      pure doc.chunks) = .ok [makeChunk asciiWorker text [] 0 text.length]) :
    ∃ w text' maxTokens doc, w.sha256 = asciiWorker.sha256 ∧
      parseDocument w text' maxTokens = .ok doc ∧
      makeChunk asciiWorker text [] 0 text.length ∈ doc.chunks := by
  obtain ⟨doc, hdoc, h⟩ := Py.bind_ok.mp h
  rw [Py.pure_ok] at h
  exact ⟨asciiWorker, text, defaultMaxTokens, doc, rfl, hdoc, by rw [h]; exact List.mem_singleton_self _⟩

def oldLine : ParsedChunk asciiWorker.sha256 :=
  ⟨makeChunk asciiWorker "old".toList [] 0 3, parsed_line "old".toList (by decide +kernel)⟩

def newLine : ParsedChunk asciiWorker.sha256 :=
  ⟨makeChunk asciiWorker "new".toList [] 0 3, parsed_line "new".toList (by decide +kernel)⟩

/-- A provider of vectors of length one. -/
def unitProvider : EmbeddingProvider where
  provider := "local"
  model := "unit"
  dimensions := 1
  embedDocuments := fun _ texts => .ok (texts.map fun _ => [some 1])

/-- A run reads the old chunk; a second run commits the new one before the first embeds. -/
def editedBehind : List (Event asciiWorker.sha256 {unitProvider}) :=
  let provider : ({unitProvider} : Set EmbeddingProvider) := ⟨unitProvider, rfl⟩
  let settings : IngestSettings := { excStr := fun _ => [] }
  [.ingest provider settings, .ingest provider settings,
    .execute 0 (.chunk 7 0 {} oldLine), .touched 0 [0], .next 0, .next 0, .next 0,
    .execute 1 (.chunk 8 0 {} newLine), .touched 1 [], .next 1, .next 0]

/-- The stored hash of the chunk, and its label. -/
def editedLabels : Option (List Str × List Str) :=
  (exec step {} editedBehind).map fun w =>
    (w.db.store.chunks.rows.map (·.value.contentHash),
      w.db.embeddings.rows.map (·.value.contentHash))

/-- The label lags behind the chunk, and is the hash of the text that was embedded. -/
theorem labels_truthful_edited : ∃ w, exec step {} editedBehind = some w ∧
    w.db.store.chunks.rows.map (·.value.contentHash) = ["sha256:new".toList] ∧
    w.db.embeddings.rows.map (·.value.contentHash) = ["sha256:old".toList] ∧
    ∀ e ∈ w.db.embeddings.rows, Truthful asciiWorker.sha256 {unitProvider} e.value := by
  have hrun : editedLabels = some (["sha256:new".toList], ["sha256:old".toList]) := by
    decide +kernel
  obtain ⟨w, hw, hlabels⟩ := Option.map_eq_some_iff.mp hrun
  obtain ⟨hstored, hlabel⟩ := Prod.mk.inj hlabels
  exact ⟨w, hw, hstored, hlabel, (labels_truthful _ _ editedBehind w hw).1⟩

end KnowledgeKiln.L1.Embedding
