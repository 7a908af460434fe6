import KnowledgeKiln.Core.Txn
import KnowledgeKiln.L1Ingest.FileLoop

/-!
# The embedding pass (ingestion/embedding/pipeline.py, batched.py)

After the file loop, `embedTouchedDocuments` collects the chunks of the touched
documents whose embedding is missing or has another content hash, commits, hands
their texts to the provider in batches, and upserts one row for each vector.

* `embedChunksConcurrently_length`, `embedChunksConcurrently_filled`: the result has a slot for
  each text and, without a failed batch, a vector in every slot.
* `embedChunksConcurrently_sizes`: no failed batch is empty.
-/
namespace KnowledgeKiln.L1.Embedding

open KnowledgeKiln.Core KnowledgeKiln.L1.FileProcessing

/-! ## Tables -/

/-- The components of a vector; `none` stands for NaN and the infinities. -/
abbrev Vec := List (Option ℚ)

/-- The columns of `chunk_embeddings` beside its key `chunk_id`. -/
structure ChunkEmbedding where
  embedding : Vec
  model : Str
  provider : Str
  dimensions : Nat
  contentHash : Str
  deriving DecidableEq

/-- What `pgvector`, its index over 768 dimensions and the text columns take. -/
def ChunkEmbedding.storable (row : ChunkEmbedding) : Bool :=
  row.embedding ≠ [] && row.embedding.length ≤ 16000 && row.embedding.all Option.isSome &&
    (row.dimensions ≠ 768 || row.embedding.length = 768) &&
    [row.model, row.provider, row.contentHash].all fun s => !s.contains '\x00'

/-- Mirrors `IngestionSummary` (_summary.py). -/
structure IngestionSummary extends Summary where
  filesScanned : Nat := 0
  embeddingsCreated : Nat := 0
  embeddingsUnchanged : Nat := 0
  embeddingsFailed : Nat := 0
  runId : Option Nat := none
  deriving DecidableEq

inductive RunStatus
  | running | succeeded | partialSuccess | failed
  deriving DecidableEq, Repr

/-- A row of `ingestion_runs`. -/
structure IngestionRun where
  sourceName : Str
  status : RunStatus := .running
  stats : IngestionSummary := {}
  commitSha : Option Str := none

/-- The tables ingestion writes. A run's id is its place in `runs`. -/
structure Db where
  store : Store := {}
  embeddings : Table Uuid ChunkEmbedding := .empty
  runs : List IngestionRun := []

/-! ## Batches -/

structure EmbeddingProvider where
  provider : Str
  model : Str
  dimensions : Nat
  /-- `embed_documents`, for the batch that starts at this offset. -/
  embedDocuments : Nat → List Str → Except Raised (List Vec)

structure Batch where
  start : Nat
  texts : List Str

structure BatchResults where
  vectors : List (Option Vec)
  failures : List (Nat × Nat × Raised) := []

/-- `[(i, texts[i : i + batch_size]) for i in range(0, len(texts), batch_size)]` -/
def batches (texts : List Str) (batchSize : Nat) : List Batch :=
  (List.range ((texts.length + batchSize - 1) / batchSize)).map fun k =>
    { start := k * batchSize, texts := (texts.drop (k * batchSize)).take batchSize }

/-- Mirrors `_run_one` (batched.py:108-121), up to its writes. -/
def runOne (provider : EmbeddingProvider) (batch : Batch) : Except Raised (List Vec) :=
  match provider.embedDocuments batch.start batch.texts with
  | .error exc => .error exc
  | .ok vectors =>
    if vectors.length ≠ batch.texts.length then
      .error <| .exception <| .valueError <|
        "embedding provider returned ".toList ++ natStr vectors.length ++ " vectors for a batch of " ++
          natStr batch.texts.length ++ " (input offset " ++ natStr batch.start ++ ")"
    else .ok vectors

/-- `for offset, vector in enumerate(vectors): out[start + offset] = vector` -/
def writeSlots (out : List (Option Vec)) (start : Nat) : List (Option Vec) → List (Option Vec)
  | [] => out
  | v :: vectors => writeSlots (out.set start v) (start + 1) vectors

/-- What a finished batch does to `out`. -/
def finishBatch (provider : EmbeddingProvider) (out : List (Option Vec)) (batch : Batch) :
    List (Option Vec) :=
  match runOne provider batch with
  | .ok vectors => writeSlots out batch.start (vectors.map some)
  | .error _ => out

/-- Mirrors `_collect_failures` (batched.py:133-150). -/
def collectFailures (provider : EmbeddingProvider) :
    List Batch → List (Option Vec) → List (Option Vec) × List (Nat × Nat × Raised)
  | [], out => (out, [])
  | batch :: bs, out =>
    match runOne provider batch with
    | .ok _ => collectFailures provider bs out
    | .error exc =>
      let (out, failures) := collectFailures provider bs
        (writeSlots out batch.start (List.replicate batch.texts.length none))
      (out, (batch.start, batch.texts.length, exc) :: failures)

/-- Mirrors `embed_chunks_concurrently` (batched.py:66-130). -/
def embedChunksConcurrently (provider : EmbeddingProvider) (texts : List Str)
    (batchSize concurrency : Nat) : Except Raised BatchResults :=
  if batchSize = 0 then
    .error (.exception (.valueError ("batch_size must be positive, got ".toList ++ natStr batchSize)))
  else if concurrency = 0 then
    .error (.exception
      (.valueError ("concurrency must be positive, got ".toList ++ natStr concurrency)))
  else if texts = [] then .ok { vectors := [] }
  else
    let bs := batches texts batchSize
    let out := bs.foldl (finishBatch provider) (List.replicate texts.length none)
    let (vectors, failures) := collectFailures provider bs out
    .ok { vectors := vectors, failures := failures }

/-! ## The pass -/

structure IngestSettings where
  batchSize : Nat := 32
  concurrency : Nat := 4
  /-- `str(exc)` -/
  excStr : Raised → Str

/-- What the pass leaves behind: the summary, the texts handed to the provider, and how it
ended. -/
structure EmbedPass where
  summary : IngestionSummary
  calls : List (List Str) := []
  outcome : Except Raised Unit := .ok ()

/-- `f"embedding pass failed (all batches): {exc}"` (pipeline.py:145) -/
def passFailed (settings : IngestSettings) (exc : Raised) : Str :=
  "embedding pass failed (all batches): ".toList ++ settings.excStr exc

/-- The errors once the pass has ended. -/
def EmbedPass.errors (settings : IngestSettings) (pass : EmbedPass) : List Str :=
  match pass.outcome with
  | .ok _ => pass.summary.errors
  | .error exc => pass.summary.errors ++ [passFailed settings exc]

abbrev ChunkOf := Row (Uuid × Nat) DocumentChunk

/-- `SELECT … WHERE document_id = … ORDER BY chunk_index` -/
def chunksForDocument (st : Store) (documentId : Uuid) : List ChunkOf :=
  (st.chunks.rows.filter fun c => c.key.1 = documentId).insertionSort fun a b => a.key.2 ≤ b.key.2

/-- Mirrors `existing_hashes_for_document` (documents.py:329-345). -/
def existingHashesForDocument (db : Db) (documentId : Uuid) : List (Uuid × Str) :=
  (db.store.chunks.rows.filter fun c => c.key.1 = documentId).filterMap fun c =>
    (db.embeddings.value c.id).map fun e => (c.id, e.contentHash)

/-- `existing.get(c.id) != c.content_hash` -/
def needsEmbed (existing : List (Uuid × Str)) (c : ChunkOf) : Bool :=
  lookupLast existing c.id ≠ some c.value.contentHash

/-- Mirrors `_gather_chunks_needing_embed` (pipeline.py:164-194). -/
def gatherChunksNeedingEmbed (db : Db) (summary : IngestionSummary) :
    List Uuid → List ChunkOf × IngestionSummary
  | [] => ([], summary)
  | docId :: docIds =>
    let chunks := chunksForDocument db.store docId
    if chunks = [] then gatherChunksNeedingEmbed db summary docIds
    else
      let fresh := chunks.filter (needsEmbed (existingHashesForDocument db docId))
      let (rest, summary) := gatherChunksNeedingEmbed db
        { summary with
          embeddingsUnchanged := summary.embeddingsUnchanged + (chunks.length - fresh.length) }
        docIds
      (fresh ++ rest, summary)

/-- Mirrors `_record_batch_failures` (pipeline.py:133-161). -/
def recordBatchFailures (settings : IngestSettings) (summary : IngestionSummary) :
    List (Nat × Nat × Raised) → IngestionSummary
  | [] => summary
  | (start, size, exc) :: failures =>
    recordBatchFailures settings
      { summary with
        embeddingsFailed := summary.embeddingsFailed + size
        errors := summary.errors ++ ["embedding batch failed (offset=".toList ++ natStr start ++
          ", size=" ++ natStr size ++ "): " ++ settings.excStr exc] }
      failures

/-- The row of a chunk and its vector. -/
def embeddingRow (provider : EmbeddingProvider) (chunk : DocumentChunk) (vector : Vec) :
    ChunkEmbedding where
  embedding := vector
  model := provider.model
  provider := provider.provider
  dimensions := provider.dimensions
  contentHash := chunk.contentHash

/-- Mirrors `EmbeddingsRepository.upsert` (documents.py:294-327). -/
def upsertEmbedding (chunkId : Uuid) (row : ChunkEmbedding) (db : Db) : Py (Unit × Db) :=
  if row.storable && db.store.chunks.rows.any (·.id = chunkId) then
    .ok ((), { db with embeddings := db.embeddings.upsert chunkId row })
  else .error .dataError

/-- The loop of `_write_embeddings` (pipeline.py:220-233). -/
def writeVectors (provider : EmbeddingProvider) (summary : IngestionSummary) :
    List (ChunkOf × Option Vec) → Txn Db (IngestionSummary × Except Raised Unit)
  | [] => pure (summary, .ok ())
  | (_, none) :: rest => writeVectors provider summary rest
  | (c, some vector) :: rest => do
    match ← Txn.attempt (Txn.execute (upsertEmbedding c.id (embeddingRow provider c.value vector))) with
    | .error exc => pure (summary, .error exc)
    | .ok _ =>
      writeVectors provider { summary with embeddingsCreated := summary.embeddingsCreated + 1 } rest

/-- Mirrors `_write_embeddings` (pipeline.py:197-233). -/
def writeEmbeddings (provider : EmbeddingProvider) (summary : IngestionSummary)
    (chunks : List ChunkOf) (vectors : List (Option Vec)) :
    Txn Db (IngestionSummary × Except Raised Unit) :=
  if vectors.length ≠ chunks.length then
    pure ({ summary with
      errors := summary.errors ++ ["embedding fan-out returned ".toList ++ natStr vectors.length ++
        " vectors for " ++ natStr chunks.length ++ " chunks"]
      embeddingsFailed := summary.embeddingsFailed + chunks.length }, .ok ())
  else writeVectors provider summary (chunks.zip vectors)

/-- Every batch failed: the exception of the first. -/
def hopeless (result : BatchResults) : Option Raised :=
  match result.failures with
  | [] => none
  | (_, _, exc) :: _ => if result.vectors.all Option.isNone then some exc else none

/-- The pass behind its commit (pipeline.py:106-130). -/
def embedGathered (settings : IngestSettings) (provider : EmbeddingProvider)
    (toEmbed : List ChunkOf) (summary : IngestionSummary) : Txn Db EmbedPass :=
  if toEmbed = [] then pure { summary := summary }
  else
    let texts := toEmbed.map (·.value.content)
    match embedChunksConcurrently provider texts settings.batchSize settings.concurrency with
    | .error exc => pure { summary := summary, outcome := .error exc }
    | .ok result =>
      let calls := (batches texts settings.batchSize).map (·.texts)
      let summary := recordBatchFailures settings summary result.failures
      match hopeless result with
      | some exc => pure { summary := summary, calls := calls, outcome := .error exc }
      | none => do
        let (summary, outcome) ← writeEmbeddings provider summary toEmbed result.vectors
        pure { summary := summary, calls := calls, outcome := outcome }

/-- Mirrors `embed_touched_documents` (pipeline.py:44-130); `docIds` is the set, as its iteration
goes. -/
def embedTouchedDocuments (settings : IngestSettings) (provider : EmbeddingProvider)
    (docIds : List Uuid) (summary : IngestionSummary) : Txn Db EmbedPass :=
  if docIds = [] then pure { summary := summary }
  else do
    let (toEmbed, summary) ← Txn.query fun db => gatherChunksNeedingEmbed db summary docIds
    Txn.commit
    embedGathered settings provider toEmbed summary

/-! ## Slots -/

theorem writeSlots_length : ∀ {vectors : List (Option Vec)} {out : List (Option Vec)} {start : Nat},
    (writeSlots out start vectors).length = out.length
  | [], _, _ => rfl
  | v :: vectors, out, start => by
    rw [writeSlots, writeSlots_length, List.length_set]

theorem writeSlots_getElem? : ∀ {vectors : List (Option Vec)} {out : List (Option Vec)}
    {start i : Nat}, (writeSlots out start vectors)[i]? =
      if start ≤ i ∧ i < start + vectors.length ∧ i < out.length then vectors[i - start]? else out[i]?
  | [], out, start, i => by
    rw [if_neg]
    · rfl
    · simp only [List.length_nil]
      omega
  | v :: vectors, out, start, i => by
    rw [writeSlots, writeSlots_getElem?, List.length_set, List.length_cons]
    by_cases hi : i = start
    · subst hi
      rw [if_neg (by omega)]
      by_cases hl : i < out.length
      · rw [if_pos (by omega), List.getElem?_set_self hl, Nat.sub_self]
        rfl
      · rw [if_neg (by omega), List.getElem?_eq_none (by simpa using hl),
          List.getElem?_eq_none (by simpa using hl)]
    · rw [List.getElem?_set_ne (Ne.symm hi)]
      by_cases hc : start + 1 ≤ i ∧ i < start + 1 + vectors.length ∧ i < out.length
      · rw [if_pos hc, if_pos (by omega), show i - start = (i - (start + 1)) + 1 by omega]
        rfl
      · rw [if_neg hc, if_neg (by omega)]

theorem finishBatch_length (provider : EmbeddingProvider) (out : List (Option Vec)) (b : Batch) :
    (finishBatch provider out b).length = out.length := by
  unfold finishBatch
  split
  · exact writeSlots_length
  · rfl

theorem foldl_finishBatch_length (provider : EmbeddingProvider) : ∀ (bs : List Batch)
    (out : List (Option Vec)), (bs.foldl (finishBatch provider) out).length = out.length
  | [], _ => rfl
  | b :: bs, out => by
    rw [List.foldl_cons, foldl_finishBatch_length, finishBatch_length]

theorem collectFailures_length (provider : EmbeddingProvider) : ∀ (bs : List Batch)
    (out : List (Option Vec)), (collectFailures provider bs out).1.length = out.length
  | [], _ => rfl
  | b :: bs, out => by
    unfold collectFailures
    split
    · exact collectFailures_length provider bs out
    · exact (collectFailures_length provider bs _).trans writeSlots_length

/-- A batch without an exception is no failure. -/
theorem collectFailures_eq_nil {provider : EmbeddingProvider} : ∀ {bs : List Batch}
    {out : List (Option Vec)}, (collectFailures provider bs out).2 = [] →
    (collectFailures provider bs out).1 = out ∧
      ∀ b ∈ bs, ∃ vectors, runOne provider b = .ok vectors
  | [], out, _ => ⟨rfl, by simp⟩
  | b :: bs, out, h => by
    unfold collectFailures at h ⊢
    cases hb : runOne provider b with
    | error exc => simp [hb] at h
    | ok vectors =>
      simp only [hb] at h ⊢
      obtain ⟨hout, hbs⟩ := collectFailures_eq_nil h
      exact ⟨hout, List.forall_mem_cons.mpr ⟨⟨vectors, hb⟩, hbs⟩⟩

theorem runOne_length {provider : EmbeddingProvider} {b : Batch} {vectors : List Vec}
    (h : runOne provider b = .ok vectors) : vectors.length = b.texts.length := by
  unfold runOne at h
  split at h
  · cases h
  · split at h
    · cases h
    · rename_i hl
      cases h
      exact not_not.mp hl

/-- A slot that is filled stays filled. -/
theorem finishBatch_isSome {provider : EmbeddingProvider} {out : List (Option Vec)} {b : Batch}
    {i : Nat} (h : ∃ v, out[i]? = some (some v)) :
    ∃ v, (finishBatch provider out b)[i]? = some (some v) := by
  unfold finishBatch
  split
  · rename_i vectors hb
    rw [writeSlots_getElem?]
    split
    · rename_i hi
      rw [List.length_map] at hi
      exact ⟨vectors.get ⟨i - b.start, by omega⟩, by simp⟩
    · exact h
  · exact h

theorem foldl_finishBatch_isSome {provider : EmbeddingProvider} {i : Nat} :
    ∀ {bs : List Batch} {out : List (Option Vec)}, (∃ v, out[i]? = some (some v)) →
      ∃ v, (bs.foldl (finishBatch provider) out)[i]? = some (some v)
  | [], _, h => h
  | b :: bs, out, h => by
    rw [List.foldl_cons]
    exact foldl_finishBatch_isSome (finishBatch_isSome h)

/-- A batch that returned has filled its slots. -/
theorem foldl_finishBatch_filled {provider : EmbeddingProvider} {b : Batch} {vectors : List Vec}
    (hb : runOne provider b = .ok vectors) {i : Nat} (hi : b.start ≤ i)
    (hi' : i < b.start + b.texts.length) : ∀ {bs : List Batch} {out : List (Option Vec)},
      b ∈ bs → i < out.length → ∃ v, (bs.foldl (finishBatch provider) out)[i]? = some (some v)
  | b' :: bs, out, hm, ho => by
    rw [List.foldl_cons]
    rcases List.mem_cons.mp hm with rfl | hm
    · refine foldl_finishBatch_isSome ?_
      have hl := runOne_length hb
      simp only [finishBatch, hb, writeSlots_getElem?, List.length_map]
      rw [if_pos (by omega)]
      exact ⟨vectors.get ⟨i - b.start, by omega⟩, by simp⟩
    · exact foldl_finishBatch_filled hb hi hi' hm (by rwa [finishBatch_length])

/-- Every text is in a batch. -/
theorem exists_batch {texts : List Str} {batchSize i : Nat} (hb : 0 < batchSize)
    (hi : i < texts.length) : ∃ b ∈ batches texts batchSize,
      b.start ≤ i ∧ i < b.start + b.texts.length := by
  have hdiv := Nat.div_add_mod i batchSize
  have hmod := Nat.mod_lt i hb
  rw [Nat.mul_comm] at hdiv
  refine ⟨_, List.mem_map.mpr ⟨i / batchSize, List.mem_range.mpr ?_, rfl⟩, ?_, ?_⟩
  · refine Nat.lt_of_succ_le ((Nat.le_div_iff_mul_le hb).mpr ?_)
    rw [Nat.succ_mul]
    omega
  · dsimp only
    omega
  · simp only [List.length_take, List.length_drop]
    omega

theorem batches_texts_ne_nil {texts : List Str} {batchSize : Nat} (hb : 0 < batchSize) {b : Batch}
    (h : b ∈ batches texts batchSize) : 0 < b.texts.length := by
  obtain ⟨k, hk, rfl⟩ := List.mem_map.mp h
  have hk := (Nat.le_div_iff_mul_le hb).mp (Nat.succ_le_of_lt (List.mem_range.mp hk))
  rw [Nat.succ_mul] at hk
  simp only [List.length_take, List.length_drop]
  omega

section
variable {provider : EmbeddingProvider} {texts : List Str} {batchSize concurrency : Nat}
  {result : BatchResults}

theorem embedChunksConcurrently_length
    (h : embedChunksConcurrently provider texts batchSize concurrency = .ok result) :
    result.vectors.length = texts.length := by
  unfold embedChunksConcurrently at h
  split at h
  · cases h
  · split at h
    · cases h
    · split at h
      · rename_i ht
        cases h
        simp [ht]
      · cases h
        dsimp only
        rw [collectFailures_length, foldl_finishBatch_length, List.length_replicate]

/-- Without a failed batch, every text has a vector. -/
theorem embedChunksConcurrently_filled
    (h : embedChunksConcurrently provider texts batchSize concurrency = .ok result)
    (hf : result.failures = []) : ∀ v ∈ result.vectors, ∃ vector, v = some vector := by
  unfold embedChunksConcurrently at h
  split at h
  · cases h
  · split at h
    · cases h
    · split at h
      · cases h
        simp
      · rename_i hb _ _
        cases h
        obtain ⟨hout, hok⟩ := collectFailures_eq_nil hf
        intro v hv
        dsimp only at hv
        rw [hout] at hv
        obtain ⟨i, hi⟩ := List.mem_iff_getElem?.mp hv
        have hlt := (List.getElem?_eq_some_iff.mp hi).1
        rw [foldl_finishBatch_length, List.length_replicate] at hlt
        obtain ⟨b, hm, hs, he⟩ := exists_batch (Nat.pos_of_ne_zero hb) hlt
        obtain ⟨vectors, hr⟩ := hok b hm
        have hlen : i < (List.replicate texts.length (none : Option Vec)).length := by
          simpa using hlt
        obtain ⟨vector, hv⟩ := foldl_finishBatch_filled hr hs he hm hlen
        rw [hi] at hv
        exact ⟨vector, Option.some.inj hv⟩

/-- A failure is that of a batch, with the batch's size. -/
theorem collectFailures_sizes : ∀ {bs : List Batch} {out : List (Option Vec)},
    (∀ b ∈ bs, 0 < b.texts.length) → ∀ f ∈ (collectFailures provider bs out).2, 0 < f.2.1
  | [], _, _, f, hf => by cases hf
  | b :: bs, out, hpos, f, hf => by
    obtain ⟨hb, hbs⟩ := List.forall_mem_cons.mp hpos
    unfold collectFailures at hf
    split at hf
    · exact collectFailures_sizes hbs f hf
    · rcases List.mem_cons.mp hf with rfl | hf
      · exact hb
      · exact collectFailures_sizes hbs f hf

theorem embedChunksConcurrently_sizes
    (h : embedChunksConcurrently provider texts batchSize concurrency = .ok result) :
    ∀ f ∈ result.failures, 0 < f.2.1 := by
  unfold embedChunksConcurrently at h
  split at h
  · cases h
  · split at h
    · cases h
    · split at h
      · cases h
        simp
      · rename_i hb _ _
        cases h
        exact collectFailures_sizes fun b hm => batches_texts_ne_nil (Nat.pos_of_ne_zero hb) hm

end

end KnowledgeKiln.L1.Embedding
