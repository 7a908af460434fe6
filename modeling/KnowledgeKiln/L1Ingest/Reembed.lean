import KnowledgeKiln.L1Ingest.FanOut
import KnowledgeKiln.L1Ingest.RunRow

/-!
# Re-embedding every chunk (ingestion/reembed.py)

`reembedAllChunks` loads the chunks of all documents, hands their texts to the provider and
overwrites their embeddings, whatever hash these carry. Unlike the pass of a run it raises what a
statement raises.

* `Carries`: a predicate of rows that the two writing loops keep, if the rows they write have it.
* `reembed_counts`: every chunk is counted as embedded or as failed.
-/
namespace KnowledgeKiln.L1.Embedding

open KnowledgeKiln.Core KnowledgeKiln.L1.FileProcessing KnowledgeKiln.L1.Pipeline

structure ReembedResult where
  chunksTotal : Nat
  chunksEmbedded : Nat := 0
  chunksFailed : Nat := 0
  failures : List (Nat × Nat × Raised) := []

/-- Mirrors `_load_all_chunks` (reembed.py:149-166). -/
def loadAllChunks (st : Store) : List ChunkOf :=
  st.chunks.rows.insertionSort fun a b =>
    a.key.1 < b.key.1 ∨ a.key.1 = b.key.1 ∧ a.key.2 ≤ b.key.2

/-- Mirrors `_write_reembed_vectors` (reembed.py:169-198). The two lists it zips are of one
length. -/
def writeReembedVectors (provider : EmbeddingProvider) (embedded failed : Nat) :
    List (ChunkOf × Option Vec) → Txn Db (Nat × Nat)
  | [] => pure (embedded, failed)
  | (_, none) :: rest => writeReembedVectors provider embedded (failed + 1) rest
  | (c, some vector) :: rest => do
    Txn.execute (upsertEmbedding c.id (embeddingRow provider c.value vector))
    writeReembedVectors provider (embedded + 1) failed rest

/-- `reembed_all_chunks` behind its `SELECT` (reembed.py:102-146). -/
def reembedLoaded (settings : IngestSettings) (provider : EmbeddingProvider)
    (chunks : List ChunkOf) : Txn Db ReembedResult :=
  match embedChunksConcurrently provider (chunks.map (·.value.content)) settings.batchSize
    settings.concurrency with
  | .error exc => Txn.raise exc
  | .ok result =>
    match hopeless result with
    | some exc => Txn.raise exc
    | none => do
      let (embedded, failed) ← writeReembedVectors provider 0 0 (chunks.zip result.vectors)
      pure
        { chunksTotal := chunks.length
          chunksEmbedded := embedded
          chunksFailed := failed
          failures := result.failures }

/-- Mirrors `reembed_all_chunks` (reembed.py:69-146). -/
def reembedAllChunks (settings : IngestSettings) (provider : EmbeddingProvider) (dryRun : Bool) :
    Txn Db ReembedResult := do
  let chunks ← Txn.query fun db => loadAllChunks db.store
  if chunks = [] ∨ dryRun = true then pure { chunksTotal := chunks.length }
  else reembedLoaded settings provider chunks

theorem mem_loadAllChunks {st : Store} {c : ChunkOf} :
    c ∈ loadAllChunks st ↔ c ∈ st.chunks.rows := by
  unfold loadAllChunks
  rw [(List.perm_insertionSort _ _).mem_iff]

/-! ## Counts -/

section
variable {settings : IngestSettings} {provider : EmbeddingProvider} {s s' : Session Db}

theorem writeReembedVectors_counts : ∀ {pairs : List (ChunkOf × Option Vec)}
    {embedded failed e f : Nat} {s : Session Db},
    writeReembedVectors provider embedded failed pairs s = (.ok (e, f), s') →
      e + f = embedded + failed + pairs.length
  | [], embedded, failed, e, f, s, h => by
    cases h
    rfl
  | (c, none) :: rest, embedded, failed, e, f, s, h => by
    change writeReembedVectors provider embedded (failed + 1) rest s = _ at h
    have ih := writeReembedVectors_counts h
    rw [List.length_cons]
    omega
  | (c, some vector) :: rest, embedded, failed, e, f, s, h => by
    unfold writeReembedVectors at h
    cases hr : Txn.execute (upsertEmbedding c.id (embeddingRow provider c.value vector)) s with
    | mk r s₁ =>
      cases r with
      | error exc =>
        rw [Txn.bind_of_error hr] at h
        cases h
      | ok u =>
        rw [Txn.bind_of_ok hr] at h
        have ih := writeReembedVectors_counts h
        rw [List.length_cons]
        omega

/-- Every chunk is counted once. -/
theorem reembed_counts {chunks : List ChunkOf} {result : ReembedResult}
    (h : reembedLoaded settings provider chunks s = (.ok result, s')) :
    result.chunksTotal = chunks.length ∧
      result.chunksEmbedded + result.chunksFailed = chunks.length := by
  unfold reembedLoaded at h
  cases hr : embedChunksConcurrently provider (chunks.map (·.value.content)) settings.batchSize
      settings.concurrency with
  | error exc =>
    rw [hr] at h
    cases h
  | ok fan =>
    simp only [hr] at h
    cases hh : hopeless fan with
    | some exc =>
      rw [hh] at h
      cases h
    | none =>
      simp only [hh] at h
      cases hw : writeReembedVectors provider 0 0 (chunks.zip fan.vectors) s with
      | mk r s₁ =>
        cases r with
        | error exc =>
          rw [Txn.bind_of_error hw] at h
          cases h
        | ok counts =>
          rw [Txn.bind_of_ok hw] at h
          cases h
          have hlen := embedChunksConcurrently_length hr
          have hcounts := writeReembedVectors_counts hw
          rw [List.length_zip, hlen, List.length_map, Nat.min_self] at hcounts
          exact ⟨rfl, by simpa using hcounts⟩

end

/-! ## Rows -/

/-- In the session the store is `st`, and every embedding has `P`. -/
structure Carries (P : ChunkEmbedding → Prop) (st : Store) (s : Session Db) : Prop where
  store : s.working.store = st
  rows : ∀ e ∈ s.working.embeddings.rows, P e.value

section
variable {P : ChunkEmbedding → Prop} {st : Store} {settings : IngestSettings}
  {provider : EmbeddingProvider}

theorem keeps_upsertEmbedding {chunkId : Uuid} {row : ChunkEmbedding} (hP : P row) :
    Txn.Keeps (Carries P st) (Txn.execute (upsertEmbedding chunkId row)) := by
  apply Txn.keeps_execute
  · intro s h
    exact ⟨h.store, h.rows⟩
  · intro s _ db h hu
    unfold upsertEmbedding at hu
    split at hu
    · cases hu
      refine ⟨h.store, fun e he => ?_⟩
      rcases Table.mem_upsert.mp he with rfl | ⟨he, -⟩
      · exact hP
      · exact h.rows e he
    · cases hu

theorem keeps_writeVectors_rows : ∀ {pairs : List (ChunkOf × Option Vec)}
    {summary : IngestionSummary}, (∀ w ∈ written provider pairs, P w.2) →
    Txn.Keeps (Carries P st) (writeVectors provider summary pairs)
  | [], _, _ => Txn.keeps_pure _
  | (c, none) :: rest, summary, h => by
    have hrest : Txn.Keeps (Carries P st) (writeVectors provider summary rest) :=
      keeps_writeVectors_rows h
    exact hrest
  | (c, some vector) :: rest, summary, h => by
    have hw : written provider ((c, some vector) :: rest) =
        (c.id, embeddingRow provider c.value vector) :: written provider rest := rfl
    rw [hw] at h
    obtain ⟨hrow, hrest⟩ := List.forall_mem_cons.mp h
    unfold writeVectors
    refine Txn.keeps_bind (Txn.keeps_attempt (keeps_upsertEmbedding hrow)) fun out => ?_
    split
    · exact Txn.keeps_pure _
    · exact keeps_writeVectors_rows hrest

theorem keeps_writeReembedVectors : ∀ {pairs : List (ChunkOf × Option Vec)}
    {embedded failed : Nat}, (∀ w ∈ written provider pairs, P w.2) →
    Txn.Keeps (Carries P st) (writeReembedVectors provider embedded failed pairs)
  | [], _, _, _ => Txn.keeps_pure _
  | (c, none) :: rest, embedded, failed, h => by
    have hrest : Txn.Keeps (Carries P st) (writeReembedVectors provider embedded (failed + 1) rest) :=
      keeps_writeReembedVectors h
    exact hrest
  | (c, some vector) :: rest, embedded, failed, h => by
    have hw : written provider ((c, some vector) :: rest) =
        (c.id, embeddingRow provider c.value vector) :: written provider rest := rfl
    rw [hw] at h
    obtain ⟨hrow, hrest⟩ := List.forall_mem_cons.mp h
    unfold writeReembedVectors
    exact Txn.keeps_bind (keeps_upsertEmbedding hrow) fun _ => keeps_writeReembedVectors hrest

/-- The rows a fan-out over the chunks gives have `P`. -/
def Answers (P : ChunkEmbedding → Prop) (settings : IngestSettings) (provider : EmbeddingProvider)
    (chunks : List ChunkOf) : Prop :=
  ∀ result, embedChunksConcurrently provider (chunks.map (·.value.content)) settings.batchSize
    settings.concurrency = .ok result → ∀ w ∈ written provider (chunks.zip result.vectors), P w.2

theorem keeps_embedGathered_rows {chunks : List ChunkOf} {summary : IngestionSummary}
    (h : Answers P settings provider chunks) :
    Txn.Keeps (Carries P st) (embedGathered settings provider chunks summary) := by
  unfold embedGathered
  split
  · exact Txn.keeps_pure _
  · dsimp only
    split
    · exact Txn.keeps_pure _
    · rename_i result hr
      split
      · exact Txn.keeps_pure _
      · refine Txn.keeps_bind ?_ fun out => Txn.keeps_pure _
        unfold writeEmbeddings
        split
        · exact Txn.keeps_pure _
        · exact keeps_writeVectors_rows (h result hr)

theorem keeps_reembedLoaded {chunks : List ChunkOf} (h : Answers P settings provider chunks) :
    Txn.Keeps (Carries P st) (reembedLoaded settings provider chunks) := by
  unfold reembedLoaded
  split
  · exact Txn.keeps_raise _
  · rename_i result hr
    split
    · exact Txn.keeps_raise _
    · exact Txn.keeps_bind (keeps_writeReembedVectors (h result hr)) fun _ => Txn.keeps_pure _

end

end KnowledgeKiln.L1.Embedding
