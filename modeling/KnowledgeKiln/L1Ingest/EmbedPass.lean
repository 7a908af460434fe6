import KnowledgeKiln.L1Ingest.Embedding

/-!
# What the embedding pass leaves behind

* `mem_toEmbed`: the gathered chunks are those of the documents without an embedding of their
  hash.
-/
namespace KnowledgeKiln.L1.Embedding

open KnowledgeKiln.Core KnowledgeKiln.L1.FileProcessing

/-! ## What is gathered -/

/-- The chunk has an embedding with its content hash. -/
def Embedded (db : Db) (c : ChunkOf) : Prop :=
  (db.embeddings.value c.id).map (·.contentHash) = some c.value.contentHash

/-- The chunks the pass gathers. -/
def toEmbed (db : Db) (docIds : List Uuid) : List ChunkOf :=
  docIds.flatMap fun docId =>
    (chunksForDocument db.store docId).filter (needsEmbed (existingHashesForDocument db docId))

section
variable {db : Db} {docId : Uuid} {docIds : List Uuid} {c : ChunkOf}

theorem mem_chunksForDocument {st : Store} :
    c ∈ chunksForDocument st docId ↔ c ∈ st.chunks.rows ∧ c.key.1 = docId := by
  unfold chunksForDocument
  rw [(List.perm_insertionSort _ _).mem_iff, List.mem_filter, decide_eq_true_eq]

theorem mem_existingHashes {id : Uuid} {hash : Str} :
    (id, hash) ∈ existingHashesForDocument db docId ↔ ∃ c ∈ db.store.chunks.rows,
      c.key.1 = docId ∧ c.id = id ∧ (db.embeddings.value id).map (·.contentHash) = some hash := by
  unfold existingHashesForDocument
  simp only [List.mem_filterMap, List.mem_filter, decide_eq_true_eq, Option.map_eq_some_iff,
    Prod.mk.injEq]
  constructor
  · rintro ⟨c, ⟨hc, hd⟩, e, he, rfl, rfl⟩
    exact ⟨c, hc, hd, rfl, e, he, rfl⟩
  · rintro ⟨c, hc, hd, rfl, e, he, rfl⟩
    exact ⟨c, ⟨hc, hd⟩, e, he, rfl, rfl⟩

theorem existingHashes_nodup : ((existingHashesForDocument db docId).map Prod.fst).Nodup := by
  unfold existingHashesForDocument
  have hsub : ∀ l : List ChunkOf, (((l.filterMap fun c =>
      (db.embeddings.value c.id).map fun e => (c.id, e.contentHash)).map Prod.fst)).Sublist
        (l.map (·.id)) := by
    intro l
    induction l with
    | nil => simp
    | cons c l ih =>
      cases hv : db.embeddings.value c.id with
      | none =>
        simp only [List.filterMap_cons, hv, Option.map_none, List.map_cons]
        exact ih.cons _
      | some e =>
        simp only [List.filterMap_cons, hv, Option.map_some, List.map_cons]
        exact ih.cons_cons _
  exact (db.store.chunks.ids_nodup.sublist (List.filter_sublist.map _)).sublist (hsub _)

/-- A chunk is gathered when it has no embedding of its hash. -/
theorem needsEmbed_iff (hc : c ∈ db.store.chunks.rows) (hd : c.key.1 = docId) :
    needsEmbed (existingHashesForDocument db docId) c = true ↔ ¬ Embedded db c := by
  have hlookup : lookupLast (existingHashesForDocument db docId) c.id =
      (db.embeddings.value c.id).map (·.contentHash) := by
    refine Option.ext fun hash => ?_
    constructor
    · intro h
      obtain ⟨c', hc', -, hid, hv⟩ := mem_existingHashes.mp (mem_of_lookupLast h)
      exact hv
    · intro h
      exact lookupLast_of_mem existingHashes_nodup (mem_existingHashes.mpr ⟨c, hc, hd, rfl, h⟩)
  unfold needsEmbed Embedded
  rw [hlookup]
  simp

theorem mem_toEmbed : c ∈ toEmbed db docIds ↔
    c ∈ db.store.chunks.rows ∧ c.key.1 ∈ docIds ∧ ¬ Embedded db c := by
  unfold toEmbed
  simp only [List.mem_flatMap, List.mem_filter, mem_chunksForDocument]
  constructor
  · rintro ⟨docId, hd, ⟨hc, rfl⟩, hn⟩
    exact ⟨hc, hd, (needsEmbed_iff hc rfl).mp hn⟩
  · rintro ⟨hc, hd, hn⟩
    exact ⟨c.key.1, hd, ⟨hc, rfl⟩, (needsEmbed_iff hc rfl).mpr hn⟩

theorem gather_fst : ∀ {docIds : List Uuid} {summary : IngestionSummary},
    (gatherChunksNeedingEmbed db summary docIds).1 = toEmbed db docIds
  | [], _ => rfl
  | docId :: docIds, summary => by
    unfold gatherChunksNeedingEmbed
    dsimp only
    rw [toEmbed, List.flatMap_cons]
    split
    · rename_i hn
      rw [gather_fst, hn]
      rfl
    · rw [gather_fst]
      rfl

theorem gather_snd : ∀ {docIds : List Uuid} {summary : IngestionSummary}, ∃ n,
    (gatherChunksNeedingEmbed db summary docIds).2 =
      { summary with embeddingsUnchanged := summary.embeddingsUnchanged + n }
  | [], summary => ⟨0, rfl⟩
  | docId :: docIds, summary => by
    unfold gatherChunksNeedingEmbed
    dsimp only
    split
    · exact gather_snd
    · have ih : ∀ summary : IngestionSummary, ∃ n,
          (gatherChunksNeedingEmbed db summary docIds).2 =
            { summary with embeddingsUnchanged := summary.embeddingsUnchanged + n } :=
        fun _ => gather_snd
      obtain ⟨n, hn⟩ := ih _
      exact ⟨_, by rw [hn, Nat.add_assoc]⟩

end

/-! ## What is written -/

/-- The rows of the chunks that have a vector. -/
def written (provider : EmbeddingProvider) (pairs : List (ChunkOf × Option Vec)) :
    List (Uuid × ChunkEmbedding) :=
  pairs.filterMap fun p => p.2.map fun vector => (p.1.id, embeddingRow provider p.1.value vector)

theorem mem_written {provider : EmbeddingProvider} {pairs : List (ChunkOf × Option Vec)}
    {id : Uuid} {row : ChunkEmbedding} : (id, row) ∈ written provider pairs ↔
      ∃ c vector, (c, some vector) ∈ pairs ∧ c.id = id ∧ embeddingRow provider c.value vector = row := by
  unfold written
  simp only [List.mem_filterMap, Option.map_eq_some_iff, Prod.mk.injEq, Prod.exists]
  constructor
  · rintro ⟨c, _, hm, vector, rfl, hid, hrow⟩
    exact ⟨c, vector, hm, hid, hrow⟩
  · rintro ⟨c, vector, hm, hid, hrow⟩
    exact ⟨c, some vector, hm, vector, rfl, hid, hrow⟩

section
variable {provider : EmbeddingProvider} {summary : IngestionSummary} {s : Session Db}

theorem upsertEmbedding_ok {c : ChunkOf} {vector : Vec} {db : Db}
    (hc : c ∈ db.store.chunks.rows) (hv : (embeddingRow provider c.value vector).storable = true) :
    upsertEmbedding c.id (embeddingRow provider c.value vector) db =
      .ok ((), { db with
        embeddings := db.embeddings.upsert c.id (embeddingRow provider c.value vector) }) := by
  have hany : db.store.chunks.rows.any (·.id = c.id) = true :=
    List.any_eq_true.mpr ⟨c, hc, by simp⟩
  rw [upsertEmbedding, hv, hany]
  rfl

/-- A row the database takes is written, and the loop goes on. -/
theorem writeVectors_cons {c : ChunkOf} {vector : Vec} {rest : List (ChunkOf × Option Vec)}
    {db : Db} (hs : s.aborted = false)
    (hu : upsertEmbedding c.id (embeddingRow provider c.value vector) s.working = .ok ((), db)) :
    writeVectors provider summary ((c, some vector) :: rest) s =
      writeVectors provider { summary with embeddingsCreated := summary.embeddingsCreated + 1 }
        rest { s with working := db } := by
  exact Txn.bind_of_ok (Txn.attempt_of (Txn.execute_of_ok hs hu))

/-- Rows the database takes are all written. -/
theorem writeVectors_ok {pairs : List (ChunkOf × Option Vec)} (hs : s.aborted = false)
    (hm : ∀ p ∈ pairs, p.1 ∈ s.working.store.chunks.rows)
    (ht : ∀ w ∈ written provider pairs, w.2.storable = true) :
    writeVectors provider summary pairs s =
      (.ok ({ summary with embeddingsCreated :=
          summary.embeddingsCreated + (written provider pairs).length }, .ok ()),
        { s with working := { s.working with
          embeddings := s.working.embeddings.upsertAll (written provider pairs) } }) := by
  induction pairs generalizing summary s with
  | nil => rfl
  | cons p rest ih =>
    obtain ⟨c, vector⟩ := p
    obtain ⟨hc, hrest⟩ := List.forall_mem_cons.mp hm
    cases vector with
    | none => exact ih hs hrest ht
    | some vector =>
      have hw : written provider ((c, some vector) :: rest) =
          (c.id, embeddingRow provider c.value vector) :: written provider rest := rfl
      rw [hw] at ht
      obtain ⟨hv, ht⟩ := List.forall_mem_cons.mp ht
      rw [writeVectors_cons hs (upsertEmbedding_ok hc hv)]
      rw [ih (by exact hs) (by exact hrest) ht]
      simp only [hw, List.length_cons, Table.upsertAll, List.foldl_cons, Nat.add_assoc,
        Nat.add_comm 1]

/-- A row the database refuses aborts the transaction. -/
theorem writeVectors_refused {pairs : List (ChunkOf × Option Vec)} (hs : s.aborted = false)
    (ht : ∃ w ∈ written provider pairs, w.2.storable = false) :
    ∃ summary' outcome db', writeVectors provider summary pairs s =
      (.ok (summary', outcome), { s with working := db', aborted := true }) := by
  induction pairs generalizing summary s with
  | nil =>
    obtain ⟨w, hw, -⟩ := ht
    cases hw
  | cons p rest ih =>
    obtain ⟨c, vector⟩ := p
    cases vector with
    | none => exact ih hs ht
    | some vector =>
      cases hu : upsertEmbedding c.id (embeddingRow provider c.value vector) s.working with
      | error exc =>
        have h := Txn.attempt_of (Txn.execute_of_error hs hu)
        exact ⟨_, _, _, Txn.bind_of_ok h⟩
      | ok out =>
        obtain ⟨⟨⟩, db⟩ := out
        rw [writeVectors_cons hs hu]
        obtain ⟨w, hw, hst⟩ := ht
        refine ih hs ⟨w, ?_, hst⟩
        rcases List.mem_cons.mp hw with rfl | hw
        · -- the refused row is not this one
          rw [upsertEmbedding, hst] at hu
          cases hu
        · exact hw

end

/-! ## How the pass ends -/

/-- The vectors of a fan-out with which every chunk's row is one the database takes. -/
def StorableVectors (provider : EmbeddingProvider) (chunks : List DocumentChunk)
    (vectors : List (Option Vec)) : Prop :=
  ∀ p ∈ chunks.zip vectors, ∀ vector, p.2 = some vector →
    (embeddingRow provider p.1 vector).storable = true

/-- The provider's answers for these chunks leave the session usable: unless every batch fails,
the database takes every vector that came back, and if every batch fails, the first was not
cancelled. -/
def Sound (settings : IngestSettings) (provider : EmbeddingProvider)
    (chunks : List DocumentChunk) : Prop :=
  chunks = [] ∨
  match embedChunksConcurrently provider (chunks.map (·.content)) settings.batchSize
    settings.concurrency with
  | .error _ => True
  | .ok result =>
    match hopeless result with
    | some exc => exc ≠ .cancelled
    | none => StorableVectors provider chunks result.vectors

/-- The errors recorded about the batches that failed. -/
def batchErrors (settings : IngestSettings) (failures : List (Nat × Nat × Raised)) : List Str :=
  failures.map fun f => "embedding batch failed (offset=".toList ++ natStr f.1 ++ ", size=" ++
    natStr f.2.1 ++ "): " ++ settings.excStr f.2.2

/-- The errors of the pass and of the `except` around it. -/
def passErrors (settings : IngestSettings) (provider : EmbeddingProvider)
    (chunks : List DocumentChunk) : List Str :=
  if chunks = [] then []
  else
    match embedChunksConcurrently provider (chunks.map (·.content)) settings.batchSize
      settings.concurrency with
    | .error exc => [passFailed settings exc]
    | .ok result =>
      batchErrors settings result.failures ++ (hopeless result).toList.map (passFailed settings)

theorem recordBatchFailures_eq {settings : IngestSettings} :
    ∀ {failures : List (Nat × Nat × Raised)} {summary : IngestionSummary},
      recordBatchFailures settings summary failures =
        { summary with
          embeddingsFailed := summary.embeddingsFailed + (failures.map (·.2.1)).sum
          errors := summary.errors ++ batchErrors settings failures }
  | [], summary => by simp [recordBatchFailures, batchErrors]
  | (start, size, exc) :: failures, summary => by
    rw [recordBatchFailures, recordBatchFailures_eq]
    simp [batchErrors, Nat.add_assoc]

theorem embedChunksConcurrently_error {provider : EmbeddingProvider} {texts : List Str}
    {batchSize concurrency : Nat} {exc : Raised}
    (h : embedChunksConcurrently provider texts batchSize concurrency = .error exc) :
    exc ≠ .cancelled := by
  unfold embedChunksConcurrently at h
  split at h
  · cases h
    simp
  · split at h
    · cases h
      simp
    · split at h <;> cases h

/-- After a hopeless fan-out there is no vector to write. -/
theorem hopeless_all {result : BatchResults} {exc : Raised} (h : hopeless result = some exc) :
    ∀ v ∈ result.vectors, v.isNone = true := by
  unfold hopeless at h
  split at h
  · cases h
  · split at h
    · rename_i hall
      exact List.all_eq_true.mp hall
    · cases h

section
variable {settings : IngestSettings} {provider : EmbeddingProvider} {summary : IngestionSummary}
  {chunks : List ChunkOf} {s : Session Db} {result : BatchResults}

theorem storable_written {vectors : List (Option Vec)} :
    (∀ w ∈ written provider (chunks.zip vectors), w.2.storable = true) ↔
      StorableVectors provider (chunks.map (·.value)) vectors := by
  unfold StorableVectors
  rw [List.zip_map_left]
  constructor
  · intro h p hp vector hv
    obtain ⟨⟨c, v⟩, hm, rfl⟩ := List.mem_map.mp hp
    exact h _ (mem_written.mpr ⟨c, vector, by rwa [← hv], rfl, rfl⟩)
  · intro h ⟨id, row⟩ hw
    obtain ⟨c, vector, hm, -, rfl⟩ := mem_written.mp hw
    exact h _ (List.mem_map_of_mem hm) vector rfl

/-- The pass on chunks whose vectors the database takes. -/
theorem embedGathered_written (hs : s.aborted = false)
    (hm : ∀ c ∈ chunks, c ∈ s.working.store.chunks.rows) (hne : chunks ≠ [])
    (hr : embedChunksConcurrently provider (chunks.map (·.value.content)) settings.batchSize
      settings.concurrency = .ok result) (hh : hopeless result = none)
    (hv : StorableVectors provider (chunks.map (·.value)) result.vectors) :
    embedGathered settings provider chunks summary s =
      (.ok {
        summary := { recordBatchFailures settings summary result.failures with
          embeddingsCreated := (recordBatchFailures settings summary result.failures).embeddingsCreated +
            (written provider (chunks.zip result.vectors)).length }
        calls := (batches (chunks.map (·.value.content)) settings.batchSize).map (·.texts) },
        { s with working := { s.working with
          embeddings := s.working.embeddings.upsertAll
            (written provider (chunks.zip result.vectors)) } }) := by
  have hl : result.vectors.length = chunks.length := by
    rw [embedChunksConcurrently_length hr, List.length_map]
  have hw : writeVectors provider (recordBatchFailures settings summary result.failures)
      (chunks.zip result.vectors) s = _ :=
    writeVectors_ok hs (fun p hp => hm p.1 (List.of_mem_zip hp).1) (storable_written.mpr hv)
  unfold embedGathered
  rw [if_neg hne]
  simp only [hr, hh, writeEmbeddings, hl, ne_eq, not_true_eq_false, if_false]
  exact Txn.bind_of_ok hw

theorem texts_eq (chunks : List ChunkOf) :
    (chunks.map (·.value)).map (·.content) = chunks.map (·.value.content) := by
  rw [List.map_map]
  rfl

variable (summary) in
/-- **Sound answers.** The pass returns in a usable session, and touches no run. -/
theorem embedGathered_sound (hs : s.aborted = false)
    (hm : ∀ c ∈ chunks, c ∈ s.working.store.chunks.rows)
    (h : Sound settings provider (chunks.map (·.value))) :
    ∃ pass embeddings, embedGathered settings provider chunks summary s =
        (.ok pass, { s with working := { s.working with embeddings := embeddings } }) ∧
      pass.outcome ≠ .error .cancelled ∧ pass.summary.warnings = summary.warnings ∧
      pass.errors settings =
        summary.errors ++ passErrors settings provider (chunks.map (·.value)) := by
  by_cases hne : chunks = []
  · subst hne
    exact ⟨{ summary := summary }, s.working.embeddings, rfl, by simp, rfl, by
      simp [EmbedPass.errors, passErrors]⟩
  have hne' : chunks.map (·.value) ≠ [] := by simpa using hne
  rcases h with h | h
  · exact absurd h hne'
  rw [texts_eq] at h
  unfold passErrors
  rw [texts_eq, if_neg hne']
  cases hr : embedChunksConcurrently provider (chunks.map (·.value.content)) settings.batchSize
      settings.concurrency with
  | error exc =>
    refine ⟨{ summary := summary, outcome := .error exc }, s.working.embeddings, ?_, ?_, rfl, rfl⟩
    · unfold embedGathered
      rw [if_neg hne]
      simp only [hr]
      rfl
    · simpa using embedChunksConcurrently_error hr
  | ok result =>
    simp only [hr] at h
    cases hh : hopeless result with
    | some exc =>
      simp only [hh] at h
      refine ⟨⟨recordBatchFailures settings summary result.failures,
        (batches (chunks.map (·.value.content)) settings.batchSize).map (·.texts), .error exc⟩,
        s.working.embeddings, ?_, by simpa using h, ?_, ?_⟩
      · unfold embedGathered
        rw [if_neg hne]
        simp only [hr, hh]
        rfl
      · simp [recordBatchFailures_eq]
      · simp [EmbedPass.errors, recordBatchFailures_eq, hh]
    | none =>
      simp only [hh] at h
      refine ⟨_, _, embedGathered_written hs hm hne hr hh h, by simp, ?_, ?_⟩
      · simp [recordBatchFailures_eq]
      · simp [EmbedPass.errors, recordBatchFailures_eq, hh]

variable (summary) in
/-- On other answers, the session is aborted or the pass was cancelled. -/
theorem embedGathered_unsound (hs : s.aborted = false)
    (h : ¬ Sound settings provider (chunks.map (·.value))) :
    ∃ pass db' aborted, embedGathered settings provider chunks summary s =
        (.ok pass, { s with working := db', aborted := aborted }) ∧
      (aborted = true ∨ pass.outcome = .error .cancelled) := by
  unfold Sound at h
  rw [texts_eq, not_or] at h
  obtain ⟨hne, h⟩ := h
  have hne : chunks ≠ [] := by simpa using hne
  unfold embedGathered
  rw [if_neg hne]
  cases hr : embedChunksConcurrently provider (chunks.map (·.value.content)) settings.batchSize
      settings.concurrency with
  | error exc => simp [hr] at h
  | ok result =>
    simp only [hr] at h
    cases hh : hopeless result with
    | some exc =>
      simp only [hh, ne_eq, not_not] at h
      subst h
      simp only [hh]
      exact ⟨_, s.working, s.aborted, rfl, .inr rfl⟩
    | none =>
      simp only [hh] at h
      have hl : result.vectors.length = chunks.length := by
        rw [embedChunksConcurrently_length hr, List.length_map]
      rw [← storable_written] at h
      simp only [not_forall, Bool.not_eq_true] at h
      obtain ⟨w, hw, hst⟩ := h
      have hex : ∃ w ∈ written provider (chunks.zip result.vectors), w.2.storable = false :=
        ⟨w, hw, hst⟩
      obtain ⟨summary', outcome, db', hwr⟩ := writeVectors_refused hs hex
      simp only [hh, writeEmbeddings, hl, ne_eq, not_true_eq_false, if_false]
      exact ⟨_, db', true, Txn.bind_of_ok hwr, .inl rfl⟩

/-- Whatever the answers, the pass returns; what a statement raised is its outcome. -/
theorem embedGathered_ok (summary : IngestionSummary) (hs : s.aborted = false)
    (hm : ∀ c ∈ chunks, c ∈ s.working.store.chunks.rows) :
    ∃ pass s', embedGathered settings provider chunks summary s = (.ok pass, s') := by
  by_cases h : Sound settings provider (chunks.map (·.value))
  · obtain ⟨pass, embeddings, hg, -⟩ := embedGathered_sound summary hs hm h
    exact ⟨pass, _, hg⟩
  · obtain ⟨pass, db', aborted, hg, -⟩ := embedGathered_unsound summary hs h
    exact ⟨pass, _, hg⟩

/-- Other answers would have aborted the session or cancelled the pass. -/
theorem sound_of_usable {pass : EmbedPass} {s' : Session Db} (hs : s.aborted = false)
    (h : embedGathered settings provider chunks summary s = (.ok pass, s'))
    (hs' : s'.aborted = false) (hc : pass.outcome ≠ .error .cancelled) :
    Sound settings provider (chunks.map (·.value)) := by
  by_contra hun
  obtain ⟨pass', db', aborted, hg, hor⟩ := embedGathered_unsound summary hs hun
  rw [hg] at h
  cases h
  rcases hor with ha | hcancel
  · rw [show aborted = false from hs'] at ha
    cases ha
  · exact hc hcancel

/-- The summary of a pass that was not cancelled and left its session usable: what the fan-out
rejects is not counted, every other answer is. -/
theorem embedGathered_usable {pass : EmbedPass} {s' : Session Db} (hs : s.aborted = false)
    (hm : ∀ c ∈ chunks, c ∈ s.working.store.chunks.rows) (hne : chunks ≠ [])
    (h : embedGathered settings provider chunks summary s = (.ok pass, s'))
    (hs' : s'.aborted = false) (hc : pass.outcome ≠ .error .cancelled) :
    match embedChunksConcurrently provider (chunks.map (·.value.content)) settings.batchSize
      settings.concurrency with
    | .error _ => pass.summary = summary
    | .ok result => pass.summary = { recordBatchFailures settings summary result.failures with
        embeddingsCreated := (recordBatchFailures settings summary result.failures).embeddingsCreated +
          (written provider (chunks.zip result.vectors)).length } := by
  rcases sound_of_usable hs h hs' hc with hnil | hsound
  · exact absurd (List.map_eq_nil_iff.mp hnil) hne
  rw [texts_eq] at hsound
  cases hr : embedChunksConcurrently provider (chunks.map (·.value.content)) settings.batchSize
      settings.concurrency with
  | error exc =>
    simp only [embedGathered, if_neg hne, hr] at h
    cases h
    rfl
  | ok result =>
    simp only [hr] at hsound
    cases hh : hopeless result with
    | some exc =>
      simp only [embedGathered, if_neg hne, hr, hh] at h
      cases h
      have hnone : written provider (chunks.zip result.vectors) = [] := by
        apply List.filterMap_eq_nil_iff.mpr
        intro p hp
        rw [Option.isNone_iff_eq_none.mp (hopeless_all hh p.2 (List.of_mem_zip hp).2)]
        rfl
      dsimp only
      rw [hnone]
      rfl
    | none =>
      simp only [hh] at hsound
      rw [embedGathered_written hs hm hne hr hh hsound] at h
      cases h
      rfl

end

end KnowledgeKiln.L1.Embedding
