import KnowledgeKiln.L1Ingest.FanOut
import KnowledgeKiln.L1Ingest.Idempotence

/-!
# What a run counts

The file loop counts files and their chunks, the embedding pass the stored chunks of the documents
the loop touched. A chunk that is gathered is counted with its vector or with its batch; one that
is not gathered counts as unchanged.

* `processFiles_chunks`: every chunk of an indexed file is counted as created or as unchanged.
* `embedPhase_counts`: every stored chunk of a touched document is counted once, except those
  handed to a fan-out that rejects its settings.
* `run_accounting`: the sums of a run that returns.
-/
namespace KnowledgeKiln.L1.FileProcessing

open KnowledgeKiln.Core KnowledgeKiln.L1.Chunking

/-! ## Chunks of files -/

/-- The number of chunks a file is indexed with. -/
def parsedChunks (w : Worker) (file : FetchedFile) : Nat :=
  ((indexable w file).map (·.chunks.length)).getD 0

/-- The chunks the summary counts. -/
def Summary.chunks (s : Summary) : Nat := s.chunksCreated + s.chunksUnchanged

section
variable {w : Worker} {filters : ContentFilters} {source : Source} {file : FetchedFile}
  {p q : Progress}

theorem writeChunks_chunks {documentId : Uuid} {existing : List (Nat × Uuid × Str)} :
    ∀ {chunks : List Chunk} {p q : Progress},
      writeChunks filters documentId existing p chunks = .ok q →
        q.summary.chunks = p.summary.chunks + chunks.length
  | [], p, q, h => by
    cases h
    rfl
  | chunk :: chunks, p, q, h => by
    unfold writeChunks at h
    unfold Summary.chunks
    split at h
    · have ih := writeChunks_chunks h
      simp only [Summary.chunks, List.length_cons] at ih ⊢
      omega
    · obtain ⟨p', hp, h⟩ := Py.bind_ok.mp h
      have ih := writeChunks_chunks h
      unfold upsertChunk at hp
      dsimp only at hp
      split at hp
      · simp at hp
      · cases hp
        simp only [Summary.chunks, Summary.wrote, List.length_cons] at ih ⊢
        omega

theorem indexFile_chunks {parsed : ParsedDocument}
    (h : indexFile w filters source p file parsed = .ok q) :
    q.summary.chunks = p.summary.chunks + parsed.chunks.length := by
  unfold indexFile at h
  obtain ⟨row, -, h⟩ := Py.bind_ok.mp h
  obtain ⟨_, -, h⟩ := Py.bind_ok.mp h
  obtain ⟨p', hw, h⟩ := Py.bind_ok.mp h
  rw [Py.pure_ok] at h
  subst h
  have hchunks := writeChunks_chunks hw
  exact hchunks

theorem processFile_chunks (h : processFile w filters source p file = .ok q) :
    q.summary.chunks = p.summary.chunks + parsedChunks w file := by
  unfold parsedChunks
  rcases processFile_ok h with ⟨hnone, -⟩ | ⟨parsed, hi, hindex⟩
  · rw [hnone]
    obtain ⟨-, hcreated, hunchanged⟩ := Embedding.processFile_skipped hnone h
    unfold Summary.chunks
    rw [hcreated, hunchanged]
    rfl
  · rw [hi]
    exact indexFile_chunks hindex

/-- Every chunk of an indexed file is counted. -/
theorem processFiles_chunks : ∀ {files : List FetchedFile} {p q : Progress},
    processFiles w filters source p files = .ok q →
      q.summary.chunks = p.summary.chunks + (files.map (parsedChunks w)).sum
  | [], p, q, h => by
    cases h
    rfl
  | file :: files, p, q, h => by
    obtain ⟨p', hp, h⟩ := Py.bind_ok.mp h
    rw [processFiles_chunks h, processFile_chunks hp, List.map_cons, List.sum_cons, Nat.add_assoc]

end

/-! ## Touched documents -/

/-- The document is that of a file that gets indexed. -/
def touches (w : Worker) (source : Source) (files : List FetchedFile)
    (d : Row (Str × Str) Document) : Bool :=
  files.any fun file => (indexable w file).isSome && documentKey source file = d.key

/-- The number of stored chunks of the documents the files touch. -/
def touchedChunks (w : Worker) (source : Source) (files : List FetchedFile) (st : Store) : Nat :=
  st.chunks.rows.countP fun c =>
    st.documents.rows.any fun d => d.id = c.key.1 && touches w source files d

end KnowledgeKiln.L1.FileProcessing

namespace KnowledgeKiln.L1.Embedding

open KnowledgeKiln.Core KnowledgeKiln.L1.Chunking KnowledgeKiln.L1.FileProcessing
  KnowledgeKiln.L1.Pipeline

section
variable {w : Worker} {filters : ContentFilters} {source : Source} {file : FetchedFile}
  {p q : Progress}

/-- A file that is processed and indexable has a row. -/
theorem processFile_chunkCount (h : processFile w filters source p file = .ok q) :
    (chunkCount w source file).isSome = (indexable w file).isSome := by
  rcases processFile_ok h with ⟨hnone, -⟩ | ⟨parsed, hi, hindex⟩
  · simp [chunkCount, indexedAs, hnone]
  · obtain ⟨row, i⟩ := indexFile_ok hindex
    rw [chunkCount_of_indexed hi i, hi]
    rfl

theorem processFiles_touch : ∀ {files : List FetchedFile} {p q : Progress}
    {keys : List (Str × Str)}, processFiles w filters source p files = .ok q →
    ∀ key, key ∈ files.foldl (touch w source) keys ↔
      key ∈ keys ∨ ∃ file ∈ files, (indexable w file).isSome = true ∧ documentKey source file = key
  | [], _, _, keys, _, key => by simp
  | file :: files, p, q, keys, h, key => by
    obtain ⟨p', hp, h⟩ := Py.bind_ok.mp h
    rw [List.foldl_cons, processFiles_touch h key]
    unfold touch
    rw [processFile_chunkCount hp]
    cases hi : (indexable w file).isSome with
    | false => simp [hi]
    | true =>
      simp only [if_true, List.mem_insert_iff, List.mem_cons, exists_eq_or_imp, hi, true_and,
        @eq_comm _ key]
      tauto

theorem foldl_touch_nodup : ∀ {files : List FetchedFile} {keys : List (Str × Str)}, keys.Nodup →
    (files.foldl (touch w source) keys).Nodup
  | [], _, hn => hn
  | file :: files, keys, hn => by
    have hnext : (touch w source keys file).Nodup := by
      unfold touch
      split
      · exact hn.insert
      · exact hn
    rw [List.foldl_cons]
    exact foldl_touch_nodup hnext

/-- The touched ids differ from one another. -/
theorem Touched.nodup {keys : List (Str × Str)} (ht : Touched q keys) (hn : keys.Nodup) :
    q.touchedDocIds.Nodup := by
  rw [ht.1]
  apply hn.map_on
  intro key hk key' hk' he
  obtain ⟨d, hd⟩ := ht.2 key hk
  by_contra hne
  rw [Table.idFor_of_find hd] at he
  exact ne_idFor_of_find hd hne he

/-- The chunks of the touched ids are those of the documents the files touch. -/
theorem touchedChunks_eq {st : Store} {summary : Summary} {files : List FetchedFile}
    (h : processFiles w filters source { store := st, summary := summary } files = .ok q) :
    q.store.chunks.rows.countP (·.key.1 ∈ q.touchedDocIds) =
      touchedChunks w source files q.store := by
  have ht : Touched q (files.foldl (touch w source) []) := processFiles_touched ⟨rfl, by simp⟩ h
  apply List.countP_congr
  intro c _
  have hmem : ∀ key, key ∈ files.foldl (touch w source) [] ↔ key ∈ [] ∨ _ := processFiles_touch h
  simp only [decide_eq_true_eq, List.any_eq_true, Bool.and_eq_true, touches, ht.1, List.mem_map]
  constructor
  · rintro ⟨key, hk, hid⟩
    obtain ⟨d, hd⟩ := ht.2 key hk
    obtain ⟨hd', hkey⟩ := Table.find_eq_some.mp hd
    obtain ⟨file, hf, hi, he⟩ := ((hmem key).mp hk).resolve_left (by simp)
    exact ⟨d, hd', (Table.idFor_of_find hd).symm.trans hid, file, hf, hi, he.trans hkey.symm⟩
  · rintro ⟨d, hd, hid, file, hf, hi, he⟩
    refine ⟨d.key, (hmem d.key).mpr (.inr ⟨file, hf, hi, he⟩), ?_⟩
    rw [Table.idFor_of_find (Table.find_eq_some.mpr ⟨hd, rfl⟩)]
    exact hid

end

/-! ## The embedding pass -/

/-- The settings are ones the fan-out takes. -/
def IngestSettings.Positive (settings : IngestSettings) : Prop :=
  0 < settings.batchSize ∧ 0 < settings.concurrency

/-- The chunks of which the summary counts the embedding. -/
def IngestionSummary.embeddings (s : IngestionSummary) : Nat :=
  s.embeddingsCreated + s.embeddingsUnchanged + s.embeddingsFailed

/-- The summaries differ in errors and in the counters of the pass only. -/
def IngestionSummary.SameFiles (s s' : IngestionSummary) : Prop :=
  s'.filesScanned = s.filesScanned ∧ ∃ errors, s'.toSummary = { s.toSummary with errors := errors }

theorem written_length (provider : EmbeddingProvider) : ∀ {chunks : List ChunkOf}
    {vectors : List (Option Vec)}, vectors.length = chunks.length →
    (written provider (chunks.zip vectors)).length = vectors.countP Option.isSome
  | [], [], _ => rfl
  | c :: chunks, v :: vectors, h => by
    have ih : (written provider (chunks.zip vectors)).length = vectors.countP Option.isSome :=
      written_length provider (by simpa using h)
    rw [List.countP_cons, ← ih]
    cases v <;> rfl

theorem toEmbed_cons {db : Db} {docId : Uuid} {docIds : List Uuid} :
    toEmbed db (docId :: docIds) = (chunksForDocument db.store docId).filter
      (needsEmbed (existingHashesForDocument db docId)) ++ toEmbed db docIds :=
  List.flatMap_cons

theorem gather_counts {db : Db} : ∀ {docIds : List Uuid} {summary : IngestionSummary},
    (gatherChunksNeedingEmbed db summary docIds).2.embeddings + (toEmbed db docIds).length =
      summary.embeddings + (docIds.map fun docId => (chunksForDocument db.store docId).length).sum
  | [], summary => rfl
  | docId :: docIds, summary => by
    have ih : ∀ summary : IngestionSummary,
        (gatherChunksNeedingEmbed db summary docIds).2.embeddings + (toEmbed db docIds).length =
          summary.embeddings +
            (docIds.map fun docId => (chunksForDocument db.store docId).length).sum :=
      fun _ => gather_counts
    unfold gatherChunksNeedingEmbed
    dsimp only
    rw [toEmbed_cons, List.length_append, List.map_cons, List.sum_cons]
    split
    · rename_i hn
      rw [hn]
      simpa using ih summary
    · have hle := List.length_filter_le (needsEmbed (existingHashesForDocument db docId))
        (chunksForDocument db.store docId)
      have hrest := ih { summary with
        embeddingsUnchanged := summary.embeddingsUnchanged +
          ((chunksForDocument db.store docId).length -
            ((chunksForDocument db.store docId).filter
              (needsEmbed (existingHashesForDocument db docId))).length) }
      simp only [IngestionSummary.embeddings] at hrest ⊢
      omega

/-- Counting by document or all at once. -/
theorem sum_chunksForDocument {st : Store} : ∀ {docIds : List Uuid}, docIds.Nodup →
    (docIds.map fun docId => (chunksForDocument st docId).length).sum =
      st.chunks.rows.countP (·.key.1 ∈ docIds)
  | [], _ => by simp
  | docId :: docIds, hn => by
    obtain ⟨hd, hn⟩ := List.nodup_cons.mp hn
    have hlen : (chunksForDocument st docId).length =
        st.chunks.rows.countP (·.key.1 = docId) := by
      rw [chunksForDocument, List.length_insertionSort, List.countP_eq_length_filter]
    rw [List.map_cons, List.sum_cons, hlen, sum_chunksForDocument hn]
    induction st.chunks.rows with
    | nil => rfl
    | cons c rows ih =>
      simp only [List.countP_cons, List.mem_cons, decide_eq_true_eq] at ih ⊢
      by_cases hc : c.key.1 = docId
      · rw [← hc] at hd
        simp only [hc, true_or, if_true]
        rw [hc] at hd
        simp only [hd, if_false]
        omega
      · simp only [hc, false_or, if_false]
        omega

theorem IngestionSummary.SameFiles.trans {s s' s'' : IngestionSummary} (h : s.SameFiles s')
    (h' : s'.SameFiles s'') : s.SameFiles s'' := by
  obtain ⟨hscanned, errors, hs⟩ := h
  obtain ⟨hscanned', errors', hs'⟩ := h'
  exact ⟨hscanned'.trans hscanned, errors', by rw [hs', hs]⟩

theorem gather_sameFiles {db : Db} {docIds : List Uuid} {summary : IngestionSummary} :
    summary.SameFiles (gatherChunksNeedingEmbed db summary docIds).2 := by
  have hsnd : ∃ n, (gatherChunksNeedingEmbed db summary docIds).2 =
      { summary with embeddingsUnchanged := summary.embeddingsUnchanged + n } := gather_snd
  obtain ⟨n, hn⟩ := hsnd
  rw [hn]
  exact ⟨rfl, summary.errors, rfl⟩

section
variable {settings : IngestSettings} {provider : EmbeddingProvider} {summary : IngestionSummary}
  {chunks : List ChunkOf} {s s' : Session Db} {pass : EmbedPass} {docIds : List Uuid}

/-- The fan-out rejects its settings, or counts every chunk. -/
theorem embedGathered_counts (hs : s.aborted = false)
    (hm : ∀ c ∈ chunks, c ∈ s.working.store.chunks.rows)
    (h : embedGathered settings provider chunks summary s = (.ok pass, s'))
    (hs' : s'.aborted = false) (hc : pass.outcome ≠ .error .cancelled) :
    summary.SameFiles pass.summary ∧ ((settings.Positive ∨ chunks = []) →
        pass.summary.embeddings = summary.embeddings + chunks.length) ∧
      (¬ settings.Positive → pass.summary.embeddings = summary.embeddings) := by
  by_cases hne : chunks = []
  · rw [embedGathered, if_pos hne] at h
    cases h
    exact ⟨⟨rfl, summary.errors, rfl⟩, fun _ => by rw [hne]; rfl, fun _ => rfl⟩
  have husable := embedGathered_usable hs hm hne h hs' hc
  cases hr : embedChunksConcurrently provider (chunks.map (·.value.content)) settings.batchSize
      settings.concurrency with
  | error exc =>
    rw [hr] at husable
    have hnot : ¬ settings.Positive := by
      intro hp
      rw [embedChunksConcurrently_eq hp.1 hp.2] at hr
      cases hr
    rw [husable]
    exact ⟨⟨rfl, summary.errors, rfl⟩, fun hor => absurd hor (by simp [hnot, hne]), fun _ => rfl⟩
  | ok result =>
    simp only [hr] at husable
    have hlen : result.vectors.length = chunks.length := by
      rw [embedChunksConcurrently_length hr, List.length_map]
    have hcounts := embedChunksConcurrently_counts hr
    rw [← written_length provider hlen, List.length_map] at hcounts
    rw [husable, recordBatchFailures_eq]
    refine ⟨⟨rfl, _, rfl⟩, fun _ => ?_, fun hnot => ?_⟩
    · simp only [IngestionSummary.embeddings]
      omega
    · exact absurd (embedChunksConcurrently_pos hr) hnot

theorem caught_sameFiles {p : EmbedPass} (h : caught settings p s = (.ok pass, s')) :
    p.outcome ≠ .error .cancelled ∧ p.summary.SameFiles pass.summary ∧
      pass.summary.embeddings = p.summary.embeddings := by
  unfold caught at h
  cases ho : p.outcome with
  | ok u =>
    rw [ho] at h
    cases h
    exact ⟨by simp, ⟨rfl, _, rfl⟩, rfl⟩
  | error exc =>
    rw [ho] at h
    cases exc with
    | cancelled => cases h
    | exception exc =>
      cases h
      exact ⟨by simp, ⟨rfl, _, rfl⟩, rfl⟩

/-- **The pass counts every stored chunk of the documents once**, unless there are chunks to embed
and the fan-out rejects its settings; then it leaves those out. -/
theorem embedPhase_counts (hs : s.aborted = false) (hn : docIds.Nodup)
    (h : embedPhase settings (some provider) docIds summary s = (.ok pass, s'))
    (hs' : s'.aborted = false) :
    summary.SameFiles pass.summary ∧
      (pass.summary.embeddings =
          summary.embeddings + s.working.store.chunks.rows.countP (·.key.1 ∈ docIds) ↔
        settings.Positive ∨ toEmbed s.working docIds = []) := by
  by_cases hd : docIds = []
  · subst hd
    cases h
    refine ⟨⟨rfl, _, rfl⟩, iff_of_true ?_ (.inr rfl)⟩
    change summary.embeddings = _
    simp
  have hgathered : (gatherChunksNeedingEmbed s.working summary docIds).2.embeddings +
      (toEmbed s.working docIds).length =
        summary.embeddings + s.working.store.chunks.rows.countP (·.key.1 ∈ docIds) := by
    rw [gather_counts, sum_chunksForDocument hn]
  have htouched := embedTouched_gathered settings provider summary hs hd
  have hok : ∃ p s₁, embedGathered settings provider (toEmbed s.working docIds)
      (gatherChunksNeedingEmbed s.working summary docIds).2
      { s with durable := s.working, commits := s.commits ++ [s.working] } = (.ok p, s₁) :=
    embedGathered_ok _ hs toEmbed_mem
  obtain ⟨p, s₁, hp⟩ := hok
  rw [hp] at htouched
  rw [embedPhase_of htouched] at h
  have hsession : s₁ = s' := by
    have hsnd := congrArg Prod.snd h
    rwa [caught_session] at hsnd
  subst hsession
  obtain ⟨hc, hsame, hembeddings⟩ := caught_sameFiles h
  have hdurable : ({ s with durable := s.working, commits := s.commits ++ [s.working] } :
      Session Db).aborted = false := hs
  obtain ⟨hfiles, hcounted, hleft⟩ := embedGathered_counts hdurable toEmbed_mem hp hs' hc
  refine ⟨(gather_sameFiles.trans hfiles).trans hsame, ?_⟩
  rw [hembeddings]
  change p.summary.embeddings = _ ↔ _
  constructor
  · intro he
    by_contra hnot
    rw [not_or] at hnot
    have hpos := List.length_pos_of_ne_nil hnot.2
    have hsum := hleft hnot.1
    omega
  · intro hor
    have hsum : p.summary.embeddings = _ + (toEmbed s.working docIds).length := hcounted hor
    omega

end

end KnowledgeKiln.L1.Embedding

namespace KnowledgeKiln.L1.Pipeline

open KnowledgeKiln.Core KnowledgeKiln.L1.Chunking KnowledgeKiln.L1.FileProcessing
  KnowledgeKiln.L1.Embedding

/-! ## A run -/

theorem toEmbed_congr {db db' : Db} {docIds : List Uuid} (hs : db.store = db'.store)
    (he : db.embeddings = db'.embeddings) : toEmbed db docIds = toEmbed db' docIds := by
  unfold toEmbed existingHashesForDocument
  rw [hs, he]

section
variable {args : RunArgs} {fetched : FetchResult} {db : Db} {report : RunReport}
  {q : Progress} {indexed embedded s : Session Db}

/-- The pass has nothing to embed exactly when no chunk of the files is pending. -/
theorem Returned.toEmbed_eq_nil (r : Returned args fetched db q indexed embedded report s)
    (ho : db.Owned) :
    toEmbed indexed.working (args.touchedOrder.visit q.touchedDocIds) = [] ↔
      pendingChunks args db fetched.files = [] := by
  rw [toEmbed_congr r.store r.embeddings, pendingChunks, ← pending_eq _ ho r.files,
    List.map_eq_nil_iff]

/-- What the file loop counted stands in the summary of the run. -/
theorem SameFiles.counts {s s' : IngestionSummary} (h : s.SameFiles s') :
    s'.filesScanned = s.filesScanned ∧ s'.filesIndexed = s.filesIndexed ∧
      s'.filesSkipped = s.filesSkipped ∧ s'.toSummary.chunks = s.toSummary.chunks := by
  obtain ⟨hscanned, errors, hs⟩ := h
  rw [hs]
  exact ⟨hscanned, rfl, rfl, rfl⟩

end

/-- **Accounting.** A run with a provider that returns, on any database that keeps its foreign
keys: the scanned files are the indexed and the skipped ones, and the created and unchanged chunks
are those parsed from the indexed files. The created, unchanged and failed embeddings are the
stored chunks of the touched documents exactly when the batch size and the concurrency are
positive, or no chunk is pending. -/
theorem run_accounting (args : RunArgs) (fetched : FetchResult) (db : Db) (report : RunReport)
    (s : Session Db) (ho : db.Owned) (hp : args.provider.isSome = true)
    (h : runSource args (.ok fetched) (Session.begin db) = (.ok report, s)) :
    report.summary.filesScanned = report.summary.filesIndexed + report.summary.filesSkipped ∧
    report.summary.chunksCreated + report.summary.chunksUnchanged =
      (fetched.files.map (parsedChunks args.worker)).sum ∧
    (report.summary.embeddingsCreated + report.summary.embeddingsUnchanged +
        report.summary.embeddingsFailed =
          touchedChunks args.worker args.source fetched.files s.durable.store ↔
      (0 < args.settings.batchSize ∧ 0 < args.settings.concurrency) ∨
        pendingChunks args db fetched.files = []) := by
  obtain ⟨-, -, -, q, indexed, embedded, r⟩ := runSource_returned h
  have hpass := r.pass
  obtain ⟨provider, hprovider⟩ := Option.isSome_iff_exists.mp hp
  rw [hprovider] at hpass
  have ht : Touched q (fetched.files.foldl (touch args.worker args.source) []) :=
    processFiles_touched ⟨rfl, by simp⟩ r.files
  have hn : (args.touchedOrder.visit q.touchedDocIds).Nodup :=
    (args.touchedOrder.visit_perm _).nodup_iff.mpr (ht.nodup (foldl_touch_nodup List.nodup_nil))
  obtain ⟨hsame, hembeddings⟩ := embedPhase_counts r.usable hn hpass r.commits
  obtain ⟨hscanned, hindexed, hskipped, hchunks⟩ := SameFiles.counts hsame
  have hfiles := processFiles_summary r.files
  have hcount := countP_indexable args.worker fetched.files
  refine ⟨?_, ?_, ?_⟩
  · rw [r.summary, hscanned, hindexed, hskipped]
    dsimp only
    rw [hfiles.indexed, hfiles.skipped]
    simp only [scanned]
    omega
  · have hall := processFiles_chunks r.files
    rw [r.summary]
    change report.pass.summary.toSummary.chunks = _
    rw [hchunks]
    dsimp only
    rw [hall]
    simp [scanned, Summary.chunks]
  · have hzero : ({ scanned db.runs.length fetched with toSummary := q.summary } :
        IngestionSummary).embeddings = 0 := rfl
    simp only [SetOrder.mem_visit] at hembeddings
    rw [hzero, Nat.zero_add, r.store, touchedChunks_eq r.files, r.toEmbed_eq_nil ho] at hembeddings
    rw [r.summary, (r.holds ho.chunks).1]
    exact hembeddings

/-- The sum of the embedding counters of a run of one page, and its stored chunks. -/
def usageEmbeddings (args : RunArgs) : Option (Nat × Nat) :=
  match runSource args (.ok { files := [newPage] }) (Session.begin {}) with
  | (.ok report, s) =>
    some (report.summary.embeddings,
      touchedChunks args.worker args.source [newPage] s.durable.store)
  | (.error _, _) => none

/-- With a batch size of zero the run returns, and counts its chunk nowhere. -/
theorem batch_size_zero_uncounted : ∃ report s,
    runSource { usageRun with settings := { usageRun.settings with batchSize := 0 } }
        (.ok { files := [newPage] }) (Session.begin {}) = (.ok report, s) ∧
    report.summary.embeddingsCreated + report.summary.embeddingsUnchanged +
        report.summary.embeddingsFailed ≠
      touchedChunks usageRun.worker usageRun.source [newPage] s.durable.store := by
  have hrun : usageEmbeddings
      { usageRun with settings := { usageRun.settings with batchSize := 0 } } = some (0, 1) := by
    decide +kernel
  unfold usageEmbeddings at hrun
  split at hrun
  · rename_i report s hr
    refine ⟨report, s, hr, ?_⟩
    obtain ⟨hsum, htouched⟩ := Prod.mk.inj (Option.some.inj hrun)
    change report.summary.embeddings ≠ _
    rw [hsum, show touchedChunks usageRun.worker usageRun.source [newPage] s.durable.store = 1
      from htouched]
    decide
  · cases hrun

theorem run_accounting_usage : ∃ report s,
    runSource usageRun (.ok { files := [newPage] }) (Session.begin {}) = (.ok report, s) ∧
    report.summary.filesScanned = report.summary.filesIndexed + report.summary.filesSkipped ∧
    report.summary.embeddingsCreated + report.summary.embeddingsUnchanged +
        report.summary.embeddingsFailed =
      touchedChunks usageRun.worker usageRun.source [newPage] s.durable.store := by
  have hrun : (usageEmbeddings usageRun).isSome = true := by decide +kernel
  unfold usageEmbeddings at hrun
  split at hrun
  · rename_i report s hr
    obtain ⟨hfiles, -, hembeddings⟩ := run_accounting usageRun { files := [newPage] } {} report s
      db_owned_empty (by rfl) hr
    exact ⟨report, s, hr, hfiles, hembeddings.mpr (.inl (by decide))⟩
  · cases hrun

end KnowledgeKiln.L1.Pipeline
