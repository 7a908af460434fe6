import KnowledgeKiln.L1Ingest.Reingest
import KnowledgeKiln.L1Ingest.RunRow

/-!
# Running a source twice

A file whose document row and chunk hashes are the stored ones is written over with what is
there, and none of its chunks is written, deleted or embedded.

* `processFiles_settled`: the file loop over settled files leaves the store as it is.
* `embedGathered_complete`: a pass without a failed batch embeds every chunk it gathers.
* `run_idempotent`: the second of two equal runs writes nothing.
-/
namespace KnowledgeKiln.L1.FileProcessing

open KnowledgeKiln.Core KnowledgeKiln.L1.Chunking KnowledgeKiln.L1.Embedding

/-! ## Settled files -/

/-- The entry is what the file makes of it, up to the chunks' other columns. -/
structure Entry.Settled (e : Entry) (parsed : ParsedDocument) (row : Document) : Prop where
  document : e.document = some row
  hashes : ∀ index, (e.chunks index).map (·.contentHash) =
    parsed.chunks[index]?.map (·.contentHash)

/-- The files that get indexed are settled. -/
def KnowledgeBase.Settled (w : Worker) (source : Source) (kb : KnowledgeBase)
    (files : List FetchedFile) : Prop :=
  ∀ file ∈ files, ∀ parsed row, indexedAs w source file = some (parsed, row) →
    (kb (documentKey source file)).Settled parsed row

section
variable {w : Worker} {filters : ContentFilters} {source : Source} {file : FetchedFile}
  {parsed : ParsedDocument} {row : Document} {e : Entry} {p q : Progress}

theorem put_settled : (e.put filters row parsed.chunks).Settled parsed row where
  document := rfl
  hashes index := by
    simp only [Entry.put, Option.map_map]
    exact Option.map_congr fun c _ => refreshed_hash filters _ c

/-- Behind the loop over distinct paths, its files are settled. -/
theorem processAll_settled {files : List FetchedFile} (kb : KnowledgeBase)
    (hn : (files.map (·.path)).Nodup) :
    (kb.processAll w filters source files).Settled w source files := by
  intro file hf parsed row hi
  rw [processAll_of_mem kb hn hf, Entry.process, hi]
  exact put_settled

/-- A file that was accepted is accepted again. -/
theorem accepts_process (h : e.Accepts w filters source file) :
    (e.process w filters source file).Accepts w filters source file := by
  unfold Entry.Accepts at h ⊢
  cases hd : w.decodeUtf8 file.content with
  | error exc => trivial
  | ok text =>
    simp only [hd] at h ⊢
    cases hp : parseDocument w text defaultMaxTokens with
    | error exc =>
      rw [hp] at h
      cases exc <;> exact h
    | ok parsed =>
      simp only [hp] at h ⊢
      refine h.imp_right fun a => ⟨a.row, a.repo, a.path, fun c hc hu => ?_⟩
      have hi : indexable w file = some parsed := by
        have hne : parsed.chunks ≠ [] := List.ne_nil_of_mem hc
        simp [indexable, hd, hp, hne]
      obtain ⟨row, hrow⟩ := a.row
      -- the entry has the chunk's hash by now
      have hchunk := (getElem?_eq_some_iff_index (parseDocument_index hp)).mpr ⟨hc, rfl⟩
      refine absurd ?_ hu
      rw [Entry.process, indexedAs_eq_some.mpr ⟨hi, hrow⟩, put_settled.hashes, hchunk,
        Option.map_some]

theorem acceptsAll_again {files : List FetchedFile} (kb : KnowledgeBase)
    (hn : (files.map (·.path)).Nodup) (h : kb.AcceptsAll w filters source files) :
    (kb.processAll w filters source files).AcceptsAll w filters source files := by
  rw [acceptsAll_iff _ hn] at h ⊢
  intro file hf
  rw [processAll_of_mem kb hn hf]
  exact accepts_process (h file hf)

/-! ## The loop over settled files -/

theorem writeChunks_unchanged {documentId : Uuid} {existing : List (Nat × Uuid × Str)} :
    ∀ {chunks : List Chunk} {p : Progress}, (∀ c ∈ chunks, unchanged existing c = true) →
      writeChunks filters documentId existing p chunks =
        .ok { p with summary.chunksUnchanged := p.summary.chunksUnchanged + chunks.length }
  | [], p, _ => rfl
  | c :: chunks, p, h => by
    obtain ⟨hc, hchunks⟩ := List.forall_mem_cons.mp h
    unfold writeChunks
    rw [if_pos hc, writeChunks_unchanged hchunks]
    simp [Nat.add_assoc, Nat.add_comm 1]

section
variable (ho : p.store.Owned)
  (hindex : parsed.chunks.map (·.chunkIndex) = List.range parsed.chunks.length)
  (hs : (p.store.view (documentKey source file)).Settled parsed row)
include ho hindex hs

theorem settled_unchanged : ∀ c ∈ parsed.chunks, unchanged
    (existingChunksByIndex p.store (p.store.documents.idFor (documentKey source file))) c = true := by
  intro c hc
  have hchunk := (getElem?_eq_some_iff_index hindex).mpr ⟨hc, rfl⟩
  rw [unchanged_iff, value_idFor ho, hs.hashes, hchunk, Option.map_some]

theorem settled_orphans : ∀ r ∈ p.store.chunks.rows, r.id ∉ orphanIds
    (existingChunksByIndex p.store (p.store.documents.idFor (documentKey source file)))
    (parsed.chunks.map (·.chunkIndex)) := by
  intro r _ hr
  obtain ⟨c, hc, hd, hseen, -⟩ := mem_orphanIds.mp hr
  have hvalue : (p.store.view (documentKey source file)).chunks c.key.2 = some c.value := by
    rw [← value_idFor ho, ← hd]
    exact Table.value_eq_some.mpr ⟨c, hc, rfl, rfl⟩
  have hhash := hs.hashes c.key.2
  rw [hvalue, Option.map_some, eq_comm, Option.map_eq_some_iff] at hhash
  obtain ⟨chunk, hchunk, -⟩ := hhash
  obtain ⟨hmem, hci⟩ := (getElem?_eq_some_iff_index hindex).mp hchunk
  exact hseen (List.mem_map.mpr ⟨chunk, hmem, hci⟩)

/-- **Settled.** Indexing a settled file leaves the store as it is, and counts no chunk as
created. -/
theorem indexFile_settled (hrow : documentRow w source file parsed = .ok row)
    (h : indexFile w filters source p file parsed = .ok q) :
    q.store = p.store ∧ q.summary.chunksCreated = p.summary.chunksCreated := by
  obtain ⟨d, hd, hv⟩ := Option.map_eq_some_iff.mp hs.document
  unfold indexFile at h
  obtain ⟨row', hrow', h⟩ := Py.bind_ok.mp h
  rw [hrow] at hrow'
  cases hrow'
  obtain ⟨_, hdoc, h⟩ := Py.bind_ok.mp h
  obtain ⟨-, -, rfl⟩ := upsertDocument_ok_iff.mp hdoc
  have hstored : p.store.documents.upsert (repoLabel source, file.path) row = p.store.documents :=
    Table.upsert_eq_self hd hv
  rw [hstored] at h
  obtain ⟨p', hw, h⟩ := Py.bind_ok.mp h
  have hunchanged := settled_unchanged ho hindex hs
  have hp' := (writeChunks_unchanged hunchanged).symm.trans hw
  cases hp'
  rw [Py.pure_ok] at h
  subst h
  have hdelete := Table.delete_eq_self (t := p.store.chunks) fun r hr =>
    decide_eq_false (settled_orphans ho hindex hs r hr)
  exact ⟨congrArg (fun chunks => { p.store with chunks := chunks }) hdelete, rfl⟩

end

theorem processFile_settled (ho : p.store.Owned)
    (hs : ∀ parsed row, indexedAs w source file = some (parsed, row) →
      (p.store.view (documentKey source file)).Settled parsed row)
    (h : processFile w filters source p file = .ok q) :
    q.store = p.store ∧ q.summary.chunksCreated = p.summary.chunksCreated := by
  rcases processFile_ok h with ⟨hnone, he⟩ | ⟨parsed, hi, hindex⟩
  · exact ⟨he, (processFile_skipped hnone h).2.1⟩
  · obtain ⟨row, i⟩ := indexFile_ok hindex
    obtain ⟨text, -, hparse, -⟩ := indexable_ok hi
    have hsettled := hs parsed row (indexedAs_eq_some.mpr ⟨hi, i.row_eq⟩)
    exact indexFile_settled ho (parseDocument_index hparse) hsettled i.row_eq hindex

/-- **Settled.** The loop over settled files leaves the store as it is, and counts no chunk as
created. -/
theorem processFiles_settled : ∀ {files : List FetchedFile} {p q : Progress}, p.store.Owned →
    p.store.view.Settled w source files → processFiles w filters source p files = .ok q →
    q.store = p.store ∧ q.summary.chunksCreated = p.summary.chunksCreated
  | [], p, q, _, _, h => by
    cases h
    exact ⟨rfl, rfl⟩
  | file :: files, p, q, ho, hs, h => by
    obtain ⟨hfile, hfiles⟩ := List.forall_mem_cons.mp hs
    obtain ⟨p', hp, h⟩ := Py.bind_ok.mp h
    obtain ⟨hst, hcreated⟩ := processFile_settled ho hfile hp
    have ho' : p'.store.Owned := hst ▸ ho
    have hfiles' : p'.store.view.Settled w source files := hst ▸ hfiles
    obtain ⟨hst', hcreated'⟩ := processFiles_settled ho' hfiles' h
    exact ⟨hst'.trans hst, hcreated'.trans hcreated⟩

end

end KnowledgeKiln.L1.FileProcessing

namespace KnowledgeKiln.L1.Pipeline

open KnowledgeKiln.Core KnowledgeKiln.L1.Chunking KnowledgeKiln.L1.FileProcessing
  KnowledgeKiln.L1.Embedding

/-! ## Behind the embedding pass -/

/-- The pass got to its end without a failed batch. -/
structure Complete (pass : EmbedPass) : Prop where
  outcome : pass.outcome = .ok ()
  failed : pass.summary.embeddingsFailed = 0

/-- Every chunk of the documents has an embedding with its hash. -/
def AllEmbedded (db : Db) (docIds : List Uuid) : Prop :=
  ∀ c ∈ db.store.chunks.rows, c.key.1 ∈ docIds → Embedded db c

/-- In the session and in what it made durable the store is `st`, and embeddings are of its
chunks. -/
structure Holds (st : Store) (s : Session Db) : Prop where
  store : s.working.store = st
  embeddings : ∀ e ∈ s.working.embeddings.rows, ∃ c ∈ st.chunks.rows, c.id = e.key

section
variable {settings : IngestSettings} {provider : EmbeddingProvider} {docIds : List Uuid}
  {chunks : List ChunkOf} {summary : IngestionSummary} {pass : EmbedPass} {s s' : Session Db}
  {st : Store}

theorem embedRule_holds : EmbedRule (Holds st) where
  abort _ h := ⟨h.store, h.embeddings⟩
  commit _ h := ⟨h.store, h.embeddings⟩
  upsert := by
    intro s chunkId row _ db h hu
    unfold upsertEmbedding at hu
    split at hu
    · rename_i hc
      cases hu
      refine ⟨h.store, fun e he => ?_⟩
      rcases Table.mem_upsert.mp he with rfl | ⟨he, -⟩
      · rw [Bool.and_eq_true, List.any_eq_true, h.store] at hc
        obtain ⟨c, hm, hid⟩ := hc.2
        exact ⟨c, hm, of_decide_eq_true hid⟩
      · exact h.embeddings e he
    · cases hu

theorem toEmbed_eq_nil {db : Db} : toEmbed db docIds = [] ↔ AllEmbedded db docIds := by
  unfold AllEmbedded
  rw [List.eq_nil_iff_forall_not_mem]
  refine forall_congr' fun c => ?_
  rw [mem_toEmbed]
  tauto

/-- Where every gathered chunk gets its row, all are embedded. -/
theorem allEmbedded_upsertAll {db : Db} {vectors : List (Option Vec)}
    (hl : vectors.length = (toEmbed db docIds).length)
    (hv : ∀ v ∈ vectors, ∃ vector, v = some vector) :
    AllEmbedded { db with embeddings :=
      db.embeddings.upsertAll (written provider ((toEmbed db docIds).zip vectors)) } docIds := by
  intro c hc hd
  change c ∈ db.store.chunks.rows at hc
  unfold Embedded
  dsimp only
  rw [Table.value_upsertAll]
  cases hw : lookupLast (written provider ((toEmbed db docIds).zip vectors)) c.id with
  | some row =>
    obtain ⟨c', vector, hm, hid, rfl⟩ := mem_written.mp (mem_of_lookupLast hw)
    have hc' := (mem_toEmbed.mp (List.of_mem_zip hm).1).1
    rw [Table.eq_of_id hc' hc hid]
    rfl
  | none =>
    -- a gathered chunk has a vector
    by_contra hne
    have hmem : c ∈ toEmbed db docIds := mem_toEmbed.mpr ⟨hc, hd, fun he => hne he⟩
    obtain ⟨i, hi, rfl⟩ := List.mem_iff_getElem.mp hmem
    obtain ⟨vector, hvec⟩ := hv _ (List.getElem_mem (hl ▸ hi))
    have hpair : ((toEmbed db docIds)[i], some vector) ∈ (toEmbed db docIds).zip vectors := by
      rw [← hvec, ← List.getElem_zip (h := by simp [hl, hi])]
      exact List.getElem_mem _
    have hrow : (_, embeddingRow provider _ vector) ∈ written provider _ :=
      mem_written.mpr ⟨_, vector, hpair, rfl, rfl⟩
    have hsome := lookupLast_isSome.mpr (List.mem_map_of_mem hrow)
    rw [hw] at hsome
    cases hsome

/-- A pass that got to its end without a failed batch, in a session that is still usable, has
embedded every chunk. -/
theorem embedGathered_complete (hs : s.aborted = false) (hf : summary.embeddingsFailed = 0)
    (h : embedGathered settings provider (toEmbed s.working docIds) summary s = (.ok pass, s'))
    (hs' : s'.aborted = false) (hc : Complete pass) : AllEmbedded s'.working docIds := by
  by_cases hne : toEmbed s.working docIds = []
  · rw [embedGathered, if_pos hne] at h
    cases h
    exact toEmbed_eq_nil.mp hne
  have hsound := sound_of_usable hs h hs' (by simp [hc.outcome])
  rcases hsound with hnil | hsound
  · exact absurd (List.map_eq_nil_iff.mp hnil) hne
  rw [texts_eq] at hsound
  cases hr : embedChunksConcurrently provider ((toEmbed s.working docIds).map (·.value.content))
      settings.batchSize settings.concurrency with
  | error exc =>
    simp only [embedGathered, if_neg hne, hr] at h
    cases h
    cases hc.outcome
  | ok result =>
    simp only [hr] at hsound
    cases hh : hopeless result with
    | some exc =>
      simp only [embedGathered, if_neg hne, hr, hh] at h
      cases h
      cases hc.outcome
    | none =>
      simp only [hh] at hsound
      rw [embedGathered_written hs toEmbed_mem hne hr hh hsound] at h
      cases h
      have hfailed := hc.failed
      rw [recordBatchFailures_eq] at hfailed
      have hsizes := embedChunksConcurrently_sizes hr
      -- a failed batch would have been counted
      have hnone : result.failures = [] := by
        refine List.eq_nil_iff_forall_not_mem.mpr fun f hm => ?_
        have hle := List.single_le_sum (l := result.failures.map (·.2.1))
          (fun _ _ => Nat.zero_le _) _ (List.mem_map_of_mem hm)
        have hpos := hsizes f hm
        dsimp only at hfailed
        omega
      refine allEmbedded_upsertAll ?_ (embedChunksConcurrently_filled hr hnone)
      rw [embedChunksConcurrently_length hr, List.length_map]

/-- What `caught` returns with a good outcome is the pass itself. -/
theorem caught_complete {p : EmbedPass} (h : caught settings p s = (.ok pass, s'))
    (hc : Complete pass) : p = pass ∧ s' = s := by
  have hs := congrArg Prod.snd h
  rw [caught_session] at hs
  refine ⟨?_, hs.symm⟩
  unfold caught at h
  cases ho : p.outcome with
  | ok u =>
    rw [ho] at h
    cases h
    rfl
  | error exc =>
    rw [ho] at h
    cases exc with
    | cancelled => cases h
    | exception exc =>
      cases h
      cases hc.outcome

theorem embedPhase_complete (hs : s.aborted = false) (hf : summary.embeddingsFailed = 0)
    (h : embedPhase settings (some provider) docIds summary s = (.ok pass, s'))
    (hs' : s'.aborted = false) (hc : Complete pass) : AllEmbedded s'.working docIds := by
  cases he : embedTouchedDocuments settings provider docIds summary s with
  | mk r s₁ =>
    rw [embedPhase_of he] at h
    obtain ⟨hp, rfl⟩ := caught_complete h hc
    cases r with
    | error exc =>
      rw [← hp] at hc
      cases hc.outcome
    | ok pass' =>
      cases hp
      by_cases hd : docIds = []
      · subst hd
        intro c _ hm
        cases hm
      · obtain ⟨n, hn⟩ := embedTouched_eq settings provider summary hs hd
        rw [hn] at he
        exact embedGathered_complete
          (s := { s with durable := s.working, commits := s.commits ++ [s.working] })
          (by exact hs) (by exact hf) he hs' hc

/-- With nothing to embed, the provider is not called. -/
theorem embedPhase_embedded {provider : Option EmbeddingProvider} (hs : s.aborted = false)
    (ha : provider.isSome = true → AllEmbedded s.working docIds)
    (h : embedPhase settings provider docIds summary s = (.ok pass, s')) :
    s'.working = s.working ∧ pass.calls = [] ∧
      pass.summary.toSummary = summary.toSummary ∧
      pass.summary.embeddingsCreated = summary.embeddingsCreated := by
  cases provider with
  | none =>
    cases h
    exact ⟨rfl, rfl, rfl, rfl⟩
  | some provider =>
    by_cases hd : docIds = []
    · subst hd
      cases h
      exact ⟨rfl, rfl, rfl, rfl⟩
    · obtain ⟨n, hn⟩ := embedTouched_eq settings provider summary hs hd
      rw [toEmbed_eq_nil.mpr (ha rfl)] at hn
      rw [embedPhase_of hn] at h
      cases h
      exact ⟨rfl, rfl, rfl, rfl⟩

end

/-! ## A run that returns -/

/-- The run over fetched files returns: the file loop leaves `q` in the session `indexed`, and the
embedding pass leaves `embedded`, which is committed. -/
structure Returned (args : RunArgs) (fetched : FetchResult) (db : Db) (q : Progress)
    (indexed embedded : Session Db) (report : RunReport) (s : Session Db) : Prop where
  files : processFiles args.worker args.filters args.source
    { store := db.store, summary := (scanned db.runs.length fetched).toSummary } fetched.files = .ok q
  store : indexed.working.store = q.store
  embeddings : indexed.working.embeddings = (Db.withStore db q.store).embeddings
  usable : indexed.aborted = false
  pass : embedPhase args.settings args.provider (args.touchedOrder.visit q.touchedDocIds)
    { scanned db.runs.length fetched with toSummary := q.summary } indexed = (.ok report.pass, embedded)
  commits : embedded.aborted = false
  summary : report.summary = report.pass.summary
  durable_store : s.durable.store = embedded.working.store
  durable_embeddings : s.durable.embeddings = embedded.working.embeddings

section
variable {args : RunArgs} {fetched : FetchResult} {db : Db} {report : RunReport} {s : Session Db}

theorem runsUpdate_tables {runId : Nat} {status : RunStatus} {summary : IngestionSummary}
    {commitSha : Option Str} {db db' : Db} {u : Unit}
    (h : runsUpdate runId status summary commitSha db = .ok (u, db')) :
    db'.store = db.store ∧ db'.embeddings = db.embeddings := by
  unfold runsUpdate at h
  split at h
  · cases h
    exact ⟨rfl, rfl⟩
  · cases h

theorem finishRun_returned {runId : Nat} {commitSha : Option Str} {pass : EmbedPass}
    {s s' : Session Db} (h : finishRun runId commitSha pass s = (.ok report, s')) :
    s.aborted = false ∧ report = { summary := pass.summary, pass := pass } ∧
      s'.durable.store = s.working.store ∧ s'.durable.embeddings = s.working.embeddings := by
  have hreturns := finishRun_returns_iff.mp ⟨report, congrArg Prod.fst h⟩
  have hs := hreturns.1
  unfold finishRun at h
  cases hu : runsUpdate runId
      (if pass.summary.errors = [] then RunStatus.succeeded else .partialSuccess) pass.summary
      commitSha s.working with
  | error exc =>
    rw [Txn.bind_of_error (Txn.execute_of_error hs hu)] at h
    cases h
  | ok out =>
    obtain ⟨u, db⟩ := out
    have hcommit := Txn.commit_of_ok (s := { s with working := db }) hs
    rw [Txn.bind_of_ok (Txn.execute_of_ok hs hu), Txn.bind_of_ok hcommit] at h
    cases h
    obtain ⟨hstore, hembeddings⟩ := runsUpdate_tables hu
    exact ⟨hs, rfl, hstore, hembeddings⟩

/-- Whether the row of a run can be created depends on its source. -/
theorem createRun_again {source : Source} {db db' : Db} {runId : Nat} (db₁ : Db)
    (h : createRun source db = .ok (runId, db')) :
    ∃ db₁', createRun source db₁ = .ok (db₁.runs.length, db₁') := by
  unfold createRun at h ⊢
  obtain ⟨name, hname, h⟩ := Py.bind_ok.mp h
  obtain ⟨label, hlabel, -⟩ := Py.bind_ok.mp h
  exact ⟨_, Py.bind_ok.mpr ⟨name, hname, Py.bind_ok.mpr ⟨label, hlabel, rfl⟩⟩⟩

theorem runSource_returned
    (h : runSource args (.ok fetched) (Session.begin db) = (.ok report, s)) :
    ∃ runId db', createRun args.source db = .ok (runId, db') ∧
      ∃ q indexed embedded, Returned args fetched db q indexed embedded report s := by
  cases hcreate : createRun args.source db with
  | error exc =>
    unfold runSource at h
    rw [Txn.bind_of_error (Txn.execute_of_error rfl hcreate)] at h
    cases h
  | ok out =>
    obtain ⟨runId, db'⟩ := out
    refine ⟨runId, db', rfl, ?_⟩
    rw [runSource_created hcreate] at h
    obtain ⟨rfl, name, rfl⟩ := createRun_ok hcreate
    unfold runCreated at h
    dsimp only at h
    cases hq : processFiles args.worker args.filters args.source
        { store := db.store, summary := (scanned db.runs.length fetched).toSummary }
        fetched.files with
    | error exc =>
      have hindex : indexFetched args fetched.files (scanned db.runs.length fetched)
          { db with runs := db.runs ++ [{ sourceName := name }] } = .error exc := by
        unfold indexFetched
        rw [hq]
        rfl
      rw [Txn.bind_of_error (Txn.execute_of_error rfl hindex)] at h
      cases h
    | ok q =>
      have hindex : indexFetched args fetched.files (scanned db.runs.length fetched)
          { db with runs := db.runs ++ [{ sourceName := name }] } = .ok _ := indexFetched_ok hq
      rw [Txn.bind_of_ok (Txn.execute_of_ok rfl hindex)] at h
      dsimp only at h
      cases hpass : embedPhase args.settings args.provider
          (args.touchedOrder.visit q.touchedDocIds)
          { scanned db.runs.length fetched with toSummary := q.summary }
          { working := Db.withStore { db with runs := db.runs ++ [{ sourceName := name }] } q.store
            durable := { db with runs := db.runs ++ [{ sourceName := name }] }
            commits := [{ db with runs := db.runs ++ [{ sourceName := name }] }] } with
      | mk r embedded =>
        cases r with
        | error exc =>
          rw [Txn.bind_of_error hpass] at h
          cases h
        | ok pass =>
          rw [Txn.bind_of_ok hpass] at h
          obtain ⟨hs, rfl, hstore, hembeddings⟩ := finishRun_returned h
          exact ⟨q, _, embedded, hq, rfl, rfl, rfl, hpass, hs, rfl, hstore, hembeddings⟩

variable {q : Progress} {indexed embedded : Session Db}

/-- The store is durable as the file loop left it, and the embeddings are of its chunks. -/
theorem Returned.holds (r : Returned args fetched db q indexed embedded report s)
    (ho : db.store.Owned) : s.durable.store = q.store ∧ s.durable.Owned := by
  have hbefore : Holds q.store indexed := by
    refine ⟨r.store, fun e he => ?_⟩
    rw [r.embeddings] at he
    exact (withStore_owned (processFiles_owned ho r.files)).embeddings e he
  have hafter : Holds q.store (embedPhase args.settings args.provider
      (args.touchedOrder.visit q.touchedDocIds)
      { scanned db.runs.length fetched with toSummary := q.summary } indexed).2 :=
    keeps_embedPhase embedRule_holds indexed hbefore
  rw [r.pass] at hafter
  have hstore : s.durable.store = q.store := r.durable_store.trans hafter.store
  refine ⟨hstore, ?_, ?_⟩
  · rw [hstore]
    exact processFiles_owned ho r.files
  · rw [r.durable_embeddings, hstore]
    exact hafter.embeddings

/-- Behind a complete pass, every chunk of a touched document is embedded. -/
theorem Returned.allEmbedded (r : Returned args fetched db q indexed embedded report s)
    (hp : args.provider.isSome = true) (hc : Complete report.pass) :
    AllEmbedded s.durable (args.touchedOrder.visit q.touchedDocIds) := by
  obtain ⟨provider, hp⟩ := Option.isSome_iff_exists.mp hp
  have hpass := r.pass
  rw [hp] at hpass
  have hall := embedPhase_complete r.usable rfl hpass r.commits hc
  intro c hm hd
  rw [r.durable_store] at hm
  have hc := hall c hm hd
  unfold Embedded at hc ⊢
  rwa [r.durable_embeddings]

/-- The cascade of a loop that left the store alone takes nothing. -/
theorem withStore_self {db : Db} (ho : db.Owned) : Db.withStore db db.store = db := by
  have hkept : (db.embeddings.delete fun e => !db.store.chunks.rows.any (·.id = e.key)) =
      db.embeddings := by
    refine Table.delete_eq_self fun e he => ?_
    obtain ⟨c, hc, hid⟩ := ho.embeddings e he
    rw [Bool.not_eq_false', List.any_eq_true]
    exact ⟨c, hc, by simpa using hid⟩
  exact congrArg (fun embeddings => { db with embeddings := embeddings }) hkept

/-- The touched documents are the same, where the store is. -/
theorem touched_again {w : Worker} {filters : ContentFilters} {source : Source}
    {files : List FetchedFile} {st : Store} {summary summary' : Summary} {q q' : Progress}
    (h : processFiles w filters source { store := st, summary := summary } files = .ok q)
    (h' : processFiles w filters source { store := q.store, summary := summary' } files = .ok q')
    (hq : q'.store = q.store) : q'.touchedDocIds = q.touchedDocIds := by
  have ht : Touched q (files.foldl (touch w source) []) := processFiles_touched ⟨rfl, by simp⟩ h
  have ht' : Touched q' (files.foldl (touch w source) []) := processFiles_touched ⟨rfl, by simp⟩ h'
  rw [ht.1, ht'.1, hq]

/-- The file loop over the same files, from the store that the run left. -/
theorem Returned.loop_again (r : Returned args fetched db q indexed embedded report s)
    (ho : db.store.Owned) (hn : (fetched.files.map (·.path)).Nodup) {summary : Summary}
    {q' : Progress} (h : processFiles args.worker args.filters args.source
      { store := s.durable.store, summary := summary } fetched.files = .ok q') :
    q'.store = s.durable.store ∧ q'.summary.chunksCreated = summary.chunksCreated ∧
      q'.touchedDocIds = q.touchedDocIds := by
  have hsettled : q.store.view.Settled args.worker args.source fetched.files := by
    rw [processFiles_view ho r.files]
    exact processAll_settled _ hn
  have howned : q.store.Owned := processFiles_owned ho r.files
  rw [(r.holds ho).1] at h ⊢
  obtain ⟨hst, hcreated⟩ := processFiles_settled (p := { store := q.store, summary := summary })
    howned hsettled h
  exact ⟨hst, hcreated, touched_again r.files h hst⟩

/-- Nothing is pending behind a complete run, and the run gets to its end again. -/
theorem Returned.ends_again (r : Returned args fetched db q indexed embedded report s)
    (ho : db.Owned) (hn : (fetched.files.map (·.path)).Nodup) (hc : Complete report.pass)
    (h : Ends args db (.ok fetched)) : Ends args s.durable (.ok fetched) := by
  obtain ⟨haccepts, -, hrecorded⟩ := h
  obtain ⟨hstore, hdurable⟩ := r.holds ho.chunks
  have haccepts' : s.durable.store.view.AcceptsAll args.worker args.filters args.source
      fetched.files := by
    rw [hstore, processFiles_view ho.chunks r.files]
    exact acceptsAll_again _ hn haccepts
  obtain ⟨q', hq'⟩ := (processFiles_ok_iff (p := ⟨s.durable.store, {}, []⟩)
    hdurable.chunks).mpr haccepts'
  obtain ⟨hst, -, htouched⟩ := r.loop_again ho.chunks hn hq'
  have hpending : args.provider.isSome = true →
      pendingChunks args s.durable fetched.files = [] := by
    intro hp
    unfold pendingChunks
    rw [← pending_eq args.touchedOrder hdurable hq', hst, withStore_self hdurable, htouched,
      toEmbed_eq_nil.mpr (r.allEmbedded hp hc), List.map_nil]
  have herrors : embedErrors args s.durable fetched.files = [] := by
    unfold embedErrors
    cases hp : args.provider with
    | none => rfl
    | some provider =>
      rw [hpending (by rw [hp]; rfl)]
      rfl
  refine ⟨haccepts', fun provider hp => .inl (hpending (by rw [hp]; rfl)), fun text ht => ?_⟩
  refine hrecorded text ?_
  unfold recordedTexts at ht ⊢
  rw [herrors] at ht
  simp only [List.append_nil, List.mem_append] at ht ⊢
  tauto

end

/-- **Idempotence.** A run over files with distinct paths, on any database that keeps its foreign
keys, returns with every needed embedding created. The run over the same files behind it returns
as well: it writes no chunk, does not call the provider, writes no embedding, and leaves the
documents, the chunks and the embeddings as they are. -/
theorem run_idempotent (args : RunArgs) (fetched : FetchResult) (db : Db) (report : RunReport)
    (s : Session Db) (ho : db.Owned) (hn : (fetched.files.map (·.path)).Nodup)
    (h : runSource args (.ok fetched) (Session.begin db) = (.ok report, s))
    (hc : Complete report.pass) :
    ∃ report' s', runSource args (.ok fetched) (Session.begin s.durable) = (.ok report', s') ∧
      s'.durable.store = s.durable.store ∧ s'.durable.embeddings = s.durable.embeddings ∧
      report'.summary.chunksCreated = 0 ∧ report'.pass.calls = [] ∧
      report'.summary.embeddingsCreated = 0 := by
  obtain ⟨runId, db', hcreate, q, indexed, embedded, r⟩ := runSource_returned h
  have hdurable := (r.holds ho.chunks).2
  have hends : Ends args db (.ok fetched) :=
    (runSource_returns_iff ho hcreate).mp ⟨report, by rw [h]⟩
  obtain ⟨_, hcreate'⟩ := createRun_again s.durable hcreate
  obtain ⟨report', hr⟩ := (runSource_returns_iff hdurable hcreate').mpr
    (r.ends_again ho hn hc hends)
  have h' : runSource args (.ok fetched) (Session.begin s.durable) = (.ok report', _) :=
    Prod.ext hr rfl
  obtain ⟨-, -, -, q', indexed', embedded', r'⟩ := runSource_returned h'
  obtain ⟨hst, hcreated, htouched⟩ := r.loop_again ho.chunks hn r'.files
  have hindexed : indexed'.working.store = s.durable.store := r'.store.trans hst
  have hembeddings : indexed'.working.embeddings = s.durable.embeddings := by
    rw [r'.embeddings, hst, withStore_self hdurable]
  have hall : args.provider.isSome = true →
      AllEmbedded indexed'.working (args.touchedOrder.visit q'.touchedDocIds) := by
    intro hp c hm hd
    rw [hindexed] at hm
    rw [htouched] at hd
    have hembedded := r.allEmbedded hp hc c hm hd
    unfold Embedded at hembedded ⊢
    rwa [hembeddings]
  obtain ⟨hsame, hcalls, hsummary, hwritten⟩ := embedPhase_embedded r'.usable hall r'.pass
  refine ⟨report', _, h', ?_, ?_, ?_, hcalls, ?_⟩
  · rw [r'.durable_store, hsame, hindexed]
  · rw [r'.durable_embeddings, hsame, hembeddings]
  · rw [r'.summary, hsummary]
    exact hcreated
  · rw [r'.summary, hwritten]
    rfl

/-- The run of one page, with a provider of vectors of length one. -/
def usageRun : RunArgs where
  worker := asciiWorker
  source := { name := "docs" }
  settings := { excStr := fun _ => "error" }
  provider := some
    { provider := "local", model := "unit", dimensions := 1
      embedDocuments := fun _ texts => .ok (texts.map fun _ => [some 1]) }

/-- How the pass ended, and how many texts it embedded. -/
def usageOutcome (db : Db) : Option (Except Raised Unit × Nat × Nat) :=
  match (runSource usageRun (.ok { files := [newPage] }) (Session.begin db)).1 with
  | .error _ => none
  | .ok report =>
    some (report.pass.outcome, report.pass.summary.embeddingsFailed, report.pass.calls.flatten.length)

theorem run_idempotent_usage : ∃ report s report' s',
    runSource usageRun (.ok { files := [newPage] }) (Session.begin {}) = (.ok report, s) ∧
    report.pass.calls ≠ [] ∧
    runSource usageRun (.ok { files := [newPage] }) (Session.begin s.durable) = (.ok report', s') ∧
    s'.durable.store = s.durable.store ∧ s'.durable.embeddings = s.durable.embeddings ∧
    report'.summary.chunksCreated = 0 ∧ report'.pass.calls = [] ∧
    report'.summary.embeddingsCreated = 0 := by
  have hrun : usageOutcome {} = some (.ok (), 0, 1) := by decide +kernel
  unfold usageOutcome at hrun
  cases hr : runSource usageRun (.ok { files := [newPage] }) (Session.begin {}) with
  | mk r s =>
    rw [hr] at hrun
    cases r with
    | error exc => cases hrun
    | ok report =>
      simp only [Option.some.injEq, Prod.mk.injEq] at hrun
      obtain ⟨houtcome, hfailed, hcalls⟩ := hrun
      obtain ⟨report', s', h⟩ := run_idempotent usageRun { files := [newPage] } {} report s
        db_owned_empty (by simp) hr ⟨houtcome, hfailed⟩
      refine ⟨report, s, report', s', rfl, fun hn => ?_, h⟩
      rw [hn] at hcalls
      cases hcalls

end KnowledgeKiln.L1.Pipeline
