import KnowledgeKiln.L1Ingest.FileProcessing

/-!
# What a corpus leaves in the store

Results about whole ingests, from the step lemmas of `FileProcessing`.

* `ingest_induct`: what every processed file keeps holds of the ingested store.
* `ingest_scanned`: every stored chunk has a content, and the security metadata of
  that content.
* `ingest_sourced`: every stored chunk is one of a file of the corpus.
* `ingest_carries`: where no two files share a `(repo, path)`, the store holds the
  chunks of the files of the corpus, each with the columns of its document, and
  nothing else.
-/
namespace KnowledgeKiln.L1.FileProcessing

open KnowledgeKiln.Core KnowledgeKiln.L1.Chunking

/-- The files of a corpus, each with its source. -/
def corpusFiles (corpus : List (Source × List FetchedFile)) : List (Source × FetchedFile) :=
  corpus.flatMap fun c => c.2.map fun file => (c.1, file)

/-! ## Induction over an ingest -/

section
variable {w : Worker} {filters : ContentFilters}
  {P : List (Source × FetchedFile) → Store → Prop}

theorem processFiles_induct {source : Source}
    (step : ∀ done file p q, P done p.store → processFile w filters source p file = .ok q →
      P (done ++ [(source, file)]) q.store) :
    ∀ {files : List FetchedFile} {done : List (Source × FetchedFile)} {p q : Progress},
      P done p.store → processFiles w filters source p files = .ok q →
      P (done ++ files.map fun file => (source, file)) q.store
  | [], done, p, q, hp, h => by
    cases h
    simpa using hp
  | file :: files, done, p, q, hp, h => by
    obtain ⟨p', hp', h⟩ := Py.bind_ok.mp h
    have := processFiles_induct step (step done file p p' hp hp') h
    simpa using this

/-- What holds of the store an ingest starts from, and is kept by every file, holds of the
store it ends with. -/
theorem ingest_induct
    (step : ∀ done source file p q, P done p.store → processFile w filters source p file = .ok q →
      P (done ++ [(source, file)]) q.store) :
    ∀ {corpus : List (Source × List FetchedFile)} (done : List (Source × FetchedFile))
      {st st' : Store}, P done st → ingest w filters st corpus = .ok st' →
      P (done ++ corpusFiles corpus) st'
  | [], done, st, st', hp, h => by
    cases h
    simpa [corpusFiles] using hp
  | (source, files) :: corpus, done, st, st', hp, h => by
    obtain ⟨p, hp', h⟩ := Py.bind_ok.mp h
    have hfiles := processFiles_induct (fun done => step done source) hp hp'
    have := ingest_induct step _ hfiles h
    simpa [corpusFiles] using this

end

/-! ## Every stored chunk was scanned -/

/-- The stored chunks are not empty, carry the security metadata of their content, and belong
to stored documents. -/
structure Store.Scanned (filters : ContentFilters) (st : Store) : Prop where
  content : ∀ c ∈ st.chunks.rows, c.value.content ≠ []
  metadata : ∀ c ∈ st.chunks.rows,
    c.value.metadata = chunkSecurityMetadata filters c.value.content
  owned : ∀ c ∈ st.chunks.rows, ∃ d ∈ st.documents.rows, d.id = c.key.1

theorem scanned_empty (filters : ContentFilters) : Store.Scanned filters {} :=
  ⟨by simp [Table.empty], by simp [Table.empty], by simp [Table.empty]⟩

section
variable {w : Worker} {filters : ContentFilters} {source : Source} {file : FetchedFile}
  {parsed : ParsedDocument} {row : Document} {p q : Progress}

/-- The id under which the file's document is stored. -/
abbrev Indexed.documentId (_ : Indexed w filters source file parsed row p q) : Uuid :=
  p.store.documents.idFor (documentKey source file)

theorem Indexed.mem_documents (i : Indexed w filters source file parsed row p q)
    {d : Row (Str × Str) Document} : d ∈ q.store.documents.rows ↔
      d = ⟨i.documentId, documentKey source file, row⟩ ∨
        (d ∈ p.store.documents.rows ∧ d.key ≠ documentKey source file) := by
  rw [i.documents, Table.mem_upsert]

/-- A stored chunk was there before, or it is a chunk of the file. -/
theorem Indexed.mem_chunks (i : Indexed w filters source file parsed row p q)
    {c : Row (Uuid × Nat) DocumentChunk} (h : c ∈ q.store.chunks.rows) :
    c ∈ p.store.chunks.rows ∨
      ∃ chunk ∈ parsed.chunks, c.key.1 = i.documentId ∧ c.value = chunkRow filters chunk := by
  rw [i.chunks] at h
  rcases Table.mem_upsertAll (Table.mem_delete.mp h).1 with h | h
  · exact .inl h
  · obtain ⟨chunk, hc, he⟩ := List.mem_map.mp h
    obtain ⟨hk, hv⟩ := Prod.mk.inj he
    exact .inr ⟨chunk, List.mem_of_mem_filter hc, by rw [← hk], hv.symm⟩

/-- The stored documents keep their ids and keys. -/
theorem Indexed.id_mem (i : Indexed w filters source file parsed row p q)
    {d : Row (Str × Str) Document} (h : d ∈ p.store.documents.rows) :
    ∃ d' ∈ q.store.documents.rows, d'.id = d.id ∧ d'.key = d.key := by
  by_cases hk : d.key = documentKey source file
  · refine ⟨_, i.mem_documents.mpr (.inl rfl), ?_, hk.symm⟩
    exact Table.idFor_of_find (Table.find_eq_some.mpr ⟨h, hk⟩)
  · exact ⟨d, i.mem_documents.mpr (.inr ⟨h, hk⟩), rfl, rfl⟩

theorem Indexed.scanned (i : Indexed w filters source file parsed row p q)
    (hc : ∀ chunk ∈ parsed.chunks, chunk.content ≠ []) (hp : p.store.Scanned filters) :
    q.store.Scanned filters where
  content := by
    intro c hm
    rcases i.mem_chunks hm with hm | ⟨chunk, hchunk, -, hv⟩
    · exact hp.content c hm
    · rw [hv]
      exact hc chunk hchunk
  metadata := by
    intro c hm
    rcases i.mem_chunks hm with hm | ⟨chunk, -, -, hv⟩
    · exact hp.metadata c hm
    · rw [hv]
      rfl
  owned := by
    intro c hm
    rcases i.mem_chunks hm with hm | ⟨chunk, -, hk, -⟩
    · obtain ⟨d, hd, he⟩ := hp.owned c hm
      obtain ⟨d', hd', he', -⟩ := i.id_mem hd
      exact ⟨d', hd', he'.trans he⟩
    · exact ⟨_, i.mem_documents.mpr (.inl rfl), hk.symm⟩

theorem processFile_scanned (hp : p.store.Scanned filters)
    (h : processFile w filters source p file = .ok q) : q.store.Scanned filters := by
  rcases processFile_ok h with ⟨-, he⟩ | ⟨parsed, hi, h⟩
  · rw [he]
    exact hp
  · obtain ⟨row, i⟩ := indexFile_ok h
    obtain ⟨text, -, hparse, -⟩ := indexable_ok hi
    exact i.scanned (parseDocument_content hparse) hp

theorem ingest_scanned {corpus : List (Source × List FetchedFile)} {st st' : Store}
    (hs : st.Scanned filters) (h : ingest w filters st corpus = .ok st') :
    st'.Scanned filters := by
  refine ingest_induct (P := fun _ st => st.Scanned filters) ?_ [] hs h
  exact fun _ _ _ _ _ hp hq => processFile_scanned hp hq

/-! ## Every stored chunk is from a file -/

/-- Every stored chunk is one of a processed file whose document it belongs to. -/
def Store.Sourced (w : Worker) (filters : ContentFilters) (files : List (Source × FetchedFile))
    (st : Store) : Prop :=
  ∀ c ∈ st.chunks.rows, ∃ d ∈ st.documents.rows, d.id = c.key.1 ∧
    ∃ f ∈ files, d.key = documentKey f.1 f.2 ∧ ∃ parsed, indexable w f.2 = some parsed ∧
      ∃ chunk ∈ parsed.chunks, c.value = chunkRow filters chunk

theorem processFile_sourced {done : List (Source × FetchedFile)}
    (hp : p.store.Sourced w filters done) (h : processFile w filters source p file = .ok q) :
    q.store.Sourced w filters (done ++ [(source, file)]) := by
  have hmono : ∀ {f}, f ∈ done → f ∈ done ++ [(source, file)] := List.mem_append_left _
  rcases processFile_ok h with ⟨-, he⟩ | ⟨parsed, hi, h⟩
  · rw [he]
    intro c hm
    obtain ⟨d, hd, hid, f, hf, hfile⟩ := hp c hm
    exact ⟨d, hd, hid, f, hmono hf, hfile⟩
  · obtain ⟨row, i⟩ := indexFile_ok h
    intro c hm
    rcases i.mem_chunks hm with hm | ⟨chunk, hchunk, hk, hv⟩
    · obtain ⟨d, hd, hid, f, hf, hkey, hfile⟩ := hp c hm
      obtain ⟨d', hd', hid', hkey'⟩ := i.id_mem hd
      exact ⟨d', hd', hid'.trans hid, f, hmono hf, hkey'.trans hkey, hfile⟩
    · exact ⟨_, i.mem_documents.mpr (.inl rfl), hk.symm, _,
        List.mem_append_right _ (List.mem_singleton_self _), rfl, parsed, hi, chunk, hchunk, hv⟩

theorem ingest_sourced {corpus : List (Source × List FetchedFile)} {st : Store}
    (h : ingest w filters {} corpus = .ok st) : st.Sourced w filters (corpusFiles corpus) := by
  have hempty : Store.Sourced w filters [] {} := by simp [Store.Sourced, Table.empty]
  refine ingest_induct (P := fun done st => st.Sourced w filters done) ?_ [] hempty h
  exact fun _ _ _ _ _ hp hq => processFile_sourced hp hq

/-! ## A corpus of distinct documents -/

/-- The store holds a document with this key and these columns, and in it this chunk. -/
def Store.Carries (st : Store) (key : Str × Str) (row : Document) (chunk : DocumentChunk) : Prop :=
  ∃ d ∈ st.documents.rows, d.key = key ∧ d.value = row ∧
    ∃ index, st.chunks.value (d.id, index) = some chunk

/-- The chunk is one of a file of the list, and `key` and `row` are of that file's document. -/
def FromFiles (w : Worker) (filters : ContentFilters) (files : List (Source × FetchedFile))
    (key : Str × Str) (row : Document) (chunk : DocumentChunk) : Prop :=
  ∃ f ∈ files, key = documentKey f.1 f.2 ∧ ∃ parsed, indexable w f.2 = some parsed ∧
    documentRow w f.1 f.2 parsed = .ok row ∧ ∃ c ∈ parsed.chunks, chunk = chunkRow filters c

/-- No chunk belongs to a document that is not stored yet. -/
theorem existing_eq_nil (hs : p.store.Scanned filters)
    (hf : p.store.documents.find (documentKey source file) = none) :
    existingChunksByIndex p.store (p.store.documents.idFor (documentKey source file)) = [] := by
  unfold existingChunksByIndex
  rw [List.map_eq_nil_iff, List.filter_eq_nil_iff]
  intro c hc he
  obtain ⟨d, hd, hid⟩ := hs.owned c hc
  exact Table.ne_idFor hf hd (hid.trans (of_decide_eq_true he))

/-- A new document gets all its chunks written, and no chunk is deleted. -/
theorem Indexed.chunks_fresh (i : Indexed w filters source file parsed row p q)
    (hs : p.store.Scanned filters)
    (hf : p.store.documents.find (documentKey source file) = none) :
    q.store.chunks =
      p.store.chunks.upsertAll (chunkRows filters i.documentId parsed.chunks) := by
  rw [i.chunks]
  dsimp only
  rw [existing_eq_nil hs hf]
  simp [unchanged, lookupLast, orphanIds, Table.delete_false]

theorem lookupLast_chunkRows {documentId documentId' : Uuid} {index : Nat} {chunks : List Chunk}
    {chunk : DocumentChunk} (hn : (chunks.map (·.chunkIndex)).Nodup) :
    lookupLast (chunkRows filters documentId chunks) (documentId', index) = some chunk ↔
      documentId' = documentId ∧
        ∃ c ∈ chunks, c.chunkIndex = index ∧ chunkRow filters c = chunk := by
  constructor
  · intro h
    obtain ⟨c, hc, he⟩ := List.mem_map.mp (mem_of_lookupLast h)
    obtain ⟨hk, hv⟩ := Prod.mk.inj he
    obtain ⟨hd, hi⟩ := Prod.mk.inj hk
    exact ⟨hd.symm, c, hc, hi, hv⟩
  · rintro ⟨rfl, c, hc, rfl, rfl⟩
    have hkeys : ((chunkRows filters documentId' chunks).map Prod.fst).Nodup := by
      rw [chunkRows, List.map_map]
      have hpairs := hn.map (Prod.mk_right_injective documentId')
      rwa [List.map_map] at hpairs
    exact lookupLast_of_mem hkeys (List.mem_map_of_mem hc)

/-- The chunks of a new document are the file's; those of the others stay. -/
theorem Indexed.value_fresh (i : Indexed w filters source file parsed row p q)
    (hs : p.store.Scanned filters)
    (hf : p.store.documents.find (documentKey source file) = none)
    (hn : (parsed.chunks.map (·.chunkIndex)).Nodup) {documentId : Uuid} {index : Nat}
    {chunk : DocumentChunk} :
    q.store.chunks.value (documentId, index) = some chunk ↔
      (documentId = i.documentId ∧
        ∃ c ∈ parsed.chunks, c.chunkIndex = index ∧ chunkRow filters c = chunk) ∨
      p.store.chunks.value (documentId, index) = some chunk := by
  rw [i.chunks_fresh hs hf, Table.value_upsertAll, Option.or_eq_some_iff,
    lookupLast_chunkRows hn]
  refine or_congr_right ⟨And.right, fun h => ⟨?_, h⟩⟩
  -- a stored chunk belongs to a stored document, which the new one is not
  obtain ⟨c, hc, hk, -⟩ := Table.value_eq_some.mp h
  obtain ⟨d, hd, hid⟩ := hs.owned c hc
  refine Option.eq_none_iff_forall_ne_some.mpr fun chunk' hl => ?_
  obtain ⟨he, -⟩ := (lookupLast_chunkRows hn).mp hl
  refine Table.ne_idFor hf hd ?_
  rw [hid, hk]
  exact he

theorem Indexed.carries_fresh (i : Indexed w filters source file parsed row p q)
    (hs : p.store.Scanned filters)
    (hf : p.store.documents.find (documentKey source file) = none)
    (hn : (parsed.chunks.map (·.chunkIndex)).Nodup) {key : Str × Str} {row' : Document}
    {chunk : DocumentChunk} : q.store.Carries key row' chunk ↔
      (key = documentKey source file ∧ row' = row ∧
        ∃ c ∈ parsed.chunks, chunk = chunkRow filters c) ∨ p.store.Carries key row' chunk := by
  constructor
  · rintro ⟨d, hd, rfl, rfl, index, hv⟩
    rcases i.mem_documents.mp hd with rfl | ⟨hd, hk⟩
    · rcases (i.value_fresh hs hf hn).mp hv with ⟨-, c, hc, -, rfl⟩ | hv
      · exact .inl ⟨rfl, rfl, c, hc, rfl⟩
      · obtain ⟨c, hc, hk, -⟩ := Table.value_eq_some.mp hv
        obtain ⟨d, hd, hid⟩ := hs.owned c hc
        refine absurd (hid.trans ?_) (Table.ne_idFor hf hd)
        rw [hk]
    · rcases (i.value_fresh hs hf hn).mp hv with ⟨he, -⟩ | hv
      · exact absurd he (Table.ne_idFor hf hd)
      · exact .inr ⟨d, hd, rfl, rfl, index, hv⟩
  · rintro (⟨rfl, rfl, c, hc, rfl⟩ | ⟨d, hd, rfl, rfl, index, hv⟩)
    · exact ⟨_, i.mem_documents.mpr (.inl rfl), rfl, rfl, c.chunkIndex,
        (i.value_fresh hs hf hn).mpr (.inl ⟨rfl, c, hc, rfl, rfl⟩)⟩
    · exact ⟨d, i.mem_documents.mpr (.inr ⟨hd, Table.find_eq_none.mp hf d hd⟩), rfl, rfl, index,
        (i.value_fresh hs hf hn).mpr (.inr hv)⟩

end

/-- A store that files with distinct keys were ingested into. -/
structure Fresh (w : Worker) (filters : ContentFilters) (done : List (Source × FetchedFile))
    (st : Store) : Prop where
  scanned : st.Scanned filters
  documents : ∀ d ∈ st.documents.rows, ∃ f ∈ done, d.key = documentKey f.1 f.2
  rows : ∀ f ∈ done, ∀ parsed, indexable w f.2 = some parsed →
    ∃ row, documentRow w f.1 f.2 parsed = .ok row
  carries : (done.map fun f => documentKey f.1 f.2).Nodup → ∀ key row chunk,
    st.Carries key row chunk ↔ FromFiles w filters done key row chunk

section
variable {w : Worker} {filters : ContentFilters} {source : Source} {file : FetchedFile}
  {p q : Progress}

theorem fresh_empty : Fresh w filters [] {} where
  scanned := scanned_empty filters
  documents := by simp [Table.empty]
  rows := by simp
  carries := by simp [Store.Carries, FromFiles, Table.empty]

theorem fromFiles_append {done : List (Source × FetchedFile)} {key : Str × Str} {row : Document}
    {chunk : DocumentChunk} : FromFiles w filters (done ++ [(source, file)]) key row chunk ↔
      (key = documentKey source file ∧ ∃ parsed, indexable w file = some parsed ∧
        documentRow w source file parsed = .ok row ∧
          ∃ c ∈ parsed.chunks, chunk = chunkRow filters c) ∨
      FromFiles w filters done key row chunk := by
  simp only [FromFiles, List.mem_append, List.mem_singleton, or_and_right, exists_or,
    exists_eq_left]
  exact or_comm

theorem processFile_fresh {done : List (Source × FetchedFile)} (hp : Fresh w filters done p.store)
    (h : processFile w filters source p file = .ok q) :
    Fresh w filters (done ++ [(source, file)]) q.store := by
  have hscanned := processFile_scanned hp.scanned h
  rcases processFile_ok h with ⟨hnone, he⟩ | ⟨parsed, hi, h⟩
  · rw [he]
    refine ⟨hp.scanned, fun d hd => ?_, fun f hf parsed hi => ?_, fun hn key row chunk => ?_⟩
    · obtain ⟨f, hf, hk⟩ := hp.documents d hd
      exact ⟨f, List.mem_append_left _ hf, hk⟩
    · rcases List.mem_append.mp hf with hf | hf
      · exact hp.rows f hf parsed hi
      · rw [List.mem_singleton.mp hf, hnone] at hi
        cases hi
    · rw [List.map_append] at hn
      rw [fromFiles_append, hp.carries hn.of_append_left]
      simp [hnone]
  obtain ⟨row, i⟩ := indexFile_ok h
  refine ⟨hscanned, fun d hd => ?_, fun f hf parsed' hi' => ?_, fun hn key row' chunk => ?_⟩
  · rcases i.mem_documents.mp hd with rfl | ⟨hd, -⟩
    · exact ⟨(source, file), by simp, rfl⟩
    · obtain ⟨f, hf, hk⟩ := hp.documents d hd
      exact ⟨f, List.mem_append_left _ hf, hk⟩
  · rcases List.mem_append.mp hf with hf | hf
    · exact hp.rows f hf parsed' hi'
    · rw [List.mem_singleton.mp hf, hi] at hi'
      cases hi'
      rw [List.mem_singleton.mp hf]
      exact ⟨row, i.row_eq⟩
  · rw [List.map_append, List.nodup_append] at hn
    obtain ⟨hdone, -, hne⟩ := hn
    have hf : p.store.documents.find (documentKey source file) = none := by
      refine Table.find_eq_none.mpr fun d hd hk => ?_
      obtain ⟨f, hf, hk'⟩ := hp.documents d hd
      exact hne _ (List.mem_map_of_mem hf) _ (List.mem_singleton_self _) (hk'.symm.trans hk)
    obtain ⟨text, -, hparse, -⟩ := indexable_ok hi
    have hindex : (parsed.chunks.map (·.chunkIndex)).Nodup := by
      rw [parseDocument_index hparse]
      exact List.nodup_range
    rw [fromFiles_append, i.carries_fresh hp.scanned hf hindex, hp.carries hdone]
    simp only [hi, Option.some.injEq, exists_eq_left', i.row_eq, Except.ok.injEq]
    refine or_congr_left (and_congr_right fun _ => ?_)
    rw [eq_comm]

theorem ingest_fresh {corpus : List (Source × List FetchedFile)} {st : Store}
    (h : ingest w filters {} corpus = .ok st) : Fresh w filters (corpusFiles corpus) st :=
  ingest_induct (fun _ _ _ _ _ hp hq => processFile_fresh hp hq) [] fresh_empty h

/-- **A fresh ingest stores its corpus.** Where no two files share a `(repo, path)`, the store
holds exactly the chunks the files parse to, scanned under the filters, each with the columns
of its own file's document. -/
theorem ingest_carries {corpus : List (Source × List FetchedFile)} {st : Store}
    (h : ingest w filters {} corpus = .ok st)
    (hn : ((corpusFiles corpus).map fun f => documentKey f.1 f.2).Nodup) (key : Str × Str)
    (row : Document) (chunk : DocumentChunk) :
    st.Carries key row chunk ↔ FromFiles w filters (corpusFiles corpus) key row chunk :=
  (ingest_fresh h).carries hn key row chunk

end

end KnowledgeKiln.L1.FileProcessing
