import KnowledgeKiln.L1Ingest.Ingested

/-!
# What a file does to the knowledge base

The abstract side of ingestion. A knowledge base maps `(repo, path)` to a
document and its chunks by index; the ids the database generates are not part
of it. Indexing a file replaces its entry (`Entry.put`), where a chunk whose hash
is unchanged keeps its old row.

* `processFile_view`: on stores whose chunks belong to stored documents,
  `processFile` is `KnowledgeBase.process`.
* `processFile_ok_iff`: when `processFile` returns (`Entry.Accepts`).
-/
namespace KnowledgeKiln.L1.FileProcessing

open KnowledgeKiln.Core KnowledgeKiln.L1.Chunking

/-! ## The abstract model -/

/-- What is stored under one key. -/
@[ext] structure Entry where
  document : Option Document
  chunks : Nat → Option DocumentChunk

def Entry.empty : Entry := ⟨none, fun _ => none⟩

abbrev KnowledgeBase := Str × Str → Entry

def KnowledgeBase.empty : KnowledgeBase := fun _ => Entry.empty

/-- The row a parsed chunk leaves at its index: the old one, if the hash is the same. -/
def refreshed (filters : ContentFilters) (old : Option DocumentChunk) (c : Chunk) :
    DocumentChunk :=
  match old with
  | some row => if row.contentHash = c.contentHash then row else chunkRow filters c
  | none => chunkRow filters c

/-- The entry becomes this document with these chunks. -/
def Entry.put (e : Entry) (filters : ContentFilters) (row : Document) (chunks : List Chunk) :
    Entry where
  document := some row
  chunks index := chunks[index]?.map (refreshed filters (e.chunks index))

/-- The parsed document of a file that gets indexed, and its row. -/
def indexedAs (w : Worker) (source : Source) (file : FetchedFile) :
    Option (ParsedDocument × Document) :=
  match indexable w file with
  | none => none
  | some parsed =>
    match documentRow w source file parsed with
    | .error _ => none
    | .ok row => some (parsed, row)

def Entry.process (w : Worker) (filters : ContentFilters) (source : Source) (e : Entry)
    (file : FetchedFile) : Entry :=
  match indexedAs w source file with
  | none => e
  | some (parsed, row) => e.put filters row parsed.chunks

/-- Processing a file changes its own entry. -/
def KnowledgeBase.process (w : Worker) (filters : ContentFilters) (source : Source)
    (kb : KnowledgeBase) (file : FetchedFile) : KnowledgeBase :=
  Function.update kb (documentKey source file)
    ((kb (documentKey source file)).process w filters source file)

theorem indexedAs_eq_some {w : Worker} {source : Source} {file : FetchedFile}
    {parsed : ParsedDocument} {row : Document} :
    indexedAs w source file = some (parsed, row) ↔
      indexable w file = some parsed ∧ documentRow w source file parsed = .ok row := by
  unfold indexedAs
  split
  · rename_i hi
    simp [hi]
  · rename_i parsed' hi
    split
    · rename_i hr
      simp only [hi, reduceCtorEq, Option.some.injEq, false_iff, not_and]
      intro h
      rw [← h, hr]
      simp
    · rename_i row' hr
      simp only [hi, Option.some.injEq, Prod.mk.injEq]
      refine and_congr_right fun h => ?_
      rw [← h, hr, Except.ok.injEq]

/-! ## The store as a knowledge base -/

def Store.view (st : Store) : KnowledgeBase := fun key =>
  { document := st.documents.value key
    chunks := fun index =>
      (st.documents.find key).bind fun d => st.chunks.value (d.id, index) }

/-- Every chunk belongs to a stored document. -/
def Store.Owned (st : Store) : Prop :=
  ∀ c ∈ st.chunks.rows, ∃ d ∈ st.documents.rows, d.id = c.key.1

theorem owned_empty : Store.Owned {} := by
  simp [Store.Owned, Table.empty]

/-- A chunk of the entry is a stored chunk of its document. -/
theorem view_chunk_of_find {st : Store} {key : Str × Str} {d : Row (Str × Str) Document}
    (h : st.documents.find key = some d) (index : Nat) :
    (st.view key).chunks index = st.chunks.value (d.id, index) := by
  simp [Store.view, h]

/-- Under the id a key has or will have, the store holds the chunks of its entry. -/
theorem value_idFor {st : Store} (ho : st.Owned) (key : Str × Str) (index : Nat) :
    st.chunks.value (st.documents.idFor key, index) = (st.view key).chunks index := by
  cases hf : st.documents.find key with
  | some d => rw [view_chunk_of_find hf, Table.idFor_of_find hf]
  | none =>
    have hv : (st.view key).chunks index = none := by simp [Store.view, hf]
    rw [hv]
    refine Option.eq_none_iff_forall_ne_some.mpr fun chunk hc => ?_
    obtain ⟨c, hm, hk, -⟩ := Table.value_eq_some.mp hc
    obtain ⟨d, hd, hid⟩ := ho c hm
    refine Table.ne_idFor hf hd ?_
    rw [hid, hk]

/-! ## Indexing a file puts its entry -/

section
variable {st : Store} {documentId : Uuid}

theorem mem_existing {index : Nat} {id : Uuid} {hash : Str} :
    (index, id, hash) ∈ existingChunksByIndex st documentId ↔
      ∃ c ∈ st.chunks.rows, c.key = (documentId, index) ∧ c.id = id ∧
        c.value.contentHash = hash := by
  unfold existingChunksByIndex
  simp only [List.mem_map, List.mem_filter, decide_eq_true_eq, Prod.mk.injEq]
  constructor
  · rintro ⟨c, ⟨hc, hd⟩, hi, hid, hh⟩
    exact ⟨c, hc, Prod.ext hd hi, hid, hh⟩
  · rintro ⟨c, hc, hk, hid, hh⟩
    exact ⟨c, ⟨hc, by rw [hk]⟩, by rw [hk], hid, hh⟩

theorem existing_nodup : ((existingChunksByIndex st documentId).map Prod.fst).Nodup := by
  unfold existingChunksByIndex
  rw [List.map_map]
  refine List.Nodup.of_map (fun index => (documentId, index)) ?_
  have hkeys : (st.chunks.rows.filter fun r => r.key.1 = documentId).map (·.key) =
      ((st.chunks.rows.filter fun r => r.key.1 = documentId).map
        (Prod.fst ∘ fun r => (r.key.2, r.id, r.value.contentHash))).map
          fun index => (documentId, index) := by
    rw [List.map_map]
    refine List.map_congr_left fun r hr => ?_
    have hd : r.key.1 = documentId := by simpa using (List.mem_filter.mp hr).2
    exact Prod.ext hd rfl
  rw [← hkeys]
  exact st.chunks.keys_nodup.sublist (List.filter_sublist.map _)

/-- The hashes `_existing_chunks_by_index` reads are those of the stored chunks. -/
theorem lookupLast_existing (index : Nat) :
    (lookupLast (existingChunksByIndex st documentId) index).map (·.2) =
      (st.chunks.value (documentId, index)).map (·.contentHash) := by
  refine Option.ext fun hash => ?_
  simp only [Option.map_eq_some_iff, Table.value_eq_some, Prod.exists]
  constructor
  · rintro ⟨id, hash, hl, rfl⟩
    obtain ⟨c, hc, hk, -, hh⟩ := mem_existing.mp (mem_of_lookupLast hl)
    exact ⟨c.value, ⟨c, hc, hk, rfl⟩, hh⟩
  · rintro ⟨_, ⟨c, hc, hk, rfl⟩, hh⟩
    exact ⟨c.id, hash, lookupLast_of_mem existing_nodup (mem_existing.mpr ⟨c, hc, hk, rfl, hh⟩),
      rfl⟩

theorem unchanged_iff {chunk : Chunk} :
    unchanged (existingChunksByIndex st documentId) chunk = true ↔
      (st.chunks.value (documentId, chunk.chunkIndex)).map (·.contentHash) =
        some chunk.contentHash := by
  rw [← lookupLast_existing]
  unfold unchanged
  cases lookupLast (existingChunksByIndex st documentId) chunk.chunkIndex <;> simp

theorem mem_orphanIds {seen : List Nat} {id : Uuid} :
    id ∈ orphanIds (existingChunksByIndex st documentId) seen ↔
      ∃ c ∈ st.chunks.rows, c.key.1 = documentId ∧ c.key.2 ∉ seen ∧ c.id = id := by
  unfold orphanIds
  simp only [List.mem_map, List.mem_filter, decide_eq_true_eq, Prod.exists, mem_existing]
  constructor
  · rintro ⟨index, _, _, ⟨⟨c, hc, hk, rfl, -⟩, hs⟩, rfl⟩
    exact ⟨c, hc, by rw [hk], by rwa [hk], rfl⟩
  · rintro ⟨c, hc, rfl, hs, rfl⟩
    exact ⟨_, _, _, ⟨⟨c, hc, rfl, rfl, rfl⟩, hs⟩, rfl⟩

end

/-- Where chunks are numbered from 0, a chunk's index is its position. -/
theorem getElem?_eq_some_iff_index {chunks : List Chunk}
    (hindex : chunks.map (·.chunkIndex) = List.range chunks.length) {index : Nat} {c : Chunk} :
    chunks[index]? = some c ↔ c ∈ chunks ∧ c.chunkIndex = index := by
  have hpos : ∀ {i : Nat} {c : Chunk}, chunks[i]? = some c → c.chunkIndex = i := by
    intro i c h
    obtain ⟨hi, -⟩ := List.getElem?_eq_some_iff.mp h
    have hmap : (chunks.map (·.chunkIndex))[i]? = some c.chunkIndex := by
      rw [List.getElem?_map, h, Option.map_some]
    rw [hindex, List.getElem?_range hi] at hmap
    exact (Option.some.inj hmap).symm
  constructor
  · intro h
    exact ⟨List.mem_of_getElem? h, hpos h⟩
  · intro ⟨hc, hi⟩
    obtain ⟨i, h⟩ := List.mem_iff_getElem?.mp hc
    rw [← hi, hpos h, h]

section
variable {w : Worker} {filters : ContentFilters} {source : Source} {file : FetchedFile}
  {parsed : ParsedDocument} {row : Document} {p q : Progress}

/-- The chunk rows of the file that get written. -/
abbrev Indexed.written (i : Indexed w filters source file parsed row p q) :
    List ((Uuid × Nat) × DocumentChunk) :=
  chunkRows filters i.documentId (parsed.chunks.filter
    (!unchanged (existingChunksByIndex p.store i.documentId) ·))

theorem Indexed.lookup_written (i : Indexed w filters source file parsed row p q)
    (hindex : parsed.chunks.map (·.chunkIndex) = List.range parsed.chunks.length)
    {documentId : Uuid} {index : Nat} {chunk : DocumentChunk} :
    lookupLast i.written (documentId, index) = some chunk ↔ documentId = i.documentId ∧
      ∃ c, parsed.chunks[index]? = some c ∧
        unchanged (existingChunksByIndex p.store i.documentId) c = false ∧
        chunkRow filters c = chunk := by
  have hn : ((parsed.chunks.filter
      (!unchanged (existingChunksByIndex p.store i.documentId) ·)).map (·.chunkIndex)).Nodup := by
    refine List.Nodup.sublist (List.filter_sublist.map _) ?_
    rw [hindex]
    exact List.nodup_range
  rw [lookupLast_chunkRows hn]
  refine and_congr_right fun _ => exists_congr fun c => ?_
  rw [getElem?_eq_some_iff_index hindex, List.mem_filter, Bool.not_eq_true']
  tauto

/-- Behind the writes, the orphans are the document's rows at indices the file does not have. -/
theorem Indexed.orphan_iff (i : Indexed w filters source file parsed row p q)
    {r : Row (Uuid × Nat) DocumentChunk} (hr : r ∈ (p.store.chunks.upsertAll i.written).rows) :
    r.id ∈ orphanIds (existingChunksByIndex p.store i.documentId)
        (parsed.chunks.map (·.chunkIndex)) ↔
      r.key.1 = i.documentId ∧ r.key.2 ∉ parsed.chunks.map (·.chunkIndex) := by
  have hold : ∀ {c : Row (Uuid × Nat) DocumentChunk},
      c.key.2 ∉ parsed.chunks.map (·.chunkIndex) →
      (c ∈ (p.store.chunks.upsertAll i.written).rows ↔ c ∈ p.store.chunks.rows) := by
    intro c hs
    refine Table.mem_upsertAll_of_not_mem fun hk => hs ?_
    obtain ⟨⟨k, v⟩, hm, rfl⟩ := List.mem_map.mp hk
    obtain ⟨chunk, hchunk, he⟩ := List.mem_map.mp hm
    obtain ⟨hkey, -⟩ := Prod.mk.inj he
    rw [← hkey]
    exact List.mem_map_of_mem (List.mem_of_mem_filter hchunk)
  rw [mem_orphanIds]
  constructor
  · rintro ⟨c, hc, hd, hs, hid⟩
    have hcr : c = r := Table.eq_of_id ((hold hs).mpr hc) hr hid
    subst hcr
    exact ⟨hd, hs⟩
  · intro ⟨hd, hs⟩
    exact ⟨r, (hold hs).mp hr, hd, hs, rfl⟩

/-- A chunk of the file is written, unless its hash is that of the stored row. -/
theorem Indexed.value_written (i : Indexed w filters source file parsed row p q)
    (ho : p.store.Owned)
    (hindex : parsed.chunks.map (·.chunkIndex) = List.range parsed.chunks.length)
    {index : Nat} {c : Chunk} (hc : parsed.chunks[index]? = some c) :
    (lookupLast i.written (i.documentId, index)).or
        (p.store.chunks.value (i.documentId, index)) =
      some (refreshed filters
        ((p.store.view (documentKey source file)).chunks index) c) := by
  have hci := ((getElem?_eq_some_iff_index hindex).mp hc).2
  have hview := value_idFor ho (documentKey source file) index
  cases hu : unchanged (existingChunksByIndex p.store i.documentId) c with
  | true =>
    have hnone : lookupLast i.written (i.documentId, index) = none := by
      refine Option.eq_none_iff_forall_ne_some.mpr fun chunk hl => ?_
      obtain ⟨-, c', hc', hu', -⟩ := (i.lookup_written hindex).mp hl
      rw [hc] at hc'
      cases hc'
      rw [hu] at hu'
      cases hu'
    rw [unchanged_iff, hci, hview, Option.map_eq_some_iff] at hu
    obtain ⟨old, hold, hh⟩ := hu
    rw [hnone, hview, hold]
    simp [refreshed, hh]
  | false =>
    rw [(i.lookup_written hindex).mpr ⟨rfl, c, hc, hu, rfl⟩]
    rw [← Bool.not_eq_true, unchanged_iff, hci, hview] at hu
    cases hold : (p.store.view (documentKey source file)).chunks index with
    | none => rfl
    | some old =>
      have hne : old.contentHash ≠ c.contentHash := by
        intro he
        exact hu (by rw [hold, Option.map_some, he])
      simp [refreshed, hne]

/-- The chunks of other documents stay; the file's document has the refreshed rows of its
chunks, and no others. -/
theorem Indexed.value_chunks (i : Indexed w filters source file parsed row p q)
    (ho : p.store.Owned)
    (hindex : parsed.chunks.map (·.chunkIndex) = List.range parsed.chunks.length)
    (documentId : Uuid) (index : Nat) :
    q.store.chunks.value (documentId, index) =
      if documentId = i.documentId then
        parsed.chunks[index]?.map (refreshed filters
          ((p.store.view (documentKey source file)).chunks index))
      else p.store.chunks.value (documentId, index) := by
  have hq : q.store.chunks = (p.store.chunks.upsertAll i.written).delete
      (·.id ∈ orphanIds (existingChunksByIndex p.store i.documentId)
        (parsed.chunks.map (·.chunkIndex))) := i.chunks
  have hseen : index ∈ parsed.chunks.map (·.chunkIndex) ↔ ∃ c, parsed.chunks[index]? = some c := by
    simp only [List.mem_map, getElem?_eq_some_iff_index hindex]
  rw [hq]
  split
  · rename_i hd
    cases hc : parsed.chunks[index]? with
    | none =>
      refine Table.value_delete_eq_none fun r hr hk => decide_eq_true ((i.orphan_iff hr).mpr ?_)
      rw [hk]
      refine ⟨hd, fun hs => ?_⟩
      obtain ⟨c, hc'⟩ := hseen.mp hs
      rw [hc] at hc'
      cases hc'
    | some c =>
      rw [Table.value_delete fun r hr hk => decide_eq_false fun ho => by
        have := ((i.orphan_iff hr).mp ho).2
        rw [hk] at this
        exact this (hseen.mpr ⟨c, hc⟩), Table.value_upsertAll, Option.map_some]
      rw [hd]
      exact i.value_written ho hindex hc
  · rename_i hd
    rw [Table.value_delete fun r hr hk => decide_eq_false fun ho => by
      have := ((i.orphan_iff hr).mp ho).1
      rw [hk] at this
      exact hd this, Table.value_upsertAll]
    have hnone : lookupLast i.written (documentId, index) = none :=
      Option.eq_none_iff_forall_ne_some.mpr fun chunk hl => hd ((i.lookup_written hindex).mp hl).1
    rw [hnone, Option.none_or]

theorem Indexed.owned (i : Indexed w filters source file parsed row p q) (ho : p.store.Owned) :
    q.store.Owned := by
  intro c hm
  rcases i.mem_chunks hm with hm | ⟨chunk, -, hk, -⟩
  · obtain ⟨d, hd, he⟩ := ho c hm
    obtain ⟨d', hd', he', -⟩ := i.id_mem hd
    exact ⟨d', hd', he'.trans he⟩
  · exact ⟨_, i.mem_documents.mpr (.inl rfl), hk.symm⟩

/-- A chunk behind the file has the id it had before, or a new one. -/
theorem Indexed.chunk_id (i : Indexed w filters source file parsed row p q) {key : Uuid × Nat}
    {c : Row (Uuid × Nat) DocumentChunk} (h : q.store.chunks.find key = some c) :
    (p.store.chunks.find key).map (·.id) = some c.id ∨
      p.store.chunks.find key = none ∧ p.store.chunks.next ≤ c.id := by
  rw [i.chunks, Table.find_delete, Option.filter_eq_some_iff] at h
  exact Table.id_upsertAll h.1

theorem Indexed.next_le (i : Indexed w filters source file parsed row p q) :
    p.store.chunks.next ≤ q.store.chunks.next := by
  rw [i.chunks]
  exact Table.next_le_upsertAll

/-- Indexing puts the file's entry. -/
theorem Indexed.view (i : Indexed w filters source file parsed row p q) (ho : p.store.Owned)
    (hindex : parsed.chunks.map (·.chunkIndex) = List.range parsed.chunks.length) :
    q.store.view = Function.update p.store.view (documentKey source file)
      ((p.store.view (documentKey source file)).put filters row parsed.chunks) := by
  refine funext fun key => ?_
  by_cases hk : key = documentKey source file
  · subst hk
    have hf : q.store.documents.find (documentKey source file) =
        some ⟨i.documentId, documentKey source file, row⟩ := by
      rw [i.documents]
      exact Table.find_upsert_self
    rw [Function.update_self]
    refine Entry.ext ?_ (funext fun index => ?_)
    · simp [Store.view, Table.value, hf, Entry.put]
    · rw [view_chunk_of_find hf, i.value_chunks ho hindex, if_pos rfl]
      rfl
  · have hf : q.store.documents.find key = p.store.documents.find key := by
      rw [i.documents]
      exact Table.find_upsert_of_ne hk
    rw [Function.update_of_ne hk]
    refine Entry.ext ?_ (funext fun index => ?_)
    · simp [Store.view, Table.value, hf]
    cases hd : p.store.documents.find key with
    | none =>
      rw [hd] at hf
      simp [Store.view, hd, hf]
    | some d =>
      rw [hd] at hf
      rw [view_chunk_of_find hf, view_chunk_of_find hd, i.value_chunks ho hindex, if_neg]
      -- the two documents have two ids
      intro he
      obtain ⟨hm, hkey⟩ := Table.find_eq_some.mp hd
      cases hfile : p.store.documents.find (documentKey source file) with
      | none => exact Table.ne_idFor hfile hm he
      | some d' =>
        obtain ⟨hm', hkey'⟩ := Table.find_eq_some.mp hfile
        have hid : d.id = d'.id := he.trans (Table.idFor_of_find hfile)
        refine hk ?_
        rw [← hkey, ← hkey', Table.eq_of_id hm hm' hid]

theorem processFile_owned (ho : p.store.Owned)
    (h : processFile w filters source p file = .ok q) : q.store.Owned := by
  rcases processFile_ok h with ⟨-, he⟩ | ⟨parsed, -, h⟩
  · rw [he]
    exact ho
  · obtain ⟨row, i⟩ := indexFile_ok h
    exact i.owned ho

/-- **Refinement.** What processing a file does to a store is what the model does to its
knowledge base. -/
theorem processFile_view (ho : p.store.Owned)
    (h : processFile w filters source p file = .ok q) :
    q.store.view = p.store.view.process w filters source file := by
  unfold KnowledgeBase.process Entry.process
  rcases processFile_ok h with ⟨hnone, he⟩ | ⟨parsed, hi, h⟩
  · have : indexedAs w source file = none := by simp [indexedAs, hnone]
    rw [this, he, Function.update_eq_self]
  · obtain ⟨row, i⟩ := indexFile_ok h
    obtain ⟨text, -, hparse, -⟩ := indexable_ok hi
    rw [indexedAs_eq_some.mpr ⟨hi, i.row_eq⟩]
    exact i.view ho (parseDocument_index hparse)

end

/-! ## When a file is processed -/

/-- What the database asks of a parsed file with this entry. -/
structure Entry.AcceptsDocument (w : Worker) (filters : ContentFilters) (source : Source)
    (e : Entry) (file : FetchedFile) (parsed : ParsedDocument) : Prop where
  row : ∃ row, documentRow w source file parsed = .ok row
  repo : '\x00' ∉ repoLabel source
  path : '\x00' ∉ file.path
  chunks : ∀ c ∈ parsed.chunks,
    (e.chunks c.chunkIndex).map (·.contentHash) ≠ some c.contentHash →
      (chunkRow filters c).storable = true

/-- The file cannot be decoded, has too large a frontmatter or no chunk, or parses into columns
the database takes. -/
def Entry.Accepts (w : Worker) (filters : ContentFilters) (source : Source) (e : Entry)
    (file : FetchedFile) : Prop :=
  match w.decodeUtf8 file.content with
  | .error _ => True
  | .ok text =>
    match parseDocument w text defaultMaxTokens with
    | .error (.frontmatterTooLarge _) => True
    | .error _ => False
    | .ok parsed => parsed.chunks = [] ∨ e.AcceptsDocument w filters source file parsed

section
variable {w : Worker} {filters : ContentFilters} {source : Source} {file : FetchedFile}
  {p : Progress}

theorem writeChunks_ok_iff {documentId : Uuid} {existing : List (Nat × Uuid × Str)} :
    ∀ {chunks : List Chunk} {p : Progress},
      (∃ q, writeChunks filters documentId existing p chunks = .ok q) ↔
        ∀ c ∈ chunks, unchanged existing c = false → (chunkRow filters c).storable = true
  | [], p => by simp [writeChunks]
  | chunk :: chunks, p => by
    rw [List.forall_mem_cons]
    unfold writeChunks
    by_cases hu : unchanged existing chunk = true
    · rw [if_pos hu, writeChunks_ok_iff]
      simp [hu]
    · rw [if_neg hu, Bool.not_eq_true] at *
      by_cases hs : (chunkRow filters chunk).storable = true
      · simp only [upsertChunk, hs, Bool.true_eq_false, if_false, pure_bind, implies_true,
          true_and]
        exact writeChunks_ok_iff
      · simp [upsertChunk, hs, hu, Py.bind_ok]

theorem upsertDocument_ok_iff {st : Store} {repo path : Str} {doc : Document}
    {out : Store × Uuid} : upsertDocument st repo path doc = .ok out ↔
      '\x00' ∉ repo ∧ '\x00' ∉ path ∧
        out = ({ st with documents := st.documents.upsert (repo, path) doc },
          st.documents.idFor (repo, path)) := by
  unfold upsertDocument
  simp only [Py.bind_ok, Py.pure_ok, requiredTextColumn_str]
  constructor
  · rintro ⟨_, ⟨hr, rfl⟩, _, ⟨hp, rfl⟩, rfl⟩
    exact ⟨hr, hp, rfl⟩
  · rintro ⟨hr, hp, rfl⟩
    exact ⟨_, ⟨hr, rfl⟩, _, ⟨hp, rfl⟩, rfl⟩

theorem indexFile_ok_iff (ho : p.store.Owned) {parsed : ParsedDocument} :
    (∃ q, indexFile w filters source p file parsed = .ok q) ↔
      (p.store.view (documentKey source file)).AcceptsDocument w filters source file parsed := by
  have hchunk : ∀ c : Chunk,
      unchanged (existingChunksByIndex p.store
        (p.store.documents.idFor (documentKey source file))) c = false ↔
      ((p.store.view (documentKey source file)).chunks c.chunkIndex).map (·.contentHash) ≠
        some c.contentHash := by
    intro c
    rw [← Bool.not_eq_true, unchanged_iff, value_idFor ho]
  unfold indexFile
  constructor
  · rintro ⟨q, h⟩
    obtain ⟨row, hrow, h⟩ := Py.bind_ok.mp h
    obtain ⟨_, hdoc, h⟩ := Py.bind_ok.mp h
    obtain ⟨hr, hp, rfl⟩ := upsertDocument_ok_iff.mp hdoc
    obtain ⟨q', hw, -⟩ := Py.bind_ok.mp h
    refine ⟨⟨row, hrow⟩, hr, hp, fun c hc hu => ?_⟩
    exact writeChunks_ok_iff.mp ⟨q', hw⟩ c hc ((hchunk c).mpr hu)
  · intro a
    obtain ⟨row, hrow⟩ := a.row
    have hdoc : upsertDocument p.store (repoLabel source) file.path row = .ok _ :=
      upsertDocument_ok_iff.mpr ⟨a.repo, a.path, rfl⟩
    obtain ⟨q, hw⟩ := writeChunks_ok_iff.mpr fun c hc hu => a.chunks c hc ((hchunk c).mp hu)
    exact ⟨_, Py.bind_ok.mpr ⟨row, hrow, Py.bind_ok.mpr ⟨_, hdoc, Py.bind_ok.mpr ⟨q, hw, rfl⟩⟩⟩⟩

/-- **Acceptance.** Processing a file returns exactly when the file is accepted. -/
theorem processFile_ok_iff (ho : p.store.Owned) :
    (∃ q, processFile w filters source p file = .ok q) ↔
      (p.store.view (documentKey source file)).Accepts w filters source file := by
  unfold processFile Entry.Accepts
  cases w.decodeUtf8 file.content with
  | error exc => simp
  | ok text =>
    simp only
    cases parseDocument w text defaultMaxTokens with
    | error exc => cases exc <;> simp
    | ok parsed =>
      simp only
      by_cases hc : parsed.chunks = []
      · simp [hc]
      · rw [if_neg hc, indexFile_ok_iff ho]
        simp [hc]

end

end KnowledgeKiln.L1.FileProcessing
