import KnowledgeKiln.L1Ingest.EmbedPass
import KnowledgeKiln.L1Ingest.Pipeline

/-!
# What the embedding pass gathers, from the files of the run

`toEmbed` reads the store the file loop leaves. Here the same chunks come from the
knowledge base before the loop, the hashes of its embeddings, and the files: `pending`
runs over the documents the files touch, in the order in which their set is iterated, and keeps the
chunks whose hash is not the one embedded under their index.

* `pending_eq`: behind the file loop, `toEmbed` holds the rows of `pending`.
-/
namespace KnowledgeKiln.L1.Embedding

open KnowledgeKiln.Core KnowledgeKiln.L1.Chunking KnowledgeKiln.L1.FileProcessing

/-! ## The abstract side -/

/-- By document key and chunk index, the content hash that is embedded. -/
abbrev EmbeddingHashes := Str × Str → Nat → Option Str

/-- The number of chunks of a file that gets indexed. -/
def chunkCount (w : Worker) (source : Source) (file : FetchedFile) : Option Nat :=
  (indexedAs w source file).map fun p => p.1.chunks.length

/-- A chunk keeps its embedding as long as its index stays. -/
def EmbeddingHashes.process (w : Worker) (source : Source) (hashes : EmbeddingHashes)
    (file : FetchedFile) : EmbeddingHashes :=
  match chunkCount w source file with
  | none => hashes
  | some n => Function.update hashes (documentKey source file) fun index =>
      if index < n then hashes (documentKey source file) index else none

/-- The keys of the documents that have been touched. -/
def touch (w : Worker) (source : Source) (keys : List (Str × Str)) (file : FetchedFile) :
    List (Str × Str) :=
  if (chunkCount w source file).isSome then keys.insert (documentKey source file) else keys

/-- No file of the list has more chunks. -/
def chunkBound (w : Worker) (source : Source) (files : List FetchedFile) : Nat :=
  (files.map fun file => (chunkCount w source file).getD 0).sum

/-- The chunks the pass has to embed after the files have been processed. -/
def pending (w : Worker) (filters : ContentFilters) (source : Source) (order : SetOrder)
    (kb : KnowledgeBase) (hashes : EmbeddingHashes) (files : List FetchedFile) :
    List DocumentChunk :=
  let kb := kb.processAll w filters source files
  let hashes := files.foldl (EmbeddingHashes.process w source) hashes
  (order.visit (files.foldl (touch w source) [])).flatMap fun key =>
    (List.range (chunkBound w source files)).filterMap fun index =>
      ((kb key).chunks index).filter fun c => hashes key index ≠ some c.contentHash

/-- The hashes of the embeddings in a table of the chunks in a store. -/
def hashesOf (embeddings : Table Uuid ChunkEmbedding) (st : Store) : EmbeddingHashes :=
  fun key index => (st.documents.find key).bind fun d =>
    (st.chunks.find (d.id, index)).bind fun c => (embeddings.value c.id).map (·.contentHash)

/-! ## The file loop and the embeddings -/

section
variable {w : Worker} {filters : ContentFilters} {source : Source} {file : FetchedFile}
  {parsed : ParsedDocument} {row : Document} {p q : Progress}

theorem chunkCount_of_indexed (hi : indexable w file = some parsed)
    (i : Indexed w filters source file parsed row p q) :
    chunkCount w source file = some parsed.chunks.length := by
  rw [chunkCount, indexedAs_eq_some.mpr ⟨hi, i.row_eq⟩]
  rfl

/-- Documents of two keys have two ids. -/
theorem ne_idFor_of_find {st : Store} {key key' : Str × Str} {d : Row (Str × Str) Document}
    (h : st.documents.find key = some d) (hk : key ≠ key') : d.id ≠ st.documents.idFor key' := by
  intro he
  obtain ⟨hd, hkey⟩ := Table.find_eq_some.mp h
  cases h' : st.documents.find key' with
  | none => exact Table.ne_idFor h' hd he
  | some d' =>
    obtain ⟨hd', hkey'⟩ := Table.find_eq_some.mp h'
    rw [Table.idFor_of_find h'] at he
    exact hk (by rw [← hkey, ← hkey', Table.eq_of_id hd hd' he])

/-- Under the id of a new document there is no chunk. -/
theorem find_idFor_none {st : Store} (ho : st.Owned) {key : Str × Str}
    (h : st.documents.find key = none) (index : Nat) :
    st.chunks.find (st.documents.idFor key, index) = none := by
  refine Table.find_eq_none.mpr fun c hc he => ?_
  obtain ⟨d, hd, hid⟩ := ho c hc
  refine Table.ne_idFor h hd ?_
  rw [hid, he]

variable {embeddings : Table Uuid ChunkEmbedding}

/-- The hash under the document's id, whether or not the document is stored. -/
theorem hashesOf_idFor {st : Store} (ho : st.Owned) (key : Str × Str) (index : Nat) :
    hashesOf embeddings st key index =
      (st.chunks.find (st.documents.idFor key, index)).bind fun c =>
        (embeddings.value c.id).map (·.contentHash) := by
  unfold hashesOf
  cases h : st.documents.find key with
  | none => rw [find_idFor_none ho h]; rfl
  | some d => rw [Table.idFor_of_find h]; rfl

theorem indexed_hashes (i : Indexed w filters source file parsed row p q) (ho : p.store.Owned)
    (hindex : parsed.chunks.map (·.chunkIndex) = List.range parsed.chunks.length)
    (hlt : ∀ e ∈ embeddings.rows, e.key < p.store.chunks.next) (index : Nat) :
    hashesOf embeddings q.store (documentKey source file) index =
      if index < parsed.chunks.length then
        hashesOf embeddings p.store (documentKey source file) index
      else none := by
  have hid : q.store.documents.idFor (documentKey source file) = i.documentId := by
    rw [i.documents]
    exact Table.idFor_of_find Table.find_upsert_self
  have hval := i.value_chunks ho hindex i.documentId index
  rw [if_pos rfl] at hval
  rw [hashesOf_idFor (i.owned ho), hashesOf_idFor ho, hid]
  by_cases hl : index < parsed.chunks.length
  · rw [if_pos hl]
    cases hq : q.store.chunks.find (i.documentId, index) with
    | none =>
      rw [Table.value, hq, List.getElem?_eq_getElem hl] at hval
      cases hval
    | some c =>
      obtain hold | ⟨hnone, hnew⟩ := i.chunk_id hq
      · obtain ⟨c', hc', he⟩ := Option.map_eq_some_iff.mp hold
        rw [hc', Option.bind_some, Option.bind_some, he]
      · -- a new chunk has no embedding
        rw [hnone, Option.bind_some, Option.bind_none]
        rw [Option.map_eq_none_iff, Table.value, Option.map_eq_none_iff, Table.find_eq_none]
        intro e he hk
        exact absurd (hlt e he) (Nat.not_lt.mpr (hnew.trans (Nat.le_of_eq hk.symm)))
  · rw [if_neg hl]
    rw [List.getElem?_eq_none (by omega), Option.map_none, Table.value,
      Option.map_eq_none_iff] at hval
    rw [hval]
    rfl

theorem indexed_hashes_of_ne (i : Indexed w filters source file parsed row p q)
    (ho : p.store.Owned)
    (hindex : parsed.chunks.map (·.chunkIndex) = List.range parsed.chunks.length)
    {key : Str × Str} (hk : key ≠ documentKey source file) :
    hashesOf embeddings q.store key = hashesOf embeddings p.store key := by
  have hf : q.store.documents.find key = p.store.documents.find key := by
    rw [i.documents]
    exact Table.find_upsert_of_ne hk
  refine funext fun index => ?_
  unfold hashesOf
  rw [hf]
  cases hd : p.store.documents.find key with
  | none => rfl
  | some d =>
    have hval := i.value_chunks ho hindex d.id index
    rw [if_neg (ne_idFor_of_find hd hk)] at hval
    rw [Option.bind_some, Option.bind_some]
    cases hq : q.store.chunks.find (d.id, index) with
    | none =>
      rw [Table.value, hq, Option.map_none, eq_comm, Table.value, Option.map_eq_none_iff] at hval
      rw [hval]
    | some c =>
      obtain hold | ⟨hnone, -⟩ := i.chunk_id hq
      · obtain ⟨c', hc', he⟩ := Option.map_eq_some_iff.mp hold
        rw [hc', Option.bind_some, Option.bind_some, he]
      · rw [Table.value, hq, Table.value, hnone] at hval
        cases hval

/-- What a file does to the hashes. -/
theorem processFile_hashes (ho : p.store.Owned)
    (hlt : ∀ e ∈ embeddings.rows, e.key < p.store.chunks.next)
    (h : processFile w filters source p file = .ok q) :
    hashesOf embeddings q.store =
        EmbeddingHashes.process w source (hashesOf embeddings p.store) file ∧
      ∀ e ∈ embeddings.rows, e.key < q.store.chunks.next := by
  unfold EmbeddingHashes.process
  rcases processFile_ok h with ⟨hnone, he⟩ | ⟨parsed, hi, h⟩
  · have hc : chunkCount w source file = none := by simp [chunkCount, indexedAs, hnone]
    rw [hc, he]
    exact ⟨rfl, hlt⟩
  · obtain ⟨row, i⟩ := indexFile_ok h
    obtain ⟨text, -, hparse, -⟩ := indexable_ok hi
    have hindex := parseDocument_index hparse
    rw [chunkCount_of_indexed hi i]
    refine ⟨funext fun key => ?_, fun e he => (hlt e he).trans_le i.next_le⟩
    dsimp only
    by_cases hk : key = documentKey source file
    · subst hk
      rw [Function.update_self]
      exact funext fun index => indexed_hashes i ho hindex hlt index
    · rw [Function.update_of_ne hk]
      exact indexed_hashes_of_ne i ho hindex hk

theorem processFiles_hashes : ∀ {files : List FetchedFile} {p q : Progress}, p.store.Owned →
    (∀ e ∈ embeddings.rows, e.key < p.store.chunks.next) →
    processFiles w filters source p files = .ok q →
    hashesOf embeddings q.store =
      files.foldl (EmbeddingHashes.process w source) (hashesOf embeddings p.store)
  | [], p, q, _, _, h => by
    cases h
    rfl
  | file :: files, p, q, ho, hlt, h => by
    obtain ⟨p', hp, h⟩ := Py.bind_ok.mp h
    obtain ⟨hhash, hlt⟩ := processFile_hashes ho hlt hp
    rw [processFiles_hashes (processFile_owned ho hp) hlt h, hhash]
    rfl

/-! ## The touched documents -/

theorem writeChunks_touched {documentId : Uuid} {existing : List (Nat × Uuid × Str)} :
    ∀ {chunks : List Chunk} {p q : Progress},
      writeChunks filters documentId existing p chunks = .ok q →
        q.touchedDocIds = p.touchedDocIds
  | [], p, q, h => by
    cases h
    rfl
  | chunk :: chunks, p, q, h => by
    unfold writeChunks at h
    split at h
    · have ih := writeChunks_touched h
      exact ih
    · obtain ⟨p', hp, h⟩ := Py.bind_ok.mp h
      unfold upsertChunk at hp
      dsimp only at hp
      split at hp
      · simp at hp
      · cases hp
        have ih := writeChunks_touched h
        exact ih

theorem indexFile_touched (h : indexFile w filters source p file parsed = .ok q) :
    q.touchedDocIds =
      p.touchedDocIds.insert (p.store.documents.idFor (documentKey source file)) := by
  unfold indexFile at h
  obtain ⟨row, -, h⟩ := Py.bind_ok.mp h
  obtain ⟨_, hdoc, h⟩ := Py.bind_ok.mp h
  obtain ⟨-, -, rfl⟩ := upsertDocument_ok_iff.mp hdoc
  obtain ⟨p', hw, h⟩ := Py.bind_ok.mp h
  rw [Py.pure_ok] at h
  subst h
  exact writeChunks_touched hw

/-- The touched ids are those of the stored documents under these keys. -/
def Touched (p : Progress) (keys : List (Str × Str)) : Prop :=
  p.touchedDocIds = keys.map p.store.documents.idFor ∧
    ∀ key ∈ keys, ∃ d, p.store.documents.find key = some d

theorem idFor_upsert {t : Table (Str × Str) Document} {key key' : Str × Str} {row : Document} :
    (∃ d, t.find key = some d) ∨ key = key' → (t.upsert key' row).idFor key = t.idFor key := by
  intro h
  by_cases hk : key = key'
  · subst hk
    exact Table.idFor_of_find Table.find_upsert_self
  · obtain ⟨d, hd⟩ := h.resolve_right hk
    rw [Table.idFor_of_find hd, Table.idFor_of_find ((Table.find_upsert_of_ne hk).trans hd)]

theorem Touched.insert {keys : List (Str × Str)} {key : Str × Str} {row : Document}
    (ht : Touched p keys) (hd : q.store.documents = p.store.documents.upsert key row)
    (hq : q.touchedDocIds = p.touchedDocIds.insert (p.store.documents.idFor key)) :
    Touched q (keys.insert key) := by
  obtain ⟨hids, hfound⟩ := ht
  have hmap : keys.map q.store.documents.idFor = keys.map p.store.documents.idFor := by
    rw [hd]
    exact List.map_congr_left fun k hk => idFor_upsert (.inl (hfound k hk))
  have hmem : p.store.documents.idFor key ∈ p.touchedDocIds ↔ key ∈ keys := by
    rw [hids]
    refine ⟨fun h => ?_, fun h => List.mem_map_of_mem h⟩
    obtain ⟨k, hk, he⟩ := List.mem_map.mp h
    obtain ⟨d, hf⟩ := hfound k hk
    by_contra hne
    rw [Table.idFor_of_find hf] at he
    refine ne_idFor_of_find hf (fun e => hne ?_) he
    rwa [← e]
  refine ⟨?_, fun k hk => ?_⟩
  · rw [hq]
    by_cases hk : key ∈ keys
    · rw [List.insert_of_mem (hmem.mpr hk), List.insert_of_mem hk, hmap, hids]
    · rw [List.insert_of_not_mem (mt hmem.mp hk), List.insert_of_not_mem hk, List.map_cons, hmap,
        hids, hd, idFor_upsert (.inr rfl)]
  · rw [hd]
    by_cases he : k = key
    · subst he
      exact ⟨_, Table.find_upsert_self⟩
    · rw [Table.find_upsert_of_ne he]
      exact hfound k ((List.mem_insert_iff.mp hk).resolve_left he)

theorem processFile_skipped (hi : indexable w file = none)
    (h : processFile w filters source p file = .ok q) :
    q.touchedDocIds = p.touchedDocIds ∧ q.summary.chunksCreated = p.summary.chunksCreated ∧
      q.summary.chunksUnchanged = p.summary.chunksUnchanged := by
  unfold indexable at hi
  unfold processFile at h
  cases hd : w.decodeUtf8 file.content with
  | error exc =>
    rw [hd] at h
    cases h
    exact ⟨rfl, rfl, rfl⟩
  | ok text =>
    simp only [hd] at h hi
    cases hp : parseDocument w text defaultMaxTokens with
    | error exc =>
      rw [hp] at h
      cases exc <;> cases h
      exact ⟨rfl, rfl, rfl⟩
    | ok parsed =>
      simp only [hp] at h hi
      by_cases hc : parsed.chunks = []
      · rw [if_pos hc] at h
        cases h
        exact ⟨rfl, rfl, rfl⟩
      · rw [if_neg hc] at hi
        cases hi

theorem processFile_touched {keys : List (Str × Str)} (ht : Touched p keys)
    (h : processFile w filters source p file = .ok q) :
    Touched q (touch w source keys file) := by
  unfold touch
  rcases processFile_ok h with ⟨hnone, he⟩ | ⟨parsed, hi, hindex⟩
  · have hc : chunkCount w source file = none := by simp [chunkCount, indexedAs, hnone]
    rw [hc]
    unfold Touched
    rw [(processFile_skipped hnone h).1, he]
    exact ht
  · obtain ⟨row, i⟩ := indexFile_ok hindex
    rw [chunkCount_of_indexed hi i]
    exact ht.insert i.documents (indexFile_touched hindex)

theorem processFiles_touched : ∀ {files : List FetchedFile} {p q : Progress}
    {keys : List (Str × Str)}, Touched p keys → processFiles w filters source p files = .ok q →
    Touched q (files.foldl (touch w source) keys)
  | [], p, q, keys, ht, h => by
    cases h
    exact ht
  | file :: files, p, q, keys, ht, h => by
    obtain ⟨p', hp, h⟩ := Py.bind_ok.mp h
    change Touched q (files.foldl (touch w source) (touch w source keys file))
    exact processFiles_touched (processFile_touched ht hp) h

/-! ## The chunks of a document, in order -/

theorem chunksForDocument_sorted {st : Store} {documentId : Uuid} :
    (chunksForDocument st documentId).Pairwise fun a b => a.key.2 < b.key.2 := by
  have hle : (chunksForDocument st documentId).Pairwise fun a b => a.key.2 ≤ b.key.2 := by
    have : Std.Total fun a b : ChunkOf => a.key.2 ≤ b.key.2 := ⟨fun a b => Nat.le_total _ _⟩
    have : IsTrans ChunkOf fun a b => a.key.2 ≤ b.key.2 := ⟨fun _ _ _ => Nat.le_trans⟩
    exact List.pairwise_insertionSort _ _
  have hne : (chunksForDocument st documentId).Pairwise fun a b => a.key ≠ b.key := by
    have hperm := (List.perm_insertionSort (fun a b : ChunkOf => a.key.2 ≤ b.key.2)
      (st.chunks.rows.filter fun c => c.key.1 = documentId)).map (·.key)
    have hn := hperm.nodup_iff.mpr (st.chunks.keys_nodup.sublist (List.filter_sublist.map _))
    exact List.pairwise_map.mp hn
  refine (hle.and hne).imp_of_mem fun {a b} ha hb ⟨hab, hk⟩ => ?_
  refine Nat.lt_of_le_of_ne hab fun he => hk (Prod.ext ?_ he)
  rw [(mem_chunksForDocument.mp ha).2, (mem_chunksForDocument.mp hb).2]

/-- The rows of a document by index, below a bound on the indices. -/
theorem chunksForDocument_eq {st : Store} {documentId : Uuid} {n : Nat}
    (hn : ∀ c ∈ st.chunks.rows, c.key.1 = documentId → c.key.2 < n) :
    chunksForDocument st documentId =
      (List.range n).filterMap fun index => st.chunks.find (documentId, index) := by
  have hsorted : ((List.range n).filterMap fun index =>
      st.chunks.find (documentId, index)).Pairwise fun a b => a.key.2 < b.key.2 := by
    refine List.pairwise_filterMap.mpr (List.pairwise_lt_range.imp fun {i j} hij a ha b hb => ?_)
    rw [(Table.mem_of_find ha).2, (Table.mem_of_find hb).2]
    exact hij
  have : Std.Irrefl fun a b : ChunkOf => a.key.2 < b.key.2 := ⟨fun _ => Nat.lt_irrefl _⟩
  have : Std.Antisymm fun a b : ChunkOf => a.key.2 < b.key.2 :=
    ⟨fun _ _ h h' => absurd h' (Nat.lt_asymm h)⟩
  refine chunksForDocument_sorted.eq_of_mem_iff hsorted fun c => ?_
  simp only [mem_chunksForDocument, List.mem_filterMap, List.mem_range, Table.find_eq_some]
  constructor
  · intro ⟨hc, hd⟩
    exact ⟨c.key.2, hn c hc hd, hc, Prod.ext hd rfl⟩
  · intro ⟨index, _, hc, hk⟩
    exact ⟨hc, by rw [hk]⟩

/-- Below `n` chunks in each of these documents. -/
def Below (kb : KnowledgeBase) (keys : List (Str × Str)) (n : Nat) : Prop :=
  ∀ key ∈ keys, ∀ index c, (kb key).chunks index = some c → index < n

theorem process_below {kb : KnowledgeBase} {keys : List (Str × Str)} {n : Nat}
    (hb : Below kb keys n) (hn : ∀ m, chunkCount w source file = some m → m ≤ n) :
    Below (kb.process w filters source file) (touch w source keys file) n := by
  intro key hkey index c hc
  unfold touch at hkey
  by_cases hk : key = documentKey source file
  · subst hk
    rw [process_self] at hc
    unfold Entry.process at hc
    unfold chunkCount at hkey hn
    cases hi : indexedAs w source file with
    | none =>
      simp only [hi, Option.map_none, Option.isSome_none, Bool.false_eq_true, if_false] at hkey hc
      exact hb _ hkey index c hc
    | some out =>
      simp only [hi] at hc hn
      have hlen := hn _ rfl
      obtain ⟨chunk, hchunk, -⟩ := Option.map_eq_some_iff.mp hc
      exact (List.getElem?_eq_some_iff.mp hchunk).1.trans_le hlen
  · rw [process_of_ne kb hk] at hc
    refine hb key ?_ index c hc
    split at hkey
    · exact (List.mem_insert_iff.mp hkey).resolve_left hk
    · exact hkey

theorem processAll_below : ∀ {files : List FetchedFile} {kb : KnowledgeBase}
    {keys : List (Str × Str)} {n : Nat}, Below kb keys n →
    (∀ f ∈ files, ∀ m, chunkCount w source f = some m → m ≤ n) →
    Below (kb.processAll w filters source files) (files.foldl (touch w source) keys) n
  | [], _, _, _, hb, _ => hb
  | file :: files, kb, keys, n, hb, hn => by
    obtain ⟨hf, hfiles⟩ := List.forall_mem_cons.mp hn
    have hprocessed : Below (kb.process w filters source file) (touch w source keys file) n :=
      process_below hb hf
    have ih := processAll_below hprocessed hfiles
    exact ih

theorem chunkCount_le {files : List FetchedFile} (hf : file ∈ files) {m : Nat}
    (hm : chunkCount w source file = some m) : m ≤ chunkBound w source files := by
  have := List.single_le_sum (l := files.map fun f => (chunkCount w source f).getD 0)
    (fun _ _ => Nat.zero_le _) _ (List.mem_map_of_mem hf)
  rwa [hm] at this

/-- The chunks of a document that are gathered. -/
theorem gathered_document {db : Db} (ho : db.store.Owned) {key : Str × Str} {n : Nat}
    (hn : ∀ index c, (db.store.view key).chunks index = some c → index < n) :
    ((chunksForDocument db.store (db.store.documents.idFor key)).filter
        (needsEmbed (existingHashesForDocument db (db.store.documents.idFor key)))).map (·.value) =
      (List.range n).filterMap fun index => ((db.store.view key).chunks index).filter fun c =>
        hashesOf db.embeddings db.store key index ≠ some c.contentHash := by
  rw [chunksForDocument_eq (n := n), List.filter_filterMap, List.map_filterMap]
  · refine List.filterMap_congr fun index _ => ?_
    rw [hashesOf_idFor ho, ← value_idFor ho, Table.value]
    cases hf : db.store.chunks.find (db.store.documents.idFor key, index) with
    | none => rfl
    | some c =>
      obtain ⟨hc, hk⟩ := Table.find_eq_some.mp hf
      have hneed := needsEmbed_iff hc (congrArg Prod.fst hk)
      unfold Embedded at hneed
      by_cases he : (db.embeddings.value c.id).map (·.contentHash) = some c.value.contentHash
      · have hn := Bool.eq_false_iff.mpr (mt hneed.mp (not_not.mpr he))
        simp [Option.filter, hn, he]
      · simp [Option.filter, hneed.mpr he, he]
  · intro c hc hd
    refine hn c.key.2 c.value ?_
    rw [← value_idFor ho, ← hd]
    exact Table.value_eq_some.mpr ⟨c, hc, rfl, rfl⟩

/-- The foreign keys of `document_chunks` and `chunk_embeddings` hold. -/
structure Db.Owned (db : Db) : Prop where
  chunks : db.store.Owned
  embeddings : ∀ e ∈ db.embeddings.rows, ∃ c ∈ db.store.chunks.rows, c.id = e.key

theorem Db.Owned.lt_next {db : Db} (h : db.Owned) :
    ∀ e ∈ db.embeddings.rows, e.key < db.store.chunks.next := by
  intro e he
  obtain ⟨c, hc, hid⟩ := h.embeddings e he
  rw [← hid]
  exact db.store.chunks.id_lt c hc

theorem withStore_owned {db : Db} {st : Store} (ho : st.Owned) :
    (Pipeline.Db.withStore db st).Owned where
  chunks := ho
  embeddings := by
    intro e he
    have hkept := (Table.mem_delete.mp he).2
    rw [Bool.not_eq_false', List.any_eq_true] at hkept
    obtain ⟨c, hc, hid⟩ := hkept
    exact ⟨c, hc, of_decide_eq_true hid⟩

/-- The cascade takes no embedding of a chunk that is still stored. -/
theorem withStore_value {db : Db} {st : Store} {c : ChunkOf} (hc : c ∈ st.chunks.rows) :
    (Pipeline.Db.withStore db st).embeddings.value c.id = db.embeddings.value c.id := by
  refine Table.value_delete fun e _ he => ?_
  rw [Bool.not_eq_false', List.any_eq_true]
  exact ⟨c, hc, by simp [he]⟩

theorem withStore_hashes {db : Db} {st : Store} :
    hashesOf (Pipeline.Db.withStore db st).embeddings (Pipeline.Db.withStore db st).store =
      hashesOf db.embeddings st := by
  refine funext fun key => funext fun index => Option.bind_congr fun d _ =>
    Option.bind_congr fun c hc => ?_
  have hmem : c ∈ st.chunks.rows := (Table.mem_of_find hc).1
  rw [withStore_value hmem]

/-- **The gathered chunks.** Behind the file loop, on a database that keeps the foreign keys of
chunks and embeddings, the pass gathers the pending chunks of the files. -/
theorem pending_eq {db : Db} {summary : Summary} {files : List FetchedFile} (order : SetOrder)
    (ho : db.Owned)
    (h : processFiles w filters source { store := db.store, summary := summary } files = .ok q) :
    (toEmbed (Pipeline.Db.withStore db q.store) (order.visit q.touchedDocIds)).map (·.value) =
      pending w filters source order db.store.view (hashesOf db.embeddings db.store) files := by
  have htouched : Touched q (files.foldl (touch w source) []) :=
    processFiles_touched ⟨rfl, by simp⟩ h
  have howned : q.store.Owned := processFiles_owned ho.chunks h
  have hview : q.store.view = _ := processFiles_view ho.chunks h
  have hhashes : hashesOf db.embeddings q.store = _ := processFiles_hashes ho.chunks ho.lt_next h
  have hbelow : Below q.store.view (files.foldl (touch w source) []) (chunkBound w source files) := by
    rw [hview]
    exact processAll_below (by simp [Below]) fun f hf m hm => chunkCount_le hf hm
  unfold toEmbed pending
  rw [htouched.1, SetOrder.visit_map, List.map_flatMap, List.flatMap_map]
  refine List.flatMap_congr fun key hkey => ?_
  rw [SetOrder.mem_visit] at hkey
  have howned' : (Pipeline.Db.withStore db q.store).store.Owned := howned
  refine (gathered_document howned' (hbelow key hkey)).trans ?_
  rw [withStore_hashes, hhashes, show (Pipeline.Db.withStore db q.store).store.view = _ from hview]

end

end KnowledgeKiln.L1.Embedding
