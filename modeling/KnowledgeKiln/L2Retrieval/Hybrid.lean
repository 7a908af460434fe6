import KnowledgeKiln.L1Ingest.FileProcessing
import KnowledgeKiln.L2Retrieval.EngineHelpers

/-!
# Search rows of the stored chunks (db/repositories/_hybrid.py)

The final SELECT joins chunks with their documents. Which chunks it returns,
in which order and with which score is left open: `DrawnFrom` only says that
every row is the join of a stored chunk with its document.

* `chunkText_drawn`, `documentRefs_drawn`: what the serializer reads for a candidate is
  what the store holds for its chunk.
-/
namespace KnowledgeKiln.L2.Hybrid

open KnowledgeKiln.Core KnowledgeKiln.L1.FileProcessing KnowledgeKiln.L2.Engine

abbrev StoredChunk := Row (Uuid × Nat) DocumentChunk

abbrev StoredDocument := Row (Str × Str) Document

/-- `JOIN documents ON documents.id = document_chunks.document_id` -/
structure Joined (st : Store) (c : StoredChunk) (d : StoredDocument) : Prop where
  chunk : c ∈ st.chunks.rows
  document : d ∈ st.documents.rows
  id_eq : d.id = c.key.1

/-- Mirrors `_select_search_row_columns` and `row_to_search_row` (_hybrid.py). -/
def searchRow (st : Store) (score : ℚ) (c : StoredChunk) (d : StoredDocument) : SearchRow where
  chunkId := c.id
  documentId := d.id
  content := c.value.content
  headingPath := c.value.headingPath
  chunkMetadata := c.value.metadata
  status := d.value.status
  authority := d.value.authority
  owner := d.value.owner
  lastReviewed := d.value.lastReviewed
  commitSha := d.value.commitSha
  repo := d.key.1
  path := d.key.2
  title := d.value.title
  sourceUrl := d.value.sourceUrl
  score := score
  hasPromptInjection := c.value.metadata.hasPromptInjection
  hasSensitiveContent := c.value.metadata.hasSensitiveContent
  chunkIndex := c.key.2
  chunkCount := st.chunks.rows.countP (·.key.1 = d.id)

/-- Every row is a stored chunk with its document, under some score. -/
def DrawnFrom (st : Store) (rows : List SearchRow) : Prop :=
  ∀ r ∈ rows, ∃ c d, Joined st c d ∧ r = searchRow st r.score c d

/-- Every stored chunk with its document, under one score. -/
def allRows (st : Store) (score : ℚ) : List SearchRow :=
  st.chunks.rows.flatMap fun c =>
    (st.documents.rows.filter (·.id = c.key.1)).map (searchRow st score c)

theorem drawnFrom_allRows (st : Store) (score : ℚ) : DrawnFrom st (allRows st score) := by
  intro r hr
  obtain ⟨c, hc, hr⟩ := List.mem_flatMap.mp hr
  obtain ⟨d, hd, rfl⟩ := List.mem_map.mp hr
  obtain ⟨hd, hid⟩ := List.mem_filter.mp hd
  exact ⟨c, d, ⟨hc, hd, of_decide_eq_true hid⟩, rfl⟩

section
variable {st : Store} {rows : List SearchRow} {c : StoredChunk} {d : StoredDocument}

/-- A chunk has one document. -/
theorem Joined.unique {d' : StoredDocument} (j : Joined st c d) (j' : Joined st c d') : d = d' :=
  Table.eq_of_id j.document j'.document (j.id_eq.trans j'.id_eq.symm)

/-- The content of a row is that of the stored chunk with its id. -/
theorem content_drawn (hd : DrawnFrom st rows) (j : Joined st c d) {r : SearchRow} (hr : r ∈ rows)
    (hid : r.chunkId = c.id) : r.content = c.value.content := by
  obtain ⟨c', d', j', he⟩ := hd r hr
  have hc : c' = c := Table.eq_of_id j'.chunk j.chunk (by rw [← hid, he]; rfl)
  subst hc
  rw [he]
  rfl

theorem title_drawn (hd : DrawnFrom st rows) (j : Joined st c d) {r : SearchRow} (hr : r ∈ rows)
    (hid : r.documentId = d.id) : r.title = d.value.title := by
  obtain ⟨c', d', j', he⟩ := hd r hr
  have hd' : d' = d := Table.eq_of_id j'.document j.document (by rw [← hid, he]; rfl)
  subst hd'
  rw [he]
  rfl

/-- The text of a candidate is its stored content. -/
theorem chunkText_drawn (hd : DrawnFrom st rows) (j : Joined st c d) {trimmed : List RankedChunk}
    (hc : c.id ∈ trimmed.map (·.chunkId)) (hr : ∃ r ∈ rows, r.chunkId = c.id) :
    chunkText rows trimmed c.id = some c.value.content := by
  obtain ⟨r, hr, hid⟩ := hr
  have hsome : (chunkText rows trimmed c.id).isSome = true := by
    rw [chunkText, lookupLast_isSome, List.map_map]
    exact List.mem_map.mpr ⟨r, List.mem_filter.mpr ⟨hr, by simpa [hid] using hc⟩, hid⟩
  obtain ⟨text, ht⟩ := Option.isSome_iff_exists.mp hsome
  obtain ⟨r', hr', he⟩ := List.mem_map.mp (mem_of_lookupLast ht)
  obtain ⟨hk, hv⟩ := Prod.mk.inj he
  rw [ht, ← hv, content_drawn hd j (List.mem_of_mem_filter hr') hk]

/-- The reference of a candidate's document carries the stored title. -/
theorem documentRefs_drawn (hd : DrawnFrom st rows) (j : Joined st c d)
    (hr : ∃ r ∈ rows, r.documentId = d.id) :
    ∃ ref, documentRefsFromRows rows d.id = some ref ∧ ref.title = d.value.title := by
  obtain ⟨r, hr, hid⟩ := hr
  have hsome : (documentRefsFromRows rows d.id).isSome = true := by
    rw [documentRefsFromRows, lookupFirst_isSome, List.map_map]
    exact List.mem_map.mpr ⟨r, hr, hid⟩
  obtain ⟨ref, href⟩ := Option.isSome_iff_exists.mp hsome
  obtain ⟨r', hr', he⟩ := List.mem_map.mp (mem_of_lookupFirst href)
  obtain ⟨hk, rfl⟩ := Prod.mk.inj he
  exact ⟨_, href, title_drawn hd j hr' hk⟩

end

end KnowledgeKiln.L2.Hybrid
