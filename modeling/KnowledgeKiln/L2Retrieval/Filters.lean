import KnowledgeKiln.Core.Json
import KnowledgeKiln.Core.Sql
import KnowledgeKiln.L2Retrieval.HybridSelect

/-!
# Metadata filters and the two searches (retrieval/filters.py, db/repositories/documents.py)

`buildPredicates` turns a `RetrievalFilters` into conditions over a chunk and its document, which
both arms of the hybrid SELECT and the full-text fallback put in their WHERE clause. A column may
be `NULL`, so a condition may be unknown (`Core.Sql`).

* `Admits`: what the filters ask of a document, in terms of its columns.
* `admitted_iff`: the WHERE clause keeps the documents it asks for, and no others.
* `RunQuery`: the rows `_run_query` hands to the engine, with and without a provider.
* `RunQuery.admitted`: whichever it is, each row is of a document that the filters ask for.
* `FtsSearch.complete`: the fallback loses a match only to its limit.
-/
namespace KnowledgeKiln.L2.Filters

open KnowledgeKiln.Core KnowledgeKiln.L1.FileProcessing KnowledgeKiln.L1.Embedding
  KnowledgeKiln.L2.Ranking KnowledgeKiln.L2.Engine KnowledgeKiln.L2.Fusion KnowledgeKiln.L2.Hybrid
  KnowledgeKiln.L2.HybridSelect

/-! ## JSON columns -/

/-- The JSON that `_chunk_security_metadata` stamps on a chunk (_file_processing.py:245-257). -/
def chunkExtra (m : ChunkMetadata) : JsonDict :=
  (if m.hasPromptInjection then
    [("has_prompt_injection".toList, .bool true),
      ("matched_pattern".toList, optionalStr m.matchedPattern)] else []) ++
  if m.hasSensitiveContent then
    [("has_sensitive_content".toList, .bool true),
      ("matched_sensitive_pattern".toList, optionalStr m.matchedSensitivePattern)] else []

/-- `value ?| values`: one of the texts is a key, an element, or the string itself. -/
def existsAny (values : List Str) : Json → Bool
  | .str s => s ∈ values
  | .arr items => items.any fun
    | .str s => s ∈ values
    | _ => false
  | .obj members => members.any (·.1 ∈ values)
  | _ => false

/-- `metadata ->> key`; `jsonText` writes the values that are no strings. -/
def astext (jsonText : Json → Str) : Json → Option Str
  | .null => none
  | .str s => some s
  | v => some (jsonText v)

/-- Mirrors `_jsonb_array_overlap` (filters.py:93-108). -/
def jsonbArrayOverlap (extra : JsonDict) (key : Str) (values : List Str) : Sql.Truth :=
  (extra.get key).map (existsAny values)

/-- The text of a JSON value, for databases that hold booleans at most. -/
def plainText (v : Json) : Str := if v.truthy then "true" else "false"

/-! ## Predicates -/

/-- A condition over a chunk and its document. -/
abbrev ColumnElement := StoredChunk → StoredDocument → Sql.Truth

/-- `documents.system`, a column that ingestion leaves alone. -/
def system (_ : StoredDocument) : Option Str := none

/-- Mirrors `_append_in` (filters.py:56-63): the predicates that are appended. -/
def appendIn (column : StoredDocument → Option Str) (values : Option (List Str)) :
    List ColumnElement :=
  match values with
  | some (v :: vs) => [fun _ d => Sql.isIn (column d) (v :: vs)]
  | _ => []

/-- Mirrors `_path_prefix_predicate` (filters.py:66-74). -/
def pathPrefixPredicate (prefixes : List Str) : ColumnElement :=
  fun _ d => Sql.anyOf (prefixes.map (Sql.startsWithEscaped '/' (some d.key.2)))

/-- Mirrors `_control_id_predicate` (filters.py:77-87). -/
def controlIdPredicate (jsonText : Json → Str) (controls : List Str) : ColumnElement := fun _ d =>
  let direct := Sql.isIn ((d.value.metadata.get "controls").bind (astext jsonText)) controls
  Sql.or direct (jsonbArrayOverlap d.value.metadata "controls" controls)

/-- Mirrors `_tags_predicate` (filters.py:90-94). -/
def tagsPredicate (tags : List Str) : ColumnElement := fun c d =>
  Sql.or (jsonbArrayOverlap (chunkExtra c.value.metadata) "tags" tags)
    (jsonbArrayOverlap d.value.metadata "tags" tags)

/-- `preds.append(predicate(values))`, when there are values. -/
def appendNonempty (predicate : List Str → ColumnElement) (values : Option (List Str)) :
    List ColumnElement :=
  match values with
  | some (v :: vs) => [predicate (v :: vs)]
  | _ => []

def texts (values : Option (FilterList Str)) : Option (List Str) := values.map (·.1)

/-- Mirrors `build_predicates` (filters.py:27-53). -/
def buildPredicates (jsonText : Json → Str) (filters : RetrievalFilters) : List ColumnElement :=
  appendIn (some ·.value.status) (filters.status.map (·.1.map Status.value)) ++
  appendIn (·.value.docType) (texts filters.docType) ++
  appendIn (some ·.key.1) (texts filters.repo) ++
  appendIn (·.value.owner) (texts filters.owner) ++
  appendIn system (texts filters.system) ++
  appendIn (·.value.authority) (texts filters.authority) ++
  appendIn (·.value.sensitivity) (texts filters.sensitivity) ++
  appendNonempty pathPrefixPredicate (texts filters.pathPrefix) ++
  (match filters.lastReviewedAfter with
    | some since => [fun _ d =>
        Sql.compare (fun t since => decide (since.toordinal ≤ t.toordinal)) d.value.lastReviewed
          since]
    | none => []) ++
  appendNonempty (controlIdPredicate jsonText) (texts filters.controlId) ++
  appendNonempty tagsPredicate (texts filters.tags)

/-- `.where(*predicates)` -/
def wherePredicates (jsonText : Json → Str) (filters : RetrievalFilters) (c : StoredChunk)
    (d : StoredDocument) : Bool :=
  Sql.keeps (Sql.allOf ((buildPredicates jsonText filters).map fun p => p c d))

/-- The backend whose WHERE clause is that of the filters. -/
def filtered (b : SearchBackend) (jsonText : Json → Str) : SearchBackend :=
  { b with predicates := wherePredicates jsonText }

/-! ## What the filters ask for -/

/-- A list that is given and not empty has a value with the property. -/
def Asks {α : Type} (values : Option (FilterList α)) (p : α → Prop) : Prop :=
  ∀ l, values = some l → l.1 ≠ [] → ∃ v ∈ l.1, p v

/-- The member `key` of the metadata is the text, or has it as an element or a key. -/
def Carries (metadata : JsonDict) (key v : Str) : Prop :=
  ∃ value, metadata.get key = some value ∧
    (value = .str v ∨ (∃ items, value = .arr items ∧ .str v ∈ items) ∨
      ∃ members, value = .obj members ∧ v ∈ members.map (·.1))

/-- The member is written as this text, though it is no string. -/
def Reads (jsonText : Json → Str) (metadata : JsonDict) (key v : Str) : Prop :=
  ∃ value, metadata.get key = some value ∧ value ≠ .null ∧ (∀ s, value ≠ .str s) ∧
    jsonText value = v

/-- The document is one of those the filters ask for. -/
@[mk_iff]
structure Admits (jsonText : Json → Str) (filters : RetrievalFilters) (d : StoredDocument) :
    Prop where
  status : Asks filters.status fun s => s.value = d.value.status
  docType : Asks filters.docType fun v => d.value.docType = some v
  repo : Asks filters.repo fun v => d.key.1 = v
  owner : Asks filters.owner fun v => d.value.owner = some v
  system : Asks filters.system fun v => system d = some v
  authority : Asks filters.authority fun v => d.value.authority = some v
  sensitivity : Asks filters.sensitivity fun v => d.value.sensitivity = some v
  pathPrefix : Asks filters.pathPrefix fun v => v <+: d.key.2
  lastReviewedAfter : ∀ since, filters.lastReviewedAfter = some since →
    ∃ t, d.value.lastReviewed = some t ∧ since.toordinal ≤ t.toordinal
  controlId : Asks filters.controlId fun v =>
    Carries d.value.metadata "controls" v ∨ Reads jsonText d.value.metadata "controls" v
  tags : Asks filters.tags fun v => Carries d.value.metadata "tags" v

section
variable {jsonText : Json → Str} {filters : RetrievalFilters} {c : StoredChunk}
  {d : StoredDocument}

theorem existsAny_iff {values : List Str} {value : Json} : existsAny values value = true ↔
    ∃ v ∈ values, value = .str v ∨ (∃ items, value = .arr items ∧ .str v ∈ items) ∨
      ∃ members, value = .obj members ∧ v ∈ members.map (·.1) := by
  cases value with
  | str s => simp [existsAny]
  | arr items =>
    simp only [existsAny, List.any_eq_true]
    constructor
    · rintro ⟨item, hitem, h⟩
      split at h
      · exact ⟨_, of_decide_eq_true h, .inr (.inl ⟨items, rfl, hitem⟩)⟩
      · cases h
    · rintro ⟨v, hv, h | ⟨items', he, hitem⟩ | ⟨members, he, -⟩⟩
      · cases h
      · cases he
        exact ⟨.str v, hitem, decide_eq_true hv⟩
      · cases he
  | obj members =>
    simp only [existsAny, List.any_eq_true, decide_eq_true_eq]
    constructor
    · rintro ⟨m, hm, h⟩
      exact ⟨m.1, h, .inr (.inr ⟨members, rfl, List.mem_map.mpr ⟨m, hm, rfl⟩⟩)⟩
    · rintro ⟨v, hv, h | ⟨items, he, -⟩ | ⟨members', he, hm⟩⟩
      · cases h
      · cases he
      · cases he
        obtain ⟨m, hmem, rfl⟩ := List.mem_map.mp hm
        exact ⟨m, hmem, hv⟩
  | null => simp [existsAny]
  | bool b => simp [existsAny]
  | int n => simp [existsAny]
  | float repr => simp [existsAny]

theorem jsonbArrayOverlap_true {extra : JsonDict} {key : Str} {values : List Str} :
    jsonbArrayOverlap extra key values = some true ↔ ∃ v ∈ values, Carries extra key v := by
  simp only [jsonbArrayOverlap, Option.map_eq_some_iff, existsAny_iff, Carries]
  constructor
  · rintro ⟨value, hget, v, hv, h⟩
    exact ⟨v, hv, value, hget, h⟩
  · rintro ⟨v, hv, value, hget, h⟩
    exact ⟨value, hget, v, hv, h⟩

theorem astext_eq_some {value : Json} {v : Str} : astext jsonText value = some v ↔
    value = .str v ∨ value ≠ .null ∧ (∀ s, value ≠ .str s) ∧ jsonText value = v := by
  cases value <;> simp [astext]

theorem controlIdPredicate_true {controls : List Str} :
    controlIdPredicate jsonText controls c d = some true ↔ ∃ v ∈ controls,
      Carries d.value.metadata "controls" v ∨ Reads jsonText d.value.metadata "controls" v := by
  rw [controlIdPredicate, Sql.or_true, jsonbArrayOverlap_true, Sql.isIn_true]
  simp only [Option.bind_eq_some_iff, astext_eq_some]
  constructor
  · rintro (⟨v, hv, value, hget, h | h⟩ | ⟨v, hv, h⟩)
    · exact ⟨v, hv, .inl ⟨value, hget, .inl h⟩⟩
    · exact ⟨v, hv, .inr ⟨value, hget, h⟩⟩
    · exact ⟨v, hv, .inl h⟩
  · rintro ⟨v, hv, h | ⟨value, hget, h⟩⟩
    · exact .inr ⟨v, hv, h⟩
    · exact .inl ⟨v, hv, value, hget, .inr h⟩

/-- Ingestion stamps no tags on a chunk. -/
theorem chunkExtra_tags (m : ChunkMetadata) : (chunkExtra m).get "tags" = none := by
  unfold chunkExtra
  split <;> split <;> rfl

theorem tagsPredicate_true {tags : List Str} :
    tagsPredicate tags c d = some true ↔ ∃ v ∈ tags, Carries d.value.metadata "tags" v := by
  have hnone : ¬ ∃ v ∈ tags, Carries (chunkExtra c.value.metadata) "tags" v := by
    rintro ⟨v, -, value, hget, -⟩
    rw [chunkExtra_tags] at hget
    cases hget
  rw [tagsPredicate, Sql.or_true, jsonbArrayOverlap_true, jsonbArrayOverlap_true,
    or_iff_right hnone]

theorem pathPrefixPredicate_true {prefixes : List Str} :
    pathPrefixPredicate prefixes c d = some true ↔ ∃ v ∈ prefixes, v <+: d.key.2 := by
  simp [pathPrefixPredicate, Sql.anyOf_true, Sql.startsWithEscaped_true]

/-- A field's predicates hold when the field asks for nothing, or gets one of its values. -/
theorem appendNonempty_true {predicate : List Str → ColumnElement} {p : Str → Prop}
    (h : ∀ vs, predicate vs c d = some true ↔ ∃ v ∈ vs, p v) {values : Option (FilterList Str)} :
    (∀ e ∈ appendNonempty predicate (texts values), e c d = some true) ↔ Asks values p := by
  unfold Asks texts appendNonempty
  match values with
  | none => simp
  | some ⟨[], _⟩ => simp
  | some ⟨v :: vs, _⟩ => simpa using h (v :: vs)

theorem appendIn_eq (column : StoredDocument → Option Str) (values : Option (List Str)) :
    appendIn column values = appendNonempty (fun vs _ d => Sql.isIn (column d) vs) values := by
  unfold appendIn appendNonempty
  split <;> rfl

theorem appendIn_true {column : StoredDocument → Option Str}
    {values : Option (FilterList Str)} :
    (∀ e ∈ appendIn column (texts values), e c d = some true) ↔
      Asks values fun v => column d = some v := by
  rw [appendIn_eq]
  exact appendNonempty_true fun vs => Sql.isIn_true

theorem status_true :
    (∀ e ∈ appendIn (some ·.value.status) (filters.status.map (·.1.map Status.value)),
      e c d = some true) ↔ Asks filters.status fun s => s.value = d.value.status := by
  unfold Asks
  match filters.status with
  | none => simp [appendIn]
  | some ⟨[], _⟩ => simp [appendIn]
  | some ⟨s :: ss, _⟩ =>
    have hone : appendIn (some ·.value.status) (some ((s :: ss).map Status.value)) =
        [fun _ d => Sql.isIn (some d.value.status) ((s :: ss).map Status.value)] := rfl
    have hin : Sql.isIn (some d.value.status) ((s :: ss).map Status.value) = some true ↔
        ∃ v ∈ s :: ss, v.value = d.value.status := by
      rw [Sql.isIn_true]
      constructor
      · rintro ⟨v, hv, he⟩
        obtain ⟨t, ht, rfl⟩ := List.mem_map.mp hv
        exact ⟨t, ht, (Option.some.inj he).symm⟩
      · rintro ⟨t, ht, he⟩
        exact ⟨_, List.mem_map_of_mem ht, by rw [he]⟩
    rw [Option.map_some, hone, List.forall_mem_singleton, hin]
    constructor
    · rintro h l ⟨⟩ -
      exact h
    · intro h
      exact h _ rfl (List.cons_ne_nil _ _)

/-- **The WHERE clause.** It keeps the documents that the filters ask for, and no others. -/
theorem admitted_iff :
    wherePredicates jsonText filters c d = true ↔ Admits jsonText filters d := by
  have hdate : (∀ e ∈ (match filters.lastReviewedAfter with
      | some since => [fun (_ : StoredChunk) (d : StoredDocument) =>
          Sql.compare (fun t since => decide (since.toordinal ≤ t.toordinal)) d.value.lastReviewed
            since]
      | none => [] : List ColumnElement), e c d = some true) ↔
      ∀ since, filters.lastReviewedAfter = some since →
        ∃ t, d.value.lastReviewed = some t ∧ since.toordinal ≤ t.toordinal := by
    cases filters.lastReviewedAfter with
    | none => simp
    | some since => simp [Sql.compare_true]
  rw [wherePredicates, Sql.keeps_iff, Sql.allOf_true, List.forall_mem_map, buildPredicates]
  simp only [List.forall_mem_append, status_true, appendIn_true, hdate,
    appendNonempty_true (fun _ => pathPrefixPredicate_true),
    appendNonempty_true (fun _ => controlIdPredicate_true),
    appendNonempty_true (fun _ => tagsPredicate_true), Option.some.injEq]
  rw [admits_iff]
  simp only [and_assoc]

end

/-! ## The searches -/

/-- `limit` and `rrf_k` of `search_by_fts`, as `_run_query` leaves them. -/
def ftsLimit : Nat := 100

/-- The score of the fallback: `ts_rank_cd * (rrf_k + 1) / 2`. -/
def ftsScore (b : SearchBackend) (query : Str) (c : StoredChunk) : ℚ :=
  b.tsRankCd c.value.content query * (((rrfK : ℚ) + 1) / 2)

/-- The rows behind `build_fts_only_select`. -/
def ftsOnlyRows (b : SearchBackend) (st : Store) (query : Str) (filters : RetrievalFilters) :
    List (StoredChunk × StoredDocument) :=
  (joined st).filter fun p => b.tsMatches p.1.value.content query && b.predicates filters p.1 p.2

/-- A result of `search_by_fts`, mirrors db/repositories/_hybrid.py:139-169 -/
def FtsSearch (b : SearchBackend) (st : Store) (query : Str) (filters : RetrievalFilters)
    (rows : List SearchRow) : Prop :=
  ∃ sorted : List (StoredChunk × StoredDocument), sorted.Perm (ftsOnlyRows b st query filters) ∧
    sorted.Pairwise (fun x y =>
      b.tsRankCd y.1.value.content query ≤ b.tsRankCd x.1.value.content query) ∧
    rows = (sorted.take ftsLimit).map fun p => searchRow st (ftsScore b query p.1) p.1 p.2

/-- What `_run_query` returns, with an embedding provider or without, mirrors
retrieval/engine.py:307-350 -/
def RunQuery (b : SearchBackend) (provider : Bool) (db : Db) (query : Str)
    (filters : RetrievalFilters) (rows : List SearchRow) : Prop :=
  if provider then ∃ vec fts, HybridSearch b db query filters vec fts rows
  else FtsSearch b db.store query filters rows

/-- The row is a stored chunk with its document, which the backend's WHERE clause keeps. -/
def Kept (b : SearchBackend) (st : Store) (filters : RetrievalFilters) (r : SearchRow) : Prop :=
  ∃ c d, Joined st c d ∧ r = searchRow st r.score c d ∧ b.predicates filters c d = true

section
variable {b : SearchBackend} {db : Db} {query : Str} {filters : RetrievalFilters}
  {rows : List SearchRow} {provider : Bool} {st : Store}

theorem mem_ftsOnlyRows {p : StoredChunk × StoredDocument} :
    p ∈ ftsOnlyRows b st query filters ↔ Joined st p.1 p.2 ∧
      b.tsMatches p.1.value.content query = true ∧ b.predicates filters p.1 p.2 = true := by
  rw [ftsOnlyRows, List.mem_filter, mem_joined, Bool.and_eq_true]

/-- A chunk of the vector arm passed the WHERE clause with its document. -/
theorem kept_of_vectorRows {x : Row Uuid ChunkEmbedding × StoredChunk}
    (h : x ∈ vectorRows b db filters) :
    ∃ d, Joined db.store x.2 d ∧ b.predicates filters x.2 d = true := by
  obtain ⟨e, -, hx⟩ := List.mem_flatMap.mp h
  obtain ⟨p, hp, rfl⟩ := List.mem_map.mp hx
  obtain ⟨hj, hcond⟩ := List.mem_filter.mp hp
  rw [Bool.and_eq_true] at hcond
  exact ⟨p.2, mem_joined.mp hj, hcond.2⟩

theorem kept_of_ftsRows {c : StoredChunk} (h : c ∈ ftsRows b st query filters) :
    ∃ d, Joined st c d ∧ b.predicates filters c d = true := by
  obtain ⟨p, hp, rfl⟩ := List.mem_map.mp h
  obtain ⟨hj, hcond⟩ := List.mem_filter.mp hp
  rw [Bool.and_eq_true] at hcond
  exact ⟨p.2, mem_joined.mp hj, hcond.2⟩

/-- Both arms list chunks that passed the WHERE clause. -/
theorem arms_kept {vec fts : List Uuid} (h : HybridSearch b db query filters vec fts rows)
    {id : Uuid} (hid : id ∈ vec ∨ id ∈ fts) :
    ∃ c d, Joined db.store c d ∧ c.id = id ∧ b.predicates filters c d = true := by
  rcases hid with hid | hid
  · obtain ⟨q, -, hvec⟩ := h.vectorArm
    obtain ⟨x, hx, rfl⟩ := List.mem_map.mp (hvec.subperm.subset hid)
    obtain ⟨d, hj, hp⟩ := kept_of_vectorRows hx
    exact ⟨x.2, d, hj, rfl, hp⟩
  · obtain ⟨c, hc, rfl⟩ := List.mem_map.mp (h.ftsArm.subperm.subset hid)
    obtain ⟨d, hj, hp⟩ := kept_of_ftsRows hc
    exact ⟨c, d, hj, rfl, hp⟩

theorem HybridSearch.kept {vec fts : List Uuid}
    (h : HybridSearch b db query filters vec fts rows) {r : SearchRow} (hr : r ∈ rows) :
    Kept b db.store filters r := by
  obtain ⟨sorted, hp, -, rfl⟩ := h.selected
  obtain ⟨u, hu, hr⟩ := List.mem_flatMap.mp (hp.subset (List.mem_of_mem_take hr))
  obtain ⟨j, hj, rfl⟩ := List.mem_map.mp hr
  obtain ⟨hj, hid⟩ := List.mem_filter.mp hj
  have hj := mem_joined.mp hj
  obtain ⟨harm, -⟩ := mem_fused.mp hu
  rw [List.map_append, map_chunkId_numbered, map_chunkId_numbered, List.mem_append] at harm
  obtain ⟨c, d, hj', hc, hpred⟩ := arms_kept h harm
  -- the arm's chunk is the joined one
  have hc' : c = j.1 := Table.eq_of_id hj'.chunk hj.chunk (hc.trans (of_decide_eq_true hid).symm)
  subst hc'
  have hd : d = j.2 := hj'.unique hj
  subst hd
  exact ⟨j.1, j.2, hj, rfl, hpred⟩

theorem FtsSearch.kept (h : FtsSearch b st query filters rows) {r : SearchRow} (hr : r ∈ rows) :
    Kept b st filters r := by
  obtain ⟨sorted, hp, -, rfl⟩ := h
  obtain ⟨p, hmem, rfl⟩ := List.mem_map.mp hr
  obtain ⟨hj, -, hpred⟩ := mem_ftsOnlyRows.mp (hp.subset (List.mem_of_mem_take hmem))
  exact ⟨p.1, p.2, hj, rfl, hpred⟩

/-- The fallback loses a matching chunk of an asked document only to its limit. -/
theorem FtsSearch.complete (h : FtsSearch b st query filters rows) :
    rows.length = min ftsLimit (ftsOnlyRows b st query filters).length ∧
      ((ftsOnlyRows b st query filters).length ≤ ftsLimit →
        ∀ c d, Joined st c d → b.tsMatches c.value.content query = true →
          b.predicates filters c d = true → ∃ r ∈ rows, r.chunkId = c.id) := by
  obtain ⟨sorted, hp, -, rfl⟩ := h
  constructor
  · rw [List.length_map, List.length_take, hp.length_eq]
  · intro hle c d hj hmatch hpred
    have hmem : (c, d) ∈ sorted :=
      hp.symm.subset (mem_ftsOnlyRows.mpr ⟨hj, hmatch, hpred⟩)
    rw [List.take_of_length_le (hp.length_eq ▸ hle)]
    exact ⟨_, List.mem_map_of_mem hmem, rfl⟩

theorem RunQuery.kept (h : RunQuery b provider db query filters rows) {r : SearchRow}
    (hr : r ∈ rows) : Kept b db.store filters r := by
  unfold RunQuery at h
  split at h
  · obtain ⟨vec, fts, h⟩ := h
    exact HybridSearch.kept h hr
  · exact FtsSearch.kept h hr

theorem RunQuery.drawn (h : RunQuery b provider db query filters rows) :
    DrawnFrom db.store rows := fun _ hr =>
  let ⟨c, d, hj, he, _⟩ := h.kept hr
  ⟨c, d, hj, he⟩

/-- Each row is of a document that the filters ask for. -/
theorem RunQuery.admitted {jsonText : Json → Str}
    (h : RunQuery (filtered b jsonText) provider db query filters rows) {r : SearchRow}
    (hr : r ∈ rows) : ∃ c d, Joined db.store c d ∧ r = searchRow db.store r.score c d ∧
      Admits jsonText filters d := by
  obtain ⟨c, d, hj, he, hpred⟩ := h.kept hr
  exact ⟨c, d, hj, he, admitted_iff.mp hpred⟩

end

end KnowledgeKiln.L2.Filters
