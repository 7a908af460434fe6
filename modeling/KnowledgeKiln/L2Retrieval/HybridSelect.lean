import KnowledgeKiln.Core.Selection
import KnowledgeKiln.L1Ingest.Embedding
import KnowledgeKiln.L2Retrieval.Fusion
import KnowledgeKiln.L2Retrieval.Hybrid

/-!
# The hybrid SELECT and what a search returns of it

`build_hybrid_select` of db/repositories/_hybrid.py as a relation between the tables and a
result: Postgres orders tied rows as it likes, and the vector index may miss rows.

A candidate passes three cuts: the limit of its arm, `finalLimit` on the fused score, and the
caller's `max_results` on the boosted score.

* `HybridSearch.arms_nodup`: an arm lists a chunk once, so the fused scores are normalised
  (`HybridSearch.score_mem`).
* `fusedRows_length`: one row for each distinct chunk of the arms.
* `HybridSearch.listed`: what the order of the rows promises.
* `search_hybrid`: the last cut is the best of the `finalLimit` best fused rows.
* `search_drops_candidate`: it is not the best of all fused rows.
-/
namespace KnowledgeKiln.L2.HybridSelect

open KnowledgeKiln.Core KnowledgeKiln.L1.FileProcessing KnowledgeKiln.L1.Embedding
  KnowledgeKiln.L2.Ranking KnowledgeKiln.L2.Engine KnowledgeKiln.L2.Fusion KnowledgeKiln.L2.Hybrid

/-! ## The arms -/

/-- What `_run_query` takes from outside: the embedding provider behind HyDE, pgvector (a
distance that is no number is `⊤`, which sorts last), full-text search, and the WHERE clause of
the filters. -/
structure SearchBackend where
  queryVector : Str → Py Vec
  dimensions : Nat
  distance : Vec → Vec → WithTop ℚ
  tsMatches : Str → Str → Bool
  tsRankCd : Str → Str → ℚ
  predicates : RetrievalFilters → StoredChunk → StoredDocument → Bool

/-- `document_chunks JOIN documents ON documents.id = document_chunks.document_id` -/
def joined (st : Store) : List (StoredChunk × StoredDocument) :=
  st.chunks.rows.flatMap fun c => (st.documents.rows.filter (·.id = c.key.1)).map fun d => (c, d)

/-- The rows behind `_vector_arm`, each with its embedding. -/
def vectorRows (b : SearchBackend) (db : Db) (filters : RetrievalFilters) :
    List (Row Uuid ChunkEmbedding × StoredChunk) :=
  db.embeddings.rows.flatMap fun e => ((joined db.store).filter fun p => p.1.id = e.key &&
    e.value.dimensions = b.dimensions && b.predicates filters p.1 p.2).map fun p => (e, p.1)

/-- mirrors db/repositories/_hybrid.py:172-196. An index scan may miss rows. -/
def VectorArm (b : SearchBackend) (db : Db) (q : Vec) (filters : RetrievalFilters) (limit : Nat)
    (arm : List Uuid) : Prop :=
  ∃ sorted : List (Row Uuid ChunkEmbedding × StoredChunk),
    sorted.Subperm (vectorRows b db filters) ∧
    sorted.Pairwise (fun x y => b.distance x.1.value.embedding q ≤ b.distance y.1.value.embedding q) ∧
    arm = (sorted.take limit).map (·.2.id)

/-- The rows behind `_fts_arm`. -/
def ftsRows (b : SearchBackend) (st : Store) (query : Str) (filters : RetrievalFilters) :
    List StoredChunk :=
  ((joined st).filter fun p => b.tsMatches p.1.value.content query &&
    b.predicates filters p.1 p.2).map (·.1)

/-- mirrors db/repositories/_hybrid.py:199-214 -/
def FtsArm (b : SearchBackend) (st : Store) (query : Str) (filters : RetrievalFilters) (limit : Nat)
    (arm : List Uuid) : Prop :=
  ∃ sorted : List StoredChunk, sorted.Perm (ftsRows b st query filters) ∧
    sorted.Pairwise (fun x y => b.tsRankCd y.value.content query ≤ b.tsRankCd x.value.content query) ∧
    arm = (sorted.take limit).map (·.id)

/-! ## The final SELECT -/

/-- The rows of the fused chunks, before ordering. -/
def fusedRows (st : Store) (u : List (Uuid × ℚ)) : List SearchRow :=
  u.flatMap fun p => ((joined st).filter (·.1.id = p.1)).map fun j => searchRow st p.2 j.1 j.2

/-- `ORDER BY rrf_score DESC LIMIT limit` -/
def Selected (limit : Nat) (pool rows : List SearchRow) : Prop :=
  ∃ sorted : List SearchRow, sorted.Perm pool ∧ sorted.Pairwise (fun a b => b.score ≤ a.score) ∧
    rows = sorted.take limit

def topPerArm : Nat := 100

def finalLimit : Nat := 20

def rrfK : Nat := 60

/-- The candidates that the two arms fuse to. -/
def fusedCandidates (st : Store) (vec fts : List Uuid) : List SearchRow :=
  fusedRows st (fused rrfK (numbered vec) (numbered fts))

/-- A result of `hybrid_search`, as `_run_query` calls it: with the limits left at their
defaults. Mirrors db/repositories/documents.py:179-213 and retrieval/engine.py:307-350 -/
structure HybridSearch (b : SearchBackend) (db : Db) (query : Str) (filters : RetrievalFilters)
    (vec fts : List Uuid) (rows : List SearchRow) : Prop where
  vectorArm : ∃ q, b.queryVector query = .ok q ∧ VectorArm b db q filters topPerArm vec
  ftsArm : FtsArm b db.store query filters topPerArm fts
  selected : Selected finalLimit (fusedCandidates db.store vec fts) rows

/-! ## One row a chunk -/

section
variable {st : Store}

theorem mem_joined {p : StoredChunk × StoredDocument} : p ∈ joined st ↔ Joined st p.1 p.2 := by
  obtain ⟨c, d⟩ := p
  simp only [joined, List.mem_flatMap, List.mem_map, List.mem_filter, decide_eq_true_eq,
    Prod.mk.injEq]
  constructor
  · rintro ⟨c, hc, d, ⟨hd, hid⟩, rfl, rfl⟩
    exact ⟨hc, hd, hid⟩
  · rintro ⟨hc, hd, hid⟩
    exact ⟨c, hc, d, ⟨hd, hid⟩, rfl, rfl⟩

/-- A chunk is joined once. -/
theorem joined_nodup (st : Store) : ((joined st).map (·.1.id)).Nodup := by
  rw [joined, List.map_flatMap, List.nodup_flatMap]
  constructor
  · intro c _
    have hlen := length_filter_key_le st.documents.ids_nodup c.key.1
    generalize st.documents.rows.filter (fun d => d.id = c.key.1) = docs at hlen ⊢
    match docs, hlen with
    | [], _ => simp
    | [d], _ => simp
    | _ :: _ :: _, hlen => simp at hlen
  · refine (List.pairwise_map.mp st.chunks.ids_nodup).imp fun {c c'} hne => ?_
    intro id hid hid'
    simp only [List.map_map, List.mem_map, Function.comp] at hid hid'
    obtain ⟨_, -, rfl⟩ := hid
    obtain ⟨_, -, he⟩ := hid'
    exact hne he.symm

/-- The fused chunks are chunks of the table: each gives one row. -/
theorem fusedRows_length {u : List (Uuid × ℚ)}
    (h : ∀ p ∈ u, p.1 ∈ (joined st).map (·.1.id)) : (fusedRows st u).length = u.length := by
  induction u with
  | nil => rfl
  | cons p u ih =>
    obtain ⟨j, hj, he⟩ := List.mem_map.mp (h p List.mem_cons_self)
    have hone : (joined st).filter (·.1.id = p.1) = [j] := by
      rw [← he]
      exact filter_key (joined_nodup st) hj
    have hrest := ih fun q hq => h q (List.mem_cons_of_mem _ hq)
    have hcons : fusedRows st (p :: u) = ((joined st).filter (·.1.id = p.1)).map
        (fun j => searchRow st p.2 j.1 j.2) ++ fusedRows st u := rfl
    rw [hcons, hone, List.length_append, hrest, List.length_cons, List.map_singleton,
      List.length_singleton, Nat.add_comm]

end

/-! ## The arms of a search -/

section
variable {b : SearchBackend} {db : Db} {q : Vec} {query : Str} {filters : RetrievalFilters}
  {limit : Nat} {arm vec fts : List Uuid} {rows : List SearchRow}

theorem id_mem_vectorRows {id : Uuid} (h : id ∈ (vectorRows b db filters).map (·.2.id)) :
    id ∈ (joined db.store).map (·.1.id) := by
  obtain ⟨x, hx, rfl⟩ := List.mem_map.mp h
  obtain ⟨e, -, hx⟩ := List.mem_flatMap.mp hx
  obtain ⟨p, hp, rfl⟩ := List.mem_map.mp hx
  exact List.mem_map.mpr ⟨p, List.mem_of_mem_filter hp, rfl⟩

/-- `chunk_id` is the primary key of `chunk_embeddings`: a chunk has one vector. -/
theorem vectorRows_nodup : ((vectorRows b db filters).map (·.2.id)).Nodup := by
  rw [vectorRows, List.map_flatMap, List.nodup_flatMap]
  constructor
  · intro e _
    rw [List.map_map]
    exact (joined_nodup db.store).sublist (List.filter_sublist.map _)
  · refine (List.pairwise_map.mp db.embeddings.keys_nodup).imp fun {e e'} hne => ?_
    intro id hid hid'
    simp only [List.map_map, List.mem_map, List.mem_filter, Function.comp, Bool.and_eq_true,
      decide_eq_true_eq] at hid hid'
    obtain ⟨p, ⟨-, ⟨hp, -⟩, -⟩, rfl⟩ := hid
    obtain ⟨p', ⟨-, ⟨hp', -⟩, -⟩, he⟩ := hid'
    exact hne (hp.symm.trans (he.symm.trans hp'))

theorem ftsRows_sublist : ((ftsRows b db.store query filters).map (·.id)).Sublist
    ((joined db.store).map (·.1.id)) := by
  rw [ftsRows, List.map_map]
  exact List.filter_sublist.map _

theorem subperm_map {α β : Type} {l l' : List α} (f : α → β) (h : l.Subperm l') (limit : Nat) :
    ((l.take limit).map f).Subperm (l'.map f) := by
  obtain ⟨m, hp, hs⟩ := h
  exact ((List.take_sublist limit l).map f).subperm.trans ⟨m.map f, hp.map f, hs.map f⟩

theorem nodup_of_subperm {α : Type} {l l' : List α} (h : l.Subperm l') (hn : l'.Nodup) : l.Nodup :=
  let ⟨_, hp, hs⟩ := h
  hp.nodup_iff.mp (hn.sublist hs)

theorem VectorArm.subperm (h : VectorArm b db q filters limit arm) :
    arm.Subperm ((vectorRows b db filters).map (·.2.id)) := by
  obtain ⟨sorted, hs, -, rfl⟩ := h
  exact subperm_map _ hs limit

theorem FtsArm.subperm (h : FtsArm b db.store query filters limit arm) :
    arm.Subperm ((ftsRows b db.store query filters).map (·.id)) := by
  obtain ⟨sorted, hs, -, rfl⟩ := h
  exact subperm_map _ hs.subperm limit

namespace HybridSearch

/-- The arms list a chunk once. -/
theorem arms_nodup (h : HybridSearch b db query filters vec fts rows) : vec.Nodup ∧ fts.Nodup := by
  obtain ⟨q, -, hvec⟩ := h.vectorArm
  exact ⟨nodup_of_subperm hvec.subperm vectorRows_nodup,
    nodup_of_subperm h.ftsArm.subperm ((joined_nodup db.store).sublist ftsRows_sublist)⟩

/-- The arms list chunks of the table. -/
theorem arms_joined (h : HybridSearch b db query filters vec fts rows) {id : Uuid}
    (hid : id ∈ vec ∨ id ∈ fts) : id ∈ (joined db.store).map (·.1.id) := by
  obtain ⟨q, -, hvec⟩ := h.vectorArm
  rcases hid with hid | hid
  · exact id_mem_vectorRows (hvec.subperm.subset hid)
  · exact ftsRows_sublist.subset (h.ftsArm.subperm.subset hid)

/-- One row for each distinct chunk of the arms. -/
theorem fusedCandidates_length (h : HybridSearch b db query filters vec fts rows) :
    (fusedCandidates db.store vec fts).length = (vec ++ fts).dedup.length := by
  rw [fusedCandidates, fusedRows_length]
  · rw [fused, List.length_map, List.map_append, map_chunkId_numbered, map_chunkId_numbered]
  · intro p hp
    obtain ⟨hid, -⟩ := mem_fused.mp hp
    rw [List.map_append, map_chunkId_numbered, map_chunkId_numbered] at hid
    exact h.arms_joined (List.mem_append.mp hid)

/-- A row's fused score is normalised. -/
theorem score_mem (h : HybridSearch b db query filters vec fts rows) {r : SearchRow}
    (hr : r ∈ rows) : 0 < r.score ∧ r.score ≤ 1 := by
  obtain ⟨sorted, hp, -, rfl⟩ := h.selected
  obtain ⟨p, hp, hr⟩ := List.mem_flatMap.mp (hp.subset (List.mem_of_mem_take hr))
  obtain ⟨j, -, rfl⟩ := List.mem_map.mp hr
  obtain ⟨hid, hscore⟩ := mem_fused.mp hp
  obtain ⟨hv, hf⟩ := h.arms_nodup
  rw [List.map_append, map_chunkId_numbered, map_chunkId_numbered, List.mem_append] at hid
  rw [rrfScore_numbered hv hf] at hscore
  obtain ⟨hpos, hle, -⟩ := fused_bounds (k := rrfK) hid
  change 0 < p.2 ∧ p.2 ≤ 1
  rw [hscore]
  exact ⟨hpos, hle⟩

end HybridSearch

/-- Rows as a SELECT lists them: a chunk once, a document with one set of columns, best first. -/
structure Listed (rows : List SearchRow) : Prop where
  chunk_nodup : (rows.map (·.chunkId)).Nodup
  document : ∀ r ∈ rows, ∀ r' ∈ rows, r.documentId = r'.documentId →
    rowToDocumentRef r = rowToDocumentRef r'
  sorted : rows.Pairwise fun a b => b.score ≤ a.score

theorem fusedRows_nodup {st : Store} {u : List (Uuid × ℚ)} (h : (u.map Prod.fst).Nodup) :
    ((fusedRows st u).map (·.chunkId)).Nodup := by
  have hid : ∀ p : Uuid × ℚ, (((joined st).filter (·.1.id = p.1)).map
      fun j => searchRow st p.2 j.1 j.2).map (·.chunkId) =
        ((joined st).filter (·.1.id = p.1)).map (·.1.id) := by
    intro p
    rw [List.map_map]
    rfl
  rw [fusedRows, List.map_flatMap, List.nodup_flatMap]
  constructor
  · intro p _
    rw [hid]
    exact (joined_nodup st).sublist (List.filter_sublist.map _)
  · refine (List.pairwise_map.mp h).imp fun {p p'} hne => ?_
    intro id hp hp'
    simp only [hid] at hp hp'
    obtain ⟨j, hj, rfl⟩ := List.mem_map.mp hp
    obtain ⟨j', hj', he⟩ := List.mem_map.mp hp'
    have h₁ := of_decide_eq_true (List.mem_filter.mp hj).2
    have h₂ := of_decide_eq_true (List.mem_filter.mp hj').2
    exact hne (h₁.symm.trans (he.symm.trans h₂))

theorem HybridSearch.listed (h : HybridSearch b db query filters vec fts rows) : Listed rows := by
  obtain ⟨sorted, hp, hs, rfl⟩ := h.selected
  have hrow : ∀ r ∈ sorted.take finalLimit,
      ∃ c d score, Joined db.store c d ∧ r = searchRow db.store score c d := by
    intro r hr
    obtain ⟨p, -, hr⟩ := List.mem_flatMap.mp (hp.subset (List.mem_of_mem_take hr))
    obtain ⟨j, hj, rfl⟩ := List.mem_map.mp hr
    exact ⟨j.1, j.2, p.2, mem_joined.mp (List.mem_of_mem_filter hj), rfl⟩
  constructor
  · have hn : ((fusedCandidates db.store vec fts).map (·.chunkId)).Nodup :=
      fusedRows_nodup (fused_nodup _ _ _)
    exact ((hp.map _).nodup_iff.mpr hn).sublist ((List.take_sublist _ _).map _)
  · intro r hr r' hr' he
    obtain ⟨c, d, s, hj, rfl⟩ := hrow r hr
    obtain ⟨c', d', s', hj', rfl⟩ := hrow r' hr'
    have hd : d = d' := Table.eq_of_id hj.document hj'.document he
    rw [hd]
    rfl
  · exact hs.sublist (List.take_sublist _ _)

end

/-! ## The cuts of a search -/

/-- `limit` chunks of the boosted pool, or all of it, and none left out scores higher. -/
def BestOf (env : Env) (config : RetrievalConfig) (today : Date) (pool : List SearchRow)
    (limit : Nat) (chunks : List RankedChunk) : Prop :=
  IsTop (·.score) limit (applyBoosts env config today (pool.map rowToRankedChunk)) chunks

theorem candidates_bestOf (env : Env) (config : RetrievalConfig) (today : Date)
    (rows : List SearchRow) (n : Nat) :
    BestOf env config today rows n (candidates env config today rows n) :=
  isTop_take (sortDesc_perm _ _) (sortDesc_pairwise _ _) n

theorem Selected.isTop {limit : Nat} {pool rows : List SearchRow} (h : Selected limit pool rows) :
    IsTop (·.score) limit pool rows := by
  obtain ⟨sorted, hp, hs, rfl⟩ := h
  exact isTop_take hp hs limit

section
variable {env : Env} {config : RetrievalConfig} {phrases : List Str} {sur : Surroundings}
  {query q : Str} {filters : RetrievalFilters} {n : Nat} {rows : List SearchRow}
  {removed : List Str} {res : SearchResult}

theorem search_chunks (he : effectiveQuery env phrases query = .ok (q, removed))
    (hf : sur.fetch q filters = .ok rows)
    (h : search env config phrases sur query filters n = .ok res) :
    res.chunks = candidates env config sur.boostDay rows n := by
  obtain ⟨_, -, h⟩ := Py.bind_ok.mp h
  obtain ⟨⟨rows', removed'⟩, hr, h⟩ := Py.bind_ok.mp h
  obtain ⟨⟨q', removed''⟩, he', hr⟩ := Py.bind_ok.mp hr
  obtain ⟨rows'', hf', hr⟩ := Py.bind_ok.mp hr
  cases he.symm.trans he'
  cases hf.symm.trans hf'
  cases hr
  obtain ⟨ws, -, h⟩ := Py.bind_ok.mp h
  cases h
  rfl

theorem search_returns (hq : requireNonempty query = .ok ())
    (he : effectiveQuery env phrases query = .ok (q, removed))
    (hf : sur.fetch q filters = .ok rows)
    (hd : ∀ d ∈ config.staleAfterDays, ∃ t, sur.warnDay.subDays d = .ok t) :
    ∃ res, search env config phrases sur query filters n = .ok res := by
  have hr : retrieve env phrases sur query filters = .ok (rows, removed) :=
    Py.bind_ok.mpr ⟨_, he, Py.bind_ok.mpr ⟨_, hf, rfl⟩⟩
  have hws : ∃ ws, collectWarnings env (candidates env config sur.boostDay rows n) sur.warnDay
      (Gates.ofConfig config) = .ok ws := collectWarnings_returns_iff.mpr hd
  obtain ⟨ws, hws⟩ := hws
  apply Py.exists_of_isOk
  simp only [search, hq, hr, hws, bind, Except.bind, pure, Except.pure, Except.isOk, Except.toBool]

end

/-- **The best of the fused top.** A search returns the best of `finalLimit` candidates by boosted
score, and these are the best of all candidates by fused score. -/
theorem search_hybrid (env : Env) (config : RetrievalConfig) (phrases : List Str)
    (sur : Surroundings) (b : SearchBackend) (db : Db) (req : SearchRequest) {q : Str}
    {removed : List Str} {rows : List SearchRow} {vec fts : List Uuid}
    (he : effectiveQuery env phrases req.query = .ok (q, removed))
    (hf : sur.fetch q (req.filters.getD {}) = .ok rows)
    (hs : HybridSearch b db q (req.filters.getD {}) vec fts rows) :
    (∀ res, search env config phrases sur req.query (req.filters.getD {}) req.maxResults = .ok res →
      res.chunks.length = min req.maxResults (min finalLimit (vec ++ fts).dedup.length) ∧
      ∃ top, IsTop (·.score) finalLimit (fusedCandidates db.store vec fts) top ∧
        BestOf env config sur.boostDay top req.maxResults res.chunks) ∧
    (requireNonempty req.query = .ok () →
      (∀ d ∈ config.staleAfterDays, ∃ t, sur.warnDay.subDays d = .ok t) →
      ∃ res, search env config phrases sur req.query (req.filters.getD {}) req.maxResults =
        .ok res) := by
  refine ⟨fun res h => ?_, fun hq hd => search_returns hq he hf hd⟩
  have hbest := candidates_bestOf env config sur.boostDay rows req.maxResults
  have htop := hs.selected.isTop
  rw [search_chunks he hf h]
  refine ⟨?_, rows, htop, hbest⟩
  rw [hbest.length_eq, applyBoosts, List.length_map, List.length_map, htop.length_eq,
    hs.fusedCandidates_length]

/-! ## A full pool

Twenty-one chunks match, and the weakest match is the only one of a live document. -/

def crowdedDocument (status : Str) : Document where
  title := "Guide"
  metadata := []
  commitSha := none
  status := status
  owner := none
  authority := none
  sensitivity := none
  docType := none
  sourceUrl := none
  lastReviewed := some ⟨2025, 6, 2, by decide, by decide, by decide⟩

def crowdedChunk : DocumentChunk where
  content := "deploy"
  contentTokens := 1
  contentHash := "h"
  headingPath := []
  metadata := {}

/-- Chunks 0 to 19 belong to a deprecated document, chunk 20 to an active one. -/
def crowdedDb : Db where
  store :=
    { documents := (Table.empty.upsert ("docs".toList, "old.md".toList)
        (crowdedDocument "deprecated")).upsert ("docs".toList, "new.md".toList)
        (crowdedDocument "active")
      chunks := Table.empty.upsertAll <|
        (List.range 20).map (fun i => ((0, i), crowdedChunk)) ++ [((1, 0), crowdedChunk)] }

/-- The vector of every query. -/
def crowdedVector : Vec := List.replicate 768 (some 1)

/-- Every chunk matches, all with the same rank; none has a vector. -/
def crowdedBackend : SearchBackend where
  queryVector := fun _ => .ok crowdedVector
  dimensions := 768
  distance := fun _ _ => 0
  tsMatches := fun _ _ => true
  tsRankCd := fun _ _ => 1
  predicates := fun _ _ _ => true

def crowdedRows : List SearchRow := (fusedCandidates crowdedDb.store [] (List.range 21)).take 20

def crowdedSurroundings : Surroundings where
  fetch := fun _ _ => .ok crowdedRows
  boostDay := ⟨2025, 6, 2, by decide, by decide, by decide⟩
  warnDay := ⟨2025, 6, 2, by decide, by decide, by decide⟩

def crowdedRequest : SearchRequest := { query := "deploy" }

theorem crowded_hybridSearch (query : Str) (filters : RetrievalFilters) :
    HybridSearch crowdedBackend crowdedDb query filters [] (List.range 21) crowdedRows where
  vectorArm := ⟨crowdedVector, rfl, [], List.nil_subperm, List.Pairwise.nil, rfl⟩
  ftsArm := by
    refine ⟨(joined crowdedDb.store).map (·.1), ?_, ?_, by decide +kernel⟩
    · simp [ftsRows, crowdedBackend]
    · exact List.pairwise_of_forall fun _ _ => le_refl _
  selected := ⟨fusedCandidates crowdedDb.store [] (List.range 21), List.Perm.refl _,
    by decide +kernel, rfl⟩

/-- The candidates a search of the crowded pool returns are all of the deprecated document. -/
theorem crowded_candidates :
    (candidates exactEnv defaultConfig crowdedSurroundings.boostDay crowdedRows 10).length = 10 ∧
    ∀ c ∈ candidates exactEnv defaultConfig crowdedSurroundings.boostDay crowdedRows 10,
      c.score < 61 / 162 := by decide +kernel

theorem crowded_left_out : ∃ r ∈ fusedCandidates crowdedDb.store [] (List.range 21),
    (applyBoostToChunk exactEnv defaultConfig crowdedSurroundings.boostDay
      (rowToRankedChunk r)).score = 61 / 162 := by decide +kernel

theorem crowded_window : ∀ d ∈ defaultConfig.staleAfterDays,
    ∃ t, crowdedSurroundings.warnDay.subDays d = .ok t := by
  rintro d ⟨⟩
  exact ⟨_, Date.subDays_ok.mpr ⟨by decide, by decide, rfl⟩⟩

/-- The active document's chunk is cut from the fused list before its status could lift it. -/
theorem search_drops_candidate :
    HybridSearch crowdedBackend crowdedDb crowdedRequest.query (crowdedRequest.filters.getD {}) []
      (List.range 21) crowdedRows ∧
    ∃ res, search exactEnv defaultConfig [] crowdedSurroundings crowdedRequest.query
        (crowdedRequest.filters.getD {}) crowdedRequest.maxResults = .ok res ∧
      ¬ BestOf exactEnv defaultConfig crowdedSurroundings.boostDay
        (fusedCandidates crowdedDb.store [] (List.range 21)) crowdedRequest.maxResults
        res.chunks := by
  have he : effectiveQuery exactEnv [] crowdedRequest.query = .ok (crowdedRequest.query, []) := rfl
  have hf : crowdedSurroundings.fetch crowdedRequest.query (crowdedRequest.filters.getD {}) =
      .ok crowdedRows := rfl
  have hres : ∃ res, search exactEnv defaultConfig [] crowdedSurroundings crowdedRequest.query
      (crowdedRequest.filters.getD {}) crowdedRequest.maxResults = .ok res :=
    search_returns rfl he hf crowded_window
  obtain ⟨res, h⟩ := hres
  refine ⟨crowded_hybridSearch _ _, res, h, fun hbest => ?_⟩
  rw [search_chunks he hf h] at hbest
  obtain ⟨hlen, hlow⟩ := crowded_candidates
  obtain ⟨r, hr, hscore⟩ := crowded_left_out
  have hc : candidates exactEnv defaultConfig crowdedSurroundings.boostDay crowdedRows 10 ≠ [] := by
    intro hnil
    simp [hnil] at hlen
  obtain ⟨c, hc⟩ := List.exists_mem_of_ne_nil _ hc
  have hle := hbest.le_of_not_mem hc (List.mem_map_of_mem (List.mem_map_of_mem hr))
    fun hmem => absurd hscore (hlow _ hmem).ne
  rw [hscore] at hle
  exact absurd (hlow c hc) (not_lt.mpr hle)

/-- On the same pool: ten chunks, the best ten of the twenty best fused candidates. -/
theorem search_hybrid_crowded :
    ∃ res, search exactEnv defaultConfig [] crowdedSurroundings crowdedRequest.query
        (crowdedRequest.filters.getD {}) crowdedRequest.maxResults = .ok res ∧
      res.chunks.length = 10 := by
  have h := search_hybrid exactEnv defaultConfig [] crowdedSurroundings crowdedBackend crowdedDb
    crowdedRequest rfl rfl (crowded_hybridSearch crowdedRequest.query {})
  obtain ⟨res, hres⟩ := h.2 rfl crowded_window
  refine ⟨res, hres, ?_⟩
  rw [(h.1 res hres).1]
  decide +kernel

end KnowledgeKiln.L2.HybridSelect
