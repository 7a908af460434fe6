import KnowledgeKiln.L2Retrieval.Filters
import KnowledgeKiln.L3Agent.Answer

/-!
# Filters from the request to the prompt

The filters of a request reach the database as a WHERE clause and nowhere else. What a search, a
context pack or an answer shows is drawn from the rows that come back, so the filters hold of it:
with an embedding provider and without, whatever HyDE makes of the query.

* `synthesize_pack`: an answer's evidence, and the generator's, is that of its pack.
* `filters_enforced`: every chunk that leaves the engine is of a document the filters ask for.
-/
namespace KnowledgeKiln.L3.FilteredEvidence

open KnowledgeKiln.Core KnowledgeKiln.L2 KnowledgeKiln.L2.Engine KnowledgeKiln.L2.Hybrid
  KnowledgeKiln.L2.HybridSelect KnowledgeKiln.L2.Filters KnowledgeKiln.L3.Serializers
  KnowledgeKiln.L3.ContextPack KnowledgeKiln.L3.Answer
open KnowledgeKiln.L2.Fusion (exactEnv)

/-- The id is that of a stored chunk, and the filters ask for its document. -/
def Admitted (jsonText : Json → Str) (st : L1.FileProcessing.Store) (filters : RetrievalFilters)
    (chunkId : Uuid) : Prop :=
  ∃ c d, Joined st c d ∧ c.id = chunkId ∧ Admits jsonText filters d

/-- The fetch runs `_run_query` against the database, with the predicates of the filters. -/
def Fetches (sur : Surroundings) (b : SearchBackend) (jsonText : Json → Str) (provider : Bool)
    (db : L1.Embedding.Db) : Prop :=
  ∀ query filters rows, sur.fetch query filters = .ok rows →
    RunQuery (filtered b jsonText) provider db query filters rows

section
variable {env : Env} {sur : Surroundings} {b : SearchBackend} {jsonText : Json → Str}
  {provider : Bool} {db : L1.Embedding.Db} {phrases : List Str} {query : Str}
  {filters : RetrievalFilters} {rows : List SearchRow} {removed : List Str}

/-- Normalizing the query leaves the filters alone. -/
theorem retrieve_admitted (hf : Fetches sur b jsonText provider db)
    (h : retrieve env phrases sur query filters = .ok (rows, removed)) {r : SearchRow}
    (hr : r ∈ rows) : Admitted jsonText db.store filters r.chunkId := by
  obtain ⟨⟨effective, removed'⟩, -, h⟩ := Py.bind_ok.mp h
  obtain ⟨rows', hrows, h⟩ := Py.bind_ok.mp h
  cases h
  obtain ⟨c, d, hj, he, hadmits⟩ := (hf _ _ _ hrows).admitted hr
  refine ⟨c, d, hj, ?_, hadmits⟩
  rw [he]
  rfl

theorem candidates_admitted (hf : Fetches sur b jsonText provider db)
    (h : retrieve env phrases sur query filters = .ok (rows, removed)) {config : RetrievalConfig}
    {n : Nat} {c : RankedChunk} (hc : c ∈ candidates env config sur.boostDay rows n) :
    Admitted jsonText db.store filters c.chunkId := by
  obtain ⟨r, hr, rfl⟩ := mem_candidates hc
  exact retrieve_admitted hf h hr

theorem search_admitted (hf : Fetches sur b jsonText provider db) {config : RetrievalConfig}
    {n : Nat} {res : SearchResult}
    (h : search env config phrases sur query filters n = .ok res) :
    ∀ c ∈ res.chunks, Admitted jsonText db.store filters c.chunkId := by
  obtain ⟨_, -, h⟩ := Py.bind_ok.mp h
  obtain ⟨⟨rows, removed⟩, hr, h⟩ := Py.bind_ok.mp h
  obtain ⟨ws, -, h⟩ := Py.bind_ok.mp h
  cases h
  exact fun c hc => candidates_admitted hf hr hc

theorem pack_admitted {k : Call} (hf : Fetches k.sur b jsonText provider db)
    {pack : ContextPackResponse} (h : buildContextPack env k = .ok pack) :
    ∀ e ∈ pack.evidence, Admitted jsonText db.store k.filters e.chunkId := by
  intro e he
  obtain ⟨rows, removed, hr, hp⟩ := build_ok h
  obtain ⟨kept, cited, hb⟩ := packFromRows_ok hp
  obtain ⟨c, hc, hid, -⟩ := hb.assembled.mem_evidence he
  rw [hid]
  exact candidates_admitted hf hr (hb.mem_kept hc).1

end

/-- A response carries the evidence of its pack, refused or not, and so does the prompt. -/
theorem synthesize_pack {env : Env} {config : RetrievalConfig} {phrases : List Str}
    {sur : Surroundings} {packId answerId : Uuid} {generator : Generator}
    {request : AnswerRequest} :
    (∀ r, (synthesizeAnswer env config phrases sur packId answerId generator request).2 = .ok r →
      ∃ pack, buildContextPack env (packCall config phrases sur packId request) = .ok pack ∧
        r.evidence = pack.evidence) ∧
    ∀ call ∈ (synthesizeAnswer env config phrases sur packId answerId generator request).1,
      ∃ pack, buildContextPack env (packCall config phrases sur packId request) = .ok pack ∧
        call.prompt = buildSynthesisPrompt request.query pack.evidence := by
  constructor
  · intro r h
    unfold synthesizeAnswer at h
    split at h
    · cases h
    rename_i pack hb
    refine ⟨pack, hb, ?_⟩
    split at h
    · cases h
      rfl
    split at h
    · cases h
      rfl
    obtain ⟨result, -, rfl⟩ := Py.exists_of_map_eq h
    unfold packageResult
    dsimp only
    split <;> rfl
  · intro call hc
    rcases generate_only_ungated env config phrases sur packId answerId generator request with
      h | ⟨pack, hb, -, h⟩
    · rw [h] at hc
      cases hc
    · rw [h, List.mem_singleton] at hc
      exact ⟨pack, hb, by rw [hc]⟩

/-- **Filters.** With a provider or without, every chunk of a search result, of a context pack, of
an answer and of the prompt behind it is a stored chunk of a document that the filters of the
request ask for. -/
theorem filters_enforced (env : Env) (config : RetrievalConfig) (phrases : List Str)
    (sur : Surroundings) (b : SearchBackend) (jsonText : Json → Str) (provider : Bool)
    (db : L1.Embedding.Db) (hf : Fetches sur b jsonText provider db) :
    (∀ (req : SearchRequest) res,
      search env config phrases sur req.query (req.filters.getD {}) req.maxResults = .ok res →
      ∀ c ∈ res.chunks, Admitted jsonText db.store (req.filters.getD {}) c.chunkId) ∧
    (∀ (k : Call) pack, k.sur = sur → buildContextPack env k = .ok pack →
      ∀ e ∈ pack.evidence, Admitted jsonText db.store k.filters e.chunkId) ∧
    ∀ packId answerId generator (req : AnswerRequest),
      (∀ r, (synthesizeAnswer env config phrases sur packId answerId generator req).2 = .ok r →
        ∀ e ∈ r.evidence, Admitted jsonText db.store (req.filters.getD {}) e.chunkId) ∧
      ∀ call ∈ (synthesizeAnswer env config phrases sur packId answerId generator req).1,
        ∃ evidence, call.prompt = buildSynthesisPrompt req.query evidence ∧
          ∀ e ∈ evidence, Admitted jsonText db.store (req.filters.getD {}) e.chunkId := by
  refine ⟨fun req res h => search_admitted hf h, ?_, fun packId answerId generator req => ⟨?_, ?_⟩⟩
  · rintro k pack rfl h
    exact pack_admitted hf h
  · intro r hr
    obtain ⟨pack, hb, he⟩ := synthesize_pack.1 r hr
    rw [he]
    exact pack_admitted hf hb
  · intro call hc
    obtain ⟨pack, hb, hp⟩ := synthesize_pack.2 call hc
    exact ⟨pack.evidence, hp, pack_admitted hf hb⟩

/-! ## A prefix that is no wildcard -/

/-- The full-text fallback on the crowded pool. -/
def fallbackRows (query : Str) (filters : RetrievalFilters) : List SearchRow :=
  ((ftsOnlyRows (filtered crowdedBackend plainText) crowdedDb.store query filters).take
    ftsLimit).map fun p => searchRow crowdedDb.store (ftsScore crowdedBackend query p.1) p.1 p.2

def fallbackSurroundings : Surroundings :=
  { crowdedSurroundings with fetch := fun query filters => .ok (fallbackRows query filters) }

theorem fallback_fetches :
    Fetches fallbackSurroundings crowdedBackend plainText false crowdedDb := by
  rintro query filters rows ⟨⟩
  exact ⟨_, List.Perm.refl _, List.pairwise_of_forall fun _ _ => le_refl _, rfl⟩

theorem newOnly_count : (["new".toList] : List Str).length ≤ maxFilterItems := by decide

/-- Documents below `new`. -/
def newOnly : RetrievalFilters := { pathPrefix := some ⟨["new".toList], newOnly_count⟩ }

theorem fallback_candidates :
    (candidates exactEnv defaultConfig fallbackSurroundings.boostDay
      (fallbackRows "deploy" newOnly) 10).length = 1 := by
  decide +kernel

/-- Only the active document's chunk is below the prefix. -/
theorem filters_enforced_fallback :
    ∃ res, search exactEnv defaultConfig [] fallbackSurroundings crowdedRequest.query newOnly
        crowdedRequest.maxResults = .ok res ∧
      res.chunks.length = 1 ∧
      ∀ c ∈ res.chunks, Admitted plainText crowdedDb.store newOnly c.chunkId := by
  have he : effectiveQuery exactEnv [] crowdedRequest.query = .ok (crowdedRequest.query, []) := rfl
  have hf : fallbackSurroundings.fetch crowdedRequest.query newOnly =
      .ok (fallbackRows crowdedRequest.query newOnly) := rfl
  have hres : ∃ res, search exactEnv defaultConfig [] fallbackSurroundings crowdedRequest.query
      newOnly crowdedRequest.maxResults = .ok res := search_returns rfl he hf crowded_window
  obtain ⟨res, h⟩ := hres
  refine ⟨res, h, ?_, ?_⟩
  · rw [search_chunks he hf h]
    exact fallback_candidates
  · exact (filters_enforced exactEnv defaultConfig [] fallbackSurroundings crowdedBackend plainText
      false crowdedDb fallback_fetches).1 { crowdedRequest with filters := some newOnly } res h

end KnowledgeKiln.L3.FilteredEvidence
