import KnowledgeKiln.L2Retrieval.Ranking

/-!
# From rows to candidates and warnings

The pure helpers of retrieval/_engine_helpers.py, the query normalization of
retrieval/query_normalization.py, and `HybridRetriever.search`.

* `candidates`: the rows as ranked chunks, boosted, best first, cut to the
  requested number. Every later pass reads this list.
* `collectWarnings_type_iff`: when a warning of a given type is collected.
* `search`: the human-facing result.
-/
namespace KnowledgeKiln.L2.Engine

open KnowledgeKiln.Core KnowledgeKiln.L2.Ranking

/-! ## Query normalization -/

/-- `\b` between the characters `prev` and `next`. -/
def wordBoundary (env : Env) (prev next : Option Char) : Bool :=
  prev.any env.isWord != next.any env.isWord

/-- What is left of `s` after the literal `phrase`, ignoring case. -/
def afterPhrase (env : Env) : Str → Str → Option Str
  | [], s => some s
  | _ :: _, [] => none
  | p :: ps, c :: s => if env.sameLetter p c then afterPhrase env ps s else none

/-- `\b` + phrase + `\b` matches at the start of `s`, behind `prev`. -/
def phraseAt (env : Env) (phrase : Str) (prev : Option Char) (s : Str) : Bool :=
  match afterPhrase env phrase s with
  | none => false
  | some rest =>
    wordBoundary env prev s.head? && 
      wordBoundary env ((s.take phrase.length).getLast?.or prev) rest.head?

/-- `pattern.subn("", s)`, scanning left to right; `skip` characters still belong
to the last match. -/
def subnPhrase (env : Env) (phrase : Str) (skip : Nat) (prev : Option Char) : Str → Str × Nat
  | [] => ([], if phrase.isEmpty && phraseAt env phrase prev [] then 1 else 0)
  | c :: s =>
    match skip with
    | k + 1 => subnPhrase env phrase k (some c) s
    | 0 =>
      if phraseAt env phrase prev (c :: s) then
        let r := subnPhrase env phrase (phrase.length - 1) (some c) s
        (if phrase.isEmpty then c :: r.1 else r.1, r.2 + 1)
      else
        let r := subnPhrase env phrase 0 (some c) s
        (c :: r.1, r.2)

/-- `re.sub(r"\s+", " ", s)` -/
def collapseSpaces (inSpace : Bool) : Str → Str
  | [] => []
  | c :: s =>
    if isSpace c then (if inSpace then collapseSpaces true s else ' ' :: collapseSpaces true s)
    else c :: collapseSpaces false s

/-- The phrases one after the other, each on what the ones before left. -/
def stripPhrases (env : Env) (cleaned : Str) : List Str → Str × List Str
  | [] => (cleaned, [])
  | phrase :: phrases =>
    let (newCleaned, n) := subnPhrase env phrase 0 none cleaned
    if 0 < n then
      let r := stripPhrases env newCleaned phrases
      (r.1, phrase :: r.2)
    else stripPhrases env cleaned phrases

/-- mirrors retrieval/query_normalization.py:35-64 -/
def normalizeQuery (env : Env) (raw : Str) (phrases : List Str) : Str × List Str :=
  if raw = [] ∨ phrases = [] then (raw, [])
  else
    let (cleaned, removed) := stripPhrases env raw phrases
    (strip (collapseSpaces false cleaned), removed)

/-! ## Rows -/

/-- mirrors retrieval/_engine_helpers.py:39-55 -/
def rowToRankedChunk (r : SearchRow) : RankedChunk where
  chunkId := r.chunkId
  documentId := r.documentId
  score := r.score
  status := r.status
  headingPath := r.headingPath
  authority := r.authority
  lastReviewed := r.lastReviewed
  hasPromptInjection := r.hasPromptInjection
  hasSensitiveContent := r.hasSensitiveContent
  chunkMetadata := r.chunkMetadata
  chunkIndex := r.chunkIndex
  chunkCount := r.chunkCount

/-- `boosted.sort(key=score, reverse=True)`, cut to the best `n`, mirrors
retrieval/context_pack.py:116-120 -/
def candidates (env : Env) (config : RetrievalConfig) (today : Date) (rows : List SearchRow)
    (n : Nat) : List RankedChunk :=
  (sortDesc (·.score) (applyBoosts env config today (rows.map rowToRankedChunk))).take n

/-- `{r.chunk_id: r.content for r in rows if r.chunk_id in trimmed_ids}` -/
def chunkText (rows : List SearchRow) (trimmed : List RankedChunk) : Uuid → Option Str :=
  lookupLast ((rows.filter fun r => r.chunkId ∈ trimmed.map (·.chunkId)).map
    fun r => (r.chunkId, r.content))

def rowToDocumentRef (r : SearchRow) : DocumentRef where
  documentId := r.documentId
  title := r.title
  repo := r.repo
  path := r.path
  sourceUrl := r.sourceUrl
  commitSha := r.commitSha
  authority := r.authority
  owner := r.owner

/-- mirrors retrieval/_engine_helpers.py:157-186 -/
def documentRefsFromRows (rows : List SearchRow) : Uuid → Option DocumentRef :=
  lookupFirst (rows.map fun r => (r.documentId, rowToDocumentRef r))

section
variable {env : Env} {config : RetrievalConfig} {today : Date} {rows : List SearchRow} {n : Nat}

theorem candidates_pairwise :
    (candidates env config today rows n).Pairwise fun a b => b.score ≤ a.score :=
  (sortDesc_pairwise _ _).sublist (List.take_sublist _ _)

/-- Every candidate is a boosted row. -/
theorem mem_candidates {c : RankedChunk} (h : c ∈ candidates env config today rows n) :
    ∃ r ∈ rows, applyBoostToChunk env config today (rowToRankedChunk r) = c := by
  have h' := mem_sortDesc.mp (List.mem_of_mem_take h)
  simp only [applyBoosts, List.map_map, List.mem_map, Function.comp] at h'
  exact h'

/-- Every candidate's document has a reference. -/
theorem documentRefs_isSome {c : RankedChunk} (h : c ∈ candidates env config today rows n) :
    (documentRefsFromRows rows c.documentId).isSome = true := by
  obtain ⟨r, hr, rfl⟩ := mem_candidates h
  rw [documentRefsFromRows, lookupFirst_isSome, List.map_map]
  exact List.mem_map.mpr ⟨r, hr, rfl⟩

end

/-! ## Warnings -/

/-- The gates of one retrieval, as the engine reads them off its configuration. -/
structure Gates where
  staleAfterDays : Option Days
  weakEvidenceThreshold : Option ℚ
  relevanceFloor : Option ℚ
  maxWarningRank : Option Nat
  isolatedMatchDropThreshold : Option ℚ

def Gates.ofConfig (config : RetrievalConfig) : Gates where
  staleAfterDays := config.staleAfterDays
  weakEvidenceThreshold := some config.weakEvidenceScoreThreshold
  relevanceFloor := some config.effectiveRelevanceFloor
  maxWarningRank := some config.maxWarningRank
  isolatedMatchDropThreshold := config.isolatedMatchDropThreshold

/-- mirrors retrieval/_engine_helpers.py:58-102 -/
def collectWarnings (env : Env) (chunks : List RankedChunk) (today : Date) (g : Gates) :
    Py (List Warning) := do
  let stale ← staleWarnings chunks today g.staleAfterDays
  pure <| stale ++ deprecatedWarnings chunks ++
    promptInjectionWarnings chunks g.relevanceFloor g.maxWarningRank ++
    sensitiveContentWarnings chunks g.relevanceFloor g.maxWarningRank ++
    weakEvidenceWarning env chunks g.weakEvidenceThreshold ++
    isolatedMatchWarning env chunks g.isolatedMatchDropThreshold g.weakEvidenceThreshold

/-- The emitters of `collectWarnings`, by the type they emit: when they speak. -/
def EmitterFires (env : Env) (chunks : List RankedChunk) (today : Date) (g : Gates) :
    WarningType → Prop
  | .staleSource => ∃ d ∈ g.staleAfterDays, ∃ threshold, today.subDays d = .ok threshold ∧
      ∃ c ∈ chunks, reviewedBefore threshold c = true
  | .deprecatedSource => ∃ c ∈ chunks, c.status ∈ deadStatuses
  | .promptInjectionPattern =>
      ∃ c ∈ gateForWarnings chunks g.relevanceFloor g.maxWarningRank, c.hasPromptInjection = true
  | .sensitiveContent =>
      ∃ c ∈ gateForWarnings chunks g.relevanceFloor g.maxWarningRank, c.hasSensitiveContent = true
  | .weakEvidence => chunks = [] ∨
      topBelow chunks (g.weakEvidenceThreshold.getD weakEvidenceScoreThreshold) = true
  | .isolatedMatch => StandsAlone env g.isolatedMatchDropThreshold
      (g.weakEvidenceThreshold.getD weakEvidenceScoreThreshold) (chunks.map (·.score))
  | .conflictingSources | .queryNormalized | .answerTruncated => False

section
variable {env : Env} {chunks : List RankedChunk} {today : Date} {g : Gates} {ws : List Warning}

/-- Only the stale window can raise. -/
theorem collectWarnings_returns_iff :
    (∃ ws, collectWarnings env chunks today g = .ok ws) ↔
      ∀ d ∈ g.staleAfterDays, ∃ t, today.subDays d = .ok t := by
  unfold collectWarnings staleWarnings
  cases g.staleAfterDays with
  | none => exact ⟨fun _ d hd => (by cases hd), fun _ => ⟨_, rfl⟩⟩
  | some n =>
    constructor
    · rintro ⟨ws, h⟩ d ⟨⟩
      obtain ⟨stale, hs, -⟩ := Py.bind_ok.mp h
      obtain ⟨t, ht, -⟩ := Py.bind_ok.mp hs
      exact ⟨t, ht⟩
    · intro hd
      obtain ⟨t, ht⟩ := hd n rfl
      exact ⟨_, Py.bind_ok.mpr ⟨_, Py.bind_ok.mpr ⟨t, ht, rfl⟩, rfl⟩⟩

theorem collectWarnings_defaulted (h : collectWarnings env chunks today g = .ok ws) {w : Warning}
    (hw : w ∈ ws) : w.Defaulted := by
  obtain ⟨stale, hs, h⟩ := Py.bind_ok.mp h
  rw [Py.pure_ok] at h
  subst h
  simp only [List.mem_append, or_assoc] at hw
  rcases hw with hw | hw | hw | hw | hw | hw
  · exact (staleWarnings_uniform hs w hw).2
  · exact (deprecatedWarnings_uniform _ w hw).2
  · exact (promptInjectionWarnings_uniform w hw).2
  · exact (sensitiveContentWarnings_uniform w hw).2
  · exact (weakEvidenceWarning_uniform w hw).2
  · exact (isolatedMatchWarning_uniform w hw).2

/-- A type is among the collected warnings exactly when its emitter speaks. -/
theorem collectWarnings_type_iff (hs : chunks.Pairwise fun a b => b.score ≤ a.score)
    (h : collectWarnings env chunks today g = .ok ws) (t : WarningType) :
    (∃ w ∈ ws, w.type = t) ↔ EmitterFires env chunks today g t := by
  obtain ⟨stale, hst, h⟩ := Py.bind_ok.mp h
  rw [Py.pure_ok] at h
  subst h
  simp only [List.mem_append, or_and_right, exists_or,
    (staleWarnings_uniform hst).exists_type_iff (p := (· = t)),
    (deprecatedWarnings_uniform chunks).exists_type_iff (p := (· = t)),
    promptInjectionWarnings_uniform.exists_type_iff (p := (· = t)),
    sensitiveContentWarnings_uniform.exists_type_iff (p := (· = t)),
    weakEvidenceWarning_uniform.exists_type_iff (p := (· = t)),
    isolatedMatchWarning_uniform.exists_type_iff (p := (· = t))]
  rw [staleWarnings_ne_nil hst]
  simp only [ne_eq, deprecatedWarnings_eq_nil, promptInjectionWarnings_eq_nil,
    sensitiveContentWarnings_eq_nil, weakEvidenceWarning_eq_nil, isolatedMatchWarning_eq_nil hs]
  cases t <;> simp [EmitterFires, or_iff_not_imp_left]

end

def conflictWarning (env : Env) (c : Conflict) : Py Warning :=
  if h : c.topic = [] then throw (.validationError "ConflictingSourcesWarning")
  else pure <| downgradeToFlat <| .conflictingSources
    { message := natStr c.sourceIds.length ++ " active sources address " ++
        strRepr env.isPrintable c.topic ++ "."
      sourceIds := c.sourceIds
      topic := c.topic
      two_le_sourceIds := c.two_le_sourceIds
      topic_ne := h }

theorem conflictWarning_returns_iff {env : Env} {c : Conflict} :
    (∃ w, conflictWarning env c = .ok w) ↔ c.topic ≠ [] := by
  unfold conflictWarning
  split
  · rename_i h
    simp [h]
  · rename_i h
    exact ⟨fun _ => h, fun _ => ⟨_, rfl⟩⟩

/-- mirrors retrieval/_engine_helpers.py:105-130 -/
def conflictWarnings (env : Env) (conflicts : List Conflict) : Py (List Warning) :=
  Py.mapM (conflictWarning env) conflicts

/-- mirrors retrieval/_engine_helpers.py:133-154 -/
def queryNormalizedWarning (env : Env) (removedPhrases : List Str) (h : removedPhrases ≠ []) :
    Warning :=
  let sample := join ", " ((removedPhrases.take 3).map (strRepr env.isPrintable))
  let suffix : Str :=
    if 3 < removedPhrases.length then " (and " ++ natStr (removedPhrases.length - 3) ++ " more)"
    else []
  downgradeToFlat <| .queryNormalized
    { message := "Query contained prompt-injection markers; stripped before retrieval: ".toList ++
        sample ++ suffix ++ "."
      removedPhrases := removedPhrases
      removedPhrases_ne := h }

theorem conflictWarnings_uniform {env : Env} {conflicts : List Conflict} {ws : List Warning}
    (h : conflictWarnings env conflicts = .ok ws) : Uniform .conflictingSources ws := by
  intro w hw
  obtain ⟨c, -, hc⟩ := Py.mem_of_mapM h hw
  unfold conflictWarning at hc
  split at hc
  · simp at hc
  · cases hc
    exact ⟨rfl, downgradeToFlat_defaulted rfl⟩

theorem conflictWarnings_names {env : Env} {conflicts : List Conflict} {ws : List Warning}
    (h : conflictWarnings env conflicts = .ok ws) {w : Warning} (hw : w ∈ ws) :
    w.sourceId = none := by
  obtain ⟨c, -, hc⟩ := Py.mem_of_mapM h hw
  unfold conflictWarning at hc
  split at hc
  · simp at hc
  · cases hc
    rfl

theorem conflictWarnings_eq_nil {env : Env} {conflicts : List Conflict} {ws : List Warning}
    (h : conflictWarnings env conflicts = .ok ws) : ws = [] ↔ conflicts = [] := by
  have hl := Py.mapM_ok_length h
  rw [← List.length_eq_zero_iff, hl, List.length_eq_zero_iff]

/-- `if removed_phrases: warnings.append(query_normalized_warning(removed_phrases))` -/
def normalizationWarnings (env : Env) (removed : List Str) : List Warning :=
  if h : removed ≠ [] then [queryNormalizedWarning env removed h] else []

theorem normalizationWarnings_uniform {env : Env} {removed : List Str} :
    Uniform .queryNormalized (normalizationWarnings env removed) := by
  unfold normalizationWarnings
  split
  · exact Uniform.singleton rfl
  · exact Uniform.nil _

theorem normalizationWarnings_names {env : Env} {removed : List Str} {w : Warning}
    (h : w ∈ normalizationWarnings env removed) : w.sourceId = none := by
  unfold normalizationWarnings at h
  split at h
  · rw [List.mem_singleton.mp h]
    rfl
  · cases h

theorem normalizationWarnings_eq_nil {env : Env} {removed : List Str} :
    normalizationWarnings env removed = [] ↔ removed = [] := by
  unfold normalizationWarnings
  split <;> simp_all

/-- mirrors retrieval/_engine_helpers.py:189-191 -/
def requireNonempty (query : Str) : Py Unit :=
  if query = [] ∨ strip query = [] then throw (.valueError "query must be a non-empty string")
  else pure ()

/-! ## Search -/

/-- What one call reads from outside: the candidate fetch, and the day each of the
two `date.today()` calls returns. -/
structure Surroundings where
  fetch : Str → RetrievalFilters → Py (List SearchRow)
  boostDay : Date
  warnDay : Date

/-- The query retrieval runs on, and the phrases that were removed from the caller's. -/
def effectiveQuery (env : Env) (phrases : List Str) (query : Str) : Py (Str × List Str) :=
  let (cleaned, removed) := normalizeQuery env query phrases
  if removed ≠ [] ∧ cleaned = [] then
    throw (.valueError "query consists entirely of prompt-injection markers")
  else pure (if removed ≠ [] then cleaned else query, removed)

/-- Normalize, then fetch: the rows, and the phrases that were removed. -/
def retrieve (env : Env) (phrases : List Str) (sur : Surroundings) (query : Str)
    (filters : RetrievalFilters) : Py (List SearchRow × List Str) := do
  let (effective, removed) ← effectiveQuery env phrases query
  let rows ← sur.fetch effective filters
  pure (rows, removed)

/-- mirrors retrieval/engine.py:160-225 -/
def search (env : Env) (config : RetrievalConfig) (phrases : List Str) (sur : Surroundings)
    (query : Str) (filters : RetrievalFilters) (maxResults : Nat) : Py SearchResult := do
  requireNonempty query
  let (rows, removed) ← retrieve env phrases sur query filters
  let trimmed := candidates env config sur.boostDay rows maxResults
  let warnings ← collectWarnings env trimmed sur.warnDay (Gates.ofConfig config)
  pure
    { chunks := trimmed
      warnings := warnings ++ normalizationWarnings env removed
      documentRefs := documentRefsFromRows rows
      chunkText := chunkText rows trimmed }

end KnowledgeKiln.L2.Engine
