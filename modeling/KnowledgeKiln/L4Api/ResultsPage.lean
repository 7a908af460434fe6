import KnowledgeKiln.Core.OrderedDict
import KnowledgeKiln.L2Retrieval.Sections
import KnowledgeKiln.L3Agent.PackTotal
import KnowledgeKiln.L4Api.ResultCards
import KnowledgeKiln.L4Api.UrlState

/-!
# The page of results (`api/result_cards.py`, `api/views.py`, `api/freshness.py`)

One search result becomes the cards of the HTML page and the cards of the JSON response. The page
hangs each warning of the engine on the cards of the document it names, and shows the others above
the list.

* `splitWarnings_above`, `splitWarnings_hung`: which warnings go where.
* `collectWarnings_byType`, `sourceId_collected`: the warnings of the engine by their types; the
  document that one names has a chunk among the results.
* `response_agrees`: the cards of the JSON response are those of the page.
* `page_honest`: what a reader of the page is told about the stored documents.
-/
namespace KnowledgeKiln.L4.ResultsPage

open KnowledgeKiln.Core KnowledgeKiln.L1.FileProcessing KnowledgeKiln.L2 KnowledgeKiln.L2.Engine
  KnowledgeKiln.L2.Ranking KnowledgeKiln.L2.Hybrid KnowledgeKiln.L2.Sections
  KnowledgeKiln.L3.Serializers

/-! ## Freshness -/

inductive Bucket
  | fresh | recent | aging | stale
  deriving DecidableEq, Repr

/-- mirrors api/freshness.py:40-69; `today` is what `date.today()` returned. -/
def freshnessBucket (today : Date) : Option Date → Option Bucket
  | none => none
  | some d =>
    let deltaDays := today.daysSince d
    if deltaDays < 0 then some .stale
    else if deltaDays < 180 then some .fresh
    else if deltaDays < 365 then some .recent
    else if deltaDays < 730 then some .aging
    else some .stale

/-- mirrors api/freshness.py:72-105 -/
def freshnessLabel (today : Date) : Option Date → Option Str
  | none => none
  | some d =>
    let deltaDays := today.daysSince d
    if deltaDays < 0 then some ("Reviewed ".toList ++ d.isoformat)
    else if deltaDays = 0 then some "Reviewed today"
    else if deltaDays = 1 then some "Reviewed yesterday"
    else if deltaDays < 60 then some ("Reviewed ".toList ++ intStr deltaDays ++ " days ago")
    else
      let months := deltaDays / 30
      if months < 24 then
        some ("Reviewed ".toList ++ intStr months ++
          (if months = 1 then " month ago" else " months ago" : String).toList)
      else
        let years := deltaDays / 365
        some ("Reviewed ".toList ++ intStr years ++
          (if years = 1 then " year ago" else " years ago" : String).toList)

/-! ## Tables -/

/-- `_SCORE_TIERS` and `score_tier` in exact arithmetic, mirrors api/views.py:114-133 -/
def scoreTier (score : ℚ) : Nat :=
  if 85 / 100 ≤ score then 5
  else if 65 / 100 ≤ score then 4
  else if 50 / 100 ≤ score then 3
  else if 46 / 100 ≤ score then 2
  else 1

/-- `_DEPRECATION_LABELS` -/
def deprecationLabels : List (Str × Str) :=
  [("deprecated".toList, "Deprecated · do not cite".toList),
    ("archived".toList, "Archived · historical reference".toList),
    ("superseded".toList, "Superseded · see successor".toList)]

/-- `_STATUS_TOOLTIPS` -/
def statusTooltips : List (Str × Str) :=
  [("active".toList, "Current — the canonical version.".toList),
    ("approved".toList, "Approved — reviewed and signed off.".toList),
    ("draft".toList, "Draft — not yet approved as authoritative.".toList),
    ("deprecated".toList, "Deprecated — superseded; do not cite as current.".toList),
    ("archived".toList, "Archived — kept for historical reference.".toList),
    ("superseded".toList, "Superseded — see the linked successor.".toList)]

/-- `_AUTHORITY_TOOLTIPS` -/
def authorityTooltips : List (Str × Str) :=
  [("platform".toList, "Platform — canonical owner-team doc.".toList),
    ("security".toList, "Security — hardening or threat-model authoritative.".toList),
    ("standards".toList, "Standards — org-wide policy.".toList),
    ("compliance".toList, "Compliance — audit / regulatory backing.".toList),
    ("ops".toList, "Ops — operational runbook authoritative.".toList),
    ("engineering".toList, "Engineering — practice or pattern authoritative.".toList),
    ("operator".toList, "Operator — team-curated, not org-wide canonical.".toList),
    ("community".toList, "Community — peer-contributed, less authoritative.".toList),
    ("experimental".toList, "Experimental — under evaluation.".toList)]

def deprecationLabel (status : Str) : Option Str := lookupFirst deprecationLabels status

def statusTooltip (status : Str) : Option Str := lookupFirst statusTooltips status

def authorityTooltip : Option Str → Option Str
  | none => none
  | some authority => if authority = [] then none else lookupFirst authorityTooltips authority

/-! ## Warnings -/

/-- `_WARNING_COPY`: the prefix, and the text in place of the engine's unless it is empty. -/
def warningCopy : WarningType → Option (Str × Str)
  | .weakEvidence => some ("Confidence is low —",
      "I found related content, but no clearly authoritative source.")
  | .conflictingSources => some ("Sources disagree —",
      "I found multiple sources that may conflict. Prefer active/approved docs unless you are researching history.")
  | .staleSource => some ("Source is stale —", "")
  | .deprecatedSource => some ("Document is deprecated —", "")
  | .promptInjectionPattern => some ("Caution —", "")
  | .sensitiveContent => some ("Sensitive content —", "")
  | .queryNormalized => some ("Query was normalized —", "")
  | .isolatedMatch | .answerTruncated => none

/-- A warning as the template reads it. -/
structure Shown where
  type : WarningType
  warningPrefix : Str
  message : Str
  sourceId : Option Uuid
  severity : Severity
  deriving DecidableEq, Repr

/-- mirrors api/views.py:52-82; the severity is the one of the policy table. -/
def humanizeWarning (w : Warning) : Shown :=
  let copy := (warningCopy w.type).getD ([], w.message)
  { type := w.type
    warningPrefix := copy.1
    message := if copy.2 = [] then w.message else copy.2
    sourceId := w.sourceId
    severity := (warningPolicy w.type).1 }

/-- `d.setdefault(k, []).append(a)` -/
def appendTo {α : Type} (d : OrderedDict Uuid (List α)) (k : Uuid) (a : α) :
    OrderedDict Uuid (List α) :=
  d.set k ((d.get k).getD [] ++ [a])

/-- The loop of `split_warnings`. -/
def splitLoop (resultDocumentIds : List Uuid) (globalWarnings : List Shown)
    (perDoc : OrderedDict Uuid (List Shown)) :
    List Shown → List Shown × OrderedDict Uuid (List Shown)
  | [] => (globalWarnings, perDoc)
  | w :: ws =>
    match w.sourceId with
    | none => splitLoop resultDocumentIds (globalWarnings ++ [w]) perDoc ws
    | some sid =>
      if sid ∈ resultDocumentIds then
        splitLoop resultDocumentIds globalWarnings (appendTo perDoc sid w) ws
      else splitLoop resultDocumentIds (globalWarnings ++ [w]) perDoc ws

/-- mirrors api/views.py:463-485 -/
def splitWarnings (warnings : List Shown) (resultDocumentIds : List Uuid) :
    List Shown × OrderedDict Uuid (List Shown) :=
  splitLoop resultDocumentIds [] .empty warnings

/-! ## Cards -/

/-- A card of the page. -/
structure Card where
  chunkId : Uuid
  documentId : Uuid
  title : Str
  excerpt : Str
  excerptHtml : Str
  excerptFullHtml : Str
  headingPath : Option (List Str)
  headingPathStr : Str
  repo : Option Str
  path : Option Str
  sourceUrl : Option Str
  owner : Option Str
  status : Str
  lastReviewed : Option Date
  freshnessBucket : Option Bucket
  freshnessLabel : Option Str
  score : ℚ
  scoreTier : Nat
  deprecationLabel : Option Str
  statusTooltip : Option Str
  authority : Option Str
  authorityTooltip : Option Str
  chunkIndex : Nat
  chunkCount : Option Nat
  warnings : List Shown

/-- `x or y` of two texts that may be missing. -/
def strOr (x y : Option Str) : Option Str := if x.any (· ≠ []) then x else y

/-- `getattr(ref, "title", None) or "(unknown)"` -/
def titleOf (ref : Option DocumentRef) : Str :=
  (strOr (ref.map (·.title)) (some "(unknown)".toList)).getD []

def authorityOf (chunk : RankedChunk) (ref : Option DocumentRef) : Option Str :=
  strOr (ref.bind (·.authority)) chunk.authority

def headingPathOf (chunk : RankedChunk) : Option (List Str) :=
  if chunk.headingPath = [] then none else some chunk.headingPath

/-- `chunk.chunk_count or None` -/
def chunkCountOf (chunk : RankedChunk) : Option Nat :=
  if chunk.chunkCount = 0 then none else some chunk.chunkCount

/-- What a page reads from outside: `markupsafe.escape`, and what the two calls of `date.today()`
return for each card. -/
structure Render where
  escape : Str → Str
  bucketDay : Uuid → Date
  labelDay : Uuid → Date

/-- mirrors api/result_cards.py:62-140; the warnings are hung on later. -/
def resultCardView (env : Env) (render : Render) (chunk : RankedChunk) (ref : Option DocumentRef)
    (content query : Str) (warnings : List Shown) : Card :=
  let excerpt := content.take 500
  let highlight := ResultCards.highlightExcerpt render.escape env.sameLetter
  { chunkId := chunk.chunkId
    documentId := chunk.documentId
    title := titleOf ref
    excerpt := excerpt
    excerptHtml := highlight excerpt query
    excerptFullHtml := highlight content query
    headingPath := headingPathOf chunk
    headingPathStr := ((headingPathOf chunk).map (join " > ")).getD []
    repo := ref.bind (·.repo)
    path := ref.bind (·.path)
    sourceUrl := ref.bind (·.sourceUrl)
    owner := ref.bind (·.owner)
    status := chunk.status
    lastReviewed := chunk.lastReviewed
    freshnessBucket := freshnessBucket (render.bucketDay chunk.chunkId) chunk.lastReviewed
    freshnessLabel := freshnessLabel (render.labelDay chunk.chunkId) chunk.lastReviewed
    score := chunk.score
    scoreTier := scoreTier chunk.score
    deprecationLabel := deprecationLabel chunk.status
    statusTooltip := statusTooltip chunk.status
    authority := authorityOf chunk ref
    authorityTooltip := authorityTooltip (authorityOf chunk ref)
    chunkIndex := chunk.chunkIndex
    chunkCount := chunkCountOf chunk
    warnings := warnings }

/-- What `_results.html` is rendered from. -/
structure Page where
  query : Str
  results : List Card
  warnings : List Shown
  selectedStatuses : List Status

/-- The success path of both handlers, mirrors api/web.py:221-263 and
api/web_url_state.py:205-234 -/
def resultsPage (env : Env) (render : Render) (r : UrlState.Retrieval) (result : SearchResult) :
    Page :=
  let split := splitWarnings (result.warnings.map humanizeWarning)
    (result.chunks.map (·.documentId))
  { query := r.query
    results := result.chunks.map fun c =>
      resultCardView env render c (result.documentRefs c.documentId)
        ((result.chunkText c.chunkId).getD []) r.query ((split.2.get c.documentId).getD [])
    warnings := split.1
    selectedStatuses := (r.filters.status.map (·.val)).getD [] }

/-! ## The JSON response -/

/-- retrieval/types.py:193-235; `warnings` of a card is never set. -/
structure ResultCard where
  chunkId : Uuid
  documentId : Uuid
  title : Str
  excerpt : Str
  headingPath : Option (List Str)
  repo : Option Str
  path : Option Str
  sourceUrl : Option Str
  commitSha : Option Str
  status : Str
  owner : Option Str
  lastReviewed : Option Date
  score : ℚ
  chunkIndex : Option Nat
  chunkCount : Option Nat
  authority : Option Str
  score_nonneg : 0 ≤ score

structure SearchResponse where
  query : Str
  results : List ResultCard
  warnings : Option (List Warning)

/-- mirrors api/retrieval.py:245-287; Pydantic refuses a negative score. -/
def chunkToResultCard (env : Env) (chunk : RankedChunk) (ref : Option DocumentRef)
    (content : Str) : Py ResultCard := do
  let sourceUrl ← validateUrl env (ref.bind (·.sourceUrl))
  if h : 0 ≤ chunk.score then
    pure
      { chunkId := chunk.chunkId
        documentId := chunk.documentId
        title := titleOf ref
        excerpt := content.take 500
        headingPath := headingPathOf chunk
        repo := ref.bind (·.repo)
        path := ref.bind (·.path)
        sourceUrl := sourceUrl
        commitSha := ref.bind (·.commitSha)
        status := chunk.status
        owner := ref.bind (·.owner)
        lastReviewed := chunk.lastReviewed
        score := chunk.score
        chunkIndex := some chunk.chunkIndex
        chunkCount := chunkCountOf chunk
        authority := authorityOf chunk ref
        score_nonneg := h }
  else throw (.validationError "ResultCard")

/-- The response of `human_search`, mirrors api/retrieval.py:115-127 -/
def searchResponse (env : Env) (query : Str) (result : SearchResult) : Py SearchResponse := do
  let results ← Py.mapM (fun c => chunkToResultCard env c (result.documentRefs c.documentId)
    ((result.chunkText c.chunkId).getD [])) result.chunks
  pure { query, results, warnings := if result.warnings = [] then none else some result.warnings }

/-! ## Which warnings go where -/

section
variable {ids : List Uuid} {id : Uuid}

theorem get_appendTo {α : Type} {d : OrderedDict Uuid (List α)} {k : Uuid} {a : α} :
    ((appendTo d k a).get id).getD [] = (d.get id).getD [] ++ if k = id then [a] else [] := by
  rw [appendTo, OrderedDict.get_set]
  by_cases h : id = k
  · rw [if_pos h, if_pos h.symm, h, Option.getD_some]
  · rw [if_neg h, if_neg (Ne.symm h), List.append_nil]

/-- The warning names the document of a result. -/
def hung (ids : List Uuid) (w : Shown) : Bool := w.sourceId.any (· ∈ ids)

theorem splitLoop_spec : ∀ (ws globalWarnings : List Shown)
    (perDoc : OrderedDict Uuid (List Shown)),
    (splitLoop ids globalWarnings perDoc ws).1 = globalWarnings ++ ws.filter (!hung ids ·) ∧
    ((splitLoop ids globalWarnings perDoc ws).2.get id).getD [] =
      (perDoc.get id).getD [] ++ ws.filter fun w => hung ids w && w.sourceId == some id
  | [], _, _ => by simp [splitLoop]
  | w :: ws, globalWarnings, perDoc => by
    unfold splitLoop
    split
    · rename_i hs
      have hw : hung ids w = false := by simp [hung, hs]
      obtain ⟨h1, h2⟩ := splitLoop_spec ws (globalWarnings ++ [w]) perDoc
      rw [h1, h2]
      simp [hw]
    · rename_i sid hs
      split
      · rename_i hmem
        have hw : hung ids w = true := by simp [hung, hs, hmem]
        obtain ⟨h1, h2⟩ := splitLoop_spec ws globalWarnings (appendTo perDoc sid w)
        rw [h1, h2, get_appendTo]
        by_cases he : sid = id <;> simp [hw, hs, he]
      · rename_i hmem
        have hw : hung ids w = false := by simp [hung, hs, hmem]
        obtain ⟨h1, h2⟩ := splitLoop_spec ws (globalWarnings ++ [w]) perDoc
        rw [h1, h2]
        simp [hw]

/-- The warnings that name no result stay above the list, in order. -/
theorem splitWarnings_above (ws : List Shown) :
    (splitWarnings ws ids).1 = ws.filter (!hung ids ·) :=
  (@splitLoop_spec ids 0 ws [] .empty).1

/-- The warnings that name a result go to its document, in order. -/
theorem splitWarnings_hung (ws : List Shown) (h : id ∈ ids) :
    ((splitWarnings ws ids).2.get id).getD [] = ws.filter (·.sourceId == some id) := by
  refine (@splitLoop_spec ids id ws [] .empty).2.trans (List.filter_congr fun w _ => ?_)
  by_cases hs : w.sourceId = some id <;> simp [hung, hs, h]

end

/-! ## What the engine warns about -/

/-- Warnings of one type, cut down to a type. -/
theorem filter_uniform {t : WarningType} {l : List Warning} (h : Uniform t l) (t' : WarningType) :
    l.filter (·.type = t') = if t = t' then l else [] := by
  split
  · rename_i he
    exact List.filter_eq_self.mpr fun w hw => decide_eq_true ((h w hw).1.trans he)
  · rename_i hne
    refine List.filter_eq_nil_iff.mpr fun w hw ht => hne ?_
    exact (h w hw).1.symm.trans (of_decide_eq_true ht)

section
variable {env : Env} {chunks : List RankedChunk} {today : Date} {g : Gates} {ws : List Warning}
  {removed : List Str} {id : Uuid}

/-- The warnings of one retrieval, taken apart by type. -/
structure ByType (env : Env) (chunks : List RankedChunk) (today : Date) (g : Gates)
    (ws : List Warning) : Prop where
  stale : staleWarnings chunks today g.staleAfterDays = .ok (ws.filter (·.type = .staleSource))
  deprecated : ws.filter (·.type = .deprecatedSource) = deprecatedWarnings chunks
  injection : ws.filter (·.type = .promptInjectionPattern) =
    promptInjectionWarnings chunks g.relevanceFloor g.maxWarningRank
  sensitive : ws.filter (·.type = .sensitiveContent) =
    sensitiveContentWarnings chunks g.relevanceFloor g.maxWarningRank
  weak : ws.filter (·.type = .weakEvidence) = weakEvidenceWarning env chunks g.weakEvidenceThreshold

theorem collectWarnings_byType (h : collectWarnings env chunks today g = .ok ws) :
    ByType env chunks today g (ws ++ normalizationWarnings env removed) := by
  obtain ⟨stale, hs, h⟩ := Py.bind_ok.mp h
  rw [Py.pure_ok] at h
  subst h
  have hstale := filter_uniform (staleWarnings_uniform hs)
  have hdeprecated := filter_uniform (deprecatedWarnings_uniform chunks)
  have hinjection := filter_uniform
    (@promptInjectionWarnings_uniform chunks g.relevanceFloor g.maxWarningRank)
  have hsensitive := filter_uniform
    (@sensitiveContentWarnings_uniform chunks g.relevanceFloor g.maxWarningRank)
  have hweak := filter_uniform
    (@weakEvidenceWarning_uniform env chunks g.weakEvidenceThreshold)
  have hisolated := filter_uniform
    (@isolatedMatchWarning_uniform env chunks g.isolatedMatchDropThreshold g.weakEvidenceThreshold)
  have hnormalized := filter_uniform (@normalizationWarnings_uniform env removed)
  constructor <;>
    simp [hstale, hdeprecated, hinjection, hsensitive, hweak, hisolated, hnormalized, hs]

/-- Which documents get a warning of a loop that emits one for each document. -/
theorem onePerDocument_names {emit : RankedChunk → Option Warning}
    (hemit : ∀ c w, emit c = some w → w.sourceId = some c.documentId) :
    ∀ {cs : List RankedChunk} {seen : List Uuid}, id ∉ seen →
      ((∃ w ∈ onePerDocument emit seen cs, w.sourceId = some id) ↔
        ∃ c ∈ cs, c.documentId = id ∧ emit c ≠ none)
  | [], _, _ => by simp [onePerDocument]
  | c :: cs, seen, hid => by
    unfold onePerDocument
    split
    · rename_i hseen
      have hne : c.documentId ≠ id := fun he => hid (he ▸ hseen)
      rw [onePerDocument_names hemit hid]
      simp [hne]
    · split
      · rename_i hnone
        rw [onePerDocument_names hemit hid]
        simp [hnone]
      · rename_i w hw
        by_cases he : c.documentId = id
        · have hs : w.sourceId = some id := he ▸ hemit c w hw
          simp [hs, he, hw]
        · have hs : w.sourceId ≠ some id := fun h =>
            he (Option.some.inj ((hemit c w hw).symm.trans h))
          have hid' : id ∉ c.documentId :: seen := by simp [Ne.symm he, hid]
          simp only [List.exists_mem_cons_iff, hs, false_or, he, false_and,
            onePerDocument_names hemit hid']

theorem isolatedMatch_names {drop threshold : Option ℚ} {w : Warning}
    (h : w ∈ isolatedMatchWarning env chunks drop threshold) :
    ∃ c ∈ chunks, w.sourceId = some c.documentId := by
  unfold isolatedMatchWarning at h
  split at h
  · cases h
  · dsimp only at h
    split at h
    · rename_i top runnerUp rest hsort
      have htop : top ∈ chunks := by
        rw [← List.mem_insertionSort byScoreThenId, hsort]
        exact List.mem_cons_self
      split at h
      · cases h
      · split at h
        · cases h
        · rw [List.mem_singleton.mp h]
          exact ⟨top, htop, rfl⟩
    · cases h

/-- The document a warning names has a chunk among the results. -/
theorem sourceId_collected (h : collectWarnings env chunks today g = .ok ws) {w : Warning}
    (hw : w ∈ ws ++ normalizationWarnings env removed) (hs : w.sourceId = some id) :
    ∃ c ∈ chunks, c.documentId = id := by
  obtain ⟨stale, hstale, h⟩ := Py.bind_ok.mp h
  rw [Py.pure_ok] at h
  subst h
  simp only [List.mem_append, or_assoc] at hw
  have hnamed : (∃ c ∈ chunks, w.sourceId = some c.documentId) → ∃ c ∈ chunks, c.documentId = id := by
    intro hc
    obtain ⟨c, hc, he⟩ := hc
    exact ⟨c, hc, Option.some.inj (he.symm.trans hs)⟩
  rcases hw with hw | hw | hw | hw | hw | hw | hw
  · unfold staleWarnings at hstale
    split at hstale
    · cases hstale
      cases hw
    · obtain ⟨threshold, -, he⟩ := Py.bind_ok.mp hstale
      cases he
      obtain ⟨c, hc, he⟩ := mem_onePerDocument hw
      exact hnamed ⟨c, hc, staleWarning_names _ _ c w he⟩
  · obtain ⟨c, hc, he⟩ := mem_onePerDocument hw
    exact hnamed ⟨c, hc, deprecatedWarning_names c w he⟩
  · obtain ⟨c, hc, rfl⟩ := List.mem_map.mp hw
    exact hnamed ⟨c, mem_of_mem_gate (List.mem_of_mem_filter hc), rfl⟩
  · obtain ⟨c, hc, rfl⟩ := List.mem_map.mp hw
    exact hnamed ⟨c, mem_of_mem_gate (List.mem_of_mem_filter hc), rfl⟩
  · cases (weakEvidence_names hw).symm.trans hs
  · exact hnamed (isolatedMatch_names hw)
  · cases (normalizationWarnings_names hw).symm.trans hs

end

/-! ## The results and the store -/

section
variable {env : Env} {config : RetrievalConfig} {today : Date} {rows : List SearchRow} {n : Nat}
  {st : Store} {rc : RankedChunk} {sc : StoredChunk} {d : StoredDocument} {id : Uuid}

/-- The reference of a stored document. -/
def refOf (d : StoredDocument) : DocumentRef where
  documentId := d.id
  title := d.value.title
  repo := some d.key.1
  path := some d.key.2
  sourceUrl := d.value.sourceUrl
  commitSha := d.value.commitSha
  authority := d.value.authority
  owner := d.value.owner

theorem documentRefs_refOf (hd : DrawnFrom st rows) (j : Joined st sc d)
    (hr : ∃ r ∈ rows, r.documentId = d.id) :
    documentRefsFromRows rows d.id = some (refOf d) := by
  obtain ⟨ref, href, -⟩ := documentRefs_drawn hd j hr
  obtain ⟨r, hmem, he⟩ := List.mem_map.mp (mem_of_lookupFirst href)
  obtain ⟨hid, rfl⟩ := Prod.mk.inj he
  obtain ⟨c', d', j', hrow⟩ := hd r hmem
  have hdoc : d' = d := Table.eq_of_id j'.document j.document (by rw [← hid, hrow]; rfl)
  subst hdoc
  rw [href, hrow]
  rfl

/-- A result is a stored chunk with its document, under some score. -/
structure DrawnAs (env : Env) (config : RetrievalConfig) (today : Date) (st : Store)
    (rc : RankedChunk) (sc : StoredChunk) (d : StoredDocument) : Prop where
  joined : Joined st sc d
  boosted : ∃ s, rc = applyBoostToChunk env config today (rowToRankedChunk (searchRow st s sc d))

theorem candidate_drawn (hd : DrawnFrom st rows) (h : rc ∈ candidates env config today rows n) :
    ∃ sc d, DrawnAs env config today st rc sc d ∧
      documentRefsFromRows rows rc.documentId = some (refOf d) ∧
      chunkText rows (candidates env config today rows n) rc.chunkId = some sc.value.content := by
  obtain ⟨r, hr, hboost⟩ := mem_candidates h
  obtain ⟨sc, d, j, he⟩ := hd r hr
  have hrc : rc = applyBoostToChunk env config today
      (rowToRankedChunk (searchRow st r.score sc d)) := by rw [← he, hboost]
  have hchunk : rc.chunkId = sc.id := by rw [hrc]; rfl
  have hdoc : rc.documentId = d.id := by rw [hrc]; rfl
  refine ⟨sc, d, ⟨j, _, hrc⟩, ?_, ?_⟩
  · rw [hdoc]
    exact documentRefs_refOf hd j ⟨r, hr, by rw [he]; rfl⟩
  · rw [hchunk]
    exact chunkText_drawn hd j (List.mem_map.mpr ⟨rc, h, hchunk⟩) ⟨r, hr, by rw [he]; rfl⟩

/-- The results of one document agree on what is said of the document. -/
theorem DrawnAs.of_documentId (hd : DrawnFrom st rows) (a : DrawnAs env config today st rc sc d)
    {c : RankedChunk} (hc : c ∈ candidates env config today rows n)
    (hid : c.documentId = d.id) :
    c.status = d.value.status ∧ c.lastReviewed = d.value.lastReviewed := by
  obtain ⟨sc', d', ⟨j', s', rfl⟩, -, -⟩ := candidate_drawn hd hc
  have hdoc : d' = d := Table.eq_of_id j'.document a.joined.document hid
  subst hdoc
  exact ⟨rfl, rfl⟩

/-- A section of the document and their number. -/
theorem DrawnAs.section_mem (hst : Ingested st) (a : DrawnAs env config today st rc sc d) :
    rc.chunkIndex < rc.chunkCount ∧
      ∀ i < rc.chunkCount, ∃ c ∈ st.chunks.rows, c.key = (d.id, i) := by
  obtain ⟨j, s, rfl⟩ := a
  obtain ⟨m, hm⟩ := hst.contiguous.2.indexes j.document
  have hcount : st.chunks.rows.countP (·.key.1 = d.id) = m := indexes_count hm
  change sc.key.2 < st.chunks.rows.countP (·.key.1 = d.id) ∧
    ∀ i < st.chunks.rows.countP (·.key.1 = d.id), ∃ c ∈ st.chunks.rows, c.key = (d.id, i)
  rw [hcount]
  exact ⟨(hm sc.key.2).mp ⟨sc, j.chunk, Prod.ext j.id_eq.symm rfl⟩, fun i => (hm i).mpr⟩

end

/-! ## What the page says -/

/-- A card cites the stored chunk `sc` of the document `d`. -/
structure Cites (env : Env) (render : Render) (query : Str) (st : Store) (sc : StoredChunk)
    (d : StoredDocument) (card : Card) : Prop where
  ids : card.chunkId = sc.id ∧ card.documentId = d.id
  source : card.repo = some d.key.1 ∧ card.path = some d.key.2 ∧
    card.sourceUrl = d.value.sourceUrl ∧ card.owner = d.value.owner
  title : card.title = if d.value.title = [] then "(unknown)".toList else d.value.title
  excerpt : card.excerpt = sc.value.content.take 500 ∧
    card.excerptHtml = ResultCards.highlightExcerpt render.escape env.sameLetter
      (sc.value.content.take 500) query ∧
    card.excerptFullHtml = ResultCards.highlightExcerpt render.escape env.sameLetter
      sc.value.content query
  headings : card.headingPath.getD [] = sc.value.headingPath
  sections : card.chunkIndex = sc.key.2 ∧ ∃ n, card.chunkCount = some n ∧ card.chunkIndex < n ∧
    ∀ i < n, ∃ c ∈ st.chunks.rows, c.key = (d.id, i)
  status : card.status = d.value.status
  reviewed : card.lastReviewed = d.value.lastReviewed ∧
    card.freshnessLabel.isSome = d.value.lastReviewed.isSome ∧
    card.freshnessBucket.isSome = d.value.lastReviewed.isSome

/-- The marks of a card: the stamp, and the warnings it carries. -/
structure Marked (config : RetrievalConfig) (warnDay : Date) (chunks : List RankedChunk)
    (d : StoredDocument) (card : Card) : Prop where
  stamp : card.deprecationLabel.isSome = true ↔ d.value.status ∈ deadStatuses
  deprecated : (∃ w ∈ card.warnings, w.type = .deprecatedSource) ↔ d.value.status ∈ deadStatuses
  stale : (∃ w ∈ card.warnings, w.type = .staleSource) ↔ ∃ n ∈ config.staleAfterDays,
    ∃ threshold, warnDay.subDays n = .ok threshold ∧
      ∀ day ∈ d.value.lastReviewed, day.toordinal < threshold
  blocking : (∃ w ∈ card.warnings, w.severity = .blocking) ↔
    ∃ c ∈ gateForWarnings chunks (some config.effectiveRelevanceFloor) (some config.maxWarningRank),
      c.documentId = d.id ∧ (c.hasPromptInjection = true ∨ c.hasSensitiveContent = true)

/-- The JSON card of the same result. -/
structure Agrees (env : Env) (card : Card) (json : ResultCard) : Prop where
  ids : json.chunkId = card.chunkId ∧ json.documentId = card.documentId
  text : json.title = card.title ∧ json.excerpt = card.excerpt ∧ json.headingPath = card.headingPath
  source : json.repo = card.repo ∧ json.path = card.path ∧ json.owner = card.owner ∧
    validateUrl env card.sourceUrl = .ok json.sourceUrl
  marks : json.status = card.status ∧ json.lastReviewed = card.lastReviewed ∧
    json.score = card.score ∧ json.authority = card.authority
  sections : json.chunkIndex = some card.chunkIndex ∧ json.chunkCount = card.chunkCount

theorem deprecationLabel_isSome {status : Str} :
    (deprecationLabel status).isSome = true ↔ status ∈ deadStatuses := lookupFirst_isSome

theorem freshnessBucket_isSome (today : Date) (reviewed : Option Date) :
    (freshnessBucket today reviewed).isSome = reviewed.isSome := by
  cases reviewed with
  | none => rfl
  | some d =>
    simp only [freshnessBucket]
    split_ifs <;> rfl

theorem freshnessLabel_isSome (today : Date) (reviewed : Option Date) :
    (freshnessLabel today reviewed).isSome = reviewed.isSome := by
  cases reviewed with
  | none => rfl
  | some d =>
    simp only [freshnessLabel]
    split_ifs <;> rfl

/-- The first dot is alone exactly below the default floor of weak evidence. -/
theorem scoreTier_eq_one {score : ℚ} :
    scoreTier score = 1 ↔ score < weakEvidenceScoreThreshold := by
  unfold scoreTier weakEvidenceScoreThreshold
  split_ifs <;> norm_num <;> linarith

theorem severity_blocking {t : WarningType} :
    (warningPolicy t).1 = .blocking ↔ t = .promptInjectionPattern ∨ t = .sensitiveContent := by
  cases t <;> decide

section
variable {env : Env} {render : Render} {config : RetrievalConfig} {phrases : List Str}
  {sur : Surroundings} {r : UrlState.Retrieval} {res : SearchResult} {st : Store}

theorem search_ok {query : Str} {filters : RetrievalFilters} {n : Nat}
    (h : search env config phrases sur query filters n = .ok res) :
    ∃ q rows removed ws, sur.fetch q filters = .ok rows ∧
      collectWarnings env (candidates env config sur.boostDay rows n) sur.warnDay
        (Gates.ofConfig config) = .ok ws ∧
      res = { chunks := candidates env config sur.boostDay rows n
              warnings := ws ++ normalizationWarnings env removed
              documentRefs := documentRefsFromRows rows
              chunkText := chunkText rows (candidates env config sur.boostDay rows n) } := by
  obtain ⟨-, -, h⟩ := Py.bind_ok.mp h
  obtain ⟨⟨rows, removed⟩, hr, h⟩ := Py.bind_ok.mp h
  obtain ⟨⟨q, removed'⟩, -, hr⟩ := Py.bind_ok.mp hr
  obtain ⟨rows', hrows, hr⟩ := Py.bind_ok.mp hr
  cases hr
  obtain ⟨ws, hws, h⟩ := Py.bind_ok.mp h
  cases h
  exact ⟨q, rows, removed, ws, hrows, hws, rfl⟩

/-- A shown warning comes from one of the engine. -/
theorem exists_hung {ws : List Warning} {id : Uuid} {p : Shown → Prop} :
    (∃ w ∈ (ws.filter (·.sourceId == some id)).map humanizeWarning, p w) ↔
      ∃ w ∈ ws, w.sourceId = some id ∧ p (humanizeWarning w) := by
  simp [and_assoc]

theorem exists_of_type {ws : List Warning} {id : Uuid} {t : WarningType} :
    (∃ w ∈ ws, w.sourceId = some id ∧ w.type = t) ↔
      ∃ w ∈ ws.filter (·.type = t), w.sourceId = some id := by
  simp only [List.mem_filter, decide_eq_true_eq, and_assoc]
  exact exists_congr fun w => and_congr_right fun _ => and_comm

/-- The documents with a stale warning. -/
theorem staleWarnings_names {chunks : List RankedChunk} {today : Date} {n : Option Days}
    {ws : List Warning} {id : Uuid} (h : staleWarnings chunks today n = .ok ws) :
    (∃ w ∈ ws, w.sourceId = some id) ↔ ∃ k ∈ n, ∃ threshold, today.subDays k = .ok threshold ∧
      ∃ c ∈ chunks, c.documentId = id ∧ reviewedBefore threshold c = true := by
  unfold staleWarnings at h
  cases n with
  | none =>
    cases h
    simp
  | some k =>
    obtain ⟨threshold, ht, h⟩ := Py.bind_ok.mp h
    cases h
    rw [onePerDocument_names (staleWarning_names threshold k) List.not_mem_nil]
    simp [ht, staleWarning_eq_none]

/-- The documents with a warning for each flagged chunk. -/
theorem exists_flagged {l : List RankedChunk} {flag : RankedChunk → Bool}
    {emit : RankedChunk → Warning} {id : Uuid}
    (h : ∀ c, (emit c).sourceId = some c.documentId) :
    (∃ w ∈ (l.filter flag).map emit, w.sourceId = some id) ↔
      ∃ c ∈ l, c.documentId = id ∧ flag c = true := by
  constructor
  · rintro ⟨w, hw, hs⟩
    obtain ⟨c, hc, rfl⟩ := List.mem_map.mp hw
    obtain ⟨hc, hflag⟩ := List.mem_filter.mp hc
    exact ⟨c, hc, Option.some.inj ((h c).symm.trans hs), hflag⟩
  · rintro ⟨c, hc, rfl, hflag⟩
    exact ⟨_, List.mem_map_of_mem (List.mem_filter.mpr ⟨hc, hflag⟩), h c⟩

theorem reviewedBefore_iff {threshold : Nat} {c : RankedChunk} :
    reviewedBefore threshold c = true ↔ ∀ day ∈ c.lastReviewed, day.toordinal < threshold := by
  unfold reviewedBefore
  cases c.lastReviewed <;> simp

section
variable {rows : List SearchRow} {n : Nat} {today warnDay : Date} {rc : RankedChunk}
  {sc : StoredChunk} {d : StoredDocument} {ws : List Warning}

/-- Some result of the document, and so each, is as the document is. -/
theorem exists_result (hd : DrawnFrom st rows) (a : DrawnAs env config today st rc sc d)
    (hrc : rc ∈ candidates env config today rows n) {p : RankedChunk → Prop} {q : Prop}
    (hp : ∀ c, c.status = d.value.status → c.lastReviewed = d.value.lastReviewed → (p c ↔ q)) :
    (∃ c ∈ candidates env config today rows n, c.documentId = d.id ∧ p c) ↔ q := by
  have hid : rc.documentId = d.id := by
    obtain ⟨s, rfl⟩ := a.boosted
    rfl
  constructor
  · rintro ⟨c, hc, hcid, h⟩
    obtain ⟨hs, hl⟩ := a.of_documentId hd hc hcid
    exact (hp c hs hl).mp h
  · intro h
    obtain ⟨hs, hl⟩ := a.of_documentId hd hrc hid
    exact ⟨rc, hrc, hid, (hp rc hs hl).mpr h⟩

theorem marked_of_byType (hd : DrawnFrom st rows) (a : DrawnAs env config today st rc sc d)
    (hrc : rc ∈ candidates env config today rows n)
    (b : ByType env (candidates env config today rows n) warnDay (Gates.ofConfig config) ws)
    {card : Card} (hlabel : card.deprecationLabel = deprecationLabel d.value.status)
    (hcard : card.warnings = (ws.filter (·.sourceId == some d.id)).map humanizeWarning) :
    Marked config warnDay (candidates env config today rows n) d card := by
  have htype : ∀ t, (∃ w ∈ card.warnings, w.type = t) ↔
      ∃ w ∈ ws.filter (·.type = t), w.sourceId = some d.id := fun t => by
    rw [hcard, exists_hung]
    exact exists_of_type
  constructor
  · rw [hlabel]
    exact deprecationLabel_isSome
  · rw [htype, b.deprecated, deprecatedWarnings,
      onePerDocument_names deprecatedWarning_names List.not_mem_nil]
    refine exists_result hd a hrc fun c hs _ => ?_
    rw [ne_eq, deprecatedWarning_eq_none, not_not, hs]
  · rw [htype, staleWarnings_names b.stale]
    refine exists_congr fun k => and_congr_right fun _ => exists_congr fun threshold =>
      and_congr_right fun _ => exists_result hd a hrc fun c _ hl => ?_
    rw [reviewedBefore_iff, hl]
  · -- blocking are the injection and the sensitive-content warnings, one for each gated chunk
    have hinjection : (∃ w ∈ card.warnings, w.type = .promptInjectionPattern) ↔
        ∃ c ∈ gateForWarnings (candidates env config today rows n)
          (some config.effectiveRelevanceFloor) (some config.maxWarningRank),
          c.documentId = d.id ∧ c.hasPromptInjection = true := by
      rw [htype, b.injection]
      exact exists_flagged fun _ => rfl
    have hsensitive : (∃ w ∈ card.warnings, w.type = .sensitiveContent) ↔
        ∃ c ∈ gateForWarnings (candidates env config today rows n)
          (some config.effectiveRelevanceFloor) (some config.maxWarningRank),
          c.documentId = d.id ∧ c.hasSensitiveContent = true := by
      rw [htype, b.sensitive]
      exact exists_flagged fun _ => rfl
    have hseverity : ∀ w ∈ card.warnings, w.severity = .blocking ↔
        w.type = .promptInjectionPattern ∨ w.type = .sensitiveContent := by
      intro w hw
      rw [hcard] at hw
      obtain ⟨w', -, rfl⟩ := List.mem_map.mp hw
      exact severity_blocking
    simp only [and_or_left, exists_or]
    rw [← hinjection, ← hsensitive]
    simp only [← exists_or, ← and_or_left]
    exact exists_congr fun w => and_congr_right (hseverity w)

end

/-! ## The JSON cards -/

section
variable {chunk : RankedChunk} {ref : Option DocumentRef} {content : Str}

/-- A card is refused for its source URL or its score only. -/
theorem chunkToResultCard_returns_iff :
    (∃ json, chunkToResultCard env chunk ref content = .ok json) ↔
      0 ≤ chunk.score ∧ ∀ u ∈ ref.bind (·.sourceUrl), ∃ v, env.anyUrl u = .ok v := by
  rw [← L3.PackTotal.validateUrl_returns_iff]
  constructor
  · rintro ⟨json, h⟩
    obtain ⟨v, hv, h⟩ := Py.bind_ok.mp h
    split at h
    · rename_i hscore
      exact ⟨hscore, v, hv⟩
    · cases h
  · rintro ⟨hscore, v, hv⟩
    exact ⟨_, Py.bind_ok.mpr ⟨v, hv, dif_pos hscore⟩⟩

theorem chunkToResultCard_agrees {json : ResultCard} {query : Str} {ws : List Shown}
    (h : chunkToResultCard env chunk ref content = .ok json) :
    Agrees env (resultCardView env render chunk ref content query ws) json := by
  obtain ⟨v, hv, h⟩ := Py.bind_ok.mp h
  split at h
  · cases h
    exact ⟨⟨rfl, rfl⟩, ⟨rfl, rfl, rfl⟩, ⟨rfl, rfl, rfl, hv⟩, ⟨rfl, rfl, rfl, rfl⟩, rfl, rfl⟩
  · cases h

end

/-! ## The page -/

/-- What a reader of the page `page` of the result `res` is told. -/
structure Honest (env : Env) (render : Render) (config : RetrievalConfig) (warnDay : Date)
    (st : Store) (r : UrlState.Retrieval) (res : SearchResult) (page : Page) : Prop where
  /-- Each card cites one stored chunk and marks its document. -/
  cards : List.Forall₂ (fun c card => card.chunkId = c.chunkId ∧ card.score = c.score ∧
    ∃ sc d, Joined st sc d ∧ Cites env render r.query st sc d card ∧
      Marked config warnDay res.chunks d card) res.chunks page.results
  ranked : page.results.Pairwise fun a b => b.score ≤ a.score
  length_le : page.results.length ≤ r.maxResults
  /-- Every warning of the engine stands above the list, or else on each card of its document. -/
  above : page.warnings = (res.warnings.filter (·.sourceId.isNone)).map humanizeWarning
  below : ∀ card ∈ page.results,
    card.warnings = (res.warnings.filter (·.sourceId == some card.documentId)).map humanizeWarning
  named : ∀ w ∈ res.warnings, ∀ id ∈ w.sourceId, ∃ card ∈ page.results, card.documentId = id
  weak : (∃ w ∈ page.warnings, w.type = .weakEvidence) ↔
    ∀ card ∈ page.results, card.score < config.weakEvidenceScoreThreshold
  tiers : config.weakEvidenceScoreThreshold = weakEvidenceScoreThreshold →
    ((∃ w ∈ page.warnings, w.type = .weakEvidence) ↔ ∀ card ∈ page.results, card.scoreTier = 1)
  /-- The JSON response shows the same, and is refused where the page is not. -/
  json : (∃ response, searchResponse env r.query res = .ok response) ↔
    ∀ card ∈ page.results, 0 ≤ card.score ∧ ∀ u ∈ card.sourceUrl, ∃ v, env.anyUrl u = .ok v
  agrees : ∀ response, searchResponse env r.query res = .ok response →
    List.Forall₂ (Agrees env) page.results response.results ∧
      response.warnings.getD [] = res.warnings

/-- Every warning that names a document names that of a result, so that only the others stay above
the list. -/
theorem hung_humanize {ids : List Uuid} {w : Warning}
    (h : ∀ id ∈ w.sourceId, id ∈ ids) : hung ids (humanizeWarning w) = !w.sourceId.isNone := by
  change w.sourceId.any (· ∈ ids) = _
  cases hs : w.sourceId with
  | none => rfl
  | some id => simpa using h id hs

theorem exists_weak {chunks : List RankedChunk} {today : Date} {ws : List Warning}
    (b : ByType env chunks today (Gates.ofConfig config) ws) :
    (∃ w ∈ (ws.filter (·.sourceId.isNone)).map humanizeWarning, w.type = .weakEvidence) ↔
      ∀ c ∈ chunks, c.score < config.weakEvidenceScoreThreshold := by
  have hne : (∃ w ∈ (ws.filter (·.sourceId.isNone)).map humanizeWarning,
      w.type = .weakEvidence) ↔ weakEvidenceWarning env chunks
        (some config.weakEvidenceScoreThreshold) ≠ [] := by
    have hw : ws.filter (·.type = .weakEvidence) =
        weakEvidenceWarning env chunks (some config.weakEvidenceScoreThreshold) := b.weak
    constructor
    · rintro ⟨_, hshown, ht⟩
      obtain ⟨w, hmem, rfl⟩ := List.mem_map.mp hshown
      have hweak : w ∈ ws.filter (·.type = .weakEvidence) :=
        List.mem_filter.mpr ⟨List.mem_of_mem_filter hmem, decide_eq_true ht⟩
      exact List.ne_nil_of_mem (hw ▸ hweak)
    · intro h
      obtain ⟨w, hmem⟩ := List.exists_mem_of_ne_nil _ h
      have hnone := weakEvidence_names hmem
      obtain ⟨hws, ht⟩ := List.mem_filter.mp (hw ▸ hmem)
      exact ⟨_, List.mem_map_of_mem (List.mem_filter.mpr ⟨hws, by rw [hnone]; rfl⟩),
        of_decide_eq_true ht⟩
  rw [hne, ne_eq, weakEvidenceWarning_eq_nil, Option.getD_some, not_and_or, not_not,
    Bool.not_eq_false, topBelow_iff]
  constructor
  · rintro (rfl | ⟨-, h⟩)
    · intro c hc
      cases hc
    · exact h
  · intro h
    rcases eq_or_ne chunks [] with he | he
    · exact .inl he
    · exact .inr ⟨he, h⟩

/-- Each result's card, with the warnings that name its document. -/
theorem results_eq : (resultsPage env render r res).results = res.chunks.map fun c =>
    resultCardView env render c (res.documentRefs c.documentId)
      ((res.chunkText c.chunkId).getD []) r.query
      ((res.warnings.filter (·.sourceId == some c.documentId)).map humanizeWarning) := by
  refine List.map_congr_left fun c hc => ?_
  rw [splitWarnings_hung _ (List.mem_map_of_mem hc), List.filter_map]
  rfl

theorem warnings_eq
    (h : ∀ w ∈ res.warnings, ∀ id ∈ w.sourceId, ∃ c ∈ res.chunks, c.documentId = id) :
    (resultsPage env render r res).warnings =
      (res.warnings.filter (·.sourceId.isNone)).map humanizeWarning := by
  change (splitWarnings _ _).1 = _
  rw [splitWarnings_above, List.filter_map]
  refine congrArg _ (List.filter_congr fun w hw => ?_)
  rw [Function.comp_apply, hung_humanize fun id hid => List.mem_map.mpr (h w hw id hid),
    Bool.not_not]

theorem response_returns_iff {query : Str} :
    (∃ response, searchResponse env query res = .ok response) ↔
      ∀ card ∈ (resultsPage env render r res).results,
        0 ≤ card.score ∧ ∀ u ∈ card.sourceUrl, ∃ v, env.anyUrl u = .ok v := by
  have hmap : (∃ response, searchResponse env query res = .ok response) ↔
      ∃ cards, Py.mapM (fun c => chunkToResultCard env c (res.documentRefs c.documentId)
        ((res.chunkText c.chunkId).getD [])) res.chunks = .ok cards := by
    constructor
    · rintro ⟨response, h⟩
      obtain ⟨cards, hcards, -⟩ := Py.bind_ok.mp h
      exact ⟨cards, hcards⟩
    · rintro ⟨cards, h⟩
      exact ⟨_, Py.bind_ok.mpr ⟨cards, h, rfl⟩⟩
  rw [hmap, Py.mapM_returns_iff, results_eq, List.forall_mem_map]
  exact forall₂_congr fun c _ => chunkToResultCard_returns_iff

theorem response_agrees {query : Str} {response : SearchResponse}
    (h : searchResponse env query res = .ok response) :
    List.Forall₂ (Agrees env) (resultsPage env render r res).results response.results ∧
      response.warnings.getD [] = res.warnings := by
  obtain ⟨cards, hcards, h⟩ := Py.bind_ok.mp h
  cases h
  refine ⟨?_, ?_⟩
  · rw [results_eq, List.forall₂_map_left_iff]
    exact (Py.mapM_forall₂ hcards).imp fun _ _ => chunkToResultCard_agrees
  · by_cases hw : res.warnings = [] <;> simp [hw]

theorem cites_of_drawn {today : Date} {rc : RankedChunk} {sc : StoredChunk} {d : StoredDocument}
    {query : Str} {ws : List Shown} (hst : Ingested st) (a : DrawnAs env config today st rc sc d) :
    Cites env render query st sc d
      (resultCardView env render rc (some (refOf d)) sc.value.content query ws) := by
  obtain ⟨hlt, hall⟩ := a.section_mem hst
  have hcount : chunkCountOf rc = some rc.chunkCount := if_neg (by omega)
  obtain ⟨s, rfl⟩ := a.boosted
  constructor
  · exact ⟨rfl, rfl⟩
  · exact ⟨rfl, rfl, rfl, rfl⟩
  · simp only [resultCardView, titleOf, strOr, Option.map_some, refOf, Option.any_some]
    by_cases ht : d.value.title = [] <;> simp [ht]
  · exact ⟨rfl, rfl, rfl⟩
  · simp only [resultCardView, headingPathOf]
    split
    · rename_i hnil
      exact hnil.symm
    · rfl
  · exact ⟨rfl, _, hcount, hlt, hall⟩
  · rfl
  · exact ⟨rfl, freshnessLabel_isSome _ _, freshnessBucket_isSome _ _⟩

/-- **The page of results.** For every store the ingests left, and every search over it: each card
cites a stored chunk and its document, is stamped and warned exactly when the document is dead, and
carries the stale and the blocking warnings that hold of it. No warning of the engine is lost: it is
above the list when it names no document, and on the cards of the document it names otherwise. The
JSON response agrees, card by card, unless a source URL or a score is refused. -/
theorem page_honest (hst : Ingested st)
    (hfetch : ∀ q filters rows, sur.fetch q filters = .ok rows → DrawnFrom st rows)
    (h : search env config phrases sur r.query r.filters r.maxResults = .ok res) :
    Honest env render config sur.warnDay st r res (resultsPage env render r res) := by
  obtain ⟨q, rows, removed, ws, hrows, hws, rfl⟩ := search_ok h
  have hd := hfetch q r.filters rows hrows
  have hb := @collectWarnings_byType env _ _ _ ws removed hws
  have hnamed : ∀ w ∈ ws ++ normalizationWarnings env removed, ∀ id ∈ w.sourceId,
      ∃ c ∈ candidates env config sur.boostDay rows r.maxResults, c.documentId = id :=
    fun w hw id hid => sourceId_collected hws hw hid
  constructor
  · rw [results_eq, List.forall₂_map_right_iff, List.forall₂_same]
    intro c hc
    obtain ⟨sc, d, a, href, htext⟩ := candidate_drawn hd hc
    have hdoc : c.documentId = d.id := by
      obtain ⟨s, rfl⟩ := a.boosted
      rfl
    have hstatus := (a.of_documentId hd hc hdoc).1
    simp only [href, htext, Option.getD_some]
    refine ⟨rfl, rfl, sc, d, a.joined, cites_of_drawn hst a, marked_of_byType hd a hc hb ?_ ?_⟩
    · rw [← hstatus]
      rfl
    · rw [← hdoc]
      rfl
  · rw [results_eq, List.pairwise_map]
    exact candidates_pairwise
  · rw [results_eq, List.length_map]
    exact List.length_take_le _ _
  · exact warnings_eq hnamed
  · rw [results_eq]
    exact List.forall_mem_map.mpr fun c _ => rfl
  · intro w hw id hid
    obtain ⟨c, hc, hcid⟩ := hnamed w hw id hid
    rw [results_eq]
    exact ⟨_, List.mem_map_of_mem hc, hcid⟩
  · rw [warnings_eq hnamed, exists_weak hb, results_eq, List.forall_mem_map]
    rfl
  · intro hdefault
    rw [warnings_eq hnamed, exists_weak hb, results_eq, List.forall_mem_map, hdefault]
    exact forall₂_congr fun c _ => scoreTier_eq_one.symm
  · exact response_returns_iff
  · exact fun response => response_agrees

end

/-! ## A page and its retired predecessor -/

open KnowledgeKiln.L3.ContextPack (asciiEnv someDay)

def retiredHeader : Str := "---\nstatus: deprecated\n---\n"

/-- A frontmatter parser for this header. -/
def retiredWorker : L1.Chunking.Worker :=
  { asciiWorker with
    frontmatter := fun s =>
      if startsWith s retiredHeader then
        .ok (strip (s.drop retiredHeader.length), [("status".toList, .str "deprecated")])
      else .ok (strip s, []) }

def handbook : List (Source × List FetchedFile) :=
  [({ name := "docs" },
    [{ path := "old.md", content := asciiBytes (retiredHeader ++ "# Setup\n\nthe old way\n") },
      { path := "new.md", content := asciiBytes "# Setup\n\nthe new way\n" }])]

def setupSearch : UrlState.Retrieval := ⟨"setup", {}, 20⟩

def overStore (st : Store) : Surroundings :=
  ⟨fun _ _ => .ok (allRows st 1), someDay, someDay⟩

def plainRender : Render :=
  ⟨fun s => s.flatMap ResultCards.safeSequence, fun _ => someDay, fun _ => someDay⟩

def handbookSearch (st : Store) : Py SearchResult :=
  search asciiEnv defaultConfig [] (overStore st) "setup" {} 20

/-- For each card: its path, its stamp, and the types of its warnings. -/
def handbookMarks : Py (List (Option Str × Bool × List WarningType)) := do
  let st ← ingest retiredWorker {} {} handbook
  let res ← handbookSearch st
  pure <| (resultsPage asciiEnv plainRender setupSearch res).results.map fun card =>
    (card.path, card.deprecationLabel.isSome, card.warnings.map (·.type))

/-- The predecessor is stamped and warned about, on its own card. -/
theorem page_honest_retired : ∃ st res, handbookSearch st = .ok res ∧
    Honest asciiEnv plainRender defaultConfig someDay st setupSearch
      res (resultsPage asciiEnv plainRender setupSearch res) ∧
    (resultsPage asciiEnv plainRender setupSearch res).results.map
      (fun card => (card.path, card.deprecationLabel.isSome, card.warnings.map (·.type))) =
        [(some "new.md".toList, false, [.staleSource]),
          (some "old.md".toList, true, [.staleSource, .deprecatedSource])] := by
  have hrun : handbookMarks = .ok [(some "new.md".toList, false, [.staleSource]),
      (some "old.md".toList, true, [.staleSource, .deprecatedSource])] := by decide +kernel
  obtain ⟨st, hst, hrun⟩ := Py.bind_ok.mp hrun
  obtain ⟨res, hres, hmarks⟩ := Py.bind_ok.mp hrun
  have hfetch : ∀ q filters rows, (overStore st).fetch q filters = .ok rows →
      DrawnFrom st rows := by
    rintro q filters rows ⟨⟩
    exact drawnFrom_allRows st 1
  exact ⟨st, res, hres, page_honest (.ingest .empty _ _ _ hst) hfetch hres, Except.ok.inj hmarks⟩

end KnowledgeKiln.L4.ResultsPage
