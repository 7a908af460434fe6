import KnowledgeKiln.L1Ingest.Ingested
import KnowledgeKiln.L2Retrieval.Hybrid
import KnowledgeKiln.L3Agent.EvidenceSlots
import KnowledgeKiln.L3Agent.Markers

/-!
# Sensitive content from a document to a pack

Ingestion scans the content of a chunk, and the serializer drops the chunks it
flagged. An evidence chunk also carries its document's title and the headings
it stands under, which no scan has seen.

* `evidence_clean_iff`: the evidence of one pack, in terms of the stored chunks it
  cites.
* `marked_clean_iff`: the same of a pack with markers, in terms of the retrieved rows.
* `pack_of_unflagged`: every unflagged stored chunk is the evidence of some pack.
* `sensitive_excluded_iff`: when no pack over an ingested corpus carries a matched
  string.
-/
namespace KnowledgeKiln.L3.Exclusion

open KnowledgeKiln.Core KnowledgeKiln.L1.FileProcessing KnowledgeKiln.L2 KnowledgeKiln.L2.Engine
  KnowledgeKiln.L2.Hybrid KnowledgeKiln.L3.Serializers KnowledgeKiln.L3.ContextPack
  KnowledgeKiln.L3.EvidenceSlots KnowledgeKiln.L3.Markers

/-- No sensitive pattern matches the text, an element of the heading path, or the title. -/
structure EvidenceClean (filters : ContentFilters) (e : EvidenceChunk) : Prop where
  text : ¬ Matched filters e.text
  headings : ∀ path ∈ e.headingPath, ∀ heading ∈ path, ¬ Matched filters heading
  title : ¬ Matched filters e.title

/-- No sensitive pattern matches what surrounds a stored chunk: its headings and its
document's title. -/
structure SurroundingsClean (filters : ContentFilters) (c : StoredChunk) (d : StoredDocument) :
    Prop where
  headings : ∀ heading ∈ c.value.headingPath, ¬ Matched filters heading
  title : ¬ Matched filters d.value.title

/-- Every stored chunk whose content no pattern matches has clean surroundings. -/
def StoreClean (filters : ContentFilters) (st : Store) : Prop :=
  ∀ c d, Joined st c d → ¬ Matched filters c.value.content → SurroundingsClean filters c d

/-- The same of the documents of a corpus, as parsing leaves them. -/
def CorpusClean (w : L1.Chunking.Worker) (filters : ContentFilters)
    (corpus : List (Source × List FetchedFile)) : Prop :=
  ∀ f ∈ corpusFiles corpus, ∀ parsed, indexable w f.2 = some parsed →
    ∀ chunk ∈ parsed.chunks, ¬ Matched filters chunk.content →
      (∀ heading ∈ chunk.headingPath, ¬ Matched filters heading) ∧
      ∀ title, titleOr parsed.title f.2.path = .str title → ¬ Matched filters title

/-- The warnings of a call, mirrors retrieval/context_pack.py:121-150 -/
def Call.warnings (k : Call) (env : Env) (rows : List SearchRow) (removed : List Str) :
    Py (List Warning) := do
  let ws ← collectWarnings env (k.cands env rows) k.sur.warnDay k.gates
  let conflictWs ← conflictWarnings env (k.conflicts env rows)
  pure (ws ++ conflictWs ++ normalizationWarnings env removed)

/-- The text a chunk gets in a pack: with its markers, when the request asks for them. -/
def packText (embed : Bool) (ws : List Warning) (c : StoredChunk) (d : StoredDocument) : Str :=
  if embed then withMarkers (inlinedWarnings ws d.id) c.value.content else c.value.content

/-! ## One pack -/

section
variable {env : Env} {k : Call} {rows : List SearchRow} {removed : List Str}
  {kept : List RankedChunk} {cited : List EvidenceChunk} {pack : ContextPackResponse} {st : Store}
  {filters : ContentFilters} {c : StoredChunk} {d : StoredDocument} {rc : RankedChunk}

/-- A kept chunk is an unflagged stored one. -/
theorem stored_of_kept (hd : DrawnFrom st rows)
    (b : BuiltFrom env k rows removed kept cited pack) (h : rc ∈ kept) :
    ∃ c d, Joined st c d ∧ rc.chunkId = c.id ∧ rc.documentId = d.id ∧
      rc.headingPath = c.value.headingPath ∧ c.value.metadata.hasSensitiveContent = false := by
  obtain ⟨hcand, hsafe⟩ := b.mem_kept h
  obtain ⟨r, hr, rfl⟩ := mem_candidates hcand
  obtain ⟨c, d, j, he⟩ := hd r hr
  rw [he] at hsafe ⊢
  exact ⟨c, d, j, rfl, rfl, rfl, hsafe⟩

/-- The evidence of a kept chunk carries the content, headings and title the store holds. -/
theorem evidence_of_stored (hd : DrawnFrom st rows)
    (b : BuiltFrom env k rows removed kept cited pack) (h : rc ∈ kept) (j : Joined st c d)
    (hc : rc.chunkId = c.id) {e : EvidenceChunk}
    (he : toEvidenceChunk env (chunkText rows (k.cands env rows)) (documentRefsFromRows rows) rc =
      .ok e) :
    e.documentId = d.id ∧ e.text = c.value.content ∧ e.title = d.value.title ∧
      e.headingPath = if c.value.headingPath = [] then none else some c.value.headingPath := by
  obtain ⟨c', d', j', hc', hdoc, hheading, -⟩ := stored_of_kept hd b h
  have : c' = c := Table.eq_of_id j'.chunk j.chunk (hc'.symm.trans hc)
  subst this
  have := j'.unique j
  subst this
  have hcand := (b.mem_kept h).1
  obtain ⟨r, hr, hrc⟩ := mem_candidates hcand
  have htext := chunkText_drawn hd j (List.mem_map.mpr ⟨rc, hcand, hc⟩)
    ⟨r, hr, by rw [← hc, ← hrc]; rfl⟩
  obtain ⟨ref, href, htitle⟩ := documentRefs_drawn hd j ⟨r, hr, by rw [← hdoc, ← hrc]; rfl⟩
  unfold toEvidenceChunk at he
  obtain ⟨u, -, he⟩ := Py.bind_ok.mp he
  rw [Py.pure_ok] at he
  subst he
  simp only [hdoc, hc, href, htext, hheading, Option.getD_some, htitle, and_self]

/-- **One pack.** Its evidence is clean exactly when every stored chunk it cites has clean
surroundings and a text, markers included, that no pattern matches. -/
theorem evidence_clean_iff (hd : DrawnFrom st rows)
    (b : BuiltFrom env k rows removed kept cited pack) :
    (∀ e ∈ pack.evidence, EvidenceClean filters e) ↔
      ∀ rc ∈ kept, ∀ c d, Joined st c d → rc.chunkId = c.id →
        SurroundingsClean filters c d ∧
          ¬ Matched filters (packText k.embedWarningsInText pack.warnings c d) := by
  have hpack : pack.evidence = cited.map fun e =>
      { e with text := if k.embedWarningsInText then
          withMarkers (inlinedWarnings pack.warnings e.documentId) e.text else e.text } := by
    rw [b.assembled.evidence]
    split
    · rfl
    · simp
  rw [hpack]
  simp only [List.forall_mem_map]
  constructor
  · intro h rc hrc c d j hc
    obtain ⟨e, hm, he⟩ := Py.exists_of_mapM b.assembled.cited_eq hrc
    obtain ⟨hdoc, htext, htitle, hheading⟩ := evidence_of_stored hd b hrc j hc he
    obtain ⟨h1, h2, h3⟩ := h e hm
    dsimp only at h1 h2 h3
    rw [hdoc, htext] at h1
    rw [hheading] at h2
    rw [htitle] at h3
    refine ⟨⟨fun heading hh => h2 c.value.headingPath ?_ heading hh, h3⟩, h1⟩
    rw [if_neg (List.ne_nil_of_mem hh)]
    rfl
  · intro h e hm
    obtain ⟨rc, hrc, he⟩ := Py.mem_of_mapM b.assembled.cited_eq hm
    obtain ⟨c, d, j, hc, -⟩ := stored_of_kept hd b hrc
    obtain ⟨hdoc, htext, htitle, hheading⟩ := evidence_of_stored hd b hrc j hc he
    obtain ⟨⟨h2, h3⟩, h1⟩ := h rc hrc c d j hc
    refine ⟨?_, fun path hp => ?_, ?_⟩
    · dsimp only
      rw [hdoc, htext]
      exact h1
    · rw [Option.mem_def, hheading] at hp
      by_cases hn : c.value.headingPath = []
      · rw [if_pos hn] at hp
        cases hp
      · rw [if_neg hn] at hp
        cases hp
        exact h2
    · dsimp only
      rw [htitle]
      exact h3

/-- **A pack with markers**, from the retrieved rows alone. -/
theorem marked_clean_iff (hd : DrawnFrom st rows) (hembed : k.embedWarningsInText = true)
    (b : BuiltFrom env k rows removed kept cited pack) :
    (∀ e ∈ pack.evidence, EvidenceClean filters e) ↔
      ∀ rc, Offered env k rows rc → ∀ c d, Joined st c d → rc.chunkId = c.id →
        SurroundingsClean filters c d ∧
          ¬ Matched filters (withMarkers (warningsAbout env k rows d.id) c.value.content) := by
  obtain ⟨ws₁, ws₂, h₁, h₂, he⟩ := b.warnings
  have htext : ∀ c d, packText k.embedWarningsInText pack.warnings c d =
      withMarkers (warningsAbout env k rows d.id) c.value.content := by
    intro c d
    rw [packText, if_pos hembed, he]
    exact withMarkers_congr (inlined_markers h₁ h₂) _
  rw [evidence_clean_iff hd b, forall_kept_iff b]
  simp only [htext]

end

/-! ## Every unflagged chunk is somebody's evidence -/

/-- A call that retrieves one row, and whose warning gate nothing passes. -/
def loneCall (r : SearchRow) : Call :=
  { sampleCall [r] with config := { defaultConfig with staleAfterDays := none } }

/-- The candidate of the lone row. -/
def loneCandidate (r : SearchRow) : RankedChunk :=
  Ranking.applyBoostToChunk asciiEnv (loneCall r).config someDay (rowToRankedChunk r)

section
variable {r : SearchRow}

theorem cands_lone (r : SearchRow) : (loneCall r).cands asciiEnv [r] = [loneCandidate r] := rfl

theorem score_lone (h : r.score = 0) : (loneCandidate r).score = 0 := by
  simp [loneCandidate, Ranking.applyBoostToChunk, asciiEnv, rowToRankedChunk, h]

theorem conflicts_lone (h : r.score = 0) : (loneCall r).conflicts asciiEnv [r] = [] := by
  have hgate : Ranking.gateForWarnings [loneCandidate r] (loneCall r).gates.relevanceFloor
      (loneCall r).gates.maxWarningRank = [] := by
    refine List.filter_eq_nil_iff.mpr fun c hc => ?_
    rw [List.mem_singleton.mp (List.mem_of_mem_take hc), score_lone h]
    change ¬ decide ((46 / 100 : ℚ) ≤ 0) = true
    decide +kernel
  rw [Call.conflicts, cands_lone, Ranking.detectConflicts, hgate]
  rfl

theorem kept_lone (hs : r.hasSensitiveContent = false) :
    ∃ used, (loneCall r).kept asciiEnv [r] = .ok ([loneCandidate r], used) := by
  have hsafe : (loneCall r).safe asciiEnv [r] = [loneCandidate r] := by
    rw [Call.safe, cands_lone]
    exact List.filter_cons_of_pos (by simp [loneCandidate, rowToRankedChunk, hs])
  rw [Call.kept, hsafe, trimEvidenceToBudget]
  -- a first chunk is kept whatever its length
  simp only [List.map_cons, List.map_nil, trimLoop, List.length_nil]
  rw [if_neg (by simp [loneCall, sampleCall])]
  exact ⟨_, Py.bind_ok.mpr ⟨_, rfl, if_neg (by simp)⟩⟩

theorem evidence_lone (text : Uuid → Option Str) (refs : Uuid → Option DocumentRef)
    (c : RankedChunk) : ∃ e, toEvidenceChunk asciiEnv text refs c = .ok e := by
  have hurl : ∀ u, validateUrl asciiEnv u = .ok u := by
    intro u
    cases u with
    | none => rfl
    | some u => rfl
  exact ⟨_, Py.bind_ok.mpr ⟨_, hurl _, rfl⟩⟩

/-- The lone row, when it is not flagged, is the evidence of a pack. -/
theorem pack_of_unflagged (hs : r.hasSensitiveContent = false) (h : r.score = 0) :
    ∃ cited pack, buildContextPack asciiEnv (loneCall r) = .ok pack ∧
      BuiltFrom asciiEnv (loneCall r) [r] [] [loneCandidate r] cited pack := by
  obtain ⟨used, hk⟩ := kept_lone hs
  have hpack : ∃ pack, packFromRows asciiEnv (loneCall r) [r] [] = .ok pack := by
    obtain ⟨e, he⟩ := evidence_lone (chunkText [r] [loneCandidate r]) (documentRefsFromRows [r])
      (loneCandidate r)
    have hc : Py.mapM (toEvidenceChunk asciiEnv (chunkText [r] [loneCandidate r])
        (documentRefsFromRows [r])) [loneCandidate r] = .ok [e] :=
      Py.mapM_cons_ok.mpr ⟨e, [], he, rfl, rfl⟩
    unfold packFromRows assembleContextPack
    rw [conflicts_lone h]
    refine ⟨_, Py.bind_ok.mpr ⟨_, rfl, Py.bind_ok.mpr ⟨[], rfl, Py.bind_ok.mpr ⟨_, hk,
      Py.bind_ok.mpr ⟨_, hc, Py.bind_ok.mpr ⟨_, rfl, rfl⟩⟩⟩⟩⟩⟩
  obtain ⟨pack, hp⟩ := hpack
  obtain ⟨kept, cited, b⟩ := packFromRows_ok hp
  obtain ⟨used', hk'⟩ := b.kept_eq
  cases hk.symm.trans hk'
  exact ⟨cited, pack, hp, b⟩

end

/-! ## Every pack over an ingested corpus -/

section
variable {w : L1.Chunking.Worker} {filters : ContentFilters} {st : Store}

/-- A chunk is unflagged exactly when no pattern matches its content. -/
theorem unflagged_iff (hs : st.Scanned filters) {c : StoredChunk} {d : StoredDocument}
    (j : Joined st c d) :
    c.value.metadata.hasSensitiveContent = false ↔ ¬ Matched filters c.value.content := by
  rw [hs.metadata c j.chunk, ← chunkSecurityMetadata_sensitive (hs.content c j.chunk)]
  simp

/-- Packs without markers are clean exactly when the store is. -/
theorem store_clean_iff (hs : st.Scanned filters) :
    (∀ env k rows removed pack, k.embedWarningsInText = false → DrawnFrom st rows →
      retrieve env k.phrases k.sur k.query k.filters = .ok (rows, removed) →
      buildContextPack env k = .ok pack → ∀ e ∈ pack.evidence, EvidenceClean filters e) ↔
    StoreClean filters st := by
  constructor
  · intro h c d j hm
    have hflag := (unflagged_iff hs j).mpr hm
    obtain ⟨cited, pack, hb, b⟩ := pack_of_unflagged (r := searchRow st 0 c d) hflag rfl
    have hd : DrawnFrom st [searchRow st 0 c d] := by
      intro r hr
      rw [List.mem_singleton.mp hr]
      exact ⟨c, d, j, rfl⟩
    have hclean := h asciiEnv (loneCall (searchRow st 0 c d)) _ [] pack rfl hd rfl hb
    exact ((evidence_clean_iff hd b).mp hclean _ (List.mem_singleton_self _) c d j rfl).1
  · intro h env k rows removed pack hembed hd hr hb
    obtain ⟨kept, cited, b⟩ := packFromRows_ok (build_ok_of_retrieve hb hr)
    refine (evidence_clean_iff hd b).mpr fun rc hrc c d j hc => ?_
    obtain ⟨c', d', j', hc', -, -, hflag⟩ := stored_of_kept hd b hrc
    have : c' = c := Table.eq_of_id j'.chunk j.chunk (hc'.symm.trans hc)
    subst this
    have hm := (unflagged_iff hs j).mp hflag
    refine ⟨h _ d j hm, ?_⟩
    rw [packText, hembed]
    exact hm

theorem carries_iff_joined {key : Str × Str} {row : Document} {chunk : DocumentChunk} :
    st.Carries key row chunk ↔
      ∃ c d, Joined st c d ∧ d.key = key ∧ d.value = row ∧ c.value = chunk := by
  constructor
  · rintro ⟨d, hd, hk, hv, index, hc⟩
    obtain ⟨c, hc, hck, hcv⟩ := Table.value_eq_some.mp hc
    exact ⟨c, d, ⟨hc, hd, by rw [hck]⟩, hk, hv, hcv⟩
  · rintro ⟨c, d, j, hk, hv, hcv⟩
    exact ⟨d, j.document, hk, hv, c.key.2, Table.value_eq_some.mpr
      ⟨c, j.chunk, Prod.ext j.id_eq.symm rfl, hcv⟩⟩

/-- What parsing leaves of a corpus of distinct documents is what the store holds. -/
theorem store_clean_iff_corpus {corpus : List (Source × List FetchedFile)}
    (h : ingest w filters {} corpus = .ok st)
    (hn : ((corpusFiles corpus).map fun f => documentKey f.1 f.2).Nodup) :
    StoreClean filters st ↔ CorpusClean w filters corpus := by
  constructor
  · intro hst f hf parsed hi chunk hc hm
    obtain ⟨row, hrow⟩ := (ingest_fresh h).rows f hf parsed hi
    have hcarries := (ingest_carries h hn _ row _).mpr
      ⟨f, hf, rfl, parsed, hi, hrow, chunk, hc, rfl⟩
    obtain ⟨c, d, j, -, hd, hcv⟩ := carries_iff_joined.mp hcarries
    have hclean := hst c d j (by rw [hcv]; exact hm)
    refine ⟨fun heading hh => hclean.headings heading (by rw [hcv]; exact hh), fun title ht => ?_⟩
    rw [documentRow_title hrow] at ht
    cases ht
    rw [← hd]
    exact hclean.title
  · intro hcorpus c d j hm
    obtain ⟨f, hf, -, parsed, hi, hrow, chunk, hc, hcv⟩ :=
      (ingest_carries h hn _ _ _).mp (carries_iff_joined.mpr ⟨c, d, j, rfl, rfl, rfl⟩)
    have hm' : ¬ Matched filters chunk.content := by
      rw [hcv] at hm
      exact hm
    obtain ⟨hheadings, htitle⟩ := hcorpus f hf parsed hi chunk hc hm'
    refine ⟨?_, htitle _ (documentRow_title hrow)⟩
    rw [hcv]
    exact hheadings

end

/-- **Exclusion of sensitive content.** Over a corpus ingested into an empty store under the
filters: no pack without markers carries a matched text, heading or title exactly when every
stored chunk whose content is unmatched has unmatched headings and an unmatched title; where
no two files share a `(repo, path)`, that is a condition on the parsed files. A pack with
markers is clean exactly when this holds of the safe chunks that its budget admits and no pattern
matches their contents with the lines about their documents behind them. -/
theorem sensitive_excluded_iff (w : L1.Chunking.Worker) (filters : ContentFilters)
    (corpus : List (Source × List FetchedFile)) (st : Store)
    (h : ingest w filters {} corpus = .ok st) :
    ((∀ env k rows removed pack, k.embedWarningsInText = false → DrawnFrom st rows →
        retrieve env k.phrases k.sur k.query k.filters = .ok (rows, removed) →
        buildContextPack env k = .ok pack → ∀ e ∈ pack.evidence, EvidenceClean filters e) ↔
      StoreClean filters st) ∧
    (((corpusFiles corpus).map fun f => documentKey f.1 f.2).Nodup →
      (StoreClean filters st ↔ CorpusClean w filters corpus)) ∧
    (∀ env k rows removed pack, k.embedWarningsInText = true → DrawnFrom st rows →
      retrieve env k.phrases k.sur k.query k.filters = .ok (rows, removed) →
      buildContextPack env k = .ok pack →
      ((∀ e ∈ pack.evidence, EvidenceClean filters e) ↔
        ∀ rc, Offered env k rows rc → ∀ c d, Joined st c d → rc.chunkId = c.id →
          SurroundingsClean filters c d ∧
            ¬ Matched filters (withMarkers (warningsAbout env k rows d.id) c.value.content))) := by
  refine ⟨store_clean_iff (ingest_scanned (scanned_empty filters) h),
    store_clean_iff_corpus h, ?_⟩
  intro env k rows removed pack hembed hd hr hb
  obtain ⟨kept, cited, b⟩ := packFromRows_ok (build_ok_of_retrieve hb hr)
  exact marked_clean_iff hd hembed b

/-! ## A heading nobody scanned -/

def hunter2Filter : ContentFilters :=
  { sensitivePatterns := [{ source := "hunter2", search := fun s => contains s "hunter2" }] }

/-- One local file: a heading without a body of its own, and a section below it. -/
def loginPages : List (Source × List FetchedFile) :=
  [({ name := "docs" },
    [{ path := "login.md", content := asciiBytes "# hunter2 key\n\n## Usage\n\ntext\n" }])]

/-- Ingest, retrieve every chunk, and list the heading paths of the pack. -/
def loginHeadings : Py (List (Option (List Str))) := do
  let st ← ingest asciiWorker hunter2Filter {} loginPages
  let pack ← buildContextPack asciiEnv (sampleCall (allRows st 1))
  pure (pack.evidence.map (·.headingPath))

/-- The heading is in no scanned chunk, and in the evidence of the section below it. -/
theorem enclosing_heading_leaks : ∃ st rows pack,
    ingest asciiWorker hunter2Filter {} loginPages = .ok st ∧ DrawnFrom st rows ∧
    retrieve asciiEnv [] (sampleCall rows).sur "how to deploy" {} = .ok (rows, []) ∧
    buildContextPack asciiEnv (sampleCall rows) = .ok pack ∧
    (sampleCall rows).embedWarningsInText = false ∧
    ¬ ∀ e ∈ pack.evidence, EvidenceClean hunter2Filter e := by
  have hrun : loginHeadings = .ok [some ["hunter2 key".toList, "Usage".toList]] := by
    decide +kernel
  obtain ⟨st, hst, hrun⟩ := Py.bind_ok.mp hrun
  obtain ⟨pack, hpack, hrun⟩ := Py.bind_ok.mp hrun
  rw [Py.pure_ok, List.map_eq_singleton_iff] at hrun
  obtain ⟨e, he, hpath⟩ := hrun
  refine ⟨st, _, pack, hst, drawnFrom_allRows st 1, rfl, hpack, rfl, fun hclean => ?_⟩
  have he' : e ∈ pack.evidence := by rw [he]; exact List.mem_singleton_self e
  refine (hclean e he').headings _ hpath "hunter2 key" List.mem_cons_self ?_
  exact ⟨_, List.mem_singleton_self _, by decide +kernel⟩

theorem sensitive_excluded_iff_login : ∃ st,
    ingest asciiWorker hunter2Filter {} loginPages = .ok st ∧
      (StoreClean hunter2Filter st ↔ CorpusClean asciiWorker hunter2Filter loginPages) := by
  obtain ⟨st, hst⟩ := Py.exists_of_isOk (x := ingest asciiWorker hunter2Filter {} loginPages)
    (by decide +kernel)
  exact ⟨st, hst, (sensitive_excluded_iff asciiWorker hunter2Filter loginPages st hst).2.1
    (by decide +kernel)⟩

end KnowledgeKiln.L3.Exclusion
