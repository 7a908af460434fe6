import KnowledgeKiln.Core.Lines
import KnowledgeKiln.L3Agent.EvidenceSlots
import KnowledgeKiln.L3Agent.Injection
import KnowledgeKiln.L3Agent.Markers

/-!
# Warning policy on the three surfaces

No emitter passes `severity` or `action`, so every warning leaves at the defaults of
`VariantBase` (retrieval/warning_variants.py:54-72), although its docstring has the
production emitters pass the values of the table. The table and the defaults agree on
`stale_source` and `answer_truncated` only.

* `policy_agreement_iff`: for a search result, a context pack and an answer, exactly
  when every warning agrees with the table and no evidence text gets the marker of a
  blocking type: when no other emitter speaks (`Quiet`).
* `unmarked_iff`: exactly when the evidence texts of a pack stay free of those markers.
* `sensitive_marker`: a pack whose evidence text carries a sensitive-content marker.
-/
namespace KnowledgeKiln.L3.Policy

open KnowledgeKiln.Core KnowledgeKiln.L2 KnowledgeKiln.L2.Ranking KnowledgeKiln.L2.Engine
  KnowledgeKiln.L3.Serializers KnowledgeKiln.L3.ContextPack KnowledgeKiln.L3.Answer
  KnowledgeKiln.L3.Injection KnowledgeKiln.L3.EvidenceSlots KnowledgeKiln.L3.Markers

/-- Retrieval found evidence over the threshold, from live documents, with no flagged
chunk inside the warning gate and no lone top hit. -/
structure Quiet (env : Env) (config : RetrievalConfig) (cands : List RankedChunk) : Prop where
  found : cands ≠ []
  strong : topBelow cands config.weakEvidenceScoreThreshold = false
  alive : ∀ c ∈ cands, c.status ∉ deadStatuses
  clean : ∀ c ∈ gateForWarnings cands (some config.effectiveRelevanceFloor)
    (some config.maxWarningRank), c.hasPromptInjection = false ∧ c.hasSensitiveContent = false
  supported : ¬ StandsAlone env config.isolatedMatchDropThreshold
    config.weakEvidenceScoreThreshold (cands.map (·.score))

section
variable {env : Env} {config : RetrievalConfig} {cands : List RankedChunk}

/-- Quiet candidates fire no emitter but `stale_source`. -/
theorem quiet_iff (today : Date) : Quiet env config cands ↔
    ∀ t, EmitterFires env cands today (Gates.ofConfig config) t → t.defaultsAgree = true := by
  constructor
  · intro q t h
    cases t with
    | staleSource => rfl
    | answerTruncated => rfl
    | deprecatedSource =>
      obtain ⟨c, hc, hs⟩ := h
      exact absurd hs (q.alive c hc)
    | promptInjectionPattern =>
      obtain ⟨c, hc, hf⟩ := h
      exact absurd hf (by simp [(q.clean c hc).1])
    | sensitiveContent =>
      obtain ⟨c, hc, hf⟩ := h
      exact absurd hf (by simp [(q.clean c hc).2])
    | weakEvidence =>
      rcases h with h | h
      · exact absurd h q.found
      · exact absurd h (by simpa [Gates.ofConfig] using q.strong)
    | isolatedMatch => exact absurd h q.supported
    | conflictingSources => exact absurd h id
    | queryNormalized => exact absurd h id
  · intro h
    have hno : ∀ t, t.defaultsAgree = false →
        ¬ EmitterFires env cands today (Gates.ofConfig config) t := by
      intro t ht hf
      rw [h t hf] at ht
      cases ht
    refine ⟨?_, ?_, ?_, ?_, hno .isolatedMatch rfl⟩
    · exact fun he => hno .weakEvidence rfl (.inl he)
    · exact Bool.eq_false_iff.mpr fun he => hno .weakEvidence rfl (.inr he)
    · exact fun c hc hs => hno .deprecatedSource rfl ⟨c, hc, hs⟩
    · intro c hc
      constructor
      · exact Bool.eq_false_iff.mpr fun hf => hno .promptInjectionPattern rfl ⟨c, hc, hf⟩
      · exact Bool.eq_false_iff.mpr fun hf => hno .sensitiveContent rfl ⟨c, hc, hf⟩

/-- Defaulted warnings agree with the table exactly when all their types do. -/
theorem agrees_iff_types {ws : List Warning} (hd : ∀ w ∈ ws, w.Defaulted) :
    (∀ w ∈ ws, w.AgreesWithPolicy) ↔
      ∀ t, (∃ w ∈ ws, w.type = t) → t.defaultsAgree = true := by
  constructor
  · rintro h t ⟨w, hw, rfl⟩
    exact (hd w hw).agrees_iff.mp (h w hw)
  · exact fun h w hw => (hd w hw).agrees_iff.mpr (h _ ⟨w, hw, rfl⟩)

end

/-! ## Search -/

theorem search_agrees_iff {env : Env} {config : RetrievalConfig} {phrases : List Str}
    {sur : Surroundings} {query : Str} {filters : RetrievalFilters} {maxResults : Nat}
    {res : SearchResult} {rows : List SearchRow} {removed : List Str}
    (h : search env config phrases sur query filters maxResults = .ok res)
    (hr : retrieve env phrases sur query filters = .ok (rows, removed)) :
    (∀ w ∈ res.warnings, w.AgreesWithPolicy) ↔
      Quiet env config (candidates env config sur.boostDay rows maxResults) ∧ removed = [] := by
  unfold search at h
  obtain ⟨_, -, h⟩ := Py.bind_ok.mp h
  obtain ⟨⟨rows', removed'⟩, hr', h⟩ := Py.bind_ok.mp h
  cases hr.symm.trans hr'
  obtain ⟨ws, hw, h⟩ := Py.bind_ok.mp h
  rw [Py.pure_ok] at h
  subst h
  simp only [List.mem_append, or_imp, forall_and]
  rw [agrees_iff_types fun w => collectWarnings_defaulted hw,
    normalizationWarnings_uniform.agrees_iff, normalizationWarnings_eq_nil,
    quiet_iff sur.warnDay]
  simp only [collectWarnings_type_iff candidates_pairwise hw]
  simp [WarningType.defaultsAgree]

/-! ## Context packs and answers -/

theorem pack_agrees_iff {env : Env} {k : Call} {rows : List SearchRow} {removed : List Str}
    {kept : List RankedChunk} {cited : List EvidenceChunk} {pack : ContextPackResponse}
    (b : BuiltFrom env k rows removed kept cited pack) :
    (∀ w ∈ pack.warnings, w.AgreesWithPolicy) ↔
      Quiet env k.config (k.cands env rows) ∧ k.conflicts env rows = [] ∧ removed = [] := by
  rw [agrees_iff_types fun w => b.defaulted, quiet_iff k.sur.warnDay]
  simp only [b.warning_type_iff]
  constructor
  · intro h
    refine ⟨fun t ht => ?_, ?_, ?_⟩
    · cases t with
      | conflictingSources => exact absurd ht id
      | queryNormalized => exact absurd ht id
      | _ => exact h _ ht
    · exact not_not.mp fun hc => absurd (h .conflictingSources hc) (by decide)
    · exact not_not.mp fun hc => absurd (h .queryNormalized hc) (by decide)
  · rintro ⟨h, hc, hr⟩ t ht
    cases t with
    | conflictingSources => exact absurd hc ht
    | queryNormalized => exact absurd hr ht
    | _ => exact h _ ht

/-! ## Markers in the evidence texts -/

/-- The inline marker of a type, up to its message. -/
def markerHead (t : WarningType) : Str := "[KILN-WARN: ".toList ++ t.value

theorem markerHead_cons (t : WarningType) : ∃ tail, markerHead t = '[' :: tail :=
  ⟨"KILN-WARN: ".toList ++ t.value, List.cons_append⟩

theorem markerHead_ne_nil (t : WarningType) : markerHead t ≠ [] := by
  obtain ⟨tail, h⟩ := markerHead_cons t
  rw [h]
  exact List.cons_ne_nil _ _

/-- The evidence text holds the marker of a blocking type, which the stored text of the chunk does
not hold itself. -/
def BlockingMarked (rows : List SearchRow) (e : EvidenceChunk) : Prop :=
  ∃ t, blockingType t = true ∧ markerHead t <:+: e.text ∧
    ∀ row ∈ rows, row.chunkId = e.chunkId → ¬ markerHead t <:+: row.content

/-- The candidate is flagged for what the type warns of. -/
def flaggedAs : WarningType → RankedChunk → Bool
  | .promptInjectionPattern, c => c.hasPromptInjection
  | .sensitiveContent, c => c.hasSensitiveContent
  | _, _ => false

/-- The document of an offered chunk has no flagged candidate inside the warning gate, unless the
stored text of the chunk holds the marker itself. -/
def Unmarked (env : Env) (k : Call) (rows : List SearchRow) : Prop :=
  ∀ rc, Offered env k rows rc → ∀ c ∈ k.gated env rows, c.documentId = rc.documentId →
    ∀ t, flaggedAs t c = true →
      ∃ row ∈ rows, row.chunkId = rc.chunkId ∧ markerHead t <:+: row.content

theorem blocking_of_flagged {t : WarningType} {c : RankedChunk} (h : flaggedAs t c = true) :
    blockingType t = true := by
  cases t with
  | promptInjectionPattern => rfl
  | sensitiveContent => rfl
  | _ => cases h

/-- The bracket of a marker, and what follows it. -/
def markerTail (w : Warning) : Str :=
  "KILN-WARN: ".toList ++ (w.type.value ++ (" — ".toList ++ (w.message ++ "]".toList)))

theorem marker_eq (w : Warning) : marker w = '[' :: markerTail w := by
  unfold marker markerTail
  simp only [List.append_assoc]
  generalize w.type.value ++ _ = rest
  rfl

theorem marker_begins (w : Warning) : markerHead w.type <+: marker w := by
  unfold markerHead marker
  simp only [List.append_assoc]
  exact (List.prefix_append_right_inj _).mpr (List.prefix_append _ _)

/-- Two letters tell a blocking type from the others. -/
theorem type_of_letters {t t' : WarningType} (ht : blockingType t = true)
    (h : t.value.take 2 = t'.value.take 2) : t' = t := by
  revert ht h
  cases t <;> cases t' <;> decide

/-- The marker of a blocking type is only in the lines of its warnings. -/
theorem type_of_markerHead {w : Warning} {t : WarningType} (hbracket : '[' ∉ w.message)
    (ht : blockingType t = true) (h : markerHead t <:+: marker w) : w.type = t := by
  obtain ⟨tail, htail⟩ := markerHead_cons t
  rw [marker_eq] at h
  rcases List.infix_cons_iff.mp h with h | h
  · -- both begin the line
    rw [← marker_eq] at h
    unfold markerHead marker at h
    simp only [List.append_assoc, List.prefix_append_right_inj] at h
    have hlen : ∀ t : WarningType, 2 ≤ t.value.length := fun t => by cases t <;> decide
    have htake := congrArg (List.take 2) (List.prefix_iff_eq_take.mp h)
    rw [List.take_take, min_eq_left (hlen t), List.take_append_of_le_length (hlen w.type)] at htake
    exact type_of_letters ht htake
  · have hmem : '[' ∈ markerTail w := h.subset (by rw [htail]; exact List.mem_cons_self)
    have hvalue : '[' ∉ w.type.value := by cases w.type <;> decide
    unfold markerTail at hmem
    simp only [List.mem_append, hbracket, hvalue, false_or] at hmem
    exact absurd hmem (by decide)

/-- What a text with markers holds is in the text, or in a marker. -/
theorem infix_withMarkers {ws : List Warning} {text : Str} {t : WarningType}
    (h : markerHead t <:+: withMarkers ws text) :
    markerHead t <:+: text ∨ ∃ w ∈ ws, markerHead t <:+: marker w := by
  have hbreak : '\n' ∉ markerHead t := by cases t <;> decide
  have hjoin : markerHead t <:+: join "\n" (ws.map marker) →
      ∃ w ∈ ws, markerHead t <:+: marker w := by
    intro h
    obtain ⟨part, hp, h⟩ := @infix_of_join '\n' _ (markerHead_ne_nil t) hbreak _ h
    obtain ⟨w, hw, rfl⟩ := List.mem_map.mp hp
    exact ⟨w, hw, h⟩
  unfold withMarkers at h
  split at h
  · exact .inl h
  · dsimp only at h
    split at h
    · rw [List.append_assoc] at h
      rcases infix_append_cons hbreak h with h | h
      · exact .inl h
      · rcases @infix_append_cons '\n' _ [] _ hbreak h with h | h
        · exact .inl (h.trans List.nil_infix)
        · exact .inr (hjoin h)
    · exact .inr (hjoin h)

/-- Every warning has its line. -/
theorem marker_of_mem {ws : List Warning} {w : Warning} (h : w ∈ ws) (text : Str) :
    marker w <:+: withMarkers ws text := by
  have hjoin : marker w <:+: join "\n" (ws.map marker) := infix_join (List.mem_map_of_mem h)
  unfold withMarkers
  rw [if_neg (List.ne_nil_of_mem h)]
  dsimp only
  split
  · exact hjoin.trans (List.suffix_append _ _).isInfix
  · exact hjoin

section
variable {env : Env} {k : Call} {rows : List SearchRow} {removed : List Str}
  {kept : List RankedChunk} {cited : List EvidenceChunk} {pack : ContextPackResponse}
  {t : WarningType} {id : Uuid}

/-- The gated candidates of a document that a flag stands on. -/
theorem mem_mine {p : RankedChunk → Bool} {c : RankedChunk} :
    c ∈ (gateForWarnings ((k.gated env rows).filter (·.documentId = id)) none none).filter p ↔
      c ∈ k.gated env rows ∧ c.documentId = id ∧ p c = true := by
  have hgate : gateForWarnings ((k.gated env rows).filter (·.documentId = id)) none none =
      (k.gated env rows).filter (·.documentId = id) := rfl
  rw [hgate, List.mem_filter, List.mem_filter, decide_eq_true_iff, and_assoc]

/-- Which blocking types have a line behind the texts of a document. -/
theorem about_type_iff (ht : blockingType t = true) :
    (∃ w ∈ warningsAbout env k rows id, w.type = t) ↔
      ∃ c ∈ k.gated env rows, c.documentId = id ∧ flaggedAs t c = true := by
  unfold warningsAbout
  dsimp only
  simp only [List.mem_append]
  constructor
  · rintro ⟨w, hw, htype⟩
    have hblocks : ∀ {t' : WarningType} {l : List Warning}, Uniform t' l → w ∈ l →
        blockingType t' = true := fun hl hw => by
      rw [← (hl w hw).1, htype]
      exact ht
    rcases hw with hw | hw | hw | hw | hw
    · cases hblocks (deprecatedWarnings_uniform _) hw
    · cases hblocks isolatedMatchWarning_uniform (List.mem_of_mem_filter hw)
    · obtain ⟨c, hc, rfl⟩ := List.mem_map.mp hw
      cases htype
      exact ⟨c, mem_mine.mp hc⟩
    · obtain ⟨c, hc, rfl⟩ := List.mem_map.mp hw
      cases htype
      exact ⟨c, mem_mine.mp hc⟩
    · have hmine : ∀ c ∈ (k.cands env rows).filter (·.documentId = id), c.documentId = id :=
        fun c hc => by simpa using (List.mem_filter.mp hc).2
      cases hblocks (stale_ordered hmine).1 hw
  · rintro ⟨c, hc, hid, hflag⟩
    have hmine := mem_mine.mpr ⟨hc, hid, hflag⟩
    cases t with
    | promptInjectionPattern => exact ⟨_, .inr (.inr (.inl (List.mem_map_of_mem hmine))), rfl⟩
    | sensitiveContent => exact ⟨_, .inr (.inr (.inr (.inl (List.mem_map_of_mem hmine)))), rfl⟩
    | _ => cases ht

/-- The text of a cited chunk is that of a row, or empty. -/
theorem cited_text {rc : RankedChunk} {e : EvidenceChunk}
    (h : toEvidenceChunk env (chunkText rows (k.cands env rows)) (documentRefsFromRows rows) rc =
      .ok e) :
    e.text = [] ∨ ∃ row ∈ rows, row.chunkId = rc.chunkId ∧ row.content = e.text := by
  have htext := (toEvidenceChunk_fields h).2.2
  cases hfound : chunkText rows (k.cands env rows) rc.chunkId with
  | none =>
    rw [hfound] at htext
    exact .inl htext
  | some text =>
    rw [hfound] at htext
    obtain ⟨row, hrow, heq⟩ := List.mem_map.mp (mem_of_lookupLast hfound)
    obtain ⟨hrid, hcontent⟩ := Prod.mk.inj heq
    refine .inr ⟨row, (List.mem_filter.mp hrow).1, hrid, ?_⟩
    rw [hcontent, htext]
    rfl

/-- A marker that no row of the chunk holds stands in a line. -/
theorem marked_iff {rc : RankedChunk} {e : EvidenceChunk}
    (h : toEvidenceChunk env (chunkText rows (k.cands env rows)) (documentRefsFromRows rows) rc =
      .ok e) (ht : blockingType t = true)
    (hrows : ∀ row ∈ rows, row.chunkId = rc.chunkId → ¬ markerHead t <:+: row.content) :
    markerHead t <:+: withMarkers (warningsAbout env k rows rc.documentId) e.text ↔
      ∃ c ∈ k.gated env rows, c.documentId = rc.documentId ∧ flaggedAs t c = true := by
  rw [← about_type_iff ht]
  constructor
  · intro hmark
    rcases infix_withMarkers hmark with hmark | ⟨w, hw, hmark⟩
    · rcases cited_text h with htext | ⟨row, hrow, hid, htext⟩
      · rw [htext] at hmark
        exact absurd (List.infix_nil.mp hmark) (markerHead_ne_nil t)
      · exact absurd (htext ▸ hmark) (hrows row hrow hid)
    · have hbracket : '[' ∉ w.message := opener_notMem_about (by decide) hw
      exact ⟨w, hw, type_of_markerHead hbracket ht hmark⟩
  · rintro ⟨w, hw, rfl⟩
    exact (marker_begins w).isInfix.trans (marker_of_mem hw e.text)

/-- The same of the whole evidence chunk. -/
theorem blockingMarked_iff {rc : RankedChunk} {e : EvidenceChunk}
    (h : toEvidenceChunk env (chunkText rows (k.cands env rows)) (documentRefsFromRows rows) rc =
      .ok e) :
    ¬ BlockingMarked rows
        { e with text := withMarkers (warningsAbout env k rows e.documentId) e.text } ↔
      ∀ c ∈ k.gated env rows, c.documentId = rc.documentId → ∀ t, flaggedAs t c = true →
        ∃ row ∈ rows, row.chunkId = rc.chunkId ∧ markerHead t <:+: row.content := by
  obtain ⟨hid, hdoc, -⟩ := toEvidenceChunk_fields h
  unfold BlockingMarked
  dsimp only
  rw [hid, hdoc]
  constructor
  · intro hno c hg hd t hflag
    by_contra hin
    have hrows : ∀ row ∈ rows, row.chunkId = rc.chunkId → ¬ markerHead t <:+: row.content :=
      fun row hrow hr hm => hin ⟨row, hrow, hr, hm⟩
    have ht := blocking_of_flagged hflag
    exact hno ⟨t, ht, (marked_iff h ht hrows).mpr ⟨c, hg, hd, hflag⟩, hrows⟩
  · rintro hin ⟨t, ht, hmark, hrows⟩
    obtain ⟨c, hg, hd, hflag⟩ := (marked_iff h ht hrows).mp hmark
    obtain ⟨row, hrow, hr, hm⟩ := hin c hg hd t hflag
    exact hrows row hrow hr hm

/-- **Markers.** The evidence texts of a pack hold no marker of a blocking type exactly when the
gate lets no flagged candidate of their documents through. -/
theorem unmarked_iff (b : BuiltFrom env k rows removed kept cited pack)
    (hembed : k.embedWarningsInText = true) :
    (∀ e ∈ pack.evidence, ¬ BlockingMarked rows e) ↔ Unmarked env k rows := by
  obtain ⟨ws, cws, hws, hcws, he⟩ := b.warnings
  have hevidence : pack.evidence = cited.map fun e =>
      { e with text := withMarkers (warningsAbout env k rows e.documentId) e.text } := by
    rw [b.assembled.evidence, if_pos hembed]
    refine List.map_congr_left fun e _ => ?_
    rw [he, withMarkers_congr (inlined_markers hws hcws)]
  rw [hevidence, List.forall_mem_map, Unmarked, ← forall_kept_iff b]
  constructor
  · intro h rc hrc
    obtain ⟨e, hm, hc⟩ := Py.exists_of_mapM b.assembled.cited_eq hrc
    exact (blockingMarked_iff hc).mp (h e hm)
  · intro h e hm
    obtain ⟨rc, hrc, hc⟩ := Py.mem_of_mapM b.assembled.cited_eq hm
    exact (blockingMarked_iff hc).mpr (h rc hrc)

/-- Among quiet candidates nobody is flagged. -/
theorem unmarked_of_quiet (h : Quiet env k.config (k.cands env rows)) : Unmarked env k rows := by
  intro rc _ c hg _ t hflag
  obtain ⟨hinjection, hsensitive⟩ := h.clean c hg
  cases t with
  | promptInjectionPattern => exact absurd hflag (by simp [flaggedAs, hinjection])
  | sensitiveContent => exact absurd hflag (by simp [flaggedAs, hsensitive])
  | _ => cases hflag

end

/-- The warnings of an answer are those of its pack, and possibly `answer_truncated`. -/
theorem answer_warnings {env : Env} {config : RetrievalConfig} {phrases : List Str}
    {sur : Surroundings} {packId answerId : Uuid} {generator : Generator}
    {request : AnswerRequest} {r : AnswerResponse} {pack : ContextPackResponse}
    (hb : buildContextPack env (packCall config phrases sur packId request) = .ok pack)
    (h : (synthesizeAnswer env config phrases sur packId answerId generator request).2 = .ok r) :
    ∃ extra, Uniform .answerTruncated extra ∧ r.warnings = pack.warnings ++ extra := by
  unfold synthesizeAnswer at h
  rw [hb] at h
  dsimp only at h
  split at h
  · cases h
    exact ⟨[], Uniform.nil _, (List.append_nil _).symm⟩
  · split at h
    · cases h
      exact ⟨[], Uniform.nil _, (List.append_nil _).symm⟩
    · obtain ⟨result, -, rfl⟩ := Py.exists_of_map_eq h
      unfold packageResult
      dsimp only
      split
      · exact ⟨[], Uniform.nil _, (List.append_nil _).symm⟩
      · refine ⟨_, ?_, rfl⟩
        split
        · exact Uniform.singleton rfl
        · exact Uniform.nil _

/-! ## The three surfaces -/

/-- **Warning policy.** On each surface every warning agrees with the table exactly when the
candidates are quiet, nothing conflicts and no phrase was removed from the query; for a
pack this is also exactly when, on top of that, no evidence text has got the marker of a blocking
type from the embedding of the warnings. The markers alone stay out exactly when the warning gate
lets no flagged candidate of a cited document through. -/
theorem policy_agreement_iff (env : Env) (config : RetrievalConfig) (phrases : List Str)
    (sur : Surroundings) :
    (∀ query filters maxResults res rows removed,
      search env config phrases sur query filters maxResults = .ok res →
      retrieve env phrases sur query filters = .ok (rows, removed) →
      ((∀ w ∈ res.warnings, w.AgreesWithPolicy) ↔
        Quiet env config (candidates env config sur.boostDay rows maxResults) ∧ removed = [])) ∧
    (∀ k pack rows removed, k.config = config →
      buildContextPack env k = .ok pack →
      retrieve env k.phrases k.sur k.query k.filters = .ok (rows, removed) →
      (((∀ w ∈ pack.warnings, w.AgreesWithPolicy) ∧ (k.embedWarningsInText = true →
          ∀ e ∈ pack.evidence, ¬ BlockingMarked rows e)) ↔
        Quiet env config (k.cands env rows) ∧ k.conflicts env rows = [] ∧ removed = []) ∧
      (k.embedWarningsInText = true →
        ((∀ e ∈ pack.evidence, ¬ BlockingMarked rows e) ↔ Unmarked env k rows))) ∧
    (∀ packId answerId generator request r rows removed,
      (synthesizeAnswer env config phrases sur packId answerId generator request).2 = .ok r →
      retrieve env phrases sur request.query (request.filters.getD {}) = .ok (rows, removed) →
      ((∀ w ∈ r.warnings, w.AgreesWithPolicy) ↔
        Quiet env config ((packCall config phrases sur packId request).cands env rows) ∧
          (packCall config phrases sur packId request).conflicts env rows = [] ∧
          removed = [])) := by
  refine ⟨?_, ?_, ?_⟩
  · intro query filters maxResults res rows removed h hr
    exact search_agrees_iff h hr
  · rintro k pack rows removed rfl hb hr
    obtain ⟨kept, cited, b⟩ := packFromRows_ok (build_ok_of_retrieve hb hr)
    refine ⟨?_, unmarked_iff b⟩
    rw [← pack_agrees_iff b]
    refine ⟨And.left, fun h => ⟨h, fun hembed => ?_⟩⟩
    exact (unmarked_iff b hembed).mpr (unmarked_of_quiet ((pack_agrees_iff b).mp h).1)
  · intro packId answerId generator request r rows removed h hr
    cases hb : buildContextPack env (packCall config phrases sur packId request) with
    | error e => simp [synthesizeAnswer, hb] at h
    | ok pack =>
      obtain ⟨kept, cited, b⟩ := packFromRows_ok (build_ok_of_retrieve hb hr)
      obtain ⟨extra, hu, he⟩ := answer_warnings hb h
      rw [he]
      simp only [List.mem_append, or_imp, forall_and]
      rw [hu.agrees_iff, pack_agrees_iff b]
      simp [WarningType.defaultsAgree, packCall]

/-- A sensitive hit and a clean hit of one document, with markers asked for. -/
def sharedDocument : List SearchRow :=
  [{ sampleRow 1 1 1 "key" [] with hasSensitiveContent := true }, sampleRow 2 1 (9 / 10) "b" []]

def markedCall : Call := { sampleCall sharedDocument with embedWarningsInText := true }

def markedText : Str :=
  "b\n\n[KILN-WARN: sensitive_content — Chunk matches a configured ".toList ++
    "sensitive-content pattern.]"

/-- The pack carries a sensitive-content warning at `advisory` and `inform`, and the clean
chunk's text ends with its marker. -/
theorem sensitive_marker : ∃ pack, buildContextPack asciiEnv markedCall = .ok pack ∧
    (∃ w ∈ pack.warnings, w.type = .sensitiveContent ∧ ¬ w.AgreesWithPolicy) ∧
    pack.evidence.map (·.text) = [markedText] ∧
    ∃ e ∈ pack.evidence, BlockingMarked sharedDocument e := by
  obtain ⟨pack, hb, h⟩ := Py.exists_of_map_eq (x := buildContextPack asciiEnv markedCall)
    (f := fun p => (p.warnings.any fun w => w.type = .sensitiveContent ∧ ¬ w.AgreesWithPolicy,
      p.evidence.map (·.text)))
    (b := (true, [markedText]))
    (by decide +kernel)
  obtain ⟨h1, h2⟩ := Prod.mk.inj h
  obtain ⟨e, he, htext⟩ : ∃ e ∈ pack.evidence, e.text = markedText :=
    List.mem_map.mp (h2 ▸ List.mem_singleton_self _)
  have hmarked : markerHead .sensitiveContent <:+: markedText := by decide +kernel
  have hstored : ∀ row ∈ sharedDocument, ¬ markerHead .sensitiveContent <:+: row.content := by
    decide +kernel
  exact ⟨pack, hb, by simpa using h1, h2, e, he, .sensitiveContent, rfl, htext ▸ hmarked,
    fun row hrow _ => hstored row hrow⟩

theorem policy_agreement_marked : ∃ pack, buildContextPack asciiEnv markedCall = .ok pack ∧
    (((∀ w ∈ pack.warnings, w.AgreesWithPolicy) ∧ (markedCall.embedWarningsInText = true →
        ∀ e ∈ pack.evidence, ¬ BlockingMarked sharedDocument e)) ↔
      Quiet asciiEnv defaultConfig (markedCall.cands asciiEnv sharedDocument) ∧
        markedCall.conflicts asciiEnv sharedDocument = [] ∧ ([] : List Str) = []) ∧
    ((∀ e ∈ pack.evidence, ¬ BlockingMarked sharedDocument e) ↔
      Unmarked asciiEnv markedCall sharedDocument) := by
  obtain ⟨pack, hb⟩ := Py.exists_of_isOk (x := buildContextPack asciiEnv markedCall)
    (by decide +kernel)
  obtain ⟨hagree, hmarks⟩ := (policy_agreement_iff asciiEnv defaultConfig [] markedCall.sur).2.1
    markedCall pack sharedDocument [] rfl hb (by decide +kernel)
  exact ⟨pack, hb, hagree, hmarks rfl⟩

end KnowledgeKiln.L3.Policy
