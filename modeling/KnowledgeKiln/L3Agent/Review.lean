import KnowledgeKiln.L3Agent.ContextPack

/-!
# The review decision of a context pack

* `sensitive_withheld`: no evidence chunk is a sensitive row, and a sensitive
  candidate forces review, whatever its rank and score.
* `flag_iff_reasons`: when `requires_human_review` and a non-empty
  `review_reasons` agree. The flag also reads the configured threshold and the
  isolated-match warning; the reasons read the module's constant 0.46 and know no
  line for an isolated match.
* `warnings_escalate`: a warning whose type the policy escalates forces review, although
  warnings speak of the candidates and the decision of the evidence left of them.
-/
namespace KnowledgeKiln.L3.Review

open KnowledgeKiln.Core KnowledgeKiln.L2 KnowledgeKiln.L2.Ranking KnowledgeKiln.L2.Engine
  KnowledgeKiln.L3.Serializers KnowledgeKiln.L3.ContextPack

/-! ## Sensitive chunks -/

/-- **Withheld and escalated.** Every evidence chunk stems from a candidate that is not
flagged sensitive; where the rows have distinct chunk ids, as the final SELECT has, no row
with the id of an evidence chunk is flagged. A sensitive chunk among the best `max_chunks`
candidates forces review, makes the pack unanswerable and leaves a reason. -/
theorem sensitive_withheld (env : Env) (k : Call) (rows : List SearchRow) (removed : List Str)
    (pack : ContextPackResponse) (hb : buildContextPack env k = .ok pack)
    (hr : retrieve env k.phrases k.sur k.query k.filters = .ok (rows, removed)) :
    (∀ e ∈ pack.evidence, ∃ c ∈ k.cands env rows, c.chunkId = e.chunkId ∧
      c.documentId = e.documentId ∧ c.hasSensitiveContent = false) ∧
    ((rows.map (·.chunkId)).Nodup → ∀ e ∈ pack.evidence, ∀ r ∈ rows, r.chunkId = e.chunkId →
      r.hasSensitiveContent = false) ∧
    ((∃ c ∈ k.cands env rows, c.hasSensitiveContent = true) →
      pack.requiresHumanReview = true ∧ pack.answerable = false ∧ pack.reviewReasons ≠ []) := by
  obtain ⟨kept, cited, b⟩ := packFromRows_ok (build_ok_of_retrieve hb hr)
  have hsource : ∀ e ∈ pack.evidence, ∃ c ∈ k.cands env rows, c.chunkId = e.chunkId ∧
      c.documentId = e.documentId ∧ c.hasSensitiveContent = false := by
    intro e he
    obtain ⟨c, hc, hid, hdoc⟩ := b.assembled.mem_evidence he
    obtain ⟨hcand, hsafe⟩ := b.mem_kept hc
    exact ⟨c, hcand, hid.symm, hdoc.symm, hsafe⟩
  refine ⟨hsource, ?_, ?_⟩
  · intro hn e he r hrow hid
    obtain ⟨c, hcand, hce, -, hsafe⟩ := hsource e he
    obtain ⟨r', hr', rfl⟩ := mem_candidates hcand
    have : r = r' := List.inj_on_of_nodup_map hn hrow hr' (hid.trans hce.symm)
    subst this
    exact hsafe
  · intro hs
    have hreview := b.review_iff.mpr (.inl (.inl hs))
    refine ⟨hreview, ?_, b.reasons_iff.mpr (.inl (.inl hs))⟩
    rw [b.assembled.answerable, hreview]
    simp

/-- The chunk at rank 4 is sensitive and scores below the floor, so no warning names it. -/
def sensitiveLast : List SearchRow :=
  [sampleRow 1 1 1 "a" [], sampleRow 2 2 (9 / 10) "b" [], sampleRow 3 3 (8 / 10) "c" [],
    { sampleRow 4 4 (1 / 100) "key" [] with hasSensitiveContent := true }]

theorem sensitive_withheld_last : ∃ pack,
    buildContextPack asciiEnv (sampleCall sensitiveLast) = .ok pack ∧ pack.warnings = [] ∧
      pack.requiresHumanReview = true ∧ pack.answerable = false ∧ pack.reviewReasons ≠ [] := by
  obtain ⟨pack, hb, hw⟩ := Py.exists_of_map_eq (f := (·.warnings)) (b := [])
    (x := buildContextPack asciiEnv (sampleCall sensitiveLast)) (by decide +kernel)
  exact ⟨pack, hb, hw, (sensitive_withheld asciiEnv (sampleCall sensitiveLast) sensitiveLast [] pack
    hb (by decide +kernel)).2.2 (by decide +kernel)⟩

/-! ## Flag and reasons -/

/-- On candidate scores, best first: the score conditions of the flag hold exactly when
the score line of the reasons does. -/
def ScoreLinesAgree (env : Env) (config : RetrievalConfig) (scores : List ℚ) : Prop :=
  ∀ top ∈ scores.head?,
    if top < weakEvidenceScoreThreshold then
      top < config.weakEvidenceScoreThreshold ∨ StandsAlone env config.isolatedMatchDropThreshold
        config.weakEvidenceScoreThreshold scores
    else config.weakEvidenceScoreThreshold ≤ top ∧
      ¬ StandsAlone env config.isolatedMatchDropThreshold config.weakEvidenceScoreThreshold scores

theorem topScore_eq_head {chunks : List RankedChunk}
    (h : chunks.Pairwise fun a b => b.score ≤ a.score) :
    topScore chunks = (chunks.map (·.score)).head? := by
  unfold topScore
  refine List.max?_eq_head? ?_
  rw [List.pairwise_map]
  exact h.imp fun hab => max_eq_left hab

/-- With no sensitive candidate the evidence starts with the best candidate. -/
theorem topScore_kept {env : Env} {k : Call} {rows : List SearchRow} {removed : List Str}
    {kept : List RankedChunk} {cited : List EvidenceChunk} {pack : ContextPackResponse}
    (b : BuiltFrom env k rows removed kept cited pack)
    (hs : ¬ ∃ c ∈ k.cands env rows, c.hasSensitiveContent = true) (hk : kept ≠ []) :
    topScore kept = ((k.cands env rows).map (·.score)).head? := by
  have hsafe : k.safe env rows = k.cands env rows := by
    simpa [Call.safe] using hs
  have hp : kept <+: k.cands env rows := hsafe ▸ b.kept_initial
  rw [topScore_eq_head (k.cands_pairwise.sublist hp.sublist)]
  obtain ⟨t, ht⟩ := hp
  rw [← ht]
  cases kept with
  | nil => exact absurd rfl hk
  | cons c cs => rfl

/-- **Flag and reasons.** For the rows of the fetch and the evidence prefix `kept`: the
pack asks for review exactly when it names a reason if and only if a condition known to
both passes holds, or the score lines agree. -/
theorem flag_iff_reasons (env : Env) (k : Call) (rows : List SearchRow) (removed : List Str)
    (kept : List RankedChunk) (used : Nat) (pack : ContextPackResponse)
    (hb : buildContextPack env k = .ok pack)
    (hr : retrieve env k.phrases k.sur k.query k.filters = .ok (rows, removed))
    (hk : k.kept env rows = .ok (kept, used)) :
    (pack.requiresHumanReview = true ↔ pack.reviewReasons ≠ []) ↔
      BuiltFrom.Escalates env k rows kept ∨
        ScoreLinesAgree env k.config ((k.cands env rows).map (·.score)) := by
  obtain ⟨kept', cited, b⟩ := packFromRows_ok (build_ok_of_retrieve hb hr)
  obtain ⟨used', hk'⟩ := b.kept_eq
  cases hk.symm.trans hk'
  rw [b.review_iff, b.reasons_iff]
  by_cases he : BuiltFrom.Escalates env k rows kept
  · simp [he]
  have hne : kept ≠ [] := fun h => he (.inr (.inr (.inl (.inl h))))
  have htop := topScore_kept b (fun h => he (.inl h)) hne
  simp only [he, false_or, topBelow, htop, ScoreLinesAgree]
  cases hs : ((k.cands env rows).map (·.score)).head? with
  | none =>
    rw [hs, topScore_eq_none] at htop
    exact absurd htop hne
  | some top =>
    simp only [Option.any_some, decide_eq_true_eq, Option.mem_some_iff, forall_eq']
    by_cases hc : top < weakEvidenceScoreThreshold
    · simp [hc, or_comm]
    · simp only [hc, if_false, iff_false, not_or, not_lt]
      exact and_comm

/-- The default configuration flags the lone hit of score 1 over 1/2 and names no reason. -/
def loneHit : List SearchRow := [sampleRow 1 1 1 "a" [], sampleRow 2 2 (1 / 2) "b" []]

/-- A deployment that accepts weaker evidence, and a best score between its threshold and 0.46. -/
def lowThreshold : Call :=
  { sampleCall [sampleRow 1 1 (4 / 10) "a" []] with
    config := { defaultConfig with
      weakEvidenceScoreThreshold := 3 / 10
      weakEvidence_pos := by decide +kernel } }

/-- Flag without a reason, and a reason without the flag. -/
theorem flag_reasons_differ :
    (∃ pack, buildContextPack asciiEnv (sampleCall loneHit) = .ok pack ∧
      pack.requiresHumanReview = true ∧ pack.reviewReasons = []) ∧
    ∃ pack, buildContextPack asciiEnv lowThreshold = .ok pack ∧
      pack.requiresHumanReview = false ∧ pack.reviewReasons ≠ [] := by
  constructor
  · obtain ⟨pack, hb, h⟩ := Py.exists_of_map_eq
      (f := fun p : ContextPackResponse => (p.requiresHumanReview, p.reviewReasons))
      (b := (true, [])) (x := buildContextPack asciiEnv (sampleCall loneHit)) (by decide +kernel)
    exact ⟨pack, hb, congrArg Prod.fst h, congrArg Prod.snd h⟩
  · obtain ⟨pack, hb, h⟩ := Py.exists_of_map_eq
      (f := fun p : ContextPackResponse => (p.requiresHumanReview, p.reviewReasons.isEmpty))
      (b := (false, false)) (x := buildContextPack asciiEnv lowThreshold) (by decide +kernel)
    refine ⟨pack, hb, congrArg Prod.fst h, fun he => ?_⟩
    simp [he] at h

theorem flag_iff_reasons_loneHit : ∃ pack,
    buildContextPack asciiEnv (sampleCall loneHit) = .ok pack ∧
      ((pack.requiresHumanReview = true ↔ pack.reviewReasons ≠ []) ↔
        BuiltFrom.Escalates asciiEnv (sampleCall loneHit) loneHit
          ((sampleCall loneHit).cands asciiEnv loneHit) ∨
        ScoreLinesAgree asciiEnv defaultConfig
          (((sampleCall loneHit).cands asciiEnv loneHit).map (·.score))) := by
  obtain ⟨pack, hb⟩ := Py.exists_of_isOk
    (x := buildContextPack asciiEnv (sampleCall loneHit)) (by decide +kernel)
  exact ⟨pack, hb, flag_iff_reasons asciiEnv (sampleCall loneHit) loneHit []
    ((sampleCall loneHit).cands asciiEnv loneHit) 2 pack hb (by decide +kernel) (by decide +kernel)⟩

/-! ## Escalating warnings -/

/-- The actions that hand the request to a human. -/
def escalating (action : Action) : Bool :=
  action == .requestHumanReview || action == .refuseToSynthesize

section
variable {env : Env} {k : Call} {rows : List SearchRow} {removed : List Str}
  {kept : List RankedChunk} {cited : List EvidenceChunk} {pack : ContextPackResponse}

/-- Evidence that is weak before the drops is weak behind them, or gone. -/
theorem topBelow_of_subset {cands kept : List RankedChunk} {threshold : ℚ}
    (hsub : ∀ c ∈ kept, c ∈ cands) (h : cands = [] ∨ topBelow cands threshold = true) :
    kept = [] ∨ topBelow kept threshold = true := by
  by_cases hk : kept = []
  · exact .inl hk
  · obtain ⟨c, hc⟩ := List.exists_mem_of_ne_nil kept hk
    have hlt : ∀ c ∈ cands, c.score < threshold := by
      rcases h with h | h
      · rw [h] at hsub
        cases hsub c hc
      · exact (topBelow_iff.mp h).2
    exact .inr (topBelow_iff.mpr ⟨hk, fun c hc => hlt c (hsub c hc)⟩)

/-- Each type the policy escalates fires on a condition that forces review. -/
theorem review_of_fires (b : BuiltFrom env k rows removed kept cited pack) {t : WarningType}
    (ht : escalating (warningPolicy t).2 = true) (hf : k.Fires env rows removed t) :
    pack.requiresHumanReview = true := by
  rw [b.review_iff]
  cases t with
  | conflictingSources => exact .inl (.inr (.inl hf))
  | weakEvidence =>
    rcases topBelow_of_subset (fun c hc => (b.mem_kept hc).1) hf with h | h
    · exact .inl (.inr (.inr (.inl (.inl h))))
    · exact .inr (.inr h)
  | isolatedMatch => exact .inr (.inl hf)
  | promptInjectionPattern => exact .inl (.inr (.inr (.inr hf)))
  | sensitiveContent => exact .inl (.inl (BuiltFrom.sensitive_of_gated env k rows hf))
  | staleSource => exact absurd ht (by decide)
  | deprecatedSource => exact absurd ht (by decide)
  | queryNormalized => exact absurd ht (by decide)
  | answerTruncated => exact absurd ht (by decide)

end

/-- **Escalation.** A pack with a warning whose type the policy escalates asks for review and is
not answerable. -/
theorem warnings_escalate (env : Env) (k : Call) (pack : ContextPackResponse)
    (hb : buildContextPack env k = .ok pack) (w : Warning) (hw : w ∈ pack.warnings)
    (ha : escalating (warningPolicy w.type).2 = true) :
    pack.requiresHumanReview = true ∧ pack.answerable = false := by
  obtain ⟨rows, removed, -, hp⟩ := build_ok hb
  obtain ⟨kept, cited, b⟩ := packFromRows_ok hp
  have hreview := review_of_fires b ha ((b.warning_type_iff w.type).mp ⟨w, hw, rfl⟩)
  refine ⟨hreview, ?_⟩
  rw [b.assembled.answerable, hreview]
  simp

theorem warnings_escalate_loneHit : ∃ pack w,
    buildContextPack asciiEnv (sampleCall loneHit) = .ok pack ∧ w ∈ pack.warnings ∧
      w.type = .isolatedMatch ∧ pack.requiresHumanReview = true ∧ pack.answerable = false := by
  obtain ⟨pack, hb, h⟩ := Py.exists_of_map_eq
    (f := fun p : ContextPackResponse => p.warnings.map (·.type)) (b := [.isolatedMatch])
    (x := buildContextPack asciiEnv (sampleCall loneHit)) (by decide +kernel)
  obtain ⟨w, hw, ht⟩ := List.mem_map.mp (h ▸ List.mem_singleton_self _)
  exact ⟨pack, w, hb, hw, ht, warnings_escalate asciiEnv (sampleCall loneHit) pack hb w hw
    (by rw [ht]; decide)⟩

end KnowledgeKiln.L3.Review
