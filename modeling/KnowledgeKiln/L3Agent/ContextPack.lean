import KnowledgeKiln.L3Agent.Serializers

/-!
# Building a context pack

`buildContextPack` of retrieval/context_pack.py over any candidate fetch, and
what a returned pack says about the rows it was built from.

* `build_ok`: a returned pack comes from the rows of the fetch.
* `BuiltFrom`: the parts of the pack over the candidates of those rows.
* `review_iff`: `requires_human_review` in terms of candidates, evidence prefix
  and configuration.
* `reasons_iff`: the same for a non-empty `review_reasons`.
-/
namespace KnowledgeKiln.L3.ContextPack

open KnowledgeKiln.Core KnowledgeKiln.L2 KnowledgeKiln.L2.Ranking KnowledgeKiln.L2.Engine
  KnowledgeKiln.L3.Serializers

/-- The arguments of one `build_context_pack` call, with what it reads from outside
and the fresh id it draws. -/
structure Call where
  config : RetrievalConfig
  phrases : List Str
  sur : Surroundings
  packId : Uuid
  query : Str
  task : Str
  filters : RetrievalFilters := {}
  maxChunks : Nat := 8
  maxTokens : Nat := 3000
  embedWarningsInText : Bool := false

variable {env : Env} {k : Call} {rows : List SearchRow} {removed : List Str}
  {pack : ContextPackResponse}

/-- The best `max_chunks` candidates. -/
def Call.cands (k : Call) (env : Env) (rows : List SearchRow) : List RankedChunk :=
  candidates env k.config k.sur.boostDay rows k.maxChunks

theorem Call.cands_pairwise : (k.cands env rows).Pairwise fun a b => b.score ≤ a.score :=
  candidates_pairwise

def Call.gates (k : Call) : Gates := Gates.ofConfig k.config

/-- The candidates the relevance-aware emitters look at. -/
def Call.gated (k : Call) (env : Env) (rows : List SearchRow) : List RankedChunk :=
  gateForWarnings (k.cands env rows) k.gates.relevanceFloor k.gates.maxWarningRank

def Call.conflicts (k : Call) (env : Env) (rows : List SearchRow) : List Conflict :=
  detectConflicts (k.cands env rows) k.gates.relevanceFloor k.gates.maxWarningRank

/-- The candidates offered to the token budget. -/
def Call.safe (k : Call) (env : Env) (rows : List SearchRow) : List RankedChunk :=
  (k.cands env rows).filter fun c => !c.hasSensitiveContent

/-- A warning type and when the pack carries it. -/
def Call.Fires (k : Call) (env : Env) (rows : List SearchRow) (removed : List Str) :
    WarningType → Prop
  | .conflictingSources => k.conflicts env rows ≠ []
  | .queryNormalized => removed ≠ []
  | t => EmitterFires env (k.cands env rows) k.sur.warnDay k.gates t

/-- The evidence prefix: the safe candidates that fit the budget. -/
def Call.kept (k : Call) (env : Env) (rows : List SearchRow) : Py (List RankedChunk × Nat) :=
  trimEvidenceToBudget env (k.safe env rows)
    (fun c => (chunkText rows (k.cands env rows) c.chunkId).getD []) k.maxChunks k.maxTokens

/-- Everything behind the fetch, mirrors retrieval/context_pack.py:116-170 -/
def packFromRows (env : Env) (k : Call) (rows : List SearchRow) (removed : List Str) :
    Py ContextPackResponse := do
  let trimmed := k.cands env rows
  let warnings ← collectWarnings env trimmed k.sur.warnDay k.gates
  let conflicts := k.conflicts env rows
  let conflictWs ← conflictWarnings env conflicts
  let inputs : SerializerInputs :=
    { chunks := trimmed
      warnings := warnings ++ conflictWs ++ normalizationWarnings env removed
      conflicts := conflicts
      chunkText := chunkText rows trimmed
      documentRefs := documentRefsFromRows rows }
  assembleContextPack env inputs k.packId k.maxChunks k.maxTokens k.gates.weakEvidenceThreshold
    k.embedWarningsInText

def requireTask (task : Str) : Py Unit :=
  if task = [] ∨ strip task = [] then throw (.valueError "task must be a non-empty string")
  else pure ()

/-- mirrors retrieval/context_pack.py:68-177 -/
def buildContextPack (env : Env) (k : Call) : Py ContextPackResponse := do
  requireNonempty k.query
  requireTask k.task
  let (rows, removed) ← retrieve env k.phrases k.sur k.query k.filters
  packFromRows env k rows removed

/-- The call, when the database returns `rows`. -/
def Call.onRows (k : Call) (rows : List SearchRow) : Call :=
  { k with sur := { k.sur with fetch := fun _ _ => .ok rows } }

theorem build_ok (h : buildContextPack env k = .ok pack) :
    ∃ rows removed, retrieve env k.phrases k.sur k.query k.filters = .ok (rows, removed) ∧
      packFromRows env k rows removed = .ok pack := by
  unfold buildContextPack at h
  obtain ⟨_, -, h⟩ := Py.bind_ok.mp h
  obtain ⟨_, -, h⟩ := Py.bind_ok.mp h
  obtain ⟨⟨rows, removed⟩, hr, h⟩ := Py.bind_ok.mp h
  exact ⟨rows, removed, hr, h⟩

theorem build_ok_of_retrieve (h : buildContextPack env k = .ok pack)
    (hr : retrieve env k.phrases k.sur k.query k.filters = .ok (rows, removed)) :
    packFromRows env k rows removed = .ok pack := by
  obtain ⟨rows', removed', hr', h⟩ := build_ok h
  cases hr.symm.trans hr'
  exact h

theorem build_onRows (h : buildContextPack env (k.onRows rows) = .ok pack) :
    ∃ removed, packFromRows env k rows removed = .ok pack := by
  obtain ⟨rows', removed, hr, hp⟩ := build_ok h
  obtain ⟨⟨q, removed'⟩, -, hr⟩ := Py.bind_ok.mp hr
  cases hr
  exact ⟨removed, hp⟩

/-- The parts of a pack over the candidates of `rows`. -/
structure BuiltFrom (env : Env) (k : Call) (rows : List SearchRow) (removed : List Str)
    (kept : List RankedChunk) (cited : List EvidenceChunk) (pack : ContextPackResponse) : Prop where
  kept_eq : ∃ used, k.kept env rows = .ok (kept, used)
  warnings : ∃ ws cws, collectWarnings env (k.cands env rows) k.sur.warnDay k.gates = .ok ws ∧
    conflictWarnings env (k.conflicts env rows) = .ok cws ∧
    pack.warnings = ws ++ cws ++ normalizationWarnings env removed
  conflicts : pack.conflicts = k.conflicts env rows
  assembled : AssembledFrom env
    ⟨k.cands env rows, pack.warnings, pack.conflicts, chunkText rows (k.cands env rows),
      documentRefsFromRows rows⟩
    k.maxChunks k.maxTokens (some k.config.weakEvidenceScoreThreshold) k.embedWarningsInText
    kept cited pack

theorem packFromRows_ok (h : packFromRows env k rows removed = .ok pack) :
    ∃ kept cited, BuiltFrom env k rows removed kept cited pack := by
  unfold packFromRows at h
  obtain ⟨ws, hw, h⟩ := Py.bind_ok.mp h
  obtain ⟨cws, hc, h⟩ := Py.bind_ok.mp h
  obtain ⟨kept, cited, a⟩ := assemble_ok h
  refine ⟨kept, cited, a.trim, ⟨ws, cws, hw, hc, a.warnings⟩, a.conflicts, ?_⟩
  rw [a.warnings, a.conflicts]
  exact a

namespace BuiltFrom

variable {kept : List RankedChunk} {cited : List EvidenceChunk}

theorem kept_initial (b : BuiltFrom env k rows removed kept cited pack) :
    kept <+: k.safe env rows := b.assembled.kept_initial

theorem mem_kept (b : BuiltFrom env k rows removed kept cited pack) {c : RankedChunk}
    (h : c ∈ kept) : c ∈ k.cands env rows ∧ c.hasSensitiveContent = false := by
  simpa [Call.safe] using b.kept_initial.subset h

/-- Every kept chunk is attributable. -/
theorem ref_isSome (b : BuiltFrom env k rows removed kept cited pack) {c : RankedChunk}
    (h : c ∈ kept) : (documentRefsFromRows rows c.documentId).isSome = true :=
  documentRefs_isSome (b.mem_kept h).1

theorem cited_all (b : BuiltFrom env k rows removed kept cited pack) :
    ¬ ∃ c ∈ kept, documentRefsFromRows rows c.documentId = none := by
  rintro ⟨c, hc, h⟩
  have := b.ref_isSome hc
  rw [h] at this
  cases this

theorem sensitive_of_gated (env : Env) (k : Call) (rows : List SearchRow) :
    (∃ c ∈ k.gated env rows, c.hasSensitiveContent = true) →
      ∃ c ∈ k.cands env rows, c.hasSensitiveContent = true :=
  fun ⟨c, hc, h⟩ => ⟨c, mem_of_mem_gate hc, h⟩

theorem defaulted (b : BuiltFrom env k rows removed kept cited pack) {w : Warning}
    (hw : w ∈ pack.warnings) : w.Defaulted := by
  obtain ⟨ws, cws, hws, hc, he⟩ := b.warnings
  rw [he, List.mem_append, List.mem_append] at hw
  rcases hw with (hw | hw) | hw
  · exact collectWarnings_defaulted hws hw
  · exact (conflictWarnings_uniform hc w hw).2
  · exact (normalizationWarnings_uniform w hw).2

/-- A type is among the pack's warnings exactly when it fires. -/
theorem warning_type_iff (b : BuiltFrom env k rows removed kept cited pack) (t : WarningType) :
    (∃ w ∈ pack.warnings, w.type = t) ↔ k.Fires env rows removed t := by
  obtain ⟨ws, cws, hws, hc, he⟩ := b.warnings
  rw [he]
  simp only [List.mem_append, or_and_right, exists_or,
    collectWarnings_type_iff Call.cands_pairwise hws t,
    (conflictWarnings_uniform hc).exists_type_iff (p := (· = t)),
    normalizationWarnings_uniform.exists_type_iff (p := (· = t)), ne_eq,
    conflictWarnings_eq_nil hc, normalizationWarnings_eq_nil]
  cases t <;> simp [Call.Fires, EmitterFires]

/-- The conditions under which both the review flag and a reason are set, whatever
the scores. -/
def Escalates (env : Env) (k : Call) (rows : List SearchRow) (kept : List RankedChunk) : Prop :=
  (∃ c ∈ k.cands env rows, c.hasSensitiveContent = true) ∨ k.conflicts env rows ≠ [] ∨
    (kept = [] ∨ allDead kept = true ∨ allDraft kept = true) ∨
    ∃ c ∈ k.gated env rows, c.hasPromptInjection = true

theorem review_iff (b : BuiltFrom env k rows removed kept cited pack) :
    pack.requiresHumanReview = true ↔ Escalates env k rows kept ∨
      StandsAlone env k.config.isolatedMatchDropThreshold k.config.weakEvidenceScoreThreshold
        ((k.cands env rows).map (·.score)) ∨
      topBelow kept k.config.weakEvidenceScoreThreshold = true := by
  have hw : (∃ w ∈ pack.warnings, w.type ∈ reviewTypes) ↔
      (∃ c ∈ k.gated env rows, c.hasPromptInjection = true) ∨
      (∃ c ∈ k.gated env rows, c.hasSensitiveContent = true) ∨
      StandsAlone env k.config.isolatedMatchDropThreshold k.config.weakEvidenceScoreThreshold
        ((k.cands env rows).map (·.score)) := by
    simp only [reviewTypes, List.mem_cons, List.not_mem_nil, or_false, and_or_left, exists_or,
      b.warning_type_iff]
    rfl
  rw [b.assembled.review, requiresHumanReview_iff, hw, b.conflicts]
  simp only [b.cited_all, false_or, Option.getD_some, Escalates]
  have hgated := sensitive_of_gated env k rows
  grind

theorem reasons_iff (b : BuiltFrom env k rows removed kept cited pack) :
    pack.reviewReasons ≠ [] ↔ Escalates env k rows kept ∨
      topBelow kept weakEvidenceScoreThreshold = true := by
  have hw : (∃ w ∈ pack.warnings, blockingType w.type = true) ↔
      (∃ c ∈ k.gated env rows, c.hasPromptInjection = true) ∨
      (∃ c ∈ k.gated env rows, c.hasSensitiveContent = true) := by
    simp only [blockingType, Bool.or_eq_true, beq_iff_eq, and_or_left, exists_or,
      b.warning_type_iff]
    rfl
  obtain ⟨uncited, dropped, he, hu, hd⟩ := b.assembled.reasons
  rw [he, reviewReasons_ne_nil, hw, hu, hd, b.conflicts]
  simp only [b.cited_all, Escalates]
  have hgated := sensitive_of_gated env k rows
  grind

end BuiltFrom

/-! ## A concrete surrounding

ASCII character classes, exact arithmetic and a tokenizer that counts characters. -/

def asciiEnv : Env where
  fl := id
  floatStr := fixed2
  isPrintable := fun _ => false
  isWord := fun c => c.isAlphanum || c == '_'
  sameLetter := fun a b => a.toLower == b.toLower
  countTokens := fun s => .ok s.length
  dumpJson := fun pack => pack.evidence.flatMap (·.text)
  anyUrl := fun u => .ok u

theorem someDay_year : 1 ≤ 2024 ∧ 2024 ≤ 9999 := by decide

theorem someDay_month : 1 ≤ 5 ∧ 5 ≤ 12 := by decide

theorem someDay_day : 1 ≤ 1 ∧ 1 ≤ daysInMonth 2024 5 := by decide

/-- A day in 2024. -/
def someDay : Date := ⟨2024, 5, 1, someDay_year, someDay_month, someDay_day⟩

/-- A freshly reviewed chunk of an active document. -/
def sampleRow (chunkId documentId : Uuid) (score : ℚ) (content : Str) (heading : List Str) :
    SearchRow where
  chunkId := chunkId
  documentId := documentId
  content := content
  headingPath := heading
  chunkMetadata := {}
  status := "active"
  authority := none
  owner := none
  lastReviewed := some someDay
  commitSha := none
  repo := "docs"
  path := "guide.md"
  title := "Guide"
  sourceUrl := none
  score := score
  hasPromptInjection := false
  hasSensitiveContent := false
  chunkIndex := 0
  chunkCount := 1

/-- A call with the default configuration that retrieves `rows`. -/
def sampleCall (rows : List SearchRow) : Call where
  config := defaultConfig
  phrases := []
  sur := { fetch := fun _ _ => .ok rows, boostDay := someDay, warnDay := someDay }
  packId := 1
  query := "how to deploy"
  task := "answer"

end KnowledgeKiln.L3.ContextPack
