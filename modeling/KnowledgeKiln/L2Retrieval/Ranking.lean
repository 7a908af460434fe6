import KnowledgeKiln.Core.Format
import KnowledgeKiln.Core.Sorted
import KnowledgeKiln.L2Retrieval.Warnings

/-!
# Ranking primitives

Boosts, warning emitters, conflict detection and the review decision of
retrieval/ranking.py, over a list of ranked chunks.

The relevance-aware emitters (injection, sensitive content, conflicts) look at
`gateForWarnings chunks` only: the chunks of rank at most `max_warning_rank`
whose score clears the floor. The other emitters look at every chunk.
-/
namespace KnowledgeKiln.L2.Ranking

open KnowledgeKiln.Core

def weakEvidenceScoreThreshold : ℚ := 46 / 100

/-! ## Boosts -/

/-- Linear decay in [0.3, 1.0], mirrors retrieval/ranking.py:156-179. -/
def freshnessFactor (env : Env) (lastReviewed : Option Date) (today : Date)
    (staleAfterDays : Option Days) : ℚ :=
  match staleAfterDays with
  | none => 1
  | some n =>
    match lastReviewed with
    | none => 3 / 10
    | some d =>
      let age : ℚ := today.daysSince d
      if age ≤ n.val then 1
      else
        let decay := min 1 (env.fl ((age - n.val) / n.val))
        max (3 / 10) (env.fl (1 - env.fl (7 / 10 * decay)))

/-- mirrors retrieval/ranking.py:131-153 -/
def applyBoostToChunk (env : Env) (config : RetrievalConfig) (today : Date) (c : RankedChunk) :
    RankedChunk :=
  let statusW := config.weightForStatus c.status
  let freshness := freshnessFactor env c.lastReviewed today config.staleAfterDays
  { c with score := env.fl (env.fl (c.score * statusW) * freshness) }

def applyBoosts (env : Env) (config : RetrievalConfig) (today : Date) (chunks : List RankedChunk) :
    List RankedChunk :=
  chunks.map (applyBoostToChunk env config today)

section
variable {env : Env} {config : RetrievalConfig} {today : Date} (c : RankedChunk)

@[simp] theorem applyBoostToChunk_chunkId :
    (applyBoostToChunk env config today c).chunkId = c.chunkId := rfl

@[simp] theorem applyBoostToChunk_documentId :
    (applyBoostToChunk env config today c).documentId = c.documentId := rfl

@[simp] theorem applyBoostToChunk_headingPath :
    (applyBoostToChunk env config today c).headingPath = c.headingPath := rfl

@[simp] theorem applyBoostToChunk_hasSensitiveContent :
    (applyBoostToChunk env config today c).hasSensitiveContent = c.hasSensitiveContent := rfl

end

/-! ## Document-level warnings -/

/-- The loop of `stale_warnings` and `deprecated_warnings`: a document gives one
warning, from its first chunk that has one. -/
def onePerDocument (emit : RankedChunk → Option Warning) (seen : List Uuid) :
    List RankedChunk → List Warning
  | [] => []
  | c :: cs =>
    if c.documentId ∈ seen then onePerDocument emit seen cs
    else
      match emit c with
      | none => onePerDocument emit seen cs
      | some w => w :: onePerDocument emit (c.documentId :: seen) cs

theorem mem_onePerDocument {emit : RankedChunk → Option Warning} {w : Warning} :
    ∀ {seen cs}, w ∈ onePerDocument emit seen cs → ∃ c ∈ cs, emit c = some w
  | _, [], h => by cases h
  | seen, c :: cs, h => by
    unfold onePerDocument at h
    split at h
    · obtain ⟨d, hd, hw⟩ := mem_onePerDocument h
      exact ⟨d, List.mem_cons_of_mem _ hd, hw⟩
    · split at h
      · obtain ⟨d, hd, hw⟩ := mem_onePerDocument h
        exact ⟨d, List.mem_cons_of_mem _ hd, hw⟩
      · rename_i w' hc
        rcases List.mem_cons.mp h with rfl | h
        · exact ⟨c, List.mem_cons_self, hc⟩
        · obtain ⟨d, hd, hw⟩ := mem_onePerDocument h
          exact ⟨d, List.mem_cons_of_mem _ hd, hw⟩

theorem onePerDocument_eq_nil {emit : RankedChunk → Option Warning} :
    ∀ {cs : List RankedChunk}, onePerDocument emit [] cs = [] ↔ ∀ c ∈ cs, emit c = none
  | [] => by simp [onePerDocument]
  | c :: cs => by
    cases hc : emit c with
    | none => simp [onePerDocument, hc, onePerDocument_eq_nil]
    | some w => simp [onePerDocument, hc]

/-- `c.last_reviewed is None or c.last_reviewed < threshold`, the threshold as an
ordinal. -/
def reviewedBefore (threshold : Nat) (c : RankedChunk) : Bool :=
  match c.lastReviewed with
  | none => true
  | some d => d.toordinal < threshold

def staleWarning (threshold : Nat) (staleAfterDays : Days) (c : RankedChunk) : Option Warning :=
  if reviewedBefore threshold c then
    some <| downgradeToFlat <| .staleSource
      { message := "Document last reviewed ".toList ++
          (match c.lastReviewed with | none => "never".toList | some d => d.isoformat) ++
          "; older than " ++ natStr staleAfterDays ++ " days."
        sourceId := c.documentId
        staleAfterDays := staleAfterDays
        lastReviewed := c.lastReviewed }
  else none

/-- mirrors retrieval/ranking.py:185-217 -/
def staleWarnings (chunks : List RankedChunk) (today : Date) (staleAfterDays : Option Days) :
    Py (List Warning) :=
  match staleAfterDays with
  | none => pure []
  | some n => do
    let threshold ← today.subDays n
    pure (onePerDocument (staleWarning threshold n) [] chunks)

def deprecatedWarning (c : RankedChunk) : Option Warning :=
  if h : c.status ∈ deadStatuses then
    some <| downgradeToFlat <| .deprecatedSource
      { message := "Document status is '".toList ++ c.status ++ "'."
        sourceId := c.documentId
        documentStatus := c.status
        documentStatus_mem := h }
  else none

theorem staleWarning_eq_none {threshold : Nat} {n : Days} {c : RankedChunk} :
    staleWarning threshold n c = none ↔ reviewedBefore threshold c = false := by
  unfold staleWarning
  split <;> simp_all

theorem deprecatedWarning_eq_none {c : RankedChunk} :
    deprecatedWarning c = none ↔ c.status ∉ deadStatuses := by
  unfold deprecatedWarning
  split <;> simp [*]

theorem staleWarning_names (threshold : Nat) (n : Days) (c : RankedChunk) (w : Warning)
    (h : staleWarning threshold n c = some w) : w.sourceId = some c.documentId := by
  unfold staleWarning at h
  split at h
  · cases h
    rfl
  · cases h

theorem deprecatedWarning_names (c : RankedChunk) (w : Warning)
    (h : deprecatedWarning c = some w) : w.sourceId = some c.documentId := by
  unfold deprecatedWarning at h
  split at h
  · cases h
    rfl
  · cases h

/-- mirrors retrieval/ranking.py:220-241 -/
def deprecatedWarnings (chunks : List RankedChunk) : List Warning :=
  onePerDocument deprecatedWarning [] chunks

theorem staleWarnings_uniform {chunks : List RankedChunk} {today : Date} {n : Option Days}
    {ws : List Warning} (h : staleWarnings chunks today n = .ok ws) : Uniform .staleSource ws := by
  unfold staleWarnings at h
  split at h
  · rw [Py.pure_ok] at h
    subst h
    exact Uniform.nil _
  · obtain ⟨k, -, h⟩ := Py.bind_ok.mp h
    rw [Py.pure_ok] at h
    subst h
    intro w hw
    obtain ⟨c, -, hc⟩ := mem_onePerDocument hw
    unfold staleWarning at hc
    split at hc
    · cases hc
      exact ⟨rfl, downgradeToFlat_defaulted rfl⟩
    · cases hc

theorem staleWarnings_ne_nil {chunks : List RankedChunk} {today : Date} {n : Option Days}
    {ws : List Warning} (h : staleWarnings chunks today n = .ok ws) :
    ws ≠ [] ↔ ∃ d ∈ n, ∃ threshold, today.subDays d = .ok threshold ∧
      ∃ c ∈ chunks, reviewedBefore threshold c = true := by
  unfold staleWarnings at h
  split at h
  · rw [Py.pure_ok] at h
    simp [← h]
  · obtain ⟨t, ht, h⟩ := Py.bind_ok.mp h
    rw [Py.pure_ok] at h
    simp [← h, onePerDocument_eq_nil, staleWarning_eq_none, ht]

theorem deprecatedWarnings_uniform (chunks : List RankedChunk) :
    Uniform .deprecatedSource (deprecatedWarnings chunks) := by
  intro w hw
  obtain ⟨c, -, hc⟩ := mem_onePerDocument hw
  unfold deprecatedWarning at hc
  split at hc
  · cases hc
    exact ⟨rfl, downgradeToFlat_defaulted rfl⟩
  · cases hc

theorem deprecatedWarnings_eq_nil {chunks : List RankedChunk} :
    deprecatedWarnings chunks = [] ↔ ∀ c ∈ chunks, c.status ∉ deadStatuses := by
  simp only [deprecatedWarnings, onePerDocument_eq_nil, deprecatedWarning_eq_none]

/-! ## Gated warnings -/

/-- mirrors retrieval/ranking.py:314-332 -/
def gateForWarnings (chunks : List RankedChunk) (relevanceFloor : Option ℚ)
    (maxWarningRank : Option Nat) : List RankedChunk :=
  match maxWarningRank, relevanceFloor with
  | none, none => chunks
  | rank, floor =>
    (chunks.take (rank.getD chunks.length)).filter fun c => floor.all (· ≤ c.score)

theorem gateForWarnings_sublist (chunks : List RankedChunk) (floor : Option ℚ) (rank : Option Nat) :
    (gateForWarnings chunks floor rank).Sublist chunks := by
  unfold gateForWarnings
  split
  · exact List.Sublist.refl _
  · exact List.filter_sublist.trans (List.take_sublist _ _)

theorem mem_of_mem_gate {chunks : List RankedChunk} {floor : Option ℚ} {rank : Option Nat}
    {c : RankedChunk} (h : c ∈ gateForWarnings chunks floor rank) : c ∈ chunks :=
  (gateForWarnings_sublist chunks floor rank).subset h

/-- mirrors retrieval/ranking.py:244-276 -/
def promptInjectionWarnings (chunks : List RankedChunk) (relevanceFloor : Option ℚ)
    (maxWarningRank : Option Nat) : List Warning :=
  ((gateForWarnings chunks relevanceFloor maxWarningRank).filter (·.hasPromptInjection)).map
    fun c => downgradeToFlat <| .promptInjectionPattern
      { message := "Chunk contains a configured prompt-injection phrase."
        sourceId := c.documentId
        chunkId := c.chunkId }

/-- mirrors retrieval/ranking.py:279-311 -/
def sensitiveContentWarnings (chunks : List RankedChunk) (relevanceFloor : Option ℚ)
    (maxWarningRank : Option Nat) : List Warning :=
  ((gateForWarnings chunks relevanceFloor maxWarningRank).filter (·.hasSensitiveContent)).map
    fun c => downgradeToFlat <| .sensitiveContent
      { message := "Chunk matches a configured sensitive-content pattern."
        sourceId := c.documentId
        chunkId := c.chunkId }

section
variable {chunks : List RankedChunk} {floor : Option ℚ} {rank : Option Nat}

theorem promptInjectionWarnings_uniform :
    Uniform .promptInjectionPattern (promptInjectionWarnings chunks floor rank) := by
  intro w hw
  obtain ⟨c, -, rfl⟩ := List.mem_map.mp hw
  exact ⟨rfl, downgradeToFlat_defaulted rfl⟩

theorem sensitiveContentWarnings_uniform :
    Uniform .sensitiveContent (sensitiveContentWarnings chunks floor rank) := by
  intro w hw
  obtain ⟨c, -, rfl⟩ := List.mem_map.mp hw
  exact ⟨rfl, downgradeToFlat_defaulted rfl⟩

theorem promptInjectionWarnings_eq_nil :
    promptInjectionWarnings chunks floor rank = [] ↔
      ∀ c ∈ gateForWarnings chunks floor rank, c.hasPromptInjection = false := by
  simp [promptInjectionWarnings]

theorem sensitiveContentWarnings_eq_nil :
    sensitiveContentWarnings chunks floor rank = [] ↔
      ∀ c ∈ gateForWarnings chunks floor rank, c.hasSensitiveContent = false := by
  simp [sensitiveContentWarnings]

end

/-! ## Score-shape warnings -/

/-- `max(c.score for c in chunks)`, `none` for an empty list. -/
def topScore (chunks : List RankedChunk) : Option ℚ := (chunks.map (·.score)).max?

/-- mirrors retrieval/ranking.py:335-368 -/
def weakEvidenceWarning (env : Env) (chunks : List RankedChunk) (threshold : Option ℚ) :
    List Warning :=
  let effective := threshold.getD weakEvidenceScoreThreshold
  match topScore chunks with
  | none =>
    [downgradeToFlat <| .weakEvidence
      { message := "No matching evidence found.", topScore := none, scoreFloor := effective }]
  | some best =>
    if best < effective then
      [downgradeToFlat <| .weakEvidence
        { message := "Best chunk score ".toList ++ fixed2 best ++ " below threshold " ++
            env.floatStr effective ++ "."
          topScore := some best
          scoreFloor := effective }]
    else []

theorem topScore_eq_none {chunks : List RankedChunk} : topScore chunks = none ↔ chunks = [] := by
  simp [topScore]

theorem topScore_eq_some {chunks : List RankedChunk} {best : ℚ} :
    topScore chunks = some best ↔
      (∃ c ∈ chunks, c.score = best) ∧ ∀ c ∈ chunks, c.score ≤ best := by
  rw [topScore, List.max?_eq_some_iff]
  simp

/-- There is a best score, and it is below `threshold`. -/
def topBelow (chunks : List RankedChunk) (threshold : ℚ) : Bool :=
  (topScore chunks).any (· < threshold)

theorem topBelow_iff {chunks : List RankedChunk} {threshold : ℚ} :
    topBelow chunks threshold = true ↔ chunks ≠ [] ∧ ∀ c ∈ chunks, c.score < threshold := by
  unfold topBelow
  cases h : topScore chunks with
  | none => simp [topScore_eq_none.mp h]
  | some best =>
    obtain ⟨⟨c, hc, he⟩, hle⟩ := topScore_eq_some.mp h
    simp only [Option.any_some, decide_eq_true_eq]
    constructor
    · intro hlt
      exact ⟨List.ne_nil_of_mem hc, fun c hc => lt_of_le_of_lt (hle c hc) hlt⟩
    · intro ⟨_, hlt⟩
      rw [← he]
      exact hlt c hc

theorem weakEvidenceWarning_uniform {env : Env} {chunks : List RankedChunk}
    {threshold : Option ℚ} :
    Uniform .weakEvidence (weakEvidenceWarning env chunks threshold) := by
  unfold weakEvidenceWarning
  split
  · exact Uniform.singleton rfl
  · dsimp only
    split
    · exact Uniform.singleton rfl
    · exact Uniform.nil _

theorem weakEvidenceWarning_eq_nil {env : Env} {chunks : List RankedChunk}
    {threshold : Option ℚ} : weakEvidenceWarning env chunks threshold = [] ↔
      chunks ≠ [] ∧ topBelow chunks (threshold.getD weakEvidenceScoreThreshold) = false := by
  unfold weakEvidenceWarning topBelow
  split
  · rename_i h
    simp [topScore_eq_none.mp h]
  · rename_i best h
    have hne : chunks ≠ [] := fun e => by simp [topScore_eq_none.mpr e] at h
    simp [h, hne]

theorem weakEvidence_names {env : Env} {chunks : List RankedChunk} {threshold : Option ℚ} {w : Warning}
    (h : w ∈ weakEvidenceWarning env chunks threshold) : w.sourceId = none := by
  unfold weakEvidenceWarning at h
  dsimp only at h
  split at h
  · rw [List.mem_singleton.mp h]
    rfl
  · split at h
    · rw [List.mem_singleton.mp h]
      rfl
    · cases h

/-- `key=lambda c: (-c.score, str(c.chunk_id))` -/
def byScoreThenId (a b : RankedChunk) : Prop :=
  b.score < a.score ∨ (a.score = b.score ∧ a.chunkId ≤ b.chunkId)

instance : DecidableRel byScoreThenId := fun a b => by unfold byScoreThenId; infer_instance

/-- mirrors retrieval/ranking.py:371-448 -/
def isolatedMatchWarning (env : Env) (chunks : List RankedChunk) (dropThreshold : Option ℚ)
    (weakEvidenceThreshold : Option ℚ) : List Warning :=
  match dropThreshold with
  | none => []
  | some drop =>
    let weakFloor := weakEvidenceThreshold.getD weakEvidenceScoreThreshold
    match chunks.insertionSort byScoreThenId with
    | top :: runnerUp :: _ =>
      if top.score < weakFloor then []
      else
        let gap := env.fl (top.score - runnerUp.score)
        if h : gap ≤ drop then []
        else
          [downgradeToFlat <| .isolatedMatch
            { message := "Top result scored ".toList ++ fixed2 top.score ++
                ", but the next best was only " ++ fixed2 runnerUp.score ++ " (gap " ++
                fixed2 gap ++ " > " ++ fixed2 drop ++ "). " ++
                "One chunk surface-matches the query without comparable supporting evidence."
              topScore := top.score
              runnerUpScore := runnerUp.score
              gap := gap
              dropThreshold := drop
              sourceId := top.documentId
              chunkId := top.chunkId
              gap_gt := not_le.mp h }]
    | _ => []

theorem isolatedMatchWarning_uniform {env : Env} {chunks : List RankedChunk}
    {drop threshold : Option ℚ} :
    Uniform .isolatedMatch (isolatedMatchWarning env chunks drop threshold) := by
  unfold isolatedMatchWarning
  split
  · exact Uniform.nil _
  · dsimp only
    split
    · split
      · exact Uniform.nil _
      · split
        · exact Uniform.nil _
        · exact Uniform.singleton rfl
    · exact Uniform.nil _

/-- Scores best first: the first clears `threshold` and stands more than `drop`
above the second. -/
def StandsAlone (env : Env) (drop : Option ℚ) (threshold : ℚ) : List ℚ → Prop
  | top :: runnerUp :: _ => threshold ≤ top ∧ ∃ d ∈ drop, d < env.fl (top - runnerUp)
  | _ => False

instance : Std.Total byScoreThenId := ⟨fun a b => by unfold byScoreThenId; grind⟩

instance : IsTrans RankedChunk byScoreThenId :=
  ⟨fun a b c => by unfold byScoreThenId; grind⟩

/-- Sorting a best-first list again keeps the sequence of its scores. -/
theorem insertionSort_scores {chunks : List RankedChunk}
    (hs : chunks.Pairwise fun a b => b.score ≤ a.score) :
    (chunks.insertionSort byScoreThenId).map (·.score) = chunks.map (·.score) := by
  refine List.Perm.eq_of_pairwise' (r := fun a b : ℚ => b ≤ a) ?_ ?_ ?_
  · rw [List.pairwise_map]
    exact (List.pairwise_insertionSort byScoreThenId chunks).imp fun h => by
      rcases h with h | h
      · exact h.le
      · exact h.1.symm.le
  · rw [List.pairwise_map]
    exact hs
  · exact (List.perm_insertionSort _ _).map _

theorem isolatedMatchWarning_eq_nil {env : Env} {chunks : List RankedChunk}
    {drop threshold : Option ℚ} (hs : chunks.Pairwise fun a b => b.score ≤ a.score) :
    isolatedMatchWarning env chunks drop threshold = [] ↔
      ¬ StandsAlone env drop (threshold.getD weakEvidenceScoreThreshold)
        (chunks.map (·.score)) := by
  rw [← insertionSort_scores hs]
  unfold isolatedMatchWarning
  cases drop with
  | none =>
    match chunks.insertionSort byScoreThenId with
    | [] => simp [StandsAlone]
    | [_] => simp [StandsAlone]
    | a :: b :: t => simp [StandsAlone]
  | some d =>
    match chunks.insertionSort byScoreThenId with
    | [] => simp [StandsAlone]
    | [_] => simp [StandsAlone]
    | a :: b :: t =>
      simp only [StandsAlone, List.map_cons]
      split
      · simp [*]
      · split
        · rename_i h1 h2
          simpa [not_lt.mp h1] using h2
        · rename_i h1 h2
          simpa [not_lt.mp h1] using h2

/-! ## Conflicts -/

/-- The chunks that take part in conflict detection: not dead, under a heading. -/
def competing (gated : List RankedChunk) : List RankedChunk :=
  gated.filter fun c => !(deadStatuses.contains c.status || c.headingPath.isEmpty)

/-- The documents that answer under `path`. -/
def docIdsAt (cs : List RankedChunk) (path : List Str) : List Uuid :=
  sortedSet ((cs.filter (·.headingPath = path)).map (·.documentId))

def conflictAt (cs : List RankedChunk) (path : List Str) : Option Conflict :=
  let docIds := docIdsAt cs path
  if h : docIds.length < 2 then none
  else some
    { topic := join "." path
      sourceIds := docIds
      description := some (natStr docIds.length ++ " active sources address the same heading.")
      two_le_sourceIds := not_lt.mp h }

/-- mirrors retrieval/ranking.py:454-493 -/
def detectConflicts (chunks : List RankedChunk) (relevanceFloor : Option ℚ)
    (maxWarningRank : Option Nat) : List Conflict :=
  let cs := competing (gateForWarnings chunks relevanceFloor maxWarningRank)
  (sortedSet (cs.map (·.headingPath))).filterMap (conflictAt cs)

/-! ## The review decision -/

/-- The warning types of rule 5. -/
def reviewTypes : List WarningType := [.promptInjectionPattern, .sensitiveContent, .isolatedMatch]

def allDead (chunks : List RankedChunk) : Bool := chunks.all fun c => deadStatuses.contains c.status

def allDraft (chunks : List RankedChunk) : Bool := chunks.all fun c => c.status == "draft".toList

/-- mirrors retrieval/ranking.py:499-543 -/
def requiresHumanReview (evidence : List RankedChunk) (warnings : List Warning)
    (conflicts : List Conflict) (weakEvidenceThreshold : Option ℚ) : Bool :=
  if conflicts ≠ [] then true
  else
    match topScore evidence with
    | none => true
    | some top =>
      if allDead evidence then true
      else if allDraft evidence then true
      else if warnings.any fun w => reviewTypes.contains w.type then true
      else decide (top < weakEvidenceThreshold.getD weakEvidenceScoreThreshold)

theorem requiresHumanReview_iff {evidence : List RankedChunk} {warnings : List Warning}
    {conflicts : List Conflict} {threshold : Option ℚ} :
    requiresHumanReview evidence warnings conflicts threshold = true ↔
      conflicts ≠ [] ∨ evidence = [] ∨ allDead evidence = true ∨ allDraft evidence = true ∨
        (∃ w ∈ warnings, w.type ∈ reviewTypes) ∨
        topBelow evidence (threshold.getD weakEvidenceScoreThreshold) = true := by
  unfold requiresHumanReview topBelow
  by_cases hc : conflicts = []
  · cases he : topScore evidence with
    | none => simp [hc, topScore_eq_none.mp he]
    | some top =>
      have hne : evidence ≠ [] := fun h => by simp [topScore_eq_none.mpr h] at he
      simp [hc, hne]
  · simp [hc]

end KnowledgeKiln.L2.Ranking
