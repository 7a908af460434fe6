import KnowledgeKiln.L2Retrieval.Types

/-!
# Ranking parameters

`RetrievalConfig` as retrieval/config.py accepts it: every constraint of the
Pydantic model is a field, so a configuration the loader would refuse cannot
be built. Decimal literals stand for the decimal numbers they show.
-/
namespace KnowledgeKiln.L2

open KnowledgeKiln.Core

/-- retrieval/config.py:29-36 -/
def defaultStatusWeights : List (Str × ℚ) :=
  [("active".toList, 1), ("approved".toList, 95 / 100), ("draft".toList, 1 / 2),
    ("deprecated".toList, 1 / 5), ("archived".toList, 1 / 10), ("superseded".toList, 1 / 20)]

/-- A window in days, `gt=0`. -/
abbrev Days := { n : Nat // 0 < n }

/-- retrieval/config.py:76-175 -/
structure RetrievalConfig where
  statusWeights : List (Str × ℚ) := defaultStatusWeights
  staleAfterDays : Option Days := some ⟨365, by decide⟩
  weakEvidenceScoreThreshold : ℚ := 46 / 100
  relevanceFloor : Option ℚ := none
  maxWarningRank : Nat := 3
  isolatedMatchDropThreshold : Option ℚ := some (30 / 100)
  weights_mem : ∀ p ∈ statusWeights, 0 < p.2 ∧ p.2 ≤ 1 := by decide +kernel
  weakEvidence_pos : 0 < weakEvidenceScoreThreshold := by decide +kernel
  relevanceFloor_pos : ∀ f ∈ relevanceFloor, 0 < f := by decide +kernel
  maxWarningRank_pos : 1 ≤ maxWarningRank := by decide
  isolatedMatchDrop_pos : ∀ d ∈ isolatedMatchDropThreshold, 0 < d := by decide +kernel

/-- The shipped configuration. -/
def defaultConfig : RetrievalConfig := {}

namespace RetrievalConfig

/-- `None` tracks the weak-evidence threshold, mirrors retrieval/config.py:140-152. -/
def effectiveRelevanceFloor (c : RetrievalConfig) : ℚ :=
  match c.relevanceFloor with
  | none => c.weakEvidenceScoreThreshold
  | some f => f

/-- Unknown statuses get 1.0, mirrors retrieval/config.py:173-175. -/
def weightForStatus (c : RetrievalConfig) (status : Str) : ℚ :=
  (lookupFirst c.statusWeights status).getD 1

/-- No status, known or not, is erased or lifted above its fused score. -/
theorem weightForStatus_mem (c : RetrievalConfig) (status : Str) :
    0 < c.weightForStatus status ∧ c.weightForStatus status ≤ 1 := by
  unfold weightForStatus
  cases h : lookupFirst c.statusWeights status with
  | none => exact ⟨by decide +kernel, le_refl _⟩
  | some w => exact c.weights_mem _ (mem_of_lookupFirst h)

end RetrievalConfig

end KnowledgeKiln.L2
