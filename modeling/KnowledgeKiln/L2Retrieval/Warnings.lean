import KnowledgeKiln.L2Retrieval.Config

/-!
# Warning variants, the downgrade adapter and the policy table

* `WarningVariant`: the nine discriminated variants of
  retrieval/warning_variants.py. What a variant's validators demand is a field
  of its structure.
* `downgradeToFlat`: the projection onto the wire shape.
* `warningPolicy`: the table of retrieval/warning_policy.py.

`VariantBase` gives `severity` and `action` defaults, and the projection copies
whatever the variant holds: `Warning.Defaulted.agrees_iff` says when a warning left
at the defaults agrees with the table.
-/
namespace KnowledgeKiln.L2

open KnowledgeKiln.Core

/-- `{"deprecated", "archived", "superseded"}` -/
def deadStatuses : List Str := ["deprecated".toList, "archived".toList, "superseded".toList]

/-- retrieval/warning_variants.py:54-72 -/
structure VariantBase where
  severity : Severity := .advisory
  action : Action := .inform
  deriving DecidableEq

structure StaleSourceWarning extends VariantBase where
  message : Str
  sourceId : Uuid
  staleAfterDays : Days
  lastReviewed : Option Date

structure DeprecatedSourceWarning extends VariantBase where
  message : Str
  sourceId : Uuid
  documentStatus : Str
  documentStatus_mem : documentStatus ∈ deadStatuses

structure ConflictingSourcesWarning extends VariantBase where
  message : Str
  sourceIds : List Uuid
  topic : Str
  two_le_sourceIds : 2 ≤ sourceIds.length
  topic_ne : topic ≠ []

structure WeakEvidenceWarning extends VariantBase where
  message : Str
  topScore : Option ℚ
  scoreFloor : ℚ

structure IsolatedMatchWarning extends VariantBase where
  message : Str
  topScore : ℚ
  runnerUpScore : ℚ
  gap : ℚ
  dropThreshold : ℚ
  sourceId : Uuid
  chunkId : Uuid
  gap_gt : dropThreshold < gap

structure PromptInjectionPatternWarning extends VariantBase where
  message : Str
  sourceId : Uuid
  chunkId : Uuid
  patternId : Option Str := none

structure SensitiveContentWarning extends VariantBase where
  message : Str
  sourceId : Uuid
  chunkId : Uuid
  classifierLabel : Option Str := none

structure QueryNormalizedWarning extends VariantBase where
  message : Str
  removedPhrases : List Str
  originalQuery : Option Str := none
  normalizedQuery : Option Str := none
  removedPhrases_ne : removedPhrases ≠ []

/-- `finish_reason` is the literal `"length"`. -/
structure AnswerTruncatedWarning extends VariantBase where
  message : Str
  maxAnswerTokens : Nat
  maxAnswerTokens_pos : 1 ≤ maxAnswerTokens

/-- retrieval/warning_variants.py:244-255 -/
inductive WarningVariant
  | staleSource (v : StaleSourceWarning)
  | deprecatedSource (v : DeprecatedSourceWarning)
  | conflictingSources (v : ConflictingSourcesWarning)
  | weakEvidence (v : WeakEvidenceWarning)
  | isolatedMatch (v : IsolatedMatchWarning)
  | promptInjectionPattern (v : PromptInjectionPatternWarning)
  | sensitiveContent (v : SensitiveContentWarning)
  | queryNormalized (v : QueryNormalizedWarning)
  | answerTruncated (v : AnswerTruncatedWarning)

namespace WarningVariant

def type : WarningVariant → WarningType
  | staleSource _ => .staleSource
  | deprecatedSource _ => .deprecatedSource
  | conflictingSources _ => .conflictingSources
  | weakEvidence _ => .weakEvidence
  | isolatedMatch _ => .isolatedMatch
  | promptInjectionPattern _ => .promptInjectionPattern
  | sensitiveContent _ => .sensitiveContent
  | queryNormalized _ => .queryNormalized
  | answerTruncated _ => .answerTruncated

def message : WarningVariant → Str
  | staleSource v => v.message
  | deprecatedSource v => v.message
  | conflictingSources v => v.message
  | weakEvidence v => v.message
  | isolatedMatch v => v.message
  | promptInjectionPattern v => v.message
  | sensitiveContent v => v.message
  | queryNormalized v => v.message
  | answerTruncated v => v.message

/-- `getattr(variant, "source_id", None)` -/
def sourceId : WarningVariant → Option Uuid
  | staleSource v => v.sourceId
  | deprecatedSource v => v.sourceId
  | isolatedMatch v => v.sourceId
  | promptInjectionPattern v => v.sourceId
  | sensitiveContent v => v.sourceId
  | conflictingSources _ | weakEvidence _ | queryNormalized _ | answerTruncated _ => none

def base : WarningVariant → VariantBase
  | staleSource v => v.toVariantBase
  | deprecatedSource v => v.toVariantBase
  | conflictingSources v => v.toVariantBase
  | weakEvidence v => v.toVariantBase
  | isolatedMatch v => v.toVariantBase
  | promptInjectionPattern v => v.toVariantBase
  | sensitiveContent v => v.toVariantBase
  | queryNormalized v => v.toVariantBase
  | answerTruncated v => v.toVariantBase

end WarningVariant

/-- retrieval/warning_variants.py:268-288 -/
def downgradeToFlat (v : WarningVariant) : Warning where
  type := v.type
  message := v.message
  sourceId := v.sourceId
  severity := v.base.severity
  action := v.base.action

@[simp] theorem downgradeToFlat_type (v : WarningVariant) : (downgradeToFlat v).type = v.type := rfl

@[simp] theorem downgradeToFlat_message (v : WarningVariant) :
    (downgradeToFlat v).message = v.message := rfl

@[simp] theorem downgradeToFlat_sourceId (v : WarningVariant) :
    (downgradeToFlat v).sourceId = v.sourceId := rfl

/-- retrieval/warning_policy.py:56-66 -/
def warningPolicy : WarningType → Severity × Action
  | .staleSource => (.advisory, .inform)
  | .deprecatedSource => (.warning, .preferOtherSources)
  | .conflictingSources => (.warning, .requestHumanReview)
  | .weakEvidence => (.warning, .requestHumanReview)
  | .isolatedMatch => (.warning, .requestHumanReview)
  | .promptInjectionPattern => (.blocking, .refuseToSynthesize)
  | .sensitiveContent => (.blocking, .refuseToSynthesize)
  | .queryNormalized => (.advisory, .rewriteQuery)
  | .answerTruncated => (.advisory, .inform)

/-- The warning carries what the table says about its type. -/
def Warning.AgreesWithPolicy (w : Warning) : Prop := (w.severity, w.action) = warningPolicy w.type

instance (w : Warning) : Decidable w.AgreesWithPolicy := by
  unfold Warning.AgreesWithPolicy; infer_instance

/-- The two types whose defaults are what the table says. -/
def WarningType.defaultsAgree (t : WarningType) : Bool :=
  t == .staleSource || t == .answerTruncated

theorem WarningType.defaultsAgree_iff (t : WarningType) :
    (Severity.advisory, Action.inform) = warningPolicy t ↔ t.defaultsAgree = true := by
  cases t <;> decide

/-- The warning was built without `severity` and `action`. -/
def Warning.Defaulted (w : Warning) : Prop := w.severity = .advisory ∧ w.action = .inform

/-- A defaulted warning agrees with the table for two of the nine types only. -/
theorem Warning.Defaulted.agrees_iff {w : Warning} (h : w.Defaulted) :
    w.AgreesWithPolicy ↔ w.type.defaultsAgree = true := by
  unfold Warning.AgreesWithPolicy
  rw [h.1, h.2]
  exact w.type.defaultsAgree_iff

theorem downgradeToFlat_defaulted {v : WarningVariant} (h : v.base = {}) :
    (downgradeToFlat v).Defaulted := by
  simp [Warning.Defaulted, downgradeToFlat, h]

/-- The output of one emitter: warnings of one type, left at the defaults. -/
def Uniform (t : WarningType) (l : List Warning) : Prop := ∀ w ∈ l, w.type = t ∧ w.Defaulted

namespace Uniform

variable {t : WarningType} {l : List Warning}

theorem nil (t : WarningType) : Uniform t [] := fun _ h => by cases h

theorem singleton {v : WarningVariant} (h : v.base = {}) : Uniform v.type [downgradeToFlat v] := by
  intro w hw
  rw [List.mem_singleton.mp hw]
  exact ⟨rfl, downgradeToFlat_defaulted h⟩

theorem agrees_iff (h : Uniform t l) :
    (∀ w ∈ l, w.AgreesWithPolicy) ↔ l = [] ∨ t.defaultsAgree = true := by
  constructor
  · intro ha
    cases l with
    | nil => exact .inl rfl
    | cons w l =>
      obtain ⟨ht, hd⟩ := h w List.mem_cons_self
      exact .inr (ht ▸ hd.agrees_iff.mp (ha w List.mem_cons_self))
  · rintro (rfl | ht) w hw
    · cases hw
    · exact (h w hw).2.agrees_iff.mpr ((h w hw).1 ▸ ht)

theorem exists_type_iff (h : Uniform t l) {p : WarningType → Prop} :
    (∃ w ∈ l, p w.type) ↔ l ≠ [] ∧ p t := by
  constructor
  · rintro ⟨w, hw, hp⟩
    exact ⟨List.ne_nil_of_mem hw, (h w hw).1 ▸ hp⟩
  · rintro ⟨hne, hp⟩
    obtain ⟨w, hw⟩ := List.exists_mem_of_ne_nil l hne
    exact ⟨w, hw, (h w hw).1 ▸ hp⟩

end Uniform

end KnowledgeKiln.L2
