import KnowledgeKiln.Core.Str

/-!
# Values shared by the writing and the reading side of the database
-/
namespace KnowledgeKiln.Core

abbrev Uuid := Nat

/-- The keys ingestion stamps on `document_chunks.metadata`; an absent key is
`false` or `none`. -/
structure ChunkMetadata where
  hasPromptInjection : Bool := false
  matchedPattern : Option Str := none
  hasSensitiveContent : Bool := false
  matchedSensitivePattern : Option Str := none
  deriving DecidableEq, Repr

end KnowledgeKiln.Core
