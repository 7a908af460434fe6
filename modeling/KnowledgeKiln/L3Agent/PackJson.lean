import KnowledgeKiln.Core.JsonText
import KnowledgeKiln.L2Retrieval.Types

/-!
# The JSON of a context pack

`packJson`: the value `model_dump_json` writes, field by field. `EvidenceChunk.strings` and
`ContextPackResponse.strings` are the texts among the fields; all else is numbers, ids, dates and
words of a closed vocabulary.

* `dumps_packJson_iff`: the JSON holds the markers of those texts.
-/
namespace KnowledgeKiln.L2

open KnowledgeKiln.Core

def EvidenceChunk.strings (e : EvidenceChunk) : List Str :=
  e.title :: (e.repo.toList ++ e.path.toList ++ e.headingPath.getD [] ++ e.sourceUrl.toList ++
    e.commitSha.toList ++ e.status :: (e.authority.toList ++ e.owner.toList ++ [e.text]))

def Conflict.strings (c : Conflict) : List Str := c.topic :: c.description.toList

def ContextPackResponse.strings (pack : ContextPackResponse) : List Str :=
  pack.evidence.flatMap EvidenceChunk.strings ++ pack.warnings.map (·.message) ++
    pack.conflicts.flatMap Conflict.strings ++ pack.reviewReasons ++
    pack.untrustedContentNotice :: pack.untrustedContentNoticeId ::
      pack.untrustedContentNoticePinnedPhrases

end KnowledgeKiln.L2

namespace KnowledgeKiln.L3.PackJson

open KnowledgeKiln.Core KnowledgeKiln.L2

/-! ## The fields -/

/-- `str(uuid)` -/
def uuidStr (id : Uuid) : Str :=
  let h := hex 32 id
  join "-" [h.take 8, (h.drop 8).take 4, (h.drop 12).take 4, (h.drop 16).take 4, h.drop 20]

/-- `repr(x)` of a number with one decimal. -/
def oneDecimal (q : ℚ) : Str := (fixed2 q).dropLast

def confidenceStr : Confidence → Str
  | .high => "high"
  | .medium => "medium"
  | .low => "low"
  | .none => "none"

def severityStr : Severity → Str
  | .advisory => "advisory"
  | .warning => "warning"
  | .blocking => "blocking"

def actionStr : L2.Action → Str
  | .inform => "inform"
  | .preferOtherSources => "prefer_other_sources"
  | .requestHumanReview => "request_human_review"
  | .rewriteQuery => "rewrite_query"
  | .refuseToSynthesize => "refuse_to_synthesize"

def orNull {α : Type*} (write : α → Json) : Option α → Json
  | none => .null
  | some x => write x

def strs (items : List Str) : Json := .arr (items.map .str)

/-- retrieval/types.py:300-323 -/
def evidenceJson (e : EvidenceChunk) : Json := .obj
  [("chunk_id", .str (uuidStr e.chunkId)), ("document_id", .str (uuidStr e.documentId)),
    ("title", .str e.title), ("repo", orNull .str e.repo), ("path", orNull .str e.path),
    ("heading_path", orNull strs e.headingPath), ("source_url", orNull .str e.sourceUrl),
    ("commit_sha", orNull .str e.commitSha), ("status", .str e.status),
    ("authority", orNull .str e.authority), ("owner", orNull .str e.owner),
    ("last_reviewed", orNull (fun d : Date => .str d.isoformat) e.lastReviewed),
    ("score", .float (oneDecimal e.score)), ("text", .str e.text)]

/-- retrieval/types.py:149-180 -/
def warningJson (w : Warning) : Json := .obj
  [("type", .str w.type.value), ("message", .str w.message),
    ("source_id", orNull (fun id => .str (uuidStr id)) w.sourceId),
    ("severity", .str (severityStr w.severity)), ("action", .str (actionStr w.action))]

/-- retrieval/types.py:249-261 -/
def conflictJson (c : Conflict) : Json := .obj
  [("topic", .str c.topic), ("source_ids", .arr (c.sourceIds.map fun id => .str (uuidStr id))),
    ("description", orNull .str c.description)]

def budgetJson (b : TokenBudget) : Json := .obj
  [("requested", .int b.requested), ("used_estimate", .int b.usedEstimate)]

/-- The fields before the evidence. -/
def headFields (id : Uuid) (answerable : Bool) (confidence : Confidence) : List (Str × Json) :=
  [("context_pack_id", .str (uuidStr id)), ("answerable", .bool answerable),
    ("confidence", .str (confidenceStr confidence)), ("summary", .null), ("recommended_use", .null)]

/-- The fields behind the conflicts. -/
def tailFields (budget : TokenBudget) (review : Bool) (reasons : List Str) (notice noticeId : Str)
    (phrases : List Str) : List (Str × Json) :=
  [("related_sources", .arr []), ("token_budget", budgetJson budget),
    ("requires_human_review", .bool review), ("review_reasons", strs reasons),
    ("untrusted_content_notice", .str notice), ("untrusted_content_notice_id", .str noticeId),
    ("untrusted_content_notice_pinned_phrases", strs phrases)]

/-- The lists of a pack. -/
def listFields (pack : ContextPackResponse) : List (Str × Json) :=
  [("evidence", .arr (pack.evidence.map evidenceJson)),
    ("warnings", .arr (pack.warnings.map warningJson)),
    ("conflicts", .arr (pack.conflicts.map conflictJson))]

/-- retrieval/types.py:345-386 -/
def packJson (pack : ContextPackResponse) : Json := .obj <|
  headFields pack.contextPackId pack.answerable pack.confidence ++ listFields pack ++
  tailFields pack.tokenBudget pack.requiresHumanReview pack.reviewReasons
    pack.untrustedContentNotice pack.untrustedContentNoticeId
    pack.untrustedContentNoticePinnedPhrases

/-! ## Markers -/

section
variable {t : Str}

theorem lt_notMem_uuidStr (id : Uuid) : '<' ∉ uuidStr id := by
  have h : ∀ s : Str, s <:+: hex 32 id → '<' ∉ s :=
    fun s hs hmem => foreign_lt.notMem_hex 32 id (hs.subset hmem)
  simp only [uuidStr, join, List.intercalate, List.intersperse, List.flatten_cons,
    List.flatten_nil, List.mem_append, not_or]
  refine ⟨h _ (List.take_prefix _ _).isInfix, by decide, h _ ?_, by decide, h _ ?_, by decide,
    h _ ?_, by decide, h _ (List.drop_suffix _ _).isInfix, List.not_mem_nil⟩
  all_goals exact (List.take_prefix _ _).isInfix.trans (List.drop_suffix _ _).isInfix

theorem lt_notMem_oneDecimal (q : ℚ) : '<' ∉ oneDecimal q :=
  fun h => foreign_lt.notMem_fixed2 q (List.mem_of_mem_dropLast h)

theorem exists_mem_flatMap {α : Type*} {p : Str → Prop} {f : α → List Str} {xs : List α} :
    (∃ s ∈ xs.flatMap f, p s) ↔ ∃ x ∈ xs, ∃ s ∈ f x, p s := by
  simp only [List.mem_flatMap]
  constructor
  · rintro ⟨s, ⟨x, hx, hs⟩, ht⟩
    exact ⟨x, hx, s, hs, ht⟩
  · rintro ⟨x, hx, s, hs, ht⟩
    exact ⟨s, ⟨x, hx, hs⟩, ht⟩

/-- A marker stands in a text of the value. -/
def Holds (t : Str) (v : Json) : Prop := ∃ s ∈ v.texts, t <:+: s

@[simp] theorem holds_str {s : Str} : Holds t (.str s) ↔ t <:+: s := by simp [Holds, Json.texts]

@[simp] theorem holds_arr {α : Type*} {f : α → Json} {xs : List α} :
    Holds t (.arr (xs.map f)) ↔ ∃ x ∈ xs, Holds t (f x) := by
  rw [Holds, Json.texts, Json.textsItems_map, exists_mem_flatMap]
  rfl

@[simp] theorem holds_strs {items : List Str} : Holds t (strs items) ↔ ∃ s ∈ items, t <:+: s := by
  simp [strs]

@[simp] theorem holds_orNull {α : Type*} {write : α → Json} {o : Option α} :
    Holds t (orNull write o) ↔ ∃ x ∈ o.toList, Holds t (write x) := by
  cases o with
  | none => simp [orNull, Holds, Json.texts]
  | some x => simp [orNull]

theorem holds_obj (h : Marker t) {members : List (Str × Json)}
    (hkeys : ∀ member ∈ members, '<' ∉ member.1) :
    Holds t (.obj members) ↔ ∃ member ∈ members, Holds t member.2 := by
  rw [Holds, Json.texts]
  induction members with
  | nil => simp [Json.textsMembers]
  | cons member members ih =>
    rw [List.forall_mem_cons] at hkeys
    simp only [Json.textsMembers, List.exists_mem_cons_iff, List.mem_append, or_and_right,
      exists_or]
    rw [ih hkeys.2, or_iff_right (h.absent hkeys.1)]
    rfl

theorem evidenceJson_iff (h : Marker t) (e : EvidenceChunk) :
    Holds t (evidenceJson e) ↔ ∃ s ∈ e.strings, t <:+: s := by
  have hids := fun id => h.absent (lt_notMem_uuidStr id)
  have hdates := fun d => h.absent (foreign_lt.notMem_isoformat d)
  have hscore : ¬ Holds t (.float (oneDecimal e.score)) := by
    simpa [Holds, Json.texts] using h.absent (lt_notMem_oneDecimal e.score)
  have hpath : (∃ x ∈ e.headingPath.toList, ∃ s ∈ x, t <:+: s) ↔
      ∃ s ∈ e.headingPath.getD [], t <:+: s := by
    cases e.headingPath with
    | none => simp
    | some path => simp
  rw [evidenceJson, holds_obj h (by simp only [List.forall_mem_cons]; decide)]
  simp only [List.exists_mem_cons_iff, holds_str, holds_orNull, holds_strs, hids, hdates, hscore,
    hpath, EvidenceChunk.strings, List.mem_append, or_and_right, exists_or, List.not_mem_nil,
    false_or, or_false, false_and, and_false, exists_false, or_assoc]

theorem warningJson_iff (h : Marker t) (w : Warning) :
    Holds t (warningJson w) ↔ t <:+: w.message := by
  have hids := fun id => h.absent (lt_notMem_uuidStr id)
  have htype : ¬ t <:+: w.type.value := h.absent (by cases w.type <;> decide)
  have hseverity : ¬ t <:+: severityStr w.severity := h.absent (by cases w.severity <;> decide)
  have haction : ¬ t <:+: actionStr w.action := h.absent (by cases w.action <;> decide)
  rw [warningJson, holds_obj h (by simp only [List.forall_mem_cons]; decide)]
  simp [hids, htype, hseverity, haction]

theorem conflictJson_iff (h : Marker t) (c : Conflict) :
    Holds t (conflictJson c) ↔ ∃ s ∈ c.strings, t <:+: s := by
  have hids := fun id => h.absent (lt_notMem_uuidStr id)
  rw [conflictJson, holds_obj h (by simp only [List.forall_mem_cons]; decide)]
  simp [hids, Conflict.strings]

theorem not_holds_budgetJson (h : Marker t) (b : TokenBudget) : ¬ Holds t (budgetJson b) := by
  rw [budgetJson, holds_obj h (by simp only [List.forall_mem_cons]; decide)]
  simp [Holds, Json.texts]

theorem packJson_iff (h : Marker t) (pack : ContextPackResponse) :
    Holds t (packJson pack) ↔ ∃ s ∈ pack.strings, t <:+: s := by
  have hid := h.absent (lt_notMem_uuidStr pack.contextPackId)
  have hconfidence : ¬ t <:+: confidenceStr pack.confidence :=
    h.absent (by cases pack.confidence <;> decide)
  have hbool : ∀ b, ¬ Holds t (.bool b) := by simp [Holds, Json.texts]
  have hnull : ¬ Holds t .null := by simp [Holds, Json.texts]
  have hnone : ¬ Holds t (.arr []) := by simp [Holds, Json.texts, Json.textsItems]
  have hkeys : ∀ member ∈ headFields pack.contextPackId pack.answerable pack.confidence ++
      listFields pack ++ tailFields pack.tokenBudget pack.requiresHumanReview pack.reviewReasons
        pack.untrustedContentNotice pack.untrustedContentNoticeId
        pack.untrustedContentNoticePinnedPhrases, '<' ∉ member.1 := by
    simp only [headFields, listFields, tailFields, List.cons_append, List.nil_append,
      List.forall_mem_cons]
    decide
  rw [packJson, holds_obj h hkeys]
  simp only [headFields, listFields, tailFields, List.cons_append, List.nil_append,
    List.exists_mem_cons_iff, holds_str, holds_arr, holds_strs, hid, hconfidence, hbool, hnull,
    hnone, not_holds_budgetJson h, evidenceJson_iff h, warningJson_iff h, conflictJson_iff h,
    ContextPackResponse.strings, List.mem_append, exists_mem_flatMap, List.mem_map, or_and_right,
    exists_or, exists_exists_and_eq_and, List.not_mem_nil, false_or, or_false, false_and,
    exists_false, or_assoc]

/-- **The JSON of a pack.** -/
theorem dumps_packJson_iff (h : Marker t) (pack : ContextPackResponse) :
    t <:+: (packJson pack).dumps ↔ ∃ s ∈ pack.strings, t <:+: s :=
  (h.dumps_iff _).trans (packJson_iff h pack)

end

end KnowledgeKiln.L3.PackJson
