import KnowledgeKiln.Core.Counter
import KnowledgeKiln.L3Agent.EvidenceSlots
import KnowledgeKiln.L3Agent.PackJson

/-!
# What a pack counts against its budget

The trim budgets the texts of the chunks; the estimate a pack reports counts its whole
serialization. `assemble_counted` takes an assembly apart at that point.

* `evidence_single_iff`: when the evidence is a single chunk.
* `Layout`: the serialization, in parts. `pieces` are those parts, written from what the assembly is
  given: the rows that fit, the citations of their documents, the warnings and the conflicts.
* `budget_iff`: when a pack keeps the budget it was asked for.
* `envelope_overshoots`: two one-letter chunks under a budget of 100.
-/
namespace KnowledgeKiln.L3.PackBudget

open KnowledgeKiln.Core KnowledgeKiln.L2 KnowledgeKiln.L2.Ranking KnowledgeKiln.L3.Serializers
  KnowledgeKiln.L3.ContextPack KnowledgeKiln.L3.EvidenceSlots KnowledgeKiln.L3.PackJson

/-! ## The pack that is counted -/

/-- The chunks offered to the trim. -/
def offered (inputs : SerializerInputs) : List RankedChunk :=
  inputs.chunks.filter fun c => !c.hasSensitiveContent

def contents (inputs : SerializerInputs) (c : RankedChunk) : Str :=
  (inputs.chunkText c.chunkId).getD []

/-- The pack before the recount, mirrors agent/serializers.py:286-307 -/
def draft (inputs : SerializerInputs) (packId : Uuid) (maxTokens : Nat) (threshold : Option ℚ)
    (embed : Bool) (kept : List RankedChunk) (used : Nat) (cited : List EvidenceChunk) :
    ContextPackResponse :=
  let uncited := kept.countP fun c => (inputs.documentRefs c.documentId).isNone
  let droppedSensitive := inputs.chunks.length - (offered inputs).length
  let needsReview := requiresHumanReview kept inputs.warnings inputs.conflicts threshold ||
    decide (0 < uncited) || decide (0 < droppedSensitive)
  { contextPackId := packId
    answerable := !kept.isEmpty && !needsReview
    confidence := deriveConfidence kept inputs.warnings threshold
    evidence := if embed then embedInlineWarningMarkers cited inputs.warnings else cited
    warnings := inputs.warnings
    conflicts := inputs.conflicts
    tokenBudget := { requested := maxTokens, usedEstimate := used }
    requiresHumanReview := needsReview
    reviewReasons := reviewReasons kept inputs.warnings inputs.conflicts uncited droppedSensitive
    untrustedContentNotice := untrustedContentNotice
    untrustedContentNoticeId := untrustedContentNoticeId
    untrustedContentNoticePinnedPhrases := untrustedContentNoticePinnedPhrases }

section
variable {env : Env} {inputs : SerializerInputs} {packId : Uuid} {maxChunks maxTokens : Nat}
  {threshold : Option ℚ} {embed : Bool} {pack : ContextPackResponse}

/-- The reported estimate is the count of the serialized draft. -/
theorem assemble_counted
    (h : assembleContextPack env inputs packId maxChunks maxTokens threshold embed = .ok pack) :
    ∃ kept used cited n,
      trimEvidenceToBudget env (offered inputs) (contents inputs) maxChunks maxTokens =
        .ok (kept, used) ∧
      Py.mapM (toEvidenceChunk env inputs.chunkText inputs.documentRefs) kept = .ok cited ∧
      env.countTokens (env.dumpJson
        (draft inputs packId maxTokens threshold embed kept used cited)) = .ok n ∧
      pack = { draft inputs packId maxTokens threshold embed kept used cited with
        tokenBudget := { requested := maxTokens, usedEstimate := n } } := by
  unfold assembleContextPack at h
  obtain ⟨⟨kept, used⟩, ht, h⟩ := Py.bind_ok.mp h
  obtain ⟨cited, hc, h⟩ := Py.bind_ok.mp h
  obtain ⟨n, hn, h⟩ := Py.bind_ok.mp h
  exact ⟨kept, used, cited, n, ht, hc, hn, (Py.pure_ok.mp h).symm⟩

/-! ## A single chunk -/

/-- A first chunk is offered, and no second one fits behind it. -/
def Alone (env : Env) (inputs : SerializerInputs) (maxChunks maxTokens : Nat) : Prop :=
  0 < maxChunks ∧ offered inputs ≠ [] ∧ ((offered inputs).length ≤ 1 ∨
    ¬ Fits env (contents inputs) maxChunks maxTokens ((offered inputs).take 2))

theorem kept_single_iff {kept : List RankedChunk} {used : Nat}
    (h : trimEvidenceToBudget env (offered inputs) (contents inputs) maxChunks maxTokens =
      .ok (kept, used)) :
    kept.length = 1 ↔ Alone env inputs maxChunks maxTokens := by
  have hl := trim_longest h
  have hone := hl.length_le_iff Fits.of_prefix (n := 1)
  have hnone := hl.length_le_iff Fits.of_prefix (n := 0)
  have hfirst : offered inputs ≠ [] → (Fits env (contents inputs) maxChunks maxTokens
      ((offered inputs).take 1) ↔ 0 < maxChunks) := by
    intro hne
    have hlen : ((offered inputs).take 1).length = 1 := by
      rw [List.length_take]
      exact min_eq_left (List.length_pos_iff.mpr hne)
    exact ⟨fun hf => hlen.ge.trans hf.1, fun hpos => ⟨hlen.le.trans hpos, .inl hlen.le⟩⟩
  have heq : kept.length = 1 ↔ ¬ kept.length ≤ 0 ∧ kept.length ≤ 1 := by omega
  rw [heq, hnone, hone, Alone, not_or, not_not, Nat.le_zero, List.length_eq_zero_iff, ← and_assoc]
  refine and_congr_left fun _ => ?_
  constructor
  · exact fun ⟨hne, hf⟩ => ⟨(hfirst hne).mp hf, hne⟩
  · exact fun ⟨hpos, hne⟩ => ⟨hne, (hfirst hne).mpr hpos⟩

theorem evidence_length {kept : List RankedChunk} {used : Nat} {cited : List EvidenceChunk}
    (h : Py.mapM (toEvidenceChunk env inputs.chunkText inputs.documentRefs) kept = .ok cited) :
    (draft inputs packId maxTokens threshold embed kept used cited).evidence.length =
      kept.length := by
  rw [← Py.mapM_ok_length h, draft]
  split
  · exact List.length_map _
  · rfl

/-- The evidence is a single chunk. -/
theorem evidence_single_iff
    (h : assembleContextPack env inputs packId maxChunks maxTokens threshold embed = .ok pack) :
    pack.evidence.length = 1 ↔ Alone env inputs maxChunks maxTokens := by
  obtain ⟨kept, used, cited, n, ht, hc, -, rfl⟩ := assemble_counted h
  rw [← kept_single_iff ht, ← evidence_length hc]

end

/-! ## The parts of the serialization -/

/-- The tokenizer counts as `c` does, where it accepts a text. -/
def CountsBy (env : Env) (c : Counter Char) : Prop :=
  ∀ s n, env.countTokens s = .ok n → n = c.count s

/-- What `model_dump_json` writes: the fields before the evidence, an object for every chunk,
warning and conflict, the fields behind the conflicts. -/
structure Layout (env : Env) where
  head : Uuid → Bool → Confidence → Str
  evidence : EvidenceChunk → Str
  warning : Warning → Str
  conflict : Conflict → Str
  tail : TokenBudget → Bool → List Str → Str → Str → List Str → Str
  dump : ∀ pack, env.dumpJson pack =
    head pack.contextPackId pack.answerable pack.confidence ++
      (join "," (pack.evidence.map evidence) ++ ("],\"warnings\":[".toList ++
      (join "," (pack.warnings.map warning) ++ ("],\"conflicts\":[".toList ++
      (join "," (pack.conflicts.map conflict) ++
        tail pack.tokenBudget pack.requiresHumanReview pack.reviewReasons
          pack.untrustedContentNotice pack.untrustedContentNoticeId
          pack.untrustedContentNoticePinnedPhrases)))))

/-- The objects of a list, with the commas. -/
def listed (objects : List Str) : List Str := objects.intersperse ",".toList

theorem flatten_listed (objects : List Str) : (listed objects).flatten = join "," objects := rfl

section
variable (env : Env) (inputs : SerializerInputs)

/-- The evidence of a chunk: its text, with the markers when they are asked for, and the citation
of its document. -/
def evidenceOf (embed : Bool) (c : RankedChunk) : EvidenceChunk :=
  let ref := (inputs.documentRefs c.documentId).getD
    { documentId := c.documentId, title := "(unknown)" }
  { chunkId := c.chunkId
    documentId := c.documentId
    title := ref.title
    repo := ref.repo
    path := ref.path
    headingPath := if c.headingPath = [] then none else some c.headingPath
    sourceUrl := ref.sourceUrl.bind fun u => (env.anyUrl u).toOption
    commitSha := ref.commitSha
    status := c.status
    authority := ref.authority
    owner := ref.owner
    lastReviewed := c.lastReviewed
    score := c.score
    text := if embed then
        withMarkers (inlinedWarnings inputs.warnings c.documentId) (contents inputs c)
      else contents inputs c }

/-- The chunks that no row cites a document for. -/
def uncited (p : List RankedChunk) : Nat :=
  p.countP fun c => (inputs.documentRefs c.documentId).isNone

def droppedSensitive : Nat := inputs.chunks.countP (·.hasSensitiveContent)

/-- Whether a pack with the chunks `p` needs a review. -/
def reviewed (threshold : Option ℚ) (p : List RankedChunk) : Bool :=
  requiresHumanReview p inputs.warnings inputs.conflicts threshold ||
    decide (0 < uncited inputs p) || decide (0 < droppedSensitive inputs)

variable {env} in
/-- The texts that a pack with the chunks `p` is written with; `used` is what their contents
count. -/
def pieces (J : Layout env) (packId : Uuid) (maxTokens used : Nat) (threshold : Option ℚ)
    (embed : Bool) (p : List RankedChunk) : List Str :=
  J.head packId (!p.isEmpty && !reviewed inputs threshold p)
      (deriveConfidence p inputs.warnings threshold) ::
    (listed (p.map fun c => J.evidence (evidenceOf env inputs embed c)) ++
      "],\"warnings\":[".toList :: (listed (inputs.warnings.map J.warning) ++
      "],\"conflicts\":[".toList :: (listed (inputs.conflicts.map J.conflict) ++
      [J.tail ⟨maxTokens, used⟩ (reviewed inputs threshold p)
        (reviewReasons p inputs.warnings inputs.conflicts (uncited inputs p)
          (droppedSensitive inputs))
        untrustedContentNotice untrustedContentNoticeId untrustedContentNoticePinnedPhrases])))

end

section
variable {env : Env} {inputs : SerializerInputs} {packId : Uuid} {maxChunks maxTokens : Nat}
  {threshold : Option ℚ} {embed : Bool} {kept : List RankedChunk} {used : Nat}
  {cited : List EvidenceChunk}

theorem toEvidenceChunk_eq {c : RankedChunk} {e : EvidenceChunk}
    (h : toEvidenceChunk env inputs.chunkText inputs.documentRefs c = .ok e) :
    e = evidenceOf env inputs false c := by
  obtain ⟨url, hurl, h⟩ := Py.bind_ok.mp h
  have hurl' : url = ((inputs.documentRefs c.documentId).getD
      { documentId := c.documentId, title := "(unknown)" }).sourceUrl.bind
        fun u => (env.anyUrl u).toOption := by
    generalize ((inputs.documentRefs c.documentId).getD
      { documentId := c.documentId, title := "(unknown)" }).sourceUrl = written at hurl
    cases written with
    | none => exact (Py.pure_ok.mp hurl).symm
    | some u =>
      obtain ⟨v, hv, hurl⟩ := Py.bind_ok.mp hurl
      cases hurl
      rw [Option.bind_some, hv]
      rfl
  rw [← Py.pure_ok.mp h, hurl']
  rfl

/-- The evidence a pack is written with. -/
theorem draft_evidence
    (h : Py.mapM (toEvidenceChunk env inputs.chunkText inputs.documentRefs) kept = .ok cited) :
    (draft inputs packId maxTokens threshold embed kept used cited).evidence =
      kept.map (evidenceOf env inputs embed) := by
  have hcited : cited = kept.map (evidenceOf env inputs false) := by
    refine (List.forall₂_eq_eq_eq ▸ List.forall₂_map_left_iff.mpr ?_ :
      kept.map (evidenceOf env inputs false) = cited).symm
    exact (Py.mapM_forall₂ h).imp fun _ _ he => (toEvidenceChunk_eq he).symm
  cases embed with
  | false => exact hcited
  | true =>
    show embedInlineWarningMarkers cited inputs.warnings = _
    rw [hcited, embedInlineWarningMarkers, List.map_map]
    rfl

theorem length_sub_offered :
    inputs.chunks.length - (offered inputs).length = droppedSensitive inputs := by
  have hlen := inputs.chunks.length_eq_countP_add_countP (·.hasSensitiveContent)
  rw [offered, ← List.countP_eq_length_filter, droppedSensitive]
  simp only [Bool.not_eq_true, Bool.decide_eq_false] at hlen
  omega

/-- **Written from the inputs.** -/
theorem dump_draft (J : Layout env)
    (h : Py.mapM (toEvidenceChunk env inputs.chunkText inputs.documentRefs) kept = .ok cited) :
    env.dumpJson (draft inputs packId maxTokens threshold embed kept used cited) =
      (pieces inputs J packId maxTokens used threshold embed kept).flatten := by
  rw [J.dump, draft_evidence h]
  simp only [pieces, List.flatten_cons, List.flatten_append, List.flatten_nil, List.append_nil,
    flatten_listed, List.map_map, draft, length_sub_offered]
  rfl

theorem trimLoop_used {c : Counter Char} (hc : CountsBy env c) {text : RankedChunk → Str} :
    ∀ {cs before : List RankedChunk} {total : Nat} {out : List RankedChunk × Nat},
      trimLoop env maxChunks maxTokens before total (cs.map fun ch => (ch, text ch)) = .ok out →
      total = (before.map fun ch => c.count (text ch)).sum →
        out.2 = (out.1.map fun ch => c.count (text ch)).sum
  | [], before, total, out, h, htotal => by
    cases h
    exact htotal
  | ch :: cs, before, total, out, h, htotal => by
    rw [List.map_cons, trimLoop] at h
    split at h
    · cases h
      exact htotal
    · obtain ⟨n, hn, h⟩ := Py.bind_ok.mp h
      split at h
      · cases h
        exact htotal
      · refine trimLoop_used hc h ?_
        rw [List.map_append, List.sum_append, ← htotal, hc _ n hn]
        simp

/-- The trim counts the contents it keeps. -/
theorem trim_used {c : Counter Char} (hc : CountsBy env c) {text : RankedChunk → Str}
    {cs : List RankedChunk}
    (h : trimEvidenceToBudget env cs text maxChunks maxTokens = .ok (kept, used)) :
    used = (kept.map fun ch => c.count (text ch)).sum :=
  trimLoop_used hc h rfl

end

/-! ## The budget -/

/-- The pack keeps its budget, or is one chunk that had to be returned anyway. -/
def Respected (pack : ContextPackResponse) : Prop :=
  pack.tokenBudget.usedEstimate ≤ pack.tokenBudget.requested ∨ pack.evidence.length = 1

/-- The parts of a pack with the chunks `p`, the tail with the count of their contents. -/
def parts {env : Env} (J : Layout env) (c : Counter Char) (inputs : SerializerInputs)
    (packId : Uuid) (maxTokens : Nat) (threshold : Option ℚ) (embed : Bool)
    (p : List RankedChunk) : List Str :=
  pieces inputs J packId maxTokens (p.map fun ch => c.count (contents inputs ch)).sum threshold
    embed p

/-- **The budget.** A pack carries the chunks that fit by their contents. It keeps its budget when
its parts count at most `maxTokens` together: the fixed fields, the object of each chunk, of each
warning and of each conflict, and the commas. For a counter that merges nothing it is kept only
then, but for a single chunk; and for no counter when one part alone counts more. -/
theorem budget_iff (env : Env) (c : Counter Char) (hc : CountsBy env c) (J : Layout env)
    (inputs : SerializerInputs) (packId : Uuid) (maxChunks maxTokens : Nat)
    (threshold : Option ℚ) (embed : Bool) (pack : ContextPackResponse)
    (h : assembleContextPack env inputs packId maxChunks maxTokens threshold embed = .ok pack) :
    ∃ p, LongestPrefix (Fits env (contents inputs) maxChunks maxTokens) (offered inputs) p ∧
      (Alone env inputs maxChunks maxTokens ∨
        ((parts J c inputs packId maxTokens threshold embed p).map c.count).sum ≤ maxTokens →
          Respected pack) ∧
      (c.Additive → (Respected pack ↔ Alone env inputs maxChunks maxTokens ∨
        ((parts J c inputs packId maxTokens threshold embed p).map c.count).sum ≤ maxTokens)) ∧
      (Respected pack → Alone env inputs maxChunks maxTokens ∨
        ∀ part ∈ parts J c inputs packId maxTokens threshold embed p,
          c.count part ≤ maxTokens) := by
  have hsingle := evidence_single_iff h
  obtain ⟨kept, used, cited, n, ht, hm, hn, rfl⟩ := assemble_counted h
  have hiff : Respected { draft inputs packId maxTokens threshold embed kept used cited with
        tokenBudget := { requested := maxTokens, usedEstimate := n } } ↔
      Alone env inputs maxChunks maxTokens ∨
        c.count (parts J c inputs packId maxTokens threshold embed kept).flatten ≤ maxTokens := by
    rw [Respected, hsingle, parts, ← trim_used hc ht, ← dump_draft J hm, ← hc _ n hn, or_comm]
  refine ⟨kept, trim_longest ht, fun henough => hiff.mpr ?_, fun hadd => ?_, fun hkept => ?_⟩
  · exact henough.imp_right (Counter.count_flatten_le (List.cons_ne_nil _ _)).trans
  · rw [hiff, hadd.count_flatten]
  · exact (hiff.mp hkept).imp_right fun hle part hpart =>
      (Counter.count_le_flatten hpart).trans hle

/-! ## A concrete serialization -/

/-- One token for every four characters. -/
def quarters : Counter Char := .perBlock Char 3

def jsonEnv : Env :=
  { asciiEnv with
    countTokens := fun s => .ok (quarters.count s)
    dumpJson := fun pack => (packJson pack).dumps }

def jsonLayout : Layout jsonEnv where
  head id answerable confidence := "\x7b".toList ++
    join "," (Json.dumpsMembers (headFields id answerable confidence)) ++ ",\"evidence\":["
  evidence e := (evidenceJson e).dumps
  warning w := (warningJson w).dumps
  conflict c := (conflictJson c).dumps
  tail budget review reasons notice noticeId phrases := "],".toList ++
    join "," (Json.dumpsMembers (tailFields budget review reasons notice noticeId phrases)) ++
      "\x7d"
  dump pack := by
    have hevidence : ",\"evidence\":[".toList = "," ++ (quoted "evidence" ++ (":" ++ "[")) := by
      decide
    have hwarnings : "],\"warnings\":[".toList =
        "]" ++ ("," ++ (quoted "warnings" ++ (":" ++ "["))) := by
      decide
    have hconflicts : "],\"conflicts\":[".toList =
        "]" ++ ("," ++ (quoted "conflicts" ++ (":" ++ "["))) := by
      decide
    have hclose : "],".toList = "]" ++ "," := rfl
    have hlast : ∀ s : Str, join "," [s] = s := by simp [join, List.intercalate]
    show (packJson pack).dumps = _
    simp only [hevidence, hwarnings, hconflicts, hclose, hlast, packJson, headFields, listFields,
      tailFields, List.cons_append, List.nil_append, Json.dumps, Json.dumpsMembers,
      Json.dumpsItems_map, join_cons, ne_eq, List.cons_ne_nil, not_false_eq_true,
      List.append_assoc]

theorem jsonEnv_countsBy : CountsBy jsonEnv quarters := by
  rintro s n ⟨⟩
  rfl

/-- Two chunks of one letter each. -/
def twoLetters : List SearchRow := [sampleRow 1 1 1 "a" [], sampleRow 2 2 (9 / 10) "b" []]

/-- A request for at most `n` tokens. -/
def budgetCall (n : Nat) : Call := { sampleCall [] with maxTokens := n }

/-- Their texts count one each, and the pack they are sent in 310. -/
theorem envelope_overshoots : CountsBy jsonEnv quarters ∧ ∃ pack,
    buildContextPack jsonEnv ((budgetCall 100).onRows twoLetters) = .ok pack ∧
    pack.tokenBudget = ⟨100, 310⟩ ∧ pack.evidence.length = 2 ∧ ¬ Respected pack := by
  obtain ⟨pack, hb, h⟩ := Py.exists_of_map_eq
    (f := fun p : ContextPackResponse => (p.tokenBudget, p.evidence.length))
    (b := (⟨100, 310⟩, 2)) (x := buildContextPack jsonEnv ((budgetCall 100).onRows twoLetters))
    (by decide +kernel)
  obtain ⟨hbudget, hlen⟩ := Prod.ext_iff.mp h
  dsimp only at hbudget hlen
  refine ⟨jsonEnv_countsBy, pack, hb, hbudget, hlen, ?_⟩
  rw [Respected, hbudget, hlen]
  decide

/-- The inputs of their assembly. -/
def twoLetterInputs : SerializerInputs where
  chunks := (budgetCall 3000).cands asciiEnv twoLetters
  warnings := []
  conflicts := []
  chunkText := Engine.chunkText twoLetters ((budgetCall 3000).cands asciiEnv twoLetters)
  documentRefs := Engine.documentRefsFromRows twoLetters

/-- Under the default budget there is room for all of it. -/
theorem budget_iff_default : ∃ pack,
    assembleContextPack jsonEnv twoLetterInputs 1 8 3000 none false = .ok pack ∧
      Respected pack := by
  obtain ⟨pack, ha⟩ := Py.exists_of_isOk
    (x := assembleContextPack jsonEnv twoLetterInputs 1 8 3000 none false) (by decide +kernel)
  obtain ⟨p, hp, henough, -⟩ := budget_iff jsonEnv quarters jsonEnv_countsBy jsonLayout
    twoLetterInputs 1 8 3000 none false pack ha
  have hfits : Fits jsonEnv (contents twoLetterInputs) 8 3000 (offered twoLetterInputs) :=
    ⟨by decide +kernel, .inr ⟨[1, 1], by decide +kernel, by decide⟩⟩
  have hall : p = offered twoLetterInputs :=
    hp.initial.eq_of_length (hp.initial.length_le.antisymm (hp.longest _ (List.prefix_refl _) hfits))
  have hroom : ((parts jsonLayout quarters twoLetterInputs 1 3000 none false
      (offered twoLetterInputs)).map quarters.count).sum ≤ 3000 := by decide +kernel
  exact ⟨pack, ha, henough (.inr (by rw [hall]; exact hroom))⟩

end KnowledgeKiln.L3.PackBudget
