import KnowledgeKiln.L2Retrieval.Conflicts
import KnowledgeKiln.L3Agent.ContextPack

/-!
# What a pack reveals about withheld text

Two row lists agree when they differ at most in the content and heading path of rows
flagged sensitive (`Agree`). The evidence, the other warnings, the confidence and the
token estimate do not read these fields. Conflict detection does: it groups sensitive
chunks by their heading, so a withheld heading can become the topic of a conflict
(retrieval/ranking.py:475-493), although sensitive content must be dropped from packs
entirely (agent/serializers.py:239-246).

* `emitters_ignore_headings`: the collected warnings do not depend on headings.
* `assemble_congr`: assembly reads sensitive chunks only to count them.
* `noninterference_iff`: the pack is the same for all agreeing rows exactly when the
  gated sensitive chunks are `Shadowed`.
-/
namespace KnowledgeKiln.L3.NonInterference

open KnowledgeKiln.Core KnowledgeKiln.L2 KnowledgeKiln.L2.Ranking KnowledgeKiln.L2.Conflicts
  KnowledgeKiln.L2.Engine KnowledgeKiln.L3.Serializers KnowledgeKiln.L3.ContextPack

/-! ## Agreement -/

/-- The row without the text that is withheld. -/
def withhold (r : SearchRow) : SearchRow :=
  if r.hasSensitiveContent then { r with content := [], headingPath := [] } else r

/-- Equal up to content and heading path of sensitive rows. -/
def Agree (rows rows' : List SearchRow) : Prop := rows.map withhold = rows'.map withhold

/-- The same for a ranked chunk: a sensitive one gets the heading `path`. -/
def relabel (path : List Str) (c : RankedChunk) : RankedChunk :=
  if c.hasSensitiveContent then { c with headingPath := path } else c

def relabelRow (path : List Str) (r : SearchRow) : SearchRow :=
  if r.hasSensitiveContent then { r with headingPath := path } else r

section
variable (path : List Str) (c : RankedChunk)

theorem relabel_eq : ∃ h, relabel path c = { c with headingPath := h } := by
  unfold relabel
  split
  · exact ⟨path, rfl⟩
  · exact ⟨c.headingPath, rfl⟩

@[simp] theorem relabel_score : (relabel path c).score = c.score := by
  obtain ⟨h, e⟩ := relabel_eq path c
  rw [e]

@[simp] theorem relabel_documentId : (relabel path c).documentId = c.documentId := by
  obtain ⟨h, e⟩ := relabel_eq path c
  rw [e]

@[simp] theorem relabel_status : (relabel path c).status = c.status := by
  obtain ⟨h, e⟩ := relabel_eq path c
  rw [e]

@[simp] theorem relabel_sensitive :
    (relabel path c).hasSensitiveContent = c.hasSensitiveContent := by
  obtain ⟨h, e⟩ := relabel_eq path c
  rw [e]

theorem relabel_headingPath : (relabel path c).headingPath =
    if c.hasSensitiveContent then path else c.headingPath := by
  unfold relabel
  split <;> rfl

theorem relabel_of_not_sensitive (h : c.hasSensitiveContent = false) : relabel path c = c := by
  unfold relabel
  rw [h]
  rfl

end

theorem agree_relabelRow (path : List Str) (rows : List SearchRow) :
    Agree rows (rows.map (relabelRow path)) := by
  unfold Agree
  rw [List.map_map]
  refine List.map_congr_left fun r _ => ?_
  simp only [Function.comp, withhold, relabelRow]
  split <;> simp_all

theorem agree_mem {rows rows' : List SearchRow} (h : Agree rows rows') {r : SearchRow}
    (hr : r ∈ rows) (hs : r.hasSensitiveContent = false) : r ∈ rows' := by
  have hw : withhold r = r := by simp [withhold, hs]
  have hm : r ∈ rows'.map withhold := h ▸ hw ▸ List.mem_map_of_mem hr
  obtain ⟨r', hr', he⟩ := List.mem_map.mp hm
  unfold withhold at he
  split at he
  · rename_i hs'
    rw [← he] at hs
    exact absurd hs' (by simp_all)
  · exact he ▸ hr'

/-! ## Candidates -/

/-- A row map that keeps scores acts on the candidates as its chunk map does. -/
theorem candidates_map {env : Env} {config : RetrievalConfig} {today : Date} {n : Nat}
    {φ : SearchRow → SearchRow} {f : RankedChunk → RankedChunk}
    (hφ : ∀ r, applyBoostToChunk env config today (rowToRankedChunk (φ r)) =
      f (applyBoostToChunk env config today (rowToRankedChunk r)))
    (hs : ∀ c, (f c).score = c.score) (rows : List SearchRow) :
    candidates env config today (rows.map φ) n = (candidates env config today rows n).map f := by
  have he : applyBoosts env config today ((rows.map φ).map rowToRankedChunk) =
      (applyBoosts env config today (rows.map rowToRankedChunk)).map f := by
    simp only [applyBoosts, List.map_map]
    exact List.map_congr_left fun r _ => hφ r
  rw [candidates, candidates, he, sortDesc_map f _ hs, List.map_take]

variable {env : Env} {k : Call} {rows rows' : List SearchRow}

theorem cands_withhold (env : Env) (k : Call) (rows : List SearchRow) :
    k.cands env (rows.map withhold) = (k.cands env rows).map (relabel []) := by
  refine candidates_map (fun r => ?_) (relabel_score []) rows
  cases h : r.hasSensitiveContent <;>
    simp [withhold, relabel, rowToRankedChunk, applyBoostToChunk, h]

theorem cands_relabelRow (env : Env) (k : Call) (path : List Str) (rows : List SearchRow) :
    k.cands env (rows.map (relabelRow path)) = (k.cands env rows).map (relabel path) := by
  refine candidates_map (fun r => ?_) (relabel_score path) rows
  cases h : r.hasSensitiveContent <;>
    simp [relabelRow, relabel, rowToRankedChunk, applyBoostToChunk, h]

theorem cands_agree (h : Agree rows rows') :
    (k.cands env rows).map (relabel []) = (k.cands env rows').map (relabel []) := by
  rw [← cands_withhold, ← cands_withhold, show rows.map withhold = rows'.map withhold from h]

/-! ## The emitters do not read headings -/

theorem onePerDocument_map {emit : RankedChunk → Option Warning} {f : RankedChunk → RankedChunk}
    (he : ∀ c, emit (f c) = emit c) (hd : ∀ c, (f c).documentId = c.documentId) :
    ∀ (seen : List Uuid) (cs : List RankedChunk),
      onePerDocument emit seen (cs.map f) = onePerDocument emit seen cs
  | _, [] => rfl
  | seen, c :: cs => by
    simp only [List.map_cons, onePerDocument, he, hd, onePerDocument_map he hd]

theorem gate_map {f : RankedChunk → RankedChunk} (hs : ∀ c, (f c).score = c.score)
    (cs : List RankedChunk) (floor : Option ℚ) (rank : Option Nat) :
    gateForWarnings (cs.map f) floor rank = (gateForWarnings cs floor rank).map f := by
  unfold gateForWarnings
  split
  · rfl
  · rw [← List.map_take, List.filter_map, List.length_map]
    simp only [Function.comp_def, hs]

theorem topScore_map {f : RankedChunk → RankedChunk} (hs : ∀ c, (f c).score = c.score)
    (cs : List RankedChunk) : topScore (cs.map f) = topScore cs := by
  simp only [topScore, List.map_map, Function.comp_def, hs]

section
variable {f : RankedChunk → RankedChunk} (hf : ∀ c, ∃ h, f c = { c with headingPath := h })
include hf

theorem insertionSort_map (cs : List RankedChunk) :
    (cs.map f).insertionSort byScoreThenId = (cs.insertionSort byScoreThenId).map f := by
  symm
  refine List.map_insertionSort _ _ f cs fun a _ b _ => ?_
  obtain ⟨ha, ea⟩ := hf a
  obtain ⟨hb, eb⟩ := hf b
  rw [ea, eb]
  rfl

theorem isolatedMatchWarning_map (env : Env) (cs : List RankedChunk) (drop threshold : Option ℚ) :
    isolatedMatchWarning env (cs.map f) drop threshold =
      isolatedMatchWarning env cs drop threshold := by
  unfold isolatedMatchWarning
  rw [insertionSort_map hf]
  match cs.insertionSort byScoreThenId with
  | [] => rfl
  | [_] => rfl
  | a :: b :: t =>
    obtain ⟨ha, ea⟩ := hf a
    obtain ⟨hb, eb⟩ := hf b
    simp only [List.map_cons, ea, eb]

theorem staleWarnings_map (cs : List RankedChunk) (today : Date) (n : Option Days) :
    staleWarnings (cs.map f) today n = staleWarnings cs today n := by
  unfold staleWarnings
  cases n with
  | none => rfl
  | some n =>
    refine congrArg _ (funext fun threshold => congrArg pure ?_)
    refine onePerDocument_map (fun c => ?_) (fun c => ?_) [] cs
    · obtain ⟨h, e⟩ := hf c
      rw [e]
      rfl
    · obtain ⟨h, e⟩ := hf c
      rw [e]

theorem deprecatedWarnings_map (cs : List RankedChunk) :
    deprecatedWarnings (cs.map f) = deprecatedWarnings cs := by
  refine onePerDocument_map (fun c => ?_) (fun c => ?_) [] cs
  · obtain ⟨h, e⟩ := hf c
    rw [e]
    rfl
  · obtain ⟨h, e⟩ := hf c
    rw [e]

theorem score_map (c : RankedChunk) : (f c).score = c.score := by
  obtain ⟨h, e⟩ := hf c
  rw [e]

theorem promptInjectionWarnings_map (cs : List RankedChunk) (floor : Option ℚ)
    (rank : Option Nat) :
    promptInjectionWarnings (cs.map f) floor rank = promptInjectionWarnings cs floor rank := by
  unfold promptInjectionWarnings
  rw [gate_map (score_map hf), List.filter_map, List.map_map]
  have hp : ∀ c, (f c).hasPromptInjection = c.hasPromptInjection := fun c => by
    obtain ⟨h, e⟩ := hf c
    rw [e]
  simp only [Function.comp_def, hp]
  refine List.map_congr_left fun c _ => ?_
  obtain ⟨h, e⟩ := hf c
  rw [e]

theorem sensitiveContentWarnings_map (cs : List RankedChunk) (floor : Option ℚ)
    (rank : Option Nat) :
    sensitiveContentWarnings (cs.map f) floor rank = sensitiveContentWarnings cs floor rank := by
  unfold sensitiveContentWarnings
  rw [gate_map (score_map hf), List.filter_map, List.map_map]
  have hp : ∀ c, (f c).hasSensitiveContent = c.hasSensitiveContent := fun c => by
    obtain ⟨h, e⟩ := hf c
    rw [e]
  simp only [Function.comp_def, hp]
  refine List.map_congr_left fun c _ => ?_
  obtain ⟨h, e⟩ := hf c
  rw [e]

/-- **Headings stay out of the collected warnings.** -/
theorem emitters_ignore_headings (env : Env) (cs : List RankedChunk) (today : Date) (g : Gates) :
    collectWarnings env (cs.map f) today g = collectWarnings env cs today g := by
  simp only [collectWarnings, staleWarnings_map hf, deprecatedWarnings_map hf,
    promptInjectionWarnings_map hf, sensitiveContentWarnings_map hf, weakEvidenceWarning,
    topScore_map (score_map hf), isolatedMatchWarning_map hf]

end

theorem collectWarnings_agree {env : Env} {k : Call} {rows rows' : List SearchRow}
    (h : Agree rows rows') (today : Date) (g : Gates) :
    collectWarnings env (k.cands env rows) today g =
      collectWarnings env (k.cands env rows') today g := by
  rw [← emitters_ignore_headings (relabel_eq []) env (k.cands env rows), cands_agree h,
    emitters_ignore_headings (relabel_eq [])]

/-! ## Assembly reads sensitive chunks only to count them -/

theorem safe_agree {env : Env} {k : Call} {rows rows' : List SearchRow} (h : Agree rows rows') :
    k.safe env rows = k.safe env rows' := by
  have hs : ∀ cs : List RankedChunk, (cs.map (relabel [])).filter (fun c => !c.hasSensitiveContent)
      = cs.filter fun c => !c.hasSensitiveContent := by
    intro cs
    rw [List.filter_map]
    simp only [Function.comp_def, relabel_sensitive]
    conv_rhs => rw [← List.map_id (List.filter _ cs)]
    refine List.map_congr_left fun c hc => ?_
    exact relabel_of_not_sensitive [] c (by simpa using (List.mem_filter.mp hc).2)
  unfold Call.safe
  rw [← hs (k.cands env rows), cands_agree h, hs]

theorem mapM_congr {α β : Type} {f g : α → Py β} : ∀ {as : List α}, (∀ a ∈ as, f a = g a) →
    Py.mapM f as = Py.mapM g as
  | [], _ => rfl
  | a :: as, h => by
    simp only [Py.mapM, h a List.mem_cons_self,
      mapM_congr fun b hb => h b (List.mem_cons_of_mem _ hb)]

/-- Inputs that differ in sensitive chunks only, and in texts that are not evidence. -/
theorem assemble_congr {env : Env} {i j : SerializerInputs} {packId : Uuid}
    {maxChunks maxTokens : Nat} {threshold : Option ℚ} {embed : Bool}
    (hw : i.warnings = j.warnings) (hc : i.conflicts = j.conflicts)
    (hd : i.documentRefs = j.documentRefs) (hl : i.chunks.length = j.chunks.length)
    (hs : i.chunks.filter (fun c => !c.hasSensitiveContent) =
      j.chunks.filter fun c => !c.hasSensitiveContent)
    (ht : ∀ c ∈ i.chunks, c.hasSensitiveContent = false →
      i.chunkText c.chunkId = j.chunkText c.chunkId) :
    assembleContextPack env i packId maxChunks maxTokens threshold embed =
      assembleContextPack env j packId maxChunks maxTokens threshold embed := by
  have ht' : ∀ c ∈ i.chunks.filter (fun c => !c.hasSensitiveContent),
      i.chunkText c.chunkId = j.chunkText c.chunkId := fun c hc =>
    ht c (List.mem_of_mem_filter hc) (by simpa using (List.mem_filter.mp hc).2)
  have htrim : trimEvidenceToBudget env (i.chunks.filter fun c => !c.hasSensitiveContent)
      (fun c => (i.chunkText c.chunkId).getD []) maxChunks maxTokens =
      trimEvidenceToBudget env (j.chunks.filter fun c => !c.hasSensitiveContent)
      (fun c => (j.chunkText c.chunkId).getD []) maxChunks maxTokens := by
    rw [← hs, trimEvidenceToBudget, trimEvidenceToBudget]
    congr 1
    refine List.map_congr_left fun c hc => ?_
    rw [ht' c hc]
  unfold assembleContextPack
  dsimp only
  rw [← htrim]
  refine Py.bind_congr fun out hk => ?_
  have hm : Py.mapM (toEvidenceChunk env i.chunkText j.documentRefs) out.1 =
      Py.mapM (toEvidenceChunk env j.chunkText j.documentRefs) out.1 := by
    refine mapM_congr fun c hc => ?_
    simp only [toEvidenceChunk, ht' c ((trim_initial hk).subset hc)]
  simp only [hm, hw, hc, hd, hl, hs]

theorem documentRefs_agree {rows rows' : List SearchRow} (h : Agree rows rows') :
    documentRefsFromRows rows = documentRefsFromRows rows' := by
  have hw : ∀ rs : List SearchRow, (rs.map withhold).map
      (fun r => (r.documentId, rowToDocumentRef r)) =
      rs.map fun r => (r.documentId, rowToDocumentRef r) := by
    intro rs
    rw [List.map_map]
    refine List.map_congr_left fun r _ => ?_
    cases hs : r.hasSensitiveContent <;> simp [withhold, rowToDocumentRef, hs]
  unfold documentRefsFromRows
  rw [← hw rows, show rows.map withhold = rows'.map withhold from h, hw]

theorem ids_agree {rows rows' : List SearchRow} (h : Agree rows rows') :
    rows.map (·.chunkId) = rows'.map (·.chunkId) := by
  have hw : ∀ rs : List SearchRow, (rs.map withhold).map (·.chunkId) = rs.map (·.chunkId) := by
    intro rs
    rw [List.map_map]
    refine List.map_congr_left fun r _ => ?_
    cases hs : r.hasSensitiveContent <;> simp [withhold, hs]
  rw [← hw rows, show rows.map withhold = rows'.map withhold from h, hw]

/-- The text of a candidate is the content of its row. -/
theorem chunkText_of_mem {rows : List SearchRow} (hn : (rows.map (·.chunkId)).Nodup)
    {trimmed : List RankedChunk} {r : SearchRow} (hr : r ∈ rows)
    (ht : r.chunkId ∈ trimmed.map (·.chunkId)) :
    chunkText rows trimmed r.chunkId = some r.content := by
  refine lookupLast_of_mem ?_ (List.mem_map.mpr ⟨r, List.mem_filter.mpr ⟨hr, by simpa using ht⟩, rfl⟩)
  rw [List.map_map]
  exact hn.sublist (List.filter_sublist.map _)

theorem candIds_agree (env : Env) (k : Call) {rows rows' : List SearchRow} (h : Agree rows rows') :
    (k.cands env rows).map (·.chunkId) = (k.cands env rows').map (·.chunkId) := by
  have hr : ∀ cs : List RankedChunk, (cs.map (relabel [])).map (·.chunkId) =
      cs.map (·.chunkId) := by
    intro cs
    rw [List.map_map]
    refine List.map_congr_left fun c _ => ?_
    obtain ⟨p, e⟩ := relabel_eq [] c
    simp only [Function.comp, e]
  rw [← hr (k.cands env rows), cands_agree h, hr]

theorem chunkText_agree {env : Env} {k : Call} {rows rows' : List SearchRow}
    (hn : (rows.map (·.chunkId)).Nodup) (h : Agree rows rows') {c : RankedChunk}
    (hc : c ∈ k.cands env rows) (hs : c.hasSensitiveContent = false) :
    chunkText rows (k.cands env rows) c.chunkId = chunkText rows' (k.cands env rows') c.chunkId := by
  have hid : c.chunkId ∈ (k.cands env rows).map (·.chunkId) := List.mem_map_of_mem hc
  obtain ⟨r, hr, rfl⟩ := mem_candidates hc
  change chunkText rows _ r.chunkId = chunkText rows' _ r.chunkId
  rw [chunkText_of_mem hn hr hid, chunkText_of_mem (ids_agree h ▸ hn) (agree_mem h hr hs)
    (candIds_agree env k h ▸ hid)]

/-- With equal conflicts, agreeing rows give one and the same result. -/
theorem packFromRows_agree {env : Env} {k : Call} {rows rows' : List SearchRow}
    (hn : (rows.map (·.chunkId)).Nodup) (h : Agree rows rows')
    (hc : k.conflicts env rows = k.conflicts env rows') (removed : List Str) :
    packFromRows env k rows removed = packFromRows env k rows' removed := by
  unfold packFromRows
  dsimp only
  rw [collectWarnings_agree h, hc]
  refine Py.bind_congr fun ws _ => Py.bind_congr fun cws _ => ?_
  refine assemble_congr rfl rfl (documentRefs_agree h) ?_ (safe_agree h) ?_
  · simpa using congrArg List.length (candIds_agree env k h)
  · exact fun c hc hs => chunkText_agree hn h hc hs

/-! ## Shadowed sensitive chunks -/

/-- A chunk that takes part in conflict detection once it has a heading. -/
def Live (c : RankedChunk) : Prop := c.status ∉ deadStatuses

/-- The live sensitive chunks of the gate belong to one document, and under every heading
of another chunk that document also has a chunk that is not sensitive. -/
structure Shadowed (g : List RankedChunk) : Prop where
  one : ∀ s ∈ g, Live s → s.hasSensitiveContent = true →
    ∀ t ∈ g, Live t → t.hasSensitiveContent = true → s.documentId = t.documentId
  covered : ∀ s ∈ g, Live s → s.hasSensitiveContent = true →
    ∀ t ∈ g, Live t → t.hasSensitiveContent = false → t.headingPath ≠ [] →
      ∃ o ∈ g, Live o ∧ o.hasSensitiveContent = false ∧ o.headingPath = t.headingPath ∧
        o.documentId = s.documentId

/-- The documents under `q` once the sensitive chunks carry the heading `p`. -/
theorem mem_docsUnder_relabel {g : List RankedChunk} {p q : List Str} {d : Uuid} :
    d ∈ docsUnder (g.map (relabel p)) q ↔ q ≠ [] ∧
      ((∃ c ∈ g, Live c ∧ c.hasSensitiveContent = false ∧ c.headingPath = q ∧ c.documentId = d) ∨
        (p = q ∧ ∃ c ∈ g, Live c ∧ c.hasSensitiveContent = true ∧ c.documentId = d)) := by
  rw [mem_docsUnder]
  simp only [List.mem_map, exists_exists_and_eq_and, relabel_status, relabel_headingPath,
    relabel_documentId, Live]
  refine and_congr_right fun hq => ?_
  constructor
  · rintro ⟨c, hc, hl, hh, hd⟩
    cases hs : c.hasSensitiveContent with
    | false => exact .inl ⟨c, hc, hl, hs, by simpa [hs] using hh, hd⟩
    | true => exact .inr ⟨by simpa [hs] using hh, c, hc, hl, hs, hd⟩
  · rintro (⟨c, hc, hl, hs, hh, hd⟩ | ⟨hp, c, hc, hl, hs, hd⟩)
    · exact ⟨c, hc, hl, by simpa [hs] using hh, hd⟩
    · exact ⟨c, hc, hl, by simpa [hs] using hp, hd⟩

/-- Under a contested path, shadowed chunks add no document. -/
theorem docsUnder_shadowed {g : List RankedChunk} (hg : Shadowed g) {q : List Str}
    (hq : Contested g q) : docsUnder g q = docsUnder (g.map (relabel [])) q := by
  refine docsUnder_congr fun d => ?_
  rw [mem_docsUnder_relabel, mem_docsUnder]
  refine and_congr_right fun hne => ?_
  constructor
  · rintro ⟨c, hc, hl, hh, rfl⟩
    cases hs : c.hasSensitiveContent with
    | false => exact .inl ⟨c, hc, hl, hs, hh, rfl⟩
    | true =>
      -- another document answers under `q`, with a chunk that cannot be sensitive
      obtain ⟨t, ht, htl, hth, htd⟩ : ∃ t ∈ g, Live t ∧ t.headingPath = q ∧
          t.documentId ≠ c.documentId := by
        obtain ⟨a, ha, b, hb, hab⟩ := contested_iff.mp hq
        obtain ⟨-, ca, hca, hla, hha, rfl⟩ := mem_docsUnder.mp ha
        obtain ⟨-, cb, hcb, hlb, hhb, rfl⟩ := mem_docsUnder.mp hb
        by_cases h : ca.documentId = c.documentId
        · exact ⟨cb, hcb, hlb, hhb, fun e => hab (h.trans e.symm)⟩
        · exact ⟨ca, hca, hla, hha, h⟩
      have hts : t.hasSensitiveContent = false := Bool.eq_false_iff.mpr fun e =>
        htd (hg.one c hc hl hs t ht htl e).symm
      obtain ⟨o, ho, hol, hos, hoh, hod⟩ :=
        hg.covered c hc hl hs t ht htl hts (hth ▸ hne)
      exact .inl ⟨o, ho, hol, hos, hoh.trans hth, hod⟩
  · rintro (⟨c, hc, hl, -, hh, hd⟩ | ⟨h, -⟩)
    · exact ⟨c, hc, hl, hh, hd⟩
    · exact absurd h.symm hne

theorem conflictsOf_shadowed {g : List RankedChunk} (hg : Shadowed g) :
    conflictsOf g = conflictsOf (g.map (relabel [])) := by
  refine conflictsOf_congr (fun q => ⟨fun h => ?_, fun h => ?_⟩) fun q => docsUnder_shadowed hg
  · unfold Contested
    rw [← docsUnder_shadowed hg h]
    exact h
  · obtain ⟨a, ha, b, hb, hab⟩ := contested_iff.mp h
    have hsub : ∀ {d}, d ∈ docsUnder (g.map (relabel [])) q → d ∈ docsUnder g q := by
      intro d hd
      obtain ⟨hne, ⟨c, hc, hl, -, hh, hd⟩ | ⟨he, -⟩⟩ := mem_docsUnder_relabel.mp hd
      · exact mem_docsUnder.mpr ⟨hne, c, hc, hl, hh, hd⟩
      · exact absurd he.symm hne
    exact contested_iff.mpr ⟨a, hsub ha, b, hsub hb, hab⟩

theorem shadowed_relabel {g : List RankedChunk} :
    Shadowed (g.map (relabel [])) ↔ Shadowed g := by
  have hfix : ∀ {c : RankedChunk}, c.hasSensitiveContent = false → relabel [] c = c :=
    fun h => relabel_of_not_sensitive [] _ h
  constructor
  · intro h
    refine ⟨?_, ?_⟩
    · intro s hs hl hf t ht htl htf
      simpa using h.one _ (List.mem_map_of_mem hs) (by simpa [Live] using hl) (by simpa using hf)
        _ (List.mem_map_of_mem ht) (by simpa [Live] using htl) (by simpa using htf)
    · intro s hs hl hf t ht htl htf hth
      obtain ⟨o, ho, hol, hof, hoh, hod⟩ := h.covered _ (List.mem_map_of_mem hs)
        (by simpa [Live] using hl) (by simpa using hf) _ (List.mem_map_of_mem ht)
        (by simpa [Live] using htl) (by simpa using htf) (by rwa [hfix htf])
      obtain ⟨o', ho', rfl⟩ := List.mem_map.mp ho
      rw [relabel_sensitive] at hof
      rw [hfix hof] at hoh hol hod
      exact ⟨o', ho', hol, hof, by rw [hoh, hfix htf], by simpa using hod⟩
  · intro h
    refine ⟨?_, ?_⟩
    · intro s hs hl hf t ht htl htf
      obtain ⟨s, hs', rfl⟩ := List.mem_map.mp hs
      obtain ⟨t, ht', rfl⟩ := List.mem_map.mp ht
      simpa using h.one s hs' (by simpa [Live] using hl) (by simpa using hf) t ht'
        (by simpa [Live] using htl) (by simpa using htf)
    · intro s hs hl hf t ht htl htf hth
      obtain ⟨s, hs', rfl⟩ := List.mem_map.mp hs
      obtain ⟨t, ht', rfl⟩ := List.mem_map.mp ht
      rw [relabel_sensitive] at htf
      rw [hfix htf] at hth htl ⊢
      obtain ⟨o, ho, hol, hof, hoh, hod⟩ := h.covered s hs' (by simpa [Live] using hl)
        (by simpa using hf) t ht' htl htf hth
      exact ⟨o, List.mem_map.mpr ⟨o, ho, hfix hof⟩, hol, hof, hoh, by simpa using hod⟩

/-- Two labels that name the sensitive chunks differently in the conflicts, when they are
not shadowed. -/
theorem exists_label_of_not_shadowed {g : List RankedChunk} (hg : ¬ Shadowed g) :
    ∃ p, conflictsOf (g.map (relabel p)) ≠ conflictsOf (g.map (relabel [])) := by
  -- a path under which the document of a sensitive chunk would newly be contested
  obtain ⟨p, hp, s, hs, hl, hf, hno, t, ht, htl, htp, hne⟩ : ∃ p : List Str, p ≠ [] ∧
      ∃ s ∈ g, Live s ∧ s.hasSensitiveContent = true ∧
      (¬ ∃ o ∈ g, Live o ∧ o.hasSensitiveContent = false ∧ o.headingPath = p ∧
        o.documentId = s.documentId) ∧
      ∃ t ∈ g, Live t ∧ (t.hasSensitiveContent = true ∨ t.headingPath = p) ∧
        t.documentId ≠ s.documentId := by
    by_cases hone : ∀ s ∈ g, Live s → s.hasSensitiveContent = true →
        ∀ t ∈ g, Live t → t.hasSensitiveContent = true → s.documentId = t.documentId
    · have hcov : ¬ ∀ s ∈ g, Live s → s.hasSensitiveContent = true →
          ∀ t ∈ g, Live t → t.hasSensitiveContent = false → t.headingPath ≠ [] →
          ∃ o ∈ g, Live o ∧ o.hasSensitiveContent = false ∧ o.headingPath = t.headingPath ∧
            o.documentId = s.documentId := fun h => hg ⟨hone, h⟩
      push Not at hcov
      obtain ⟨s, hs, hl, hf, t, ht, htl, htf, hth, hno⟩ := hcov
      refine ⟨t.headingPath, hth, s, hs, hl, hf, ?_, t, ht, htl, .inr rfl, ?_⟩
      · rintro ⟨o, ho, hol, hof, hoh, hod⟩
        exact hno o ho hol hof hoh hod
      · exact fun e => hno t ht htl htf rfl e
    · push Not at hone
      obtain ⟨s, hs, hl, hf, t, ht, htl, htf, hne⟩ := hone
      -- a path longer than every heading of the gate
      refine ⟨[] :: (g.map (·.headingPath)).flatten, by simp, s, hs, hl, hf, ?_, t, ht, htl,
        .inl htf, hne.symm⟩
      rintro ⟨o, ho, -, -, hoh, -⟩
      have hlen := (List.sublist_flatten_of_mem
        (List.mem_map.mpr ⟨o, ho, rfl⟩ : o.headingPath ∈ g.map (·.headingPath))).length_le
      rw [hoh, List.length_cons] at hlen
      omega
  refine ⟨p, fun he => ?_⟩
  have hsp : s.documentId ∈ docsUnder (g.map (relabel p)) p :=
    mem_docsUnder_relabel.mpr ⟨hp, .inr ⟨rfl, s, hs, hl, hf, rfl⟩⟩
  have htp : t.documentId ∈ docsUnder (g.map (relabel p)) p := by
    cases htf : t.hasSensitiveContent with
    | true => exact mem_docsUnder_relabel.mpr ⟨hp, .inr ⟨rfl, t, ht, htl, htf, rfl⟩⟩
    | false =>
      exact mem_docsUnder_relabel.mpr ⟨hp, .inl ⟨t, ht, htl, htf, by simpa [htf] using htp, rfl⟩⟩
  have hfresh : s.documentId ∉ docsUnder (g.map (relabel [])) p := fun h => by
    obtain ⟨-, h | ⟨h, -⟩⟩ := mem_docsUnder_relabel.mp h
    · exact hno h
    · exact hp h.symm
  have hother : ∀ q, q ≠ p → docsUnder (g.map (relabel [])) q = docsUnder (g.map (relabel p)) q :=
    fun q hq => docsUnder_congr fun d => by
      rw [mem_docsUnder_relabel, mem_docsUnder_relabel]
      refine and_congr_right fun hqn => ?_
      simp [Ne.symm hq, Ne.symm hqn]
  have hcount := countDoc_succ (contested_iff.mpr ⟨_, hsp, _, htp, hne.symm⟩) hsp hfresh hother
  rw [he] at hcount
  omega

/-! ## Non-interference -/

/-- The call `k` with a fetch that returns `rows`. -/
def withRows (k : Call) (rows : List SearchRow) : Call :=
  { k with sur := { k.sur with fetch := fun _ _ => .ok rows } }

theorem conflicts_relabelRow {env : Env} {k : Call} (path : List Str) (rows : List SearchRow) :
    k.conflicts env (rows.map (relabelRow path)) =
      conflictsOf ((k.gated env rows).map (relabel path)) := by
  rw [Call.conflicts, detectConflicts_eq, cands_relabelRow, gate_map (relabel_score path)]
  rfl

theorem gated_agree {env : Env} {k : Call} {rows rows' : List SearchRow} (h : Agree rows rows') :
    (k.gated env rows).map (relabel []) = (k.gated env rows').map (relabel []) := by
  rw [Call.gated, Call.gated, ← gate_map (relabel_score []), cands_agree h,
    gate_map (relabel_score [])]

theorem conflicts_agree {env : Env} {k : Call} {rows rows' : List SearchRow}
    (h : Agree rows rows') (hg : Shadowed (k.gated env rows)) :
    k.conflicts env rows = k.conflicts env rows' := by
  have hg' : Shadowed (k.gated env rows') := by
    rw [← shadowed_relabel, ← gated_agree h, shadowed_relabel]
    exact hg
  calc k.conflicts env rows = conflictsOf ((k.gated env rows).map (relabel [])) :=
        conflictsOf_shadowed hg
    _ = conflictsOf ((k.gated env rows').map (relabel [])) := by rw [gated_agree h]
    _ = k.conflicts env rows' := (conflictsOf_shadowed hg').symm

/-- Once one row list gives a pack, every row list reaches the passes behind the fetch. -/
theorem build_withRows {env : Env} {k : Call} {rows : List SearchRow} {pack : ContextPackResponse}
    (hb : buildContextPack env (withRows k rows) = .ok pack) :
    ∃ removed, ∀ rows',
      buildContextPack env (withRows k rows') = packFromRows env k rows' removed := by
  unfold buildContextPack at hb
  obtain ⟨u, hq, hb⟩ := Py.bind_ok.mp hb
  obtain ⟨v, ht, hb⟩ := Py.bind_ok.mp hb
  obtain ⟨⟨rows₀, removed⟩, hr, -⟩ := Py.bind_ok.mp hb
  obtain ⟨⟨effective, removed'⟩, he, hr⟩ := Py.bind_ok.mp hr
  cases hr
  refine ⟨removed, fun rows' => ?_⟩
  have hr' : retrieve env k.phrases (withRows k rows').sur k.query k.filters =
      .ok (rows', removed) := by
    unfold retrieve
    rw [show effectiveQuery env k.phrases k.query = _ from he]
    rfl
  unfold buildContextPack
  rw [show requireNonempty (withRows k rows').query = _ from hq,
    show requireTask (withRows k rows').task = _ from ht]
  change (retrieve env k.phrases (withRows k rows').sur k.query k.filters >>= fun p =>
    packFromRows env k p.1 p.2) = _
  rw [hr']
  rfl

/-- **Non-interference.** For rows with distinct chunk ids that give the pack `pack`: every
agreeing row list gives this very pack exactly when the sensitive chunks inside the warning
gate are shadowed. -/
theorem noninterference_iff (env : Env) (k : Call) (rows : List SearchRow)
    (pack : ContextPackResponse) (hn : (rows.map (·.chunkId)).Nodup)
    (hb : buildContextPack env (withRows k rows) = .ok pack) :
    (∀ rows', Agree rows rows' → buildContextPack env (withRows k rows') = .ok pack) ↔
      Shadowed (k.gated env rows) := by
  obtain ⟨removed, hbuild⟩ := build_withRows hb
  constructor
  · intro h
    by_contra hg
    obtain ⟨p, hp⟩ := exists_label_of_not_shadowed hg
    have hconf : ∀ path, pack.conflicts = conflictsOf ((k.gated env rows).map (relabel path)) := by
      intro path
      have hpack := h _ (agree_relabelRow path rows)
      rw [hbuild] at hpack
      obtain ⟨kept, cited, b⟩ := packFromRows_ok hpack
      rw [b.conflicts, conflicts_relabelRow]
    exact hp ((hconf p).symm.trans (hconf []))
  · intro hg rows' ha
    rw [hbuild, ← packFromRows_agree hn ha (conflicts_agree ha hg), ← hbuild]
    exact hb

/-! ## A withheld heading on the wire -/

/-- Two sensitive hits of different documents under the given heading. -/
def secretHeading (heading : List Str) : List SearchRow :=
  [{ sampleRow 1 1 1 "key" heading with hasSensitiveContent := true },
    { sampleRow 2 2 (9 / 10) "key" heading with hasSensitiveContent := true },
    sampleRow 3 3 (8 / 10) "b" []]

/-- The heading of the withheld chunks is the topic of a conflict; without it there is no
conflict. -/
theorem heading_leaks :
    Agree (secretHeading []) (secretHeading ["password hunter2".toList]) ∧
    (∃ pack, buildContextPack asciiEnv (withRows (sampleCall []) (secretHeading [])) = .ok pack ∧
      pack.conflicts = []) ∧
    ∃ pack, buildContextPack asciiEnv
        (withRows (sampleCall []) (secretHeading ["password hunter2".toList])) = .ok pack ∧
      pack.conflicts.map (·.topic) = ["password hunter2".toList] := by
  refine ⟨?_, ?_, ?_⟩
  · unfold Agree
    decide +kernel
  · exact Py.exists_of_map_eq
      (x := buildContextPack asciiEnv (withRows (sampleCall []) (secretHeading [])))
      (f := fun p : ContextPackResponse => p.conflicts) (b := []) (by decide +kernel)
  · exact Py.exists_of_map_eq
      (x := buildContextPack asciiEnv
        (withRows (sampleCall []) (secretHeading ["password hunter2".toList])))
      (f := fun p : ContextPackResponse => p.conflicts.map (·.topic))
      (b := ["password hunter2".toList]) (by decide +kernel)

theorem noninterference_secretHeading : ∃ pack,
    buildContextPack asciiEnv (withRows (sampleCall []) (secretHeading [])) = .ok pack ∧
    ((∀ rows', Agree (secretHeading []) rows' →
        buildContextPack asciiEnv (withRows (sampleCall []) rows') = .ok pack) ↔
      Shadowed ((sampleCall []).gated asciiEnv (secretHeading []))) := by
  obtain ⟨pack, hb⟩ := Py.exists_of_isOk
    (x := buildContextPack asciiEnv (withRows (sampleCall []) (secretHeading [])))
    (by decide +kernel)
  exact ⟨pack, hb, noninterference_iff asciiEnv (sampleCall []) (secretHeading []) pack
    (by decide +kernel) hb⟩

end KnowledgeKiln.L3.NonInterference
