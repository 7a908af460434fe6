import KnowledgeKiln.L1Ingest.HeadingPath
import KnowledgeKiln.L2Retrieval.Conflicts
import KnowledgeKiln.L3Agent.Exclusion
import KnowledgeKiln.L3Agent.PackTokens

/-!
# When a context pack is built

Every stage of `build_context_pack` that can raise, and when it does.

* `assemble_returns_iff`: the assembly raises where a text or a URL of the rows is refused.
* `build_returns_iff`: so does the whole call, where it was given a query; and where two live
  documents answer under the path `[""]`, whose conflict is no valid warning.
* `blank_topic_of_ingested`: which documents those are.
* `headings_refused`: two ingested pages under a heading of blanks, and one under a special token.
-/
namespace KnowledgeKiln.L3.PackTotal

open KnowledgeKiln.Core KnowledgeKiln.L2 KnowledgeKiln.L2.Engine KnowledgeKiln.L2.Conflicts
  KnowledgeKiln.L2.Hybrid KnowledgeKiln.L3.Serializers KnowledgeKiln.L3.ContextPack
  KnowledgeKiln.L3.EvidenceSlots KnowledgeKiln.L3.PackBudget KnowledgeKiln.L3.PackTokens
  KnowledgeKiln.L3.Exclusion KnowledgeKiln.L1.FileProcessing

variable {env : Env}

/-! ## The evidence -/

theorem validateUrl_returns_iff {url : Option Str} :
    (∃ v, validateUrl env url = .ok v) ↔ ∀ u ∈ url, ∃ v, env.anyUrl u = .ok v := by
  cases url with
  | none => exact ⟨fun _ _ hu => (by cases hu), fun _ => ⟨none, rfl⟩⟩
  | some u =>
    constructor
    · rintro ⟨v, h⟩ _ ⟨⟩
      obtain ⟨v', hv, -⟩ := Py.bind_ok.mp h
      exact ⟨v', hv⟩
    · intro h
      obtain ⟨v, hv⟩ := h u rfl
      exact ⟨some v, Py.bind_ok.mpr ⟨v, hv, rfl⟩⟩

/-- A chunk without a reference has no URL to refuse. -/
theorem toEvidenceChunk_returns_iff {text : Uuid → Option Str} {refs : Uuid → Option DocumentRef}
    {c : RankedChunk} : (∃ e, toEvidenceChunk env text refs c = .ok e) ↔
      ∀ ref ∈ refs c.documentId, ∀ u ∈ ref.sourceUrl, ∃ v, env.anyUrl u = .ok v := by
  have hurl : (∃ e, toEvidenceChunk env text refs c = .ok e) ↔
      ∃ v, validateUrl env ((refs c.documentId).getD
        { documentId := c.documentId, title := "(unknown)" }).sourceUrl = .ok v := by
    constructor
    · rintro ⟨e, h⟩
      obtain ⟨v, hv, -⟩ := Py.bind_ok.mp h
      exact ⟨v, hv⟩
    · rintro ⟨v, hv⟩
      exact ⟨_, Py.bind_ok.mpr ⟨v, hv, rfl⟩⟩
  rw [hurl, validateUrl_returns_iff]
  cases refs c.documentId with
  | none => simp
  | some ref => simp

/-! ## The assembly -/

section
variable {k : Call} {rows : List SearchRow} {removed : List Str}

/-- What the assembly is given. -/
def Call.inputs (k : Call) (env : Env) (rows : List SearchRow) (ws : List Warning) :
    SerializerInputs where
  chunks := k.cands env rows
  warnings := ws
  conflicts := k.conflicts env rows
  chunkText := chunkText rows (k.cands env rows)
  documentRefs := documentRefsFromRows rows

/-- No special token stands in a content the trim reads (that of the candidate behind some that
fit), in the citation of a candidate that fits, in a contested heading or in one of the first three
phrases removed from the query; and `AnyUrl` accepts the URLs of the candidates that fit. -/
structure Served (env : Env) (specials : List Str) (k : Call) (rows : List SearchRow)
    (removed : List Str) : Prop where
  texts : ∀ p c, p ++ [c] <+: k.safe env rows → p.length < k.maxChunks →
    Fits env (textOf rows) k.maxChunks k.maxTokens p → Plain specials (textOf rows c)
  urls : ∀ p c, p ++ [c] <+: k.safe env rows →
    Fits env (textOf rows) k.maxChunks k.maxTokens (p ++ [c]) →
      ∀ ref ∈ documentRefsFromRows rows c.documentId, ∀ u ∈ ref.sourceUrl,
        ∃ v, env.anyUrl u = .ok v
  citations : ∀ p c, p ++ [c] <+: k.safe env rows →
    Fits env (textOf rows) k.maxChunks k.maxTokens (p ++ [c]) →
      ∀ s ∈ citation env (documentRefsFromRows rows) c, Plain specials s
  headings : ∀ path, Contested (k.gated env rows) path → ∀ heading ∈ path, Plain specials heading
  phrases : ∀ phrase ∈ removed.take 3, Plain specials phrase

theorem contents_eq {ws : List Warning} {p : List RankedChunk} (hp : p <+: k.safe env rows)
    {c : RankedChunk} (hc : c ∈ p) : contents (Call.inputs k env rows ws) c = textOf rows c :=
  chunkText_cands (List.mem_of_mem_filter (hp.subset hc))

theorem fits_contents_iff {ws : List Warning} {p : List RankedChunk}
    (hp : p <+: k.safe env rows) :
    Fits env (contents (Call.inputs k env rows ws)) k.maxChunks k.maxTokens p ↔
      Fits env (textOf rows) k.maxChunks k.maxTokens p :=
  Fits.congr fun _ hc => contents_eq hp hc

/-- The trim reads plain contents. -/
theorem texts_iff {specials : List Str} (T : Tokenizes env specials) {ws : List Warning} :
    (∃ kept used, trimEvidenceToBudget env (k.safe env rows) (contents (Call.inputs k env rows ws))
        k.maxChunks k.maxTokens = .ok (kept, used)) ↔
      ∀ p c, p ++ [c] <+: k.safe env rows → p.length < k.maxChunks →
        Fits env (textOf rows) k.maxChunks k.maxTokens p → Plain specials (textOf rows c) := by
  rw [trim_returns_iff]
  refine forall₃_congr fun p c hp => forall_congr' fun _ => ?_
  rw [T.count, contents_eq hp (by simp), fits_contents_iff ((List.prefix_append p [c]).trans hp)]

/-- The warnings quote contested headings and removed phrases. -/
theorem warnings_plain_iff {specials : List Str} (T : Tokenizes env specials) {ws : List Warning}
    (h : Call.warnings k env rows removed = .ok ws) :
    (∀ w ∈ ws, Plain specials w.message) ↔
      (∀ c ∈ k.conflicts env rows, Plain specials c.topic) ∧
        ∀ phrase ∈ removed.take 3, Plain specials phrase := by
  obtain ⟨ws₁, h₁, h⟩ := Py.bind_ok.mp h
  obtain ⟨ws₂, h₂, h⟩ := Py.bind_ok.mp h
  cases h
  have hcollected : ∀ w ∈ ws₁, Plain specials w.message :=
    fun w hw => T.plain_of_lt (lt_notMem_collected T h₁ w hw)
  have hconflicts : (∀ w ∈ ws₂, Plain specials w.message) ↔
      ∀ c ∈ k.conflicts env rows, Plain specials c.topic := by
    constructor
    · intro hw c hc
      obtain ⟨w, hm, he⟩ := Py.exists_of_mapM h₂ hc
      exact (conflict_plain_iff T he).mp (hw w hm)
    · intro hc w hw
      obtain ⟨c, hm, he⟩ := Py.mem_of_mapM h₂ hw
      exact (conflict_plain_iff T he).mpr (hc c hm)
  rw [List.forall_mem_append, List.forall_mem_append, normalization_plain_iff T, hconflicts,
    and_iff_right hcollected]

theorem assemble_returns_iff {specials : List Str} (T : Tokenizes env specials)
    {ws : List Warning} (hws : Call.warnings k env rows removed = .ok ws) :
    (∃ pack, assembleContextPack env (Call.inputs k env rows ws) k.packId k.maxChunks k.maxTokens
        k.gates.weakEvidenceThreshold k.embedWarningsInText = .ok pack) ↔
      Served env specials k rows removed := by
  have hquoted : ((∀ w ∈ ws, Plain specials w.message) ∧
      ∀ c ∈ k.conflicts env rows, ∀ s ∈ c.strings, Plain specials s) ↔
      (∀ path, Contested (k.gated env rows) path → ∀ heading ∈ path, Plain specials heading) ∧
        ∀ phrase ∈ removed.take 3, Plain specials phrase := by
    have hconflicts : k.conflicts env rows = conflictsOf (k.gated env rows) := rfl
    rw [warnings_plain_iff T hws, ← conflicts_plain_iff T, ← hconflicts]
    constructor
    · exact fun ⟨⟨_, hp⟩, hc⟩ => ⟨hc, hp⟩
    · exact fun ⟨hc, hp⟩ => ⟨⟨fun c hm => hc c hm c.topic List.mem_cons_self, hp⟩, hc⟩
  have hkept : ∀ {kept used}, trimEvidenceToBudget env (k.safe env rows)
      (contents (Call.inputs k env rows ws)) k.maxChunks k.maxTokens = .ok (kept, used) →
      LongestPrefix (Fits env (textOf rows) k.maxChunks k.maxTokens) (k.safe env rows) kept :=
    fun ht => (trim_longest ht).congr fun q hq => fits_contents_iff hq
  constructor
  · rintro ⟨pack, h⟩
    obtain ⟨kept, used, cited, n, ht, hc, hn, -⟩ := assemble_counted h
    obtain ⟨hcited, hrest⟩ := (pack_plain_iff T hc).mp ⟨n, hn⟩
    obtain ⟨hheadings, hphrases⟩ := hquoted.mp hrest
    refine ⟨(texts_iff T).mp ⟨kept, used, ht⟩, ?_, ?_, hheadings, hphrases⟩
    · refine ((hkept ht).forall_iff Fits.of_prefix).mp fun c hmem => ?_
      exact toEvidenceChunk_returns_iff.mp (Py.mapM_returns_iff.mp ⟨cited, hc⟩ c hmem)
    · exact ((hkept ht).forall_iff Fits.of_prefix).mp fun c hmem => (hcited c hmem).1
  · intro hserved
    obtain ⟨kept, used, ht⟩ := (texts_iff T).mpr hserved.texts
    have hl := hkept ht
    have hurls := (hl.forall_iff Fits.of_prefix).mpr hserved.urls
    have hcitations := (hl.forall_iff Fits.of_prefix).mpr hserved.citations
    have hread : ∀ c ∈ kept, Plain specials (textOf rows c) := by
      refine (hl.forall_iff Fits.of_prefix).mpr fun p c hp hfit => ?_
      refine hserved.texts p c hp ?_ (hfit.of_prefix (List.prefix_append p [c]))
      have hlen := hfit.1
      rw [List.length_append, List.length_singleton] at hlen
      omega
    have htexts : ∀ c ∈ kept, Plain specials (contents (Call.inputs k env rows ws) c) := by
      intro c hmem
      rw [contents_eq hl.initial hmem]
      exact hread c hmem
    obtain ⟨cited, hc⟩ : ∃ cited, Py.mapM (toEvidenceChunk env
        (Call.inputs k env rows ws).chunkText (Call.inputs k env rows ws).documentRefs) kept =
          .ok cited :=
      Py.mapM_returns_iff.mpr fun c hmem => toEvidenceChunk_returns_iff.mpr (hurls c hmem)
    obtain ⟨n, hn⟩ := (pack_plain_iff T hc).mpr
      ⟨fun c hmem => ⟨hcitations c hmem, htexts c hmem⟩,
        hquoted.mpr ⟨hserved.headings, hserved.phrases⟩⟩
    exact ⟨_, Py.bind_ok.mpr ⟨_, ht, Py.bind_ok.mpr ⟨_, hc, Py.bind_ok.mpr ⟨n, hn, rfl⟩⟩⟩⟩

/-! ## The whole call -/

/-- Every conflict is a valid warning unless two documents answer under the path `[""]`. -/
theorem conflicts_valid_iff :
    (∀ c ∈ k.conflicts env rows, ∃ w, conflictWarning env c = .ok w) ↔
      ¬ Contested (k.gated env rows) [[]] := by
  have hconflicts : k.conflicts env rows = conflictsOf (k.gated env rows) := rfl
  simp only [conflictWarning_returns_iff, hconflicts]
  rw [← blank_topic_iff, not_exists]
  exact forall_congr' fun c => not_and.symm

theorem warnings_return_iff : (∃ ws, Call.warnings k env rows removed = .ok ws) ↔
    (∀ d ∈ k.config.staleAfterDays, ∃ t, k.sur.warnDay.subDays d = .ok t) ∧
      ¬ Contested (k.gated env rows) [[]] := by
  have hcollect : (∃ ws, collectWarnings env (k.cands env rows) k.sur.warnDay k.gates = .ok ws) ↔
      ∀ d ∈ k.config.staleAfterDays, ∃ t, k.sur.warnDay.subDays d = .ok t :=
    collectWarnings_returns_iff
  have hconflicts : (∃ ws, conflictWarnings env (k.conflicts env rows) = .ok ws) ↔
      ¬ Contested (k.gated env rows) [[]] := Py.mapM_returns_iff.trans conflicts_valid_iff
  rw [← hcollect, ← hconflicts]
  constructor
  · rintro ⟨ws, h⟩
    obtain ⟨ws₁, h₁, h⟩ := Py.bind_ok.mp h
    obtain ⟨ws₂, h₂, -⟩ := Py.bind_ok.mp h
    exact ⟨⟨ws₁, h₁⟩, ws₂, h₂⟩
  · rintro ⟨⟨ws₁, h₁⟩, ws₂, h₂⟩
    exact ⟨_, Py.bind_ok.mpr ⟨ws₁, h₁, Py.bind_ok.mpr ⟨ws₂, h₂, rfl⟩⟩⟩

/-- Everything behind the fetch: the warnings, then the assembly. -/
theorem packFromRows_iff {pack : ContextPackResponse} :
    packFromRows env k rows removed = .ok pack ↔
      ∃ ws, Call.warnings k env rows removed = .ok ws ∧
        assembleContextPack env (Call.inputs k env rows ws) k.packId k.maxChunks k.maxTokens
          k.gates.weakEvidenceThreshold k.embedWarningsInText = .ok pack := by
  constructor
  · intro h
    obtain ⟨ws₁, h₁, h⟩ := Py.bind_ok.mp h
    obtain ⟨ws₂, h₂, h⟩ := Py.bind_ok.mp h
    exact ⟨_, Py.bind_ok.mpr ⟨ws₁, h₁, Py.bind_ok.mpr ⟨ws₂, h₂, rfl⟩⟩, h⟩
  · rintro ⟨ws, hws, h⟩
    obtain ⟨ws₁, h₁, hws⟩ := Py.bind_ok.mp hws
    obtain ⟨ws₂, h₂, hws⟩ := Py.bind_ok.mp hws
    cases hws
    exact Py.bind_ok.mpr ⟨ws₁, h₁, Py.bind_ok.mpr ⟨ws₂, h₂, h⟩⟩

theorem packFromRows_returns_iff {specials : List Str} (T : Tokenizes env specials) :
    (∃ pack, packFromRows env k rows removed = .ok pack) ↔
      ((∀ d ∈ k.config.staleAfterDays, ∃ t, k.sur.warnDay.subDays d = .ok t) ∧
        ¬ Contested (k.gated env rows) [[]]) ∧ Served env specials k rows removed := by
  have hws : (∃ ws, Call.warnings k env rows removed = .ok ws) ↔ _ := warnings_return_iff
  rw [← hws]
  simp only [packFromRows_iff]
  constructor
  · rintro ⟨pack, ws, hws, h⟩
    exact ⟨⟨ws, hws⟩, (assemble_returns_iff T hws).mp ⟨pack, h⟩⟩
  · rintro ⟨⟨ws, hws⟩, hserved⟩
    obtain ⟨pack, h⟩ := (assemble_returns_iff T hws).mpr hserved
    exact ⟨pack, ws, hws, h⟩

/-- The request is not refused for what it asks; `removed` are the markers stripped from it. -/
structure Asked (env : Env) (k : Call) (removed : List Str) : Prop where
  query : strip k.query ≠ []
  task : strip k.task ≠ []
  effective : ∃ q, effectiveQuery env k.phrases k.query = .ok (q, removed)
  window : ∀ d ∈ k.config.staleAfterDays, ∃ t, k.sur.warnDay.subDays d = .ok t

/-- `not s or not s.strip()` -/
theorem blank_iff {s : Str} : (s = [] ∨ strip s = []) ↔ strip s = [] := by
  refine or_iff_right_of_imp ?_
  rintro rfl
  exact strip_nil

theorem requireNonempty_ok {query : Str} : requireNonempty query = .ok () ↔ strip query ≠ [] := by
  rw [ne_eq, ← blank_iff]
  unfold requireNonempty
  split <;> rename_i h <;> simp [h]

theorem requireTask_ok {task : Str} : requireTask task = .ok () ↔ strip task ≠ [] := by
  rw [ne_eq, ← blank_iff]
  unfold requireTask
  split <;> rename_i h <;> simp [h]

theorem build_iff {pack : ContextPackResponse} : buildContextPack env (k.onRows rows) = .ok pack ↔
    strip k.query ≠ [] ∧ strip k.task ≠ [] ∧ ∃ q removed,
      effectiveQuery env k.phrases k.query = .ok (q, removed) ∧
        packFromRows env k rows removed = .ok pack := by
  rw [← requireNonempty_ok, ← requireTask_ok]
  constructor
  · intro h
    obtain ⟨_, hq, h⟩ := Py.bind_ok.mp h
    obtain ⟨_, ht, h⟩ := Py.bind_ok.mp h
    obtain ⟨⟨rows', removed⟩, hr, h⟩ := Py.bind_ok.mp h
    obtain ⟨⟨q, removed'⟩, he, hr⟩ := Py.bind_ok.mp hr
    cases hr
    exact ⟨hq, ht, q, removed, he, h⟩
  · rintro ⟨hq, ht, q, removed, he, h⟩
    have hr : retrieve env k.phrases (k.onRows rows).sur k.query k.filters = .ok (rows, removed) :=
      Py.bind_ok.mpr ⟨_, he, rfl⟩
    exact Py.bind_ok.mpr ⟨_, hq, Py.bind_ok.mpr ⟨_, ht, Py.bind_ok.mpr ⟨_, hr, h⟩⟩⟩

/-- **Totality.** A request is answered exactly when it is not refused for what it asks, no two live
documents near the top answer under the path `[""]`, no special token stands in what is read and
cited, and the URLs are accepted. That path alone decides whether every conflict is a valid
warning. -/
theorem build_returns_iff (env : Env) (specials : List Str) (T : Tokenizes env specials)
    (k : Call) (rows : List SearchRow) :
    ((∃ pack, buildContextPack env (k.onRows rows) = .ok pack) ↔ ∃ removed,
      Asked env k removed ∧ ¬ Contested (k.gated env rows) [[]] ∧
        Served env specials k rows removed) ∧
    ((∀ c ∈ k.conflicts env rows, ∃ w, conflictWarning env c = .ok w) ↔
      ¬ Contested (k.gated env rows) [[]]) := by
  refine ⟨?_, conflicts_valid_iff⟩
  simp only [build_iff]
  constructor
  · rintro ⟨pack, hq, ht, q, removed, he, h⟩
    obtain ⟨⟨hw, hc⟩, hs⟩ := (packFromRows_returns_iff T).mp ⟨pack, h⟩
    exact ⟨removed, ⟨hq, ht, ⟨q, he⟩, hw⟩, hc, hs⟩
  · rintro ⟨removed, ha, hc, hs⟩
    obtain ⟨q, he⟩ := ha.effective
    obtain ⟨pack, h⟩ := (packFromRows_returns_iff T).mpr ⟨⟨ha.window, hc⟩, hs⟩
    exact ⟨pack, ha.query, ha.task, q, removed, he, h⟩

end

/-! ## Ingested documents -/

section
variable {w : L1.Chunking.Worker} {filters : ContentFilters} {st : Store} {k : Call}
  {rows : List SearchRow} {corpus : List (Source × List FetchedFile)}

/-- A line of the file is a heading whose text strips to nothing. -/
def HasBlankHeading (w : L1.Chunking.Worker) (file : FetchedFile) : Prop :=
  ∃ text body metadata, w.decodeUtf8 file.content = .ok text ∧
    w.frontmatter text = .ok (body, metadata) ∧
    ∃ line ∈ splitlines body, ∃ level, L1.Chunking.headingMatch line = some (level, [])

/-- A document that answers under the path `[""]` is a file with such a heading. -/
theorem file_of_blank_path (h : ingest w filters {} corpus = .ok st) (hd : DrawnFrom st rows)
    {id : Uuid} (hid : id ∈ docsUnder (k.gated env rows) [[]]) :
    ∃ d ∈ st.documents.rows, d.id = id ∧
      ∃ f ∈ corpusFiles corpus, d.key = documentKey f.1 f.2 ∧ HasBlankHeading w f.2 := by
  obtain ⟨-, rc, hrc, -, hpath, rfl⟩ := mem_docsUnder.mp hid
  obtain ⟨r, hr, rfl⟩ := mem_candidates (Ranking.mem_of_mem_gate hrc)
  obtain ⟨c, d, j, he⟩ := hd r hr
  obtain ⟨d', hd', hid', f, hf, hkey, parsed, hi, chunk, hchunk, hv⟩ :=
    ingest_sourced h c j.chunk
  obtain ⟨text, htext, hparse, -⟩ := indexable_ok hi
  have hblank : chunk.headingPath = [[]] := by
    rw [he] at hpath
    change c.value.headingPath = [[]] at hpath
    rw [hv] at hpath
    exact hpath
  obtain ⟨body, metadata, hb, hline⟩ := L1.Chunking.blank_path_line hparse hchunk hblank
  refine ⟨d', hd', ?_, f, hf, hkey, text, body, metadata, htext, hb, hline⟩
  rw [he, hid', ← j.id_eq]
  rfl

/-- Over an ingested corpus, a conflict is refused only where two files have such a heading. -/
theorem blank_topic_of_ingested (h : ingest w filters {} corpus = .ok st)
    (hd : DrawnFrom st rows) (hc : Contested (k.gated env rows) [[]]) :
    ∃ f ∈ corpusFiles corpus, ∃ f' ∈ corpusFiles corpus,
      documentKey f.1 f.2 ≠ documentKey f'.1 f'.2 ∧
        HasBlankHeading w f.2 ∧ HasBlankHeading w f'.2 := by
  obtain ⟨id, hid, id', hid', hne⟩ := contested_iff.mp hc
  obtain ⟨d, hmem, rfl, f, hf, hkey, hblank⟩ := file_of_blank_path h hd hid
  obtain ⟨d', hmem', rfl, f', hf', hkey', hblank'⟩ := file_of_blank_path h hd hid'
  refine ⟨f, hf, f', hf', fun he => hne ?_, hblank, hblank'⟩
  rw [Table.eq_of_key hmem hmem' (hkey.trans (he.trans hkey'.symm))]

end

/-! ## Refused pages -/

def reviewedHeader : Str := "---\nlast_reviewed: 2024-05-01\n---\n"

/-- The special tokens of `cl100k_base`. -/
def cl100kSpecials : List Str :=
  ["<|endoftext|>".toList, "<|fim_prefix|>".toList, "<|fim_middle|>".toList,
    "<|fim_suffix|>".toList, "<|endofprompt|>".toList]

/-- A tokenizer that counts characters and refuses the special tokens. -/
def countPlain (s : Str) : Py Nat :=
  if Plain cl100kSpecials s then .ok s.length
  else throw (.valueError "Encountered text corresponding to disallowed special token.")

def tiktokenEnv : Env :=
  { asciiEnv with
    countTokens := countPlain
    dumpJson := fun pack => (PackJson.packJson pack).dumps }

/-- The same tokenizer, and a frontmatter parser for this header. -/
def datedWorker : L1.Chunking.Worker :=
  { asciiWorker with
    countTokens := countPlain
    frontmatter := fun s =>
      if startsWith s reviewedHeader then
        .ok (strip (s.drop reviewedHeader.length), [("last_reviewed".toList, .str "2024-05-01")])
      else .ok (strip s, [])
    fromIsoformat := fun s => if s = "2024-05-01".toList then some someDay else none }

theorem cl100k_marker : ∀ t ∈ cl100kSpecials, Marker t := by
  have hall : cl100kSpecials.all (fun t => t.head? == some '<' &&
      t.all fun c => c.isAlphanum || ['<', '|', '>', '_'].contains c) = true := by decide
  intro t ht
  have h := List.all_eq_true.mp hall t ht
  rw [Bool.and_eq_true, beq_iff_eq, List.all_eq_true] at h
  exact ⟨h.1, fun c hc => by simpa using h.2 c hc⟩

theorem tiktokenEnv_tokenizes : Tokenizes tiktokenEnv cl100kSpecials where
  special := cl100k_marker
  count s := by
    show (∃ n, countPlain s = .ok n) ↔ _
    unfold countPlain
    split
    · rename_i h
      exact ⟨fun _ => h, fun _ => ⟨_, rfl⟩⟩
    · rename_i h
      exact ⟨fun ⟨n, hn⟩ => (by cases hn), fun hp => absurd hp h⟩
  json pack := by
    constructor
    · exact fun h s hs t ht hin =>
        h t ht ((PackJson.dumps_packJson_iff (cl100k_marker t ht) pack).mpr ⟨s, hs, hin⟩)
    · intro h t ht hin
      obtain ⟨s, hs, hin⟩ := (PackJson.dumps_packJson_iff (cl100k_marker t ht) pack).mp hin
      exact h s hs t ht hin
  float q := foreign_lt.notMem_fixed2 q

def blankHeadings : List (Source × List FetchedFile) :=
  [({ name := "docs" },
    [{ path := "blue.md", content := asciiBytes (reviewedHeader ++ "#   \n\nuse blue\n") },
      { path := "green.md", content := asciiBytes (reviewedHeader ++ "#   \n\nuse green\n") }])]

/-- The section of the heading has no text of its own, so nothing counts it at the ingest. -/
def specialHeading : List (Source × List FetchedFile) :=
  [({ name := "docs" },
    [{ path := "tokens.md",
       content := asciiBytes (reviewedHeader ++ "# <|endoftext|>\n\n## Setup\n\nuse blue\n") }])]

/-- Ingest, then ask for a pack over every chunk. -/
def packOver (corpus : List (Source × List FetchedFile)) : Py ContextPackResponse := do
  let st ← ingest datedWorker {} {} corpus
  buildContextPack tiktokenEnv ((sampleCall []).onRows (allRows st 1))

theorem sampleCall_asked : Asked tiktokenEnv (sampleCall []) [] where
  query := by decide
  task := by decide
  effective := ⟨_, rfl⟩
  window := by
    rintro d ⟨⟩
    exact ⟨_, Date.subDays_ok.mpr ⟨by decide, by decide, rfl⟩⟩

/-- The conflict of the two pages is no valid warning, and the heading of the third is counted at
last: neither corpus can be asked about. -/
theorem headings_refused : Tokenizes tiktokenEnv cl100kSpecials ∧
    Asked tiktokenEnv (sampleCall []) [] ∧
    (∃ st, ingest datedWorker {} {} blankHeadings = .ok st ∧ DrawnFrom st (allRows st 1) ∧
      buildContextPack tiktokenEnv ((sampleCall []).onRows (allRows st 1)) =
        .error (.validationError "ConflictingSourcesWarning") ∧
      ∃ c ∈ (sampleCall []).conflicts tiktokenEnv (allRows st 1),
        ¬ ∃ w, conflictWarning tiktokenEnv c = .ok w) ∧
    ∃ st, ingest datedWorker {} {} specialHeading = .ok st ∧ DrawnFrom st (allRows st 1) ∧
      ((allRows st 1).map fun r => (r.headingPath, r.content)) =
        [(["<|endoftext|>".toList, "Setup".toList], "## Setup\n\nuse blue".toList)] ∧
      buildContextPack tiktokenEnv ((sampleCall []).onRows (allRows st 1)) =
        .error (.valueError "Encountered text corresponding to disallowed special token.") := by
  refine ⟨tiktokenEnv_tokenizes, sampleCall_asked, ?_, ?_⟩
  · obtain ⟨st, hst⟩ := Py.exists_of_isOk (x := ingest datedWorker {} {} blankHeadings)
      (by decide +kernel)
    have hpack : packOver blankHeadings =
        .error (.validationError "ConflictingSourcesWarning") := by decide +kernel
    have hconflict : (ingest datedWorker {} {} blankHeadings).map (fun st =>
        ((sampleCall []).conflicts tiktokenEnv (allRows st 1)).map (·.topic)) = .ok [[]] := by
      decide +kernel
    rw [packOver, hst] at hpack
    rw [hst] at hconflict
    obtain ⟨c, hc, ht⟩ := List.map_eq_singleton_iff.mp (Except.ok.inj hconflict)
    refine ⟨st, hst, drawnFrom_allRows st 1, hpack, c, ?_, fun h => conflictWarning_returns_iff.mp h ht⟩
    rw [hc]
    exact List.mem_singleton_self c
  · obtain ⟨st, hst⟩ := Py.exists_of_isOk (x := ingest datedWorker {} {} specialHeading)
      (by decide +kernel)
    have hpack : packOver specialHeading =
        .error (.valueError "Encountered text corresponding to disallowed special token.") := by
      decide +kernel
    have hrows : (ingest datedWorker {} {} specialHeading).map (fun st =>
        (allRows st 1).map fun r => (r.headingPath, r.content)) =
        .ok [(["<|endoftext|>".toList, "Setup".toList], "## Setup\n\nuse blue".toList)] := by
      decide +kernel
    rw [packOver, hst] at hpack
    rw [hst] at hrows
    exact ⟨st, hst, drawnFrom_allRows st 1, Except.ok.inj hrows, hpack⟩

/-- Two pages of one letter each are served. -/
theorem build_returns_iff_twoLetters : ∃ removed, Asked tiktokenEnv (budgetCall 3000) removed ∧
    ¬ Contested ((budgetCall 3000).gated tiktokenEnv twoLetters) [[]] ∧
      Served tiktokenEnv cl100kSpecials (budgetCall 3000) twoLetters removed :=
  (build_returns_iff tiktokenEnv cl100kSpecials tiktokenEnv_tokenizes (budgetCall 3000)
    twoLetters).1.mp (Py.exists_of_isOk (by decide +kernel))

end KnowledgeKiln.L3.PackTotal
