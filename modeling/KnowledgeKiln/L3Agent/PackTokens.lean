import KnowledgeKiln.L2Retrieval.Conflicts
import KnowledgeKiln.L3Agent.Markers
import KnowledgeKiln.L3Agent.PackBudget

/-!
# Special tokens in a pack

`tiktoken` refuses a text that holds one of its special tokens. The assembly hands it the contents
the trim reads, and at last the whole pack.

* `Tokenizes`: what the tokenizer and the serializer are taken to do.
* `trim_returns_iff`: when the trim can count what it reads.
* `conflict_plain_iff`, `normalization_plain_iff`: which warnings quote what they are about.
* `pack_plain_iff`: when the whole pack can be counted.
-/
namespace KnowledgeKiln.L3.PackTokens

open KnowledgeKiln.Core KnowledgeKiln.L2 KnowledgeKiln.L2.Ranking KnowledgeKiln.L2.Engine
  KnowledgeKiln.L2.Conflicts KnowledgeKiln.L3.Serializers KnowledgeKiln.L3.ContextPack
  KnowledgeKiln.L3.EvidenceSlots KnowledgeKiln.L3.Markers KnowledgeKiln.L3.PackJson
  KnowledgeKiln.L3.PackBudget

/-- `count_tokens` refuses the special tokens and nothing else, and `model_dump_json` writes the
strings of a pack such that they are found. -/
structure Tokenizes (env : Env) (specials : List Str) : Prop where
  special : ∀ t ∈ specials, Marker t
  count : ∀ s, (∃ n, env.countTokens s = .ok n) ↔ Plain specials s
  json : ∀ pack, Plain specials (env.dumpJson pack) ↔ ∀ s ∈ pack.strings, Plain specials s
  float : ∀ q, '<' ∉ env.floatStr q

variable {env : Env} {specials : List Str}

theorem Tokenizes.plain_of_lt (T : Tokenizes env specials) {s : Str} (h : '<' ∉ s) :
    Plain specials s := fun t ht => (T.special t ht).absent h

/-! ## The trim -/

section
variable {text : RankedChunk → Str} {maxChunks maxTokens : Nat}

/-- A prefix that the next element continues ends before it or holds it. -/
theorem prefix_cases {α : Type*} {before p cs : List α} {c c' : α} (hp : before <+: p)
    (hin : p ++ [c'] <+: before ++ c :: cs) : (p = before ∧ c' = c) ∨ before ++ [c] <+: p := by
  obtain ⟨rest, rfl⟩ := hp
  rw [List.append_assoc, List.prefix_append_right_inj] at hin
  cases rest with
  | nil => exact .inl ⟨List.append_nil _, (List.cons_prefix_cons.mp hin).1⟩
  | cons d rest =>
    obtain ⟨rfl, -⟩ := List.cons_prefix_cons.mp hin
    exact .inr ⟨rest, by simp⟩

/-- Behind `before`, whose texts count `used`. -/
theorem trimLoop_returns_iff : ∀ {cs before : List RankedChunk} {used : Nat} {ts : List Nat},
    Fits env text maxChunks maxTokens before →
    List.Forall₂ (fun c t => env.countTokens (text c) = .ok t) before ts → ts.sum = used →
    ((∃ out, trimLoop env maxChunks maxTokens before used (cs.map fun c => (c, text c)) = .ok out) ↔
      ∀ p c, before <+: p → p ++ [c] <+: before ++ cs → p.length < maxChunks →
        Fits env text maxChunks maxTokens p → ∃ n, env.countTokens (text c) = .ok n)
  | [], before, used, ts, _, _, _ => by
    refine ⟨fun _ p c hp hin _ _ => ?_, fun _ => ⟨_, rfl⟩⟩
    have hle := hin.length_le
    have hlp := hp.length_le
    simp only [List.append_nil, List.length_append, List.length_singleton] at hle
    omega
  | c :: cs, before, used, ts, hb, hts, hs => by
    rw [List.map_cons, trimLoop]
    by_cases hfull : maxChunks ≤ before.length
    · rw [if_pos hfull]
      refine ⟨fun _ p c hp _ hlt _ => ?_, fun _ => ⟨_, rfl⟩⟩
      have hlp := hp.length_le
      omega
    · rw [if_neg hfull]
      -- the next chunk is read whatever follows
      have hread : (∀ p c', before <+: p → p ++ [c'] <+: before ++ c :: cs →
          p.length < maxChunks → Fits env text maxChunks maxTokens p →
            ∃ n, env.countTokens (text c') = .ok n) → ∃ n, env.countTokens (text c) = .ok n :=
        fun h => h before c (List.prefix_refl _) ⟨cs, by simp⟩ (by omega) hb
      cases hcount : env.countTokens (text c) with
      | error e =>
        refine ⟨fun h => ?_, fun h => ?_⟩
        · obtain ⟨out, h⟩ := h
          cases h
        · obtain ⟨n, hn⟩ := hread h
          cases hcount.symm.trans hn
      | ok n =>
        have hts' : List.Forall₂ (fun c t => env.countTokens (text c) = .ok t) (before ++ [c])
            (ts ++ [n]) := List.rel_append hts (.cons hcount .nil)
        have hsum : (ts ++ [n]).sum = used + n := by
          rw [List.sum_append, hs, List.sum_singleton]
        simp only [bind, Except.bind]
        by_cases hover : maxTokens < used + n ∧ before ≠ []
        · rw [if_pos hover]
          refine ⟨fun _ p c' hp hin _ hfit => ?_, fun _ => ⟨_, rfl⟩⟩
          rcases prefix_cases hp hin with ⟨-, rfl⟩ | hnext
          · exact ⟨n, hcount⟩
          · obtain ⟨-, hone | ⟨ts₂, hf, hle⟩⟩ := hfit.of_prefix hnext
            · have hpos := List.length_pos_iff.mpr hover.2
              rw [List.length_append, List.length_singleton] at hone
              omega
            · rw [counts_unique hf hts', hsum] at hle
              omega
        · rw [if_neg hover]
          have hb' : Fits env text maxChunks maxTokens (before ++ [c]) := by
            refine ⟨by rw [List.length_append, List.length_singleton]; omega, ?_⟩
            by_cases hnil : before = []
            · exact .inl (by simp [hnil])
            · exact .inr ⟨_, hts', hsum.le.trans (Nat.not_lt.mp fun hlt => hover ⟨hlt, hnil⟩)⟩
          rw [trimLoop_returns_iff hb' hts' hsum, List.append_assoc, List.singleton_append]
          constructor
          · intro h p c' hp hin hlt hfit
            rcases prefix_cases hp hin with ⟨-, rfl⟩ | hnext
            · exact ⟨n, hcount⟩
            · exact h p c' hnext hin hlt hfit
          · exact fun h p c' hp => h p c' ((List.prefix_append before [c]).trans hp)

theorem trim_returns_iff {cs : List RankedChunk} :
    (∃ kept used, trimEvidenceToBudget env cs text maxChunks maxTokens = .ok (kept, used)) ↔
      ∀ p c, p ++ [c] <+: cs → p.length < maxChunks → Fits env text maxChunks maxTokens p →
        ∃ n, env.countTokens (text c) = .ok n := by
  have hempty : Fits env text maxChunks maxTokens [] := ⟨Nat.zero_le _, .inl (Nat.zero_le _)⟩
  have h := @trimLoop_returns_iff _ _ _ _ cs _ _ _ hempty .nil rfl
  simp only [List.nil_append, List.nil_prefix, true_imp_iff] at h
  rw [← h, trimEvidenceToBudget]
  exact ⟨fun ⟨kept, used, hk⟩ => ⟨(kept, used), hk⟩, fun ⟨⟨kept, used⟩, hk⟩ => ⟨kept, used, hk⟩⟩

end

/-! ## The warnings -/

/-- No other warning quotes a text of the rows. -/
theorem lt_notMem_collected (T : Tokenizes env specials) {chunks : List RankedChunk} {today : Date}
    {g : Gates} {ws : List Warning} (h : collectWarnings env chunks today g = .ok ws) :
    ∀ w ∈ ws, '<' ∉ w.message := by
  obtain ⟨stale, hs, h⟩ := Py.bind_ok.mp h
  rw [Py.pure_ok] at h
  subst h
  have hopens : '<' ∈ openers := List.mem_cons_self
  intro w hw
  simp only [List.mem_append, or_assoc] at hw
  rcases hw with hw | hw | hw | hw | hw | hw
  · exact staleWarnings_message hopens hs hw
  · obtain ⟨c, -, he⟩ := mem_onePerDocument hw
    exact deprecatedWarning_message hopens he
  · exact promptInjectionWarnings_message hopens hw
  · exact sensitiveContentWarnings_message hopens hw
  · unfold weakEvidenceWarning at hw
    dsimp only at hw
    split at hw
    · cases List.mem_singleton.mp hw
      simp only [downgradeToFlat_message, WarningVariant.message]
      decide
    · split at hw
      · cases List.mem_singleton.mp hw
        simp only [downgradeToFlat_message, WarningVariant.message, List.mem_append, not_or]
        exact ⟨⟨⟨⟨by decide, foreign_lt.notMem_fixed2 _⟩, by decide⟩, T.float _⟩, by decide⟩
      · cases hw
  · exact isolatedMatchWarning_message hopens hw

/-- Around a text without a marker: nothing, or a character that no marker has. -/
theorem between_iff {t : Str} (h : Marker t) {front s back : Str} {c : Char} (hf : '<' ∉ front)
    (hc : c ∉ t) (hb : '<' ∉ back) : t <:+: front ++ s ++ c :: back ↔ t <:+: s := by
  rw [List.append_assoc, h.front_iff hf, h.back_iff hc hb]

/-- The warning about a conflict quotes its topic. -/
theorem conflict_plain_iff (T : Tokenizes env specials) {c : Conflict} {w : Warning}
    (h : conflictWarning env c = .ok w) : Plain specials w.message ↔ Plain specials c.topic := by
  unfold conflictWarning at h
  split at h
  · simp at h
  · cases h
    refine forall₂_congr fun t ht => not_congr ?_
    have hm := T.special t ht
    have hfront : '<' ∉ natStr c.sourceIds.length ++ " active sources address ".toList := by
      rw [List.mem_append, not_or]
      exact ⟨foreign_lt.notMem_natStr _, by decide⟩
    have hdot : '.' ∉ t := hm.notMem (by decide) (by decide)
    exact (between_iff hm hfront hdot List.not_mem_nil).trans hm.strRepr_iff

/-- The warning about the query quotes the first three phrases that were removed. -/
theorem normalization_plain_iff (T : Tokenizes env specials) {removed : List Str} :
    (∀ w ∈ normalizationWarnings env removed, Plain specials w.message) ↔
      ∀ phrase ∈ removed.take 3, Plain specials phrase := by
  unfold normalizationWarnings
  split
  · rename_i hne
    rw [List.forall_mem_singleton]
    have hsample : ∀ t ∈ specials, t <:+: (queryNormalizedWarning env removed hne).message ↔
        ∃ phrase ∈ removed.take 3, t <:+: phrase := by
      intro t ht
      have hm := T.special t ht
      have hdot : '.' ∉ t := hm.notMem (by decide) (by decide)
      have hblank : ' ' ∉ t := hm.notMem (by decide) (by decide)
      have hfront : '<' ∉
          "Query contained prompt-injection markers; stripped before retrieval: ".toList := by
        decide
      have hjoin : t <:+: join ", " ((removed.take 3).map (strRepr env.isPrintable)) ↔
          ∃ phrase ∈ removed.take 3, t <:+: phrase := by
        refine (@Marker.join_iff t hm ',' (hm.notMem (by decide) (by decide)) [' ']
          (by decide) _).trans ?_
        simp only [List.mem_map, exists_exists_and_eq_and, hm.strRepr_iff]
      rw [← hjoin, queryNormalizedWarning, downgradeToFlat_message]
      dsimp only [WarningVariant.message]
      split
      · have hmore : '<' ∉ "(and ".toList ++ natStr (removed.length - 3) ++ " more)." := by
          rw [List.mem_append, List.mem_append, not_or, not_or]
          exact ⟨⟨by decide, foreign_lt.notMem_natStr _⟩, by decide⟩
        have h := @between_iff t hm _ (join ", " ((removed.take 3).map (strRepr env.isPrintable)))
          _ ' ' hfront hblank hmore
        rw [← h]
        simp only [List.append_assoc]
        rfl
      · rw [List.append_nil]
        exact between_iff hm hfront hdot List.not_mem_nil
    constructor
    · exact fun h phrase hp t ht hin => h t ht ((hsample t ht).mpr ⟨phrase, hp, hin⟩)
    · intro h t ht hin
      obtain ⟨phrase, hp, hin⟩ := (hsample t ht).mp hin
      exact h phrase hp t ht hin
  · rename_i hnil
    rw [not_not.mp hnil]
    simp

/-! ## Conflicts and reasons -/

/-- Some conflict quotes a heading of a contested path. -/
theorem conflicts_plain_iff (T : Tokenizes env specials) {gated : List RankedChunk} :
    (∀ c ∈ conflictsOf gated, ∀ s ∈ c.strings, Plain specials s) ↔
      ∀ path, Contested gated path → ∀ heading ∈ path, Plain specials heading := by
  have htopic : ∀ {path : List Str}, Plain specials (join "." path) ↔
      ∀ heading ∈ path, Plain specials heading := by
    intro path
    have hjoin : ∀ t ∈ specials, t <:+: join "." path ↔ ∃ heading ∈ path, t <:+: heading :=
      fun t ht => (T.special t ht).join_iff ((T.special t ht).notMem (by decide) (by decide))
        List.not_mem_nil
    constructor
    · exact fun h heading hp t ht hin => h t ht ((hjoin t ht).mpr ⟨heading, hp, hin⟩)
    · intro h t ht hin
      obtain ⟨heading, hp, hin⟩ := (hjoin t ht).mp hin
      exact h heading hp t ht hin
  simp only [conflictsOf_eq, List.mem_filterMap, mem_contestedPaths]
  constructor
  · intro h path hp
    obtain ⟨c, hc, -⟩ := conflictAt_of_contested hp
    rw [← htopic, ← conflictAt_topic hc]
    exact h c ⟨path, hp, hc⟩ c.topic List.mem_cons_self
  · rintro h c ⟨path, hp, hc⟩ s hs
    rcases List.mem_cons.mp hs with rfl | hs
    · rw [conflictAt_topic hc, htopic]
      exact h path hp
    · -- the description is the same for every heading
      unfold conflictAt at hc
      dsimp only at hc
      split at hc
      · cases hc
      · cases hc
        cases List.mem_singleton.mp hs
        refine T.plain_of_lt ?_
        rw [List.mem_append, not_or]
        exact ⟨foreign_lt.notMem_natStr _, by decide⟩

theorem lt_notMem_reasonWhen {cond : Bool} {reason s : Str} (h : '<' ∉ reason)
    (hs : s ∈ reasonWhen cond reason) : '<' ∉ s := by
  unfold reasonWhen at hs
  split at hs
  · rwa [List.mem_singleton.mp hs]
  · cases hs

theorem lt_notMem_statusReasons {chunks : List RankedChunk} {s : Str}
    (hs : s ∈ statusReasons chunks) : '<' ∉ s := by
  unfold statusReasons at hs
  split at hs
  · rw [List.mem_singleton.mp hs]
    decide
  · split at hs
    · rw [List.mem_singleton.mp hs]
      decide
    · exact lt_notMem_reasonWhen (by decide) hs

theorem lt_notMem_reviewReasons {chunks : List RankedChunk} {ws : List Warning}
    {cs : List Conflict} {uncited dropped : Nat} {s : Str}
    (hs : s ∈ reviewReasons chunks ws cs uncited dropped) : '<' ∉ s := by
  have hcount : ∀ {n : Nat} {text : Str}, '<' ∉ text → '<' ∉ natStr n ++ text := by
    intro n text ht
    rw [List.mem_append, not_or]
    exact ⟨foreign_lt.notMem_natStr n, ht⟩
  simp only [reviewReasons, List.mem_append, or_assoc] at hs
  rcases hs with hs | hs | hs | hs | hs | hs
  · exact lt_notMem_reasonWhen (hcount (by decide)) hs
  · exact lt_notMem_statusReasons hs
  · exact lt_notMem_reasonWhen (by decide) hs
  · exact lt_notMem_reasonWhen (by decide) hs
  · exact lt_notMem_reasonWhen (hcount (by decide)) hs
  · exact lt_notMem_reasonWhen (hcount (by decide)) hs

/-! ## The pack -/

/-- What a chunk is cited with: its row and the row of its document, but for the content. -/
def citation (env : Env) (refs : Uuid → Option DocumentRef) (c : RankedChunk) : List Str :=
  let ref := (refs c.documentId).getD { documentId := c.documentId, title := "(unknown)" }
  ref.title :: (ref.repo.toList ++ ref.path.toList ++ c.headingPath ++
    (ref.sourceUrl.bind fun u => (env.anyUrl u).toOption).toList ++ ref.commitSha.toList ++
      c.status :: (ref.authority.toList ++ ref.owner.toList))

/-- A text with its markers quotes the warnings. -/
theorem withMarkers_iff {t : Str} (h : Marker t) {ws : List Warning} {text : Str} :
    t <:+: withMarkers ws text ↔ t <:+: text ∨ ∃ w ∈ ws, t <:+: w.message := by
  have hline : '\n' ∉ t := h.notMem (by decide) (by decide)
  have hclose : ']' ∉ t := h.notMem (by decide) (by decide)
  have hmarker : ∀ w, t <:+: marker w ↔ t <:+: w.message := by
    intro w
    have hfront : '<' ∉ "[KILN-WARN: ".toList ++ w.type.value ++ " — ".toList := by
      rw [List.mem_append, List.mem_append, not_or, not_or]
      exact ⟨⟨by decide, by cases w.type <;> decide⟩, by decide⟩
    exact between_iff h hfront hclose List.not_mem_nil
  have hmarkers : t <:+: join "\n" (ws.map marker) ↔ ∃ w ∈ ws, t <:+: w.message := by
    refine (h.join_iff hline List.not_mem_nil).trans ?_
    simp only [List.mem_map, exists_exists_and_eq_and, hmarker]
  unfold withMarkers
  dsimp only
  split
  · rename_i hnil
    simp [hnil]
  · split
    · rw [← hmarkers, List.append_assoc]
      exact @Marker.gap_iff _ h '\n' hline _ _ ['\n'] (by decide)
    · rename_i hempty
      rw [hmarkers, not_not.mp hempty, or_iff_right (fun hin => h.ne_nil (List.infix_nil.mp hin))]

theorem strings_plain_iff {pack : ContextPackResponse}
    (hreasons : ∀ s ∈ pack.reviewReasons, Plain specials s)
    (hnotice : ∀ s ∈ pack.untrustedContentNotice :: pack.untrustedContentNoticeId ::
      pack.untrustedContentNoticePinnedPhrases, Plain specials s) :
    (∀ s ∈ pack.strings, Plain specials s) ↔
      (∀ e ∈ pack.evidence, ∀ s ∈ e.strings, Plain specials s) ∧
      (∀ w ∈ pack.warnings, Plain specials w.message) ∧
      ∀ c ∈ pack.conflicts, ∀ s ∈ c.strings, Plain specials s := by
  rw [ContextPackResponse.strings, List.forall_mem_append, List.forall_mem_append,
    List.forall_mem_append, List.forall_mem_append, and_iff_left hnotice, and_iff_left hreasons,
    List.forall_mem_flatMap, List.forall_mem_map, List.forall_mem_flatMap, and_assoc]

section
variable {inputs : SerializerInputs} {packId : Uuid} {maxTokens used : Nat} {threshold : Option ℚ}
  {embed : Bool} {kept : List RankedChunk} {cited : List EvidenceChunk}

/-- Plain warnings make plain markers. -/
theorem evidence_plain_iff (T : Tokenizes env specials)
    (hws : ∀ w ∈ inputs.warnings, Plain specials w.message) {c : RankedChunk} :
    (∀ s ∈ (evidenceOf env inputs embed c).strings, Plain specials s) ↔
      (∀ s ∈ citation env inputs.documentRefs c, Plain specials s) ∧
        Plain specials (contents inputs c) := by
  have htext : Plain specials (evidenceOf env inputs embed c).text ↔
      Plain specials (contents inputs c) := by
    refine forall₂_congr fun t ht => not_congr ?_
    cases embed with
    | false => rfl
    | true =>
      refine (withMarkers_iff (T.special t ht)).trans (or_iff_left ?_)
      rintro ⟨w, hw, hin⟩
      have hmem := (List.mem_filter.mp ((List.perm_insertionSort _ _).subset hw)).1
      exact hws w hmem t ht hin
  have hheading : (evidenceOf env inputs embed c).headingPath.getD [] = c.headingPath := by
    show (if c.headingPath = [] then none else some c.headingPath).getD [] = c.headingPath
    split
    · rename_i hnil
      rw [hnil]
      rfl
    · rfl
  have hstrings : (evidenceOf env inputs embed c).strings =
      citation env inputs.documentRefs c ++ [(evidenceOf env inputs embed c).text] := by
    rw [EvidenceChunk.strings, hheading]
    simp only [citation, evidenceOf, List.cons_append, List.append_assoc]
  rw [hstrings, List.forall_mem_append, List.forall_mem_singleton, htext]

theorem notice_plain (T : Tokenizes env specials) :
    ∀ s ∈ untrustedContentNotice :: untrustedContentNoticeId ::
      untrustedContentNoticePinnedPhrases, Plain specials s := by
  have hlt : (untrustedContentNotice :: untrustedContentNoticeId ::
      untrustedContentNoticePinnedPhrases).all (fun s => s.all (· != '<')) = true := by
    decide +kernel
  intro s hs
  refine T.plain_of_lt fun hmem => ?_
  simpa using List.all_eq_true.mp (List.all_eq_true.mp hlt s hs) _ hmem

/-- **The recount.** The pack can be counted exactly when nothing it quotes holds a special
token. -/
theorem pack_plain_iff (T : Tokenizes env specials)
    (h : Py.mapM (toEvidenceChunk env inputs.chunkText inputs.documentRefs) kept = .ok cited) :
    (∃ n, env.countTokens (env.dumpJson
        (draft inputs packId maxTokens threshold embed kept used cited)) = .ok n) ↔
      (∀ c ∈ kept, (∀ s ∈ citation env inputs.documentRefs c, Plain specials s) ∧
        Plain specials (contents inputs c)) ∧
      (∀ w ∈ inputs.warnings, Plain specials w.message) ∧
      ∀ c ∈ inputs.conflicts, ∀ s ∈ c.strings, Plain specials s := by
  have hpack := @strings_plain_iff specials
    (draft inputs packId maxTokens threshold embed kept used cited)
    (fun s hs => T.plain_of_lt (lt_notMem_reviewReasons hs))
    (by simpa only [draft] using notice_plain T)
  rw [T.count, T.json, hpack, draft_evidence h, List.forall_mem_map]
  rw [and_left_comm, and_left_comm (b := ∀ w ∈ inputs.warnings, Plain specials w.message)]
  refine and_congr_right fun hw => and_congr_left fun _ => ?_
  exact forall₂_congr fun c _ => evidence_plain_iff T hw

end

end KnowledgeKiln.L3.PackTokens
