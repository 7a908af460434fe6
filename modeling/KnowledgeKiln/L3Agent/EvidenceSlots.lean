import KnowledgeKiln.Core.Selection
import KnowledgeKiln.L3Agent.ContextPack

/-!
# Whose slots the evidence takes

`build_context_pack` cuts the candidates to `max_chunks` and only then drops the flagged ones, so
a flagged candidate takes a slot of the cut.

* `Fits`: what `max_chunks` and `max_tokens` admit.
* `trim_longest`: the trim keeps the longest prefix that fits.
* `forall_kept_iff`: the kept chunks are the `Offered` ones.
* `slots_iff`: exactly when that is the longest prefix of all safe candidates.
* `flagged_takes_slot`: one flagged candidate ahead of the only safe one.
-/
namespace KnowledgeKiln.L3.EvidenceSlots

open KnowledgeKiln.Core KnowledgeKiln.L2 KnowledgeKiln.L2.Ranking KnowledgeKiln.L2.Engine
  KnowledgeKiln.L3.Serializers KnowledgeKiln.L3.ContextPack

variable {env : Env}

/-! ## The trim -/

/-- At most `maxChunks` chunks whose texts count at most `maxTokens`; one chunk is always
admitted. -/
def Fits (env : Env) (text : RankedChunk → Str) (maxChunks maxTokens : Nat)
    (p : List RankedChunk) : Prop :=
  p.length ≤ maxChunks ∧ (p.length ≤ 1 ∨
    ∃ ts, List.Forall₂ (fun c t => env.countTokens (text c) = .ok t) p ts ∧ ts.sum ≤ maxTokens)

section
variable {text text' : RankedChunk → Str} {maxChunks maxTokens : Nat} {p q : List RankedChunk}

theorem Fits.of_prefix (h : p <+: q) (hq : Fits env text maxChunks maxTokens q) :
    Fits env text maxChunks maxTokens p := by
  obtain ⟨hlen, hts⟩ := hq
  refine ⟨h.length_le.trans hlen, hts.imp h.length_le.trans ?_⟩
  rintro ⟨ts, hf, hsum⟩
  refine ⟨ts.take p.length, ?_, ?_⟩
  · rw [List.prefix_iff_eq_take.mp h, List.length_take, min_eq_left h.length_le]
    exact List.forall₂_take _ hf
  · exact ((List.take_sublist _ ts).sum_le_sum fun _ _ => Nat.zero_le _).trans hsum

theorem counts_congr {ts : List Nat}
    (hf : List.Forall₂ (fun c t => env.countTokens (text c) = .ok t) p ts)
    (h : ∀ c ∈ p, text c = text' c) :
    List.Forall₂ (fun c t => env.countTokens (text' c) = .ok t) p ts := by
  induction hf with
  | nil => exact .nil
  | cons hc _ ih =>
    refine .cons ?_ (ih fun c hc => h c (List.mem_cons_of_mem _ hc))
    rw [← h _ List.mem_cons_self]
    exact hc

theorem Fits.congr (h : ∀ c ∈ p, text c = text' c) :
    Fits env text maxChunks maxTokens p ↔ Fits env text' maxChunks maxTokens p := by
  constructor
  · rintro ⟨hlen, hts⟩
    exact ⟨hlen, hts.imp id fun ⟨ts, hf, hsum⟩ => ⟨ts, counts_congr hf h, hsum⟩⟩
  · rintro ⟨hlen, hts⟩
    exact ⟨hlen, hts.imp id fun ⟨ts, hf, hsum⟩ =>
      ⟨ts, counts_congr hf fun c hc => (h c hc).symm, hsum⟩⟩

theorem counts_unique {ts ts' : List Nat}
    (h : List.Forall₂ (fun c t => env.countTokens (text c) = .ok t) p ts)
    (h' : List.Forall₂ (fun c t => env.countTokens (text c) = .ok t) p ts') : ts = ts' :=
  List.right_unique_forall₂' (fun _ _ _ ht ht' => Except.ok.inj (ht.symm.trans ht')) h h'

/-- **The trim.** Behind `kept`, whose texts count `used`. -/
theorem trimLoop_longest {cs kept out : List RankedChunk} {used total : Nat} {ts : List Nat}
    (hk : Fits env text maxChunks maxTokens kept)
    (hts : List.Forall₂ (fun c t => env.countTokens (text c) = .ok t) kept ts) (hs : ts.sum = used)
    (h : trimLoop env maxChunks maxTokens kept used (cs.map fun c => (c, text c)) =
      .ok (out, total)) :
    LongestPrefix (Fits env text maxChunks maxTokens) (kept ++ cs) out := by
  induction cs generalizing kept used ts with
  | nil =>
    cases h
    exact ⟨by simp, hk, fun q hq _ => by simpa using hq.length_le⟩
  | cons c cs ih =>
    rw [List.map_cons, trimLoop] at h
    split at h
    · rename_i hfull
      cases h
      exact ⟨List.prefix_append _ _, hk, fun q _ hq => hq.1.trans hfull⟩
    · rename_i hroom
      obtain ⟨t, ht, h⟩ := Py.bind_ok.mp h
      have hts' : List.Forall₂ (fun c t => env.countTokens (text c) = .ok t) (kept ++ [c])
          (ts ++ [t]) := List.rel_append hts (.cons ht .nil)
      split at h
      · rename_i hover
        cases h
        refine ⟨List.prefix_append _ _, hk, fun q hq hfit => ?_⟩
        by_contra hlt
        -- a longer prefix holds the next chunk, and its texts count too much
        have hnext : out ++ [c] <+: q := by
          refine List.prefix_of_prefix_length_le ⟨cs, by simp⟩ hq ?_
          rw [List.length_append, List.length_singleton]
          omega
        obtain ⟨-, hone | ⟨ts₂, hf, hsum⟩⟩ := hfit.of_prefix hnext
        · have hpos := List.length_pos_iff.mpr hover.2
          rw [List.length_append, List.length_singleton] at hone
          omega
        · rw [counts_unique hf hts', List.sum_append, hs, List.sum_singleton] at hsum
          omega
      · rename_i hunder
        have hk' : Fits env text maxChunks maxTokens (kept ++ [c]) := by
          refine ⟨by rw [List.length_append, List.length_singleton]; omega, ?_⟩
          by_cases hnil : kept = []
          · exact .inl (by simp [hnil])
          · refine .inr ⟨_, hts', ?_⟩
            rw [List.sum_append, hs, List.sum_singleton]
            exact Nat.not_lt.mp fun hlt => hunder ⟨hlt, hnil⟩
        have hl := ih hk' hts' (by rw [List.sum_append, hs, List.sum_singleton]) h
        rwa [List.append_assoc, List.singleton_append] at hl

theorem trim_longest {cs kept : List RankedChunk} {used : Nat}
    (h : trimEvidenceToBudget env cs text maxChunks maxTokens = .ok (kept, used)) :
    LongestPrefix (Fits env text maxChunks maxTokens) cs kept :=
  trimLoop_longest ⟨Nat.zero_le _, .inl (Nat.zero_le _)⟩ .nil rfl h

end

/-! ## The candidates behind the cut -/

section
variable {k : Call} {rows : List SearchRow} {removed : List Str} {pack : ContextPackResponse}

/-- Every safe candidate, best first. -/
def safeRanking (env : Env) (k : Call) (rows : List SearchRow) : List RankedChunk :=
  (sortDesc (·.score) (applyBoosts env k.config k.sur.boostDay (rows.map rowToRankedChunk))).filter
    fun c => !c.hasSensitiveContent

/-- The stored text of a candidate. -/
def textOf (rows : List SearchRow) (c : RankedChunk) : Str :=
  (lookupLast (rows.map fun r => (r.chunkId, r.content)) c.chunkId).getD []

/-- The evidence is the longest prefix of all safe candidates that fits the budget. -/
def EvidenceComplete (env : Env) (k : Call) (rows : List SearchRow) (pack : ContextPackResponse) :
    Prop :=
  ∃ p, LongestPrefix (Fits env (textOf rows) k.maxChunks k.maxTokens) (safeRanking env k rows) p ∧
    pack.evidence.map (·.chunkId) = p.map (·.chunkId)

/-- No safe candidate waits behind the cut, or the first one that does would not fit behind those
before it. -/
def NoneWaiting (env : Env) (k : Call) (rows : List SearchRow) : Prop :=
  (safeRanking env k rows).length ≤ (k.safe env rows).length ∨
    ¬ Fits env (textOf rows) k.maxChunks k.maxTokens
      ((safeRanking env k rows).take ((k.safe env rows).length + 1))

theorem safe_initial : k.safe env rows <+: safeRanking env k rows :=
  (List.take_prefix _ _).filter _

/-- Every row of a candidate's id is behind its text. -/
theorem chunkText_cands {c : RankedChunk} (hc : c ∈ k.cands env rows) :
    (chunkText rows (k.cands env rows) c.chunkId).getD [] = textOf rows c := by
  have hid : c.chunkId ∈ (k.cands env rows).map (·.chunkId) := List.mem_map_of_mem hc
  have hfilter : (rows.filter fun r => r.chunkId ∈ (k.cands env rows).map (·.chunkId)).map
      (fun r => (r.chunkId, r.content)) = (rows.map fun r => (r.chunkId, r.content)).filter
        fun p => p.1 ∈ (k.cands env rows).map (·.chunkId) := by
    rw [List.filter_map]
    rfl
  rw [chunkText, hfilter, textOf]
  cases h : lookupLast (rows.map fun r => (r.chunkId, r.content)) c.chunkId with
  | none => rw [lookupLast_filter_none h]
  | some text => rw [lookupLast_filter h (decide_eq_true hid)]

/-- The candidate is safe, and the budget admits it behind the safe ones that outrank it. -/
def Offered (env : Env) (k : Call) (rows : List SearchRow) (rc : RankedChunk) : Prop :=
  ∃ before, before ++ [rc] <+: k.safe env rows ∧
    Fits env (textOf rows) k.maxChunks k.maxTokens (before ++ [rc])

section
variable {kept : List RankedChunk} {cited : List EvidenceChunk}

/-- The kept chunks are the longest prefix of the safe candidates of the cut. -/
theorem kept_longest (b : BuiltFrom env k rows removed kept cited pack) :
    LongestPrefix (Fits env (textOf rows) k.maxChunks k.maxTokens) (k.safe env rows) kept := by
  obtain ⟨used, hk⟩ := b.kept_eq
  refine (trim_longest hk).congr fun q hq => Fits.congr fun c hc => ?_
  exact chunkText_cands (List.mem_of_mem_filter (hq.subset hc))

theorem forall_kept_iff {Q : RankedChunk → Prop}
    (b : BuiltFrom env k rows removed kept cited pack) :
    (∀ rc ∈ kept, Q rc) ↔ ∀ rc, Offered env k rows rc → Q rc := by
  rw [(kept_longest b).forall_iff Fits.of_prefix]
  constructor
  · intro h rc hoffered
    obtain ⟨before, hp, hfit⟩ := hoffered
    exact h before rc hp hfit
  · intro h before rc hp hfit
    exact h rc ⟨before, hp, hfit⟩

end

theorem evidence_longest (h : packFromRows env k rows removed = .ok pack) :
    ∃ kept, LongestPrefix (Fits env (textOf rows) k.maxChunks k.maxTokens) (k.safe env rows) kept ∧
      pack.evidence.map (·.chunkId) = kept.map (·.chunkId) := by
  obtain ⟨kept, cited, b⟩ := packFromRows_ok h
  refine ⟨kept, kept_longest b, ?_⟩
  have hf := b.assembled.evidence_forall₂
  symm
  rw [← List.forall₂_eq_eq_eq, List.forall₂_map_left_iff, List.forall₂_map_right_iff]
  exact hf.imp fun _ _ he => he.1.symm

/-- Prefixes of one list are told apart by their lengths. -/
theorem prefix_eq_of_ids {l p q : List RankedChunk} (hp : p <+: l) (hq : q <+: l)
    (h : p.map (·.chunkId) = q.map (·.chunkId)) : p = q := by
  have hlen : p.length = q.length := by simpa using congrArg List.length h
  exact (List.prefix_of_prefix_length_le hp hq hlen.le).eq_of_length hlen

theorem evidenceComplete_iff (h : packFromRows env k rows removed = .ok pack) :
    EvidenceComplete env k rows pack ↔ NoneWaiting env k rows := by
  obtain ⟨kept, hkept, hids⟩ := evidence_longest h
  rw [NoneWaiting, ← hkept.extend_iff Fits.of_prefix safe_initial]
  constructor
  · rintro ⟨p, hp, he⟩
    rw [← prefix_eq_of_ids hp.initial (hkept.initial.trans safe_initial) (he.symm.trans hids)]
    exact hp
  · exact fun hl => ⟨kept, hl, hids⟩

/-! ## Without the flagged rows -/

def unflagged (rows : List SearchRow) : List SearchRow := rows.filter fun r => !r.hasSensitiveContent

/-- The ranking of the safe candidates does not see the flagged ones. -/
theorem ranking_unflagged (env : Env) (k : Call) (rows : List SearchRow) :
    sortDesc (·.score) (applyBoosts env k.config k.sur.boostDay
      ((unflagged rows).map rowToRankedChunk)) = safeRanking env k rows := by
  rw [safeRanking, filter_sortDesc, unflagged, applyBoosts, applyBoosts, List.map_map, List.map_map,
    List.filter_map]
  rfl

theorem safe_of_mem_safeRanking {c : RankedChunk} (hc : c ∈ safeRanking env k rows) :
    (!c.hasSensitiveContent) = true := (List.mem_filter.mp hc).2

theorem safeRanking_unflagged (env : Env) (k : Call) (rows : List SearchRow) :
    safeRanking env k (unflagged rows) = safeRanking env k rows := by
  rw [safeRanking, ranking_unflagged]
  exact List.filter_eq_self.mpr fun _ hc => safe_of_mem_safeRanking hc

/-- All of the cut is safe. -/
theorem safe_unflagged (env : Env) (k : Call) (rows : List SearchRow) :
    k.safe env (unflagged rows) = (safeRanking env k rows).take k.maxChunks := by
  rw [Call.safe, Call.cands, candidates, ranking_unflagged]
  exact List.filter_eq_self.mpr fun _ hc => safe_of_mem_safeRanking (List.mem_of_mem_take hc)

theorem noneWaiting_unflagged (env : Env) (k : Call) (rows : List SearchRow) :
    NoneWaiting env k (unflagged rows) := by
  rw [NoneWaiting, safeRanking_unflagged, safe_unflagged, List.length_take]
  by_cases hle : (safeRanking env k rows).length ≤ k.maxChunks
  · exact .inl (le_min hle le_rfl)
  · right
    rintro ⟨hlen, -⟩
    rw [List.length_take] at hlen
    omega

theorem textOf_unflagged (hn : (rows.map (·.chunkId)).Nodup) {c : RankedChunk}
    (hc : c ∈ safeRanking env k rows) : textOf (unflagged rows) c = textOf rows c := by
  rw [← safeRanking_unflagged] at hc
  have hc := mem_sortDesc.mp (List.mem_of_mem_filter hc)
  simp only [applyBoosts, List.map_map, List.mem_map, Function.comp] at hc
  obtain ⟨r, hr, rfl⟩ := hc
  have hread : ∀ {rows' : List SearchRow}, (rows'.map (·.chunkId)).Nodup → r ∈ rows' →
      lookupLast (rows'.map fun r => (r.chunkId, r.content)) r.chunkId = some r.content := by
    intro rows' hn' hr'
    refine lookupLast_of_mem (by rwa [List.map_map]) ?_
    exact List.mem_map.mpr ⟨r, hr', rfl⟩
  have h₁ : lookupLast ((unflagged rows).map fun r => (r.chunkId, r.content)) r.chunkId =
      some r.content := hread (hn.sublist (List.filter_sublist.map _)) hr
  have h₂ := hread hn (List.mem_of_mem_filter hr)
  change (lookupLast _ r.chunkId).getD [] = (lookupLast _ r.chunkId).getD []
  rw [h₁, h₂]

end

/-- **Slots.** The evidence is the longest prefix of all safe candidates that fits exactly when no
further one fits behind those of the cut, and exactly then it is the evidence one gets without the
flagged rows. -/
theorem slots_iff (env : Env) (k : Call) (rows : List SearchRow) {pack : ContextPackResponse}
    (h : buildContextPack env (k.onRows rows) = .ok pack) :
    (EvidenceComplete env k rows pack ↔ NoneWaiting env k rows) ∧
    ((rows.map (·.chunkId)).Nodup → ∀ pack',
      buildContextPack env (k.onRows (unflagged rows)) = .ok pack' →
        (pack.evidence.map (·.chunkId) = pack'.evidence.map (·.chunkId) ↔
          NoneWaiting env k rows)) := by
  obtain ⟨removed, hp⟩ := build_onRows h
  refine ⟨evidenceComplete_iff hp, fun hn pack' h' => ?_⟩
  obtain ⟨removed', hp'⟩ := build_onRows h'
  obtain ⟨p, hl, hids⟩ := (evidenceComplete_iff hp').mpr (noneWaiting_unflagged env k rows)
  rw [safeRanking_unflagged] at hl
  have hl : LongestPrefix (Fits env (textOf rows) k.maxChunks k.maxTokens)
      (safeRanking env k rows) p :=
    hl.congr fun q hq => Fits.congr fun c hc => textOf_unflagged hn (hq.subset hc)
  rw [← evidenceComplete_iff hp, hids]
  constructor
  · exact fun he => ⟨p, hl, he⟩
  · rintro ⟨q, hq, he⟩
    rw [he, hq.unique hl]

/-! ## A flagged candidate ahead of a safe one -/

/-- The best hit is flagged, the other is not. -/
def flaggedAhead : List SearchRow :=
  [{ sampleRow 1 1 1 "key" [] with hasSensitiveContent := true }, sampleRow 2 2 (9 / 10) "b" []]

/-- A request for `n` chunks. -/
def requestFor (n : Nat) : Call := { sampleCall [] with maxChunks := n }

/-- For one chunk: the flagged hit takes the slot, and nothing is returned. -/
theorem flagged_takes_slot : ∃ pack pack',
    buildContextPack asciiEnv ((requestFor 1).onRows flaggedAhead) = .ok pack ∧
    buildContextPack asciiEnv ((requestFor 1).onRows (unflagged flaggedAhead)) = .ok pack' ∧
    pack.evidence = [] ∧ pack'.evidence.map (·.chunkId) = [2] ∧
    ¬ EvidenceComplete asciiEnv (requestFor 1) flaggedAhead pack := by
  obtain ⟨pack, hb, he⟩ := Py.exists_of_map_eq (f := (·.evidence)) (b := [])
    (x := buildContextPack asciiEnv ((requestFor 1).onRows flaggedAhead)) (by decide +kernel)
  obtain ⟨pack', hb', he'⟩ := Py.exists_of_map_eq
    (f := fun p : ContextPackResponse => p.evidence.map (·.chunkId)) (b := [2])
    (x := buildContextPack asciiEnv ((requestFor 1).onRows (unflagged flaggedAhead)))
    (by decide +kernel)
  refine ⟨pack, pack', hb, hb', he, he', ?_⟩
  rintro ⟨p, hp, hids⟩
  have hp0 : p = [] := by simpa [he] using hids
  -- one safe candidate always fits
  have hlen : (safeRanking asciiEnv (requestFor 1) flaggedAhead).length = 1 := by decide +kernel
  have hle := hp.longest _ (List.prefix_refl _)
    ⟨hlen.le.trans (by decide), .inl hlen.le⟩
  rw [hp0, hlen] at hle
  exact absurd hle (by decide)

/-- For two chunks: nobody waits behind the cut. -/
theorem slots_iff_two : ∃ pack pack',
    buildContextPack asciiEnv ((requestFor 2).onRows flaggedAhead) = .ok pack ∧
    buildContextPack asciiEnv ((requestFor 2).onRows (unflagged flaggedAhead)) = .ok pack' ∧
    EvidenceComplete asciiEnv (requestFor 2) flaggedAhead pack ∧
    pack.evidence.map (·.chunkId) = pack'.evidence.map (·.chunkId) := by
  obtain ⟨pack, hb⟩ := Py.exists_of_isOk
    (x := buildContextPack asciiEnv ((requestFor 2).onRows flaggedAhead)) (by decide +kernel)
  obtain ⟨pack', hb'⟩ := Py.exists_of_isOk
    (x := buildContextPack asciiEnv ((requestFor 2).onRows (unflagged flaggedAhead)))
    (by decide +kernel)
  have hw : NoneWaiting asciiEnv (requestFor 2) flaggedAhead := .inl (by decide +kernel)
  obtain ⟨hc, hn⟩ := slots_iff asciiEnv (requestFor 2) flaggedAhead hb
  exact ⟨pack, pack', hb, hb', hc.mpr hw, (hn (by decide +kernel) pack' hb').mpr hw⟩

end KnowledgeKiln.L3.EvidenceSlots
