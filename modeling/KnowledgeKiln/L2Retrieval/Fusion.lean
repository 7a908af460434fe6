import KnowledgeKiln.Core.RankFusion
import KnowledgeKiln.L2Retrieval.Ranking

/-!
# Rank fusion, in Python and in SQL

The kiln fuses its two arms twice: `rrf_fuse` of retrieval/ranking.py is the reference, and the
`fused` subquery of db/repositories/_hybrid.py is what runs. Scores are exact here.

* `lookup_rrfFuse`: the reference gives a chunk the votes of the arms.
* `rrfScore_numbered`: so does the subquery, rescaled by `(k + 1) / 2`.
* `fused_refines_rrfFuse`: the two agree, and the rescaled score stays in `(0, 1]` through the
  boosts.
-/
namespace KnowledgeKiln.L2.Fusion

open KnowledgeKiln.Core KnowledgeKiln.L2.Ranking

/-! ## The reference -/

/-- mirrors retrieval/ranking.py:91-111; the result is the dictionary's items. -/
def rrfFuse (arms : List (List Uuid)) (k : Nat) : List (Uuid × ℚ) :=
  arms.foldl (fun scores arm =>
    (arm.zipIdx 1).foldl (fun scores p => addTo p.1 (1 / ((k : ℚ) + p.2)) scores) scores) []

/-! ## The subquery -/

/-- One row of the `vec` or the `fts` CTE. -/
structure ArmRow where
  chunkId : Uuid
  rnk : Nat
  deriving DecidableEq, Repr

/-- `row_number() OVER (ORDER BY ...)`, along an arm that is listed best first. -/
def numbered (arm : List Uuid) : List ArmRow := (arm.zipIdx 1).map fun p => ⟨p.1, p.2⟩

/-- `SUM(1.0 / (k + u.rnk)) * (k + 1) / 2.0` over the rows of one chunk -/
def rrfScore (k : Nat) (u : List ArmRow) (chunkId : Uuid) : ℚ :=
  ((u.filter (·.chunkId = chunkId)).map fun row => 1 / ((k : ℚ) + row.rnk)).sum *
    (((k : ℚ) + 1) / 2)

/-- `SELECT ... FROM (SELECT * FROM vec UNION ALL SELECT * FROM fts) u GROUP BY u.chunk_id`,
mirrors db/repositories/_hybrid.py:122-130 -/
def fused (k : Nat) (vec fts : List ArmRow) : List (Uuid × ℚ) :=
  ((vec ++ fts).map (·.chunkId)).dedup.map fun chunkId => (chunkId, rrfScore k (vec ++ fts) chunkId)

/-- A chunk has one row. -/
theorem fused_nodup (k : Nat) (vec fts : List ArmRow) : ((fused k vec fts).map Prod.fst).Nodup := by
  have h : (fused k vec fts).map Prod.fst = ((vec ++ fts).map (·.chunkId)).dedup := by
    simp [fused, Function.comp_def]
  rw [h]
  exact List.nodup_dedup _

theorem mem_fused {k : Nat} {vec fts : List ArmRow} {chunkId : Uuid} {s : ℚ} :
    (chunkId, s) ∈ fused k vec fts ↔
      chunkId ∈ (vec ++ fts).map (·.chunkId) ∧ s = rrfScore k (vec ++ fts) chunkId := by
  simp only [fused, List.mem_map (b := (chunkId, s)), List.mem_dedup, Prod.mk.injEq]
  constructor
  · rintro ⟨c, hc, rfl, rfl⟩
    exact ⟨hc, rfl⟩
  · rintro ⟨hc, rfl⟩
    exact ⟨chunkId, hc, rfl, rfl⟩

@[simp] theorem map_chunkId_numbered (arm : List Uuid) : (numbered arm).map (·.chunkId) = arm := by
  simp [numbered, Function.comp_def]

/-! ## Both add up the votes of the arms -/

section
variable {vec fts : List Uuid} {k : Nat} {c : Uuid}

theorem rrfFuse_eq (arms : List (List Uuid)) (k : Nat) :
    rrfFuse arms k = arms.foldl (fun scores arm => accumulate scores (votes k 1 arm)) [] := by
  simp only [rrfFuse, accumulate, votes, List.foldl_map]

theorem lookup_rrfFuse (hv : vec.Nodup) (hf : fts.Nodup) (hc : c ∈ vec ∨ c ∈ fts) :
    lookupFirst (rrfFuse [vec, fts] k) c = some (vote k vec c + vote k fts c) := by
  have hvec : total (votes k 1 vec) c = vote k vec c := total_votes hv k 1 c
  have hfts : total (votes k 1 fts) c = vote k fts c := total_votes hf k 1 c
  rw [rrfFuse_eq, lookupFirst]
  simp only [List.foldl_cons, List.foldl_nil, lookup_accumulate, map_fst_votes, hvec, hfts,
    List.lookup_nil, Option.getD_none, zero_add]
  by_cases h₁ : c ∈ vec
  · by_cases h₂ : c ∈ fts
    · simp [h₁, h₂]
    · simp [h₁, h₂, vote]
  · have h₂ : c ∈ fts := hc.resolve_left h₁
    simp [h₁, h₂, vote]

/-- The subquery's group is the votes of both arms. -/
theorem rrfScore_numbered (hv : vec.Nodup) (hf : fts.Nodup) :
    rrfScore k (numbered vec ++ numbered fts) c =
      (vote k vec c + vote k fts c) * (((k : ℚ) + 1) / 2) := by
  have hrows : ∀ arm : List Uuid, (((numbered arm).filter (·.chunkId = c)).map
      fun row => 1 / ((k : ℚ) + row.rnk)).sum = total (votes k 1 arm) c := by
    intro arm
    simp [numbered, votes, total, List.filter_map, Function.comp_def]
  have hvec : total (votes k 1 vec) c = vote k vec c := total_votes hv k 1 c
  have hfts : total (votes k 1 fts) c = vote k fts c := total_votes hf k 1 c
  rw [rrfScore, List.filter_append, List.map_append, List.sum_append, hrows, hrows, hvec, hfts]

end

/-! ## Boosts keep the normalisation -/

section
variable {env : Env} (exact : ∀ x, env.fl x = x)
include exact

theorem freshnessFactor_mem (lastReviewed : Option Date) (today : Date) (stale : Option Days) :
    3 / 10 ≤ freshnessFactor env lastReviewed today stale ∧
      freshnessFactor env lastReviewed today stale ≤ 1 := by
  unfold freshnessFactor
  split
  · norm_num
  · rename_i n
    split
    · norm_num
    · rename_i d
      dsimp only
      split
      · norm_num
      · rename_i hage
        simp only [exact]
        have hn : (0 : ℚ) < n.val := by exact_mod_cast n.2
        have hdecay : 0 ≤ min 1 (((today.daysSince d : ℚ) - n.val) / n.val) :=
          le_min zero_le_one (div_nonneg (sub_nonneg.mpr (not_le.mp hage).le) hn.le)
        refine ⟨le_max_left _ _, max_le (by norm_num) ?_⟩
        linarith

/-- A boost shrinks a score, and never to nothing. -/
theorem applyBoostToChunk_score (config : RetrievalConfig) (today : Date) {c : RankedChunk}
    (h : 0 < c.score) : 0 < (applyBoostToChunk env config today c).score ∧
      (applyBoostToChunk env config today c).score ≤ c.score := by
  obtain ⟨hw, hw1⟩ := config.weightForStatus_mem c.status
  obtain ⟨hf, hf1⟩ := freshnessFactor_mem exact c.lastReviewed today config.staleAfterDays
  have hscore : (applyBoostToChunk env config today c).score = c.score *
      config.weightForStatus c.status *
        freshnessFactor env c.lastReviewed today config.staleAfterDays := by
    simp only [applyBoostToChunk, exact]
  have hf0 : 0 < freshnessFactor env c.lastReviewed today config.staleAfterDays := by linarith
  rw [hscore]
  refine ⟨mul_pos (mul_pos h hw) hf0, ?_⟩
  calc c.score * config.weightForStatus c.status *
        freshnessFactor env c.lastReviewed today config.staleAfterDays
      ≤ c.score * config.weightForStatus c.status := mul_le_of_le_one_right (mul_pos h hw).le hf1
    _ ≤ c.score := mul_le_of_le_one_right h.le hw1

end

/-! ## Refinement -/

/-- **The subquery refines the reference.** One row for each chunk of either arm, with the
reference score times `(k + 1) / 2`, in `(0, 1]`, and 1 for the chunk that leads both arms. No
boost lifts it or erases it. -/
theorem fused_refines_rrfFuse (vec fts : List Uuid) (hv : vec.Nodup) (hf : fts.Nodup) (k : Nat)
    (env : Env) (exact : ∀ x, env.fl x = x) :
    ((fused k (numbered vec) (numbered fts)).map Prod.fst).Nodup ∧
    (∀ c, (∃ s, (c, s) ∈ fused k (numbered vec) (numbered fts)) ↔ c ∈ vec ∨ c ∈ fts) ∧
    ∀ c s, (c, s) ∈ fused k (numbered vec) (numbered fts) →
      (∃ r, lookupFirst (rrfFuse [vec, fts] k) c = some r ∧ s = r * (((k : ℚ) + 1) / 2)) ∧
      (0 < s ∧ s ≤ 1) ∧
      (s = 1 ↔ vec.head? = some c ∧ fts.head? = some c) ∧
      ∀ (config : RetrievalConfig) (today : Date) (chunk : RankedChunk), chunk.score = s →
        0 < (applyBoostToChunk env config today chunk).score ∧
        (applyBoostToChunk env config today chunk).score ≤ 1 ∧
        (applyBoostToChunk env config today chunk).score ≤ chunk.score := by
  have hmem : ∀ c, c ∈ (numbered vec ++ numbered fts).map (·.chunkId) ↔ c ∈ vec ∨ c ∈ fts := by
    intro c
    rw [List.map_append, map_chunkId_numbered, map_chunkId_numbered, List.mem_append]
  refine ⟨fused_nodup _ _ _, ?_, ?_⟩
  · intro c
    simp only [mem_fused, hmem, exists_and_left, exists_eq, and_true]
  · intro c s h
    obtain ⟨hc, rfl⟩ := mem_fused.mp h
    rw [hmem] at hc
    rw [rrfScore_numbered hv hf]
    obtain ⟨hpos, hle, htop⟩ := fused_bounds (k := k) hc
    refine ⟨⟨_, lookup_rrfFuse hv hf hc, rfl⟩, ⟨hpos, hle⟩, htop, ?_⟩
    intro config today chunk hs
    obtain ⟨hb, hb1⟩ := applyBoostToChunk_score exact config today (hs ▸ hpos)
    exact ⟨hb, hb1.trans (hs ▸ hle), hb1⟩

/-- Exact arithmetic, ASCII letters, and a tokenizer that counts characters. -/
def exactEnv : Env where
  fl := id
  floatStr := fixed2
  isPrintable := fun _ => false
  isWord := fun c => c.isAlphanum || c == '_'
  sameLetter := fun a b => a.toLower == b.toLower
  countTokens := fun s => .ok s.length
  dumpJson := fun pack => pack.evidence.flatMap (·.text)
  anyUrl := fun u => .ok u

/-- Chunk 7 leads both arms, chunk 8 is second in one. -/
theorem fused_refines_rrfFuse_sample :
    (∃ r, lookupFirst (rrfFuse [[7, 8], [7, 9]] 60) 7 = some r ∧ 1 = r * (((60 : ℕ) + 1) / 2)) ∧
    (61 / 124 : ℚ) ≤ 1 :=
  have h := (fused_refines_rrfFuse [7, 8] [7, 9] (by decide) (by decide) 60 exactEnv
    fun _ => rfl).2.2
  ⟨(h 7 1 (by decide +kernel)).1, (h 8 (61 / 124) (by decide +kernel)).2.1.2⟩

end KnowledgeKiln.L2.Fusion
