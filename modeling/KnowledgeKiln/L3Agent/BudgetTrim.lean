import KnowledgeKiln.Core.Selection
import KnowledgeKiln.L2Retrieval.Staleness
import KnowledgeKiln.L3Agent.Serializers

/-!
# The trim of two aligned lists

`trim_evidence_to_budget` as it is called: a list of chunks and a list with the text of each. Equal
chunks may come with different texts, so the loop is followed on the pairs.

* `trim_eq`: a pack calls it with the texts of its chunks.
* `trimLoop_returns`: the loop stops behind the longest list of pairs that is `Admitted`.
* `trim_maximal`: the same in terms of the two caps, with the count it returns.
-/
namespace KnowledgeKiln.L3.BudgetTrim

open KnowledgeKiln.Core KnowledgeKiln.L2 KnowledgeKiln.L2.Ranking KnowledgeKiln.L3.Serializers

/-- mirrors agent/serializers.py:136-165 -/
def trimEvidenceToBudget (env : Env) (chunks : List RankedChunk) (contents : List Str)
    (maxChunks maxTokens : Nat) : Py (List RankedChunk × Nat) :=
  if chunks = [] then pure ([], 0)
  else if contents.length ≠ chunks.length then
    throw (.valueError ("contents/chunks length mismatch: ".toList ++ natStr contents.length ++
      " vs " ++ natStr chunks.length))
  else trimLoop env maxChunks maxTokens [] 0 (chunks.zip contents)

/-- A pack computes the texts from the chunks, so it never sees the mismatch. -/
theorem trim_eq (env : Env) (chunks : List RankedChunk) (contents : RankedChunk → Str)
    (maxChunks maxTokens : Nat) :
    Serializers.trimEvidenceToBudget env chunks contents maxChunks maxTokens =
      trimEvidenceToBudget env chunks (chunks.map contents) maxChunks maxTokens := by
  have hzip : chunks.map (fun c => (c, contents c)) = chunks.zip (chunks.map contents) := by
    conv_rhs => rw [← List.map_id chunks, List.map_map, List.zip_map']
    rfl
  rw [Serializers.trimEvidenceToBudget, trimEvidenceToBudget, hzip]
  split
  · rename_i hnil
    rw [hnil]
    rfl
  · rw [if_neg (by simp)]

/-! ## The loop -/

section
variable {env : Env} {count : Str → Nat} {maxChunks maxTokens : Nat}

/-- What the texts of some pairs count. -/
def tokensOf (count : Str → Nat) (pairs : List (RankedChunk × Str)) : Nat :=
  (pairs.map fun p => count p.2).sum

/-- Both caps, but for a single pair, which may count what it wants. -/
def Admitted (count : Str → Nat) (maxChunks maxTokens : Nat) (pairs : List (RankedChunk × Str)) :
    Prop :=
  pairs.length ≤ maxChunks ∧ (pairs.length ≤ 1 ∨ tokensOf count pairs ≤ maxTokens)

@[simp] theorem tokensOf_nil : tokensOf count [] = 0 := rfl

@[simp] theorem tokensOf_append (ps qs : List (RankedChunk × Str)) :
    tokensOf count (ps ++ qs) = tokensOf count ps + tokensOf count qs := by
  rw [tokensOf, List.map_append, List.sum_append]
  rfl

@[simp] theorem tokensOf_singleton (p : RankedChunk × Str) : tokensOf count [p] = count p.2 := by
  simp [tokensOf]

theorem tokensOf_mono {ps qs : List (RankedChunk × Str)} (h : ps <+: qs) :
    tokensOf count ps ≤ tokensOf count qs := by
  obtain ⟨rest, rfl⟩ := h
  rw [tokensOf_append]
  exact Nat.le_add_right _ _

/-- Behind the pairs `done` the loop returns, and what it keeps is the longest list that is
admitted. -/
theorem trimLoop_returns : ∀ {rest done : List (RankedChunk × Str)},
    (∀ p ∈ rest, env.countTokens p.2 = .ok (count p.2)) → Admitted count maxChunks maxTokens done →
    ∃ ps, trimLoop env maxChunks maxTokens (done.map Prod.fst) (tokensOf count done) rest =
        .ok (ps.map Prod.fst, tokensOf count ps) ∧
      LongestPrefix (Admitted count maxChunks maxTokens) (done ++ rest) ps
  | [], done, _, hd => by
    refine ⟨done, rfl, ?_⟩
    rw [List.append_nil]
    exact ⟨List.prefix_refl _, hd, fun q hq _ => hq.length_le⟩
  | (chunk, text) :: rest, done, hcount, hd => by
    have htext : env.countTokens text = .ok (count text) := hcount _ List.mem_cons_self
    rw [trimLoop, List.length_map]
    by_cases hfull : maxChunks ≤ done.length
    · rw [if_pos hfull]
      exact ⟨done, rfl, List.prefix_append _ _, hd, fun q _ hq => hq.1.trans hfull⟩
    · rw [if_neg hfull, htext]
      simp only [bind, Except.bind, ne_eq, List.map_eq_nil_iff]
      by_cases hover : maxTokens < tokensOf count done + count text ∧ done ≠ []
      · rw [if_pos hover]
        refine ⟨done, rfl, List.prefix_append _ _, hd, fun q hq hadm => ?_⟩
        by_contra hlt
        -- a longer list holds the next pair too, and then counts more than the budget
        have hnext : done ++ [(chunk, text)] <+: q := by
          refine List.prefix_of_prefix_length_le ⟨rest, by simp⟩ hq ?_
          rw [List.length_append, List.length_singleton]
          omega
        have htok := @tokensOf_mono count _ _ hnext
        rw [tokensOf_append, tokensOf_singleton] at htok
        dsimp only at htok
        have hpos := List.length_pos_iff.mpr hover.2
        rcases hadm.2 with hone | hle
        · omega
        · omega
      · rw [if_neg hover]
        have hd' : Admitted count maxChunks maxTokens (done ++ [(chunk, text)]) := by
          unfold Admitted
          rw [tokensOf_append, tokensOf_singleton, List.length_append, List.length_singleton]
          refine ⟨by omega, ?_⟩
          by_cases hnil : done = []
          · exact .inl (by simp [hnil])
          · exact .inr (Nat.not_lt.mp fun hlt => hover ⟨hlt, hnil⟩)
        have hrest : ∀ p ∈ rest, env.countTokens p.2 = .ok (count p.2) :=
          fun p hp => hcount p (List.mem_cons_of_mem _ hp)
        obtain ⟨ps, hps, hlong⟩ := trimLoop_returns hrest hd'
        rw [List.map_append, tokensOf_append, tokensOf_singleton] at hps
        rw [List.append_assoc, List.singleton_append] at hlong
        exact ⟨ps, hps, hlong⟩

end

/-! ## The two lists -/

/-- What the first `n` texts count. -/
def totalTokens (count : Str → Nat) (contents : List Str) (n : Nat) : Nat :=
  ((contents.take n).map count).sum

section
variable {count : Str → Nat} {chunks : List RankedChunk} {contents : List Str}
  {pairs : List (RankedChunk × Str)}

/-- The first pairs hold the first elements of each list. -/
theorem prefix_zip (hlen : contents.length = chunks.length) (h : pairs <+: chunks.zip contents) :
    pairs.map Prod.fst <+: chunks ∧ pairs.map Prod.snd = contents.take pairs.length := by
  have htake := List.prefix_iff_eq_take.mp h
  constructor
  · have hfst := h.map Prod.fst
    rwa [List.map_fst_zip hlen.ge] at hfst
  · conv_lhs => rw [htake, List.map_take, List.map_snd_zip hlen.le]

theorem tokensOf_eq (hlen : contents.length = chunks.length) (h : pairs <+: chunks.zip contents) :
    tokensOf count pairs = totalTokens count contents pairs.length := by
  rw [totalTokens, ← (prefix_zip hlen h).2, List.map_map]
  rfl

end

/-- **The trim is maximal.** For aligned lists whose texts can be counted. -/
theorem trim_maximal (env : Env) (chunks : List RankedChunk) (contents : List Str)
    (maxChunks maxTokens : Nat) (count : Str → Nat) (hlen : contents.length = chunks.length)
    (hmax : 1 ≤ maxChunks) (hcount : ∀ text ∈ contents, env.countTokens text = .ok (count text)) :
    ∃ kept used,
      trimEvidenceToBudget env chunks contents maxChunks maxTokens = .ok (kept, used) ∧
      kept <+: chunks ∧ (chunks ≠ [] → kept ≠ []) ∧
      kept.length ≤ maxChunks ∧
      (totalTokens count contents kept.length ≤ maxTokens ∨ kept.length = 1) ∧
      (∀ longer, longer <+: chunks → kept.length < longer.length →
        ¬(longer.length ≤ maxChunks ∧ totalTokens count contents longer.length ≤ maxTokens)) ∧
      used = totalTokens count contents kept.length := by
  by_cases hnil : chunks = []
  · subst hnil
    refine ⟨[], 0, rfl, List.prefix_refl _, fun h => absurd rfl h, Nat.zero_le _, .inl ?_, ?_, rfl⟩
    · simp [totalTokens]
    · intro longer hl hlt
      simp [List.prefix_nil.mp hl] at hlt
  · have hzip : ∀ p ∈ chunks.zip contents, env.countTokens p.2 = .ok (count p.2) :=
      fun p hp => hcount p.2 (List.of_mem_zip hp).2
    have hempty : Admitted count maxChunks maxTokens [] := ⟨Nat.zero_le _, .inl (Nat.zero_le _)⟩
    obtain ⟨ps, hps, hlong⟩ := trimLoop_returns hzip hempty
    rw [List.nil_append] at hlong
    have hfirst := prefix_zip hlen hlong.initial
    have htokens := @tokensOf_eq count _ _ _ hlen hlong.initial
    -- the longest list is not shorter than the first pair alone
    have hpos : 1 ≤ ps.length := by
      have hone := hlong.longest ((chunks.zip contents).take 1) (List.take_prefix _ _)
        ⟨(List.length_take_le _ _).trans hmax, .inl (List.length_take_le _ _)⟩
      have hc := List.length_pos_iff.mpr hnil
      rw [List.length_take, List.length_zip] at hone
      omega
    refine ⟨ps.map Prod.fst, tokensOf count ps, ?_, hfirst.1, fun _ => ?_, ?_, ?_, ?_, ?_⟩
    · rw [trimEvidenceToBudget, if_neg hnil, if_neg (by simp [hlen])]
      exact hps
    · rw [← List.length_pos_iff, List.length_map]
      exact hpos
    · rw [List.length_map]
      exact hlong.holds.1
    · rw [List.length_map, ← htokens]
      rcases hlong.holds.2 with hone | hle
      · exact .inr (by omega)
      · exact .inl hle
    · intro longer hl hlt hboth
      rw [List.length_map] at hlt
      have hq : (chunks.zip contents).take longer.length <+: chunks.zip contents :=
        List.take_prefix _ _
      have hqlen : ((chunks.zip contents).take longer.length).length = longer.length := by
        rw [List.length_take, List.length_zip]
        have := hl.length_le
        omega
      have hle := hlong.longest _ hq ⟨by omega, .inr (by
        rw [tokensOf_eq hlen hq, hqlen]
        exact hboth.2)⟩
      omega
    · rw [List.length_map]
      exact htokens

/-- Two equal chunks with two texts, the second of which does not fit. -/
theorem trim_maximal_two :
    ∃ kept used,
      trimEvidenceToBudget exactEnv [reviewedOn 1 none, reviewedOn 1 none] ["abc", "de"] 2 4 =
        .ok (kept, used) ∧
      kept <+: [reviewedOn 1 none, reviewedOn 1 none] ∧
      ([reviewedOn 1 none, reviewedOn 1 none] ≠ [] → kept ≠ []) ∧
      kept.length ≤ 2 ∧
      (totalTokens List.length ["abc", "de"] kept.length ≤ 4 ∨ kept.length = 1) ∧
      (∀ longer, longer <+: [reviewedOn 1 none, reviewedOn 1 none] →
        kept.length < longer.length →
        ¬(longer.length ≤ 2 ∧ totalTokens List.length ["abc", "de"] longer.length ≤ 4)) ∧
      used = totalTokens List.length ["abc", "de"] kept.length :=
  trim_maximal exactEnv [reviewedOn 1 none, reviewedOn 1 none] ["abc", "de"] 2 4 List.length rfl
    (by decide) fun _ _ => rfl

end KnowledgeKiln.L3.BudgetTrim
