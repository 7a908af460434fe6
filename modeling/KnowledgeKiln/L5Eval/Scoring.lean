import KnowledgeKiln.Core.Json
import KnowledgeKiln.Core.OrderedDict
import KnowledgeKiln.L2Retrieval.Types

/-!
# Scores of a ranking (eval/scoring.py)

Recall at `k` and the reciprocal rank of one golden case, and their means over a set. Both are read
off the same thing, the position of the first chunk that matches an expected hit. A score is a
rational number; the rounding of floating point is left out.

* `rankedBelow_iff`: a hit is ranked below `k` when one of the first `k` chunks matches it.
* `one_div_le_reciprocalRank_iff`: something is recalled when the reciprocal rank is `1 / k` or more.
* `recallAtK_eq_one_iff`, `recallAtK_mono`: full recall, and more results.
* `recallAtK_le_reciprocalRank`: recall at `k` is at most `k` times the reciprocal rank.
* `mean_mono`, `mean_eq_iff`: the same of the means.
-/
namespace KnowledgeKiln.L5

open KnowledgeKiln.Core KnowledgeKiln.L2

/-- eval/dataset.py:29-36; `must_appear_within_k` is positive as it is loaded. -/
structure ExpectedHit where
  repo : Str
  path : Str
  headingPath : List Str
  mustAppearWithinK : Nat
  deriving DecidableEq

/-- eval/dataset.py:39-47 -/
structure GoldenCase where
  caseId : Str
  query : Str
  filters : JsonDict
  expected : List ExpectedHit
  notes : Json

/-- The chunks of a search in their order, and its `document_refs`. -/
structure Ranking where
  chunks : List RankedChunk
  refs : Uuid → Option DocumentRef

/-! ## One case -/

/-- Mirrors `matches` (scoring.py:24-41). -/
def matchesHit (refs : Uuid → Option DocumentRef) (hit : ExpectedHit) (chunk : RankedChunk) :
    Bool :=
  match refs chunk.documentId with
  | none => false
  | some ref =>
    if ref.repo ≠ some hit.repo then false
    else if ref.path ≠ some hit.path then false
    else if hit.headingPath = [] then true
    else chunk.headingPath = hit.headingPath

/-- Mirrors `first_matching_rank` (scoring.py:44-55). -/
def firstMatchingRank (ranking : Ranking) (hit : ExpectedHit) : Option Nat :=
  ranking.chunks.findIdx? (matchesHit ranking.refs hit)

/-- `rank is not None and rank < k` -/
def rankedBelow (k : Int) : Option Nat → Bool
  | some rank => rank < k
  | none => false

/-- Mirrors `recall_at_k` (scoring.py:58-77). -/
def recallAtK (case : GoldenCase) (ranking : Ranking) (k : Int) : ℚ :=
  if case.expected = [] ∨ k ≤ 0 then 0
  else
    let found := case.expected.countP fun hit => rankedBelow k (firstMatchingRank ranking hit)
    found / case.expected.length

/-- One turn of the loop of `reciprocal_rank`. -/
def betterRank (best rank : Option Nat) : Option Nat :=
  match rank, best with
  | some rank, none => some rank
  | some rank, some best => if rank < best then some rank else some best
  | none, best => best

def bestRank (ranking : Ranking) (expected : List ExpectedHit) : Option Nat :=
  expected.foldl (fun best hit => betterRank best (firstMatchingRank ranking hit)) none

/-- Mirrors `reciprocal_rank` (scoring.py:80-95). -/
def reciprocalRank (case : GoldenCase) (ranking : Ranking) : ℚ :=
  if case.expected = [] then 0
  else
    match bestRank ranking case.expected with
    | none => 0
    | some best => 1 / (best + 1)

/-- scoring.py:101-114 -/
structure CaseResult where
  caseId : Str
  mrr : ℚ
  recallAt : OrderedDict Int ℚ
  perHitRanks : List (Option Nat)
  firstMiss : Option ExpectedHit

/-- Mirrors `score_one` (scoring.py:150-170). -/
def scoreOne (case : GoldenCase) (ranking : Ranking) (kValues : List Int) : CaseResult where
  caseId := case.caseId
  mrr := reciprocalRank case ranking
  recallAt := .ofPairs (kValues.map fun k => (k, recallAtK case ranking k))
  perHitRanks := case.expected.map (firstMatchingRank ranking)
  firstMiss := case.expected.find? fun hit => (firstMatchingRank ranking hit).isNone

/-! ## Means -/

/-- scoring.py:117-123 -/
structure AggregateMetrics where
  mrr : ℚ
  recallAt : OrderedDict Int ℚ
  caseCount : Nat

/-- `sum(f(r) for r in per_case) / n` -/
def mean {α : Type} (f : α → ℚ) (l : List α) : ℚ := (l.map f).sum / l.length

/-- Mirrors `aggregate` (scoring.py:135-147). -/
def aggregate (perCase : List CaseResult) (kValues : List Int) : AggregateMetrics :=
  if perCase.length = 0 then
    { mrr := 0, recallAt := .ofPairs (kValues.map fun k => (k, 0)), caseCount := 0 }
  else
    { mrr := mean CaseResult.mrr perCase
      recallAt := .ofPairs (kValues.map fun k =>
        (k, mean (fun r : CaseResult => (r.recallAt.get k).getD 0) perCase))
      caseCount := perCase.length }

/-! ## What a rank says -/

/-- One of the first `k` chunks is the hit. -/
def FoundWithin (ranking : Ranking) (k : Nat) (hit : ExpectedHit) : Prop :=
  ∃ chunk ∈ ranking.chunks.take k, matchesHit ranking.refs hit chunk = true

section
variable {ranking : Ranking} {hit : ExpectedHit} {case : GoldenCase} {k k' : Nat}

theorem findIdx?_lt_iff {α : Type} {p : α → Bool} : ∀ {l : List α} {k : Nat},
    (∃ i, l.findIdx? p = some i ∧ i < k) ↔ ∃ a ∈ l.take k, p a = true
  | [], k => by simp
  | a :: l, 0 => by simp
  | a :: l, k + 1 => by
    have ih := findIdx?_lt_iff (p := p) (l := l) (k := k)
    rw [List.take_succ_cons, List.findIdx?_cons]
    simp only [List.mem_cons, exists_eq_or_imp]
    cases hp : p a with
    | true => simp
    | false =>
      simp only [Bool.false_eq_true, if_false, false_or, ← ih, Option.map_eq_some_iff]
      constructor
      · intro ⟨i, ⟨j, hj, hi⟩, hlt⟩
        exact ⟨j, hj, by omega⟩
      · intro ⟨j, hj, hlt⟩
        exact ⟨j + 1, ⟨j, hj, rfl⟩, by omega⟩

/-- **Ranks.** A hit is ranked below `k` when one of the first `k` chunks matches it. -/
theorem rankedBelow_iff :
    rankedBelow k (firstMatchingRank ranking hit) = true ↔ FoundWithin ranking k hit := by
  unfold FoundWithin
  rw [← findIdx?_lt_iff]
  unfold firstMatchingRank
  cases ranking.chunks.findIdx? (matchesHit ranking.refs hit) <;> simp [rankedBelow]

theorem FoundWithin.mono (h : FoundWithin ranking k hit) (hk : k ≤ k') :
    FoundWithin ranking k' hit := by
  obtain ⟨chunk, hmem, hmatch⟩ := h
  exact ⟨chunk, (List.take_subset_take_left _ hk) hmem, hmatch⟩

/-! ## Recall -/

theorem recallAtK_eq (he : case.expected ≠ []) (hk : 0 < k) :
    recallAtK case ranking k = (case.expected.countP fun hit =>
      rankedBelow k (firstMatchingRank ranking hit) : ℕ) / (case.expected.length : ℚ) := by
  unfold recallAtK
  rw [if_neg]
  rintro (h | h)
  · exact he h
  · omega

theorem length_pos (he : case.expected ≠ []) : (0 : ℚ) < case.expected.length := by
  exact_mod_cast List.length_pos_iff.mpr he

theorem recallAtK_nonneg {n : Int} : 0 ≤ recallAtK case ranking n := by
  unfold recallAtK
  split
  · exact le_refl _
  · positivity

theorem recallAtK_le_one {n : Int} : recallAtK case ranking n ≤ 1 := by
  unfold recallAtK
  split
  · exact zero_le_one
  · rename_i h
    rw [not_or] at h
    rw [div_le_one (length_pos h.1)]
    exact_mod_cast List.countP_le_length

/-- More results never lose a hit. -/
theorem recallAtK_mono (hk : 0 < k) (hkk : k ≤ k') :
    recallAtK case ranking k ≤ recallAtK case ranking k' := by
  by_cases he : case.expected = []
  · unfold recallAtK
    rw [if_pos (.inl he), if_pos (.inl he)]
  · rw [recallAtK_eq he hk, recallAtK_eq he (hk.trans_le hkk)]
    refine div_le_div_of_nonneg_right ?_ (length_pos he).le
    have hcount : (case.expected.countP fun hit => rankedBelow k (firstMatchingRank ranking hit)) ≤
        case.expected.countP fun hit => rankedBelow k' (firstMatchingRank ranking hit) := by
      refine List.countP_mono_left fun hit _ h => ?_
      rw [rankedBelow_iff] at h ⊢
      exact h.mono hkk
    exact_mod_cast hcount

theorem recallAtK_pos_iff (hk : 0 < k) : 0 < recallAtK case ranking k ↔
    ∃ hit ∈ case.expected, FoundWithin ranking k hit := by
  by_cases he : case.expected = []
  · simp [recallAtK, he]
  · rw [recallAtK_eq he hk, div_pos_iff_of_pos_right (length_pos he), Nat.cast_pos,
      List.countP_pos_iff]
    simp only [rankedBelow_iff]

/-- **Full recall** means that no hit is missing from the first `k`. -/
theorem recallAtK_eq_one_iff (he : case.expected ≠ []) (hk : 0 < k) :
    recallAtK case ranking k = 1 ↔ ∀ hit ∈ case.expected, FoundWithin ranking k hit := by
  rw [recallAtK_eq he hk, div_eq_one_iff_eq (length_pos he).ne', Nat.cast_inj,
    List.countP_eq_length]
  simp only [rankedBelow_iff]

/-! ## Reciprocal rank -/

theorem betterRank_lt_iff {best rank : Option Nat} :
    rankedBelow k (betterRank best rank) = true ↔
      rankedBelow k best = true ∨ rankedBelow k rank = true := by
  cases rank with
  | none => cases best <;> simp [betterRank, rankedBelow]
  | some rank =>
    cases best with
    | none => simp [betterRank, rankedBelow]
    | some best =>
      show rankedBelow k (if rank < best then some rank else some best) = true ↔ _
      by_cases h : rank < best
      · rw [if_pos h]
        simp only [rankedBelow, decide_eq_true_eq, Nat.cast_lt]
        omega
      · rw [if_neg h]
        simp only [rankedBelow, decide_eq_true_eq, Nat.cast_lt]
        omega

theorem foldl_betterRank_lt_iff : ∀ {expected : List ExpectedHit} {best : Option Nat},
    rankedBelow k (expected.foldl
      (fun best hit => betterRank best (firstMatchingRank ranking hit)) best) = true ↔
      rankedBelow k best = true ∨ ∃ hit ∈ expected, FoundWithin ranking k hit
  | [], best => by simp
  | hit :: expected, best => by
    rw [List.foldl_cons, foldl_betterRank_lt_iff, betterRank_lt_iff, rankedBelow_iff, or_assoc]
    simp

/-- The best rank is below `k` when some hit is found there. -/
theorem bestRank_lt_iff {expected : List ExpectedHit} :
    rankedBelow k (bestRank ranking expected) = true ↔
      ∃ hit ∈ expected, FoundWithin ranking k hit := by
  unfold bestRank
  rw [foldl_betterRank_lt_iff]
  simp [rankedBelow]

theorem reciprocalRank_le_one : reciprocalRank case ranking ≤ 1 := by
  unfold reciprocalRank
  split
  · exact zero_le_one
  · split
    · exact zero_le_one
    · rw [div_le_one (by positivity)]
      exact le_add_of_nonneg_left (Nat.cast_nonneg _)

theorem reciprocalRank_nonneg : 0 ≤ reciprocalRank case ranking := by
  unfold reciprocalRank
  split
  · exact le_refl _
  · split
    · exact le_refl _
    · positivity

/-- **Recall and rank** agree on whether anything is among the first `k`. -/
theorem one_div_le_reciprocalRank_iff (hk : 0 < k) :
    1 / (k : ℚ) ≤ reciprocalRank case ranking ↔ 0 < recallAtK case ranking k := by
  have hkq : (0 : ℚ) < k := by exact_mod_cast hk
  rw [recallAtK_pos_iff hk, ← bestRank_lt_iff]
  unfold reciprocalRank
  split
  · rename_i he
    rw [he]
    simp [bestRank, rankedBelow, hk.ne']
  · cases bestRank ranking case.expected with
    | none => simp [rankedBelow, hk.ne']
    | some best =>
      have hb : (0 : ℚ) < (best : ℚ) + 1 := by positivity
      simp only [rankedBelow, decide_eq_true_eq, Nat.cast_lt]
      rw [one_div_le_one_div hkq hb]
      constructor
      · intro h
        have h' : best + 1 ≤ k := by exact_mod_cast h
        omega
      · intro h
        have h' : best + 1 ≤ k := h
        exact_mod_cast h'

/-- Where anything is recalled, the rank is at least `1 / k`. -/
theorem recallAtK_le_reciprocalRank (hk : 0 < k) :
    recallAtK case ranking k ≤ k * reciprocalRank case ranking := by
  have hkq : (0 : ℚ) < k := by exact_mod_cast hk
  rcases (@recallAtK_nonneg ranking case k).eq_or_lt with h0 | hpos
  · rw [← h0]
    exact mul_nonneg hkq.le reciprocalRank_nonneg
  · have hrank := (one_div_le_reciprocalRank_iff hk).mpr hpos
    calc recallAtK case ranking k ≤ 1 := recallAtK_le_one
      _ = k * (1 / k) := (mul_one_div_cancel hkq.ne').symm
      _ ≤ k * reciprocalRank case ranking := mul_le_mul_of_nonneg_left hrank hkq.le

end

/-! ## Means -/

section
variable {α : Type} {f g : α → ℚ} {l : List α}

theorem mean_mono (h : ∀ a ∈ l, f a ≤ g a) : mean f l ≤ mean g l :=
  div_le_div_of_nonneg_right (List.sum_le_sum h) (Nat.cast_nonneg _)

theorem mean_mul {c : ℚ} : mean (fun a => c * f a) l = c * mean f l := by
  unfold mean
  rw [List.sum_map_mul_left, mul_div_assoc]

theorem mean_const (hl : l ≠ []) {c : ℚ} : mean (fun _ => c) l = c := by
  have hlen : (l.length : ℚ) ≠ 0 := by simpa using hl
  unfold mean
  rw [List.map_const', List.sum_replicate, nsmul_eq_mul]
  field_simp

/-- A mean reaches a bound of its terms only where they all do. -/
theorem mean_eq_iff (hl : l ≠ []) {c : ℚ} (hle : ∀ a ∈ l, f a ≤ c) :
    mean f l = c ↔ ∀ a ∈ l, f a = c := by
  have hlen : (0 : ℚ) < l.length := by exact_mod_cast List.length_pos_iff.mpr hl
  constructor
  · intro h a ha
    by_contra hne
    have hlt : (l.map f).sum < (l.map fun _ => c).sum :=
      List.sum_lt_sum _ _ hle ⟨a, ha, lt_of_le_of_ne (hle a ha) hne⟩
    have hmean : mean f l < mean (fun _ => c) l := div_lt_div_of_pos_right hlt hlen
    rw [mean_const hl] at hmean
    exact hmean.ne h
  · intro h
    calc mean f l = mean (fun _ => c) l := by
          unfold mean
          rw [List.map_congr_left h]
      _ = c := mean_const hl

end

end KnowledgeKiln.L5
