import KnowledgeKiln.L2Retrieval.Ranking

/-!
# Staleness, warned about and weighed

`stale_warnings` compares a review date with a threshold date, `_freshness_factor` an age with the
window. The threshold date has to exist; the age always does.

* `staleFor_eq`: a document gives at most one warning, and gives it when one of its chunks is due.
* `reviewedBefore_iff_decayed`: the two comparisons are one.
* `staleness_agrees_iff`: when the two functions agree on a list of chunks.
-/
namespace KnowledgeKiln.L2.Ranking

open KnowledgeKiln.Core

/-- The `stale_source` warnings for one document. -/
def staleFor (documentId : Uuid) (ws : List Warning) : Nat :=
  ws.countP fun w => w.type = .staleSource ∧ w.sourceId = some documentId

/-- `stale_warnings` returns, and each document has one warning if its chunks lose freshness and
none if they do not. (`apply_boosts` has no step that raises.) -/
def StalenessAgrees (env : Env) (config : RetrievalConfig) (today : Date)
    (chunks : List RankedChunk) : Prop :=
  ∃ ws, staleWarnings chunks today config.staleAfterDays = .ok ws ∧ ∀ c ∈ chunks,
    staleFor c.documentId ws =
      if freshnessFactor env c.lastReviewed today config.staleAfterDays < 1 then 1 else 0

/-- The chunks of a document carry its review date. -/
def SharedReviews (chunks : List RankedChunk) : Prop :=
  ∀ c ∈ chunks, ∀ d ∈ chunks, c.documentId = d.documentId → c.lastReviewed = d.lastReviewed

/-! ## One warning for each document -/

theorem staleWarning_eq_some {threshold : Nat} {n : Days} {c : RankedChunk} {w : Warning}
    (h : staleWarning threshold n c = some w) :
    w.type = .staleSource ∧ w.sourceId = some c.documentId := by
  unfold staleWarning at h
  split at h
  · cases h
    exact ⟨rfl, rfl⟩
  · cases h

theorem staleFor_cons {threshold : Nat} {n : Days} {c : RankedChunk} {w : Warning}
    (h : staleWarning threshold n c = some w) (documentId : Uuid) (ws : List Warning) :
    staleFor documentId (w :: ws) =
      staleFor documentId ws + if c.documentId = documentId then 1 else 0 := by
  obtain ⟨ht, hs⟩ := staleWarning_eq_some h
  simp [staleFor, List.countP_cons, ht, hs]

/-- A document that has not been seen gives its one warning when one of its chunks is due. -/
theorem staleFor_eq {threshold : Nat} {n : Days} (documentId : Uuid) :
    ∀ {cs : List RankedChunk} {seen : List Uuid},
      staleFor documentId (onePerDocument (staleWarning threshold n) seen cs) =
        if documentId ∉ seen ∧
          ∃ c ∈ cs, c.documentId = documentId ∧ reviewedBefore threshold c = true then 1 else 0
  | [], seen => by simp [onePerDocument, staleFor]
  | c :: cs, seen => by
    unfold onePerDocument
    split
    · rename_i hseen
      rw [staleFor_eq documentId]
      -- a document that was seen is passed over
      refine if_congr (and_congr_right fun hn => ?_) rfl rfl
      have hne : c.documentId ≠ documentId := fun he => hn (he ▸ hseen)
      simp [hne]
    · rename_i hseen
      cases hw : staleWarning threshold n c with
      | none =>
        have hc := staleWarning_eq_none.mp hw
        dsimp only
        rw [staleFor_eq documentId]
        simp [hc]
      | some w =>
        have hc : reviewedBefore threshold c = true := by
          by_contra hc
          rw [staleWarning_eq_none.mpr (Bool.eq_false_iff.mpr hc)] at hw
          cases hw
        dsimp only
        rw [staleFor_cons hw, staleFor_eq documentId]
        by_cases he : c.documentId = documentId
        · subst he
          simp [hseen, hc]
        · have he' : documentId ≠ c.documentId := fun h => he h.symm
          simp [he, he']

/-! ## A date and an age -/

theorem reviewedBefore_iff_decayed {env : Env} (hfl : ∀ x, env.fl x = x) {today : Date} {n : Days}
    {threshold : Nat} (ht : today.subDays n = .ok threshold) (c : RankedChunk) :
    reviewedBefore threshold c = true ↔
      freshnessFactor env c.lastReviewed today (some n) < 1 := by
  obtain ⟨-, hn, rfl⟩ := Date.subDays_ok.mp ht
  unfold reviewedBefore freshnessFactor
  cases c.lastReviewed with
  | none => norm_num
  | some d =>
    have hpos : (0 : ℚ) < n.val := by exact_mod_cast n.2
    dsimp only
    rw [decide_eq_true_eq]
    by_cases hage : ((today.daysSince d : Int) : ℚ) ≤ n.val
    · rw [if_pos hage]
      have hz : today.daysSince d ≤ n.val := by exact_mod_cast hage
      unfold Date.daysSince at hz
      refine iff_of_false ?_ (lt_irrefl _)
      omega
    · rw [if_neg hage]
      have hz : (n.val : Int) < today.daysSince d := by
        rw [not_le] at hage
        exact_mod_cast hage
      unfold Date.daysSince at hz
      refine iff_of_true (by omega) ?_
      -- past the window the decay is positive
      have hdecay : 0 < ((today.daysSince d : ℚ) - n.val) / n.val :=
        div_pos (sub_pos.mpr (not_le.mp hage)) hpos
      simp only [hfl]
      have hmin : 0 < min 1 (((today.daysSince d : ℚ) - n.val) / n.val) := lt_min one_pos hdecay
      refine max_lt (by norm_num) ?_
      linarith

/-- **The two functions agree** on a list of chunks, for every configuration and date, exactly when
the window is off or shorter than the calendar behind `today`. -/
theorem staleness_agrees_iff (env : Env) (config : RetrievalConfig) (today : Date)
    (chunks : List RankedChunk) (hfl : ∀ x, env.fl x = x) (hs : SharedReviews chunks) :
    StalenessAgrees env config today chunks ↔
      ∀ n ∈ config.staleAfterDays, n.val < today.toordinal := by
  unfold StalenessAgrees
  cases hn : config.staleAfterDays with
  | none =>
    refine iff_of_true ⟨[], rfl, fun c _ => ?_⟩ (by simp)
    simp [staleFor, freshnessFactor]
  | some n =>
    simp only [Option.mem_some_iff, forall_eq']
    constructor
    · rintro ⟨ws, hw, -⟩
      obtain ⟨threshold, ht, -⟩ := Py.bind_ok.mp hw
      exact (Date.subDays_ok.mp ht).2.1
    · intro hlt
      have hle : n.val ≤ 999999999 := hlt.le.trans today.toordinal_le
      have ht : today.subDays n = .ok (today.toordinal - n) :=
        Date.subDays_ok.mpr ⟨hle, hlt, rfl⟩
      refine ⟨_, Py.bind_ok.mpr ⟨_, ht, rfl⟩, fun c hc => ?_⟩
      rw [staleFor_eq]
      refine if_congr ?_ rfl rfl
      rw [← reviewedBefore_iff_decayed hfl ht]
      constructor
      · rintro ⟨-, d, hd, hid, hdue⟩
        unfold reviewedBefore at hdue ⊢
        rwa [hs c hc d hd hid.symm]
      · exact fun hdue => ⟨by simp, c, hc, rfl, hdue⟩

/-! ## Two windows -/

/-- Exact arithmetic. -/
def exactEnv : Env where
  fl := id
  floatStr := fun _ => []
  isPrintable := fun _ => false
  isWord := Char.isAlphanum
  sameLetter := fun a b => a == b
  countTokens := fun s => .ok s.length
  dumpJson := fun _ => []
  anyUrl := fun u => .ok u

theorem labourDay_year : 1 ≤ 2024 ∧ 2024 ≤ 9999 := by decide

/-- A day in 2024. -/
def labourDay : Date := ⟨2024, 5, 1, labourDay_year, by decide, by decide⟩

/-- A chunk of a document that was reviewed on this day. -/
def reviewedOn (documentId : Uuid) (lastReviewed : Option Date) : RankedChunk where
  chunkId := documentId
  documentId := documentId
  score := 1
  status := "active"
  headingPath := []
  authority := none
  lastReviewed := lastReviewed
  hasPromptInjection := false
  hasSensitiveContent := false
  chunkMetadata := {}
  chunkIndex := 0
  chunkCount := 1

/-- One document reviewed today and one never reviewed. -/
def twoReviews : List RankedChunk := [reviewedOn 1 (some labourDay), reviewedOn 2 none]

theorem twoReviews_shared : SharedReviews twoReviews := by
  unfold SharedReviews
  decide

theorem staleness_agrees_year : StalenessAgrees exactEnv defaultConfig labourDay twoReviews := by
  refine (staleness_agrees_iff exactEnv defaultConfig labourDay twoReviews (fun _ => rfl)
    twoReviews_shared).mpr ?_
  intro n hn
  cases hn
  decide

/-- A window that is meant to be endless. -/
def endlessWindow : RetrievalConfig :=
  { defaultConfig with staleAfterDays := some ⟨1000000, by decide⟩ }

/-- No date lies so far back, and `stale_warnings` raises; the factor of the chunk is 1. -/
theorem endless_window_raises :
    staleWarnings [reviewedOn 1 (some labourDay)] labourDay endlessWindow.staleAfterDays =
        .error .overflowError ∧
      freshnessFactor exactEnv (some labourDay) labourDay endlessWindow.staleAfterDays = 1 ∧
      SharedReviews [reviewedOn 1 (some labourDay)] ∧
      ¬ StalenessAgrees exactEnv endlessWindow labourDay [reviewedOn 1 (some labourDay)] := by
  have hraise : staleWarnings [reviewedOn 1 (some labourDay)] labourDay
      endlessWindow.staleAfterDays = .error .overflowError := by
    decide +kernel
  refine ⟨hraise, by decide +kernel, ?_, ?_⟩
  · unfold SharedReviews
    decide
  · rintro ⟨ws, hw, -⟩
    rw [hraise] at hw
    cases hw

end KnowledgeKiln.L2.Ranking
