import KnowledgeKiln.L2Retrieval.HybridSelect
import KnowledgeKiln.L3Agent.ContextPack

/-!
# What the order of tied rows decides

The SELECTs order by score alone, so the database may list tied rows in any order, and the sort
after the boosts keeps the order it is given.

* `OrderOf`: the orders in which the database may return one set of rows.
* `candidates_eq_ranked`: when the candidates are those of the ranking by score and chunk id.
* `packFromRows_order`: what comes after the candidates does not depend on the order.
* `agree_iff`: exactly when two runs over one set of rows answer alike.
* `runs_differ`: two rows of one score.
-/
namespace KnowledgeKiln.L3.RowOrder

open KnowledgeKiln.Core KnowledgeKiln.L2 KnowledgeKiln.L2.Ranking KnowledgeKiln.L2.Engine
  KnowledgeKiln.L2.HybridSelect KnowledgeKiln.L3.Serializers KnowledgeKiln.L3.ContextPack

variable {env : Env} {k : Call} {rows rows₁ rows₂ : List SearchRow} {n : Nat}

/-- An order of `rows` that `ORDER BY score DESC` admits. -/
structure OrderOf (rows rows' : List SearchRow) : Prop where
  perm : rows'.Perm rows
  sorted : rows'.Pairwise fun a b => b.score ≤ a.score

/-- A search with the arguments of the call. -/
def searchOn (env : Env) (k : Call) (rows : List SearchRow) : Py SearchResult :=
  search env k.config k.phrases (k.onRows rows).sur k.query k.filters k.maxChunks

def boosted (env : Env) (k : Call) (r : SearchRow) : RankedChunk :=
  applyBoostToChunk env k.config k.sur.boostDay (rowToRankedChunk r)

/-- The first `n` in the order of `isolated_match_warning`: by score, ties by chunk id. -/
def ranked (env : Env) (k : Call) (rows : List SearchRow) (n : Nat) : List RankedChunk :=
  ((rows.map (boosted env k)).insertionSort byScoreThenId).take n

/-- `a` comes before `b` in that order. -/
def before (a b : RankedChunk) : Prop :=
  b.score < a.score ∨ (a.score = b.score ∧ a.chunkId < b.chunkId)

instance : DecidableRel before := fun a b => by unfold before; infer_instance

/-- Of two candidates that tie after the boosts, the one with the smaller chunk id scored strictly
higher before them, unless `n` candidates come before it. -/
def TiesSettled (env : Env) (k : Call) (rows : List SearchRow) (n : Nat) : Prop :=
  ∀ a ∈ rows, ∀ b ∈ rows, (boosted env k a).score = (boosted env k b).score →
    a.chunkId < b.chunkId → rows.countP (fun c => before (boosted env k c) (boosted env k a)) < n →
    b.score < a.score

instance : Decidable (TiesSettled env k rows n) := by unfold TiesSettled; infer_instance

/-! ## Two orders of the rows -/

/-- The candidates, as rows. -/
theorem candidates_eq (env : Env) (k : Call) (rows : List SearchRow) :
    candidates env k.config k.sur.boostDay rows n =
      ((sortDesc (fun r => (boosted env k r).score) rows).take n).map (boosted env k) := by
  rw [candidates, applyBoosts, List.map_map, List.map_take]
  congr 1
  exact sortDesc_map (boosted env k) (·.score) (fun _ => rfl) rows

/-- The ranking, as rows. -/
def ranking (env : Env) (k : Call) (rows : List SearchRow) : List SearchRow :=
  rows.insertionSort fun a b => byScoreThenId (boosted env k a) (boosted env k b)

theorem ranked_eq (env : Env) (k : Call) (rows : List SearchRow) :
    ranked env k rows n = ((ranking env k rows).take n).map (boosted env k) := by
  rw [ranked, ranking, List.map_take]
  congr 1
  symm
  apply List.map_insertionSort
  intro a _ b _
  exact Iff.rfl

theorem before_asymm (a b : RankedChunk) (h : before a b) : ¬ before b a := by
  unfold before at *
  grind

theorem chunkId_inj (hn : (rows.map (·.chunkId)).Nodup) {a b : SearchRow} (ha : a ∈ rows)
    (hb : b ∈ rows) (h : a.chunkId = b.chunkId) : a = b := List.inj_on_of_nodup_map hn ha hb h

theorem ranking_perm (env : Env) (k : Call) (rows : List SearchRow) :
    (ranking env k rows).Perm rows := List.perm_insertionSort _ _

theorem ranking_pairwise (hn : (rows.map (·.chunkId)).Nodup) :
    (ranking env k rows).Pairwise fun a b => before (boosted env k a) (boosted env k b) := by
  have htotal : Std.Total fun a b => byScoreThenId (boosted env k a) (boosted env k b) :=
    ⟨fun a b => Std.Total.total (boosted env k a) (boosted env k b)⟩
  have htrans : IsTrans SearchRow fun a b => byScoreThenId (boosted env k a) (boosted env k b) :=
    ⟨fun a b c => IsTrans.trans (boosted env k a) (boosted env k b) (boosted env k c)⟩
  have hs : (ranking env k rows).Pairwise fun a b =>
      byScoreThenId (boosted env k a) (boosted env k b) := List.pairwise_insertionSort _ _
  have hids : (ranking env k rows).Pairwise fun a b => a.chunkId ≠ b.chunkId :=
    List.pairwise_map.mp (((ranking_perm env k rows).map _).nodup_iff.mpr hn)
  refine (hs.and hids).imp ?_
  rintro a b ⟨h | ⟨h, hid⟩, hne⟩
  · exact .inl h
  · exact .inr ⟨h, lt_of_le_of_ne hid hne⟩

/-- An element of the cut is one that fewer than `n` candidates come before. -/
theorem mem_take_ranking (hn : (rows.map (·.chunkId)).Nodup) {a : SearchRow} (ha : a ∈ rows) :
    a ∈ (ranking env k rows).take n ↔
      rows.countP (fun c => before (boosted env k c) (boosted env k a)) < n := by
  have hp := ranking_perm env k rows
  rw [mem_take_iff (r := fun a b => before (boosted env k a) (boosted env k b))
    (fun _ _ => before_asymm _ _) (ranking_pairwise hn) (hp.mem_iff.mpr ha), hp.countP_eq]

/-- **Settled ties.** Then every order of the rows gives the ranking. -/
theorem candidates_eq_ranked (hl : Listed rows) (ho : OrderOf rows rows₁)
    (ht : TiesSettled env k rows n) :
    candidates env k.config k.sur.boostDay rows₁ n = ranked env k rows n := by
  have hS : (sortDesc (fun r => (boosted env k r).score) rows₁).Pairwise
      (LexDesc (fun r => (boosted env k r).score) (·.score)) := sortDesc_lex ho.sorted
  have hp : (sortDesc (fun r => (boosted env k r).score) rows₁).Perm (ranking env k rows) :=
    (sortDesc_perm _ _).trans (ho.perm.trans (ranking_perm env k rows).symm)
  rw [candidates_eq, ranked_eq]
  congr 1
  refine take_eq_take hp hS (ranking_pairwise hl.chunk_nodup) ?_
  rintro a ha b hb hne hab ⟨hle, htie⟩
  have ha' : a ∈ rows := (ranking_perm env k rows).mem_iff.mp (List.mem_of_mem_take ha)
  have hb' : b ∈ rows := (ranking_perm env k rows).mem_iff.mp hb
  rcases hab with hlt | ⟨heq, hid⟩
  · exact absurd hle (not_le.mpr hlt)
  · have hcount := (mem_take_ranking hl.chunk_nodup ha').mp ha
    exact absurd (ht a ha' b hb' heq hid hcount) (not_lt.mpr (htie heq.symm))

/-- **And only then.** A tie that is not settled is listed the other way round in some order. -/
theorem tiesSettled_of_ranked (hl : Listed rows)
    (h : ∀ rows₁, OrderOf rows rows₁ →
      candidates env k.config k.sur.boostDay rows₁ n = ranked env k rows n) :
    TiesSettled env k rows n := by
  intro a ha b hb heq hid hcount
  by_contra hlt
  have hne : a ≠ b := fun e => hid.ne (congrArg SearchRow.chunkId e)
  -- best first, and among equals the larger chunk id first
  let r : SearchRow → SearchRow → Prop := fun x y =>
    y.score < x.score ∨ (x.score = y.score ∧ y.chunkId ≤ x.chunkId)
  have hdec : DecidableRel r := fun x y => by unfold r; infer_instance
  have htotal : Std.Total r := ⟨fun x y => by unfold r; grind⟩
  have htrans : IsTrans SearchRow r := ⟨fun x y z => by unfold r; grind⟩
  have hperm : (rows.insertionSort r).Perm rows := List.perm_insertionSort _ _
  have hsorted : (rows.insertionSort r).Pairwise r := List.pairwise_insertionSort _ _
  have hord : OrderOf rows (rows.insertionSort r) := by
    refine ⟨hperm, hsorted.imp ?_⟩
    rintro x y (h | ⟨h, -⟩)
    · exact h.le
    · exact h.ge
  have hba : [b, a].Sublist (rows.insertionSort r) := by
    rcases pair_sublist_or hne (hperm.mem_iff.mpr ha) (hperm.mem_iff.mpr hb) with hab | hba
    · rcases List.pairwise_iff_forall_sublist.mp hsorted hab with h | ⟨-, h⟩
      · exact absurd h hlt
      · exact absurd hid (not_lt.mpr h)
    · exact hba
  have hbaS : [b, a].Sublist (sortDesc (fun r => (boosted env k r).score) (rows.insertionSort r)) :=
    List.pair_sublist_insertionSort heq.le hba
  have hrank := ranking_perm env k rows
  have habC : [a, b].Sublist (ranking env k rows) := by
    rcases pair_sublist_or hne (hrank.mem_iff.mpr ha) (hrank.mem_iff.mpr hb) with hab | hba
    · exact hab
    · rcases List.pairwise_iff_forall_sublist.mp (ranking_pairwise hl.chunk_nodup) hba with
        h | ⟨-, h⟩
      · exact absurd h (by rw [heq]; exact lt_irrefl _)
      · exact absurd hid (not_lt.mpr h.le)
  have hn : ∀ l : List SearchRow, l.Perm rows → (l.map (boosted env k)).Nodup := by
    intro l hp
    refine List.Nodup.of_map (·.chunkId) ?_
    rw [List.map_map]
    exact (hp.map _).nodup_iff.mpr hl.chunk_nodup
  have htake := h _ hord
  rw [candidates_eq, ranked_eq, List.map_take, List.map_take] at htake
  have hmem : boosted env k a ∈ ((ranking env k rows).map (boosted env k)).take n := by
    rw [← List.map_take]
    exact List.mem_map_of_mem ((mem_take_ranking hl.chunk_nodup ha).mpr hcount)
  exact precedes_of_take_eq (hn _ ((sortDesc_perm _ _).trans hperm)) (hn _ hrank) htake hmem
    (habC.map (boosted env k)) (hbaS.map (boosted env k))

/-! ## What comes after the candidates -/

theorem chunkText_order (hl : Listed rows) (hp : rows₁.Perm rows) (trimmed : List RankedChunk) :
    chunkText rows₁ trimmed = chunkText rows trimmed := by
  funext id
  have hm : ∀ p, p ∈ ((rows₁.filter fun r => r.chunkId ∈ trimmed.map (·.chunkId)).map
      fun r => (r.chunkId, r.content)).reverse ↔
        p ∈ ((rows.filter fun r => r.chunkId ∈ trimmed.map (·.chunkId)).map
          fun r => (r.chunkId, r.content)).reverse := by
    intro p
    simp only [List.mem_reverse, List.mem_map, List.mem_filter, hp.mem_iff]
  refine lookup_congr hm ?_ id
  intro id a a' ha ha'
  simp only [List.mem_reverse, List.mem_map, List.mem_filter, Prod.mk.injEq] at ha ha'
  obtain ⟨r, ⟨hr, -⟩, rfl, rfl⟩ := ha
  obtain ⟨r', ⟨hr', -⟩, he, rfl⟩ := ha'
  rw [chunkId_inj hl.chunk_nodup (hp.mem_iff.mp hr') (hp.mem_iff.mp hr) he]

theorem documentRefs_order (hl : Listed rows) (hp : rows₁.Perm rows) :
    documentRefsFromRows rows₁ = documentRefsFromRows rows := by
  funext id
  refine lookup_congr ?_ ?_ id
  · intro p
    simp only [List.mem_map, hp.mem_iff]
  · intro id a a' ha ha'
    simp only [List.mem_map, Prod.mk.injEq] at ha ha'
    obtain ⟨r, hr, rfl, rfl⟩ := ha
    obtain ⟨r', hr', he, rfl⟩ := ha'
    exact hl.document r (hp.mem_iff.mp hr) r' (hp.mem_iff.mp hr') he.symm

/-- The pack depends on the order of the rows through the candidates only. -/
theorem packFromRows_order (hl : Listed rows) (hp : rows₁.Perm rows)
    (hc : k.cands env rows₁ = k.cands env rows) (removed : List Str) :
    packFromRows env k rows₁ removed = packFromRows env k rows removed := by
  simp only [packFromRows, Call.conflicts, hc, chunkText_order hl hp, documentRefs_order hl hp]

theorem build_order (hl : Listed rows) (h₁ : rows₁.Perm rows) (h₂ : rows₂.Perm rows)
    (hc₁ : k.cands env rows₁ = k.cands env rows) (hc₂ : k.cands env rows₂ = k.cands env rows) :
    buildContextPack env (k.onRows rows₁) = buildContextPack env (k.onRows rows₂) := by
  have hpack : ∀ removed, packFromRows env (k.onRows rows₁) rows₁ removed =
      packFromRows env (k.onRows rows₂) rows₂ removed := by
    intro removed
    change packFromRows env k rows₁ removed = packFromRows env k rows₂ removed
    rw [packFromRows_order hl h₁ hc₁, packFromRows_order hl h₂ hc₂]
  refine Py.bind_congr fun _ _ => Py.bind_congr fun _ _ => ?_
  change (effectiveQuery env k.phrases k.query >>= fun p => pure (rows₁, p.2)) >>=
      (fun p => packFromRows env (k.onRows rows₁) p.1 p.2) =
    (effectiveQuery env k.phrases k.query >>= fun p => pure (rows₂, p.2)) >>=
      fun p => packFromRows env (k.onRows rows₂) p.1 p.2
  rw [bind_assoc, bind_assoc]
  exact Py.bind_congr fun p _ => hpack p.2

/-! ## Two runs -/

/-- The call is one that a search does not refuse. -/
structure Accepted (env : Env) (k : Call) : Prop where
  query : requireNonempty k.query = .ok ()
  effective : ∃ q removed, effectiveQuery env k.phrases k.query = .ok (q, removed)
  window : ∀ d ∈ k.config.staleAfterDays, ∃ t, k.sur.warnDay.subDays d = .ok t

/-- Two runs answer alike, and list their chunks by score and then by chunk id. -/
structure Agree (env : Env) (k : Call) (rows rows₁ rows₂ : List SearchRow) : Prop where
  search : ∃ res₁ res₂, searchOn env k rows₁ = .ok res₁ ∧ searchOn env k rows₂ = .ok res₂ ∧
    res₁.chunks = res₂.chunks ∧ res₁.chunks = ranked env k rows k.maxChunks
  pack : buildContextPack env (k.onRows rows₁) = buildContextPack env (k.onRows rows₂)

theorem searchOn_returns (ha : Accepted env k) (rows : List SearchRow) :
    ∃ res, searchOn env k rows = .ok res ∧
      res.chunks = candidates env k.config k.sur.boostDay rows k.maxChunks := by
  obtain ⟨q, removed, he⟩ := ha.effective
  have hf : (k.onRows rows).sur.fetch q k.filters = .ok rows := rfl
  have hres : ∃ res, searchOn env k rows = .ok res := search_returns ha.query he hf ha.window
  obtain ⟨res, h⟩ := hres
  have hc : res.chunks = candidates env k.config (k.onRows rows).sur.boostDay rows k.maxChunks :=
    search_chunks he hf h
  exact ⟨res, h, hc⟩

/-- **Order independence.** Over every two orders of the rows, and every limit up to `n`, search
and pack answer alike with ties in chunk id order, exactly when the ties are settled. -/
theorem agree_iff (env : Env) (k : Call) (rows : List SearchRow) (n : Nat) (hl : Listed rows)
    (ha : Accepted env k) :
    (∀ m ≤ n, ∀ rows₁ rows₂, OrderOf rows rows₁ → OrderOf rows rows₂ →
      Agree env { k with maxChunks := m } rows rows₁ rows₂) ↔ TiesSettled env k rows n := by
  constructor
  · intro h
    refine tiesSettled_of_ranked hl fun rows₁ ho => ?_
    obtain ⟨res₁, -, h₁, -, -, hchunks⟩ := (h n le_rfl rows₁ rows₁ ho ho).search
    have hk : Accepted env { k with maxChunks := n } := ⟨ha.query, ha.effective, ha.window⟩
    obtain ⟨res, hres, hc⟩ := searchOn_returns hk rows₁
    cases h₁.symm.trans hres
    exact hc.symm.trans hchunks
  · intro ht m hm rows₁ rows₂ ho₁ ho₂
    have htm : TiesSettled env k rows m := fun a ha b hb heq hid hcount =>
      ht a ha b hb heq hid (hcount.trans_le hm)
    have hk : Accepted env { k with maxChunks := m } := ⟨ha.query, ha.effective, ha.window⟩
    have hself : OrderOf rows rows := ⟨List.Perm.refl _, hl.sorted⟩
    have hcand : ∀ {rows' : List SearchRow}, OrderOf rows rows' →
        candidates env k.config k.sur.boostDay rows' m = ranked env k rows m := fun ho =>
      candidates_eq_ranked hl ho htm
    obtain ⟨res₁, h₁, hc₁⟩ := searchOn_returns hk rows₁
    obtain ⟨res₂, h₂, hc₂⟩ := searchOn_returns hk rows₂
    refine ⟨⟨res₁, res₂, h₁, h₂, ?_, ?_⟩, ?_⟩
    · exact (hc₁.trans (hcand ho₁)).trans (hc₂.trans (hcand ho₂)).symm
    · exact hc₁.trans (hcand ho₁)
    · exact build_order hl ho₁.perm ho₂.perm ((hcand ho₁).trans (hcand hself).symm)
        ((hcand ho₂).trans (hcand hself).symm)

/-! ## Two chunks that each lead one arm -/

def tiedRows (s s' : ℚ) : List SearchRow :=
  [sampleRow 1 1 s "use blue" ["Deploy".toList], sampleRow 2 1 s' "use green" ["Rollback".toList]]

def tiedCall : Call := sampleCall []

theorem tiedCall_accepted : Accepted asciiEnv tiedCall where
  query := rfl
  effective := ⟨_, _, rfl⟩
  window := by
    rintro d ⟨⟩
    exact ⟨_, Date.subDays_ok.mpr ⟨by decide, by decide, rfl⟩⟩

theorem tiedRows_listed {s s' : ℚ} (h : s' ≤ s) : Listed (tiedRows s s') where
  chunk_nodup := by simp [tiedRows, sampleRow]
  document := by
    intro r hr r' hr' _
    simp only [tiedRows, List.mem_cons, List.not_mem_nil, or_false] at hr hr'
    rcases hr with rfl | rfl <;> rcases hr' with rfl | rfl <;> rfl
  sorted := by simpa [tiedRows, sampleRow] using h

/-- Both scored one half: the database decides which comes first. -/
theorem runs_differ : Listed (tiedRows (1 / 2) (1 / 2)) ∧
    OrderOf (tiedRows (1 / 2) (1 / 2)) (tiedRows (1 / 2) (1 / 2)) ∧
    OrderOf (tiedRows (1 / 2) (1 / 2)) (tiedRows (1 / 2) (1 / 2)).reverse ∧
    ¬ Agree asciiEnv tiedCall (tiedRows (1 / 2) (1 / 2)) (tiedRows (1 / 2) (1 / 2))
      (tiedRows (1 / 2) (1 / 2)).reverse := by
  refine ⟨tiedRows_listed le_rfl, ⟨List.Perm.refl _, (tiedRows_listed le_rfl).sorted⟩,
    ⟨List.reverse_perm _, by simp [tiedRows, sampleRow]⟩, fun h => ?_⟩
  obtain ⟨res₁, res₂, h₁, h₂, he, -⟩ := h.search
  obtain ⟨res, hres, hc₁⟩ := searchOn_returns tiedCall_accepted (tiedRows (1 / 2) (1 / 2))
  cases h₁.symm.trans hres
  obtain ⟨res, hres, hc₂⟩ := searchOn_returns tiedCall_accepted (tiedRows (1 / 2) (1 / 2)).reverse
  cases h₂.symm.trans hres
  have hne : candidates asciiEnv tiedCall.config tiedCall.sur.boostDay (tiedRows (1 / 2) (1 / 2))
      tiedCall.maxChunks ≠ candidates asciiEnv tiedCall.config tiedCall.sur.boostDay
        (tiedRows (1 / 2) (1 / 2)).reverse tiedCall.maxChunks := by decide +kernel
  exact hne (hc₁.symm.trans (he.trans hc₂))

/-- The draft of score 1 ties with the active chunk of score 1/2 after the boosts, and only the
boosts tell the two chunks of score 1/3 apart. -/
def settledRows : List SearchRow :=
  [{ sampleRow 1 1 1 "use blue" ["Deploy".toList] with status := "draft" },
    sampleRow 2 2 (1 / 2) "use green" ["Rollback".toList],
    { sampleRow 3 3 (1 / 3) "use red" ["Retire".toList] with status := "draft" },
    sampleRow 4 4 (1 / 3) "use white" ["Restore".toList]]

/-- The other order in which the database may list them. -/
def settledRows' : List SearchRow :=
  [{ sampleRow 1 1 1 "use blue" ["Deploy".toList] with status := "draft" },
    sampleRow 2 2 (1 / 2) "use green" ["Rollback".toList],
    sampleRow 4 4 (1 / 3) "use white" ["Restore".toList],
    { sampleRow 3 3 (1 / 3) "use red" ["Retire".toList] with status := "draft" }]

theorem settledRows_listed : Listed settledRows where
  chunk_nodup := by simp [settledRows, sampleRow]
  document := by
    intro r hr r' hr' hid
    simp only [settledRows, List.mem_cons, List.not_mem_nil, or_false] at hr hr'
    rcases hr with rfl | rfl | rfl | rfl <;> rcases hr' with rfl | rfl | rfl | rfl <;>
      first | rfl | cases hid
  sorted := by
    simp [settledRows, sampleRow]
    norm_num

/-- The first two tie, the last two are listed either way, and the runs agree. -/
theorem runs_agree :
    settledRows.map (fun r => (boosted asciiEnv tiedCall r).score) = [1 / 2, 1 / 2, 1 / 6, 1 / 3] ∧
    settledRows ≠ settledRows' ∧
    Agree asciiEnv { tiedCall with maxChunks := 8 } settledRows settledRows settledRows' := by
  have hl := settledRows_listed
  have hself : OrderOf settledRows settledRows := ⟨List.Perm.refl _, hl.sorted⟩
  have hother : OrderOf settledRows settledRows' := by
    refine ⟨((List.Perm.swap _ _ _).cons _).cons _, ?_⟩
    simp [settledRows', sampleRow]
    norm_num
  refine ⟨by decide +kernel, by simp [settledRows, settledRows', sampleRow], ?_⟩
  exact (agree_iff asciiEnv tiedCall settledRows 8 hl tiedCall_accepted).mpr (by decide +kernel) 8
    le_rfl _ _ hself hother

end KnowledgeKiln.L3.RowOrder
