import KnowledgeKiln.L2Retrieval.Ranking

/-!
# Conflicts as a function of who answers where

`detectConflicts` groups the gated, live chunks by heading path and reports the paths
with two documents. Its output is determined by the documents under each contested
path:

* `mem_docsUnder`: the documents under a path.
* `conflictsOf_congr`: equal documents under equal contested paths, equal conflicts.
* `countDoc_succ`: a document that newly answers under one contested path is named by
  exactly one more conflict.
-/
namespace KnowledgeKiln.L2.Conflicts

open KnowledgeKiln.Core KnowledgeKiln.L2.Ranking

/-- The conflicts among the gated chunks. -/
def conflictsOf (gated : List RankedChunk) : List Conflict :=
  (sortedSet ((competing gated).map (·.headingPath))).filterMap (conflictAt (competing gated))

theorem detectConflicts_eq (chunks : List RankedChunk) (floor : Option ℚ) (rank : Option Nat) :
    detectConflicts chunks floor rank = conflictsOf (gateForWarnings chunks floor rank) := rfl

/-- The live documents with a gated chunk under `path`. -/
def docsUnder (gated : List RankedChunk) (path : List Str) : List Uuid :=
  docIdsAt (competing gated) path

/-- Two documents answer under `path`. -/
def Contested (gated : List RankedChunk) (path : List Str) : Prop :=
  2 ≤ (docsUnder gated path).length

instance (gated : List RankedChunk) (path : List Str) : Decidable (Contested gated path) := by
  unfold Contested; infer_instance

variable {g g' : List RankedChunk} {path : List Str} {d : Uuid}

theorem mem_docsUnder : d ∈ docsUnder g path ↔ path ≠ [] ∧
    ∃ c ∈ g, c.status ∉ deadStatuses ∧ c.headingPath = path ∧ c.documentId = d := by
  simp only [docsUnder, docIdsAt, competing, mem_sortedSet, List.mem_map, List.mem_filter,
    Bool.not_eq_true', Bool.or_eq_false_iff, List.isEmpty_eq_false_iff, decide_eq_true_eq,
    List.contains_eq_mem, decide_eq_false_iff_not]
  constructor
  · rintro ⟨c, ⟨⟨hc, hs, hh⟩, rfl⟩, rfl⟩
    exact ⟨hh, c, hc, hs, rfl, rfl⟩
  · rintro ⟨hh, c, hc, hs, rfl, rfl⟩
    exact ⟨c, ⟨⟨hc, hs, hh⟩, rfl⟩, rfl⟩

theorem contested_iff :
    Contested g path ↔ ∃ d ∈ docsUnder g path, ∃ d' ∈ docsUnder g path, d ≠ d' := by
  simp only [Contested, docsUnder, docIdsAt, two_le_length_sortedSet, mem_sortedSet]

theorem docsUnder_congr (h : ∀ d, d ∈ docsUnder g path ↔ d ∈ docsUnder g' path) :
    docsUnder g path = docsUnder g' path := by
  simp only [docsUnder, docIdsAt, mem_sortedSet] at h ⊢
  exact sortedSet_congr h

/-- A contested path is the heading of a competing chunk. -/
theorem path_mem_of_contested (h : Contested g path) :
    path ∈ sortedSet ((competing g).map (·.headingPath)) := by
  obtain ⟨d, hd, -⟩ := contested_iff.mp h
  simp only [docsUnder, docIdsAt, mem_sortedSet, List.mem_map, List.mem_filter,
    decide_eq_true_eq] at hd
  obtain ⟨c, ⟨hc, rfl⟩, -⟩ := hd
  exact mem_sortedSet.mpr (List.mem_map_of_mem hc)

theorem conflictAt_of_not_contested (h : ¬ Contested g path) :
    conflictAt (competing g) path = none := by
  unfold conflictAt
  exact dif_pos (Nat.not_le.mp h)

theorem conflictAt_of_contested (h : Contested g path) :
    ∃ c, conflictAt (competing g) path = some c ∧ c.sourceIds = docsUnder g path := by
  unfold conflictAt
  exact ⟨_, dif_neg (Nat.not_lt.mpr h), rfl⟩

theorem conflictAt_topic {cs : List RankedChunk} {c : Conflict} (h : conflictAt cs path = some c) :
    c.topic = join "." path := by
  unfold conflictAt at h
  dsimp only at h
  split at h
  · cases h
  · cases h
    rfl

theorem conflictAt_congr (h : docsUnder g path = docsUnder g' path) :
    conflictAt (competing g) path = conflictAt (competing g') path := by
  unfold conflictAt
  change docIdsAt (competing g) path = docIdsAt (competing g') path at h
  simp only [h]

/-- The contested paths, in the order the conflicts are reported. -/
def contestedPaths (g : List RankedChunk) : List (List Str) :=
  (sortedSet ((competing g).map (·.headingPath))).filter fun p => Contested g p

theorem mem_contestedPaths : path ∈ contestedPaths g ↔ Contested g path := by
  simp only [contestedPaths, List.mem_filter, decide_eq_true_eq]
  exact ⟨And.right, fun h => ⟨path_mem_of_contested h, h⟩⟩

theorem contestedPaths_nodup (g : List RankedChunk) : (contestedPaths g).Nodup :=
  (sortedSet_nodup _).filter _

theorem conflictsOf_eq (g : List RankedChunk) :
    conflictsOf g = (contestedPaths g).filterMap (conflictAt (competing g)) := by
  rw [contestedPaths, List.filterMap_filter]
  refine List.filterMap_congr fun p _ => ?_
  split
  · rfl
  · rename_i h
    exact conflictAt_of_not_contested (by simpa using h)

theorem join_eq_nil_iff {sep : Str} (hs : sep ≠ []) {parts : List Str} :
    join sep parts = [] ↔ parts = [] ∨ parts = [[]] := by
  match parts with
  | [] => simp [join, List.intercalate]
  | [p] => simp [join, List.intercalate]
  | p :: q :: ps => simp [join, List.intercalate, hs]

/-- A conflict has an empty topic exactly when two documents answer under the path `[""]`. -/
theorem blank_topic_iff : (∃ c ∈ conflictsOf g, c.topic = []) ↔ Contested g [[]] := by
  simp only [conflictsOf_eq, List.mem_filterMap, mem_contestedPaths]
  constructor
  · rintro ⟨c, ⟨path, hp, hc⟩, ht⟩
    rw [conflictAt_topic hc, join_eq_nil_iff (by decide)] at ht
    obtain ⟨d, hd, -⟩ := contested_iff.mp hp
    rw [← ht.resolve_left (mem_docsUnder.mp hd).1]
    exact hp
  · intro hp
    obtain ⟨c, hc, -⟩ := conflictAt_of_contested hp
    exact ⟨c, ⟨_, hp, hc⟩, conflictAt_topic hc⟩

/-- **Determined by the contested paths.** -/
theorem conflictsOf_congr (hc : ∀ path, Contested g path ↔ Contested g' path)
    (hd : ∀ path, Contested g path → docsUnder g path = docsUnder g' path) :
    conflictsOf g = conflictsOf g' := by
  have hp : contestedPaths g = contestedPaths g' := by
    refine sortedSet_filter_congr fun p => ?_
    have h := hc p
    rw [← mem_contestedPaths, ← mem_contestedPaths] at h
    simpa [contestedPaths] using h
  rw [conflictsOf_eq, conflictsOf_eq, ← hp]
  exact List.filterMap_congr fun p h => conflictAt_congr (hd p (mem_contestedPaths.mp h))

/-- The number of conflicts that name a document. -/
def countDoc (d : Uuid) (cs : List Conflict) : Nat := cs.countP fun c => c.sourceIds.contains d

theorem countDoc_conflictsOf (d : Uuid) (g : List RankedChunk) :
    countDoc d (conflictsOf g) =
      ((contestedPaths g).filter fun p => (docsUnder g p).contains d).length := by
  rw [countDoc, conflictsOf_eq, List.countP_filterMap, ← List.countP_eq_length_filter]
  refine List.countP_congr fun p hp => ?_
  obtain ⟨c, hc, hs⟩ := conflictAt_of_contested (mem_contestedPaths.mp hp)
  simp [hc, hs]

/-- One more contested path under which `d` answers, and otherwise the same: one more
conflict names `d`. -/
theorem countDoc_succ {p : List Str} (hp : Contested g' p) (hd : d ∈ docsUnder g' p)
    (hn : d ∉ docsUnder g p)
    (ho : ∀ path, path ≠ p → docsUnder g path = docsUnder g' path) :
    countDoc d (conflictsOf g') = countDoc d (conflictsOf g) + 1 := by
  have hmem : ∀ {l : List RankedChunk} {q : List Str},
      q ∈ (contestedPaths l).filter (fun p => (docsUnder l p).contains d) ↔
        Contested l q ∧ d ∈ docsUnder l q := by
    intro l q
    simp [List.mem_filter, mem_contestedPaths]
  have hperm : ((contestedPaths g').filter fun p => (docsUnder g' p).contains d).Perm
      (p :: (contestedPaths g).filter fun p => (docsUnder g p).contains d) := by
    refine (List.perm_ext_iff_of_nodup ((contestedPaths_nodup g').filter _)
      (List.nodup_cons.mpr ⟨fun h => hn (hmem.mp h).2, (contestedPaths_nodup g).filter _⟩)).mpr ?_
    intro q
    rw [List.mem_cons, hmem, hmem]
    by_cases hq : q = p
    · subst hq
      simp [hp, hd]
    · simp [hq, Contested, ho q hq]
  rw [countDoc_conflictsOf, countDoc_conflictsOf, hperm.length_eq, List.length_cons]

end KnowledgeKiln.L2.Conflicts
