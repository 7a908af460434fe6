import KnowledgeKiln.L1Ingest.Embedding

/-!
# The fan-out in closed form

The batches cut the list of texts in pieces that follow one another, so each writes a range of
slots of its own. What the fan-out returns is the answers to the batches, one after the other.

* `embedChunksConcurrently_eq`: the vectors are `slots`, the failures those of the batches.
* `embedChunksConcurrently_counts`: every text has a vector or is counted as failed.
* `embedChunksConcurrently_answers`: a vector is the provider's answer for its own text.
-/
namespace KnowledgeKiln.L1.Embedding

open KnowledgeKiln.Core

/-! ## Consecutive batches -/

/-- The slots of a batch. -/
def batchSlots (provider : EmbeddingProvider) (batch : Batch) : List (Option Vec) :=
  match runOne provider batch with
  | .ok vectors => vectors.map some
  | .error _ => List.replicate batch.texts.length none

def slots (provider : EmbeddingProvider) (bs : List Batch) : List (Option Vec) :=
  bs.flatMap (batchSlots provider)

/-- What is recorded of the batches that failed. -/
def batchFailures (provider : EmbeddingProvider) (bs : List Batch) : List (Nat × Nat × Raised) :=
  bs.filterMap fun batch =>
    match runOne provider batch with
    | .ok _ => none
    | .error exc => some (batch.start, batch.texts.length, exc)

/-- Each batch starts where the one before it ends. -/
def Consecutive : Nat → List Batch → Prop
  | _, [] => True
  | start, b :: bs => b.start = start ∧ Consecutive (start + b.texts.length) bs

section
variable {provider : EmbeddingProvider} {b : Batch}

theorem batchSlots_length : (batchSlots provider b).length = b.texts.length := by
  unfold batchSlots
  split
  · rename_i vectors hr
    rw [List.length_map, runOne_length hr]
  · exact List.length_replicate

theorem writeSlots_range : ∀ {vectors l : List (Option Vec)} {before after : List (Option Vec)},
    l.length = vectors.length →
    writeSlots (before ++ (l ++ after)) before.length vectors = before ++ (vectors ++ after)
  | [], l, before, after, h => by
    rw [List.length_eq_zero_iff.mp h]
    rfl
  | v :: vectors, x :: l, before, after, h => by
    have hset : (before ++ (x :: l ++ after)).set before.length v =
        (before ++ [v]) ++ (l ++ after) := by simp
    have ih : writeSlots (before ++ [v] ++ (l ++ after)) (before ++ [v]).length vectors =
        before ++ [v] ++ (vectors ++ after) := writeSlots_range (by simpa using h)
    rw [writeSlots, hset]
    rw [List.length_append, List.length_singleton] at ih
    rw [ih]
    simp

theorem finishBatch_range {before after : List (Option Vec)} (hs : b.start = before.length) :
    finishBatch provider (before ++ (List.replicate b.texts.length none ++ after)) b =
      before ++ (batchSlots provider b ++ after) := by
  cases hr : runOne provider b with
  | error exc =>
    simp only [finishBatch, batchSlots, hr]
  | ok vectors =>
    simp only [finishBatch, batchSlots, hr]
    rw [hs]
    apply writeSlots_range
    rw [List.length_replicate, List.length_map, runOne_length hr]

/-- The batches fill their slots, in order. -/
theorem foldl_finishBatch_eq (provider : EmbeddingProvider) :
    ∀ {bs : List Batch} {before : List (Option Vec)},
    Consecutive before.length bs →
    bs.foldl (finishBatch provider)
        (before ++ List.replicate (bs.map (·.texts.length)).sum none) =
      before ++ slots provider bs
  | [], before, _ => by simp [slots]
  | b :: bs, before, h => by
    obtain ⟨hs, hbs⟩ := h
    have hbefore : Consecutive (before ++ batchSlots provider b).length bs := by
      rwa [List.length_append, batchSlots_length]
    rw [List.map_cons, List.sum_cons, List.replicate_add, List.foldl_cons, finishBatch_range hs,
      ← List.append_assoc, foldl_finishBatch_eq provider hbefore]
    exact List.append_assoc _ _ _

/-- The slots of a failed batch are empty already. -/
theorem collectFailures_eq (provider : EmbeddingProvider) :
    ∀ {bs : List Batch} {before : List (Option Vec)},
    Consecutive before.length bs →
    collectFailures provider bs (before ++ slots provider bs) =
      (before ++ slots provider bs, batchFailures provider bs)
  | [], _, _ => rfl
  | b :: bs, before, h => by
    obtain ⟨hs, hbs⟩ := h
    have hbefore : Consecutive (before ++ batchSlots provider b).length bs := by
      rwa [List.length_append, batchSlots_length]
    have ih : collectFailures provider bs (before ++ batchSlots provider b ++ slots provider bs) =
        (before ++ batchSlots provider b ++ slots provider bs, batchFailures provider bs) :=
      collectFailures_eq provider hbefore
    have hcons : slots provider (b :: bs) = batchSlots provider b ++ slots provider bs := rfl
    rw [List.append_assoc] at ih
    rw [hcons]
    cases hr : runOne provider b with
    | ok vectors =>
      simp only [collectFailures, batchFailures, List.filterMap_cons, hr]
      exact ih
    | error exc =>
      have hslots : batchSlots provider b = List.replicate b.texts.length none := by
        simp only [batchSlots, hr]
      have hwrite : writeSlots (before ++ (batchSlots provider b ++ slots provider bs)) b.start
          (List.replicate b.texts.length none) =
            before ++ (batchSlots provider b ++ slots provider bs) := by
        rw [hs, hslots]
        exact writeSlots_range rfl
      simp only [collectFailures, batchFailures, List.filterMap_cons, hr, hwrite, ih]

end

/-! ## The batches of a list -/

section
variable {texts : List Str} {batchSize : Nat}

/-- `(i, texts[i : i + batch_size])` at `i = k * batch_size`. -/
def batchAt (texts : List Str) (batchSize k : Nat) : Batch where
  start := k * batchSize
  texts := (texts.drop (k * batchSize)).take batchSize

/-- Only the last batch is shorter than the others. -/
theorem batchAt_consecutive : ∀ {m j : Nat}, (∀ k < j + m, k * batchSize < texts.length) →
    Consecutive (j * batchSize) ((List.range' j m).map (batchAt texts batchSize))
  | 0, _, _ => trivial
  | 1, _, _ => ⟨rfl, trivial⟩
  | m + 2, j, h => by
    have hfull : (batchAt texts batchSize j).texts.length = batchSize := by
      have hnext := h (j + 1) (by omega)
      rw [Nat.succ_mul] at hnext
      simp only [batchAt, List.length_take, List.length_drop]
      omega
    have ih : Consecutive ((j + 1) * batchSize)
        ((List.range' (j + 1) (m + 1)).map (batchAt texts batchSize)) :=
      batchAt_consecutive fun k hk => h k (by omega)
    rw [List.range'_succ, List.map_cons]
    refine ⟨rfl, ?_⟩
    rw [hfull, ← Nat.succ_mul]
    exact ih

theorem batchAt_texts : ∀ {m j : Nat},
    ((List.range' j m).map (batchAt texts batchSize)).flatMap (·.texts) =
      (texts.drop (j * batchSize)).take (m * batchSize)
  | 0, _ => by simp
  | m + 1, j => by
    have ih := batchAt_texts (m := m) (j := j + 1)
    have hsize : (m + 1) * batchSize = batchSize + m * batchSize := by
      rw [Nat.succ_mul, Nat.add_comm]
    rw [List.range'_succ, List.map_cons, List.flatMap_cons, ih, hsize, List.take_add,
      List.drop_drop, Nat.succ_mul]
    rfl

theorem batches_eq : batches texts batchSize =
    (List.range' 0 ((texts.length + batchSize - 1) / batchSize)).map (batchAt texts batchSize) := by
  rw [← List.range_eq_range']
  rfl

theorem batches_consecutive (hb : 0 < batchSize) : Consecutive 0 (batches texts batchSize) := by
  have h : Consecutive (0 * batchSize) (batches texts batchSize) := by
    rw [batches_eq]
    apply batchAt_consecutive
    intro k hk
    have hk := (Nat.le_div_iff_mul_le hb).mp (Nat.succ_le_of_lt (by rwa [Nat.zero_add] at hk))
    rw [Nat.succ_mul] at hk
    omega
  rwa [Nat.zero_mul] at h

/-- The batches are the texts, cut in pieces. -/
theorem batches_texts (hb : 0 < batchSize) :
    (batches texts batchSize).flatMap (·.texts) = texts := by
  have hdiv := Nat.div_add_mod (texts.length + batchSize - 1) batchSize
  have hmod := Nat.mod_lt (texts.length + batchSize - 1) hb
  rw [Nat.mul_comm] at hdiv
  rw [batches_eq, batchAt_texts, Nat.zero_mul, List.drop_zero]
  apply List.take_of_length_le
  omega

theorem batches_sizes (hb : 0 < batchSize) :
    ((batches texts batchSize).map (·.texts.length)).sum = texts.length := by
  have h := congrArg List.length ((batches_texts hb : (batches texts batchSize).flatMap (·.texts) = texts))
  rwa [List.length_flatMap] at h

end

/-! ## The fan-out -/

section
variable {provider : EmbeddingProvider} {texts : List Str} {batchSize concurrency : Nat}
  {result : BatchResults}

/-- **The fan-out in closed form**: the answers to the batches, one after the other, and the
exceptions of those that failed. -/
theorem embedChunksConcurrently_eq (hb : 0 < batchSize) (hc : 0 < concurrency) :
    embedChunksConcurrently provider texts batchSize concurrency =
      .ok { vectors := slots provider (batches texts batchSize)
            failures := batchFailures provider (batches texts batchSize) } := by
  unfold embedChunksConcurrently
  rw [if_neg hb.ne', if_neg hc.ne']
  split
  · rename_i ht
    have hnone : batches [] batchSize = [] := by
      have h0 : (0 + batchSize - 1) / batchSize = 0 := Nat.div_eq_of_lt (by omega)
      rw [batches, List.length_nil, h0]
      rfl
    rw [ht, hnone]
    rfl
  · have hbs : Consecutive ([] : List (Option Vec)).length (batches texts batchSize) :=
      batches_consecutive hb
    have hfold : (batches texts batchSize).foldl (finishBatch provider)
        (List.replicate texts.length none) = slots provider (batches texts batchSize) := by
      have h := foldl_finishBatch_eq provider hbs
      rwa [batches_sizes hb] at h
    have hfail := collectFailures_eq provider hbs
    rw [List.nil_append] at hfail
    dsimp only
    rw [hfold, hfail]

/-- What the fan-out rejects before its first call. -/
theorem embedChunksConcurrently_pos
    (h : embedChunksConcurrently provider texts batchSize concurrency = .ok result) :
    0 < batchSize ∧ 0 < concurrency := by
  unfold embedChunksConcurrently at h
  split at h
  · cases h
  · rename_i hb
    split at h
    · cases h
    · rename_i hc
      exact ⟨Nat.pos_of_ne_zero hb, Nat.pos_of_ne_zero hc⟩

/-! ## Counts -/

theorem batchSlots_countP (b : Batch) : (batchSlots provider b).countP Option.isSome =
    match runOne provider b with
    | .ok _ => b.texts.length
    | .error _ => 0 := by
  cases hr : runOne provider b with
  | ok vectors =>
    simp only [batchSlots, hr]
    rw [List.countP_map, List.countP_eq_length.mpr (by simp), runOne_length hr]
  | error exc =>
    simp only [batchSlots, hr]
    rw [List.countP_replicate]
    rfl

theorem slots_countP : ∀ {bs : List Batch},
    (slots provider bs).countP Option.isSome + ((batchFailures provider bs).map (·.2.1)).sum =
      (bs.map (·.texts.length)).sum
  | [] => rfl
  | b :: bs => by
    have ih : (slots provider bs).countP Option.isSome +
        ((batchFailures provider bs).map (·.2.1)).sum = (bs.map (·.texts.length)).sum :=
      slots_countP
    have hcons : slots provider (b :: bs) = batchSlots provider b ++ slots provider bs := rfl
    rw [hcons, List.countP_append, batchSlots_countP, List.map_cons, List.sum_cons]
    cases hr : runOne provider b with
    | ok vectors =>
      simp only [batchFailures, List.filterMap_cons, hr] at ih ⊢
      omega
    | error exc =>
      simp only [batchFailures, List.filterMap_cons, hr, List.map_cons, List.sum_cons] at ih ⊢
      omega

/-- **Every text counts once**: it has a vector, or its batch is counted as failed. -/
theorem embedChunksConcurrently_counts
    (h : embedChunksConcurrently provider texts batchSize concurrency = .ok result) :
    result.vectors.countP Option.isSome + (result.failures.map (·.2.1)).sum = texts.length := by
  obtain ⟨hb, hc⟩ := embedChunksConcurrently_pos h
  rw [embedChunksConcurrently_eq hb hc] at h
  cases h
  rw [slots_countP, batches_sizes hb]

/-! ## Whose vector a slot holds -/

theorem batchSlots_mem {b : Batch} {text : Str} {vector : Vec}
    (h : (text, some vector) ∈ b.texts.zip (batchSlots provider b)) :
    ∃ vectors, runOne provider b = .ok vectors ∧ (text, vector) ∈ b.texts.zip vectors := by
  cases hr : runOne provider b with
  | ok vectors =>
    simp only [batchSlots, hr, List.zip_map_right, List.mem_map] at h
    obtain ⟨⟨t, v⟩, hm, he⟩ := h
    cases he
    exact ⟨vectors, rfl, hm⟩
  | error exc =>
    simp only [batchSlots, hr] at h
    have hv := (List.of_mem_zip h).2
    cases List.eq_of_mem_replicate hv

theorem slots_mem : ∀ {bs : List Batch} {text : Str} {vector : Vec},
    (text, some vector) ∈ (bs.flatMap (·.texts)).zip (slots provider bs) →
    ∃ b ∈ bs, ∃ vectors, runOne provider b = .ok vectors ∧ (text, vector) ∈ b.texts.zip vectors
  | [], _, _, h => by cases h
  | b :: bs, text, vector, h => by
    have hcons : slots provider (b :: bs) = batchSlots provider b ++ slots provider bs := rfl
    rw [List.flatMap_cons, hcons, List.zip_append batchSlots_length.symm] at h
    rcases List.mem_append.mp h with h | h
    · obtain ⟨vectors, hr, hm⟩ := batchSlots_mem h
      exact ⟨b, List.mem_cons_self, vectors, hr, hm⟩
    · obtain ⟨b', hb', hv⟩ := slots_mem h
      exact ⟨b', List.mem_cons_of_mem _ hb', hv⟩

/-- **A filled slot is the provider's answer for its text**, given in a batch that holds it. -/
theorem embedChunksConcurrently_answers
    (h : embedChunksConcurrently provider texts batchSize concurrency = .ok result)
    {text : Str} {vector : Vec} (hm : (text, some vector) ∈ texts.zip result.vectors) :
    ∃ b ∈ batches texts batchSize, ∃ vectors,
      runOne provider b = .ok vectors ∧ (text, vector) ∈ b.texts.zip vectors := by
  obtain ⟨hb, hc⟩ := embedChunksConcurrently_pos h
  rw [embedChunksConcurrently_eq hb hc] at h
  cases h
  apply slots_mem
  rwa [batches_texts hb]

end

end KnowledgeKiln.L1.Embedding
