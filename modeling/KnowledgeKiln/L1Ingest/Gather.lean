import KnowledgeKiln.Core.Run
import KnowledgeKiln.L1Ingest.FanOut

/-!
# The fan-out, task by task (ingestion/embedding/batched.py)

`embedChunksConcurrently` finishes its batches in the order of the list. Here each
batch is a task of its own: it waits for a permit of the semaphore, asks the
provider, and is answered at any time. Between two awaits a task is alone, so the
check of the answer and its writes to `out` are one step.

* `step_keeps`: every slot belongs to one task, and is empty until that task is answered.
* `exists_finished`: no run gets stuck, and none has more than two steps for each batch.
* `gathered_eq`: whatever the order, the results are those of the batches taken in turn.
* `fanOut_aligned`: a vector stands in the slot of its text, and what failed is what is missing.
-/
namespace KnowledgeKiln.L1.Embedding.Gather

open KnowledgeKiln.Core

/-! ## Tasks -/

inductive Phase
  | waiting | embedding | done
  deriving DecidableEq, Repr

/-- A `_run_one` that was handed to `asyncio.gather`. -/
structure Task where
  batch : Batch
  phase : Phase

/-- The semaphore, the tasks, and the list they share. -/
structure FanOut where
  permits : Nat
  tasks : List Task
  out : List (Option Vec)

inductive Event
  /-- `async with semaphore`, and the call of the provider -/
  | enter (k : Nat)
  /-- The provider returns or raises; the permit goes back and the task ends. -/
  | answer (k : Nat)

def step (provider : EmbeddingProvider) (s : FanOut) : Event → Option FanOut
  | .enter k =>
    match s.tasks[k]? with
    | some task =>
      if task.phase = .waiting ∧ 0 < s.permits then
        some { s with
          permits := s.permits - 1
          tasks := s.tasks.set k { task with phase := .embedding } }
      else none
    | none => none
  | .answer k =>
    match s.tasks[k]? with
    | some task =>
      if task.phase = .embedding then
        some
          { permits := s.permits + 1
            tasks := s.tasks.set k { task with phase := .done }
            out := finishBatch provider s.out task.batch }
      else none
    | none => none

/-- `asyncio.gather` as it begins. -/
def begin (texts : List Str) (batchSize concurrency : Nat) : FanOut where
  permits := concurrency
  tasks := (batches texts batchSize).map fun batch => ⟨batch, .waiting⟩
  out := List.replicate texts.length none

/-- Every task has ended, so `gather` returns. -/
def FanOut.Finished (s : FanOut) : Prop := ∀ task ∈ s.tasks, task.phase = .done

/-- The `BatchResults` made of what `gather` returns; the result of a task is that of its
`runOne`. -/
def gathered (provider : EmbeddingProvider) (s : FanOut) : BatchResults :=
  let (vectors, failures) := collectFailures provider (s.tasks.map Task.batch) s.out
  { vectors := vectors, failures := failures }

/-! ## One step -/

section
variable {provider : EmbeddingProvider} {s s' : FanOut} {e : Event}

/-- The `k`-th task, and what stands around it. -/
theorem tasks_split {l : List Task} {k : Nat} {task : Task} (h : l[k]? = some task) :
    ∃ before after, l = before ++ task :: after ∧
      ∀ task', l.set k task' = before ++ task' :: after := by
  obtain ⟨hk, hget⟩ := List.getElem?_eq_some_iff.mp h
  have hset : ∀ task', l.set k task' = l.take k ++ task' :: l.drop (k + 1) := by
    intro task'
    rw [List.set_eq_take_append_cons_drop, if_pos hk]
  refine ⟨l.take k, l.drop (k + 1), ?_, hset⟩
  rw [← hset task, ← hget, List.set_getElem_self]

/-- What a step does: a task that waits takes a permit, or one that embeds is answered. -/
theorem step_cases (h : step provider s e = some s') : ∃ before batch after,
    (s.tasks = before ++ ⟨batch, .waiting⟩ :: after ∧ 0 < s.permits ∧
      s' = ⟨s.permits - 1, before ++ ⟨batch, .embedding⟩ :: after, s.out⟩) ∨
    (s.tasks = before ++ ⟨batch, .embedding⟩ :: after ∧
      s' = ⟨s.permits + 1, before ++ ⟨batch, .done⟩ :: after,
        finishBatch provider s.out batch⟩) := by
  cases e with
  | enter k =>
    cases ht : s.tasks[k]? with
    | none => simp [step, ht] at h
    | some task =>
      obtain ⟨before, after, hl, hset⟩ := tasks_split ht
      simp only [step, ht, Option.ite_none_right_eq_some, Option.some.injEq] at h
      obtain ⟨⟨hphase, hpermits⟩, rfl⟩ := h
      refine ⟨before, task.batch, after, .inl ⟨?_, hpermits, ?_⟩⟩
      · rw [hl, ← hphase]
      · rw [hset]
  | answer k =>
    cases ht : s.tasks[k]? with
    | none => simp [step, ht] at h
    | some task =>
      obtain ⟨before, after, hl, hset⟩ := tasks_split ht
      simp only [step, ht, Option.ite_none_right_eq_some, Option.some.injEq] at h
      obtain ⟨hphase, rfl⟩ := h
      refine ⟨before, task.batch, after, .inr ⟨?_, ?_⟩⟩
      · rw [hl, ← hphase]
      · rw [hset]

theorem step_enter {before after : List Task} {batch : Batch}
    (h : s.tasks = before ++ ⟨batch, .waiting⟩ :: after) (hp : 0 < s.permits) :
    (step provider s (.enter before.length)).isSome = true := by
  simp [step, h, hp]

theorem step_answer {before after : List Task} {batch : Batch}
    (h : s.tasks = before ++ ⟨batch, .embedding⟩ :: after) :
    (step provider s (.answer before.length)).isSome = true := by
  simp [step, h]

end

/-! ## Slots of a task -/

/-- The slots of a task: those of its batch once it is answered. -/
def shown (provider : EmbeddingProvider) (task : Task) : List (Option Vec) :=
  match task.phase with
  | .done => batchSlots provider task.batch
  | .waiting | .embedding => List.replicate task.batch.texts.length none

theorem shown_length {provider : EmbeddingProvider} {task : Task} :
    (shown provider task).length = task.batch.texts.length := by
  unfold shown
  split
  · exact batchSlots_length
  · exact List.length_replicate
  · exact List.length_replicate

theorem shown_tasks_length {provider : EmbeddingProvider} : ∀ {tasks : List Task},
    (tasks.flatMap (shown provider)).length = ((tasks.map Task.batch).map (·.texts.length)).sum
  | [] => rfl
  | task :: tasks => by
    rw [List.flatMap_cons, List.length_append, shown_length, shown_tasks_length, List.map_cons,
      List.map_cons, List.sum_cons]

theorem shown_waiting {provider : EmbeddingProvider} : ∀ {bs : List Batch},
    (bs.map fun batch => Task.mk batch .waiting).flatMap (shown provider) =
      List.replicate (bs.map (·.texts.length)).sum none
  | [] => rfl
  | b :: bs => by
    rw [List.map_cons, List.flatMap_cons, shown_waiting, List.map_cons, List.sum_cons,
      List.replicate_add]
    rfl

/-- Where a batch starts among batches that follow one another. -/
theorem start_of_consecutive : ∀ {before after : List Batch} {start : Nat} {b : Batch},
    Consecutive start (before ++ b :: after) →
    b.start = start + (before.map (·.texts.length)).sum
  | [], _, _, _, h => h.1
  | b' :: before, after, start, b, h => by
    have ih := start_of_consecutive h.2
    rw [ih, List.map_cons, List.sum_cons]
    omega

/-- How a state of the fan-out looks: every slot is that of one task, and a permit is free or
with a task that embeds. -/
structure Inv (provider : EmbeddingProvider) (texts : List Str) (batchSize concurrency : Nat)
    (s : FanOut) : Prop where
  batches : s.tasks.map Task.batch = batches texts batchSize
  out : s.out = s.tasks.flatMap (shown provider)
  permits : s.permits + s.tasks.countP (·.phase = .embedding) = concurrency

section
variable {provider : EmbeddingProvider} {texts : List Str} {batchSize concurrency : Nat}
  {s s' : FanOut} {e : Event} {es : List Event}

theorem inv_begin (hb : 0 < batchSize) :
    Inv provider texts batchSize concurrency (begin texts batchSize concurrency) where
  batches := by simp [begin, Function.comp_def]
  out := by
    show List.replicate texts.length none =
      ((batches texts batchSize).map fun batch => ⟨batch, .waiting⟩).flatMap (shown provider)
    rw [shown_waiting, batches_sizes hb]
  permits := by
    have hnone : ∀ task ∈ (begin texts batchSize concurrency).tasks,
        ¬decide (task.phase = .embedding) = true := by
      intro task ht
      obtain ⟨b, -, rfl⟩ := List.mem_map.mp ht
      simp
    rw [List.countP_eq_zero.mpr hnone]
    rfl

theorem step_keeps (hb : 0 < batchSize) (hi : Inv provider texts batchSize concurrency s)
    (h : step provider s e = some s') : Inv provider texts batchSize concurrency s' := by
  obtain ⟨before, batch, after, ⟨ht, hp, rfl⟩ | ⟨ht, rfl⟩⟩ := step_cases h
  · have hbatches := hi.batches
    have hout := hi.out
    have hpermits := hi.permits
    rw [ht] at hbatches hout hpermits
    refine ⟨?_, ?_, ?_⟩
    · simpa using hbatches
    · rw [hout]
      simp [shown]
    · simp only [List.countP_append, List.countP_cons] at hpermits ⊢
      simp at hpermits ⊢
      omega
  · have hbatches := hi.batches
    have hout := hi.out
    have hpermits := hi.permits
    rw [ht] at hbatches hout hpermits
    have hconsecutive : Consecutive 0 (before.map Task.batch ++ batch :: after.map Task.batch) := by
      have h : Consecutive 0 (batches texts batchSize) := batches_consecutive hb
      rw [← hbatches] at h
      simpa using h
    have hstart : batch.start = (before.flatMap (shown provider)).length := by
      rw [start_of_consecutive hconsecutive, shown_tasks_length, Nat.zero_add]
    refine ⟨?_, ?_, ?_⟩
    · simpa using hbatches
    · dsimp only
      rw [hout, List.flatMap_append, List.flatMap_cons, List.flatMap_append, List.flatMap_cons]
      exact finishBatch_range hstart
    · simp only [List.countP_append, List.countP_cons] at hpermits ⊢
      simp at hpermits ⊢
      omega

/-- What holds behind every run. -/
theorem run_keeps (hb : 0 < batchSize)
    (h : exec (step provider) (begin texts batchSize concurrency) es = some s) :
    Inv provider texts batchSize concurrency s := by
  have hfree : Guarded (step provider) (fun _ _ => True) (begin texts batchSize concurrency) es :=
    guarded_of_forall fun _ _ _ => trivial
  exact exec_invariant (fun _ _ _ hi _ hs => step_keeps hb hi hs) (inv_begin hb) hfree h

/-! ## Every run ends -/

/-- The steps a task has ahead of it. -/
def Phase.ahead : Phase → Nat
  | .waiting => 2
  | .embedding => 1
  | .done => 0

def FanOut.ahead (s : FanOut) : Nat := (s.tasks.map fun task => task.phase.ahead).sum

theorem step_ahead (h : step provider s e = some s') : s'.ahead + 1 = s.ahead := by
  obtain ⟨before, batch, after, ⟨ht, -, rfl⟩ | ⟨ht, rfl⟩⟩ := step_cases h
  · simp [FanOut.ahead, ht, Phase.ahead]
    omega
  · simp [FanOut.ahead, ht, Phase.ahead]
    omega

theorem exec_ahead : ∀ {es : List Event} {s s' : FanOut}, exec (step provider) s es = some s' →
    s'.ahead + es.length = s.ahead
  | [], _, _, h => by
    cases h
    rfl
  | e :: es, s, s', h => by
    obtain ⟨t, ht, h⟩ := exec_cons.mp h
    have ih := exec_ahead h
    have hstep := step_ahead ht
    rw [List.length_cons]
    omega

theorem begin_ahead : (begin texts batchSize concurrency).ahead =
    2 * (batches texts batchSize).length := by
  simp [FanOut.ahead, begin, Function.comp_def, Phase.ahead]
  omega

/-- **No deadlock.** While a task is left, one of them can move. -/
theorem exists_step (hc : 0 < concurrency) (hi : Inv provider texts batchSize concurrency s)
    (hleft : ¬s.Finished) : ∃ e s', step provider s e = some s' := by
  by_cases hembed : ∃ task ∈ s.tasks, task.phase = .embedding
  · obtain ⟨⟨batch, phase⟩, hm, rfl⟩ := hembed
    obtain ⟨before, after, ht⟩ := List.append_of_mem hm
    exact ⟨_, Option.isSome_iff_exists.mp (step_answer ht)⟩
  · -- no permit is out, so the task that is left can take one
    have hfree : s.permits = concurrency := by
      have hp := hi.permits
      rw [List.countP_eq_zero.mpr (by simpa using hembed)] at hp
      exact hp
    obtain ⟨⟨batch, phase⟩, hm, hphase⟩ : ∃ task ∈ s.tasks, task.phase ≠ .done := by
      simpa [FanOut.Finished] using hleft
    obtain ⟨before, after, ht⟩ := List.append_of_mem hm
    cases phase with
    | waiting =>
      exact ⟨_, Option.isSome_iff_exists.mp (step_enter ht (by omega))⟩
    | embedding => exact absurd ⟨_, hm, rfl⟩ hembed
    | done => exact absurd rfl hphase

theorem exists_finished (hb : 0 < batchSize) (hc : 0 < concurrency) : ∀ {n : Nat} {s : FanOut},
    s.ahead = n → Inv provider texts batchSize concurrency s →
      ∃ es s', exec (step provider) s es = some s' ∧ s'.Finished
  | n, s, hn, hi => by
    by_cases hleft : s.Finished
    · exact ⟨[], s, rfl, hleft⟩
    · obtain ⟨e, t, ht⟩ := exists_step hc hi hleft
      have hahead := step_ahead ht
      obtain ⟨m, rfl⟩ : ∃ m, n = m + 1 := ⟨t.ahead, by omega⟩
      obtain ⟨es, s', hes, hf⟩ := exists_finished hb hc (n := m) (by omega) (step_keeps hb hi ht)
      exact ⟨e :: es, s', exec_cons.mpr ⟨t, ht, hes⟩, hf⟩

/-! ## What is gathered -/

theorem shown_done : ∀ {tasks : List Task}, (∀ task ∈ tasks, task.phase = .done) →
    tasks.flatMap (shown provider) = slots provider (tasks.map Task.batch)
  | [], _ => rfl
  | task :: tasks, h => by
    obtain ⟨htask, hrest⟩ := List.forall_mem_cons.mp h
    have hslots : shown provider task = batchSlots provider task.batch := by
      unfold shown
      rw [htask]
    rw [List.flatMap_cons, hslots, shown_done hrest]
    rfl

/-- **The order does not matter.** Whenever `gather` returns, the results are the answers to the
batches one after the other. -/
theorem gathered_eq (hb : 0 < batchSize) (hi : Inv provider texts batchSize concurrency s)
    (hf : s.Finished) : gathered provider s =
      { vectors := slots provider (batches texts batchSize)
        failures := batchFailures provider (batches texts batchSize) } := by
  have hout : s.out = slots provider (batches texts batchSize) := by
    rw [hi.out, shown_done hf, hi.batches]
  have hbs : Consecutive ([] : List (Option Vec)).length (batches texts batchSize) :=
    batches_consecutive hb
  have hcollect := collectFailures_eq provider hbs
  rw [List.nil_append] at hcollect
  unfold gathered
  rw [hi.batches, hout, hcollect]

end

/-! ## Alignment -/

section
variable {provider : EmbeddingProvider} {b : Batch} {bs : List Batch}

/-- The provider gave the batch a vector for each of its texts. -/
def Succeeds (provider : EmbeddingProvider) (b : Batch) (vectors : List Vec) : Prop :=
  provider.embedDocuments b.start b.texts = .ok vectors ∧ vectors.length = b.texts.length

theorem runOne_ok_iff {vectors : List Vec} :
    runOne provider b = .ok vectors ↔ Succeeds provider b vectors := by
  unfold runOne Succeeds
  cases provider.embedDocuments b.start b.texts with
  | error exc => simp
  | ok vs =>
    by_cases hl : vs.length = b.texts.length
    · simp only [hl, ne_eq, not_true_eq_false, if_false, Except.ok.injEq]
      constructor
      · rintro rfl
        exact ⟨rfl, hl⟩
      · exact And.left
    · simp only [hl, ne_eq, not_false_eq_true, if_true, reduceCtorEq, Except.ok.injEq, false_iff]
      rintro ⟨rfl, h⟩
      exact hl h

/-- The slots of a batch stand where its texts do. -/
theorem slots_getElem? : ∀ {bs : List Batch} {start : Nat} {b : Batch}, Consecutive start bs →
    b ∈ bs → ∀ {k : Nat}, k < b.texts.length →
      start ≤ b.start ∧ (slots provider bs)[b.start - start + k]? = (batchSlots provider b)[k]? ∧
        (bs.flatMap (·.texts))[b.start - start + k]? = b.texts[k]?
  | b' :: bs, start, b, h, hm, k, hk => by
    obtain ⟨hs, hbs⟩ := h
    have hcons : slots provider (b' :: bs) = batchSlots provider b' ++ slots provider bs := rfl
    rw [hcons, List.flatMap_cons]
    rcases List.mem_cons.mp hm with rfl | hm
    · rw [hs, Nat.sub_self, Nat.zero_add]
      refine ⟨le_rfl, ?_, ?_⟩
      · exact List.getElem?_append_left (by rwa [batchSlots_length])
      · exact List.getElem?_append_left hk
    · obtain ⟨hle, hslot, htext⟩ := slots_getElem? hbs hm hk
      have hlen : (batchSlots provider b').length = b'.texts.length := batchSlots_length
      refine ⟨by omega, ?_, ?_⟩
      · rw [List.getElem?_append_right (by omega), ← hslot]
        congr 1
        omega
      · rw [List.getElem?_append_right (by omega), ← htext]
        congr 1
        omega

theorem mem_batchFailures {f : Nat × Nat × Raised} : f ∈ batchFailures provider bs ↔
    ∃ b ∈ bs, ∃ exc, runOne provider b = .error exc ∧ f = (b.start, b.texts.length, exc) := by
  unfold batchFailures
  rw [List.mem_filterMap]
  constructor
  · rintro ⟨b, hb, he⟩
    cases hr : runOne provider b with
    | ok vectors => simp [hr] at he
    | error exc => exact ⟨b, hb, exc, hr, by simpa [hr, eq_comm] using he⟩
  · rintro ⟨b, hb, exc, hr, rfl⟩
    exact ⟨b, hb, by simp [hr]⟩

theorem start_le_of_consecutive : ∀ {bs : List Batch} {start : Nat}, Consecutive start bs →
    ∀ b ∈ bs, start ≤ b.start
  | b' :: bs, start, h, b, hm => by
    obtain ⟨hs, hbs⟩ := h
    rcases List.mem_cons.mp hm with rfl | hm
    · exact hs.ge
    · have := start_le_of_consecutive hbs b hm
      omega

/-- The ranges of the failed batches follow one another. -/
theorem batchFailures_disjoint (provider : EmbeddingProvider) :
    ∀ {bs : List Batch} {start : Nat}, Consecutive start bs →
    (batchFailures provider bs).Pairwise fun f g => f.1 + f.2.1 ≤ g.1
  | [], _, _ => List.Pairwise.nil
  | b :: bs, start, h => by
    obtain ⟨hs, hbs⟩ := h
    have ih := batchFailures_disjoint provider hbs
    cases hr : runOne provider b with
    | ok vectors =>
      simp only [batchFailures, List.filterMap_cons, hr] at ih ⊢
      exact ih
    | error exc =>
      have hrest : ∀ g ∈ batchFailures provider bs, b.start + b.texts.length ≤ g.1 := by
        intro g hg
        obtain ⟨b', hb', -, -, rfl⟩ := mem_batchFailures.mp hg
        have := start_le_of_consecutive hbs b' hb'
        dsimp only
        omega
      simp only [batchFailures, List.filterMap_cons, hr] at ih hrest ⊢
      exact List.pairwise_cons.mpr ⟨hrest, ih⟩

end

/-- What the caller of the fan-out relies on. -/
structure Aligned (provider : EmbeddingProvider) (texts : List Str) (batchSize : Nat)
    (result : BatchResults) : Prop where
  length : result.vectors.length = texts.length
  /-- A slot holds what the provider returned for the text at its place, if the batch with that
  text succeeded, and nothing otherwise. -/
  slot : ∀ i < texts.length, ∃ b ∈ batches texts batchSize, ∃ k < b.texts.length,
    i = b.start + k ∧ texts[i]? = b.texts[k]? ∧
      (∀ vector, result.vectors[i]? = some (some vector) ↔
        ∃ vectors, Succeeds provider b vectors ∧ vectors[k]? = some vector) ∧
      (result.vectors[i]? = some none ↔ ¬∃ vectors, Succeeds provider b vectors)
  /-- The failures are those of the batches that did not succeed, each once. -/
  failures : ∀ start size exc, (start, size, exc) ∈ result.failures ↔
    ∃ b ∈ batches texts batchSize, b.start = start ∧ b.texts.length = size ∧
      runOne provider b = .error exc
  disjoint : result.failures.Pairwise fun f g => f.1 + f.2.1 ≤ g.1
  union : ∀ i, result.vectors[i]? = some none ↔
    ∃ f ∈ result.failures, f.1 ≤ i ∧ i < f.1 + f.2.1

section
variable {provider : EmbeddingProvider} {texts : List Str} {batchSize concurrency : Nat}

theorem batchSlots_some {b : Batch} {k : Nat} {vector : Vec} :
    (batchSlots provider b)[k]? = some (some vector) ↔
      ∃ vectors, Succeeds provider b vectors ∧ vectors[k]? = some vector := by
  simp only [← runOne_ok_iff]
  cases hr : runOne provider b with
  | ok vectors => simp [batchSlots, hr]
  | error exc => simp [batchSlots, hr, List.getElem?_replicate]

theorem batchSlots_none {b : Batch} {k : Nat} (hk : k < b.texts.length) :
    (batchSlots provider b)[k]? = some none ↔ ¬∃ vectors, Succeeds provider b vectors := by
  simp only [← runOne_ok_iff]
  cases hr : runOne provider b with
  | ok vectors => simp [batchSlots, hr]
  | error exc => simp [batchSlots, hr, hk]

/-- Every place is one of a batch. -/
theorem exists_place (hb : 0 < batchSize) {i : Nat} (hi : i < texts.length) :
    ∃ b ∈ batches texts batchSize, ∃ k < b.texts.length, i = b.start + k := by
  obtain ⟨b, hm, hs, he⟩ := exists_batch hb hi
  exact ⟨b, hm, i - b.start, by omega, by omega⟩

theorem aligned_slots (hb : 0 < batchSize) : Aligned provider texts batchSize
    { vectors := slots provider (batches texts batchSize)
      failures := batchFailures provider (batches texts batchSize) } := by
  have hbs : Consecutive 0 (batches texts batchSize) := batches_consecutive hb
  have hplace : ∀ b ∈ batches texts batchSize, ∀ k < b.texts.length,
      (slots provider (batches texts batchSize))[b.start + k]? = (batchSlots provider b)[k]? ∧
        texts[b.start + k]? = b.texts[k]? := by
    intro b hm k hk
    have h : 0 ≤ b.start ∧
        (slots provider (batches texts batchSize))[b.start - 0 + k]? = (batchSlots provider b)[k]? ∧
        ((batches texts batchSize).flatMap (·.texts))[b.start - 0 + k]? = b.texts[k]? :=
      slots_getElem? hbs hm hk
    rw [batches_texts hb] at h
    exact h.2
  have hlength : (slots provider (batches texts batchSize)).length = texts.length :=
    embedChunksConcurrently_length (embedChunksConcurrently_eq hb Nat.one_pos)
  refine ⟨hlength, ?_, ?_, batchFailures_disjoint provider hbs, ?_⟩
  · intro i hi
    obtain ⟨b, hm, k, hk, rfl⟩ := exists_place hb hi
    obtain ⟨hslot, htext⟩ := hplace b hm k hk
    refine ⟨b, hm, k, hk, rfl, htext, ?_, ?_⟩
    · intro vector
      dsimp only
      rw [hslot, batchSlots_some]
    · dsimp only
      rw [hslot, batchSlots_none hk]
  · intro start size exc
    rw [mem_batchFailures]
    constructor
    · rintro ⟨b, hm, exc', hr, he⟩
      cases he
      exact ⟨b, hm, rfl, rfl, hr⟩
    · rintro ⟨b, hm, rfl, rfl, hr⟩
      exact ⟨b, hm, exc, hr, rfl⟩
  · intro i
    dsimp only
    constructor
    · intro h
      have hi : i < texts.length := by
        rw [← hlength]
        exact (List.getElem?_eq_some_iff.mp h).1
      obtain ⟨b, hm, k, hk, rfl⟩ := exists_place hb hi
      rw [(hplace b hm k hk).1] at h
      cases hr : runOne provider b with
      | ok vectors => simp [batchSlots, hr] at h
      | error exc =>
        exact ⟨_, mem_batchFailures.mpr ⟨b, hm, exc, hr, rfl⟩, by dsimp only; omega⟩
    · rintro ⟨f, hf, hle, hlt⟩
      obtain ⟨b, hm, exc, hr, rfl⟩ := mem_batchFailures.mp hf
      dsimp only at hle hlt
      obtain ⟨k, rfl⟩ := Nat.exists_eq_add_of_le hle
      have hk : k < b.texts.length := by omega
      rw [(hplace b hm k hk).1]
      simp [batchSlots, hr, hk]

/-- **Alignment.** Of the concurrent fan-out, in any order of its tasks: it can always go on and
ends after two steps for each batch, it returns what the batches taken in turn would, and the
vectors and failures it returns are aligned with the texts. -/
theorem fanOut_aligned (hb : 1 ≤ batchSize) (hc : 1 ≤ concurrency) {es : List Event} {s : FanOut}
    (h : exec (step provider) (begin texts batchSize concurrency) es = some s) :
    es.length ≤ 2 * (batches texts batchSize).length ∧
      (∃ later s', exec (step provider) s later = some s' ∧ s'.Finished) ∧
      (s.Finished → Aligned provider texts batchSize (gathered provider s) ∧
        embedChunksConcurrently provider texts batchSize concurrency =
          .ok (gathered provider s)) := by
  have hi := run_keeps hb h
  refine ⟨?_, exists_finished hb hc rfl hi, ?_⟩
  · have hahead := exec_ahead h
    rw [begin_ahead] at hahead
    omega
  · intro hf
    rw [gathered_eq hb hi hf]
    exact ⟨aligned_slots hb, embedChunksConcurrently_eq hb hc⟩

end

/-- A provider that returns the length of each text, and nothing for the batch at offset 2. -/
def shortProvider : EmbeddingProvider where
  provider := "short"
  model := "short"
  dimensions := 1
  embedDocuments start texts := .ok (if start = 2 then [] else texts.map fun t => [some t.length])

/-- Both batches are under way, and the second is answered first. -/
def swapped : List Event := [.enter 0, .enter 1, .answer 1, .answer 0]

def answered : FanOut where
  permits := 2
  tasks := [⟨⟨0, ["a", "bc"]⟩, .done⟩, ⟨⟨2, ["d"]⟩, .done⟩]
  out := [some [some 1], some [some 2], none]

theorem fanOut_aligned_swapped :
    exec (step shortProvider) (begin ["a", "bc", "d"] 2 2) swapped = some answered ∧
      Aligned shortProvider ["a", "bc", "d"] 2 (gathered shortProvider answered) := by
  have h : exec (step shortProvider) (begin ["a", "bc", "d"] 2 2) swapped = some answered := rfl
  have hfinished : answered.Finished := by simp [FanOut.Finished, answered]
  exact ⟨h, ((fanOut_aligned (by decide) (by decide) h).2.2 hfinished).1⟩

end KnowledgeKiln.L1.Embedding.Gather
