import KnowledgeKiln.L1Ingest.Worker

/-!
# The order of the queue (db/repositories/operations.py, ingestion/worker.py)

`claim_one` takes the oldest queued job that no other transaction has locked. Between two recovery
sweeps a job goes back to the queue for nobody, so each is claimed at most once, whatever the number
of workers and wherever they crash; and where no claim met a lock, in the order of the queue.

* `step_jobs`: what a step other than a sweep does to the jobs.
* `Advanced`: what a stretch without a sweep does to them; `Advanced.trans` puts two together.
* `claims_in_order`: the queue between two sweeps.
-/
namespace KnowledgeKiln.L1.Worker

open KnowledgeKiln.Core KnowledgeKiln.L1.FileProcessing

/-! ## Claims of a run -/

/-- The job that a step claims. -/
def claimOf (s : System) : Label → Option Nat
  | .claim _ locked => (claimOne locked s.jobs).map (·.1.id)
  | _ => none

/-- The jobs claimed in a run, in order. -/
def claims (allowlist : List Source) (s : System) : List Label → List Nat
  | [] => []
  | l :: labels =>
    match step allowlist s l with
    | none => []
    | some s' => (claimOf s l).toList ++ claims allowlist s' labels

/-- Whatever job a live worker is processing has left the queue. -/
def Held (s : System) : Prop :=
  ∀ w c, (s.workers w).claim = some c → ∃ job, s.jobs[c.id]? = some job ∧ job.status ≠ .queued

/-- The change of a row that neither queues nor claims a job. -/
structure Settles (f : IngestionJob → IngestionJob) : Prop where
  payload : ∀ job, (f job).payload = job.payload
  attempts : ∀ job, (f job).attempts = job.attempts
  status : ∀ job, (f job).status = .queued → job.status = .queued

theorem settles_markDone (runId : Option Nat) : Settles (.markDone runId) :=
  ⟨fun _ => rfl, fun _ => rfl, nofun⟩

theorem settles_markFailed (error : Str) : Settles (.markFailed error) :=
  ⟨fun _ => rfl, fun _ => rfl, nofun⟩

section
variable {allowlist : List Source} {s s' : System} {l : Label}

theorem claim_of_processing {phase : Phase} {c : Claim} {runId : Option Nat}
    (h : phase.processing = some (c, runId)) : phase.claim = some c := by
  cases phase <;> simp_all [Phase.processing, Phase.claim]

/-- A worker that enters a phase holds what it held, or nothing. -/
theorem claim_enter {t : System} {w w' : Nat} {phase : Phase} {c : Claim}
    (ht : t.workers = s.workers)
    (hphase : ∀ c, phase.claim = some c → (s.workers w).claim = some c)
    (h : ((t.enter w phase).workers w').claim = some c) : (s.workers w').claim = some c := by
  by_cases hw : w' = w
  · subst hw
    rw [enter_self] at h
    exact hphase c h
  · rwa [enter_of_ne hw, ht] at h

/-- **One step that is no sweep.** A job is enqueued, one is claimed, or a held one is settled. -/
theorem step_jobs (h : step allowlist s l = some s') (hl : ∀ w, l ≠ .recover w) :
    (∃ payload, l = .enqueue payload ∧ s'.jobs = s.jobs ++ [{ payload := payload }] ∧
      s'.workers = s.workers) ∨
    (∃ w locked c, l = .claim w locked ∧ claimOne locked s.jobs = some (c, s'.jobs) ∧
      ∀ w' c', (s'.workers w').claim = some c' → c' = c ∨ (s.workers w').claim = some c') ∨
    claimOf s l = none ∧
      (∀ w' c', (s'.workers w').claim = some c' → (s.workers w').claim = some c') ∧
      (s'.jobs = s.jobs ∨ ∃ w c f, (s.workers w).claim = some c ∧ Settles f ∧
        s'.jobs = s.jobs.modify c.id f) := by
  cases l with
  | enqueue payload =>
    cases h
    exact .inl ⟨payload, rfl, rfl, rfl⟩
  | recover w => exact absurd rfl (hl w)
  | claim w locked =>
    obtain ⟨-, c, jobs, hclaim, rfl⟩ := step_claim.mp h
    refine .inr (.inl ⟨w, locked, c, rfl, hclaim, fun w' c' hc => ?_⟩)
    by_cases hw : w' = w
    · subst hw
      rw [enter_self] at hc
      exact .inl (Option.some.inj hc).symm
    · rw [enter_of_ne hw] at hc
      exact .inr hc
  | start w =>
    obtain ⟨-, rfl⟩ := step_start.mp h
    exact .inr (.inr ⟨rfl, fun w' c' => claim_enter rfl nofun, .inl rfl⟩)
  | createRun w =>
    obtain ⟨c, hw, -, rfl⟩ := step_createRun.mp h
    refine .inr (.inr ⟨rfl, fun w' c' => claim_enter rfl fun c' hc => ?_, .inl rfl⟩)
    rw [hw]
    exact hc
  | endRun w status =>
    obtain ⟨c, runId, hw, -, rfl⟩ := step_endRun.mp h
    refine .inr (.inr ⟨rfl, fun w' c' => claim_enter rfl fun c' hc => ?_, .inl rfl⟩)
    rw [hw]
    exact hc
  | raise w error =>
    obtain ⟨c, runId, hw, rfl⟩ := step_raise.mp h
    refine .inr (.inr ⟨rfl, fun w' c' => claim_enter rfl fun c' hc => ?_, .inl rfl⟩)
    rw [claim_of_processing hw]
    exact hc
  | cancel w =>
    obtain ⟨c, runId, hw, rfl⟩ := step_cancel.mp h
    refine .inr (.inr ⟨rfl, fun w' c' => claim_enter rfl fun c' hc => ?_, .inl rfl⟩)
    rw [claim_of_processing hw]
    exact hc
  | markDone w =>
    obtain ⟨c, runId, hw, rfl⟩ := step_markDone.mp h
    refine .inr (.inr ⟨rfl, fun w' c' => claim_enter rfl nofun, .inr ⟨w, c, _, ?_,
      settles_markDone (some runId), rfl⟩⟩)
    rw [hw]
    rfl
  | markFailed w =>
    obtain ⟨c, runId, error, cancelled, hw, rfl⟩ := step_markFailed.mp h
    refine .inr (.inr ⟨rfl, ?_⟩)
    split
    · exact ⟨fun w' c' => claim_enter rfl nofun, .inl rfl⟩
    · refine ⟨fun w' c' => claim_enter rfl ?_, .inr ⟨w, c, _, ?_, settles_markFailed error, rfl⟩⟩
      · split <;> nofun
      · rw [hw]
        rfl
  | stop w =>
    obtain ⟨-, rfl⟩ := step_stop.mp h
    exact .inr (.inr ⟨rfl, fun w' c' => claim_enter rfl nofun, .inl rfl⟩)
  | crash w =>
    obtain ⟨-, rfl⟩ := step_crash.mp h
    exact .inr (.inr ⟨rfl, fun w' c' => claim_enter rfl nofun, .inl rfl⟩)

/-! ## A stretch without a sweep -/

/-- What has become of the jobs when these were claimed in between. -/
structure Advanced (before after : List IngestionJob) (claimed : List Nat) : Prop where
  nodup : claimed.Nodup
  queued : ∀ id ∈ claimed, (∃ job, before[id]? = some job ∧ job.status = .queued) ∨
    before.length ≤ id ∧ id < after.length
  kept : ∀ id job, before[id]? = some job → ∃ job', after[id]? = some job' ∧
    job'.payload = job.payload ∧ job'.attempts = job.attempts + claimed.count id ∧
    (job'.status = .queued ↔ job.status = .queued ∧ id ∉ claimed)
  added : ∀ id job', before.length ≤ id → after[id]? = some job' →
    job'.attempts = claimed.count id ∧ (job'.status = .queued ↔ id ∉ claimed)

theorem Advanced.length_le {before after : List IngestionJob} {claimed : List Nat}
    (h : Advanced before after claimed) : before.length ≤ after.length := by
  by_contra hlt
  have hlast : before[after.length]? = some before[after.length] :=
    List.getElem?_eq_getElem (not_le.mp hlt)
  obtain ⟨job', hjob, -⟩ := h.kept _ _ hlast
  rw [List.getElem?_eq_none (le_refl _)] at hjob
  cases hjob

theorem Advanced.refl (jobs : List IngestionJob) : Advanced jobs jobs [] where
  nodup := List.nodup_nil
  queued := nofun
  kept := fun _ job hjob => ⟨job, hjob, rfl, rfl, by simp⟩
  added := fun id job' hle hjob => by
    rw [List.getElem?_eq_none hle] at hjob
    cases hjob

/-- A job claimed in the first stretch is not in the queue of the second. -/
theorem Advanced.trans {a b c : List IngestionJob} {ids ids' : List Nat}
    (h : Advanced a b ids) (h' : Advanced b c ids') : Advanced a c (ids ++ ids') where
  nodup := by
    refine List.nodup_append.mpr ⟨h.nodup, h'.nodup, ?_⟩
    rintro id hid _ hid' rfl
    have hlt : id < b.length := by
      rcases h.queued id hid with ⟨job, hjob, -⟩ | ⟨-, hlt⟩
      · exact (List.getElem?_eq_some_iff.mp hjob).1.trans_le h.length_le
      · exact hlt
    rcases h'.queued id hid' with ⟨job, hjob, hqueued⟩ | ⟨hle, -⟩
    · rcases Nat.lt_or_ge id a.length with hlt | hle
      · obtain ⟨job', hjob', -, -, hst⟩ := h.kept id _ (List.getElem?_eq_getElem hlt)
        cases hjob.symm.trans hjob'
        exact (hst.mp hqueued).2 hid
      · exact (h.added id job hle hjob).2.mp hqueued hid
    · exact absurd hlt (not_lt.mpr hle)
  queued := by
    intro id hid
    rcases List.mem_append.mp hid with hid | hid
    · exact (h.queued id hid).imp_right fun hlt => ⟨hlt.1, hlt.2.trans_le h'.length_le⟩
    · rcases h'.queued id hid with ⟨job, hjob, hqueued⟩ | ⟨hle, hlt⟩
      · rcases Nat.lt_or_ge id a.length with hlt | hle
        · obtain ⟨job', hjob', -, -, hst⟩ := h.kept id _ (List.getElem?_eq_getElem hlt)
          cases hjob.symm.trans hjob'
          exact .inl ⟨_, List.getElem?_eq_getElem hlt, (hst.mp hqueued).1⟩
        · exact .inr ⟨hle, (List.getElem?_eq_some_iff.mp hjob).1.trans_le h'.length_le⟩
      · exact .inr ⟨h.length_le.trans hle, hlt⟩
  kept := by
    intro id job hjob
    obtain ⟨job₁, hjob₁, hpayload, hattempts, hst⟩ := h.kept id job hjob
    obtain ⟨job₂, hjob₂, hpayload', hattempts', hst'⟩ := h'.kept id job₁ hjob₁
    refine ⟨job₂, hjob₂, hpayload'.trans hpayload, ?_, ?_⟩
    · rw [hattempts', hattempts, List.count_append, Nat.add_assoc]
    · rw [hst', hst, List.mem_append, not_or, and_assoc]
  added := by
    intro id job₂ hle hjob₂
    rw [List.count_append, List.mem_append, not_or]
    rcases Nat.lt_or_ge id b.length with hlt | hle'
    · obtain ⟨job₂', hjob₂', -, hattempts, hst⟩ := h'.kept id _ (List.getElem?_eq_getElem hlt)
      cases hjob₂.symm.trans hjob₂'
      obtain ⟨hattempts₁, hst₁⟩ := h.added id _ hle (List.getElem?_eq_getElem hlt)
      exact ⟨by rw [hattempts, hattempts₁], by rw [hst, hst₁]⟩
    · obtain ⟨hattempts, hst⟩ := h'.added id job₂ hle' hjob₂
      have hid : id ∉ ids := by
        intro hid
        rcases h.queued id hid with ⟨job, hjob, -⟩ | ⟨-, hlt⟩
        · exact absurd (List.getElem?_eq_some_iff.mp hjob).1 (not_lt.mpr hle)
        · exact absurd hlt (not_lt.mpr hle')
      rw [List.count_eq_zero.mpr hid, Nat.zero_add]
      exact ⟨hattempts, by rw [hst, and_iff_right hid]⟩

theorem advanced_enqueue (jobs : List IngestionJob) (payload : JsonDict) :
    Advanced jobs (jobs ++ [{ payload := payload }]) [] where
  nodup := List.nodup_nil
  queued := nofun
  kept := fun id job hjob => by
    have hlt := (List.getElem?_eq_some_iff.mp hjob).1
    exact ⟨job, by rwa [List.getElem?_append_left hlt], rfl, rfl, by simp⟩
  added := fun id job' hle hjob => by
    rw [List.getElem?_append_right hle, List.getElem?_singleton] at hjob
    split at hjob
    · cases hjob
      exact ⟨rfl, by simp⟩
    · cases hjob

theorem advanced_claim {locked : List Nat} {jobs jobs' : List IngestionJob} {c : Claim}
    (h : claimOne locked jobs = some (c, jobs')) : Advanced jobs jobs' [c.id] := by
  obtain ⟨-, job, hjob, hqueued, -, -, rfl⟩ := claimOne_some h
  refine ⟨List.nodup_singleton _, ?_, ?_, ?_⟩
  · intro id hid
    rw [List.mem_singleton.mp hid]
    exact .inl ⟨job, hjob, hqueued⟩
  · intro id job₀ hjob₀
    rw [List.getElem?_modify, hjob₀]
    by_cases hid : c.id = id
    · exact ⟨_, rfl, by simp [hid], by simp [hid], by simp [hid]⟩
    · exact ⟨_, rfl, by simp [hid], by simp [hid], by simp [hid, Ne.symm hid]⟩
  · intro id job' hle hjob'
    rw [List.getElem?_modify, List.getElem?_eq_none hle] at hjob'
    cases hjob'

theorem advanced_settle {jobs : List IngestionJob} {id : Nat} {f : IngestionJob → IngestionJob}
    (hf : Settles f) {job : IngestionJob} (hjob : jobs[id]? = some job)
    (hheld : job.status ≠ .queued) : Advanced jobs (jobs.modify id f) [] := by
  refine ⟨List.nodup_nil, nofun, ?_, ?_⟩
  · intro id' job₀ hjob₀
    rw [List.getElem?_modify, hjob₀]
    by_cases hid : id = id'
    · subst hid
      cases hjob.symm.trans hjob₀
      refine ⟨_, rfl, by simp [hf.payload], by simp [hf.attempts], ?_⟩
      simp only [if_true, List.not_mem_nil, not_false_eq_true, and_true]
      exact ⟨hf.status job, fun h => absurd h hheld⟩
    · exact ⟨_, rfl, by simp [hid], by simp [hid], by simp [hid]⟩
  · intro id' job' hle hjob'
    rw [List.getElem?_modify, List.getElem?_eq_none hle] at hjob'
    cases hjob'

/-- **One step.** -/
theorem advanced_step (hh : Held s) (h : step allowlist s l = some s') (hl : ∀ w, l ≠ .recover w) :
    Advanced s.jobs s'.jobs (claimOf s l).toList ∧ Held s' := by
  have hheld : ∀ c : Claim, (∃ w, (s.workers w).claim = some c) → ∀ ids,
      Advanced s.jobs s'.jobs ids → ∃ job, s'.jobs[c.id]? = some job ∧ job.status ≠ .queued := by
    intro c ⟨w, hc⟩ ids hadv
    obtain ⟨job, hjob, hne⟩ := hh w c hc
    obtain ⟨job', hjob', -, -, hst⟩ := hadv.kept _ _ hjob
    exact ⟨job', hjob', fun hq => hne (hst.mp hq).1⟩
  rcases step_jobs h hl with ⟨payload, rfl, hjobs, hworkers⟩ | ⟨w, locked, c, rfl, hclaim, hworkers⟩ |
    ⟨hnone, hworkers, hjobs⟩
  · have hadv : Advanced s.jobs s'.jobs [] := hjobs ▸ advanced_enqueue s.jobs payload
    refine ⟨hadv, fun w c hc => hheld c ⟨w, ?_⟩ _ hadv⟩
    rwa [hworkers] at hc
  · have hadv := advanced_claim hclaim
    have hid : (claimOf s (.claim w locked)).toList = [c.id] := by
      rw [claimOf, hclaim]
      rfl
    rw [hid]
    refine ⟨hadv, fun w' c' hc => ?_⟩
    rcases hworkers w' c' hc with rfl | hc
    · obtain ⟨-, job, hjob, -⟩ := claimOne_some hclaim
      obtain ⟨job', hjob', -, -, hst⟩ := hadv.kept _ _ hjob
      exact ⟨job', hjob', fun hq => (hst.mp hq).2 (List.mem_singleton_self _)⟩
    · exact hheld c' ⟨w', hc⟩ _ hadv
  · have hadv : Advanced s.jobs s'.jobs [] := by
      rcases hjobs with hjobs | ⟨w, c, f, hc, hf, hjobs⟩
      · exact hjobs ▸ Advanced.refl _
      · obtain ⟨job, hjob, hne⟩ := hh w c hc
        exact hjobs ▸ advanced_settle hf hjob hne
    rw [hnone]
    exact ⟨hadv, fun w c hc => hheld c ⟨w, hworkers w c hc⟩ _ hadv⟩

/-! ## The order of the claims -/

theorem claimable_iff {jobs : List IngestionJob} {locked : List Nat} {id : Nat} :
    claimable jobs locked id = true ↔
      id ∉ locked ∧ ∃ job, jobs[id]? = some job ∧ job.status = .queued := by
  simp [claimable, Option.any_eq_true]

/-- A claim takes the oldest job it may take. -/
theorem claimOne_oldest {locked : List Nat} {jobs jobs' : List IngestionJob} {c : Claim}
    (h : claimOne locked jobs = some (c, jobs')) {id : Nat} {job : IngestionJob}
    (hjob : jobs[id]? = some job) (hqueued : job.status = .queued) (hfree : id ∉ locked) :
    c.id ≤ id := by
  unfold claimOne at h
  split at h
  · cases h
  rename_i first hfind
  obtain ⟨job₀, -, h⟩ := Option.map_eq_some_iff.mp h
  cases h
  by_contra hlt
  have hbefore := (List.find?_range_eq_some.mp hfind).2.2 id (not_le.mp hlt)
  rw [claimable_iff.mpr ⟨hfree, job, hjob, hqueued⟩] at hbefore
  cases hbefore

/-- There is nothing to claim when nothing is queued. -/
theorem claimOne_none {jobs : List IngestionJob} (h : claimOne [] jobs = none) {id : Nat}
    {job : IngestionJob} (hjob : jobs[id]? = some job) : job.status ≠ .queued := by
  intro hqueued
  unfold claimOne at h
  split at h
  · rename_i hfind
    have hlt := (List.getElem?_eq_some_iff.mp hjob).1
    have hno := List.find?_eq_none.mp hfind id (List.mem_range.mpr hlt)
    exact hno (claimable_iff.mpr ⟨List.not_mem_nil, job, hjob, hqueued⟩)
  · rename_i first hfind
    obtain ⟨-, job₀, hjob₀, -⟩ := claimable_iff.mp (List.find?_some hfind)
    rw [hjob₀] at h
    cases h

/-- A job that is claimed where nothing is locked is older than all that stay queued. -/
theorem claimOf_lt {t : System} (hadv : Advanced s.jobs t.jobs (claimOf s l).toList)
    (hlock : ∀ w locked, l = .claim w locked → locked = []) {id : Nat}
    (hid : id ∈ (claimOf s l).toList) : id < t.jobs.length ∧
      ∀ id' job, t.jobs[id']? = some job → job.status = .queued → id < id' := by
  have hmem := hid
  unfold claimOf at hid
  split at hid
  · rename_i w locked
    obtain ⟨⟨c, jobs'⟩, hclaim, rfl⟩ := Option.map_eq_some_iff.mp (Option.mem_toList.mp hid)
    obtain ⟨-, job₀, hjob₀, -⟩ := claimOne_some hclaim
    have hlt := (List.getElem?_eq_some_iff.mp hjob₀).1
    refine ⟨hlt.trans_le hadv.length_le, fun id' job hjob hqueued => ?_⟩
    rcases Nat.lt_or_ge id' s.jobs.length with hlt' | hle
    · obtain ⟨job', hjob', -, -, hst⟩ := hadv.kept id' _ (List.getElem?_eq_getElem hlt')
      cases hjob.symm.trans hjob'
      obtain ⟨hq, hnot⟩ := hst.mp hqueued
      have hle := claimOne_oldest hclaim (List.getElem?_eq_getElem hlt') hq
        (hlock w locked rfl ▸ List.not_mem_nil)
      refine lt_of_le_of_ne hle fun he => hnot (he ▸ hmem)
    · exact hlt.trans_le hle
  · cases hid

/-- When nothing is left to claim, the jobs that were queued or added have all been claimed. -/
theorem Advanced.drained {before after : List IngestionJob} {claimed : List Nat}
    (h : Advanced before after claimed) (hnone : claimOne [] after = none) (id : Nat) :
    id ∈ claimed ↔ (∃ job, before[id]? = some job ∧ job.status = .queued) ∨
      before.length ≤ id ∧ id < after.length := by
  refine ⟨h.queued id, fun hid => by_contra fun hnot => ?_⟩
  rcases hid with ⟨job, hjob, hqueued⟩ | ⟨hle, hlt⟩
  · obtain ⟨job', hjob', -, -, hst⟩ := h.kept id job hjob
    exact claimOne_none hnone hjob' (hst.mpr ⟨hqueued, hnot⟩)
  · have hjob' := List.getElem?_eq_getElem hlt
    exact claimOne_none hnone hjob' ((h.added id _ hle hjob').2.mpr hnot)

end

/-- Three jobs and two workers; the first dies with job 0, and nothing claims it again. -/
def crashedRun : List Label :=
  [.claim 0 [], .enqueue [], .crash 0, .claim 1 [], .raise 1 "no such source", .markFailed 1,
    .claim 1 []]

def twoIdle : System where
  jobs := [{ payload := [] }, { payload := [] }]
  workers := fun _ => .idle

theorem twoIdle_held : Held twoIdle := nofun

end KnowledgeKiln.L1.Worker
