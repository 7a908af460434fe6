import KnowledgeKiln.L1Ingest.Worker

/-!
# Who works on a job

Claiming takes a queued job under a row lock. The recovery sweep takes whatever is
`running`, and the final updates write whatever row they name. So a job has one owner
as long as no worker starts while another one is busy (`SafeStart`).

* `Inv`: the invariant of the runs with safe starts.
* `one_job_one_worker`: these runs are safe, and any other start can be continued to an
  unsafe one.
-/
namespace KnowledgeKiln.L1.Worker

open KnowledgeKiln.Core KnowledgeKiln.L1.FileProcessing KnowledgeKiln.L1.Embedding

/-! ## What the property says -/

def System.statusAt (s : System) (id : Nat) : Option JobStatus := (s.jobs[id]?).map (·.status)

/-- No job is processed by two workers. -/
def Exclusive (s : System) : Prop :=
  ∀ w w' c c', (s.workers w).claim = some c → (s.workers w').claim = some c' → c.id = c'.id → w = w'

/-- The worker's claim is the latest claim of the job, which is still running. -/
def Owns (s : System) (c : Claim) : Prop :=
  ∃ job, s.jobs[c.id]? = some job ∧ job.status = .running ∧ job.attempts = c.attempts

/-- What a step has to respect. -/
structure StepSafe (s : System) (l : Label) (s' : System) : Prop where
  exclusive : Exclusive s'
  /-- A job goes back to `queued` only when no worker processes it. -/
  requeued : ∀ id, s.statusAt id ≠ some .queued → s'.statusAt id = some .queued →
    ∀ w c, (s.workers w).claim = some c → c.id ≠ id
  /-- A final status stays. -/
  settled : ∀ id status, status = .succeeded ∨ status = .failed → s.statusAt id = some status →
    s'.statusAt id = some status
  /-- A worker that writes a final status owns the job. -/
  owned : ∀ w c, l = .markDone w ∨ l = .markFailed w → (s.workers w).claim = some c → Owns s c

/-- Every step of the run is safe. -/
def RunSafe (allowlist : List Source) (es : List Label) : Prop :=
  ∀ before l after s s', es = before ++ l :: after →
    exec (step allowlist) {} before = some s → step allowlist s l = some s' → StepSafe s l s'

/-! ## The invariant -/

/-- The jobs a worker is busy with: those it will sweep, or the one it processes. -/
def Phase.jobIds : Phase → List Nat
  | .sweeping stale => stale.map (·.1)
  | .claimed c | .running c _ | .returned c _ | .raised c _ _ _ => [c.id]
  | _ => []

/-- A worker starts only when no worker is busy. -/
def SafeStart (s : System) (l : Label) : Prop :=
  ∀ w, l = .start w → ∀ w', (s.workers w').jobIds = []

/-- Queued and running jobs have no link to a run. -/
def Unlinked (jobs : List IngestionJob) : Prop :=
  ∀ job ∈ jobs, job.status = .queued ∨ job.status = .running → job.resultRunId = none

/-- What a worker's phase says about the jobs. -/
structure Phase.Fits (jobs : List IngestionJob) (phase : Phase) : Prop where
  running : ∀ id ∈ phase.jobIds, ∃ job, jobs[id]? = some job ∧ job.status = .running
  attempts : ∀ c, phase.claim = some c → ∃ job, jobs[c.id]? = some job ∧ job.attempts = c.attempts
  links : ∀ stale, phase = .sweeping stale → ∀ p ∈ stale, p.2 = none

structure Inv (s : System) : Prop where
  unlinked : Unlinked s.jobs
  fits : ∀ w, (s.workers w).Fits s.jobs
  disjoint : ∀ w w' id, id ∈ (s.workers w).jobIds → id ∈ (s.workers w').jobIds → w = w'

theorem inv_init : Inv {} where
  unlinked := by simp [Unlinked]
  fits := fun _ => ⟨by simp [Phase.jobIds], by simp [Phase.claim], by simp⟩
  disjoint := by simp [Phase.jobIds]

section
variable {allowlist : List Source} {s s' : System} {w : Nat} {phase : Phase}
  {jobs : List IngestionJob}

theorem mem_jobIds_of_claim {c : Claim} (h : phase.claim = some c) : phase.jobIds = [c.id] := by
  cases phase <;> simp_all [Phase.claim, Phase.jobIds]

/-- A worker enters a phase that fits, and leaves the jobs of the others alone. -/
theorem Inv.enter {runs : List RunStatus} (hi : Inv s) (hu : Unlinked jobs)
    (hframe : ∀ w' ≠ w, ∀ id ∈ (s.workers w').jobIds, jobs[id]? = s.jobs[id]?)
    (hfits : phase.Fits jobs)
    (hdisj : ∀ w' ≠ w, ∀ id ∈ (s.workers w').jobIds, id ∉ phase.jobIds) :
    Inv ({ s with jobs := jobs, runs := runs }.enter w phase) where
  unlinked := hu
  fits := by
    intro w'
    by_cases hw : w' = w
    · subst hw
      rw [enter_self]
      exact hfits
    · rw [enter_of_ne hw]
      obtain ⟨hrunning, hattempts, hlinks⟩ := hi.fits w'
      refine ⟨fun id hid => ?_, fun c hc => ?_, hlinks⟩
      · obtain ⟨job, hjob, hr⟩ := hrunning id hid
        exact ⟨job, (hframe w' hw id hid).trans hjob, hr⟩
      · obtain ⟨job, hjob, ha⟩ := hattempts c hc
        have hid : c.id ∈ (s.workers w').jobIds := by simp [mem_jobIds_of_claim hc]
        exact ⟨job, (hframe w' hw c.id hid).trans hjob, ha⟩
  disjoint := by
    intro w₁ w₂ id h₁ h₂
    by_cases hw₁ : w₁ = w <;> by_cases hw₂ : w₂ = w
    · rw [hw₁, hw₂]
    · subst hw₁
      rw [enter_self] at h₁
      rw [enter_of_ne hw₂] at h₂
      exact absurd h₁ (hdisj w₂ hw₂ id h₂)
    · subst hw₂
      rw [enter_of_ne hw₁] at h₁
      rw [enter_self] at h₂
      exact absurd h₂ (hdisj w₁ hw₁ id h₁)
    · rw [enter_of_ne hw₁] at h₁
      rw [enter_of_ne hw₂] at h₂
      exact hi.disjoint w₁ w₂ id h₁ h₂

/-- A worker goes on with the job it has. -/
theorem Inv.keep {runs : List RunStatus} {c : Claim} (hi : Inv s)
    (hc : (s.workers w).claim = some c) (hp : phase.claim = some c) :
    Inv ({ s with runs := runs }.enter w phase) := by
  have hold := mem_jobIds_of_claim hc
  have hnew := mem_jobIds_of_claim hp
  refine hi.enter hi.unlinked (fun _ _ _ _ => rfl) ⟨?_, ?_, ?_⟩ ?_
  · intro id hid
    rw [hnew, ← hold] at hid
    exact (hi.fits w).running id hid
  · intro c' hc'
    rw [hp, ← hc] at hc'
    exact (hi.fits w).attempts c' hc'
  · intro stale he
    rw [he] at hp
    cases hp
  · intro w' hw id hid hmem
    rw [hnew, ← hold] at hmem
    exact hw (hi.disjoint w' w id hid hmem)

/-! ## What the writes do to a job -/

theorem getElem?_modify_of_ne {f : IngestionJob → IngestionJob} {id id' : Nat} (h : id' ≠ id) :
    (jobs.modify id f)[id']? = jobs[id']? := by
  rw [List.getElem?_modify_ne _ _ (Ne.symm h)]

theorem Unlinked.modify {f : IngestionJob → IngestionJob} {id : Nat} (hu : Unlinked jobs)
    (hf : ∀ job, jobs[id]? = some job → (f job).status = .queued ∨ (f job).status = .running →
      (f job).resultRunId = none) : Unlinked (jobs.modify id f) := by
  intro job hjob
  obtain ⟨i, hi⟩ := List.mem_iff_getElem?.mp hjob
  by_cases he : i = id
  · subst he
    rw [List.getElem?_modify_eq] at hi
    obtain ⟨old, hold, rfl⟩ := Option.map_eq_some_iff.mp hi
    exact hf old hold
  · rw [getElem?_modify_of_ne he] at hi
    exact hu job (List.mem_of_getElem? hi)

/-- A sweep whose jobs have no links requeues them all. -/
theorem recoverStale_unlinked (runs : List RunStatus) (jobs : List IngestionJob)
    {stale : List (Nat × Option Nat)} (h : ∀ p ∈ stale, p.2 = none) (id : Nat) :
    (recoverStale runs stale jobs)[id]? =
      (jobs[id]?).map fun job => if id ∈ stale.map (·.1) then job.requeue else job := by
  induction stale generalizing jobs with
  | nil => simp [recoverStale]
  | cons p stale ih =>
    obtain ⟨hlink, hstale⟩ := List.forall_mem_cons.mp h
    refine (ih _ hstale).trans ?_
    dsimp only
    rw [hlink, List.map_cons]
    by_cases he : id = p.1
    · subst he
      rw [List.getElem?_modify_eq]
      cases jobs[p.1]? with
      | none => rfl
      | some job =>
        change some (if _ then (recovered runs none job).requeue else recovered runs none job) = _
        rw [Option.map_some, if_pos List.mem_cons_self, recovered]
        split <;> rfl
    · rw [getElem?_modify_of_ne he]
      simp only [List.mem_cons, he, false_or]

theorem mem_staleJobs {p : Nat × Option Nat} : p ∈ staleJobs jobs ↔
    ∃ job, jobs[p.1]? = some job ∧ job.status = .running ∧ job.resultRunId = p.2 := by
  obtain ⟨id, link⟩ := p
  unfold staleJobs
  rw [List.mem_reverse, List.mem_filterMap]
  constructor
  · intro ⟨i, _, h⟩
    obtain ⟨job, hjob, h⟩ := Option.bind_eq_some_iff.mp h
    split at h
    · rename_i hr
      cases h
      exact ⟨job, hjob, hr, rfl⟩
    · cases h
  · intro ⟨job, hjob, hr, hl⟩
    dsimp only at hjob hl
    refine ⟨id, List.mem_range.mpr (List.getElem?_eq_some_iff.mp hjob).1, ?_⟩
    rw [hjob, Option.bind_some, if_pos hr, hl]

/-! ## One step -/

theorem inv_enqueue {payload : JsonDict} (hi : Inv s) :
    Inv { s with jobs := s.jobs ++ [{ payload := payload }] } := by
  have hkept : ∀ {id : Nat} {job : IngestionJob}, s.jobs[id]? = some job →
      (s.jobs ++ [({ payload := payload } : IngestionJob)])[id]? = some job := fun h => by
    rw [List.getElem?_append_left (List.getElem?_eq_some_iff.mp h).1, h]
  refine ⟨?_, fun w => ⟨fun id hid => ?_, fun c hc => ?_, (hi.fits w).links⟩, hi.disjoint⟩
  · intro job hjob hst
    rcases List.mem_append.mp hjob with hjob | hjob
    · exact hi.unlinked job hjob hst
    · rw [List.mem_singleton.mp hjob]
  · obtain ⟨job, hjob, hr⟩ := (hi.fits w).running id hid
    exact ⟨job, hkept hjob, hr⟩
  · obtain ⟨job, hjob, ha⟩ := (hi.fits w).attempts c hc
    exact ⟨job, hkept hjob, ha⟩

/-- A sweep finds no links. -/
theorem Inv.stale_links (hi : Inv s) : ∀ p ∈ staleJobs s.jobs, p.2 = none := by
  intro p hp
  obtain ⟨job, hjob, hr, hl⟩ := mem_staleJobs.mp hp
  rw [← hl]
  exact hi.unlinked job (List.mem_of_getElem? hjob) (.inr hr)

theorem inv_start (hi : Inv s) (hsafe : ∀ w', (s.workers w').jobIds = []) :
    Inv (s.enter w (.sweeping (staleJobs s.jobs))) := by
  refine hi.enter hi.unlinked (fun _ _ _ _ => rfl) ⟨?_, ?_, ?_⟩ ?_
  · intro id hid
    obtain ⟨p, hp, rfl⟩ := List.mem_map.mp hid
    obtain ⟨job, hjob, hr, -⟩ := mem_staleJobs.mp hp
    exact ⟨job, hjob, hr⟩
  · intro c hc
    cases hc
  · intro stale he
    cases he
    exact hi.stale_links
  · intro w' _ id hid
    rw [hsafe w'] at hid
    cases hid

theorem idle_fits : Phase.idle.Fits jobs :=
  ⟨by simp [Phase.jobIds], by simp [Phase.claim], by simp⟩

theorem down_fits : Phase.down.Fits jobs :=
  ⟨by simp [Phase.jobIds], by simp [Phase.claim], by simp⟩

theorem inv_down (hi : Inv s) : Inv (s.enter w .down) :=
  hi.enter hi.unlinked (fun _ _ _ _ => rfl) down_fits (by simp [Phase.jobIds])

theorem inv_recover {stale : List (Nat × Option Nat)} (hi : Inv s)
    (hw : s.workers w = .sweeping stale) :
    Inv ({ s with jobs := recoverStale s.runs stale s.jobs }.enter w .idle) := by
  have hfits := hi.fits w
  rw [hw] at hfits
  have hget := fun id => recoverStale_unlinked s.runs s.jobs
    (hfits.links stale rfl) id
  refine hi.enter ?_ (fun w' hw' id hid => ?_) idle_fits (by simp [Phase.jobIds])
  · intro job hjob hst
    obtain ⟨id, hid⟩ := List.mem_iff_getElem?.mp hjob
    rw [hget] at hid
    obtain ⟨old, hold, he⟩ := Option.map_eq_some_iff.mp hid
    split at he
    · rename_i hmem
      subst he
      obtain ⟨_, hrow, hr⟩ := hfits.running id hmem
      rw [hold] at hrow
      cases hrow
      exact hi.unlinked old (List.mem_of_getElem? hold) (.inr hr)
    · subst he
      exact hi.unlinked old (List.mem_of_getElem? hold) hst
  · have hmem : id ∉ stale.map (·.1) := fun hmem =>
      hw' (hi.disjoint w' w id hid (by rw [hw]; exact hmem))
    rw [hget]
    simp [hmem]

theorem inv_claim {locked : List Nat} {c : Claim} (hi : Inv s)
    (hc : claimOne locked s.jobs = some (c, jobs)) :
    Inv ({ s with jobs := jobs }.enter w (.claimed c)) := by
  obtain ⟨-, job, hjob, hq, -, ha, rfl⟩ := claimOne_some hc
  -- a queued job is on no worker's hands
  have hfree : ∀ w', c.id ∉ (s.workers w').jobIds := by
    intro w' hid
    obtain ⟨job', hjob', hr⟩ := (hi.fits w').running c.id hid
    rw [hjob] at hjob'
    cases hjob'
    rw [hq] at hr
    cases hr
  refine hi.enter (hi.unlinked.modify fun old hold _ => ?_) (fun w' _ id hid => ?_)
    ⟨?_, ?_, by simp⟩ (fun w' _ id hid hmem => ?_)
  · rw [hjob] at hold
    cases hold
    exact hi.unlinked job (List.mem_of_getElem? hjob) (.inl hq)
  · exact getElem?_modify_of_ne fun he => hfree w' (he ▸ hid)
  · intro id hid
    rw [List.mem_singleton.mp hid, List.getElem?_modify_eq, hjob]
    exact ⟨_, rfl, rfl⟩
  · intro c' hc'
    cases hc'
    rw [List.getElem?_modify_eq, hjob]
    exact ⟨_, rfl, ha.symm⟩
  · rw [List.mem_singleton.mp hmem] at hid
    exact hfree w' hid

/-- A worker writes a final status and lets the job go. -/
theorem inv_mark {f : IngestionJob → IngestionJob} {c : Claim} (hi : Inv s)
    (hc : (s.workers w).claim = some c)
    (hf : ∀ job, (f job).status = .succeeded ∨ (f job).status = .failed)
    (hphase : phase = .idle ∨ phase = .down) :
    Inv ({ s with jobs := s.jobs.modify c.id f }.enter w phase) := by
  have hids := mem_jobIds_of_claim hc
  have hnone : phase.jobIds = [] ∧ phase.Fits (s.jobs.modify c.id f) := by
    rcases hphase with rfl | rfl
    · exact ⟨rfl, idle_fits⟩
    · exact ⟨rfl, down_fits⟩
  refine hi.enter (hi.unlinked.modify fun job _ hst => ?_) (fun w' hw' id hid => ?_) hnone.2
    (by simp [hnone.1])
  · rcases hf job with h | h <;> simp [h] at hst
  · refine getElem?_modify_of_ne fun he => hw' (hi.disjoint w' w id hid ?_)
    rw [hids, he]
    exact List.mem_singleton_self _

theorem processing_claim {c : Claim} {runId : Option Nat} (h : phase.processing = some (c, runId)) :
    phase.claim = some c := by
  cases phase <;> simp_all [Phase.processing, Phase.claim]

/-- **Step.** A step of a run with safe starts keeps the invariant. -/
theorem inv_step (l : Label) (hi : Inv s) (hsafe : SafeStart s l)
    (h : step allowlist s l = some s') : Inv s' := by
  cases l with
  | enqueue payload =>
    cases h
    exact inv_enqueue hi
  | start w =>
    obtain ⟨-, rfl⟩ := step_start.mp h
    exact inv_start hi (hsafe w rfl)
  | recover w =>
    obtain ⟨stale, hw, rfl⟩ := step_recover.mp h
    exact inv_recover hi hw
  | claim w locked =>
    obtain ⟨-, c, jobs, hc, rfl⟩ := step_claim.mp h
    exact inv_claim hi hc
  | createRun w =>
    obtain ⟨c, hw, -, rfl⟩ := step_createRun.mp h
    exact hi.keep (by rw [hw]; rfl) rfl
  | endRun w status =>
    obtain ⟨c, runId, hw, -, rfl⟩ := step_endRun.mp h
    exact hi.keep (by rw [hw]; rfl) rfl
  | raise w error =>
    obtain ⟨c, runId, hp, rfl⟩ := step_raise.mp h
    exact hi.keep (processing_claim hp) rfl
  | cancel w =>
    obtain ⟨c, runId, hp, rfl⟩ := step_cancel.mp h
    exact hi.keep (processing_claim hp) rfl
  | markDone w =>
    obtain ⟨c, runId, hw, rfl⟩ := step_markDone.mp h
    exact inv_mark hi (by rw [hw]; rfl) (fun _ => .inl rfl) (.inl rfl)
  | markFailed w =>
    obtain ⟨c, runId, error, cancelled, hw, rfl⟩ := step_markFailed.mp h
    split
    · exact inv_down hi
    · refine inv_mark hi (by rw [hw]; rfl) (fun _ => .inr rfl) ?_
      cases cancelled
      · exact .inl rfl
      · exact .inr rfl
  | stop w =>
    obtain ⟨-, rfl⟩ := step_stop.mp h
    exact inv_down hi
  | crash w =>
    obtain ⟨-, rfl⟩ := step_crash.mp h
    exact inv_down hi

/-! ## Safe runs -/

theorem Inv.exclusive (hi : Inv s) : Exclusive s := by
  intro w w' c c' hc hc' he
  refine hi.disjoint w w' c.id ?_ ?_
  · simp [mem_jobIds_of_claim hc]
  · simp [mem_jobIds_of_claim hc', he]

theorem Inv.owns {c : Claim} (hi : Inv s) (hc : (s.workers w).claim = some c) : Owns s c := by
  obtain ⟨job, hjob, hr⟩ := (hi.fits w).running c.id (by simp [mem_jobIds_of_claim hc])
  obtain ⟨job', hjob', ha⟩ := (hi.fits w).attempts c hc
  rw [hjob] at hjob'
  cases hjob'
  exact ⟨job, hjob, hr, ha⟩

theorem statusAt_running (hi : Inv s) {id : Nat} (hid : id ∈ (s.workers w).jobIds) :
    s.statusAt id = some .running := by
  obtain ⟨job, hjob, hr⟩ := (hi.fits w).running id hid
  rw [System.statusAt, hjob, Option.map_some, hr]

theorem statusAt_modify {f : IngestionJob → IngestionJob} {runs : List RunStatus} {id id' : Nat} :
    ({ s with jobs := s.jobs.modify id f, runs := runs }.enter w phase).statusAt id' =
      if id' = id then (s.jobs[id]?).map fun job => (f job).status else s.statusAt id' := by
  unfold System.statusAt
  split
  · rename_i he
    subst he
    rw [enter_jobs, List.getElem?_modify_eq]
    cases s.jobs[id']? <;> rfl
  · rename_i he
    rw [enter_jobs, getElem?_modify_of_ne he]

/-- What a step does to the status of a job: nothing, or it creates the job, claims it, sweeps it
or settles it. -/
theorem step_status (l : Label) (hi : Inv s) (h : step allowlist s l = some s') (id : Nat) :
    s'.statusAt id = s.statusAt id ∨ s.statusAt id = none ∨
      (s.statusAt id = some .queued ∧ s'.statusAt id = some .running) ∨
      (s'.statusAt id = some .queued ∧ s.statusAt id = some .running ∧
        ∃ w, id ∈ (s.workers w).jobIds ∧ (s.workers w).claim = none) ∨
      (s.statusAt id = some .running ∧
        (s'.statusAt id = some .succeeded ∨ s'.statusAt id = some .failed)) := by
  cases l with
  | enqueue payload =>
    cases h
    by_cases hl : id < s.jobs.length
    · refine .inl ?_
      unfold System.statusAt
      rw [List.getElem?_append_left hl]
    · refine .inr (.inl ?_)
      unfold System.statusAt
      rw [List.getElem?_eq_none (Nat.le_of_not_lt hl)]
      rfl
  | start w =>
    obtain ⟨-, rfl⟩ := step_start.mp h
    exact .inl rfl
  | recover w =>
    obtain ⟨stale, hw, rfl⟩ := step_recover.mp h
    have hget := recoverStale_unlinked s.runs s.jobs
      ((hi.fits w).links stale hw) id
    by_cases hmem : id ∈ stale.map (·.1)
    · have hid : id ∈ (s.workers w).jobIds := by rw [hw]; exact hmem
      obtain ⟨job, hjob, -⟩ := (hi.fits w).running id hid
      refine .inr (.inr (.inr (.inl ⟨?_, statusAt_running hi hid, w, hid, by rw [hw]; rfl⟩)))
      unfold System.statusAt
      rw [enter_jobs, hget, hjob, Option.map_some, if_pos hmem]
      rfl
    · refine .inl ?_
      unfold System.statusAt
      rw [enter_jobs, hget]
      simp [hmem]
  | claim w locked =>
    obtain ⟨-, c, jobs, hc, rfl⟩ := step_claim.mp h
    obtain ⟨-, job, hjob, hq, -, -, rfl⟩ := claimOne_some hc
    by_cases he : id = c.id
    · refine .inr (.inr (.inl ⟨?_, ?_⟩))
      · rw [he, System.statusAt, hjob, Option.map_some, hq]
      · rw [statusAt_modify, if_pos he, hjob]
        rfl
    · refine .inl ?_
      rw [statusAt_modify, if_neg he]
  | createRun w =>
    obtain ⟨c, -, -, rfl⟩ := step_createRun.mp h
    exact .inl rfl
  | endRun w status =>
    obtain ⟨c, runId, -, -, rfl⟩ := step_endRun.mp h
    exact .inl rfl
  | raise w error =>
    obtain ⟨c, runId, -, rfl⟩ := step_raise.mp h
    exact .inl rfl
  | cancel w =>
    obtain ⟨c, runId, -, rfl⟩ := step_cancel.mp h
    exact .inl rfl
  | markDone w =>
    obtain ⟨c, runId, hw, rfl⟩ := step_markDone.mp h
    obtain ⟨job, hjob, hr, -⟩ := hi.owns (w := w) (c := c) (by rw [hw]; rfl)
    by_cases he : id = c.id
    · refine .inr (.inr (.inr (.inr ⟨?_, .inl ?_⟩)))
      · rw [he, System.statusAt, hjob, Option.map_some, hr]
      · rw [statusAt_modify, if_pos he, hjob]
        rfl
    · refine .inl ?_
      rw [statusAt_modify, if_neg he]
  | markFailed w =>
    obtain ⟨c, runId, error, cancelled, hw, rfl⟩ := step_markFailed.mp h
    obtain ⟨job, hjob, hr, -⟩ := hi.owns (w := w) (c := c) (by rw [hw]; rfl)
    split
    · exact .inl rfl
    · by_cases he : id = c.id
      · refine .inr (.inr (.inr (.inr ⟨?_, .inr ?_⟩)))
        · rw [he, System.statusAt, hjob, Option.map_some, hr]
        · rw [statusAt_modify, if_pos he, hjob]
          rfl
      · refine .inl ?_
        rw [statusAt_modify, if_neg he]
  | stop w =>
    obtain ⟨-, rfl⟩ := step_stop.mp h
    exact .inl rfl
  | crash w =>
    obtain ⟨-, rfl⟩ := step_crash.mp h
    exact .inl rfl

/-- **Step.** From the invariant, every step is safe. -/
theorem step_safe (l : Label) (hi : Inv s) (hsafe : SafeStart s l)
    (h : step allowlist s l = some s') : StepSafe s l s' where
  exclusive := (inv_step l hi hsafe h).exclusive
  requeued := by
    intro id hne hq w c hc he
    have hid : id ∈ (s.workers w).jobIds := by simp [mem_jobIds_of_claim hc, he]
    have hrunning := statusAt_running hi hid
    rcases step_status l hi h id with h | h | ⟨-, h⟩ | ⟨-, -, w', hid', hnone⟩ | ⟨-, h | h⟩
    · rw [← h] at hne
      exact hne hq
    · rw [hrunning] at h
      cases h
    · rw [hq] at h
      cases h
    · -- the sweeping worker would be this one
      rw [hi.disjoint w w' id hid hid', hnone] at hc
      cases hc
    · rw [hq] at h
      cases h
    · rw [hq] at h
      cases h
  settled := by
    intro id status hfinal hs
    rcases step_status l hi h id with h | h | ⟨h, -⟩ | ⟨-, h, -⟩ | ⟨h, -⟩
    · rw [h, hs]
    all_goals
      rw [hs] at h
      rcases hfinal with rfl | rfl <;> cases h
  owned := fun w c _ hc => hi.owns hc

/-- Runs with safe starts keep the invariant. -/
theorem inv_exec {es : List Label} (hg : Guarded (step allowlist) SafeStart {} es)
    (h : exec (step allowlist) {} es = some s) : Inv s :=
  exec_invariant (fun _ l _ hi hsafe hs => inv_step l hi hsafe hs) inv_init hg h

/-- Runs with safe starts are safe. -/
theorem runSafe_of_guarded {es : List Label} (hg : Guarded (step allowlist) SafeStart {} es) :
    RunSafe allowlist es := by
  intro before l after s s' he hs hstep
  subst he
  obtain ⟨hbefore, hafter⟩ := guarded_append.mp hg
  exact step_safe l (inv_exec hbefore hs) (hafter s hs).1 hstep

/-! ## Other starts -/

/-- A sweep that has listed a job which a worker processes by now takes it away. -/
theorem sweep_unsafe {es : List Label} {stale : List (Nat × Option Nat)} {c : Claim} {w' : Nat}
    (h : exec (step allowlist) {} es = some s) (hw : s.workers w = .sweeping stale)
    (hlinks : ∀ p ∈ stale, p.2 = none) (hmem : c.id ∈ stale.map (·.1))
    (hrunning : s.statusAt c.id = some .running) (hc : (s.workers w').claim = some c) :
    ¬ RunSafe allowlist (es ++ [.recover w]) := by
  intro hsafe
  have hstep : step allowlist s (.recover w) = some _ := step_recover.mpr ⟨stale, hw, rfl⟩
  have hs := hsafe es (.recover w) [] s _ rfl h hstep
  obtain ⟨job, hjob, -⟩ := Option.map_eq_some_iff.mp hrunning
  have hget := recoverStale_unlinked s.runs s.jobs hlinks c.id
  refine hs.requeued c.id (by simp [hrunning]) ?_ w' c hc rfl
  unfold System.statusAt
  rw [enter_jobs, hget, hjob, Option.map_some, if_pos hmem]
  rfl

/-- With every other row locked, a queued job is the one that is claimed. -/
theorem claimOne_only {id : Nat} {job : IngestionJob} (hjob : jobs[id]? = some job)
    (hq : job.status = .queued) :
    ∃ locked c jobs', claimOne locked jobs = some (c, jobs') ∧ c.id = id := by
  refine ⟨(List.range jobs.length).filter (· ≠ id), ?_⟩
  have hclaim : claimable jobs ((List.range jobs.length).filter (· ≠ id)) id = true := by
    simp [claimable, hjob, hq]
  unfold claimOne
  cases hfind : (List.range jobs.length).find?
      (claimable jobs ((List.range jobs.length).filter (· ≠ id))) with
  | none =>
    have hlt := (List.getElem?_eq_some_iff.mp hjob).1
    exact absurd hclaim (List.find?_eq_none.mp hfind id (List.mem_range.mpr hlt))
  | some id' =>
    have hid' := List.find?_some hfind
    have hrange := List.mem_of_find?_eq_some hfind
    have he : id' = id := by
      by_contra hne
      unfold claimable at hid'
      simp only [decide_not, Bool.and_eq_true, Bool.not_eq_true', decide_eq_false_iff_not,
        List.mem_filter, hne, not_false_eq_true, and_true] at hid'
      exact hid'.1 hrange
    subst he
    dsimp only
    rw [hjob, Option.map_some]
    exact ⟨_, _, rfl, rfl⟩

theorem sweeping_of_claim {id : Nat} (hc : phase.claim = none) (hid : id ∈ phase.jobIds) :
    ∃ stale, phase = .sweeping stale := by
  cases phase with
  | sweeping stale => exact ⟨stale, rfl⟩
  | down => cases hid
  | idle => cases hid
  | _ => cases hc

/-- A worker that starts while another one is busy can take a job from it. -/
theorem start_unsafe {es : List Label} {w' : Nat} (hi : Inv s)
    (h : exec (step allowlist) {} es = some s) (hw : s.workers w = .down)
    (hbusy : (s.workers w').jobIds ≠ []) : ∃ es', ¬ RunSafe allowlist (es ++ .start w :: es') := by
  obtain ⟨id, hid⟩ := List.exists_mem_of_ne_nil _ hbusy
  have hne : w' ≠ w := by
    intro he
    rw [he, hw] at hid
    cases hid
  have hrunning := statusAt_running hi hid
  obtain ⟨job, hjob, hr⟩ := (hi.fits w').running id hid
  have hlisted : id ∈ (staleJobs s.jobs).map (·.1) :=
    List.mem_map.mpr ⟨(id, job.resultRunId), mem_staleJobs.mpr ⟨job, hjob, hr, rfl⟩, rfl⟩
  have hstart : step allowlist s (.start w) = some _ := step_start.mpr ⟨hw, rfl⟩
  have hstarted : exec (step allowlist) {} (es ++ [.start w]) = some _ :=
    exec_append.mpr ⟨s, h, exec_cons.mpr ⟨_, hstart, rfl⟩⟩
  cases hc : (s.workers w').claim with
  | some c =>
    have hcid : id = c.id := by
      rw [mem_jobIds_of_claim hc] at hid
      exact List.mem_singleton.mp hid
    subst hcid
    refine ⟨[.recover w], ?_⟩
    rw [List.append_cons]
    exact sweep_unsafe hstarted (enter_self _ _ _) hi.stale_links hlisted hrunning
      (by rw [enter_of_ne hne, hc])
  | none =>
    -- the other sweep requeues the job, and its worker claims it
    obtain ⟨stale, hsweep⟩ := sweeping_of_claim hc hid
    have hget := recoverStale_unlinked s.runs s.jobs
      ((hi.fits w').links stale hsweep) id
    have hmem : id ∈ stale.map (·.1) := by
      rw [hsweep] at hid
      exact hid
    rw [hjob, Option.map_some, if_pos hmem] at hget
    obtain ⟨locked, c, jobs', hclaim, hcid⟩ := claimOne_only hget rfl
    obtain ⟨-, job', hjob', -, -, -, rfl⟩ := claimOne_some hclaim
    subst hcid
    let s₁ := s.enter w (.sweeping (staleJobs s.jobs))
    let s₂ := { s₁ with jobs := recoverStale s.runs stale s.jobs }.enter w' .idle
    have hrecover : step allowlist s₁ (.recover w') = some s₂ :=
      step_recover.mpr ⟨stale, by rw [enter_of_ne hne, hsweep], rfl⟩
    have hclaimed : step allowlist s₂ (.claim w' locked) = some _ :=
      step_claim.mpr ⟨enter_self _ _ _, c, _, hclaim, rfl⟩
    refine ⟨[.recover w', .claim w' locked, .recover w], ?_⟩
    have hexec : exec (step allowlist) {} (es ++ [.start w, .recover w', .claim w' locked]) = some _ :=
      exec_append.mpr ⟨s, h, exec_cons.mpr ⟨s₁, hstart, exec_cons.mpr
        ⟨s₂, hrecover, exec_cons.mpr ⟨_, hclaimed, rfl⟩⟩⟩⟩
    have hunsafe := sweep_unsafe (w := w) hexec
      (by rw [enter_of_ne hne.symm, show s₂.workers w = s₁.workers w from enter_of_ne hne.symm,
        enter_self]) hi.stale_links hlisted
      (by rw [System.statusAt, enter_jobs, List.getElem?_modify_eq, hget]; rfl)
      (by rw [enter_self]; rfl)
    rw [List.append_assoc] at hunsafe
    exact hunsafe

end

/-- **One job, one worker.** In a run whose workers start only when no other one is busy with a
job, every step is safe: a job is processed by one worker, requeued when none processes it, and a
final status stays, and is written by the job's owner. A start beside a busy worker can be
continued to a step that is not. -/
theorem one_job_one_worker (allowlist : List Source) :
    (∀ es, Guarded (step allowlist) SafeStart {} es → RunSafe allowlist es) ∧
    ∀ es s w w', Guarded (step allowlist) SafeStart {} es →
      exec (step allowlist) {} es = some s → s.workers w = .down → (s.workers w').jobIds ≠ [] →
      ∃ es', ¬ RunSafe allowlist (es ++ .start w :: es') :=
  ⟨fun _ hg => runSafe_of_guarded hg,
    fun _ _ _ _ hg h hw hbusy => start_unsafe (inv_exec hg h) h hw hbusy⟩

/-- A second worker starts while the first one processes the only job. -/
def rollingRestart : List Label :=
  [.enqueue [("source_name", .str "docs")], .start 0, .recover 0, .claim 0 [], .start 1,
    .recover 1, .claim 1 []]

/-- Its sweep requeues the job, and both workers process it. -/
theorem rolling_restart_unsafe : ¬ RunSafe [{ name := "docs" }] rollingRestart := by
  intro h
  have hsafe := h (rollingRestart.take 6) (.claim 1 []) [] _ _ rfl rfl rfl
  have hshared := hsafe.exclusive 0 1 _ _ rfl rfl rfl
  cases hshared

/-- Two workers start idle and take two jobs; the second claims while the first is processing. -/
def twoWorkers : List Label :=
  [.enqueue [("source_name", .str "docs")], .enqueue [("source_name", .str "docs")], .start 0,
    .start 1, .recover 1, .recover 0, .claim 0 [], .claim 1 []]

/-- They are safe, and beside them a third worker's start is not. -/
theorem one_job_one_worker_two :
    RunSafe [{ name := "docs" }] twoWorkers ∧
    ∃ es, ¬ RunSafe [{ name := "docs" }] (twoWorkers ++ .start 2 :: es) := by
  have hother : ∀ s l, (∀ w, l ≠ .start w) → SafeStart s l := fun _ _ h w he => absurd he (h w)
  have hguard : Guarded (step [{ name := "docs" }]) SafeStart {} twoWorkers := by
    refine .cons (hother _ _ (by simp)) rfl (.cons (hother _ _ (by simp)) rfl ?_)
    refine .cons (fun _ _ _ => rfl) rfl (.cons (fun w _ w' => ?_) rfl ?_)
    · -- the first worker has no stale job to sweep
      by_cases h0 : w' = 0
      · subst h0
        rfl
      · rw [enter_of_ne h0]
        rfl
    · refine .cons (hother _ _ (by simp)) rfl (.cons (hother _ _ (by simp)) rfl ?_)
      exact .cons (hother _ _ (by simp)) rfl (.cons (hother _ _ (by simp)) rfl trivial)
  have hsafe := one_job_one_worker [{ name := "docs" }]
  refine ⟨hsafe.1 _ hguard, ?_⟩
  exact hsafe.2 twoWorkers _ 2 0 hguard rfl rfl (List.cons_ne_nil 0 [])

end KnowledgeKiln.L1.Worker
