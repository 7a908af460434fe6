import KnowledgeKiln.Core.Run
import KnowledgeKiln.L1Ingest.RunRow

/-!
# Ingestion workers (ingestion/worker.py, db/repositories/operations.py)

Any number of workers share the tables `ingestion_jobs` and `ingestion_runs`.
`step` is one committed transaction of one worker, or an event that commits none: a
worker starts, raises, stops or dies. A worker remembers between its transactions
what its coroutine holds in local variables (`Phase`).

A job's id is its place in `jobs`, which are in the order of `enqueued_at`; a run's id is
its place in `runs`.

* `step_claim`, …: what each step asks and does.
* `runSource_simulated`: a call of `runSource` is two steps of its worker.
-/
namespace KnowledgeKiln.L1.Worker

open KnowledgeKiln.Core KnowledgeKiln.L1.FileProcessing KnowledgeKiln.L1.Embedding
  KnowledgeKiln.L1.Pipeline

/-! ## Jobs (operations.py:377-438) -/

inductive JobStatus
  | queued | running | succeeded | failed | cancelled
  deriving DecidableEq, Repr

structure IngestionJob where
  payload : JsonDict
  status : JobStatus := .queued
  attempts : Nat := 0
  lastError : Option Str := none
  resultRunId : Option Nat := none

/-- A claimed job, as the worker holds it. -/
structure Claim where
  id : Nat
  payload : JsonDict
  attempts : Nat

/-- The job at `id` is queued and no other transaction holds its row. -/
def claimable (jobs : List IngestionJob) (locked : List Nat) (id : Nat) : Bool :=
  id ∉ locked && (jobs[id]?).any (·.status = .queued)

/-- Mirrors `claim_one` (operations.py:377-416); `locked` are the rows `SKIP LOCKED` skips. -/
def claimOne (locked : List Nat) (jobs : List IngestionJob) : Option (Claim × List IngestionJob) :=
  match (List.range jobs.length).find? (claimable jobs locked) with
  | none => none
  | some id =>
    (jobs[id]?).map fun job =>
      ({ id := id, payload := job.payload, attempts := job.attempts + 1 },
        jobs.modify id fun job => { job with status := .running, attempts := job.attempts + 1 })

/-- The row after `mark_done` (operations.py:418-423). -/
def IngestionJob.markDone (resultRunId : Option Nat) (job : IngestionJob) : IngestionJob :=
  { job with status := .succeeded, resultRunId := resultRunId }

/-- The row after `mark_failed` (operations.py:425-430). -/
def IngestionJob.markFailed (error : Str) (job : IngestionJob) : IngestionJob :=
  { job with status := .failed, lastError := some error }

/-- The row after `requeue` (operations.py:432-438). -/
def IngestionJob.requeue (job : IngestionJob) : IngestionJob :=
  { job with status := .queued, lastError := none }

/-! ## The recovery sweep (worker.py:109-152) -/

/-- `run is not None and run.status in ("succeeded", "partial")` -/
def completed (runs : List RunStatus) (runId : Nat) : Bool :=
  runs[runId]? = some .succeeded || runs[runId]? = some .partialSuccess

/-- `jobs.list(status="running")`: the ids with their links, latest first. -/
def staleJobs (jobs : List IngestionJob) : List (Nat × Option Nat) :=
  ((List.range jobs.length).filterMap fun id =>
    (jobs[id]?).bind fun job =>
      if job.status = .running then some (id, job.resultRunId) else none).reverse

/-- What the sweep makes of a job that was listed with this link. -/
def recovered (runs : List RunStatus) (resultRunId : Option Nat) (job : IngestionJob) :
    IngestionJob :=
  match resultRunId with
  | some runId => if completed runs runId then job.markDone (some runId) else job.requeue
  | none => job.requeue

/-- The writes of `_recover_stale_running`. -/
def recoverStale (runs : List RunStatus) (stale : List (Nat × Option Nat))
    (jobs : List IngestionJob) : List IngestionJob :=
  stale.foldl (fun jobs p => jobs.modify p.1 (recovered runs p.2)) jobs

/-! ## Workers -/

inductive Phase
  | down
  /-- Between the list and the commit of the sweep. -/
  | sweeping (stale : List (Nat × Option Nat))
  | idle
  | claimed (c : Claim)
  /-- Inside `run_source`, whose row is committed. -/
  | running (c : Claim) (runId : Nat)
  /-- `run_source` has returned, `mark_done` is not committed. -/
  | returned (c : Claim) (runId : Nat)
  /-- `_process` has raised, `mark_failed` is not committed. -/
  | raised (c : Claim) (runId : Option Nat) (error : Str) (cancelled : Bool)

structure System where
  jobs : List IngestionJob := []
  runs : List RunStatus := []
  workers : Nat → Phase := fun _ => .down

/-- A worker goes to another phase. -/
def System.enter (s : System) (w : Nat) (phase : Phase) : System :=
  { s with workers := Function.update s.workers w phase }

inductive Label
  | enqueue (payload : JsonDict)
  | start (w : Nat)
  | recover (w : Nat)
  | claim (w : Nat) (locked : List Nat)
  /-- `run_source` commits its row. -/
  | createRun (w : Nat)
  /-- `run_source` commits the end of its row, and returns. -/
  | endRun (w : Nat) (status : RunStatus)
  /-- `_process` raises. -/
  | raise (w : Nat) (error : Str)
  | cancel (w : Nat)
  | markDone (w : Nat)
  | markFailed (w : Nat)
  | stop (w : Nat)
  | crash (w : Nat)

/-- `payload.get("source_name")`, looked up in the allowlist; `none` where `_process` raises. -/
def sourceFor (allowlist : List Source) (payload : JsonDict) : Option Source :=
  match payload.get "source_name" with
  | some (.str name) => allowlist.find? (·.name = name)
  | _ => none

/-- `"worker cancelled mid-job (SIGTERM)"` -/
def cancelledMidJob : Str := "worker cancelled mid-job (SIGTERM)"

/-- What `_process` holds when an exception leaves it: the job, and the run it has created. -/
def Phase.processing : Phase → Option (Claim × Option Nat)
  | .claimed c => some (c, none)
  | .running c runId => some (c, some runId)
  | .returned c runId => some (c, some runId)
  | _ => none

/-- One step of the system (worker.py:94-208). -/
def step (allowlist : List Source) (s : System) : Label → Option System
  | .enqueue payload => some { s with jobs := s.jobs ++ [{ payload := payload }] }
  | .start w =>
    match s.workers w with
    | .down => some (s.enter w (.sweeping (staleJobs s.jobs)))
    | _ => none
  | .recover w =>
    match s.workers w with
    | .sweeping stale => some ({ s with jobs := recoverStale s.runs stale s.jobs }.enter w .idle)
    | _ => none
  | .claim w locked =>
    match s.workers w with
    | .idle => (claimOne locked s.jobs).map fun p => { s with jobs := p.2 }.enter w (.claimed p.1)
    | _ => none
  | .createRun w =>
    match s.workers w with
    | .claimed c =>
      if (sourceFor allowlist c.payload).isSome then
        some ({ s with runs := s.runs ++ [RunStatus.running] }.enter w (.running c s.runs.length))
      else none
    | _ => none
  | .endRun w status =>
    match s.workers w with
    | .running c runId =>
      if status = .running then none
      else some ({ s with runs := s.runs.set runId status }.enter w (.returned c runId))
    | _ => none
  | .raise w error =>
    (s.workers w).processing.map fun p => s.enter w (.raised p.1 p.2 error false)
  | .cancel w =>
    (s.workers w).processing.map fun p => s.enter w (.raised p.1 p.2 cancelledMidJob true)
  | .markDone w =>
    match s.workers w with
    | .returned c runId =>
      some ({ s with jobs := s.jobs.modify c.id (.markDone (some runId)) }.enter w .idle)
    | _ => none
  | .markFailed w =>
    match s.workers w with
    | .raised c _ error cancelled =>
      -- a refused error text raises out of the poll loop, with nothing written
      if '\x00' ∈ error then some (s.enter w .down)
      else some ({ s with jobs := s.jobs.modify c.id (.markFailed error) }.enter w
        (if cancelled then .down else .idle))
    | _ => none
  | .stop w =>
    match s.workers w with
    | .idle => some (s.enter w .down)
    | _ => none
  | .crash w =>
    match s.workers w with
    | .down => none
    | _ => some (s.enter w .down)

/-- The job a live worker is processing. -/
def Phase.claim : Phase → Option Claim
  | .claimed c | .running c _ | .returned c _ | .raised c _ _ _ => some c
  | _ => none

/-- The run of that job, once there is one. -/
def Phase.run : Phase → Option Nat
  | .running _ runId | .returned _ runId => some runId
  | .raised _ runId _ _ => runId
  | _ => none

/-! ## What each step asks and does -/

@[simp] theorem enter_jobs (s : System) (w : Nat) (phase : Phase) : (s.enter w phase).jobs = s.jobs :=
  rfl

@[simp] theorem enter_runs (s : System) (w : Nat) (phase : Phase) : (s.enter w phase).runs = s.runs :=
  rfl

@[simp] theorem enter_self (s : System) (w : Nat) (phase : Phase) :
    (s.enter w phase).workers w = phase := Function.update_self _ _ _

theorem enter_of_ne {s : System} {w w' : Nat} {phase : Phase} (h : w' ≠ w) :
    (s.enter w phase).workers w' = s.workers w' := Function.update_of_ne h _ _

section
variable {allowlist : List Source} {s s' : System} {w : Nat}

theorem step_start : step allowlist s (.start w) = some s' ↔
    s.workers w = .down ∧ s' = s.enter w (.sweeping (staleJobs s.jobs)) := by
  cases h : s.workers w <;> simp [step, h, eq_comm]

theorem step_recover : step allowlist s (.recover w) = some s' ↔
    ∃ stale, s.workers w = .sweeping stale ∧
      s' = { s with jobs := recoverStale s.runs stale s.jobs }.enter w .idle := by
  cases h : s.workers w <;> simp [step, h, eq_comm]

theorem step_claim {locked : List Nat} : step allowlist s (.claim w locked) = some s' ↔
    s.workers w = .idle ∧ ∃ c jobs, claimOne locked s.jobs = some (c, jobs) ∧
      s' = { s with jobs := jobs }.enter w (.claimed c) := by
  cases h : s.workers w <;> simp [step, h, eq_comm]

theorem step_createRun : step allowlist s (.createRun w) = some s' ↔
    ∃ c, s.workers w = .claimed c ∧ (sourceFor allowlist c.payload).isSome = true ∧
      s' = { s with runs := s.runs ++ [RunStatus.running] }.enter w (.running c s.runs.length) := by
  cases h : s.workers w <;> simp [step, h, eq_comm (b := s')]

theorem step_endRun {status : RunStatus} : step allowlist s (.endRun w status) = some s' ↔
    ∃ c runId, s.workers w = .running c runId ∧ status ≠ .running ∧
      s' = { s with runs := s.runs.set runId status }.enter w (.returned c runId) := by
  cases h : s.workers w <;> simp [step, h, eq_comm]

theorem step_raise {error : Str} : step allowlist s (.raise w error) = some s' ↔
    ∃ c runId, (s.workers w).processing = some (c, runId) ∧
      s' = s.enter w (.raised c runId error false) := by
  unfold step
  simp [eq_comm]

theorem step_cancel : step allowlist s (.cancel w) = some s' ↔
    ∃ c runId, (s.workers w).processing = some (c, runId) ∧
      s' = s.enter w (.raised c runId cancelledMidJob true) := by
  unfold step
  simp [eq_comm]

theorem step_markDone : step allowlist s (.markDone w) = some s' ↔
    ∃ c runId, s.workers w = .returned c runId ∧
      s' = { s with jobs := s.jobs.modify c.id (.markDone (some runId)) }.enter w .idle := by
  cases h : s.workers w <;> simp [step, h, eq_comm]

theorem step_markFailed : step allowlist s (.markFailed w) = some s' ↔
    ∃ c runId error cancelled, s.workers w = .raised c runId error cancelled ∧
      s' = if '\x00' ∈ error then s.enter w .down
        else { s with jobs := s.jobs.modify c.id (.markFailed error) }.enter w
          (if cancelled then .down else .idle) := by
  constructor
  · intro h
    unfold step at h
    dsimp only at h
    split at h
    · rename_i c runId error cancelled hw
      refine ⟨c, runId, error, cancelled, hw, ?_⟩
      split at h <;> rename_i he <;> cases h <;> simp [he]
    · cases h
  · intro ⟨c, runId, error, cancelled, hw, he⟩
    subst he
    by_cases hz : '\x00' ∈ error <;> simp [step, hw, hz]

theorem step_stop : step allowlist s (.stop w) = some s' ↔
    s.workers w = .idle ∧ s' = s.enter w .down := by
  cases h : s.workers w <;> simp [step, h, eq_comm]

theorem step_crash : step allowlist s (.crash w) = some s' ↔
    s.workers w ≠ .down ∧ s' = s.enter w .down := by
  cases h : s.workers w <;> simp [step, h, eq_comm]

theorem claimOne_some {locked : List Nat} {jobs jobs' : List IngestionJob} {c : Claim}
    (h : claimOne locked jobs = some (c, jobs')) : c.id ∉ locked ∧ ∃ job,
      jobs[c.id]? = some job ∧ job.status = .queued ∧ c.payload = job.payload ∧
      c.attempts = job.attempts + 1 ∧
      jobs' = jobs.modify c.id fun job =>
        { job with status := .running, attempts := job.attempts + 1 } := by
  unfold claimOne at h
  split at h
  · cases h
  · rename_i id hfind
    have hclaim := List.find?_some hfind
    unfold claimable at hclaim
    simp only [decide_not, Bool.and_eq_true, Bool.not_eq_true', decide_eq_false_iff_not,
      Option.any_eq_true, decide_eq_true_eq] at hclaim
    obtain ⟨hlocked, job, hjob, hqueued⟩ := hclaim
    rw [hjob, Option.map_some] at h
    cases h
    exact ⟨hlocked, job, hjob, hqueued, rfl, rfl, rfl⟩

/-- **Simulation.** A call of `runSource` by a worker that has claimed a job for the source is two
steps of the worker: on the statuses of the runs, the calls that return create and end a run, and
the calls that raise create one and leave it. -/
theorem runSource_simulated {args : RunArgs} {fetch : Except FetchError FetchResult} {db db' : Db}
    {runId : Nat} {c : Claim} (h : Pipeline.createRun args.source db = .ok (runId, db'))
    (hruns : s.runs = Db.statuses db) (hw : s.workers w = .claimed c)
    (hsource : sourceFor allowlist c.payload = some args.source) :
    (∀ report, (runSource args fetch (Session.begin db)).1 = .ok report →
      ∃ status s', (status = .failed ↔ ∃ msg, fetch = .error (.capExceeded msg)) ∧
        exec (step allowlist) s [.createRun w, .endRun w status] = some s' ∧
        s'.runs = Db.statuses (runSource args fetch (Session.begin db)).2.durable ∧
        s'.workers w = .returned c runId) ∧
    ∀ exc, (runSource args fetch (Session.begin db)).1 = .error exc → ∀ error, ∃ s',
      exec (step allowlist) s [.createRun w, .raise w error] = some s' ∧
      s'.runs = Db.statuses (runSource args fetch (Session.begin db)).2.durable ∧
      s'.workers w = .raised c (some runId) error false := by
  obtain ⟨status, hne, hcap, hexit⟩ := runSource_exit fetch h
  have hid : runId = s.runs.length := by
    rw [(createRun_ok h).1, hruns, Db.statuses, List.length_map]
  subst hid
  let s₁ := { s with runs := s.runs ++ [RunStatus.running] }.enter w (.running c s.runs.length)
  have hcreate : step allowlist s (.createRun w) = some s₁ :=
    step_createRun.mpr ⟨c, hw, by rw [hsource]; rfl, rfl⟩
  constructor
  · intro report hr
    obtain ⟨_, -, hstatuses, -⟩ := hexit.returned report hr
    have hend : step allowlist s₁ (.endRun w status) = some _ :=
      step_endRun.mpr ⟨c, s.runs.length, enter_self _ _ _, hne, rfl⟩
    refine ⟨status, _, hcap, exec_cons.mpr ⟨s₁, hcreate, exec_cons.mpr ⟨_, hend, rfl⟩⟩, ?_,
      enter_self _ _ _⟩
    rw [hstatuses, ← hruns, enter_runs, enter_runs]
    simp
  · intro exc hr error
    have hraise : step allowlist s₁ (.raise w error) = some _ :=
      step_raise.mpr ⟨c, some s.runs.length, by rw [enter_self]; rfl, rfl⟩
    refine ⟨_, exec_cons.mpr ⟨s₁, hcreate, exec_cons.mpr ⟨_, hraise, rfl⟩⟩, ?_, enter_self _ _ _⟩
    rw [(hexit.raised exc hr).1, ← hruns]
    rfl

end

end KnowledgeKiln.L1.Worker
